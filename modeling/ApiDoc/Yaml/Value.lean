import ApiDoc.Data.Basic
import ApiDoc.Yaml.Node
import ApiDoc.Yaml.Number
import ApiDoc.Yaml.Timestamp

/-!
# The data of a document

A plain scalar stands for a null, a truth value, a number or a stamp when it is written like one, and
for a text otherwise; a quoted scalar is always a text. Of two entries of a map with the same key the
later value counts. The entries of other maps may be merged into a map, where they stand before its
own.

Of several faults the one least deep is reported, and of those on one level the first.
-/

namespace ApiDoc.Yaml

/-! ## Scalars -/

def nullWords : List String := ["", "~", "null", "Null", "NULL"]

def trueWords : List String :=
  ["yes", "Yes", "YES", "true", "True", "TRUE", "on", "On", "ON"]

def falseWords : List String :=
  ["no", "No", "NO", "false", "False", "FALSE", "off", "Off", "OFF"]

/-- The plain scalar that stands for no value, and for itself as a key. -/
def defaultWord : String := "="

/-- The plain scalar that as a key merges the entries of other maps. -/
def mergeWord : String := "<<"

def plainValue (s : String) : Except Fault Data :=
  if nullWords.contains s then .ok .null
  else if trueWords.contains s then .ok (.bool true)
  else if falseWords.contains s then .ok (.bool false)
  else if s = defaultWord || s = mergeWord then .error (.unknownScalar s)
  else
    match real? s.toList, int? s.toList, stamp? s.toList with
    | some x, _, _ => x.map .real
    | none, some n, _ => n.map .int
    | none, none, some t => t.map .stamp
    | none, none, none => .ok (.text s)

/-! ## Merging -/

/-- Is the node the key that merges other maps? -/
def Node.isMergeKey : Node → Bool
  | .scalar text plain => plain && text == mergeWord
  | _ => false

def Node.entries? : Node → Option (List (Node × Node))
  | .map entries => some entries
  | _ => none

/-- The entries that a merge key takes over: those of a map, or those of all maps of a list, the last
one first. -/
def Node.merged? : Node → Option (List (Node × Node))
  | .map entries => some entries
  | .list items => (items.reverse.mapM Node.entries?).map List.flatten
  | _ => none

/-- The entries that the merge keys of a map take over, and its own. A merge key that has nothing to
take over stays. -/
def mergeEntries (entries : List (Node × Node)) : List (Node × Node) :=
  let (merging, own) := entries.partition fun e => e.1.isMergeKey && e.2.merged?.isSome
  merging.flatMap (fun e => e.2.merged?.getD []) ++ own

mutual

/-- The node with all merge keys carried out. -/
def Node.merged : Node → Node
  | .map entries => .map (mergeEntries (Node.mergedEntries entries))
  | .list items => .list (Node.mergedItems items)
  | .scalar text plain => .scalar text plain
  | .codes points => .codes points

def Node.mergedItems : List Node → List Node
  | [] => []
  | n :: ns => n.merged :: Node.mergedItems ns

/-- The entries of a map, with all merge keys inside their values carried out. -/
def Node.mergedEntries : List (Node × Node) → List (Node × Node)
  | [] => []
  | (k, v) :: rest => (k, v.merged) :: Node.mergedEntries rest

end

/-! ## Documents -/

def Node.toKey : Node → Except Fault Data
  | .scalar text plain =>
    if !plain || text = defaultWord then .ok (.text text)
    else if text = mergeWord then .error .nothingToMerge
    else plainValue text
  | .codes points => .ok (.codes points)
  | .list _ => .error .collectionAsKey
  | .map _ => .error .collectionAsKey

/-- The same key. All numbers that are none are one key. -/
def isSameKey : Data → Data → Bool
  | .real x, .real y => (x.isNaN && y.isNaN) || Data.sameWithin 1 (.real x) (.real y)
  | a, b => Data.sameWithin 1 a b

/-- Put a value under a key; a key that is there already keeps its place. -/
def insertEntry (key value : Data) : List (Data × Data) → List (Data × Data)
  | [] => [(key, value)]
  | (k, v) :: rest =>
    if isSameKey k key then (k, value) :: rest else (k, v) :: insertEntry key value rest

mutual

def Node.toData : Node → Except Fault Data
  | .scalar text plain => if plain then plainValue text else .ok (.text text)
  | .codes points => .ok (.codes points)
  | .list items => (Node.itemsToData items).map .list
  | .map entries => (Node.entriesToData [] entries).map .map

def Node.itemsToData : List Node → Except Fault (List Data)
  | [] => .ok []
  | n :: ns =>
    match n.toData with
    | .error e => .error e
    | .ok d => (Node.itemsToData ns).map (d :: ·)

/-- The data of the entries of a map, behind those already read. -/
def Node.entriesToData (done : List (Data × Data)) :
    List (Node × Node) → Except Fault (List (Data × Data))
  | [] => .ok done
  | (k, v) :: rest =>
    match k.toKey with
    | .error e => .error e
    | .ok key =>
      match v.toData with
      | .error e => .error e
      | .ok value => Node.entriesToData (insertEntry key value done) rest

end

/-! ## The first fault -/

/-- The fault of a result. -/
def faultOf {α : Type} : Except Fault α → Option Fault
  | .error f => some f
  | .ok _ => none

/-- The fault of a scalar; collections have theirs further down. -/
def Node.scalarFault? : Node → Option Fault
  | .scalar text true => faultOf (plainValue text)
  | _ => none

/-- The first fault of the entries of a map: a merge key that has nothing to take over comes before
all others. -/
def entriesFault? (entries : List (Node × Node)) : Option Fault :=
  if entries.any fun e => e.1.isMergeKey then some .nothingToMerge
  else entries.findSome? fun e => (faultOf e.1.toKey).or e.2.scalarFault?

/-- The first fault of the collections that stand a number of levels down. -/
def Node.faultAt : (level : Nat) → Node → Option Fault
  | 0, .map entries => entriesFault? entries
  | 0, .list items => items.findSome? Node.scalarFault?
  | level + 1, .map entries => entries.findSome? fun e => Node.faultAt level e.2
  | level + 1, .list items => items.findSome? (Node.faultAt level)
  | _, _ => none

mutual

def Node.height : Node → Nat
  | .map entries => Node.entriesHeight entries + 1
  | .list items => Node.itemsHeight items + 1
  | .scalar _ _ => 0
  | .codes _ => 0

def Node.itemsHeight : List Node → Nat
  | [] => 0
  | n :: ns => max n.height (Node.itemsHeight ns)

def Node.entriesHeight : List (Node × Node) → Nat
  | [] => 0
  | (_, v) :: rest => max v.height (Node.entriesHeight rest)

end

/-- The fault of a node that is reported, level by level. -/
def Node.firstFault? (n : Node) : Option Fault :=
  n.scalarFault?.or ((List.range n.height).findSome? n.faultAt)

/-- The data of a text; a text without a document stands for null. -/
def read (s : String) : Except Fault Data :=
  match documentOf (tokensOf s.toList) with
  | .error f => .error f
  | .ok none => .ok .null
  | .ok (some node) =>
    match node.merged.firstFault? with
    | some f => .error f
    | none => node.merged.toData

end ApiDoc.Yaml
