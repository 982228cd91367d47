import ApiDoc.Yaml.Lexer

/-!
# From tokens to trees

A document is a tree of scalars, lists and maps. Lists and maps are written as indented blocks or
between brackets; whatever is left out is an empty plain scalar.
-/

namespace ApiDoc.Yaml

inductive Node where
  | scalar (text : String) (plain : Bool)
  /-- A quoted scalar with halves of surrogate pairs in it, by its code points. -/
  | codes (points : List Nat)
  | list (items : List Node)
  | map (entries : List (Node × Node))
deriving Repr, Inhabited

/-- What stands where nothing is written. -/
def Node.empty : Node := .scalar "" true

inductive Context where
  | block
  /-- In a block where a list needs no indentation of its own. -/
  | blockOrEntries
  | flow
deriving DecidableEq

/-- A part of a document and the tokens after it. -/
abbrev Parsed (α : Type) := Except Fault (α × List Token)

/-- The fault of tokens that do not go on as they should: the one that ended them, or else the first
token is out of place. -/
def unexpected : List Token → Fault
  | .broken f :: _ => f
  | _ => .unexpectedToken

/-- What a part of a document is followed by, or starts with. -/
def nextIn (ts : List Token) (these : List Token) : Bool :=
  match ts with
  | [] => false
  | t :: _ => these.contains t

mutual

/-- A node. The fuel bounds the number of nested calls. -/
def readNode : (fuel : Nat) → Context → List Token → Parsed Node
  | 0, _, _ => .error .unexpectedToken
  | fuel + 1, context, ts =>
    match ts with
    | .scalar text plain :: ts => .ok (.scalar text plain, ts)
    | .codes points :: ts => .ok (.codes points, ts)
    | .listStart :: ts => (readFlowList fuel true ts).map fun r => (.list r.1, r.2)
    | .mapStart :: ts => (readFlowMap fuel true ts).map fun r => (.map r.1, r.2)
    | .blockListStart :: ts =>
      if context = .flow then .error .unexpectedToken
      else (readBlockList fuel ts).map fun r => (.list r.1, r.2)
    | .blockMapStart :: ts =>
      if context = .flow then .error .unexpectedToken
      else (readBlockMap fuel ts).map fun r => (.map r.1, r.2)
    | .entry :: ts =>
      if context = .blockOrEntries then
        (readEntries fuel (.entry :: ts)).map fun r => (.list r.1, r.2)
      else .error .unexpectedToken
    | ts => .error (unexpected ts)

/-- A node, or the empty one if a token follows that belongs to what is around it. -/
def readOrEmpty : (fuel : Nat) → Context → (followers : List Token) → List Token → Parsed Node
  | 0, _, _, _ => .error .unexpectedToken
  | fuel + 1, context, followers, ts =>
    if nextIn ts followers then .ok (.empty, ts) else readNode fuel context ts

def readBlockList : (fuel : Nat) → List Token → Parsed (List Node)
  | 0, _ => .error .unexpectedToken
  | fuel + 1, ts =>
    match ts with
    | .entry :: ts =>
      match readOrEmpty fuel .block [.entry, .blockEnd] ts with
      | .error e => .error e
      | .ok (node, ts) => (readBlockList fuel ts).map fun r => (node :: r.1, r.2)
    | .blockEnd :: ts => .ok ([], ts)
    | ts => .error (unexpected ts)

/-- Entries of a list that has no indentation of its own. -/
def readEntries : (fuel : Nat) → List Token → Parsed (List Node)
  | 0, _ => .error .unexpectedToken
  | fuel + 1, ts =>
    match ts with
    | .entry :: ts =>
      match readOrEmpty fuel .block [.entry, .key, .value, .blockEnd] ts with
      | .error e => .error e
      | .ok (node, ts) => (readEntries fuel ts).map fun r => (node :: r.1, r.2)
    | ts => .ok ([], ts)

/-- The value behind a colon, or the empty node if there is none. -/
def readValue : (fuel : Nat) → Context → (followers : List Token) → List Token → Parsed Node
  | 0, _, _, _ => .error .unexpectedToken
  | fuel + 1, context, followers, ts =>
    match ts with
    | .value :: ts => readOrEmpty fuel context followers ts
    | ts => .ok (.empty, ts)

def readBlockMap : (fuel : Nat) → List Token → Parsed (List (Node × Node))
  | 0, _ => .error .unexpectedToken
  | fuel + 1, ts =>
    let value (key : Node) (ts : List Token) : Parsed (List (Node × Node)) :=
      match readValue fuel .blockOrEntries [.key, .value, .blockEnd] ts with
      | .error e => .error e
      | .ok (node, ts) => (readBlockMap fuel ts).map fun r => ((key, node) :: r.1, r.2)
    match ts with
    | .key :: ts =>
      match readOrEmpty fuel .blockOrEntries [.key, .value, .blockEnd] ts with
      | .error e => .error e
      | .ok (key, ts) => value key ts
    | .blockEnd :: ts => .ok ([], ts)
    | ts => .error (unexpected ts)

/-- The items of a list between brackets and its end. A key makes a map of one entry. -/
def readFlowList : (fuel : Nat) → (first : Bool) → List Token → Parsed (List Node)
  | 0, _, _ => .error .unexpectedToken
  | fuel + 1, first, ts =>
    let item (ts : List Token) : Parsed (List Node) :=
      match ts with
      | .listEnd :: ts => .ok ([], ts)
      | .key :: ts =>
        match readOrEmpty fuel .flow [.value, .comma, .listEnd] ts with
        | .error e => .error e
        | .ok (key, ts) =>
          match readValue fuel .flow [.comma, .listEnd] ts with
          | .error e => .error e
          | .ok (value, ts) =>
            (readFlowList fuel false ts).map fun r => (.map [(key, value)] :: r.1, r.2)
      | ts =>
        match readNode fuel .flow ts with
        | .error e => .error e
        | .ok (node, ts) => (readFlowList fuel false ts).map fun r => (node :: r.1, r.2)
    match ts with
    | .listEnd :: ts => .ok ([], ts)
    | .comma :: ts => if first then .error .unexpectedToken else item ts
    | ts => if first then item ts else .error (unexpected ts)

def readFlowMap : (fuel : Nat) → (first : Bool) → List Token → Parsed (List (Node × Node))
  | 0, _, _ => .error .unexpectedToken
  | fuel + 1, first, ts =>
    let entry (ts : List Token) : Parsed (List (Node × Node)) :=
      match ts with
      | .mapEnd :: ts => .ok ([], ts)
      | .key :: ts =>
        match readOrEmpty fuel .flow [.value, .comma, .mapEnd] ts with
        | .error e => .error e
        | .ok (key, ts) =>
          match readValue fuel .flow [.comma, .mapEnd] ts with
          | .error e => .error e
          | .ok (value, ts) =>
            (readFlowMap fuel false ts).map fun r => ((key, value) :: r.1, r.2)
      | ts =>
        match readNode fuel .flow ts with
        | .error e => .error e
        | .ok (node, ts) => (readFlowMap fuel false ts).map fun r => ((node, .empty) :: r.1, r.2)
    match ts with
    | .mapEnd :: ts => .ok ([], ts)
    | .comma :: ts => if first then .error .unexpectedToken else entry ts
    | ts => if first then entry ts else .error (unexpected ts)

end

/-- The tokens after directives, which a document start has to follow. The version may be told once
and has to be the first one, and no handle may have two meanings. -/
def afterDirectives (versioned : Bool) (handles : List String) :
    List Token → Except Fault (List Token)
  | .directive (.version major _) :: ts =>
    if versioned || major != 1 then .error .badDirective else afterDirectives true handles ts
  | .directive (.tag handle) :: ts =>
    if handles.contains handle then .error .badDirective
    else afterDirectives versioned (handle :: handles) ts
  | .directive .other :: ts => afterDirectives versioned handles ts
  | .documentStart :: ts => .ok ts
  | ts => .error (unexpected ts)

/-- Does a document with marks of its own start here? -/
def atMarkedDocument : List Token → Bool
  | .directive _ :: _ => true
  | .documentStart :: _ => true
  | _ => false

/-- The content of a document; what stands between marks may be nothing. -/
def readContent (marked : Bool) (ts : List Token) : Parsed Node :=
  let fuel := 4 * ts.length + 4
  if marked && (atMarkedDocument ts || nextIn ts [.documentEnd, .stop]) then .ok (.empty, ts)
  else readNode fuel .block ts

/-- The tokens after a document have to be none; the marks of another one are looked at. -/
def endOfDocuments (ts : List Token) : Except Fault Unit :=
  match ts.dropWhile (· == .documentEnd) with
  | [.stop] => .ok ()
  | rest =>
    match afterDirectives false [] rest with
    | .error f => .error f
    | .ok _ => .error .severalDocuments

/-- The only document of a row of tokens, if there is one at all. -/
def documentOf (ts : List Token) : Except Fault (Option Node) :=
  match ts with
  | [.stop] => .ok none
  | ts =>
    let marked := atMarkedDocument ts
    match if marked then afterDirectives false [] ts else .ok ts with
    | .error e => .error e
    | .ok content =>
      match readContent marked content with
      | .error e => .error e
      | .ok (node, rest) => (endOfDocuments rest).map fun _ => some node

end ApiDoc.Yaml
