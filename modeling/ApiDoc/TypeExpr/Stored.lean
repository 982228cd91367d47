import ApiDoc.Data.Read
import ApiDoc.TypeExpr.Basic

/-!
# Type expressions as stored data

A node is a map with its kind and those of its other fields that are not empty; a type expression
is the map of its tree, if it has one, with the text beside it. Reading checks the kinds and the
shape of the tree and takes any data for names, values and texts; whether those are texts is asked
in a second step, when a type expression is made of what was read.
-/

namespace ApiDoc.TypeExpr

open Data (ReadError)

/-- A node as it is stored, whatever stands for its name and its value. -/
structure StoredNode where
  kind : Kind
  name : Data := .null
  value : Data := .null
  children : List StoredNode := []
  returns : Option StoredNode := none
deriving Repr, Inhabited

/-- A type expression as it is stored, whatever stands for its text. -/
structure Stored where
  source : Data
  node : Option StoredNode := none
deriving Repr, Inhabited

/-! ## Writing -/

def presentFields (fields : List (String × Data)) : List (String × Data) :=
  fields.filter fun f => !f.2.isNull

mutual

def StoredNode.fields : StoredNode → List (String × Data)
  | ⟨kind, name, value, children, returns⟩ =>
    ("kind", .text kind.label) :: presentFields [("name", name), ("value", value),
      ("children", if children.isEmpty then .null else .list (StoredNode.childData children)),
      ("returns", StoredNode.returnsData returns)]

def StoredNode.childData : List StoredNode → List Data
  | [] => []
  | n :: ns => Data.record n.fields :: StoredNode.childData ns

def StoredNode.returnsData : Option StoredNode → Data
  | none => .null
  | some n => Data.record n.fields

end

def StoredNode.toData (n : StoredNode) : Data :=
  Data.record n.fields

def Stored.toData (t : Stored) : Data :=
  match t.node with
  | none => Data.record [("source", t.source)]
  | some n => Data.record (n.fields ++ [("source", t.source)])

/-! ## Reading -/

def kindField (d : Data) : Except ReadError Kind :=
  match d.get? "kind" with
  | none => .error (.missingKey "kind")
  | some (.text s) =>
    match Kind.ofLabel? s with
    | some k => .ok k
    | none => .error (.unknownKind (.text s))
  | some v => .error (.unknownKind v)

mutual

/-- The node that data stand for. Of several faults the kind's comes first, then those of the
operands, then those of the return type. -/
def StoredNode.ofData (d : Data) : Except ReadError StoredNode :=
  match kindField d with
  | .error e => .error e
  | .ok kind =>
    match hc : d.recordsField "children" with
    | .error e => .error e
    | .ok items =>
      have : sizeOf items ≤ sizeOf d := Data.sizeOf_recordsField hc
      match StoredNode.ofItems items with
      | .error e => .error e
      | .ok children =>
        match hr : d.recordField? "returns" with
        | .error e => .error e
        | .ok none =>
          .ok { kind, name := d.fieldOrNull "name", value := d.fieldOrNull "value", children }
        | .ok (some r) =>
          have : sizeOf r < sizeOf d := Data.sizeOf_recordField? hr
          match StoredNode.ofData r with
          | .error e => .error e
          | .ok node =>
            .ok { kind, name := d.fieldOrNull "name", value := d.fieldOrNull "value", children,
                  returns := some node }
termination_by 2 * sizeOf d + 2
decreasing_by all_goals omega

def StoredNode.ofItems (items : List Data) : Except ReadError (List StoredNode) :=
  match items with
  | [] => .ok []
  | d :: ds =>
    match StoredNode.ofData d with
    | .error e => .error e
    | .ok node =>
      match StoredNode.ofItems ds with
      | .error e => .error e
      | .ok nodes => .ok (node :: nodes)
termination_by 2 * sizeOf items + 1
decreasing_by all_goals (simp only [List.cons.sizeOf_spec]; omega)

end

/-- The type expression that data stand for: data without a kind hold the text alone. -/
def Stored.ofData (d : Data) : Except ReadError Stored :=
  match d.requiredField "source" with
  | .error e => .error e
  | .ok source =>
    match d.get? "kind" with
    | none => .ok { source }
    | some _ =>
      match StoredNode.ofData d with
      | .error e => .error e
      | .ok node => .ok { source, node := some node }

/-! ## From and to trees -/

mutual

def Node.stored : Node → StoredNode
  | ⟨kind, name, value, children, returns⟩ =>
    ⟨kind, .ofText? name, .ofText? value, Node.storedAll children, Node.stored? returns⟩

def Node.storedAll : List Node → List StoredNode
  | [] => []
  | n :: ns => n.stored :: Node.storedAll ns

def Node.stored? : Option Node → Option StoredNode
  | none => none
  | some n => some n.stored

end

mutual

/-- The node of a stored form whose names and values are texts. -/
def StoredNode.node : StoredNode → Except ReadError Node
  | ⟨kind, name, value, children, returns⟩ => do
    let name ← name.asText? "name"
    let value ← value.asText? "value"
    let children ← StoredNode.nodes children
    let returns ← StoredNode.node? returns
    return { kind, name, value, children, returns }

def StoredNode.nodes : List StoredNode → Except ReadError (List Node)
  | [] => .ok []
  | n :: ns => do
    let node ← n.node
    let nodes ← StoredNode.nodes ns
    return node :: nodes

def StoredNode.node? : Option StoredNode → Except ReadError (Option Node)
  | none => .ok none
  | some n => n.node.map some

end

def Node.toData (n : Node) : Data :=
  n.stored.toData

def Node.ofData (d : Data) : Except ReadError Node := do
  (← StoredNode.ofData d).node

def stored (t : TypeExpr) : Stored :=
  { source := .text t.source, node := t.node.map Node.stored }

def Stored.typeExpr (t : Stored) : Except ReadError TypeExpr := do
  let source ← t.source.asText "source"
  let node ← StoredNode.node? t.node
  return { source, node }

def toData (t : TypeExpr) : Data :=
  t.stored.toData

def ofData (d : Data) : Except ReadError TypeExpr := do
  (← Stored.ofData d).typeExpr

end ApiDoc.TypeExpr
