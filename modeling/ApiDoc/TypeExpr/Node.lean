/-!
# Trees of type expressions

A type expression such as `Array<string|number>` is read into a tree of nodes. A node has a kind,
and according to the kind a name, a literal value, operands and a return type; no combination is
ruled out by the type, because trees also come from stored data. Which combinations the parser
builds is the matter of theorems, not of this module.
-/

namespace ApiDoc.TypeExpr

inductive Kind where
  /-- An identifier, possibly dotted. -/
  | name
  /-- The type of all values, `*`. -/
  | any
  /-- An unknown type, a lone `?`. -/
  | unknown
  /-- Alternatives, `A|B`. -/
  | union
  /-- A name with type arguments, `Map<K, V>`. -/
  | generic
  /-- A record, `{k: T}`. -/
  | record
  | recordEntry
  /-- A function, `function(A, B): R`. -/
  | function
  /-- `?T` or `T?`. -/
  | nullable
  /-- `!T` or `T!`. -/
  | notNullable
  /-- `T=`. -/
  | optional
  /-- `...T`, or `...` alone. -/
  | variadic
  /-- `(T)`. -/
  | parenthesis
  /-- A string literal. -/
  | stringValue
  /-- A number literal. -/
  | numberValue
deriving Repr, DecidableEq, Inhabited

def Kind.label : Kind → String
  | .name => "NAME"
  | .any => "ANY"
  | .unknown => "UNKNOWN"
  | .union => "UNION"
  | .generic => "GENERIC"
  | .record => "RECORD"
  | .recordEntry => "RECORD_ENTRY"
  | .function => "FUNCTION"
  | .nullable => "NULLABLE"
  | .notNullable => "NOT_NULLABLE"
  | .optional => "OPTIONAL"
  | .variadic => "VARIADIC"
  | .parenthesis => "PARENTHESIS"
  | .stringValue => "STRING_VALUE"
  | .numberValue => "NUMBER_VALUE"

def Kind.all : List Kind :=
  [.name, .any, .unknown, .union, .generic, .record, .recordEntry, .function, .nullable,
    .notNullable, .optional, .variadic, .parenthesis, .stringValue, .numberValue]

def Kind.ofLabel? (s : String) : Option Kind :=
  Kind.all.find? fun k => k.label == s

theorem Kind.ofLabel?_label (k : Kind) : Kind.ofLabel? k.label = some k := by
  cases k <;> decide

/-- A node of the tree. -/
structure Node where
  kind : Kind
  /-- The identifier, the generic's name, or the key of a record entry. -/
  name : Option String := none
  value : Option String := none
  /-- Alternatives, arguments, entries, parameters, or the single operand of a modifier. -/
  children : List Node := []
  returns : Option Node := none
deriving Repr, Inhabited

mutual

def Node.decEq : (a b : Node) → Decidable (a = b)
  | ⟨k₁, n₁, v₁, c₁, r₁⟩, ⟨k₂, n₂, v₂, c₂, r₂⟩ =>
    have : Decidable (c₁ = c₂) := Node.decEqList c₁ c₂
    have : Decidable (r₁ = r₂) := Node.decEqOption r₁ r₂
    decidable_of_iff (k₁ = k₂ ∧ n₁ = n₂ ∧ v₁ = v₂ ∧ c₁ = c₂ ∧ r₁ = r₂) (by simp)

def Node.decEqList : (a b : List Node) → Decidable (a = b)
  | [], [] => isTrue rfl
  | [], _ :: _ => isFalse (by simp)
  | _ :: _, [] => isFalse (by simp)
  | a :: as, b :: bs =>
    have : Decidable (a = b) := Node.decEq a b
    have : Decidable (as = bs) := Node.decEqList as bs
    decidable_of_iff (a = b ∧ as = bs) (by simp)

def Node.decEqOption : (a b : Option Node) → Decidable (a = b)
  | none, none => isTrue rfl
  | none, some _ => isFalse (by simp)
  | some _, none => isFalse (by simp)
  | some a, some b =>
    have : Decidable (a = b) := Node.decEq a b
    decidable_of_iff (a = b) (by simp)

end

instance : DecidableEq Node := Node.decEq

end ApiDoc.TypeExpr
