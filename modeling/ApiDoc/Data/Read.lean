import ApiDoc.Data.Basic

/-!
# Reading records from data

Stored records are maps with known keys. Reading one fails with a cause: a key that has to be
there and is not, a word outside a fixed list, or a value of another shape than the record needs.
-/

namespace ApiDoc.Data

/-- Why data are not a record of the wanted form. -/
inductive ReadError where
  | missingKey (key : String)
  | unknownKind (value : Data)
  | unknownAccess (value : Data)
  | wrongShape (key : String)
deriving Repr, Inhabited

def ReadError.message : ReadError → String
  | missingKey key => Text.quote key
  | unknownKind value => value.literal ++ " is not a valid TypeKind"
  | unknownAccess value => value.literal ++ " is not a valid Access"
  | wrongShape key => "unexpected value for " ++ Text.quote key

/-! ## Values under a key -/

/-- The value under a key that has to be there. -/
def requiredField (d : Data) (key : String) : Except ReadError Data :=
  match d.get? key with
  | none => .error (.missingKey key)
  | some v => .ok v

/-- The value under a key, null if the key is not there. -/
def fieldOrNull (d : Data) (key : String) : Data :=
  (d.get? key).getD .null

/-- A record that may be absent, null or empty. -/
def recordField? (d : Data) (key : String) : Except ReadError (Option Data) :=
  match d.get? key with
  | none => .ok none
  | some v =>
    if v.isTruthy then
      match v with
      | .map entries => .ok (some (.map entries))
      | _ => .error (.wrongShape key)
    else .ok none

/-- What a value is made up of: the items of a list, the characters of a text, the keys of a
map. -/
def items? : Data → Option (List Data)
  | list items => some items
  | text s => some (s.toList.map fun c => text (String.singleton c))
  | codes points =>
    some (points.map fun n =>
      if n.isValidChar then text (String.singleton (Char.ofNat n)) else codes [n])
  | map entries => some (entries.map Prod.fst)
  | _ => none

/-- The items of a value that may be absent. -/
def itemsField (d : Data) (key : String) : Except ReadError (List Data) :=
  match d.get? key with
  | none => .ok []
  | some v =>
    match v.items? with
    | some items => .ok items
    | none => .error (.wrongShape key)

/-- The items of a value that may be absent, where every item has to be a record. Characters and
keys are none, so of texts and maps only the empty ones will do. -/
def recordsField (d : Data) (key : String) : Except ReadError (List Data) :=
  match d.get? key with
  | none => .ok []
  | some (.list items) => .ok items
  | some v => if v.items?.any List.isEmpty then .ok [] else .error (.wrongShape key)

/-! ## Values of a type -/

def asText (key : String) : Data → Except ReadError String
  | .text s => .ok s
  | _ => .error (.wrongShape key)

def asText? (key : String) : Data → Except ReadError (Option String)
  | .null => .ok none
  | .text s => .ok (some s)
  | _ => .error (.wrongShape key)

/-! ## What is inside a map is smaller than the map -/

theorem sizeOf_lookup {key : String} {entries : List (Data × Data)} {v : Data}
    (h : lookup key entries = some v) : sizeOf v < sizeOf entries := by
  fun_induction lookup key entries with
  | case1 => simp at h
  | case2 w rest => simp at h; subst h; simp; omega
  | case3 k w rest _ ih => have := ih h; simp; omega
  | case4 e rest _ ih => have := ih h; simp; omega

theorem sizeOf_get? {d v : Data} {key : String} (h : d.get? key = some v) :
    sizeOf v < sizeOf d := by
  cases d with
  | map entries =>
    have := sizeOf_lookup (show lookup key entries = some v from h)
    simp
    omega
  | _ => simp [get?] at h

theorem sizeOf_recordsField {d : Data} {key : String} {items : List Data}
    (h : d.recordsField key = .ok items) : sizeOf items ≤ sizeOf d := by
  have hnil : sizeOf ([] : List Data) ≤ sizeOf d := by
    cases d <;> simp +arith
  unfold recordsField at h
  split at h
  · cases h
    exact hnil
  · next xs hg =>
    cases h
    have := sizeOf_get? hg
    simp at this
    omega
  · split at h
    · cases h
      exact hnil
    · cases h

theorem sizeOf_recordField? {d v : Data} {key : String}
    (h : d.recordField? key = .ok (some v)) : sizeOf v < sizeOf d := by
  unfold recordField? at h
  split at h
  · cases h
  · next w hg =>
    split at h
    · split at h
      · cases h; exact sizeOf_get? hg
      · cases h
    · cases h

end ApiDoc.Data
