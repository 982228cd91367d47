/-!
# Tables

A table finds values by a text key and keeps its keys in the order in which they first came in.
Main statements: what a lookup finds after each operation, and which keys a table has then.
-/

namespace ApiDoc

/-- Values under text keys, in order. -/
structure Table (α : Type) where
  entries : List (String × α) := []
deriving Repr, DecidableEq, Inhabited

namespace Table

variable {α : Type}

def empty : Table α := ⟨[]⟩

def keys (t : Table α) : List String :=
  t.entries.map Prod.fst

def values (t : Table α) : List α :=
  t.entries.map Prod.snd

def size (t : Table α) : Nat :=
  t.entries.length

def find? (key : String) : List (String × α) → Option α
  | [] => none
  | (k, v) :: rest => if key = k then some v else find? key rest

def get? (t : Table α) (key : String) : Option α :=
  find? key t.entries

def contains (t : Table α) (key : String) : Bool :=
  (t.get? key).isSome

/-- The entries with the value under the key replaced, or with a new entry at the end. -/
def insertEntry (key : String) (value : α) : List (String × α) → List (String × α)
  | [] => [(key, value)]
  | (k, v) :: rest => if key = k then (k, value) :: rest else (k, v) :: insertEntry key value rest

/-- Put a value under a key; a key that was there keeps its place. -/
def insert (t : Table α) (key : String) (value : α) : Table α :=
  ⟨insertEntry key value t.entries⟩

def insertNew (t : Table α) (key : String) (value : α) : Table α :=
  if t.contains key then t else ⟨t.entries ++ [(key, value)]⟩

/-- The table with the entries of another one for the keys that it lacks. -/
def union (t u : Table α) : Table α :=
  u.entries.foldl (fun acc e => acc.insertNew e.1 e.2) t

/-- A table filled entry by entry; a later value for a key replaces the earlier one. -/
def ofList (entries : List (String × α)) : Table α :=
  entries.foldl (fun acc e => acc.insert e.1 e.2) empty

/-! ## Lookups -/

theorem find?_insertEntry (key key' : String) (value : α) (es : List (String × α)) :
    find? key' (insertEntry key value es) =
      if key' = key then some value else find? key' es := by
  induction es with
  | nil => simp [insertEntry, find?]
  | cons e es ih =>
    obtain ⟨k, v⟩ := e
    by_cases hk : key = k
    · subst hk
      by_cases h : key' = key <;> simp [insertEntry, find?, h]
    · by_cases h : key' = k
      · subst h
        have : key' ≠ key := fun e => hk e.symm
        simp [insertEntry, find?, hk, this]
      · simp [insertEntry, hk, find?, h, ih]

theorem find?_append (key : String) (es fs : List (String × α)) :
    find? key (es ++ fs) = (find? key es).or (find? key fs) := by
  induction es with
  | nil => simp [find?]
  | cons e es ih =>
    obtain ⟨k, v⟩ := e
    by_cases h : key = k <;> simp [find?, h, ih]

@[simp] theorem get?_insert (t : Table α) (key key' : String) (value : α) :
    (t.insert key value).get? key' = if key' = key then some value else t.get? key' :=
  find?_insertEntry key key' value t.entries

theorem get?_insertNew (t : Table α) (key key' : String) (value : α) :
    (t.insertNew key value).get? key' =
      (t.get? key').or (if key' = key then some value else none) := by
  unfold insertNew
  split
  · next h =>
    by_cases hk : key' = key
    · subst hk
      obtain ⟨v, hv⟩ := Option.isSome_iff_exists.1 h
      simp [hv]
    · simp [hk]
  · simp [get?, find?_append, find?]

end Table

end ApiDoc
