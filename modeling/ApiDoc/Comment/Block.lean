import ApiDoc.Comment.Content

/-!
# Comment blocks

Doc comments are found in the text of a file by their delimiters alone, without regard to the
language around them. A block starts at an opener and ends with the first `*/` after it; blocks do
not overlap. Two openers are known: `/**`, and in the wider mode also `/*`; `/**/` opens nothing.

Inside a block one star per line is decoration: it goes together with the blanks before it and at
most one blank after it.
-/

namespace ApiDoc.Comment

open Text

/-! ## Decoration -/

/-- A line without the star at its start, if there is one. -/
def dropStar (line : List Char) : List Char :=
  match line.dropWhile isInlineBlank with
  | '*' :: c :: rest => if isInlineBlank c then rest else c :: rest
  | '*' :: [] => []
  | _ => line

theorem length_dropStar_le (line : List Char) : (dropStar line).length ≤ line.length := by
  have h : (line.dropWhile isInlineBlank).length ≤ line.length :=
    (List.dropWhile_sublist _).length_le
  unfold dropStar
  split
  · next c rest hd =>
    rw [hd] at h
    simp at h
    split <;> simp <;> omega
  · simp
  · exact Nat.le_refl _

/-- The text from inside a line on: the decoration of the following lines goes. -/
def stripStarsInside (cs : List Char) : List Char :=
  match cs with
  | [] => []
  | c :: rest =>
    if c = '\n' then
      have := length_dropStar_le rest
      c :: stripStarsInside (dropStar rest)
    else c :: stripStarsInside rest
termination_by cs.length

/-- A text without the decoration of its lines. -/
def stripStars (cs : List Char) : List Char :=
  stripStarsInside (dropStar cs)

/-! ## Finding blocks -/

inductive Mode where
  /-- Those with two stars. -/
  | doc
  /-- Those with one star as well. -/
  | any
deriving Repr, DecidableEq, Inhabited

def Mode.ofSwitch (includeSingleStar : Bool) : Mode :=
  if includeSingleStar then .any else .doc

/-- The opener at the start of a text and what follows it. -/
def Mode.opener? : Mode → List Char → Option (List Char × List Char)
  | _, '/' :: '*' :: '*' :: '/' :: _ => none
  | _, '/' :: '*' :: '*' :: rest => some (['/', '*', '*'], rest)
  | .any, '/' :: '*' :: rest => some (['/', '*'], rest)
  | _, _ => none

/-- The characters before the first `*/`, and those after it. -/
def readToClose? : List Char → Option (List Char × List Char)
  | '*' :: '/' :: rest => some ([], rest)
  | c :: rest => (readToClose? rest).map fun r => (c :: r.1, r.2)
  | [] => none

/-- A block: its delimiters and what lies between them. -/
structure Block where
  opener : List Char
  body : List Char
deriving Repr, DecidableEq, Inhabited

def Block.source (b : Block) : List Char :=
  b.opener ++ b.body ++ ['*', '/']

/-- The block at the start of a text and what follows it. -/
def Mode.readBlock? (mode : Mode) (cs : List Char) : Option (Block × List Char) :=
  match mode.opener? cs with
  | none => none
  | some (opener, inside) =>
    match readToClose? inside with
    | none => none
    | some (body, rest) => some (⟨opener, body⟩, rest)

theorem readToClose?_append {cs body rest : List Char} (h : readToClose? cs = some (body, rest)) :
    cs = body ++ '*' :: '/' :: rest := by
  fun_induction readToClose? cs generalizing body rest with
  | case1 => simp at h; obtain ⟨rfl, rfl⟩ := h; rfl
  | case2 c cs _ ih =>
    obtain ⟨⟨a, b⟩, hr, he⟩ := Option.map_eq_some_iff.1 h
    simp only [Prod.mk.injEq] at he
    obtain ⟨rfl, rfl⟩ := he
    simp [ih hr]
  | case3 => simp at h

theorem Mode.opener?_append {mode : Mode} {cs opener rest : List Char}
    (h : mode.opener? cs = some (opener, rest)) : cs = opener ++ rest ∧ opener ≠ [] := by
  unfold Mode.opener? at h
  split at h <;> simp at h <;> obtain ⟨rfl, rfl⟩ := h <;> simp

/-- A block is the front of the text it is read from. -/
theorem Mode.readBlock?_append {mode : Mode} {cs rest : List Char} {b : Block}
    (h : mode.readBlock? cs = some (b, rest)) : cs = b.source ++ rest := by
  unfold Mode.readBlock? at h
  split at h
  · simp at h
  · next opener inside ho =>
    split at h
    · simp at h
    · next body tail hc =>
      simp at h
      obtain ⟨rfl, rfl⟩ := h
      rw [(Mode.opener?_append ho).1, readToClose?_append hc]
      simp [Block.source]

theorem Mode.length_readBlock? {mode : Mode} {cs rest : List Char} {b : Block}
    (h : mode.readBlock? cs = some (b, rest)) : rest.length < cs.length := by
  rw [Mode.readBlock?_append h]
  simp [Block.source]
  omega

/-- The blocks of a text from left to right. -/
def Mode.blocks (mode : Mode) (cs : List Char) : List Block :=
  match cs with
  | [] => []
  | c :: rest =>
    match h : mode.readBlock? (c :: rest) with
    | none => mode.blocks rest
    | some (b, after) =>
      have : after.length < (c :: rest).length := Mode.length_readBlock? h
      b :: mode.blocks after
termination_by cs.length
decreasing_by all_goals (simp only [List.length_cons] at *; omega)

/-! ## Comments -/

def ofBlock (b : Block) : Comment :=
  { source := String.ofList b.source, content := partsOf (stripStars b.body) }

def extract (mode : Mode) (source : String) : List Comment :=
  (mode.blocks source.toList).map ofBlock

end ApiDoc.Comment
