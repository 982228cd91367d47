/-!
# Lines

A text is one or more lines divided by line feeds; a carriage return is an ordinary character of
its line. Main statements: dividing and joining undo each other, and dividing a text that was put
together at a line feed divides the two parts.
-/

namespace ApiDoc.Text

/-- The parts of a text between the separators: always one more than there are separators. -/
def splitAt (sep : Char) : List Char → List (List Char)
  | [] => [[]]
  | c :: cs =>
    if c = sep then [] :: splitAt sep cs
    else
      match splitAt sep cs with
      | [] => [[c]]
      | line :: rest => (c :: line) :: rest

/-- The parts put together again, with the separator between each two. -/
def joinWith (sep : List Char) : List (List Char) → List Char
  | [] => []
  | [part] => part
  | part :: rest => part ++ sep ++ joinWith sep rest

def lines (cs : List Char) : List (List Char) :=
  splitAt '\n' cs

/-- Lines put together with a line feed between each two. -/
def unlines (ls : List (List Char)) : List Char :=
  joinWith ['\n'] ls

/-- The characters with every carriage return, with or without a line feed after it, read as a
line feed. -/
def normalizeNewlines : List Char → List Char
  | [] => []
  | '\r' :: '\n' :: cs => '\n' :: normalizeNewlines cs
  | c :: cs => (if c = '\r' then '\n' else c) :: normalizeNewlines cs

/-! ## Dividing and joining -/

theorem splitAt_ne_nil (sep : Char) (cs : List Char) : splitAt sep cs ≠ [] := by
  cases cs with
  | nil => simp [splitAt]
  | cons c cs =>
    unfold splitAt
    split
    · simp
    · split <;> simp

theorem joinWith_splitAt (sep : Char) (cs : List Char) :
    joinWith [sep] (splitAt sep cs) = cs := by
  induction cs with
  | nil => simp [splitAt, joinWith]
  | cons c cs ih =>
    unfold splitAt
    split
    · next h =>
      subst h
      match hs : splitAt c cs, splitAt_ne_nil c cs with
      | p :: ps, _ => rw [hs] at ih; simp [joinWith, ih]
    · split
      · next hs => exact absurd hs (splitAt_ne_nil sep cs)
      · next p ps hs =>
        rw [hs] at ih
        cases ps with
        | nil => simp [joinWith] at ih ⊢; exact ih
        | cons q qs => simp [joinWith] at ih ⊢; exact ih

theorem splitAt_append (sep : Char) (a b : List Char) :
    splitAt sep (a ++ sep :: b) = splitAt sep a ++ splitAt sep b := by
  induction a with
  | nil => simp [splitAt]
  | cons c cs ih =>
    simp only [List.cons_append, splitAt]
    split
    · simp [ih]
    · rw [ih]
      match hs : splitAt sep cs, splitAt_ne_nil sep cs with
      | p :: ps, _ => simp

theorem unlines_lines (cs : List Char) : unlines (lines cs) = cs :=
  joinWith_splitAt '\n' cs

theorem lines_append (a b : List Char) : lines (a ++ '\n' :: b) = lines a ++ lines b :=
  splitAt_append '\n' a b

end ApiDoc.Text
