import ApiDoc.Proofs.Comment.TagText

/-!
# Reading a tag with a cursor

The readers hand on what is left of a text. Here the text stays as it is and a cursor moves over it.
The brace that closes a type is searched from place to place with a running depth, a plain integer
that nothing keeps from falling below zero; the cursor moves only if the search succeeds.

* `closeFrom?_eq`: the search finds what the reader of braces stops at.
* `Cursor.readTag_eq`: the same tag is read in both ways.
* `Cursor.readBraced_exact`: what is read between braces, and where the cursor is then.
-/

namespace ApiDoc.Comment

open Text

/-! ## Moves -/

/-- A place in a text, at its end or beyond it included. -/
structure Cursor where
  text : List Char
  position : Nat
deriving Repr, DecidableEq, Inhabited

/-- From the place `i` on, the first closing brace behind which the running depth is zero. -/
def closeFrom? (text : List Char) (depth : Int) (i : Nat) : Option Nat :=
  if h : i < text.length then
    if text[i] = '{' then closeFrom? text (depth + 1) (i + 1)
    else if text[i] = '}' then
      if depth - 1 = 0 then some i else closeFrom? text (depth - 1) (i + 1)
    else closeFrom? text depth (i + 1)
  else none
termination_by text.length - i

namespace Cursor

variable (s : Cursor)

/-- What the cursor has not passed. -/
def rest : List Char :=
  s.text.drop s.position

/-- Move on by so many characters. -/
def advance (n : Nat) : Cursor :=
  { s with position := s.position + n }

/-- Pass over blanks within the line. -/
def skipBlanks : Cursor :=
  s.advance (s.rest.takeWhile isInlineBlank).length

/-- The text between the brace at the cursor and the one that closes it. The cursor moves behind the
latter, or not at all. -/
def readBraced : Option (List Char) × Cursor :=
  if s.text[s.position]? = some '{' then
    match closeFrom? s.text 0 s.position with
    | some i => (some ((s.text.take i).drop (s.position + 1)), { s with position := i + 1 })
    | none => (none, s)
  else (none, s)

/-- The word at the cursor, unless it starts with a hyphen. The cursor moves behind it, or not at
all. -/
def readName : Option (List Char) × Cursor :=
  match s.rest.takeWhile (!isBlank ·) with
  | [] => (none, s)
  | '-' :: _ => (none, s)
  | word => (some word, s.advance word.length)

/-- The tag whose body is at the cursor. -/
def readTag (source label : List Char) : Tag :=
  let (inner, s) := s.skipBlanks.readBraced
  let (word, s) := s.skipBlanks.readName
  { source := String.ofList (strip source)
    label := String.ofList label
    type := inner.bind typeOfBraces
    name := word.bind fun word => nonempty? (unescapeChars word)
    description := nonempty? (unescapeChars (descriptionOf s.rest)) }

end Cursor

/-! ## The search for the closing brace -/

theorem closeFrom?_of_nil {text : List Char} {i : Nat} (h : text.drop i = []) (depth : Int) :
    closeFrom? text depth i = none := by
  have hlength : text.length ≤ i := List.drop_eq_nil_iff.1 h
  rw [closeFrom?, dif_neg (by omega)]

theorem closeFrom?_of_cons {text cs : List Char} {c : Char} {i : Nat} (h : text.drop i = c :: cs)
    (depth : Int) :
    closeFrom? text depth i =
      if c = '{' then closeFrom? text (depth + 1) (i + 1)
      else if c = '}' then
        if depth - 1 = 0 then some i else closeFrom? text (depth - 1) (i + 1)
      else closeFrom? text depth (i + 1) := by
  have hi : i < text.length := by
    have hlength := congrArg List.length h
    rw [List.length_drop, List.length_cons] at hlength
    omega
  have hc : text[i] = c := by
    rw [List.drop_eq_getElem_cons hi] at h
    exact (List.cons.inj h).1
  rw [closeFrom?, dif_pos hi, hc]

/-- Within a pair of braces the running depth is one more than the number of braces that are open
inside of it, so that it is never below one. -/
theorem closeFrom?_eq {text cs : List Char} {i : Nat} (h : text.drop i = cs) (depth : Nat) :
    closeFrom? text (depth + 1) i = (readToBrace? depth cs).map fun r => i + r.1.length := by
  induction cs generalizing i depth with
  | nil => rw [closeFrom?_of_nil h, readToBrace?, Option.map_none]
  | cons c cs ih =>
    have htail : text.drop (i + 1) = cs := by rw [← List.tail_drop, h, List.tail_cons]
    -- unless the search ends here, one more character lies before the brace
    have hnext : ∀ d : Nat, closeFrom? text (d + 1) (i + 1) =
        ((readToBrace? d cs).map fun r => (c :: r.1, r.2)).map fun r => i + r.1.length := by
      intro d
      rw [ih htail, Option.map_map]
      congr 1
      funext r
      simp only [Function.comp_apply, List.length_cons]
      omega
    rw [closeFrom?_of_cons h, readToBrace?.eq_def]
    by_cases hopen : c = '{'
    · simp only [if_pos hopen]
      exact_mod_cast hnext (depth + 1)
    · by_cases hclose : c = '}'
      · simp only [if_neg hopen, if_pos hclose]
        cases depth with
        | zero => rfl
        | succ d =>
          have hdepth : ((d + 1 : Nat) : Int) + 1 - 1 = d + 1 := by omega
          rw [hdepth, if_neg (by omega)]
          exact hnext d
      · simp only [if_neg hopen, if_neg hclose]
        exact hnext depth

theorem closeFrom?_open {text cs : List Char} {i : Nat} (h : text.drop i = '{' :: cs) :
    closeFrom? text 0 i = (readToBrace? 0 cs).map fun r => i + 1 + r.1.length := by
  have htail : text.drop (i + 1) = cs := by rw [← List.tail_drop, h, List.tail_cons]
  rw [closeFrom?_of_cons h, if_pos rfl]
  exact closeFrom?_eq htail 0

/-! ## Reading with the cursor -/

namespace Cursor

variable {s : Cursor} {inner rest : List Char}

theorem rest_advance {a cs : List Char} (h : s.rest = a ++ cs) :
    (s.advance a.length).rest = cs := by
  rw [Cursor.rest, advance, ← List.drop_drop, ← Cursor.rest, h, List.drop_left]

theorem rest_skipBlanks (s : Cursor) : s.skipBlanks.rest = s.rest.dropWhile isInlineBlank :=
  rest_advance List.takeWhile_append_dropWhile.symm

theorem readBraced_of_braced (h : Braced s.rest inner rest) :
    s.readBraced = (some inner, s.advance (inner.length + 2)) := by
  obtain ⟨hrest, hinner⟩ := h
  have hdrop : s.text.drop s.position = '{' :: (inner ++ '}' :: rest) := hrest
  have hopen : s.text[s.position]? = some '{' := by
    rw [← List.head?_drop, hdrop, List.head?_cons]
  have hclose : closeFrom? s.text 0 s.position = some (s.position + 1 + inner.length) := by
    rw [closeFrom?_open hdrop, readToBrace?_append hinner rest, Option.map_some]
  have hslice : (s.text.take (s.position + 1 + inner.length)).drop (s.position + 1) = inner := by
    rw [List.drop_take, ← List.tail_drop, hdrop, List.tail_cons, Nat.add_sub_cancel_left,
      List.take_left]
  have hplace : s.position + 1 + inner.length + 1 = s.position + (inner.length + 2) := by omega
  rw [readBraced, if_pos hopen]
  simp only [hclose, hslice, hplace]
  rfl

theorem readBraced_of_not_braced (h : ¬ ∃ inner rest, Braced s.rest inner rest) :
    s.readBraced = (none, s) := by
  rw [readBraced]
  split
  · next hopen =>
    rw [← List.head?_drop] at hopen
    obtain ⟨cs, hdrop⟩ := List.head?_eq_some_iff.1 hopen
    have hnone : readBraced? s.rest = none := readBraced?_eq_none_iff.2 h
    rw [Cursor.rest, hdrop] at hnone
    have hclose : closeFrom? s.text 0 s.position = none := by
      rw [closeFrom?_open hdrop, show readToBrace? 0 cs = none from hnone, Option.map_none]
    simp only [hclose]
  · rfl

theorem rest_of_braced (h : Braced s.rest inner rest) :
    (s.advance (inner.length + 2)).rest = rest := by
  have hrest : s.rest = ('{' :: (inner ++ ['}'])) ++ rest := by
    rw [h.1, List.cons_append, List.append_assoc, List.singleton_append]
  have hleft := rest_advance hrest
  rwa [List.length_cons, List.length_append, List.length_singleton] at hleft

theorem splitType_rest (s : Cursor) :
    splitType s.rest = (s.readBraced.1.bind typeOfBraces, s.readBraced.2.rest) := by
  by_cases h : ∃ inner rest, Braced s.rest inner rest
  · obtain ⟨inner, rest, hbraced⟩ := h
    rw [readBraced_of_braced hbraced, splitType_of_some (readBraced?_eq_some_iff.2 hbraced),
      rest_of_braced hbraced, Option.bind_some]
  · rw [readBraced_of_not_braced h, splitType_of_none (readBraced?_eq_none_iff.2 h),
      Option.bind_none]

theorem splitName_rest (s : Cursor) :
    splitName s.rest =
      (s.readName.1.bind fun word => nonempty? (unescapeChars word), s.readName.2.rest) := by
  have hword : (s.advance (s.rest.takeWhile (!isBlank ·)).length).rest =
      s.rest.dropWhile (!isBlank ·) :=
    rest_advance List.takeWhile_append_dropWhile.symm
  rw [readName]
  split
  · next htake =>
    have hnone : readName? s.rest = none := by rw [readName?, htake]
    rw [splitName_of_none hnone, Option.bind_none]
  · next htake =>
    have hnone : readName? s.rest = none := by
      rw [readName?, htake]
      rfl
    rw [splitName_of_none hnone, Option.bind_none]
  · next hnil hhyphen =>
    have hsome : readName? s.rest =
        some (s.rest.takeWhile (!isBlank ·), s.rest.dropWhile (!isBlank ·)) := by
      rw [readName?]
      split
      · next htake => exact absurd htake hnil
      · next htake => exact absurd htake (hhyphen _)
      · rfl
    rw [splitName_of_some hsome, hword, Option.bind_some]

/-- A tag that is read with a cursor is the tag that is read off what the cursor has not passed. -/
theorem readTag_eq (s : Cursor) (source label : List Char) :
    s.readTag source label = Comment.readTag source label s.rest := by
  simp only [readTag, Comment.readTag_eq, ← rest_skipBlanks, splitType_rest, splitName_rest]

/-- **Braces are matched exactly.** The text `inner` is read between braces, and the cursor moves
right behind the closing one, exactly if at the cursor the text goes on with `inner` between braces
and `inner` is balanced. There is at most one such text. If there is none, nothing is read and the
cursor stays; and the reader of tags reads the same and goes on at the same place. -/
theorem readBraced_exact (s : Cursor) :
    (∀ inner s', s.readBraced = (some inner, s') ↔
      ∃ rest, Braced s.rest inner rest ∧ s' = s.advance (inner.length + 2)) ∧
    (∀ inner inner' rest rest', Braced s.rest inner rest → Braced s.rest inner' rest' →
      inner = inner' ∧ rest = rest') ∧
    (s.readBraced = (none, s) ↔ ¬ ∃ inner rest, Braced s.rest inner rest) ∧
    readBraced? s.rest = s.readBraced.1.map fun inner => (inner, s.readBraced.2.rest) := by
  refine ⟨fun inner s' => ?_, fun inner inner' rest rest' h h' => h.unique h', ?_, ?_⟩
  · constructor
    · intro hread
      by_cases h : ∃ inner rest, Braced s.rest inner rest
      · obtain ⟨inner', rest, hbraced⟩ := h
        rw [readBraced_of_braced hbraced] at hread
        cases hread
        exact ⟨rest, hbraced, rfl⟩
      · rw [readBraced_of_not_braced h] at hread
        cases hread
    · rintro ⟨rest, hbraced, rfl⟩
      exact readBraced_of_braced hbraced
  · refine ⟨?_, readBraced_of_not_braced⟩
    rintro hread ⟨inner, rest, hbraced⟩
    rw [readBraced_of_braced hbraced] at hread
    cases hread
  · by_cases h : ∃ inner rest, Braced s.rest inner rest
    · obtain ⟨inner, rest, hbraced⟩ := h
      rw [readBraced_of_braced hbraced, readBraced?_eq_some_iff.2 hbraced, Option.map_some,
        rest_of_braced hbraced]
    · rw [readBraced_of_not_braced h, readBraced?_eq_none_iff.2 h, Option.map_none]

/-- A pair of braces inside of another, and the outer one left open. -/
theorem readBraced_nested :
    let s : Cursor := ⟨"@p \x7ba\x7bb\x7d\x7d c\x7d".toList, 3⟩
    let unclosed : Cursor := ⟨"@p \x7ba\x7bb\x7d c".toList, 3⟩
    s.readBraced = (some "a\x7bb\x7d".toList, s.advance 6) ∧
      unclosed.readBraced = (none, unclosed) := by
  intro s unclosed
  refine ⟨((readBraced_exact s).1 _ _).2 ⟨" c\x7d".toList, by decide, rfl⟩, ?_⟩
  exact (readBraced_exact unclosed).2.2.1.2 (readBraced?_eq_none_iff.1 (by decide))

end Cursor

end ApiDoc.Comment
