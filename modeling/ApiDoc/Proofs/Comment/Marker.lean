import ApiDoc.Comment.Content
import ApiDoc.Proofs.Text.Classes
import ApiDoc.Proofs.Text.Strip

/-!
# Marker lines

Where the text of a comment is divided. A line that starts a tag is said by its shape (`Marks`),
and a text that is never divided after its first line by its places of division (`Quiet`).

* `isMarkerLine_iff`: the lexical test is the shape.
* `marks_iff_first_line`, `Quiet.lines`: texts by their lines.
* `divide_lines`: a text without marker lines before texts that each start a tag and are quiet is
  divided into just these.
-/

namespace ApiDoc.Comment

open Text

/-! ## The shape of a marker -/

/-- Blanks within a line, an `@` and a letter. -/
def Marks (cs : List Char) : Prop :=
  ∃ blanks c rest, cs = blanks ++ '@' :: c :: rest ∧
    (∀ b ∈ blanks, isInlineBlank b = true) ∧ isAsciiLetter c = true

/-- No line after the first starts a tag. -/
def Quiet (cs : List Char) : Prop :=
  ∀ before after, cs = before ++ '\n' :: after → ¬ Marks after

theorem not_marks_nil : ¬ Marks [] := by
  rintro ⟨blanks, c, rest, h, -⟩
  exact absurd h (by simp)

theorem marks_cons {c : Char} {cs : List Char} :
    Marks (c :: cs) ↔ (isInlineBlank c = true ∧ Marks cs) ∨
      (c = '@' ∧ ∃ d rest, cs = d :: rest ∧ isAsciiLetter d = true) := by
  constructor
  · rintro ⟨blanks, d, rest, h, hblanks, hd⟩
    cases blanks with
    | nil =>
      obtain ⟨rfl, rfl⟩ := List.cons.inj h
      exact Or.inr ⟨rfl, d, rest, rfl, hd⟩
    | cons b blanks =>
      obtain ⟨rfl, rfl⟩ := List.cons.inj h
      obtain ⟨hb, hmore⟩ := List.forall_mem_cons.1 hblanks
      exact Or.inl ⟨hb, blanks, d, rest, rfl, hmore, hd⟩
  · rintro (⟨hc, blanks, d, rest, rfl, hblanks, hd⟩ | ⟨rfl, d, rest, rfl, hd⟩)
    · exact ⟨c :: blanks, d, rest, rfl, List.forall_mem_cons.2 ⟨hc, hblanks⟩, hd⟩
    · exact ⟨[], d, rest, rfl, List.forall_mem_nil _, hd⟩

theorem Marks.append {cs : List Char} (h : Marks cs) (more : List Char) : Marks (cs ++ more) := by
  obtain ⟨blanks, c, rest, rfl, hblanks, hc⟩ := h
  exact ⟨blanks, c, rest ++ more, by simp, hblanks, hc⟩

/-- A text that completes no marker that stands unfinished before it, and starts none. -/
structure Severs (cs : List Char) : Prop where
  not_marks : ¬ Marks cs
  head : ∀ c ∈ cs.head?, isAsciiLetter c = false

theorem Marks.of_append {cs more : List Char} (hmore : Severs more) (h : Marks (cs ++ more)) :
    Marks cs := by
  induction cs with
  | nil => exact absurd h hmore.not_marks
  | cons c cs ih =>
    rcases marks_cons.1 h with ⟨hb, hrest⟩ | ⟨rfl, d, rest, hcs, hd⟩
    · exact marks_cons.2 (Or.inl ⟨hb, ih hrest⟩)
    · cases cs with
      | nil =>
        have hfalse := hmore.head d (by rw [show more = d :: rest from hcs]; rfl)
        rw [hfalse] at hd
        cases hd
      | cons e cs =>
        obtain ⟨rfl, -⟩ := List.cons.inj hcs
        exact marks_cons.2 (Or.inr ⟨rfl, e, cs, rfl, hd⟩)

/-- A character that is neither part of a marker nor a blank in front of one. -/
def Breaks (c : Char) : Prop :=
  isBlank c = false ∧ c ≠ '@' ∧ isAsciiLetter c = false

instance (c : Char) : Decidable (Breaks c) :=
  inferInstanceAs (Decidable (_ ∧ _))

theorem Breaks.severs {x : Char} (hx : Breaks x) (more : List Char) : Severs (x :: more) where
  not_marks h := by
    rcases marks_cons.1 h with ⟨hb, -⟩ | ⟨hat, -⟩
    · rw [isInlineBlank_eq_false hx.1] at hb
      cases hb
    · exact hx.2.1 hat
  head c hc := by
    obtain rfl := Option.some.inj hc
    exact hx.2.2

theorem severs_newline (more : List Char) : Severs ('\n' :: more) where
  not_marks h := by
    rcases marks_cons.1 h with ⟨hb, -⟩ | ⟨hat, -⟩
    · exact absurd hb (by decide)
    · exact absurd hat (by decide)
  head c hc := by
    obtain rfl := Option.some.inj hc
    rfl

theorem severs_of_isBlankText {ws : List Char} (h : isBlankText ws = true) : Severs ws where
  not_marks hmarks := by
    obtain ⟨blanks, c, rest, rfl, -, -⟩ := hmarks
    exact absurd (List.all_eq_true.1 h '@' (by simp)) (by decide)
  head c hc := by
    have hblank := List.all_eq_true.1 h c (List.mem_of_mem_head? hc)
    rw [Bool.eq_false_iff]
    intro hletter
    rw [isBlank_eq_false_of_isAsciiLetter hletter] at hblank
    cases hblank

theorem readMarker?_label {label body : List Char} (hne : label ≠ [])
    (hlabel : ∀ c ∈ label, isAsciiLetter c = true)
    (hbody : ∀ c ∈ body.head?, isAsciiLetter c = false) :
    readMarker? ('@' :: (label ++ body)) = some (label, body) := by
  obtain ⟨htake, hdrop⟩ := span_append hlabel hbody
  have hmark : ('@' :: (label ++ body)).dropWhile isInlineBlank = '@' :: (label ++ body) := rfl
  rw [readMarker?, hmark]
  simp only [htake, hdrop]

/-- The lexical test is the shape. -/
theorem isMarkerLine_iff {line : List Char} : isMarkerLine line = true ↔ Marks line := by
  induction line with
  | nil => exact ⟨nofun, fun h => absurd h not_marks_nil⟩
  | cons c cs ih =>
    rw [marks_cons]
    by_cases hb : isInlineBlank c = true
    · have hskip : isMarkerLine (c :: cs) = isMarkerLine cs := by
        rw [isMarkerLine, readMarker?, List.dropWhile_cons_of_pos hb]
        rfl
      have hat : c ≠ '@' := by
        rintro rfl
        exact absurd hb (by decide)
      rw [hskip, ih]
      simp [hb, hat]
    · rw [isMarkerLine, readMarker?, List.dropWhile_cons_of_neg hb]
      by_cases hat : c = '@'
      · subst hat
        cases cs with
        | nil => simp [hb]
        | cons d rest =>
          by_cases hd : isAsciiLetter d = true
          · simp [hd]
          · simp [hd, hb]
      · simp [hat, hb]

instance (cs : List Char) : Decidable (Marks cs) :=
  decidable_of_iff _ isMarkerLine_iff

/-! ## Texts that are not divided -/

theorem quiet_nil : Quiet [] := by
  intro before after h
  exact absurd h (by simp)

theorem quiet_cons {c : Char} {cs : List Char} :
    Quiet (c :: cs) ↔ (c = '\n' → ¬ Marks cs) ∧ Quiet cs := by
  constructor
  · intro h
    refine ⟨?_, ?_⟩
    · rintro rfl
      exact h [] cs rfl
    · rintro before after rfl
      exact h (c :: before) after rfl
  · rintro ⟨hfirst, hrest⟩ before after h
    cases before with
    | nil =>
      obtain ⟨rfl, rfl⟩ := List.cons.inj h
      exact hfirst rfl
    | cons b before => exact hrest before after (List.cons.inj h).2

instance decidableQuiet : (cs : List Char) → Decidable (Quiet cs)
  | [] => isTrue quiet_nil
  | _ :: cs =>
    have := decidableQuiet cs
    decidable_of_iff _ quiet_cons.symm

theorem Quiet.of_infix {cs ds : List Char} (h : Quiet cs) (hpart : ds <:+: cs) : Quiet ds := by
  obtain ⟨a, b, rfl⟩ := hpart
  rintro before after rfl hmarks
  exact h (a ++ before) (after ++ b) (by simp) (hmarks.append b)

theorem Quiet.append_left {a b : List Char} (ha : '\n' ∉ a) (hb : Quiet b) : Quiet (a ++ b) := by
  induction a with
  | nil => exact hb
  | cons c a ih =>
    refine quiet_cons.2 ⟨?_, ih fun hmem => ha (List.mem_cons_of_mem _ hmem)⟩
    rintro rfl
    exact absurd List.mem_cons_self ha

theorem Quiet.append {a b : List Char} (hsevers : Severs b) (ha : Quiet a) (hb : Quiet b) :
    Quiet (a ++ b) := by
  induction a with
  | nil => exact hb
  | cons c a ih =>
    obtain ⟨hfirst, hrest⟩ := quiet_cons.1 ha
    exact quiet_cons.2 ⟨fun hc hmarks => hfirst hc (hmarks.of_append hsevers), ih hrest⟩

theorem Quiet.append_break {a b : List Char} {x : Char} (hx : Breaks x) (ha : Quiet a)
    (hb : Quiet b) : Quiet (a ++ x :: b) := by
  refine ha.append (hx.severs b) (quiet_cons.2 ⟨?_, hb⟩)
  rintro rfl
  exact absurd hx (by decide)

theorem Quiet.append_blank {a ws : List Char} (hws : isBlankText ws = true) (ha : Quiet a) :
    Quiet (a ++ ws) := by
  refine ha.append (severs_of_isBlankText hws) ?_
  rintro before after rfl
  refine (severs_of_isBlankText (List.all_eq_true.2 fun c hc => ?_)).not_marks
  exact List.all_eq_true.1 hws c (by simp [hc])

/-- A text starts with a marker exactly when its first line does. -/
theorem marks_iff_first_line {cs first : List Char} {more : List (List Char)}
    (h : lines cs = first :: more) : Marks cs ↔ Marks first := by
  have hjoin := unlines_lines cs
  rw [h] at hjoin
  cases more with
  | nil =>
    obtain rfl : first = cs := hjoin
    exact Iff.rfl
  | cons next more =>
    rw [unlines_cons first (List.cons_ne_nil _ _)] at hjoin
    rw [← hjoin]
    exact ⟨Marks.of_append (severs_newline _), fun hfirst => hfirst.append _⟩

theorem Quiet.lines {cs first : List Char} {more : List (List Char)} (hq : Quiet cs)
    (h : lines cs = first :: more) : ∀ line ∈ more, isMarkerLine line = false := by
  induction cs generalizing first more with
  | nil =>
    obtain ⟨-, rfl⟩ := List.cons.inj h
    exact List.forall_mem_nil _
  | cons c cs ih =>
    obtain ⟨hfirst, hrest⟩ := quiet_cons.1 hq
    obtain ⟨first', more', hlines⟩ := exists_lines cs
    -- the first line of `cs` is a later line of the whole text exactly behind a line feed
    by_cases hc : c = '\n'
    · subst hc
      rw [lines_cons_newline, hlines] at h
      obtain ⟨-, rfl⟩ := List.cons.inj h
      refine List.forall_mem_cons.2 ⟨?_, ih hrest hlines⟩
      rw [Bool.eq_false_iff]
      intro hmark
      exact hfirst rfl ((marks_iff_first_line hlines).2 (isMarkerLine_iff.1 hmark))
    · rw [lines_cons hc hlines] at h
      obtain ⟨-, rfl⟩ := List.cons.inj h
      exact ih hrest hlines

theorem plain_lines_of_quiet {cs : List Char} (hquiet : Quiet cs) (hmarks : ¬ Marks cs) :
    ∀ line ∈ lines cs, isMarkerLine line = false := by
  obtain ⟨first, more, hlines⟩ := exists_lines cs
  rw [hlines]
  refine List.forall_mem_cons.2 ⟨?_, hquiet.lines hlines⟩
  rw [Bool.eq_false_iff]
  intro hmark
  exact hmarks ((marks_iff_first_line hlines).2 (isMarkerLine_iff.1 hmark))

/-! ## Dividing -/

theorem divide_append {ls : List (List Char)} (h : ∀ line ∈ ls, isMarkerLine line = false)
    (rest : List (List Char)) :
    divide (ls ++ rest) = (ls ++ (divide rest).1, (divide rest).2) := by
  induction ls with
  | nil => rfl
  | cons line ls ih =>
    obtain ⟨hline, hls⟩ := List.forall_mem_cons.1 h
    rw [List.cons_append, divide, ih hls]
    simp only [hline, Bool.false_eq_true, if_false, List.cons_append]

theorem divide_plain {ls : List (List Char)} (h : ∀ line ∈ ls, isMarkerLine line = false) :
    divide ls = (ls, []) := by
  have hdivide := divide_append h []
  rw [List.append_nil] at hdivide
  rw [hdivide, divide, List.append_nil]

theorem divide_marker {line : List Char} (hline : isMarkerLine line = true)
    (rest : List (List Char)) :
    divide (line :: rest) = ([], (line :: (divide rest).1) :: (divide rest).2) := by
  rw [divide]
  simp only [hline, if_true]

/-- A text that starts a tag and is not divided further. -/
structure Section (cs : List Char) : Prop where
  start : ∃ c rest, cs = '@' :: c :: rest ∧ isAsciiLetter c = true
  quiet : Quiet cs

theorem Section.lines {cs : List Char} (h : Section cs) :
    ∃ first more, lines cs = first :: more ∧ isMarkerLine first = true ∧
      ∀ line ∈ more, isMarkerLine line = false := by
  obtain ⟨c, rest, rfl, hc⟩ := h.start
  obtain ⟨first, more, hlines⟩ := exists_lines rest
  have hne : c ≠ '\n' := by
    rintro rfl
    exact absurd hc (by decide)
  have hall : Text.lines ('@' :: c :: rest) = ('@' :: c :: first) :: more :=
    lines_cons (by decide) (lines_cons hne hlines)
  refine ⟨_, more, hall, isMarkerLine_iff.2 ?_, h.quiet.lines hall⟩
  exact marks_cons.2 (Or.inr ⟨rfl, c, first, rfl, hc⟩)

theorem divide_sections {parts : List (List Char)} (h : ∀ part ∈ parts, Section part) :
    divide (parts.flatMap lines) = ([], parts.map lines) := by
  induction parts with
  | nil => rfl
  | cons part parts ih =>
    obtain ⟨hpart, hparts⟩ := List.forall_mem_cons.1 h
    obtain ⟨first, more, hlines, hfirst, hmore⟩ := hpart.lines
    rw [List.flatMap_cons, hlines, List.cons_append, divide_marker hfirst, divide_append hmore,
      ih hparts, List.append_nil, List.map_cons, hlines]

/-- A text without markers, followed by sections, is divided into just these. -/
theorem divide_lines {lead : List Char} (hmarks : ¬ Marks lead) (hquiet : Quiet lead)
    {parts : List (List Char)} (h : ∀ part ∈ parts, Section part) :
    divide (lines (unlines (lead :: parts))) = (lines lead, parts.map lines) := by
  rw [lines_unlines, List.flatMap_cons, divide_append (plain_lines_of_quiet hquiet hmarks),
    divide_sections h, List.append_nil]

end ApiDoc.Comment
