import ApiDoc.Proofs.Comment.TagText

/-!
# A content section by section

Every text is a front without marker lines and a row of sections, each of which starts with a marker
line and has no other. What is read of a text is what is read of the front and of each section alone,
so that a statement about the parts of a content is settled by these two (`sections_induction`).

* `Marks.exists_headed`, `Headed.readMarker?_eq`: a text taken apart at the marker it starts with.
* `partsOf_append_marks`: a marker line divides a text for good.
* `partsOf_front`, `Headed.partsOf_eq`: the parts of a front and of a section.
* `exists_parts`: the parts of any text.
* `content_splits_at_markers`: the rules of division together.
-/

namespace ApiDoc.Comment

open Text

/-! ## The marker at the start of a text -/

/-- A text taken apart at the marker it starts with. The label is the whole run of letters. -/
structure Headed (cs blanks label body : List Char) : Prop where
  text : cs = blanks ++ '@' :: (label ++ body)
  blanks : ∀ b ∈ blanks, isInlineBlank b = true
  label_ne_nil : label ≠ []
  letters : ∀ c ∈ label, isAsciiLetter c = true
  body : ∀ c ∈ body.head?, isAsciiLetter c = false

theorem Marks.exists_headed {cs : List Char} (h : Marks cs) :
    ∃ blanks label body, Headed cs blanks label body := by
  obtain ⟨blanks, c, rest, rfl, hblanks, hc⟩ := h
  refine ⟨blanks, (c :: rest).takeWhile isAsciiLetter, (c :: rest).dropWhile isAsciiLetter,
    ?_, hblanks, ?_, ?_, ?_⟩
  · rw [List.takeWhile_append_dropWhile]
  · rw [List.takeWhile_cons_of_pos hc]
    exact List.cons_ne_nil _ _
  · exact fun d hd => List.mem_takeWhile_imp hd
  · exact fun d hd => of_mem_head?_dropWhile hd

namespace Headed

variable {cs blanks label body : List Char} (h : Headed cs blanks label body)
include h

theorem marks : Marks cs := by
  obtain ⟨c, more, hlabel⟩ := List.exists_cons_of_ne_nil h.label_ne_nil
  refine ⟨blanks, c, more ++ body, ?_, h.blanks, h.letters c (by simp [hlabel])⟩
  rw [h.text, hlabel, List.cons_append]

theorem readMarker?_eq : readMarker? cs = some (label, body) := by
  have hmarker := readMarker?_label h.label_ne_nil h.letters h.body
  have hat : ('@' :: (label ++ body)).dropWhile isInlineBlank = '@' :: (label ++ body) := rfl
  rw [readMarker?, hat] at hmarker
  rw [h.text, readMarker?, List.dropWhile_append_of_pos h.blanks, hat]
  exact hmarker

end Headed

/-! ## Dividing -/

theorem leadingText_nil : leadingText [] = [] :=
  rfl

theorem divide_append_marker (ls : List (List Char)) {line : List Char}
    (h : isMarkerLine line = true) (rest : List (List Char)) :
    divide (ls ++ line :: rest) =
      ((divide ls).1, (divide ls).2 ++ (divide (line :: rest)).2) := by
  induction ls with
  | nil =>
    rw [List.nil_append, divide_marker h]
    rfl
  | cons first ls ih =>
    have hstep : ∀ rest, divide (first :: rest) =
        if isMarkerLine first then ([], (first :: (divide rest).1) :: (divide rest).2)
        else (first :: (divide rest).1, (divide rest).2) := fun _ => rfl
    rw [List.cons_append, hstep, ih, hstep]
    split
    · rfl
    · rfl

/-- A line that starts a tag divides a text for good. -/
theorem partsOf_append_marks (a : List Char) {b : List Char} (h : Marks b) :
    partsOf (a ++ '\n' :: b) = partsOf a ++ partsOf b := by
  obtain ⟨first, more, hlines⟩ := exists_lines b
  have hfirst : isMarkerLine first = true := isMarkerLine_iff.2 ((marks_iff_first_line hlines).1 h)
  simp only [partsOf, lines_append, hlines, divide_append_marker _ hfirst, divide_marker hfirst,
    List.filterMap_append, leadingText_nil, List.nil_append, List.append_assoc]

/-- A text without marker lines is free text. -/
theorem partsOf_front {cs : List Char} (h : ∀ line ∈ lines cs, isMarkerLine line = false) :
    partsOf cs = spanOf cs := by
  rw [partsOf, divide_plain h]
  simp only [List.append_nil, List.filterMap_nil, leadingText_lines]

/-- A text with its only marker at its start is one tag. -/
theorem Headed.partsOf_eq {cs blanks label body : List Char} (h : Headed cs blanks label body)
    (hquiet : Quiet cs) : partsOf cs = [.tag (readTag cs label body)] := by
  obtain ⟨first, more, hlines⟩ := exists_lines cs
  have hfirst : isMarkerLine first = true :=
    isMarkerLine_iff.2 ((marks_iff_first_line hlines).1 h.marks)
  have hdivide : divide (lines cs) = ([], [lines cs]) := by
    rw [hlines, divide_marker hfirst, divide_plain (hquiet.lines hlines)]
  have htag : tagOfSection (lines cs) = some (.tag (readTag cs label body)) := by
    rw [tagOfSection, unlines_lines, h.readMarker?_eq]
    rfl
  rw [partsOf, hdivide]
  simp only [leadingText_nil, List.nil_append, List.filterMap_cons_some htag, List.filterMap_nil]

/-! ## Fronts and sections -/

/-- A tag that was read from a section. -/
def FromSection (t : Tag) : Prop :=
  ∃ cs blanks label body, Headed cs blanks label body ∧ Quiet cs ∧ t = readTag cs label body

theorem exists_tag_of_section {cs : List Char} (hquiet : Quiet cs) (hmarks : Marks cs) :
    ∃ t, partsOf cs = [.tag t] ∧ FromSection t := by
  obtain ⟨blanks, label, body, hheaded⟩ := hmarks.exists_headed
  exact ⟨_, hheaded.partsOf_eq hquiet, cs, blanks, label, body, hheaded, hquiet, rfl⟩

/-- A text that is divided at all has a last section. -/
theorem exists_last_section (cs : List Char) :
    Quiet cs ∨ ∃ a b, cs = a ++ '\n' :: b ∧ Marks b ∧ Quiet b := by
  induction cs with
  | nil => exact Or.inl quiet_nil
  | cons c cs ih =>
    rcases ih with hquiet | ⟨a, b, rfl, hmarks, hb⟩
    · by_cases hc : c = '\n' ∧ Marks cs
      · obtain ⟨rfl, hmarks⟩ := hc
        exact Or.inr ⟨[], cs, rfl, hmarks, hquiet⟩
      · exact Or.inl (quiet_cons.2 ⟨fun he hmarks => hc ⟨he, hmarks⟩, hquiet⟩)
    · exact Or.inr ⟨c :: a, b, rfl, hmarks, hb⟩

/-- What holds of fronts and of sections, and of a text with one more section behind it, holds of
every text. -/
@[elab_as_elim]
theorem sections_induction {motive : List Char → Prop}
    (front : ∀ cs, Quiet cs → ¬ Marks cs → motive cs)
    (single : ∀ cs, Quiet cs → Marks cs → motive cs)
    (next : ∀ a b, Quiet b → Marks b → motive a → motive (a ++ '\n' :: b)) (cs : List Char) :
    motive cs := by
  rcases exists_last_section cs with hquiet | ⟨a, b, rfl, hmarks, hquiet⟩
  · by_cases hmarks : Marks cs
    · exact single cs hquiet hmarks
    · exact front cs hquiet hmarks
  · exact next a b hquiet hmarks (sections_induction front single next a)
termination_by cs.length
decreasing_by
  rename_i hcs _
  rw [hcs, List.length_append, List.length_cons]
  omega

theorem partsOf_ne_nil {cs : List Char} (h : Marks cs) : partsOf cs ≠ [] := by
  rcases exists_last_section cs with hquiet | ⟨a, b, rfl, hmarks, hquiet⟩
  · obtain ⟨t, hparts, -⟩ := exists_tag_of_section hquiet h
    rw [hparts]
    exact List.cons_ne_nil _ _
  · obtain ⟨t, hparts, -⟩ := exists_tag_of_section hquiet hmarks
    rw [partsOf_append_marks a hmarks, hparts]
    exact List.append_ne_nil_of_right_ne_nil _ (List.cons_ne_nil _ _)

/-- The parts of a text are those of its front and one tag for each section. -/
theorem exists_parts (cs : List Char) : ∃ (front : List Char) (tags : List Tag),
    partsOf cs = spanOf front ++ tags.map .tag ∧ ∀ t ∈ tags, FromSection t := by
  induction cs using sections_induction with
  | front cs hquiet hmarks =>
    refine ⟨cs, [], ?_, List.forall_mem_nil _⟩
    rw [partsOf_front (plain_lines_of_quiet hquiet hmarks), List.map_nil, List.append_nil]
  | single cs hquiet hmarks =>
    obtain ⟨t, hparts, ht⟩ := exists_tag_of_section hquiet hmarks
    exact ⟨[], [t], hparts, List.forall_mem_singleton.2 ht⟩
  | next a b hquiet hmarks ih =>
    obtain ⟨front, tags, hparts, htags⟩ := ih
    obtain ⟨t, hpart, ht⟩ := exists_tag_of_section hquiet hmarks
    refine ⟨front, tags ++ [t], ?_, List.forall_mem_append.2 ⟨htags, ?_⟩⟩
    · rw [partsOf_append_marks a hmarks, hparts, hpart, List.map_append, List.append_assoc]
      rfl
    · exact List.forall_mem_singleton.2 ht

theorem fromSection_of_mem {cs : List Char} {t : Tag} (h : .tag t ∈ partsOf cs) :
    FromSection t := by
  obtain ⟨front, tags, hparts, htags⟩ := exists_parts cs
  rw [hparts] at h
  rcases List.mem_append.1 h with h | h
  · rw [spanOf] at h
    split at h
    · cases h
    · cases List.mem_singleton.1 h
  · obtain ⟨t', ht', he⟩ := List.mem_map.1 h
    exact Part.tag.inj he ▸ htags t' ht'

/-! ## The rules of division -/

/-- The number of tags in a row of parts. -/
def tagCount (parts : List Part) : Nat :=
  (parts.filterMap Part.tag?).length

theorem tagCount_append (ps qs : List Part) : tagCount (ps ++ qs) = tagCount ps + tagCount qs := by
  rw [tagCount, List.filterMap_append, List.length_append, tagCount, tagCount]

theorem tagCount_spanOf (cs : List Char) : tagCount (spanOf cs) = 0 := by
  rw [spanOf]
  split
  · rfl
  · rfl

/-- The number of lines that start a tag. -/
def markerCount (cs : List Char) : Nat :=
  (lines cs).countP fun line => decide (Marks line)

theorem countP_marks_eq_zero {ls : List (List Char)}
    (h : ∀ line ∈ ls, isMarkerLine line = false) :
    (ls.countP fun line => decide (Marks line)) = 0 := by
  rw [List.countP_eq_zero]
  intro line hline
  rw [decide_eq_true_eq, ← isMarkerLine_iff, h line hline]
  exact Bool.false_ne_true

theorem markerCount_section {cs : List Char} (hquiet : Quiet cs) (h : Marks cs) :
    markerCount cs = 1 := by
  obtain ⟨first, more, hlines⟩ := exists_lines cs
  have hfirst : decide (Marks first) = true := decide_eq_true ((marks_iff_first_line hlines).1 h)
  rw [markerCount, hlines, List.countP_cons_of_pos (p := fun line => decide (Marks line)) hfirst,
    countP_marks_eq_zero (hquiet.lines hlines)]

/-- Each marker line makes one tag. -/
theorem tagCount_partsOf (cs : List Char) : tagCount (partsOf cs) = markerCount cs := by
  induction cs using sections_induction with
  | front cs hquiet hmarks =>
    have hplain := plain_lines_of_quiet hquiet hmarks
    rw [partsOf_front hplain, tagCount_spanOf, markerCount, countP_marks_eq_zero hplain]
  | single cs hquiet hmarks =>
    obtain ⟨t, hparts, -⟩ := exists_tag_of_section hquiet hmarks
    rw [hparts, markerCount_section hquiet hmarks]
    rfl
  | next a b hquiet hmarks ih =>
    obtain ⟨t, hparts, -⟩ := exists_tag_of_section hquiet hmarks
    have hcount : markerCount (a ++ '\n' :: b) = markerCount a + markerCount b := by
      rw [markerCount, lines_append, List.countP_append, markerCount, markerCount]
    rw [partsOf_append_marks a hmarks, tagCount_append, ih, hcount, hparts,
      markerCount_section hquiet hmarks]
    rfl

theorem trim_eq_empty {s : String} : trim s = "" ↔ isBlankText s.toList = true := by
  rw [← strip_eq_nil, trim]
  exact ⟨fun h => String.ofList_injective h, fun h => congrArg String.ofList h⟩

/-- **Division at marker lines.** A text that starts with a marker is read behind a line feed as it
is read alone, whatever comes before it, and leaves what comes before it as that is read alone. A
text without marker lines has no tags, and its only part, unless it is blank, is the text itself
without the blanks at its ends and with each doubled `@` read as one. So there are as many tags as
there are marker lines. -/
theorem content_splits_at_markers (a b : String) :
    (Marks b.toList → parseContent (a ++ "\n" ++ b) = parseContent a ++ parseContent b) ∧
      ((∀ line ∈ lines a.toList, ¬ Marks line) →
        parseContent a = if trim a = "" then [] else [.text (unescape (trim a))]) ∧
      tagCount (parseContent a) = markerCount a.toList := by
  refine ⟨?_, ?_, tagCount_partsOf a.toList⟩
  · intro hmarks
    have hjoined : (a ++ "\n" ++ b).toList = a.toList ++ '\n' :: b.toList := by
      simp [String.toList_append]
    rw [parseContent, hjoined, partsOf_append_marks a.toList hmarks, parseContent, parseContent]
  · intro hplain
    have hfront : ∀ line ∈ lines a.toList, isMarkerLine line = false := by
      intro line hline
      rw [Bool.eq_false_iff]
      exact fun hmark => hplain line hline (isMarkerLine_iff.1 hmark)
    rw [parseContent, partsOf_front hfront, spanOf, unescape, trim, String.toList_ofList, ← trim]
    simp only [trim_eq_empty]

/-- An unfinished type and a lone `@` do not reach over the marker line behind them, and a line with
a doubled `@` is none. -/
theorem unfinished_tag_before_marker :
    parseContent ("@a \x7bb @" ++ "\n" ++ "\t@c d") =
        parseContent "@a \x7bb @" ++ parseContent "\t@c d" ∧
      parseContent " one\n@@two\r@three " = [.text "one\n@two\r@three"] :=
  ⟨(content_splits_at_markers _ _).1 (by decide),
    ((content_splits_at_markers _ "").2.1 (by decide)).trans (by decide)⟩

end ApiDoc.Comment
