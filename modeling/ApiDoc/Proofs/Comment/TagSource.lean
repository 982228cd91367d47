import ApiDoc.Proofs.Comment.Sections

/-!
# The source of a tag

The source of a tag is its section without the blanks at its ends. No reader looks at blanks that
end a text, and none of them makes or hides a marker, so the source alone is read as the same tag.

* `readTag_append_blank`, `partsOf_append_blank`: blanks at the end of a text.
* `Headed.headed_strip`: a section without the blanks at its ends.
* `tag_of_its_source`: the source of a tag read again.
-/

namespace ApiDoc.Comment

open Text

/-! ## Blanks at the end of a text -/

section

variable {ws : List Char} (hws : isBlankText ws = true)
include hws

/-- A run that stops at blanks. -/
theorem span_append_blank {p : Char → Bool} (hp : ∀ c, isBlank c = true → p c = false)
    (cs : List Char) :
    (cs ++ ws).takeWhile p = cs.takeWhile p ∧ (cs ++ ws).dropWhile p = cs.dropWhile p ++ ws := by
  induction cs with
  | nil =>
    have hstop : ∀ c ∈ ws.head?, p c = false := fun c hc =>
      hp c (List.all_eq_true.1 hws c (List.mem_of_mem_head? hc))
    exact span_append (List.forall_mem_nil _) hstop
  | cons c cs ih =>
    rw [List.cons_append, List.takeWhile_cons, List.takeWhile_cons, List.dropWhile_cons,
      List.dropWhile_cons, ih.1, ih.2]
    split
    · exact ⟨rfl, rfl⟩
    · exact ⟨rfl, rfl⟩

/-- A run that goes over blanks may go on into those at the end, and leaves some of them. -/
theorem exists_dropWhile_append_blank (p : Char → Bool) (cs : List Char) :
    ∃ ws', isBlankText ws' = true ∧ (cs ++ ws).dropWhile p = cs.dropWhile p ++ ws' := by
  rw [List.dropWhile_append]
  split
  · next hnil =>
    refine ⟨ws.dropWhile p, ?_, ?_⟩
    · refine List.all_eq_true.2 fun c hc => ?_
      exact List.all_eq_true.1 hws c ((List.dropWhile_sublist p).mem hc)
    · rw [List.isEmpty_iff.1 hnil, List.nil_append]
  · exact ⟨ws, hws, rfl⟩

theorem readBraced?_append_blank (cs : List Char) :
    readBraced? (cs ++ ws) = (readBraced? cs).map fun r => (r.1, r.2 ++ ws) := by
  have hclose : '}' ∉ ws := fun hmem => absurd (List.all_eq_true.1 hws '}' hmem) (by decide)
  cases h : readBraced? cs with
  | some r => exact readBraced?_eq_some_iff.2 ((readBraced?_eq_some_iff.1 h).append ws)
  | none =>
    refine readBraced?_eq_none_iff.2 ?_
    rintro ⟨inner, rest, hbraced⟩
    exact readBraced?_eq_none_iff.1 h ⟨inner, hbraced.of_append hclose⟩

theorem splitType_append_blank (cs : List Char) :
    splitType (cs ++ ws) = ((splitType cs).1, (splitType cs).2 ++ ws) := by
  have happend := readBraced?_append_blank hws cs
  cases h : readBraced? cs with
  | none =>
    rw [h] at happend
    rw [splitType_of_none happend, splitType_of_none h]
  | some r =>
    rw [h] at happend
    rw [splitType_of_some happend, splitType_of_some h]

theorem readName?_append_blank (cs : List Char) :
    readName? (cs ++ ws) = (readName? cs).map fun r => (r.1, r.2 ++ ws) := by
  have hstop : ∀ c, isBlank c = true → (!isBlank c) = false := fun c hc => by rw [hc]; rfl
  obtain ⟨htake, hdrop⟩ := span_append_blank hws hstop cs
  unfold readName?
  rw [htake, hdrop]
  split <;> rfl

theorem splitName_append_blank (cs : List Char) :
    splitName (cs ++ ws) = ((splitName cs).1, (splitName cs).2 ++ ws) := by
  have happend := readName?_append_blank hws cs
  cases h : readName? cs with
  | none =>
    rw [h] at happend
    rw [splitName_of_none happend, splitName_of_none h]
  | some r =>
    rw [h] at happend
    rw [splitName_of_some happend, splitName_of_some h]

/-- Blanks at the end of a tag change nothing, neither in its source nor in what is read of it. -/
theorem readTag_append_blank {source source' : List Char} (hsource : strip source = strip source')
    (label body : List Char) :
    readTag source label (body ++ ws) = readTag source' label body := by
  -- where nothing comes before them, the blanks at the end are among those skipped before the type
  -- and before the name, so that each step may leave fewer of them
  obtain ⟨ws₁, hws₁, htyped⟩ := exists_dropWhile_append_blank hws isInlineBlank body
  have htype := splitType_append_blank hws₁ (body.dropWhile isInlineBlank)
  obtain ⟨ws₂, hws₂, hnamed⟩ := exists_dropWhile_append_blank hws₁ isInlineBlank
    (splitType (body.dropWhile isInlineBlank)).2
  simp only [readTag_eq, htyped, htype, hnamed, splitName_append_blank hws₂, hsource,
    descriptionOf, strip_append_blank _ hws₂]

theorem Headed.append_blank {cs blanks label body : List Char}
    (h : Headed cs blanks label body) : Headed (cs ++ ws) blanks label (body ++ ws) where
  text := by rw [h.text]; simp
  blanks := h.blanks
  label_ne_nil := h.label_ne_nil
  letters := h.letters
  body := by
    intro c hc
    cases body with
    | nil => exact (severs_of_isBlankText hws).head c hc
    | cons d body => exact h.body c hc

/-- Blanks at the end of a text say nothing. -/
theorem partsOf_append_blank (cs : List Char) : partsOf (cs ++ ws) = partsOf cs := by
  have hsection : ∀ ds, Quiet ds → Marks ds → partsOf (ds ++ ws) = partsOf ds := by
    intro ds hquiet hmarks
    obtain ⟨blanks, label, body, h⟩ := hmarks.exists_headed
    rw [h.partsOf_eq hquiet, (h.append_blank hws).partsOf_eq (hquiet.append_blank hws),
      readTag_append_blank hws (strip_append_blank ds hws)]
  induction cs using sections_induction with
  | front cs hquiet hmarks =>
    have hmore : ¬ Marks (cs ++ ws) := fun h => hmarks (h.of_append (severs_of_isBlankText hws))
    have hblank : isBlankText (cs ++ ws) = isBlankText cs := by
      rw [isBlankText, List.all_append, ← isBlankText, ← isBlankText, hws, Bool.and_true]
    rw [partsOf_front (plain_lines_of_quiet hquiet hmarks),
      partsOf_front (plain_lines_of_quiet (hquiet.append_blank hws) hmore), spanOf, hblank,
      strip_append_blank cs hws, spanOf]
  | single cs hquiet hmarks => exact hsection cs hquiet hmarks
  | next a b hquiet hmarks _ =>
    rw [List.append_assoc, List.cons_append, partsOf_append_marks a (hmarks.append ws),
      hsection b hquiet hmarks, partsOf_append_marks a hmarks]

end

/-! ## A tag and its section -/

theorem Headed.strip_eq {cs blanks label body : List Char} (h : Headed cs blanks label body) :
    strip cs = '@' :: (label ++ stripEnd body) := by
  have hblanks : ∀ b ∈ blanks, isBlank b = true := fun b hb =>
    isBlank_of_isInlineBlank (h.blanks b hb)
  have hlabel : ∀ c ∈ label, isBlank c = false := fun c hc =>
    isBlank_eq_false_of_isAsciiLetter (h.letters c hc)
  rw [h.text, strip_append_of_isBlank hblanks, strip_cons_of_not_isBlank rfl,
    stripEnd_append_of_not_isBlank hlabel]

/-- A section keeps its marker when the blanks at its ends are removed. -/
theorem Headed.headed_strip {cs blanks label body : List Char} (h : Headed cs blanks label body) :
    Headed (strip cs) [] label (stripEnd body) where
  text := h.strip_eq
  blanks := List.forall_mem_nil _
  label_ne_nil := h.label_ne_nil
  letters := h.letters
  body := by
    intro c hc
    obtain ⟨ws, -, hbody⟩ := exists_stripEnd_append body
    refine h.body c ?_
    rw [hbody, List.head?_append, Option.mem_def.1 hc]
    rfl

/-- **A tag from its source.** The source of a tag, read alone, is this tag and nothing else. -/
theorem tag_of_its_source {text : String} {t : Tag} (h : .tag t ∈ parseContent text) :
    parseContent t.source = [.tag t] := by
  obtain ⟨cs, blanks, label, body, hheaded, hquiet, rfl⟩ := fromSection_of_mem h
  obtain ⟨ws, hws, hbody⟩ := exists_stripEnd_append body
  have hsame : readTag (strip cs) label (stripEnd body) = readTag cs label body := by
    have happend := readTag_append_blank hws (strip_strip cs).symm label (stripEnd body)
    rw [← hbody] at happend
    exact happend.symm
  have hsource : (readTag cs label body).source.toList = strip cs := by
    rw [readTag_eq]
    exact String.toList_ofList
  rw [parseContent, hsource, hheaded.headed_strip.partsOf_eq (hquiet.of_infix (infix_strip cs)),
    hsame]

/-- A tag with a brace that is never closed and a line that starts with a doubled `@`. -/
theorem unclosed_type_of_its_source :
    ∃ t : Tag, .tag t ∈ parseContent "one\n\t@p \x7bx - \x7by \n @@z\n \n@q" ∧
      t.description = some "\x7by \n @z" ∧ parseContent t.source = [.tag t] :=
  let t : Tag :=
    { source := "@p \x7bx - \x7by \n @@z", label := "p", name := some "\x7bx"
      description := some "\x7by \n @z" }
  have hmem : .tag t ∈ parseContent "one\n\t@p \x7bx - \x7by \n @@z\n \n@q" := by decide
  ⟨t, hmem, rfl, tag_of_its_source hmem⟩

end ApiDoc.Comment
