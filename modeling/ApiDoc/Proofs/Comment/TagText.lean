import ApiDoc.Proofs.Comment.Braces
import ApiDoc.Proofs.Comment.Marker

/-!
# Reading written tags

A tag is written as `@label {type} name - description`, with every `@` of the name and of the
description doubled. Which labels, types, names and descriptions have a written form is part of
`TagSpec`, so that every one of them can be read back.

* `unescapeChars_escape`, `strip_escape`: doubling undone, and blank for it at the ends.
* `TagSpec.readTag_written`: one tag.
* `parseContent_written`: a leading text and any row of tags.
-/

namespace ApiDoc.Comment

open Text

/-! ## Doubling -/

/-- Every `@` written twice. -/
def escape (cs : List Char) : List Char :=
  replaceEach '@' ['@', '@'] cs

theorem escape_cons_at (cs : List Char) : escape ('@' :: cs) = '@' :: '@' :: escape cs :=
  replaceEach_cons_self '@' _ cs

theorem escape_cons {c : Char} (h : c ≠ '@') (cs : List Char) :
    escape (c :: cs) = c :: escape cs :=
  replaceEach_cons_of_ne h _ cs

theorem unescapeChars_escape (cs : List Char) : unescapeChars (escape cs) = cs := by
  induction cs with
  | nil => rfl
  | cons c cs ih =>
    by_cases h : c = '@'
    · subst h
      rw [escape_cons_at, unescapeChars, ih]
    · rw [escape_cons h, unescapeChars.eq_2 _ _ (fun _ he => absurd he h), ih]

theorem head?_unescapeChars (cs : List Char) : (unescapeChars cs).head? = cs.head? := by
  fun_cases unescapeChars cs <;> rfl

theorem unescapeChars_ne_nil {cs : List Char} (h : cs ≠ []) : unescapeChars cs ≠ [] := by
  intro hnil
  have hhead := head?_unescapeChars cs
  rw [hnil] at hhead
  exact h (List.head?_eq_none_iff.1 hhead.symm)

theorem isBlankText_escape (cs : List Char) : isBlankText (escape cs) = isBlankText cs := by
  induction cs with
  | nil => rfl
  | cons c cs ih =>
    by_cases h : c = '@'
    · subst h
      rfl
    · rw [escape_cons h, isBlankText_cons, isBlankText_cons, ih]

theorem stripEnd_escape (cs : List Char) : stripEnd (escape cs) = escape (stripEnd cs) := by
  induction cs with
  | nil => rfl
  | cons c cs ih =>
    by_cases h : c = '@'
    · subst h
      rw [escape_cons_at, stripEnd_cons_of_not_isBlank rfl, stripEnd_cons_of_not_isBlank rfl,
        stripEnd_cons_of_not_isBlank rfl, escape_cons_at, ih]
    · rw [escape_cons h, stripEnd_cons, stripEnd_cons, isBlankText_cons, isBlankText_escape,
        ← isBlankText_cons]
      split
      · rfl
      · rw [escape_cons h, ih]

theorem strip_escape (cs : List Char) : strip (escape cs) = escape (strip cs) := by
  induction cs with
  | nil => rfl
  | cons c cs ih =>
    cases hc : isBlank c with
    | true =>
      have h : c ≠ '@' := by
        rintro rfl
        exact absurd hc (by decide)
      rw [escape_cons h, strip_cons_of_isBlank hc, strip_cons_of_isBlank hc, ih]
    | false =>
      rw [strip_cons_of_not_isBlank hc]
      by_cases h : c = '@'
      · subst h
        rw [escape_cons_at, strip_cons_of_not_isBlank hc, stripEnd_cons_of_not_isBlank hc,
          stripEnd_escape, escape_cons_at]
      · rw [escape_cons h, strip_cons_of_not_isBlank hc, stripEnd_escape, escape_cons h]

theorem not_marks_escape (cs : List Char) : ¬ Marks (escape cs) := by
  induction cs with
  | nil => exact not_marks_nil
  | cons c cs ih =>
    intro hmarks
    by_cases h : c = '@'
    · subst h
      rcases marks_cons.1 hmarks with ⟨hb, -⟩ | ⟨-, d, rest, hcs, hd⟩
      · exact absurd hb (by decide)
      · obtain ⟨rfl, -⟩ := List.cons.inj hcs
        exact absurd hd (by decide)
    · rw [escape_cons h] at hmarks
      rcases marks_cons.1 hmarks with ⟨-, hmore⟩ | ⟨hc, -⟩
      · exact ih hmore
      · exact h hc

theorem quiet_escape (cs : List Char) : Quiet (escape cs) := by
  induction cs with
  | nil => exact quiet_nil
  | cons c cs ih =>
    by_cases h : c = '@'
    · subst h
      rw [escape_cons_at]
      exact Quiet.append_left (a := ['@', '@']) (by decide) ih
    · rw [escape_cons h]
      exact quiet_cons.2 ⟨fun _ => not_marks_escape cs, ih⟩

theorem forall_mem_escape {p : Char → Prop} {cs : List Char} (h : ∀ c ∈ cs, p c) :
    ∀ c ∈ escape cs, p c := by
  intro c hc
  obtain ⟨d, hd, hmem⟩ := List.mem_flatMap.1 hc
  have hcd : c = d := by
    split at hmem
    · next he => simpa [he] using hmem
    · simpa using hmem
  exact hcd ▸ h d hd

theorem head?_escape (cs : List Char) : (escape cs).head? = cs.head? :=
  head?_replaceEach rfl cs

/-! ## The steps of reading a tag -/

/-- The type at the start of a text and what follows it. -/
def splitType (body : List Char) : Option TypeExpr × List Char :=
  match readBraced? body with
  | some (inner, rest) => (typeOfBraces inner, rest)
  | none => (none, body)

/-- The name at the start of a text and what follows it. -/
def splitName (body : List Char) : Option String × List Char :=
  match readName? body with
  | some (word, rest) => (nonempty? (unescapeChars word), rest)
  | none => (none, body)

theorem splitType_of_some {body inner rest : List Char}
    (h : readBraced? body = some (inner, rest)) : splitType body = (typeOfBraces inner, rest) := by
  rw [splitType, h]

theorem splitType_of_none {body : List Char} (h : readBraced? body = none) :
    splitType body = (none, body) := by
  rw [splitType, h]

theorem splitName_of_some {body word rest : List Char} (h : readName? body = some (word, rest)) :
    splitName body = (nonempty? (unescapeChars word), rest) := by
  rw [splitName, h]

theorem splitName_of_none {body : List Char} (h : readName? body = none) :
    splitName body = (none, body) := by
  rw [splitName, h]

theorem readTag_eq (source label body : List Char) :
    readTag source label body =
      let typed := splitType (body.dropWhile isInlineBlank)
      let named := splitName (typed.2.dropWhile isInlineBlank)
      { source := String.ofList (strip source)
        label := String.ofList label
        type := typed.1
        name := named.1
        description := nonempty? (unescapeChars (descriptionOf named.2)) } :=
  rfl

theorem readName?_escape {n : List Char} (hne : n ≠ []) (hblank : ∀ c ∈ n, isBlank c = false)
    (hhyphen : n.head? ≠ some '-') {rest : List Char}
    (hrest : ∀ c ∈ rest.head?, isBlank c = true) :
    readName? (escape n ++ rest) = some (escape n, rest) := by
  have hword : ∀ c ∈ escape n, (!isBlank c) = true := by
    refine forall_mem_escape fun c hc => ?_
    rw [hblank c hc]
    rfl
  have hstop : ∀ c ∈ rest.head?, (!isBlank c) = false := by
    intro c hc
    rw [hrest c hc]
    rfl
  obtain ⟨htake, hdrop⟩ := span_append hword hstop
  rw [readName?, htake, hdrop]
  have hhead := head?_escape n
  split
  · next he =>
    rw [he] at hhead
    exact absurd (List.head?_eq_none_iff.1 hhead.symm) hne
  · next he =>
    rw [he] at hhead
    exact absurd hhead.symm hhyphen
  · rfl

theorem nonempty?_of_ne_nil {cs : List Char} (h : cs ≠ []) :
    nonempty? cs = some (String.ofList cs) := by
  rw [nonempty?]
  exact h

theorem descriptionOf_hyphen (cs : List Char) : descriptionOf ('-' :: ' ' :: cs) = strip cs := by
  have hstrip : strip ('-' :: ' ' :: cs) = '-' :: stripEnd (' ' :: cs) :=
    strip_cons_of_not_isBlank rfl _
  rw [descriptionOf, hstrip]
  simp only
  rw [strip_stripEnd, strip_cons_of_isBlank rfl]

theorem description_eq {d : List Char} (h : isBlankText d = false) :
    nonempty? (unescapeChars (strip (escape d))) = some (String.ofList (strip d)) := by
  rw [strip_escape, unescapeChars_escape]
  refine nonempty?_of_ne_nil fun hnil => ?_
  rw [strip_eq_nil.1 hnil] at h
  cases h

/-! ## Written tags -/

/-- A tag that can be written down. A name that starts with a hyphen would be taken for a
description, and without a type a name that starts with a brace for a type. -/
structure TagSpec where
  label : List Char
  type : Option (List Char)
  name : Option (List Char)
  description : Option (List Char)
  label_ok : label ≠ [] ∧ ∀ c ∈ label, isAsciiLetter c = true
  type_ok : ∀ t ∈ type, isBlankText t = false ∧ Balanced t ∧ Quiet t
  name_ok : ∀ n ∈ name, n ≠ [] ∧ (∀ c ∈ n, isBlank c = false) ∧ n.head? ≠ some '-' ∧
    (type = none → n.head? ≠ some '{')
  description_ok : ∀ d ∈ description, isBlankText d = false

namespace TagSpec

/-- The type in braces. -/
def typeText (s : TagSpec) : List Char :=
  s.type.elim [] fun t => ' ' :: '{' :: (t ++ ['}'])

/-- The description behind a hyphen. -/
def descriptionText (s : TagSpec) : List Char :=
  s.description.elim [] fun d => ' ' :: '-' :: ' ' :: escape d

/-- The name and the description. -/
def nameOn (s : TagSpec) : List Char :=
  (s.name.elim [] fun n => ' ' :: escape n) ++ s.descriptionText

/-- The tag as it is written. -/
def written (s : TagSpec) : List Char :=
  '@' :: (s.label ++ (s.typeText ++ s.nameOn))

/-- The tag that is meant. -/
def tag (s : TagSpec) : Tag where
  source := String.ofList (strip s.written)
  label := String.ofList s.label
  type := s.type.map fun t => TypeExpr.parse (String.ofList (strip t))
  name := s.name.map String.ofList
  description := s.description.map fun d => String.ofList (strip d)

/-! ## The text of a tag -/

theorem quiet_nameOn (s : TagSpec) : Quiet s.nameOn := by
  have hdescription : Quiet s.descriptionText := by
    unfold descriptionText
    cases s.description with
    | none => exact quiet_nil
    | some d => exact Quiet.append_left (a := [' ', '-', ' ']) (by decide) (quiet_escape d)
  unfold nameOn
  cases hname : s.name with
  | none => exact hdescription
  | some n =>
    have hblank := (s.name_ok n (by rw [hname]; rfl)).2.1
    refine Quiet.append_left ?_ hdescription
    intro hmem
    rcases List.mem_cons.1 hmem with hspace | hmem
    · exact absurd hspace (by decide)
    · exact absurd (forall_mem_escape hblank '\n' hmem) (by decide)

theorem quiet_typeText (s : TagSpec) : Quiet (s.typeText ++ s.nameOn) := by
  unfold typeText
  cases htype : s.type with
  | none => exact s.quiet_nameOn
  | some t =>
    have ht := (s.type_ok t (by rw [htype]; rfl)).2.2
    simp only [Option.elim_some, List.cons_append, List.append_assoc, List.nil_append]
    exact Quiet.append_left (a := [' ', '{']) (by decide)
      (ht.append_break (by decide) s.quiet_nameOn)

theorem section_written (s : TagSpec) : Section s.written := by
  obtain ⟨hne, hletters⟩ := s.label_ok
  constructor
  · obtain ⟨c, rest, hlabel⟩ := List.exists_cons_of_ne_nil hne
    refine ⟨c, rest ++ (s.typeText ++ s.nameOn), ?_, hletters c (by rw [hlabel]; simp)⟩
    rw [written, hlabel, List.cons_append]
  · refine Quiet.append_left (a := '@' :: s.label) ?_ s.quiet_typeText
    intro hmem
    rcases List.mem_cons.1 hmem with hat | hmem
    · exact absurd hat (by decide)
    · exact absurd (hletters '\n' hmem) (by decide)

/-! ## Reading a tag -/

theorem body_eq (s : TagSpec) :
    s.typeText ++ s.nameOn = [] ∨ ∃ rest, s.typeText ++ s.nameOn = ' ' :: rest := by
  unfold typeText nameOn descriptionText
  cases s.type with
  | some t => exact Or.inr ⟨_, rfl⟩
  | none =>
    cases s.name with
    | some n => exact Or.inr ⟨_, rfl⟩
    | none =>
      cases s.description with
      | some d => exact Or.inr ⟨_, rfl⟩
      | none => exact Or.inl rfl

/-- What follows the label, the type or the name starts with a single blank, or is empty. -/
theorem dropWhile_nameOn (s : TagSpec) :
    s.nameOn.dropWhile isInlineBlank = s.nameOn.tail := by
  unfold nameOn
  cases hname : s.name with
  | none =>
    unfold descriptionText
    cases s.description with
    | none => rfl
    | some d => rfl
  | some n =>
    obtain ⟨hne, hblank, -⟩ := s.name_ok n (by rw [hname]; rfl)
    obtain ⟨c, rest, rfl⟩ := List.exists_cons_of_ne_nil hne
    have hhead := head?_escape (c :: rest)
    obtain ⟨rest', hrest⟩ := List.head?_eq_some_iff.1 hhead
    have hc : isInlineBlank c = false := isInlineBlank_eq_false (hblank c List.mem_cons_self)
    have hspace : isInlineBlank ' ' = true := rfl
    simp only [Option.elim_some, hrest, List.cons_append, List.tail_cons]
    rw [List.dropWhile_cons_of_pos hspace, List.dropWhile_cons_of_neg (by simp [hc])]

/-- No type is read where none is written. -/
theorem readBraced?_nameOn (s : TagSpec) (h : s.type = none) :
    readBraced? s.nameOn.tail = none := by
  unfold nameOn
  cases hname : s.name with
  | none =>
    unfold descriptionText
    cases s.description with
    | none => rfl
    | some d => rfl
  | some n =>
    -- the only place where a name could be taken for a type
    obtain ⟨hne, -, -, hbrace⟩ := s.name_ok n (by rw [hname]; rfl)
    obtain ⟨c, rest, rfl⟩ := List.exists_cons_of_ne_nil hne
    obtain ⟨rest', hrest⟩ := List.head?_eq_some_iff.1 (head?_escape (c :: rest))
    have hc : c ≠ '{' := by
      rintro rfl
      exact hbrace h rfl
    simp only [Option.elim_some, hrest, List.cons_append, List.tail_cons]
    exact readBraced?.eq_2 _ fun cs he => hc (List.cons.inj he).1

/-- The description is the same with and without the blank in front of it. -/
theorem descriptionOf_descriptionText (s : TagSpec) :
    nonempty? (unescapeChars (descriptionOf s.descriptionText)) = s.tag.description ∧
      nonempty? (unescapeChars (descriptionOf s.descriptionText.tail)) = s.tag.description := by
  unfold descriptionText tag
  cases hdescription : s.description with
  | none => exact ⟨rfl, rfl⟩
  | some d =>
    have hd := s.description_ok d (by rw [hdescription]; rfl)
    have hspace : descriptionOf (' ' :: '-' :: ' ' :: escape d) =
        descriptionOf ('-' :: ' ' :: escape d) := rfl
    simp only [Option.elim_some, Option.map_some, List.tail_cons]
    rw [hspace, descriptionOf_hyphen]
    exact ⟨description_eq hd, description_eq hd⟩

theorem splitName_nameOn (s : TagSpec) :
    ∃ rest, splitName s.nameOn.tail = (s.tag.name, rest) ∧
      nonempty? (unescapeChars (descriptionOf rest)) = s.tag.description := by
  obtain ⟨hfull, htail⟩ := s.descriptionOf_descriptionText
  cases hname : s.name with
  | none =>
    have hnameOn : s.nameOn = s.descriptionText := by
      rw [nameOn, hname]
      rfl
    have hnone : readName? s.descriptionText.tail = none := by
      unfold descriptionText
      cases s.description with
      | none => rfl
      | some d => rfl
    refine ⟨s.descriptionText.tail, ?_, htail⟩
    rw [hnameOn, splitName_of_none hnone, tag, hname]
    rfl
  | some n =>
    obtain ⟨hne, hblank, hhyphen, -⟩ := s.name_ok n (by rw [hname]; rfl)
    have hnameOn : s.nameOn.tail = escape n ++ s.descriptionText := by
      rw [nameOn, hname]
      rfl
    have hstop : ∀ c ∈ s.descriptionText.head?, isBlank c = true := by
      unfold descriptionText
      cases s.description with
      | none => exact nofun
      | some d =>
        intro c hc
        obtain rfl := Option.some.inj hc
        rfl
    refine ⟨s.descriptionText, ?_, hfull⟩
    rw [hnameOn, splitName_of_some (readName?_escape hne hblank hhyphen hstop),
      unescapeChars_escape, nonempty?_of_ne_nil hne, tag, hname]
    rfl

theorem splitType_typeText (s : TagSpec) :
    ∃ rest, splitType ((s.typeText ++ s.nameOn).dropWhile isInlineBlank) = (s.tag.type, rest) ∧
      rest.dropWhile isInlineBlank = s.nameOn.tail := by
  cases htype : s.type with
  | none =>
    have hbody : s.typeText ++ s.nameOn = s.nameOn := by
      rw [typeText, htype]
      rfl
    refine ⟨s.nameOn.tail, ?_, ?_⟩
    · rw [hbody, s.dropWhile_nameOn, splitType_of_none (s.readBraced?_nameOn htype), tag, htype]
      rfl
    · rw [← s.dropWhile_nameOn]
      exact List.dropWhile_idempotent isInlineBlank s.nameOn
  | some t =>
    obtain ⟨hblank, hbalanced, -⟩ := s.type_ok t (by rw [htype]; rfl)
    have hbody : (s.typeText ++ s.nameOn).dropWhile isInlineBlank =
        '{' :: (t ++ '}' :: s.nameOn) := by
      rw [typeText, htype]
      simp only [Option.elim_some, List.cons_append, List.append_assoc, List.nil_append]
      rfl
    have hread : readBraced? ('{' :: (t ++ '}' :: s.nameOn)) = some (t, s.nameOn) :=
      readBraced?_eq_some_iff.2 ⟨rfl, hbalanced⟩
    refine ⟨s.nameOn, ?_, s.dropWhile_nameOn⟩
    rw [hbody, splitType_of_some hread, typeOfBraces, hblank, tag, htype]
    rfl

/-- The written tag is read back. -/
theorem readTag_written (s : TagSpec) :
    readTag s.written s.label (s.typeText ++ s.nameOn) = s.tag := by
  obtain ⟨rest, htype, hrest⟩ := s.splitType_typeText
  obtain ⟨rest', hname, hdescription⟩ := s.splitName_nameOn
  rw [readTag_eq]
  simp only [htype, hrest, hname, hdescription]
  rfl

theorem tagOfSection_written (s : TagSpec) :
    tagOfSection (lines s.written) = some (.tag s.tag) := by
  have hbody : ∀ c ∈ (s.typeText ++ s.nameOn).head?, isAsciiLetter c = false := by
    rcases s.body_eq with hnil | ⟨rest, hcons⟩
    · rw [hnil]
      exact nofun
    · rw [hcons]
      intro c hc
      obtain rfl := Option.some.inj hc
      rfl
  have hmarker : readMarker? s.written = some (s.label, s.typeText ++ s.nameOn) :=
    readMarker?_label s.label_ok.1 s.label_ok.2 hbody
  simp only [tagOfSection, unlines_lines, hmarker, Option.map_some, s.readTag_written]

end TagSpec

/-! ## A whole text -/

/-- A leading text and tags, each on a line of its own. -/
def writtenContent (lead : List Char) (specs : List TagSpec) : List Char :=
  unlines (escape lead :: specs.map TagSpec.written)

/-- The free text, unless it is blank. -/
def leadParts (lead : List Char) : List Part :=
  if isBlankText lead then [] else [.text (String.ofList (strip lead))]

/-- A text as free text, unless it is blank. -/
def spanOf (cs : List Char) : List Part :=
  if isBlankText cs then [] else [.text (String.ofList (unescapeChars (strip cs)))]

theorem leadingText_lines (cs : List Char) : leadingText (lines cs) = spanOf cs := by
  rw [leadingText, unlines_lines, spanOf]
  by_cases h : isBlankText cs = true
  · rw [if_pos h, strip_eq_nil.2 h]
    rfl
  · rw [if_neg h, nonempty?_of_ne_nil (unescapeChars_ne_nil fun hnil => h (strip_eq_nil.1 hnil))]

theorem leadingText_escape (lead : List Char) :
    leadingText (lines (escape lead)) = leadParts lead := by
  rw [leadingText_lines, spanOf, isBlankText_escape, strip_escape, unescapeChars_escape, leadParts]

/-- **Round trip of tags.** A leading text with every `@` doubled, followed by any row of written
tags, is read as the leading text without the blanks at its ends, if there is any, and just these
tags in order. -/
theorem parseContent_written (lead : List Char) (specs : List TagSpec) :
    parseContent (String.ofList (writtenContent lead specs)) =
      leadParts lead ++ specs.map fun s => .tag s.tag := by
  have hsections : ∀ part ∈ specs.map TagSpec.written, Section part := by
    intro part hpart
    obtain ⟨s, -, rfl⟩ := List.mem_map.1 hpart
    exact s.section_written
  have hdivide := divide_lines (not_marks_escape lead) (quiet_escape lead) hsections
  rw [parseContent, String.toList_ofList, partsOf, writtenContent, hdivide]
  have htags : ((specs.map TagSpec.written).map lines).filterMap tagOfSection =
      specs.map fun s => .tag s.tag := by
    rw [List.map_map, List.filterMap_map, ← List.filterMap_eq_map]
    exact List.filterMap_congr fun s _ => s.tagOfSection_written
  simp only [leadingText_escape, htags]

example :
    ∃ s : TagSpec, s.written = "@param {{a: T}} x@@y - one\n@@two".toList ∧
      s.tag.name = some "x@y" ∧ s.tag.description = some "one\n@two" := by
  let s : TagSpec :=
    { label := "param".toList, type := some "{a: T}".toList, name := some "x@y".toList
      description := some "one\n@two".toList
      label_ok := ⟨by decide, forall_mem_of_all (by decide)⟩
      type_ok := by
        rintro t ⟨⟩
        decide
      name_ok := by
        rintro n ⟨⟩
        exact ⟨by decide, forall_mem_of_all (by decide), by decide, nofun⟩
      description_ok := by
        rintro d ⟨⟩
        decide }
  exact ⟨s, by decide, by decide, by decide⟩

end ApiDoc.Comment
