import ApiDoc.Proofs.Comment.BlockPlaces

/-!
# Texts without the closing delimiter

Blocks are found by their delimiters alone, so a text in which `*/` does not occur holds none. What
is read out of a block has this property, whatever the block holds: its body ends before the first
`*/`, and no step from the body to the parts of a comment brings a star and a slash together.

* `noCloser_append`: the only new place is where two texts meet.
* `extract_of_noCloser`: a text without `*/` has no comments.
* `noCloser_stripStars`, `noCloser_unescapeChars`: the two steps that take characters out of the
  middle of a text.
* `inert_of_mem_extract`: no text of a comment contains `*/`.
-/

namespace ApiDoc

namespace Text

/-! ## Where a star meets a slash -/

/-- The text does not contain `*/`. -/
def NoCloser (cs : List Char) : Prop :=
  ¬ ['*', '/'] <:+: cs

instance (cs : List Char) : Decidable (NoCloser cs) :=
  inferInstanceAs (Decidable (¬ _))

theorem NoCloser.of_part {cs part : List Char} (h : NoCloser cs) (hpart : part <:+: cs) :
    NoCloser part :=
  fun hin => h (hin.trans hpart)

theorem noCloser_nil : NoCloser [] := by
  decide

theorem noCloser_of_notMem {cs : List Char} (h : '*' ∉ cs) : NoCloser cs :=
  fun hin => h (hin.subset List.mem_cons_self)

theorem noCloser_cons {c : Char} {cs : List Char} :
    NoCloser (c :: cs) ↔ ¬ (c = '*' ∧ cs.head? = some '/') ∧ NoCloser cs := by
  have hfront : ['*', '/'] <+: c :: cs ↔ c = '*' ∧ cs.head? = some '/' := by
    rw [List.cons_prefix_cons, eq_comm]
    cases cs with
    | nil => simp
    | cons d cs => simp [List.cons_prefix_cons, eq_comm]
  unfold NoCloser
  rw [List.infix_cons_iff, not_or, hfront]

theorem noCloser_append {a b : List Char} :
    NoCloser (a ++ b) ↔
      NoCloser a ∧ NoCloser b ∧ ¬ (a.getLast? = some '*' ∧ b.head? = some '/') := by
  induction a with
  | nil => simp [noCloser_nil]
  | cons c a ih =>
    rw [List.cons_append, noCloser_cons, noCloser_cons, ih]
    cases a with
    | nil => simp [noCloser_nil, and_comm]
    | cons d a =>
      rw [List.cons_append, List.head?_cons, List.head?_cons, List.getLast?_cons_cons]
      tauto

/-- A text that can stand beside every other one. -/
structure Framed (cs : List Char) : Prop where
  noCloser : NoCloser cs
  head : cs.head? ≠ some '/'
  last : cs.getLast? ≠ some '*'

/-- A text that can stand between any two others. -/
structure Joint (cs : List Char) : Prop extends Framed cs where
  ne_nil : cs ≠ []

theorem framed_nil : Framed [] :=
  ⟨noCloser_nil, nofun, nofun⟩

instance (cs : List Char) : Decidable (Joint cs) :=
  decidable_of_iff (NoCloser cs ∧ cs.head? ≠ some '/' ∧ cs.getLast? ≠ some '*' ∧ cs ≠ [])
    ⟨fun h => ⟨⟨h.1, h.2.1, h.2.2.1⟩, h.2.2.2⟩, fun h => ⟨h.noCloser, h.head, h.last, h.ne_nil⟩⟩

section

variable {a b left right : List Char}

theorem NoCloser.append_framed (ha : NoCloser a) (hb : Framed b) : NoCloser (a ++ b) :=
  noCloser_append.2 ⟨ha, hb.noCloser, fun h => hb.head h.2⟩

theorem Framed.append_noCloser (ha : Framed a) (hb : NoCloser b) : NoCloser (a ++ b) :=
  noCloser_append.2 ⟨ha.noCloser, hb, fun h => ha.last h.1⟩

theorem Framed.append (ha : Framed a) (hb : Framed b) : Framed (a ++ b) := by
  refine ⟨ha.noCloser.append_framed hb, ?_, ?_⟩
  · cases a with
    | nil => exact hb.head
    | cons c a => exact ha.head
  · rw [List.getLast?_append]
    cases hlast : b.getLast? with
    | none => exact ha.last
    | some c =>
      rw [Option.some_or, ← hlast]
      exact hb.last

theorem Joint.append (ha : Joint a) (hb : Framed b) : Joint (a ++ b) :=
  ⟨ha.toFramed.append hb, List.append_ne_nil_of_left_ne_nil ha.ne_nil b⟩

/-- Any text without `*/` between two joints is a joint again. -/
theorem Joint.around (hl : Joint left) (ha : NoCloser a) (hr : Joint right) :
    Joint (left ++ a ++ right) := by
  refine ⟨⟨?_, ?_, ?_⟩, ?_⟩
  · exact (hl.append_noCloser ha).append_framed hr.toFramed
  · rw [List.append_assoc, List.head?_append_of_ne_nil _ hl.ne_nil]
    exact hl.head
  · rw [List.getLast?_append_of_ne_nil _ hr.ne_nil]
    exact hr.last
  · exact List.append_ne_nil_of_right_ne_nil _ hr.ne_nil

theorem noCloser_intercalate {sep : List Char} (hsep : Joint sep) {parts : List (List Char)}
    (h : ∀ part ∈ parts, NoCloser part) : NoCloser (sep.intercalate parts) := by
  induction parts with
  | nil => exact noCloser_nil
  | cons part parts ih =>
    obtain ⟨hpart, hparts⟩ := List.forall_mem_cons.1 h
    cases parts with
    | nil =>
      rw [List.intercalate_singleton]
      exact hpart
    | cons next parts =>
      rw [List.intercalate_cons_cons, List.append_assoc]
      apply noCloser_append.2
      refine ⟨hpart, hsep.append_noCloser (ih hparts), fun hmeet => hsep.head ?_⟩
      rw [← List.head?_append_of_ne_nil _ hsep.ne_nil]
      exact hmeet.2

end

/-! ## Trimming and line ends -/

theorem head?_normalizeNewlines {cs : List Char} :
    (normalizeNewlines cs).head? = some '/' → cs.head? = some '/' := by
  unfold normalizeNewlines
  split
  · exact id
  · intro h
    cases h
  · next c cs _ =>
    intro h
    by_cases hc : c = '\r'
    · rw [if_pos hc] at h
      cases h
    · rw [if_neg hc] at h
      exact h

theorem NoCloser.normalizeNewlines {cs : List Char} (h : NoCloser cs) :
    NoCloser (normalizeNewlines cs) := by
  fun_induction Text.normalizeNewlines cs with
  | case1 => exact h
  | case2 cs ih =>
    have hcs := (noCloser_cons.1 (noCloser_cons.1 h).2).2
    exact noCloser_cons.2 ⟨fun hmeet => absurd hmeet.1 (by decide), ih hcs⟩
  | case3 c cs _ ih =>
    obtain ⟨hfirst, hcs⟩ := noCloser_cons.1 h
    refine noCloser_cons.2 ⟨?_, ih hcs⟩
    rintro ⟨hc, hhead⟩
    by_cases hr : c = '\r'
    · rw [if_pos hr] at hc
      exact absurd hc (by decide)
    · rw [if_neg hr] at hc
      exact hfirst ⟨hc, head?_normalizeNewlines hhead⟩

theorem suffix_unlines (front ls : List (List Char)) : unlines ls <:+ unlines (front ++ ls) := by
  by_cases hls : ls = []
  · rw [hls]
    exact List.nil_suffix
  · induction front with
    | nil => exact List.suffix_rfl
    | cons line front ih =>
      rw [List.cons_append, unlines_cons line (List.append_ne_nil_of_right_ne_nil front hls)]
      exact (ih.trans (List.suffix_cons _ _)).trans (List.suffix_append _ _)

theorem prefix_unlines (ls more : List (List Char)) : unlines ls <+: unlines (ls ++ more) := by
  induction ls with
  | nil => exact List.nil_prefix
  | cons line ls ih =>
    by_cases hls : ls = []
    · subst hls
      cases more with
      | nil => exact List.prefix_rfl
      | cons next more =>
        rw [List.singleton_append, unlines_cons line (List.cons_ne_nil next more)]
        exact List.prefix_append _ _
    · rw [List.cons_append, unlines_cons line hls,
        unlines_cons line (List.append_ne_nil_of_left_ne_nil hls more)]
      exact (List.prefix_append_right_inj _).2 (List.cons_prefix_cons.2 ⟨rfl, ih⟩)

theorem infix_unlines {part ls : List (List Char)} (h : part <:+: ls) :
    unlines part <:+: unlines ls := by
  obtain ⟨front, more, rfl⟩ := h
  rw [List.append_assoc]
  exact (prefix_unlines part more).isInfix.trans (suffix_unlines front (part ++ more)).isInfix

end Text

namespace Comment

open Text

/-! ## Blocks -/

theorem readToClose?_of_noCloser {cs : List Char} (h : NoCloser cs) : readToClose? cs = none := by
  induction cs with
  | nil => rfl
  | cons c cs ih =>
    obtain ⟨hfirst, hcs⟩ := noCloser_cons.1 h
    rw [readToClose?_cons (not_and_or.1 hfirst), ih hcs]
    rfl

/-- A block ends with the first `*/`. -/
theorem noCloser_of_readToClose? {cs body rest : List Char}
    (h : readToClose? cs = some (body, rest)) : NoCloser body := by
  fun_induction readToClose? cs generalizing body rest with
  | case1 =>
    cases h
    exact noCloser_nil
  | case2 c cs hfirst ih =>
    obtain ⟨⟨body', rest'⟩, hread, he⟩ := Option.map_eq_some_iff.1 h
    cases he
    refine noCloser_cons.2 ⟨?_, ih hread⟩
    rintro ⟨hc, hhead⟩
    obtain ⟨more, rfl⟩ := List.head?_eq_some_iff.1 hhead
    exact hfirst _ hc (readToClose?_append hread)
  | case3 => cases h

theorem Mode.blocks_of_noCloser (mode : Mode) {cs : List Char} (h : NoCloser cs) :
    mode.blocks cs = [] := by
  induction cs with
  | nil => rw [Mode.blocks]
  | cons c cs ih =>
    have hnone : mode.readBlock? (c :: cs) = none := by
      unfold Mode.readBlock?
      cases hopen : mode.opener? (c :: cs) with
      | none => rfl
      | some r =>
        have hinside : r.2 <:+: c :: cs := by
          rw [(Mode.opener?_append hopen).1]
          exact (List.suffix_append _ _).isInfix
        simp only [readToClose?_of_noCloser (h.of_part hinside)]
    rw [Mode.blocks_of_none hnone, ih (noCloser_cons.1 h).2]

/-- A text without `*/` has no comments. -/
theorem extract_of_noCloser (mode : Mode) {source : String} (h : NoCloser source.toList) :
    extract mode source = [] := by
  rw [extract, mode.blocks_of_noCloser h]
  rfl

theorem noCloser_of_readBlock? {mode : Mode} {cs rest : List Char} {b : Block}
    (h : mode.readBlock? cs = some (b, rest)) : NoCloser b.body := by
  unfold Mode.readBlock? at h
  split at h
  · cases h
  · split at h
    · cases h
    · next hread =>
      cases h
      exact noCloser_of_readToClose? hread

/-! ## From the body to the parts -/

theorem head?_stripStarsInside (cs : List Char) : (stripStarsInside cs).head? = cs.head? := by
  cases cs with
  | nil => rw [stripStarsInside]
  | cons c cs =>
    by_cases hc : c = '\n'
    · subst hc
      rw [stripStarsInside_newline]
      rfl
    · rw [stripStarsInside_cons hc]
      rfl

theorem noCloser_stripStarsInside {cs : List Char} (h : NoCloser cs) :
    NoCloser (stripStarsInside cs) := by
  fun_induction stripStarsInside cs with
  | case1 => exact h
  | case2 rest _ ih =>
    have hrest := (noCloser_cons.1 h).2.of_part (suffix_dropStar rest).isInfix
    exact noCloser_cons.2 ⟨fun hmeet => absurd hmeet.1 (by decide), ih hrest⟩
  | case3 c rest _ ih =>
    obtain ⟨hfirst, hrest⟩ := noCloser_cons.1 h
    rw [← head?_stripStarsInside] at hfirst
    exact noCloser_cons.2 ⟨hfirst, ih hrest⟩

theorem noCloser_stripStars {cs : List Char} (h : NoCloser cs) : NoCloser (stripStars cs) :=
  noCloser_stripStarsInside (h.of_part (suffix_dropStar cs).isInfix)

theorem noCloser_unescapeChars {cs : List Char} (h : NoCloser cs) :
    NoCloser (unescapeChars cs) := by
  fun_induction unescapeChars cs with
  | case1 cs ih =>
    have hcs := (noCloser_cons.1 (noCloser_cons.1 h).2).2
    exact noCloser_cons.2 ⟨fun hmeet => absurd hmeet.1 (by decide), ih hcs⟩
  | case2 c cs _ ih =>
    obtain ⟨hfirst, hcs⟩ := noCloser_cons.1 h
    rw [← head?_unescapeChars] at hfirst
    exact noCloser_cons.2 ⟨hfirst, ih hcs⟩
  | case3 => exact h

theorem divide_flatten (ls : List (List Char)) : (divide ls).1 ++ (divide ls).2.flatten = ls := by
  induction ls with
  | nil => rfl
  | cons line ls ih =>
    cases hmark : isMarkerLine line with
    | true => rw [divide_marker hmark, List.nil_append, List.flatten_cons, List.cons_append, ih]
    | false =>
      have hplain := divide_append (List.forall_mem_singleton.2 hmark) ls
      rw [List.singleton_append] at hplain
      rw [hplain, List.append_assoc, ih, List.singleton_append]

theorem infix_lead (ls : List (List Char)) : (divide ls).1 <:+: ls :=
  ⟨[], (divide ls).2.flatten, divide_flatten ls⟩

theorem infix_section {ls part : List (List Char)} (h : part ∈ (divide ls).2) : part <:+: ls := by
  obtain ⟨front, more, hsplit⟩ := List.append_of_mem h
  refine ⟨(divide ls).1 ++ front.flatten, more.flatten, ?_⟩
  have hall := divide_flatten ls
  rw [hsplit, List.flatten_append, List.flatten_cons] at hall
  simpa using hall

theorem noCloser_of_nonempty? {cs : List Char} (h : NoCloser cs) :
    ∀ s ∈ nonempty? cs, NoCloser s.toList := by
  intro s hs
  unfold nonempty? at hs
  split at hs
  · cases hs
  · cases hs
    rw [String.toList_ofList]
    exact h

theorem infix_descriptionOf (cs : List Char) : descriptionOf cs <:+: cs := by
  have hstrip := infix_strip cs
  unfold descriptionOf
  split
  · next rest he =>
    rw [he] at hstrip
    exact ((infix_strip rest).trans (List.suffix_cons '-' rest).isInfix).trans hstrip
  · exact hstrip

end Comment

/-! ## Comments -/

/-- No text that a tag leaves in the model contains `*/`. -/
structure Tag.Inert (t : Tag) : Prop where
  name : ∀ n ∈ t.name, Text.NoCloser n.toList
  description : ∀ d ∈ t.description, Text.NoCloser d.toList
  type : ∀ e ∈ t.type, Text.NoCloser e.source.toList

/-- No text that a comment leaves in the model contains `*/`. -/
structure Comment.Inert (c : Comment) : Prop where
  tags : ∀ t ∈ c.tags, t.Inert
  texts : ∀ s ∈ c.texts, Text.NoCloser s.toList

namespace Comment

open Text

theorem noCloser_splitType {body : List Char} (h : NoCloser body) :
    (∀ e ∈ (splitType body).1, NoCloser e.source.toList) ∧ (splitType body).2 <:+: body := by
  unfold splitType
  split
  · next inner rest hread =>
    obtain ⟨rfl, -⟩ := readBraced?_eq_some_iff.1 hread
    have hinner : inner <:+: '{' :: (inner ++ '}' :: rest) := ⟨['{'], '}' :: rest, by simp⟩
    refine ⟨?_, ⟨'{' :: inner ++ ['}'], [], by simp⟩⟩
    intro e he
    unfold typeOfBraces at he
    split at he
    · cases he
    · cases he
      rw [TypeExpr.parse, String.toList_ofList]
      exact h.of_part ((infix_strip inner).trans hinner)
  · exact ⟨nofun, List.infix_rfl⟩

theorem noCloser_splitName {body : List Char} (h : NoCloser body) :
    (∀ n ∈ (splitName body).1, NoCloser n.toList) ∧ (splitName body).2 <:+: body := by
  unfold splitName
  split
  · next word rest hread =>
    unfold readName? at hread
    split at hread
    · cases hread
    · cases hread
    · cases hread
      have htake : body.takeWhile (!isBlank ·) <+: body := List.takeWhile_prefix _
      have hword := h.of_part htake.isInfix
      exact ⟨noCloser_of_nonempty? (noCloser_unescapeChars hword),
        (List.dropWhile_suffix _).isInfix⟩
  · exact ⟨nofun, List.infix_rfl⟩

theorem inert_readTag (source label : List Char) {body : List Char} (h : NoCloser body) :
    (readTag source label body).Inert := by
  have hbody : NoCloser (body.dropWhile isInlineBlank) :=
    h.of_part (List.dropWhile_suffix _).isInfix
  obtain ⟨htype, hafter⟩ := noCloser_splitType hbody
  have hnamed : NoCloser ((splitType (body.dropWhile isInlineBlank)).2.dropWhile isInlineBlank) :=
    (hbody.of_part hafter).of_part (List.dropWhile_suffix _).isInfix
  obtain ⟨hname, hrest⟩ := noCloser_splitName hnamed
  have hdescription := (hnamed.of_part hrest).of_part (infix_descriptionOf _)
  rw [readTag_eq]
  exact ⟨hname, noCloser_of_nonempty? (noCloser_unescapeChars hdescription), htype⟩

theorem suffix_readMarker? {cs label body : List Char} (h : readMarker? cs = some (label, body)) :
    body <:+ cs := by
  have hdrop : cs.dropWhile isInlineBlank <:+ cs := List.dropWhile_suffix _
  unfold readMarker? at h
  split at h
  · next rest he =>
    rw [he] at hdrop
    split at h
    · cases h
    · cases h
      exact (List.dropWhile_suffix _).trans ((List.suffix_cons '@' rest).trans hdrop)
  · cases h

theorem inert_partsOf {cs : List Char} (h : NoCloser cs) :
    ∀ p ∈ partsOf cs, (∀ t ∈ p.tag?, t.Inert) ∧ ∀ s ∈ p.text?, NoCloser s.toList := by
  rw [← unlines_lines cs] at h
  intro p hp
  rcases List.mem_append.1 hp with hp | hp
  · have hlead := (h.of_part (infix_unlines (infix_lead _))).of_part (infix_strip _)
    have htext := noCloser_of_nonempty? (noCloser_unescapeChars hlead)
    unfold leadingText at hp
    split at hp
    · cases hp
    · next s hs =>
      rw [List.mem_singleton.1 hp]
      refine ⟨nofun, ?_⟩
      intro s' hs'
      cases hs'
      exact htext s hs
  · obtain ⟨part, hpart, htag⟩ := List.mem_filterMap.1 hp
    obtain ⟨⟨label, body⟩, hread, rfl⟩ := Option.map_eq_some_iff.1 htag
    have hsection := h.of_part (infix_unlines (infix_section hpart))
    refine ⟨?_, nofun⟩
    intro t ht
    cases ht
    exact inert_readTag _ label (hsection.of_part (suffix_readMarker? hread).isInfix)

/-- No text of a comment contains `*/`. -/
theorem inert_of_mem_extract {mode : Mode} {source : String} {c : Comment}
    (h : c ∈ extract mode source) : c.Inert := by
  rw [extract_eq_map_found] at h
  obtain ⟨a, ha, rfl⟩ := List.mem_map.1 h
  obtain ⟨n, rest, -, hread⟩ := Mode.readBlock?_of_mem_found ha
  have hparts := inert_partsOf (noCloser_stripStars (noCloser_of_readBlock? hread))
  refine ⟨?_, ?_⟩
  · intro t ht
    obtain ⟨p, hp, hpt⟩ := List.mem_filterMap.1 ht
    exact (hparts p hp).1 t hpt
  · intro s hs
    obtain ⟨p, hp, hps⟩ := List.mem_filterMap.1 hs
    exact (hparts p hp).2 s hps

end Comment

end ApiDoc
