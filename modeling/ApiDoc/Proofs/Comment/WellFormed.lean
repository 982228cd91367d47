import ApiDoc.Proofs.Comment.TagSource
import ApiDoc.Proofs.Comment.TypeExtent

/-!
# What the parts of a comment look like

Those who use the parts of a comment take a text that is there for a text that says something: names
become keys, and descriptions are printed as they are. Each text has been stripped, freed of a hyphen
and of doubled `@`s, and none of these steps leaves an empty text or a blank at an end.

* `trimmed_strip`, `trimmed_unescapeChars`: texts without blanks at their ends.
* `readName?_word`: the words that are taken for names.
* `wellFormed_readTag`: one tag.
* `parts_of_comment_wellFormed`: all parts of a comment.
-/

namespace ApiDoc

namespace Text

/-- A text that is not empty and has no blank at either end. -/
structure Trimmed (cs : List Char) : Prop where
  ne_nil : cs ≠ []
  head : ∀ c ∈ cs.head?, isBlank c = false
  last : ∀ c ∈ cs.getLast?, isBlank c = false

theorem trimmed_strip {cs : List Char} (h : strip cs ≠ []) : Trimmed (strip cs) where
  ne_nil := h
  head := by
    intro c hc
    have hend : (stripEnd (stripStart cs)).head? = some c := hc
    obtain ⟨ws, -, hstart⟩ := exists_stripEnd_append (stripStart cs)
    have hdrop : (stripStart cs).head? = some c := by
      rw [hstart, List.head?_append, hend]
      rfl
    exact of_mem_head?_dropWhile hdrop
  last := by
    intro c hc
    rw [strip, stripEnd, List.getLast?_reverse] at hc
    exact of_mem_head?_dropWhile hc

end Text

open Text

/-- What the fields of a tag look like when they are there. -/
structure Tag.WellFormed (t : Tag) : Prop where
  label : t.label ≠ "" ∧ ∀ c ∈ t.label.toList, isAsciiLetter c = true
  source : ∃ rest, t.source.toList = '@' :: (t.label.toList ++ rest) ∧
    ∀ c ∈ rest.head?, isAsciiLetter c = false
  name : ∀ n ∈ t.name, n ≠ "" ∧ (∀ c ∈ n.toList, isBlank c = false) ∧ n.toList.head? ≠ some '-'
  description : ∀ d ∈ t.description, Trimmed d.toList
  type : ∀ e ∈ t.type, Trimmed e.source.toList ∧ Comment.Balanced e.source.toList

namespace Comment

/-! ## Doubled characters -/

theorem getLast?_unescapeChars (cs : List Char) :
    (unescapeChars cs).getLast? = cs.getLast? := by
  fun_induction unescapeChars cs with
  | case1 cs ih =>
    rw [List.getLast?_cons, ih, List.getLast?_cons, List.getLast?_cons]
    rfl
  | case2 c cs _ ih => rw [List.getLast?_cons, ih, List.getLast?_cons]
  | case3 => rfl

theorem mem_of_mem_unescapeChars {cs : List Char} {c : Char} (h : c ∈ unescapeChars cs) :
    c ∈ cs := by
  fun_induction unescapeChars cs with
  | case1 cs ih =>
    rcases List.mem_cons.1 h with rfl | h
    · exact List.mem_cons_self
    · exact List.mem_cons_of_mem _ (List.mem_cons_of_mem _ (ih h))
  | case2 d cs _ ih =>
    rcases List.mem_cons.1 h with rfl | h
    · exact List.mem_cons_self
    · exact List.mem_cons_of_mem _ (ih h)
  | case3 => exact h

theorem trimmed_unescapeChars {cs : List Char} (h : Trimmed cs) : Trimmed (unescapeChars cs) where
  ne_nil := unescapeChars_ne_nil h.ne_nil
  head := by
    rw [head?_unescapeChars]
    exact h.head
  last := by
    rw [getLast?_unescapeChars]
    exact h.last

theorem toList_of_nonempty? {cs : List Char} {s : String} (h : nonempty? cs = some s) :
    cs ≠ [] ∧ s.toList = cs := by
  unfold nonempty? at h
  split at h
  · cases h
  · next hne =>
    obtain rfl := Option.some.inj h
    exact ⟨hne, String.toList_ofList⟩

/-! ## The fields of a tag -/

/-- A name is a whole word, and no hyphen is taken for one. -/
theorem readName?_word {cs word rest : List Char} (h : readName? cs = some (word, rest)) :
    word ≠ [] ∧ (∀ c ∈ word, isBlank c = false) ∧ word.head? ≠ some '-' := by
  have hword : ∀ c ∈ cs.takeWhile (!isBlank ·), isBlank c = false := by
    intro c hc
    simpa using List.mem_takeWhile_imp hc
  unfold readName? at h
  split at h
  · cases h
  · cases h
  · next hne hhyphen =>
    cases h
    refine ⟨hne, hword, ?_⟩
    intro hhead
    obtain ⟨more, hmore⟩ := List.head?_eq_some_iff.1 hhead
    exact hhyphen more hmore

theorem wellFormed_splitName {body : List Char} {n : String} (h : (splitName body).1 = some n) :
    n ≠ "" ∧ (∀ c ∈ n.toList, isBlank c = false) ∧ n.toList.head? ≠ some '-' := by
  unfold splitName at h
  split at h
  · next word rest hread =>
    obtain ⟨-, hblank, hhyphen⟩ := readName?_word hread
    obtain ⟨hne, hn⟩ := toList_of_nonempty? h
    refine ⟨?_, ?_, ?_⟩
    · rintro rfl
      exact hne hn.symm
    · rw [hn]
      exact fun c hc => hblank c (mem_of_mem_unescapeChars hc)
    · rw [hn, head?_unescapeChars]
      exact hhyphen
  · cases h

theorem exists_descriptionOf (cs : List Char) : ∃ ds, descriptionOf cs = strip ds := by
  unfold descriptionOf
  split
  · exact ⟨_, rfl⟩
  · exact ⟨cs, rfl⟩

theorem trimmed_description {cs : List Char} {d : String}
    (h : nonempty? (unescapeChars (descriptionOf cs)) = some d) : Trimmed d.toList := by
  obtain ⟨ds, hds⟩ := exists_descriptionOf cs
  obtain ⟨hne, hd⟩ := toList_of_nonempty? h
  rw [hds] at hne hd
  have hstrip : strip ds ≠ [] := by
    intro hnil
    rw [hnil] at hne
    exact hne rfl
  rw [hd]
  exact trimmed_unescapeChars (trimmed_strip hstrip)

theorem wellFormed_splitType {body : List Char} {e : TypeExpr}
    (h : (splitType body).1 = some e) :
    Trimmed e.source.toList ∧ Balanced e.source.toList := by
  obtain ⟨inner, hblank, hbalanced, rfl⟩ := exists_inner_of_splitType h
  have hstrip : strip inner ≠ [] := by
    intro hnil
    rw [strip_eq_nil.1 hnil] at hblank
    cases hblank
  rw [TypeExpr.parse, String.toList_ofList]
  exact ⟨trimmed_strip hstrip, balanced_strip hbalanced⟩

/-- A tag that is read from a section is well-formed. -/
theorem wellFormed_readTag {cs blanks label body : List Char} (h : Headed cs blanks label body) :
    (readTag cs label body).WellFormed := by
  have hsource := h.headed_strip
  rw [readTag_eq]
  constructor
  · refine ⟨?_, ?_⟩
    · intro hempty
      exact h.label_ne_nil (String.ofList_injective hempty)
    · rw [String.toList_ofList]
      exact h.letters
  · refine ⟨stripEnd body, ?_, hsource.body⟩
    rw [String.toList_ofList, String.toList_ofList]
    exact hsource.text
  · exact fun n hn => wellFormed_splitName hn
  · exact fun d hd => trimmed_description hd
  · exact fun e he => wellFormed_splitType he

/-! ## All parts -/

/-- **Well-formed parts.** The parts of a comment are at most one text, which comes first, is not
empty and has no blanks at its ends, and well-formed tags. -/
theorem parts_of_comment_wellFormed (text : String) : ∃ (span : Option String) (tags : List Tag),
    parseContent text = span.toList.map .text ++ tags.map .tag ∧
      (∀ s ∈ span, Trimmed s.toList) ∧ ∀ t ∈ tags, t.WellFormed := by
  obtain ⟨front, tags, hparts, htags⟩ := exists_parts text.toList
  have hwell : ∀ t ∈ tags, t.WellFormed := by
    intro t ht
    obtain ⟨cs, blanks, label, body, hheaded, -, rfl⟩ := htags t ht
    exact wellFormed_readTag hheaded
  by_cases hblank : isBlankText front = true
  · refine ⟨none, tags, ?_, nofun, hwell⟩
    rw [parseContent, hparts, spanOf, if_pos hblank]
    rfl
  · have hstrip : strip front ≠ [] := fun hnil => hblank (strip_eq_nil.1 hnil)
    refine ⟨some (String.ofList (unescapeChars (strip front))), tags, ?_, ?_, hwell⟩
    · rw [parseContent, hparts, spanOf, if_neg hblank]
      rfl
    · intro s hs
      obtain rfl := Option.some.inj hs
      rw [String.toList_ofList]
      exact trimmed_unescapeChars (trimmed_strip hstrip)

end Comment

end ApiDoc
