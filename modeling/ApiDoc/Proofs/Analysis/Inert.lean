import ApiDoc.Proofs.Analysis.Independence
import ApiDoc.Proofs.Analysis.Source
import ApiDoc.Proofs.Comment.Closer

/-!
# Models without the closing delimiter

Every text of a class comes from a tag or from the free text of a comment, alone or joined to
another one by blanks. So where no text of a comment contains `*/`, no text of the model does.

* `inert_methodOf?`, `inert_propertyOf?`, `inert_subject`: what one comment declares.
* `inert_of_mem_classes`: every class after any calls.
-/

namespace ApiDoc

open Text

/-- No text of a parameter contains `*/`. -/
structure Param.Inert (p : Param) : Prop where
  name : NoCloser p.name.toList
  description : ∀ d ∈ p.description, NoCloser d.toList
  type : ∀ e ∈ p.type, NoCloser e.source.toList

/-- No text of a property contains `*/`. -/
structure Property.Inert (p : Property) : Prop where
  name : NoCloser p.name.toList
  description : ∀ d ∈ p.description, NoCloser d.toList
  type : ∀ e ∈ p.type, NoCloser e.source.toList

/-- No text of a method contains `*/`. -/
structure Method.Inert (m : Method) : Prop where
  name : NoCloser m.name.toList
  description : ∀ d ∈ m.description, NoCloser d.toList
  params : ∀ p ∈ m.params, p.Inert
  returns : ∀ e ∈ m.returns, NoCloser e.source.toList

/-- No text of a class contains `*/`. The path of its file is not one of them. -/
structure ClassDoc.Inert (c : ClassDoc) : Prop where
  name : NoCloser c.name.toList
  description : ∀ d ∈ c.description, NoCloser d.toList
  parents : ∀ n ∈ c.parents, NoCloser n.toList
  properties : ∀ p ∈ c.properties.values, p.Inert
  methods : ∀ m ∈ c.methods.values, m.Inert

namespace Analysis

/-! ## What one tag declares -/

/-- No text of a subject contains `*/`. -/
structure Subject.Inert (s : Subject) : Prop where
  name : NoCloser s.name.toList
  description : ∀ d ∈ s.description, NoCloser d.toList

section

variable {t : Tag} (h : t.Inert)
include h

theorem noCloser_nameOf : ∀ n ∈ nameOf t, NoCloser n.toList := by
  intro n hn
  exact h.name n (Option.filter_eq_some_iff.1 hn).1

theorem inert_named {s : Subject} (hs : ((nameOf t).map fun n => ⟨n, t.description⟩) = some s) :
    s.Inert := by
  obtain ⟨n, hn, rfl⟩ := Option.map_eq_some_iff.1 hs
  exact ⟨noCloser_nameOf h n hn, h.description⟩

theorem inert_declaredClass? {s : Subject} (hs : declaredClass? t = some s) : s.Inert := by
  unfold declaredClass? at hs
  split at hs
  · exact inert_named h hs
  · cases hs

theorem noCloser_of_mem_wordsOf {w : String} (hw : w ∈ wordsOf t) : NoCloser w.toList := by
  have hword : ∀ o : Option String, (∀ s ∈ o, NoCloser s.toList) → NoCloser (o.getD "").toList := by
    intro o ho
    cases o with
    | none => exact noCloser_nil
    | some s => exact ho s rfl
  rcases List.mem_pair.1 (List.mem_filter.1 hw).1 with rfl | rfl
  · exact hword _ h.name
  · exact hword _ h.description

theorem inert_declaredMethod? {s : Subject} (hs : declaredMethod? t = some s) : s.Inert := by
  unfold declaredMethod? at hs
  split at hs
  · cases hs
    have hname : NoCloser "constructor".toList := noCloser_of_notMem (by decide)
    refine ⟨hname, ?_⟩
    intro d hd
    split at hd
    · cases hd
    · cases hd
      rw [String.toList_intercalate]
      apply noCloser_intercalate (by decide)
      intro w hw
      obtain ⟨word, hword, rfl⟩ := List.mem_map.1 hw
      exact noCloser_of_mem_wordsOf h hword
  · split at hs
    · exact inert_named h hs
    · cases hs

theorem inert_declaredProperty? {s : Subject} {e : Option TypeExpr}
    (hs : declaredProperty? t = some (s, e)) :
    s.Inert ∧ ∀ e' ∈ e, NoCloser e'.source.toList := by
  unfold declaredProperty? at hs
  split at hs
  · obtain ⟨n, hn, he⟩ := Option.map_eq_some_iff.1 hs
    cases he
    exact ⟨⟨noCloser_nameOf h n hn, h.description⟩, h.type⟩
  · cases hs

theorem inert_declaredParam? {p : Param} (hp : declaredParam? t = some p) : p.Inert := by
  unfold declaredParam? at hp
  split at hp
  · obtain ⟨n, hn, rfl⟩ := Option.map_eq_some_iff.1 hp
    exact ⟨noCloser_nameOf h n hn, h.description, h.type⟩
  · cases hp

theorem noCloser_declaredParent? {n : String} (hn : declaredParent? t = some n) :
    NoCloser n.toList := by
  unfold declaredParent? at hn
  split at hn
  · exact noCloser_nameOf h n hn
  · cases hn

end

/-! ## What one comment declares -/

section

variable {c : Comment} (h : c.Inert)
include h

theorem noCloser_text : ∀ s ∈ c.text, NoCloser s.toList := by
  intro s hs
  unfold Comment.text at hs
  split at hs
  · cases hs
  · cases hs
    rw [String.toList_intercalate]
    apply noCloser_intercalate (by decide)
    intro part hpart
    obtain ⟨text, htext, rfl⟩ := List.mem_map.1 hpart
    exact h.texts text htext

theorem noCloser_textOf {own : Option String} (hown : ∀ d ∈ own, NoCloser d.toList) :
    ∀ d ∈ textOf c own, NoCloser d.toList := by
  unfold textOf
  split
  · exact noCloser_text h
  · exact hown

theorem inert_paramsOf : ∀ p ∈ paramsOf c, p.Inert := by
  intro p hp
  obtain ⟨t, ht, hread⟩ := List.mem_filterMap.1 (mem_of_mem_firstOfKey hp)
  exact inert_declaredParam? (h.tags t ht) hread

theorem noCloser_returnsOf : ∀ e ∈ returnsOf c, NoCloser e.source.toList := by
  intro e he
  obtain ⟨t, ht, htype⟩ := Option.bind_eq_some_iff.1 he
  exact (h.tags t (List.mem_of_find?_eq_some ht)).type e htype

theorem inert_methodOf? {m : Method} (hm : methodOf? c = some m) : m.Inert := by
  obtain ⟨s, hs, rfl⟩ := Option.map_eq_some_iff.1 hm
  obtain ⟨t, ht, hread⟩ := List.exists_of_findSome?_eq_some hs
  have hsubject := inert_declaredMethod? (h.tags t ht) hread
  exact ⟨hsubject.name, noCloser_textOf h hsubject.description, inert_paramsOf h,
    noCloser_returnsOf h⟩

theorem inert_propertyOf? {p : Property} (hp : propertyOf? c = some p) : p.Inert := by
  obtain ⟨s, hs, rfl⟩ := Option.map_eq_some_iff.1 hp
  obtain ⟨t, ht, hread⟩ := List.exists_of_findSome?_eq_some hs
  obtain ⟨hsubject, htype⟩ := inert_declaredProperty? (h.tags t ht) hread
  exact ⟨hsubject.name, noCloser_textOf h hsubject.description, htype⟩

theorem inert_subject {s : Subject} (hs : c.tags.findSome? declaredClass? = some s) : s.Inert := by
  obtain ⟨t, ht, hread⟩ := List.exists_of_findSome?_eq_some hs
  exact inert_declaredClass? (h.tags t ht) hread

theorem noCloser_classTextOf : ∀ d ∈ classTextOf c, NoCloser d.toList := by
  apply noCloser_textOf h
  intro d hd
  obtain ⟨s, hs, hown⟩ := Option.bind_eq_some_iff.1 hd
  exact (inert_subject h hs).description d hown

theorem noCloser_parentsOf : ∀ n ∈ parentsOf c, NoCloser n.toList := by
  intro n hn
  obtain ⟨t, ht, hread⟩ := List.mem_filterMap.1 hn
  exact noCloser_declaredParent? (h.tags t ht) hread

end

/-! ## All calls -/

theorem mem_comments_of_mem_commentsAt {calls : List (List FileComments)} {key : String}
    {c : Comment} (h : c ∈ commentsAt calls key) : ∃ f ∈ calls.flatten, c ∈ f.comments := by
  obtain ⟨p, hp, rfl⟩ := List.mem_map.1 h
  obtain ⟨f, hf, hplaced⟩ := List.mem_flatMap.1 (List.mem_filter.1 hp).1
  exact ⟨f, hf, (names_of_mem_placed hplaced).1⟩

section

variable {limit : Limit} {calls : List (List FileComments)} {k : ClassDoc}

/-- A member of a class was declared by some comment. -/
theorem exists_comment_of_mem_entries {α : Type} (view : MemberView α) {m : α}
    (hk : (State.afterCalls limit calls).classes.get? k.name = some k)
    (hm : m ∈ (view.entries k).map Prod.snd) :
    ∃ f ∈ calls.flatten, ∃ c ∈ f.comments, view.member? c = some m := by
  rw [view.entries_afterCalls hk] at hm
  obtain ⟨⟨name, m'⟩, hmem, rfl⟩ := List.mem_map.1 hm
  obtain ⟨c, hc, hentry⟩ := List.mem_filterMap.1 (mem_of_mem_firstOfKey hmem)
  obtain ⟨f, hf, hcomment⟩ := mem_comments_of_mem_commentsAt hc
  obtain ⟨m, hmember, he⟩ := Option.map_eq_some_iff.1 hentry
  cases he
  exact ⟨f, hf, c, hcomment, hmember⟩

theorem mem_comments_of_mem_filedIn {c : Filed} (h : c ∈ filedIn calls) :
    ∃ f ∈ calls.flatten, c.comment ∈ f.comments := by
  obtain ⟨f, hf, hfiled⟩ := List.mem_flatMap.1 h
  obtain ⟨comment, hcomment, rfl⟩ := List.mem_map.1 hfiled
  exact ⟨f, hf, hcomment⟩

/-- Where no text of a comment contains `*/`, no text of a class does. -/
theorem inert_of_mem_classes (h : ∀ f ∈ calls.flatten, ∀ c ∈ f.comments, c.Inert)
    (hk : k ∈ (State.afterCalls limit calls).classes.values) : k.Inert := by
  have hget := get?_name_of_mem hk
  have hdeclared : ∀ c ∈ declarationsOf k.name (filedIn calls), c.comment.Inert := by
    intro c hc
    obtain ⟨f, hf, hcomment⟩ := mem_comments_of_mem_filedIn (List.mem_filter.1 hc).1
    exact h f hf c.comment hcomment
  have hheading := heading_afterCalls limit calls k.name
  rw [hget, Option.map_some, headingOf] at hheading
  obtain ⟨first, hfirst, he⟩ := Option.map_eq_some_iff.1 hheading.symm
  have hmem := List.mem_of_head? hfirst
  have hinert := hdeclared first hmem
  refine ⟨?_, ?_, ?_, ?_, ?_⟩
  · have hname : className? first.comment = some k.name := by
      simpa using (List.mem_filter.1 hmem).2
    obtain ⟨s, hs, hsname⟩ := Option.map_eq_some_iff.1 hname
    rw [← hsname]
    exact (inert_subject hinert hs).name
  · have hdescription : classTextOf first.comment = k.description := congrArg Heading.description he
    rw [← hdescription]
    exact noCloser_classTextOf hinert
  · have hparents : (List.flatMap (fun c : Filed => parentsOf c.comment)
        (declarationsOf k.name (filedIn calls))).eraseDups = k.parents :=
      congrArg Heading.parents he
    intro n hn
    rw [← hparents, List.mem_eraseDups] at hn
    obtain ⟨c, hc, hparent⟩ := List.mem_flatMap.1 hn
    exact noCloser_parentsOf (hdeclared c hc) n hparent
  · intro p hp
    obtain ⟨f, hf, c, hc, hmember⟩ := exists_comment_of_mem_entries propertyView hget hp
    exact inert_propertyOf? (h f hf c hc) hmember
  · intro m hm
    obtain ⟨f, hf, c, hc, hmember⟩ := exists_comment_of_mem_entries methodView hget hm
    exact inert_methodOf? (h f hf c hc) hmember

end

end Analysis

end ApiDoc
