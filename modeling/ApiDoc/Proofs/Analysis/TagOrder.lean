import Mathlib.Algebra.BigOperators.Group.Finset.Piecewise
import Mathlib.Data.Multiset.Basic
import ApiDoc.Proofs.Analysis.Remarks

/-!
# The order of the tags of a comment

A tag is taken with regard to the tags before it that are about the same: a second access tag is
too much, a parameter must not come twice. Tags about different things (`TagGroup`) have nothing to
do with each other, so they may be rearranged as long as the order within each group stays. Only
the remark that a comment has too many subjects shows the new order, as it lists them.

* `Draft.only_plus_of_notMem`, `Draft.tagIssues_congr`: a tag changes and reads the part of the
  draft that belongs to its group.
* `Draft.issues_eq_sum`: the remarks about all tags are those about each group by itself.
* `State.addFiles_since`: what was remarked before has no influence on a run.
* `tags_of_groups_commute`: the analysis before and after a rearrangement.
-/

namespace ApiDoc.Analysis

/-! ## Groups of tags -/

/-- What a tag is about. -/
inductive TagGroup where
  | classes
  | parents
  | abstractness
  | access
  | methods
  | functions
  | params
  | returns
  | properties
deriving Repr, DecidableEq, Inhabited

instance : Fintype TagGroup where
  elems := {.classes, .parents, .abstractness, .access, .methods, .functions, .params, .returns,
    .properties}
  complete g := by cases g <;> decide

/-- The labels of the tags of a group. -/
def TagGroup.labels : TagGroup → List String
  | .classes => ["class"]
  | .parents => ["extends", "inherits"]
  | .abstractness => ["abstract"]
  | .access => ["public", "protected", "private"]
  | .methods => ["method", "constructor"]
  | .functions => ["function"]
  | .params => ["param"]
  | .returns => ["return", "returns"]
  | .properties => ["property"]

def Role.group : Role → TagGroup
  | .classTag => .classes
  | .parentTag => .parents
  | .abstractTag => .abstractness
  | .accessTag _ => .access
  | .constructorTag => .methods
  | .methodTag => .methods
  | .functionTag => .functions
  | .paramTag => .params
  | .returnsTag => .returns
  | .propertyTag => .properties

theorem mem_labels_iff {label : String} {g : TagGroup} :
    label ∈ g.labels ↔ ∃ r, Role.ofLabel? label = some r ∧ r.group = g := by
  constructor
  · intro h
    cases g <;> simp only [TagGroup.labels, List.mem_cons, List.not_mem_nil, or_false] at h
    case parents | methods | returns => rcases h with rfl | rfl <;> exact ⟨_, rfl, rfl⟩
    case access => rcases h with rfl | rfl | rfl <;> exact ⟨_, rfl, rfl⟩
    all_goals exact h ▸ ⟨_, rfl, rfl⟩
  · rintro ⟨r, hr, rfl⟩
    rw [Role.ofLabel?_eq_some_iff] at hr
    cases r with
    | accessTag a => cases a <;> rw [List.mem_singleton.1 hr] <;> decide
    | parentTag | returnsTag => exact hr
    | _ => rw [List.mem_singleton.1 hr]; decide

/-- The tags of a group, in order. -/
def TagGroup.among (g : TagGroup) (ts : List Tag) : List Tag :=
  ts.filter (·.label ∈ g.labels)

theorem TagGroup.among_cons_of_mem {g : TagGroup} {t : Tag} (h : t.label ∈ g.labels)
    (ts : List Tag) : g.among (t :: ts) = t :: g.among ts :=
  List.filter_cons_of_pos (decide_eq_true h)

theorem TagGroup.among_cons_of_notMem {g : TagGroup} {t : Tag} (h : t.label ∉ g.labels)
    (ts : List Tag) : g.among (t :: ts) = g.among ts :=
  List.filter_cons_of_neg (by simpa using h)

/-! ## What a tag reads and changes -/

namespace Draft

/-- The part of a draft that the tags of a group fill. -/
def only (g : TagGroup) (d : Draft) : Draft :=
  match g with
  | .classes => { classSubject := d.classSubject }
  | .parents => { parents := d.parents }
  | .abstractness => { abstract := d.abstract }
  | .access => { access := d.access }
  | .methods => { method := d.method }
  | .functions => { function := d.function }
  | .params => { params := d.params }
  | .returns => { returns := d.returns }
  | .properties => { property := d.property, propertyType := d.propertyType }

theorem only_plus_of_notMem {g : TagGroup} {t : Tag} (h : t.label ∉ g.labels) (d : Draft) :
    (d.plus t).only g = d.only g := by
  cases g <;> simp only [TagGroup.labels, List.mem_cons, List.not_mem_nil, or_false, not_or] at h
  case access =>
    have hnone : Access.ofLabel? t.label = none := by
      simp [Access.ofLabel?, Access.label, Ne.symm h.1, Ne.symm h.2.1, Ne.symm h.2.2]
    simp [only, plus, hnone]
  all_goals simp [only, plus, declaredClass?, declaredParent?, declaredMethod?, declaredFunction?,
    declaredParam?, declaredProperty?, isReturnTag, addNames, h]

theorem only_plus_congr {g : TagGroup} {d e : Draft} (h : d.only g = e.only g) (t : Tag) :
    (d.plus t).only g = (e.plus t).only g := by
  cases g <;> simp_all [only, plus]

theorem tagIssues_congr {g : TagGroup} {t : Tag} (ht : t.label ∈ g.labels) {d e : Draft}
    (h : d.only g = e.only g) : d.tagIssues t = e.tagIssues t := by
  obtain ⟨r, hr, rfl⟩ := mem_labels_iff.1 ht
  unfold tagIssues
  cases r <;> simp_all [only, Role.group]

/-! ## All tags of a comment -/

theorem only_foldl_plus (g : TagGroup) (ts : List Tag) {d e : Draft} (h : d.only g = e.only g) :
    (ts.foldl plus d).only g = ((g.among ts).foldl plus e).only g := by
  induction ts generalizing d e with
  | nil => exact h
  | cons t ts ih =>
    by_cases ht : t.label ∈ g.labels
    · rw [TagGroup.among_cons_of_mem ht, List.foldl_cons, List.foldl_cons]
      exact ih (only_plus_congr h t)
    · rw [TagGroup.among_cons_of_notMem ht, List.foldl_cons]
      exact ih ((only_plus_of_notMem ht d).trans h)

theorem issues_among_congr {g : TagGroup} (ts : List Tag) {d e : Draft}
    (h : d.only g = e.only g) : (d.addTags (g.among ts)).2 = (e.addTags (g.among ts)).2 := by
  induction ts generalizing d e with
  | nil => rfl
  | cons t ts ih =>
    by_cases ht : t.label ∈ g.labels
    · rw [TagGroup.among_cons_of_mem ht, addTags_snd_cons, addTags_snd_cons,
        tagIssues_congr ht h, ih (only_plus_congr h t)]
    · rw [TagGroup.among_cons_of_notMem ht, ih h]

theorem issues_among_cons (g : TagGroup) (t : Tag) (ts : List Tag) (d : Draft) :
    (d.addTags (g.among (t :: ts))).2 =
      (if t.label ∈ g.labels then d.tagIssues t else []) ++
        ((d.plus t).addTags (g.among ts)).2 := by
  split
  · next ht => rw [TagGroup.among_cons_of_mem ht, addTags_snd_cons]
  · next ht =>
    rw [TagGroup.among_cons_of_notMem ht, List.nil_append]
    exact issues_among_congr ts (only_plus_of_notMem ht d).symm

/-- A tag is in one group at most, and in none if nothing is to be said about it. -/
theorem sum_tagIssues (d : Draft) (t : Tag) :
    (∑ g : TagGroup, ((if t.label ∈ g.labels then d.tagIssues t else [] : List Issue) :
      Multiset Issue)) = d.tagIssues t := by
  cases hr : Role.ofLabel? t.label with
  | none =>
    have hissues : d.tagIssues t = [] := by
      unfold tagIssues
      rw [hr]
    simp [hissues]
  | some r =>
    have hgroup : ∀ g : TagGroup, t.label ∈ g.labels ↔ r.group = g := by
      intro g
      simp [mem_labels_iff, hr]
    simp only [hgroup, apply_ite (Multiset.ofList (α := Issue)), Multiset.coe_nil]
    rw [Finset.sum_ite_eq, if_pos (Finset.mem_univ _)]

theorem issues_eq_sum (d : Draft) (ts : List Tag) :
    ((d.addTags ts).2 : Multiset Issue) = ∑ g : TagGroup, ((d.addTags (g.among ts)).2 :
      Multiset Issue) := by
  induction ts generalizing d with
  | nil => simp [addTags, TagGroup.among]
  | cons t ts ih =>
    simp only [issues_among_cons, addTags_snd_cons, ← Multiset.coe_add, Finset.sum_add_distrib,
      sum_tagIssues, ih]

theorem eq_of_only {d e : Draft} (h : ∀ g, d.only g = e.only g) :
    d = { e with primaryTags := d.primaryTags } := by
  have hclass := congrArg classSubject (h .classes)
  have hparents := congrArg parents (h .parents)
  have habstract := congrArg Draft.abstract (h .abstractness)
  have haccess := congrArg access (h .access)
  have hmethod := congrArg method (h .methods)
  have hfunction := congrArg function (h .functions)
  have hparams := congrArg params (h .params)
  have hreturns := congrArg returns (h .returns)
  have hproperty := congrArg property (h .properties)
  have htype := congrArg propertyType (h .properties)
  cases d
  cases e
  simp_all [only]

theorem primaryTags_foldl_plus (ts : List Tag) (d : Draft) :
    (ts.foldl plus d).primaryTags =
      d.primaryTags ++ (ts.filter (·.label ∈ primaryLabels)).map Tag.label := by
  induction ts generalizing d with
  | nil => simp
  | cons t ts ih =>
    rw [List.foldl_cons, ih, List.filter_cons]
    by_cases h : t.label ∈ primaryLabels <;> simp [plus, h]

end Draft

/-! ## Comments whose tags were rearranged -/

/-- The second comment is the first with its tags in another order: the free texts and the tags of
each group stand in the order they had. Tags of no group may stand anywhere. -/
structure Rearranged (c c' : Comment) : Prop where
  source : c'.source = c.source
  texts : c'.texts = c.texts
  groups : ∀ g : TagGroup, g.among c'.tags = g.among c.tags

/-- The same remark, but for the order in which it lists the tags of a comment. -/
inductive Issue.Alike : Issue → Issue → Prop
  | refl (i : Issue) : Alike i i
  | listed {a b : List String} (h : a.Perm b) : Alike (.manyPrimaryTags a) (.manyPrimaryTags b)

structure Warning.Alike (w w' : Warning) : Prop where
  issue : w.issue.Alike w'.issue
  source : w.source = w'.source
  file : w.file = w'.file

/-- Alike as multisets: the remarks can be paired off. -/
def SameRemarks (ws ws' : List Warning) : Prop :=
  Multiset.Rel Warning.Alike ws ws'

section

variable {c c' : Comment} (h : Rearranged c c')
include h

theorem Rearranged.text : c'.text = c.text := by
  unfold Comment.text
  rw [h.texts]

theorem Rearranged.draft : (Draft.ofComment c').1 =
    { (Draft.ofComment c).1 with primaryTags := (Draft.ofComment c').1.primaryTags } := by
  apply Draft.eq_of_only
  intro g
  rw [Draft.ofComment, Draft.ofComment, Draft.addTags_fst, Draft.addTags_fst,
    Draft.only_foldl_plus g c'.tags rfl, Draft.only_foldl_plus g c.tags rfl, h.groups]

theorem Rearranged.issues :
    ((Draft.ofComment c').2 : Multiset Issue) = (Draft.ofComment c).2 := by
  rw [Draft.ofComment, Draft.ofComment, Draft.issues_eq_sum, Draft.issues_eq_sum]
  simp only [h.groups]

theorem Rearranged.filter_perm {p : Tag → Bool}
    (hp : ∀ t, p t = true → ∃ g : TagGroup, t.label ∈ g.labels) :
    (c'.tags.filter p).Perm (c.tags.filter p) := by
  rw [List.perm_iff_count]
  intro t
  by_cases ht : p t = true
  · obtain ⟨g, hg⟩ := hp t ht
    have hcount := congrArg (List.count t) (h.groups g)
    unfold TagGroup.among at hcount
    rw [List.count_filter (by simpa using hg), List.count_filter (by simpa using hg)] at hcount
    rw [List.count_filter ht, List.count_filter ht, hcount]
  · rw [List.count_eq_zero_of_not_mem fun hmem => ht (List.mem_filter.1 hmem).2,
      List.count_eq_zero_of_not_mem fun hmem => ht (List.mem_filter.1 hmem).2]

theorem Rearranged.primaryTags :
    (Draft.ofComment c').1.primaryTags.Perm (Draft.ofComment c).1.primaryTags := by
  rw [Draft.ofComment, Draft.ofComment, Draft.addTags_fst, Draft.addTags_fst,
    Draft.primaryTags_foldl_plus, Draft.primaryTags_foldl_plus]
  apply List.Perm.append_left
  apply List.Perm.map
  apply h.filter_perm
  intro t ht
  have hlabel : t.label ∈ primaryLabels := of_decide_eq_true ht
  simp only [primaryLabels, List.mem_cons, List.not_mem_nil, or_false] at hlabel
  rcases hlabel with hl | hl | hl | hl | hl <;> rw [hl]
  · exact ⟨.classes, by decide⟩
  · exact ⟨.methods, by decide⟩
  · exact ⟨.methods, by decide⟩
  · exact ⟨.functions, by decide⟩
  · exact ⟨.properties, by decide⟩

end

/-! ## Runs -/

namespace State

/-- The state with earlier remarks before its own. -/
def since (earlier : List Warning) (s : State) : State :=
  { s with warnings := earlier ++ s.warnings }

section

variable (earlier : List Warning) (s : State) (limit : Limit) (file : String)

theorem warn_since (c : Comment) (issues : List Issue) :
    (s.since earlier).warn file c issues = (s.warn file c issues).since earlier := by
  simp only [warn, since, List.append_assoc]

theorem commit_since (active : Option String) (c : Comment) (d : Draft) :
    (s.since earlier).commit active file c d =
      ((s.commit active file c d).1.since earlier, (s.commit active file c d).2) := by
  simp only [commit, warn, since, List.append_assoc]

theorem addComment_since (active : Option String) (c : Comment) :
    (s.since earlier).addComment limit file active c =
      ((s.addComment limit file active c).1.since earlier,
        (s.addComment limit file active c).2) := by
  simp only [addComment, warn_since, commit_since]

theorem addComments_since (cs : List Comment) (active : Option String) :
    (s.since earlier).addComments limit file active cs =
      (s.addComments limit file active cs).since earlier := by
  induction cs generalizing s active with
  | nil => rfl
  | cons c cs ih =>
    simp only [addComments, addComment_since, ih]

theorem addFiles_since (files : List FileComments) :
    (s.since earlier).addFiles limit files = (s.addFiles limit files).since earlier := by
  induction files generalizing s with
  | nil => rfl
  | cons f files ih =>
    rw [addFiles, addFiles, List.foldl_cons, List.foldl_cons, addFile, addComments_since]
    exact ih _

end

end State

theorem addFiles_of_addComment {limit : Limit} {s : State} {file : String}
    {before : List Comment} {x : Comment} {y : State} {current : Option String}
    (hx : (s.addComments limit file none before).addComment limit file
      (currentAfter none before) x = (y, current))
    (after : List Comment) (later : List FileComments) :
    s.addFiles limit (⟨file, before ++ x :: after⟩ :: later) =
      (y.addComments limit file current after).addFiles limit later := by
  rw [State.addFiles, List.foldl_cons, State.addFile, addComments_append, State.addComments]
  simp only [hx]
  rfl

/-! ## A comment in both orders -/

theorem alike_refl (w : Warning) : w.Alike w :=
  ⟨.refl _, rfl, rfl⟩

theorem SameRemarks.append {ws ws' : List Warning} (h : SameRemarks ws ws')
    (more : List Warning) : SameRemarks (ws ++ more) (ws' ++ more) := by
  unfold SameRemarks
  rw [← Multiset.coe_add, ← Multiset.coe_add]
  exact h.add (Multiset.rel_refl_of_refl_on fun w _ => alike_refl w)

section

variable {c c' : Comment} (h : Rearranged c c')
include h

theorem Rearranged.commit (s : State) (active : Option String) (file : String) :
    s.commit active file c' (Draft.ofComment c').1 =
      s.commit active file c (Draft.ofComment c).1 := by
  rw [h.draft]
  unfold State.commit State.warn
  rw [h.text, h.source]
  rfl

/-- What is remarked about the tags of a comment, in both orders. -/
theorem Rearranged.sameRemarks (limit : Limit) (file : String) :
    let many := fun labels : List String =>
      if exceeds limit labels then [Issue.manyPrimaryTags labels] else []
    SameRemarks
      (warningsOf file c ((Draft.ofComment c).2 ++ many (Draft.ofComment c).1.primaryTags))
      (warningsOf file c' ((Draft.ofComment c').2 ++ many (Draft.ofComment c').1.primaryTags)) := by
  intro many
  have hperm := h.primaryTags
  have hexceeds : exceeds limit (Draft.ofComment c').1.primaryTags =
      exceeds limit (Draft.ofComment c).1.primaryTags := by
    unfold exceeds
    rw [hperm.length_eq]
  unfold SameRemarks warningsOf
  rw [h.source, List.map_append, List.map_append, ← Multiset.coe_add, ← Multiset.coe_add]
  apply Multiset.Rel.add
  · rw [← Multiset.map_coe, ← Multiset.map_coe, h.issues]
    exact Multiset.rel_refl_of_refl_on fun w _ => alike_refl w
  · simp only [many, hexceeds]
    split
    · exact Multiset.Rel.cons ⟨.listed hperm.symm, rfl, rfl⟩ Multiset.Rel.zero
    · exact Multiset.Rel.zero

/-- One comment in both orders: what it leaves is the same but for the remarks about it. -/
theorem Rearranged.addComment (limit : Limit) (s : State) (active : Option String)
    (file : String) :
    ∃ (t : State) (current : Option String) (new new' : List Warning),
      s.addComment limit file active c = (t.since (s.warnings ++ new), current) ∧
      s.addComment limit file active c' = (t.since (s.warnings ++ new'), current) ∧
      t.warnings = [] ∧ SameRemarks new new' := by
  let bare : State := { s with warnings := [] }
  let committed := bare.commit active file c (Draft.ofComment c).1
  have hwarn : ∀ (x : Comment) (issues : List Issue),
      s.warn file x issues = bare.since (s.warnings ++ warningsOf file x issues) := by
    intro x issues
    simp only [State.warn, State.since, warningsOf, bare, List.append_nil]
  have hsplit : ∀ new : List Warning, committed.1.since (s.warnings ++ new) =
      ({ committed.1 with warnings := [] } : State).since
        (s.warnings ++ (new ++ committed.1.warnings)) := by
    intro new
    simp only [State.since, List.append_nil, List.append_assoc]
  refine ⟨{ committed.1 with warnings := [] }, committed.2, _, _, ?_, ?_, rfl,
    (h.sameRemarks limit file).append committed.1.warnings⟩
  · rw [← hsplit]
    simp only [State.addComment, hwarn, State.commit_since]
    rfl
  · rw [← hsplit]
    simp only [State.addComment, hwarn, State.commit_since, h.commit]
    rfl

end

/-- **Order of the tags.** Where the tags of a comment are rearranged, but not within their groups,
every run leaves the same classes and the same functions. The remarks before and behind those about
the comment are the same, and the ones about it are the same as multisets, but for the order in
which they list its tags. -/
theorem tags_of_groups_commute (limit : Limit) (calls : List (List FileComments)) (file : String)
    (before after : List Comment) (later : List FileComments) {c c' : Comment}
    (h : Rearranged c c') :
    let s := State.afterCalls limit calls
    let run := fun x : Comment => s.addFiles limit (⟨file, before ++ x :: after⟩ :: later)
    (run c').classes = (run c).classes ∧ (run c').functions = (run c).functions ∧
      ∃ front new new' back,
        (s.addFiles limit [⟨file, before⟩]).warnings = front ∧
        (s.addFiles limit [⟨file, before ++ [c]⟩]).warnings = front ++ new ∧
        (s.addFiles limit [⟨file, before ++ [c']⟩]).warnings = front ++ new' ∧
        (run c).warnings = front ++ new ++ back ∧
        (run c').warnings = front ++ new' ++ back ∧
        SameRemarks new new' := by
  intro s run
  let mid := s.addComments limit file none before
  obtain ⟨t, current, new, new', hc, hc', hwarnings, hsame⟩ :=
    h.addComment limit mid (currentAfter none before) file
  let rest := (t.addComments limit file current after).addFiles limit later
  have hrun : ∀ x w, mid.addComment limit file (currentAfter none before) x =
      (t.since w, current) → run x = rest.since w := by
    intro x w hx
    rw [← State.addFiles_since, ← State.addComments_since]
    exact addFiles_of_addComment hx after later
  have hupTo : ∀ x w, mid.addComment limit file (currentAfter none before) x =
      (t.since w, current) → (s.addFiles limit [⟨file, before ++ [x]⟩]).warnings = w := by
    intro x w hx
    rw [addFiles_of_addComment hx [] []]
    change (t.since w).warnings = w
    rw [State.since, hwarnings, List.append_nil]
  refine ⟨?_, ?_, mid.warnings, new, new', rest.warnings, rfl, hupTo c _ hc, hupTo c' _ hc',
    ?_, ?_, hsame⟩
  · rw [hrun c _ hc, hrun c' _ hc']
    rfl
  · rw [hrun c _ hc, hrun c' _ hc']
    rfl
  · rw [hrun c _ hc]
    rfl
  · rw [hrun c' _ hc']
    rfl

/-- A class with its method, where the three subjects are listed in the order they have. -/
theorem tags_of_groups_commute_subjects :
    let part := fun label name : String => Part.tag { source := "", label, name := some name }
    let c : Comment := ⟨"/** */", [part "class" "A", part "method" "f", part "param" "x",
      part "private" "", .text "text", part "param" "y", part "constructor" "", part "public" ""]⟩
    let c' : Comment := ⟨"/** */", [part "private" "", part "method" "f", part "constructor" "",
      part "public" "", part "param" "x", part "class" "A", part "param" "y", .text "text"]⟩
    let run := fun x : Comment => (State.afterCalls defaultLimit []).addFiles defaultLimit
      [⟨"a.js", [x]⟩]
    Rearranged c c' ∧ (run c').classes = (run c).classes ∧
      (run c').functions = (run c).functions ∧ (run c').warnings ≠ (run c).warnings ∧
      SameRemarks (run c).warnings (run c').warnings := by
  intro part c c' run
  have h : Rearranged c c' := ⟨rfl, rfl, by intro g; cases g <;> decide⟩
  obtain ⟨hclasses, hfunctions, front, new, new', back, hfront, hnew, hnew', -, -, hsame⟩ :=
    tags_of_groups_commute defaultLimit [] "a.js" [] [] [] h
  -- nothing was remarked before this comment
  obtain rfl : front = [] := hfront.symm
  have hc : (run c).warnings = new := hnew
  have hc' : (run c').warnings = new' := hnew'
  refine ⟨h, hclasses, hfunctions, by decide, ?_⟩
  rw [hc, hc']
  exact hsame

end ApiDoc.Analysis
