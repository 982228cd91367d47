import ApiDoc.Proofs.Analysis.Remarks

/-!
# Every member tag is accounted for

A tag that declares a member ends in one of several ways. It may be too much or without a name,
which is seen as the tags are taken, or the member may have no class or be in its class already,
which is seen when the comment comes to its end. In all these cases there is a remark, and else the
member is stored. So the count balances, tag by tag, comment by comment and over whole runs.

* `Draft.balance_plus`: one tag.
* `MemberSlot.Counted.balance_add`: one member.
* `balance_addComment`: one comment.
* `State.afterCalls_induction`: what every comment preserves holds after every run.
* `member_tags_accounted`: a run.
-/

namespace ApiDoc

/-! ## Sums over a table -/

namespace Table

variable {α : Type}

/-- The sum of what a function gives for the values of a table. -/
def sumOf (f : α → Nat) (t : Table α) : Nat :=
  t.values.foldr (fun v n => f v + n) 0

/-- A value that comes into a table takes the place of the one under its key. -/
theorem sumOf_insert (f : α → Nat) (t : Table α) (key : String) (v : α) :
    (t.insert key v).sumOf f + ((t.get? key).map f).getD 0 = t.sumOf f + f v := by
  obtain ⟨es⟩ := t
  unfold sumOf values insert get?
  induction es with
  | nil => simp [insertEntry, find?]
  | cons e es ih =>
    obtain ⟨k, v'⟩ := e
    by_cases hk : key = k
    · simp only [insertEntry, find?, hk, if_true, List.map_cons, List.foldr_cons,
        Option.map_some, Option.getD_some]
      omega
    · simp only [insertEntry, find?, hk, if_false, List.map_cons, List.foldr_cons] at ih ⊢
      omega

theorem size_insert_of_not_contains (t : Table α) {key : String} (h : t.contains key = false)
    (v : α) : (t.insert key v).size = t.size + 1 := by
  rw [size, insert_of_not_contains h, List.length_append]
  rfl

end Table

/-- The number of the members of a class. -/
def ClassDoc.memberCount (k : ClassDoc) : Nat :=
  k.methods.size + k.properties.size

namespace Analysis

/-! ## Tags that declare members -/

/-- The labels of the tags that declare a member of a kind. -/
def MemberKind.tagLabels : MemberKind → List String
  | .method => ["method", "constructor"]
  | .property => ["property"]

def memberLabels : List String :=
  ["method", "constructor", "property"]

theorem MemberKind.tagLabels_subset (kind : MemberKind) : kind.tagLabels ⊆ memberLabels := by
  cases kind <;> decide

/-- The labels of the member tags of which a remark says that one of them was dropped. -/
def Issue.dropped : Issue → List String
  | .duplicateTag label | .missingName label => [label].filter (· ∈ memberLabels)
  | .orphanMember kind _ | .memberExists kind _ _ => kind.tagLabels
  | _ => []

/-- Does the remark say that a member tag was dropped? -/
def Issue.isLoss (i : Issue) : Bool :=
  !i.dropped.isEmpty

/-- The number of the remarks about dropped member tags. -/
def losses (issues : List Issue) : Nat :=
  issues.countP Issue.isLoss

@[simp] theorem losses_nil : losses [] = 0 := rfl

@[simp] theorem losses_append (is js : List Issue) : losses (is ++ js) = losses is + losses js :=
  List.countP_append

/-- The number of the members that a draft declares. -/
def Draft.members (d : Draft) : Nat :=
  d.method.toList.length + d.property.toList.length

/-- The number of the member tags among tags. -/
def memberTags (ts : List Tag) : Nat :=
  ts.countP (·.label ∈ memberLabels)

theorem memberTags_append (ts us : List Tag) :
    memberTags (ts ++ us) = memberTags ts + memberTags us :=
  List.countP_append

theorem Issue.mem_memberLabels_of_mem_dropped {i : Issue} {l : String} (h : l ∈ i.dropped) :
    l ∈ memberLabels := by
  cases i with
  | duplicateTag | missingName => simpa using (List.mem_filter.1 h).2
  | orphanMember kind | memberExists kind => exact kind.tagLabels_subset h
  | _ => cases h

namespace Draft

/-- What is remarked about a tag says of no other tag that it was dropped. -/
theorem eq_label_of_mem_dropped {d : Draft} {t : Tag} {i : Issue} (hi : i ∈ d.tagIssues t)
    {l : String} (hl : l ∈ i.dropped) : l = t.label := by
  have htype : i ∈ typeIssues t → i.dropped = [] := by
    unfold typeIssues
    grind [Issue.dropped]
  have hkind : i = .duplicateTag t.label ∨ i = .missingName t.label ∨ i.dropped = [] := by
    unfold tagIssues nameIssues at hi
    grind [Issue.dropped]
  rcases hkind with rfl | rfl | h
  · exact List.mem_singleton.1 (List.mem_filter.1 hl).1
  · exact List.mem_singleton.1 (List.mem_filter.1 hl).1
  · rw [h] at hl
    cases hl

theorem losses_tagIssues_of_notMem {t : Tag} (h : t.label ∉ memberLabels) (d : Draft) :
    losses (d.tagIssues t) = 0 := by
  apply List.countP_eq_zero.2
  intro i hi
  have hnone : i.dropped = [] := by
    apply List.eq_nil_iff_forall_not_mem.2
    intro l hl
    rw [← eq_label_of_mem_dropped hi hl] at h
    exact h (Issue.mem_memberLabels_of_mem_dropped hl)
  simp [Issue.isLoss, hnone]

theorem members_plus_of_notMem {t : Tag} (h : t.label ∉ memberLabels) (d : Draft) :
    (d.plus t).members = d.members := by
  simp only [memberLabels, List.mem_cons, List.not_mem_nil, or_false, not_or] at h
  simp [members, plus, declaredMethod?, declaredProperty?, h]

theorem losses_typeIssues (t : Tag) : losses (typeIssues t) = 0 := by
  unfold typeIssues
  split <;> rfl

/-- One tag: it becomes a member of the draft, or there is a remark. -/
theorem balance_plus (d : Draft) (t : Tag) :
    (d.plus t).members + losses (d.tagIssues t) = d.members + memberTags [t] := by
  by_cases h : t.label ∈ memberLabels
  · have hone : memberTags [t] = 1 := by simp [memberTags, h]
    have hduplicate : losses [.duplicateTag t.label] = 1 := by
      simp [losses, Issue.isLoss, Issue.dropped, h]
    have hmissing : losses [.missingName t.label] = 1 := by
      simp [losses, Issue.isLoss, Issue.dropped, h]
    simp only [memberLabels, List.mem_cons, List.not_mem_nil, or_false] at h
    rw [hone]
    unfold members plus tagIssues nameIssues declaredMethod? declaredProperty?
    rcases h with h | h | h <;> rw [h] at hduplicate hmissing
    · cases d.method <;> cases nameOf t <;>
        simp [Role.ofLabel?, losses_typeIssues, Nat.add_comm, h, hduplicate, hmissing]
    · cases d.method <;> simp [Role.ofLabel?, Nat.add_comm, h, hduplicate]
    · cases d.property <;> cases nameOf t <;>
        simp [Role.ofLabel?, h, hduplicate, hmissing]
  · have hzero : memberTags [t] = 0 := by simp [memberTags, h]
    rw [hzero, members_plus_of_notMem h, losses_tagIssues_of_notMem h]

/-- All tags: the members of the draft and the remarks add up. -/
theorem balance_addTags (d : Draft) (ts : List Tag) :
    (d.addTags ts).1.members + losses (d.addTags ts).2 = d.members + memberTags ts := by
  induction ts generalizing d with
  | nil => rfl
  | cons t ts ih =>
    have htag := d.balance_plus t
    have hrest := ih (d.plus t)
    have hcons : memberTags (t :: ts) = memberTags [t] + memberTags ts := memberTags_append [t] ts
    rw [addTags_fst] at hrest ⊢
    rw [addTags_snd_cons, losses_append, List.foldl_cons]
    omega

end Draft

/-! ## Members of classes -/

/-- The number of the members of all classes. -/
def storedMembers (classes : Table ClassDoc) : Nat :=
  classes.sumOf ClassDoc.memberCount

section

variable {classes : Table ClassDoc} {active : Option String}

theorem storedMembers_trackClass (classes : Table ClassDoc) {doc : ClassDoc}
    (hmethods : doc.methods = .empty) (hproperties : doc.properties = .empty) :
    storedMembers (trackClass classes doc) = storedMembers classes := by
  have hdoc : doc.memberCount = 0 := by rw [ClassDoc.memberCount, hmethods, hproperties]; rfl
  have hmerge : ∀ first : ClassDoc, (first.merge doc).memberCount = first.memberCount := by
    intro first
    rw [ClassDoc.memberCount, ClassDoc.merge, hmethods, hproperties]
    rfl
  unfold trackClass storedMembers
  split
  · next h =>
    have hsum := classes.sumOf_insert ClassDoc.memberCount doc.name doc
    rw [h, hdoc] at hsum
    exact hsum
  · next first h =>
    have hsum := classes.sumOf_insert ClassDoc.memberCount doc.name (first.merge doc)
    rw [h, hmerge, Option.map_some, Option.getD_some] at hsum
    omega

theorem storedMembers_declareIn (classes : Table ClassDoc) (file : String) (c : Comment) :
    storedMembers (declareIn classes file c) = storedMembers classes := by
  unfold declareIn
  split
  · rfl
  · next doc hdoc =>
    obtain ⟨s, -, rfl⟩ := Option.map_eq_some_iff.1 hdoc
    exact storedMembers_trackClass classes rfl rfl

/-- A class that gets one member more. -/
theorem storedMembers_insert (hs : Sound classes active) {key : String} {k k' : ClassDoc}
    (hk : classes.get? key = some k) (hone : k'.memberCount = k.memberCount + 1) :
    storedMembers (classes.insert k.name k') = storedMembers classes + 1 := by
  have hsum := classes.sumOf_insert ClassDoc.memberCount k.name k'
  rw [hs.keyed key k hk, hk, Option.map_some, Option.getD_some, hone] at hsum
  rw [hs.keyed key k hk]
  unfold storedMembers
  omega

/-- The members of this kind are counted among those of a class. -/
def MemberSlot.Counted {α : Type} (slot : MemberSlot α) : Prop :=
  ∀ k t, (slot.withTable k t).memberCount + (slot.table k).size = k.memberCount + t.size

theorem counted_methodSlot : methodSlot.Counted := by
  intro k t
  change (t.size + k.properties.size) + k.methods.size = (k.methods.size + k.properties.size) + t.size
  omega

theorem counted_propertySlot : propertySlot.Counted := by
  intro k t
  change (k.methods.size + t.size) + k.properties.size = (k.methods.size + k.properties.size) + t.size
  omega

section

variable {α : Type} {slot : MemberSlot α} (hslot : slot.Counted)
include hslot

theorem MemberSlot.Counted.memberCount_put {k : ClassDoc} {x : α}
    (hnew : slot.has k (slot.name x) = false) :
    (slot.put k x).memberCount = k.memberCount + 1 := by
  have hsize := (slot.table k).size_insert_of_not_contains hnew x
  have hcount := hslot k ((slot.table k).insert (slot.name x) x)
  unfold put
  omega

/-- One member: it is stored, or there is a remark. -/
theorem MemberSlot.Counted.balance_add (hs : Sound classes active) (x : α) :
    storedMembers (slot.add classes active x).1 + losses (slot.add classes active x).2 =
      storedMembers classes + 1 := by
  have hloss : slot.kind.tagLabels ≠ [] := by cases slot.kind <;> decide
  unfold add
  split
  · simp [losses, Issue.isLoss, Issue.dropped, hloss]
  · next k hk =>
    obtain ⟨key, -, hget⟩ := Option.bind_eq_some_iff.1 hk
    split
    · simp [losses, Issue.isLoss, Issue.dropped, hloss]
    · next hnew =>
      exact storedMembers_insert hs hget (hslot.memberCount_put (Bool.eq_false_iff.2 hnew))

theorem MemberSlot.Counted.balance_addMember (hs : Sound classes active) (x? : Option α) :
    storedMembers (addMember slot classes active x?).1 +
        losses (addMember slot classes active x?).2 =
      storedMembers classes + x?.toList.length := by
  cases x? with
  | none => rfl
  | some x => exact hslot.balance_add hs x

end

end

/-! ## Comments -/

theorem members_ofComment (c : Comment) : (Draft.ofComment c).1.members =
    (methodOf? c).toList.length + (propertyOf? c).toList.length := by
  rw [← method?_ofComment, ← property?_ofComment, Draft.members, Draft.method?, Draft.property?]
  cases (Draft.ofComment c).1.method <;> cases (Draft.ofComment c).1.property <;> rfl

/-- The members that are stored and the remarks about those that are not. -/
def State.accounted (s : State) : Nat :=
  storedMembers s.classes + losses (s.warnings.map Warning.issue)

/-- One comment: each of its member tags is accounted for. -/
theorem balance_addComment {s : State} {active : Option String} (limit : Limit) (file : String)
    (c : Comment) (hs : Sound s.classes active) :
    (s.addComment limit file active c).1.accounted = s.accounted + memberTags c.tags := by
  have hdeclared := hs.declareIn file c
  have hdraft : (Draft.ofComment c).1.members + losses (Draft.ofComment c).2 = memberTags c.tags :=
    (Draft.balance_addTags {} c.tags).trans (Nat.zero_add _)
  have hmany : ∀ labels : List String, losses (if exceeds limit labels then
      [.manyPrimaryTags labels] else []) = 0 := by
    intro labels
    split <;> rfl
  have hmethod := counted_methodSlot.balance_addMember hdeclared (methodOf? c)
  have hproperty := counted_propertySlot.balance_addMember
    (hdeclared.addMember methodSlot (methodOf? c)) (propertyOf? c)
  have hissues : ∀ issues : List Issue, (warningsOf file c issues).map Warning.issue = issues := by
    intro issues
    rw [warningsOf, List.map_map]
    exact List.map_id issues
  rw [storedMembers_declareIn] at hmethod
  rw [members_ofComment] at hdraft
  unfold State.accounted
  rw [remarks_addComment limit file c hs, issuesOf, ← issues_members file c hs,
    classes_addComment, List.map_append, hissues]
  simp only [losses_append, hmany]
  omega

/-! ## Where a remark comes from -/

theorem dropped_of_mem_memberIssues {kind : MemberKind} {names : ClassDoc → List String}
    {name : String} {entry : Option ClassDoc} {i : Issue}
    (hi : i ∈ memberIssues kind names name entry) : i.dropped = kind.tagLabels := by
  unfold memberIssues at hi
  split at hi
  · rw [List.mem_singleton.1 hi]
    rfl
  · split at hi
    · rw [List.mem_singleton.1 hi]
      rfl
    · cases hi

theorem label_of_declaredMethod? {t : Tag} {s : Subject} (h : declaredMethod? t = some s) :
    t.label ∈ MemberKind.method.tagLabels := by
  unfold declaredMethod? at h
  split at h
  · next hl => simp [MemberKind.tagLabels, hl]
  · split at h
    · next hl => simp [MemberKind.tagLabels, hl]
    · cases h

theorem label_of_declaredProperty? {t : Tag} {p : Subject × Option TypeExpr}
    (h : declaredProperty? t = some p) : t.label ∈ MemberKind.property.tagLabels := by
  unfold declaredProperty? at h
  split at h
  · next hl => simp [MemberKind.tagLabels, hl]
  · cases h

/-- A remark that a member tag was dropped is about a tag of the comment. -/
theorem exists_tag_of_mem_issuesOf {limit : Limit} {c : Comment} {entry : Option ClassDoc}
    {i : Issue} (hi : i ∈ issuesOf limit c entry) (hloss : i.isLoss = true) :
    ∃ t ∈ c.tags, t.label ∈ i.dropped := by
  rcases List.mem_append.1 hi with hi | hi
  · rcases List.mem_append.1 hi with hi | hi
    · obtain ⟨t, ht, d, hissue⟩ := Draft.exists_tag_of_mem_addTags hi
      obtain ⟨l, hl⟩ : ∃ l, l ∈ i.dropped := by
        apply List.exists_mem_of_ne_nil
        simpa [Issue.isLoss] using hloss
      exact ⟨t, ht, Draft.eq_label_of_mem_dropped hissue hl ▸ hl⟩
    · split at hi
      · rw [List.mem_singleton.1 hi] at hloss
        cases hloss
      · cases hi
  · rcases List.mem_append.1 hi with hi | hi
    · obtain ⟨m, hm, hissue⟩ := List.mem_flatMap.1 hi
      obtain ⟨s, hs, -⟩ := Option.map_eq_some_iff.1 (Option.mem_toList.1 hm)
      obtain ⟨t, ht, hdeclared⟩ := List.exists_of_findSome?_eq_some hs
      rw [dropped_of_mem_memberIssues hissue]
      exact ⟨t, ht, label_of_declaredMethod? hdeclared⟩
    · obtain ⟨p, hp, hissue⟩ := List.mem_flatMap.1 hi
      obtain ⟨s, hs, -⟩ := Option.map_eq_some_iff.1 (Option.mem_toList.1 hp)
      obtain ⟨t, ht, hdeclared⟩ := List.exists_of_findSome?_eq_some hs
      rw [dropped_of_mem_memberIssues hissue]
      exact ⟨t, ht, label_of_declaredProperty? hdeclared⟩

/-! ## Runs -/

section

variable {limit : Limit} {P : State → Prop}

theorem State.addComments_induction (file : String) (cs : List Comment)
    (hstep : ∀ s active, ∀ c ∈ cs, Sound s.classes active → P s →
      P (s.addComment limit file active c).1) :
    ∀ (s : State) (active : Option String), Sound s.classes active → P s →
      P (s.addComments limit file active cs) := by
  induction cs with
  | nil => exact fun s active _ h => h
  | cons c cs ih =>
    intro s active hs h
    have hcomment := hstep s active c List.mem_cons_self hs h
    rw [addComments_cons]
    refine ih ?_ _ _ (sound_addComment limit file c hs) hcomment
    intro s active c' hc'
    exact hstep s active c' (List.mem_cons_of_mem c hc')

theorem State.addFiles_induction (files : List FileComments)
    (hstep : ∀ s active, ∀ c ∈ files.flatMap filed, Sound s.classes active → P s →
      P (s.addComment limit c.file active c.comment).1) :
    ∀ s : State, Sound s.classes none → P s → P (s.addFiles limit files) := by
  induction files with
  | nil => exact fun s _ h => h
  | cons f files ih =>
    intro s hs h
    rw [List.flatMap_cons] at hstep
    refine ih (fun s active c hc => hstep s active c (List.mem_append_right _ hc)) _
      (sound_addFile limit hs f) ?_
    refine State.addComments_induction f.file f.comments ?_ s none hs h
    intro s active c hc
    exact hstep s active ⟨f.file, c⟩ (List.mem_append_left _ (List.mem_map_of_mem hc))

/-- What every comment of a run preserves holds at the end of it. -/
theorem State.afterCalls_induction (calls : List (List FileComments)) (hempty : P {})
    (hstep : ∀ s active, ∀ c ∈ filedIn calls, Sound s.classes active → P s →
      P (s.addComment limit c.file active c.comment).1) :
    P (State.afterCalls limit calls) := by
  rw [afterCalls_eq]
  exact State.addFiles_induction calls.flatten hstep {} sound_empty hempty

end

/-- The tags of all comments of all calls. -/
def tagsIn (calls : List (List FileComments)) : List Tag :=
  (filedIn calls).flatMap fun c => c.comment.tags

theorem accounted_afterCalls (limit : Limit) (calls : List (List FileComments)) :
    (State.afterCalls limit calls).accounted = memberTags (tagsIn calls) := by
  have hfold : ∀ (cs : List Filed) (n : Nat),
      cs.foldl (fun n c => n + memberTags c.comment.tags) n =
        n + memberTags (cs.flatMap fun c => c.comment.tags) := by
    intro cs
    induction cs with
    | nil => exact fun n => rfl
    | cons c cs ih =>
      intro n
      rw [List.foldl_cons, ih, List.flatMap_cons, memberTags_append, Nat.add_assoc]
  have hrun : (State.afterCalls limit calls).accounted =
      (filedIn calls).foldl (fun n c => n + memberTags c.comment.tags) 0 :=
    view_afterCalls State.accounted
      (fun s active file c hs => balance_addComment limit file c hs) calls
  rw [hrun, hfold, Nat.zero_add]
  rfl

/-- The ways in which a member tag is dropped exclude each other. -/
theorem Issue.isLoss_split (i : Issue) : (if i.isLoss then 1 else 0) =
    (if i.label = "orphan_member" then 1 else 0) + (if i.label = "member_exists" then 1 else 0) +
      (if i ∈ memberLabels.map .duplicateTag then 1 else 0) +
      (if i ∈ memberLabels.map .missingName then 1 else 0) := by
  cases i with
  | duplicateTag l | missingName l =>
    by_cases hl : l ∈ memberLabels <;> simp [isLoss, dropped, label, hl]
  | orphanMember kind | memberExists kind =>
    cases kind <;> simp [isLoss, dropped, label, MemberKind.tagLabels]
  | _ => simp [isLoss, dropped, label]

theorem losses_eq (ws : List Warning) : losses (ws.map Warning.issue) =
    (ws.filter (·.issue.label = "orphan_member")).length +
      (ws.filter (·.issue.label = "member_exists")).length +
      (ws.filter (·.issue ∈ memberLabels.map .duplicateTag)).length +
      (ws.filter (·.issue ∈ memberLabels.map .missingName)).length := by
  simp only [← List.countP_eq_length_filter, losses]
  induction ws with
  | nil => rfl
  | cons w ws ih =>
    have hone := w.issue.isLoss_split
    simp only [List.map_cons, List.countP_cons, decide_eq_true_eq, ih]
    omega

/-- The warning shows a comment of the calls with a tag that it says was dropped. -/
def Warning.ShowsDropped (calls : List (List FileComments)) (w : Warning) : Prop :=
  ∃ c ∈ filedIn calls, w.file = c.file ∧ w.source = c.comment.source ∧
    ∃ t ∈ c.comment.tags, t.label ∈ memberLabels ∧ t.label ∈ w.issue.dropped

theorem showsDropped_of_isLoss (limit : Limit) (calls : List (List FileComments)) :
    ∀ w ∈ (State.afterCalls limit calls).warnings, w.issue.isLoss = true →
      w.ShowsDropped calls := by
  refine State.afterCalls_induction
    (P := fun s => ∀ w ∈ s.warnings, w.issue.isLoss = true → w.ShowsDropped calls) calls ?_ ?_
  · intro w hw
    cases hw
  · intro s active c hc hs h w hw hloss
    rw [remarks_addComment limit c.file c.comment hs] at hw
    rcases List.mem_append.1 hw with hw | hw
    · exact h w hw hloss
    · obtain ⟨i, hi, rfl⟩ := List.mem_map.1 hw
      obtain ⟨t, ht, hlabel⟩ := exists_tag_of_mem_issuesOf hi hloss
      exact ⟨c, hc, rfl, rfl, t, ht, Issue.mem_memberLabels_of_mem_dropped hlabel, hlabel⟩

/-- **No member tag is lost silently.** The member tags of all comments are as many as the members
of all classes together with the remarks about members without a class, about members that their
class has already, and about member tags that stand there again or have no name. Each of these
remarks names the file and shows the source of a comment with a tag of that sort. -/
theorem member_tags_accounted (limit : Limit) (calls : List (List FileComments)) :
    let s := State.afterCalls limit calls
    let orphans := s.warnings.filter (·.issue.label = "orphan_member")
    let known := s.warnings.filter (·.issue.label = "member_exists")
    let repeated := s.warnings.filter (·.issue ∈ memberLabels.map .duplicateTag)
    let nameless := s.warnings.filter (·.issue ∈ memberLabels.map .missingName)
    memberTags (tagsIn calls) =
        storedMembers s.classes + orphans.length + known.length + repeated.length +
          nameless.length ∧
      ∀ w ∈ orphans ++ known ++ repeated ++ nameless,
        ∃ c ∈ filedIn calls, w.file = c.file ∧ w.source = c.comment.source ∧
          ∃ t ∈ c.comment.tags, t.label ∈ memberLabels ∧ t.label ∈ w.issue.dropped := by
  intro s orphans known repeated nameless
  constructor
  · rw [← accounted_afterCalls limit calls, State.accounted, losses_eq]
    simp only [orphans, known, repeated, nameless, s]
    omega
  · intro w hw
    have hone := w.issue.isLoss_split
    have hloss : w ∈ s.warnings ∧ w.issue.isLoss = true := by
      simp only [orphans, known, repeated, nameless, List.mem_append, List.mem_filter,
        decide_eq_true_eq] at hw
      grind
    exact showsDropped_of_isLoss limit calls w hloss.1 hloss.2

end Analysis

end ApiDoc
