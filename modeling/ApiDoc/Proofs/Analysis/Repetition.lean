import ApiDoc.Proofs.Analysis.Remarks
import ApiDoc.Proofs.Analysis.Source

/-!
# The same files a second time

Files that were taken once already change nothing in the model: their parents and members are
there, the first declarations stand, and the last ones come last again. On the way the second pass
does go through other states, as an earlier comment takes back what a later one said of
abstractness or of a function. What it adds is one remark for every member.

* `foldl_joinHeading_twice`, `foldl_functionStep_twice`: headings and functions.
* `MemberView.inClass_twice`: members.
* `memberRemarks_addFiles`: the remarks about members that are known.
* `reanalysis_idempotent`: the second pass as a whole.
-/

namespace ApiDoc

namespace Analysis

/-! ## Headings -/

theorem declarationsOf_concat (key : String) (cs : List Filed) (c : Filed) :
    declarationsOf key (cs ++ [c]) =
      if className? c.comment = some key then declarationsOf key cs ++ [c]
      else declarationsOf key cs := by
  simp only [declarationsOf, filter_concat, decide_eq_true_eq]

section

variable (key : String) (old : Option Heading) (cs : List Filed)

theorem parents_foldl_joinHeading :
    ∀ c ∈ declarationsOf key cs, ∃ h, cs.foldl (joinHeading key) old = some h ∧
      ∀ n ∈ parentsOf c.comment, n ∈ h.parents := by
  induction cs using List.reverseRecOn with
  | nil =>
    intro c hc
    cases hc
  | append_singleton cs d ih =>
    intro c hc
    rw [declarationsOf_concat] at hc
    rw [List.foldl_append, List.foldl_cons, List.foldl_nil, joinHeading]
    by_cases hd : className? d.comment = some key
    · rw [if_pos hd] at hc
      rw [if_pos hd]
      refine ⟨_, rfl, ?_⟩
      intro n hn
      rcases List.mem_append.1 hc with hc | hc
      · obtain ⟨h, hrun, hparents⟩ := ih c hc
        rw [hrun]
        exact mem_addNames.2 (Or.inl (hparents n hn))
      · obtain rfl := List.mem_singleton.1 hc
        cases cs.foldl (joinHeading key) old <;> exact mem_addNames.2 (Or.inr hn)
    · rw [if_neg hd] at hc
      rw [if_neg hd]
      exact ih c hc

theorem abstract_foldl_joinHeading {h : Heading} (hrun : cs.foldl (joinHeading key) old = some h) :
    ∀ c ∈ (declarationsOf key cs).getLast?, callsAbstract c.comment = h.abstract := by
  induction cs using List.reverseRecOn with
  | nil =>
    intro c hc
    cases hc
  | append_singleton cs d ih =>
    intro c hc
    rw [declarationsOf_concat] at hc
    rw [List.foldl_append, List.foldl_cons, List.foldl_nil, joinHeading] at hrun
    by_cases hd : className? d.comment = some key
    · rw [if_pos hd, List.getLast?_concat] at hc
      rw [if_pos hd] at hrun
      obtain rfl := Option.some.inj hc
      obtain rfl := Option.some.inj hrun
      cases cs.foldl (joinHeading key) old <;> rfl
    · rw [if_neg hd] at hc
      rw [if_neg hd] at hrun
      exact ih hrun c hc

theorem foldl_joinHeading_of_parents (h : Heading)
    (hparents : ∀ c ∈ declarationsOf key cs, ∀ n ∈ parentsOf c.comment, n ∈ h.parents) :
    cs.foldl (joinHeading key) (some h) = some { h with
      abstract := ((declarationsOf key cs).getLast?.map fun c => callsAbstract c.comment).getD
        h.abstract } := by
  induction cs using List.reverseRecOn with
  | nil => rfl
  | append_singleton cs d ih =>
    rw [declarationsOf_concat] at hparents ⊢
    rw [List.foldl_append, List.foldl_cons, List.foldl_nil, joinHeading]
    by_cases hd : className? d.comment = some key
    · rw [if_pos hd] at hparents
      rw [if_pos hd, if_pos hd, ih fun c hc => hparents c (List.mem_append_left _ hc),
        declareHeading, List.getLast?_concat]
      have hlast := hparents d (List.mem_append_right _ (List.mem_singleton_self d))
      simp only [addNames_of_subset hlast, Option.map_some, Option.getD_some]
    · rw [if_neg hd] at hparents
      rw [if_neg hd, if_neg hd, ih hparents]

/-- The declarations of a class a second time. -/
theorem foldl_joinHeading_twice :
    cs.foldl (joinHeading key) (cs.foldl (joinHeading key) old) =
      cs.foldl (joinHeading key) old := by
  have hparents := parents_foldl_joinHeading key old cs
  cases hrun : cs.foldl (joinHeading key) old with
  | none =>
    apply foldl_eq_self
    intro c hc
    apply if_neg
    intro hname
    obtain ⟨h, hsome, -⟩ := hparents c (List.mem_filter.2 ⟨hc, by simpa using hname⟩)
    rw [hrun] at hsome
    cases hsome
  | some h =>
    have habstract := abstract_foldl_joinHeading key old cs hrun
    rw [foldl_joinHeading_of_parents]
    · cases hlast : (declarationsOf key cs).getLast? with
      | none => rfl
      | some c => rw [Option.map_some, Option.getD_some, habstract c hlast]
    · intro c hc n hn
      obtain ⟨h', hsome, hmem⟩ := hparents c hc
      rw [hrun] at hsome
      obtain rfl := Option.some.inj hsome
      exact hmem n hn

end

/-! ## Functions -/

theorem foldl_functionStep (name : String) (entry : Option FunctionDoc) (cs : List Filed) :
    cs.foldl (functionStep name) entry =
      (definitionsOf name cs).getLast?.elim entry functionOf? := by
  induction cs using List.reverseRecOn with
  | nil => rfl
  | append_singleton cs c ih =>
    rw [List.foldl_append, List.foldl_cons, List.foldl_nil, functionStep, ih]
    unfold definitionsOf
    rw [filter_concat]
    by_cases h : functionName? c.comment = some name
    · rw [if_pos h, if_pos (by simpa using h), List.getLast?_concat]
      rfl
    · rw [if_neg h, if_neg (by simpa using h)]

/-- The definitions of a function a second time. -/
theorem foldl_functionStep_twice (name : String) (entry : Option FunctionDoc) (cs : List Filed) :
    cs.foldl (functionStep name) (cs.foldl (functionStep name) entry) =
      cs.foldl (functionStep name) entry := by
  simp only [foldl_functionStep]
  cases (definitionsOf name cs).getLast? <;> rfl

/-! ## The model after the second pass -/

/-- A class is known by its heading and its members. -/
theorem eq_of_views {a b : ClassDoc} (hheading : heading a = heading b)
    (hmethods : a.methods.entries = b.methods.entries)
    (hproperties : a.properties.entries = b.properties.entries) : a = b := by
  obtain ⟨_, _, _, _, _, ⟨_⟩, ⟨_⟩⟩ := a
  obtain ⟨_, _, _, _, _, ⟨_⟩, ⟨_⟩⟩ := b
  cases hheading
  cases hmethods
  cases hproperties
  rfl

section

variable (limit : Limit) {s : State} (hs : Sound s.classes none) (files : List FileComments)
include hs

theorem sound_addFiles : Sound (s.addFiles limit files).classes none :=
  (methodView.inClass_addFiles limit "" files s hs).2

theorem view_twice {β : Type} (view : State → β) (step : β → Filed → β)
    (hstep : ∀ s active file c, Sound s.classes active →
      view (s.addComment limit file active c).1 = step (view s) ⟨file, c⟩)
    (htwice : ∀ (cs : List Filed) (b : β), cs.foldl step (cs.foldl step b) = cs.foldl step b) :
    view ((s.addFiles limit files).addFiles limit files) = view (s.addFiles limit files) := by
  rw [view_addFiles view hstep files _ (sound_addFiles limit hs files),
    view_addFiles view hstep files s hs, htwice]

theorem MemberView.inClass_twice {α : Type} (view : MemberView α) (key : String) :
    view.inClass ((s.addFiles limit files).addFiles limit files).classes key =
      view.inClass (s.addFiles limit files).classes key := by
  rw [(view.inClass_addFiles limit key files _ (sound_addFiles limit hs files)).1,
    (view.inClass_addFiles limit key files s hs).1, foldl_appendNew_twice]

theorem keys_twice (keys : State → List String) (name? : Comment → Option String)
    (hstep : ∀ s active file c, Sound s.classes active →
      keys (s.addComment limit file active c).1 =
        (name? c).toList.foldl (appendNew id) (keys s)) :
    keys ((s.addFiles limit files).addFiles limit files) = keys (s.addFiles limit files) := by
  refine view_twice limit hs files keys
    (fun acc c => (name? c.comment).toList.foldl (appendNew id) acc) hstep ?_
  intro cs names
  simp only [foldl_toList_eq_filterMap, foldl_appendNew_twice]

theorem get?_twice (key : String) :
    ((s.addFiles limit files).addFiles limit files).classes.get? key =
      (s.addFiles limit files).classes.get? key := by
  have hheading := view_twice limit hs files (fun s => (s.classes.get? key).map heading)
    (joinHeading key) (fun s active file c hs => heading_addComment limit hs file c key)
    (fun cs old => foldl_joinHeading_twice key old cs)
  have hmethods := MemberView.inClass_twice limit hs files methodView key
  have hproperties := MemberView.inClass_twice limit hs files propertyView key
  unfold MemberView.inClass at hmethods hproperties
  cases hfirst : (s.addFiles limit files).classes.get? key with
  | none =>
    rw [hfirst] at hheading
    exact Option.map_eq_none_iff.1 hheading
  | some k =>
    rw [hfirst, Option.map_some] at hheading
    obtain ⟨k', hsecond, he⟩ := Option.map_eq_some_iff.1 hheading
    rw [hfirst, hsecond] at hmethods hproperties
    rw [hsecond, eq_of_views he hmethods hproperties]

end

section

variable (limit : Limit) (calls : List (List FileComments))

theorem keys_functions_afterCalls : (State.afterCalls limit calls).functions.keys =
    ((filedIn calls).filterMap fun c => functionName? c.comment).eraseDups := by
  rw [← foldl_toList_eq_eraseDups]
  refine view_afterCalls (fun s => s.functions.keys) (fun s active file c _ => ?_) calls
  rw [functions_addComment, keys_putFunction]

theorem nodup_keys_functions : (State.afterCalls limit calls).functions.keys.Nodup := by
  rw [keys_functions_afterCalls]
  exact nodup_eraseDups _

variable (files : List FileComments)

theorem addFiles_afterCalls :
    (State.afterCalls limit calls).addFiles limit files =
      State.afterCalls limit (calls ++ [files]) := by
  rw [State.afterCalls, State.afterCalls, List.foldl_append]
  rfl

theorem classes_twice :
    let s := (State.afterCalls limit calls).addFiles limit files
    (s.addFiles limit files).classes = s.classes := by
  intro s
  have hs := sound_afterCalls limit calls
  apply Eq.symm
  apply Table.eq_of_keys
  · have hstate : s = State.afterCalls limit (calls ++ [files]) := addFiles_afterCalls ..
    rw [hstate]
    exact nodup_keys_afterCalls limit _
  · exact (keys_twice limit hs files (fun s => s.classes.keys) className?
      fun s active file c hs => keys_addComment limit hs file c).symm
  · intro key
    exact (get?_twice limit hs files key).symm

theorem functions_twice :
    let s := (State.afterCalls limit calls).addFiles limit files
    (s.addFiles limit files).functions = s.functions := by
  intro s
  have hs := sound_afterCalls limit calls
  apply Eq.symm
  apply Table.eq_of_keys
  · have hstate : s = State.afterCalls limit (calls ++ [files]) := addFiles_afterCalls ..
    rw [hstate]
    exact nodup_keys_functions limit _
  · apply Eq.symm
    apply keys_twice limit hs files (fun s => s.functions.keys) functionName?
    intro s active file c _
    rw [functions_addComment, keys_putFunction]
  · intro name
    apply Eq.symm
    apply view_twice limit hs files (fun s => s.functions.get? name) (functionStep name)
    · intro s active file c _
      rw [functions_addComment, get?_putFunction]
      rfl
    · intro cs entry
      exact foldl_functionStep_twice name entry cs

end

/-! ## Remarks about members that are known -/

/-- Is the remark about a member as a whole? -/
def Issue.isMember : Issue → Bool
  | .orphanMember _ _ => true
  | .memberExists _ _ _ => true
  | _ => false

/-- The tags of a comment alone give no reason for a remark about a member. -/
theorem isMember_of_mem_tagIssues {d : Draft} {t : Tag} {i : Issue} (h : i ∈ d.tagIssues t) :
    i.isMember = false := by
  unfold Draft.tagIssues Draft.nameIssues Draft.typeIssues at h
  grind [Issue.isMember]

theorem isMember_of_mem_addTags {d : Draft} {ts : List Tag} {i : Issue}
    (h : i ∈ (d.addTags ts).2) : i.isMember = false := by
  obtain ⟨t, -, d', hi⟩ := Draft.exists_tag_of_mem_addTags h
  exact isMember_of_mem_tagIssues hi

theorem isMember_of_mem_memberIssues {kind : MemberKind} {names : ClassDoc → List String}
    {name : String} {entry : Option ClassDoc} {i : Issue}
    (h : i ∈ memberIssues kind names name entry) : i.isMember = true := by
  unfold memberIssues at h
  split at h
  · rw [List.mem_singleton.1 h]
    rfl
  · split at h
    · rw [List.mem_singleton.1 h]
      rfl
    · cases h

theorem filter_isMember_issuesOf (limit : Limit) (c : Comment) (entry : Option ClassDoc) :
    (issuesOf limit c entry).filter Issue.isMember = membersIssues c entry := by
  have htags : (Draft.ofComment c).2.filter Issue.isMember = [] := by
    rw [List.filter_eq_nil_iff]
    intro i hi
    rw [isMember_of_mem_addTags hi]
    exact Bool.false_ne_true
  have hmany : ∀ labels : List String, (if exceeds limit labels then
      [Issue.manyPrimaryTags labels] else []).filter Issue.isMember = [] := by
    intro labels
    split <;> rfl
  have hmembers : (membersIssues c entry).filter Issue.isMember = membersIssues c entry := by
    rw [List.filter_eq_self]
    intro i hi
    rcases List.mem_append.1 hi with hi | hi
    · obtain ⟨m, -, hi⟩ := List.mem_flatMap.1 hi
      exact isMember_of_mem_memberIssues hi
    · obtain ⟨p, -, hi⟩ := List.mem_flatMap.1 hi
      exact isMember_of_mem_memberIssues hi
  rw [issuesOf, List.filter_append, List.filter_append, htags, hmany, hmembers]
  rfl

/-- The remark about a member that comes a second time. -/
def repeatedIssue (kind : MemberKind) (current : Option String) (name : String) : Issue :=
  match current with
  | none => .orphanMember kind name
  | some className => .memberExists kind className name

/-- The remarks about the members of a comment that comes a second time: one for its method and
one for its property. -/
def repeatedIssues (p : Placed) : List Issue :=
  (methodName? p.comment).toList.map (repeatedIssue .method p.current) ++
    (propertyName? p.comment).toList.map (repeatedIssue .property p.current)

/-- What is remarked about the members of a file that comes a second time. -/
def repeatedRemarks (f : FileComments) : List Warning :=
  (placed f).flatMap fun p => warningsOf f.file p.comment (repeatedIssues p)

namespace MemberView

variable {α : Type} (view : MemberView α)

/-- The class that is current at a comment has a member of the name that the comment gives. -/
def Knows (classes : Table ClassDoc) (p : Placed) : Prop :=
  ∀ key name, p.current = some key → (view.member? p.comment).map view.name = some name →
    name ∈ (view.inClass classes key).map Prod.fst

theorem knows_addComment {s : State} {active : Option String} (hs : Sound s.classes active)
    (limit : Limit) (file : String) (c : Comment) {p : Placed} (h : view.Knows s.classes p) :
    view.Knows (s.addComment limit file active c).1.classes p := by
  intro key name hkey hname
  rw [view.inClass_addComment hs, mem_keys_foldl_appendNew]
  exact Or.inl (h key name hkey hname)

theorem knows_addFile {s : State} (hs : Sound s.classes none) (limit : Limit) (f : FileComments)
    {p : Placed} (h : view.Knows s.classes p) : view.Knows (s.addFile limit f).classes p := by
  intro key name hkey hname
  rw [State.addFile, (view.inClass_addComments limit f.file key f.comments s none hs).1,
    mem_keys_foldl_appendNew]
  exact Or.inl (h key name hkey hname)

/-- Every member of a run is known after it. -/
theorem knows_addFiles {s : State} (hs : Sound s.classes none) (limit : Limit)
    (files : List FileComments) :
    ∀ p ∈ files.flatMap placed, view.Knows (s.addFiles limit files).classes p := by
  intro p hp key name hkey hname
  obtain ⟨m, hm, rfl⟩ := Option.map_eq_some_iff.1 hname
  rw [(view.inClass_addFiles limit key files s hs).1, mem_keys_foldl_appendNew]
  refine Or.inr (List.mem_map.2 ⟨(view.name m, m), ?_, rfl⟩)
  refine List.mem_filterMap.2 ⟨p, hp, ?_⟩
  rw [entryFor?, if_pos hkey, entryOf?, hm]
  rfl

/-- The remark about a member that is known. -/
theorem memberIssues_of_knows {s : State} {active : Option String} (hs : Sound s.classes active)
    (file : String) (c : Comment) (kind : MemberKind)
    (h : view.Knows s.classes ⟨c, (className? c).or active⟩) :
    (view.member? c).toList.flatMap (fun m =>
        memberIssues kind (fun k => (view.entries k).map Prod.fst) (view.name m)
          (currentEntry file s.classes ⟨c, (className? c).or active⟩)) =
      ((view.member? c).map view.name).toList.map
        (repeatedIssue kind ((className? c).or active)) := by
  cases hm : view.member? c with
  | none => rfl
  | some m =>
    rw [Option.toList_some, List.flatMap_singleton, Option.map_some, Option.toList_some,
      List.map_singleton]
    cases hcurrent : (className? c).or active with
    | none => rfl
    | some key =>
      have hdeclared := hs.declareIn file c
      obtain ⟨k, hk⟩ := Option.isSome_iff_exists.1 (hdeclared.known key hcurrent)
      have hkeyed := hdeclared.keyed key k hk
      rw [get?_declareIn] at hk
      have hmem := h key (view.name m) hcurrent (by rw [hm, Option.map_some])
      rw [inClass, ← view.inClass_declared file c, hk, Option.map_some, Option.getD_some] at hmem
      simp only [currentEntry, Option.bind_some, hk, memberIssues]
      rw [if_pos hmem, hkeyed]
      rfl

end MemberView

/-- What is remarked about a comment whose members are known. -/
theorem memberIssues_addComment (limit : Limit) (file : String) (c : Comment) {s : State}
    {active : Option String} (hs : Sound s.classes active)
    (hmethod : methodView.Knows s.classes ⟨c, (className? c).or active⟩)
    (hproperty : propertyView.Knows s.classes ⟨c, (className? c).or active⟩) :
    (issuesOf limit c (currentEntry file s.classes ⟨c, (className? c).or active⟩)).filter
        Issue.isMember = repeatedIssues ⟨c, (className? c).or active⟩ := by
  rw [filter_isMember_issuesOf, membersIssues, repeatedIssues, ← map_name_methodOf?,
    ← map_name_propertyOf?]
  exact congrArg₂ (· ++ ·) (methodView.memberIssues_of_knows hs file c .method hmethod)
    (propertyView.memberIssues_of_knows hs file c .property hproperty)

/-- The members of the comment are known to their class. -/
def MembersKnown (classes : Table ClassDoc) (p : Placed) : Prop :=
  methodView.Knows classes p ∧ propertyView.Knows classes p

theorem filter_warningsOf (file : String) (c : Comment) (issues : List Issue) :
    (warningsOf file c issues).filter (·.issue.isMember) =
      warningsOf file c (issues.filter Issue.isMember) :=
  List.filter_map

theorem memberRemarks_addComments (limit : Limit) (file : String) (cs : List Comment) :
    ∀ (s : State) (active : Option String), Sound s.classes active →
      (∀ p ∈ placedFrom active cs, MembersKnown s.classes p) →
      ∃ new, (s.addComments limit file active cs).warnings = s.warnings ++ new ∧
        new.filter (·.issue.isMember) =
          (placedFrom active cs).flatMap fun p => warningsOf file p.comment (repeatedIssues p) := by
  induction cs with
  | nil =>
    intro s active _ _
    exact ⟨[], (List.append_nil _).symm, rfl⟩
  | cons c cs ih =>
    intro s active hs hknown
    rw [placedFrom_cons] at hknown ⊢
    obtain ⟨hhere, hrest⟩ := List.forall_mem_cons.1 hknown
    obtain ⟨new, hnew, hfilter⟩ := ih _ _ (sound_addComment limit file c hs) fun p hp =>
      ⟨methodView.knows_addComment hs limit file c (hrest p hp).1,
        propertyView.knows_addComment hs limit file c (hrest p hp).2⟩
    rw [remarks_addComment limit file c hs, List.append_assoc] at hnew
    rw [addComments_cons]
    refine ⟨_, hnew, ?_⟩
    rw [List.filter_append, filter_warningsOf,
      memberIssues_addComment limit file c hs hhere.1 hhere.2, hfilter, List.flatMap_cons]

theorem memberRemarks_addFiles (limit : Limit) (files : List FileComments) :
    ∀ s : State, Sound s.classes none → (∀ p ∈ files.flatMap placed, MembersKnown s.classes p) →
      ∃ new, (s.addFiles limit files).warnings = s.warnings ++ new ∧
        new.filter (·.issue.isMember) = files.flatMap repeatedRemarks := by
  induction files with
  | nil =>
    intro s _ _
    exact ⟨[], (List.append_nil _).symm, rfl⟩
  | cons f files ih =>
    intro s hs hknown
    rw [List.flatMap_cons] at hknown
    obtain ⟨hhere, hrest⟩ := List.forall_mem_append.1 hknown
    rw [placed_eq] at hhere
    obtain ⟨first, hfirst, hfirstFilter⟩ :=
      memberRemarks_addComments limit f.file f.comments s none hs hhere
    obtain ⟨new, hnew, hfilter⟩ := ih _ (sound_addFile limit hs f) fun p hp =>
      ⟨methodView.knows_addFile hs limit f (hrest p hp).1,
        propertyView.knows_addFile hs limit f (hrest p hp).2⟩
    refine ⟨first ++ new, ?_, ?_⟩
    · rw [← List.append_assoc, ← hfirst]
      exact hnew
    · rw [List.filter_append, hfirstFilter, hfilter, List.flatMap_cons, repeatedRemarks, placed_eq]

/-- **Analysing again.** The same files a second time leave all classes and all functions exactly
as they are, and each method and each property of a comment gets just one remark about members:
that it has no class, where none is current, and otherwise that the class has it. -/
theorem reanalysis_idempotent (limit : Limit) (calls : List (List FileComments))
    (files : List FileComments) :
    let once := (State.afterCalls limit calls).addFiles limit files
    let twice := once.addFiles limit files
    twice.classes = once.classes ∧ twice.functions = once.functions ∧
      ∃ new, twice.warnings = once.warnings ++ new ∧
        new.filter (·.issue.isMember) = files.flatMap repeatedRemarks := by
  intro once twice
  have hs := sound_afterCalls limit calls
  refine ⟨classes_twice limit calls files, functions_twice limit calls files, ?_⟩
  apply memberRemarks_addFiles limit files once (sound_addFiles limit hs files)
  intro p hp
  exact ⟨methodView.knows_addFiles hs limit files p hp,
    propertyView.knows_addFiles hs limit files p hp⟩

end Analysis

end ApiDoc
