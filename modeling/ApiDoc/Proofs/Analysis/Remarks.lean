import ApiDoc.Proofs.Analysis.Headings

/-!
# What a comment reads and writes

A comment changes the entry of the class that it declares and of the class that is current after
it, and the remarks about it depend on that second entry alone. So a run of comments acts on each
entry by itself.

* `remarks_addComment`: the remarks about one comment.
* `get?_addComments`, `get?_addFile`, `function?_addFile`: a run as a fold over one entry.
-/

namespace ApiDoc.Analysis

/-! ## Remarks about members -/

/-- The remarks about a member that is to come into the class `entry`. -/
def memberIssues (kind : MemberKind) (names : ClassDoc → List String) (name : String) :
    Option ClassDoc → List Issue
  | none => [.orphanMember kind name]
  | some k => if name ∈ names k then [.memberExists kind k.name name] else []

/-- The remarks about the members of a comment. -/
def membersIssues (c : Comment) (entry : Option ClassDoc) : List Issue :=
  (methodOf? c).toList.flatMap
      (fun m => memberIssues .method (fun k => k.methods.keys) m.name entry) ++
    (propertyOf? c).toList.flatMap
      (fun p => memberIssues .property (fun k => k.properties.keys) p.name entry)

theorem MemberSlot.issues_add {α : Type} (slot : MemberSlot α) (classes : Table ClassDoc)
    (active : Option String) (x : α) :
    (slot.add classes active x).2 =
      memberIssues slot.kind (fun k => (slot.table k).keys) (slot.name x)
        (active.bind classes.get?) := by
  unfold add memberIssues
  cases active.bind classes.get? with
  | none => rfl
  | some k => simp only [apply_ite Prod.snd, has, Table.contains_iff_mem_keys]

theorem issues_addMember {α : Type} (slot : MemberSlot α) (classes : Table ClassDoc)
    (active : Option String) (x? : Option α) :
    (addMember slot classes active x?).2 = x?.toList.flatMap fun x =>
      memberIssues slot.kind (fun k => (slot.table k).keys) (slot.name x)
        (active.bind classes.get?) := by
  cases x? with
  | none => rfl
  | some x =>
    rw [Option.toList_some, List.flatMap_singleton]
    exact slot.issues_add classes active x

/-- The entry of the class that is current after a comment, before its members come in. -/
def currentEntry (file : String) (classes : Table ClassDoc) (p : Placed) : Option ClassDoc :=
  p.current.bind fun key => declaredEntry file p.comment key (classes.get? key)

/-- The remarks about a comment. -/
def issuesOf (limit : Limit) (c : Comment) (entry : Option ClassDoc) : List Issue :=
  let (d, issues) := Draft.ofComment c
  issues ++ (if exceeds limit d.primaryTags then [.manyPrimaryTags d.primaryTags] else []) ++
    membersIssues c entry

/-- Remarks as they are kept. -/
def warningsOf (file : String) (c : Comment) (issues : List Issue) : List Warning :=
  issues.map fun i => ⟨i, c.source, file⟩

section

variable {s : State} {active : Option String} (limit : Limit) (file : String) (c : Comment)

/-- The method of a comment does not change what is remarked about its property. -/
theorem issues_members (hs : Sound s.classes active) :
    let current := (className? c).or active
    let withMethod := addMember methodSlot (declareIn s.classes file c) current (methodOf? c)
    withMethod.2 ++ (addMember propertySlot withMethod.1 current (propertyOf? c)).2 =
      membersIssues c (currentEntry file s.classes ⟨c, current⟩) := by
  intro current withMethod
  have hdeclared := hs.declareIn file c
  have hentry : current.bind (declareIn s.classes file c).get? =
      currentEntry file s.classes ⟨c, current⟩ := by
    unfold currentEntry
    cases current with
    | none => rfl
    | some key => exact get?_declareIn s.classes file c key
  have hmethod : ∀ p : Property,
      memberIssues .property (fun k => k.properties.keys) p.name
          (current.bind withMethod.1.get?) =
        memberIssues .property (fun k => k.properties.keys) p.name
          (currentEntry file s.classes ⟨c, current⟩) := by
    intro p
    rw [← hentry]
    cases hcur : current with
    | none => rfl
    | some key =>
      have hget := get?_addMember methodSlot hdeclared (methodOf? c) key
      rw [Option.bind_some, Option.bind_some]
      change memberIssues _ _ _ (withMethod.1.get? key) = _
      rw [hget]
      cases (declareIn s.classes file c).get? key with
      | none => rfl
      | some k =>
        rw [Option.map_some]
        split
        · cases methodOf? c <;> rfl
        · exact absurd hcur ‹_›
  rw [issues_addMember, issues_addMember, membersIssues, hentry]
  cases propertyOf? c with
  | none => rfl
  | some p =>
    rw [Option.toList_some, List.flatMap_singleton, List.flatMap_singleton]
    exact congrArg _ (hmethod p)

/-- What one comment adds to the remarks. -/
theorem remarks_addComment (hs : Sound s.classes active) :
    (s.addComment limit file active c).1.warnings = s.warnings ++
      warningsOf file c
        (issuesOf limit c (currentEntry file s.classes ⟨c, (className? c).or active⟩)) := by
  have hmembers := issues_members file c hs
  have hactive : (Draft.ofComment c).1.activeClass active = (className? c).or active := by
    rw [Draft.activeClass, classSubject_ofComment, className?]
  rw [issuesOf, ← hmembers, ← method?_ofComment, ← property?_ofComment, ← hactive]
  unfold State.addComment State.commit State.warn warningsOf
  simp only [List.map_append, List.append_assoc]
  rfl

end

/-! ## Entries -/

theorem foldl_eq_self {α β : Type} {step : α → β → α} {a : α} {xs : List β}
    (h : ∀ x ∈ xs, step a x = a) : xs.foldl step a = a := by
  refine List.foldlRecOn (motive := fun b => b = a) xs step rfl ?_
  rintro b rfl x hx
  exact h x hx

/-- What one comment does to the entry of a class. -/
def entryStep (file key : String) (entry : Option ClassDoc) (p : Placed) : Option ClassDoc :=
  (declaredEntry file p.comment key entry).map fun k =>
    if p.current = some key then withMembers p.comment k else k

/-- The classes that a file declares. -/
def classNames (f : FileComments) : List String :=
  f.comments.filterMap className?

/-- The functions that a file declares. -/
def functionNames (f : FileComments) : List String :=
  f.comments.filterMap functionName?

theorem sound_afterCalls (limit : Limit) (calls : List (List FileComments)) :
    Sound (State.afterCalls limit calls).classes none := by
  rw [afterCalls_eq]
  exact (methodView.inClass_addFiles limit "" calls.flatten {} sound_empty).2

theorem addComments_cons (limit : Limit) (file : String) (s : State) (active : Option String)
    (c : Comment) (cs : List Comment) :
    s.addComments limit file active (c :: cs) =
      (s.addComment limit file active c).1.addComments limit file ((className? c).or active)
        cs := by
  rw [State.addComments]
  simp only [active_addComment]

/-- The class that is current after comments. -/
def currentAfter (active : Option String) (cs : List Comment) : Option String :=
  cs.foldl (fun current c => (className? c).or current) active

theorem addComments_append (limit : Limit) (file : String) (before after : List Comment) :
    ∀ (s : State) (active : Option String),
      s.addComments limit file active (before ++ after) =
        (s.addComments limit file active before).addComments limit file
          (currentAfter active before) after := by
  induction before with
  | nil =>
    intro s active
    rfl
  | cons c before ih =>
    intro s active
    rw [List.cons_append, addComments_cons, ih, addComments_cons]
    rfl

theorem get?_addComments (limit : Limit) (file key : String) (cs : List Comment) :
    ∀ (s : State) (active : Option String), Sound s.classes active →
      (s.addComments limit file active cs).classes.get? key =
        (placedFrom active cs).foldl (entryStep file key) (s.classes.get? key) := by
  induction cs with
  | nil =>
    intro s active _
    rfl
  | cons c cs ih =>
    intro s active hs
    rw [addComments_cons, ih _ _ (sound_addComment limit file c hs),
      get?_addComment limit file c hs, placedFrom_cons, List.foldl_cons]
    rfl

theorem get?_addFile (limit : Limit) {s : State} (hs : Sound s.classes none) (f : FileComments)
    (key : String) :
    (s.addFile limit f).classes.get? key =
      (placed f).foldl (entryStep f.file key) (s.classes.get? key) := by
  rw [placed_eq]
  exact get?_addComments limit f.file key f.comments s none hs

/-! ## Functions -/

/-- What one comment does to the entry of a function. -/
def functionStep (name : String) (entry : Option FunctionDoc) (c : Filed) : Option FunctionDoc :=
  if functionName? c.comment = some name then functionOf? c else entry

theorem get?_foldl_putFunction_eq (name : String) (cs : List Filed)
    (functions : Table FunctionDoc) :
    (cs.foldl putFunction functions).get? name =
      cs.foldl (functionStep name) (functions.get? name) := by
  induction cs generalizing functions with
  | nil => rfl
  | cons c cs ih =>
    rw [List.foldl_cons, ih, get?_putFunction, List.foldl_cons]
    rfl

theorem function?_addFile (limit : Limit) {s : State} (hs : Sound s.classes none)
    (f : FileComments) (name : String) :
    (s.addFile limit f).functions.get? name =
      (filed f).foldl (functionStep name) (s.functions.get? name) := by
  rw [← get?_foldl_putFunction_eq]
  congr 1
  exact view_addComments State.functions
    (fun s active file c _ => functions_addComment s active limit file c) f.file f.comments s none hs

end ApiDoc.Analysis
