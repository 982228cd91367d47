import ApiDoc.Proofs.Analysis.Repetition

/-!
# Look-ups that cannot fail

The current class is a cursor: a class tag sets it when the tag is taken, while the class itself
comes in only when all tags are taken, and it stays from comment to comment. A member looks its
class up through the cursor. Here the analysis is written with the cursor as a part of its state
and with look-ups that fail where there is nothing (`Analyzer`), and no run of it fails.

* `Analyzer.takeTags_eq`, `Analyzer.addMember_eq`, `Analyzer.addComment_eq`: the steps of a comment.
* `Analyzer.afterCalls_eq`: a run, with no class current at its end.
* `wellFormed_afterCalls`: the names in every state that a run leaves.
-/

namespace ApiDoc.Analysis

/-! ## The analysis with its cursor -/

/-- Why a look-up fails. -/
inductive LookupError where
  | unknownClass (key : String)
  | unknownAccess (label : String)
deriving Repr, DecidableEq, Inhabited

/-- What the analysis knows, and the class that is current. -/
structure Analyzer where
  state : State := {}
  current : Option String := none
deriving Repr, DecidableEq, Inhabited

namespace Analyzer

def warn (a : Analyzer) (file : String) (c : Comment) (issues : List Issue) : Analyzer :=
  { a with state := a.state.warn file c issues }

/-- Take one tag into the draft; the access level is looked up by the label. -/
def handle (d : Draft) (t : Tag) : Except LookupError (Draft × List Issue) :=
  match Role.ofLabel? t.label with
  | some (.accessTag _) =>
    if d.access.isSome then .ok (d, [.duplicateTag t.label])
    else match Access.ofLabel? t.label with
      | none => .error (.unknownAccess t.label)
      | some access => .ok ({ d with access := some access }, [])
  | _ => .ok (d.addTag t)

/-- The cursor after one tag: the first named class tag of a comment sets it. -/
def cursor (current : Option String) (d : Draft) (t : Tag) : Option String :=
  match Role.ofLabel? t.label, d.classSubject, nameOf t with
  | some .classTag, none, some name => some name
  | _, _, _ => current

def takeTag (file : String) (c : Comment) (p : Analyzer × Draft) (t : Tag) :
    Except LookupError (Analyzer × Draft) := do
  let (next, issues) ← handle p.2 t
  pure ({ p.1.warn file c issues with current := cursor p.1.current p.2 t }, next)

/-- Take all tags of a comment. -/
def takeTags (limit : Limit) (file : String) (a : Analyzer) (c : Comment) :
    Except LookupError (Analyzer × Draft) := do
  let (a, d) ← c.tags.foldlM (takeTag file c) (a, {})
  let many := if exceeds limit d.primaryTags then [.manyPrimaryTags d.primaryTags] else []
  pure (a.warn file c many, d)

/-- Take a comment up to its members: the tags, and then the class. -/
def beforeMembers (limit : Limit) (file : String) (a : Analyzer) (c : Comment) :
    Except LookupError (Analyzer × Draft) := do
  let (a, d) ← a.takeTags limit file c
  let classes := match d.classDoc? file c.text with
    | none => a.state.classes
    | some doc => trackClass a.state.classes doc
  pure ({ a with state.classes := classes }, d)

/-- Put a member into the current class, which is looked up under its name. -/
def addMember {α : Type} (slot : MemberSlot α) (file : String) (c : Comment) (a : Analyzer) :
    Option α → Except LookupError Analyzer
  | none => .ok a
  | some x =>
    match a.current with
    | none => .ok (a.warn file c [.orphanMember slot.kind (slot.name x)])
    | some key =>
      match a.state.classes.get? key with
      | none => .error (.unknownClass key)
      | some k =>
        if slot.has k (slot.name x) then
          .ok (a.warn file c [.memberExists slot.kind key (slot.name x)])
        else .ok { a with state.classes := a.state.classes.insert key (slot.put k x) }

/-- Take a comment up to its property. -/
def beforeProperty (limit : Limit) (file : String) (a : Analyzer) (c : Comment) :
    Except LookupError (Analyzer × Draft) := do
  let (a, d) ← a.beforeMembers limit file c
  let a ← a.addMember methodSlot file c (d.method? c.text)
  pure (a, d)

/-- Take a comment. -/
def addComment (limit : Limit) (file : String) (a : Analyzer) (c : Comment) :
    Except LookupError Analyzer := do
  let (a, d) ← a.beforeProperty limit file c
  let a ← a.addMember propertySlot file c (d.property? c.text)
  let functions := match d.function? file c.text with
    | none => a.state.functions
    | some f => a.state.functions.insert f.name f
  pure { a with state.functions := functions }

def addComments (limit : Limit) (file : String) (a : Analyzer) (cs : List Comment) :
    Except LookupError Analyzer :=
  cs.foldlM (addComment limit file) a

/-- Take a file; no class is current before it and behind it. -/
def addFile (limit : Limit) (a : Analyzer) (f : FileComments) : Except LookupError Analyzer := do
  let a ← { a with current := none }.addComments limit f.file f.comments
  pure { a with current := none }

def addFiles (limit : Limit) (a : Analyzer) (files : List FileComments) :
    Except LookupError Analyzer :=
  files.foldlM (addFile limit) a

def afterCalls (limit : Limit) (calls : List (List FileComments)) : Except LookupError Analyzer :=
  calls.foldlM (addFiles limit) {}

/-! ## The steps of a comment -/

theorem handle_eq (d : Draft) (t : Tag) : handle d t = .ok (d.addTag t) := by
  unfold handle
  split
  · next access hr =>
    have hlabel : Access.ofLabel? t.label = some access := by
      rw [accessOfLabel?_eq, hr]
      rfl
    unfold Draft.addTag Draft.setAccess
    simp only [hr, hlabel]
    split <;> rfl
  · rfl

theorem cursor_eq (current : Option String) (d : Draft) (t : Tag) :
    cursor current d t = if d.classSubject.isSome then current
      else ((declaredClass? t).map Subject.name).or current := by
  unfold cursor declaredClass?
  have hclass := label_eq_iff (s := t.label) (r := .classTag) rfl
  simp only [hclass]
  cases d.classSubject with
  | some _ => simp
  | none =>
    cases nameOf t with
    | none => simp
    | some name =>
      by_cases hr : Role.ofLabel? t.label = some .classTag <;> simp [hr]

theorem takeTag_eq (file : String) (c : Comment) (a : Analyzer) (d : Draft) (t : Tag) :
    takeTag file c (a, d) t =
      .ok (⟨a.state.warn file c (d.tagIssues t), cursor a.current d t⟩, d.plus t) := by
  rw [takeTag, handle_eq, ← Draft.addTag_fst, ← Draft.addTag_snd]
  rfl

theorem warn_nil (s : State) (file : String) (c : Comment) : s.warn file c [] = s := by
  simp [State.warn]

theorem warn_append (s : State) (file : String) (c : Comment) (is js : List Issue) :
    (s.warn file c is).warn file c js = s.warn file c (is ++ js) := by
  simp only [State.warn, List.map_append, List.append_assoc]

/-- All tags of a comment. Only a draft without a class lets a tag move the cursor. -/
theorem foldlM_takeTag (file : String) (c : Comment) (ts : List Tag) (a : Analyzer) (d : Draft) :
    ts.foldlM (takeTag file c) (a, d) =
      .ok (⟨a.state.warn file c (d.addTags ts).2, if d.classSubject.isSome then a.current
        else ((ts.findSome? declaredClass?).map Subject.name).or a.current⟩, (d.addTags ts).1) := by
  induction ts generalizing a d with
  | nil =>
    simp only [Draft.addTags, warn_nil, List.findSome?_nil, Option.map_none, Option.none_or,
      ite_self]
    rfl
  | cons t ts ih =>
    rw [List.foldlM_cons, takeTag_eq]
    change List.foldlM (takeTag file c) _ ts = _
    rw [ih, warn_append, ← Draft.addTags_snd_cons, cursor_eq]
    have hclass : (d.plus t).classSubject = d.classSubject.or (declaredClass? t) := rfl
    rw [hclass, List.findSome?_cons]
    cases d.classSubject <;> cases declaredClass? t <;> simp [Draft.addTags_fst]

/-- What is remarked about a comment before its members. -/
def tagRemarks (limit : Limit) (c : Comment) : List Issue :=
  let (d, issues) := Draft.ofComment c
  issues ++ if exceeds limit d.primaryTags then [.manyPrimaryTags d.primaryTags] else []

section

variable (limit : Limit) (file : String) (a : Analyzer) (c : Comment)

theorem takeTags_eq : a.takeTags limit file c =
    .ok (⟨a.state.warn file c (tagRemarks limit c), (className? c).or a.current⟩,
      (Draft.ofComment c).1) := by
  rw [takeTags, foldlM_takeTag]
  change Except.ok _ = Except.ok _
  rw [warn, warn_append]
  rfl

theorem beforeMembers_eq : a.beforeMembers limit file c =
    .ok (⟨{ a.state with classes := declareIn a.state.classes file c }.warn file c
      (tagRemarks limit c), (className? c).or a.current⟩, (Draft.ofComment c).1) := by
  rw [beforeMembers, takeTags_eq]
  rfl

end

/-- A member of a class that is there: the look-up succeeds. -/
theorem addMember_eq {α : Type} (slot : MemberSlot α) (file : String) (c : Comment)
    {a : Analyzer} (hs : Sound a.state.classes a.current) (x? : Option α) :
    a.addMember slot file c x? =
      let (classes, issues) := Analysis.addMember slot a.state.classes a.current x?
      .ok ⟨{ a.state with classes }.warn file c issues, a.current⟩ := by
  cases x? with
  | none => simp only [addMember, Analysis.addMember, warn_nil]
  | some x =>
    rw [addMember, Analysis.addMember, MemberSlot.add]
    cases hcurrent : a.current with
    | none => simp only [warn, hcurrent, Option.bind_none]
    | some key =>
      obtain ⟨k, hk⟩ := Option.isSome_iff_exists.1 (hs.known key hcurrent)
      simp only [Option.bind_some, hk, hs.keyed key k hk]
      split
      · simp only [warn, hcurrent]
      · simp only [warn_nil]

-- a cursor at a class that is not there yet would make the look-up fail
example : addMember methodSlot "a.js" ⟨"", []⟩ ⟨{}, some "A"⟩ (some { name := "f" }) =
    .error (.unknownClass "A") := rfl

section

variable (limit : Limit) (file : String) {a : Analyzer} (c : Comment)
  (hs : Sound a.state.classes a.current)
include hs

theorem beforeProperty_eq : a.beforeProperty limit file c =
    let current := (className? c).or a.current
    let (classes, issues) :=
      Analysis.addMember methodSlot (declareIn a.state.classes file c) current (methodOf? c)
    .ok (⟨{ a.state with classes }.warn file c (tagRemarks limit c ++ issues), current⟩,
      (Draft.ofComment c).1) := by
  rw [beforeProperty, beforeMembers_eq]
  change (addMember methodSlot file c _ ((Draft.ofComment c).1.method? c.text) >>= _) = _
  rw [method?_ofComment, addMember_eq methodSlot file c (hs.declareIn file c)]
  change Except.ok _ = Except.ok _
  simp only [← warn_append]
  rfl

theorem addComment_eq : a.addComment limit file c =
    .ok ⟨(a.state.addComment limit file a.current c).1, (className? c).or a.current⟩ := by
  have hmethod := (hs.declareIn file c).addMember methodSlot (methodOf? c)
  rw [addComment, beforeProperty_eq limit file c hs]
  change (addMember propertySlot file c _ ((Draft.ofComment c).1.property? c.text) >>= _) = _
  rw [property?_ofComment, addMember_eq propertySlot file c hmethod]
  change Except.ok _ = Except.ok _
  have hactive : (Draft.ofComment c).1.activeClass a.current = (className? c).or a.current := by
    rw [Draft.activeClass, classSubject_ofComment, className?]
  unfold State.addComment State.commit State.warn tagRemarks
  simp only [hactive, method?_ofComment, property?_ofComment, List.map_append, List.append_assoc]
  rfl

end

/-! ## Runs -/

/-- A run of steps between which no class is current, and of which none fails. -/
theorem foldlM_eq_ok {α : Type} {f : Analyzer → α → Except LookupError Analyzer}
    {step : State → α → State}
    (hstep : ∀ s x, Sound s.classes none →
      f ⟨s, none⟩ x = .ok ⟨step s x, none⟩ ∧ Sound (step s x).classes none) (xs : List α) :
    ∀ s : State, Sound s.classes none →
      xs.foldlM f ⟨s, none⟩ = .ok ⟨xs.foldl step s, none⟩ := by
  induction xs with
  | nil => exact fun s _ => rfl
  | cons x xs ih =>
    intro s hs
    obtain ⟨hok, hnext⟩ := hstep s x hs
    rw [List.foldlM_cons, hok]
    exact ih _ hnext

section

variable (limit : Limit)

theorem addComments_eq (file : String) (cs : List Comment) :
    ∀ a : Analyzer, Sound a.state.classes a.current →
      a.addComments limit file cs =
          .ok ⟨a.state.addComments limit file a.current cs, currentAfter a.current cs⟩ ∧
        Sound (a.state.addComments limit file a.current cs).classes
          (currentAfter a.current cs) := by
  induction cs with
  | nil => exact fun a hs => ⟨rfl, hs⟩
  | cons c cs ih =>
    intro a hs
    have hrest := ih ⟨_, _⟩ (sound_addComment limit file c hs)
    rw [Analysis.addComments_cons]
    refine ⟨?_, hrest.2⟩
    rw [addComments, List.foldlM_cons, addComment_eq limit file c hs]
    exact hrest.1

theorem addFile_eq {s : State} (hs : Sound s.classes none) (f : FileComments) :
    addFile limit ⟨s, none⟩ f = .ok ⟨s.addFile limit f, none⟩ := by
  rw [addFile, (addComments_eq limit f.file f.comments ⟨s, none⟩ hs).1]
  rfl

theorem addFiles_eq {s : State} (hs : Sound s.classes none) (files : List FileComments) :
    addFiles limit ⟨s, none⟩ files = .ok ⟨s.addFiles limit files, none⟩ :=
  foldlM_eq_ok
    (fun _ f hs => ⟨addFile_eq limit hs f, sound_addFile limit hs f⟩) files s hs

/-- No look-up of a run fails, and no class is current at its end. -/
theorem afterCalls_eq (calls : List (List FileComments)) :
    afterCalls limit calls = .ok ⟨State.afterCalls limit calls, none⟩ :=
  foldlM_eq_ok
    (fun _ files hs => ⟨addFiles_eq limit hs files, sound_addFiles limit hs files⟩) calls {}
    sound_empty

end

/-- The current class, if there is one, has an entry. -/
def Known (a : Analyzer) : Prop :=
  ∀ key, a.current = some key → key ∈ a.state.classes.keys

theorem known_of_sound {a : Analyzer} (hs : Sound a.state.classes a.current) : a.Known := by
  intro key hkey
  rw [← Table.contains_iff_mem_keys]
  exact hs.known key hkey

/-- A run up to some place within a file. -/
def upTo (limit : Limit) (calls : List (List FileComments)) (file : String)
    (before : List Comment) : Except LookupError Analyzer := do
  let a ← afterCalls limit calls
  { a with current := none }.addComments limit file before

/-- Wherever a run is, the current class has an entry when the members of a comment come in. -/
theorem known_at_members (limit : Limit) (calls : List (List FileComments)) (file : String)
    (before : List Comment) (c : Comment) :
    ∃ a atMethod atProperty d, upTo limit calls file before = .ok a ∧
      a.beforeMembers limit file c = .ok (atMethod, d) ∧ atMethod.Known ∧
      a.beforeProperty limit file c = .ok (atProperty, d) ∧ atProperty.Known := by
  let s := State.afterCalls limit calls
  let a : Analyzer := ⟨s.addComments limit file none before, currentAfter none before⟩
  obtain ⟨hrun, hs⟩ : upTo limit calls file before = .ok a ∧ Sound a.state.classes a.current := by
    rw [upTo, afterCalls_eq]
    exact addComments_eq limit file before ⟨s, none⟩ (sound_afterCalls limit calls)
  have hdeclared := hs.declareIn file c
  refine ⟨a, _, _, _, hrun, beforeMembers_eq limit file a c, ?_,
    beforeProperty_eq limit file c hs, ?_⟩
  · exact known_of_sound hdeclared
  · exact known_of_sound (hdeclared.addMember methodSlot (methodOf? c))

end Analyzer

/-! ## Names -/

/-- Names that are not empty and of which no two are the same. -/
structure DistinctNames (names : List String) : Prop where
  nodup : names.Nodup
  nonempty : "" ∉ names

/-- The records of a table stand under their own names. -/
structure Named {α : Type} (name : α → String) (t : Table α) : Prop where
  keys : DistinctNames t.keys
  named : ∀ e ∈ t.entries, name e.2 = e.1

/-- What holds of the names in a state. -/
structure State.WellFormed (s : State) : Prop where
  classes : Named ClassDoc.name s.classes
  functions : Named FunctionDoc.name s.functions
  methods : ∀ k ∈ s.classes.values, Named Method.name k.methods
  properties : ∀ k ∈ s.classes.values, Named Property.name k.properties
  parents : ∀ k ∈ s.classes.values, DistinctNames k.parents
  methodParams : ∀ k ∈ s.classes.values, ∀ m ∈ k.methods.values,
    DistinctNames (m.params.map Param.name)
  functionParams : ∀ f ∈ s.functions.values, DistinctNames (f.params.map Param.name)

theorem distinctNames_eraseDups {names : List String} (h : "" ∉ names) :
    DistinctNames names.eraseDups :=
  ⟨nodup_eraseDups names, fun hmem => h (List.mem_eraseDups.1 hmem)⟩

theorem nameOf_ne_empty (t : Tag) : nameOf t ≠ some "" := by
  unfold nameOf
  cases t.name <;> simp [Option.filter]

/-- The first of the subjects that tags declare has a name if all of them have one. -/
theorem map_findSome?_ne_empty {β : Type} {read : Tag → Option β} {name : β → String}
    (h : ∀ t, (read t).map name ≠ some "") (ts : List Tag) :
    (ts.findSome? read).map name ≠ some "" := by
  intro he
  obtain ⟨b, hb, hname⟩ := Option.map_eq_some_iff.1 he
  obtain ⟨t, -, ht⟩ := List.exists_of_findSome?_eq_some hb
  apply h t
  rw [ht, Option.map_some, hname]

section

variable (c : Comment)

theorem className?_ne_empty : className? c ≠ some "" := by
  apply map_findSome?_ne_empty
  intro t
  unfold declaredClass?
  split
  · simpa using nameOf_ne_empty t
  · exact nofun

theorem functionName?_ne_empty : functionName? c ≠ some "" := by
  apply map_findSome?_ne_empty
  intro t
  unfold declaredFunction?
  split
  · simpa using nameOf_ne_empty t
  · exact nofun

theorem methodName?_ne_empty : methodName? c ≠ some "" := by
  apply map_findSome?_ne_empty
  intro t
  unfold declaredMethod?
  split
  · simp
  · split
    · simpa using nameOf_ne_empty t
    · exact nofun

theorem propertyName?_ne_empty : propertyName? c ≠ some "" := by
  apply map_findSome?_ne_empty
  intro t
  unfold declaredProperty?
  split
  · simpa using nameOf_ne_empty t
  · exact nofun

theorem empty_notMem_parentsOf : "" ∉ parentsOf c := by
  intro h
  obtain ⟨t, -, ht⟩ := List.mem_filterMap.1 h
  unfold declaredParent? at ht
  split at ht
  · exact nameOf_ne_empty t ht
  · cases ht

theorem distinctNames_paramsOf : DistinctNames ((paramsOf c).map Param.name) := by
  unfold paramsOf
  rw [map_firstOfKey]
  apply distinctNames_eraseDups
  intro h
  obtain ⟨p, hp, hname⟩ := List.mem_map.1 h
  obtain ⟨t, -, ht⟩ := List.mem_filterMap.1 hp
  unfold declaredParam? at ht
  split at ht
  · obtain ⟨n, hn, rfl⟩ := Option.map_eq_some_iff.1 ht
    exact nameOf_ne_empty t (hname ▸ hn)
  · cases ht

end

section

variable (limit : Limit) (calls : List (List FileComments))

theorem named_classes : Named ClassDoc.name (State.afterCalls limit calls).classes := by
  constructor
  · rw [keys_classes_afterCalls]
    apply distinctNames_eraseDups
    intro h
    obtain ⟨c, -, hc⟩ := List.mem_filterMap.1 h
    exact className?_ne_empty c.comment hc
  · intro e he
    exact (exists_declaration (Table.get?_of_mem (nodup_keys_afterCalls limit calls) he)).1

theorem exists_definition {name : String} {f : FunctionDoc}
    (h : (State.afterCalls limit calls).functions.get? name = some f) :
    f.name = name ∧ ∃ c, functionOf? c = some f := by
  have hfunctions : (State.afterCalls limit calls).functions =
      (filedIn calls).foldl putFunction .empty :=
    view_afterCalls State.functions
      (fun s active file c _ => functions_addComment s active limit file c) calls
  rw [hfunctions, get?_foldl_putFunction] at h
  obtain ⟨c, hc, hf⟩ := Option.bind_eq_some_iff.1 h
  have hname : functionName? c.comment = some name := by
    simpa using (List.mem_filter.1 (List.mem_of_getLast? hc)).2
  rw [← map_name_functionOf?, hf] at hname
  exact ⟨Option.some.inj hname, c, hf⟩

theorem named_functions : Named FunctionDoc.name (State.afterCalls limit calls).functions := by
  constructor
  · rw [keys_functions_afterCalls]
    apply distinctNames_eraseDups
    intro h
    obtain ⟨c, -, hc⟩ := List.mem_filterMap.1 h
    exact functionName?_ne_empty c.comment hc
  · intro e he
    exact (exists_definition limit calls
      (Table.get?_of_mem (nodup_keys_functions limit calls) he)).1

variable {limit calls} {k : ClassDoc} (hk : k ∈ (State.afterCalls limit calls).classes.values)
include hk

theorem MemberView.exists_comment {α : Type} (view : MemberView α) {e : String × α}
    (he : e ∈ view.entries k) : ∃ c, view.member? c = some e.2 ∧ view.name e.2 = e.1 := by
  rw [view.entries_afterCalls (get?_name_of_mem hk)] at he
  obtain ⟨c, -, hc⟩ := List.mem_filterMap.1 (mem_of_mem_firstOfKey he)
  obtain ⟨m, hm, rfl⟩ := Option.map_eq_some_iff.1 hc
  exact ⟨c, hm, rfl⟩

theorem MemberView.named {α : Type} (view : MemberView α)
    (hname : ∀ c, (view.member? c).map view.name ≠ some "") :
    Named view.name ⟨view.entries k⟩ := by
  constructor
  · rw [Table.keys, view.entries_afterCalls (get?_name_of_mem hk), map_firstOfKey]
    apply distinctNames_eraseDups
    intro h
    obtain ⟨e, he, hempty⟩ := List.mem_map.1 h
    obtain ⟨c, -, hc⟩ := List.mem_filterMap.1 he
    obtain ⟨m, hm, rfl⟩ := Option.map_eq_some_iff.1 hc
    apply hname c
    rw [hm]
    exact congrArg some hempty
  · intro e he
    obtain ⟨c, -, hc⟩ := view.exists_comment hk he
    exact hc

theorem distinctNames_parents : DistinctNames k.parents := by
  have hheading := heading_afterCalls limit calls k.name
  rw [get?_name_of_mem hk, Option.map_some, headingOf] at hheading
  obtain ⟨first, -, he⟩ := Option.map_eq_some_iff.1 hheading.symm
  have hparents : (List.flatMap (fun c : Filed => parentsOf c.comment)
      (declarationsOf k.name (filedIn calls))).eraseDups = k.parents :=
    congrArg Heading.parents he
  rw [← hparents]
  apply distinctNames_eraseDups
  intro h
  obtain ⟨c, -, hc⟩ := List.mem_flatMap.1 h
  exact empty_notMem_parentsOf c.comment hc

end

/-- The names in every state that calls leave. -/
theorem wellFormed_afterCalls (limit : Limit) (calls : List (List FileComments)) :
    (State.afterCalls limit calls).WellFormed where
  classes := named_classes limit calls
  functions := named_functions limit calls
  methods k hk := methodView.named hk fun c => map_name_methodOf? c ▸ methodName?_ne_empty c
  properties k hk :=
    propertyView.named hk fun c => map_name_propertyOf? c ▸ propertyName?_ne_empty c
  parents k hk := distinctNames_parents hk
  methodParams k hk m hm := by
    obtain ⟨e, he, rfl⟩ := List.mem_map.1 hm
    obtain ⟨c, hc, -⟩ := methodView.exists_comment hk he
    obtain ⟨s, -, hmethod⟩ := Option.map_eq_some_iff.1 hc
    rw [← hmethod]
    exact distinctNames_paramsOf c
  functionParams f hf := by
    obtain ⟨e, he, rfl⟩ := List.mem_map.1 hf
    obtain ⟨-, c, hc⟩ := exists_definition limit calls
      (Table.get?_of_mem (nodup_keys_functions limit calls) he)
    obtain ⟨s, -, hfunction⟩ := Option.map_eq_some_iff.1 hc
    rw [← hfunction]
    exact distinctNames_paramsOf c.comment

/-- **Look-ups and names.** Whatever the comments are, no call on files fails, and no class is
current behind it. Wherever a run is within a file, the current class has an entry when the method
and the property of the next comment come in. And in every state that calls leave, classes,
functions and members stand under their own names, which are not empty, a class names each of its
parents once, and the parameters of a method or function have different names. -/
theorem lookups_never_fail (limit : Limit) (calls : List (List FileComments)) :
    Analyzer.afterCalls limit calls = .ok ⟨State.afterCalls limit calls, none⟩ ∧
      (∀ file before c, ∃ a atMethod atProperty d,
        Analyzer.upTo limit calls file before = .ok a ∧
        a.beforeMembers limit file c = .ok (atMethod, d) ∧ atMethod.Known ∧
        a.beforeProperty limit file c = .ok (atProperty, d) ∧ atProperty.Known) ∧
      (State.afterCalls limit calls).WellFormed := by
  refine ⟨Analyzer.afterCalls_eq limit calls, ?_, wellFormed_afterCalls limit calls⟩
  intro file before c
  exact Analyzer.known_at_members limit calls file before c

end ApiDoc.Analysis
