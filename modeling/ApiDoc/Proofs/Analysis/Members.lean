import ApiDoc.Proofs.Analysis.Draft

/-!
# Members belong to the class that is current

The analysis carries the current class from comment to comment and forgets it between files. Here
the class that is current at a comment is read off the file alone: it is the last class declared
at or before the comment in the same file. The members of a class are those that were declared
while it was current, over all files and all calls, and the first declaration of a name stands.

* `MemberSlot.get?_add`: a member comes into the current class, whatever its kind.
* `get?_addComment`: what one comment does to the entry of a class.
* `MemberView.inClass_addFiles`, `MemberView.inClass_afterCalls`: the members of a class after a
  run, for methods and properties alike.
* `members_of_first_comments`: the same said of the lookup of one member.

The invariant of a run (`Sound`) is that every class stands under its own name and that the current
class, if there is one, has an entry.
-/

namespace ApiDoc.Analysis

/-! ## The class that is current at a comment -/

/-- A comment of a run and the class that is current after it. -/
structure Placed where
  comment : Comment
  current : Option String
deriving Repr, DecidableEq, Inhabited

/-- The comments of a file, each with the class declared last at or before it. -/
def placed (f : FileComments) : List Placed :=
  f.comments.mapIdx fun i c => ⟨c, ((f.comments.take (i + 1)).filterMap className?).getLast?⟩

/-- The comments of a file of which a part was read before, which left the class `active`. -/
def placedFrom (active : Option String) (cs : List Comment) : List Placed :=
  cs.mapIdx fun i c => ⟨c, (active.toList ++ (cs.take (i + 1)).filterMap className?).getLast?⟩

theorem placedFrom_cons (active : Option String) (c : Comment) (cs : List Comment) :
    placedFrom active (c :: cs) =
      ⟨c, (className? c).or active⟩ :: placedFrom ((className? c).or active) cs := by
  unfold placedFrom
  rw [List.mapIdx_cons]
  congr 1
  · cases active <;> cases h : className? c <;> simp [h]
  · congr 1
    funext i c'
    rw [List.take_succ_cons, List.filterMap_cons]
    cases className? c with
    | none => simp
    | some k => cases active <;> simp [List.getLast?_cons]

theorem placed_eq (f : FileComments) : placed f = placedFrom none f.comments := by
  simp [placed, placedFrom]

/-- The state of a fresh analysis after any calls on lists of files. -/
def State.afterCalls (limit : Limit) (calls : List (List FileComments)) : State :=
  calls.foldl (State.addFiles limit) {}

theorem afterCalls_eq (limit : Limit) (calls : List (List FileComments)) :
    State.afterCalls limit calls = ({} : State).addFiles limit calls.flatten := by
  unfold State.afterCalls State.addFiles
  rw [List.foldl_flatten]

/-- All comments of all calls in the order in which they are taken. -/
def placedIn (calls : List (List FileComments)) : List Placed :=
  calls.flatten.flatMap placed

/-- The comments of all calls at which a class is current. -/
def commentsAt (calls : List (List FileComments)) (className : String) : List Comment :=
  ((placedIn calls).filter fun p => p.current = some className).map Placed.comment

/-! ## Entries of classes -/

/-- Every class stands under its own name, and the current class has an entry. -/
structure Sound (classes : Table ClassDoc) (active : Option String) : Prop where
  keyed : ∀ key c, classes.get? key = some c → c.name = key
  known : ∀ key, active = some key → (classes.get? key).isSome

theorem sound_empty : Sound ({} : State).classes none :=
  ⟨fun _ _ h => (nomatch h), fun _ h => (nomatch h)⟩

/-- A class declaration that joins what is known of the class. -/
def declareClass (old : Option ClassDoc) (doc : ClassDoc) : ClassDoc :=
  match old with
  | none => doc
  | some first => first.merge doc

theorem get?_trackClass (classes : Table ClassDoc) (doc : ClassDoc) (key : String) :
    (trackClass classes doc).get? key =
      if key = doc.name then some (declareClass (classes.get? doc.name) doc)
      else classes.get? key := by
  unfold trackClass declareClass
  cases classes.get? doc.name <;> simp

/-- The class with a member more, unless it has one of that name. -/
def MemberSlot.putNew {α : Type} (slot : MemberSlot α) (x : α) (k : ClassDoc) : ClassDoc :=
  slot.withTable k ⟨appendNew Prod.fst (slot.table k).entries (slot.name x, x)⟩

section

variable {α : Type} (slot : MemberSlot α)

theorem MemberSlot.putNew_eq (x : α) (k : ClassDoc) :
    slot.putNew x k = if slot.has k (slot.name x) then k else slot.put k x := by
  rw [putNew, ← Table.insert_eq_appendNew, has, put]
  split
  · exact slot.withTable_table k
  · rfl

theorem MemberSlot.get?_add {classes : Table ClassDoc} {active : Option String}
    (hs : Sound classes active) (x : α) (key : String) :
    (slot.add classes active x).1.get? key =
      (classes.get? key).map fun k => if active = some key then slot.putNew x k else k := by
  unfold add
  simp only [putNew_eq]
  cases active with
  | none => simp
  | some a =>
    obtain ⟨k, hk⟩ := Option.isSome_iff_exists.1 (hs.known a rfl)
    have hname := hs.keyed a k hk
    by_cases hkey : a = key
    · subst hkey
      cases hhas : slot.has k (slot.name x) <;> simp [hk, hname, hhas]
    · have hne : key ≠ k.name := by
        rw [hname]
        exact Ne.symm hkey
      cases hhas : slot.has k (slot.name x) <;> simp [hk, hkey, hne, hhas]

theorem get?_addMember {classes : Table ClassDoc} {active : Option String}
    (hs : Sound classes active) (x? : Option α) (key : String) :
    (addMember slot classes active x?).1.get? key =
      (classes.get? key).map fun k =>
        if active = some key then x?.elim id slot.putNew k else k := by
  cases x? with
  | none => simp [addMember]
  | some x => exact slot.get?_add hs x key

end

/-- Changing the entry of the current class keeps classes under their names. -/
theorem Sound.of_map {classes classes' : Table ClassDoc} {active : Option String}
    {f : String → ClassDoc → ClassDoc} (hs : Sound classes active)
    (hget : ∀ key, classes'.get? key = (classes.get? key).map (f key))
    (hname : ∀ key c, (f key c).name = c.name) : Sound classes' active where
  keyed := by
    intro key c hc
    rw [hget, Option.map_eq_some_iff] at hc
    obtain ⟨c₀, hc₀, rfl⟩ := hc
    rw [hname, hs.keyed key c₀ hc₀]
  known := by
    intro key hk
    rw [hget, Option.isSome_map]
    exact hs.known key hk

/-- The property of a comment comes in after its method, so what is between the two matters. -/
theorem Sound.addMember {α : Type} (slot : MemberSlot α) {classes : Table ClassDoc}
    {active : Option String} (hs : Sound classes active) (x? : Option α) :
    Sound (addMember slot classes active x?).1 active := by
  refine hs.of_map (get?_addMember slot hs x?) ?_
  intro key k
  split
  · cases x? with
    | none => rfl
    | some x => exact slot.name_withTable k _
  · rfl

/-- The class with the members that a comment declares. -/
def withMembers (c : Comment) (k : ClassDoc) : ClassDoc :=
  (propertyOf? c).elim id propertySlot.putNew ((methodOf? c).elim id methodSlot.putNew k)

/-- The entry of a class before the members of the comment come in. -/
def declaredEntry (file : String) (c : Comment) (key : String) (old : Option ClassDoc) :
    Option ClassDoc :=
  match (Draft.ofComment c).1.classDoc? file c.text with
  | none => old
  | some doc => if key = doc.name then some (declareClass old doc) else old

/-- The classes after the class of a comment is declared. -/
def declareIn (classes : Table ClassDoc) (file : String) (c : Comment) : Table ClassDoc :=
  match (Draft.ofComment c).1.classDoc? file c.text with
  | none => classes
  | some doc => trackClass classes doc

theorem name_classDoc? (file : String) (c : Comment) :
    ((Draft.ofComment c).1.classDoc? file c.text).map ClassDoc.name = className? c := by
  rw [Draft.classDoc?, classSubject_ofComment, Option.map_map, className?]
  rfl

theorem get?_declareIn (classes : Table ClassDoc) (file : String) (c : Comment) (key : String) :
    (declareIn classes file c).get? key = declaredEntry file c key (classes.get? key) := by
  unfold declareIn declaredEntry
  split
  · rfl
  · rw [get?_trackClass]
    split
    · next h => rw [h]
    · rfl

theorem Sound.declareIn {classes : Table ClassDoc} {active : Option String}
    (hs : Sound classes active) (file : String) (c : Comment) :
    Sound (declareIn classes file c) ((className? c).or active) := by
  have hname := name_classDoc? file c
  constructor
  · intro key k hk
    rw [get?_declareIn, declaredEntry] at hk
    split at hk
    · exact hs.keyed key k hk
    · next doc _ =>
      split at hk
      · next hkey =>
        obtain rfl := Option.some.inj hk
        cases hold : classes.get? key with
        | none => exact hkey.symm
        | some first => exact hs.keyed key first hold
      · exact hs.keyed key k hk
  · intro key hk
    rw [get?_declareIn, declaredEntry]
    split
    · next hd =>
      rw [hd, Option.map_none] at hname
      rw [← hname, Option.none_or] at hk
      exact hs.known key hk
    · next doc hd =>
      rw [hd, Option.map_some] at hname
      rw [← hname, Option.some_or] at hk
      rw [if_pos (Option.some.inj hk).symm]
      rfl

section

variable {s : State} {active : Option String} (limit : Limit) (file : String) (c : Comment)

theorem active_addComment :
    (s.addComment limit file active c).2 = (className? c).or active := by
  rw [className?, ← classSubject_ofComment]
  rfl

theorem classes_addComment : (s.addComment limit file active c).1.classes =
    (addMember propertySlot
      (addMember methodSlot (declareIn s.classes file c) ((className? c).or active)
        (methodOf? c)).1 ((className? c).or active) (propertyOf? c)).1 := by
  rw [← method?_ofComment, ← property?_ofComment, className?, ← classSubject_ofComment]
  rfl

/-- What one comment does to the entry of a class. -/
theorem get?_addComment (hs : Sound s.classes active) (key : String) :
    (s.addComment limit file active c).1.classes.get? key =
      (declaredEntry file c key (s.classes.get? key)).map fun k =>
        if (className? c).or active = some key then withMembers c k else k := by
  have h₁ := hs.declareIn file c
  have h₂ := h₁.addMember methodSlot (methodOf? c)
  rw [classes_addComment, get?_addMember propertySlot h₂, get?_addMember methodSlot h₁,
    get?_declareIn, Option.map_map]
  congr 1
  funext k
  simp only [Function.comp_apply, withMembers]
  split <;> rfl

theorem sound_addComment (hs : Sound s.classes active) :
    Sound (s.addComment limit file active c).1.classes ((className? c).or active) := by
  refine (hs.declareIn file c).of_map (f := fun key k =>
    if (className? c).or active = some key then withMembers c k else k) ?_ ?_
  · intro key
    rw [get?_addComment limit file c hs, get?_declareIn]
  · intro key k
    split
    · unfold withMembers
      cases propertyOf? c <;> cases methodOf? c <;> rfl
    · rfl

end

/-! ## Members after a run -/

/-- A kind of members: where they stand in a class, which one a comment declares, and its name. -/
structure MemberView (α : Type) where
  entries : ClassDoc → List (String × α)
  member? : Comment → Option α
  name : α → String
  entries_withMembers : ∀ c k, entries (withMembers c k) =
    ((member? c).map fun m => (name m, m)).toList.foldl (appendNew Prod.fst) (entries k)
  entries_declare : ∀ c file doc old, (Draft.ofComment c).1.classDoc? file c.text = some doc →
    entries (declareClass old doc) = (old.map entries).getD []

/-- The methods of classes. -/
def methodView : MemberView Method where
  entries k := k.methods.entries
  member? := methodOf?
  name := Method.name
  entries_withMembers c k := by
    unfold withMembers
    cases propertyOf? c <;> cases methodOf? c <;> rfl
  entries_declare c file doc old hd := by
    obtain ⟨s, -, rfl⟩ := Option.map_eq_some_iff.1 hd
    cases old <;> rfl

/-- The properties of classes. -/
def propertyView : MemberView Property where
  entries k := k.properties.entries
  member? := propertyOf?
  name := Property.name
  entries_withMembers c k := by
    unfold withMembers
    cases propertyOf? c <;> cases methodOf? c <;> rfl
  entries_declare c file doc old hd := by
    obtain ⟨s, -, rfl⟩ := Option.map_eq_some_iff.1 hd
    cases old <;> rfl

namespace MemberView

variable {α : Type} (view : MemberView α)

/-- The members of a class, none if there is no such class. -/
def inClass (classes : Table ClassDoc) (key : String) : List (String × α) :=
  ((classes.get? key).map view.entries).getD []

/-- The member of a class under a name. -/
def lookup (s : State) (className name : String) : Option α :=
  (s.classes.get? className).bind fun k => (⟨view.entries k⟩ : Table α).get? name

/-- The names of the members of a class, in order. -/
def names (s : State) (className : String) : List String :=
  ((s.classes.get? className).map fun k => (⟨view.entries k⟩ : Table α).keys).getD []

theorem lookup_eq_find? (s : State) (className name : String) :
    view.lookup s className name =
      ((view.inClass s.classes className).find? (·.1 == name)).map Prod.snd := by
  unfold lookup inClass
  cases s.classes.get? className with
  | none => rfl
  | some k => exact Table.get?_eq_find? _ name

theorem names_eq_map (s : State) (className : String) :
    view.names s className = (view.inClass s.classes className).map Prod.fst := by
  unfold names inClass
  cases s.classes.get? className <;> rfl

/-- The member that a comment declares, under its name. -/
def entryOf? (c : Comment) : Option (String × α) :=
  (view.member? c).map fun m => (view.name m, m)

/-- The member that a comment of a run declares for a class. -/
def entryFor? (key : String) (p : Placed) : Option (String × α) :=
  if p.current = some key then view.entryOf? p.comment else none

theorem inClass_declared (file : String) (c : Comment) (key : String) (old : Option ClassDoc) :
    ((declaredEntry file c key old).map view.entries).getD [] = (old.map view.entries).getD [] := by
  unfold declaredEntry
  split
  · rfl
  · next doc hd =>
    split
    · exact view.entries_declare c file doc old hd
    · rfl

theorem inClass_addComment {s : State} {active : Option String} (hs : Sound s.classes active)
    (limit : Limit) (file : String) (c : Comment) (key : String) :
    view.inClass (s.addComment limit file active c).1.classes key =
      (view.entryFor? key ⟨c, (className? c).or active⟩).toList.foldl (appendNew Prod.fst)
        (view.inClass s.classes key) := by
  have hdecl := view.inClass_declared file c key (s.classes.get? key)
  unfold inClass entryFor?
  rw [get?_addComment limit file c hs, Option.map_map, ← hdecl]
  by_cases hcur : (className? c).or active = some key
  · have hk := (hs.declareIn file c).known key hcur
    rw [get?_declareIn] at hk
    obtain ⟨k, hk⟩ := Option.isSome_iff_exists.1 hk
    simp [hk, hcur, view.entries_withMembers, entryOf?]
  · simp only [hcur, if_false, Option.toList_none, List.foldl_nil]
    rfl

theorem inClass_addComments (limit : Limit) (file : String) (key : String) (cs : List Comment) :
    ∀ (s : State) (active : Option String), Sound s.classes active →
      view.inClass (s.addComments limit file active cs).classes key =
        ((placedFrom active cs).filterMap (view.entryFor? key)).foldl (appendNew Prod.fst)
          (view.inClass s.classes key) ∧
      Sound (s.addComments limit file active cs).classes none := by
  induction cs with
  | nil => exact fun s active hs => ⟨rfl, hs.keyed, fun _ h => nomatch h⟩
  | cons c cs ih =>
    intro s active hs
    obtain ⟨hrun, hsound⟩ := ih _ _ (sound_addComment limit file c hs)
    rw [State.addComments]
    simp only [active_addComment]
    refine ⟨?_, hsound⟩
    rw [hrun, view.inClass_addComment hs, placedFrom_cons, List.filterMap_cons]
    cases view.entryFor? key ⟨c, (className? c).or active⟩ <;> rfl

/-- The members of a class after files: those declared while it was current, the first of each
name, behind the ones it had. -/
theorem inClass_addFiles (limit : Limit) (key : String) (files : List FileComments) :
    ∀ s : State, Sound s.classes none →
      view.inClass (s.addFiles limit files).classes key =
        ((files.flatMap placed).filterMap (view.entryFor? key)).foldl (appendNew Prod.fst)
          (view.inClass s.classes key) ∧
      Sound (s.addFiles limit files).classes none := by
  induction files with
  | nil => exact fun s hs => ⟨rfl, hs⟩
  | cons f files ih =>
    intro s hs
    obtain ⟨hfile, hsound⟩ := view.inClass_addComments limit f.file key f.comments s none hs
    obtain ⟨hrun, hsound'⟩ := ih (s.addFile limit f) hsound
    refine ⟨?_, hsound'⟩
    rw [State.addFiles, List.foldl_cons, ← State.addFiles, hrun, State.addFile, hfile,
      List.flatMap_cons, List.filterMap_append, List.foldl_append, placed_eq]

theorem inClass_afterCalls (limit : Limit) (calls : List (List FileComments)) (key : String) :
    view.inClass (State.afterCalls limit calls).classes key =
      firstOfKey Prod.fst ((commentsAt calls key).filterMap view.entryOf?) := by
  have hhere : (placedIn calls).filterMap (view.entryFor? key) =
      (commentsAt calls key).filterMap view.entryOf? := by
    rw [commentsAt, List.filterMap_map, List.filterMap_filter]
    congr 1
    funext p
    simp [entryFor?]
  rw [afterCalls_eq, (view.inClass_addFiles limit key calls.flatten {} sound_empty).1, ← hhere,
    ← foldl_appendNew_nil]
  rfl

theorem entries_afterCalls {limit : Limit} {calls : List (List FileComments)} {key : String}
    {k : ClassDoc} (h : (State.afterCalls limit calls).classes.get? key = some k) :
    view.entries k = firstOfKey Prod.fst ((commentsAt calls key).filterMap view.entryOf?) := by
  have hentries := view.inClass_afterCalls limit calls key
  rw [inClass, h] at hentries
  exact hentries

theorem any_entryOf? (c : Comment) (name : String) :
    (view.entryOf? c).any (·.1 == name) = decide ((view.member? c).map view.name = some name) := by
  unfold entryOf?
  cases view.member? c <;> simp [Bool.beq_eq_decide_eq]

theorem find?_afterCalls (limit : Limit) (calls : List (List FileComments)) (key name : String) :
    ((view.inClass (State.afterCalls limit calls).classes key).find? (·.1 == name)).map Prod.snd =
      ((commentsAt calls key).find? fun c => (view.member? c).map view.name = some name).bind
        view.member? := by
  rw [inClass_afterCalls, find?_firstOfKey, List.find?_filterMap, Option.map_bind]
  simp only [any_entryOf?]
  congr 1
  funext c
  simp [entryOf?, Function.comp_def]

theorem isSome_find?_afterCalls (limit : Limit) (calls : List (List FileComments))
    (key name : String) :
    (((view.inClass (State.afterCalls limit calls).classes key).find? (·.1 == name)).map
        Prod.snd).isSome ↔
      ∃ c ∈ commentsAt calls key, (view.member? c).map view.name = some name := by
  rw [inClass_afterCalls, find?_firstOfKey, Option.isSome_map, List.find?_isSome]
  simp only [List.mem_filterMap, entryOf?, Option.map_eq_some_iff, beq_iff_eq]
  constructor
  · rintro ⟨_, ⟨c, hc, m, hm, rfl⟩, hname⟩
    exact ⟨c, hc, m, hm, hname⟩
  · rintro ⟨c, hc, m, hm, hname⟩
    exact ⟨_, ⟨c, hc, m, hm, rfl⟩, hname⟩

theorem keys_afterCalls (limit : Limit) (calls : List (List FileComments)) (key : String) :
    (view.inClass (State.afterCalls limit calls).classes key).map Prod.fst =
      ((commentsAt calls key).filterMap fun c => (view.member? c).map view.name).eraseDups := by
  rw [inClass_afterCalls, map_firstOfKey, List.map_filterMap]
  congr 2
  funext c
  simp [entryOf?, Function.comp_def]

end MemberView

/-- The method of a class under a name. -/
def State.method? (s : State) (className name : String) : Option Method :=
  (s.classes.get? className).bind fun k => k.methods.get? name

/-- The property of a class under a name. -/
def State.property? (s : State) (className name : String) : Option Property :=
  (s.classes.get? className).bind fun k => k.properties.get? name

/-- The names of the methods of a class, in order. -/
def State.methodNames (s : State) (className : String) : List String :=
  ((s.classes.get? className).map fun k => k.methods.keys).getD []

/-- The names of the properties of a class, in order. -/
def State.propertyNames (s : State) (className : String) : List String :=
  ((s.classes.get? className).map fun k => k.properties.keys).getD []

/-- **Member association.** A class has a method of a name exactly when some comment at which it
is current declares one, and the method is the one of the first such comment; the methods stand in
the order of these comments. The same holds of properties. -/
theorem members_of_first_comments (limit : Limit) (calls : List (List FileComments))
    (className name : String) :
    let s := State.afterCalls limit calls
    let here := commentsAt calls className
    ((s.method? className name).isSome ↔ ∃ c ∈ here, methodName? c = some name) ∧
    (s.method? className name =
      (here.find? fun c => methodName? c = some name).bind methodOf?) ∧
    (s.methodNames className = (here.filterMap methodName?).eraseDups) ∧
    ((s.property? className name).isSome ↔ ∃ c ∈ here, propertyName? c = some name) ∧
    (s.property? className name =
      (here.find? fun c => propertyName? c = some name).bind propertyOf?) ∧
    (s.propertyNames className = (here.filterMap propertyName?).eraseDups) := by
  intro s here
  have hmethod : ∀ c, (methodView.member? c).map methodView.name = methodName? c :=
    map_name_methodOf?
  have hproperty : ∀ c, (propertyView.member? c).map propertyView.name = propertyName? c :=
    map_name_propertyOf?
  have hmethods : s.method? className name = methodView.lookup s className name := rfl
  have hproperties : s.property? className name = propertyView.lookup s className name := rfl
  have hmethodNames : s.methodNames className = methodView.names s className := rfl
  have hpropertyNames : s.propertyNames className = propertyView.names s className := rfl
  rw [hmethods, hproperties, hmethodNames, hpropertyNames, MemberView.lookup_eq_find?,
    MemberView.lookup_eq_find?, MemberView.names_eq_map, MemberView.names_eq_map,
    MemberView.isSome_find?_afterCalls, MemberView.isSome_find?_afterCalls,
    MemberView.find?_afterCalls, MemberView.find?_afterCalls, MemberView.keys_afterCalls,
    MemberView.keys_afterCalls]
  simp only [hmethod, hproperty]
  exact ⟨Iff.rfl, rfl, rfl, Iff.rfl, rfl, rfl⟩

end ApiDoc.Analysis
