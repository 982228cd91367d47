import Mathlib.Data.List.Induction
import ApiDoc.Proofs.Analysis.Members
import ApiDoc.Proofs.Docs.Merge

/-!
# What all comments together say of a class and of a function

A run folds every comment into the model, over all files and all calls. Four rules meet there: the
first declaration of a class gives its file and its text, the latest its abstractness, all of them
its parents, and a function is the one declared last. Keys stand in the order of first
declarations throughout.

* `view_afterCalls`: a view of the state that each comment changes in a way of its own is the fold
  of these changes.
* `heading_addComment`, `functions_addComment`: the change that one comment makes.
* `foldl_joinHeading`, `get?_foldl_putFunction`: the folds in closed form.
* `headings_and_functions_of_comments`: classes and functions after any calls.
-/

namespace ApiDoc

namespace Analysis

/-! ## All comments of a run -/

/-- A comment and the file it stands in. -/
structure Filed where
  file : String
  comment : Comment
deriving Repr, DecidableEq, Inhabited

/-- The comments of a file, each with the file. -/
def filed (f : FileComments) : List Filed :=
  f.comments.map fun c => ⟨f.file, c⟩

/-- All comments of all calls in the order in which they are taken. -/
def filedIn (calls : List (List FileComments)) : List Filed :=
  calls.flatten.flatMap filed

theorem sound_addFile (limit : Limit) {s : State} (hs : Sound s.classes none) (f : FileComments) :
    Sound (s.addFile limit f).classes none :=
  (methodView.inClass_addComments limit f.file "" f.comments s none hs).2

section

variable {β : Type} {limit : Limit} (view : State → β) {step : β → Filed → β}
  (hstep : ∀ s active file c, Sound s.classes active →
    view (s.addComment limit file active c).1 = step (view s) ⟨file, c⟩)
include hstep

theorem view_addComments (file : String) (cs : List Comment) :
    ∀ (s : State) (active : Option String), Sound s.classes active →
      view (s.addComments limit file active cs) =
        (cs.map fun c => ⟨file, c⟩).foldl step (view s) := by
  induction cs with
  | nil =>
    intro s active _
    rfl
  | cons c cs ih =>
    intro s active hs
    have hrun := ih _ _ (sound_addComment limit file c hs)
    rw [State.addComments]
    simp only [active_addComment]
    rw [hrun, hstep s active file c hs, List.map_cons, List.foldl_cons]

theorem view_addFiles (files : List FileComments) :
    ∀ s : State, Sound s.classes none →
      view (s.addFiles limit files) = (files.flatMap filed).foldl step (view s) := by
  induction files with
  | nil =>
    intro s _
    rfl
  | cons f files ih =>
    intro s hs
    have hfile := view_addComments view hstep f.file f.comments s none hs
    have hrun := ih _ (sound_addFile limit hs f)
    rw [List.flatMap_cons, List.foldl_append, filed, ← hfile]
    exact hrun

/-- A view of the state that each comment changes in a way of its own. -/
theorem view_afterCalls (calls : List (List FileComments)) :
    view (State.afterCalls limit calls) = (filedIn calls).foldl step (view {}) := by
  rw [afterCalls_eq]
  exact view_addFiles view hstep calls.flatten {} sound_empty

end

/-! ## What a comment says of its class -/

/-- The parents that a comment names. -/
def parentsOf (c : Comment) : List String :=
  c.tags.filterMap declaredParent?

/-- Does a comment call its class abstract? -/
def callsAbstract (c : Comment) : Bool :=
  c.tags.any (·.label == "abstract")

/-- The text of the class that a comment declares. -/
def classTextOf (c : Comment) : Option String :=
  textOf c ((c.tags.findSome? declaredClass?).bind Subject.description)

theorem parents_ofComment (c : Comment) :
    (Draft.ofComment c).1.parents = addNames [] (parentsOf c) := by
  have hrun : ∀ (ts : List Tag) (d : Draft),
      (ts.foldl Draft.plus d).parents = addNames d.parents (ts.filterMap declaredParent?) := by
    intro ts
    induction ts with
    | nil => exact fun d => rfl
    | cons t ts ih =>
      intro d
      rw [List.foldl_cons, ih, List.filterMap_cons]
      cases h : declaredParent? t with
      | none => simp [Draft.plus, h, addNames]
      | some n => simp [Draft.plus, h, addNames]
  rw [Draft.ofComment, Draft.addTags_fst, hrun]
  rfl

theorem abstract_ofComment (c : Comment) :
    (Draft.ofComment c).1.abstract = callsAbstract c := by
  have hrun : ∀ (ts : List Tag) (d : Draft),
      (ts.foldl Draft.plus d).abstract = (d.abstract || ts.any (·.label == "abstract")) := by
    intro ts
    induction ts with
    | nil =>
      intro d
      simp
    | cons t ts ih =>
      intro d
      rw [List.foldl_cons, ih, List.any_cons, ← Bool.or_assoc]
      rfl
  rw [Draft.ofComment, Draft.addTags_fst, hrun]
  rfl

/-- A class without its members. -/
structure Heading where
  file : String
  name : String
  description : Option String
  parents : List String
  abstract : Bool
deriving Repr, DecidableEq, Inhabited

/-- What is known of a class apart from its members. -/
def heading (k : ClassDoc) : Heading :=
  { file := k.file, name := k.name, description := k.description, parents := k.parents,
    abstract := k.abstract }

theorem heading_withMembers (c : Comment) (k : ClassDoc) :
    heading (withMembers c k) = heading k := by
  unfold withMembers
  cases propertyOf? c <;> cases methodOf? c <;> rfl

/-- The heading of a class after one more declaration of it. -/
def declareHeading (key : String) (old : Option Heading) (c : Filed) : Heading :=
  match old with
  | none =>
    { file := c.file, name := key, description := classTextOf c.comment,
      parents := addNames [] (parentsOf c.comment), abstract := callsAbstract c.comment }
  | some h =>
    { h with
      parents := addNames h.parents (parentsOf c.comment)
      abstract := callsAbstract c.comment }

/-- What one comment does to the heading of a class. -/
def joinHeading (key : String) (old : Option Heading) (c : Filed) : Option Heading :=
  if className? c.comment = some key then some (declareHeading key old c) else old

theorem classDoc?_ofComment (file : String) (c : Comment) :
    (Draft.ofComment c).1.classDoc? file c.text =
      (className? c).map fun name =>
        { file, name, description := classTextOf c, parents := addNames [] (parentsOf c),
          abstract := callsAbstract c } := by
  unfold Draft.classDoc? className? classTextOf
  rw [classSubject_ofComment, parents_ofComment, abstract_ofComment]
  cases c.tags.findSome? declaredClass? with
  | none => rfl
  | some s => simp [describe_eq_textOf]

theorem heading_declaredEntry (file : String) (c : Comment) (key : String)
    (old : Option ClassDoc) :
    (declaredEntry file c key old).map heading =
      joinHeading key (old.map heading) ⟨file, c⟩ := by
  unfold declaredEntry joinHeading
  rw [classDoc?_ofComment]
  cases hname : className? c with
  | none => simp
  | some name =>
    by_cases hkey : key = name
    · subst hkey
      cases old with
      | none => simp [declareClass, declareHeading, heading]
      | some first =>
        have hparents := addNames_addNames first.parents [] (parentsOf c)
        simp only [declareClass, declareHeading, heading, ClassDoc.merge, Option.map_some, if_true,
          hparents]
        rfl
    · have hne : ¬ name = key := fun he => hkey he.symm
      simp [hkey, hne]

theorem heading_addComment {s : State} {active : Option String} (limit : Limit)
    (hs : Sound s.classes active) (file : String) (c : Comment) (key : String) :
    ((s.addComment limit file active c).1.classes.get? key).map heading =
      joinHeading key ((s.classes.get? key).map heading) ⟨file, c⟩ := by
  rw [get?_addComment limit file c hs, Option.map_map, ← heading_declaredEntry]
  congr 1
  funext k
  rw [Function.comp_apply]
  split
  · exact heading_withMembers c k
  · rfl

/-! ## Keys of classes -/

theorem keys_trackClass (classes : Table ClassDoc) (doc : ClassDoc) :
    (trackClass classes doc).keys = appendNew id classes.keys doc.name := by
  unfold trackClass
  split <;> exact Table.keys_insert _ _ _

theorem keys_declareIn (classes : Table ClassDoc) (file : String) (c : Comment) :
    (declareIn classes file c).keys =
      (className? c).toList.foldl (appendNew id) classes.keys := by
  unfold declareIn
  rw [classDoc?_ofComment]
  cases className? c with
  | none => rfl
  | some name => exact keys_trackClass _ _

theorem keys_insert_entry {classes : Table ClassDoc} {active : Option String} {key : String}
    {k k' : ClassDoc} (hs : Sound classes active) (h : classes.get? key = some k) :
    (classes.insert k.name k').keys = classes.keys := by
  apply Table.keys_insert_of_mem
  rw [← Table.contains_iff_mem_keys, Table.contains, hs.keyed key k h, h]
  rfl

theorem MemberSlot.keys_add {α : Type} (slot : MemberSlot α) {classes : Table ClassDoc}
    {active : Option String} (hs : Sound classes active) (x : α) :
    (slot.add classes active x).1.keys = classes.keys := by
  unfold add
  split
  · rfl
  · next k hk =>
    obtain ⟨key, -, hget⟩ := Option.bind_eq_some_iff.1 hk
    split
    · rfl
    · exact keys_insert_entry hs hget

theorem keys_addMember {α : Type} (slot : MemberSlot α) {classes : Table ClassDoc}
    {active : Option String} (hs : Sound classes active) (x? : Option α) :
    (addMember slot classes active x?).1.keys = classes.keys := by
  cases x? with
  | none => rfl
  | some x => exact slot.keys_add hs x

theorem keys_addComment {s : State} {active : Option String} (limit : Limit)
    (hs : Sound s.classes active) (file : String) (c : Comment) :
    (s.addComment limit file active c).1.classes.keys =
      (className? c).toList.foldl (appendNew id) s.classes.keys := by
  have hdeclared := hs.declareIn file c
  have hmethod := hdeclared.addMember methodSlot (methodOf? c)
  rw [classes_addComment]
  calc
    _ = _ := keys_addMember propertySlot hmethod (propertyOf? c)
    _ = _ := keys_addMember methodSlot hdeclared (methodOf? c)
    _ = _ := keys_declareIn s.classes file c

/-! ## Functions -/

/-- The name of the function that a comment declares: that of its first named function tag. -/
def functionName? (c : Comment) : Option String :=
  (c.tags.findSome? declaredFunction?).map Subject.name

/-- The function that a comment describes. -/
def functionOf? (c : Filed) : Option FunctionDoc :=
  (c.comment.tags.findSome? declaredFunction?).map fun s =>
    { file := c.file, name := s.name, description := textOf c.comment s.description,
      params := paramsOf c.comment, returns := returnsOf c.comment }

theorem map_name_functionOf? (c : Filed) :
    (functionOf? c).map FunctionDoc.name = functionName? c.comment := by
  rw [functionOf?, functionName?, Option.map_map]
  rfl

theorem function?_ofComment (file : String) (c : Comment) :
    (Draft.ofComment c).1.function? file c.text = functionOf? ⟨file, c⟩ := by
  have hf : (Draft.ofComment c).1.function = c.tags.findSome? declaredFunction? := by
    rw [Draft.ofComment, Draft.addTags_fst,
      Draft.foldl_plus_first Draft.function declaredFunction? (fun _ _ => rfl)]
    rfl
  rw [Draft.function?, hf, functionOf?]
  simp only [describe_eq_textOf, params_ofComment, returns_ofComment]

/-- The functions with the one that a comment declares in the place of an earlier one. -/
def putFunction (functions : Table FunctionDoc) (c : Filed) : Table FunctionDoc :=
  match functionOf? c with
  | none => functions
  | some f => functions.insert f.name f

theorem functions_addComment (s : State) (active : Option String) (limit : Limit) (file : String)
    (c : Comment) :
    (s.addComment limit file active c).1.functions = putFunction s.functions ⟨file, c⟩ := by
  unfold putFunction
  rw [← function?_ofComment]
  rfl

theorem keys_putFunction (functions : Table FunctionDoc) (c : Filed) :
    (putFunction functions c).keys =
      (functionName? c.comment).toList.foldl (appendNew id) functions.keys := by
  unfold putFunction
  rw [← map_name_functionOf?]
  cases functionOf? c with
  | none => rfl
  | some f => exact Table.keys_insert _ _ _

theorem get?_putFunction (functions : Table FunctionDoc) (c : Filed) (name : String) :
    (putFunction functions c).get? name =
      if functionName? c.comment = some name then functionOf? c else functions.get? name := by
  unfold putFunction
  rw [← map_name_functionOf?]
  cases functionOf? c with
  | none => simp
  | some f =>
    rw [Table.get?_insert]
    by_cases h : name = f.name
    · simp [h]
    · have hne : ¬ f.name = name := fun he => h he.symm
      simp [h, hne]

/-! ## The folds in closed form -/

theorem foldl_toList_eq_filterMap {ι : Type} (f : ι → Option String) (xs : List ι)
    (keys : List String) :
    xs.foldl (fun acc x => (f x).toList.foldl (appendNew id) acc) keys =
      (xs.filterMap f).foldl (appendNew id) keys := by
  induction xs generalizing keys with
  | nil => rfl
  | cons x xs ih =>
    rw [List.foldl_cons, ih, List.filterMap_cons]
    cases f x <;> rfl

/-- Names that come in one by one and only once. -/
theorem foldl_toList_eq_eraseDups {ι : Type} (f : ι → Option String) (xs : List ι) :
    xs.foldl (fun acc x => (f x).toList.foldl (appendNew id) acc) [] =
      (xs.filterMap f).eraseDups := by
  rw [foldl_toList_eq_filterMap, foldl_appendNew_nil]
  rfl

/-- The comments of a run that declare a class. -/
def declarationsOf (key : String) (cs : List Filed) : List Filed :=
  cs.filter fun c => className? c.comment = some key

/-- The comments of a run that declare a function. -/
def definitionsOf (name : String) (cs : List Filed) : List Filed :=
  cs.filter fun c => functionName? c.comment = some name

/-- The heading that the declarations of a class make up: the first of them gives the file and the
text, all of them the parents, and the last one the abstractness. -/
def headingOf (key : String) (decls : List Filed) : Option Heading :=
  decls.head?.map fun first =>
    { file := first.file
      name := key
      description := classTextOf first.comment
      parents := (decls.flatMap fun c => parentsOf c.comment).eraseDups
      abstract := decls.getLast?.any fun c => callsAbstract c.comment }

theorem headingOf_concat (key : String) (decls : List Filed) (c : Filed) :
    headingOf key (decls ++ [c]) = some (declareHeading key (headingOf key decls) c) := by
  unfold headingOf
  simp only [List.getLast?_concat, List.flatMap_append, List.flatMap_singleton,
    ← addNames_nil_eq]
  cases decls with
  | nil => rfl
  | cons first decls =>
    have hparents : addNames [] ((first :: decls).flatMap (fun c => parentsOf c.comment) ++
        parentsOf c.comment) = addNames (addNames [] ((first :: decls).flatMap fun c =>
          parentsOf c.comment)) (parentsOf c.comment) := by
      unfold addNames
      rw [List.foldl_append]
    rw [hparents]
    rfl

theorem filter_concat {α : Type} (p : α → Bool) (xs : List α) (x : α) :
    (xs ++ [x]).filter p = if p x = true then xs.filter p ++ [x] else xs.filter p := by
  rw [List.filter_append]
  by_cases h : p x = true <;> simp [h]

theorem foldl_joinHeading (key : String) (cs : List Filed) :
    cs.foldl (joinHeading key) none = headingOf key (declarationsOf key cs) := by
  -- the last declaration is looked at last, so the induction is on the end of the run
  induction cs using List.reverseRecOn with
  | nil => rfl
  | append_singleton cs c ih =>
    rw [List.foldl_append, ih, List.foldl_cons, List.foldl_nil, joinHeading]
    unfold declarationsOf
    rw [filter_concat]
    by_cases h : className? c.comment = some key
    · rw [if_pos h, if_pos (by simpa using h), headingOf_concat]
    · rw [if_neg h, if_neg (by simpa using h)]

theorem get?_foldl_putFunction (name : String) (cs : List Filed) :
    (cs.foldl putFunction .empty).get? name =
      (definitionsOf name cs).getLast?.bind functionOf? := by
  induction cs using List.reverseRecOn with
  | nil => rfl
  | append_singleton cs c ih =>
    rw [List.foldl_append, List.foldl_cons, List.foldl_nil, get?_putFunction, ih]
    unfold definitionsOf
    rw [filter_concat]
    by_cases h : functionName? c.comment = some name
    · rw [if_pos h, if_pos (by simpa using h), List.getLast?_concat]
      rfl
    · rw [if_neg h, if_neg (by simpa using h)]

/-! ## Classes and functions after any calls -/

/-- **Aggregation.** The classes of a run are those its comments declare, in the order of their
first declarations, and all that is known of a class apart from its members is made up by its
declarations: the file and the text of the first, the parents of all, the abstractness of the last.
The functions are those its comments declare, in the order of first declarations too, and each is
the one of the last comment that declares it. -/
theorem headings_and_functions_of_comments (limit : Limit) (calls : List (List FileComments)) :
    let s := State.afterCalls limit calls
    let all := filedIn calls
    (s.classes.keys = (all.filterMap fun c => className? c.comment).eraseDups) ∧
    (∀ name, (s.classes.get? name).map heading = headingOf name (declarationsOf name all)) ∧
    (s.functions.keys = (all.filterMap fun c => functionName? c.comment).eraseDups) ∧
    (∀ name, s.functions.get? name = (definitionsOf name all).getLast?.bind functionOf?) := by
  intro s all
  refine ⟨?_, ?_, ?_, ?_⟩
  · rw [← foldl_toList_eq_eraseDups]
    exact view_afterCalls (fun s => s.classes.keys)
      (fun s active file c hs => keys_addComment limit hs file c) calls
  · intro name
    rw [← foldl_joinHeading]
    exact view_afterCalls (fun s => (s.classes.get? name).map heading)
      (fun s active file c hs => heading_addComment limit hs file c name) calls
  · rw [← foldl_toList_eq_eraseDups]
    refine view_afterCalls (fun s => s.functions.keys) (fun s active file c _ => ?_) calls
    rw [functions_addComment, keys_putFunction]
  · intro name
    have hfunctions : s.functions = all.foldl putFunction .empty :=
      view_afterCalls State.functions
        (fun s active file c _ => functions_addComment s active limit file c) calls
    rw [hfunctions, get?_foldl_putFunction]

end Analysis

end ApiDoc
