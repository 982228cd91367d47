import ApiDoc.Analysis.Basic
import ApiDoc.Proofs.Table.FirstOfKey

/-!
# What a comment declares, read off its tags

The analysis takes the tags of a comment one by one into a draft. Here the same is said without
the draft: the class, the method and the property of a comment are those of its first tag of the
sort, and the access level, the parameters and the return type are read off the tags alone.

* `Draft.addTag_fst`, `Draft.addTag_snd`: what one tag adds to a draft, field by field, and what is
  remarked about it.
* `Draft.foldl_plus_first`: a field that the first tag of its sort fills holds, after a run of
  tags, what the first of them brings.
* `classSubject_ofComment`, `method?_ofComment`, `property?_ofComment`: the draft of a comment
  declares what its tags say.
-/

namespace ApiDoc.Analysis

/-! ## The tags of a comment -/

/-- The class that a tag declares. -/
def declaredClass? (t : Tag) : Option Subject :=
  if t.label = "class" then (nameOf t).map fun n => ⟨n, t.description⟩ else none

/-- The name and the description of a tag, without those that are absent or empty. -/
def wordsOf (t : Tag) : List String :=
  [t.name.getD "", t.description.getD ""].filter (· ≠ "")

/-- The method that a tag declares. A constructor has no name of its own: what stands in the place
of a name is the start of its text. -/
def declaredMethod? (t : Tag) : Option Subject :=
  if t.label = "constructor" then
    some ⟨"constructor", if wordsOf t = [] then none else some (" ".intercalate (wordsOf t))⟩
  else if t.label = "method" then (nameOf t).map fun n => ⟨n, t.description⟩
  else none

/-- The property that a tag declares, with its type. -/
def declaredProperty? (t : Tag) : Option (Subject × Option TypeExpr) :=
  if t.label = "property" then (nameOf t).map fun n => (⟨n, t.description⟩, t.type) else none

/-- The parent that a tag names. -/
def declaredParent? (t : Tag) : Option String :=
  if t.label = "extends" ∨ t.label = "inherits" then nameOf t else none

/-- The function that a tag declares. -/
def declaredFunction? (t : Tag) : Option Subject :=
  if t.label = "function" then (nameOf t).map fun n => ⟨n, t.description⟩ else none

/-- The parameter that a tag declares. -/
def declaredParam? (t : Tag) : Option Param :=
  if t.label = "param" then (nameOf t).map fun n => ⟨n, t.description, t.type⟩ else none

/-- Does the tag give a return type? -/
def isReturnTag (t : Tag) : Bool :=
  t.label == "return" || t.label == "returns"

/-- The class that a comment declares: that of its first named class tag. -/
def className? (c : Comment) : Option String :=
  (c.tags.findSome? declaredClass?).map Subject.name

/-- The name of the method that a comment declares: that of its first constructor tag or named
method tag. -/
def methodName? (c : Comment) : Option String :=
  (c.tags.findSome? declaredMethod?).map Subject.name

/-- The name of the property that a comment declares: that of its first named property tag. -/
def propertyName? (c : Comment) : Option String :=
  (c.tags.findSome? declaredProperty?).map fun p => p.1.name

/-- The access level of what a comment declares. -/
def accessOf (c : Comment) : Access :=
  (c.tags.findSome? fun t => Access.ofLabel? t.label).getD .everyone

/-- The named parameters of a comment, the first of each name. -/
def paramsOf (c : Comment) : List Param :=
  firstOfKey Param.name (c.tags.filterMap declaredParam?)

/-- The return type of a comment: that of its first return tag. -/
def returnsOf (c : Comment) : Option TypeExpr :=
  (c.tags.find? isReturnTag).bind Tag.type

/-- The text of a subject, or the free text of its comment where it has none. -/
def textOf (c : Comment) (own : Option String) : Option String :=
  if own.getD "" = "" then c.text else own

/-- The method that a comment describes. -/
def methodOf? (c : Comment) : Option Method :=
  (c.tags.findSome? declaredMethod?).map fun s =>
    { name := s.name, access := accessOf c, description := textOf c s.description,
      params := paramsOf c, returns := returnsOf c }

/-- The property that a comment describes. -/
def propertyOf? (c : Comment) : Option Property :=
  (c.tags.findSome? declaredProperty?).map fun p =>
    { name := p.1.name, access := accessOf c, description := textOf c p.1.description, type := p.2 }

theorem map_name_methodOf? (c : Comment) : (methodOf? c).map Method.name = methodName? c := by
  rw [methodOf?, methodName?, Option.map_map]
  rfl

theorem map_name_propertyOf? (c : Comment) :
    (propertyOf? c).map Property.name = propertyName? c := by
  rw [propertyOf?, propertyName?, Option.map_map]
  rfl

/-! ## Roles of labels -/

/-- The labels of a role. -/
def Role.labels : Role → List String
  | .classTag => ["class"]
  | .parentTag => ["extends", "inherits"]
  | .abstractTag => ["abstract"]
  | .accessTag a => [a.label]
  | .constructorTag => ["constructor"]
  | .methodTag => ["method"]
  | .functionTag => ["function"]
  | .paramTag => ["param"]
  | .returnsTag => ["return", "returns"]
  | .propertyTag => ["property"]

theorem Role.ofLabel?_eq_some_iff {s : String} {r : Role} :
    Role.ofLabel? s = some r ↔ s ∈ r.labels := by
  constructor
  · intro h
    unfold Role.ofLabel? at h
    split at h <;> cases h <;> simp [Role.labels, Access.label]
  · intro h
    cases r with
    | parentTag | returnsTag =>
      simp only [Role.labels, List.mem_cons, List.not_mem_nil, or_false] at h
      rcases h with rfl | rfl <;> rfl
    | accessTag a =>
      cases a <;> rw [List.mem_singleton.1 h] <;> rfl
    | _ => rw [List.mem_singleton.1 h]; rfl

/-- A label of one role, as a test on labels and as a test on roles. -/
theorem label_eq_iff {s l : String} {r : Role} (h : r.labels = [l]) :
    s = l ↔ Role.ofLabel? s = some r := by
  rw [Role.ofLabel?_eq_some_iff, h, List.mem_singleton]

theorem isReturnTag_iff (t : Tag) :
    isReturnTag t = true ↔ Role.ofLabel? t.label = some .returnsTag := by
  simp [Role.ofLabel?_eq_some_iff, Role.labels, isReturnTag]

/-- The access level that a role sets. -/
def Role.access? : Role → Option Access
  | .accessTag a => some a
  | _ => none

theorem accessOfLabel?_eq (s : String) :
    Access.ofLabel? s = (Role.ofLabel? s).bind Role.access? := by
  unfold Role.ofLabel?
  split
  case h_15 =>
    simp only [Access.ofLabel?, Access.label, Option.bind_none, List.find?_eq_none, List.mem_cons,
      List.not_mem_nil, or_false, beq_iff_eq]
    rintro a (rfl | rfl | rfl) h
    · exact absurd h.symm ‹_›
    · exact absurd h.symm ‹_›
    · exact absurd h.symm ‹_›
  all_goals rfl

/-! ## One tag -/

theorem constructorText_eq (t : Tag) :
    constructorText t = if wordsOf t = [] then none else some (" ".intercalate (wordsOf t)) := by
  have hw : ([t.name, t.description].filterMap id).filter (!·.isEmpty) = wordsOf t := by
    unfold wordsOf
    cases t.name <;> cases t.description <;> simp [List.filter_cons]
  unfold constructorText
  rw [hw]
  split
  · next h => rw [if_pos h]
  · next h => rw [if_neg h]

/-- The labels of the tags that name a subject. -/
def primaryLabels : List String :=
  ["class", "constructor", "method", "function", "property"]

namespace Draft

/-- The draft with what one tag brings, field by field. -/
def plus (d : Draft) (t : Tag) : Draft where
  primaryTags := if t.label ∈ primaryLabels then d.primaryTags ++ [t.label] else d.primaryTags
  classSubject := d.classSubject.or (declaredClass? t)
  parents := addNames d.parents (declaredParent? t).toList
  abstract := d.abstract || decide (t.label = "abstract")
  access := d.access.or (Access.ofLabel? t.label)
  method := d.method.or (declaredMethod? t)
  function := d.function.or (declaredFunction? t)
  params := (declaredParam? t).toList.foldl (appendNew Param.name) d.params
  returns := d.returns.or (if isReturnTag t then some t.type else none)
  property := d.property.or ((declaredProperty? t).map Prod.fst)
  propertyType :=
    if d.property.isSome then d.propertyType
    else ((declaredProperty? t).map Prod.snd).getD d.propertyType

theorem addTag_fst (d : Draft) (t : Tag) : (d.addTag t).1 = d.plus t := by
  have hClass := label_eq_iff (s := t.label) (r := .classTag) rfl
  have hAbstract := label_eq_iff (s := t.label) (r := .abstractTag) rfl
  have hConstructor := label_eq_iff (s := t.label) (r := .constructorTag) rfl
  have hMethod := label_eq_iff (s := t.label) (r := .methodTag) rfl
  have hFunction := label_eq_iff (s := t.label) (r := .functionTag) rfl
  have hParam := label_eq_iff (s := t.label) (r := .paramTag) rfl
  have hProperty := label_eq_iff (s := t.label) (r := .propertyTag) rfl
  have hParent : t.label = "extends" ∨ t.label = "inherits" ↔
      Role.ofLabel? t.label = some .parentTag := by
    simp [Role.ofLabel?_eq_some_iff, Role.labels]
  simp only [plus, declaredClass?, declaredParent?, declaredMethod?, declaredFunction?,
    declaredParam?, declaredProperty?, primaryLabels, List.mem_cons, List.not_mem_nil, or_false,
    hClass, hAbstract, hConstructor, hMethod, hFunction, hParam, hProperty, hParent,
    isReturnTag_iff, accessOfLabel?_eq]
  cases hr : Role.ofLabel? t.label with
  | none => simp [addTag, hr, addNames]
  | some r =>
    cases r with
    | classTag =>
      cases hc : d.classSubject <;> cases hn : nameOf t <;>
        simp [addTag, addClass, addSubject, named, primary, addNames, Role.access?, hr, hc, hn]
    | parentTag => cases hn : nameOf t <;> simp [addTag, addParent, addNames, Role.access?, hr, hn]
    | abstractTag => simp [addTag, addNames, Role.access?, hr]
    | accessTag a =>
      cases ha : d.access with
      | none => simp [addTag, setAccess, addNames, Role.access?, hr, ha]
      | some b =>
        cases d
        simp_all [addTag, setAccess, addNames]
    | constructorTag =>
      cases hm : d.method <;>
        simp [addTag, addConstructor, primary, addNames, Role.access?, constructorName,
          constructorText_eq, hr, hm]
    | methodTag =>
      cases hm : d.method <;> cases hn : nameOf t <;>
        simp [addTag, addMethod, addSubject, named, primary, addNames, Role.access?, hr, hm, hn]
    | functionTag =>
      cases hf : d.function <;> cases hn : nameOf t <;>
        simp [addTag, addFunction, addSubject, named, primary, addNames, Role.access?, hr, hf, hn]
    | paramTag =>
      cases hn : nameOf t with
      | none => simp [addTag, addParam, addNames, Role.access?, hr, hn]
      | some n =>
        simp only [addTag, addParam, hr, hn]
        split <;> simp_all [addNames, Role.access?, appendNew]
    | returnsTag =>
      cases hs : d.returns with
      | none => simp [addTag, setReturns, addNames, Role.access?, hr, hs]
      | some b =>
        cases d
        simp_all [addTag, setReturns, addNames, Role.access?]
    | propertyTag =>
      cases hp : d.property <;> cases hn : nameOf t <;>
        simp [addTag, addProperty, addSubject, named, primary, addNames, Role.access?, hr, hp, hn]

/-- The remark about a tag that has to have a name. -/
def nameIssues (t : Tag) : List Issue :=
  if (nameOf t).isSome then [] else [.missingName t.label]

/-- What is remarked about one tag. -/
def tagIssues (d : Draft) (t : Tag) : List Issue :=
  match Role.ofLabel? t.label with
  | none | some .parentTag | some .abstractTag => []
  | some .classTag => if d.classSubject.isSome then [.duplicateTag t.label] else nameIssues t
  | some (.accessTag _) => if d.access.isSome then [.duplicateTag t.label] else []
  | some .constructorTag => if d.method.isSome then [.duplicateTag t.label] else []
  | some .methodTag =>
    if d.method.isSome then [.duplicateTag t.label] else typeIssues t ++ nameIssues t
  | some .functionTag =>
    if d.function.isSome then [.duplicateTag t.label] else typeIssues t ++ nameIssues t
  | some .paramTag =>
    match nameOf t with
    | none => [.unnamedParam]
    | some name => if d.params.any (·.name == name) then [.duplicateParam name] else []
  | some .returnsTag =>
    if d.returns.isSome then [.duplicateTag t.label]
    else (if (nameOf t).isSome then [.ignoredReturnName] else []) ++
      if t.type.isSome then [] else [.missingReturnType]
  | some .propertyTag => if d.property.isSome then [.duplicateTag t.label] else nameIssues t

theorem named_snd (d : Draft) (t : Tag) (f : Subject → Draft) :
    (d.named t f).2 = nameIssues t := by
  unfold named nameIssues
  cases nameOf t <;> rfl

theorem addSubject_snd (get : Draft → Option Subject) (put : Draft → Subject → Draft)
    (more : List Issue) (d : Draft) (t : Tag) :
    (d.addSubject get put more t).2 =
      if (get (d.primary t)).isSome then [.duplicateTag t.label] else more ++ nameIssues t := by
  simp only [addSubject, apply_ite Prod.snd, named_snd]

theorem addTag_snd (d : Draft) (t : Tag) : (d.addTag t).2 = d.tagIssues t := by
  unfold addTag tagIssues
  cases Role.ofLabel? t.label with
  | none => rfl
  | some r =>
    cases r with
    | classTag => exact addSubject_snd _ _ _ d t
    | parentTag => unfold addParent; cases nameOf t <;> rfl
    | abstractTag => rfl
    | accessTag a => exact apply_ite Prod.snd _ _ _
    | constructorTag => exact apply_ite Prod.snd _ _ _
    | methodTag => exact addSubject_snd _ _ _ d t
    | functionTag => exact addSubject_snd _ _ _ d t
    | paramTag =>
      unfold addParam
      cases nameOf t with
      | none => rfl
      | some name => exact apply_ite Prod.snd _ _ _
    | returnsTag => exact apply_ite Prod.snd _ _ _
    | propertyTag => exact addSubject_snd _ _ _ d t

/-! ## All tags of a comment -/

theorem addTags_fst (d : Draft) (ts : List Tag) : (d.addTags ts).1 = ts.foldl plus d := by
  induction ts generalizing d with
  | nil => rfl
  | cons t ts ih => simp only [addTags, List.foldl_cons, ← addTag_fst, ih]

theorem addTags_snd_cons (d : Draft) (t : Tag) (ts : List Tag) :
    (d.addTags (t :: ts)).2 = d.tagIssues t ++ ((d.plus t).addTags ts).2 := by
  rw [← addTag_snd, ← addTag_fst]
  rfl

/-- A remark about the tags of a comment is about one of them. -/
theorem exists_tag_of_mem_addTags {ts : List Tag} {d : Draft} {i : Issue}
    (hi : i ∈ (d.addTags ts).2) : ∃ t ∈ ts, ∃ d : Draft, i ∈ d.tagIssues t := by
  induction ts generalizing d with
  | nil => cases hi
  | cons t ts ih =>
    rw [addTags_snd_cons] at hi
    rcases List.mem_append.1 hi with hi | hi
    · exact ⟨t, List.mem_cons_self, d, hi⟩
    · obtain ⟨t', ht', hissue⟩ := ih hi
      exact ⟨t', List.mem_cons_of_mem t ht', hissue⟩

/-- A field that the first tag of its sort fills. -/
theorem foldl_plus_first {β : Type} (view : Draft → Option β) (read : Tag → Option β)
    (step : ∀ d t, view (d.plus t) = (view d).or (read t)) (ts : List Tag) (d : Draft) :
    view (ts.foldl plus d) = (view d).or (ts.findSome? read) := by
  induction ts generalizing d with
  | nil => simp
  | cons t ts ih =>
    rw [List.foldl_cons, ih, step, Option.or_assoc, List.findSome?_cons]
    cases read t <;> simp

theorem params_foldl_plus (ts : List Tag) (d : Draft) :
    (ts.foldl plus d).params =
      (ts.filterMap declaredParam?).foldl (appendNew Param.name) d.params := by
  induction ts generalizing d with
  | nil => rfl
  | cons t ts ih =>
    rw [List.foldl_cons, ih, List.filterMap_cons]
    cases h : declaredParam? t <;> simp [plus, h]

/-- The property of a draft together with its type. -/
def typedProperty (d : Draft) : Option (Subject × Option TypeExpr) :=
  d.property.map fun s => (s, d.propertyType)

theorem typedProperty_plus (d : Draft) (t : Tag) :
    (d.plus t).typedProperty = d.typedProperty.or (declaredProperty? t) := by
  unfold typedProperty
  cases hp : d.property <;> cases ht : declaredProperty? t <;> simp [plus, hp, ht]

end Draft

/-! ## The draft of a comment -/

section

variable (c : Comment)

theorem classSubject_ofComment :
    (Draft.ofComment c).1.classSubject = c.tags.findSome? declaredClass? := by
  rw [Draft.ofComment, Draft.addTags_fst,
    Draft.foldl_plus_first Draft.classSubject declaredClass? (fun _ _ => rfl)]
  rfl

theorem access_ofComment : (Draft.ofComment c).1.access.getD .everyone = accessOf c := by
  rw [Draft.ofComment, Draft.addTags_fst,
    Draft.foldl_plus_first Draft.access (fun t => Access.ofLabel? t.label) (fun _ _ => rfl)]
  rfl

theorem params_ofComment : (Draft.ofComment c).1.params = paramsOf c := by
  rw [Draft.ofComment, Draft.addTags_fst, Draft.params_foldl_plus, foldl_appendNew_nil]
  rfl

theorem returns_ofComment : (Draft.ofComment c).1.returns.join = returnsOf c := by
  rw [Draft.ofComment, Draft.addTags_fst,
    Draft.foldl_plus_first Draft.returns (fun t => if isReturnTag t then some t.type else none)
      (fun _ _ => rfl)]
  unfold returnsOf
  induction c.tags with
  | nil => rfl
  | cons t ts ih =>
    rw [List.findSome?_cons, List.find?_cons]
    cases isReturnTag t with
    | false => simpa using ih
    | true => simp

theorem describe_eq_textOf (own : Option String) : describe own c.text = textOf c own := by
  unfold describe textOf
  cases own with
  | none => simp
  | some s => by_cases hs : s = "" <;> simp [Option.filter, hs]

/-- The method of a comment is the one that its tags describe. -/
theorem method?_ofComment : (Draft.ofComment c).1.method? c.text = methodOf? c := by
  have hm : (Draft.ofComment c).1.method = c.tags.findSome? declaredMethod? := by
    rw [Draft.ofComment, Draft.addTags_fst,
      Draft.foldl_plus_first Draft.method declaredMethod? (fun _ _ => rfl)]
    rfl
  rw [Draft.method?, hm, methodOf?]
  simp only [access_ofComment, describe_eq_textOf, params_ofComment, returns_ofComment]

/-- The property of a comment is the one that its tags describe. -/
theorem property?_ofComment : (Draft.ofComment c).1.property? c.text = propertyOf? c := by
  have hp : (Draft.ofComment c).1.typedProperty = c.tags.findSome? declaredProperty? := by
    rw [Draft.ofComment, Draft.addTags_fst,
      Draft.foldl_plus_first Draft.typedProperty declaredProperty? Draft.typedProperty_plus]
    rfl
  rw [propertyOf?, ← hp, Draft.property?, Draft.typedProperty, Option.map_map]
  simp only [access_ofComment, describe_eq_textOf]
  rfl

end

end ApiDoc.Analysis
