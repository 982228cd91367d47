import ApiDoc.Analysis.Draft

/-!
# Analysis

The comments of all files are taken in order and build the documentation model. A member belongs
to the class that was declared last in the same file; a member before every class of its file is
remarked and dropped, as is one whose name the class has already. A second declaration of a class
is folded into the first, while a second declaration of a function takes its place.
-/

namespace ApiDoc.Analysis

structure State where
  classes : Table ClassDoc := .empty
  functions : Table FunctionDoc := .empty
  warnings : List Warning := []
deriving Repr, DecidableEq, Inhabited

/-- How many subjects a comment may have before that is remarked; `none` allows any number. -/
abbrev Limit := Option Int

/-- The usual limit. -/
def defaultLimit : Limit := some 2

def exceeds (limit : Limit) (labels : List String) : Bool :=
  match limit with
  | none => false
  | some n => n < labels.length

/-- The description of a subject: its own text, or else the free text of the comment. -/
def describe (own text : Option String) : Option String :=
  (own.filter (!·.isEmpty)).or text

/-- Put in a class, or fold it into the one of the same name. -/
def trackClass (classes : Table ClassDoc) (c : ClassDoc) : Table ClassDoc :=
  match classes.get? c.name with
  | none => classes.insert c.name c
  | some first => classes.insert c.name (first.merge c)

namespace Draft

def classDoc? (d : Draft) (file : String) (text : Option String) : Option ClassDoc :=
  d.classSubject.map fun s =>
    { file, name := s.name, description := describe s.description text, parents := d.parents,
      abstract := d.abstract }

def method? (d : Draft) (text : Option String) : Option Method :=
  d.method.map fun s =>
    { name := s.name, access := d.access.getD .everyone, description := describe s.description text,
      params := d.params, returns := d.returns.join }

def property? (d : Draft) (text : Option String) : Option Property :=
  d.property.map fun s =>
    { name := s.name, access := d.access.getD .everyone, description := describe s.description text,
      type := d.propertyType }

def function? (d : Draft) (file : String) (text : Option String) : Option FunctionDoc :=
  d.function.map fun s =>
    { file, name := s.name, description := describe s.description text, params := d.params,
      returns := d.returns.join }

/-- The class that is current after the draft's comment. -/
def activeClass (d : Draft) (active : Option String) : Option String :=
  (d.classSubject.map Subject.name).or active

end Draft

/-- A kind of members: their names, and the table in which a class keeps them. -/
structure MemberSlot (α : Type) where
  kind : MemberKind
  name : α → String
  table : ClassDoc → Table α
  withTable : ClassDoc → Table α → ClassDoc
  withTable_table : ∀ k, withTable k (table k) = k
  name_withTable : ∀ k t, (withTable k t).name = k.name

def methodSlot : MemberSlot Method where
  kind := .method
  name := Method.name
  table k := k.methods
  withTable k ms := { k with methods := ms }
  withTable_table _ := rfl
  name_withTable _ _ := rfl

def propertySlot : MemberSlot Property where
  kind := .property
  name := Property.name
  table k := k.properties
  withTable k ps := { k with properties := ps }
  withTable_table _ := rfl
  name_withTable _ _ := rfl

namespace MemberSlot

variable {α : Type} (slot : MemberSlot α)

def has (k : ClassDoc) (name : String) : Bool :=
  (slot.table k).contains name

def put (k : ClassDoc) (x : α) : ClassDoc :=
  slot.withTable k ((slot.table k).insert (slot.name x) x)

/-- Put a member into the class that is current. -/
def add (classes : Table ClassDoc) (active : Option String) (x : α) :
    Table ClassDoc × List Issue :=
  match active.bind classes.get? with
  | none => (classes, [.orphanMember slot.kind (slot.name x)])
  | some k =>
    if slot.has k (slot.name x) then (classes, [.memberExists slot.kind k.name (slot.name x)])
    else (classes.insert k.name (slot.put k x), [])

end MemberSlot

/-- The classes with the member that a draft declares, if it declares one. -/
def addMember {α : Type} (slot : MemberSlot α) (classes : Table ClassDoc)
    (active : Option String) : Option α → Table ClassDoc × List Issue
  | none => (classes, [])
  | some x => slot.add classes active x

namespace State

def warn (s : State) (file : String) (c : Comment) (issues : List Issue) : State :=
  { s with warnings := s.warnings ++ issues.map fun i => ⟨i, c.source, file⟩ }

/-- Take what a draft declares into the model: first its class, then its members, then its
function. -/
def commit (s : State) (active : Option String) (file : String) (c : Comment) (d : Draft) :
    State × Option String :=
  let text := c.text
  let active := d.activeClass active
  let classes := match d.classDoc? file text with
    | none => s.classes
    | some doc => trackClass s.classes doc
  let (classes, methodIssues) := addMember methodSlot classes active (d.method? text)
  let (classes, propertyIssues) := addMember propertySlot classes active (d.property? text)
  let functions := match d.function? file text with
    | none => s.functions
    | some f => s.functions.insert f.name f
  ({ s with classes, functions }.warn file c (methodIssues ++ propertyIssues), active)

/-- Take one comment into the model. `active` is the class that is current. -/
def addComment (limit : Limit) (file : String) (s : State) (active : Option String)
    (c : Comment) : State × Option String :=
  let (d, issues) := Draft.ofComment c
  let many := if exceeds limit d.primaryTags then [.manyPrimaryTags d.primaryTags] else []
  (s.warn file c (issues ++ many)).commit active file c d

def addComments (limit : Limit) (file : String) (s : State) (active : Option String) :
    List Comment → State
  | [] => s
  | c :: cs =>
    let (s, active) := s.addComment limit file active c
    s.addComments limit file active cs

/-- Take a file into the model; no class is current at its start. -/
def addFile (limit : Limit) (s : State) (f : FileComments) : State :=
  s.addComments limit f.file none f.comments

/-- Take files into the model, in order. -/
def addFiles (limit : Limit) (s : State) (files : List FileComments) : State :=
  files.foldl (addFile limit) s

def docs (s : State) (sourceFolder : String) : Docs :=
  { sourceFolder, classes := s.classes, functions := s.functions }

end State

end ApiDoc.Analysis
