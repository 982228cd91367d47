import ApiDoc.Analysis.Issue
import ApiDoc.Comment.Basic
import ApiDoc.Docs.Basic

/-!
# What one comment declares

The tags of a comment are taken in order and fill a draft: a class, a method, a function and a
property at most, with the parents, parameters and return type that go with them. The first tag of
each sort counts; what is left over or incomplete is remarked.
-/

namespace ApiDoc.Analysis

inductive Role where
  | classTag
  | parentTag
  | abstractTag
  | accessTag (a : Access)
  | constructorTag
  | methodTag
  | functionTag
  | paramTag
  | returnsTag
  | propertyTag
deriving Repr, DecidableEq, Inhabited

/-- The role of a tag; most tags have none. -/
def Role.ofLabel? : String → Option Role
  | "class" => some .classTag
  | "extends" => some .parentTag
  | "inherits" => some .parentTag
  | "abstract" => some .abstractTag
  | "public" => some (.accessTag .everyone)
  | "protected" => some (.accessTag .heirs)
  | "private" => some (.accessTag .own)
  | "constructor" => some .constructorTag
  | "method" => some .methodTag
  | "function" => some .functionTag
  | "param" => some .paramTag
  | "return" => some .returnsTag
  | "returns" => some .returnsTag
  | "property" => some .propertyTag
  | _ => none

structure Subject where
  name : String
  description : Option String
deriving Repr, DecidableEq, Inhabited

/-- What the tags of a comment have declared so far. -/
structure Draft where
  /-- The tags that name a subject, all of them. -/
  primaryTags : List String := []
  classSubject : Option Subject := none
  parents : List String := []
  abstract : Bool := false
  access : Option Access := none
  method : Option Subject := none
  function : Option Subject := none
  params : List Param := []
  /-- The return type, once a return tag was there. -/
  returns : Option (Option TypeExpr) := none
  property : Option Subject := none
  propertyType : Option TypeExpr := none
deriving Repr, DecidableEq, Inhabited

/-- The name of a tag, if it is not empty. -/
def nameOf (t : Tag) : Option String :=
  t.name.filter (!·.isEmpty)

def constructorName : String := "constructor"

/-- The words of a constructor tag: it has no name of its own, so all of them describe it. -/
def constructorText (t : Tag) : Option String :=
  match ([t.name, t.description].filterMap id).filter (!·.isEmpty) with
  | [] => none
  | words => some (" ".intercalate words)

namespace Draft

/-- The draft with one more tag that names a subject. -/
def primary (d : Draft) (t : Tag) : Draft :=
  { d with primaryTags := d.primaryTags ++ [t.label] }

/-- The name a tag has to have, or the remark that it is missing. -/
def named (d : Draft) (t : Tag) (f : Subject → Draft) : Draft × List Issue :=
  match nameOf t with
  | some name => (f ⟨name, t.description⟩, [])
  | none => (d, [.missingName t.label])

/-- Declare a subject of the sort that `get` and `put` stand for, unless the draft has one already.
`more` is what else is remarked about the tag then. -/
def addSubject (get : Draft → Option Subject) (put : Draft → Subject → Draft) (more : List Issue)
    (d : Draft) (t : Tag) : Draft × List Issue :=
  let d := d.primary t
  if (get d).isSome then (d, [.duplicateTag t.label])
  else
    let (d, issues) := d.named t (put d)
    (d, more ++ issues)

/-- The remark about a type where none belongs. -/
def typeIssues (t : Tag) : List Issue :=
  if t.type.isSome then [.ignoredType t.label] else []

def addClass (d : Draft) (t : Tag) : Draft × List Issue :=
  d.addSubject classSubject (fun d s => { d with classSubject := some s }) [] t

def addMethod (d : Draft) (t : Tag) : Draft × List Issue :=
  d.addSubject method (fun d s => { d with method := some s }) (typeIssues t) t

def addFunction (d : Draft) (t : Tag) : Draft × List Issue :=
  d.addSubject function (fun d s => { d with function := some s }) (typeIssues t) t

/-- Declare a property; its type is its own. -/
def addProperty (d : Draft) (t : Tag) : Draft × List Issue :=
  d.addSubject property (fun d s => { d with property := some s, propertyType := t.type }) [] t

/-- Name a parent; one that is there already, or a tag without a name, changes nothing. -/
def addParent (d : Draft) (t : Tag) : Draft × List Issue :=
  match nameOf t with
  | some name => ({ d with parents := addNames d.parents [name] }, [])
  | none => (d, [])

def setAccess (d : Draft) (t : Tag) (a : Access) : Draft × List Issue :=
  if d.access.isSome then (d, [.duplicateTag t.label]) else ({ d with access := some a }, [])

def addConstructor (d : Draft) (t : Tag) : Draft × List Issue :=
  let d := d.primary t
  if d.method.isSome then (d, [.duplicateTag t.label])
  else ({ d with method := some ⟨constructorName, constructorText t⟩ }, [])

def addParam (d : Draft) (t : Tag) : Draft × List Issue :=
  match nameOf t with
  | none => (d, [.unnamedParam])
  | some name =>
    if d.params.any (·.name == name) then (d, [.duplicateParam name])
    else ({ d with params := d.params ++ [⟨name, t.description, t.type⟩] }, [])

def setReturns (d : Draft) (t : Tag) : Draft × List Issue :=
  if d.returns.isSome then (d, [.duplicateTag t.label])
  else
    ({ d with returns := some t.type },
      (if (nameOf t).isSome then [.ignoredReturnName] else []) ++
        (if t.type.isSome then [] else [.missingReturnType]))

def addTag (d : Draft) (t : Tag) : Draft × List Issue :=
  match Role.ofLabel? t.label with
  | none => (d, [])
  | some .classTag => d.addClass t
  | some .parentTag => d.addParent t
  | some .abstractTag => ({ d with abstract := true }, [])
  | some (.accessTag a) => d.setAccess t a
  | some .constructorTag => d.addConstructor t
  | some .methodTag => d.addMethod t
  | some .functionTag => d.addFunction t
  | some .paramTag => d.addParam t
  | some .returnsTag => d.setReturns t
  | some .propertyTag => d.addProperty t

/-- Take tags into the draft one after the other, and collect the remarks. -/
def addTags (d : Draft) : List Tag → Draft × List Issue
  | [] => (d, [])
  | t :: ts =>
    let (d, issues) := d.addTag t
    let (d, more) := d.addTags ts
    (d, issues ++ more)

/-- The draft of a comment and the remarks about its tags. -/
def ofComment (c : Comment) : Draft × List Issue :=
  addTags {} c.tags

end Draft

end ApiDoc.Analysis
