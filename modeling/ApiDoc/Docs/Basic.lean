import ApiDoc.Table
import ApiDoc.TypeExpr.Basic

/-!
# The documentation model

What the comments of a source tree say about its classes, with their members, and about its
functions.
-/

namespace ApiDoc

inductive Access where
  | everyone
  | heirs
  | own
deriving Repr, DecidableEq, Inhabited

namespace Access

def label : Access → String
  | .everyone => "public"
  | .heirs => "protected"
  | .own => "private"

def ofLabel? (s : String) : Option Access :=
  [Access.everyone, .heirs, .own].find? fun a => a.label == s

end Access

structure Param where
  name : String
  description : Option String := none
  type : Option TypeExpr := none
deriving Repr, DecidableEq, Inhabited

structure Property where
  name : String
  access : Access := .everyone
  description : Option String := none
  type : Option TypeExpr := none
deriving Repr, DecidableEq, Inhabited

structure Method where
  name : String
  access : Access := .everyone
  description : Option String := none
  params : List Param := []
  returns : Option TypeExpr := none
deriving Repr, DecidableEq, Inhabited

/-- A function outside of every class. -/
structure FunctionDoc where
  file : String
  name : String
  description : Option String := none
  params : List Param := []
  returns : Option TypeExpr := none
deriving Repr, DecidableEq, Inhabited

/-- A class, with what all comments about it say. -/
structure ClassDoc where
  /-- The file of the first comment about it. -/
  file : String
  name : String
  description : Option String := none
  parents : List String := []
  /-- Did the latest comment about it call it abstract? -/
  abstract : Bool := false
  properties : Table Property := .empty
  methods : Table Method := .empty
deriving Repr, DecidableEq, Inhabited

/-- All that is known about a source tree. -/
structure Docs where
  /-- The folder whose files were read. -/
  sourceFolder : String
  classes : Table ClassDoc := .empty
  functions : Table FunctionDoc := .empty
deriving Repr, DecidableEq, Inhabited

/-- The names with those of a second list that are not there yet, each one once. -/
def addNames (names more : List String) : List String :=
  more.foldl (fun acc n => if acc.contains n then acc else acc ++ [n]) names

/-- A class with a later declaration of it folded in: new parents and new members come behind the
old ones, members that are there already stay, and the later word on abstractness counts. -/
def ClassDoc.merge (a b : ClassDoc) : ClassDoc :=
  { a with
    parents := addNames a.parents b.parents
    abstract := b.abstract
    properties := a.properties.union b.properties
    methods := a.methods.union b.methods }

end ApiDoc
