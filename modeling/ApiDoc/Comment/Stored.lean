import ApiDoc.Comment.Basic
import ApiDoc.TypeExpr.Stored

/-!
# Comments as stored data

The comments of a file as a map, and back. Free text is stored as it is and a tag as a map, with
null for what it lacks. As with type expressions, reading takes any data where texts are meant, and
a second step asks for texts.
-/

namespace ApiDoc

open Data (ReadError)

/-! ## Stored forms -/

/-- A tag as it is stored, whatever stands for its texts. -/
structure StoredTag where
  source : Data
  label : Data
  type : Option TypeExpr.Stored := none
  name : Data := .null
  description : Data := .null
deriving Repr, Inhabited

inductive StoredPart where
  | tag (t : StoredTag)
  /-- Anything but a map, which would be a tag. -/
  | plain (d : Data) (h : d.isMap = false)
deriving Repr

structure StoredComment where
  source : Data
  content : List StoredPart := []
deriving Repr, Inhabited

structure StoredFile where
  file : Data
  comments : List StoredComment := []
deriving Repr, Inhabited

def TypeExpr.Stored.toData? : Option TypeExpr.Stored → Data
  | none => .null
  | some t => t.toData

/-- The type under a key, if there is one: null and an empty map stand for none. -/
def TypeExpr.Stored.ofField? (d : Data) (key : String) :
    Except ReadError (Option TypeExpr.Stored) :=
  match d.recordField? key with
  | .error e => .error e
  | .ok none => .ok none
  | .ok (some r) => (TypeExpr.Stored.ofData r).map some

namespace StoredTag

def toData (t : StoredTag) : Data :=
  Data.record [("source", t.source), ("tag", t.label), ("type", TypeExpr.Stored.toData? t.type),
    ("name", t.name), ("description", t.description)]

def ofData (d : Data) : Except ReadError StoredTag := do
  let source ← d.requiredField "source"
  let label ← d.requiredField "tag"
  let type ← TypeExpr.Stored.ofField? d "type"
  return { source, label, type, name := d.fieldOrNull "name",
           description := d.fieldOrNull "description" }

end StoredTag

namespace StoredPart

def toData : StoredPart → Data
  | tag t => t.toData
  | plain d _ => d

def ofData (d : Data) : Except ReadError StoredPart :=
  if h : d.isMap = false then .ok (plain d h) else (StoredTag.ofData d).map tag

def tag? : StoredPart → Option StoredTag
  | tag t => some t
  | plain _ _ => none

def text? : StoredPart → Option String
  | plain (.text s) _ => some s
  | _ => none

end StoredPart

namespace StoredComment

def toData (c : StoredComment) : Data :=
  Data.record [("source", c.source), ("content", .list (c.content.map StoredPart.toData))]

def ofData (d : Data) : Except ReadError StoredComment := do
  let source ← d.requiredField "source"
  let content ← (← d.itemsField "content").mapM StoredPart.ofData
  return { source, content }

def tags (c : StoredComment) : List StoredTag :=
  c.content.filterMap StoredPart.tag?

/-- The free text of a comment with a blank line between each two pieces, if there is any. -/
def text (c : StoredComment) : Option String :=
  match c.content.filterMap StoredPart.text? with
  | [] => none
  | ts => some ("\n\n".intercalate ts)

end StoredComment

namespace StoredFile

def toData (f : StoredFile) : Data :=
  Data.record [("file", f.file), ("comments", .list (f.comments.map StoredComment.toData))]

def ofData (d : Data) : Except ReadError StoredFile := do
  let file ← d.requiredField "file"
  let comments ← (← d.recordsField "comments").mapM StoredComment.ofData
  return { file, comments }

end StoredFile

/-! ## From and to comments -/

def TypeExpr.toData? (t : Option TypeExpr) : Data :=
  TypeExpr.Stored.toData? (t.map TypeExpr.stored)

def TypeExpr.Stored.typeExpr? : Option TypeExpr.Stored → Except ReadError (Option TypeExpr)
  | none => .ok none
  | some t => t.typeExpr.map some

def TypeExpr.ofField? (d : Data) (key : String) : Except ReadError (Option TypeExpr) := do
  TypeExpr.Stored.typeExpr? (← TypeExpr.Stored.ofField? d key)

def Tag.stored (t : Tag) : StoredTag :=
  { source := .text t.source, label := .text t.label, type := t.type.map TypeExpr.stored,
    name := .ofText? t.name, description := .ofText? t.description }

def StoredTag.toTag (t : StoredTag) : Except ReadError Tag := do
  let source ← t.source.asText "source"
  let label ← t.label.asText "tag"
  let type ← TypeExpr.Stored.typeExpr? t.type
  let name ← t.name.asText? "name"
  let description ← t.description.asText? "description"
  return { source, label, type, name, description }

def Part.stored : Part → StoredPart
  | text s => .plain (.text s) rfl
  | tag t => .tag t.stored

def StoredPart.toPart : StoredPart → Except ReadError Part
  | tag t => t.toTag.map .tag
  | plain d _ => (d.asText "content").map .text

def Comment.stored (c : Comment) : StoredComment :=
  { source := .text c.source, content := c.content.map Part.stored }

def StoredComment.toComment (c : StoredComment) : Except ReadError Comment := do
  let source ← c.source.asText "source"
  let content ← c.content.mapM StoredPart.toPart
  return { source, content }

def FileComments.stored (f : FileComments) : StoredFile :=
  { file := .text f.file, comments := f.comments.map Comment.stored }

def StoredFile.toFileComments (f : StoredFile) : Except ReadError FileComments := do
  let file ← f.file.asText "file"
  let comments ← f.comments.mapM StoredComment.toComment
  return { file, comments }

def Tag.toData (t : Tag) : Data :=
  t.stored.toData

def Tag.ofData (d : Data) : Except ReadError Tag := do
  (← StoredTag.ofData d).toTag

def Part.toData (p : Part) : Data :=
  p.stored.toData

def Comment.toData (c : Comment) : Data :=
  c.stored.toData

def Comment.ofData (d : Data) : Except ReadError Comment := do
  (← StoredComment.ofData d).toComment

def FileComments.toData (f : FileComments) : Data :=
  f.stored.toData

def FileComments.ofData (d : Data) : Except ReadError FileComments := do
  (← StoredFile.ofData d).toFileComments

end ApiDoc
