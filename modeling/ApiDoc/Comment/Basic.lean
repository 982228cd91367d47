import ApiDoc.TypeExpr.Basic

/-!
# Doc comments

A doc comment is a row of parts: free text, and tags of the form `@label {type} name - text`.
-/

namespace ApiDoc

/-- A tag with what follows it up to the next tag. -/
structure Tag where
  /-- The text of the whole tag. -/
  source : String
  /-- The word after the `@`. -/
  label : String
  /-- The type between braces. -/
  type : Option TypeExpr := none
  /-- The word after the type. -/
  name : Option String := none
  /-- The rest of the text. -/
  description : Option String := none
deriving Repr, DecidableEq, Inhabited

/-- A part of a comment. -/
inductive Part where
  | text (s : String)
  | tag (t : Tag)
deriving Repr, DecidableEq, Inhabited

def Part.tag? : Part → Option Tag
  | text _ => none
  | tag t => some t

def Part.text? : Part → Option String
  | text s => some s
  | tag _ => none

/-- A comment with its delimiters and its parts in order. -/
structure Comment where
  /-- The comment as it stands in the file. -/
  source : String
  content : List Part := []
deriving Repr, DecidableEq, Inhabited

namespace Comment

def tags (c : Comment) : List Tag :=
  c.content.filterMap Part.tag?

def texts (c : Comment) : List String :=
  c.content.filterMap Part.text?

/-- The free text of a comment with a blank line between each two pieces, if there is any. -/
def text (c : Comment) : Option String :=
  match c.texts with
  | [] => none
  | ts => some ("\n\n".intercalate ts)

end Comment

/-- The comments of one file. -/
structure FileComments where
  file : String
  /-- The comments, in the order of the file. -/
  comments : List Comment := []
deriving Repr, DecidableEq, Inhabited

end ApiDoc
