import ApiDoc.Docs.Basic

/-!
# Pages in Markdown

The page of a class, the list of links to the pages, and the index page around that list. Every
block of a page is set off by an empty line before it, and every line ends with a line feed.
-/

namespace ApiDoc.Page

/-- Nothing for an absent or empty text. -/
def whenText (s : Option String) (f : String → String) : String :=
  match s with
  | none => ""
  | some s => if s.isEmpty then "" else f s

/-- The text of a type, or a word in its place. -/
def typeText (missing : String) : Option TypeExpr → String
  | none => missing
  | some t => t.source

def descriptionBlock (s : Option String) : String :=
  whenText s fun s => "\n" ++ s ++ "\n"

def heading (c : ClassDoc) (parents : List String) : String :=
  "# `" ++ (if c.abstract then "abstract " else "") ++ "class " ++ c.name ++ "`" ++
    (if parents.isEmpty then "" else " extends " ++ ", ".intercalate parents) ++ "\n"

/-- The note that members are also inherited. -/
def inheritedNote (what : String) (parents : List String) : String :=
  if parents.isEmpty then ""
  else "\nInherits " ++ what ++ " from " ++ ", ".intercalate parents ++ ".\n"

def propertyBlock (missing : String) (p : Property) : String :=
  "\n### `." ++ p.name ++ ": " ++ typeText missing p.type ++ "`\n\n*" ++ p.access.label ++ "*\n" ++
    descriptionBlock p.description

def paramLine (p : Param) : String :=
  "- `" ++ p.name ++ "`" ++
    (match p.type with
      | none => ""
      | some t => " `" ++ t.source ++ "`") ++
    (whenText p.description fun s => " - " ++ s) ++ "\n"

def paramsBlock (ps : List Param) : String :=
  if ps.isEmpty then "" else "\n**Parameters:**\n\n" ++ String.join (ps.map paramLine)

def methodBlock (missing : String) (m : Method) : String :=
  "\n### `." ++ m.name ++ "(" ++ ", ".intercalate (m.params.map Param.name) ++ "): " ++
    typeText missing m.returns ++ "`\n\n*" ++ m.access.label ++ "*\n" ++
    descriptionBlock m.description ++ paramsBlock m.params

/-- A group of members under a heading, unless there are none. -/
def memberGroup (title what : String) (parents blocks : List String) : String :=
  if blocks.isEmpty then ""
  else "\n## " ++ title ++ "\n" ++ inheritedNote what parents ++ String.join blocks

/-- The page of a class. `parents` are the references to its parents, `missing` stands where a type
is absent. -/
def classPage (c : ClassDoc) (parents : List String) (missing : String) : String :=
  heading c parents ++ descriptionBlock c.description ++
    memberGroup "Properties" "properties" parents
      (c.properties.values.map (propertyBlock missing)) ++
    memberGroup "Methods" "methods" parents (c.methods.values.map (methodBlock missing))

structure Link where
  name : String
  target : String
deriving Repr, DecidableEq, Inhabited

def linkLine (pad : String) (l : Link) : String :=
  pad ++ "  - [" ++ l.name ++ "](" ++ l.target ++ ")\n"

def sectionLines (pad : String) (s : String × List Link) : String :=
  pad ++ "- " ++ s.1 ++ "/\n" ++ String.join (s.2.map (linkLine pad))

/-- The list of links, section by section; `pad` stands before every line. -/
def navigation (sections : Table (List Link)) (pad : String) : String :=
  String.join (sections.entries.map (sectionLines pad))

/-- The mark of a heading. -/
def headingMark : String := "# "

/-- The number of characters before the title on the index page. -/
def titlePlace : Nat := headingMark.length

def indexPage (title nav : String) : String :=
  headingMark ++ title ++ "\n\n" ++ nav

end ApiDoc.Page
