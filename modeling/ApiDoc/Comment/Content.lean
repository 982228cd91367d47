import ApiDoc.Comment.Basic
import ApiDoc.Text.Lines

/-!
# The content of a comment

The text of a comment is divided at its marker lines, those that start with `@` and a letter after
any blanks. What comes before the first of them is free text; each marker line starts a tag that
goes on up to the next one. A doubled `@` stands for a single one and marks nothing.
-/

namespace ApiDoc.Comment

open Text

def unescapeChars : List Char → List Char
  | '@' :: '@' :: cs => '@' :: unescapeChars cs
  | c :: cs => c :: unescapeChars cs
  | [] => []

def unescape (s : String) : String :=
  String.ofList (unescapeChars s.toList)

/-! ## Marker lines -/

/-- The label of a text that starts with a marker, and what follows the label. -/
def readMarker? (cs : List Char) : Option (List Char × List Char) :=
  match cs.dropWhile isInlineBlank with
  | '@' :: rest =>
    match rest.takeWhile isAsciiLetter with
    | [] => none
    | label => some (label, rest.dropWhile isAsciiLetter)
  | _ => none

def isMarkerLine (line : List Char) : Bool :=
  (readMarker? line).isSome

/-- The lines before the first marker line, and for each marker line the lines that start with
it. -/
def divide : List (List Char) → List (List Char) × List (List (List Char))
  | [] => ([], [])
  | line :: rest =>
    let (lead, sections) := divide rest
    if isMarkerLine line then ([], (line :: lead) :: sections) else (line :: lead, sections)

/-! ## One tag -/

/-- The characters up to the brace that closes the one already open, and those after it. `depth`
further braces are open. -/
def readToBrace? : (depth : Nat) → List Char → Option (List Char × List Char)
  | _, [] => none
  | depth, c :: cs =>
    if c = '{' then (readToBrace? (depth + 1) cs).map fun r => (c :: r.1, r.2)
    else if c = '}' then
      match depth with
      | 0 => some ([], cs)
      | d + 1 => (readToBrace? d cs).map fun r => (c :: r.1, r.2)
    else (readToBrace? depth cs).map fun r => (c :: r.1, r.2)

/-- The text between the brace at the start and the one that closes it, and what follows. -/
def readBraced? : List Char → Option (List Char × List Char)
  | '{' :: cs => readToBrace? 0 cs
  | _ => none

/-- The word at the start of a text and what follows it. A word with a hyphen in front is no
name. -/
def readName? (cs : List Char) : Option (List Char × List Char) :=
  match cs.takeWhile (!isBlank ·) with
  | [] => none
  | '-' :: _ => none
  | word => some (word, cs.dropWhile (!isBlank ·))

/-- The type of a tag, unless the braces hold blanks only. -/
def typeOfBraces (inner : List Char) : Option TypeExpr :=
  if isBlankText inner then none else some (TypeExpr.parse (String.ofList (strip inner)))

/-- A description without blanks at its ends and without a hyphen that sets it off. -/
def descriptionOf (cs : List Char) : List Char :=
  match strip cs with
  | '-' :: rest => strip rest
  | text => text

/-- A text that counts as absent when it is empty. -/
def nonempty? (cs : List Char) : Option String :=
  match cs with
  | [] => none
  | cs => some (String.ofList cs)

/-- The tag with the given label: a type in braces, a name on the same line, and the rest as the
description. -/
def readTag (source label body : List Char) : Tag :=
  let body := body.dropWhile isInlineBlank
  let (type, body) := match readBraced? body with
    | some (inner, rest) => (typeOfBraces inner, rest)
    | none => (none, body)
  let body := body.dropWhile isInlineBlank
  let (name, body) := match readName? body with
    | some (word, rest) => (nonempty? (unescapeChars word), rest)
    | none => (none, body)
  { source := String.ofList (strip source)
    label := String.ofList label
    type
    name
    description := nonempty? (unescapeChars (descriptionOf body)) }

/-- The tag of a section, whose first line is a marker line. -/
def tagOfSection (ls : List (List Char)) : Option Part :=
  let source := unlines ls
  (readMarker? source).map fun (label, body) => .tag (readTag source label body)

/-! ## All parts -/

/-- The free text before the tags, unless it is blank. -/
def leadingText (lead : List (List Char)) : List Part :=
  match nonempty? (unescapeChars (strip (unlines lead))) with
  | none => []
  | some s => [.text s]

def partsOf (cs : List Char) : List Part :=
  let (lead, sections) := divide (lines cs)
  leadingText lead ++ sections.filterMap tagOfSection

/-- The parts of the content of a comment, delimiters and decoration already removed. -/
def parseContent (content : String) : List Part :=
  partsOf content.toList

end ApiDoc.Comment
