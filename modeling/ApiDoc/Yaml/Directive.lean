import ApiDoc.Yaml.Cursor
import ApiDoc.Yaml.Token

/-!
# Directives

A line before a document that starts with a percent sign and a name. It tells the version of the
format as two numbers with a point between them, or declares a short form for tags; lines with other
names may say anything. A comment may follow the first two.
-/

namespace ApiDoc.Yaml

/-- A character of the name of a directive, an anchor or a tag handle. -/
def isNameChar (c : Char) : Bool :=
  c.isAlphanum || c == '-' || c == '_'

/-- A blank, or the end of a line or of the text. -/
def isBlankOrEnd (c : Char) : Bool :=
  c == ' ' || isBreakOrEnd c

def readVersionNumber (c : Cursor) : Except Fault (Nat × Cursor) :=
  let (digits, c) := c.takeWhile fun ch => '0' ≤ ch && ch ≤ '9'
  if digits.isEmpty then .error .badDirective
  else if maxDigits < digits.length then .error (.tooManyDigits digits.length)
  else .ok (digits.foldl (fun n ch => n * 10 + (ch.toNat - '0'.toNat)) 0, c)

def readVersion (c : Cursor) : Except Fault (Directive × Cursor) :=
  match readVersionNumber (c.skipWhile (· == ' ')) with
  | .error e => .error e
  | .ok (major, c) =>
    if c.peek != '.' then .error .badDirective
    else
      match readVersionNumber c.next with
      | .error e => .error e
      | .ok (minor, c) =>
        if isBlankOrEnd c.peek then .ok (.version major minor, c) else .error .badDirective

/-- The handle of a short form: an exclamation mark, or a name between two of them. -/
def readHandle (c : Cursor) : Except Fault (String × Cursor) :=
  let (name, after) := c.next.takeWhile isNameChar
  if c.peek != '!' then .error .badDirective
  else if name.isEmpty && after.peek == ' ' then .ok ("!", after)
  else if after.peek == '!' && after.peekAt 1 == ' ' then
    .ok (String.ofList ('!' :: name ++ ['!']), after.next)
  else .error .badDirective

/-- The other characters that the address behind a handle may hold. -/
def addressMarks : List Char :=
  "-;/?:@&=+$,_.!~*'()[]%".toList

/-- A short form for tags: a handle and what it stands for. -/
def readTagForm (c : Cursor) : Except Fault (Directive × Cursor) :=
  match readHandle (c.skipWhile (· == ' ')) with
  | .error e => .error e
  | .ok (handle, c) =>
    let (address, c) := (c.skipWhile (· == ' ')).takeWhile fun ch =>
      ch.isAlphanum || addressMarks.contains ch
    if address.isEmpty || !isBlankOrEnd c.peek then .error .badDirective
    else .ok (.tag handle, c)

/-- The rest of the line of a directive: blanks and a comment, and the line break. -/
def endOfDirective (c : Cursor) : Except Fault Cursor :=
  let c := c.skipWhile (· == ' ')
  let c := if c.peek == '#' then c.skipWhile (!isBreakOrEnd ·) else c
  if !isBreakOrEnd c.peek then .error .badDirective
  else
    match c.readBreak? with
    | some (_, c) => .ok c
    | none => .ok c

/-- The directive behind a percent sign, and the place after its line. -/
def readDirective (c : Cursor) : Except Fault (Directive × Cursor) :=
  let (name, c) := c.takeWhile isNameChar
  if name.isEmpty || !isBlankOrEnd c.peek then .error .badDirective
  else
    let content :=
      match String.ofList name with
      | "YAML" => readVersion c
      | "TAG" => readTagForm c
      | _ => .ok (.other, c.skipWhile (!isBreakOrEnd ·))
    match content with
    | .error e => .error e
    | .ok (d, c) => (endOfDirective c).map fun c => (d, c)

end ApiDoc.Yaml
