/-!
# Reading positions

A cursor is a place in a text: what lies ahead, and the line and column. Past the end of the text
the next character is the null character, which documents cannot hold.
-/

namespace ApiDoc.Yaml

/-- A place in a text. -/
structure Cursor where
  /-- The characters ahead. -/
  rest : List Char
  line : Nat := 0
  column : Nat := 0
  /-- The number of characters behind. -/
  index : Nat := 0
deriving Repr, Inhabited

/-- The character that stands for the end of the text. -/
def endChar : Char := Char.ofNat 0

/-- A character that ends a line. -/
def isBreak (c : Char) : Bool :=
  c == '\n' || c == '\r' || c == '\x85' || c == '\u2028' || c == '\u2029'

/-- The end of a line or of the text. -/
def isBreakOrEnd (c : Char) : Bool :=
  isBreak c || c == endChar

/-- A blank, a tab, or the end of a line or of the text. -/
def isGap (c : Char) : Bool :=
  c == ' ' || c == '\t' || isBreakOrEnd c

namespace Cursor

def peekAt (c : Cursor) (n : Nat) : Char :=
  c.rest.getD n endChar

def peek (c : Cursor) : Char :=
  c.peekAt 0

/-- The place after the next character. A byte order mark takes no column. -/
def next (c : Cursor) : Cursor :=
  match c.rest with
  | [] => c
  | ch :: rest =>
    let index := c.index + 1
    if isBreak ch && !(ch == '\r' && rest.head? == some '\n') then
      { rest, line := c.line + 1, column := 0, index }
    else if ch == '\uFEFF' then { rest, line := c.line, column := c.column, index }
    else { rest, line := c.line, column := c.column + 1, index }

def forward (c : Cursor) : Nat → Cursor
  | 0 => c
  | n + 1 => c.next.forward n

/-- The characters ahead that satisfy a condition, and the place after them. -/
def takeWhile (c : Cursor) (p : Char → Bool) : List Char × Cursor :=
  let taken := c.rest.takeWhile p
  (taken, c.forward taken.length)

def skipWhile (c : Cursor) (p : Char → Bool) : Cursor :=
  (c.takeWhile p).2

/-- The line break ahead, as it is read, and the place after it. The usual breaks are read as line
feeds. -/
def readBreak? (c : Cursor) : Option (Char × Cursor) :=
  match c.rest with
  | '\r' :: '\n' :: _ => some ('\n', c.forward 2)
  | ch :: _ =>
    if ch == '\n' || ch == '\r' || ch == '\x85' then some ('\n', c.next)
    else if isBreak ch then some (ch, c.next)
    else none
  | [] => none

/-- Does a line that divides documents start here? -/
def atDivider (c : Cursor) (mark : Char) : Bool :=
  c.peekAt 0 == mark && c.peekAt 1 == mark && c.peekAt 2 == mark && isGap (c.peekAt 3)

/-- Does a line that divides or ends documents start here? -/
def atAnyDivider (c : Cursor) : Bool :=
  c.atDivider '-' || c.atDivider '.'

end Cursor

end ApiDoc.Yaml
