import ApiDoc.Yaml.Directive
import ApiDoc.Yaml.Scalar

/-!
# From text to tokens

Indentation opens and closes blocks. Whether a scalar or a collection is a key shows only at the
colon after it, on the same line; so the place of each possible key is remembered, one for each
level of brackets, and the mark of the key is put in there when the colon comes.
-/

namespace ApiDoc.Yaml

/-- A place where a key may have started. -/
structure PossibleKey where
  level : Nat
  /-- The number of tokens before it. -/
  position : Nat
  /-- Must a key start here, because the block's indentation says so? -/
  required : Bool
  index : Nat
  line : Nat
  column : Nat
deriving Repr, Inhabited

/-- The state between two tokens. -/
structure Lexer where
  cursor : Cursor
  tokens : List Token := []
  level : Nat := 0
  /-- The indentation of the current block, negative outside of all blocks. -/
  indent : Int := -1
  indents : List Int := []
  keyAllowed : Bool := true
  keys : List PossibleKey := []
deriving Repr, Inhabited

/-- The longest key that needs no mark of its own. -/
def maxKeyLength : Nat := 1024

namespace Lexer

def emit (s : Lexer) (t : Token) : Lexer :=
  { s with tokens := s.tokens ++ [t] }

/-- Put a token before those that came after a position. -/
def insertAt (s : Lexer) (position : Nat) (t : Token) : Lexer :=
  { s with tokens := s.tokens.take position ++ t :: s.tokens.drop position }

def forward (s : Lexer) (n : Nat) : Lexer :=
  { s with cursor := s.cursor.forward n }

/-- Inside brackets, indentation means nothing. -/
def inFlow (s : Lexer) : Bool :=
  s.level != 0

/-! ## Possible keys -/

/-- A key that can no longer be: it is on an earlier line, or too long. -/
def isStale (s : Lexer) (k : PossibleKey) : Bool :=
  k.line != s.cursor.line || maxKeyLength < s.cursor.index - k.index

def dropStaleKeys (s : Lexer) : Except Fault Lexer :=
  if s.keys.any fun k => s.isStale k && k.required then .error .missingColon
  else .ok { s with keys := s.keys.filter (!s.isStale ·) }

/-- The tokens in front of every possible key, which nothing behind can change. -/
def settled (s : Lexer) : List Token :=
  let positions := (s.keys.filter (!s.isStale ·)).map PossibleKey.position
  s.tokens.take (positions.foldl min s.tokens.length)

def dropKey (s : Lexer) : Except Fault Lexer :=
  if s.keys.any fun k => k.level == s.level && k.required then .error .missingColon
  else .ok { s with keys := s.keys.filter fun k => k.level != s.level }

def noteKey (s : Lexer) : Except Fault Lexer :=
  if !s.keyAllowed then .ok s
  else
    match s.dropKey with
    | .error e => .error e
    | .ok s =>
      .ok { s with
        keys := s.keys ++ [{
          level := s.level, position := s.tokens.length,
          required := !s.inFlow && s.indent == s.cursor.column,
          index := s.cursor.index, line := s.cursor.line, column := s.cursor.column }] }

/-! ## Indentation -/

/-- Close the blocks that are indented further than a column. -/
def unwind (s : Lexer) (column : Int) : Lexer :=
  if s.inFlow then s else go s.indents s
where
  go : List Int → Lexer → Lexer
    | [], s => s
    | outer :: rest, s =>
      if s.indent > column then go rest ({ s with indent := outer, indents := rest }.emit .blockEnd)
      else s

/-- Open a block if a column is indented further than the current one. -/
def openBlock? (s : Lexer) (column : Nat) : Option Lexer :=
  if s.indent < column then
    some { s with indents := s.indent :: s.indents, indent := column }
  else none

/-! ## Tokens -/

/-- Blanks, comments and line breaks before the next token. The fuel is the number of characters. -/
def skipGaps (s : Lexer) : (fuel : Nat) → Lexer
  | 0 => s
  | fuel + 1 =>
    let c := s.cursor.skipWhile (· == ' ')
    let c := if c.peek == '#' then c.skipWhile (!isBreakOrEnd ·) else c
    match c.readBreak? with
    | none => { s with cursor := c }
    | some (_, c) =>
      skipGaps { s with cursor := c, keyAllowed := s.keyAllowed || !s.inFlow } fuel

def finish (s : Lexer) : Except Fault Lexer :=
  match (s.unwind (-1)).dropKey with
  | .error e => .error e
  | .ok s => .ok ({ s with keyAllowed := false, keys := [] }.emit .stop)

/-- A line that starts with a percent sign. -/
def readDirectiveLine (s : Lexer) : Except Fault Lexer :=
  match (s.unwind (-1)).dropKey with
  | .error e => .error e
  | .ok s =>
    match readDirective s.cursor.next with
    | .error e => .error e
    | .ok (d, cursor) => .ok ({ s with keyAllowed := false, cursor }.emit (.directive d))

def readDivider (s : Lexer) (t : Token) : Except Fault Lexer :=
  match (s.unwind (-1)).dropKey with
  | .error e => .error e
  | .ok s => .ok (({ s with keyAllowed := false }.forward 3).emit t)

/-- An opening bracket, which may start a key itself. -/
def openBracket (s : Lexer) (t : Token) : Except Fault Lexer :=
  match s.noteKey with
  | .error e => .error e
  | .ok s => .ok (({ s with level := s.level + 1, keyAllowed := true }.forward 1).emit t)

def closeBracket (s : Lexer) (t : Token) : Except Fault Lexer :=
  match s.dropKey with
  | .error e => .error e
  | .ok s =>
    if s.level = 0 then .error .unexpectedToken
    else .ok (({ s with level := s.level - 1, keyAllowed := false }.forward 1).emit t)

def readComma (s : Lexer) : Except Fault Lexer :=
  match s.dropKey with
  | .error e => .error e
  | .ok s => .ok (({ s with keyAllowed := true }.forward 1).emit .comma)

/-- Outside of brackets, the mark that opens a block at this column, if one opens; a mark may stand
only where a key may start. -/
def openAt (s : Lexer) (t : Token) : Except Fault Lexer :=
  if s.inFlow then .ok s
  else if !s.keyAllowed then .error .misplaced
  else
    match s.openBlock? s.cursor.column with
    | some s => .ok (s.emit t)
    | none => .ok s

/-- A hyphen that starts an entry of a list. -/
def readEntry (s : Lexer) : Except Fault Lexer :=
  match s.openAt .blockListStart with
  | .error e => .error e
  | .ok s =>
    match { s with keyAllowed := true }.dropKey with
    | .error e => .error e
    | .ok s => .ok ((s.forward 1).emit .entry)

def readKeyMark (s : Lexer) : Except Fault Lexer :=
  match s.openAt .blockMapStart with
  | .error e => .error e
  | .ok s =>
    match { s with keyAllowed := !s.inFlow }.dropKey with
    | .error e => .error e
    | .ok s => .ok ((s.forward 1).emit .key)

/-- A colon: it makes a key of what was remembered, or stands for a value without a key. -/
def readColon (s : Lexer) : Except Fault Lexer :=
  match s.keys.find? fun k => k.level == s.level with
  | some k =>
    let s := { s with keys := s.keys.filter fun k => k.level != s.level, keyAllowed := false }
    let s := s.insertAt k.position .key
    let s :=
      if s.inFlow then s
      else
        match s.openBlock? k.column with
        | some s => s.insertAt k.position .blockMapStart
        | none => s
    .ok ((s.forward 1).emit .value)
  | none =>
    match s.openAt .blockMapStart with
    | .error e => .error e
    | .ok s =>
      match { s with keyAllowed := !s.inFlow }.dropKey with
      | .error e => .error e
      | .ok s => .ok ((s.forward 1).emit .value)

/-- An anchor: it names what follows and says nothing about its value. -/
def readAnchor (s : Lexer) : Except Fault Lexer :=
  match s.noteKey with
  | .error e => .error e
  | .ok s =>
    let (name, c) := s.cursor.next.takeWhile fun c => c.isAlphanum || c == '-' || c == '_'
    if name.isEmpty || !(isGap c.peek || ['?', ':', ',', ']', '}', '%', '@'].contains c.peek) then
      .error (.strayChar c.peek)
    else .ok { s with keyAllowed := false, cursor := c }

def readBlockScalar (s : Lexer) (folded : Bool) : Except Fault Lexer :=
  match { s with keyAllowed := true }.dropKey with
  | .error e => .error e
  | .ok s =>
    match readBlock folded s.indent s.cursor.next with
    | .error e => .error e
    | .ok (text, cursor) => .ok ({ s with cursor }.emit (.scalar (String.ofList text) false))

def readQuotedScalar (s : Lexer) (quote : Char) : Except Fault Lexer :=
  match s.noteKey with
  | .error e => .error e
  | .ok s =>
    match readQuoted quote (s.cursor.rest.length + 1) s.cursor.next with
    | .error e => .error e
    | .ok (codes, cursor) => .ok ({ s with keyAllowed := false, cursor }.emit (quotedToken codes))


def readPlainScalar (s : Lexer) : Except Fault Lexer :=
  match s.noteKey with
  | .error e => .error e
  | .ok s =>
    let r := readPlain s.inFlow (s.indent + 1) (s.cursor.rest.length + 1) s.cursor [] false
    .ok ({ s with keyAllowed := r.newLine, cursor := r.cursor }.emit
      (.scalar (String.ofList r.text) true))

/-- The characters that start something else than a plain scalar. -/
def indicators : List Char :=
  ['-', '?', ':', ',', '[', ']', '{', '}', '#', '&', '*', '!', '|', '>', '\'', '"', '%', '@', '`']

def atPlain (s : Lexer) : Bool :=
  let ch := s.cursor.peek
  let follower := s.cursor.peekAt 1
  !(isGap ch || indicators.contains ch)
    || (!isGap follower && (ch == '-' || (!s.inFlow && (ch == '?' || ch == ':'))))

def step (s : Lexer) : Except Fault Lexer :=
  match (s.skipGaps (s.cursor.rest.length + 1)).dropStaleKeys with
  | .error e => .error e
  | .ok s =>
    let s := s.unwind s.cursor.column
    let c := s.cursor
    let ch := c.peek
    let gapFollows := isGap (c.peekAt 1)
    if c.rest.isEmpty then s.finish
    else if ch == '%' && c.column == 0 then s.readDirectiveLine
    else if c.column == 0 && c.atDivider '-' then s.readDivider .documentStart
    else if c.column == 0 && c.atDivider '.' then s.readDivider .documentEnd
    else if ch == '[' then s.openBracket .listStart
    else if ch == '{' then s.openBracket .mapStart
    else if ch == ']' then s.closeBracket .listEnd
    else if ch == '}' then s.closeBracket .mapEnd
    else if ch == ',' then s.readComma
    else if ch == '-' && gapFollows then s.readEntry
    else if ch == '?' && (s.inFlow || gapFollows) then s.readKeyMark
    else if ch == ':' && (s.inFlow || gapFollows) then s.readColon
    else if ch == '&' then s.readAnchor
    else if ch == '|' && !s.inFlow then s.readBlockScalar false
    else if ch == '>' && !s.inFlow then s.readBlockScalar true
    else if ch == '\'' || ch == '"' then s.readQuotedScalar ch
    else if s.atPlain then s.readPlainScalar
    else .error (.strayChar ch)

/-- All tokens up to the end of the text, or up to the first fault. Every step takes a character or
is the last, so one step for each character and one for the end suffice. -/
def run : (fuel : Nat) → Lexer → List Token
  | 0, s => s.tokens
  | fuel + 1, s =>
    match s.step with
    | .error f => s.settled ++ [.broken f]
    | .ok s => if s.tokens.getLast? == some .stop then s.tokens else run fuel s

end Lexer

/-- The characters that a document may hold. -/
def isAllowed (c : Char) : Bool :=
  let n := c.toNat
  n == 9 || n == 10 || n == 13 || (0x20 ≤ n && n ≤ 0x7E) || n == 0x85 || (0xA0 ≤ n && n ≤ 0xFFFD)
    || 0x10000 ≤ n

/-- The tokens of a text. A byte order mark in front is not part of it. -/
def tokensOf (cs : List Char) : List Token :=
  match cs.find? (!isAllowed ·) with
  | some c => [.broken (.unprintable c)]
  | none =>
    let cursor : Cursor := { rest := cs }
    let cursor := if cursor.peek == '\uFEFF' then cursor.next else cursor
    Lexer.run (cs.length + 1) { cursor }

end ApiDoc.Yaml
