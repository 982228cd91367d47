import ApiDoc.Yaml.Cursor
import ApiDoc.Yaml.Token

/-!
# Scalars of YAML documents

The three ways to write a scalar: plain, between quotes, and as an indented block. A plain or
quoted scalar may go on over several lines; a single line break inside it is read as a blank, and
of several breaks all but the first are kept.
-/

namespace ApiDoc.Yaml

/-- The text of folded line breaks: the first break becomes a blank when it stands alone and goes
when others follow; an unusual first break is kept. -/
def foldBreaks (first : Char) (others : List Char) : List Char :=
  if first != '\n' then first :: others
  else if others.isEmpty then [' '] else others

/-! ## Plain scalars -/

/-- Does the plain text end before the character `n` places ahead? -/
def endsPlain (inFlow : Bool) (ch follower : Char) : Bool :=
  isGap ch
    || (ch == ':' && (isGap follower || (inFlow && [',', '[', ']', '{', '}'].contains follower)))
    || (inFlow && [',', '?', '[', ']', '{', '}'].contains ch)

/-- The length of the plain text at the start of the characters. -/
def plainLength (inFlow : Bool) : List Char → Nat
  | [] => 0
  | ch :: rest =>
    if endsPlain inFlow ch (rest.headD endChar) then 0 else plainLength inFlow rest + 1

/-- Blanks and breaks before the next text of a scalar, up to a document divider. -/
structure Spaces where
  /-- What they are read as; nothing if the scalar ends here. -/
  text : List Char
  cursor : Cursor
  /-- Was there a line break? -/
  broken : Bool

/-- The breaks after the first one, with the blanks around them. `none` stands for a document
divider. The fuel is the number of characters. -/
def moreBreaks : (fuel : Nat) → Cursor → List Char → Option (List Char) × Cursor
  | 0, c, breaks => (some breaks, c)
  | fuel + 1, c, breaks =>
    if c.peek == ' ' then moreBreaks fuel c.next breaks
    else
      match c.readBreak? with
      | none => (some breaks, c)
      | some (b, c) =>
        if c.atAnyDivider then (none, c) else moreBreaks fuel c (breaks ++ [b])

/-- The blanks and breaks after a piece of plain text. -/
def plainSpaces (c : Cursor) : Spaces :=
  let (blanks, c) := c.takeWhile (· == ' ')
  match c.readBreak? with
  | none => ⟨blanks, c, false⟩
  | some (first, c) =>
    if c.atAnyDivider then ⟨[], c, true⟩
    else
      match moreBreaks c.rest.length c [] with
      | (none, c) => ⟨[], c, true⟩
      | (some breaks, c) => ⟨foldBreaks first breaks, c, true⟩

/-- A scalar that was read: its text, the place after it, and whether its last line break makes a
new key possible. -/
structure ReadScalar where
  text : List Char
  cursor : Cursor
  newLine : Bool

/-- The plain scalar ahead, whose lines after the first have at least the given indentation.
`pending` are the blanks before it, which count only if more text follows. The fuel is the number
of characters. -/
def readPlain (inFlow : Bool) (indent : Int) : (fuel : Nat) → Cursor → List Char → Bool → ReadScalar
  | 0, c, _, newLine => ⟨[], c, newLine⟩
  | fuel + 1, c, pending, newLine =>
    let n := plainLength inFlow c.rest
    if c.peek == '#' || n == 0 then ⟨[], c, newLine⟩
    else
      let piece := c.rest.take n
      let spaces := plainSpaces (c.forward n)
      let stop : ReadScalar := ⟨pending ++ piece, spaces.cursor, spaces.broken⟩
      if spaces.text.isEmpty || spaces.cursor.peek == '#'
          || (!inFlow && (spaces.cursor.column : Int) < indent) then stop
      else
        let more := readPlain inFlow indent fuel spaces.cursor spaces.text spaces.broken
        { more with text := pending ++ piece ++ more.text }

/-! ## Quoted scalars -/

/-- The character that an escape of one letter stands for. -/
def escapeChar? : Char → Option Char
  | '0' => some endChar
  | 'a' => some '\x07'
  | 'b' => some '\x08'
  | 't' => some '\t'
  | '\t' => some '\t'
  | 'n' => some '\n'
  | 'v' => some '\x0b'
  | 'f' => some '\x0c'
  | 'r' => some '\r'
  | 'e' => some '\x1b'
  | ' ' => some ' '
  | '"' => some '"'
  | '\\' => some '\\'
  | '/' => some '/'
  | 'N' => some '\x85'
  | '_' => some '\xa0'
  | 'L' => some '\u2028'
  | 'P' => some '\u2029'
  | _ => none

def escapeDigits? : Char → Option Nat
  | 'x' => some 2
  | 'u' => some 4
  | 'U' => some 8
  | _ => none

def hexValue? (c : Char) : Option Nat :=
  if '0' ≤ c && c ≤ '9' then some (c.toNat - '0'.toNat)
  else if 'a' ≤ c && c ≤ 'f' then some (c.toNat - 'a'.toNat + 10)
  else if 'A' ≤ c && c ≤ 'F' then some (c.toNat - 'A'.toNat + 10)
  else none

def hexNumber? (cs : List Char) : Option Nat :=
  cs.foldl (fun acc c => do return (← acc) * 16 + (← hexValue? c)) (some 0)

/-- The breaks after the first one inside quotes, with blanks and tabs around them. -/
def quotedBreaks : (fuel : Nat) → Cursor → List Char → Except Fault (List Char × Cursor)
  | 0, c, breaks => .ok (breaks, c)
  | fuel + 1, c, breaks =>
    if c.atAnyDivider then .error .misplaced
    else
      let c := c.skipWhile fun ch => ch == ' ' || ch == '\t'
      match c.readBreak? with
      | none => .ok (breaks, c)
      | some (b, c) => quotedBreaks fuel c (breaks ++ [b])

/-- The code points of characters. -/
def codesOf (cs : List Char) : List Nat :=
  cs.map Char.toNat

/-- A code point that is given by its number. The halves of surrogate pairs are among them. -/
def codePoint (n : Nat) : Except Fault Nat :=
  if 0x7FFFFFFF < n then .error .codeTooLarge
  else if 0x10FFFF < n then .error .codeOutOfRange
  else .ok n

def readEscape (c : Cursor) : Except Fault (List Nat × Cursor) :=
  match escapeChar? c.peek with
  | some ch => if c.rest.isEmpty then .error .badEscape else .ok ([ch.toNat], c.next)
  | none =>
    match escapeDigits? c.peek with
    | some n =>
      let digits := c.next.rest.take n
      match hexNumber? digits with
      | some code =>
        if digits.length = n then
          (codePoint code).map fun code => ([code], c.forward (n + 1))
        else .error .badEscape
      | none => .error .badEscape
    | none =>
      match c.readBreak? with
      | some (_, c) =>
        (quotedBreaks c.rest.length c []).map fun (breaks, c) => (codesOf breaks, c)
      | none => .error .badEscape

/-- The rest of a quoted scalar, up to and with its closing quote, as code points. -/
def readQuoted (quote : Char) : (fuel : Nat) → Cursor → Except Fault (List Nat × Cursor)
  | 0, _ => .error .unclosedQuote
  | fuel + 1, c =>
    let double := quote == '"'
    let ch := c.peek
    let continueWith (codes : List Nat) (c : Cursor) : Except Fault (List Nat × Cursor) :=
      match readQuoted quote fuel c with
      | .error e => .error e
      | .ok (more, c) => .ok (codes ++ more, c)
    if c.rest.isEmpty then .error .unclosedQuote
    else if !double && ch == '\'' && c.peekAt 1 == '\'' then
      continueWith (codesOf ['\'']) (c.forward 2)
    else if ch == quote then .ok ([], c.next)
    else if double && ch == '\\' then
      match readEscape c.next with
      | .error e => .error e
      | .ok (codes, c) => continueWith codes c
    else if isGap ch then
      let (blanks, c) := c.takeWhile fun ch => ch == ' ' || ch == '\t'
      if c.rest.isEmpty then .error .unclosedQuote
      else
        match c.readBreak? with
        | none => continueWith (codesOf blanks) c
        | some (first, c) =>
          match quotedBreaks c.rest.length c [] with
          | .error e => .error e
          | .ok (breaks, c) => continueWith (codesOf (foldBreaks first breaks)) c
    else continueWith (codesOf [ch]) c.next

def quotedToken (codes : List Nat) : Token :=
  if codes.all Nat.isValidChar then .scalar (String.ofList (codes.map Char.ofNat)) false
  else .codes codes

/-! ## Block scalars -/

/-- What becomes of the line breaks at the end of a block. -/
inductive Chomping where
  /-- One is kept. -/
  | clip
  /-- None is kept. -/
  | strip
  /-- All are kept. -/
  | keep
deriving DecidableEq

def chomping? : Char → Option Chomping
  | '+' => some .keep
  | '-' => some .strip
  | _ => none

def increment? (c : Char) : Option Nat :=
  if '1' ≤ c && c ≤ '9' then some (c.toNat - '0'.toNat) else none

/-- The marks after `|` or `>`, in either order, and the rest of their line, which holds nothing
but a comment. -/
def readBlockHeader (c : Cursor) : Except Fault (Chomping × Option Nat × Cursor) :=
  let (chomp, indent, c) :=
    match chomping? c.peek with
    | some k =>
      match increment? c.next.peek with
      | some n => (k, some n, c.forward 2)
      | none => (k, none, c.next)
    | none =>
      match increment? c.peek with
      | some n =>
        match chomping? c.next.peek with
        | some k => (k, some n, c.forward 2)
        | none => (.clip, some n, c.next)
      | none => (.clip, none, c)
  if !(c.peek == ' ' || isBreakOrEnd c.peek) then .error .badBlockHeader
  else
    let c := c.skipWhile (· == ' ')
    let c := if c.peek == '#' then c.skipWhile (!isBreakOrEnd ·) else c
    match c.readBreak? with
    | some (_, c) => .ok (chomp, indent, c)
    | none => if c.rest.isEmpty then .ok (chomp, indent, c) else .error .badBlockHeader

/-- Blanks up to a column. -/
def skipIndent (indent : Nat) : (fuel : Nat) → Cursor → Cursor
  | 0, c => c
  | fuel + 1, c =>
    if c.column < indent && c.peek == ' ' then skipIndent indent fuel c.next else c

/-- Empty lines, each of them up to a column of blanks, and the indentation of the next one. -/
def blockBreaks (indent : Nat) : (fuel : Nat) → Cursor → List Char → List Char × Cursor
  | 0, c, breaks => (breaks, c)
  | fuel + 1, c, breaks =>
    let c := skipIndent indent c.rest.length c
    match c.readBreak? with
    | none => (breaks, c)
    | some (b, c) => blockBreaks indent fuel c (breaks ++ [b])

/-- Empty lines at the start of a block, and the greatest column that their blanks reach. -/
def leadingBreaks : (fuel : Nat) → Cursor → List Char → Nat → List Char × Nat × Cursor
  | 0, c, breaks, widest => (breaks, widest, c)
  | fuel + 1, c, breaks, widest =>
    if c.peek == ' ' then
      let c := c.next
      leadingBreaks fuel c breaks (max widest c.column)
    else
      match c.readBreak? with
      | none => (breaks, widest, c)
      | some (b, c) => leadingBreaks fuel c (breaks ++ [b]) widest

/-- Is there a line of the block at this place? -/
def atBlockLine (indent : Nat) (c : Cursor) : Bool :=
  c.column == indent && !c.rest.isEmpty

/-- The lines of a block from a place on: their text, the last line break, the empty lines after
it, and the place behind. `breaks` are the empty lines before. -/
def blockLines (folded : Bool) (indent : Nat) :
    (fuel : Nat) → Cursor → (breaks : List Char) → List Char × List Char × List Char × Cursor
  | 0, c, breaks => ([], [], breaks, c)
  | fuel + 1, c, breaks =>
    if !atBlockLine indent c then ([], [], breaks, c)
    else
      let solid := !(c.peek == ' ' || c.peek == '\t')
      let (line, c) := c.takeWhile (!isBreakOrEnd ·)
      let (lineBreak, c) := match c.readBreak? with
        | some (b, c) => ([b], c)
        | none => ([], c)
      let (breaks', c) := blockBreaks indent c.rest.length c []
      if !atBlockLine indent c then (breaks ++ line, lineBreak, breaks', c)
      else
        let joint :=
          if folded && lineBreak == ['\n'] && solid && !(c.peek == ' ' || c.peek == '\t') then
            if breaks'.isEmpty then [' '] else []
          else lineBreak
        let (text, lastBreak, after, c) := blockLines folded indent fuel c breaks'
        (breaks ++ line ++ joint ++ text, lastBreak, after, c)

/-- The block scalar whose mark has just been read, below a given indentation. -/
def readBlock (folded : Bool) (outer : Int) (c : Cursor) : Except Fault (List Char × Cursor) :=
  match readBlockHeader c with
  | .error e => .error e
  | .ok (chomp, increment, c) =>
    let least := max 1 (outer + 1).toNat
    let (breaks, indent, c) := match increment with
      | none =>
        let (breaks, widest, c) := leadingBreaks c.rest.length c [] 0
        (breaks, max least widest, c)
      | some n =>
        let indent := least + n - 1
        let (breaks, c) := blockBreaks indent c.rest.length c []
        (breaks, indent, c)
    let (text, lastBreak, after, c) := blockLines folded indent c.rest.length c breaks
    .ok (match chomp with
      | .strip => text
      | .clip => text ++ lastBreak
      | .keep => text ++ lastBreak ++ after, c)

end ApiDoc.Yaml
