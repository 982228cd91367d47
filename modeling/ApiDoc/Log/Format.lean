import ApiDoc.Text.Quoted
import ApiDoc.Text.Word

/-!
# Formats of log lines

A format is a text with fields of the form `%(name)s`. A field may be padded to a width, on the
left or on the right, and cut to a precision; numbers may also be written in other bases and with
zeros in front. `%%` stands for a percent sign.
-/

namespace ApiDoc.Log

open Text

/-- The level of a record: ten for debugging, twenty for information, thirty for warnings, and so
on. -/
abbrev Level := Nat

/-- What is known about one event. -/
structure Record where
  /-- The part of the program that speaks. -/
  logger : String
  level : Level
  message : String
deriving Repr, DecidableEq, Inhabited

def levelName : Level → String
  | 0 => "NOTSET"
  | 10 => "DEBUG"
  | 20 => "INFO"
  | 30 => "WARNING"
  | 40 => "ERROR"
  | 50 => "CRITICAL"
  | n => "Level " ++ toString n

structure Field where
  name : List Char
  flags : List Char
  width : Nat
  precision : Option Nat
  conversion : Char
deriving Repr, DecidableEq, Inhabited

inductive Piece where
  | literal (c : Char)
  | field (f : Field)
deriving Repr, DecidableEq, Inhabited

/-- A flag before the width of a field. -/
def isFlag (c : Char) : Bool :=
  ['#', '0', '+', ' ', '-'].contains c

def isConversion (c : Char) : Bool :=
  ['d', 'i', 'o', 'u', 'x', 'e', 'f', 'g', 'c', 'r', 's', 'a', '%'].contains c.toLower

/-! ## Fields in a text -/

/-- What follows a width or a precision, which may be left to a star. -/
def skipSize : List Char → List Char
  | '*' :: cs => cs
  | cs => cs.dropWhile Char.isDigit

/-- Does a field stand behind a percent sign and an opening parenthesis? Its name is a word. -/
def startsField (cs : List Char) : Bool :=
  match cs.takeWhile isWord, cs.dropWhile isWord with
  | [], _ => false
  | _, ')' :: rest =>
    let rest := skipSize (rest.dropWhile isFlag)
    let rest := match rest with
      | '.' :: tail => if skipSize tail = tail then rest else skipSize tail
      | rest => rest
    rest.head?.any isConversion
  | _, _ => false

def hasField : List Char → Bool
  | [] => false
  | c :: cs =>
    (match c, cs with
      | '%', '(' :: rest => startsField rest
      | _, _ => false) || hasField cs

/-- The digits at the start of a text as a number, and what follows. -/
def readNumber (cs : List Char) : Option Nat × List Char :=
  match cs.takeWhile Char.isDigit with
  | [] => (none, cs)
  | ds => (some (ds.foldl (fun acc d => acc * 10 + (d.toNat - '0'.toNat)) 0),
      cs.dropWhile Char.isDigit)

/-- The name of a field in its parentheses, and what follows. A percent sign needs none. -/
def readName : List Char → List Char × List Char
  | '(' :: cs => (cs.takeWhile (· != ')'), (cs.dropWhile (· != ')')).drop 1)
  | cs => ([], cs)

/-- The precision behind a point, and what follows; a point alone stands for zero. -/
def readPrecision : List Char → Option Nat × List Char
  | '.' :: cs => ((readNumber cs).1.or (some 0), (readNumber cs).2)
  | cs => (none, cs)

/-- The field behind a percent sign, and what follows it. -/
def readField? (cs : List Char) : Option (Field × List Char) :=
  let (name, cs) := readName cs
  let flags := cs.takeWhile isFlag
  let (width, cs) := readNumber (cs.dropWhile isFlag)
  let (precision, cs) := readPrecision cs
  match cs with
  | c :: rest =>
    if isConversion c && (c == '%' || !name.isEmpty) then
      some (⟨name, flags, width.getD 0, precision, c⟩, rest)
    else none
  | [] => none

/-- The pieces of a format. The fuel is the number of characters. -/
def pieces : (fuel : Nat) → List Char → List Piece
  | 0, _ => []
  | _, [] => []
  | fuel + 1, c :: cs =>
    match if c = '%' then readField? cs else none with
    | some (f, rest) => .field f :: pieces fuel rest
    | none => .literal c :: pieces fuel cs

/-! ## Values -/

inductive Value where
  | text (s : String)
  | number (n : Nat)
deriving Repr, DecidableEq, Inhabited

/-- The value of a field of a record that is written at the given time; unknown fields have none. -/
def fieldValue (time : String) (r : Record) (name : String) : Value :=
  match name with
  | "message" => .text r.message
  | "name" => .text r.logger
  | "levelname" => .text (levelName r.level)
  | "levelno" => .number r.level
  | "asctime" => .text time
  | _ => .text ""

/-- Text in the width of a field. -/
def Field.pad (f : Field) (cs : List Char) : List Char :=
  let gap := List.replicate (f.width - cs.length) ' '
  if f.flags.contains '-' then cs ++ gap else gap ++ cs

/-- A text in a field, which may be quoted, and is cut to the precision. -/
def Field.renderText (f : Field) (plain quoted : String) : List Char :=
  let cs := match f.conversion with
    | 'r' => quoted.toList
    | 'a' => quoted.toList.flatMap asciiChar
    | _ => plain.toList
  f.pad (match f.precision with
    | some n => cs.take n
    | none => cs)

/-- The sign in front of a number. -/
def Field.sign (f : Field) : List Char :=
  if f.flags.contains '+' then ['+'] else if f.flags.contains ' ' then [' '] else []

/-- A number in a field: the sign and the mark of the base, zeros up to the width if the field asks
for them, and the digits. -/
def Field.renderDigits (f : Field) (mark digits : List Char) : List Char :=
  let front := f.sign ++ (if f.flags.contains '#' then mark else [])
  let zeros := if f.flags.contains '0' && !f.flags.contains '-' then
      f.width - front.length - digits.length
    else 0
  f.pad (front ++ List.replicate zeros '0' ++ digits)

/-- Digits with zeros in front up to the precision. -/
def Field.precise (f : Field) (digits : List Char) : List Char :=
  List.replicate (f.precision.getD 0 - digits.length) '0' ++ digits

/-- The places behind the point of a whole number. -/
def Field.places (f : Field) : List Char :=
  match f.precision.getD 6 with
  | 0 => if f.flags.contains '#' then ['.'] else []
  | n => '.' :: List.replicate n '0'

def Field.renderNumber (f : Field) (n : Nat) : List Char :=
  let digits := Nat.toDigits 10 n
  match f.conversion with
  | 'd' => f.renderDigits [] (f.precise digits)
  | 'i' => f.renderDigits [] (f.precise digits)
  | 'u' => f.renderDigits [] (f.precise digits)
  | 'o' => f.renderDigits ['0', 'o'] (f.precise (Nat.toDigits 8 n))
  | 'x' => f.renderDigits ['0', 'x'] (f.precise (Nat.toDigits 16 n))
  | 'X' => f.renderDigits ['0', 'X'] (f.precise ((Nat.toDigits 16 n).map Char.toUpper))
  | 'f' => f.renderDigits [] (digits ++ f.places)
  | 'F' => f.renderDigits [] (digits ++ f.places)
  | 'c' => f.pad [Char.ofNat n]
  | _ => f.renderText (toString n) (toString n)

def Field.render (f : Field) (value : Value) : List Char :=
  if f.conversion = '%' then ['%']
  else
    match value with
    | .text s => f.renderText s (quote s)
    | .number n => f.renderNumber n

/-- The line of a record in a format, written at the given time; an empty format shows the
message. -/
def formatRecord (time format : String) (r : Record) : String :=
  if format.isEmpty then r.message
  else
    let cs := format.toList
    String.ofList ((pieces cs.length cs).flatMap fun p =>
      match p with
      | .literal c => [c]
      | .field f => f.render (fieldValue time r (String.ofList f.name)))

end ApiDoc.Log
