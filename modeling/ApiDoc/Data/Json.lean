import ApiDoc.Data.Basic

/-!
# Data as JSON text

The text of a value in JSON with ASCII characters only: every other character is written by its
UTF-16 units. Maps and lists are written on one line, or spread over lines with two blanks for
each level.
-/

namespace ApiDoc.Data

open Text (hex)

def jsonUnit (n : Nat) : List Char :=
  '\\' :: 'u' :: hex 4 n

def jsonChar (c : Char) : List Char :=
  let n := c.toNat
  if c = '"' ∨ c = '\\' then ['\\', c]
  else if c = '\n' then ['\\', 'n']
  else if c = '\r' then ['\\', 'r']
  else if c = '\t' then ['\\', 't']
  else if n = 8 then ['\\', 'b']
  else if n = 12 then ['\\', 'f']
  else if 32 ≤ n ∧ n < 127 then [c]
  else if n < 0x10000 then jsonUnit n
  else jsonUnit (0xD800 + (n - 0x10000) / 0x400) ++ jsonUnit (0xDC00 + (n - 0x10000) % 0x400)

def jsonText (s : String) : String :=
  String.ofList ('"' :: s.toList.flatMap jsonChar ++ ['"'])

def jsonCodes (codes : List Nat) : String :=
  let code (n : Nat) : List Char :=
    if n.isValidChar then jsonChar (Char.ofNat n) else jsonUnit n
  String.ofList ('"' :: codes.flatMap code ++ ['"'])

def jsonReal (x : Number.Binary64) : String :=
  if x.isNaN then "NaN"
  else if x.isFinite then x.text
  else if x.isNegative then "-Infinity" else "Infinity"

def jsonKey : Data → String
  | null => jsonText "null"
  | bool b => jsonText (if b then "true" else "false")
  | int n => jsonText (toString n)
  | real x => jsonText (jsonReal x)
  | text s => jsonText s
  | codes points => jsonCodes points
  | d => jsonText d.display

/-- Where the parts of lists and maps go. -/
inductive Layout where
  /-- Everything on one line. -/
  | compact
  /-- Each part on a line of its own; the number is the level of the surrounding value. -/
  | indented (level : Nat)

namespace Layout

def deeper : Layout → Layout
  | compact => compact
  | indented n => indented (n + 1)

/-- What stands before a part. -/
def lead : Layout → String
  | compact => ""
  | indented n => "\n" ++ String.ofList (List.replicate (2 * n) ' ')

/-- What stands between a key and its value. -/
def colon : Layout → String
  | compact => ":"
  | indented _ => ": "

def enclose (l : Layout) (opening closing : String) : List String → String
  | [] => opening ++ closing
  | parts =>
    opening ++ ",".intercalate (parts.map (l.deeper.lead ++ ·)) ++ l.lead ++ closing

end Layout

mutual

def toJson (l : Layout) : Data → String
  | null => "null"
  | bool b => if b then "true" else "false"
  | int n => toString n
  | real x => jsonReal x
  | text s => jsonText s
  | codes points => jsonCodes points
  | stamp s => jsonText s.text
  | list items => l.enclose "[" "]" (itemsToJson l items)
  | map entries => l.enclose "\x7b" "\x7d" (entriesToJson l entries)

def itemsToJson (l : Layout) : List Data → List String
  | [] => []
  | d :: ds => toJson l.deeper d :: itemsToJson l ds

def entriesToJson (l : Layout) : List (Data × Data) → List String
  | [] => []
  | (k, v) :: rest => (jsonKey k ++ l.colon ++ toJson l.deeper v) :: entriesToJson l rest

end

end ApiDoc.Data
