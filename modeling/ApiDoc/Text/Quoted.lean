import ApiDoc.Text.Printable

/-!
# Quoted texts

How a text stands inside a message: between single quotes, or between double quotes when it holds
a single quote and no double one. The quote in use, the backslash and every character without a
visible form are escaped.
-/

namespace ApiDoc.Text

/-- The lower-case hexadecimal digits of a number, with zeros in front up to `width`. -/
def hex (width n : Nat) : List Char :=
  let digits := Nat.toDigits 16 n
  List.replicate (width - digits.length) '0' ++ digits

/-- The quote that stands around a text. -/
def quoteMark (cs : List Char) : Char :=
  if cs.contains '\'' && !cs.contains '"' then '"' else '\''

/-- A character by its code point in two, four or eight hexadecimal digits. -/
def escapeByCode (c : Char) : List Char :=
  if c.toNat < 0x100 then '\\' :: 'x' :: hex 2 c.toNat
  else if c.toNat < 0x10000 then '\\' :: 'u' :: hex 4 c.toNat
  else '\\' :: 'U' :: hex 8 c.toNat

def asciiChar (c : Char) : List Char :=
  if c.toNat < 0x80 then [c] else escapeByCode c

/-- One character between quotes `q`: `\n`, `\r` and `\t` by name, other characters without a
visible form by their code point. -/
def quoteChar (q c : Char) : List Char :=
  if c = q ∨ c = '\\' then ['\\', c]
  else if c = '\n' then ['\\', 'n']
  else if c = '\r' then ['\\', 'r']
  else if c = '\t' then ['\\', 't']
  else if isPrintable c then [c]
  else escapeByCode c

def quote (s : String) : String :=
  let cs := s.toList
  let q := quoteMark cs
  String.ofList (q :: cs.flatMap (quoteChar q) ++ [q])

/-- One code point between quotes; one that is no character is written in hexadecimal digits. -/
def quoteCode (q : Char) (n : Nat) : List Char :=
  if n.isValidChar then quoteChar q (Char.ofNat n) else '\\' :: 'u' :: hex 4 n

def quoteCodes (codes : List Nat) : String :=
  let q := quoteMark (codes.map Char.ofNat)
  String.ofList (q :: codes.flatMap (quoteCode q) ++ [q])

end ApiDoc.Text
