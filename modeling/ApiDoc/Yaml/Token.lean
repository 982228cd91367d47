import ApiDoc.Calendar

/-!
# Tokens of YAML documents

The text of a document becomes a row of tokens in which indentation has turned into marks for the
start and end of blocks, and in which every key is announced by a mark of its own. A text that
cannot be read to its end gives the tokens up to the fault, with the fault as the last one, so that
a token out of place is reported before a fault behind it.
-/

namespace ApiDoc.Yaml

inductive Fault where
  | unprintable (c : Char)
  | strayChar (c : Char)
  /-- A text at the start of a line turned out not to be a key. -/
  | missingColon
  /-- A key, a value or an entry where none may stand. -/
  | misplaced
  /-- A quoted text without end. -/
  | unclosedQuote
  /-- A backslash before something that it cannot escape. -/
  | badEscape
  /-- An escaped code point beyond the last one. -/
  | codeOutOfRange
  /-- An escaped code point that is not even a number of 31 bits. -/
  | codeTooLarge
  /-- Something other than its marks after `|` or `>`. -/
  | badBlockHeader
  /-- A malformed line that starts with a percent sign. -/
  | badDirective
  /-- A mark out of place. -/
  | unexpectedToken
  | severalDocuments
  /-- A scalar that stands for nothing. -/
  | unknownScalar (text : String)
  | collectionAsKey
  /-- A merge key over something that has no entries. -/
  | nothingToMerge
  | noDigits (base : Nat)
  | tooManyDigits (count : Nat)
  /-- A number with so many groups of sixty that the first of them has no double. -/
  | tooManyGroups
  /-- A stamp of a day or moment that there is not. -/
  | calendar (f : Calendar.Fault)
deriving Repr, DecidableEq, Inhabited

/-- The greatest number of digits of a whole number that is written in decimal digits. -/
def maxDigits : Nat := 4300

/-- The message of a fault. Whatever is wrong with the form of a document has the same one. -/
def Fault.message : Fault → String
  | codeOutOfRange => "chr() arg not in range(0x110000)"
  | codeTooLarge => "Python int too large to convert to C int"
  | noDigits base => "invalid literal for int() with base " ++ toString base ++ ": ''"
  | tooManyDigits count =>
    "Exceeds the limit (" ++ toString maxDigits ++ " digits) for integer string conversion: " ++
      "value has " ++ toString count ++ " digits; use sys.set_int_max_str_digits() to increase " ++
      "the limit"
  | tooManyGroups => "int too large to convert to float"
  | calendar f => f.message
  | _ => "the settings are not a document"

/-- What a line that starts with a percent sign says. -/
inductive Directive where
  /-- The version of the format. -/
  | version (major minor : Nat)
  /-- A short form for tags. -/
  | tag (handle : String)
  | other
deriving Repr, DecidableEq, Inhabited

/-- A token. -/
inductive Token where
  | directive (d : Directive)
  | documentStart
  | documentEnd
  | blockListStart
  | blockMapStart
  | blockEnd
  | listStart
  | listEnd
  | mapStart
  | mapEnd
  | comma
  | entry
  | key
  | value
  | scalar (text : String) (plain : Bool)
  /-- A quoted scalar with halves of surrogate pairs in it, by its code points. -/
  | codes (points : List Nat)
  | stop
  | broken (f : Fault)
deriving Repr, DecidableEq, Inhabited

end ApiDoc.Yaml
