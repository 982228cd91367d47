import ApiDoc.Data.Basic

/-!
# What cannot be shown

Two sorts of values cannot be put on a page: those with a whole number of too many digits, for which
no text is made at all, and texts with halves of surrogate pairs, which cannot be written to a file.
-/

namespace ApiDoc.Data

/-- The greatest number of decimal digits of a number that is shown. -/
def maxShownDigits : Nat := 4300

inductive Unshowable where
  | longNumber
  /-- Halves of surrogate pairs stand in it: where the first ones start, which one that is, and how
  many stand together. -/
  | halves (place code count : Nat)
deriving Repr, DecidableEq, Inhabited

def Unshowable.message : Unshowable → String
  | longNumber =>
    "Exceeds the limit (" ++ toString maxShownDigits ++ " digits) for integer string " ++
      "conversion; use sys.set_int_max_str_digits() to increase the limit"
  | halves place code count =>
    "'utf-8' codec can't encode " ++
      (if count = 1 then
        "character '" ++ String.ofList ('\\' :: 'u' :: Text.hex 4 code) ++ "' in position " ++
          toString place
      else
        "characters in position " ++ toString place ++ "-" ++ toString (place + count - 1)) ++
      ": surrogates not allowed"

/-- The cause for a value that stands behind other characters. -/
def Unshowable.behind (characters : Nat) : Unshowable → Unshowable
  | longNumber => longNumber
  | halves place code count => halves (characters + place) code count

mutual

def hasLongNumber : Data → Bool
  | int n => Number.Binary64.power 10 maxShownDigits ≤ n.natAbs
  | list items => anyLongNumber items
  | map entries => anyLongEntry entries
  | _ => false

def anyLongNumber : List Data → Bool
  | [] => false
  | d :: ds => hasLongNumber d || anyLongNumber ds

/-- Has a number in one of the keys or values too many digits? -/
def anyLongEntry : List (Data × Data) → Bool
  | [] => false
  | (k, v) :: rest => hasLongNumber k || hasLongNumber v || anyLongEntry rest

end

/-- The first halves of surrogate pairs among code points. -/
def halvesIn? (codes : List Nat) : Option Unshowable :=
  match codes.dropWhile Nat.isValidChar with
  | [] => none
  | code :: rest =>
    some (.halves (codes.takeWhile Nat.isValidChar).length code
      ((rest.takeWhile (!Nat.isValidChar ·)).length + 1))

/-- Why the value cannot be shown, if so. Inside lists and maps texts are quoted, which halves of
surrogate pairs do not hinder. -/
def unshowable? (d : Data) : Option Unshowable :=
  if d.hasLongNumber then some .longNumber
  else
    match d with
    | codes points => halvesIn? points
    | _ => none

end ApiDoc.Data
