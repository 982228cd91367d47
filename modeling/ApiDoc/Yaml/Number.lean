import ApiDoc.Number.Binary64
import ApiDoc.Yaml.Scalar

/-!
# Numbers of YAML documents

Whole numbers may be written with the bases two, eight (a zero in front) and sixteen and in groups
of sixty, with low lines anywhere between their digits; numbers with a fraction have a point, and an
exponent with a sign or groups of sixty. Characters that are written like a number may still stand
for none: then the cause is given.
-/

namespace ApiDoc.Yaml

open Number

/-- A sign in front, and what follows. -/
def splitSign : List Char → Bool × List Char
  | '-' :: cs => (true, cs)
  | '+' :: cs => (false, cs)
  | cs => (false, cs)

def isTen (c : Char) : Bool := '0' ≤ c && c ≤ '9'

def isTenOrLine (c : Char) : Bool := isTen c || c == '_'

/-- The number of digits in a base, low lines left out. -/
def digitsValue (base : Nat) (cs : List Char) : Nat :=
  cs.foldl (fun acc c => if c == '_' then acc else acc * base + (hexValue? c).getD 0) 0

/-- A group of a number in groups of sixty: one digit, or two below sixty. -/
def isSixty : List Char → Bool
  | [a] => isTen a
  | [a, b] => '0' ≤ a && a ≤ '5' && isTen b
  | _ => false

def splitColons : List Char → List (List Char)
  | [] => [[]]
  | ':' :: cs => [] :: splitColons cs
  | c :: cs =>
    match splitColons cs with
    | [] => [[c]]
    | p :: ps => (c :: p) :: ps

/-- A number in decimal digits, of which there may not be too many. -/
def decimal (cs : List Char) : Except Fault Nat :=
  let digits := cs.filter (· != '_')
  if maxDigits < digits.length then .error (.tooManyDigits digits.length)
  else .ok (digitsValue 10 digits)

/-- A number in another base, of which there has to be a digit. -/
def inBase (base : Nat) (cs : List Char) : Except Fault Nat :=
  if cs.all (· == '_') then .error (.noDigits base) else .ok (digitsValue base cs)

/-- A number without a sign, if the characters are written like one. -/
def unsignedInt? (cs : List Char) : Option (Except Fault Nat) :=
  match cs with
  | ['0'] => some (.ok 0)
  | '0' :: 'b' :: ds =>
    if !ds.isEmpty && ds.all fun c => c == '0' || c == '1' || c == '_' then some (inBase 2 ds)
    else none
  | '0' :: 'x' :: ds =>
    if !ds.isEmpty && ds.all fun c => (hexValue? c).isSome || c == '_' then some (inBase 16 ds)
    else none
  | '0' :: ds =>
    if ds.all fun c => ('0' ≤ c && c ≤ '7') || c == '_' then some (.ok (digitsValue 8 ds)) else none
  | c :: ds =>
    if !('1' ≤ c && c ≤ '9') then none
    else if ds.all isTenOrLine then some (decimal (c :: ds))
    else
      match splitColons (c :: ds) with
      | first :: groups =>
        if first.all isTenOrLine && groups.all isSixty then
          some ((decimal first).map fun n =>
            groups.foldl (fun acc g => acc * 60 + digitsValue 10 g) n)
        else none
      | [] => none
  | [] => none

def int? (cs : List Char) : Option (Except Fault Int) :=
  let (negative, cs) := splitSign cs
  (unsignedInt? cs).map fun r => r.map fun n => if negative then -(n : Int) else n

/-- The exponent of a number with a fraction: the letter, a sign and digits, or nothing. -/
def exponent? : List Char → Option Int
  | [] => some 0
  | e :: sign :: ds =>
    if (e == 'e' || e == 'E') && (sign == '+' || sign == '-') && !ds.isEmpty && ds.all isTen then
      let n := digitsValue 10 ds
      some (if sign == '-' then -(n : Int) else n)
    else none
  | _ => none

/-- The number with the given digits before and after its point. -/
def realOf (whole fraction : List Char) (exponent : Int) : Binary64 :=
  let fraction := fraction.filter (· != '_')
  Binary64.ofDecimal (digitsValue 10 (whole ++ fraction)) (exponent - fraction.length)

/-- The words for numbers that are not finite. -/
def special? (signed : Bool) (cs : List Char) : Option Binary64 :=
  if [".inf", ".Inf", ".INF"].contains (String.ofList cs) then some .infinity
  else if !signed && [".nan", ".NaN", ".NAN"].contains (String.ofList cs) then
    some ⟨0x7FF8000000000000⟩
  else none

/-- The greatest number of places for which a power of sixty has a double. -/
def maxSixtyPlaces : Nat := 174

/-- The sum of groups of sixty from the last one on. Every product and every sum is rounded, so the
order counts. -/
def sumSixty : (place : Nat) → (sum : Binary64) → List Binary64 → Except Fault Binary64
  | _, sum, [] => .ok sum
  | place, sum, group :: groups =>
    if maxSixtyPlaces ≤ place then .error .tooManyGroups
    else
      let base := Binary64.ofDecimal (Binary64.power 60 place) 0
      sumSixty (place + 1) (sum.add (group.mul base)) groups

/-- A number with a fraction in groups of sixty. -/
def sixtyReal? (whole fraction : List Char) : Option (Except Fault Binary64) :=
  match splitColons whole with
  | first :: group :: groups =>
    if first.all isTenOrLine && (first.head?.any isTen) && (group :: groups).all isSixty then
      let last := realOf ((group :: groups).getLastD []) fraction 0
      let higher := (first :: (group :: groups).dropLast).map fun g => realOf g [] 0
      some (sumSixty 0 ⟨0⟩ (last :: higher.reverse))
    else none
  | _ => none

/-- A number with a fraction and without a sign of its own, if the characters are written like
one. -/
def unsignedReal? (signed : Bool) (cs : List Char) : Option (Except Fault Binary64) :=
  match special? signed cs with
  | some x => some (.ok x)
  | none =>
    let whole := cs.takeWhile (· != '.')
    match cs.dropWhile (· != '.') with
    | '.' :: tail =>
      let fraction := tail.takeWhile isTenOrLine
      let rest := tail.dropWhile isTenOrLine
      if whole.isEmpty then
        if signed || !(fraction.head?.any isTen) then none
        else (exponent? rest).map fun e => .ok (realOf [] fraction e)
      else if whole.all isTenOrLine && whole.head?.any isTen then
        (exponent? rest).map fun e => .ok (realOf whole fraction e)
      else if rest.isEmpty then sixtyReal? whole fraction
      else none
    | _ => none

/-- A number with a fraction, if the characters are written like one. -/
def real? (cs : List Char) : Option (Except Fault Binary64) :=
  let (negative, ds) := splitSign cs
  (unsignedReal? (ds.length != cs.length) ds).map fun r =>
    r.map fun x => if negative then x.negate else x

end ApiDoc.Yaml
