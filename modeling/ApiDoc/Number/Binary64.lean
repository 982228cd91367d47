/-!
# Double-precision numbers

A number of 64 bits with a sign, eleven bits of exponent and fifty-two bits of fraction, held by
its bits so that equality is decidable, and its shortest decimal text.

The text has the fewest digits that read back as the number, and of those the nearest ones. It is
found by trying one digit, then two, and so on: of the multiples of a power of ten next to the
number, one below and one above, the nearer that still rounds to the number is taken.
-/

namespace ApiDoc.Number

/-- A number given by the 64 bits of its representation. -/
structure Binary64 where
  bits : UInt64
deriving Repr, DecidableEq, Inhabited

namespace Binary64

abbrev power (base exponent : Nat) : Nat :=
  Nat.pow base exponent

def infinity : Binary64 := ⟨0x7FF0000000000000⟩

def negate (x : Binary64) : Binary64 :=
  ⟨(-Float.ofBits x.bits).toBits⟩

/-- The double nearest to the sum. -/
def add (x y : Binary64) : Binary64 :=
  ⟨(Float.ofBits x.bits + Float.ofBits y.bits).toBits⟩

/-- The double nearest to the product. -/
def mul (x y : Binary64) : Binary64 :=
  ⟨(Float.ofBits x.bits * Float.ofBits y.bits).toBits⟩

/-- The double nearest to `digits * 10 ^ exponent`. No double but zero has a magnitude below
`10 ^ (-400)` and no finite one a magnitude above `10 ^ 400`, so powers beyond these are not
computed. -/
def ofDecimal (digits : Nat) (exponent : Int) : Binary64 :=
  if digits = 0 || exponent < -((digits.log2 / 3 : Nat) : Int) - 401 then ⟨0⟩
  else if 400 < exponent then infinity
  else if exponent < 0 then ⟨(Float.ofScientific digits true exponent.natAbs).toBits⟩
  else ⟨(Float.ofScientific digits false exponent.toNat).toBits⟩

/-- The negative numbers, negative zero among them. -/
def isNegative (x : Binary64) : Bool :=
  x.bits.toNat ≥ power 2 63

def exponentField (x : Binary64) : Nat :=
  x.bits.toNat / power 2 52 % power 2 11

def fractionField (x : Binary64) : Nat :=
  x.bits.toNat % power 2 52

def isFinite (x : Binary64) : Bool :=
  x.exponentField != 2047

/-- A non-number. -/
def isNaN (x : Binary64) : Bool :=
  x.exponentField == 2047 && x.fractionField != 0

/-- The magnitude of a finite number as `m * 2 ^ q`. -/
def decode (x : Binary64) : Nat × Int :=
  if x.exponentField = 0 then (x.fractionField, -1074)
  else (x.fractionField + power 2 52, (x.exponentField : Int) - 1075)

/-- A finite number as a quotient of integers. -/
def toQuotient (x : Binary64) : Int × Nat :=
  let (m, q) := x.decode
  let signed : Int := if x.isNegative then -(m : Int) else m
  if q < 0 then (signed, power 2 q.natAbs) else (signed * (power 2 q.toNat : Int), 1)

/-! ## Shortest decimals -/

/-- The multiples of `10 ^ k` on a scale where the number is `value / den`: the greatest one not
above the number, counted in units. -/
def unitsBelow (value den : Nat) (k : Int) : Nat :=
  if k < 0 then value * power 10 k.natAbs / den else value / (den * power 10 k.toNat)

/-- Compare `units * 10 ^ k` with `a / den`. -/
def compareUnits (units : Nat) (k : Int) (a den : Nat) : Ordering :=
  if k < 0 then compare (units * den) (a * power 10 k.natAbs)
  else compare (units * power 10 k.toNat * den) a

/-- The number of decimal digits before the point of `value / den`, zero or negative for numbers
below one. -/
def decimalPoint (value den : Nat) : Int :=
  if den ≤ value then ((Nat.toDigits 10 (value / den)).length : Int)
  else
    -- leading zeros behind the point: the digits of `den / value` up to rounding
    let z := (Nat.toDigits 10 (den / value)).length
    if value * power 10 z < den then -(z : Int)
    else if value * power 10 (z - 1) < den then 1 - (z : Int)
    else 2 - (z : Int)

/-- The interval of the numbers that round to one double, over a common denominator with it. -/
structure Interval where
  value : Nat
  low : Nat
  high : Nat
  den : Nat
  closed : Bool

/-- Does `units * 10 ^ k` lie in the interval? -/
def Interval.holds (i : Interval) (units : Nat) (k : Int) : Bool :=
  match compareUnits units k i.low i.den, compareUnits units k i.high i.den with
  | .gt, .lt => true
  | .eq, _ => i.closed
  | _, .eq => i.closed
  | _, _ => false

/-- Is the value nearer to `(units + 1) * 10 ^ k` than to `units * 10 ^ k`? The middle goes to the
even one. -/
def Interval.nearerAbove (i : Interval) (units : Nat) (k : Int) : Bool :=
  match compareUnits (2 * units + 1) k (2 * i.value) i.den with
  | .lt => true
  | .eq => units % 2 == 1
  | .gt => false

/-- The shortest digits of a positive number with `point` digits before the point, and the power of
ten of the last one. The fuel is the number of digit counts still to try; seventeen digits always
suffice. -/
def Interval.shortestFrom (i : Interval) (point : Int) : (fuel count : Nat) → Nat × Int
  | 0, count => (unitsBelow i.value i.den (point - count), point - count)
  | fuel + 1, count =>
    let k := point - count
    let below := unitsBelow i.value i.den k
    match i.holds below k, i.holds (below + 1) k with
    | true, true => if i.nearerAbove below k then (below + 1, k) else (below, k)
    | true, false => (below, k)
    | false, true => (below + 1, k)
    | false, false => i.shortestFrom point fuel (count + 1)

/-- Digits without the zeros at their end; each zero raises the power of ten. -/
def dropZeros : (fuel : Nat) → Nat × Int → Nat × Int
  | 0, r => r
  | fuel + 1, (n, k) => if n ≠ 0 ∧ n % 10 = 0 then dropZeros fuel (n / 10, k + 1) else (n, k)

/-- The shortest decimal of a finite positive magnitude, as digits and a power of ten. -/
def shortest (x : Binary64) : Nat × Int :=
  let (m, q) := x.decode
  -- four times the number and the ends of the interval that rounds to it, over one denominator
  let gap := if x.fractionField = 0 ∧ x.exponentField > 1 then 1 else 2
  let p := q - 2
  let scale := if p < 0 then 1 else power 2 p.toNat
  let den := if p < 0 then power 2 p.natAbs else 1
  let i : Interval :=
    { value := 4 * m * scale, low := (4 * m - gap) * scale, high := (4 * m + 2) * scale, den,
      closed := m % 2 == 0 }
  dropZeros 400 (i.shortestFrom (decimalPoint i.value den) 17 1)

/-! ## The text -/

/-- The exponents that are written positionally: at most three zeros behind the point, at most
sixteen digits before it. -/
def isPositional (point : Int) : Bool :=
  -4 < point && point ≤ 16

/-- A positive decimal with `point` digits before the point: positional with at least one digit on
either side of the point, or with one digit before the point and a signed exponent of at least two
digits. -/
def decimalText (digits : List Char) (point : Int) : List Char :=
  let n := digits.length
  if isPositional point then
    if point ≤ 0 then "0.".toList ++ List.replicate point.natAbs '0' ++ digits
    else if n ≤ point.toNat then digits ++ List.replicate (point.toNat - n) '0' ++ ".0".toList
    else digits.take point.toNat ++ '.' :: digits.drop point.toNat
  else
    let mantissa := if n = 1 then digits else digits.take 1 ++ '.' :: digits.drop 1
    let e := point - 1
    let ds := Nat.toDigits 10 e.natAbs
    mantissa ++ 'e' :: (if e < 0 then '-' else '+') :: (List.replicate (2 - ds.length) '0' ++ ds)

/-- The text of a number: the shortest decimal that reads back. -/
def text (x : Binary64) : String :=
  if x.isNaN then "nan"
  else
    let sign := if x.isNegative then "-" else ""
    if !x.isFinite then sign ++ "inf"
    else if x.decode.1 = 0 then sign ++ "0.0"
    else
      let (n, k) := x.shortest
      let digits := Nat.toDigits 10 n
      sign ++ String.ofList (decimalText digits (k + digits.length))

end Binary64

end ApiDoc.Number
