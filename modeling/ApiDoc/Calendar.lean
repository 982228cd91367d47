/-!
# Days and moments

A day of the calendar, and a moment of a day, which may tell how far its clock is from the common
one. A stamp can be written down for which there is no such day or moment; the first part of it that
is out of range is reported.
-/

namespace ApiDoc.Calendar

/-- A day as it is written. -/
structure Day where
  year : Nat
  month : Nat
  day : Nat
deriving Repr, DecidableEq, Inhabited

structure Clock where
  hour : Nat
  minute : Nat
  second : Nat
  /-- Millionths of a second. -/
  micro : Nat := 0
  /-- Minutes ahead of the common time, if they are told. -/
  offset : Option Int := none
deriving Repr, DecidableEq, Inhabited

structure Stamp where
  day : Day
  clock : Option Clock := none
deriving Repr, DecidableEq, Inhabited

/-! ## Ranges -/

inductive Fault where
  | year (n : Nat)
  | month
  | day
  | hour
  | minute
  | second
  /-- The clock is a day or more from the common one. -/
  | offset (minutes : Int)
deriving Repr, DecidableEq, Inhabited

/-- Every fourth year is a leap year, of the full hundreds only every fourth one. -/
def isLeap (year : Nat) : Bool :=
  year % 4 == 0 && (year % 100 != 0 || year % 400 == 0)

def monthLength (year month : Nat) : Nat :=
  if month = 2 then if isLeap year then 29 else 28
  else if [4, 6, 9, 11].contains month then 30
  else 31

def Day.fault? (d : Day) : Option Fault :=
  if d.year = 0 then some (.year d.year)
  else if d.month = 0 || 12 < d.month then some .month
  else if d.day = 0 || monthLength d.year d.month < d.day then some .day
  else none

def Clock.fault? (c : Clock) : Option Fault :=
  if 23 < c.hour then some .hour
  else if 59 < c.minute then some .minute
  else if 59 < c.second then some .second
  else none

def dayMinutes : Nat := 1440

/-- A distance of a day or more from the common time. -/
def offsetFault? (c : Clock) : Option Fault :=
  match c.offset with
  | none => none
  | some minutes => if dayMinutes ≤ minutes.natAbs then some (.offset minutes) else none

/-- The first part of a stamp that is out of range; the distance from the common time is looked at
before the day. -/
def Stamp.fault? (s : Stamp) : Option Fault :=
  ((s.clock.bind offsetFault?).or s.day.fault?).or (s.clock.bind Clock.fault?)

/-! ## Texts -/

/-- A number with zeros in front up to a width. -/
def padded (width n : Nat) : String :=
  let digits := toString n
  String.ofList (List.replicate (width - digits.length) '0') ++ digits

/-- A span of minutes as a literal, in days and seconds; the seconds are never negative. -/
def spanLiteral (minutes : Int) : String :=
  let days := minutes.fdiv dayMinutes
  let seconds := 60 * minutes.fmod dayMinutes
  let parts :=
    (if days = 0 then [] else ["days=" ++ toString days]) ++
      (if seconds = 0 then [] else ["seconds=" ++ toString seconds])
  "datetime.timedelta(" ++ (if parts.isEmpty then "0" else ", ".intercalate parts) ++ ")"

def Fault.message : Fault → String
  | year n => "year " ++ toString n ++ " is out of range"
  | month => "month must be in 1..12"
  | day => "day is out of range for month"
  | hour => "hour must be in 0..23"
  | minute => "minute must be in 0..59"
  | second => "second must be in 0..59"
  | offset minutes =>
    "offset must be a timedelta strictly between -timedelta(hours=24) and timedelta(hours=24), " ++
      "not " ++ spanLiteral minutes ++ "."

/-- Year, month and day between hyphens. -/
def Day.text (d : Day) : String :=
  padded 4 d.year ++ "-" ++ padded 2 d.month ++ "-" ++ padded 2 d.day

/-- The distance from the common time in hours and minutes. -/
def offsetText (minutes : Int) : String :=
  (if minutes < 0 then "-" else "+") ++ padded 2 (minutes.natAbs / 60) ++ ":" ++
    padded 2 (minutes.natAbs % 60)

/-- The time of a day; fractions of a second are left out when there are none. -/
def Clock.text (c : Clock) : String :=
  padded 2 c.hour ++ ":" ++ padded 2 c.minute ++ ":" ++ padded 2 c.second ++
    (if c.micro = 0 then "" else "." ++ padded 6 c.micro) ++
    (match c.offset with
      | none => ""
      | some minutes => offsetText minutes)

def Stamp.text (s : Stamp) : String :=
  match s.clock with
  | none => s.day.text
  | some c => s.day.text ++ " " ++ c.text

/-- The numbers of a time in a literal: seconds and their fraction are left out at the end when they
are zero. -/
def Clock.numbers (c : Clock) : List Nat :=
  [c.hour, c.minute] ++
    (if c.micro ≠ 0 then [c.second, c.micro] else if c.second ≠ 0 then [c.second] else [])

def zoneLiteral (minutes : Int) : String :=
  if minutes = 0 then "datetime.timezone.utc"
  else "datetime.timezone(" ++ spanLiteral minutes ++ ")"

/-- The name of the type of a stamp, without the module that it belongs to. -/
def Stamp.kind (s : Stamp) : String :=
  if s.clock.isSome then "datetime" else "date"

def Stamp.literal (s : Stamp) : String :=
  let numbers := [s.day.year, s.day.month, s.day.day] ++ (s.clock.map Clock.numbers).getD []
  let zone := match s.clock.bind Clock.offset with
    | none => []
    | some minutes => ["tzinfo=" ++ zoneLiteral minutes]
  "datetime." ++ s.kind ++ "(" ++ ", ".intercalate (numbers.map toString ++ zone) ++ ")"

end ApiDoc.Calendar
