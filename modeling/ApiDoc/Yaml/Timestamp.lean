import ApiDoc.Calendar
import ApiDoc.Yaml.Number

/-!
# Stamps of YAML documents

A day is written with four digits for the year and two for month and day. A moment is a day, of which
month and day may have one digit, and a time behind the letter T or blanks; a fraction of the second
and the distance from the common time may follow.
-/

namespace ApiDoc.Yaml

open Calendar

/-- A run of digits whose length lies between two bounds, and what follows. -/
def digits? (least most : Nat) (cs : List Char) : Option (List Char × List Char) :=
  let run := cs.takeWhile isTen
  if least ≤ run.length && run.length ≤ most then some (run, cs.drop run.length) else none

def numberIn? (least most : Nat) (cs : List Char) : Option (Nat × List Char) :=
  (digits? least most cs).map fun r => (digitsValue 10 r.1, r.2)

def markedNumber? (mark : Char) (least most : Nat) : List Char → Option (Nat × List Char)
  | c :: cs => if c == mark then numberIn? least most cs else none
  | [] => none

/-- A day, and what follows. Month and day have at least a number of digits. -/
def day? (least : Nat) (cs : List Char) : Option (Day × List Char) := do
  let (year, cs) ← numberIn? 4 4 cs
  let (month, cs) ← markedNumber? '-' least 2 cs
  let (day, cs) ← markedNumber? '-' least 2 cs
  return (⟨year, month, day⟩, cs)

/-- A blank or a tab. -/
def isInlineBlank (c : Char) : Bool := c == ' ' || c == '\t'

/-- What follows the mark between a day and a time. -/
def afterTimeMark? : List Char → Option (List Char)
  | c :: cs =>
    if c == 'T' || c == 't' then some cs
    else if isInlineBlank c then some (cs.dropWhile isInlineBlank)
    else none
  | [] => none

/-- The millionths in the digits behind the point; further digits are dropped. -/
def millionths (ds : List Char) : Nat :=
  digitsValue 10 ((ds ++ List.replicate 6 '0').take 6)

/-- The fraction of a second, if one follows. -/
def fraction : List Char → Nat × List Char
  | '.' :: cs => (millionths (cs.takeWhile isTen), cs.dropWhile isTen)
  | cs => (0, cs)

/-- The distance from the common time behind its sign, in minutes. -/
def offset? (cs : List Char) : Option Nat := do
  let (hours, cs) ← numberIn? 1 2 cs
  match cs with
  | [] => return 60 * hours
  | cs =>
    match ← markedNumber? ':' 2 2 cs with
    | (minutes, []) => return 60 * hours + minutes
    | _ => none

/-- The distance from the common time at the end of a stamp; nothing if there is none. -/
def zone? (cs : List Char) : Option (Option Int) :=
  if cs.isEmpty then some none
  else
    match cs.dropWhile isInlineBlank with
    | ['Z'] => some (some 0)
    | '+' :: cs => (offset? cs).map fun n => some (n : Int)
    | '-' :: cs => (offset? cs).map fun n => some (-(n : Int))
    | _ => none

def clock? (cs : List Char) : Option Clock := do
  let (hour, cs) ← numberIn? 1 2 cs
  let (minute, cs) ← markedNumber? ':' 2 2 cs
  let (second, cs) ← markedNumber? ':' 2 2 cs
  let (micro, cs) := fraction cs
  return ⟨hour, minute, second, micro, ← zone? cs⟩

/-- The stamp that characters are written like, whether there is such a moment or not. -/
def writtenStamp? (cs : List Char) : Option Stamp :=
  match day? 2 cs with
  | some (day, []) => some { day }
  | _ => do
    let (day, cs) ← day? 1 cs
    return { day, clock := some (← clock? (← afterTimeMark? cs)) }

/-- A stamp, if the characters are written like one. -/
def stamp? (cs : List Char) : Option (Except Fault Stamp) :=
  (writtenStamp? cs).map fun s =>
    match s.fault? with
    | some f => .error (.calendar f)
    | none => .ok s

end ApiDoc.Yaml
