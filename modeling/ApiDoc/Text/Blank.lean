/-!
# Blank characters

White space as Unicode lists it, the part of it that stays inside a line, and the removal of white
space at the ends of a text.
-/

namespace ApiDoc.Text

/-- White space: the controls from tab to carriage return, the four information separators, next
line, and every space, line and paragraph separator. Zero-width characters are not blank. -/
def isBlank (c : Char) : Bool :=
  let n := c.toNat
  (9 ≤ n && n ≤ 13) || (28 ≤ n && n ≤ 32) || n == 0x85 || n == 0xA0 || n == 0x1680
    || (0x2000 ≤ n && n ≤ 0x200A) || n == 0x2028 || n == 0x2029 || n == 0x202F || n == 0x205F
    || n == 0x3000

/-- White space other than line feed and carriage return. -/
def isInlineBlank (c : Char) : Bool :=
  isBlank c && c != '\n' && c != '\r'

/-- The text without the blanks at its start. -/
def stripStart (cs : List Char) : List Char :=
  cs.dropWhile isBlank

/-- The text without the blanks at its end. -/
def stripEnd (cs : List Char) : List Char :=
  (cs.reverse.dropWhile isBlank).reverse

/-- The text without the blanks at either end. -/
def strip (cs : List Char) : List Char :=
  stripEnd (stripStart cs)

def trim (s : String) : String :=
  String.ofList (strip s.toList)

def isBlankText (cs : List Char) : Bool :=
  cs.all isBlank

/-! ## Small facts -/

theorem isBlank_of_isInlineBlank {c : Char} (h : isInlineBlank c = true) : isBlank c = true := by
  simp [isInlineBlank] at h
  exact h.1.1

end ApiDoc.Text
