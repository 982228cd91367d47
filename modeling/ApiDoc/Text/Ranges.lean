/-!
# Character classes as ranges

A class of characters that no short rule describes is a table of inclusive ranges of code points.
-/

namespace ApiDoc.Text

/-- Does some range of the table hold the character? -/
def inRanges (table : Array (Nat × Nat)) (c : Char) : Bool :=
  table.any fun r => r.1 ≤ c.toNat && c.toNat ≤ r.2

end ApiDoc.Text
