import ApiDoc.Text.Quoted

/-!
# What can be wrong with a type expression

Each cause carries the position of the offending character or token; the wording is in one
function.
-/

namespace ApiDoc.TypeExpr

open Text (quote)

/-- Why a text is not a type expression. -/
inductive SyntaxError where
  /-- The text holds nothing but blanks. -/
  | empty
  /-- No token starts with this character. -/
  | strayChar (c : Char) (position : Nat)
  /-- The token cannot stand here; the text of the final token is empty. -/
  | unexpected (found : String) (position : Nat)
  /-- One mark is needed and another token stands here. -/
  | expected (wanted found : String) (position : Nat)
  /-- A record entry starts with neither a name, a number nor a string. -/
  | expectedKey (found : String) (position : Nat)
  /-- More operands inside each other than the parser admits. -/
  | tooDeep (position : Nat)
deriving Repr, DecidableEq, Inhabited

namespace SyntaxError

/-- The place of the fault, counted in characters from the start of the text. -/
def position : SyntaxError → Nat
  | empty => 0
  | strayChar _ p => p
  | unexpected _ p => p
  | expected _ _ p => p
  | expectedKey _ p => p
  | tooDeep p => p

/-- How a token is named in a message. -/
def shown (found : String) : String :=
  quote (if found.isEmpty then "end of input" else found)

/-- What is wrong, without the place. -/
def reason : SyntaxError → String
  | empty => "Empty type expression"
  | strayChar c _ => "Unexpected character " ++ quote (String.singleton c)
  | unexpected found _ => "Unexpected " ++ shown found
  | expected wanted found _ => "Expected " ++ quote wanted ++ ", found " ++ shown found
  | expectedKey found _ => "Expected record key, found " ++ shown found
  | tooDeep _ => "Type expression nested too deeply"

def message (e : SyntaxError) : String :=
  e.reason ++ " at position " ++ toString e.position

end SyntaxError

end ApiDoc.TypeExpr
