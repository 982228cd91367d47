/-!
# Styling

Terminals take an escape character, an opening bracket, numbers and a letter as an order to change
the colour or the like, and show nothing for it. A text that does not go to a terminal is written
without such orders.
-/

namespace ApiDoc.Text

/-- What may stand between the bracket and the letter of an order. -/
def isOrderNumber (c : Char) : Bool :=
  c.isDigit || c == ';' || c == '?'

/-- The length of the order at the start of a text, zero if there is none. -/
def orderLength : List Char → Nat
  | '\x1b' :: '[' :: cs =>
    if (cs.dropWhile isOrderNumber).head?.any Char.isAlpha then
      (cs.takeWhile isOrderNumber).length + 3
    else 0
  | _ => 0

/-- The characters behind a number of them that belong to an order, without further orders. What is
left when an order is taken out is not looked at as an order again. -/
def dropOrders : (inOrder : Nat) → List Char → List Char
  | _, [] => []
  | n + 1, _ :: cs => dropOrders n cs
  | 0, c :: cs =>
    match orderLength (c :: cs) with
    | 0 => c :: dropOrders 0 cs
    | n + 1 => dropOrders n cs

def withoutStyling (s : String) : String :=
  String.ofList (dropOrders 0 s.toList)

end ApiDoc.Text
