import ApiDoc.TypeExpr.Parser

/-!
# The written form of types

A grammar of type expressions in which only trees with a written form can be built: a modifier
behind an operand stands only after an operand that it cannot be taken away from (`Closed`), a
union has at least two alternatives, a generic at least one argument. Each tree has

* its written form (`Ty.pieces`, `Ty.written`): words with blanks after commas and colons;
* the node that stands for it (`Ty.node`);
* its nesting (`Ty.nest`): how many operands stand inside each other. A modifier behind an operand
  opens no new level, a modifier before it and every bracket do.
-/

namespace ApiDoc.TypeExpr

open Text

/-! ## Words -/

/-- A letter, a low line or a dollar sign, and then word characters and dollar signs. -/
structure Ident where
  first : Char
  rest : List Char
  first_ok : isNameStart first = true
  rest_ok : ∀ c ∈ rest, isNamePart c = true

def Ident.chars (i : Ident) : List Char :=
  i.first :: i.rest

/-- Identifiers with dots between them. -/
structure DottedName where
  head : Ident
  tail : List Ident := []

def DottedName.chars (n : DottedName) : List Char :=
  n.head.chars ++ n.tail.flatMap fun i => '.' :: i.chars

/-- One or more digits. -/
structure Digits where
  chars : List Char
  ne_nil : chars ≠ []
  digits : ∀ c ∈ chars, isDigit c = true

/-- A number, with or without a minus sign and a fraction. -/
structure Numeral where
  negative : Bool
  whole : Digits
  fraction : Option Digits

def Numeral.chars (k : Numeral) : List Char :=
  (if k.negative then ['-'] else []) ++ k.whole.chars ++
    (k.fraction.elim [] fun f => '.' :: f.chars)

/-- What may stand between two quotes `q`: any characters but the quote and the backslash, and a
backslash with any character but a line feed after it. -/
inductive QuotedBody (q : Char) : List Char → Prop where
  | nil : QuotedBody q []
  | plain {c : Char} {cs : List Char} : c ≠ q → c ≠ '\\' → QuotedBody q cs → QuotedBody q (c :: cs)
  | escaped {c : Char} {cs : List Char} : c ≠ '\n' → QuotedBody q cs →
      QuotedBody q ('\\' :: c :: cs)

/-- A string in single or double quotes. -/
structure Literal where
  quote : Char
  body : List Char
  quote_ok : quote = '"' ∨ quote = '\''
  body_ok : QuotedBody quote body

/-- The characters of a string, the quotes included. -/
def Literal.chars (s : Literal) : List Char :=
  s.quote :: (s.body ++ [s.quote])

def DottedName.lexeme (n : DottedName) : Lexeme := .name (String.ofList n.chars)

def Numeral.lexeme (k : Numeral) : Lexeme := .number (String.ofList k.chars)

def Literal.lexeme (s : Literal) : Lexeme := .quoted (String.ofList s.chars)

/-- The key of a record entry. -/
inductive Key where
  | name (n : DottedName)
  | number (k : Numeral)
  | quoted (s : Literal)

def Key.lexeme : Key → Lexeme
  | .name n => n.lexeme
  | .number k => k.lexeme
  | .quoted s => s.lexeme

/-- What a key stands for: a string without its quotes, any other key as it is. -/
def Key.text : Key → String
  | .name n => String.ofList n.chars
  | .number k => String.ofList k.chars
  | .quoted s => String.ofList s.body

/-! ## Trees -/

mutual

/-- An operand that a modifier may follow. -/
inductive Closed where
  | name (n : DottedName)
  | any
  | stringValue (s : Literal)
  | numberValue (k : Numeral)
  | generic (n : DottedName) (first : Ty) (more : List Ty)
  | record (entries : List Entry)
  | parenthesis (t : Ty)
  | function (params : List Ty)
  | optional (c : Closed)

/-- An operand. A function with a return type is not closed: what follows it follows the return
type. -/
inductive Operand where
  | closed (c : Closed)
  | unknown
  | returning (params : List Ty) (returns : Operand)
  | nullable (o : Operand)
  | notNullable (o : Operand)
  | variadic (o : Operand)
  | variadicAlone

/-- A type: an operand, or a union of two or more. -/
inductive Ty where
  | operand (o : Operand)
  | union (first second : Operand) (more : List Operand)

/-- An entry of a record. -/
inductive Entry where
  | bare (k : Key)
  | typed (k : Key) (t : Ty)

end

/-! ## The written form -/

/-- A word or a blank. -/
inductive Piece where
  | word (l : Lexeme)
  | blank

def Piece.chars : Piece → List Char
  | .word l => l.text.toList
  | .blank => [' ']

def charsOf (ps : List Piece) : List Char :=
  ps.flatMap Piece.chars

def mark (c : Char) : Piece := .word (.mark c)

mutual

def Closed.pieces : Closed → List Piece
  | .name n => [.word n.lexeme]
  | .any => [mark '*']
  | .stringValue s => [.word s.lexeme]
  | .numberValue k => [.word k.lexeme]
  | .generic n t ts =>
    .word n.lexeme :: mark '<' :: (t.pieces ++ (Ty.morePieces ts ++ [mark '>']))
  | .record es => mark '{' :: (Entry.listPieces es ++ [mark '}'])
  | .parenthesis t => mark '(' :: (t.pieces ++ [mark ')'])
  | .function ps => .word (.name "function") :: mark '(' :: (Ty.listPieces ps ++ [mark ')'])
  | .optional c => c.pieces ++ [mark '=']

def Operand.pieces : Operand → List Piece
  | .closed c => c.pieces
  | .unknown => [mark '?']
  | .returning ps r =>
    .word (.name "function") :: mark '(' ::
      (Ty.listPieces ps ++ mark ')' :: mark ':' :: .blank :: r.pieces)
  | .nullable o => mark '?' :: o.pieces
  | .notNullable o => mark '!' :: o.pieces
  | .variadic o => .word .ellipsis :: o.pieces
  | .variadicAlone => [.word .ellipsis]

def Ty.pieces : Ty → List Piece
  | .operand o => o.pieces
  | .union a b os => a.pieces ++ mark '|' :: (b.pieces ++ Operand.morePieces os)

def Entry.pieces : Entry → List Piece
  | .bare k => [.word k.lexeme]
  | .typed k t => .word k.lexeme :: mark ':' :: .blank :: t.pieces

/-- The pieces of types with commas between them. -/
def Ty.listPieces : List Ty → List Piece
  | [] => []
  | t :: ts => t.pieces ++ Ty.morePieces ts

/-- The pieces of types with a comma before each. -/
def Ty.morePieces : List Ty → List Piece
  | [] => []
  | t :: ts => mark ',' :: .blank :: (t.pieces ++ Ty.morePieces ts)

/-- The pieces of operands with a bar before each. -/
def Operand.morePieces : List Operand → List Piece
  | [] => []
  | o :: os => mark '|' :: (o.pieces ++ Operand.morePieces os)

/-- The pieces of record entries with commas between them. -/
def Entry.listPieces : List Entry → List Piece
  | [] => []
  | e :: es => e.pieces ++ Entry.morePieces es

/-- The pieces of record entries with a comma before each. -/
def Entry.morePieces : List Entry → List Piece
  | [] => []
  | e :: es => mark ',' :: .blank :: (e.pieces ++ Entry.morePieces es)

end

/-- The written form of a type. -/
def Ty.written (t : Ty) : String :=
  String.ofList (charsOf t.pieces)

/-! ## Nodes -/

mutual

def Closed.node : Closed → Node
  | .name n => { kind := .name, name := some (String.ofList n.chars) }
  | .any => { kind := .any }
  | .stringValue s => { kind := .stringValue, value := some (String.ofList s.body) }
  | .numberValue k => { kind := .numberValue, value := some (String.ofList k.chars) }
  | .generic n t ts =>
    { kind := .generic, name := some (String.ofList n.chars), children := t.node :: Ty.nodes ts }
  | .record es => { kind := .record, children := Entry.nodes es }
  | .parenthesis t => { kind := .parenthesis, children := [t.node] }
  | .function ps => { kind := .function, children := Ty.nodes ps }
  | .optional c => { kind := .optional, children := [c.node] }

def Operand.node : Operand → Node
  | .closed c => c.node
  | .unknown => { kind := .unknown }
  | .returning ps r => { kind := .function, children := Ty.nodes ps, returns := some r.node }
  | .nullable o => { kind := .nullable, children := [o.node] }
  | .notNullable o => { kind := .notNullable, children := [o.node] }
  | .variadic o => { kind := .variadic, children := [o.node] }
  | .variadicAlone => { kind := .variadic }

def Ty.node : Ty → Node
  | .operand o => o.node
  | .union a b os => { kind := .union, children := a.node :: b.node :: Operand.nodes os }

def Entry.node : Entry → Node
  | .bare k => { kind := .recordEntry, name := some k.text }
  | .typed k t => { kind := .recordEntry, name := some k.text, children := [t.node] }

def Ty.nodes : List Ty → List Node
  | [] => []
  | t :: ts => t.node :: Ty.nodes ts

def Operand.nodes : List Operand → List Node
  | [] => []
  | o :: os => o.node :: Operand.nodes os

def Entry.nodes : List Entry → List Node
  | [] => []
  | e :: es => e.node :: Entry.nodes es

end

/-! ## Nesting -/

mutual

/-- How many operands stand inside each other in a closed operand, itself included. -/
def Closed.nest : Closed → Nat
  | .name _ => 1
  | .any => 1
  | .stringValue _ => 1
  | .numberValue _ => 1
  | .generic _ t ts => 1 + max t.nest (Ty.nestAll ts)
  | .record es => 1 + Entry.nestAll es
  | .parenthesis t => 1 + t.nest
  | .function ps => 1 + Ty.nestAll ps
  | .optional c => c.nest

def Operand.nest : Operand → Nat
  | .closed c => c.nest
  | .unknown => 1
  | .returning ps r => 1 + max (Ty.nestAll ps) r.nest
  | .nullable o => 1 + o.nest
  | .notNullable o => 1 + o.nest
  | .variadic o => 1 + o.nest
  | .variadicAlone => 1

/-- The nesting of a type is that of its deepest operand. -/
def Ty.nest : Ty → Nat
  | .operand o => o.nest
  | .union a b os => max a.nest (max b.nest (Operand.nestAll os))

def Entry.nest : Entry → Nat
  | .bare _ => 0
  | .typed _ t => t.nest

def Ty.nestAll : List Ty → Nat
  | [] => 0
  | t :: ts => max t.nest (Ty.nestAll ts)

def Operand.nestAll : List Operand → Nat
  | [] => 0
  | o :: os => max o.nest (Operand.nestAll os)

def Entry.nestAll : List Entry → Nat
  | [] => 0
  | e :: es => max e.nest (Entry.nestAll es)

end

theorem Closed.nest_pos : ∀ c : Closed, 0 < c.nest
  | .name _ | .any | .stringValue _ | .numberValue _ => Nat.one_pos
  | .generic .. | .record _ | .parenthesis _ | .function _ => by rw [Closed.nest]; omega
  | .optional c => by rw [Closed.nest]; exact c.nest_pos

theorem Operand.nest_pos : ∀ o : Operand, 0 < o.nest
  | .closed c => by rw [Operand.nest]; exact c.nest_pos
  | .unknown | .variadicAlone => Nat.one_pos
  | .returning .. | .nullable _ | .notNullable _ | .variadic _ => by rw [Operand.nest]; omega

/-! ## Rows

The functions on rows in the mutual blocks are the usual ones on lists. -/

/-- A row of items with a mark and a gap before each. -/
def marked {ι : Type} (pieces : ι → List Piece) (c : Char) (gap : List Piece) (xs : List ι) :
    List Piece :=
  xs.flatMap fun x => mark c :: (gap ++ pieces x)

section

variable {ι β : Type}

theorem eq_flatMap_of_cons {f : List ι → List β} {g : ι → List β} (hnil : f [] = [])
    (hcons : ∀ x xs, f (x :: xs) = g x ++ f xs) (xs : List ι) : f xs = xs.flatMap g := by
  induction xs with
  | nil => exact hnil
  | cons x xs ih => rw [hcons, ih, List.flatMap_cons]

theorem eq_map_of_cons {f : List ι → List β} {g : ι → β} (hnil : f [] = [])
    (hcons : ∀ x xs, f (x :: xs) = g x :: f xs) (xs : List ι) : f xs = xs.map g := by
  induction xs with
  | nil => exact hnil
  | cons x xs ih => rw [hcons, ih, List.map_cons]

theorem le_iff_of_cons {f : List ι → Nat} {g : ι → Nat} (hnil : f [] = 0)
    (hcons : ∀ x xs, f (x :: xs) = max (g x) (f xs)) {xs : List ι} {d : Nat} :
    f xs ≤ d ↔ ∀ x ∈ xs, g x ≤ d := by
  induction xs with
  | nil => simp [hnil]
  | cons x xs ih => rw [hcons, Nat.max_le, ih, List.forall_mem_cons]

end

theorem Operand.morePieces_eq (os : List Operand) :
    Operand.morePieces os = marked Operand.pieces '|' [] os :=
  eq_flatMap_of_cons rfl (fun _ _ => rfl) os

theorem Ty.morePieces_eq (ts : List Ty) :
    Ty.morePieces ts = marked Ty.pieces ',' [.blank] ts :=
  eq_flatMap_of_cons rfl (fun _ _ => rfl) ts

theorem Entry.morePieces_eq (es : List Entry) :
    Entry.morePieces es = marked Entry.pieces ',' [.blank] es :=
  eq_flatMap_of_cons rfl (fun _ _ => rfl) es

theorem Operand.nodes_eq (os : List Operand) : Operand.nodes os = os.map Operand.node :=
  eq_map_of_cons rfl (fun _ _ => rfl) os

theorem Ty.nodes_eq (ts : List Ty) : Ty.nodes ts = ts.map Ty.node :=
  eq_map_of_cons rfl (fun _ _ => rfl) ts

theorem Entry.nodes_eq (es : List Entry) : Entry.nodes es = es.map Entry.node :=
  eq_map_of_cons rfl (fun _ _ => rfl) es

theorem Operand.nestAll_le {os : List Operand} {d : Nat} :
    Operand.nestAll os ≤ d ↔ ∀ o ∈ os, o.nest ≤ d :=
  le_iff_of_cons rfl fun _ _ => rfl

theorem Ty.nestAll_le {ts : List Ty} {d : Nat} : Ty.nestAll ts ≤ d ↔ ∀ t ∈ ts, t.nest ≤ d :=
  le_iff_of_cons rfl fun _ _ => rfl

theorem Entry.nestAll_le {es : List Entry} {d : Nat} :
    Entry.nestAll es ≤ d ↔ ∀ e ∈ es, e.nest ≤ d :=
  le_iff_of_cons rfl fun _ _ => rfl

end ApiDoc.TypeExpr
