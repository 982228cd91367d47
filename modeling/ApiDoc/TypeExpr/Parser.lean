import ApiDoc.TypeExpr.Node
import ApiDoc.TypeExpr.Token

/-!
# Parsing type expressions

A type is one operand or several with `|` between them. An operand is a primary expression under
any number of the modifiers `?`, `!` and `...` in front of it and `[]`, `=`, `?` and `!` behind it;
primary expressions hold further types in brackets of four kinds.

The parser for operands that may nest `d + 1` levels deep is built from the one for `d` levels, so
the limit on nesting is also what ends the recursion. The loops over arguments, parameters and
entries go on only while the row of tokens gets shorter.
-/

namespace ApiDoc.TypeExpr

/-- A reader takes tokens from the front of a row and hands the others on. -/
abbrev Reader (α : Type) := List Token → Except SyntaxError (α × List Token)

/-! ## Looking at the next token -/

/-- The next lexeme; a row that is used up is at its end. -/
def nextLexeme : List Token → Lexeme
  | [] => .stop
  | t :: _ => t.lexeme

def nextPosition : List Token → Nat
  | [] => 0
  | t :: _ => t.position

/-- The tokens after the mark `c`, if the row starts with it. -/
def acceptMark? (c : Char) : List Token → Option (List Token)
  | ⟨.mark d, _⟩ :: ts => if d = c then some ts else none
  | _ => none

/-- The tokens after the mark `c`, which has to come next. -/
def expectMark (c : Char) (ts : List Token) : Except SyntaxError (List Token) :=
  match acceptMark? c ts with
  | some rest => .ok rest
  | none => .error (.expected (String.singleton c) (nextLexeme ts).text (nextPosition ts))

/-- Does the next token end an operand? Before such a token `?` and `...` stand alone. -/
def atBoundary (ts : List Token) : Bool :=
  match nextLexeme ts with
  | .stop => true
  | .mark c => [',', '>', ')', '|', '}', ']', '='].contains c
  | _ => false

/-! ## Lists of items -/

/-- One or more items with the mark `c` between each two. -/
def sepBy {α : Type} (item : Reader α) (c : Char) (ts : List Token) :
    Except SyntaxError (List α × List Token) :=
  match item ts with
  | .error e => .error e
  | .ok (a, rest) =>
    match acceptMark? c rest with
    | none => .ok ([a], rest)
    | some more =>
      if more.length < ts.length then
        match sepBy item c more with
        | .error e => .error e
        | .ok (as, rest') => .ok (a :: as, rest')
      else .ok ([a], rest)
termination_by ts.length

/-- One or more items with commas between them, up to and with the mark `close`. -/
def listUntil {α : Type} (item : Reader α) (close : Char) (ts : List Token) :
    Except SyntaxError (List α × List Token) :=
  match item ts with
  | .error e => .error e
  | .ok (a, rest) =>
    match acceptMark? close rest with
    | some rest' => .ok ([a], rest')
    | none =>
      match expectMark ',' rest with
      | .error e => .error e
      | .ok more =>
        if more.length < ts.length then
          match listUntil item close more with
          | .error e => .error e
          | .ok (as, rest') => .ok (a :: as, rest')
        else .ok ([a], more)
termination_by ts.length

/-! ## Types over a given reader of operands -/

section

variable (operand : Reader Node)

/-- A type: a single operand stands for itself, several form a union. -/
def readType : Reader Node := fun ts =>
  match sepBy operand '|' ts with
  | .error e => .error e
  | .ok ([node], rest) => .ok (node, rest)
  | .ok (members, rest) => .ok ({ kind := .union, children := members }, rest)

/-- What follows a name: type arguments in `<>`, possibly after a dot, or nothing. -/
def readNamed (name : String) : Reader Node := fun ts =>
  let ts := match ts with
    | ⟨.mark '.', _⟩ :: ⟨.mark '<', p⟩ :: rest => ⟨.mark '<', p⟩ :: rest
    | ts => ts
  match acceptMark? '<' ts with
  | none => .ok ({ kind := .name, name := some name }, ts)
  | some inner =>
    match sepBy (readType operand) ',' inner with
    | .error e => .error e
    | .ok (arguments, rest) =>
      match expectMark '>' rest with
      | .error e => .error e
      | .ok rest' => .ok ({ kind := .generic, name := some name, children := arguments }, rest')

/-- One parameter: a type, after `this:` or `new:` if it is the receiver. -/
def readParam : Reader Node := fun ts =>
  match ts with
  | ⟨.name "this", _⟩ :: ⟨.mark ':', _⟩ :: rest => readType operand rest
  | ⟨.name "new", _⟩ :: ⟨.mark ':', _⟩ :: rest => readType operand rest
  | ts => readType operand ts

/-- The return type after the parameters of a function, if there is one. -/
def readReturns (params : List Node) : Reader Node := fun ts =>
  match acceptMark? ':' ts with
  | none => .ok ({ kind := .function, children := params }, ts)
  | some rest =>
    match operand rest with
    | .error e => .error e
    | .ok (node, rest') => .ok ({ kind := .function, children := params, returns := some node }, rest')

def readFunction : Reader Node := fun ts =>
  match acceptMark? ')' ts with
  | some rest => readReturns operand [] rest
  | none =>
    match listUntil (readParam operand) ')' ts with
    | .error e => .error e
    | .ok (params, rest) => readReturns operand params rest

/-- The text between the quotes of a string. -/
def unquoted (text : String) : String :=
  String.ofList (text.toList.drop 1).dropLast

/-- The key of a record entry, if the lexeme can be one. -/
def Lexeme.key? : Lexeme → Option String
  | .quoted text => some (unquoted text)
  | .name text => some text
  | .number text => some text
  | _ => none

/-- One entry of a record: a key, and a type after a colon. -/
def readEntry : Reader Node := fun ts =>
  match ts with
  | [] => .error (.expectedKey "" 0)
  | t :: rest =>
    match t.lexeme.key? with
    | none => .error (.expectedKey t.lexeme.text t.position)
    | some key =>
      match acceptMark? ':' rest with
      | none => .ok ({ kind := .recordEntry, name := some key }, rest)
      | some rest' =>
        match readType operand rest' with
        | .error e => .error e
        | .ok (node, rest'') =>
          .ok ({ kind := .recordEntry, name := some key, children := [node] }, rest'')

/-- A record after its opening brace. -/
def readRecord : Reader Node := fun ts =>
  match acceptMark? '}' ts with
  | some rest => .ok ({ kind := .record }, rest)
  | none =>
    match listUntil (readEntry operand) '}' ts with
    | .error e => .error e
    | .ok (entries, rest) => .ok ({ kind := .record, children := entries }, rest)

/-- A primary expression: a name, a literal, `*`, or something in brackets. -/
def readPrimary : Reader Node := fun ts =>
  match ts with
  | ⟨.name text, _⟩ :: rest =>
    match text, acceptMark? '(' rest with
    | "function", some inner => readFunction operand inner
    | text, _ => readNamed operand text rest
  | ⟨.quoted text, _⟩ :: rest => .ok ({ kind := .stringValue, value := some (unquoted text) }, rest)
  | ⟨.number text, _⟩ :: rest => .ok ({ kind := .numberValue, value := some text }, rest)
  | ⟨.mark '*', _⟩ :: rest => .ok ({ kind := .any }, rest)
  | ⟨.mark '(', _⟩ :: rest =>
    match readType operand rest with
    | .error e => .error e
    | .ok (node, rest') =>
      match expectMark ')' rest' with
      | .error e => .error e
      | .ok rest'' => .ok ({ kind := .parenthesis, children := [node] }, rest'')
  | ⟨.mark '{', _⟩ :: rest => readRecord operand rest
  | ts => .error (.unexpected (nextLexeme ts).text (nextPosition ts))

/-- The modifiers behind an expression, innermost first. -/
def readSuffixes (node : Node) : List Token → Node × List Token
  | ⟨.mark '[', _⟩ :: ⟨.mark ']', _⟩ :: ts =>
    readSuffixes { kind := .generic, name := some "Array", children := [node] } ts
  | ⟨.mark '=', _⟩ :: ts => readSuffixes { kind := .optional, children := [node] } ts
  | ⟨.mark '?', _⟩ :: ts => readSuffixes { kind := .nullable, children := [node] } ts
  | ⟨.mark '!', _⟩ :: ts => readSuffixes { kind := .notNullable, children := [node] } ts
  | ts => (node, ts)

/-- A primary expression with the modifiers behind it. -/
def readSuffixed : Reader Node := fun ts =>
  match readPrimary operand ts with
  | .error e => .error e
  | .ok (node, rest) => .ok (readSuffixes node rest)

def readUnder (kind : Kind) : Reader Node := fun ts =>
  match operand ts with
  | .error e => .error e
  | .ok (node, rest) => .ok ({ kind, children := [node] }, rest)

/-- An operand whose inner operands are read by `operand`. -/
def readModified : Reader Node := fun ts =>
  match ts with
  | ⟨.mark '?', _⟩ :: rest =>
    if atBoundary rest then .ok ({ kind := .unknown }, rest) else readUnder operand .nullable rest
  | ⟨.mark '!', _⟩ :: rest => readUnder operand .notNullable rest
  | ⟨.ellipsis, _⟩ :: rest =>
    if atBoundary rest then .ok ({ kind := .variadic }, rest) else readUnder operand .variadic rest
  | ts => readSuffixed operand ts

end

/-! ## The parser -/

/-- An operand with at most `depth` operands inside each other. -/
def readOperand : Nat → Reader Node
  | 0 => fun ts => .error (.tooDeep (nextPosition ts))
  | depth + 1 => readModified (readOperand depth)

/-- How many operands may stand inside each other. -/
def maxDepth : Nat := 64

/-- A type with operands nested at most `depth` deep, and nothing after it. -/
def readAll (depth : Nat) (ts : List Token) : Except SyntaxError Node :=
  match readType (readOperand depth) ts with
  | .error e => .error e
  | .ok (node, rest) =>
    match nextLexeme rest with
    | .stop => .ok node
    | l => .error (.unexpected l.text (nextPosition rest))

def parseNode (source : String) : Except SyntaxError Node :=
  if Text.isBlankText source.toList then .error .empty
  else
    match tokens source with
    | .error e => .error e
    | .ok ts => readAll maxDepth ts

end ApiDoc.TypeExpr
