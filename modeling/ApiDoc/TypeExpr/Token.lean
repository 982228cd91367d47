import ApiDoc.Text.Blank
import ApiDoc.Text.Digit
import ApiDoc.Text.Word
import ApiDoc.TypeExpr.Error

/-!
# Tokens of type expressions

A type expression is a row of tokens with blanks anywhere between them: `...`, numbers, quoted
strings, dotted names and single marks, tried in this order. The row ends with a token of its own
that stands at the end of the text.

Main statement: a token is never empty, so every step of the lexer shortens the text.
-/

namespace ApiDoc.TypeExpr

open Text

/-- The text of one token. -/
inductive Lexeme where
  /-- Three dots. -/
  | ellipsis
  /-- A number, as written. -/
  | number (text : String)
  /-- A quoted string, as written and with its quotes. -/
  | quoted (text : String)
  /-- A name, dots included. -/
  | name (text : String)
  /-- A single mark. -/
  | mark (c : Char)
  | stop
deriving Repr, DecidableEq, Inhabited

/-- A lexeme and the place where it starts. -/
structure Token where
  lexeme : Lexeme
  position : Nat
deriving Repr, DecidableEq, Inhabited

namespace Lexeme

/-- The characters of the token; none at the end of the text. -/
def text : Lexeme → String
  | ellipsis => "..."
  | number s => s
  | quoted s => s
  | name s => s
  | mark c => String.singleton c
  | stop => ""

def label : Lexeme → String
  | ellipsis => "ellipsis"
  | number _ => "number"
  | quoted _ => "string"
  | name _ => "name"
  | mark _ => "punct"
  | stop => "end"

end Lexeme

/-! ## Classes of characters -/

/-- The characters that are tokens by themselves. -/
def isMark (c : Char) : Bool :=
  ['|', '<', '>', ',', '(', ')', '{', '}', '[', ']', ':', '?', '!', '=', '*', '.'].contains c

/-- A character that starts a name or a part of it after a dot. -/
def isNameStart (c : Char) : Bool :=
  isAsciiLetter c || c == '_' || c == '$'

def isNamePart (c : Char) : Bool :=
  isWord c || c == '$'

/-! ## Reading one token -/

/-- The longest run of digits and what follows it, if there is a digit at all. -/
def readDigits? (cs : List Char) : Option (List Char × List Char) :=
  match cs.takeWhile isDigit with
  | [] => none
  | ds => some (ds, cs.dropWhile isDigit)

/-- Digits, and a fraction if the dot after them has digits too. -/
def readUnsigned? (cs : List Char) : Option (List Char × List Char) :=
  match readDigits? cs with
  | none => none
  | some (whole, '.' :: rest) =>
    match readDigits? rest with
    | some (fraction, rest') => some (whole ++ '.' :: fraction, rest')
    | none => some (whole, '.' :: rest)
  | some r => some r

/-- A number, with or without a minus sign. -/
def readNumber? : List Char → Option (List Char × List Char)
  | '-' :: cs => (readUnsigned? cs).map fun r => ('-' :: r.1, r.2)
  | cs => readUnsigned? cs

/-- The rest of a string after its opening quote `q`, up to and with the closing one. A backslash
takes the next character with it, which may be anything but a line feed. -/
def readQuotedTail? (q : Char) : List Char → Option (List Char × List Char)
  | [] => none
  | '\\' :: c :: cs =>
    if c = '\n' then none else (readQuotedTail? q cs).map fun r => ('\\' :: c :: r.1, r.2)
  | c :: cs =>
    if c = q then some ([c], cs)
    else if c = '\\' then none
    else (readQuotedTail? q cs).map fun r => (c :: r.1, r.2)

/-- The longest continuation of a name: name characters, and a dot where a new part starts after
it. -/
def readNameTail : List Char → List Char × List Char
  | '.' :: c :: cs =>
    if isNameStart c then
      let r := readNameTail cs
      ('.' :: c :: r.1, r.2)
    else ([], '.' :: c :: cs)
  | c :: cs =>
    if isNamePart c then
      let r := readNameTail cs
      (c :: r.1, r.2)
    else ([], c :: cs)
  | [] => ([], [])

/-- The token at the start of a text and what follows it. -/
def readLexeme? (cs : List Char) : Option (Lexeme × List Char) :=
  match cs with
  | '.' :: '.' :: '.' :: rest => some (.ellipsis, rest)
  | _ =>
    match readNumber? cs with
    | some (text, rest) => some (.number (String.ofList text), rest)
    | none =>
      match cs with
      | [] => none
      | c :: rest =>
        if c = '"' ∨ c = '\'' then
          (readQuotedTail? c rest).map fun r => (.quoted (String.ofList (c :: r.1)), r.2)
        else if isNameStart c then
          let r := readNameTail rest
          some (.name (String.ofList (c :: r.1)), r.2)
        else if isMark c then some (.mark c, rest)
        else none

/-! ## Every token takes something away -/

theorem readDigits?_append {cs ds rest : List Char} (h : readDigits? cs = some (ds, rest)) :
    cs = ds ++ rest ∧ ds ≠ [] := by
  unfold readDigits? at h
  split at h
  · simp at h
  · next hne =>
    simp only [Option.some.injEq, Prod.mk.injEq] at h
    obtain ⟨rfl, rfl⟩ := h
    exact ⟨(List.takeWhile_append_dropWhile).symm, fun e => hne e⟩

theorem readUnsigned?_append {cs ds rest : List Char} (h : readUnsigned? cs = some (ds, rest)) :
    cs = ds ++ rest ∧ ds ≠ [] := by
  unfold readUnsigned? at h
  split at h
  · simp at h
  · next whole tail hw =>
    obtain ⟨hcs, hne⟩ := readDigits?_append hw
    split at h
    · next fraction tail' hf =>
      obtain ⟨htail, _⟩ := readDigits?_append hf
      simp only [Option.some.injEq, Prod.mk.injEq] at h
      obtain ⟨rfl, rfl⟩ := h
      exact ⟨by simp [hcs, htail], by simp [hne]⟩
    · simp only [Option.some.injEq, Prod.mk.injEq] at h
      obtain ⟨rfl, rfl⟩ := h
      exact ⟨hcs, hne⟩
  · next r _ hr =>
    obtain ⟨a, b⟩ := r
    simp only [Option.some.injEq, Prod.mk.injEq] at h
    obtain ⟨rfl, rfl⟩ := h
    exact readDigits?_append hr

theorem readNumber?_append {cs text rest : List Char} (h : readNumber? cs = some (text, rest)) :
    cs = text ++ rest ∧ text ≠ [] := by
  unfold readNumber? at h
  split at h
  · next tail =>
    obtain ⟨⟨a, b⟩, hr, he⟩ := Option.map_eq_some_iff.1 h
    simp only [Prod.mk.injEq] at he
    obtain ⟨rfl, rfl⟩ := he
    exact ⟨by simp [(readUnsigned?_append hr).1], by simp⟩
  · exact readUnsigned?_append h

theorem readQuotedTail?_append {q : Char} {cs text rest : List Char}
    (h : readQuotedTail? q cs = some (text, rest)) : cs = text ++ rest := by
  fun_induction readQuotedTail? q cs generalizing text rest with
  | case1 => simp at h
  | case2 => simp at h
  | case3 c cs hc ih =>
    obtain ⟨⟨a, b⟩, hr, he⟩ := Option.map_eq_some_iff.1 h
    simp only [Prod.mk.injEq] at he
    obtain ⟨rfl, rfl⟩ := he
    simp [ih hr]
  | case4 cs =>
    simp only [Option.some.injEq, Prod.mk.injEq] at h
    obtain ⟨rfl, rfl⟩ := h
    rfl
  | case5 => simp at h
  | case6 c cs _ _ _ ih =>
    obtain ⟨⟨a, b⟩, hr, he⟩ := Option.map_eq_some_iff.1 h
    simp only [Prod.mk.injEq] at he
    obtain ⟨rfl, rfl⟩ := he
    simp [ih hr]

theorem readNameTail_append (cs : List Char) : (readNameTail cs).1 ++ (readNameTail cs).2 = cs := by
  fun_induction readNameTail cs with
  | case1 c cs _ r ih => simpa [r] using ih
  | case2 => rfl
  | case3 c cs r _ _ ih => simpa [r] using ih
  | case4 => rfl
  | case5 => rfl

/-- The text of a token is what the lexer takes from the front, and it is not empty. -/
theorem readLexeme?_append {cs rest : List Char} {l : Lexeme}
    (h : readLexeme? cs = some (l, rest)) : cs = l.text.toList ++ rest ∧ l.text.toList ≠ [] := by
  unfold readLexeme? at h
  split at h
  · simp only [Option.some.injEq, Prod.mk.injEq] at h
    obtain ⟨rfl, rfl⟩ := h
    simp [Lexeme.text]
  · split at h
    · next text tail hn =>
      simp only [Option.some.injEq, Prod.mk.injEq] at h
      obtain ⟨rfl, rfl⟩ := h
      simpa [Lexeme.text] using readNumber?_append hn
    · split at h
      · simp at h
      · next c tail _ _ =>
        split at h
        · obtain ⟨⟨a, b⟩, hr, he⟩ := Option.map_eq_some_iff.1 h
          simp only [Prod.mk.injEq] at he
          obtain ⟨rfl, rfl⟩ := he
          simp [Lexeme.text, readQuotedTail?_append hr]
        · split at h
          · simp only [Option.some.injEq, Prod.mk.injEq] at h
            obtain ⟨rfl, rfl⟩ := h
            simp [Lexeme.text, readNameTail_append]
          · split at h
            · simp only [Option.some.injEq, Prod.mk.injEq] at h
              obtain ⟨rfl, rfl⟩ := h
              simp [Lexeme.text]
            · simp at h

theorem length_readLexeme? {cs rest : List Char} {l : Lexeme}
    (h : readLexeme? cs = some (l, rest)) : rest.length < cs.length := by
  obtain ⟨hcs, hne⟩ := readLexeme?_append h
  have := List.length_pos_iff.2 hne
  rw [hcs, List.length_append]
  omega

/-! ## The row of tokens -/

/-- The tokens of a text whose first character has the given position. -/
def tokensFrom (position : Nat) (cs : List Char) : Except SyntaxError (List Token) :=
  match cs with
  | [] => .ok [⟨.stop, position⟩]
  | c :: rest =>
    if isBlank c then tokensFrom (position + 1) rest
    else
      match h : readLexeme? (c :: rest) with
      | none => .error (.strayChar c position)
      | some (l, rest') =>
        have : rest'.length < (c :: rest).length := length_readLexeme? h
        match tokensFrom (position + l.text.length) rest' with
        | .error e => .error e
        | .ok more => .ok (⟨l, position⟩ :: more)
termination_by cs.length
decreasing_by all_goals (simp only [List.length_cons] at *; omega)

/-- The tokens of a type expression, the one for its end included. -/
def tokens (source : String) : Except SyntaxError (List Token) :=
  tokensFrom 0 source.toList

end ApiDoc.TypeExpr
