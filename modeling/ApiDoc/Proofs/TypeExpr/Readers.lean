import ApiDoc.TypeExpr.Parser

/-!
# The readers, equation by equation

Readers look at the front of a row through patterns that overlap. Here each of them is written as a
choice by the first token alone, with the tokens that are looked at further on dropped by functions
of their own (`dropDot`, `dropReceiver`, `suffixAt?`).
-/

namespace ApiDoc.TypeExpr

/-! ## Single marks -/

theorem eq_cons_of_acceptMark? {c : Char} {ts rest : List Token}
    (h : acceptMark? c ts = some rest) : ∃ p, ts = ⟨.mark c, p⟩ :: rest := by
  unfold acceptMark? at h
  split at h
  · next d p us =>
    split at h
    · next hd =>
      cases h
      exact ⟨p, by rw [hd]⟩
    · cases h
  · cases h

theorem eq_cons_of_expectMark {c : Char} {ts rest : List Token}
    (h : expectMark c ts = .ok rest) : ∃ p, ts = ⟨.mark c, p⟩ :: rest := by
  unfold expectMark at h
  split at h
  · next us hus =>
    cases h
    exact eq_cons_of_acceptMark? hus
  · cases h

theorem acceptMark?_cons (c : Char) (q : Nat) (ts : List Token) :
    acceptMark? c (⟨.mark c, q⟩ :: ts) = some ts :=
  if_pos rfl

theorem expectMark_cons (c : Char) (q : Nat) (ts : List Token) :
    expectMark c (⟨.mark c, q⟩ :: ts) = .ok ts := by
  rw [expectMark, acceptMark?_cons]

theorem ne_cons_of_acceptMark? {c : Char} {ts : List Token} (h : acceptMark? c ts = none)
    (q : Nat) (rest : List Token) : ts ≠ ⟨.mark c, q⟩ :: rest := by
  rintro rfl
  rw [acceptMark?_cons] at h
  cases h

/-! ## Lists of items -/

section

variable {α : Type} {item : Reader α} {c : Char} {ts rest : List Token} {a : α}

theorem length_of_acceptMark? (h : acceptMark? c ts = some rest) : rest.length < ts.length := by
  obtain ⟨p, rfl⟩ := eq_cons_of_acceptMark? h
  exact Nat.lt_succ_self _

theorem sepBy_of_error {e : SyntaxError} (h : item ts = .error e) :
    sepBy item c ts = .error e := by
  rw [sepBy, h]

theorem sepBy_of_ok (h : item ts = .ok (a, rest)) (hrest : rest.length ≤ ts.length) :
    sepBy item c ts =
      match acceptMark? c rest with
      | none => .ok ([a], rest)
      | some more => (sepBy item c more).map fun r => (a :: r.1, r.2) := by
  rw [sepBy, h]
  simp only
  cases hmark : acceptMark? c rest with
  | none => rfl
  | some more =>
    have hlt := length_of_acceptMark? hmark
    simp only
    rw [if_pos (by omega)]
    cases sepBy item c more <;> rfl

theorem listUntil_of_error {e : SyntaxError} (h : item ts = .error e) :
    listUntil item c ts = .error e := by
  rw [listUntil, h]

theorem listUntil_of_ok (h : item ts = .ok (a, rest)) (hrest : rest.length ≤ ts.length) :
    listUntil item c ts =
      match acceptMark? c rest with
      | some rest' => .ok ([a], rest')
      | none =>
        match expectMark ',' rest with
        | .error e => .error e
        | .ok more => (listUntil item c more).map fun r => (a :: r.1, r.2) := by
  rw [listUntil, h]
  simp only
  cases acceptMark? c rest with
  | some rest' => rfl
  | none =>
    cases hmark : expectMark ',' rest with
    | error e => rfl
    | ok more =>
      obtain ⟨p, rfl⟩ := eq_cons_of_expectMark hmark
      simp only
      rw [List.length_cons] at hrest
      rw [if_pos (by omega)]
      cases listUntil item c more <;> rfl

end

/-! ## Types, names and parameters -/

/-- A row without the dot that may stand before type arguments. -/
def dropDot : List Token → List Token
  | ⟨.mark '.', _⟩ :: ⟨.mark '<', p⟩ :: rest => ⟨.mark '<', p⟩ :: rest
  | ts => ts

/-- A row without the name and the colon that may stand before a receiver. -/
def dropReceiver : List Token → List Token
  | ⟨.name "this", _⟩ :: ⟨.mark ':', _⟩ :: rest => rest
  | ⟨.name "new", _⟩ :: ⟨.mark ':', _⟩ :: rest => rest
  | ts => ts

theorem dropDot_pair (t u : Token) (ts : List Token) :
    dropDot (t :: u :: ts) =
      if t.lexeme = .mark '.' ∧ u.lexeme = .mark '<' then u :: ts else t :: u :: ts := by
  split
  · next h =>
    cases t
    cases u
    obtain ⟨rfl, rfl⟩ := h
    rfl
  · next h =>
    apply dropDot.eq_2
    intro q r rest he
    cases he
    exact h ⟨rfl, rfl⟩

theorem dropReceiver_pair (t u : Token) (ts : List Token) :
    dropReceiver (t :: u :: ts) =
      if (t.lexeme = .name "this" ∨ t.lexeme = .name "new") ∧ u.lexeme = .mark ':' then ts
      else t :: u :: ts := by
  split
  · next h =>
    cases t
    cases u
    obtain ⟨rfl | rfl, rfl⟩ := h <;> rfl
  · next h =>
    apply dropReceiver.eq_3
    · intro q r rest he
      cases he
      exact h ⟨.inl rfl, rfl⟩
    · intro q r rest he
      cases he
      exact h ⟨.inr rfl, rfl⟩

theorem dropDot_single (t : Token) : dropDot [t] = [t] := by
  simp [dropDot]

theorem dropReceiver_single (t : Token) : dropReceiver [t] = [t] := by
  simp [dropReceiver]

/-- The operands of a type as one node. -/
def joined : List Node → Node
  | [n] => n
  | ns => { kind := .union, children := ns }

section

variable (operand : Reader Node) (ts : List Token)

theorem readType_eq :
    readType operand ts = (sepBy operand '|' ts).map fun r => (joined r.1, r.2) := by
  unfold readType joined
  match sepBy operand '|' ts with
  | .error _ => rfl
  | .ok ([], _) => rfl
  | .ok ([_], _) => rfl
  | .ok (_ :: _ :: _, _) => rfl

theorem readNamed_eq (name : String) :
    readNamed operand name ts =
      match acceptMark? '<' (dropDot ts) with
      | none => .ok ({ kind := .name, name := some name }, dropDot ts)
      | some inner =>
        match sepBy (readType operand) ',' inner with
        | .error e => .error e
        | .ok (arguments, rest) =>
          match expectMark '>' rest with
          | .error e => .error e
          | .ok rest' =>
            .ok ({ kind := .generic, name := some name, children := arguments }, rest') :=
  rfl

theorem readParam_eq : readParam operand ts = readType operand (dropReceiver ts) := by
  unfold readParam
  split
  · rfl
  · rfl
  · next hthis hnew => rw [dropReceiver.eq_3 _ hthis hnew]

/-- The parameters of a function after the opening parenthesis, up to and with the closing one. -/
def readParams : Reader (List Node) := fun ts =>
  match acceptMark? ')' ts with
  | some rest => .ok ([], rest)
  | none => listUntil (readParam operand) ')' ts

theorem readFunction_eq :
    readFunction operand ts =
      match readParams operand ts with
      | .error e => .error e
      | .ok (params, rest) => readReturns operand params rest := by
  unfold readFunction readParams
  cases acceptMark? ')' ts <;> rfl

theorem readUnder_eq (kind : Kind) :
    readUnder operand kind ts =
      (operand ts).map fun r => ({ kind, children := [r.1] }, r.2) := by
  unfold readUnder
  cases operand ts <;> rfl

/-! ## Choices by the first token -/

theorem readPrimary_name (text : String) (q : Nat) :
    readPrimary operand (⟨.name text, q⟩ :: ts) =
      if text = "function" then
        match acceptMark? '(' ts with
        | some inner => readFunction operand inner
        | none => readNamed operand text ts
      else readNamed operand text ts := by
  unfold readPrimary
  simp only
  split
  · next inner hinner => rw [if_pos rfl, hinner]
  · next hfunction =>
    split
    · next htext =>
      split
      · next inner hinner => exact (hfunction inner htext hinner).elim
      · rfl
    · rfl

/-- A type in parentheses, after the opening one. -/
def readEnclosed : Reader Node := fun ts =>
  match readType operand ts with
  | .error e => .error e
  | .ok (node, rest) =>
    match expectMark ')' rest with
    | .error e => .error e
    | .ok rest' => .ok ({ kind := .parenthesis, children := [node] }, rest')

theorem readPrimary_mark (c : Char) (q : Nat) :
    readPrimary operand (⟨.mark c, q⟩ :: ts) =
      if c = '*' then .ok ({ kind := .any }, ts)
      else if c = '(' then readEnclosed operand ts
      else if c = '{' then readRecord operand ts
      else .error (.unexpected (String.singleton c) q) := by
  by_cases hany : c = '*'
  · subst hany
    rfl
  · by_cases hopen : c = '('
    · subst hopen
      rfl
    · by_cases hbrace : c = '{'
      · subst hbrace
        rfl
      · rw [if_neg hany, if_neg hopen, if_neg hbrace, readPrimary.eq_def]
        simp [hany, hopen, hbrace, nextLexeme, nextPosition, Lexeme.text]

theorem readModified_dots (q : Nat) :
    readModified operand (⟨.ellipsis, q⟩ :: ts) =
      if atBoundary ts then .ok ({ kind := .variadic }, ts) else readUnder operand .variadic ts :=
  rfl

theorem readModified_of_ne (hunknown : acceptMark? '?' ts = none)
    (hnot : acceptMark? '!' ts = none) (hdots : ∀ q rest, ts ≠ ⟨.ellipsis, q⟩ :: rest) :
    readModified operand ts = readSuffixed operand ts :=
  readModified.eq_4 operand ts (ne_cons_of_acceptMark? hunknown)
    (ne_cons_of_acceptMark? hnot) hdots

theorem readModified_mark (c : Char) (q : Nat) :
    readModified operand (⟨.mark c, q⟩ :: ts) =
      if c = '?' then
        if atBoundary ts then .ok ({ kind := .unknown }, ts) else readUnder operand .nullable ts
      else if c = '!' then readUnder operand .notNullable ts
      else readSuffixed operand (⟨.mark c, q⟩ :: ts) := by
  by_cases hunknown : c = '?'
  · subst hunknown
    rfl
  · by_cases hnot : c = '!'
    · subst hnot
      rfl
    · rw [if_neg hunknown, if_neg hnot, readModified.eq_def]
      simp [hunknown, hnot]

end

/-! ## Modifiers behind an expression -/

/-- The node under the modifier at the front of a row, if there is one, and the row behind it. -/
def suffixAt? (node : Node) : List Token → Option (Node × List Token)
  | ⟨.mark '[', _⟩ :: ⟨.mark ']', _⟩ :: ts =>
    some ({ kind := .generic, name := some "Array", children := [node] }, ts)
  | ⟨.mark '=', _⟩ :: ts => some ({ kind := .optional, children := [node] }, ts)
  | ⟨.mark '?', _⟩ :: ts => some ({ kind := .nullable, children := [node] }, ts)
  | ⟨.mark '!', _⟩ :: ts => some ({ kind := .notNullable, children := [node] }, ts)
  | _ => none

theorem suffixAt?_eq_none (node : Node) {ts : List Token}
    (harray : ∀ q r rest, ts ≠ ⟨.mark '[', q⟩ :: ⟨.mark ']', r⟩ :: rest)
    (hoptional : acceptMark? '=' ts = none) (hnullable : acceptMark? '?' ts = none)
    (hnot : acceptMark? '!' ts = none) : suffixAt? node ts = none :=
  suffixAt?.eq_5 node ts harray (ne_cons_of_acceptMark? hoptional)
    (ne_cons_of_acceptMark? hnullable) (ne_cons_of_acceptMark? hnot)

theorem readSuffixes_eq (node : Node) (ts : List Token) :
    readSuffixes node ts =
      match suffixAt? node ts with
      | some (node', rest) => readSuffixes node' rest
      | none => (node, ts) := by
  fun_cases readSuffixes node ts with
  | case1 => rfl
  | case2 => rfl
  | case3 => rfl
  | case4 => rfl
  | case5 ts harray hoptional hnullable hnot =>
    rw [suffixAt?.eq_5 _ _ harray hoptional hnullable hnot]

end ApiDoc.TypeExpr
