import Mathlib.Data.List.Basic
import ApiDoc.Proofs.TypeExpr.Readers
import ApiDoc.Proofs.TypeExpr.Slices

/-!
# Parsing with a cursor

The readers hand on what is left of a row. Here the row stays as it is and a cursor moves over it:
an index that is changed by steps of one and of two, after a look at the texts of tokens only, and a
counter of the operands that are open. Loops go round as long as their bodies ask for it. None of
this is safe by construction, so a walk has three ways not to give a result: the text is no type
expression, the cursor is outside of the row, or a loop needs more rounds than there are.

* `Walk`: what moves the cursor, and `walkType` and so on for each of the readers.
* `IsRow.here`, `IsRow.ahead`: what stands at the cursor and behind it in a row of the lexer.
* `peekAt_self`, `accept_mark`, `expect_mark` and so on: each move, next to what a reader does.
-/

namespace ApiDoc.TypeExpr

open Text

/-! ## Walks -/

/-- Where a walk stands: at a token, and within so many operands. -/
structure Cursor where
  index : Nat
  depth : Nat
deriving Repr, DecidableEq, Inhabited

/-- Why a walk has given no result. -/
inductive Halt where
  /-- The text is no type expression. -/
  | fault (e : SyntaxError)
  /-- There is no token at the cursor. -/
  | outside
  /-- A loop is not through after all the rounds that it had, or operands are open beyond all
  bounds. -/
  | endless
deriving Repr, DecidableEq, Inhabited

/-- A walk moves the cursor and gives a result, unless it halts. -/
def Walk (α : Type) : Type :=
  Cursor → Except Halt α × Cursor

namespace Walk

variable {α β : Type}

instance : Monad Walk where
  pure a := fun s => (.ok a, s)
  bind x f := fun s =>
    match x s with
    | (.ok a, s') => f a s'
    | (.error h, s') => (.error h, s')

theorem pure_apply (a : α) (s : Cursor) : (pure a : Walk α) s = (.ok a, s) :=
  rfl

theorem bind_apply (x : Walk α) (f : α → Walk β) (s : Cursor) :
    (x >>= f) s =
      match x s with
      | (.ok a, s') => f a s'
      | (.error h, s') => (.error h, s') :=
  rfl

theorem bind_of_ok {x : Walk α} {s s' : Cursor} {a : α} (h : x s = (.ok a, s'))
    (f : α → Walk β) : (x >>= f) s = f a s' := by
  rw [bind_apply, h]

theorem bind_of_error {x : Walk α} {s s' : Cursor} {e : Halt} (h : x s = (.error e, s'))
    (f : α → Walk β) : (x >>= f) s = (.error e, s') := by
  rw [bind_apply, h]

/-- Halt. -/
def halt (h : Halt) : Walk α := fun s =>
  (.error h, s)

/-- Move the cursor on. -/
def advance (n : Nat) : Walk Unit := fun s =>
  (.ok (), { s with index := s.index + n })

/-- How many operands are open. -/
def opened : Walk Nat := fun s =>
  (.ok s.depth, s)

/-- Walk with one more operand open, which is closed however the walk ends. -/
def deeper (walk : Walk α) : Walk α := fun s =>
  let (r, s') := walk { s with depth := s.depth + 1 }
  (r, { s' with depth := s'.depth - 1 })

/-- Go round until the body gives a result, but not more often than so many times. -/
def loop (body : β → Walk (β ⊕ α)) : Nat → β → Walk α
  | 0, _ => halt .endless
  | rounds + 1, b => do
    match ← body b with
    | .inl b' => loop body rounds b'
    | .inr a => return a

theorem loop_of_inl {body : β → Walk (β ⊕ α)} {b b' : β} {s s' : Cursor}
    (h : body b s = (.ok (.inl b'), s')) (rounds : Nat) :
    loop body (rounds + 1) b s = loop body rounds b' s' := by
  rw [loop, bind_of_ok h]

theorem loop_of_inr {body : β → Walk (β ⊕ α)} {b : β} {a : α} {s s' : Cursor}
    (h : body b s = (.ok (.inr a), s')) (rounds : Nat) :
    loop body (rounds + 1) b s = (.ok a, s') := by
  rw [loop, bind_of_ok h]
  rfl

theorem loop_of_error {body : β → Walk (β ⊕ α)} {b : β} {e : Halt} {s s' : Cursor}
    (h : body b s = (.error e, s')) (rounds : Nat) :
    loop body (rounds + 1) b s = (.error e, s') := by
  rw [loop, bind_of_error h]

end Walk

open Walk

/-! ## Moves -/

/-- The texts of tokens that end an operand. -/
def boundaryTexts : List String :=
  ["", ",", ">", ")", "|", "\x7d", "]", "="]

/-- Does the token have the same text as a word? -/
def Token.reads (t : Token) (l : Lexeme) : Bool :=
  t.lexeme.text == l.text

section

variable (row : List Token)

/-- The token so far behind the cursor, or the last one. -/
def peekAt (offset : Nat) : Walk Token := fun s =>
  match row[min (s.index + offset) (row.length - 1)]? with
  | some t => (.ok t, s)
  | none => (.error .outside, s)

/-- The token at the cursor; the cursor moves on unless it is at the end. -/
def next : Walk Token := do
  let t ← peekAt row 0
  if t.lexeme.label = "end" then return t
  else
    advance 1
    return t

/-- Is the text of a word at the cursor? Then the cursor moves on. -/
def accept (l : Lexeme) : Walk Bool := do
  let t ← peekAt row 0
  if ["punct", "ellipsis"].contains t.lexeme.label && t.reads l then
    advance 1
    return true
  else return false

/-- The text of a word has to be at the cursor. -/
def expect (l : Lexeme) : Walk Unit := do
  if ← accept row l then return ()
  else
    let t ← peekAt row 0
    halt (.fault (.expected l.text t.lexeme.text t.position))

/-- Does the token at the cursor end an operand? -/
def seesBoundary : Walk Bool := do
  let t ← peekAt row 0
  return ["end", "punct"].contains t.lexeme.label && boundaryTexts.contains t.lexeme.text

/-- Pass over the dot before type arguments. -/
def skipDot : Walk Unit := do
  let t ← peekAt row 0
  let u ← peekAt row 1
  if t.reads (.mark '.') && u.reads (.mark '<') then advance 1
  else return ()

/-- Pass over the name and the colon before a receiver. -/
def skipReceiver : Walk Unit := do
  let t ← peekAt row 0
  let u ← peekAt row 1
  if (t.reads (.name "this") || t.reads (.name "new")) && u.reads (.mark ':') then advance 2
  else return ()

/-! ## Rounds of loops -/

variable {α : Type}

/-- One round of a list with marks between the items. -/
def moreItems (c : Char) (item : Walk α) (items : List α) : Walk (List α ⊕ List α) := do
  if ← accept row (.mark c) then
    let a ← item
    return .inl (items ++ [a])
  else return .inr items

/-- One round of a list up to a closing mark. -/
def nextItem (close : Char) (item : Walk α) (items : List α) : Walk (List α ⊕ List α) := do
  let a ← item
  if ← accept row (.mark close) then return .inr (items ++ [a])
  else
    expect row (.mark ',')
    return .inl (items ++ [a])

/-- One round of the modifiers behind an expression. -/
def nextSuffix (node : Node) : Walk (Node ⊕ Node) := do
  let t ← peekAt row 0
  let u ← peekAt row 1
  if t.reads (.mark '[') && u.reads (.mark ']') then
    advance 2
    return .inl { kind := .generic, name := some "Array", children := [node] }
  else if ← accept row (.mark '=') then return .inl { kind := .optional, children := [node] }
  else if ← accept row (.mark '?') then return .inl { kind := .nullable, children := [node] }
  else if ← accept row (.mark '!') then return .inl { kind := .notNullable, children := [node] }
  else return .inr node

/-! ## The parser, for a given walk over operands -/

variable (rounds : Nat) (operand : Walk Node)

def walkItems (c : Char) (item : Walk α) : Walk (List α) := do
  let first ← item
  loop (moreItems row c item) rounds [first]

def walkType : Walk Node := do
  let members ← walkItems row rounds '|' operand
  return joined members

def walkNamed (name : String) : Walk Node := do
  skipDot row
  if ← accept row (.mark '<') then
    let arguments ← walkItems row rounds ',' (walkType row rounds operand)
    expect row (.mark '>')
    return { kind := .generic, name := some name, children := arguments }
  else return { kind := .name, name := some name }

def walkParam : Walk Node := do
  skipReceiver row
  walkType row rounds operand

def walkParams : Walk (List Node) := do
  if ← accept row (.mark ')') then return []
  else loop (nextItem row ')' (walkParam row rounds operand)) rounds []

def walkReturns (params : List Node) : Walk Node := do
  if ← accept row (.mark ':') then
    let node ← operand
    return { kind := .function, children := params, returns := some node }
  else return { kind := .function, children := params }

def walkFunction : Walk Node := do
  expect row (.mark '(')
  let params ← walkParams row rounds operand
  walkReturns row operand params

def walkEntry : Walk Node := do
  let t ← next row
  match t.lexeme.key? with
  | none => halt (.fault (.expectedKey t.lexeme.text t.position))
  | some key =>
    if ← accept row (.mark ':') then
      let node ← walkType row rounds operand
      return { kind := .recordEntry, name := some key, children := [node] }
    else return { kind := .recordEntry, name := some key }

def walkRecord : Walk Node := do
  if ← accept row (.mark '}') then return { kind := .record }
  else
    let entries ← loop (nextItem row '}' (walkEntry row rounds operand)) rounds []
    return { kind := .record, children := entries }

def walkEnclosed : Walk Node := do
  let node ← walkType row rounds operand
  expect row (.mark ')')
  return { kind := .parenthesis, children := [node] }

def walkPrimary : Walk Node := do
  let t ← next row
  match t.lexeme with
  | .name text =>
    let u ← peekAt row 0
    if text = "function" ∧ u.reads (.mark '(') then walkFunction row rounds operand
    else walkNamed row rounds operand text
  | .quoted text => return { kind := .stringValue, value := some (unquoted text) }
  | .number text => return { kind := .numberValue, value := some text }
  | _ =>
    if t.reads (.mark '*') then return { kind := .any }
    else if t.reads (.mark '(') then walkEnclosed row rounds operand
    else if t.reads (.mark '{') then walkRecord row rounds operand
    else halt (.fault (.unexpected t.lexeme.text t.position))

def walkSuffixed : Walk Node := do
  let node ← walkPrimary row rounds operand
  loop (nextSuffix row) rounds node

def walkUnder (kind : Kind) : Walk Node := do
  let node ← operand
  return { kind, children := [node] }

def walkModified : Walk Node := do
  if ← accept row (.mark '?') then
    if ← seesBoundary row then return { kind := .unknown }
    else walkUnder operand .nullable
  else if ← accept row (.mark '!') then walkUnder operand .notNullable
  else if ← accept row .ellipsis then
    if ← seesBoundary row then return { kind := .variadic }
    else walkUnder operand .variadic
  else walkSuffixed row rounds operand

/-- An operand. How many of them may be open is told by the counter of the cursor; how many walks
stand ready for them is told by `nest`. -/
def walkOperand : Nat → Walk Node
  | 0 => halt .endless
  | nest + 1 => do
    if maxDepth ≤ (← opened) then
      let t ← peekAt row 0
      halt (.fault (.tooDeep t.position))
    else deeper (walkModified row rounds (walkOperand nest))

/-- A type and nothing after it. -/
def walkAll (nest : Nat) : Walk Node := do
  let node ← walkType row rounds (walkOperand row rounds nest)
  let t ← peekAt row 0
  if t.lexeme.label = "end" then return node
  else halt (.fault (.unexpected t.lexeme.text t.position))

end

/-- The tree of a type expression, by a walk over its tokens with loops of so many rounds. -/
def walkNode (rounds : Nat) (source : String) : Except Halt Node :=
  if Text.isBlankText source.toList then .error (.fault .empty)
  else
    match tokens source with
    | .error e => .error (.fault e)
    | .ok row => (walkAll row rounds (maxDepth + 1) ⟨0, 0⟩).1

/-! ## Texts of marks -/

theorem singleton_ne_dots (c : Char) : String.singleton c ≠ "..." := by
  intro h
  have hlist := congrArg String.toList h
  have hdots : "...".toList = ['.', '.', '.'] := by decide
  rw [String.toList_singleton, hdots] at hlist
  cases hlist

/-- Marks and the three dots are told by their texts, once it is known that there is one of them. -/
theorem symbol_iff (m : Lexeme) {l : Lexeme} (hl : l = .ellipsis ∨ ∃ c, l = .mark c) :
    (["punct", "ellipsis"].contains m.label && m.text == l.text) = true ↔ m = l := by
  rcases hl with rfl | ⟨c, rfl⟩
  · cases m with
    | mark e => simp [Lexeme.label, Lexeme.text, singleton_ne_dots]
    | _ => simp [Lexeme.label, Lexeme.text]
  · cases m with
    | ellipsis => simp [Lexeme.label, Lexeme.text, (singleton_ne_dots c).symm]
    | _ => simp [Lexeme.label, Lexeme.text]

theorem boundaryTexts_contains (c : Char) :
    boundaryTexts.contains (String.singleton c) =
      [',', '>', ')', '|', '}', ']', '='].contains c := by
  have htexts : boundaryTexts =
      "" :: [',', '>', ')', '|', '}', ']', '='].map String.singleton := by decide
  rw [Bool.eq_iff_iff, htexts, List.contains_iff_mem, List.contains_iff_mem, List.mem_cons,
    List.mem_map_of_injective fun _ _ => String.singleton_inj.1]
  exact or_iff_right fun h => absurd (congrArg String.toList h) (by simp)

/-! ## Rows of the lexer -/

/-- A row of words with the end of the text behind them. -/
def IsRow (row : List Token) : Prop :=
  ∃ words q, row = words ++ [⟨.stop, q⟩] ∧ ∀ t ∈ words, t.lexeme.IsWord

theorem isRow_of_tokens {source : String} {row : List Token} (h : tokens source = .ok row) :
    IsRow row := by
  obtain ⟨words, hrow, hwords⟩ := slices_of_lexed (lexed_of_tokensFrom h) List.drop_zero
  exact ⟨words, _, hrow, hwords.word⟩

/-- Words are told apart by their texts, and from the end of the text too. -/
theorem reads_iff {t : Token} (ht : t.lexeme.IsWord ∨ t.lexeme = .stop) {l : Lexeme}
    (hl : l.IsWord) : t.reads l = true ↔ t.lexeme = l := by
  rw [Token.reads, beq_iff_eq]
  refine ⟨fun h => ?_, fun h => by rw [h]⟩
  rcases ht with hword | hstop
  · have hread := (readable_alone hword).read
    rw [h, (readable_alone hl).read] at hread
    cases hread
    rfl
  · rw [hstop] at h
    exact absurd h.symm hl.text_ne_empty

theorem isWord_this : (Lexeme.name "this").IsWord := by
  have h : readLexeme? "this".toList = some (.name "this", []) := by decide +kernel
  exact (isWord_of_readLexeme? h).1

theorem isWord_new : (Lexeme.name "new").IsWord := by
  have h : readLexeme? "new".toList = some (.name "new", []) := by decide +kernel
  exact (isWord_of_readLexeme? h).1

section

variable {row : List Token} {i : Nat}

theorem lt_of_drop {t : Token} {rest : List Token} (h : row.drop i = t :: rest) :
    i < row.length := by
  by_contra hi
  rw [List.drop_eq_nil_of_le (Nat.le_of_not_lt hi)] at h
  cases h

theorem mem_of_drop {t : Token} {rest : List Token} (h : row.drop i = t :: rest) : t ∈ row :=
  List.mem_of_mem_drop (h ▸ List.mem_cons_self)

theorem drop_succ_of_drop {t : Token} {rest : List Token} (h : row.drop i = t :: rest) :
    row.drop (i + 1) = rest := by
  rw [← List.drop_drop, h]
  rfl

theorem peekAt_self {t : Token} {rest : List Token} (h : row.drop i = t :: rest) (d : Nat) :
    peekAt row 0 ⟨i, d⟩ = (.ok t, ⟨i, d⟩) := by
  have hi := lt_of_drop h
  have hmin : min (i + 0) (row.length - 1) = i := by omega
  rw [peekAt, hmin, ← List.head?_drop, h]
  rfl

theorem peekAt_behind {t u : Token} {rest : List Token} (h : row.drop i = t :: u :: rest)
    (d : Nat) : peekAt row 1 ⟨i, d⟩ = (.ok u, ⟨i, d⟩) := by
  have hnext := drop_succ_of_drop h
  have hi := lt_of_drop hnext
  have hmin : min (i + 1) (row.length - 1) = i + 1 := by omega
  rw [peekAt, hmin, ← List.head?_drop, hnext]
  rfl

/-- Behind the last token there is nothing but itself. -/
theorem peekAt_last {t : Token} (h : row.drop i = [t]) (d : Nat) :
    peekAt row 1 ⟨i, d⟩ = (.ok t, ⟨i, d⟩) := by
  have hlength := congrArg List.length h
  rw [List.length_drop, List.length_singleton] at hlength
  have hmin : min (i + 1) (row.length - 1) = i := by omega
  rw [peekAt, hmin, ← List.head?_drop, h]
  rfl

variable (hrow : IsRow row) (hi : i < row.length)
include hrow hi

/-- At a place of the row is the end of the text, and nothing behind it, or a word, and something
behind it. -/
theorem IsRow.here :
    (∃ q, row.drop i = [⟨.stop, q⟩]) ∨
      ∃ t, t.lexeme.IsWord ∧ row.drop i = t :: row.drop (i + 1) ∧ i + 1 < row.length := by
  obtain ⟨words, q, rfl, hwords⟩ := hrow
  rw [List.length_append, List.length_singleton] at hi
  by_cases hlt : i < words.length
  · refine Or.inr ⟨words[i], hwords _ (List.getElem_mem hlt), ?_, ?_⟩
    · rw [List.drop_eq_getElem_cons (by simp; omega), List.getElem_append_left hlt]
    · simp only [List.length_append, List.length_singleton]
      omega
  · obtain rfl : i = words.length := by omega
    exact Or.inl ⟨q, List.drop_left⟩

/-- The token at the cursor and the one behind it, which is the same at the end. -/
theorem IsRow.ahead (d : Nat) :
    ∃ t u, peekAt row 0 ⟨i, d⟩ = (.ok t, ⟨i, d⟩) ∧ peekAt row 1 ⟨i, d⟩ = (.ok u, ⟨i, d⟩) ∧
      (∀ l : Lexeme, l.IsWord → (t.reads l = true ↔ t.lexeme = l)) ∧
      (∀ l : Lexeme, l.IsWord → (u.reads l = true ↔ u.lexeme = l)) ∧
      ((t.lexeme = .stop ∧ row.drop i = [t]) ∨
        row.drop i = t :: u :: row.drop (i + 2) ∧ (u.lexeme ≠ .stop → i + 2 < row.length)) := by
  rcases hrow.here hi with ⟨q, hstop⟩ | ⟨t, ht, hdrop, hnext⟩
  · refine ⟨⟨.stop, q⟩, ⟨.stop, q⟩, peekAt_self hstop d, peekAt_last hstop d, ?_, ?_,
      Or.inl ⟨rfl, hstop⟩⟩
    · exact fun l hl => reads_iff (Or.inr rfl) hl
    · exact fun l hl => reads_iff (Or.inr rfl) hl
  · have hbehind : ∃ u, row.drop (i + 1) = u :: row.drop (i + 2) ∧
        (u.lexeme.IsWord ∧ i + 2 < row.length ∨ u.lexeme = .stop) := by
      rcases hrow.here hnext with ⟨q, hstop⟩ | ⟨u, hu, hdrop', hlast⟩
      · exact ⟨⟨.stop, q⟩, by rw [hstop, drop_succ_of_drop hstop], Or.inr rfl⟩
      · exact ⟨u, hdrop', Or.inl ⟨hu, hlast⟩⟩
    obtain ⟨u, hu, hkind⟩ := hbehind
    rw [hu] at hdrop
    refine ⟨t, u, peekAt_self hdrop d, peekAt_behind hdrop d, ?_, ?_, Or.inr ⟨hdrop, ?_⟩⟩
    · exact fun l hl => reads_iff (Or.inl ht) hl
    · exact fun l hl => reads_iff (hkind.imp_left And.left) hl
    · intro hne
      exact (hkind.resolve_right hne).2

/-! ## Moves next to readers -/

omit hrow in
theorem exists_cons_drop : ∃ t rest, row.drop i = t :: rest ∧ t ∈ row := by
  obtain ⟨t, rest, hdrop⟩ := List.exists_cons_of_length_pos
    (show 0 < (row.drop i).length by rw [List.length_drop]; omega)
  exact ⟨t, rest, hdrop, mem_of_drop hdrop⟩

omit hrow hi in
theorem next_of_stop {q : Nat} (h : row.drop i = [⟨.stop, q⟩]) (d : Nat) :
    next row ⟨i, d⟩ = (.ok ⟨.stop, q⟩, ⟨i, d⟩) := by
  unfold next
  rw [bind_of_ok (peekAt_self h d)]
  rfl

omit hrow hi in
theorem next_of_word {t : Token} {rest : List Token} (h : row.drop i = t :: rest)
    (ht : t.lexeme.IsWord) (d : Nat) : next row ⟨i, d⟩ = (.ok t, ⟨i + 1, d⟩) := by
  have hlabel : t.lexeme.label ≠ "end" := by
    generalize t.lexeme = l at ht
    cases ht <;> simp [Numeral.lexeme, Literal.lexeme, DottedName.lexeme, Lexeme.label]
  unfold next
  rw [bind_of_ok (peekAt_self h d), if_neg hlabel]
  rfl

omit hrow hi in
theorem accept_eq {t : Token} {rest : List Token} (h : row.drop i = t :: rest) {l : Lexeme}
    (hl : l = .ellipsis ∨ ∃ c, l = .mark c) (d : Nat) :
    accept row l ⟨i, d⟩ =
      if t.lexeme = l then (.ok true, ⟨i + 1, d⟩) else (.ok false, ⟨i, d⟩) := by
  have hiff := symbol_iff t.lexeme hl
  unfold accept
  rw [bind_of_ok (peekAt_self h d)]
  by_cases he : t.lexeme = l
  · rw [if_pos he, Token.reads, if_pos (hiff.2 he)]
    rfl
  · rw [if_neg he, Token.reads, if_neg (mt hiff.1 he)]
    rfl

theorem accept_mark (c : Char) (d : Nat) :
    (acceptMark? c (row.drop i) = some (row.drop (i + 1)) ∧ i + 1 < row.length ∧
        accept row (.mark c) ⟨i, d⟩ = (.ok true, ⟨i + 1, d⟩)) ∨
      (acceptMark? c (row.drop i) = none ∧ accept row (.mark c) ⟨i, d⟩ = (.ok false, ⟨i, d⟩)) := by
  rcases hrow.here hi with ⟨q, hdrop⟩ | ⟨t, -, hdrop, hnext⟩
  · rw [accept_eq hdrop (.inr ⟨c, rfl⟩), hdrop]
    exact Or.inr ⟨rfl, if_neg nofun⟩
  · rw [accept_eq hdrop (.inr ⟨c, rfl⟩), hdrop]
    by_cases he : t.lexeme = .mark c
    · obtain ⟨l, q⟩ := t
      obtain rfl : l = .mark c := he
      exact Or.inl ⟨acceptMark?_cons c q _, hnext, if_pos rfl⟩
    · refine Or.inr ⟨?_, if_neg he⟩
      cases hmark : acceptMark? c (t :: row.drop (i + 1)) with
      | none => rfl
      | some rest =>
        obtain ⟨q, hq⟩ := eq_cons_of_acceptMark? hmark
        cases hq
        exact absurd rfl he

theorem accept_dots (d : Nat) :
    (∃ q, row.drop i = ⟨.ellipsis, q⟩ :: row.drop (i + 1) ∧ i + 1 < row.length ∧
        accept row .ellipsis ⟨i, d⟩ = (.ok true, ⟨i + 1, d⟩)) ∨
      ((∀ q rest, row.drop i ≠ ⟨.ellipsis, q⟩ :: rest) ∧
        accept row .ellipsis ⟨i, d⟩ = (.ok false, ⟨i, d⟩)) := by
  rcases hrow.here hi with ⟨q, hdrop⟩ | ⟨t, -, hdrop, hnext⟩
  · rw [accept_eq hdrop (.inl rfl), hdrop]
    exact Or.inr ⟨nofun, if_neg nofun⟩
  · rw [accept_eq hdrop (.inl rfl), hdrop]
    obtain ⟨l, q⟩ := t
    by_cases he : l = .ellipsis
    · subst he
      exact Or.inl ⟨q, rfl, hnext, if_pos rfl⟩
    · refine Or.inr ⟨fun q' rest h => ?_, if_neg he⟩
      cases h
      exact he rfl

theorem expect_mark (c : Char) (d : Nat) :
    (expectMark c (row.drop i) = .ok (row.drop (i + 1)) ∧ i + 1 < row.length ∧
        expect row (.mark c) ⟨i, d⟩ = (.ok (), ⟨i + 1, d⟩)) ∨
      ∃ e, ∃ t ∈ row, e.position = t.position ∧ expectMark c (row.drop i) = .error e ∧
        expect row (.mark c) ⟨i, d⟩ = (.error (.fault e), ⟨i, d⟩) := by
  unfold expect expectMark
  rcases accept_mark hrow hi c d with ⟨hmark, hnext, haccept⟩ | ⟨hmark, haccept⟩
  · rw [hmark, bind_of_ok haccept]
    exact Or.inl ⟨rfl, hnext, rfl⟩
  · obtain ⟨t, rest, hdrop, ht⟩ := exists_cons_drop hi
    rw [hmark, bind_of_ok haccept, if_neg Bool.false_ne_true, bind_of_ok (peekAt_self hdrop d),
      hdrop]
    exact Or.inr ⟨_, t, ht, rfl, rfl, rfl⟩

/-- A mark at the cursor that is only looked at. -/
theorem IsRow.peek_mark {c : Char} (hc : isMark c = true) (d : Nat) :
    ∃ u, peekAt row 0 ⟨i, d⟩ = (.ok u, ⟨i, d⟩) ∧
      ((u.reads (.mark c) = true ∧ acceptMark? c (row.drop i) = some (row.drop (i + 1))) ∨
        (¬ u.reads (.mark c) = true ∧ acceptMark? c (row.drop i) = none)) := by
  obtain ⟨u, -, hu, -, hreads, -, -⟩ := hrow.ahead hi d
  obtain ⟨t, rest, hdrop, -⟩ := exists_cons_drop hi
  obtain rfl : u = t := by
    rw [peekAt_self hdrop] at hu
    cases hu
    rfl
  refine ⟨u, hu, ?_⟩
  rw [hreads _ (.mark hc)]
  rcases accept_mark hrow hi c d with ⟨hmark, -, -⟩ | ⟨hmark, -⟩
  · obtain ⟨q, hq⟩ := eq_cons_of_acceptMark? hmark
    rw [hdrop] at hq
    cases hq
    exact Or.inl ⟨rfl, hmark⟩
  · refine Or.inr ⟨fun he => ?_, hmark⟩
    obtain ⟨l, q⟩ := u
    obtain rfl : l = .mark c := he
    exact ne_cons_of_acceptMark? hmark q rest hdrop

omit hrow in
theorem seesBoundary_eq (d : Nat) :
    seesBoundary row ⟨i, d⟩ = (.ok (atBoundary (row.drop i)), ⟨i, d⟩) := by
  obtain ⟨t, rest, hdrop, -⟩ := exists_cons_drop hi
  unfold seesBoundary
  rw [bind_of_ok (peekAt_self hdrop d), hdrop, pure_apply, atBoundary, nextLexeme]
  congr 2
  cases t.lexeme with
  | mark c => exact (Bool.true_and _).trans (boundaryTexts_contains c)
  | _ => rfl

theorem exists_skipDot (d : Nat) :
    ∃ j, i ≤ j ∧ j < row.length ∧ dropDot (row.drop i) = row.drop j ∧
      skipDot row ⟨i, d⟩ = (.ok (), ⟨j, d⟩) := by
  obtain ⟨t, u, ht, hu, hreads, hreads', hcase⟩ := hrow.ahead hi d
  unfold skipDot
  rw [bind_of_ok ht, bind_of_ok hu]
  by_cases h : t.lexeme = .mark '.' ∧ u.lexeme = .mark '<'
  · have hpair : (t.reads (.mark '.') && u.reads (.mark '<')) = true := by
      rwa [Bool.and_eq_true_iff, hreads _ (.mark rfl), hreads' _ (.mark rfl)]
    rw [if_pos hpair]
    rcases hcase with ⟨hstop, -⟩ | ⟨hdrop, -⟩
    · rw [hstop] at h
      cases h.1
    · have hnext := drop_succ_of_drop hdrop
      refine ⟨i + 1, Nat.le_succ i, lt_of_drop hnext, ?_, rfl⟩
      rw [hdrop, dropDot_pair, if_pos h, hnext]
  · have hpair : ¬ (t.reads (.mark '.') && u.reads (.mark '<')) = true := by
      rwa [Bool.and_eq_true_iff, hreads _ (.mark rfl), hreads' _ (.mark rfl)]
    rw [if_neg hpair]
    refine ⟨i, Nat.le_refl i, hi, ?_, rfl⟩
    rcases hcase with ⟨-, hdrop⟩ | ⟨hdrop, -⟩
    · rw [hdrop, dropDot_single]
    · rw [hdrop, dropDot_pair, if_neg h]

theorem exists_skipReceiver (d : Nat) :
    ∃ j, i ≤ j ∧ j < row.length ∧ dropReceiver (row.drop i) = row.drop j ∧
      skipReceiver row ⟨i, d⟩ = (.ok (), ⟨j, d⟩) := by
  obtain ⟨t, u, ht, hu, hreads, hreads', hcase⟩ := hrow.ahead hi d
  unfold skipReceiver
  rw [bind_of_ok ht, bind_of_ok hu]
  have hpair : ((t.reads (.name "this") || t.reads (.name "new")) && u.reads (.mark ':')) = true ↔
      (t.lexeme = .name "this" ∨ t.lexeme = .name "new") ∧ u.lexeme = .mark ':' := by
    rw [Bool.and_eq_true_iff, Bool.or_eq_true_iff, hreads _ isWord_this, hreads _ isWord_new,
      hreads' _ (.mark rfl)]
  by_cases h : (t.lexeme = .name "this" ∨ t.lexeme = .name "new") ∧ u.lexeme = .mark ':'
  · rw [if_pos (hpair.2 h)]
    rcases hcase with ⟨hstop, -⟩ | ⟨hdrop, hlt⟩
    · rw [hstop] at h
      rcases h.1 with h | h <;> cases h
    · refine ⟨i + 2, Nat.le_add_right i 2, hlt (by rw [h.2]; nofun), ?_, rfl⟩
      rw [hdrop, dropReceiver_pair, if_pos h]
  · rw [if_neg (mt hpair.1 h)]
    refine ⟨i, Nat.le_refl i, hi, ?_, rfl⟩
    rcases hcase with ⟨-, hdrop⟩ | ⟨hdrop, -⟩
    · rw [hdrop, dropReceiver_single]
    · rw [hdrop, dropReceiver_pair, if_neg h]

end

end ApiDoc.TypeExpr
