import ApiDoc.Proofs.TypeExpr.Lexed
import ApiDoc.Proofs.TypeExpr.Nesting

/-!
# Which trees the parser builds

Each production of the grammar makes nodes of its own kinds, from nodes that other productions have
made. `Built` lists them once, so that an invariant of parsed types is an induction on it and needs
no look at the readers.

A tree is built at a level, which says how many operands may stand inside each other in its parts.
Modifiers behind an expression open no level: nothing but the text itself limits how many there are,
and `longestRun` counts them.

* `Tidy`, `Behind`: rows of tokens with a bound on these modifiers, before and behind an expression.
* `Built`: the trees of types, operands, primary expressions and record entries.
* `built_sepBy`, `built_listUntil`: the two loops, over items whose trees are known.
* `built_readOperand`: every operand, by induction on the level.
* `built_of_parseNode`: so every parsed text.
-/

namespace ApiDoc.TypeExpr

/-! ## Modifiers in a row -/

/-- How many modifiers a row starts with, as they would be read behind an expression. -/
def modifiersAhead : List Token → Nat
  | ⟨.mark '[', _⟩ :: ⟨.mark ']', _⟩ :: ts => modifiersAhead ts + 1
  | ⟨.mark '=', _⟩ :: ts => modifiersAhead ts + 1
  | ⟨.mark '?', _⟩ :: ts => modifiersAhead ts + 1
  | ⟨.mark '!', _⟩ :: ts => modifiersAhead ts + 1
  | _ => 0

/-- Can an expression end with this lexeme, when this row follows it? After `?` and `...` that stand
alone it can, and then the one modifier that may come next is `=`. -/
def endsExpression (l : Lexeme) (ts : List Token) : Bool :=
  match l with
  | .name _ | .number _ | .quoted _ => true
  | .mark '?' | .ellipsis => nextLexeme ts == .mark '='
  | .mark c => ['*', ')', '>', '}'].contains c
  | .stop => false

/-- How many modifiers stand behind one expression at most, anywhere in a row. -/
def longestRun : List Token → Nat
  | [] => 0
  | t :: ts => max (if endsExpression t.lexeme ts then modifiersAhead ts else 0) (longestRun ts)

/-- A row without nameless names, with at most `run` modifiers behind each of its expressions. -/
structure Tidy (run : Nat) (ts : List Token) : Prop where
  named : ∀ t ∈ ts, t.lexeme ≠ .name ""
  short : longestRun ts ≤ run

/-- A tidy row that follows an expression. -/
structure Behind (run : Nat) (ts : List Token) : Prop extends Tidy run ts where
  ahead : modifiersAhead ts ≤ run

section

variable {run : Nat} {t : Token} {ts rest : List Token}

theorem Tidy.tail (h : Tidy run (t :: ts)) : Tidy run ts := by
  refine ⟨fun u hu => h.named u (List.mem_cons_of_mem t hu), ?_⟩
  have hshort := h.short
  rw [longestRun] at hshort
  omega

theorem Tidy.behind (h : Tidy run (t :: ts)) (hends : endsExpression t.lexeme ts = true) :
    Behind run ts := by
  refine ⟨h.tail, ?_⟩
  have hshort := h.short
  rw [longestRun, if_pos hends] at hshort
  omega

theorem Tidy.acceptMark? {c : Char} (h : Tidy run ts) (hrest : acceptMark? c ts = some rest) :
    Tidy run rest := by
  obtain ⟨p, rfl⟩ := eq_cons_of_acceptMark? hrest
  exact h.tail

theorem Tidy.expectMark {c : Char} (h : Tidy run ts) (hrest : expectMark c ts = .ok rest) :
    Tidy run rest := by
  obtain ⟨p, rfl⟩ := eq_cons_of_expectMark hrest
  exact h.tail

theorem endsExpression_close {c : Char} (hc : c ∈ ['*', ')', '>', '}']) (ts : List Token) :
    endsExpression (.mark c) ts = true := by
  simp only [List.mem_cons, List.not_mem_nil, or_false] at hc
  rcases hc with rfl | rfl | rfl | rfl <;> rfl

/-- After a closing mark. -/
theorem Tidy.acceptClose {c : Char} (h : Tidy run ts) (hc : c ∈ ['*', ')', '>', '}'])
    (hrest : TypeExpr.acceptMark? c ts = some rest) : Behind run rest := by
  obtain ⟨p, rfl⟩ := eq_cons_of_acceptMark? hrest
  exact h.behind (endsExpression_close hc rest)

theorem Tidy.expectClose {c : Char} (h : Tidy run ts) (hc : c ∈ ['*', ')', '>', '}'])
    (hrest : TypeExpr.expectMark c ts = .ok rest) : Behind run rest := by
  obtain ⟨p, rfl⟩ := eq_cons_of_expectMark hrest
  exact h.behind (endsExpression_close hc rest)

theorem Tidy.dropDot (h : Tidy run ts) : Tidy run (dropDot ts) := by
  unfold TypeExpr.dropDot
  split
  · exact h.tail
  · exact h

theorem dropDot_of_acceptMark? (h : TypeExpr.acceptMark? '<' (TypeExpr.dropDot ts) = none) :
    TypeExpr.dropDot ts = ts := by
  unfold TypeExpr.dropDot at h ⊢
  split
  · next p rest =>
    simp only at h
    cases h
  · rfl

/-- A row at whose start `?` and `...` stand alone begins with no modifier but `=`. -/
theorem Tidy.behind_alone {l : Lexeme} {p : Nat} (h : Tidy run (⟨l, p⟩ :: ts))
    (hl : l = .mark '?' ∨ l = .ellipsis) (hlone : atBoundary ts = true) : Behind run ts := by
  by_cases hnext : nextLexeme ts = .mark '='
  · apply h.behind
    rcases hl with rfl | rfl <;> simpa [endsExpression] using hnext
  · refine ⟨h.tail, ?_⟩
    have hzero : modifiersAhead ts = 0 := by
      unfold atBoundary at hlone
      unfold modifiersAhead
      split <;> simp_all [nextLexeme]
    omega

end

/-! ## Trees -/

/-- The productions. -/
inductive Production where
  | type
  | operand
  /-- A primary expression with this many modifiers behind it. -/
  | suffixed (modifiers : Nat)
  | primary
  | entry

/-- The trees that a production makes with inner operands of the given level, when at most `run`
modifiers stand behind one expression. -/
inductive Built (run : Nat) : Production → Nat → Node → Prop
  | single {d : Nat} {n : Node} : Built run .operand d n → Built run .type d n
  | union {d : Nat} {ns : List Node} : 2 ≤ ns.length → (∀ n ∈ ns, Built run .operand d n) →
      Built run .type d { kind := .union, children := ns }
  | unknown {d : Nat} : Built run .operand (d + 1) { kind := .unknown }
  | variadicAlone {d : Nat} : Built run .operand (d + 1) { kind := .variadic }
  | under {d : Nat} {kind : Kind} {n : Node} : kind ∈ [.nullable, .notNullable, .variadic] →
      Built run .operand d n → Built run .operand (d + 1) { kind, children := [n] }
  | suffixed {d k : Nat} {n : Node} : k ≤ run → Built run (.suffixed k) d n →
      Built run .operand (d + 1) n
  | primary {d : Nat} {n : Node} : Built run .primary d n → Built run (.suffixed 0) d n
  | array {d k : Nat} {n : Node} : Built run (.suffixed k) d n →
      Built run (.suffixed (k + 1)) d { kind := .generic, name := some "Array", children := [n] }
  | behind {d k : Nat} {kind : Kind} {n : Node} : kind ∈ [.optional, .nullable, .notNullable] →
      Built run (.suffixed k) d n → Built run (.suffixed (k + 1)) d { kind, children := [n] }
  | name {d : Nat} {s : String} : s ≠ "" → Built run .primary d { kind := .name, name := some s }
  | generic {d : Nat} {s : String} {ns : List Node} : ns ≠ [] →
      (∀ n ∈ ns, Built run .type d n) →
      Built run .primary d { kind := .generic, name := some s, children := ns }
  | stringValue {d : Nat} (s : String) :
      Built run .primary d { kind := .stringValue, value := some s }
  | numberValue {d : Nat} (s : String) :
      Built run .primary d { kind := .numberValue, value := some s }
  | any {d : Nat} : Built run .primary d { kind := .any }
  | parenthesis {d : Nat} {n : Node} : Built run .type d n →
      Built run .primary d { kind := .parenthesis, children := [n] }
  | record {d : Nat} {ns : List Node} : (∀ n ∈ ns, Built run .entry d n) →
      Built run .primary d { kind := .record, children := ns }
  | function {d : Nat} {ns : List Node} {returns : Option Node} :
      (∀ n ∈ ns, Built run .type d n) → (∀ n ∈ returns, Built run .operand d n) →
      Built run .primary d { kind := .function, children := ns, returns }
  | bareEntry {d : Nat} (key : String) :
      Built run .entry d { kind := .recordEntry, name := some key }
  | typedEntry {d : Nat} {n : Node} (key : String) : Built run .type d n →
      Built run .entry d { kind := .recordEntry, name := some key, children := [n] }

/-! ## The loops -/

variable {run : Nat}

/-- From tidy rows the reader takes an expression, and gives what satisfies `P`. -/
def Yields {α : Type} (run : Nat) (reader : Reader α) (P : α → Prop) : Prop :=
  ∀ ts a rest, Tidy run ts → reader ts = .ok (a, rest) → P a ∧ Behind run rest

section

variable {α : Type} {item : Reader α} {P : α → Prop} (hitem : Yields run item P)
include hitem

theorem built_sepBy (c : Char) : Yields run (sepBy item c) fun as => as ≠ [] ∧ ∀ a ∈ as, P a := by
  intro ts as rest ht h
  fun_induction sepBy item c ts generalizing as rest with
  | case1 ts e he => cases h
  | case2 ts a us ha hnone =>
    cases h
    obtain ⟨hP, hus⟩ := hitem _ _ _ ht ha
    exact ⟨⟨List.cons_ne_nil _ _, List.forall_mem_singleton.2 hP⟩, hus⟩
  | case3 ts a us ha more hmore hlt e he ih => cases h
  | case4 ts a us ha more hmore hlt as' rest' has ih =>
    cases h
    obtain ⟨hP, hus⟩ := hitem _ _ _ ht ha
    obtain ⟨⟨-, hall⟩, hrest⟩ := ih _ _ (hus.toTidy.acceptMark? hmore) has
    exact ⟨⟨List.cons_ne_nil _ _, List.forall_mem_cons.2 ⟨hP, hall⟩⟩, hrest⟩
  | case5 ts a us ha more hmore hlt =>
    cases h
    obtain ⟨hP, hus⟩ := hitem _ _ _ ht ha
    exact ⟨⟨List.cons_ne_nil _ _, List.forall_mem_singleton.2 hP⟩, hus⟩

theorem built_listUntil (htakes : Takes item) {close : Char}
    (hclose : close ∈ ['*', ')', '>', '}']) :
    Yields run (listUntil item close) fun as => ∀ a ∈ as, P a := by
  intro ts as rest ht h
  fun_induction listUntil item close ts generalizing as rest with
  | case1 ts e he => cases h
  | case2 ts a us ha rest' hrest =>
    cases h
    obtain ⟨hP, hus⟩ := hitem _ _ _ ht ha
    exact ⟨List.forall_mem_singleton.2 hP, hus.acceptClose hclose hrest⟩
  | case3 ts a us ha hnone e he => cases h
  | case4 ts a us ha hnone more hmore hlt e he ih => cases h
  | case5 ts a us ha hnone more hmore hlt as' rest' has ih =>
    cases h
    obtain ⟨hP, hus⟩ := hitem _ _ _ ht ha
    obtain ⟨hall, hrest⟩ := ih _ _ (hus.toTidy.expectMark hmore) has
    exact ⟨List.forall_mem_cons.2 ⟨hP, hall⟩, hrest⟩
  | case6 ts a us ha hnone more hmore hlt =>
    -- the comma that was taken makes the row shorter
    obtain ⟨q, rfl⟩ := eq_cons_of_expectMark hmore
    have hle := (htakes ts a _ ha).length_le
    rw [List.length_cons] at hle
    omega

end

/-! ## Types over a reader of operands -/

section

variable {operand : Reader Node} {d : Nat} (htakes : Takes operand)
  (hoperand : Yields run operand (Built run .operand d))
include hoperand

theorem built_readType : Yields run (readType operand) (Built run .type d) := by
  intro ts node rest ht h
  unfold readType at h
  split at h
  · cases h
  · next hmembers =>
    cases h
    obtain ⟨⟨-, hall⟩, hrest⟩ := built_sepBy hoperand '|' _ _ _ ht hmembers
    exact ⟨.single (hall node List.mem_cons_self), hrest⟩
  · next members _ hseveral hmembers =>
    cases h
    obtain ⟨⟨hne, hall⟩, hrest⟩ := built_sepBy hoperand '|' _ _ _ ht hmembers
    refine ⟨.union ?_ hall, hrest⟩
    match members, hne, hseveral with
    | [n], _, hseveral => exact (hseveral n rfl).elim
    | _ :: _ :: _, _, _ => simp

theorem built_readNamed {name : String} (hname : name ≠ "") {ts rest : List Token} {node : Node}
    (ht : Behind run ts) (h : readNamed operand name ts = .ok (node, rest)) :
    Built run .primary d node ∧ Behind run rest := by
  rw [readNamed_eq] at h
  split at h
  · next hnone =>
    cases h
    rw [dropDot_of_acceptMark? hnone]
    exact ⟨.name hname, ht⟩
  · next inner hinner =>
    split at h
    · cases h
    · next arguments more harguments =>
      split at h
      · cases h
      · next rest' hrest =>
        cases h
        obtain ⟨⟨hne, hall⟩, hmore⟩ := built_sepBy (built_readType hoperand) ',' _ _ _
          (ht.dropDot.acceptMark? hinner) harguments
        exact ⟨.generic hne hall, hmore.expectClose (by decide) hrest⟩

theorem built_readParam : Yields run (readParam operand) (Built run .type d) := by
  intro ts node rest ht h
  unfold readParam at h
  split at h
  · exact built_readType hoperand _ _ _ ht.tail.tail h
  · exact built_readType hoperand _ _ _ ht.tail.tail h
  · exact built_readType hoperand _ _ _ ht h

theorem built_readReturns {params : List Node} (hparams : ∀ n ∈ params, Built run .type d n)
    {ts rest : List Token} {node : Node} (ht : Behind run ts)
    (h : readReturns operand params ts = .ok (node, rest)) :
    Built run .primary d node ∧ Behind run rest := by
  unfold readReturns at h
  split at h
  · cases h
    exact ⟨.function hparams (by simp), ht⟩
  · next us hus =>
    split at h
    · cases h
    · next hnode =>
      cases h
      obtain ⟨hbuilt, hrest⟩ := hoperand _ _ _ (ht.toTidy.acceptMark? hus) hnode
      exact ⟨.function hparams (by simpa using hbuilt), hrest⟩

theorem built_readEntry : Yields run (readEntry operand) (Built run .entry d) := by
  intro ts node rest ht h
  unfold readEntry at h
  split at h
  · cases h
  · next t us =>
    split at h
    · cases h
    · next key hkey =>
      split at h
      · cases h
        refine ⟨.bareEntry key, ht.behind ?_⟩
        -- a key is a name, a number or a string
        obtain ⟨l, p⟩ := t
        cases l with
        | name s => rfl
        | number s => rfl
        | quoted s => rfl
        | _ => cases hkey
      · next us' hus =>
        split at h
        · cases h
        · next hnode =>
          cases h
          obtain ⟨hbuilt, hrest⟩ :=
            built_readType hoperand _ _ _ (ht.tail.acceptMark? hus) hnode
          exact ⟨.typedEntry key hbuilt, hrest⟩

omit hoperand in
/-- The modifiers behind an expression are those that the row starts with, and none is left. -/
theorem built_readSuffixes {k : Nat} {node : Node} {ts : List Token}
    (hnode : Built run (.suffixed k) d node) (ht : Tidy run ts) :
    Built run (.suffixed (k + modifiersAhead ts)) d (readSuffixes node ts).1 ∧
      Behind run (readSuffixes node ts).2 := by
  fun_induction readSuffixes node ts generalizing k with
  | case1 node p q ts ih =>
    have h := ih (.array hnode) ht.tail.tail
    rwa [Nat.add_assoc, Nat.add_comm 1] at h
  | case2 node p ts ih =>
    have h := ih (.behind (by decide) hnode) ht.tail
    rwa [Nat.add_assoc, Nat.add_comm 1] at h
  | case3 node p ts ih =>
    have h := ih (.behind (by decide) hnode) ht.tail
    rwa [Nat.add_assoc, Nat.add_comm 1] at h
  | case4 node p ts ih =>
    have h := ih (.behind (by decide) hnode) ht.tail
    rwa [Nat.add_assoc, Nat.add_comm 1] at h
  | case5 node ts harray hoptional hnullable hnot =>
    have hzero : modifiersAhead ts = 0 := by
      rw [modifiersAhead.eq_5 _ harray hoptional hnullable hnot]
    rw [hzero]
    exact ⟨hnode, ht, hzero.trans_le (Nat.zero_le run)⟩

theorem built_readUnder {kind : Kind} (hkind : kind ∈ [.nullable, .notNullable, .variadic]) :
    Yields run (readUnder operand kind) (Built run .operand (d + 1)) := by
  intro ts node rest ht h
  unfold readUnder at h
  split at h
  · cases h
  · next hnode =>
    cases h
    obtain ⟨hbuilt, hrest⟩ := hoperand _ _ _ ht hnode
    exact ⟨.under hkind hbuilt, hrest⟩

include htakes

theorem built_readFunction : Yields run (readFunction operand) (Built run .primary d) := by
  intro ts node rest ht h
  unfold readFunction at h
  split at h
  · next us hus =>
    exact built_readReturns hoperand (List.forall_mem_nil _) (ht.acceptClose (by decide) hus) h
  · split at h
    · cases h
    · next params us hparams =>
      obtain ⟨hall, hus⟩ := built_listUntil (built_readParam hoperand) (takes_readParam htakes)
        (by decide) _ _ _ ht hparams
      exact built_readReturns hoperand hall hus h

theorem built_readRecord : Yields run (readRecord operand) (Built run .primary d) := by
  intro ts node rest ht h
  unfold readRecord at h
  split at h
  · next us hus =>
    cases h
    exact ⟨.record (List.forall_mem_nil _), ht.acceptClose (by decide) hus⟩
  · split at h
    · cases h
    · next hentries =>
      cases h
      obtain ⟨hall, hrest⟩ := built_listUntil (built_readEntry hoperand) (takes_readEntry htakes)
        (by decide) _ _ _ ht hentries
      exact ⟨.record hall, hrest⟩

theorem built_readPrimary : Yields run (readPrimary operand) (Built run .primary d) := by
  intro ts node rest ht h
  unfold readPrimary at h
  split at h
  · next text p us =>
    have hname : text ≠ "" := by
      rintro rfl
      exact ht.named _ List.mem_cons_self rfl
    split at h
    · next hinner =>
      exact built_readFunction htakes hoperand _ _ _ (ht.tail.acceptMark? hinner) h
    · exact built_readNamed hoperand hname (ht.behind rfl) h
  · cases h
    exact ⟨.stringValue _, ht.behind rfl⟩
  · cases h
    exact ⟨.numberValue _, ht.behind rfl⟩
  · cases h
    exact ⟨.any, ht.behind rfl⟩
  · split at h
    · cases h
    · next hnode =>
      split at h
      · cases h
      · next hrest =>
        cases h
        obtain ⟨hbuilt, hmore⟩ := built_readType hoperand _ _ _ ht.tail hnode
        exact ⟨.parenthesis hbuilt, hmore.expectClose (by decide) hrest⟩
  · exact built_readRecord htakes hoperand _ _ _ ht.tail h
  · cases h

theorem built_readSuffixed : Yields run (readSuffixed operand) (Built run .operand (d + 1)) := by
  intro ts node rest ht h
  unfold readSuffixed at h
  split at h
  · cases h
  · next inner us hinner =>
    obtain ⟨hbuilt, hus⟩ := built_readPrimary htakes hoperand _ _ _ ht hinner
    obtain ⟨hnode, hrest⟩ := built_readSuffixes (.primary hbuilt) hus.toTidy
    rw [Except.ok.inj h, Nat.zero_add] at hnode
    rw [Except.ok.inj h] at hrest
    exact ⟨.suffixed hus.ahead hnode, hrest⟩

theorem built_readModified : Yields run (readModified operand) (Built run .operand (d + 1)) := by
  intro ts node rest ht h
  unfold readModified at h
  split at h
  · split at h
    · next hlone =>
      cases h
      exact ⟨.unknown, ht.behind_alone (Or.inl rfl) hlone⟩
    · exact built_readUnder hoperand (by decide) _ _ _ ht.tail h
  · exact built_readUnder hoperand (by decide) _ _ _ ht.tail h
  · split at h
    · next hlone =>
      cases h
      exact ⟨.variadicAlone, ht.behind_alone (Or.inr rfl) hlone⟩
    · exact built_readUnder hoperand (by decide) _ _ _ ht.tail h
  · exact built_readSuffixed htakes hoperand _ _ _ ht h

end

theorem built_readOperand (run depth : Nat) :
    Yields run (readOperand depth) (Built run .operand depth) := by
  induction depth with
  | zero =>
    intro ts node rest ht h
    cases h
  | succ depth ih => exact built_readModified (took_readOperand depth) ih

/-! ## Whole texts -/

theorem tidy_of_lexed {p : Nat} {cs : List Char} {ts : List Token} (h : Lexed p cs ts) :
    Tidy (longestRun ts) ts := by
  refine ⟨?_, Nat.le_refl _⟩
  induction h with
  | stop p => simp
  | blank _ _ ih => exact ih
  | token hread _ _ ih =>
    refine List.forall_mem_cons.2 ⟨?_, ih⟩
    rintro rfl
    exact (readLexeme?_append hread).2 rfl

/-- The tree of a text is built at the greatest level that is allowed. -/
theorem built_of_parseNode {source : String} {node : Node} (h : parseNode source = .ok node) :
    ∃ ts, tokens source = .ok ts ∧ Built (longestRun ts) .type maxDepth node := by
  unfold parseNode at h
  split at h
  · cases h
  · split at h
    · cases h
    · next ts hts =>
      have ht := tidy_of_lexed (lexed_of_tokensFrom hts)
      unfold readAll at h
      split at h
      · cases h
      · next rest hnode =>
        split at h
        · cases h
          exact ⟨ts, hts, (built_readType (built_readOperand _ maxDepth) _ _ _ ht hnode).1⟩
        · cases h

end ApiDoc.TypeExpr
