import ApiDoc.Proofs.TypeExpr.Readers

/-!
# Braces of a type pair up

Whatever a reader takes from the front of a row of tokens, each brace that it takes is closed by one
that it takes too: braces come in through records alone, and a record ends with its own brace.

* `Nested`: rows of tokens in which braces pair up.
* `Took`: what lies between two rows that a reader was given and left. It is reflexive and
  transitive, so that a reader put together from others needs one line per step.
* `took_readOperand`: every operand, by induction on the depth that is allowed.
* `nested_of_readAll`: so the tokens of a type pair up.
-/

namespace ApiDoc.TypeExpr

/-! ## Rows with paired braces -/

/-- The braces among the marks of a row pair up. -/
inductive Nested : List Token → Prop
  | nil : Nested []
  | plain {t : Token} {ts : List Token} : t.lexeme ≠ .mark '{' → t.lexeme ≠ .mark '}' →
      Nested ts → Nested (t :: ts)
  | braced {inner ts : List Token} (p q : Nat) : Nested inner → Nested ts →
      Nested (⟨.mark '{', p⟩ :: (inner ++ ⟨.mark '}', q⟩ :: ts))

theorem Nested.append {ts us : List Token} (h : Nested ts) (hus : Nested us) :
    Nested (ts ++ us) := by
  induction h with
  | nil => exact hus
  | plain hopen hclose _ ih => exact .plain hopen hclose ih
  | @braced inner ts p q hinner _ _ ih =>
    have h := Nested.braced p q hinner ih
    simp only [List.cons_append, List.append_assoc]
    exact h

/-- The tokens between a row and a rest of it pair up their braces. -/
def Took (ts rest : List Token) : Prop :=
  ∃ used, ts = used ++ rest ∧ Nested used

namespace Took

theorem refl (ts : List Token) : Took ts ts :=
  ⟨[], rfl, .nil⟩

theorem trans {ts us rest : List Token} (h : Took ts us) (h' : Took us rest) : Took ts rest := by
  obtain ⟨a, rfl, ha⟩ := h
  obtain ⟨b, rfl, hb⟩ := h'
  exact ⟨a ++ b, (List.append_assoc a b rest).symm, ha.append hb⟩

theorem token {t : Token} (hopen : t.lexeme ≠ .mark '{') (hclose : t.lexeme ≠ .mark '}')
    (rest : List Token) : Took (t :: rest) rest :=
  ⟨[t], rfl, .plain hopen hclose .nil⟩

theorem other {l : Lexeme} (h : ∀ c, l ≠ .mark c) (p : Nat) (rest : List Token) :
    Took (⟨l, p⟩ :: rest) rest :=
  token (h '{') (h '}') rest

theorem braced {inner rest : List Token} {p q : Nat} (h : Took inner (⟨.mark '}', q⟩ :: rest)) :
    Took (⟨.mark '{', p⟩ :: inner) rest := by
  obtain ⟨used, rfl, hused⟩ := h
  refine ⟨⟨.mark '{', p⟩ :: (used ++ [⟨.mark '}', q⟩]), ?_, .braced p q hused .nil⟩
  simp only [List.cons_append, List.append_assoc, List.nil_append]

theorem length_le {ts rest : List Token} (h : Took ts rest) : rest.length ≤ ts.length := by
  obtain ⟨used, rfl, -⟩ := h
  rw [List.length_append]
  omega

end Took

/-! ## Single marks -/

section

variable {c : Char} {ts rest : List Token} (hopen : c ≠ '{') (hclose : c ≠ '}')
include hopen hclose

theorem took_mark (p : Nat) : Took (⟨.mark c, p⟩ :: rest) rest := by
  apply Took.token
  · intro h
    exact hopen (Lexeme.mark.inj h)
  · intro h
    exact hclose (Lexeme.mark.inj h)

theorem took_acceptMark? (h : acceptMark? c ts = some rest) : Took ts rest := by
  obtain ⟨p, rfl⟩ := eq_cons_of_acceptMark? h
  exact took_mark hopen hclose p

theorem took_expectMark (h : expectMark c ts = .ok rest) : Took ts rest := by
  obtain ⟨p, rfl⟩ := eq_cons_of_expectMark h
  exact took_mark hopen hclose p

end

/-! ## Lists of items -/

/-- A reader takes tokens whose braces pair up. -/
def Takes {α : Type} (reader : Reader α) : Prop :=
  ∀ ts a rest, reader ts = .ok (a, rest) → Took ts rest

section

variable {α : Type} {item : Reader α} (hitem : Takes item)
include hitem

theorem took_sepBy {c : Char} (hopen : c ≠ '{') (hclose : c ≠ '}') {ts rest : List Token}
    {as : List α} (h : sepBy item c ts = .ok (as, rest)) : Took ts rest := by
  fun_induction sepBy item c ts generalizing as rest with
  | case1 ts e he => cases h
  | case2 ts a us ha hnone =>
    cases h
    exact hitem ts a us ha
  | case3 ts a us ha more hmore hlt e he ih => cases h
  | case4 ts a us ha more hmore hlt as' rest' has ih =>
    cases h
    exact ((hitem ts a us ha).trans (took_acceptMark? hopen hclose hmore)).trans (ih has)
  | case5 ts a us ha more hmore hlt =>
    cases h
    exact hitem ts a us ha

/-- Items up to a closing mark, which comes last. -/
theorem took_listUntil {close : Char} {ts rest : List Token} {as : List α}
    (h : listUntil item close ts = .ok (as, rest)) :
    ∃ q, Took ts (⟨.mark close, q⟩ :: rest) := by
  fun_induction listUntil item close ts generalizing as rest with
  | case1 ts e he => cases h
  | case2 ts a us ha rest' hrest =>
    cases h
    obtain ⟨q, rfl⟩ := eq_cons_of_acceptMark? hrest
    exact ⟨q, hitem ts a _ ha⟩
  | case3 ts a us ha hnone e he => cases h
  | case4 ts a us ha hnone more hmore hlt e he ih => cases h
  | case5 ts a us ha hnone more hmore hlt as' rest' has ih =>
    cases h
    obtain ⟨q, hq⟩ := ih has
    exact ⟨q, ((hitem ts a us ha).trans
      (took_expectMark (by decide) (by decide) hmore)).trans hq⟩
  | case6 ts a us ha hnone more hmore hlt =>
    -- a comma was taken, so the row did get shorter
    obtain ⟨q, rfl⟩ := eq_cons_of_expectMark hmore
    have hle := (hitem ts a _ ha).length_le
    rw [List.length_cons] at hle
    omega

end

/-! ## Types over a reader of operands -/

theorem took_dropDot (ts : List Token) : Took ts (dropDot ts) := by
  unfold dropDot
  split
  · exact took_mark (by decide) (by decide) _
  · exact Took.refl _

section

variable {operand : Reader Node} (hoperand : Takes operand)
include hoperand

theorem takes_readType : Takes (readType operand) := by
  intro ts node rest h
  unfold readType at h
  split at h
  · cases h
  · next hmembers =>
    cases h
    exact took_sepBy hoperand (by decide) (by decide) hmembers
  · next hmembers =>
    cases h
    exact took_sepBy hoperand (by decide) (by decide) hmembers

theorem takes_readNamed (name : String) : Takes (readNamed operand name) := by
  intro ts node rest h
  rw [readNamed_eq] at h
  refine (took_dropDot ts).trans ?_
  split at h
  · cases h
    exact Took.refl _
  · next inner hinner =>
    split at h
    · cases h
    · next arguments more harguments =>
      split at h
      · cases h
      · next rest' hrest =>
        cases h
        have hopened := took_acceptMark? (by decide) (by decide) hinner
        have hargs := took_sepBy (takes_readType hoperand) (by decide) (by decide) harguments
        exact (hopened.trans hargs).trans (took_expectMark (by decide) (by decide) hrest)

theorem takes_readParam : Takes (readParam operand) := by
  intro ts node rest h
  unfold readParam at h
  split at h
  · exact ((Took.other (by nofun) _ _).trans (took_mark (by decide) (by decide) _)).trans
      (takes_readType hoperand _ _ _ h)
  · exact ((Took.other (by nofun) _ _).trans (took_mark (by decide) (by decide) _)).trans
      (takes_readType hoperand _ _ _ h)
  · exact takes_readType hoperand _ _ _ h

theorem takes_readReturns (params : List Node) : Takes (readReturns operand params) := by
  intro ts node rest h
  unfold readReturns at h
  split at h
  · cases h
    exact Took.refl _
  · next us hus =>
    split at h
    · cases h
    · next hnode =>
      cases h
      exact (took_acceptMark? (by decide) (by decide) hus).trans (hoperand _ _ _ hnode)

theorem takes_readFunction : Takes (readFunction operand) := by
  intro ts node rest h
  unfold readFunction at h
  split at h
  · next us hus =>
    exact (took_acceptMark? (by decide) (by decide) hus).trans
      (takes_readReturns hoperand [] _ _ _ h)
  · split at h
    · cases h
    · next params us hparams =>
      obtain ⟨q, hq⟩ := took_listUntil (takes_readParam hoperand) hparams
      exact (hq.trans (took_mark (by decide) (by decide) q)).trans
        (takes_readReturns hoperand params _ _ _ h)

theorem takes_readEntry : Takes (readEntry operand) := by
  intro ts node rest h
  unfold readEntry at h
  split at h
  · cases h
  · next t us =>
    split at h
    · cases h
    · next key hkey =>
      -- no mark is a key
      have hname : Took (t :: us) us := by
        apply Took.token
        · intro ht
          rw [ht] at hkey
          cases hkey
        · intro ht
          rw [ht] at hkey
          cases hkey
      refine hname.trans ?_
      split at h
      · cases h
        exact Took.refl _
      · next us' hus =>
        split at h
        · cases h
        · next hnode =>
          cases h
          exact (took_acceptMark? (by decide) (by decide) hus).trans
            (takes_readType hoperand _ _ _ hnode)

/-- A record ends with the brace that closes it. -/
theorem took_readRecord {ts rest : List Token} {node : Node}
    (h : readRecord operand ts = .ok (node, rest)) : ∃ q, Took ts (⟨.mark '}', q⟩ :: rest) := by
  unfold readRecord at h
  split at h
  · next us hus =>
    cases h
    obtain ⟨q, rfl⟩ := eq_cons_of_acceptMark? hus
    exact ⟨q, Took.refl _⟩
  · split at h
    · cases h
    · next hentries =>
      cases h
      exact took_listUntil (takes_readEntry hoperand) hentries

theorem takes_readPrimary : Takes (readPrimary operand) := by
  intro ts node rest h
  unfold readPrimary at h
  split at h
  · next text p us =>
    refine (Took.other (by nofun) p us).trans ?_
    split at h
    · next hinner =>
      exact (took_acceptMark? (by decide) (by decide) hinner).trans
        (takes_readFunction hoperand _ _ _ h)
    · exact takes_readNamed hoperand _ _ _ _ h
  · cases h
    exact Took.other (by nofun) _ _
  · cases h
    exact Took.other (by nofun) _ _
  · cases h
    exact took_mark (by decide) (by decide) _
  · split at h
    · cases h
    · next hnode =>
      split at h
      · cases h
      · next hrest =>
        cases h
        exact ((took_mark (by decide) (by decide) _).trans
          (takes_readType hoperand _ _ _ hnode)).trans
            (took_expectMark (by decide) (by decide) hrest)
  · obtain ⟨q, hq⟩ := took_readRecord hoperand h
    exact hq.braced
  · cases h

omit hoperand in
theorem took_readSuffixes (node : Node) (ts : List Token) :
    Took ts (readSuffixes node ts).2 := by
  fun_induction readSuffixes node ts with
  | case1 node p q ts ih =>
    exact ((took_mark (by decide) (by decide) p).trans
      (took_mark (by decide) (by decide) q)).trans ih
  | case2 node p ts ih => exact (took_mark (by decide) (by decide) p).trans ih
  | case3 node p ts ih => exact (took_mark (by decide) (by decide) p).trans ih
  | case4 node p ts ih => exact (took_mark (by decide) (by decide) p).trans ih
  | case5 node ts => exact Took.refl _

theorem takes_readSuffixed : Takes (readSuffixed operand) := by
  intro ts node rest h
  unfold readSuffixed at h
  split at h
  · cases h
  · next inner us hinner =>
    have hrest : (readSuffixes inner us).2 = rest := congrArg Prod.snd (Except.ok.inj h)
    rw [← hrest]
    exact (takes_readPrimary hoperand _ _ _ hinner).trans (took_readSuffixes inner us)

theorem takes_readUnder (kind : Kind) : Takes (readUnder operand kind) := by
  intro ts node rest h
  unfold readUnder at h
  split at h
  · cases h
  · next hnode =>
    cases h
    exact hoperand _ _ _ hnode

theorem takes_readModified : Takes (readModified operand) := by
  intro ts node rest h
  unfold readModified at h
  split at h
  · refine (took_mark (by decide) (by decide) _).trans ?_
    split at h
    · cases h
      exact Took.refl _
    · exact takes_readUnder hoperand _ _ _ _ h
  · exact (took_mark (by decide) (by decide) _).trans (takes_readUnder hoperand _ _ _ _ h)
  · refine (Took.other (by nofun) _ _).trans ?_
    split at h
    · cases h
      exact Took.refl _
    · exact takes_readUnder hoperand _ _ _ _ h
  · exact takes_readSuffixed hoperand _ _ _ h

end

theorem took_readOperand (depth : Nat) : Takes (readOperand depth) := by
  induction depth with
  | zero =>
    intro ts node rest h
    cases h
  | succ depth ih => exact takes_readModified ih

/-- The braces of a type pair up, whatever follows the end of the type. -/
theorem nested_of_readAll {depth : Nat} {ts : List Token} {node : Node}
    (h : readAll depth ts = .ok node) :
    ∃ used rest, ts = used ++ rest ∧ Nested used ∧ nextLexeme rest = .stop := by
  unfold readAll at h
  split at h
  · cases h
  · next rest hnode =>
    obtain ⟨used, hts, hused⟩ := takes_readType (took_readOperand depth) _ _ _ hnode
    split at h
    · next hstop => exact ⟨used, rest, hts, hused, hstop⟩
    · cases h

end ApiDoc.TypeExpr
