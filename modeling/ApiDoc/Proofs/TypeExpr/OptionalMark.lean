import ApiDoc.Proofs.TypeExpr.Words
import ApiDoc.Proofs.TypeExpr.Nesting

/-!
# Which types take the mark of optional ones

A type with `=` behind it is read like the type alone up to its last operand, and there it depends
on what this operand ends with. A primary expression takes the mark, as a modifier of its own or of
the return type that it ends with. A `?` or `...` that stands alone does not, nor does anything that
ends with one.

* `Node.endsAlone`: the trees of types that end with such a `?` or `...`.
* `Extends`: what a reader does when the mark is put before the end of the row. It has stopped short
  of the end and still does, or it has come to the end and leaves the mark or takes it.
* `extends_readOperand`: every operand, by induction on the depth that is allowed.
* `parseNode_optional`: a type takes the mark exactly if it does not end alone.
-/

namespace ApiDoc.TypeExpr

mutual

/-- Does the type end with a `?` or `...` that stands alone? -/
def Node.endsAlone : Node → Bool
  | ⟨kind, _, _, children, _⟩ =>
    [Kind.unknown, .variadic, .nullable, .notNullable, .union].contains kind &&
      Node.lastEndsAlone children

/-- Does the last operand end so? Without any, the `?` or `...` itself stands alone. -/
def Node.lastEndsAlone : List Node → Bool
  | [] => true
  | n :: ns => if ns.isEmpty then n.endsAlone else Node.lastEndsAlone ns

end

theorem Node.lastEndsAlone_concat (ns : List Node) (n : Node) :
    Node.lastEndsAlone (ns ++ [n]) = n.endsAlone := by
  induction ns with
  | nil => simp [Node.lastEndsAlone]
  | cons m ns ih => simp [Node.lastEndsAlone, ih]

/-- The type takes the mark of optional ones. -/
def Node.TakesMark (n : Node) : Prop := n.endsAlone = false

/-! ## Rows before the end and before the mark -/

/-- Nothing more, from the place `p` on. -/
def atEnd (p : Nat) : List Token := [⟨.stop, p⟩]

/-- The mark of optional types and nothing more. -/
def atMark (p : Nat) : List Token := ⟨.mark '=', p⟩ :: atEnd (p + 1)

section

variable {p : Nat} {ts rest : List Token}

theorem exists_of_append_atEnd {l : Lexeme} {q : Nat} (h : ts ++ atEnd p = ⟨l, q⟩ :: rest)
    (hl : l ≠ .stop) : ∃ back, ts = ⟨l, q⟩ :: back ∧ rest = back ++ atEnd p := by
  cases ts with
  | nil =>
    cases h
    exact absurd rfl hl
  | cons t ts =>
    obtain ⟨rfl, rfl⟩ := List.cons.inj h
    exact ⟨ts, rfl, rfl⟩

theorem exists_atEnd_of_atMark {l : Lexeme} {q : Nat} (h : ts ++ atMark p = ⟨l, q⟩ :: rest)
    (hl : l ≠ .mark '=') : ∃ rest', ts ++ atEnd p = ⟨l, q⟩ :: rest' := by
  cases ts with
  | nil =>
    cases h
    exact absurd rfl hl
  | cons t ts =>
    obtain ⟨rfl, -⟩ := List.cons.inj h
    exact ⟨ts ++ atEnd p, rfl⟩

theorem exists_of_acceptMark? {c : Char} (h : acceptMark? c (ts ++ atEnd p) = some rest) :
    ∃ q back, ts = ⟨.mark c, q⟩ :: back ∧ rest = back ++ atEnd p := by
  obtain ⟨q, hts⟩ := eq_cons_of_acceptMark? h
  exact ⟨q, exists_of_append_atEnd hts (by simp)⟩

theorem exists_of_expectMark {c : Char} (h : expectMark c (ts ++ atEnd p) = .ok rest) :
    ∃ q back, ts = ⟨.mark c, q⟩ :: back ∧ rest = back ++ atEnd p := by
  obtain ⟨q, hts⟩ := eq_cons_of_expectMark h
  exact ⟨q, exists_of_append_atEnd hts (by simp)⟩

theorem acceptMark?_atMark {c : Char} (hc : c ≠ '=') (h : acceptMark? c (ts ++ atEnd p) = none) :
    acceptMark? c (ts ++ atMark p) = none := by
  cases ts with
  | nil => exact if_neg (Ne.symm hc)
  | cons t ts =>
    obtain ⟨l, q⟩ := t
    cases l <;> simp_all [acceptMark?]

theorem length_atMark_lt {back : List Token} :
    (back ++ atMark p).length < (ts ++ atMark p).length ↔
      (back ++ atEnd p).length < (ts ++ atEnd p).length := by
  simp only [List.length_append]
  omega

theorem atBoundary_atMark (ts : List Token) (p : Nat) :
    atBoundary (ts ++ atMark p) = atBoundary (ts ++ atEnd p) := by
  cases ts <;> rfl

end

/-! ## What the mark changes -/

/-- The result of a reader before the mark, if it gave `a` and left `back` before the end. -/
inductive Onward {α : Type} (p : Nat) (keeps : List Token → α → Prop) (gives : α → Prop)
    (back : List Token) (a : α) (result : Except SyntaxError (α × List Token)) : Prop
  | stays : keeps back a → result = .ok (a, back ++ atMark p) → Onward p keeps gives back a result
  | taken (b : α) : back = [] → gives a → result = .ok (b, atEnd (p + 1)) →
      Onward p keeps gives back a result

/-- Before the mark, the reader stops where it has stopped before the end, in a way that `keeps`
allows, or it has come to the end, in a way that `gives` allows, and takes the mark. -/
def Extends {α : Type} (p : Nat) (reader : Reader α) (keeps : List Token → α → Prop)
    (gives : α → Prop) : Prop :=
  ∀ ts a rest, reader (ts ++ atEnd p) = .ok (a, rest) →
    ∃ back, rest = back ++ atEnd p ∧ Onward p keeps gives back a (reader (ts ++ atMark p))

/-- The last of some items satisfies `P`. -/
def LastIs {α : Type} (P : α → Prop) (as : List α) : Prop :=
  ∃ front a, as = front ++ [a] ∧ P a

theorem lastIs_singleton {α : Type} {P : α → Prop} {a : α} (h : P a) : LastIs P [a] :=
  ⟨[], a, rfl, h⟩

theorem LastIs.cons {α : Type} {P : α → Prop} {as : List α} (h : LastIs P as) (a : α) :
    LastIs P (a :: as) := by
  obtain ⟨front, b, rfl, hb⟩ := h
  exact ⟨a :: front, b, rfl, hb⟩

section

variable {α : Type} {p : Nat} {item : Reader α} {keeps : List Token → α → Prop}
  {gives : α → Prop}

theorem Onward.of_ne_nil {back : List Token} {a : α}
    {result : Except SyntaxError (α × List Token)} (h : Onward p keeps gives back a result)
    (hback : back ≠ []) : keeps back a ∧ result = .ok (a, back ++ atMark p) := by
  cases h with
  | stays hkeeps hresult => exact ⟨hkeeps, hresult⟩
  | taken b hnil _ _ => exact absurd hnil hback

theorem Onward.imp {keeps' : List Token → α → Prop} {gives' : α → Prop} {back : List Token} {a : α}
    {result : Except SyntaxError (α × List Token)} (h : Onward p keeps gives back a result)
    (hkeeps : keeps back a → keeps' back a) (hgives : gives a → gives' a) :
    Onward p keeps' gives' back a result := by
  cases h with
  | stays hk hresult => exact .stays (hkeeps hk) hresult
  | taken b hnil hg hresult => exact .taken b hnil (hgives hg) hresult

theorem Extends.map {β : Type} {f : α → β} {keeps' : List Token → β → Prop} {gives' : β → Prop}
    {reader : Reader β}
    (h : Extends p item keeps gives)
    (hreader : ∀ ts, reader ts = (item ts).map fun r => (f r.1, r.2))
    (hkeeps : ∀ back a, keeps back a → keeps' back (f a)) (hgives : ∀ a, gives a → gives' (f a)) :
    Extends p reader keeps' gives' := by
  intro ts b rest hb
  rw [hreader] at hb ⊢
  cases hr : item (ts ++ atEnd p) with
  | error e =>
    rw [hr] at hb
    cases hb
  | ok r =>
    rw [hr] at hb
    cases hb
    obtain ⟨back, hback, hon⟩ := h _ _ _ hr
    refine ⟨back, hback, ?_⟩
    cases hon with
    | stays hk hresult =>
      refine .stays (hkeeps _ _ hk) ?_
      rw [hresult]
      rfl
    | taken c hnil hg hresult =>
      refine .taken (f c) hnil (hgives _ hg) ?_
      rw [hresult]
      rfl

variable (hitem : Extends p item keeps gives)
include hitem

theorem extends_sepBy {c : Char} (hc : c ≠ '=') :
    Extends p (sepBy item c) (fun back => LastIs (keeps back)) (LastIs gives) := by
  intro ts as rest h
  generalize hrow : ts ++ atEnd p = row at h
  fun_induction sepBy item c row generalizing ts as rest with
  | case1 row e he => cases h
  | case2 row a us ha hnone =>
    cases h
    subst hrow
    obtain ⟨back, rfl, hon⟩ := hitem _ _ _ ha
    refine ⟨back, rfl, ?_⟩
    rw [sepBy]
    cases hon with
    | stays hkeeps hresult =>
      refine .stays (lastIs_singleton hkeeps) ?_
      simp only [hresult, acceptMark?_atMark hc hnone]
    | taken b hnil hgives hresult =>
      refine .taken [b] hnil (lastIs_singleton hgives) ?_
      rw [hresult]
      rfl
  | case3 row a us ha more hmore hlt e he ih => cases h
  | case4 row a us ha more hmore hlt as' rest' has ih =>
    cases h
    subst hrow
    obtain ⟨back, rfl, hon⟩ := hitem _ _ _ ha
    -- the separator stands between this item and the mark, so only later items can take it
    obtain ⟨q, back, rfl, rfl⟩ := exists_of_acceptMark? hmore
    obtain ⟨back', rfl, hon'⟩ := ih _ _ _ rfl has
    have hlt' := length_atMark_lt.2 hlt
    refine ⟨back', rfl, ?_⟩
    rw [sepBy, (hon.of_ne_nil (List.cons_ne_nil _ _)).2]
    simp only [List.cons_append, acceptMark?_cons, hlt', if_true]
    cases hon' with
    | stays hkeeps hresult =>
      refine .stays (hkeeps.cons a) ?_
      rw [hresult]
    | taken b hnil hgives hresult =>
      refine .taken (a :: b) hnil (hgives.cons a) ?_
      rw [hresult]
  | case5 row a us ha more hmore hlt =>
    cases h
    subst hrow
    obtain ⟨back, rfl, hon⟩ := hitem _ _ _ ha
    obtain ⟨q, back, rfl, rfl⟩ := exists_of_acceptMark? hmore
    have hlt' := mt length_atMark_lt.1 hlt
    obtain ⟨hkeeps, hresult⟩ := hon.of_ne_nil (List.cons_ne_nil _ _)
    refine ⟨_, rfl, .stays (lastIs_singleton hkeeps) ?_⟩
    rw [sepBy, hresult]
    simp only [List.cons_append, acceptMark?_cons, hlt', if_false]

/-- A list with a closing mark has stopped before what stands behind it. -/
theorem extends_listUntil {close : Char} (hclose : close ≠ '=') :
    Extends p (listUntil item close) (fun _ _ => True) (fun _ => False) := by
  intro ts as rest h
  generalize hrow : ts ++ atEnd p = row at h
  fun_induction listUntil item close row generalizing ts as rest with
  | case1 row e he => cases h
  | case2 row a us ha rest' hrest =>
    cases h
    subst hrow
    obtain ⟨back, rfl, hon⟩ := hitem _ _ _ ha
    obtain ⟨q, back, rfl, rfl⟩ := exists_of_acceptMark? hrest
    refine ⟨back, rfl, .stays trivial ?_⟩
    rw [listUntil, (hon.of_ne_nil (List.cons_ne_nil _ _)).2]
    simp only [List.cons_append, acceptMark?_cons]
  | case3 row a us ha hnone e he => cases h
  | case4 row a us ha hnone more hmore hlt e he ih => cases h
  | case5 row a us ha hnone more hmore hlt as' rest' has ih =>
    cases h
    subst hrow
    obtain ⟨back, rfl, hon⟩ := hitem _ _ _ ha
    have hnone' := acceptMark?_atMark hclose hnone
    obtain ⟨q, back, rfl, rfl⟩ := exists_of_expectMark hmore
    obtain ⟨back', rfl, hon'⟩ := ih _ _ _ rfl has
    have hlt' := length_atMark_lt.2 hlt
    cases hon' with
    | stays _ hresult =>
      refine ⟨back', rfl, .stays trivial ?_⟩
      rw [listUntil, (hon.of_ne_nil (List.cons_ne_nil _ _)).2]
      simp only [hnone']
      simp only [List.cons_append, expectMark_cons, hlt', if_true, hresult]
    | taken b _ hgives _ => exact hgives.elim
  | case6 row a us ha hnone more hmore hlt =>
    cases h
    subst hrow
    obtain ⟨back, rfl, hon⟩ := hitem _ _ _ ha
    have hnone' := acceptMark?_atMark hclose hnone
    obtain ⟨q, back, rfl, rfl⟩ := exists_of_expectMark hmore
    have hlt' := mt length_atMark_lt.1 hlt
    refine ⟨back, rfl, .stays trivial ?_⟩
    rw [listUntil, (hon.of_ne_nil (List.cons_ne_nil _ _)).2]
    simp only [hnone']
    simp only [List.cons_append, expectMark_cons, hlt', if_false]

end

/-! ## Types over a reader of operands -/

/-- A type that leaves the mark ends alone. -/
def Leaves (back : List Token) (n : Node) : Prop :=
  back = [] → n.endsAlone = true

theorem endsAlone_joined (ns : List Node) (n : Node) :
    (joined (ns ++ [n])).endsAlone = n.endsAlone := by
  unfold joined
  split
  · next m hm =>
    have hm : ns ++ [n] = [] ++ [m] := hm
    obtain ⟨-, hlast⟩ := List.append_inj' hm rfl
    cases hlast
    rfl
  · exact Node.lastEndsAlone_concat ns n

section

variable {ts tail : List Token} (htail : nextLexeme tail = .stop ∨ nextLexeme tail = .mark '=')
include htail

/-- A pair of tokens that holds neither the end nor the mark starts no row that lacks it. -/
theorem exists_of_append_pair {l m : Lexeme} (hl : l ≠ .stop ∧ l ≠ .mark '=')
    (hm : m ≠ .stop ∧ m ≠ .mark '=') {q r : Nat} {rest : List Token}
    (h : ts ++ tail = ⟨l, q⟩ :: ⟨m, r⟩ :: rest) : ∃ back, ts = ⟨l, q⟩ :: ⟨m, r⟩ :: back := by
  match ts, h with
  | [], h =>
    rw [List.nil_append] at h
    rw [h] at htail
    exact absurd htail (not_or.2 hl)
  | [_], h =>
    obtain ⟨-, rfl⟩ := List.cons.inj h
    exact absurd htail (not_or.2 hm)
  | _ :: _ :: ts, h =>
    cases h
    exact ⟨ts, rfl⟩

theorem dropReceiver_append : dropReceiver (ts ++ tail) = dropReceiver ts ++ tail := by
  fun_cases dropReceiver ts with
  | case1 => rfl
  | case2 => rfl
  | case3 ts hthis hnew =>
    apply dropReceiver.eq_3
    · intro q r rest h
      obtain ⟨back, hback⟩ := exists_of_append_pair htail (by simp) (by simp) h
      exact hthis q r back hback
    · intro q r rest h
      obtain ⟨back, hback⟩ := exists_of_append_pair htail (by simp) (by simp) h
      exact hnew q r back hback

theorem dropDot_append : dropDot (ts ++ tail) = dropDot ts ++ tail := by
  fun_cases dropDot ts with
  | case1 => rfl
  | case2 ts hdot =>
    apply dropDot.eq_2
    intro q r rest h
    obtain ⟨back, hback⟩ := exists_of_append_pair htail (by simp) (by simp) h
    exact hdot q r back hback

end

theorem nextLexeme_atEnd (p : Nat) :
    nextLexeme (atEnd p) = .stop ∨ nextLexeme (atEnd p) = .mark '=' :=
  Or.inl rfl

theorem nextLexeme_atMark (p : Nat) :
    nextLexeme (atMark p) = .stop ∨ nextLexeme (atMark p) = .mark '=' :=
  Or.inr rfl

section

variable {p : Nat} {operand : Reader Node}
  (hoperand : Extends p operand Leaves Node.TakesMark)
include hoperand

theorem extends_readType :
    Extends p (readType operand) Leaves Node.TakesMark := by
  apply (extends_sepBy hoperand (by decide)).map (readType_eq operand)
  · rintro back _ ⟨ns, n, rfl, hn⟩ hnil
    exact (endsAlone_joined ns n).trans (hn hnil)
  · rintro _ ⟨ns, n, rfl, hn⟩
    exact (endsAlone_joined ns n).trans hn

theorem extends_readParam :
    Extends p (readParam operand) Leaves Node.TakesMark := by
  intro ts node rest h
  rw [readParam_eq, dropReceiver_append (nextLexeme_atEnd p)] at h
  rw [readParam_eq, dropReceiver_append (nextLexeme_atMark p)]
  exact extends_readType hoperand _ _ _ h

theorem extends_readUnder {kind : Kind} (hkind : kind ∈ [.nullable, .notNullable, .variadic]) :
    Extends p (readUnder operand kind) Leaves Node.TakesMark := by
  have halone : ∀ n : Node, { kind, children := [n] : Node }.endsAlone = n.endsAlone := by
    intro n
    simp only [List.mem_cons, List.not_mem_nil, or_false] at hkind
    rcases hkind with rfl | rfl | rfl <;> rfl
  apply hoperand.map (f := fun n => { kind, children := [n] })
    (fun ts => readUnder_eq operand ts kind)
  · intro back n hn hnil
    exact (halone n).trans (hn hnil)
  · intro n hn
    exact (halone n).trans hn

theorem extends_readReturns (params : List Node) :
    Extends p (readReturns operand params) (fun _ => Node.TakesMark) Node.TakesMark := by
  intro ts node rest h
  unfold readReturns at h ⊢
  split at h
  · next hnone =>
    cases h
    exact ⟨ts, rfl, .stays rfl (by rw [acceptMark?_atMark (by decide) hnone])⟩
  · next us hus =>
    obtain ⟨q, back, rfl, rfl⟩ := exists_of_acceptMark? hus
    rw [List.cons_append, acceptMark?_cons]
    split at h
    · cases h
    · next n us hn =>
      cases h
      obtain ⟨back', rfl, hon⟩ := hoperand _ _ _ hn
      refine ⟨back', rfl, ?_⟩
      cases hon with
      | stays _ hresult =>
        refine .stays rfl ?_
        simp only [hresult]
      | taken b hnil _ hresult =>
        refine .taken { kind := .function, children := params, returns := some b } hnil rfl ?_
        simp only [hresult]

theorem extends_readNamed (name : String) :
    Extends p (readNamed operand name) (fun _ => Node.TakesMark) (fun _ => False) := by
  intro ts node rest h
  rw [readNamed_eq, dropDot_append (nextLexeme_atEnd p)] at h
  rw [readNamed_eq, dropDot_append (nextLexeme_atMark p)]
  split at h
  · next hnone =>
    cases h
    exact ⟨_, rfl, .stays rfl (by rw [acceptMark?_atMark (by decide) hnone])⟩
  · next inner hinner =>
    obtain ⟨q, back, hback, rfl⟩ := exists_of_acceptMark? hinner
    rw [hback, List.cons_append, acceptMark?_cons]
    split at h
    · cases h
    · next arguments more harguments =>
      split at h
      · cases h
      · next rest' hrest =>
        cases h
        obtain ⟨back', rfl, hon⟩ :=
          extends_sepBy (extends_readType hoperand) (by decide) _ _ _ harguments
        obtain ⟨r, back', rfl, rfl⟩ := exists_of_expectMark hrest
        refine ⟨back', rfl, .stays rfl ?_⟩
        simp only [(hon.of_ne_nil (List.cons_ne_nil _ _)).2, List.cons_append, expectMark_cons]

theorem extends_readEntry : Extends p (readEntry operand) (fun _ _ => True) (fun _ => True) := by
  intro ts node rest h
  unfold readEntry at h
  split at h
  · cases h
  · next t us hts =>
    split at h
    · cases h
    · next key hkey =>
      have hstop : t.lexeme ≠ .stop := by
        intro he
        rw [he] at hkey
        cases hkey
      obtain ⟨back, rfl, rfl⟩ := exists_of_append_atEnd hts hstop
      simp only [readEntry, List.cons_append, hkey]
      split at h
      · next hnone =>
        cases h
        exact ⟨_, rfl, .stays trivial (by rw [acceptMark?_atMark (by decide) hnone])⟩
      · next us' hus =>
        obtain ⟨q, back, rfl, rfl⟩ := exists_of_acceptMark? hus
        rw [List.cons_append, acceptMark?_cons]
        split at h
        · cases h
        · next hnode =>
          cases h
          obtain ⟨back', rfl, hon⟩ := extends_readType hoperand _ _ _ hnode
          refine ⟨back', rfl, ?_⟩
          cases hon with
          | stays _ hresult =>
            refine .stays trivial ?_
            simp only [hresult]
          | taken b hnil _ hresult =>
            refine .taken { kind := .recordEntry, name := some key, children := [b] } hnil
              trivial ?_
            simp only [hresult]

theorem extends_readFunction :
    Extends p (readFunction operand) (fun _ => Node.TakesMark) Node.TakesMark := by
  intro ts node rest h
  unfold readFunction at h ⊢
  split at h
  · next us hus =>
    obtain ⟨q, back, rfl, rfl⟩ := exists_of_acceptMark? hus
    simp only [List.cons_append, acceptMark?_cons]
    exact extends_readReturns hoperand [] _ _ _ h
  · next hnone =>
    rw [acceptMark?_atMark (by decide) hnone]
    split at h
    · cases h
    · next params us hparams =>
      obtain ⟨back, rfl, hon⟩ :=
        extends_listUntil (extends_readParam hoperand) (by decide) _ _ _ hparams
      cases hon with
      | stays _ hresult =>
        simp only [hresult]
        exact extends_readReturns hoperand params _ _ _ h
      | taken b _ hgives _ => exact hgives.elim

theorem extends_readRecord :
    Extends p (readRecord operand) (fun _ => Node.TakesMark) (fun _ => False) := by
  intro ts node rest h
  unfold readRecord at h ⊢
  split at h
  · next us hus =>
    cases h
    obtain ⟨q, back, rfl, rfl⟩ := exists_of_acceptMark? hus
    exact ⟨back, rfl, .stays rfl (by simp only [List.cons_append, acceptMark?_cons])⟩
  · next hnone =>
    rw [acceptMark?_atMark (by decide) hnone]
    split at h
    · cases h
    · next entries us hentries =>
      cases h
      obtain ⟨back, rfl, hon⟩ :=
        extends_listUntil (extends_readEntry hoperand) (by decide) _ _ _ hentries
      cases hon with
      | stays _ hresult => exact ⟨back, rfl, .stays rfl (by rw [hresult])⟩
      | taken b _ hgives _ => exact hgives.elim

theorem extends_readPrimary :
    Extends p (readPrimary operand) (fun _ => Node.TakesMark) Node.TakesMark := by
  intro ts node rest h
  have hsplit := h
  unfold readPrimary at hsplit
  split at hsplit
  · next text q us hts =>
    clear hsplit
    obtain ⟨back, rfl, rfl⟩ := exists_of_append_atEnd hts (by simp)
    have hnamed : readNamed operand text (back ++ atEnd p) = .ok (node, rest) →
        ∃ back', rest = back' ++ atEnd p ∧ Onward p (fun _ => Node.TakesMark)
          Node.TakesMark back' node (readNamed operand text (back ++ atMark p)) := by
      intro h
      obtain ⟨back', hback, hon⟩ := extends_readNamed hoperand text _ _ _ h
      exact ⟨back', hback, hon.imp id False.elim⟩
    rw [List.cons_append, readPrimary_name] at h ⊢
    split at h
    · next htext =>
      rw [if_pos htext]
      split at h
      · next inner hinner =>
        obtain ⟨r, back, rfl, rfl⟩ := exists_of_acceptMark? hinner
        simp only [List.cons_append, acceptMark?_cons]
        exact extends_readFunction hoperand _ _ _ h
      · next hnone =>
        rw [acceptMark?_atMark (by decide) hnone]
        exact hnamed h
    · next htext =>
      rw [if_neg htext]
      exact hnamed h
  · next text q us hts =>
    cases hsplit
    obtain ⟨back, rfl, rfl⟩ := exists_of_append_atEnd hts (by simp)
    exact ⟨back, rfl, .stays rfl rfl⟩
  · next text q us hts =>
    cases hsplit
    obtain ⟨back, rfl, rfl⟩ := exists_of_append_atEnd hts (by simp)
    exact ⟨back, rfl, .stays rfl rfl⟩
  · next q us hts =>
    cases hsplit
    obtain ⟨back, rfl, rfl⟩ := exists_of_append_atEnd hts (by simp)
    exact ⟨back, rfl, .stays rfl rfl⟩
  · next q us hts =>
    obtain ⟨back, rfl, rfl⟩ := exists_of_append_atEnd hts (by simp)
    split at hsplit
    · cases hsplit
    · next n us hn =>
      split at hsplit
      · cases hsplit
      · next hrest =>
        cases hsplit
        obtain ⟨back', rfl, hon⟩ := extends_readType hoperand _ _ _ hn
        obtain ⟨r, back', rfl, rfl⟩ := exists_of_expectMark hrest
        refine ⟨back', rfl, .stays rfl ?_⟩
        simp only [readPrimary, List.cons_append, (hon.of_ne_nil (List.cons_ne_nil _ _)).2,
          expectMark_cons]
  · next q us hts =>
    obtain ⟨back, rfl, rfl⟩ := exists_of_append_atEnd hts (by simp)
    obtain ⟨back', hback, hon⟩ := extends_readRecord hoperand _ _ _ hsplit
    exact ⟨back', hback, hon.imp id False.elim⟩
  · cases hsplit

omit hoperand in
/-- Modifiers behind an expression are read before the end as in the row itself, and before the mark
too, which is taken where they reach it. -/
theorem readSuffixes_append (node : Node) (ts : List Token) (p : Nat) :
    readSuffixes node (ts ++ atEnd p) =
        ((readSuffixes node ts).1, (readSuffixes node ts).2 ++ atEnd p) ∧
      readSuffixes node (ts ++ atMark p) =
        if (readSuffixes node ts).2 = [] then
          ({ kind := .optional, children := [(readSuffixes node ts).1] }, atEnd (p + 1))
        else ((readSuffixes node ts).1, (readSuffixes node ts).2 ++ atMark p) := by
  fun_induction readSuffixes node ts with
  | case1 node q r ts ih => exact ih
  | case2 node q ts ih => exact ih
  | case3 node q ts ih => exact ih
  | case4 node q ts ih => exact ih
  | case5 node ts harray hoptional hnullable hnot =>
    cases ts with
    | nil => exact ⟨rfl, rfl⟩
    | cons t ts =>
      have hstops : ∀ tail, nextLexeme tail = .stop ∨ nextLexeme tail = .mark '=' →
          readSuffixes node (t :: ts ++ tail) = (node, t :: ts ++ tail) := by
        intro tail htail
        apply readSuffixes.eq_5
        · intro q r rest h
          obtain ⟨back, hback⟩ := exists_of_append_pair htail (by simp) (by simp) h
          exact harray q r back hback
        · intro q rest h
          exact hoptional q ts (by rw [(List.cons.inj h).1])
        · intro q rest h
          exact hnullable q ts (by rw [(List.cons.inj h).1])
        · intro q rest h
          exact hnot q ts (by rw [(List.cons.inj h).1])
      rw [if_neg (List.cons_ne_nil t ts)]
      exact ⟨hstops _ (nextLexeme_atEnd p), hstops _ (nextLexeme_atMark p)⟩

omit hoperand in
theorem takesMark_readSuffixes {node : Node} (h : node.TakesMark) (ts : List Token) :
    (readSuffixes node ts).1.TakesMark := by
  fun_induction readSuffixes node ts with
  | case1 node q r ts ih => exact ih rfl
  | case2 node q ts ih => exact ih rfl
  | case3 node q ts ih => exact ih h
  | case4 node q ts ih => exact ih h
  | case5 node ts _ _ _ _ => exact h

theorem extends_readSuffixed :
    Extends p (readSuffixed operand) (fun back _ => back ≠ []) Node.TakesMark := by
  intro ts node rest h
  unfold readSuffixed at h ⊢
  split at h
  · cases h
  · next inner us hinner =>
    obtain ⟨back, rfl, hon⟩ := extends_readPrimary hoperand _ _ _ hinner
    obtain ⟨hend, hmark⟩ := readSuffixes_append inner back p
    rw [hend] at h
    cases h
    refine ⟨_, rfl, ?_⟩
    cases hon with
    | stays hkeeps hresult =>
      rw [hresult]
      simp only [hmark]
      split
      · next hnil => exact .taken _ hnil (takesMark_readSuffixes hkeeps back) rfl
      · next hne => exact .stays hne rfl
    | taken b hnil hgives hresult =>
      subst hnil
      rw [hresult]
      exact .taken b rfl hgives rfl

theorem extends_readModified :
    Extends p (readModified operand) Leaves Node.TakesMark := by
  intro ts node rest h
  have hsplit := h
  unfold readModified at hsplit
  split at hsplit
  · next q us hts =>
    obtain ⟨back, rfl, rfl⟩ := exists_of_append_atEnd hts (by simp)
    simp only [readModified, List.cons_append, atBoundary_atMark]
    split at hsplit
    · next hlone =>
      cases hsplit
      exact ⟨back, rfl, .stays (fun _ => rfl) (if_pos hlone)⟩
    · next hlone =>
      rw [if_neg hlone]
      exact extends_readUnder hoperand (by decide) _ _ _ hsplit
  · next q us hts =>
    obtain ⟨back, rfl, rfl⟩ := exists_of_append_atEnd hts (by simp)
    exact extends_readUnder hoperand (by decide) _ _ _ hsplit
  · next q us hts =>
    obtain ⟨back, rfl, rfl⟩ := exists_of_append_atEnd hts (by simp)
    simp only [readModified, List.cons_append, atBoundary_atMark]
    split at hsplit
    · next hlone =>
      cases hsplit
      exact ⟨back, rfl, .stays (fun _ => rfl) (if_pos hlone)⟩
    · next hlone =>
      rw [if_neg hlone]
      exact extends_readUnder hoperand (by decide) _ _ _ hsplit
  · next hnullable hnot hvariadic =>
    obtain ⟨back, hback, hon⟩ := extends_readSuffixed hoperand _ _ _ hsplit
    have hmodified :
        readModified operand (ts ++ atMark p) = readSuffixed operand (ts ++ atMark p) := by
      apply readModified.eq_4
      · intro q rest' he
        obtain ⟨us, hus⟩ := exists_atEnd_of_atMark he (by simp)
        exact hnullable q us hus
      · intro q rest' he
        obtain ⟨us, hus⟩ := exists_atEnd_of_atMark he (by simp)
        exact hnot q us hus
      · intro q rest' he
        obtain ⟨us, hus⟩ := exists_atEnd_of_atMark he (by simp)
        exact hvariadic q us hus
    rw [hmodified]
    exact ⟨back, hback, hon.imp (fun hne hnil => absurd hnil hne) id⟩

end

theorem extends_readOperand (p depth : Nat) :
    Extends p (readOperand depth) Leaves Node.TakesMark := by
  induction depth with
  | zero =>
    intro ts node rest h
    cases h
  | succ depth ih => exact extends_readModified ih

/-! ## Whole texts -/

theorem tokensFrom_mark (q : Nat) : tokensFrom q ['='] = .ok (atMark q) := by
  have h := tokensFrom_word (readable_mark (c := '=') (by decide) []) q
  rw [tokensFrom] at h
  exact h

/-- Before the mark, a row whose tokens make up a type is read up to its end, and the mark is either
taken or all that is left. -/
theorem readAll_atMark {depth p : Nat} {front : List Token} {node : Node}
    (hfront : ∀ t ∈ front, t.lexeme.Shape) (h : readAll depth (front ++ atEnd p) = .ok node) :
    (node.endsAlone = false → ∃ node', readAll depth (front ++ atMark p) = .ok node') ∧
      (node.endsAlone = true → readAll depth (front ++ atMark p) = .error (.unexpected "=" p)) := by
  unfold readAll at h
  split at h
  · cases h
  · next n rest hread =>
    split at h
    · next hstop =>
      cases h
      obtain ⟨back, rfl, hon⟩ := extends_readType (extends_readOperand p depth) _ _ _ hread
      -- what is left lies in the row, where no token stands for the end
      have hnil : back = [] := by
        obtain ⟨used, hused, -⟩ := takes_readType (took_readOperand depth) _ _ _ hread
        rw [← List.append_assoc] at hused
        obtain ⟨rfl, -⟩ := List.append_inj' hused rfl
        cases back with
        | nil => rfl
        | cons t back =>
          have ht := hfront t (by simp)
          exact absurd hstop ht.ne_stop
      subst hnil
      unfold readAll
      cases hon with
      | stays hleaves hresult =>
        have halone := hleaves rfl
        rw [hresult, halone]
        exact ⟨fun he => absurd he (by decide), fun _ => rfl⟩
      | taken b _ htakes hresult =>
        rw [hresult, htakes]
        exact ⟨fun _ => ⟨b, rfl⟩, fun he => absurd he (by decide)⟩
    · cases h

/-- **Types take the mark of optional ones unless they end alone.** A text that can be read can be
read with `=` behind it too, unless its type ends with a `?` or `...` that stands alone; then the
mark is refused where it stands. -/
theorem parseNode_optional {source : String} {node : Node} (h : parseNode source = .ok node) :
    (node.endsAlone = false → ∃ node', parseNode (source ++ "=") = .ok node') ∧
      (node.endsAlone = true →
        parseNode (source ++ "=") = .error (.unexpected "=" source.length)) := by
  unfold parseNode at h
  split at h
  · cases h
  · next hblank =>
    split at h
    · cases h
    · next ts hts =>
      have hlexed := lexed_of_tokensFrom hts
      obtain ⟨front, q, rfl, hfront⟩ := hlexed.exists_concat
      have hstops : Stops ['='] := ⟨by decide, by decide, by decide⟩
      obtain ⟨front', hconcat, hmark⟩ := hlexed.tokensFrom_continued hstops
      obtain ⟨rfl, hq⟩ := List.append_inj' hconcat rfl
      cases hq
      have htokens : tokens (source ++ "=") = .ok (front ++ atMark source.length) := by
        unfold tokens
        rw [String.toList_append, show "=".toList = ['='] from rfl, hmark, tokensFrom_mark,
          Nat.zero_add, String.length_toList]
        rfl
      have hsolid : Text.isBlankText (source ++ "=").toList = false := by
        simp only [Text.isBlankText, String.toList_append, List.all_append, Bool.and_eq_false_iff]
        exact Or.inr (by decide)
      rw [Nat.zero_add, String.length_toList] at h
      simp only [parseNode, hsolid, htokens, Bool.false_eq_true, if_false]
      exact readAll_atMark hfront h

theorem optional_function_and_lone_mark :
    (∃ node, parseNode ("function(string): ?" ++ "=") = .ok node) ∧
      parseNode ("string|..." ++ "=") = .error (.unexpected "=" 10) := by
  have hfunction : parseNode "function(string): ?" =
      .ok { kind := .function, children := [{ kind := .name, name := some "string" }],
            returns := some { kind := .unknown } } := by decide +kernel
  have hunion : parseNode "string|..." =
      .ok { kind := .union, children := [{ kind := .name, name := some "string" },
            { kind := .variadic }] } := by decide +kernel
  exact ⟨(parseNode_optional hfunction).1 (by decide), (parseNode_optional hunion).2 (by decide)⟩

/-- So not every type can be made optional. -/
theorem unknown_not_optional :
    ¬ ∀ source node, parseNode source = .ok node →
      ∃ node', parseNode (source ++ "=") = .ok node' := by
  intro h
  obtain ⟨node', hnode⟩ := h "?" { kind := .unknown } (by decide +kernel)
  have hrefused : parseNode ("?" ++ "=") = .error (.unexpected "=" 1) := by decide +kernel
  rw [hrefused] at hnode
  cases hnode

end ApiDoc.TypeExpr
