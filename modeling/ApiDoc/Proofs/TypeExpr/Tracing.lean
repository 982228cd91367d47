import ApiDoc.Proofs.TypeExpr.Cursor

/-!
# Walks and readers come to the same

A walk from a place of a row does what the reader does with the row from that place on. It leaves
the cursor further on, at the place from which the reader hands the row on, or it faults as the
reader does; it never leaves the row, and it closes the operands that it opens.

* `Agrees`, `Traces`: a walk and a reader come to the same, from one place and from all.
* `Turn`: one round of a loop and one step of a reader do. A round that is not the last one moves
  the cursor forward, so a loop ends in as many rounds as the row has tokens (`agrees_loop`).
* `traces_type` and so on, for a given walk over operands, and `traces_operand`, by induction on
  how many of them may still be opened.
* `walkAll_cases`: a whole parse.
-/

namespace ApiDoc.TypeExpr

open Walk

/-! ## Walks and readers -/

section

variable {α β : Type} (row : List Token)

/-- What came of a walk is what came of a reader: a result and the rest of the row from the cursor
on, which is at `low` or further, or the same fault, at a token of the row. In both cases the cursor
is in the row, with `d` operands open. -/
inductive Agrees (low d : Nat) (r : Except SyntaxError (α × List Token))
    (m : Except Halt α × Cursor) : Prop
  | done (a : α) (j : Nat) : low ≤ j → j < row.length → r = .ok (a, row.drop j) →
      m = (.ok a, ⟨j, d⟩) → Agrees low d r m
  | fault (e : SyntaxError) (t : Token) (j : Nat) : t ∈ row → e.position = t.position →
      j < row.length → r = .error e → m = (.error (.fault e), ⟨j, d⟩) → Agrees low d r m

/-- With `d` operands open, the walk does what the reader does and takes at least so many tokens. -/
def Traces (d least : Nat) (walk : Walk α) (reader : Reader α) : Prop :=
  ∀ i, i < row.length → Agrees row (i + least) d (reader (row.drop i)) (walk ⟨i, d⟩)

/-- What came of a round is what came of a step of a reader. If there is to be another round, the
cursor has moved forward; if not, it has by `last` at least. -/
inductive Turn (last i d : Nat) (r : Except SyntaxError ((β ⊕ α) × List Token))
    (m : Except Halt (β ⊕ α) × Cursor) : Prop
  | again (b : β) (j : Nat) : i < j → j < row.length → r = .ok (.inl b, row.drop j) →
      m = (.ok (.inl b), ⟨j, d⟩) → Turn last i d r m
  | out (a : α) (j : Nat) : i + last ≤ j → j < row.length → r = .ok (.inr a, row.drop j) →
      m = (.ok (.inr a), ⟨j, d⟩) → Turn last i d r m
  | fault (e : SyntaxError) (t : Token) (j : Nat) : t ∈ row → e.position = t.position →
      j < row.length → r = .error e → m = (.error (.fault e), ⟨j, d⟩) → Turn last i d r m

end

section

variable {α β : Type} {row : List Token} {low d : Nat} {r : Except SyntaxError (α × List Token)}

theorem Agrees.mono {m : Except Halt α × Cursor} (h : Agrees row low d r m) {low' : Nat}
    (hle : low' ≤ low) : Agrees row low' d r m := by
  cases h with
  | done a j hlow hj hr hm => exact .done a j (Nat.le_trans hle hlow) hj hr hm
  | fault e t j ht hposition hj hr hm => exact .fault e t j ht hposition hj hr hm

/-- A walk goes on from where another one has ended. -/
theorem Agrees.andThen {x : Walk α} {s : Cursor} (h : Agrees row low d r (x s)) {f : α → Walk β}
    {r' : Except SyntaxError (β × List Token)} {low' : Nat}
    (herror : ∀ e, r = .error e → r' = .error e)
    (hok : ∀ a j, low ≤ j → j < row.length → r = .ok (a, row.drop j) →
      Agrees row low' d r' (f a ⟨j, d⟩)) :
    Agrees row low' d r' ((x >>= f) s) := by
  cases h with
  | done a j hlow hj hr hm =>
    rw [bind_of_ok hm]
    exact hok a j hlow hj hr
  | fault e t j ht hposition hj hr hm =>
    exact .fault e t j ht hposition hj (herror e hr) (bind_of_error hm f)

theorem Agrees.map {x : Walk α} {s : Cursor} (h : Agrees row low d r (x s)) (f : α → β) :
    Agrees row low d (r.map fun p => (f p.1, p.2)) ((x >>= fun a => pure (f a)) s) := by
  refine h.andThen (fun e he => by rw [he]; rfl) fun a j hlow hj hr => ?_
  rw [hr]
  exact .done (f a) j hlow hj rfl rfl

theorem Agrees.deeper {walk : Walk α} {i : Nat} (h : Agrees row low (d + 1) r (walk ⟨i, d + 1⟩)) :
    Agrees row low d r (deeper walk ⟨i, d⟩) := by
  unfold Walk.deeper
  cases h with
  | done a j hlow hj hr hm => exact .done a j hlow hj hr (by rw [hm]; rfl)
  | fault e t j ht hposition hj hr hm => exact .fault e t j ht hposition hj hr (by rw [hm]; rfl)

/-- What a reader comes to that goes on step by step, after one step. -/
def goOn (reader : β → Reader α) :
    Except SyntaxError ((β ⊕ α) × List Token) → Except SyntaxError (α × List Token)
  | .error e => .error e
  | .ok (.inl b, rest) => reader b rest
  | .ok (.inr a, rest) => .ok (a, rest)

/-- A loop ends in as many rounds as there are tokens from the cursor on, and comes to what a reader
comes to that goes on step by step. -/
theorem agrees_loop {body : β → Walk (β ⊕ α)} {step : β → Reader (β ⊕ α)} {reader : β → Reader α}
    {last : Nat}
    (hbody : ∀ b i, i < row.length → Turn row last i d (step b (row.drop i)) (body b ⟨i, d⟩))
    (hreader : ∀ b i, i < row.length →
      reader b (row.drop i) = goOn reader (step b (row.drop i)))
    {rounds : Nat} {i : Nat} (hi : i < row.length) (hrounds : row.length ≤ i + rounds) (b : β) :
    Agrees row i d (reader b (row.drop i)) (loop body rounds b ⟨i, d⟩) := by
  induction rounds generalizing i b with
  | zero => omega
  | succ rounds ih =>
    rw [hreader b i hi]
    cases hbody b i hi with
    | again b' j hij hj hr hm =>
      rw [hr, loop_of_inl hm]
      exact (ih hj (by omega) b').mono (Nat.le_of_lt hij)
    | out a j hij hj hr hm =>
      rw [hr, loop_of_inr hm]
      exact .done a j (by omega) hj rfl rfl
    | fault e t j ht hposition hj hr hm =>
      rw [hr, loop_of_error hm]
      exact .fault e t j ht hposition hj rfl rfl

end

/-! ## Loops -/

section

variable {α : Type} {row : List Token} (hrow : IsRow row) {rounds : Nat}
  (hrounds : row.length ≤ rounds) {d : Nat}

/-- One step of a reader of items with marks between them, after some items. -/
def moreStep (item : Reader α) (c : Char) (items : List α) : Reader (List α ⊕ List α) := fun ts =>
  match acceptMark? c ts with
  | none => .ok (.inr items, ts)
  | some rest => (item rest).map fun p => (.inl (items ++ [p.1]), p.2)

/-- The items behind some others. -/
def moreOf (item : Reader α) (c : Char) (items : List α) : Reader (List α) := fun ts =>
  match acceptMark? c ts with
  | none => .ok (items, ts)
  | some rest => (sepBy item c rest).map fun p => (items ++ p.1, p.2)

/-- One step of a reader of items up to a closing mark, after some items. -/
def nextStep (item : Reader α) (close : Char) (items : List α) : Reader (List α ⊕ List α) :=
  fun ts =>
    match item ts with
    | .error e => .error e
    | .ok (a, rest) =>
      match acceptMark? close rest with
      | some rest' => .ok (.inr (items ++ [a]), rest')
      | none => (expectMark ',' rest).map fun rest' => (.inl (items ++ [a]), rest')

/-- The items up to a closing mark, behind some others. -/
def untilOf (item : Reader α) (close : Char) (items : List α) : Reader (List α) := fun ts =>
  (listUntil item close ts).map fun p => (items ++ p.1, p.2)

/-- An expression under all of the modifiers that follow. -/
def suffixesOf (node : Node) : Reader Node := fun ts =>
  .ok (readSuffixes node ts)

/-- One step of the reader of modifiers. -/
def suffixStep (node : Node) : Reader (Node ⊕ Node) := fun ts =>
  match suffixAt? node ts with
  | some (node', rest) => .ok (.inl node', rest)
  | none => .ok (.inr node, ts)

include hrow

section

variable {walk : Walk α} {item : Reader α} (hitem : Traces row d 1 walk item)
include hitem

theorem turn_moreItems (c : Char) (items : List α) {i : Nat} (hi : i < row.length) :
    Turn row 0 i d (moreStep item c items (row.drop i)) (moreItems row c walk items ⟨i, d⟩) := by
  unfold moreStep moreItems
  rcases accept_mark hrow hi c d with ⟨hmark, hnext, haccept⟩ | ⟨hmark, haccept⟩
  · rw [hmark, bind_of_ok haccept, if_pos rfl]
    cases hitem (i + 1) hnext with
    | done a j hlow hj hr hm =>
      rw [bind_of_ok hm]
      exact .again _ j (by omega) hj (by simp only [hr]; rfl) rfl
    | fault e t j ht hposition hj hr hm =>
      rw [bind_of_error hm]
      exact .fault e t j ht hposition hj (by simp only [hr]; rfl) rfl
  · rw [hmark, bind_of_ok haccept]
    exact .out items i (Nat.le_refl i) hi rfl rfl

theorem turn_nextItem (close : Char) (items : List α) {i : Nat} (hi : i < row.length) :
    Turn row 1 i d (nextStep item close items (row.drop i))
      (nextItem row close walk items ⟨i, d⟩) := by
  unfold nextStep nextItem
  cases hitem i hi with
  | fault e t j ht hposition hj hr hm =>
    rw [bind_of_error hm]
    exact .fault e t j ht hposition hj (by rw [hr]) rfl
  | done a j hlow hj hr hm =>
    rw [hr, bind_of_ok hm]
    simp only
    rcases accept_mark hrow hj close d with ⟨hmark, hnext, haccept⟩ | ⟨hmark, haccept⟩
    · rw [hmark, bind_of_ok haccept]
      exact .out _ (j + 1) (by omega) hnext rfl rfl
    · rw [hmark, bind_of_ok haccept, if_neg Bool.false_ne_true]
      rcases expect_mark hrow hj ',' d with
        ⟨hcomma, hnext, hexpect⟩ | ⟨e, t, ht, hposition, hcomma, hexpect⟩
      · rw [hcomma, bind_of_ok hexpect]
        exact .again _ (j + 1) (by omega) hnext rfl rfl
      · rw [hcomma, bind_of_error hexpect]
        exact .fault e t j ht hposition hj rfl rfl

end

theorem Turn.orAccept {β : Type} {last : Nat} {r : Except SyntaxError ((β ⊕ α) × List Token)}
    {walk : Walk (β ⊕ α)} {b : β} {i : Nat} (hi : i < row.length) (c : Char)
    (hyes : ∀ q, row.drop i = ⟨.mark c, q⟩ :: row.drop (i + 1) → r = .ok (.inl b, row.drop (i + 1)))
    (hno : acceptMark? c (row.drop i) = none → Turn row last i d r (walk ⟨i, d⟩)) :
    Turn row last i d r
      ((accept row (.mark c) >>= fun x => if x = true then pure (.inl b) else walk) ⟨i, d⟩) := by
  rcases accept_mark hrow hi c d with ⟨hmark, hnext, haccept⟩ | ⟨hmark, haccept⟩
  · obtain ⟨q, hq⟩ := eq_cons_of_acceptMark? hmark
    rw [bind_of_ok haccept]
    exact .again b (i + 1) (Nat.lt_succ_self i) hnext (hyes q hq) rfl
  · rw [bind_of_ok haccept]
    exact hno hmark

theorem turn_nextSuffix (node : Node) {i : Nat} (hi : i < row.length) :
    Turn row 0 i d (suffixStep node (row.drop i)) (nextSuffix row node ⟨i, d⟩) := by
  obtain ⟨t, u, ht, hu, hreads, hreads', hcase⟩ := hrow.ahead hi d
  have hpair : (t.reads (.mark '[') && u.reads (.mark ']')) = true ↔
      t.lexeme = .mark '[' ∧ u.lexeme = .mark ']' := by
    rw [Bool.and_eq_true_iff, hreads _ (.mark rfl), hreads' _ (.mark rfl)]
  unfold suffixStep nextSuffix
  rw [bind_of_ok ht, bind_of_ok hu]
  by_cases harray : t.lexeme = .mark '[' ∧ u.lexeme = .mark ']'
  · rw [if_pos (hpair.2 harray)]
    rcases hcase with ⟨hstop, -⟩ | ⟨hdrop, hlt⟩
    · rw [hstop] at harray
      cases harray.1
    · refine .again _ (i + 2) (by omega) (hlt (by rw [harray.2]; nofun)) ?_ rfl
      cases t
      cases u
      obtain ⟨rfl, rfl⟩ := harray
      rw [hdrop]
      rfl
  · rw [if_neg (mt hpair.1 harray)]
    refine Turn.orAccept hrow hi '=' (fun q hq => by rw [hq]; rfl) fun hoptional => ?_
    refine Turn.orAccept hrow hi '?' (fun q hq => by rw [hq]; rfl) fun hnullable => ?_
    refine Turn.orAccept hrow hi '!' (fun q hq => by rw [hq]; rfl) fun hnot => ?_
    have hbrackets : ∀ q r rest, row.drop i ≠ ⟨.mark '[', q⟩ :: ⟨.mark ']', r⟩ :: rest := by
      intro q r rest he
      rcases hcase with ⟨-, hdrop⟩ | ⟨hdrop, -⟩
      · rw [hdrop] at he
        cases he
      · rw [hdrop] at he
        cases he
        exact harray ⟨rfl, rfl⟩
    rw [suffixAt?_eq_none node hbrackets hoptional hnullable hnot]
    exact .out node i (Nat.le_refl i) hi rfl rfl

omit hrow in
theorem length_drop_le {i j : Nat} (h : i + 1 ≤ j) :
    (row.drop j).length ≤ (row.drop i).length := by
  rw [List.length_drop, List.length_drop]
  omega

section

variable {walk : Walk α} {item : Reader α} (hitem : Traces row d 1 walk item)
include hitem

theorem moreOf_eq (c : Char) (items : List α) {i : Nat} (hi : i < row.length) :
    moreOf item c items (row.drop i) =
      goOn (moreOf item c) (moreStep item c items (row.drop i)) := by
  unfold moreStep
  rw [moreOf]
  rcases accept_mark hrow hi c d with ⟨hmark, hnext, -⟩ | ⟨hmark, -⟩
  · rw [hmark]
    cases hitem (i + 1) hnext with
    | done a j hlow hj hr hm =>
      simp only [hr, sepBy_of_ok hr (length_drop_le hlow), Except.map, goOn, moreOf]
      cases acceptMark? c (row.drop j) with
      | none => rfl
      | some more =>
        simp only
        cases sepBy item c more with
        | error e => rfl
        | ok p => simp only [List.append_assoc, List.singleton_append]
    | fault e t j ht hposition hj hr hm =>
      simp only [hr, sepBy_of_error hr, Except.map, goOn]
  · rw [hmark, goOn]

omit hrow in
theorem untilOf_eq (close : Char) (items : List α) {i : Nat} (hi : i < row.length) :
    untilOf item close items (row.drop i) =
      goOn (untilOf item close) (nextStep item close items (row.drop i)) := by
  unfold nextStep
  rw [untilOf]
  cases hitem i hi with
  | fault e t j ht hposition hj hr hm =>
    simp only [hr, listUntil_of_error hr, Except.map, goOn]
  | done a j hlow hj hr hm =>
    simp only [hr, listUntil_of_ok hr (length_drop_le hlow)]
    cases acceptMark? close (row.drop j) with
    | some rest => rfl
    | none =>
      cases expectMark ',' (row.drop j) with
      | error e => rfl
      | ok rest =>
        simp only [Except.map, goOn, untilOf]
        cases listUntil item close rest with
        | error e => rfl
        | ok p => simp only [List.append_assoc, List.singleton_append]

end

include hrounds

section

variable {walk : Walk α} {item : Reader α} (hitem : Traces row d 1 walk item)
include hitem

theorem traces_items (c : Char) :
    Traces row d 1 (walkItems row rounds c walk) (sepBy item c) := by
  intro i hi
  unfold walkItems
  refine (hitem i hi).andThen (fun e he => sepBy_of_error he) fun a j hlow hj hr => ?_
  rw [sepBy_of_ok hr (length_drop_le hlow)]
  have henough : row.length ≤ j + rounds := by omega
  have hloop := agrees_loop (fun items i hi => turn_moreItems hrow hitem c items hi)
    (fun items i hi => moreOf_eq hrow hitem c items hi) hj henough [a]
  exact hloop.mono hlow

theorem traces_until (close : Char) :
    Traces row d 0 (loop (nextItem row close walk) rounds []) (listUntil item close) := by
  intro i hi
  have henough : row.length ≤ i + rounds := by omega
  have hloop := agrees_loop (fun items i hi => turn_nextItem hrow hitem close items hi)
    (fun items i hi => untilOf_eq hitem close items hi) hi henough []
  have hnil : untilOf item close [] (row.drop i) = listUntil item close (row.drop i) := by
    unfold untilOf
    cases listUntil item close (row.drop i) <;> rfl
  rwa [hnil] at hloop

end

theorem traces_suffixes (node : Node) {i : Nat} (hi : i < row.length) :
    Agrees row i d (suffixesOf node (row.drop i))
      (loop (nextSuffix row) rounds node ⟨i, d⟩) := by
  refine agrees_loop (fun n i hi => turn_nextSuffix hrow n hi) (fun n i hi => ?_) hi
    (by omega) node
  unfold suffixStep
  rw [suffixesOf, readSuffixes_eq]
  cases suffixAt? n (row.drop i) <;> rfl

end

/-! ## The parser over a walk for operands -/

section

variable {row : List Token} (hrow : IsRow row) {d : Nat} {i : Nat} (hi : i < row.length)
include hrow hi

theorem agrees_accept {α : Type} {low : Nat} {r : Except SyntaxError (α × List Token)}
    {x y : Walk α} (c : Char)
    (hyes : acceptMark? c (row.drop i) = some (row.drop (i + 1)) → i + 1 < row.length →
      Agrees row low d r (x ⟨i + 1, d⟩))
    (hno : acceptMark? c (row.drop i) = none → Agrees row low d r (y ⟨i, d⟩)) :
    Agrees row low d r
      ((accept row (.mark c) >>= fun b => if b = true then x else y) ⟨i, d⟩) := by
  rcases accept_mark hrow hi c d with ⟨hmark, hnext, haccept⟩ | ⟨hmark, haccept⟩
  · rw [bind_of_ok haccept]
    exact hyes hmark hnext
  · rw [bind_of_ok haccept]
    exact hno hmark

theorem agrees_expect {α : Type} {low : Nat} {r : Except SyntaxError (α × List Token)}
    {f : Unit → Walk α} (c : Char)
    (hok : expectMark c (row.drop i) = .ok (row.drop (i + 1)) → i + 1 < row.length →
      Agrees row low d r (f () ⟨i + 1, d⟩))
    (herror : ∀ e, expectMark c (row.drop i) = .error e → r = .error e) :
    Agrees row low d r ((expect row (.mark c) >>= f) ⟨i, d⟩) := by
  rcases expect_mark hrow hi c d with
    ⟨hmark, hnext, hexpect⟩ | ⟨e, t, ht, hposition, hmark, hexpect⟩
  · rw [bind_of_ok hexpect]
    exact hok hmark hnext
  · exact .fault e t i ht hposition hi (herror e hmark) (bind_of_error hexpect f)

end

section

variable {row : List Token} (hrow : IsRow row) {rounds : Nat} (hrounds : row.length ≤ rounds)
  {d : Nat} {walk : Walk Node} {operand : Reader Node} (h : Traces row d 1 walk operand)

include h in
theorem traces_under (kind : Kind) :
    Traces row d 1 (walkUnder walk kind) (readUnder operand kind) := by
  intro i hi
  rw [readUnder_eq]
  exact (h i hi).map fun node => ({ kind, children := [node] } : Node)

include hrow h

theorem traces_returns (params : List Node) :
    Traces row d 0 (walkReturns row walk params) (readReturns operand params) := by
  intro i hi
  unfold walkReturns readReturns
  refine agrees_accept hrow hi ':' (fun hmark hnext => ?_) fun hmark => ?_
  · rw [hmark]
    refine (h (i + 1) hnext).andThen (fun e he => by simp only [he]) fun node j hlow hj hr => ?_
    simp only [hr]
    exact .done _ j (by omega) hj rfl rfl
  · rw [hmark]
    exact .done _ i (Nat.le_refl i) hi rfl rfl

include hrounds

theorem traces_type : Traces row d 1 (walkType row rounds walk) (readType operand) := by
  intro i hi
  rw [readType_eq]
  exact (traces_items hrow hrounds h '|' i hi).map _

theorem traces_named (name : String) :
    Traces row d 0 (walkNamed row rounds walk name) (readNamed operand name) := by
  intro i hi
  obtain ⟨j, hij, hj, hdot, hskip⟩ := exists_skipDot hrow hi d
  rw [readNamed_eq, hdot, walkNamed, bind_of_ok hskip]
  refine agrees_accept hrow hj '<' (fun hmark hnext => ?_) fun hmark => ?_
  · rw [hmark]
    refine (traces_items hrow hrounds (traces_type hrow hrounds h) ',' (j + 1) hnext).andThen
      (fun e he => by simp only [he]) fun arguments k hlow hk hr => ?_
    simp only [hr]
    refine agrees_expect hrow hk '>' (fun hclose hlast => ?_) fun e he => by rw [he]
    rw [hclose]
    exact .done _ (k + 1) (by omega) hlast rfl rfl
  · rw [hmark]
    exact .done _ j hij hj rfl rfl

theorem traces_param : Traces row d 1 (walkParam row rounds walk) (readParam operand) := by
  intro i hi
  obtain ⟨j, hij, hj, hreceiver, hskip⟩ := exists_skipReceiver hrow hi d
  rw [readParam_eq, hreceiver, walkParam, bind_of_ok hskip]
  exact (traces_type hrow hrounds h j hj).mono (Nat.succ_le_succ hij)

theorem traces_params : Traces row d 0 (walkParams row rounds walk) (readParams operand) := by
  intro i hi
  unfold walkParams readParams
  refine agrees_accept hrow hi ')' (fun hmark hnext => ?_) fun hmark => ?_
  · rw [hmark]
    exact .done _ (i + 1) (by omega) hnext rfl rfl
  · rw [hmark]
    exact traces_until hrow hrounds (traces_param hrow hrounds h) ')' i hi

/-- The walk over a function starts at its parenthesis, the reader behind it. -/
theorem agrees_function {i : Nat} (hi : i < row.length)
    (hopen : acceptMark? '(' (row.drop i) = some (row.drop (i + 1))) :
    Agrees row i d (readFunction operand (row.drop (i + 1)))
      (walkFunction row rounds walk ⟨i, d⟩) := by
  have hexpect : expectMark '(' (row.drop i) = .ok (row.drop (i + 1)) := by
    rw [expectMark, hopen]
  unfold walkFunction
  refine agrees_expect hrow hi '(' (fun _ hnext => ?_) fun e he => ?_
  · rw [readFunction_eq]
    refine (traces_params hrow hrounds h (i + 1) hnext).andThen (fun e he => by rw [he])
      fun params j hlow hj hr => ?_
    rw [hr]
    exact (traces_returns hrow h params j hj).mono (by omega)
  · rw [hexpect] at he
    cases he

theorem traces_entry : Traces row d 1 (walkEntry row rounds walk) (readEntry operand) := by
  intro i hi
  unfold walkEntry readEntry
  rcases hrow.here hi with ⟨q, hdrop⟩ | ⟨t, ht, hdrop, hnext⟩
  · rw [bind_of_ok (next_of_stop hdrop d), hdrop]
    exact .fault _ _ i (mem_of_drop hdrop) rfl hi rfl rfl
  · rw [bind_of_ok (next_of_word hdrop ht d), hdrop]
    simp only
    cases t.lexeme.key? with
    | none => exact .fault _ t (i + 1) (mem_of_drop hdrop) rfl hnext rfl rfl
    | some key =>
      refine agrees_accept hrow hnext ':' (fun hmark hlast => ?_) fun hmark => ?_
      · simp only [hmark]
        refine (traces_type hrow hrounds h (i + 2) hlast).andThen (fun e he => by rw [he])
          fun node j hlow hj hr => ?_
        rw [hr]
        exact .done _ j (by omega) hj rfl rfl
      · simp only [hmark]
        exact .done _ (i + 1) (Nat.le_refl _) hnext rfl rfl

theorem traces_record : Traces row d 0 (walkRecord row rounds walk) (readRecord operand) := by
  intro i hi
  unfold walkRecord readRecord
  refine agrees_accept hrow hi '\x7d' (fun hmark hnext => ?_) fun hmark => ?_
  · rw [hmark]
    exact .done _ (i + 1) (by omega) hnext rfl rfl
  · rw [hmark]
    refine (traces_until hrow hrounds (traces_entry hrow hrounds h) '\x7d' i hi).andThen
      (fun e he => by simp only [he]) fun entries j hlow hj hr => ?_
    simp only [hr]
    exact .done _ j hlow hj rfl rfl

theorem traces_enclosed : Traces row d 1 (walkEnclosed row rounds walk) (readEnclosed operand) := by
  intro i hi
  unfold walkEnclosed readEnclosed
  refine (traces_type hrow hrounds h i hi).andThen (fun e he => by rw [he])
    fun node j hlow hj hr => ?_
  rw [hr]
  refine agrees_expect hrow hj ')' (fun hclose hlast => ?_) fun e he => by simp only [he]
  simp only [hclose]
  exact .done _ (j + 1) (by omega) hlast rfl rfl

theorem traces_primary : Traces row d 1 (walkPrimary row rounds walk) (readPrimary operand) := by
  intro i hi
  rcases hrow.here hi with ⟨q, hdrop⟩ | ⟨t, ht, hdrop, hnext⟩
  · unfold walkPrimary
    rw [bind_of_ok (next_of_stop hdrop d), hdrop]
    exact .fault _ _ i (mem_of_drop hdrop) rfl hi rfl rfl
  · have hmem : t ∈ row := mem_of_drop hdrop
    unfold walkPrimary
    rw [bind_of_ok (next_of_word hdrop ht d), hdrop]
    obtain ⟨l, q⟩ := t
    cases l with
    | name text =>
      obtain ⟨u, hu, hopen⟩ := hrow.peek_mark hnext (c := '(') rfl d
      simp only
      rw [bind_of_ok hu, readPrimary_name]
      by_cases htext : text = "function"
      · rw [if_pos htext]
        rcases hopen with ⟨hread, hmark⟩ | ⟨hread, hmark⟩
        · rw [if_pos ⟨htext, hread⟩, hmark]
          exact agrees_function hrow hrounds h hnext hmark
        · rw [if_neg fun hboth => hread hboth.2, hmark]
          exact traces_named hrow hrounds h text (i + 1) hnext
      · rw [if_neg htext, if_neg fun hboth => htext hboth.1]
        exact traces_named hrow hrounds h text (i + 1) hnext
    | quoted text => exact .done _ (i + 1) (Nat.le_refl _) hnext rfl rfl
    | number text => exact .done _ (i + 1) (Nat.le_refl _) hnext rfl rfl
    | ellipsis => exact .fault _ _ (i + 1) hmem rfl hnext rfl rfl
    | stop => exact absurd rfl ht.ne_stop
    | mark c =>
      have hreads : ∀ {e : Char}, isMark e = true →
          ((⟨.mark c, q⟩ : Token).reads (.mark e) = true ↔ c = e) := fun he => by
        rw [reads_iff (Or.inl ht) (.mark he), Lexeme.mark.injEq]
      simp only
      rw [readPrimary_mark]
      by_cases hany : c = '*'
      · rw [if_pos hany, if_pos ((hreads rfl).2 hany)]
        exact .done _ (i + 1) (Nat.le_refl _) hnext rfl rfl
      · rw [if_neg hany, if_neg (mt (hreads rfl).1 hany)]
        by_cases hopen : c = '('
        · rw [if_pos hopen, if_pos ((hreads rfl).2 hopen)]
          exact (traces_enclosed hrow hrounds h (i + 1) hnext).mono (by omega)
        · rw [if_neg hopen, if_neg (mt (hreads rfl).1 hopen)]
          by_cases hbrace : c = '\x7b'
          · rw [if_pos hbrace, if_pos ((hreads rfl).2 hbrace)]
            exact traces_record hrow hrounds h (i + 1) hnext
          · rw [if_neg hbrace, if_neg (mt (hreads rfl).1 hbrace)]
            exact .fault _ _ (i + 1) hmem rfl hnext rfl rfl

theorem traces_suffixed :
    Traces row d 1 (walkSuffixed row rounds walk) (readSuffixed operand) := by
  intro i hi
  unfold walkSuffixed readSuffixed
  refine (traces_primary hrow hrounds h i hi).andThen (fun e he => by rw [he])
    fun node j hlow hj hr => ?_
  rw [hr]
  exact (traces_suffixes hrow hrounds node hj).mono hlow

theorem traces_modified :
    Traces row d 1 (walkModified row rounds walk) (readModified operand) := by
  intro i hi
  unfold walkModified
  refine agrees_accept hrow hi '?' (fun hmark hnext => ?_) fun hunknown => ?_
  · obtain ⟨q, hdrop⟩ := eq_cons_of_acceptMark? hmark
    rw [hdrop, readModified_mark, if_pos rfl, bind_of_ok (seesBoundary_eq hnext d)]
    split
    · exact .done _ (i + 1) (Nat.le_refl _) hnext rfl rfl
    · exact (traces_under h .nullable (i + 1) hnext).mono (by omega)
  · refine agrees_accept hrow hi '!' (fun hmark hnext => ?_) fun hnot => ?_
    · obtain ⟨q, hdrop⟩ := eq_cons_of_acceptMark? hmark
      rw [hdrop, readModified_mark, if_neg (by decide), if_pos rfl]
      exact (traces_under h .notNullable (i + 1) hnext).mono (by omega)
    · rcases accept_dots hrow hi d with ⟨q, hdrop, hnext, haccept⟩ | ⟨hdots, haccept⟩
      · rw [hdrop, readModified_dots, bind_of_ok haccept, if_pos rfl,
          bind_of_ok (seesBoundary_eq hnext d)]
        split
        · exact .done _ (i + 1) (Nat.le_refl _) hnext rfl rfl
        · exact (traces_under h .variadic (i + 1) hnext).mono (by omega)
      · rw [bind_of_ok haccept, readModified_of_ne operand _ hunknown hnot hdots]
        exact traces_suffixed hrow hrounds h i hi

end

/-! ## Whole parses -/

section

variable {row : List Token} (hrow : IsRow row) {rounds : Nat} (hrounds : row.length ≤ rounds)
include hrow hrounds

/-- As many operands may be opened as are not open yet. -/
theorem traces_operand {nest d : Nat} (h : maxDepth - d < nest) :
    Traces row d 1 (walkOperand row rounds nest) (readOperand (maxDepth - d)) := by
  induction nest generalizing d with
  | zero => exact absurd h (Nat.not_lt_zero _)
  | succ nest ih =>
    intro i hi
    have hopened : opened ⟨i, d⟩ = (.ok d, ⟨i, d⟩) := rfl
    rw [walkOperand, bind_of_ok hopened]
    by_cases hd : maxDepth ≤ d
    · obtain ⟨t, rest, hdrop, ht⟩ := exists_cons_drop hi
      rw [if_pos hd, bind_of_ok (peekAt_self hdrop d), Nat.sub_eq_zero_of_le hd, hdrop]
      exact .fault _ t i ht rfl hi rfl rfl
    · have hlevel : maxDepth - d = maxDepth - (d + 1) + 1 := by omega
      rw [if_neg hd, hlevel]
      exact (traces_modified hrow hrounds (ih (by omega)) i hi).deeper

theorem walkAll_cases {nest : Nat} (h : maxDepth < nest) :
    (∃ node, readAll maxDepth row = .ok node ∧ (walkAll row rounds nest ⟨0, 0⟩).1 = .ok node) ∨
      ∃ e, ∃ t ∈ row, e.position = t.position ∧ readAll maxDepth row = .error e ∧
        (walkAll row rounds nest ⟨0, 0⟩).1 = .error (.fault e) := by
  have hrun : Traces row 0 1 (walkType row rounds (walkOperand row rounds nest))
      (readType (readOperand maxDepth)) :=
    traces_type hrow hrounds (traces_operand hrow hrounds h)
  have hstart : 0 < row.length := by
    obtain ⟨words, q, rfl, -⟩ := hrow
    simp
  unfold walkAll readAll
  cases hrun 0 hstart with
  | fault e t j ht hposition hj hr hm =>
    rw [List.drop_zero] at hr
    rw [bind_of_error hm, hr]
    exact Or.inr ⟨e, t, ht, hposition, rfl, rfl⟩
  | done node j hlow hj hr hm =>
    obtain ⟨t, rest, hdrop, ht⟩ := exists_cons_drop hj
    rw [List.drop_zero, hdrop] at hr
    rw [bind_of_ok hm, bind_of_ok (peekAt_self hdrop 0), hr]
    obtain ⟨l, q⟩ := t
    cases l with
    | stop => exact Or.inl ⟨node, rfl, rfl⟩
    | _ => exact Or.inr ⟨_, _, ht, rfl, rfl, rfl⟩

end

end ApiDoc.TypeExpr
