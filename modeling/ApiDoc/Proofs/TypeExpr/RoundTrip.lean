import ApiDoc.Proofs.TypeExpr.Lexing

/-!
# Reading written types

The parser takes exactly the tokens of a written operand from the front of a row, provided that
what follows cannot belong to it: a closed operand may be followed by `=`, an operand by `|`, a
type by a comma or a closing bracket.

* `Outcome`: a reader answers when the operands fit the limit, and reports the nesting otherwise.
* `outcome_sepBy`, `outcome_listUntil`: the two loops, over any items whose outcome is known.
* `Closed.outcome`, `Operand.reads`, `Ty.reads`, `Entry.reads`: the readers of the grammar, by
  induction over the tree.
* `parseNode_written_iff`: a written type is read back exactly up to the limit on nesting.
-/

namespace ApiDoc.TypeExpr

/-! ## What may follow -/

/-- The marks that end a type. -/
def typeEnds : List Char := [',', '>', ')', '}']

/-- The marks that end an operand. -/
def operandEnds : List Char := '|' :: typeEnds

/-- The marks that may stand behind a closed operand. -/
def closedEnds : List Char := '=' :: operandEnds

theorem place_mark (p : Nat) (c : Char) (ps : List Piece) :
    place p (mark c :: ps) = ⟨.mark c, p⟩ :: place (p + (Lexeme.mark c).text.length) ps :=
  rfl

theorem acceptMark?_mark (p : Nat) (c : Char) (ps : List Piece) :
    acceptMark? c (place p (mark c :: ps)) = some (place (p + (Lexeme.mark c).text.length) ps) := by
  rw [place_mark, acceptMark?, if_pos rfl]

theorem expectMark_mark (p : Nat) (c : Char) (ps : List Piece) :
    expectMark c (place p (mark c :: ps)) = .ok (place (p + (Lexeme.mark c).text.length) ps) := by
  rw [expectMark, acceptMark?_mark]

theorem Follows.acceptMark? {cs : List Char} {tail : List Piece} (h : Follows cs tail) {c : Char}
    (hc : c ∉ cs) (p : Nat) : acceptMark? c (place p tail) = none := by
  rcases h with rfl | ⟨d, hd, more, rfl⟩
  · rfl
  · have hne : d ≠ c := by
      rintro rfl
      exact hc hd
    rw [place_mark, TypeExpr.acceptMark?, if_neg hne]

theorem Follows.atBoundary {tail : List Piece} (h : Follows closedEnds tail) (p : Nat) :
    atBoundary (place p tail) = true := by
  have hends : ∀ c ∈ closedEnds, [',', '>', ')', '|', '}', ']', '='].contains c = true :=
    Text.forall_mem_of_all (by decide)
  rcases h with rfl | ⟨c, hc, more, rfl⟩
  · rfl
  · exact hends c hc

theorem Follows.readSuffixes {tail : List Piece} (h : Follows operandEnds tail) (node : Node)
    (p : Nat) : readSuffixes node (place p tail) = (node, place p tail) := by
  rcases h with rfl | ⟨c, hc, more, rfl⟩
  · rfl
  · simp only [operandEnds, typeEnds, List.mem_cons, List.not_mem_nil, or_false] at hc
    rcases hc with rfl | rfl | rfl | rfl | rfl <;> rfl

theorem length_place_congr (p q : Nat) (ps : List Piece) :
    (place p ps).length = (place q ps).length := by
  induction ps generalizing p q with
  | nil => rfl
  | cons x ps ih =>
    cases x with
    | blank => exact ih _ _
    | word l => exact congrArg Nat.succ (ih _ _)

theorem length_place_le_append (p q : Nat) (a b : List Piece) :
    (place q b).length ≤ (place p (a ++ b)).length := by
  induction a generalizing p with
  | nil => exact Nat.le_of_eq (length_place_congr q p b)
  | cons x a ih =>
    cases x with
    | blank => exact ih _
    | word l => exact Nat.le_succ_of_le (ih _)

/-- The row after a mark is shorter than the row before the item in front of the mark. -/
theorem length_place_lt (p q : Nat) (a gap b : List Piece) (c : Char) :
    (place q (gap ++ b)).length < (place p (a ++ mark c :: (gap ++ b))).length := by
  have h := length_place_le_append p q a (mark c :: (gap ++ b))
  rw [place_mark, List.length_cons, length_place_congr _ q] at h
  exact h

/-! ## The outcome of a reader -/

/-- A reader answers when the operands fit the limit, and reports the nesting otherwise. -/
structure Outcome {β : Type} (fits : Prop) (r : Except SyntaxError β) (answer : Nat → β) :
    Prop where
  read : fits → ∃ q, r = .ok (answer q)
  deep : ¬ fits → ∃ q, r = .error (.tooDeep q)

section

variable {β γ : Type} {P Q : Prop} {r : Except SyntaxError β} {s : Except SyntaxError γ}
  {answer : Nat → β} {answer' : Nat → γ}

theorem Outcome.of_eq {q : Nat} (hP : P) (h : r = .ok (answer q)) : Outcome P r answer :=
  ⟨fun _ => ⟨q, h⟩, fun hn => absurd hP hn⟩

theorem Outcome.congr (h : Outcome P r answer) (hiff : P ↔ Q) : Outcome Q r answer :=
  ⟨fun hm => h.read (hiff.2 hm), fun hm => h.deep fun hf => hm (hiff.1 hf)⟩

/-- A step that hands on the errors of the one before it. -/
theorem Outcome.andThen (h : Outcome P r answer)
    (hok : ∀ q, r = .ok (answer q) → Outcome Q s answer')
    (herror : ∀ e, r = .error e → s = .error e) : Outcome (P ∧ Q) s answer' := by
  constructor
  · rintro ⟨hP, hQ⟩
    obtain ⟨q, hq⟩ := h.read hP
    exact (hok q hq).read hQ
  · intro hnot
    by_cases hP : P
    · obtain ⟨q, hq⟩ := h.read hP
      exact (hok q hq).deep fun hQ => hnot ⟨hP, hQ⟩
    · obtain ⟨q, hq⟩ := h.deep hP
      exact ⟨q, herror _ hq⟩

/-- A last step that always answers. -/
theorem Outcome.andDone (h : Outcome P r answer)
    (hok : ∀ q, r = .ok (answer q) → ∃ q', s = .ok (answer' q'))
    (herror : ∀ e, r = .error e → s = .error e) : Outcome P s answer' := by
  refine (h.andThen (Q := True) (fun q hq => ?_) herror).congr (and_iff_left trivial)
  obtain ⟨q', hq'⟩ := hok q hq
  exact Outcome.of_eq trivial hq'

end

/-- The reader takes the pieces from the front of a row, up to one of the marks `ends`, if they
fit. -/
def Reads {α : Type} (reader : Reader α) (pieces : List Piece) (value : α) (fits : Prop)
    (ends : List Char) : Prop :=
  ∀ p tail, Follows ends tail →
    Outcome fits (reader (place p (pieces ++ tail))) fun q => (value, place q tail)

/-! ## The loops -/

/-- Pieces that are no words. -/
def Gap (gap : List Piece) : Prop :=
  ∀ p ps, ∃ q, place p (gap ++ ps) = place q ps

theorem gap_nil : Gap [] := fun p _ => ⟨p, rfl⟩

theorem gap_blank : Gap [.blank] := fun p _ => ⟨p + 1, rfl⟩

section

variable {ι α : Type} {item : Reader α} {pieces : ι → List Piece} {value : ι → α}
  {fits : ι → Prop} {ends : List Char} {gap : List Piece}

theorem outcome_sepBy (hgap : Gap gap) {c : Char} (hc : c ∈ ends) {tail : List Piece}
    (hf : Follows ends tail) (hstop : ∀ p, acceptMark? c (place p tail) = none)
    (x : ι) (xs : List ι) (p : Nat)
    (hitem : ∀ y ∈ x :: xs, Reads item (pieces y) (value y) (fits y) ends) :
    Outcome (∀ y ∈ x :: xs, fits y)
      (sepBy item c (place p (pieces x ++ (marked pieces c gap xs ++ tail))))
      fun q => ((x :: xs).map value, place q tail) := by
  induction xs generalizing x p with
  | nil =>
    refine ((hitem x List.mem_cons_self p tail hf).andDone (fun q hq => ⟨q, ?_⟩) ?_).congr
      (by simp)
    · rw [marked, List.flatMap_nil, List.nil_append, sepBy, hq]
      simp only [hstop]
      rfl
    · intro e he
      rw [marked, List.flatMap_nil, List.nil_append, sepBy, he]
  | cons y ys ih =>
    have hrow : marked pieces c gap (y :: ys) ++ tail =
        mark c :: (gap ++ (pieces y ++ (marked pieces c gap ys ++ tail))) := by
      simp only [marked, List.flatMap_cons, List.cons_append, List.append_assoc]
    rw [hrow]
    have hhead := hitem x List.mem_cons_self p
      (mark c :: (gap ++ (pieces y ++ (marked pieces c gap ys ++ tail)))) (follows_mark hc _)
    refine (hhead.andThen (Q := ∀ z ∈ y :: ys, fits z) (fun q hq => ?_) ?_).congr
      List.forall_mem_cons.symm
    · obtain ⟨q', hq'⟩ := hgap (q + (Lexeme.mark c).text.length)
        (pieces y ++ (marked pieces c gap ys ++ tail))
      have hmore := ih y q' fun z hz => hitem z (List.mem_cons_of_mem _ hz)
      refine hmore.andDone (fun q'' hq'' => ⟨q'', ?_⟩) ?_
      · rw [sepBy, hq]
        simp only [acceptMark?_mark, length_place_lt, if_true]
        rw [hq', hq'']
        rfl
      · intro e he
        rw [sepBy, hq]
        simp only [acceptMark?_mark, length_place_lt, if_true]
        rw [hq', he]
    · intro e he
      rw [sepBy, he]

theorem outcome_listUntil (hgap : Gap gap) (hcomma : ',' ∈ ends) {c : Char}
    (hclose : c ∈ ends) (hne : ',' ≠ c) (tail : List Piece) (x : ι) (xs : List ι) (p : Nat)
    (hitem : ∀ y ∈ x :: xs, Reads item (pieces y) (value y) (fits y) ends) :
    Outcome (∀ y ∈ x :: xs, fits y)
      (listUntil item c (place p (pieces x ++ (marked pieces ',' gap xs ++ mark c :: tail))))
      fun q => ((x :: xs).map value, place q tail) := by
  induction xs generalizing x p with
  | nil =>
    refine ((hitem x List.mem_cons_self p _ (follows_mark hclose tail)).andDone
      (fun q hq => ⟨q + (Lexeme.mark c).text.length, ?_⟩) ?_).congr (by simp)
    · rw [marked, List.flatMap_nil, List.nil_append, listUntil, hq]
      simp only [acceptMark?_mark]
      rfl
    · intro e he
      rw [marked, List.flatMap_nil, List.nil_append, listUntil, he]
  | cons y ys ih =>
    have hrow : marked pieces ',' gap (y :: ys) ++ mark c :: tail =
        mark ',' :: (gap ++ (pieces y ++ (marked pieces ',' gap ys ++ mark c :: tail))) := by
      simp only [marked, List.flatMap_cons, List.cons_append, List.append_assoc]
    rw [hrow]
    have hhead := hitem x List.mem_cons_self p
      (mark ',' :: (gap ++ (pieces y ++ (marked pieces ',' gap ys ++ mark c :: tail))))
      (follows_mark hcomma _)
    refine (hhead.andThen (Q := ∀ z ∈ y :: ys, fits z) (fun q hq => ?_) ?_).congr
      List.forall_mem_cons.symm
    · obtain ⟨q', hq'⟩ := hgap (q + (Lexeme.mark ',').text.length)
        (pieces y ++ (marked pieces ',' gap ys ++ mark c :: tail))
      have hnot : acceptMark? c (place q (mark ',' :: (gap ++ (pieces y ++
          (marked pieces ',' gap ys ++ mark c :: tail))))) = none := by
        rw [place_mark, acceptMark?, if_neg hne]
      have hmore := ih y q' fun z hz => hitem z (List.mem_cons_of_mem _ hz)
      refine hmore.andDone (fun q'' hq'' => ⟨q'', ?_⟩) ?_
      · rw [listUntil, hq]
        simp only [hnot, expectMark_mark, length_place_lt, if_true]
        rw [hq', hq'']
        rfl
      · intro e he
        rw [listUntil, hq]
        simp only [hnot, expectMark_mark, length_place_lt, if_true]
        rw [hq', he]
    · intro e he
      rw [listUntil, he]

end

/-! ## How the written forms start -/

/-- Does a closed operand start with this lexeme? -/
def opensClosed : Lexeme → Bool
  | .name _ | .number _ | .quoted _ => true
  | .mark c => ['*', '(', '{'].contains c
  | .ellipsis | .stop => false

/-- Does an operand start with this lexeme? -/
def opensOperand : Lexeme → Bool
  | .mark c => ['?', '!', '*', '(', '{'].contains c
  | .stop => false
  | _ => true

theorem opensOperand_of_opensClosed {l : Lexeme} (h : opensClosed l = true) :
    opensOperand l = true := by
  cases l with
  | mark c =>
    have hsub : ['*', '(', '{'] ⊆ ['?', '!', '*', '(', '{'] := by decide
    exact List.contains_iff_mem.2 (hsub (List.contains_iff_mem.1 h))
  | stop => exact h
  | _ => rfl

theorem Closed.exists_pieces : ∀ c : Closed,
    ∃ l ps, c.pieces = .word l :: ps ∧ opensClosed l = true
  | .name _ | .any | .stringValue _ | .numberValue _ => ⟨_, _, rfl, rfl⟩
  | .generic .. | .record _ | .parenthesis _ | .function _ => ⟨_, _, rfl, rfl⟩
  | .optional c => by
    obtain ⟨l, ps, hps, hl⟩ := c.exists_pieces
    exact ⟨l, ps ++ [mark '='], by rw [Closed.pieces, hps]; rfl, hl⟩

theorem Operand.exists_pieces (o : Operand) :
    ∃ l ps, o.pieces = .word l :: ps ∧ opensOperand l = true := by
  cases o with
  | closed c =>
    obtain ⟨l, ps, hps, hl⟩ := c.exists_pieces
    exact ⟨l, ps, hps, opensOperand_of_opensClosed hl⟩
  | _ => exact ⟨_, _, rfl, rfl⟩

theorem Ty.exists_pieces (t : Ty) :
    ∃ l ps, t.pieces = .word l :: ps ∧ opensOperand l = true := by
  cases t with
  | operand o => exact o.exists_pieces
  | union a b os =>
    obtain ⟨l, ps, hps, hl⟩ := a.exists_pieces
    exact ⟨l, ps ++ mark '|' :: (b.pieces ++ Operand.morePieces os),
      by rw [Ty.pieces, hps]; rfl, hl⟩

theorem Operand.atBoundary_pieces (o : Operand) (p : Nat) (tail : List Piece) :
    atBoundary (place p (o.pieces ++ tail)) = false := by
  obtain ⟨l, ps, hps, hl⟩ := o.exists_pieces
  rw [hps]
  cases l with
  | mark c =>
    have hopens : ∀ c ∈ ['?', '!', '*', '(', '{'],
        [',', '>', ')', '|', '}', ']', '='].contains c = false := Text.forall_mem_of_all (by decide)
    exact hopens c (List.contains_iff_mem.1 hl)
  | stop => cases hl
  | _ => rfl

theorem Ty.acceptMark?_pieces (t : Ty) (p : Nat) (tail : List Piece) :
    acceptMark? ')' (place p (t.pieces ++ tail)) = none := by
  obtain ⟨l, ps, hps, hl⟩ := t.exists_pieces
  rw [hps]
  cases l with
  | mark c =>
    have hne : c ≠ ')' := by
      rintro rfl
      cases hl
    exact if_neg hne
  | _ => rfl

theorem Entry.acceptMark?_pieces (e : Entry) (p : Nat) (tail : List Piece) :
    acceptMark? '}' (place p (e.pieces ++ tail)) = none := by
  cases e with
  | bare k => cases k <;> rfl
  | typed k t => cases k <;> rfl

/-- A row that starts with no name before a colon. -/
def NoReceiver (ts : List Token) : Prop :=
  ∀ s p q rest, ts ≠ ⟨.name s, p⟩ :: ⟨.mark ':', q⟩ :: rest

theorem noReceiver_of_ne {l : Lexeme} (h : ∀ s, l ≠ .name s) (p : Nat) (ps : List Piece) :
    NoReceiver (place p (.word l :: ps)) := by
  intro s q q' rest he
  exact h s (congrArg Token.lexeme (List.cons.inj he).1)

theorem noReceiver_of_follows {cs : List Char} {ps : List Piece} (hf : Follows cs ps)
    (hc : ':' ∉ cs) (l : Lexeme) (p : Nat) : NoReceiver (place p (.word l :: ps)) := by
  intro s q q' rest he
  have htail := (List.cons.inj he).2
  have hnone := hf.acceptMark? hc (p + l.text.length)
  rw [htail, acceptMark?, if_pos rfl] at hnone
  cases hnone

theorem Closed.noReceiver (c : Closed) {tail : List Piece} (hf : Follows closedEnds tail)
    (p : Nat) : NoReceiver (place p (c.pieces ++ tail)) := by
  match c with
  | .name n => exact noReceiver_of_follows hf (by decide) _ _
  | .any | .record _ | .parenthesis _ => exact noReceiver_of_ne (by intro _ h; cases h) _ _
  | .stringValue _ | .numberValue _ => exact noReceiver_of_ne (by intro _ h; cases h) _ _
  | .generic .. =>
    exact noReceiver_of_follows (follows_mark (List.mem_singleton_self '<') _) (by decide) _ _
  | .function _ =>
    exact noReceiver_of_follows (follows_mark (List.mem_singleton_self '(') _) (by decide) _ _
  | .optional c =>
    rw [Closed.pieces, List.append_assoc]
    exact c.noReceiver (follows_mark (by decide) _) p

theorem Operand.noReceiver (o : Operand) {tail : List Piece} (hf : Follows operandEnds tail)
    (p : Nat) : NoReceiver (place p (o.pieces ++ tail)) := by
  cases o with
  | closed c => exact c.noReceiver (hf.mono (List.subset_cons_self _ _)) p
  | returning ps r =>
    exact noReceiver_of_follows (follows_mark (List.mem_singleton_self '(') _) (by decide) _ _
  | _ => exact noReceiver_of_ne (by intro _ h; cases h) _ _

theorem Ty.noReceiver (t : Ty) {tail : List Piece} (hf : Follows typeEnds tail) (p : Nat) :
    NoReceiver (place p (t.pieces ++ tail)) := by
  cases t with
  | operand o => exact o.noReceiver (hf.mono (List.subset_cons_self _ _)) p
  | union a b os =>
    rw [Ty.pieces, List.append_assoc]
    exact a.noReceiver (follows_mark (by decide) _) p

/-! ## The readers over a reader of operands -/

section

variable {operand : Reader Node} {d : Nat} {tail : List Piece}

theorem reads_operandType {o : Operand}
    (h : Reads operand o.pieces o.node (o.nest ≤ d) operandEnds) :
    Reads (readType operand) o.pieces o.node (o.nest ≤ d) typeEnds := by
  intro p tail hf
  have hends : Follows operandEnds tail := hf.mono (List.subset_cons_self _ _)
  have hitem : ∀ y ∈ [o], Reads operand y.pieces y.node (y.nest ≤ d) operandEnds :=
    List.forall_mem_singleton.2 h
  have hrow := outcome_sepBy gap_nil (c := '|') (by decide) hends (hf.acceptMark? (by decide)) o []
    p hitem
  rw [marked, List.flatMap_nil, List.nil_append] at hrow
  refine (hrow.congr List.forall_mem_singleton).andDone (fun q hq => ⟨q, ?_⟩) ?_
  · rw [readType, hq]
    rfl
  · intro e he
    rw [readType, he]

theorem reads_unionType {a b : Operand} {os : List Operand}
    (h : ∀ o ∈ a :: b :: os, Reads operand o.pieces o.node (o.nest ≤ d) operandEnds) :
    Reads (readType operand) (Ty.union a b os).pieces (Ty.union a b os).node
      ((Ty.union a b os).nest ≤ d) typeEnds := by
  intro p tail hf
  have hends : Follows operandEnds tail := hf.mono (List.subset_cons_self _ _)
  have hrow := outcome_sepBy gap_nil (c := '|') (by decide) hends (hf.acceptMark? (by decide)) a
    (b :: os) p h
  have hpieces : (Ty.union a b os).pieces ++ tail =
      a.pieces ++ (marked Operand.pieces '|' [] (b :: os) ++ tail) := by
    rw [Ty.pieces, Operand.morePieces_eq, List.append_assoc]
    rfl
  have hnest : (∀ o ∈ a :: b :: os, o.nest ≤ d) ↔ (Ty.union a b os).nest ≤ d := by
    rw [Ty.nest, Nat.max_le, Nat.max_le, Operand.nestAll_le, List.forall_mem_cons,
      List.forall_mem_cons]
  rw [hpieces]
  refine (hrow.congr hnest).andDone (fun q hq => ⟨q, ?_⟩) ?_
  · rw [readType, hq, Ty.node, Operand.nodes_eq]
    rfl
  · intro e he
    rw [readType, he]

theorem readNamed_of_follows (hf : Follows closedEnds tail) (s : String) (p : Nat) :
    readNamed operand s (place p tail) = .ok ({ kind := .name, name := some s }, place p tail) := by
  rcases hf with rfl | ⟨c, hc, more, rfl⟩
  · rfl
  · simp only [closedEnds, operandEnds, typeEnds, List.mem_cons, List.not_mem_nil, or_false] at hc
    rcases hc with rfl | rfl | rfl | rfl | rfl | rfl <;> rfl

theorem outcome_readNamed {t : Ty} {ts : List Ty}
    (h : ∀ u ∈ t :: ts, Reads (readType operand) u.pieces u.node (u.nest ≤ d) typeEnds)
    (s : String) (p : Nat) (tail : List Piece) :
    Outcome (∀ u ∈ t :: ts, u.nest ≤ d)
      (readNamed operand s (place p (mark '<' :: (t.pieces ++ (Ty.morePieces ts ++
        mark '>' :: tail)))))
      fun q => ({ kind := .generic, name := some s, children := t.node :: Ty.nodes ts },
        place q tail) := by
  have hends : Follows typeEnds (mark '>' :: tail) := follows_mark (by decide) tail
  have hrow := outcome_sepBy gap_blank (c := ',') (by decide) hends (fun _ => rfl) t ts
    (p + (Lexeme.mark '<').text.length) h
  rw [← Ty.morePieces_eq] at hrow
  have hopen : ∀ q q' row rest, place p (mark '<' :: row) ≠
      ⟨.mark '.', q⟩ :: ⟨.mark '<', q'⟩ :: rest := by
    intro q q' row rest he
    have hmark : Lexeme.mark '<' = .mark '.' := congrArg Token.lexeme (List.cons.inj he).1
    exact absurd hmark (by decide)
  rw [readNamed.eq_2 _ _ _ fun q q' rest => hopen q q' _ rest]
  simp only [acceptMark?_mark]
  refine hrow.andDone (fun q hq => ⟨q + (Lexeme.mark '>').text.length, ?_⟩) ?_
  · rw [hq]
    simp only [expectMark_mark, Ty.nodes_eq, List.map_cons]
  · intro e he
    rw [he]

theorem reads_readParam {t : Ty}
    (h : Reads (readType operand) t.pieces t.node (t.nest ≤ d) typeEnds) :
    Reads (readParam operand) t.pieces t.node (t.nest ≤ d) typeEnds := by
  intro p tail hf
  have hparam : readParam operand (place p (t.pieces ++ tail)) =
      readType operand (place p (t.pieces ++ tail)) := by
    have hno := t.noReceiver hf p
    unfold readParam
    split
    · next he => exact absurd he (hno _ _ _ _)
    · next he => exact absurd he (hno _ _ _ _)
    · rfl
  rw [hparam]
  exact h p tail hf

theorem readReturns_of_follows (hf : Follows closedEnds tail) (params : List Node) (p : Nat) :
    readReturns operand params (place p tail) =
      .ok ({ kind := .function, children := params }, place p tail) := by
  rw [readReturns, hf.acceptMark? (by decide)]

theorem outcome_readReturns {r : Operand}
    (h : Reads operand r.pieces r.node (r.nest ≤ d) operandEnds) (hf : Follows operandEnds tail)
    (params : List Node) (p : Nat) :
    Outcome (r.nest ≤ d)
      (readReturns operand params (place p (mark ':' :: .blank :: (r.pieces ++ tail))))
      fun q => ({ kind := .function, children := params, returns := some r.node },
        place q tail) := by
  refine (h (p + (Lexeme.mark ':').text.length + 1) tail hf).andDone (fun q hq => ⟨q, ?_⟩) ?_
  · rw [readReturns, acceptMark?_mark]
    simp only [place]
    rw [hq]
  · intro e he
    rw [readReturns, acceptMark?_mark]
    simp only [place]
    rw [he]

/-- The parameters of a function, before what follows the closing parenthesis. -/
theorem outcome_readFunction {ps : List Ty}
    (h : ∀ u ∈ ps, Reads (readType operand) u.pieces u.node (u.nest ≤ d) typeEnds)
    {fits : Prop} {answer : Nat → Node × List Token}
    (hreturns : ∀ q, Outcome fits (readReturns operand (Ty.nodes ps) (place q tail)) answer)
    (p : Nat) :
    Outcome ((∀ u ∈ ps, u.nest ≤ d) ∧ fits)
      (readFunction operand (place p (Ty.listPieces ps ++ mark ')' :: tail))) answer := by
  cases ps with
  | nil =>
    rw [Ty.listPieces, List.nil_append, readFunction, acceptMark?_mark]
    exact (hreturns _).congr (by simp)
  | cons t ts =>
    have hrow := outcome_listUntil gap_blank (c := ')') (by decide) (by decide) (by decide)
      tail t ts p fun u hu => reads_readParam (h u hu)
    rw [← Ty.morePieces_eq] at hrow
    rw [Ty.listPieces, List.append_assoc]
    refine hrow.andThen (fun q hq => ?_) ?_
    · rw [readFunction, t.acceptMark?_pieces]
      simp only
      rw [hq, ← Ty.nodes_eq]
      exact hreturns q
    · intro e he
      rw [readFunction, t.acceptMark?_pieces]
      simp only
      rw [he]

theorem Key.key?_lexeme (k : Key) : k.lexeme.key? = some k.text := by
  cases k with
  | name n => rfl
  | number k => rfl
  | quoted s =>
    simp only [Key.lexeme, Literal.lexeme, Lexeme.key?, unquoted, Literal.chars,
      String.toList_ofList, List.drop_succ_cons, List.drop_zero, List.dropLast_concat, Key.text]

theorem reads_bareEntry (k : Key) :
    Reads (readEntry operand) (Entry.bare k).pieces (Entry.bare k).node
      ((Entry.bare k).nest ≤ d) typeEnds := by
  intro p tail hf
  have hread : readEntry operand (place p ((Entry.bare k).pieces ++ tail)) =
      .ok ((Entry.bare k).node, place (p + k.lexeme.text.length) tail) := by
    simp only [Entry.pieces, List.cons_append, List.nil_append, place, readEntry, k.key?_lexeme,
      hf.acceptMark? (c := ':') (by decide)]
    rfl
  exact Outcome.of_eq (Nat.zero_le d) hread

theorem reads_typedEntry (k : Key) {t : Ty}
    (h : Reads (readType operand) t.pieces t.node (t.nest ≤ d) typeEnds) :
    Reads (readEntry operand) (Entry.typed k t).pieces (Entry.typed k t).node
      ((Entry.typed k t).nest ≤ d) typeEnds := by
  intro p tail hf
  have hrow : place p ((Entry.typed k t).pieces ++ tail) =
      ⟨k.lexeme, p⟩ ::
        place (p + k.lexeme.text.length) (mark ':' :: .blank :: (t.pieces ++ tail)) := rfl
  have htype := h (p + k.lexeme.text.length + (Lexeme.mark ':').text.length + 1) tail hf
  rw [hrow, readEntry]
  simp only [k.key?_lexeme, acceptMark?_mark, place]
  refine htype.andDone (fun q hq => ⟨q, ?_⟩) ?_
  · rw [hq]
    rfl
  · intro e he
    rw [he]

theorem outcome_readRecord {es : List Entry}
    (h : ∀ e ∈ es, Reads (readEntry operand) e.pieces e.node (e.nest ≤ d) typeEnds) (p : Nat)
    (tail : List Piece) :
    Outcome (∀ e ∈ es, e.nest ≤ d)
      (readRecord operand (place p (Entry.listPieces es ++ mark '}' :: tail)))
      fun q => ({ kind := .record, children := Entry.nodes es }, place q tail) := by
  cases es with
  | nil =>
    rw [Entry.listPieces, List.nil_append, readRecord, acceptMark?_mark]
    exact Outcome.of_eq (by simp) rfl
  | cons e es =>
    have hrow := outcome_listUntil gap_blank (c := '}') (by decide) (by decide) (by decide)
      tail e es p h
    rw [← Entry.morePieces_eq] at hrow
    rw [Entry.listPieces, List.append_assoc]
    refine hrow.andDone (fun q hq => ⟨q, ?_⟩) ?_
    · rw [readRecord, e.acceptMark?_pieces]
      simp only
      rw [hq, ← Entry.nodes_eq]
    · intro x hx
      rw [readRecord, e.acceptMark?_pieces]
      simp only
      rw [hx]

theorem outcome_readSuffixed {fits : Prop} {ts : List Token} {node : Node}
    (h : Outcome fits (readPrimary operand ts) fun q => (node, place q tail)) :
    Outcome fits (readSuffixed operand ts) fun q => readSuffixes node (place q tail) := by
  refine h.andDone (fun q hq => ⟨q, ?_⟩) ?_
  · rw [readSuffixed, hq]
  · intro e he
    rw [readSuffixed, he]

theorem outcome_readUnder {fits : Prop} {ts : List Token} {node : Node}
    (h : Outcome fits (operand ts) fun q => (node, place q tail)) (kind : Kind) :
    Outcome fits (readUnder operand kind ts)
      fun q => ({ kind, children := [node] }, place q tail) := by
  refine h.andDone (fun q hq => ⟨q, ?_⟩) ?_
  · rw [readUnder, hq]
  · intro e he
    rw [readUnder, he]

theorem outcome_parenthesis {t : Ty}
    (h : Reads (readType operand) t.pieces t.node (t.nest ≤ d) typeEnds) (p : Nat)
    (tail : List Piece) :
    Outcome (t.nest ≤ d)
      (readPrimary operand (place p (mark '(' :: (t.pieces ++ mark ')' :: tail))))
      fun q => ({ kind := .parenthesis, children := [t.node] }, place q tail) := by
  have htype := h (p + (Lexeme.mark '(').text.length) (mark ')' :: tail)
    (follows_mark (by decide) tail)
  rw [place_mark, readPrimary]
  refine htype.andDone (fun q hq => ⟨q + (Lexeme.mark ')').text.length, ?_⟩) ?_
  · rw [hq]
    simp only [expectMark_mark]
  · intro e he
    rw [he]

theorem readPrimary_named (s : String) {ps : List Piece} {p : Nat}
    (h : acceptMark? '(' (place (p + (Lexeme.name s).text.length) ps) = none) :
    readPrimary operand (place p (.word (.name s) :: ps)) =
      readNamed operand s (place (p + (Lexeme.name s).text.length) ps) := by
  unfold readPrimary
  simp only [place, h]

theorem readPrimary_function (p : Nat) (ps : List Piece) :
    readPrimary operand (place p (.word (.name "function") :: mark '(' :: ps)) =
      readFunction operand (place (p + (Lexeme.name "function").text.length +
        (Lexeme.mark '(').text.length) ps) := by
  unfold readPrimary
  rw [place]
  simp only [acceptMark?_mark]

theorem readModified_closed (c : Closed) (p : Nat) (tail : List Piece) :
    readModified operand (place p (c.pieces ++ tail)) =
      readSuffixed operand (place p (c.pieces ++ tail)) := by
  obtain ⟨l, ps, hps, hl⟩ := c.exists_pieces
  rw [hps, List.cons_append, place]
  unfold readModified
  split
  · next he =>
    obtain ⟨rfl, -⟩ := Token.mk.inj (List.cons.inj he).1
    cases hl
  · next he =>
    obtain ⟨rfl, -⟩ := Token.mk.inj (List.cons.inj he).1
    cases hl
  · next he =>
    obtain ⟨rfl, -⟩ := Token.mk.inj (List.cons.inj he).1
    cases hl
  · rfl

end

/-! ## The readers of the grammar -/

mutual

/-- A closed operand, before the modifiers that may follow it. -/
theorem Closed.outcome (c : Closed) (d p : Nat) {tail : List Piece}
    (hf : Follows closedEnds tail) :
    Outcome (c.nest ≤ d + 1) (readSuffixed (readOperand d) (place p (c.pieces ++ tail)))
      fun q => readSuffixes c.node (place q tail) := by
  cases c with
  | name n =>
    refine outcome_readSuffixed (Outcome.of_eq (q := p + n.lexeme.text.length)
      (Nat.le_add_left 1 d) ?_)
    rw [Closed.pieces, List.singleton_append, DottedName.lexeme,
      readPrimary_named _ (hf.acceptMark? (by decide) _), readNamed_of_follows hf]
    rfl
  | any => exact outcome_readSuffixed (Outcome.of_eq (Nat.le_add_left 1 d) rfl)
  | stringValue s =>
    refine outcome_readSuffixed (Outcome.of_eq (q := p + s.lexeme.text.length)
      (Nat.le_add_left 1 d) ?_)
    have hbody : unquoted (String.ofList s.chars) = String.ofList s.body :=
      Option.some.inj (Key.quoted s).key?_lexeme
    rw [Closed.node, ← hbody]
    rfl
  | numberValue k => exact outcome_readSuffixed (Outcome.of_eq (Nat.le_add_left 1 d) rfl)
  | generic n t ts =>
    have hargs := outcome_readNamed (List.forall_mem_cons.2 ⟨Ty.reads t d, Ty.all_reads ts d⟩)
      (String.ofList n.chars) (p + n.lexeme.text.length) tail
    have hnest : (∀ u ∈ t :: ts, u.nest ≤ d) ↔ (Closed.generic n t ts).nest ≤ d + 1 := by
      rw [List.forall_mem_cons, ← Ty.nestAll_le, Closed.nest, Nat.add_comm 1,
        Nat.add_le_add_iff_right, Nat.max_le]
    refine outcome_readSuffixed ?_
    simp only [Closed.pieces, List.cons_append, List.append_assoc, List.nil_append]
    rw [DottedName.lexeme, readPrimary_named _ rfl]
    exact hargs.congr hnest
  | record es =>
    have hentries := outcome_readRecord (Entry.all_reads es d)
      (p + (Lexeme.mark '{').text.length) tail
    have hnest : (∀ e ∈ es, e.nest ≤ d) ↔ (Closed.record es).nest ≤ d + 1 := by
      rw [← Entry.nestAll_le, Closed.nest, Nat.add_comm 1, Nat.add_le_add_iff_right]
    refine outcome_readSuffixed ?_
    simp only [Closed.pieces, List.cons_append, List.append_assoc, List.nil_append]
    exact hentries.congr hnest
  | parenthesis t =>
    have hinner := outcome_parenthesis (Ty.reads t d) p tail
    have hnest : t.nest ≤ d ↔ (Closed.parenthesis t).nest ≤ d + 1 := by
      rw [Closed.nest, Nat.add_comm 1, Nat.add_le_add_iff_right]
    refine outcome_readSuffixed ?_
    simp only [Closed.pieces, List.cons_append, List.append_assoc, List.nil_append]
    exact hinner.congr hnest
  | function ps =>
    have hreturns : ∀ q, Outcome True (readReturns (readOperand d) (Ty.nodes ps) (place q tail))
        fun q => ((Closed.function ps).node, place q tail) :=
      fun q => Outcome.of_eq trivial (readReturns_of_follows hf (Ty.nodes ps) q)
    have hparams := outcome_readFunction (Ty.all_reads ps d) hreturns
      (p + (Lexeme.name "function").text.length + (Lexeme.mark '(').text.length)
    have hnest : ((∀ u ∈ ps, u.nest ≤ d) ∧ True) ↔ (Closed.function ps).nest ≤ d + 1 := by
      rw [and_iff_left trivial, ← Ty.nestAll_le, Closed.nest, Nat.add_comm 1,
        Nat.add_le_add_iff_right]
    refine outcome_readSuffixed ?_
    simp only [Closed.pieces, List.cons_append, List.append_assoc, List.nil_append]
    rw [readPrimary_function]
    exact hparams.congr hnest
  | optional c =>
    -- the mark belongs to what follows `c`, so the modifiers go on behind it
    have hmark : Follows closedEnds (mark '=' :: tail) := follows_mark (by decide) tail
    have hinner := Closed.outcome c d p hmark
    rw [Closed.pieces, List.append_assoc]
    refine hinner.andDone (fun q hq => ⟨q + (Lexeme.mark '=').text.length, hq⟩) ?_
    intro e he
    exact he

theorem Operand.reads (o : Operand) (d : Nat) :
    Reads (readOperand d) o.pieces o.node (o.nest ≤ d) operandEnds := by
  intro p tail hf
  -- by the limit: at zero no operand fits, and a level of the limit is a level of the tree
  cases d with
  | zero => exact ⟨fun h => absurd o.nest_pos (Nat.not_lt.2 h), fun _ => ⟨_, rfl⟩⟩
  | succ d =>
    have hends : Follows closedEnds tail := hf.mono (List.subset_cons_self _ _)
    rw [readOperand]
    cases o with
    | closed c =>
      have hclosed := Closed.outcome c d p hends
      rw [Operand.pieces, readModified_closed]
      refine hclosed.andDone (fun q hq => ⟨q, ?_⟩) fun e he => he
      rw [hq, hf.readSuffixes]
      rfl
    | unknown =>
      have hlone := hends.atBoundary (p + (Lexeme.mark '?').text.length)
      refine Outcome.of_eq (q := p + (Lexeme.mark '?').text.length) (Nat.le_add_left 1 d) ?_
      rw [Operand.pieces, List.singleton_append, place_mark, readModified, if_pos hlone]
      rfl
    | returning ps r =>
      have hparams := outcome_readFunction (Ty.all_reads ps d)
        (outcome_readReturns (Operand.reads r d) hf (Ty.nodes ps))
        (p + (Lexeme.name "function").text.length + (Lexeme.mark '(').text.length)
      have hnest : ((∀ u ∈ ps, u.nest ≤ d) ∧ r.nest ≤ d) ↔
          (Operand.returning ps r).nest ≤ d + 1 := by
        rw [← Ty.nestAll_le, Operand.nest, Nat.add_comm 1, Nat.add_le_add_iff_right, Nat.max_le]
      have hrow : (Operand.returning ps r).pieces ++ tail = .word (.name "function") :: mark '(' ::
          (Ty.listPieces ps ++ mark ')' :: mark ':' :: .blank :: (r.pieces ++ tail)) := by
        simp only [Operand.pieces, List.cons_append, List.append_assoc]
      -- the modifiers behind the return type are its own, so none is left for the function
      rw [← readPrimary_function] at hparams
      rw [hrow]
      refine (outcome_readSuffixed (hparams.congr hnest)).andDone (fun q hq => ⟨q, ?_⟩)
        fun e he => he
      exact hq.trans (congrArg Except.ok (hf.readSuffixes _ q))
    | nullable o =>
      have hinner := Operand.reads o d (p + (Lexeme.mark '?').text.length) tail hf
      rw [Operand.pieces, List.cons_append, place_mark, readModified, o.atBoundary_pieces]
      exact (outcome_readUnder hinner .nullable).congr (by rw [Operand.nest]; omega)
    | notNullable o =>
      have hinner := Operand.reads o d (p + (Lexeme.mark '!').text.length) tail hf
      rw [Operand.pieces, List.cons_append, place_mark, readModified]
      exact (outcome_readUnder hinner .notNullable).congr (by rw [Operand.nest]; omega)
    | variadic o =>
      have hinner := Operand.reads o d (p + Lexeme.ellipsis.text.length) tail hf
      rw [Operand.pieces, List.cons_append, place, readModified, o.atBoundary_pieces]
      exact (outcome_readUnder hinner .variadic).congr (by rw [Operand.nest]; omega)
    | variadicAlone =>
      have hlone := hends.atBoundary (p + Lexeme.ellipsis.text.length)
      refine Outcome.of_eq (q := p + Lexeme.ellipsis.text.length) (Nat.le_add_left 1 d) ?_
      rw [Operand.pieces, List.singleton_append, place, readModified, if_pos hlone]
      rfl

theorem Ty.reads (t : Ty) (d : Nat) :
    Reads (readType (readOperand d)) t.pieces t.node (t.nest ≤ d) typeEnds := by
  cases t with
  | operand o => exact reads_operandType (Operand.reads o d)
  | union a b os =>
    exact reads_unionType (List.forall_mem_cons.2 ⟨Operand.reads a d,
      List.forall_mem_cons.2 ⟨Operand.reads b d, Operand.all_reads os d⟩⟩)

theorem Entry.reads (e : Entry) (d : Nat) :
    Reads (readEntry (readOperand d)) e.pieces e.node (e.nest ≤ d) typeEnds := by
  cases e with
  | bare k => exact reads_bareEntry k
  | typed k t => exact reads_typedEntry k (Ty.reads t d)

theorem Operand.all_reads (os : List Operand) (d : Nat) :
    ∀ o ∈ os, Reads (readOperand d) o.pieces o.node (o.nest ≤ d) operandEnds := by
  cases os with
  | nil => exact List.forall_mem_nil _
  | cons o os => exact List.forall_mem_cons.2 ⟨Operand.reads o d, Operand.all_reads os d⟩

theorem Ty.all_reads (ts : List Ty) (d : Nat) :
    ∀ t ∈ ts, Reads (readType (readOperand d)) t.pieces t.node (t.nest ≤ d) typeEnds := by
  cases ts with
  | nil => exact List.forall_mem_nil _
  | cons t ts => exact List.forall_mem_cons.2 ⟨Ty.reads t d, Ty.all_reads ts d⟩

theorem Entry.all_reads (es : List Entry) (d : Nat) :
    ∀ e ∈ es, Reads (readEntry (readOperand d)) e.pieces e.node (e.nest ≤ d) typeEnds := by
  cases es with
  | nil => exact List.forall_mem_nil _
  | cons e es => exact List.forall_mem_cons.2 ⟨Entry.reads e d, Entry.all_reads es d⟩

end

/-! ## The whole text -/

theorem Ty.isBlankText_written (t : Ty) : Text.isBlankText t.written.toList = false := by
  obtain ⟨l, ps, hps, -⟩ := t.exists_pieces
  have hspelled := t.spelled_pieces
  rw [hps] at hspelled
  obtain ⟨-, hne⟩ := readLexeme?_append hspelled.1.read
  obtain ⟨c, cs, hc⟩ := List.exists_cons_of_ne_nil hne
  have hblank : Text.isBlank c = false := hspelled.1.start c (by rw [hc]; rfl)
  have hchars : charsOf t.pieces = c :: (cs ++ charsOf ps) := by
    rw [hps, charsOf, List.flatMap_cons, Piece.chars, hc]
    rfl
  rw [Ty.written, String.toList_ofList, hchars, Text.isBlankText, List.all_cons, hblank,
    Bool.false_and]

theorem Ty.outcome_parseNode (t : Ty) :
    Outcome (t.nest ≤ maxDepth) (parseNode t.written) fun _ => t.node := by
  have hread := t.reads maxDepth 0 [] Follows.nil
  rw [List.append_nil] at hread
  have hparse : parseNode t.written = readAll maxDepth (place 0 t.pieces) := by
    rw [parseNode, t.isBlankText_written, t.tokens_written]
    rfl
  rw [hparse]
  refine hread.andDone (fun q hq => ⟨q, ?_⟩) ?_
  · rw [readAll, hq]
    rfl
  · intro e he
    rw [readAll, he]

/-- **Round trip of types.** The written form of a type is read back into its tree exactly when at
most 64 operands stand inside each other, and every other written type is refused for its
nesting. -/
theorem parseNode_written_iff (t : Ty) :
    (parseNode t.written = .ok t.node ↔ t.nest ≤ 64) ∧
      ((∃ p, parseNode t.written = .error (.tooDeep p)) ↔ 64 < t.nest) := by
  have hout := t.outcome_parseNode
  rcases Nat.lt_or_ge 64 t.nest with hdeep | hfits
  · obtain ⟨p, hp⟩ := hout.deep (Nat.not_le.2 hdeep)
    refine ⟨⟨fun h => ?_, fun h => absurd hdeep (Nat.not_lt.2 h)⟩,
      ⟨fun _ => hdeep, fun _ => ⟨p, hp⟩⟩⟩
    rw [hp] at h
    cases h
  · obtain ⟨-, hq⟩ := hout.read hfits
    refine ⟨⟨fun _ => hfits, fun _ => hq⟩,
      ⟨fun h => ?_, fun h => absurd hfits (Nat.not_le.2 h)⟩⟩
    obtain ⟨p, hp⟩ := h
    rw [hq] at hp
    cases hp

example :
    (Ty.union
      (.returning
        [.operand (.closed (.name functionName)),
          .operand (.closed (.optional (.record
            [.typed (.name functionName) (.operand (.nullable (.closed .any))),
              .bare (.name functionName)])))]
        .unknown)
      (.closed (.generic functionName (.operand .variadicAlone)
        [.operand (.notNullable (.closed (.parenthesis (.operand .unknown))))])) []).written =
      "function(function, {function: ?*, function}=): ?|function<..., !(?)>" := by
  decide +kernel

end ApiDoc.TypeExpr
