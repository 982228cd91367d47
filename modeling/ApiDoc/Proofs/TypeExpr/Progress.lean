import ApiDoc.Proofs.TypeExpr.Tracing

/-!
# Progress of the parser

From every place of a row the parser faults or moves the cursor forward, without leaving the row, so
that it comes to an end on every text. All of it is read off the readers, which the walks trace.

* `parserProgresses`: progress and bounds of the walks and of the rounds of loops.
* `cursor_progress`: with the end of every parse and the places of faults.
-/

namespace ApiDoc.TypeExpr

section

variable {α β : Type} (row : List Token)

/-- From every place in the row the walk comes to an end. Either it faults, at a token of the row,
or it has a result and the cursor has moved forward; the cursor is still in the row, if only at the
last token, and as many operands are open as before. -/
def Progresses (walk : Walk α) : Prop :=
  ∀ s : Cursor, s.index < row.length →
    ∃ s' : Cursor, s'.index < row.length ∧ s'.depth = s.depth ∧
      ((∃ e, ∃ t ∈ row, e.position = t.position ∧ walk s = (.error (.fault e), s')) ∨
        ∃ a, s.index < s'.index ∧ walk s = (.ok a, s'))

/-- Every round of a loop comes to an end as well. If there is to be another round, the cursor has
moved forward; if not, it has by `last` at least. -/
def RoundsProgress (last : Nat) (body : β → Walk (β ⊕ α)) : Prop :=
  ∀ b, ∀ s : Cursor, s.index < row.length →
    ∃ s' : Cursor, s'.index < row.length ∧ s'.depth = s.depth ∧
      ((∃ e, ∃ t ∈ row, e.position = t.position ∧ body b s = (.error (.fault e), s')) ∨
        (∃ b', s.index < s'.index ∧ body b s = (.ok (.inl b'), s')) ∨
        ∃ a, s.index + last ≤ s'.index ∧ body b s = (.ok (.inr a), s'))

end

section

variable {α β : Type} {row : List Token}

theorem progresses_of_traces {walk : Walk α} (h : ∀ d, ∃ reader, Traces row d 1 walk reader) :
    Progresses row walk := by
  rintro ⟨i, d⟩ hi
  obtain ⟨reader, hreader⟩ := h d
  cases hreader i hi with
  | done a j hlow hj hr hm => exact ⟨⟨j, d⟩, hj, rfl, Or.inr ⟨a, hlow, hm⟩⟩
  | fault e t j ht hposition hj hr hm =>
    exact ⟨⟨j, d⟩, hj, rfl, Or.inl ⟨e, t, ht, hposition, hm⟩⟩

theorem roundsProgress_of_turn {last : Nat} {body : β → Walk (β ⊕ α)}
    (h : ∀ b d i, i < row.length → ∃ r, Turn row last i d r (body b ⟨i, d⟩)) :
    RoundsProgress row last body := by
  rintro b ⟨i, d⟩ hi
  obtain ⟨r, hturn⟩ := h b d i hi
  cases hturn with
  | again b' j hij hj hr hm => exact ⟨⟨j, d⟩, hj, rfl, Or.inr (Or.inl ⟨b', hij, hm⟩)⟩
  | out a j hij hj hr hm => exact ⟨⟨j, d⟩, hj, rfl, Or.inr (Or.inr ⟨a, hij, hm⟩)⟩
  | fault e t j ht hposition hj hr hm =>
    exact ⟨⟨j, d⟩, hj, rfl, Or.inl ⟨e, t, ht, hposition, hm⟩⟩

end

/-- All walks of the parser and the rounds of all of its loops progress. The last round of a list up
to a closing mark takes tokens as well. -/
structure ParserProgresses (row : List Token) (rounds nest : Nat) : Prop where
  type : Progresses row (walkType row rounds (walkOperand row rounds nest))
  operand : Progresses row (walkOperand row rounds nest)
  suffixed : Progresses row (walkSuffixed row rounds (walkOperand row rounds nest))
  primary : Progresses row (walkPrimary row rounds (walkOperand row rounds nest))
  members : RoundsProgress row 0 (moreItems row '|' (walkOperand row rounds nest))
  arguments : RoundsProgress row 0
    (moreItems row ',' (walkType row rounds (walkOperand row rounds nest)))
  params : RoundsProgress row 1
    (nextItem row ')' (walkParam row rounds (walkOperand row rounds nest)))
  entries : RoundsProgress row 1
    (nextItem row '\x7d' (walkEntry row rounds (walkOperand row rounds nest)))
  suffixes : RoundsProgress row 0 (nextSuffix row)

theorem parserProgresses {row : List Token} (hrow : IsRow row) {rounds nest : Nat}
    (hrounds : row.length ≤ rounds) (hnest : maxDepth < nest) :
    ParserProgresses row rounds nest := by
  have hoperand : ∀ d, Traces row d 1 (walkOperand row rounds nest)
      (readOperand (maxDepth - d)) := fun d =>
    traces_operand hrow hrounds (Nat.lt_of_le_of_lt (Nat.sub_le maxDepth d) hnest)
  refine ⟨?_, ?_, ?_, ?_, ?_, ?_, ?_, ?_, ?_⟩
  · exact progresses_of_traces fun d => ⟨_, traces_type hrow hrounds (hoperand d)⟩
  · exact progresses_of_traces fun d => ⟨_, hoperand d⟩
  · exact progresses_of_traces fun d => ⟨_, traces_suffixed hrow hrounds (hoperand d)⟩
  · exact progresses_of_traces fun d => ⟨_, traces_primary hrow hrounds (hoperand d)⟩
  · exact roundsProgress_of_turn fun items d i hi =>
      ⟨_, turn_moreItems hrow (hoperand d) '|' items hi⟩
  · exact roundsProgress_of_turn fun items d i hi =>
      ⟨_, turn_moreItems hrow (traces_type hrow hrounds (hoperand d)) ',' items hi⟩
  · exact roundsProgress_of_turn fun items d i hi =>
      ⟨_, turn_nextItem hrow (traces_param hrow hrounds (hoperand d)) ')' items hi⟩
  · exact roundsProgress_of_turn fun items d i hi =>
      ⟨_, turn_nextItem hrow (traces_entry hrow hrounds (hoperand d)) '\x7d' items hi⟩
  · exact roundsProgress_of_turn fun node d i hi => ⟨_, turn_nextSuffix hrow node hi⟩

/-- **The parser makes progress and ends.** From every place in the tokens of a text and with any
number of operands open, types, operands, expressions with modifiers and primary expressions fault
or move the cursor forward; it never leaves the tokens, and the operands that are opened are closed.
A round of a loop that is followed by another one moves the cursor forward too, so that as many
rounds as the text has characters, and one more, are enough: the parse ends, as a tree or with a
fault, and every fault is at a place of the text. -/
theorem cursor_progress (source : String) :
    (∀ row rounds nest, tokens source = .ok row → row.length ≤ rounds → maxDepth < nest →
      ParserProgresses row rounds nest) ∧
    (∀ rounds, source.length < rounds →
      walkNode rounds source = (parseNode source).mapError Halt.fault) ∧
    ∀ e, parseNode source = .error e → e.position ≤ source.length := by
  refine ⟨fun row rounds nest hrow hrounds hnest =>
    parserProgresses (isRow_of_tokens hrow) hrounds hnest, fun rounds hrounds => ?_, fun e he => ?_⟩
  · unfold walkNode parseNode
    split
    · rfl
    · cases hrow : tokens source with
      | error e => rfl
      | ok row =>
        have hlength := (lexed_of_tokensFrom hrow).length_le
        rw [String.length_toList] at hlength
        simp only
        rcases walkAll_cases (isRow_of_tokens hrow) (Nat.le_trans hlength hrounds)
            (Nat.lt_succ_self maxDepth) with ⟨node, hread, hwalk⟩ | ⟨e, t, -, -, hread, hwalk⟩
        · rw [hread, hwalk]
          rfl
        · rw [hread, hwalk]
          rfl
  · unfold parseNode at he
    split at he
    · cases he
      exact Nat.zero_le _
    · cases hrow : tokens source with
      | error e' =>
        rw [hrow] at he
        cases he
        obtain ⟨c, q, rfl, -, hstuck, -⟩ := stuckAt_of_tokensFrom hrow List.drop_zero
        obtain ⟨hlt, -⟩ := List.getElem?_eq_some_iff.1 hstuck.stands
        rw [String.length_toList] at hlt
        exact Nat.le_of_lt hlt
      | ok row =>
        rw [hrow] at he
        simp only at he
        rcases walkAll_cases (isRow_of_tokens hrow) (Nat.le_refl row.length)
            (Nat.lt_succ_self maxDepth) with ⟨node, hread, -⟩ | ⟨e', t, ht, hposition, hread, -⟩
        · rw [hread] at he
          cases he
        · rw [hread] at he
          cases he
          have hbounds := (lexed_of_tokensFrom hrow).position_bounds t ht
          rw [String.length_toList, Nat.zero_add] at hbounds
          rw [hposition]
          exact hbounds.2

/-- A parameter that breaks off at a bracket. -/
theorem open_bracket_progress :
    ∃ row, tokens "function(this:?[" = .ok row ∧ row.length ≤ 8 ∧ maxDepth < 65 ∧
      ParserProgresses row 8 65 ∧
      parseNode "function(this:?[" = .error (.unexpected "[" 15) ∧
      15 ≤ "function(this:?[".length := by
  have hrow : tokens "function(this:?[" =
      .ok [⟨.name "function", 0⟩, ⟨.mark '(', 8⟩, ⟨.name "this", 9⟩, ⟨.mark ':', 13⟩,
        ⟨.mark '?', 14⟩, ⟨.mark '[', 15⟩, ⟨.stop, 16⟩] := by decide +kernel
  have hwalk : walkNode 17 "function(this:?[" = .error (.fault (.unexpected "[" 15)) := by
    decide +kernel
  obtain ⟨hprogress, hparse, hposition⟩ := cursor_progress "function(this:?["
  have hnode : parseNode "function(this:?[" = .error (.unexpected "[" 15) := by
    have hresult := (hparse 17 (by decide)).symm.trans hwalk
    cases hread : parseNode "function(this:?[" with
    | ok node =>
      rw [hread] at hresult
      cases hresult
    | error e =>
      rw [hread] at hresult
      cases hresult
      rfl
  exact ⟨_, hrow, by decide, by decide, hprogress _ 8 65 hrow (by decide) (by decide), hnode,
    hposition _ hnode⟩

end ApiDoc.TypeExpr
