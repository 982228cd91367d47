import Mathlib.Data.List.DropRight
import ApiDoc.Text.Lines
import ApiDoc.Text.Blank

/-!
# Stripping, dividing and replacing

* `stripEnd_cons`: stripping at the end as a recursion from the front.
* `strip_eq_nil`: nothing is left exactly of a blank text.
* `exists_stripEnd_append`: what is stripped at the end is blank.
* `strip_append_blank`, `strip_stripEnd`, `strip_strip`: what stripping does not see.
* `splitAt_eq_singleton`, `splitAt_intercalate`: parts without the separator.
* `lines_unlines`: texts put together as lines are divided one by one.
* `lines_induction`: a text line by line.
-/

namespace ApiDoc.Text

/-! ## Blank texts -/

theorem isBlankText_cons (c : Char) (cs : List Char) :
    isBlankText (c :: cs) = (isBlank c && isBlankText cs) :=
  rfl

theorem stripStart_cons_of_isBlank {c : Char} (h : isBlank c = true) (cs : List Char) :
    stripStart (c :: cs) = stripStart cs :=
  List.dropWhile_cons_of_pos h

theorem stripStart_cons_of_not_isBlank {c : Char} (h : isBlank c = false) (cs : List Char) :
    stripStart (c :: cs) = c :: cs :=
  List.dropWhile_cons_of_neg (by simp [h])

/-! ## Stripping at the end -/

theorem stripEnd_of_isBlankText {cs : List Char} (h : isBlankText cs = true) :
    stripEnd cs = [] :=
  List.rdropWhile_eq_nil_iff.2 (List.all_eq_true.1 h)

theorem stripEnd_append_blank (cs : List Char) {ws : List Char} (h : isBlankText ws = true) :
    stripEnd (cs ++ ws) = stripEnd cs := by
  have hblank : ∀ c ∈ ws.reverse, isBlank c = true := fun c hc =>
    List.all_eq_true.1 h c (List.mem_reverse.1 hc)
  rw [stripEnd, List.reverse_append, List.dropWhile_append_of_pos hblank]
  rfl

/-- Stripping at the end, read from the front: a character stays unless only blanks follow it and
it is one of them. -/
theorem stripEnd_cons (c : Char) (cs : List Char) :
    stripEnd (c :: cs) = if isBlankText (c :: cs) then [] else c :: stripEnd cs := by
  split
  · next h => exact stripEnd_of_isBlankText h
  · next h =>
    rw [stripEnd, stripEnd, List.reverse_cons]
    by_cases hcs : isBlankText cs = true
    · have hrev : ∀ d ∈ cs.reverse, isBlank d = true := fun d hd =>
        List.all_eq_true.1 hcs d (List.mem_reverse.1 hd)
      have hc : ¬ isBlank c = true := by
        intro hc
        exact h (by rw [isBlankText_cons, hc, hcs]; rfl)
      rw [List.dropWhile_append_of_pos hrev, List.dropWhile_cons_of_neg hc,
        List.dropWhile_eq_nil_iff.2 hrev]
      rfl
    · have hne : cs.reverse.dropWhile isBlank ≠ [] := by
        intro he
        refine hcs (List.all_eq_true.2 fun d hd => ?_)
        exact List.dropWhile_eq_nil_iff.1 he d (List.mem_reverse.2 hd)
      rw [List.dropWhile_append, if_neg (by simpa [List.isEmpty_iff] using hne),
        List.reverse_append]
      rfl

theorem stripEnd_cons_of_not_isBlank {c : Char} (h : isBlank c = false) (cs : List Char) :
    stripEnd (c :: cs) = c :: stripEnd cs := by
  rw [stripEnd_cons, isBlankText_cons, h]
  rfl

theorem exists_stripEnd_append (cs : List Char) :
    ∃ ws, isBlankText ws = true ∧ cs = stripEnd cs ++ ws := by
  refine ⟨(cs.reverse.takeWhile isBlank).reverse, ?_, ?_⟩
  · refine List.all_eq_true.2 fun c hc => ?_
    exact List.mem_takeWhile_imp (List.mem_reverse.1 hc)
  · rw [stripEnd, ← List.reverse_append, List.takeWhile_append_dropWhile, List.reverse_reverse]

theorem stripEnd_append_of_not_isBlank {run : List Char} (h : ∀ c ∈ run, isBlank c = false)
    (cs : List Char) : stripEnd (run ++ cs) = run ++ stripEnd cs := by
  induction run with
  | nil => rfl
  | cons c run ih =>
    obtain ⟨hc, hrun⟩ := List.forall_mem_cons.1 h
    rw [List.cons_append, stripEnd_cons_of_not_isBlank hc, ih hrun, List.cons_append]

/-! ## Stripping at both ends -/

theorem strip_cons_of_isBlank {c : Char} (h : isBlank c = true) (cs : List Char) :
    strip (c :: cs) = strip cs := by
  rw [strip, stripStart_cons_of_isBlank h, strip]

theorem strip_cons_of_not_isBlank {c : Char} (h : isBlank c = false) (cs : List Char) :
    strip (c :: cs) = c :: stripEnd cs := by
  rw [strip, stripStart_cons_of_not_isBlank h, stripEnd_cons_of_not_isBlank h]

theorem strip_eq_nil {cs : List Char} : strip cs = [] ↔ isBlankText cs = true := by
  induction cs with
  | nil => exact ⟨fun _ => rfl, fun _ => rfl⟩
  | cons c cs ih =>
    rw [isBlankText_cons]
    cases h : isBlank c with
    | true => rw [strip_cons_of_isBlank h, ih, Bool.true_and]
    | false =>
      rw [strip_cons_of_not_isBlank h, Bool.false_and]
      exact ⟨nofun, nofun⟩

theorem strip_append_blank (cs : List Char) {ws : List Char} (h : isBlankText ws = true) :
    strip (cs ++ ws) = strip cs := by
  induction cs with
  | nil =>
    rw [List.nil_append, strip_eq_nil.2 h]
    rfl
  | cons c cs ih =>
    rw [List.cons_append]
    cases hc : isBlank c with
    | true => rw [strip_cons_of_isBlank hc, strip_cons_of_isBlank hc, ih]
    | false =>
      rw [strip_cons_of_not_isBlank hc, strip_cons_of_not_isBlank hc, stripEnd_append_blank _ h]

theorem strip_append_of_isBlank {ws : List Char} (h : ∀ c ∈ ws, isBlank c = true)
    (cs : List Char) : strip (ws ++ cs) = strip cs := by
  rw [strip, stripStart, List.dropWhile_append_of_pos h, strip, stripStart]

theorem strip_stripEnd (cs : List Char) : strip (stripEnd cs) = strip cs := by
  induction cs with
  | nil => rfl
  | cons c cs ih =>
    rw [stripEnd_cons]
    split
    · next h =>
      rw [strip_eq_nil.2 h]
      rfl
    · cases hc : isBlank c with
      | true => rw [strip_cons_of_isBlank hc, strip_cons_of_isBlank hc, ih]
      | false =>
        have hend : stripEnd (stripEnd cs) = stripEnd cs := List.rdropWhile_idempotent isBlank cs
        rw [strip_cons_of_not_isBlank hc, strip_cons_of_not_isBlank hc, hend]

theorem strip_strip (cs : List Char) : strip (strip cs) = strip cs := by
  have hstart : strip (stripStart cs) = strip cs := by
    rw [strip, stripStart, stripStart, List.dropWhile_idempotent, strip, stripStart]
  calc strip (strip cs) = strip (stripStart cs) := strip_stripEnd (stripStart cs)
    _ = strip cs := hstart

theorem infix_strip (cs : List Char) : strip cs <:+: cs := by
  have hend : stripEnd (stripStart cs) <+: stripStart cs := List.rdropWhile_prefix _ _
  exact hend.isInfix.trans (List.dropWhile_suffix _).isInfix

/-! ## Dividing -/

theorem not_mem_of_mem_splitAt {sep : Char} {cs part : List Char} (h : part ∈ splitAt sep cs) :
    sep ∉ part := by
  induction cs generalizing part with
  | nil =>
    obtain rfl := List.mem_singleton.1 h
    exact List.not_mem_nil
  | cons c cs ih =>
    unfold splitAt at h
    split at h
    · rcases List.mem_cons.1 h with rfl | h
      · exact List.not_mem_nil
      · exact ih h
    · next hc =>
      split at h
      · next hnil => exact absurd hnil (splitAt_ne_nil sep cs)
      · next line rest hsplit =>
        rw [hsplit] at ih
        rcases List.mem_cons.1 h with rfl | h
        · intro hmem
          rcases List.mem_cons.1 hmem with he | hmem
          · exact hc he.symm
          · exact ih List.mem_cons_self hmem
        · exact ih (List.mem_cons_of_mem _ h)

theorem splitAt_eq_singleton {sep : Char} {cs : List Char} (h : sep ∉ cs) :
    splitAt sep cs = [cs] := by
  induction cs with
  | nil => rfl
  | cons c cs ih =>
    obtain ⟨hc, hcs⟩ := not_or.1 (mt List.mem_cons.2 h)
    rw [splitAt, if_neg (Ne.symm hc), ih hcs]

theorem splitAt_intercalate {sep : Char} {part : List Char} {parts : List (List Char)}
    (h : ∀ p ∈ part :: parts, sep ∉ p) :
    splitAt sep ([sep].intercalate (part :: parts)) = part :: parts := by
  induction parts generalizing part with
  | nil => simpa using splitAt_eq_singleton (h part List.mem_cons_self)
  | cons next parts ih =>
    obtain ⟨hpart, hparts⟩ := List.forall_mem_cons.1 h
    have hjoin : [sep].intercalate (part :: next :: parts) =
        part ++ sep :: [sep].intercalate (next :: parts) := by
      simp
    rw [hjoin, splitAt_append, splitAt_eq_singleton hpart, ih hparts]
    rfl

/-! ## Lines -/

theorem lines_cons_newline (cs : List Char) : lines ('\n' :: cs) = [] :: lines cs :=
  rfl

/-- The first line and the others. -/
theorem exists_lines (cs : List Char) : ∃ first more, lines cs = first :: more := by
  match h : lines cs with
  | [] => exact absurd h (splitAt_ne_nil '\n' cs)
  | first :: more => exact ⟨first, more, rfl⟩

theorem lines_cons {c : Char} (hc : c ≠ '\n') {cs first : List Char} {more : List (List Char)}
    (h : lines cs = first :: more) : lines (c :: cs) = (c :: first) :: more := by
  have hsplit : splitAt '\n' cs = first :: more := h
  rw [lines, splitAt, if_neg hc, hsplit]

theorem unlines_cons (line : List Char) {ls : List (List Char)} (h : ls ≠ []) :
    unlines (line :: ls) = line ++ '\n' :: unlines ls := by
  rw [unlines, joinWith, List.append_assoc]
  · rfl
  · exact h

theorem unlines_append_first (a first : List Char) (more : List (List Char)) :
    unlines ((a ++ first) :: more) = a ++ unlines (first :: more) := by
  cases more with
  | nil => rfl
  | cons next more =>
    rw [unlines_cons _ (List.cons_ne_nil _ _), unlines_cons _ (List.cons_ne_nil _ _),
      List.append_assoc]

/-- What holds of a line, and of a text with one more line in front of it, holds of every text. -/
@[elab_as_elim]
theorem lines_induction {motive : List Char → Prop} (last : ∀ cs, '\n' ∉ cs → motive cs)
    (next : ∀ line cs, '\n' ∉ line → motive cs → motive (line ++ '\n' :: cs)) (cs : List Char) :
    motive cs := by
  by_cases h : '\n' ∈ cs
  · obtain ⟨line, rest, hcs, hline⟩ := List.eq_append_cons_of_mem h
    rw [hcs]
    exact next line rest hline (lines_induction last next rest)
  · exact last cs h
termination_by cs.length
decreasing_by
  rw [hcs, List.length_append, List.length_cons]
  omega

/-- Texts put together as lines are divided one by one. -/
theorem lines_unlines (part : List Char) (parts : List (List Char)) :
    lines (unlines (part :: parts)) = (part :: parts).flatMap lines := by
  induction parts generalizing part with
  | nil => simp only [unlines, joinWith, List.flatMap_singleton]
  | cons next parts ih =>
    rw [unlines_cons part (List.cons_ne_nil _ _), lines_append, ih]
    rfl

/-! ## Replacing a character -/

/-- A text with every `x` replaced. -/
def replaceEach (x : Char) (new cs : List Char) : List Char :=
  cs.flatMap fun c => if c = x then new else [c]

theorem replaceEach_cons_self (x : Char) (new cs : List Char) :
    replaceEach x new (x :: cs) = new ++ replaceEach x new cs := by
  rw [replaceEach, List.flatMap_cons, if_pos rfl, replaceEach]

theorem replaceEach_cons_of_ne {c x : Char} (h : c ≠ x) (new cs : List Char) :
    replaceEach x new (c :: cs) = c :: replaceEach x new cs := by
  rw [replaceEach, List.flatMap_cons, if_neg h, List.singleton_append, replaceEach]

theorem head?_replaceEach {x : Char} {new : List Char} (h : new.head? = some x) (cs : List Char) :
    (replaceEach x new cs).head? = cs.head? := by
  cases cs with
  | nil => rfl
  | cons c cs =>
    by_cases hc : c = x
    · rw [hc, replaceEach_cons_self, List.head?_append, h]
      rfl
    · rw [replaceEach_cons_of_ne hc, List.head?_cons, List.head?_cons]

end ApiDoc.Text
