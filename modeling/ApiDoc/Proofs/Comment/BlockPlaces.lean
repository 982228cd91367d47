import Mathlib.Data.List.Sort
import ApiDoc.Proofs.Comment.BlockText

/-!
# Blocks and their places

Both modes search a text from left to right and go on behind each block they find. A doc block is
also a block of the wider mode where that mode looks for one, but the wider mode does not look
inside a block that it has found already. So it can pass over a doc block that starts inside a
plain block (`doc_comment_inside_plain`), even with the slash that closes one.

* `Mode.mem_found_or_covered`: where a block can be read, it is found, unless a block that was found
  before runs over the place.
* `Mode.pairwise_found`: the blocks that are found do not overlap.
* `extract_any_of_uncovered`: which doc comments the wider mode finds as well.
-/

namespace ApiDoc.Comment

/-! ## Finding with places -/

/-- A block and the place where it starts. -/
structure Found where
  start : Nat
  block : Block
deriving Repr, DecidableEq, Inhabited

namespace Found

/-- The place behind the block. -/
def stop (a : Found) : Nat :=
  a.start + a.block.source.length

/-- Does the block run over a place behind its start? -/
def Covers (a : Found) (place : Nat) : Prop :=
  a.start < place ∧ place < a.stop

instance (a : Found) (place : Nat) : Decidable (a.Covers place) :=
  inferInstanceAs (Decidable (_ ∧ _))

/-- The comment of the block. -/
def comment (a : Found) : Comment :=
  ofBlock a.block

theorem start_lt_stop (a : Found) : a.start < a.stop := by
  have hpos : 0 < a.block.source.length := by
    unfold Block.source
    rw [List.length_append, List.length_cons]
    omega
  unfold stop
  omega

end Found

/-- The blocks of a text that starts at the given place, each with its own place. -/
def Mode.found (mode : Mode) (start : Nat) (cs : List Char) : List Found :=
  match cs with
  | [] => []
  | c :: rest =>
    match h : mode.readBlock? (c :: rest) with
    | none => mode.found (start + 1) rest
    | some (b, after) =>
      have : after.length < (c :: rest).length := Mode.length_readBlock? h
      ⟨start, b⟩ :: mode.found (start + b.source.length) after
termination_by cs.length
decreasing_by all_goals (simp only [List.length_cons] at *; omega)

theorem Mode.map_block_found (mode : Mode) (start : Nat) (cs : List Char) :
    (mode.found start cs).map Found.block = mode.blocks cs := by
  fun_induction Mode.found mode start cs with
  | case1 start => rw [Mode.blocks]; rfl
  | case2 start c rest h ih => rw [ih, Mode.blocks_of_none h]
  | case3 start c rest b after h _ ih => rw [List.map_cons, ih, Mode.blocks_of_some h]

theorem extract_eq_map_found (mode : Mode) (source : String) :
    extract mode source = (mode.found 0 source.toList).map Found.comment := by
  rw [extract, ← mode.map_block_found 0, List.map_map]
  rfl

/-! ## What is found -/

theorem Mode.start_le_of_mem_found {mode : Mode} {start : Nat} {cs : List Char} {a : Found}
    (h : a ∈ mode.found start cs) : start ≤ a.start := by
  fun_induction Mode.found mode start cs with
  | case1 start => exact absurd h List.not_mem_nil
  | case2 start c rest _ ih =>
    have := ih h
    omega
  | case3 start c rest b after _ _ ih =>
    rcases List.mem_cons.1 h with rfl | h
    · exact Nat.le_refl _
    · have := ih h
      omega

/-- The blocks that are found do not overlap. -/
theorem Mode.pairwise_found (mode : Mode) (start : Nat) (cs : List Char) :
    (mode.found start cs).Pairwise fun a b => a.stop ≤ b.start := by
  fun_induction Mode.found mode start cs with
  | case1 start => exact List.Pairwise.nil
  | case2 start c rest _ ih => exact ih
  | case3 start c rest b after _ _ ih =>
    refine List.pairwise_cons.2 ⟨?_, ih⟩
    intro a ha
    exact Mode.start_le_of_mem_found ha

/-- A block that is found can be read at its place. -/
theorem Mode.readBlock?_of_mem_found {mode : Mode} {start : Nat} {cs : List Char} {a : Found}
    (h : a ∈ mode.found start cs) :
    ∃ n rest, a.start = start + n ∧ mode.readBlock? (cs.drop n) = some (a.block, rest) := by
  fun_induction Mode.found mode start cs with
  | case1 start => exact absurd h List.not_mem_nil
  | case2 start c cs _ ih =>
    obtain ⟨n, rest, hstart, hread⟩ := ih h
    exact ⟨n + 1, rest, by omega, hread⟩
  | case3 start c cs b after hb _ ih =>
    rcases List.mem_cons.1 h with rfl | h
    · exact ⟨0, after, rfl, hb⟩
    · obtain ⟨n, rest, hstart, hread⟩ := ih h
      refine ⟨b.source.length + n, rest, by omega, ?_⟩
      rw [Mode.readBlock?_append hb, ← List.drop_drop, List.drop_left]
      exact hread

/-- A block that can be read is found, unless another one that was found runs over its place. -/
theorem Mode.mem_found_or_covered {mode : Mode} {cs rest : List Char} {n : Nat} {b : Block}
    (start : Nat) (h : mode.readBlock? (cs.drop n) = some (b, rest)) :
    ⟨start + n, b⟩ ∈ mode.found start cs ∨ ∃ a ∈ mode.found start cs, a.Covers (start + n) := by
  fun_induction Mode.found mode start cs generalizing n with
  | case1 start =>
    rw [List.drop_nil] at h
    cases mode <;> cases h
  | case2 start c cs hnone ih =>
    cases n with
    | zero =>
      rw [List.drop_zero, hnone] at h
      cases h
    | succ n =>
      have hstart : start + (n + 1) = start + 1 + n := by omega
      rw [hstart]
      exact ih h
  | case3 start c cs b' after hb' _ ih =>
    have hcs := Mode.readBlock?_append hb'
    by_cases hzero : n = 0
    · subst hzero
      rw [List.drop_zero, hb'] at h
      obtain ⟨rfl, -⟩ := Prod.mk.inj (Option.some.inj h)
      exact Or.inl List.mem_cons_self
    · by_cases hinside : n < b'.source.length
      · refine Or.inr ⟨⟨start, b'⟩, List.mem_cons_self, ?_, ?_⟩
        · show start < start + n
          omega
        · show start + n < start + b'.source.length
          omega
      · obtain ⟨m, rfl⟩ := Nat.exists_eq_add_of_le (Nat.le_of_not_lt hinside)
        rw [hcs, ← List.drop_drop, List.drop_left] at h
        rw [← Nat.add_assoc]
        rcases ih h with hmem | ⟨a, ha, hcovers⟩
        · exact Or.inl (List.mem_cons_of_mem _ hmem)
        · exact Or.inr ⟨a, List.mem_cons_of_mem _ ha, hcovers⟩

theorem apart_of_pairwise {found : List Found} (h : found.Pairwise fun a b => a.stop ≤ b.start)
    {a b : Found} (ha : a ∈ found) (hb : b ∈ found) :
    a = b ∨ a.stop ≤ b.start ∨ b.stop ≤ a.start := by
  induction found with
  | nil => exact absurd ha List.not_mem_nil
  | cons c found ih =>
    obtain ⟨hc, hfound⟩ := List.pairwise_cons.1 h
    rcases List.mem_cons.1 ha with rfl | ha'
    · rcases List.mem_cons.1 hb with rfl | hb'
      · exact Or.inl rfl
      · exact Or.inr (Or.inl (hc b hb'))
    · rcases List.mem_cons.1 hb with rfl | hb'
      · exact Or.inr (Or.inr (hc a ha'))
      · exact ih hfound ha' hb'

theorem Mode.not_covers_of_mem_found {mode : Mode} {start : Nat} {cs : List Char} {a b : Found}
    (ha : a ∈ mode.found start cs) (hb : b ∈ mode.found start cs) : ¬ b.Covers a.start := by
  rintro ⟨hlt, hstop⟩
  have hstart := a.start_lt_stop
  rcases apart_of_pairwise (mode.pairwise_found start cs) ha hb with rfl | h | h
  · omega
  · omega
  · omega

/-! ## From the narrower mode to the wider one -/

theorem opener?_any_of_doc {cs : List Char} {r : List Char × List Char}
    (h : Mode.doc.opener? cs = some r) : Mode.any.opener? cs = some r := by
  unfold Mode.opener? at h ⊢
  split at h
  · cases h
  · exact h
  · next hmode => cases hmode
  · cases h

theorem readBlock?_any_of_doc {cs : List Char} {r : Block × List Char}
    (h : Mode.doc.readBlock? cs = some r) : Mode.any.readBlock? cs = some r := by
  unfold Mode.readBlock? at h ⊢
  cases ho : Mode.doc.opener? cs with
  | none =>
    rw [ho] at h
    cases h
  | some p =>
    rw [ho] at h
    rw [opener?_any_of_doc ho]
    exact h

theorem opener?_doc_of_any {cs rest : List Char}
    (h : Mode.any.opener? cs = some (['/', '*', '*'], rest)) :
    Mode.doc.opener? cs = some (['/', '*', '*'], rest) := by
  unfold Mode.opener? at h ⊢
  split at h
  · cases h
  · exact h
  · cases h
  · cases h

theorem readBlock?_doc_of_any {cs rest : List Char} {b : Block}
    (h : Mode.any.readBlock? cs = some (b, rest)) (hb : b.opener = ['/', '*', '*']) :
    Mode.doc.readBlock? cs = some (b, rest) := by
  unfold Mode.readBlock? at h ⊢
  cases ho : Mode.any.opener? cs with
  | none =>
    rw [ho] at h
    cases h
  | some p =>
    obtain ⟨opener, inside⟩ := p
    rw [ho] at h
    have hopener : opener = ['/', '*', '*'] := by
      rw [← hb]
      cases hclose : readToClose? inside with
      | none =>
        simp only [hclose] at h
        cases h
      | some q =>
        simp only [hclose] at h
        cases h
        rfl
    subst hopener
    rw [opener?_doc_of_any ho]
    exact h

section

variable (cs : List Char)

/-- A doc block is a block of the wider mode exactly where no block of that mode runs over its
start. -/
theorem mem_any_iff_uncovered {a : Found} (ha : a ∈ Mode.doc.found 0 cs) :
    a ∈ Mode.any.found 0 cs ↔ ∀ b ∈ Mode.any.found 0 cs, ¬ b.Covers a.start := by
  constructor
  · intro h b hb
    exact Mode.not_covers_of_mem_found h hb
  · intro h
    obtain ⟨n, rest, hstart, hread⟩ := Mode.readBlock?_of_mem_found ha
    rcases Mode.mem_found_or_covered 0 (readBlock?_any_of_doc hread) with hmem | ⟨b, hb, hcovers⟩
    · rw [← hstart] at hmem
      exact hmem
    · rw [← hstart] at hcovers
      exact absurd hcovers (h b hb)

theorem Mode.start_lt_found (mode : Mode) :
    (mode.found 0 cs).Pairwise fun a b => a.start < b.start := by
  apply (mode.pairwise_found 0 cs).imp
  intro a b h
  have := a.start_lt_stop
  omega

/-- What two searches have in common stands in one order in both. -/
theorem filter_mem_comm (mode mode' : Mode) :
    (mode.found 0 cs).filter (fun a => a ∈ mode'.found 0 cs) =
      (mode'.found 0 cs).filter (fun a => a ∈ mode.found 0 cs) := by
  have hirrefl : Std.Irrefl fun a b : Found => a.start < b.start := ⟨fun a => Nat.lt_irrefl _⟩
  have hantisymm : Std.Antisymm fun a b : Found => a.start < b.start :=
    ⟨fun a b hab hba => absurd hab (Nat.lt_asymm hba)⟩
  refine ((mode.start_lt_found cs).filter _).eq_of_mem_iff ((mode'.start_lt_found cs).filter _) ?_
  intro a
  simp only [List.mem_filter, decide_eq_true_eq]
  exact and_comm

end

theorem Mode.found_of_none {mode : Mode} {c : Char} {cs : List Char}
    (h : mode.readBlock? (c :: cs) = none) (start : Nat) :
    mode.found start (c :: cs) = mode.found (start + 1) cs := by
  rw [Mode.found]
  split
  · rfl
  · next he =>
    rw [h] at he
    cases he

theorem Mode.found_of_some {mode : Mode} {c : Char} {cs rest : List Char} {b : Block}
    (h : mode.readBlock? (c :: cs) = some (b, rest)) (start : Nat) :
    mode.found start (c :: cs) = ⟨start, b⟩ :: mode.found (start + b.source.length) rest := by
  rw [Mode.found]
  split
  · next he =>
    rw [h] at he
    cases he
  · next he =>
    rw [h] at he
    cases he
    rfl

/-- Where the wider mode finds doc blocks only, the modes agree. -/
theorem found_doc_eq_any (start : Nat) (cs : List Char)
    (h : ∀ a ∈ Mode.any.found start cs, a.block.opener = ['/', '*', '*']) :
    Mode.doc.found start cs = Mode.any.found start cs := by
  generalize hmode : Mode.any = mode at h ⊢
  fun_induction Mode.found mode start cs with
  | case1 start => rw [Mode.found]
  | case2 start c rest hnone ih =>
    subst hmode
    have hdoc : Mode.doc.readBlock? (c :: rest) = none := by
      cases hd : Mode.doc.readBlock? (c :: rest) with
      | none => rfl
      | some r =>
        rw [readBlock?_any_of_doc hd] at hnone
        cases hnone
    rw [Mode.found_of_none hdoc]
    exact ih h
  | case3 start c rest b after hb _ ih =>
    subst hmode
    obtain ⟨hopener, hmore⟩ := List.forall_mem_cons.1 h
    rw [Mode.found_of_some (readBlock?_doc_of_any hb hopener), ih hmore]

/-- **What the wider mode keeps.** A doc comment is found by the wider mode as well, in the same
order, exactly when it does not start inside a block that this mode finds; where this mode finds no
plain block, the comments are the same. -/
theorem extract_any_of_uncovered (source : String) :
    let doc := Mode.doc.found 0 source.toList
    let any := Mode.any.found 0 source.toList
    extract .doc source = doc.map Found.comment ∧
    extract .any source = any.map Found.comment ∧
    (∀ a ∈ doc, a ∈ any ↔ ∀ b ∈ any, ¬ b.Covers a.start) ∧
    doc.filter (fun a => ∀ b ∈ any, ¬ b.Covers a.start) = any.filter (fun a => a ∈ doc) ∧
    ((doc.filter fun a => ∀ b ∈ any, ¬ b.Covers a.start).map Found.comment).Sublist
      (extract .any source) ∧
    ((∀ b ∈ any, b.block.opener = ['/', '*', '*']) → extract .doc source = extract .any source) := by
  intro doc any
  have hiff : ∀ a ∈ doc, a ∈ any ↔ ∀ b ∈ any, ¬ b.Covers a.start :=
    fun a ha => mem_any_iff_uncovered source.toList ha
  have hcommon : doc.filter (fun a => ∀ b ∈ any, ¬ b.Covers a.start) =
      any.filter (fun a => a ∈ doc) := by
    rw [← filter_mem_comm source.toList .doc .any]
    apply List.filter_congr
    intro a ha
    exact decide_eq_decide.2 (hiff a ha).symm
  have hany := extract_eq_map_found .any source
  refine ⟨extract_eq_map_found .doc source, hany, hiff, hcommon, ?_, ?_⟩
  · rw [hcommon, hany]
    exact List.filter_sublist.map Found.comment
  · intro hopeners
    rw [hany, extract_eq_map_found, found_doc_eq_any 0 source.toList hopeners]

/-- The second of two doc comments, of which a plain block runs over the first. -/
theorem uncovered_doc_comment_found :
    (⟨12, ⟨['/', '*', '*'], [' ', 'b', ' ']⟩⟩ : Found) ∈
        Mode.doc.found 0 "/* /** a */ /** b */".toList ∧
      (⟨12, ⟨['/', '*', '*'], [' ', 'b', ' ']⟩⟩ : Found) ∈
        Mode.any.found 0 "/* /** a */ /** b */".toList := by
  have hdoc : Mode.doc.found 0 "/* /** a */ /** b */".toList =
      [⟨3, ⟨['/', '*', '*'], [' ', 'a', ' ']⟩⟩, ⟨12, ⟨['/', '*', '*'], [' ', 'b', ' ']⟩⟩] := by
    decide +kernel
  have hany : Mode.any.found 0 "/* /** a */ /** b */".toList =
      [⟨0, ⟨['/', '*'], [' ', '/', '*', '*', ' ', 'a', ' ']⟩⟩,
        ⟨12, ⟨['/', '*', '*'], [' ', 'b', ' ']⟩⟩] := by
    decide +kernel
  have hmem : (⟨12, ⟨['/', '*', '*'], [' ', 'b', ' ']⟩⟩ : Found) ∈
      Mode.doc.found 0 "/* /** a */ /** b */".toList := by
    rw [hdoc]
    decide
  refine ⟨hmem, ((extract_any_of_uncovered "/* /** a */ /** b */").2.2.1 _ hmem).2 ?_⟩
  rw [hany]
  decide

/-- A doc block inside a plain block is lost in the wider mode. -/
theorem doc_comment_inside_plain :
    ¬ (extract .doc "/* /** a */").Sublist (extract .any "/* /** a */") := by
  have hdoc : extract .doc "/* /** a */" = [⟨"/** a */", [.text "a"]⟩] := by decide +kernel
  have hany : extract .any "/* /** a */" = [⟨"/* /** a */", [.text "/** a"]⟩] := by decide +kernel
  rw [hdoc, hany]
  decide

end ApiDoc.Comment
