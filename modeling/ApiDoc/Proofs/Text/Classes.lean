import ApiDoc.Text.Blank
import ApiDoc.Text.Digit
import ApiDoc.Text.Word

/-!
# Classes of characters that exclude each other

There are few blanks, so that a statement about all of them is settled by looking at each
(`forall_blank`). Letters and digits of any script are no blanks, and ASCII letters are no digits.
Where a run of one class ends is `span_append`.
-/

namespace ApiDoc.Text

/-- A run of one class ends where a character of another comes. -/
theorem span_append {p : Char → Bool} {run rest : List Char} (hrun : ∀ c ∈ run, p c = true)
    (hrest : ∀ c ∈ rest.head?, p c = false) :
    (run ++ rest).takeWhile p = run ∧ (run ++ rest).dropWhile p = rest := by
  rw [List.takeWhile_append_of_pos hrun, List.dropWhile_append_of_pos hrun]
  cases rest with
  | nil => simp
  | cons c cs => simp [hrest c rfl]

theorem of_mem_head?_dropWhile {p : Char → Bool} {cs : List Char} {c : Char}
    (h : c ∈ (cs.dropWhile p).head?) : p c = false := by
  have hstop := List.head?_dropWhile_not p cs
  rw [Option.mem_def.1 h] at hstop
  simpa using hstop

/-- What is decided for each character of a list holds of all of them. -/
theorem forall_mem_of_all {P : Char → Prop} [DecidablePred P] {cs : List Char}
    (h : cs.all (fun c => decide (P c)) = true) : ∀ c ∈ cs, P c := by
  intro c hc
  exact of_decide_eq_true (List.all_eq_true.1 h c hc)

/-- The code points of the blanks. -/
def blankCodes : List Nat :=
  List.range' 9 5 ++ List.range' 28 5 ++ [0x85, 0xA0, 0x1680] ++ List.range' 0x2000 11 ++
    [0x2028, 0x2029, 0x202F, 0x205F, 0x3000]

theorem toNat_mem_blankCodes {c : Char} (h : isBlank c = true) : c.toNat ∈ blankCodes := by
  simp only [isBlank, Bool.or_eq_true, Bool.and_eq_true, decide_eq_true_eq, beq_iff_eq] at h
  simp only [blankCodes, List.mem_append, List.mem_range'_1, List.mem_cons, List.not_mem_nil,
    or_false]
  omega

/-- What holds of every blank by its code point holds of every blank. -/
theorem forall_blank {P : Char → Prop} (h : ∀ n ∈ blankCodes, P (Char.ofNat n)) {c : Char}
    (hc : isBlank c = true) : P c := by
  have := h c.toNat (toNat_mem_blankCodes hc)
  rwa [Char.ofNat_toNat] at this

theorem isBlank_eq_false {p : Char → Bool} (h : ∀ n ∈ blankCodes, p (Char.ofNat n) = false)
    {c : Char} (hc : p c = true) : isBlank c = false := by
  rw [Bool.eq_false_iff]
  intro hb
  have := forall_blank (P := fun c => p c = false) h hb
  rw [hc] at this
  cases this

theorem isBlank_eq_false_of_isDigit {c : Char} (h : isDigit c = true) : isBlank c = false :=
  isBlank_eq_false (p := isDigit) (by decide +kernel) h

theorem isBlank_eq_false_of_isAsciiLetter {c : Char} (h : isAsciiLetter c = true) :
    isBlank c = false :=
  isBlank_eq_false (p := isAsciiLetter) (by decide) h

theorem inRanges_eq_any (table : Array (Nat × Nat)) (c : Char) :
    inRanges table c = table.toList.any fun r => r.1 ≤ c.toNat && c.toNat ≤ r.2 := by
  rw [inRanges, Array.any_toList]

theorem isWord_eq_false_of_isBlank {c : Char} (h : isBlank c = true) : isWord c = false := by
  have hcodes : ∀ n ∈ blankCodes, isWord (Char.ofNat n) = false := by
    -- over the list, since every look into the array passes over all before it
    simp only [isWord, inRanges_eq_any]
    decide +kernel
  exact forall_blank (P := fun c => isWord c = false) hcodes h

theorem isInlineBlank_eq_false {c : Char} (h : isBlank c = false) : isInlineBlank c = false := by
  simp [isInlineBlank, h]

theorem toNat_of_isAsciiLetter {c : Char} (h : isAsciiLetter c = true) :
    65 ≤ c.toNat ∧ c.toNat < 128 := by
  have hle : ∀ a b : Char, a ≤ b ↔ a.toNat ≤ b.toNat := fun _ _ => Iff.rfl
  simp only [isAsciiLetter, Bool.or_eq_true, Bool.and_eq_true, decide_eq_true_eq, hle] at h
  have : 'a'.toNat = 97 := rfl
  have : 'z'.toNat = 122 := rfl
  have : 'A'.toNat = 65 := rfl
  have : 'Z'.toNat = 90 := rfl
  omega

theorem isDigit_eq_false_of_isAsciiLetter {c : Char} (h : isAsciiLetter c = true) :
    isDigit c = false := by
  obtain ⟨hletter, hascii⟩ := toNat_of_isAsciiLetter h
  have hle : c ≤ '9' ↔ c.toNat ≤ 57 := Iff.rfl
  rw [isDigit, if_pos hascii, Bool.and_eq_false_iff]
  right
  rw [decide_eq_false_iff_not, hle]
  omega

theorem isWord_of_isAsciiLetter {c : Char} (h : isAsciiLetter c = true) : isWord c = true := by
  rw [isWord, if_pos (toNat_of_isAsciiLetter h).2, h]
  rfl

end ApiDoc.Text
