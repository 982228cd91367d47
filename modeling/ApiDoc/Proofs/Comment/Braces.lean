import ApiDoc.Comment.Content

/-!
# Balanced braces

What stands between braces goes up to the brace that closes the first one. The reader finds it by
counting; here it is said by balance: the text between the two closes every brace that it opens, and
no other.

* `closes_open`, `closes_close`, `closes_cons`: balance character by character.
* `readToBrace?_split`, `readToBrace?_append`: what is read, with some braces already open.
* `readBraced?_eq_some_iff`: a text is read between braces exactly if it is balanced.
* `Braced.unique`, `Braced.of_append`: what stands between braces is fixed by the text up to there.
-/

namespace ApiDoc.Comment

/-! ## Balance -/

/-- With `depth` braces open before it, the text closes only braces that are open, and leaves none
open. -/
def Closes (depth : Nat) (cs : List Char) : Prop :=
  (∀ front back, cs = front ++ back → front.count '}' ≤ depth + front.count '{') ∧
    cs.count '}' = depth + cs.count '{'

/-- The text closes every brace that it opens, and no other. -/
abbrev Balanced (cs : List Char) : Prop :=
  Closes 0 cs

theorem closes_iff_take {depth : Nat} {cs : List Char} :
    Closes depth cs ↔
      (∀ n ≤ cs.length, (cs.take n).count '}' ≤ depth + (cs.take n).count '{') ∧
        cs.count '}' = depth + cs.count '{' := by
  refine and_congr_left fun _ => ⟨fun h n _ => ?_, fun h front back hcs => ?_⟩
  · exact h _ (cs.drop n) (List.take_append_drop n cs).symm
  · have hlength : front.length ≤ cs.length := by
      rw [hcs, List.length_append]
      omega
    have hfront := h front.length hlength
    rwa [hcs, List.take_left] at hfront

instance (depth : Nat) (cs : List Char) : Decidable (Closes depth cs) :=
  decidable_of_iff _ closes_iff_take.symm

/-- A character in front of a text, for every kind of character: the counts of the two braces have
to go on as the depth does. -/
theorem closes_cons_iff {depth d : Nat} {c : Char} {cs : List Char}
    (hcount : ∀ front : List Char, (c :: front).count '}' + d + front.count '{' =
      front.count '}' + depth + (c :: front).count '{') :
    Closes depth (c :: cs) ↔ Closes d cs := by
  have hall := hcount cs
  constructor
  · intro h
    refine ⟨?_, ?_⟩
    · rintro front back rfl
      have hfront := h.1 (c :: front) back rfl
      have := hcount front
      omega
    · have := h.2
      omega
  · intro h
    refine ⟨?_, ?_⟩
    · intro front back hcs
      cases front with
      | nil => exact Nat.zero_le _
      | cons c' front =>
        obtain ⟨rfl, rfl⟩ := List.cons.inj hcs
        have hfront := h.1 front back rfl
        have := hcount front
        omega
    · have := h.2
      omega

theorem closes_open {depth : Nat} {cs : List Char} :
    Closes depth ('{' :: cs) ↔ Closes (depth + 1) cs := by
  refine closes_cons_iff fun front => ?_
  rw [List.count_cons_of_ne (by decide), List.count_cons_self]
  omega

theorem closes_close {depth : Nat} {cs : List Char} :
    Closes depth ('}' :: cs) ↔ ∃ d, depth = d + 1 ∧ Closes d cs := by
  have hstep : ∀ d, Closes (d + 1) ('}' :: cs) ↔ Closes d cs := fun d => by
    refine closes_cons_iff fun front => ?_
    rw [List.count_cons_self, List.count_cons_of_ne (by decide)]
    omega
  constructor
  · intro h
    have hpos : 1 ≤ depth := h.1 ['}'] cs rfl
    obtain ⟨d, rfl⟩ := Nat.exists_eq_add_of_le' hpos
    exact ⟨d, rfl, (hstep d).1 h⟩
  · rintro ⟨d, rfl, h⟩
    exact (hstep d).2 h

theorem closes_cons {depth : Nat} {c : Char} {cs : List Char} (hopen : c ≠ '{')
    (hclose : c ≠ '}') : Closes depth (c :: cs) ↔ Closes depth cs := by
  refine closes_cons_iff fun front => ?_
  rw [List.count_cons_of_ne hclose, List.count_cons_of_ne hopen]

/-! ## Reading up to the closing brace -/

/-- What is read closes the braces that are open, and ends right before a brace. -/
theorem readToBrace?_split {depth : Nat} {cs inner rest : List Char}
    (h : readToBrace? depth cs = some (inner, rest)) :
    cs = inner ++ '}' :: rest ∧ Closes depth inner := by
  fun_induction readToBrace? depth cs generalizing inner rest with
  | case1 => cases h
  | case2 depth cs ih =>
    obtain ⟨⟨inner', rest'⟩, hread, he⟩ := Option.map_eq_some_iff.1 h
    cases he
    obtain ⟨rfl, hinner⟩ := ih hread
    exact ⟨rfl, closes_open.2 hinner⟩
  | case3 cs =>
    cases h
    exact ⟨rfl, by decide⟩
  | case4 cs d _ ih =>
    obtain ⟨⟨inner', rest'⟩, hread, he⟩ := Option.map_eq_some_iff.1 h
    cases he
    obtain ⟨rfl, hinner⟩ := ih hread
    exact ⟨rfl, closes_close.2 ⟨d, rfl, hinner⟩⟩
  | case5 depth c cs hopen hclose ih =>
    obtain ⟨⟨inner', rest'⟩, hread, he⟩ := Option.map_eq_some_iff.1 h
    cases he
    obtain ⟨rfl, hinner⟩ := ih hread
    exact ⟨rfl, (closes_cons hopen hclose).2 hinner⟩

/-- A text that closes the braces that are open is read up to the brace after it. -/
theorem readToBrace?_append {depth : Nat} {cs : List Char} (h : Closes depth cs)
    (rest : List Char) : readToBrace? depth (cs ++ '}' :: rest) = some (cs, rest) := by
  induction cs generalizing depth with
  | nil =>
    have hdepth : depth = 0 := by simpa using h.2.symm
    subst hdepth
    rfl
  | cons c cs ih =>
    rw [List.cons_append, readToBrace?.eq_def]
    simp only
    by_cases hopen : c = '{'
    · subst hopen
      rw [if_pos rfl, ih (closes_open.1 h)]
      rfl
    · rw [if_neg hopen]
      by_cases hclose : c = '}'
      · subst hclose
        obtain ⟨d, rfl, hd⟩ := closes_close.1 h
        simp only [if_true, ih hd, Option.map_some]
      · rw [if_neg hclose, ih ((closes_cons hopen hclose).1 h)]
        rfl

/-! ## Between braces -/

/-- A text starts with a balanced text between braces. -/
def Braced (cs inner rest : List Char) : Prop :=
  cs = '{' :: (inner ++ '}' :: rest) ∧ Balanced inner

instance (cs inner rest : List Char) : Decidable (Braced cs inner rest) :=
  inferInstanceAs (Decidable (_ ∧ _))

theorem readBraced?_eq_some_iff {cs inner rest : List Char} :
    readBraced? cs = some (inner, rest) ↔ Braced cs inner rest := by
  constructor
  · intro h
    unfold readBraced? at h
    split at h
    · obtain ⟨rfl, hinner⟩ := readToBrace?_split h
      exact ⟨rfl, hinner⟩
    · cases h
  · rintro ⟨rfl, h⟩
    exact readToBrace?_append h rest

theorem readBraced?_eq_none_iff {cs : List Char} :
    readBraced? cs = none ↔ ¬ ∃ inner rest, Braced cs inner rest := by
  simp only [Option.eq_none_iff_forall_ne_some, Prod.forall, ne_eq, readBraced?_eq_some_iff,
    not_exists]

/-- No text starts with two of them. -/
theorem Braced.unique {cs a b r s : List Char} (ha : Braced cs a r) (hb : Braced cs b s) :
    a = b ∧ r = s := by
  have hread := readBraced?_eq_some_iff.2 ha
  rw [readBraced?_eq_some_iff.2 hb] at hread
  cases hread
  exact ⟨rfl, rfl⟩

theorem Braced.append {cs inner rest : List Char} (h : Braced cs inner rest) (more : List Char) :
    Braced (cs ++ more) inner (rest ++ more) := by
  obtain ⟨rfl, hinner⟩ := h
  refine ⟨?_, hinner⟩
  rw [List.cons_append, List.append_assoc, List.cons_append]

/-- A text without closing braces takes no part in what stands between braces before it. -/
theorem Braced.of_append {cs more inner rest : List Char} (h : Braced (cs ++ more) inner rest)
    (hmore : '}' ∉ more) : ∃ rest', Braced cs inner rest' := by
  obtain ⟨hcs, hinner⟩ := h
  have hsplit : cs ++ more = ('{' :: inner) ++ '}' :: rest := by rw [hcs, List.cons_append]
  rcases List.append_eq_append_iff.1 hsplit with ⟨front, -, hmore'⟩ | ⟨back, rfl, hrest⟩
  · exact absurd (hmore' ▸ List.mem_append_right front List.mem_cons_self) hmore
  · cases back with
    | nil =>
      rw [List.nil_append] at hrest
      exact absurd (hrest ▸ List.mem_cons_self) hmore
    | cons c back =>
      obtain rfl := (List.cons.inj hrest).1
      exact ⟨back, by rw [List.cons_append], hinner⟩

end ApiDoc.Comment
