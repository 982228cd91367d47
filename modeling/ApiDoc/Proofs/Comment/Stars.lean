import Mathlib.Data.List.Forall2
import ApiDoc.Comment.Block
import ApiDoc.Proofs.Text.Classes
import ApiDoc.Proofs.Text.Strip

/-!
# Decoration line by line

Decoration is taken off a text as a whole, in one pass from left to right. The pass never looks
beyond a line feed and takes at most one decoration off a line, so that the lines of a text can be
treated one by one. A carriage return starts no line.

* `Decoration`, `Pass`: what is taken off, and the pass over a text.
* `pass_iff`: the pass leaves exactly what `stripStars` does.
* `stripStars_append_newline`, `lines_stripStars`: a text by its lines.
* `stripStars_line_by_line`: what becomes of each line.
-/

namespace ApiDoc.Comment

open Text

/-! ## The shape of a decoration -/

/-- Blanks within a line and a star. -/
def Starred (cs : List Char) : Prop :=
  ∃ blanks rest, cs = blanks ++ '*' :: rest ∧ ∀ b ∈ blanks, isInlineBlank b = true

/-- Blanks within a line, a star, and one more such blank unless none follows: the decoration in
front of `rest`. -/
inductive Decoration : (decoration rest : List Char) → Prop where
  | spaced {blanks rest : List Char} {c : Char} (hblanks : ∀ b ∈ blanks, isInlineBlank b = true)
      (hc : isInlineBlank c = true) : Decoration (blanks ++ ['*', c]) rest
  | bare {blanks rest : List Char} (hblanks : ∀ b ∈ blanks, isInlineBlank b = true)
      (hrest : ∀ c ∈ rest.head?, isInlineBlank c = false) : Decoration (blanks ++ ['*']) rest

theorem Starred.exists_decoration {cs : List Char} (h : Starred cs) :
    ∃ d rest, cs = d ++ rest ∧ Decoration d rest := by
  obtain ⟨blanks, rest, rfl, hblanks⟩ := h
  have hsplit : blanks ++ '*' :: rest = (blanks ++ ['*']) ++ rest := by
    rw [List.append_assoc, List.singleton_append]
  cases rest with
  | nil => exact ⟨_, [], hsplit, .bare hblanks nofun⟩
  | cons c rest =>
    cases hc : isInlineBlank c with
    | true =>
      refine ⟨blanks ++ ['*', c], rest, ?_, .spaced hblanks hc⟩
      rw [List.append_assoc]
      rfl
    | false =>
      refine ⟨_, c :: rest, hsplit, .bare hblanks fun d hd => ?_⟩
      obtain rfl := Option.some.inj hd
      exact hc

theorem Decoration.dropStar_eq {d rest : List Char} (h : Decoration d rest) :
    dropStar (d ++ rest) = rest := by
  cases h with
  | @spaced blanks _ c hblanks hc =>
    have hdrop : (blanks ++ ['*', c] ++ rest).dropWhile isInlineBlank = '*' :: c :: rest := by
      rw [List.append_assoc, List.dropWhile_append_of_pos hblanks]
      rfl
    rw [dropStar, hdrop]
    exact if_pos hc
  | @bare blanks _ hblanks hrest =>
    have hdrop : (blanks ++ ['*'] ++ rest).dropWhile isInlineBlank = '*' :: rest := by
      rw [List.append_assoc, List.dropWhile_append_of_pos hblanks]
      rfl
    rw [dropStar, hdrop]
    cases rest with
    | nil => rfl
    | cons c rest => exact if_neg (by rw [hrest c rfl]; exact Bool.false_ne_true)

theorem dropStar_of_not_starred {cs : List Char} (h : ¬ Starred cs) : dropStar cs = cs := by
  have hstar : ∀ rest, cs.dropWhile isInlineBlank ≠ '*' :: rest := by
    intro rest hdrop
    refine h ⟨cs.takeWhile isInlineBlank, rest, ?_, fun b hb => List.mem_takeWhile_imp hb⟩
    rw [← hdrop, List.takeWhile_append_dropWhile]
  unfold dropStar
  split
  · next hdrop => exact absurd hdrop (hstar _)
  · next hdrop => exact absurd hdrop (hstar _)
  · rfl

/-- A decoration does not end with a line feed. -/
theorem Decoration.getLast?_ne {d rest : List Char} (h : Decoration d rest) :
    ∃ c, d.getLast? = some c ∧ c ≠ '\n' := by
  cases h with
  | @spaced blanks _ c _ hc =>
    refine ⟨c, by simp, ?_⟩
    rintro rfl
    exact absurd hc (by decide)
  | @bare blanks _ _ _ => exact ⟨'*', by simp, by decide⟩

/-! ## At a line feed -/

theorem Starred.of_append_newline {a b : List Char} (h : Starred (a ++ '\n' :: b)) :
    Starred a := by
  obtain ⟨blanks, rest, he, hblanks⟩ := h
  rcases List.append_eq_append_iff.1 he with ⟨more, rfl, hmore⟩ | ⟨more, rfl, hmore⟩
  · -- the line feed is the star, or one of the blanks before it
    cases more with
    | nil => exact absurd (List.cons.inj hmore).1 (by decide)
    | cons c more =>
      obtain rfl := (List.cons.inj hmore).1
      exact absurd (hblanks '\n' (by simp)) (by decide)
  · cases more with
    | nil => exact absurd (List.cons.inj hmore).1 (by decide)
    | cons c more =>
      obtain rfl := (List.cons.inj hmore).1
      exact ⟨blanks, more, rfl, hblanks⟩

theorem Decoration.append_newline {d rest : List Char} (h : Decoration d rest) (b : List Char) :
    Decoration d (rest ++ '\n' :: b) := by
  cases h with
  | spaced hblanks hc => exact .spaced hblanks hc
  | bare hblanks hrest =>
    refine .bare hblanks fun c hc => ?_
    cases rest with
    | nil =>
      obtain rfl := Option.some.inj hc
      rfl
    | cons d rest => exact hrest c hc

theorem dropStar_append_newline (a b : List Char) :
    dropStar (a ++ '\n' :: b) = dropStar a ++ '\n' :: b := by
  by_cases h : Starred a
  · obtain ⟨d, rest, rfl, hd⟩ := h.exists_decoration
    rw [hd.dropStar_eq, List.append_assoc, (hd.append_newline b).dropStar_eq]
  · rw [dropStar_of_not_starred h, dropStar_of_not_starred (mt Starred.of_append_newline h)]

theorem stripStarsInside_nil : stripStarsInside [] = [] := by
  rw [stripStarsInside]

theorem stripStarsInside_newline (cs : List Char) :
    stripStarsInside ('\n' :: cs) = '\n' :: stripStars cs := by
  rw [stripStarsInside]
  rfl

theorem stripStarsInside_cons {c : Char} (h : c ≠ '\n') (cs : List Char) :
    stripStarsInside (c :: cs) = c :: stripStarsInside cs := by
  rw [stripStarsInside, if_neg h]

theorem stripStarsInside_append_newline (a b : List Char) :
    stripStarsInside (a ++ '\n' :: b) = stripStarsInside a ++ '\n' :: stripStars b := by
  fun_induction stripStarsInside a with
  | case1 => exact stripStarsInside_newline b
  | case2 rest _ ih =>
    rw [List.cons_append, stripStarsInside_newline, stripStars, dropStar_append_newline, ih,
      List.cons_append]
  | case3 c rest hc ih =>
    rw [List.cons_append, stripStarsInside_cons hc, ih, List.cons_append]

/-- A line feed divides a text for good. -/
theorem stripStars_append_newline (a b : List Char) :
    stripStars (a ++ '\n' :: b) = stripStars a ++ '\n' :: stripStars b := by
  rw [stripStars, dropStar_append_newline, stripStarsInside_append_newline]
  rfl

/-! ## Line by line -/

theorem suffix_dropStar (line : List Char) : dropStar line <:+ line := by
  by_cases h : Starred line
  · obtain ⟨d, rest, rfl, hd⟩ := h.exists_decoration
    rw [hd.dropStar_eq]
    exact List.suffix_append d rest
  · simp only [dropStar_of_not_starred h, List.suffix_rfl]

theorem stripStars_of_notMem {line : List Char} (h : '\n' ∉ line) :
    stripStars line = dropStar line := by
  have hinside : ∀ cs : List Char, '\n' ∉ cs → stripStarsInside cs = cs := by
    intro cs hcs
    induction cs with
    | nil => exact stripStarsInside_nil
    | cons c cs ih =>
      obtain ⟨hc, hmore⟩ := not_or.1 (mt List.mem_cons.2 hcs)
      rw [stripStarsInside_cons (Ne.symm hc), ih hmore]
  exact hinside _ fun hmem => h ((suffix_dropStar line).mem hmem)

theorem lines_stripStars (cs : List Char) : lines (stripStars cs) = (lines cs).map dropStar := by
  have hsingle : ∀ line : List Char, '\n' ∉ line →
      lines (stripStars line) = (lines line).map dropStar := by
    intro line hline
    have hdropped : '\n' ∉ dropStar line := fun hmem => hline ((suffix_dropStar line).mem hmem)
    rw [stripStars_of_notMem hline, lines, splitAt_eq_singleton hdropped, lines,
      splitAt_eq_singleton hline, List.map_singleton]
  induction cs using lines_induction with
  | last cs h => exact hsingle cs h
  | next line cs h ih =>
    rw [stripStars_append_newline, lines_append, lines_append, List.map_append, hsingle line h, ih]

/-- A line, and the same line without the decoration at its start if there is one. -/
inductive Undecorated : (line bare : List Char) → Prop where
  | starred {d rest : List Char} (h : Decoration d rest) : Undecorated (d ++ rest) rest
  | plain {line : List Char} (h : ¬ Starred line) : Undecorated line line

theorem undecorated_dropStar (line : List Char) : Undecorated line (dropStar line) := by
  by_cases h : Starred line
  · obtain ⟨d, rest, rfl, hd⟩ := h.exists_decoration
    rw [hd.dropStar_eq]
    exact .starred hd
  · rw [dropStar_of_not_starred h]
    exact .plain h

/-! ## The pass over a text -/

/-- A line starts behind this character; behind none, the text does. -/
def StartsLine (previous : Option Char) : Prop :=
  ∀ c ∈ previous, c = '\n'

/-- One pass from left to right. At each place that the pass comes to it takes off the decoration
that is there, provided that a line starts at this place, and goes on behind it; else it keeps the
next character. -/
inductive Pass : (previous : Option Char) → (cs out : List Char) → Prop where
  | stop {previous : Option Char} : Pass previous [] []
  | keep {previous : Option Char} {c : Char} {cs out : List Char}
      (h : ¬ (StartsLine previous ∧ Starred (c :: cs))) (next : Pass (some c) cs out) :
      Pass previous (c :: cs) (c :: out)
  | erase {previous : Option Char} {d rest out : List Char} (hstart : StartsLine previous)
      (hd : Decoration d rest) (next : Pass d.getLast? rest out) : Pass previous (d ++ rest) out

theorem Decoration.not_startsLine {d rest : List Char} (h : Decoration d rest) :
    ¬ StartsLine d.getLast? := by
  obtain ⟨c, hlast, hc⟩ := h.getLast?_ne
  intro hstart
  exact hc (hstart c hlast)

/-- The pass tries again behind a decoration, but never at the start of a line there. -/
theorem Pass.eq {previous : Option Char} {cs out : List Char} (h : Pass previous cs out) :
    (StartsLine previous → out = stripStars cs) ∧
      (¬ StartsLine previous → out = stripStarsInside cs) := by
  induction h with
  | stop => exact ⟨fun _ => stripStarsInside_nil.symm, fun _ => stripStarsInside_nil.symm⟩
  | @keep previous c cs out h _ ih =>
    have hinside : c :: out = stripStarsInside (c :: cs) := by
      by_cases hc : c = '\n'
      · subst hc
        rw [stripStarsInside_newline, ih.1 fun d hd => (Option.some.inj hd).symm]
      · rw [stripStarsInside_cons hc, ih.2 fun hstart => hc (hstart c rfl)]
    refine ⟨fun hstart => ?_, fun _ => hinside⟩
    rw [stripStars, dropStar_of_not_starred fun hstarred => h ⟨hstart, hstarred⟩, hinside]
  | erase hstart hd _ ih =>
    refine ⟨fun _ => ?_, fun hnot => absurd hstart hnot⟩
    rw [stripStars, hd.dropStar_eq, ih.2 hd.not_startsLine]

theorem exists_pass (previous : Option Char) (cs : List Char) : ∃ out, Pass previous cs out := by
  by_cases h : StartsLine previous ∧ Starred cs
  · obtain ⟨hstart, hstarred⟩ := h
    obtain ⟨d, rest, hcs, hd⟩ := hstarred.exists_decoration
    obtain ⟨out, hpass⟩ := exists_pass d.getLast? rest
    exact ⟨out, hcs ▸ .erase hstart hd hpass⟩
  · match cs, h with
    | [], _ => exact ⟨[], .stop⟩
    | c :: cs, h =>
      obtain ⟨out, hpass⟩ := exists_pass (some c) cs
      exact ⟨c :: out, .keep h hpass⟩
termination_by cs.length
decreasing_by
  · obtain ⟨c, hlast, -⟩ := hd.getLast?_ne
    have hpos : 0 < d.length := List.length_pos_of_mem (List.mem_of_getLast? hlast)
    rw [hcs, List.length_append]
    omega
  · simp

theorem pass_iff {cs out : List Char} : Pass none cs out ↔ out = stripStars cs := by
  have hstart : StartsLine none := nofun
  constructor
  · intro h
    exact h.eq.1 hstart
  · rintro rfl
    obtain ⟨out, hpass⟩ := exists_pass none cs
    rwa [hpass.eq.1 hstart] at hpass

/-- **Decoration goes line by line.** A pass over a text that takes off every decoration it comes to
leaves the text that `stripStars` gives, and nothing else. That text has as many lines as the one
before, and each of them is the line at its place, without blanks, star and one more blank if it
starts with blanks and a star, and else as it was. So a text that is divided at a line feed may be
treated in parts. -/
theorem stripStars_line_by_line (text : List Char) :
    (∀ out, Pass none text out ↔ out = stripStars text) ∧
    (lines (stripStars text)).length = (lines text).length ∧
    List.Forall₂ Undecorated (lines text) (lines (stripStars text)) ∧
    ∀ more, stripStars (text ++ '\n' :: more) = stripStars text ++ '\n' :: stripStars more := by
  refine ⟨fun out => pass_iff, ?_, ?_, stripStars_append_newline text⟩
  · rw [lines_stripStars, List.length_map]
  · rw [lines_stripStars, List.forall₂_map_right_iff, List.forall₂_same]
    exact fun line _ => undecorated_dropStar line

end ApiDoc.Comment
