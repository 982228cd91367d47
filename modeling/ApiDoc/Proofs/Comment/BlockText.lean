import ApiDoc.Proofs.Comment.Stars
import ApiDoc.Proofs.Comment.TagSource

/-!
# Reading written blocks

A text is written as a block with ` * ` before each of its lines, between a line with the opener
and one with the closing delimiter. The star that ends the block stands behind a line feed and a
blank, so no line of the text can take part in it.

* `decorate`: the decoration character by character, `unlines_map_star` line by line.
* `partsOf_framed`: the empty first line and the blank last line of a block say nothing.
* `Inside.stripStars_body`, `readToClose?_decorate`: what a block holds and where it ends.
* `extract_fileText`: a file of blocks with other text before, between and behind them.
-/

namespace ApiDoc.Comment

open Text

/-! ## The frame of a block -/

/-- The blank last line of a block, with the line feed before it. -/
def lastLine : List Char := ['\n', ' ']

theorem leadingText_cons_empty (lead : List (List Char)) :
    leadingText ([] :: lead) = leadingText lead := by
  by_cases h : lead = []
  · subst h
    rfl
  · rw [leadingText, unlines_cons [] h, List.nil_append, strip_cons_of_isBlank rfl, leadingText]

theorem partsOf_cons_newline (cs : List Char) : partsOf ('\n' :: cs) = partsOf cs := by
  have hempty : isMarkerLine [] = false := rfl
  unfold partsOf
  rw [lines_cons_newline, divide]
  simp only [hempty, Bool.false_eq_true, if_false, leadingText_cons_empty]

/-- The empty first line and the blank last line of a block say nothing. -/
theorem partsOf_framed (cs : List Char) :
    partsOf ('\n' :: (cs ++ lastLine)) = partsOf cs := by
  rw [partsOf_cons_newline, partsOf_append_blank (by decide)]

/-! ## Decoration -/

/-- The decoration at the start of a line. -/
def star : List Char := [' ', '*', ' ']

/-- A text with the decoration behind each line feed. -/
def decorate (cs : List Char) : List Char :=
  replaceEach '\n' ('\n' :: star) cs

theorem decorate_cons_newline (cs : List Char) :
    decorate ('\n' :: cs) = '\n' :: (star ++ decorate cs) :=
  replaceEach_cons_self '\n' _ cs

theorem decorate_cons {c : Char} (h : c ≠ '\n') (cs : List Char) :
    decorate (c :: cs) = c :: decorate cs :=
  replaceEach_cons_of_ne h _ cs

theorem head?_decorate (cs : List Char) : (decorate cs).head? = cs.head? :=
  head?_replaceEach rfl cs

/-- Decoration line by line. -/
theorem unlines_map_star (cs : List Char) :
    unlines ((lines cs).map (star ++ ·)) = star ++ decorate cs := by
  induction cs with
  | nil => rfl
  | cons c cs ih =>
    obtain ⟨first, more, hlines⟩ := exists_lines cs
    by_cases h : c = '\n'
    · subst h
      have hne : (lines cs).map (star ++ ·) ≠ [] := by
        rw [hlines]
        exact List.cons_ne_nil _ _
      rw [lines_cons_newline, List.map_cons, unlines_cons _ hne, ih, decorate_cons_newline,
        List.append_nil]
    · have hrest : unlines (first :: more.map (star ++ ·)) = decorate cs := by
        rw [hlines, List.map_cons, unlines_append_first] at ih
        exact List.append_cancel_left ih
      rw [lines_cons h hlines, List.map_cons, unlines_append_first, decorate_cons h, ← hrest]
      exact congrArg _ (unlines_append_first [c] first _)

theorem dropStar_star (cs : List Char) : dropStar (star ++ cs) = cs :=
  rfl

theorem stripStarsInside_lastLine : stripStarsInside lastLine = lastLine := by
  have hblank : dropStar [' '] = [' '] := rfl
  rw [lastLine, stripStarsInside_newline, stripStars, hblank, stripStarsInside_cons (by decide),
    stripStarsInside_nil]

theorem stripStarsInside_decorate (cs tail : List Char) :
    stripStarsInside (decorate cs ++ tail) = cs ++ stripStarsInside tail := by
  induction cs with
  | nil => rfl
  | cons c cs ih =>
    by_cases h : c = '\n'
    · subst h
      rw [decorate_cons_newline, List.cons_append, List.append_assoc, stripStarsInside_newline,
        stripStars, dropStar_star, ih, List.cons_append]
    · rw [decorate_cons h, List.cons_append, stripStarsInside_cons h, ih, List.cons_append]

/-! ## Blocks -/

/-- A text that can stand inside a block. -/
structure Inside where
  chars : List Char
  no_close : ¬ ['*', '/'] <:+: chars

/-- A text in which no block starts. -/
structure Outside where
  chars : List Char
  no_open : ¬ ['/', '*'] <:+: chars

/-- What a block holds between its delimiters. -/
def Inside.body (t : Inside) : List Char :=
  '\n' :: (unlines ((lines t.chars).map (star ++ ·)) ++ lastLine)

/-- The text as a block. -/
def Inside.block (t : Inside) : List Char :=
  ['/', '*', '*'] ++ t.body ++ ['*', '/']

theorem Inside.body_eq (t : Inside) :
    t.body = '\n' :: (star ++ (decorate t.chars ++ lastLine)) := by
  rw [Inside.body, unlines_map_star, List.append_assoc]

theorem Inside.stripStars_body (t : Inside) :
    stripStars t.body = '\n' :: (t.chars ++ lastLine) := by
  have hfirst : dropStar t.body = t.body := rfl
  rw [stripStars, hfirst, t.body_eq, stripStarsInside_newline, stripStars, dropStar_star,
    stripStarsInside_decorate, stripStarsInside_lastLine]

theorem partsOf_body (t : Inside) : partsOf (stripStars t.body) = partsOf t.chars := by
  rw [t.stripStars_body, partsOf_framed]

theorem readToClose?_cons {c : Char} {cs : List Char} (h : c ≠ '*' ∨ cs.head? ≠ some '/') :
    readToClose? (c :: cs) = (readToClose? cs).map fun r => (c :: r.1, r.2) := by
  refine readToClose?.eq_2 c cs fun rest hc hcs => ?_
  subst hc hcs
  rcases h with h | h
  · exact h rfl
  · exact h rfl

theorem readToClose?_star (cs : List Char) :
    readToClose? (star ++ cs) = (readToClose? cs).map fun r => (star ++ r.1, r.2) := by
  have hstep : readToClose? (star ++ cs) = readToClose? (' ' :: '*' :: ' ' :: cs) := rfl
  rw [hstep, readToClose?_cons (Or.inl (by decide)), readToClose?_cons (Or.inr (by simp)),
    readToClose?_cons (Or.inl (by decide)), Option.map_map, Option.map_map]
  rfl

/-- No decoration and no line of the text ends the block. -/
theorem readToClose?_decorate {cs tail : List Char} (h : ¬ ['*', '/'] <:+: cs)
    (htail : tail.head? ≠ some '/') :
    readToClose? (decorate cs ++ tail) =
      (readToClose? tail).map fun r => (decorate cs ++ r.1, r.2) := by
  induction cs with
  | nil =>
    have hnil : decorate [] = [] := rfl
    simp [hnil]
  | cons c cs ih =>
    have hinner : ¬ ['*', '/'] <:+: cs := fun hi => h (hi.trans (List.suffix_cons c cs).isInfix)
    by_cases hc : c = '\n'
    · subst hc
      rw [decorate_cons_newline, List.cons_append, List.append_assoc,
        readToClose?_cons (Or.inl (by decide)), readToClose?_star, ih hinner, Option.map_map,
        Option.map_map]
      rfl
    · have hnext : c ≠ '*' ∨ (decorate cs ++ tail).head? ≠ some '/' := by
        by_cases hstar : c = '*'
        · subst hstar
          -- a star of the text is followed by its next character, or by the line feed of the frame
          refine Or.inr ?_
          cases cs with
          | nil => exact htail
          | cons d cs =>
            rw [List.head?_append, head?_decorate]
            intro hd
            obtain rfl := Option.some.inj hd
            exact h ⟨[], cs, rfl⟩
        · exact Or.inl hstar
      rw [decorate_cons hc, List.cons_append, readToClose?_cons hnext, ih hinner, Option.map_map]
      rfl

theorem Inside.readToClose?_body (t : Inside) (rest : List Char) :
    readToClose? (t.body ++ '*' :: '/' :: rest) = some (t.body, rest) := by
  have hlast : readToClose? (lastLine ++ '*' :: '/' :: rest) = some (lastLine, rest) := rfl
  have htail : (lastLine ++ '*' :: '/' :: rest).head? ≠ some '/' := by
    intro he
    exact absurd (Option.some.inj he) (by decide)
  rw [t.body_eq]
  simp only [List.cons_append, List.append_assoc]
  rw [readToClose?_cons (Or.inl (by decide)), readToClose?_star,
    readToClose?_decorate t.no_close htail, hlast]
  rfl

/-! ## Files -/

theorem Mode.opener?_eq_none (mode : Mode) {cs : List Char}
    (h : ∀ rest, cs ≠ '/' :: '*' :: rest) : mode.opener? cs = none := by
  unfold Mode.opener?
  split
  · rfl
  · exact absurd rfl (h _)
  · exact absurd rfl (h _)
  · rfl

theorem Mode.blocks_of_none {mode : Mode} {c : Char} {cs : List Char}
    (h : mode.readBlock? (c :: cs) = none) : mode.blocks (c :: cs) = mode.blocks cs := by
  rw [Mode.blocks]
  split
  · rfl
  · next he =>
    rw [h] at he
    cases he

theorem Mode.blocks_of_some {mode : Mode} {cs rest : List Char} {b : Block}
    (h : mode.readBlock? cs = some (b, rest)) : mode.blocks cs = b :: mode.blocks rest := by
  cases cs with
  | nil => cases mode <;> cases h
  | cons c cs =>
    rw [Mode.blocks]
    split
    · next he =>
      rw [h] at he
      cases he
    · next he =>
      rw [h] at he
      cases he
      rfl

/-- Text outside of blocks is passed over, also where a slash at its end stands before the slash
of an opener. -/
theorem Mode.blocks_outside (mode : Mode) {gap rest : List Char} (h : ¬ ['/', '*'] <:+: gap)
    (hrest : rest.head? ≠ some '*') : mode.blocks (gap ++ rest) = mode.blocks rest := by
  induction gap with
  | nil => rfl
  | cons c gap ih =>
    have hinner : ¬ ['/', '*'] <:+: gap := fun hi => h (hi.trans (List.suffix_cons c gap).isInfix)
    -- an opener would lie inside the gap, or start with the last character of the gap
    have hopen : ∀ more, c :: (gap ++ rest) ≠ '/' :: '*' :: more := by
      intro more he
      obtain ⟨rfl, hmore⟩ := List.cons.inj he
      cases gap with
      | nil =>
        rw [List.nil_append] at hmore
        exact hrest (by rw [hmore]; rfl)
      | cons d gap =>
        obtain ⟨rfl, -⟩ := List.cons.inj hmore
        exact h ⟨[], gap, rfl⟩
    have hnone : mode.readBlock? (c :: (gap ++ rest)) = none := by
      rw [Mode.readBlock?, mode.opener?_eq_none hopen]
    rw [List.cons_append, Mode.blocks_of_none hnone, ih hinner]

theorem Mode.blocks_block (mode : Mode) (t : Inside) (rest : List Char) :
    mode.blocks (t.block ++ rest) = ⟨['/', '*', '*'], t.body⟩ :: mode.blocks rest := by
  have hopen : mode.opener? (t.block ++ rest) =
      some (['/', '*', '*'], t.body ++ '*' :: '/' :: rest) := by
    have htext : t.block ++ rest = ['/', '*', '*'] ++ (t.body ++ '*' :: '/' :: rest) := by
      simp only [Inside.block, List.append_assoc, List.cons_append, List.nil_append]
    rw [htext]
    cases mode <;> rfl
  refine Mode.blocks_of_some ?_
  rw [Mode.readBlock?, hopen]
  simp only [t.readToClose?_body]

/-- A file of blocks with other text before, between and behind them. -/
def fileText (before : Outside) (blocks : List (Inside × Outside)) : List Char :=
  before.chars ++ blocks.flatMap fun p => p.1.block ++ p.2.chars

theorem Mode.blocks_fileText (mode : Mode) (before : Outside) (blocks : List (Inside × Outside)) :
    mode.blocks (fileText before blocks) =
      blocks.map fun p => ⟨['/', '*', '*'], p.1.body⟩ := by
  induction blocks generalizing before with
  | nil =>
    rw [fileText, List.flatMap_nil, mode.blocks_outside before.no_open (by simp), Mode.blocks]
    rfl
  | cons p blocks ih =>
    have hmore := ih p.2
    rw [fileText, List.flatMap_cons, List.append_assoc,
      mode.blocks_outside before.no_open (by simp [Inside.block]), mode.blocks_block]
    exact congrArg _ hmore

/-- **Round trip of blocks.** In either mode, the comments of a file of written blocks are just
these blocks in order, each with the content of its text. -/
theorem extract_fileText (mode : Mode) (before : Outside) (blocks : List (Inside × Outside)) :
    extract mode (String.ofList (fileText before blocks)) =
      blocks.map fun p =>
        { source := String.ofList p.1.block
          content := parseContent (String.ofList p.1.chars) } := by
  rw [extract, String.toList_ofList, mode.blocks_fileText, List.map_map]
  refine List.map_congr_left fun p _ => ?_
  have hcontent : partsOf (stripStars p.1.body) = parseContent (String.ofList p.1.chars) := by
    rw [partsOf_body, parseContent, String.toList_ofList]
  rw [Function.comp_apply, ofBlock, hcontent]
  rfl

example (t : Inside) (h : t.chars = "one\n * two".toList) :
    t.block = "/**\n * one\n *  * two\n */".toList := by
  rw [Inside.block, Inside.body, h]
  decide

end ApiDoc.Comment
