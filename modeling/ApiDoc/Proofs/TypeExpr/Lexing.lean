import ApiDoc.Proofs.Text.Classes
import ApiDoc.Proofs.TypeExpr.Grammar

/-!
# The tokens of a written type

A name, a number or a dot ends only where what follows cannot continue it (`Lexeme.Ends`); other
marks, dots in threes and strings end by themselves. In the written form of a type every name and
every number is followed by a mark, a blank or nothing (`Stops`), so the lexer finds exactly its
words again.

* `Readable`: the lexer takes this word and leaves what follows.
* `Spelled`: every word of a row of pieces is readable where it stands.
* `tokensFrom_charsOf`: the tokens of a spelled row are its words at their places.
* `Ty.spelled_pieces`: the written form of a type is spelled.
* `Ty.tokens_written`: so its tokens are its words.
-/

namespace ApiDoc.TypeExpr

open Text

/-! ## Where words end -/

/-- Nothing follows that would continue a name or a number. -/
def Stops : List Char → Prop
  | [] => True
  | c :: _ => isNamePart c = false ∧ isDigit c = false ∧ c ≠ '.'

/-- What follows does not continue the word. -/
def Lexeme.Ends : Lexeme → List Char → Prop
  | .name _, c :: rest =>
    isNamePart c = false ∧ (c = '.' → ∀ d ∈ rest.head?, isNameStart d = false)
  | .number text, c :: rest =>
    isDigit c = false ∧ (c = '.' → '.' ∉ text.toList → ∀ d ∈ rest.head?, isDigit d = false)
  | .mark c, rest => ¬ (c = '.' ∧ ['.', '.'] <+: rest)
  | _, _ => True

theorem Stops.ends {rest : List Char} (h : Stops rest) (l : Lexeme) : l.Ends rest := by
  match l, rest, h with
  | .name _, [], _ | .number _, [], _ => trivial
  | .name _, _ :: _, ⟨hpart, _, hdot⟩ => exact ⟨hpart, fun he => absurd he hdot⟩
  | .number _, _ :: _, ⟨_, hdigit, hdot⟩ => exact ⟨hdigit, fun he => absurd he hdot⟩
  | .mark _, rest, h =>
    rintro ⟨-, tail, rfl⟩
    exact h.2.2 rfl
  | .ellipsis, _, _ | .quoted _, _, _ | .stop, _, _ => trivial

theorem readNameTail_of_ends {text : String} {rest : List Char} (h : (Lexeme.name text).Ends rest) :
    readNameTail rest = ([], rest) := by
  match rest, h with
  | [], _ => rfl
  | [c], ⟨hpart, _⟩ =>
    rw [readNameTail.eq_2 c [] (fun _ _ _ he => nomatch he)]
    simp [hpart]
  | c :: d :: cs, ⟨hpart, hdot⟩ =>
    by_cases hc : c = '.'
    · subst hc
      simp [readNameTail, hdot rfl d rfl]
    · rw [readNameTail.eq_2 _ _ (fun _ _ he => absurd he hc)]
      simp [hpart]

theorem readNameTail_append_of_isNamePart (part rest : List Char)
    (h : ∀ c ∈ part, isNamePart c = true) :
    readNameTail (part ++ rest) = (part ++ (readNameTail rest).1, (readNameTail rest).2) := by
  induction part with
  | nil => rfl
  | cons c cs ih =>
    have hc := h c List.mem_cons_self
    have hdot : c ≠ '.' := by
      rintro rfl
      exact absurd hc (by decide)
    rw [List.cons_append, readNameTail.eq_2 _ _ (fun _ _ he => absurd he hdot)]
    simp [hc, ih fun d hd => h d (List.mem_cons_of_mem _ hd)]

theorem readNameTail_dotted (is : List Ident) {rest : List Char}
    (h : readNameTail rest = ([], rest)) :
    readNameTail (is.flatMap (fun i => '.' :: i.chars) ++ rest) =
      (is.flatMap fun i => '.' :: i.chars, rest) := by
  induction is with
  | nil => exact h
  | cons i is ih =>
    simp only [List.flatMap_cons, Ident.chars, List.cons_append, List.append_assoc] at ih ⊢
    rw [readNameTail]
    simp only [i.first_ok, if_true]
    rw [readNameTail_append_of_isNamePart _ _ i.rest_ok, ih]

/-! ## Numbers and strings -/

theorem readDigits?_append_of_stops (ds : Digits) {rest : List Char}
    (h : ∀ c ∈ rest.head?, isDigit c = false) :
    readDigits? (ds.chars ++ rest) = some (ds.chars, rest) := by
  obtain ⟨htake, hdrop⟩ := span_append ds.digits h
  unfold readDigits?
  rw [htake, hdrop]
  split
  · next he => exact absurd he ds.ne_nil
  · rfl

theorem readDigits?_eq_none {cs : List Char} (h : ∀ c ∈ cs.head?, isDigit c = false) :
    readDigits? cs = none := by
  cases cs with
  | nil => rfl
  | cons c cs => simp [readDigits?, h c rfl]

theorem readUnsigned?_append_of_ends (whole : Digits) (fraction : Option Digits)
    {rest : List Char} (hdigit : ∀ c ∈ rest.head?, isDigit c = false)
    (hdot : fraction = none → ∀ tail, rest = '.' :: tail →
      ∀ d ∈ tail.head?, isDigit d = false) :
    readUnsigned? (whole.chars ++ (fraction.elim [] fun f => '.' :: f.chars) ++ rest) =
      some (whole.chars ++ (fraction.elim [] fun f => '.' :: f.chars), rest) := by
  unfold readUnsigned?
  cases fraction with
  | none =>
    simp only [Option.elim_none, List.append_nil]
    rw [readDigits?_append_of_stops whole hdigit]
    split
    · next he => cases he
    · next tail he =>
      obtain ⟨rfl, rfl⟩ := Prod.mk.inj (Option.some.inj he)
      rw [readDigits?_eq_none (hdot rfl tail rfl)]
    · rename_i he
      exact he.symm
  | some f =>
    simp only [Option.elim_some, List.append_assoc, List.cons_append]
    rw [readDigits?_append_of_stops whole (by simp; decide)]
    simp only [readDigits?_append_of_stops f hdigit]

theorem readNumber?_of_isDigit {c : Char} (h : isDigit c = true) (cs : List Char) :
    readNumber? (c :: cs) = readUnsigned? (c :: cs) := by
  have hne : c ≠ '-' := by
    rintro rfl
    exact absurd h (by decide)
  exact readNumber?.eq_2 _ (fun _ he => hne (List.cons.inj he).1)

theorem Numeral.dot_notMem_chars {k : Numeral} (h : k.fraction = none) : '.' ∉ k.chars := by
  have hwhole : '.' ∉ k.whole.chars := fun hmem => absurd (k.whole.digits _ hmem) (by decide)
  have hsign : '.' ∉ if k.negative then ['-'] else [] := by
    split
    · decide
    · exact List.not_mem_nil
  simp [Numeral.chars, h, hwhole, hsign]

theorem readNumber?_numeral (k : Numeral) {rest : List Char} (h : k.lexeme.Ends rest) :
    readNumber? (k.chars ++ rest) = some (k.chars, rest) := by
  have hdigit : ∀ c ∈ rest.head?, isDigit c = false := by
    intro c hc
    obtain ⟨cs, rfl⟩ := List.head?_eq_some_iff.1 hc
    exact h.1
  have hdot : k.fraction = none → ∀ tail, rest = '.' :: tail →
      ∀ d ∈ tail.head?, isDigit d = false := by
    rintro hnone tail rfl
    exact h.2 rfl (by simpa using k.dot_notMem_chars hnone)
  have hread := readUnsigned?_append_of_ends k.whole k.fraction hdigit hdot
  unfold Numeral.chars
  cases k.negative with
  | true =>
    simp only [if_true, List.cons_append, List.nil_append, readNumber?, hread, Option.map_some]
  | false =>
    simp only [Bool.false_eq_true, if_false, List.nil_append]
    obtain ⟨c, cs, hcs⟩ := List.exists_cons_of_ne_nil k.whole.ne_nil
    have hc := k.whole.digits c (by rw [hcs]; exact List.mem_cons_self)
    rw [hcs] at hread ⊢
    simp only [List.cons_append] at hread ⊢
    rw [readNumber?_of_isDigit hc, hread]

theorem readNumber?_eq_none {c : Char} (hminus : c ≠ '-') (hdigit : isDigit c = false)
    (cs : List Char) : readNumber? (c :: cs) = none := by
  rw [readNumber?.eq_2 _ (fun _ he => hminus (List.cons.inj he).1), readUnsigned?,
    readDigits?]
  simp [hdigit]

theorem readQuotedTail?_body {q : Char} (hq : q ≠ '\\') {body : List Char}
    (h : QuotedBody q body) (rest : List Char) :
    readQuotedTail? q (body ++ q :: rest) = some (body ++ [q], rest) := by
  induction h with
  | nil =>
    rw [List.nil_append, readQuotedTail?.eq_3 _ _ _ (fun _ _ he => absurd he hq)]
    simp
  | @plain c cs hne hback _ ih =>
    rw [List.cons_append,
      readQuotedTail?.eq_3 _ _ _ (fun _ _ he => absurd he hback)]
    simp [hne, hback, ih]
  | @escaped c cs hline _ ih =>
    simp [readQuotedTail?, hline, ih]

/-! ## Reading one word -/

/-- The lexer takes the word and leaves what follows it; the word starts with no blank. -/
structure Readable (l : Lexeme) (rest : List Char) : Prop where
  read : readLexeme? (l.text.toList ++ rest) = some (l, rest)
  start : ∀ c ∈ l.text.toList.head?, isBlank c = false

/-- What the lexer does with a text that starts neither with dots nor with a number. -/
theorem readLexeme?_cons {c : Char} {cs : List Char} (hdot : c ≠ '.')
    (hnumber : readNumber? (c :: cs) = none) :
    readLexeme? (c :: cs) =
      if c = '"' ∨ c = '\'' then
        (readQuotedTail? c cs).map fun r => (.quoted (String.ofList (c :: r.1)), r.2)
      else if isNameStart c then
        some (.name (String.ofList (c :: (readNameTail cs).1)), (readNameTail cs).2)
      else if isMark c then some (.mark c, cs)
      else none := by
  unfold readLexeme?
  split
  · next he => exact absurd (List.cons.inj he).1 hdot
  · rw [hnumber]

theorem isNameStart_cases {c : Char} (h : isNameStart c = true) :
    isAsciiLetter c = true ∨ c = '_' ∨ c = '$' := by
  simpa [isNameStart, or_assoc] using h

theorem isDigit_eq_false_of_isNameStart {c : Char} (h : isNameStart c = true) :
    isDigit c = false := by
  rcases isNameStart_cases h with hl | rfl | rfl
  · exact isDigit_eq_false_of_isAsciiLetter hl
  · rfl
  · rfl

theorem isBlank_eq_false_of_isNameStart {c : Char} (h : isNameStart c = true) :
    isBlank c = false := by
  rcases isNameStart_cases h with hl | rfl | rfl
  · exact isBlank_eq_false_of_isAsciiLetter hl
  · rfl
  · rfl

theorem ne_of_isNameStart {c d : Char} (h : isNameStart c = true) (hd : isNameStart d = false) :
    c ≠ d := by
  rintro rfl
  rw [h] at hd
  cases hd

theorem readable_name (n : DottedName) {rest : List Char} (h : n.lexeme.Ends rest) :
    Readable n.lexeme rest := by
  have hok := n.head.first_ok
  have hchars : n.lexeme.text.toList =
      n.head.first :: (n.head.rest ++ n.tail.flatMap fun i => '.' :: i.chars) := by
    rw [DottedName.lexeme, Lexeme.text, String.toList_ofList]
    rfl
  have htail : readNameTail (n.head.rest ++ (n.tail.flatMap fun i => '.' :: i.chars) ++ rest) =
      (n.head.rest ++ n.tail.flatMap fun i => '.' :: i.chars, rest) := by
    rw [List.append_assoc, readNameTail_append_of_isNamePart _ _ n.head.rest_ok,
      readNameTail_dotted n.tail (readNameTail_of_ends h)]
  constructor
  · rw [hchars, List.cons_append, readLexeme?_cons (ne_of_isNameStart hok (by decide))
      (readNumber?_eq_none (ne_of_isNameStart hok (by decide))
        (isDigit_eq_false_of_isNameStart hok) _), htail]
    simp only [ne_of_isNameStart hok (d := '"') (by decide),
      ne_of_isNameStart hok (d := '\'') (by decide), or_self, if_false, hok, if_true]
    rfl
  · intro c hc
    rw [hchars, List.head?_cons, Option.mem_some_iff] at hc
    exact hc ▸ isBlank_eq_false_of_isNameStart hok

theorem readable_numeral (k : Numeral) {rest : List Char} (h : k.lexeme.Ends rest) :
    Readable k.lexeme rest := by
  have hhead : ∃ c cs, k.chars = c :: cs ∧ (c = '-' ∨ isDigit c = true) := by
    obtain ⟨c, cs, hcs⟩ := List.exists_cons_of_ne_nil k.whole.ne_nil
    have hc := k.whole.digits c (by rw [hcs]; exact List.mem_cons_self)
    unfold Numeral.chars
    cases k.negative with
    | true => exact ⟨'-', _, rfl, Or.inl rfl⟩
    | false => exact ⟨c, _, by rw [hcs]; rfl, Or.inr hc⟩
  obtain ⟨c, cs, hcs, hc⟩ := hhead
  have hdot : c ≠ '.' := by
    rcases hc with rfl | hc
    · decide
    · rintro rfl
      exact absurd hc (by decide)
  constructor
  · simp only [Numeral.lexeme, Lexeme.text, String.toList_ofList]
    unfold readLexeme?
    split
    · next he =>
      rw [hcs] at he
      exact absurd (List.cons.inj he).1 hdot
    · rw [readNumber?_numeral k h]
  · intro d hd
    simp only [Numeral.lexeme, Lexeme.text, String.toList_ofList, hcs, List.head?_cons,
      Option.mem_some_iff] at hd
    subst hd
    rcases hc with rfl | hc
    · rfl
    · exact isBlank_eq_false_of_isDigit hc

theorem readable_literal (s : Literal) (rest : List Char) : Readable s.lexeme rest := by
  have hbody := readQuotedTail?_body (by rcases s.quote_ok with h | h <;> rw [h] <;> decide)
    s.body_ok rest
  constructor
  · simp only [Literal.lexeme, Lexeme.text, String.toList_ofList, Literal.chars, List.cons_append,
      List.append_assoc, List.nil_append]
    have hdot : s.quote ≠ '.' := by rcases s.quote_ok with h | h <;> rw [h] <;> decide
    have hminus : s.quote ≠ '-' := by rcases s.quote_ok with h | h <;> rw [h] <;> decide
    have hdigit : isDigit s.quote = false := by rcases s.quote_ok with h | h <;> rw [h] <;> rfl
    rw [readLexeme?_cons hdot (readNumber?_eq_none hminus hdigit _), if_pos s.quote_ok, hbody]
    rfl
  · intro c hc
    simp only [Literal.lexeme, Lexeme.text, String.toList_ofList, Literal.chars,
      List.head?_cons, Option.mem_some_iff] at hc
    subst hc
    rcases s.quote_ok with h | h <;> rw [h] <;> rfl

/-- The marks of written types. -/
def writtenMarks : List Char :=
  ['|', '<', '>', ',', '(', ')', '{', '}', ':', '?', '!', '=', '*']

theorem readable_mark {c : Char} (h : c ∈ writtenMarks) (rest : List Char) :
    Readable (.mark c) rest := by
  have hclass : ∀ d ∈ writtenMarks, d ≠ '.' ∧ d ≠ '-' ∧ isDigit d = false ∧
      ¬ (d = '"' ∨ d = '\'') ∧ isNameStart d = false ∧ isMark d = true ∧ isBlank d = false :=
    forall_mem_of_all (by decide +kernel)
  obtain ⟨hdot, hminus, hdigit, hquote, hname, hmark, hblank⟩ := hclass c h
  constructor
  · rw [Lexeme.text, String.toList_singleton, List.singleton_append,
      readLexeme?_cons hdot (readNumber?_eq_none hminus hdigit _), if_neg hquote, hname, hmark]
    rfl
  · intro d hd
    simp only [Lexeme.text, String.toList_singleton, List.head?_cons, Option.mem_some_iff] at hd
    exact hd ▸ hblank

theorem readable_ellipsis (rest : List Char) : Readable .ellipsis rest := by
  refine ⟨rfl, ?_⟩
  intro c hc
  obtain rfl := Option.some.inj hc
  rfl

/-! ## Rows of pieces -/

/-- Nothing follows, or one of the marks `cs` does. -/
def Follows (cs : List Char) (tail : List Piece) : Prop :=
  tail = [] ∨ ∃ c ∈ cs, ∃ more, tail = mark c :: more

theorem Follows.nil {cs : List Char} : Follows cs [] := Or.inl rfl

theorem follows_mark {cs : List Char} {c : Char} (h : c ∈ cs) (more : List Piece) :
    Follows cs (mark c :: more) :=
  Or.inr ⟨c, h, more, rfl⟩

theorem Follows.mono {cs ds : List Char} {tail : List Piece} (h : Follows cs tail)
    (hsub : cs ⊆ ds) : Follows ds tail := by
  rcases h with rfl | ⟨c, hc, more, rfl⟩
  · exact Follows.nil
  · exact follows_mark (hsub hc) more

theorem charsOf_mark (c : Char) (ps : List Piece) :
    charsOf (mark c :: ps) = c :: charsOf ps := by
  rw [charsOf, List.flatMap_cons, mark, Piece.chars, Lexeme.text, String.toList_singleton]
  rfl

theorem Follows.stops {tail : List Piece} (h : Follows writtenMarks tail) :
    Stops (charsOf tail) := by
  have hmarks : ∀ c ∈ writtenMarks, isNamePart c = false ∧ isDigit c = false ∧ c ≠ '.' :=
    forall_mem_of_all (by decide +kernel)
  rcases h with rfl | ⟨c, hc, more, rfl⟩
  · trivial
  · rw [charsOf_mark]
    exact hmarks c hc

/-- Every word of the row is readable where it stands. -/
def Spelled : List Piece → Prop
  | [] => True
  | .blank :: ps => Spelled ps
  | .word l :: ps => Readable l (charsOf ps) ∧ Spelled ps

/-- The words of a row as tokens at their places, and the token for the end. -/
def place : Nat → List Piece → List Token
  | p, [] => [⟨.stop, p⟩]
  | p, .blank :: ps => place (p + 1) ps
  | p, .word l :: ps => ⟨l, p⟩ :: place (p + l.text.length) ps

theorem tokensFrom_blank (p : Nat) (cs : List Char) :
    tokensFrom p (' ' :: cs) = tokensFrom (p + 1) cs := by
  have hblank : isBlank ' ' = true := rfl
  exact (tokensFrom.eq_2 p ' ' cs).trans (if_pos hblank)

theorem tokensFrom_word {l : Lexeme} {rest : List Char} (h : Readable l rest) (p : Nat) :
    tokensFrom p (l.text.toList ++ rest) =
      match tokensFrom (p + l.text.length) rest with
      | .error e => .error e
      | .ok more => .ok (⟨l, p⟩ :: more) := by
  obtain ⟨hcs, hne⟩ := readLexeme?_append h.read
  obtain ⟨c, cs, hc⟩ := List.exists_cons_of_ne_nil hne
  have hblank : isBlank c = false := h.start c (by rw [hc]; rfl)
  have hread := h.read
  rw [hc, List.cons_append] at hread ⊢
  rw [tokensFrom]
  simp only [hblank, Bool.false_eq_true, if_false]
  split
  · next he =>
    rw [hread] at he
    cases he
  · next he =>
    rw [hread] at he
    cases he
    rfl

/-- The tokens of a spelled row are its words at their places. -/
theorem tokensFrom_charsOf {ps : List Piece} (h : Spelled ps) (p : Nat) :
    tokensFrom p (charsOf ps) = .ok (place p ps) := by
  induction ps generalizing p with
  | nil =>
    rw [charsOf, List.flatMap_nil, tokensFrom]
    rfl
  | cons x ps ih =>
    rw [charsOf, List.flatMap_cons]
    cases x with
    | blank => exact (tokensFrom_blank p _).trans (ih h (p + 1))
    | word l =>
      have hmore := ih h.2 (p + l.text.length)
      rw [charsOf] at hmore
      refine (tokensFrom_word h.1 p).trans ?_
      rw [charsOf, hmore]
      rfl

/-! ## The written form is spelled -/

theorem spelled_mark {c : Char} (hc : c ∈ writtenMarks) {ps : List Piece} (h : Spelled ps) :
    Spelled (mark c :: ps) :=
  ⟨readable_mark hc _, h⟩

theorem spelled_name (n : DottedName) {ps : List Piece} (hf : Follows writtenMarks ps)
    (h : Spelled ps) : Spelled (.word n.lexeme :: ps) :=
  ⟨readable_name n (hf.stops.ends _), h⟩

/-- The name before the parameters of a function. -/
def functionName : DottedName where
  head :=
    { first := 'f', rest := "unction".toList
      first_ok := by decide, rest_ok := forall_mem_of_all (by decide +kernel) }

theorem functionName_lexeme : functionName.lexeme = .name "function" := by decide +kernel

theorem spelled_function {ps : List Piece} (h : Spelled ps) :
    Spelled (.word (.name "function") :: mark '(' :: ps) := by
  rw [← functionName_lexeme]
  exact spelled_name _ (follows_mark (by decide) _) (spelled_mark (by decide) h)

theorem spelled_key (k : Key) {ps : List Piece} (hf : Follows writtenMarks ps)
    (h : Spelled ps) : Spelled (.word k.lexeme :: ps) := by
  refine ⟨?_, h⟩
  cases k with
  | name n => exact readable_name n (hf.stops.ends _)
  | number k => exact readable_numeral k (hf.stops.ends _)
  | quoted s => exact readable_literal s _

/-- The pieces are spelled wherever the lexer can stop behind them. -/
def Spells (ps : List Piece) : Prop :=
  ∀ tail, Follows writtenMarks tail → Spelled tail → Spelled (ps ++ tail)

section

variable {ι : Type} {pieces : ι → List Piece} {c : Char} {gap : List Piece}

theorem follows_marked {cs : List Char} {tail : List Piece} (hc : c ∈ cs) (xs : List ι)
    (hf : Follows cs tail) : Follows cs (marked pieces c gap xs ++ tail) := by
  cases xs with
  | nil => exact hf
  | cons x xs => exact follows_mark hc _

theorem spells_marked (hc : c ∈ writtenMarks) (hgap : ∀ ps, Spelled ps → Spelled (gap ++ ps))
    {xs : List ι} (h : ∀ x ∈ xs, Spells (pieces x)) : Spells (marked pieces c gap xs) := by
  intro tail hf htail
  induction xs with
  | nil => exact htail
  | cons x xs ih =>
    obtain ⟨hx, hxs⟩ := List.forall_mem_cons.1 h
    have hmore := hx _ (follows_marked hc xs hf) (ih hxs)
    have hrow : marked pieces c gap (x :: xs) ++ tail =
        mark c :: (gap ++ (pieces x ++ (marked pieces c gap xs ++ tail))) := by
      simp only [marked, List.flatMap_cons, List.cons_append, List.append_assoc]
    rw [hrow]
    exact spelled_mark hc (hgap _ hmore)

theorem spells_row (pieces : ι → List Piece) (c : Char) (gap : List Piece)
    (hc : c ∈ writtenMarks) (hgap : ∀ ps, Spelled ps → Spelled (gap ++ ps)) {x : ι}
    {xs : List ι} (h : ∀ y ∈ x :: xs, Spells (pieces y)) :
    Spells (pieces x ++ marked pieces c gap xs) := by
  intro tail hf htail
  obtain ⟨hx, hxs⟩ := List.forall_mem_cons.1 h
  rw [List.append_assoc]
  exact hx _ (follows_marked hc xs hf) (spells_marked hc hgap hxs tail hf htail)

end

theorem spells_types {ts : List Ty} (h : ∀ t ∈ ts, Spells t.pieces) :
    Spells (Ty.listPieces ts) := by
  cases ts with
  | nil => exact fun _ _ htail => htail
  | cons t ts =>
    rw [Ty.listPieces, Ty.morePieces_eq]
    exact spells_row Ty.pieces ',' [.blank] (by decide) (fun _ hps => hps) h

theorem spells_entries {es : List Entry} (h : ∀ e ∈ es, Spells e.pieces) :
    Spells (Entry.listPieces es) := by
  cases es with
  | nil => exact fun _ _ htail => htail
  | cons e es =>
    rw [Entry.listPieces, Entry.morePieces_eq]
    exact spells_row Entry.pieces ',' [.blank] (by decide) (fun _ hps => hps) h

/-- Pieces between an opening and a closing mark. -/
theorem Spells.bracketed {ps tail : List Piece} (h : Spells ps) {a b : Char}
    (ha : a ∈ writtenMarks) (hb : b ∈ writtenMarks) (htail : Spelled tail) :
    Spelled (mark a :: (ps ++ mark b :: tail)) :=
  spelled_mark ha (h _ (follows_mark hb tail) (spelled_mark hb htail))

mutual

theorem Closed.spells (c : Closed) : Spells c.pieces := by
  intro tail hf htail
  cases c with
  | name n => exact spelled_name n hf htail
  | any => exact spelled_mark (by decide) htail
  | stringValue s => exact ⟨readable_literal s _, htail⟩
  | numberValue k => exact ⟨readable_numeral k (hf.stops.ends _), htail⟩
  | generic n t ts =>
    have hrow : Spells (t.pieces ++ Ty.morePieces ts) :=
      spells_types (List.forall_mem_cons.2 ⟨Ty.spells t, Ty.all_spells ts⟩)
    have hall := hrow.bracketed (a := '<') (b := '>') (by decide) (by decide) htail
    simp only [Closed.pieces, List.cons_append, List.append_assoc, List.nil_append] at hall ⊢
    exact spelled_name n (follows_mark (by decide) _) hall
  | record es =>
    have hall := (spells_entries (Entry.all_spells es)).bracketed (a := '{') (b := '}')
      (by decide) (by decide) htail
    simp only [Closed.pieces, List.cons_append, List.append_assoc, List.nil_append]
    exact hall
  | parenthesis t =>
    have hall := (Ty.spells t).bracketed (a := '(') (b := ')') (by decide) (by decide) htail
    simp only [Closed.pieces, List.cons_append, List.append_assoc, List.nil_append]
    exact hall
  | function ps =>
    have hall := (spells_types (Ty.all_spells ps)) (mark ')' :: tail) (follows_mark (by decide) _)
      (spelled_mark (by decide) htail)
    simp only [Closed.pieces, List.cons_append, List.append_assoc, List.nil_append]
    exact spelled_function hall
  | optional c =>
    rw [Closed.pieces, List.append_assoc]
    exact Closed.spells c _ (follows_mark (by decide) _) (spelled_mark (by decide) htail)

theorem Operand.spells (o : Operand) : Spells o.pieces := by
  intro tail hf htail
  cases o with
  | closed c => exact Closed.spells c tail hf htail
  | unknown => exact spelled_mark (by decide) htail
  | returning ps r =>
    have hreturns : Spelled (mark ':' :: .blank :: (r.pieces ++ tail)) :=
      spelled_mark (by decide) (Operand.spells r tail hf htail)
    have hall := (spells_types (Ty.all_spells ps)) _ (follows_mark (by decide) _)
      (spelled_mark (c := ')') (by decide) hreturns)
    simp only [Operand.pieces, List.cons_append, List.append_assoc]
    exact spelled_function hall
  | nullable o => exact spelled_mark (by decide) (Operand.spells o tail hf htail)
  | notNullable o => exact spelled_mark (by decide) (Operand.spells o tail hf htail)
  | variadic o => exact ⟨readable_ellipsis _, Operand.spells o tail hf htail⟩
  | variadicAlone => exact ⟨readable_ellipsis _, htail⟩

theorem Ty.spells (t : Ty) : Spells t.pieces := by
  cases t with
  | operand o => exact Operand.spells o
  | union a b os =>
    have hmembers : ∀ o ∈ a :: b :: os, Spells o.pieces :=
      List.forall_mem_cons.2 ⟨Operand.spells a,
        List.forall_mem_cons.2 ⟨Operand.spells b, Operand.all_spells os⟩⟩
    rw [Ty.pieces, Operand.morePieces_eq]
    exact spells_row Operand.pieces '|' [] (by decide) (fun _ hps => hps) hmembers

theorem Entry.spells (e : Entry) : Spells e.pieces := by
  intro tail hf htail
  cases e with
  | bare k => exact spelled_key k hf htail
  | typed k t =>
    exact spelled_key k (follows_mark (by decide) _)
      (spelled_mark (by decide) (Ty.spells t tail hf htail))

theorem Operand.all_spells (os : List Operand) : ∀ o ∈ os, Spells o.pieces := by
  cases os with
  | nil => exact List.forall_mem_nil _
  | cons o os => exact List.forall_mem_cons.2 ⟨Operand.spells o, Operand.all_spells os⟩

theorem Ty.all_spells (ts : List Ty) : ∀ t ∈ ts, Spells t.pieces := by
  cases ts with
  | nil => exact List.forall_mem_nil _
  | cons t ts => exact List.forall_mem_cons.2 ⟨Ty.spells t, Ty.all_spells ts⟩

theorem Entry.all_spells (es : List Entry) : ∀ e ∈ es, Spells e.pieces := by
  cases es with
  | nil => exact List.forall_mem_nil _
  | cons e es => exact List.forall_mem_cons.2 ⟨Entry.spells e, Entry.all_spells es⟩

end

theorem Ty.spelled_pieces (t : Ty) : Spelled t.pieces := by
  have h := t.spells [] Follows.nil trivial
  rwa [List.append_nil] at h

/-- The tokens of a written type are its words at their places. -/
theorem Ty.tokens_written (t : Ty) : tokens t.written = .ok (place 0 t.pieces) := by
  rw [tokens, Ty.written, String.toList_ofList]
  exact tokensFrom_charsOf t.spelled_pieces 0

end ApiDoc.TypeExpr
