import ApiDoc.Proofs.TypeExpr.Lexed

/-!
# Words and where they end

The readers of numbers, strings, names and marks overlap and look ahead, yet what the lexer does is
told by the words alone. It takes a word exactly where what follows does not continue it, and it is
stuck exactly where no word stands.

* `Lexeme.IsWord`: the words of type expressions.
* `readLexeme?_eq_some_iff`: where a word is taken.
* `readLexeme?_eq_none_iff`: where none is.
* `Lexeme.Ends.front`, `Lexeme.Ends.append`: a word ends as well where less follows, and where more
  follows that continues no word.
* `Lexed.tokensFrom_continued`: so does a text.
-/

namespace ApiDoc.TypeExpr

open Text

/-- The words of type expressions: three dots, numbers, strings, dotted names and marks. -/
inductive Lexeme.IsWord : Lexeme → Prop
  | ellipsis : IsWord .ellipsis
  | number (k : Numeral) : IsWord k.lexeme
  | quoted (s : Literal) : IsWord s.lexeme
  | name (n : DottedName) : IsWord n.lexeme
  | mark {c : Char} : isMark c = true → IsWord (.mark c)

theorem Lexeme.IsWord.ne_stop {l : Lexeme} (h : l.IsWord) : l ≠ .stop := by
  cases h <;> nofun

/-! ## What is taken is a word, and it ends there -/

theorem exists_digits_of_readDigits? {cs ds rest : List Char}
    (h : readDigits? cs = some (ds, rest)) :
    ∃ digits : Digits, digits.chars = ds ∧ ∀ c ∈ rest.head?, isDigit c = false := by
  obtain ⟨-, hne⟩ := readDigits?_append h
  unfold readDigits? at h
  split at h
  · cases h
  · cases h
    refine ⟨⟨cs.takeWhile isDigit, hne, ?_⟩, rfl, ?_⟩
    · exact fun c hc => List.mem_takeWhile_imp hc
    · exact fun c hc => of_mem_head?_dropWhile hc

theorem head?_of_readDigits?_eq_none {cs : List Char} (h : readDigits? cs = none) :
    ∀ c ∈ cs.head?, isDigit c = false := by
  intro c hc
  obtain ⟨tail, rfl⟩ := List.head?_eq_some_iff.1 hc
  rw [← Bool.not_eq_true]
  intro hdigit
  simp [readDigits?, hdigit] at h

theorem exists_of_readUnsigned? {cs text rest : List Char}
    (h : readUnsigned? cs = some (text, rest)) :
    ∃ (whole : Digits) (fraction : Option Digits),
      text = whole.chars ++ (fraction.elim [] fun f => '.' :: f.chars) ∧
      (∀ c ∈ rest.head?, isDigit c = false) ∧
      (fraction = none → ∀ tail, rest = '.' :: tail → ∀ d ∈ tail.head?, isDigit d = false) := by
  unfold readUnsigned? at h
  split at h
  · cases h
  · next whole tail hwhole =>
    obtain ⟨digits, rfl, hhead⟩ := exists_digits_of_readDigits? hwhole
    split at h
    · next fraction tail' hfraction =>
      cases h
      obtain ⟨f, rfl, hend⟩ := exists_digits_of_readDigits? hfraction
      exact ⟨digits, some f, rfl, hend, nofun⟩
    · next hnone =>
      cases h
      refine ⟨digits, none, by simp, hhead, ?_⟩
      rintro - tail' he
      obtain ⟨-, rfl⟩ := List.cons.inj he
      exact head?_of_readDigits?_eq_none hnone
  · next r hdot hr =>
    cases h
    obtain ⟨digits, rfl, hhead⟩ := exists_digits_of_readDigits? hr
    refine ⟨digits, none, by simp, hhead, ?_⟩
    rintro - tail rfl
    exact (hdot _ _ rfl).elim

theorem exists_numeral_of_readNumber? {cs text rest : List Char}
    (h : readNumber? cs = some (text, rest)) :
    ∃ k : Numeral, k.chars = text ∧ k.lexeme.Ends rest := by
  have hends : ∀ k : Numeral, (∀ c ∈ rest.head?, isDigit c = false) →
      (k.fraction = none → ∀ tail, rest = '.' :: tail → ∀ d ∈ tail.head?, isDigit d = false) →
      k.lexeme.Ends rest := by
    intro k hhead hdot
    cases rest with
    | nil => trivial
    | cons c rest =>
      refine ⟨hhead c rfl, ?_⟩
      rintro rfl hnot
      apply hdot _ rest rfl
      cases hf : k.fraction with
      | none => rfl
      | some f => exact (hnot (by simp [Numeral.chars, hf])).elim
  unfold readNumber? at h
  split at h
  · obtain ⟨⟨digits, rest'⟩, hread, he⟩ := Option.map_eq_some_iff.1 h
    cases he
    obtain ⟨whole, fraction, htext, hhead, hdot⟩ := exists_of_readUnsigned? hread
    exact ⟨⟨true, whole, fraction⟩, by simp [Numeral.chars, htext], hends _ hhead hdot⟩
  · obtain ⟨whole, fraction, htext, hhead, hdot⟩ := exists_of_readUnsigned? h
    exact ⟨⟨false, whole, fraction⟩, by simp [Numeral.chars, htext], hends _ hhead hdot⟩

/-- What continues a name, and where it ends. -/
theorem exists_idents_of_readNameTail (cs : List Char) :
    ∃ (part : List Char) (is : List Ident),
      (readNameTail cs).1 = part ++ is.flatMap (fun i => '.' :: i.chars) ∧
      (∀ c ∈ part, isNamePart c = true) ∧ ∀ text, (Lexeme.name text).Ends (readNameTail cs).2 := by
  fun_induction readNameTail cs with
  | case1 c cs hc r ih =>
    obtain ⟨part, is, htail, hpart, hends⟩ := ih
    refine ⟨[], ⟨c, part, hc, hpart⟩ :: is, ?_, List.forall_mem_nil _, hends⟩
    simp [r, htail, Ident.chars]
  | case2 c cs hc =>
    refine ⟨[], [], rfl, List.forall_mem_nil _, fun text => ⟨by decide, fun _ d hd => ?_⟩⟩
    obtain rfl := Option.some.inj hd
    simpa using hc
  | case3 c cs _ hc r ih =>
    obtain ⟨part, is, htail, hpart, hends⟩ := ih
    exact ⟨c :: part, is, by simp [r, htail], List.forall_mem_cons.2 ⟨hc, hpart⟩, hends⟩
  | case4 c cs hdot hc =>
    refine ⟨[], [], rfl, List.forall_mem_nil _, fun text => ⟨by simpa using hc, ?_⟩⟩
    rintro rfl d hd
    obtain ⟨tail, rfl⟩ := List.head?_eq_some_iff.1 hd
    exact (hdot _ _ rfl rfl).elim
  | case5 => exact ⟨[], [], rfl, List.forall_mem_nil _, fun _ => trivial⟩

theorem isWord_of_readLexeme? {cs rest : List Char} {l : Lexeme}
    (h : readLexeme? cs = some (l, rest)) : l.IsWord ∧ l.Ends rest := by
  unfold readLexeme? at h
  split at h
  · cases h
    exact ⟨.ellipsis, trivial⟩
  · next hdots =>
    split at h
    · next text tail hnumber =>
      cases h
      obtain ⟨k, rfl, hends⟩ := exists_numeral_of_readNumber? hnumber
      exact ⟨.number k, hends⟩
    · split at h
      · cases h
      · next c tail _ =>
        split at h
        · next hquote =>
          obtain ⟨⟨text, rest'⟩, hread, he⟩ := Option.map_eq_some_iff.1 h
          cases he
          obtain ⟨body, rfl, hbody⟩ := exists_body_of_readQuotedTail? hread
          exact ⟨.quoted ⟨c, body, hquote, hbody⟩, trivial⟩
        · split at h
          · next hstart =>
            cases h
            obtain ⟨part, is, htail, hpart, hends⟩ := exists_idents_of_readNameTail tail
            rw [htail]
            exact ⟨.name ⟨⟨c, part, hstart, hpart⟩, is⟩, hends _⟩
          · split at h
            · next hmark =>
              cases h
              refine ⟨.mark hmark, ?_⟩
              rintro ⟨rfl, more, rfl⟩
              exact hdots more rfl
            · cases h

/-! ## Words are taken where they end -/

theorem isMark_cases {c : Char} (h : isMark c = true) : c = '.' ∨ c ≠ '.' ∧ c ≠ '-' ∧
    isDigit c = false ∧ ¬ (c = '"' ∨ c = '\'') ∧ isNameStart c = false ∧ isBlank c = false := by
  have hall : ∀ d ∈ ['|', '<', '>', ',', '(', ')', '{', '}', '[', ']', ':', '?', '!', '=', '*',
      '.'], d = '.' ∨ d ≠ '.' ∧ d ≠ '-' ∧ isDigit d = false ∧ ¬ (d = '"' ∨ d = '\'') ∧
        isNameStart d = false ∧ isBlank d = false :=
    forall_mem_of_all (by decide +kernel)
  exact hall c (List.contains_iff_mem.1 h)

theorem readLexeme?_dot {rest : List Char} (h : (Lexeme.mark '.').Ends rest) :
    readLexeme? ('.' :: rest) = some (.mark '.', rest) := by
  unfold readLexeme?
  split
  · next tail he =>
    obtain ⟨-, rfl⟩ := List.cons.inj he
    exact (h ⟨rfl, tail, rfl⟩).elim
  · rw [readNumber?_eq_none (by decide) (by decide)]
    rfl

theorem readable_of_isWord {l : Lexeme} (h : l.IsWord) {rest : List Char} (hends : l.Ends rest) :
    Readable l rest := by
  cases h with
  | ellipsis => exact readable_ellipsis rest
  | number k => exact readable_numeral k hends
  | quoted s => exact readable_literal s rest
  | name n => exact readable_name n hends
  | @mark c hc =>
    have htext : (Lexeme.mark c).text.toList = [c] := String.toList_singleton c
    rcases isMark_cases hc with rfl | ⟨hdot, hminus, hdigit, hquote, hname, hblank⟩
    · refine ⟨?_, ?_⟩
      · rw [htext]
        exact readLexeme?_dot hends
      · rw [htext]
        exact fun d hd => Option.some.inj hd ▸ rfl
    · refine ⟨?_, ?_⟩
      · rw [htext, List.singleton_append,
          readLexeme?_cons hdot (readNumber?_eq_none hminus hdigit _), if_neg hquote, hname, hc]
        rfl
      · rw [htext]
        exact fun d hd => Option.some.inj hd ▸ hblank

/-- The lexer takes a word exactly where what follows does not continue it. -/
theorem readLexeme?_eq_some_iff {cs rest : List Char} {l : Lexeme} :
    readLexeme? cs = some (l, rest) ↔ cs = l.text.toList ++ rest ∧ l.IsWord ∧ l.Ends rest := by
  constructor
  · intro h
    exact ⟨(readLexeme?_append h).1, isWord_of_readLexeme? h⟩
  · rintro ⟨rfl, hword, hends⟩
    exact (readable_of_isWord hword hends).read

/-! ## Where no word stands -/

theorem readUnsigned?_ne_none {c : Char} (h : isDigit c = true) (cs : List Char) :
    readUnsigned? (c :: cs) ≠ none := by
  have hdigits : readDigits? (c :: cs) ≠ none := by simp [readDigits?, h]
  unfold readUnsigned?
  split
  · next hnone => exact absurd hnone hdigits
  · split
    · exact Option.some_ne_none _
    · exact Option.some_ne_none _
  · exact Option.some_ne_none _

theorem readNumber?_ne_none (k : Numeral) (rest : List Char) :
    readNumber? (k.chars ++ rest) ≠ none := by
  obtain ⟨c, cs, hcs⟩ := List.exists_cons_of_ne_nil k.whole.ne_nil
  have hc := k.whole.digits c (by rw [hcs]; exact List.mem_cons_self)
  unfold Numeral.chars
  rw [hcs]
  cases k.negative with
  | true =>
    simp only [if_true, List.cons_append, List.nil_append, readNumber?, ne_eq,
      Option.map_eq_none_iff]
    exact readUnsigned?_ne_none hc _
  | false =>
    simp only [Bool.false_eq_true, if_false, List.cons_append, List.nil_append]
    rw [readNumber?_of_isDigit hc]
    exact readUnsigned?_ne_none hc _

theorem readLexeme?_ne_none {l : Lexeme} (h : l.IsWord) (rest : List Char) :
    readLexeme? (l.text.toList ++ rest) ≠ none := by
  cases h with
  | ellipsis =>
    rw [(readable_ellipsis rest).read]
    exact Option.some_ne_none _
  | quoted s =>
    rw [(readable_literal s rest).read]
    exact Option.some_ne_none _
  | number k =>
    simp only [Numeral.lexeme, Lexeme.text, String.toList_ofList]
    unfold readLexeme?
    split
    · exact Option.some_ne_none _
    · split
      · exact Option.some_ne_none _
      · next hnone => exact absurd hnone (readNumber?_ne_none k rest)
  | name n =>
    have hok := n.head.first_ok
    simp only [DottedName.lexeme, Lexeme.text, String.toList_ofList, DottedName.chars, Ident.chars,
      List.cons_append]
    rw [readLexeme?_cons (ne_of_isNameStart hok (by decide))
      (readNumber?_eq_none (ne_of_isNameStart hok (by decide))
        (isDigit_eq_false_of_isNameStart hok) _), if_pos hok]
    split
    · next hquote =>
      rcases hquote with he | he
      · exact absurd he (ne_of_isNameStart hok (by decide))
      · exact absurd he (ne_of_isNameStart hok (by decide))
    · exact Option.some_ne_none _
  | @mark c hc =>
    by_cases hends : (Lexeme.mark c).Ends rest
    · rw [(readable_of_isWord (.mark hc) hends).read]
      exact Option.some_ne_none _
    · -- a dot before two others, with which it is another word
      obtain ⟨rfl, tail, rfl⟩ := Classical.not_not.1 hends
      exact Option.some_ne_none (Lexeme.ellipsis, tail)

/-- The lexer is stuck exactly where no word stands. -/
theorem readLexeme?_eq_none_iff {cs : List Char} :
    readLexeme? cs = none ↔ ∀ l : Lexeme, l.IsWord → ¬ l.text.toList <+: cs := by
  constructor
  · rintro h l hword ⟨rest, rfl⟩
    exact readLexeme?_ne_none hword rest h
  · intro h
    cases hread : readLexeme? cs with
    | none => rfl
    | some r =>
      obtain ⟨l, rest⟩ := r
      obtain ⟨rfl, hword, -⟩ := readLexeme?_eq_some_iff.1 hread
      exact (h l hword ⟨rest, rfl⟩).elim

/-! ## More and less behind a word -/

theorem Lexeme.Ends.front {l : Lexeme} {a b : List Char} (h : l.Ends (a ++ b)) : l.Ends a := by
  have hhead : ∀ {rest : List Char} {d : Char}, d ∈ rest.head? → d ∈ (rest ++ b).head? := by
    intro rest d hd
    obtain ⟨tail, rfl⟩ := List.head?_eq_some_iff.1 hd
    exact Option.mem_some_self d
  match l, a, h with
  | .name _, [], _ | .number _, [], _ => trivial
  | .name _, _ :: _, ⟨hpart, hdot⟩ => exact ⟨hpart, fun hc d hd => hdot hc d (hhead hd)⟩
  | .number _, _ :: _, ⟨hdigit, hdot⟩ =>
    exact ⟨hdigit, fun hc hnot d hd => hdot hc hnot d (hhead hd)⟩
  | .mark _, a, h => exact fun hdots => h ⟨hdots.1, hdots.2.trans (List.prefix_append a b)⟩
  | .ellipsis, _, _ | .quoted _, _, _ | .stop, _, _ => trivial

theorem isNamePart_of_isNameStart {c : Char} (h : isNameStart c = true) : isNamePart c = true := by
  rcases isNameStart_cases h with hl | rfl | rfl
  · rw [isNamePart, isWord_of_isAsciiLetter hl]
    rfl
  · decide
  · decide

theorem Stops.head? {more : List Char} (h : Stops more) :
    ∀ c ∈ more.head?, isNameStart c = false ∧ isDigit c = false ∧ c ≠ '.' := by
  intro c hc
  obtain ⟨cs, rfl⟩ := List.head?_eq_some_iff.1 hc
  refine ⟨?_, h.2⟩
  rw [← Bool.not_eq_true]
  intro hstart
  exact absurd (isNamePart_of_isNameStart hstart) (by simp [h.1])

theorem Lexeme.Ends.append {l : Lexeme} {a more : List Char} (h : l.Ends a) (hmore : Stops more) :
    l.Ends (a ++ more) := by
  match l, a, h with
  | l, [], _ => exact hmore.ends l
  | .name _, [_], ⟨hpart, _⟩ => exact ⟨hpart, fun _ d hd => (hmore.head? d hd).1⟩
  | .number _, [_], ⟨hdigit, _⟩ => exact ⟨hdigit, fun _ _ d hd => (hmore.head? d hd).2.1⟩
  | .name _, _ :: _ :: _, h | .number _, _ :: _ :: _, h => exact h
  | .mark _, [_], _ =>
    rintro ⟨-, tail, he⟩
    obtain rfl : '.' :: tail = more := (List.cons.inj he).2
    exact hmore.2.2 rfl
  | .mark _, _ :: _ :: _, h =>
    rintro ⟨hc, tail, he⟩
    cases he
    exact h ⟨hc, _, rfl⟩
  | .ellipsis, _, _ | .quoted _, _, _ | .stop, _, _ => trivial

/-- Where what follows continues no word, the tokens of a text stay what they are, and those of what
follows come in place of the final one. -/
theorem Lexed.tokensFrom_continued {more : List Char} (hmore : Stops more) {p : Nat}
    {cs : List Char} {ts : List Token} (h : Lexed p cs ts) :
    ∃ front, ts = front ++ [⟨.stop, p + cs.length⟩] ∧
      tokensFrom p (cs ++ more) = (tokensFrom (p + cs.length) more).map (front ++ ·) := by
  induction h with
  | stop p =>
    refine ⟨[], rfl, ?_⟩
    simp only [List.nil_append, List.length_nil, Nat.add_zero]
    cases tokensFrom p more <;> rfl
  | @blank p c cs ts hblank _ ih =>
    obtain ⟨front, rfl, hmap⟩ := ih
    have hplace : p + (c :: cs).length = p + 1 + cs.length := by
      rw [List.length_cons]
      omega
    rw [hplace]
    refine ⟨front, rfl, ?_⟩
    rw [List.cons_append, tokensFrom, if_pos hblank, hmap]
  | @token p l cs rest ts hread _ _ ih =>
    obtain ⟨front, rfl, hmap⟩ := ih
    obtain ⟨rfl, hword, hends⟩ := readLexeme?_eq_some_iff.1 hread
    have hplace : p + (l.text.toList ++ rest).length = p + l.text.length + rest.length := by
      rw [List.length_append, String.length_toList]
      omega
    rw [hplace]
    refine ⟨⟨l, p⟩ :: front, rfl, ?_⟩
    rw [List.append_assoc, tokensFrom_word (readable_of_isWord hword (hends.append hmore)), hmap]
    cases tokensFrom (p + l.text.length + rest.length) more <;> rfl

end ApiDoc.TypeExpr
