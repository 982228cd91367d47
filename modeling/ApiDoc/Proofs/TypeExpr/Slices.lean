import ApiDoc.Proofs.TypeExpr.Words

/-!
# Tokens as slices of a text

The lexer loses nothing of a text but the blanks: each token is the piece of the text at its place,
and outside of these pieces there is nothing but blanks. If it gives up, it does so at a character
that is no blank and where no word stands, and what lies before this character has tokens.

* `slices_of_lexed`: what the lexer has read, by its steps.
* `stuckAt_of_tokensFrom`: where it gives up.
* `tokens_slices_or_stuck`: both, for every text.
-/

namespace ApiDoc.TypeExpr

open Text

/-- The place behind a token. -/
def Token.finish (t : Token) : Nat :=
  t.position + t.lexeme.text.length

/-- From the place `p` on, the text `cs` is made up of these words, each at its place, and of
blanks. -/
structure Slices (cs : List Char) (p : Nat) (words : List Token) : Prop where
  word : ∀ t ∈ words, t.lexeme.IsWord
  from_start : ∀ t ∈ words, p ≤ t.position
  slice : ∀ t ∈ words, (cs.drop t.position).take t.lexeme.text.length = t.lexeme.text.toList
  apart : words.Pairwise fun t u => t.finish ≤ u.position
  blank : ∀ i c, p ≤ i → cs[i]? = some c → (∀ t ∈ words, i < t.position ∨ t.finish ≤ i) →
    isBlank c = true

/-! ## Words by themselves -/

theorem readable_alone {l : Lexeme} (h : l.IsWord) : Readable l [] := by
  have hstops : Stops [] := trivial
  exact readable_of_isWord h (hstops.ends l)

theorem Lexeme.IsWord.text_ne_empty {l : Lexeme} (h : l.IsWord) : l.text ≠ "" := by
  intro he
  apply (readLexeme?_append (readable_alone h).read).2
  rw [he]
  rfl

theorem tokens_alone {l : Lexeme} (h : l.IsWord) :
    tokens l.text = .ok [⟨l, 0⟩, ⟨.stop, l.text.length⟩] := by
  have hword := tokensFrom_word (readable_alone h) 0
  rw [List.append_nil, tokensFrom, Nat.zero_add] at hword
  exact hword

/-! ## What has been read -/

theorem drop_of_append {cs a rest : List Char} {p n : Nat} (h : cs.drop p = a ++ rest)
    (hn : a.length = n) : cs.drop (p + n) = rest := by
  rw [← List.drop_drop, h, ← hn, List.drop_left]

theorem slices_of_lexed {cs rest : List Char} {p : Nat} {ts : List Token} (h : Lexed p rest ts)
    (hrest : cs.drop p = rest) :
    ∃ words, ts = words ++ [⟨.stop, p + rest.length⟩] ∧ Slices cs p words := by
  induction h with
  | stop p =>
    refine ⟨[], rfl, ?_, ?_, ?_, List.Pairwise.nil, ?_⟩
    · exact List.forall_mem_nil _
    · exact List.forall_mem_nil _
    · exact List.forall_mem_nil _
    · intro i c hi hc
      have hnone : cs[i]? = none :=
        List.getElem?_eq_none (Nat.le_trans (List.drop_eq_nil_iff.1 hrest) hi)
      rw [hnone] at hc
      cases hc
  | @blank p c rest ts hblank _ ih =>
    obtain ⟨words, rfl, hwords⟩ := ih (drop_of_append (a := [c]) hrest rfl)
    have hplace : p + 1 + rest.length = p + (c :: rest).length := by
      rw [List.length_cons]
      omega
    refine ⟨words, by rw [hplace], hwords.word, ?_, hwords.slice, hwords.apart, ?_⟩
    · intro t ht
      have := hwords.from_start t ht
      omega
    · intro i d hi hd hout
      by_cases he : i = p
      · have hhead : cs[p]? = some c := by
          rw [← List.head?_drop, hrest]
          rfl
        rw [he, hhead] at hd
        cases hd
        exact hblank
      · exact hwords.blank i d (by omega) hd hout
  | @token p l rest rest' ts hread _ _ ih =>
    obtain ⟨rfl, hword, -⟩ := readLexeme?_eq_some_iff.1 hread
    obtain ⟨words, rfl, hwords⟩ := ih (drop_of_append hrest (String.length_toList))
    have hplace : p + l.text.length + rest'.length = p + (l.text.toList ++ rest').length := by
      rw [List.length_append, String.length_toList]
      omega
    refine ⟨⟨l, p⟩ :: words, by rw [hplace]; rfl, ?_, ?_, ?_, ?_, ?_⟩
    · exact List.forall_mem_cons.2 ⟨hword, hwords.word⟩
    · refine List.forall_mem_cons.2 ⟨Nat.le_refl p, fun t ht => ?_⟩
      have := hwords.from_start t ht
      omega
    · refine List.forall_mem_cons.2 ⟨?_, hwords.slice⟩
      rw [hrest, ← String.length_toList, List.take_left]
    · exact List.pairwise_cons.2 ⟨hwords.from_start, hwords.apart⟩
    · intro i c hi hc hout
      obtain ⟨hfirst, hothers⟩ := List.forall_mem_cons.1 hout
      have hpast : p + l.text.length ≤ i := by
        rcases hfirst with hlt | hle
        · exact absurd hi (Nat.not_le_of_lt hlt)
        · exact hle
      exact hwords.blank i c hpast hc hothers

/-! ## Where the lexer gives up -/

/-- At the place `q` of the text stands the character `c`, which is no blank and starts no word. -/
structure StuckAt (cs : List Char) (q : Nat) (c : Char) : Prop where
  stands : cs[q]? = some c
  solid : isBlank c = false
  no_word : ∀ l : Lexeme, l.IsWord → ¬ l.text.toList <+: cs.drop q

theorem stuckAt_of_tokensFrom {cs rest : List Char} {p : Nat} {e : SyntaxError}
    (h : tokensFrom p rest = .error e) (hrest : cs.drop p = rest) :
    ∃ c q, e = .strayChar c q ∧ p ≤ q ∧ StuckAt cs q c ∧
      ∃ ts, tokensFrom p (rest.take (q - p)) = .ok ts := by
  fun_induction tokensFrom p rest generalizing e with
  | case1 p => cases h
  | case2 p c rest hblank ih =>
    obtain ⟨d, q, rfl, hq, hstuck, ts, hts⟩ := ih h (drop_of_append (a := [c]) hrest rfl)
    refine ⟨d, q, rfl, by omega, hstuck, ts, ?_⟩
    have hlength : q - p = q - (p + 1) + 1 := by omega
    rw [hlength, List.take_succ_cons, tokensFrom, if_pos hblank]
    exact hts
  | case3 p c rest hblank hnone =>
    cases h
    refine ⟨c, p, rfl, Nat.le_refl p, ⟨?_, by simpa using hblank, ?_⟩, [⟨.stop, p⟩], ?_⟩
    · rw [← List.head?_drop, hrest]
      rfl
    · rw [hrest]
      exact readLexeme?_eq_none_iff.1 hnone
    · rw [Nat.sub_self, List.take_zero, tokensFrom]
  | case4 p c rest hblank l rest' hread hlt e' he ih =>
    cases h
    obtain ⟨hcs, hword, hends⟩ := readLexeme?_eq_some_iff.1 hread
    rw [hcs] at hrest ⊢
    obtain ⟨d, q, rfl, hq, hstuck, ts, hts⟩ := ih he (drop_of_append hrest (String.length_toList))
    refine ⟨d, q, rfl, by omega, hstuck, ⟨l, p⟩ :: ts, ?_⟩
    -- the word ends as well where less follows it
    have hfront : l.Ends (rest'.take (q - (p + l.text.length))) := by
      apply Lexeme.Ends.front (b := rest'.drop (q - (p + l.text.length)))
      rwa [List.take_append_drop]
    have htake : (l.text.toList ++ rest').take (q - p) =
        l.text.toList ++ rest'.take (q - (p + l.text.length)) := by
      rw [List.take_append, String.length_toList, List.take_of_length_le, Nat.sub_sub]
      rw [String.length_toList]
      omega
    rw [htake, tokensFrom_word (readable_of_isWord hword hfront), hts]
  | case5 => cases h

/-! ## Whole texts -/

/-- The tokens of a text before the one for its end. They are no empty pieces of it, one behind the
other, outside of which it has blanks only, and each of them by itself has the same token. -/
structure Lossless (source : String) (words : List Token) : Prop where
  word : ∀ t ∈ words, t.lexeme.IsWord
  nonempty : ∀ t ∈ words, t.lexeme.text ≠ ""
  slice : ∀ t ∈ words,
    (source.toList.drop t.position).take t.lexeme.text.length = t.lexeme.text.toList
  apart : words.Pairwise fun t u => t.finish ≤ u.position
  ordered : words.Pairwise fun t u => t.position < u.position
  blank : ∀ (i : Nat) (c : Char), source.toList[i]? = some c →
    (∀ t ∈ words, i < t.position ∨ t.finish ≤ i) → isBlank c = true
  alone : ∀ t ∈ words,
    tokens t.lexeme.text = .ok [⟨t.lexeme, 0⟩, ⟨.stop, t.lexeme.text.length⟩]

theorem Slices.lossless {source : String} {words : List Token}
    (h : Slices source.toList 0 words) : Lossless source words where
  word := h.word
  nonempty t ht := (h.word t ht).text_ne_empty
  slice := h.slice
  apart := h.apart
  ordered := by
    refine List.Pairwise.imp_of_mem (fun {t u} ht _ hle => ?_) h.apart
    have hpos : t.lexeme.text.length ≠ 0 := fun he =>
      (h.word t ht).text_ne_empty (String.length_eq_zero_iff.1 he)
    unfold Token.finish at hle
    omega
  blank i c := h.blank i c (Nat.zero_le i)
  alone t ht := tokens_alone (h.word t ht)

/-- **Tokens are slices of the text.** If a text has tokens, the last of them is empty and stands at
the end of the text, and the others are slices of it, apart from each other and in order, with
nothing but blanks outside of them; each slice by itself has the token that it is in the text. If a
text has no tokens, the lexer gives up at a character that is no blank and where no word stands, and
the text before this character has tokens. -/
theorem tokens_slices_or_stuck (source : String) :
    match tokens source with
    | .ok ts => ∃ words, ts = words ++ [⟨.stop, source.length⟩] ∧ Lexeme.stop.text = "" ∧
        Lossless source words
    | .error e => ∃ c, e = .strayChar c e.position ∧ StuckAt source.toList e.position c ∧
        ∃ ts, tokens (String.ofList (source.toList.take e.position)) = .ok ts := by
  split
  · next ts hts =>
    obtain ⟨words, rfl, hwords⟩ := slices_of_lexed (lexed_of_tokensFrom hts) List.drop_zero
    rw [Nat.zero_add, String.length_toList]
    exact ⟨words, rfl, rfl, hwords.lossless⟩
  · next e he =>
    obtain ⟨c, q, rfl, -, hstuck, ts, hts⟩ := stuckAt_of_tokensFrom he List.drop_zero
    refine ⟨c, rfl, hstuck, ts, ?_⟩
    rw [tokens, String.toList_ofList]
    exact hts

end ApiDoc.TypeExpr
