import Mathlib.Data.List.TakeWhile
import ApiDoc.Proofs.TypeExpr.Lexing

/-!
# What the lexer has read

The work of the lexer as a relation (`Lexed`): blanks are passed over, and each token is the front
of what is left. Facts about all tokens of a text are inductions on it.

* `lexed_of_tokensFrom`: the lexer does no more than that.
* `readLexeme?_shape`: strings begin and end with their quote, and tokens other than strings and
  marks hold letters, digits, dots and signs only.
* `Lexed.exists_concat`: only the last token stands for the end.
* `Lexed.position_bounds`: all tokens stand in the text.
-/

namespace ApiDoc.TypeExpr

open Text

/-- The text is made up of the tokens, with blanks between them, from the given place on. -/
inductive Lexed : Nat → List Char → List Token → Prop
  | stop (p : Nat) : Lexed p [] [⟨.stop, p⟩]
  | blank {p : Nat} {c : Char} {cs : List Char} {ts : List Token} : isBlank c = true →
      Lexed (p + 1) cs ts → Lexed p (c :: cs) ts
  | token {p : Nat} {l : Lexeme} {cs rest : List Char} {ts : List Token} :
      readLexeme? cs = some (l, rest) → (∀ c ∈ cs.head?, isBlank c = false) →
      Lexed (p + l.text.length) rest ts → Lexed p cs (⟨l, p⟩ :: ts)

theorem lexed_of_tokensFrom {p : Nat} {cs : List Char} {ts : List Token}
    (h : tokensFrom p cs = .ok ts) : Lexed p cs ts := by
  fun_induction tokensFrom p cs generalizing ts with
  | case1 p =>
    cases h
    exact .stop p
  | case2 p c rest hblank ih => exact .blank hblank (ih h)
  | case3 p c rest hblank hnone => cases h
  | case4 p c rest hblank l rest' hread hlt e he ih => cases h
  | case5 p c rest hblank l rest' hread hlt more hmore ih =>
    cases h
    refine .token hread ?_ (ih hmore)
    intro d hd
    obtain rfl := Option.some.inj hd
    exact Bool.eq_false_iff.2 hblank

/-! ## The shapes of tokens -/

/-- A character of names, numbers and dots. -/
def IsPlain (c : Char) : Prop :=
  c = '-' ∨ c = '.' ∨ isDigit c = true ∨ isNameStart c = true ∨ isNamePart c = true

theorem IsPlain.ne {c d : Char} (h : IsPlain c) (hd : ¬ IsPlain d) : c ≠ d := by
  rintro rfl
  exact hd h

theorem not_isPlain_of_eq {c : Char} (h : c ∈ ['{', '}', '\n', '@']) : ¬ IsPlain c := by
  have hclass : ∀ d ∈ ['{', '}', '\n', '@'], d ≠ '-' ∧ d ≠ '.' ∧ isDigit d = false ∧
      isNameStart d = false ∧ isNamePart d = false :=
    forall_mem_of_all (by decide +kernel)
  obtain ⟨hminus, hdot, hdigit, hstart, hpart⟩ := hclass c h
  rintro (h | h | h | h | h)
  · exact hminus h
  · exact hdot h
  · rw [hdigit] at h
    cases h
  · rw [hstart] at h
    cases h
  · rw [hpart] at h
    cases h

theorem isPlain_of_readDigits? {cs ds rest : List Char} (h : readDigits? cs = some (ds, rest)) :
    ∀ c ∈ ds, IsPlain c := by
  unfold readDigits? at h
  split at h
  · cases h
  · next hds =>
    cases h
    intro c hc
    exact Or.inr (Or.inr (Or.inl (List.mem_takeWhile_imp hc)))

theorem isPlain_of_readUnsigned? {cs ds rest : List Char}
    (h : readUnsigned? cs = some (ds, rest)) : ∀ c ∈ ds, IsPlain c := by
  unfold readUnsigned? at h
  split at h
  · cases h
  · next whole tail hwhole =>
    have hplain := isPlain_of_readDigits? hwhole
    split at h
    · next fraction tail' hfraction =>
      cases h
      intro c hc
      rcases List.mem_append.1 hc with hc | hc
      · exact hplain c hc
      · rcases List.mem_cons.1 hc with rfl | hc
        · exact Or.inr (Or.inl rfl)
        · exact isPlain_of_readDigits? hfraction c hc
    · cases h
      exact hplain
  · next hwhole =>
    cases h
    exact isPlain_of_readDigits? hwhole

theorem isPlain_of_readNumber? {cs ds rest : List Char} (h : readNumber? cs = some (ds, rest)) :
    ∀ c ∈ ds, IsPlain c := by
  unfold readNumber? at h
  split at h
  · obtain ⟨⟨ds', rest'⟩, hread, he⟩ := Option.map_eq_some_iff.1 h
    cases he
    exact List.forall_mem_cons.2 ⟨Or.inl rfl, isPlain_of_readUnsigned? hread⟩
  · exact isPlain_of_readUnsigned? h

theorem isPlain_of_readNameTail (cs : List Char) : ∀ c ∈ (readNameTail cs).1, IsPlain c := by
  fun_induction readNameTail cs with
  | case1 c cs hc r ih =>
    refine List.forall_mem_cons.2 ⟨Or.inr (Or.inl rfl), List.forall_mem_cons.2 ⟨?_, ih⟩⟩
    exact Or.inr (Or.inr (Or.inr (Or.inl hc)))
  | case2 => exact List.forall_mem_nil _
  | case3 c cs _ hc r ih =>
    exact List.forall_mem_cons.2 ⟨Or.inr (Or.inr (Or.inr (Or.inr hc))), ih⟩
  | case4 => exact List.forall_mem_nil _
  | case5 => exact List.forall_mem_nil _

theorem exists_body_of_readQuotedTail? {q : Char} {cs text rest : List Char}
    (h : readQuotedTail? q cs = some (text, rest)) :
    ∃ body, text = body ++ [q] ∧ QuotedBody q body := by
  fun_induction readQuotedTail? q cs generalizing text rest with
  | case1 => cases h
  | case2 => cases h
  | case3 c cs hc ih =>
    obtain ⟨⟨text', rest'⟩, hread, he⟩ := Option.map_eq_some_iff.1 h
    cases he
    obtain ⟨body, rfl, hbody⟩ := ih hread
    exact ⟨'\\' :: c :: body, rfl, .escaped hc hbody⟩
  | case4 cs =>
    cases h
    exact ⟨[], rfl, .nil⟩
  | case5 => cases h
  | case6 c cs _ hquote hback ih =>
    obtain ⟨⟨text', rest'⟩, hread, he⟩ := Option.map_eq_some_iff.1 h
    cases he
    obtain ⟨body, rfl, hbody⟩ := ih hread
    exact ⟨c :: body, rfl, .plain hquote hback hbody⟩

/-- Strings stand in quotes, and tokens other than strings and marks are plain. -/
inductive Lexeme.Shape : Lexeme → Prop
  | quoted {s : String} {q : Char} {body : List Char} : q = '"' ∨ q = '\'' →
      s.toList = q :: (body ++ [q]) → Shape (.quoted s)
  | mark (c : Char) : isMark c = true → Shape (.mark c)
  | plain {l : Lexeme} : (∀ c ∈ l.text.toList, IsPlain c) → l ≠ .stop → Shape l

theorem readLexeme?_shape {cs rest : List Char} {l : Lexeme}
    (h : readLexeme? cs = some (l, rest)) : l.Shape := by
  unfold readLexeme? at h
  split at h
  · cases h
    refine .plain ?_ (by simp)
    intro c hc
    simp only [Lexeme.text] at hc
    exact Or.inr (Or.inl (forall_mem_of_all (P := (· = '.')) (by decide) c hc))
  · split at h
    · next text tail hnumber =>
      cases h
      refine .plain ?_ (by simp)
      rw [Lexeme.text, String.toList_ofList]
      exact isPlain_of_readNumber? hnumber
    · split at h
      · cases h
      · next c tail _ _ =>
        split at h
        · next hquote =>
          obtain ⟨⟨text, rest'⟩, hread, he⟩ := Option.map_eq_some_iff.1 h
          cases he
          obtain ⟨body, rfl, -⟩ := exists_body_of_readQuotedTail? hread
          exact .quoted hquote String.toList_ofList
        · split at h
          · next hname =>
            cases h
            refine .plain ?_ (by simp)
            rw [Lexeme.text, String.toList_ofList]
            exact List.forall_mem_cons.2 ⟨Or.inr (Or.inr (Or.inr (Or.inl hname))),
              isPlain_of_readNameTail tail⟩
          · split at h
            · next hmark =>
              cases h
              exact .mark c hmark
            · cases h

theorem Lexeme.Shape.ne_stop {l : Lexeme} (h : l.Shape) : l ≠ .stop := by
  cases h with
  | quoted _ _ => simp
  | mark c _ => simp
  | plain _ hstop => exact hstop

/-! ## Rows of tokens -/

/-- Only the last token stands for the end. -/
theorem Lexed.exists_concat {p : Nat} {cs : List Char} {ts : List Token} (h : Lexed p cs ts) :
    ∃ front q, ts = front ++ [⟨.stop, q⟩] ∧ ∀ t ∈ front, t.lexeme.Shape := by
  induction h with
  | stop p => exact ⟨[], p, rfl, List.forall_mem_nil _⟩
  | blank _ _ ih => exact ih
  | @token p l cs rest ts hread _ _ ih =>
    obtain ⟨front, q, rfl, hfront⟩ := ih
    exact ⟨⟨l, p⟩ :: front, q, rfl, List.forall_mem_cons.2 ⟨readLexeme?_shape hread, hfront⟩⟩

/-- All tokens stand in the text. -/
theorem Lexed.position_bounds {p : Nat} {cs : List Char} {ts : List Token} (h : Lexed p cs ts) :
    ∀ t ∈ ts, p ≤ t.position ∧ t.position ≤ p + cs.length := by
  induction h with
  | stop p => simp
  | blank _ _ ih =>
    intro t ht
    have := ih t ht
    rw [List.length_cons]
    omega
  | @token p l cs rest ts hread _ _ ih =>
    obtain ⟨rfl, -⟩ := readLexeme?_append hread
    refine List.forall_mem_cons.2 ⟨⟨Nat.le_refl p, Nat.le_add_right p _⟩, fun t ht => ?_⟩
    have := ih t ht
    rw [List.length_append, String.length_toList]
    omega

/-- There are no more tokens than characters, but for the last one. -/
theorem Lexed.length_le {p : Nat} {cs : List Char} {ts : List Token} (h : Lexed p cs ts) :
    ts.length ≤ cs.length + 1 := by
  induction h with
  | stop p => exact Nat.le_refl 1
  | blank _ _ ih => exact Nat.le_succ_of_le ih
  | @token p l cs rest ts hread _ _ ih =>
    obtain ⟨rfl, hne⟩ := readLexeme?_append hread
    have := List.length_pos_iff.2 hne
    rw [List.length_cons, List.length_append]
    omega

end ApiDoc.TypeExpr
