import ApiDoc.Proofs.TypeExpr.Readers
import ApiDoc.Proofs.TypeExpr.Slices

/-!
# Blanks between tokens

Blanks put in before or behind a token change neither the token nor those beside it: a word that
ended where it stood ends before a blank too. What changes are the places of the tokens, and no
reader looks at them but to say where a fault is.

* `lexemes_spread`: the tokens with blanks put in, up to their places.
* `Blind`: a reader does the same without the places. One lemma for each reader, down to
  `blind_readOperand`, by induction on the depth that is allowed.
* `parseNode_spread`: so blanks never matter.
-/

namespace ApiDoc.TypeExpr

open Text

/-! ## Texts with blanks put in -/

/-- The text from the place `p` on with more characters put in: `gap q` before the character at the
place `q`, and behind the last one if `q` is the end. -/
def spread (gap : Nat → List Char) : Nat → List Char → List Char
  | p, [] => gap p
  | p, c :: cs => gap p ++ c :: spread gap (p + 1) cs

theorem spread_append (gap : Nat → List Char) {p : Nat} {a b : List Char} (ha : a ≠ [])
    (hgap : ∀ q, p < q → q < p + a.length → gap q = []) :
    spread gap p (a ++ b) = gap p ++ (a ++ spread gap (p + a.length) b) := by
  induction a generalizing p with
  | nil => exact absurd rfl ha
  | cons c a ih =>
    rw [List.cons_append, spread, List.cons_append]
    cases a with
    | nil => rfl
    | cons d a =>
      simp only [List.length_cons] at hgap ih ⊢
      rw [ih (List.cons_ne_nil d a) fun q hq hlt => hgap q (by omega) (by omega),
        hgap (p + 1) (by omega) (by omega), List.nil_append, Nat.add_right_comm p 1,
        Nat.add_assoc p]

theorem tokensFrom_append_blank {bs : List Char} (h : ∀ c ∈ bs, isBlank c = true) (p : Nat)
    (cs : List Char) : tokensFrom p (bs ++ cs) = tokensFrom (p + bs.length) cs := by
  induction bs generalizing p with
  | nil => rfl
  | cons c bs ih =>
    obtain ⟨hc, hbs⟩ := List.forall_mem_cons.1 h
    rw [List.cons_append, tokensFrom, if_pos hc, ih hbs, List.length_cons, Nat.add_right_comm,
      Nat.add_assoc]

theorem stops_of_isBlank {c : Char} (h : isBlank c = true) (cs : List Char) : Stops (c :: cs) := by
  obtain ⟨hdollar, hplain⟩ :=
    forall_blank (P := fun c => c ≠ '$' ∧ isDigit c = false ∧ c ≠ '.') (by decide +kernel) h
  refine ⟨?_, hplain⟩
  rw [isNamePart, isWord_eq_false_of_isBlank h, Bool.false_or, beq_eq_false_iff_ne]
  exact hdollar

section

variable {gap : Nat → List Char} (hblank : ∀ q, ∀ c ∈ gap q, isBlank c = true)
include hblank

/-- Up to the first blank that is put in, the text is the same. -/
theorem exists_front_spread (p : Nat) (cs : List Char) :
    ∃ k more, spread gap p cs = cs.take k ++ more ∧ Stops more := by
  induction cs generalizing p with
  | nil =>
    refine ⟨0, gap p, rfl, ?_⟩
    cases hgap : gap p with
    | nil => trivial
    | cons c bs => exact stops_of_isBlank (hblank p c (by rw [hgap]; exact List.mem_cons_self)) bs
  | cons c cs ih =>
    rw [spread]
    cases hgap : gap p with
    | nil =>
      obtain ⟨k, more, hspread, hmore⟩ := ih (p + 1)
      exact ⟨k + 1, more, by rw [hspread]; rfl, hmore⟩
    | cons d bs =>
      exact ⟨0, _, rfl, stops_of_isBlank (hblank p d (by rw [hgap]; exact List.mem_cons_self)) _⟩

theorem Lexeme.Ends.spread {l : Lexeme} {rest : List Char} (h : l.Ends rest) (p : Nat) :
    l.Ends (spread gap p rest) := by
  obtain ⟨k, more, hspread, hmore⟩ := exists_front_spread hblank p rest
  rw [hspread]
  apply Lexeme.Ends.append _ hmore
  apply Lexeme.Ends.front (b := rest.drop k)
  rwa [List.take_append_drop]

/-- The tokens of a text with blanks put in before or behind tokens are those of the text, up to
their places. Of the blanks, those at the place where the text begins come before all tokens. -/
theorem lexemes_spread {p : Nat} {cs : List Char} {ts : List Token} (h : Lexed p cs ts)
    (hedge : ∀ q, p < q → gap q ≠ [] → ∃ t ∈ ts, q = t.position ∨ q = t.finish) (p' : Nat) :
    ∃ ts', tokensFrom p' (spread gap p cs) = .ok ts' ∧
      ts'.map Token.lexeme = ts.map Token.lexeme := by
  induction h generalizing p' with
  | stop p =>
    refine ⟨[⟨.stop, p' + (gap p).length⟩], ?_, rfl⟩
    rw [spread, ← List.append_nil (gap p), tokensFrom_append_blank (hblank p), tokensFrom,
      List.append_nil]
  | @blank p c cs ts hc _ ih =>
    rw [spread, tokensFrom_append_blank (hblank p), tokensFrom, if_pos hc]
    exact ih (fun q hq => hedge q (by omega)) _
  | @token p l cs rest ts hread _ hlexed ih =>
    obtain ⟨rfl, hword, hends⟩ := readLexeme?_eq_some_iff.1 hread
    have hlater := hlexed.position_bounds
    -- nothing is put in within the word, and behind it only where the later tokens have an edge
    have hinside : ∀ q, p < q → q < p + l.text.toList.length → gap q = [] := by
      intro q hq hlt
      by_contra hne
      rw [String.length_toList] at hlt
      obtain ⟨t, ht, hplace⟩ := hedge q hq hne
      unfold Token.finish at hplace
      rcases List.mem_cons.1 ht with rfl | ht
      · simp only at hplace
        omega
      · have := (hlater t ht).1
        omega
    have hbehind : ∀ q, p + l.text.length < q → gap q ≠ [] →
        ∃ t ∈ ts, q = t.position ∨ q = t.finish := by
      intro q hq hne
      obtain ⟨t, ht, hplace⟩ := hedge q (by omega) hne
      rcases List.mem_cons.1 ht with rfl | ht
      · unfold Token.finish at hplace
        simp only at hplace
        omega
      · exact ⟨t, ht, hplace⟩
    obtain ⟨ts', hts', hsame⟩ := ih hbehind (p' + (gap p).length + l.text.length)
    refine ⟨⟨l, p' + (gap p).length⟩ :: ts', ?_, by simp [hsame]⟩
    rw [spread_append gap (readLexeme?_append hread).2 hinside,
      tokensFrom_append_blank (hblank p), String.length_toList,
      tokensFrom_word (readable_of_isWord hword (hends.spread hblank _)), hts']

end

/-! ## Rows without places -/

/-- The row with all places forgotten. -/
def unplaced (ts : List Token) : List Token :=
  ts.map fun t => ⟨t.lexeme, 0⟩

/-- The fault with its place forgotten. -/
def SyntaxError.unplaced : SyntaxError → SyntaxError
  | empty => empty
  | strayChar c _ => strayChar c 0
  | unexpected found _ => unexpected found 0
  | expected wanted found _ => expected wanted found 0
  | expectedKey found _ => expectedKey found 0
  | tooDeep _ => tooDeep 0

/-- What a reader gave, without places. -/
def forget {α : Type} : Except SyntaxError (α × List Token) → Except SyntaxError (α × List Token)
  | .ok (a, rest) => .ok (a, unplaced rest)
  | .error e => .error e.unplaced

/-- A reader does the same without the places of the tokens. -/
def Blind {α : Type} (reader : Reader α) : Prop :=
  ∀ ts, reader (unplaced ts) = forget (reader ts)

theorem unplaced_eq_of_map {ts us : List Token}
    (h : ts.map Token.lexeme = us.map Token.lexeme) : unplaced ts = unplaced us := by
  have hmap : ∀ row : List Token, unplaced row = (row.map Token.lexeme).map fun l => ⟨l, 0⟩ := by
    intro row
    rw [List.map_map]
    rfl
  rw [hmap, hmap, h]

theorem exists_of_unplaced {ts rest : List Token} {l : Lexeme} {q : Nat}
    (h : unplaced ts = ⟨l, q⟩ :: rest) : ∃ p back, ts = ⟨l, p⟩ :: back ∧ rest = unplaced back := by
  obtain ⟨t, back, rfl, ht, rfl⟩ := List.map_eq_cons_iff.1 h
  cases ht
  exact ⟨t.position, back, rfl, rfl⟩

theorem exists_of_unplaced_pair {ts rest : List Token} {l m : Lexeme} {q r : Nat}
    (h : unplaced ts = ⟨l, q⟩ :: ⟨m, r⟩ :: rest) : ∃ q r back, ts = ⟨l, q⟩ :: ⟨m, r⟩ :: back := by
  obtain ⟨q, back, rfl, hback⟩ := exists_of_unplaced h
  obtain ⟨r, back, rfl, -⟩ := exists_of_unplaced hback.symm
  exact ⟨q, r, back, rfl⟩

theorem length_unplaced (ts : List Token) : (unplaced ts).length = ts.length :=
  List.length_map _

theorem nextLexeme_unplaced (ts : List Token) : nextLexeme (unplaced ts) = nextLexeme ts := by
  cases ts <;> rfl

theorem nextPosition_unplaced (ts : List Token) : nextPosition (unplaced ts) = 0 := by
  cases ts <;> rfl

theorem atBoundary_unplaced (ts : List Token) : atBoundary (unplaced ts) = atBoundary ts := by
  rw [atBoundary, nextLexeme_unplaced]
  rfl

theorem acceptMark?_unplaced (c : Char) (ts : List Token) :
    acceptMark? c (unplaced ts) = (acceptMark? c ts).map unplaced := by
  match ts with
  | [] => rfl
  | ⟨l, q⟩ :: ts =>
    cases l with
    | mark d =>
      change (if d = c then some (unplaced ts) else none) =
        (if d = c then some ts else none).map unplaced
      split <;> rfl
    | _ => rfl

theorem expectMark_unplaced (c : Char) (ts : List Token) :
    expectMark c (unplaced ts) =
      match expectMark c ts with
      | .ok rest => .ok (unplaced rest)
      | .error e => .error e.unplaced := by
  unfold expectMark
  rw [acceptMark?_unplaced, nextLexeme_unplaced, nextPosition_unplaced]
  cases acceptMark? c ts <;> rfl

theorem dropDot_unplaced (ts : List Token) : dropDot (unplaced ts) = unplaced (dropDot ts) := by
  match ts with
  | [] => rfl
  | [t] => rw [dropDot_single, unplaced, List.map_singleton, dropDot_single]
  | t :: u :: ts =>
    rw [dropDot_pair, unplaced, List.map_cons, List.map_cons, dropDot_pair]
    split <;> rfl

theorem dropReceiver_unplaced (ts : List Token) :
    dropReceiver (unplaced ts) = unplaced (dropReceiver ts) := by
  match ts with
  | [] => rfl
  | [t] => rw [dropReceiver_single, unplaced, List.map_singleton, dropReceiver_single]
  | t :: u :: ts =>
    rw [dropReceiver_pair, unplaced, List.map_cons, List.map_cons, dropReceiver_pair]
    split <;> rfl

/-! ## Readers that do not look at places -/

section

variable {α : Type} {item : Reader α} (hitem : Blind item)
include hitem

theorem blind_sepBy (c : Char) : Blind (sepBy item c) := by
  intro ts
  fun_induction sepBy item c ts with
  | case1 ts e he =>
    rw [sepBy, hitem, he]
    rfl
  | case2 ts a rest ha hnone =>
    rw [sepBy, hitem, ha]
    simp only [forget, acceptMark?_unplaced, hnone, Option.map_none]
  | case3 ts a rest ha more hmore hlt e he ih =>
    rw [sepBy, hitem, ha]
    rw [he] at ih
    simp only [forget, acceptMark?_unplaced, hmore, Option.map_some, length_unplaced, hlt, if_true,
      ih]
  | case4 ts a rest ha more hmore hlt as rest' has ih =>
    rw [sepBy, hitem, ha]
    rw [has] at ih
    simp only [forget, acceptMark?_unplaced, hmore, Option.map_some, length_unplaced, hlt, if_true,
      ih]
  | case5 ts a rest ha more hmore hlt =>
    rw [sepBy, hitem, ha]
    simp only [forget, acceptMark?_unplaced, hmore, Option.map_some, length_unplaced, hlt, if_false]

theorem blind_listUntil (close : Char) : Blind (listUntil item close) := by
  intro ts
  fun_induction listUntil item close ts with
  | case1 ts e he =>
    rw [listUntil, hitem, he]
    rfl
  | case2 ts a rest ha rest' hrest =>
    rw [listUntil, hitem, ha]
    simp only [forget, acceptMark?_unplaced, hrest, Option.map_some]
  | case3 ts a rest ha hnone e he =>
    rw [listUntil, hitem, ha]
    simp only [forget, acceptMark?_unplaced, hnone, Option.map_none, expectMark_unplaced, he]
  | case4 ts a rest ha hnone more hmore hlt e he ih =>
    rw [listUntil, hitem, ha]
    rw [he] at ih
    simp only [forget, acceptMark?_unplaced, hnone, Option.map_none, expectMark_unplaced, hmore,
      length_unplaced, hlt, if_true, ih]
  | case5 ts a rest ha hnone more hmore hlt as rest' has ih =>
    rw [listUntil, hitem, ha]
    rw [has] at ih
    simp only [forget, acceptMark?_unplaced, hnone, Option.map_none, expectMark_unplaced, hmore,
      length_unplaced, hlt, if_true, ih]
  | case6 ts a rest ha hnone more hmore hlt =>
    rw [listUntil, hitem, ha]
    simp only [forget, acceptMark?_unplaced, hnone, Option.map_none, expectMark_unplaced, hmore,
      length_unplaced, hlt, if_false]

omit hitem in
theorem Blind.map {β : Type} {reader : Reader β} {f : α → β} (h : Blind item)
    (hreader : ∀ ts, reader ts = (item ts).map fun r => (f r.1, r.2)) : Blind reader := by
  intro ts
  rw [hreader, hreader, h]
  cases item ts <;> rfl

end

section

variable {operand : Reader Node} (hoperand : Blind operand)
include hoperand

theorem blind_readType : Blind (readType operand) :=
  (blind_sepBy hoperand '|').map (readType_eq operand)

theorem blind_readUnder (kind : Kind) : Blind (readUnder operand kind) :=
  hoperand.map (f := fun n => { kind, children := [n] }) fun ts => readUnder_eq operand ts kind

theorem blind_readParam : Blind (readParam operand) := by
  intro ts
  rw [readParam_eq, readParam_eq, dropReceiver_unplaced]
  exact blind_readType hoperand _

theorem blind_readNamed (name : String) : Blind (readNamed operand name) := by
  intro ts
  rw [readNamed_eq, readNamed_eq, dropDot_unplaced, acceptMark?_unplaced]
  cases acceptMark? '<' (dropDot ts) with
  | none => rfl
  | some inner =>
    simp only [Option.map_some]
    rw [blind_sepBy (blind_readType hoperand)]
    cases sepBy (readType operand) ',' inner with
    | error e => rfl
    | ok r =>
      simp only [forget, expectMark_unplaced]
      cases expectMark '>' r.2 <;> rfl

theorem blind_readReturns (params : List Node) : Blind (readReturns operand params) := by
  intro ts
  unfold readReturns
  rw [acceptMark?_unplaced]
  cases acceptMark? ':' ts with
  | none => rfl
  | some rest =>
    simp only [Option.map_some]
    rw [hoperand]
    cases operand rest <;> rfl

theorem blind_readFunction : Blind (readFunction operand) := by
  intro ts
  unfold readFunction
  rw [acceptMark?_unplaced]
  cases acceptMark? ')' ts with
  | some rest => exact blind_readReturns hoperand [] rest
  | none =>
    simp only [Option.map_none]
    rw [blind_listUntil (blind_readParam hoperand)]
    cases listUntil (readParam operand) ')' ts with
    | error e => rfl
    | ok r => exact blind_readReturns hoperand r.1 r.2

theorem blind_readEntry : Blind (readEntry operand) := by
  intro ts
  match ts with
  | [] => rfl
  | ⟨l, q⟩ :: ts =>
    change readEntry operand (⟨l, 0⟩ :: unplaced ts) = _
    simp only [readEntry, acceptMark?_unplaced]
    cases l.key? with
    | none => rfl
    | some key =>
      cases acceptMark? ':' ts with
      | none => rfl
      | some rest =>
        simp only [Option.map_some]
        rw [blind_readType hoperand]
        cases readType operand rest <;> rfl

theorem blind_readRecord : Blind (readRecord operand) := by
  intro ts
  unfold readRecord
  rw [acceptMark?_unplaced]
  cases acceptMark? '}' ts with
  | some rest => rfl
  | none =>
    simp only [Option.map_none]
    rw [blind_listUntil (blind_readEntry hoperand)]
    cases listUntil (readEntry operand) '}' ts <;> rfl

theorem blind_readEnclosed : Blind (readEnclosed operand) := by
  intro ts
  unfold readEnclosed
  rw [blind_readType hoperand]
  cases readType operand ts with
  | error e => rfl
  | ok r =>
    simp only [forget, expectMark_unplaced]
    cases expectMark ')' r.2 <;> rfl

theorem blind_readPrimary : Blind (readPrimary operand) := by
  intro ts
  match ts with
  | [] => rfl
  | ⟨.name text, q⟩ :: ts =>
    change readPrimary operand (⟨.name text, 0⟩ :: unplaced ts) = _
    rw [readPrimary_name, readPrimary_name, acceptMark?_unplaced]
    split
    · cases acceptMark? '(' ts with
      | none => exact blind_readNamed hoperand text ts
      | some inner => exact blind_readFunction hoperand inner
    · exact blind_readNamed hoperand text ts
  | ⟨.mark c, q⟩ :: ts =>
    change readPrimary operand (⟨.mark c, 0⟩ :: unplaced ts) = _
    rw [readPrimary_mark, readPrimary_mark]
    split
    · rfl
    · split
      · exact blind_readEnclosed hoperand ts
      · split
        · exact blind_readRecord hoperand ts
        · rfl
  | ⟨.quoted _, _⟩ :: _ | ⟨.number _, _⟩ :: _ | ⟨.ellipsis, _⟩ :: _ | ⟨.stop, _⟩ :: _ => rfl

omit hoperand in
theorem readSuffixes_unplaced (node : Node) (ts : List Token) :
    readSuffixes node (unplaced ts) =
      ((readSuffixes node ts).1, unplaced (readSuffixes node ts).2) := by
  fun_induction readSuffixes node ts with
  | case1 node p q ts ih => exact ih
  | case2 node p ts ih => exact ih
  | case3 node p ts ih => exact ih
  | case4 node p ts ih => exact ih
  | case5 node ts harray hoptional hnullable hnot =>
    apply readSuffixes.eq_5
    · intro q r rest h
      obtain ⟨q, r, back, rfl⟩ := exists_of_unplaced_pair h
      exact harray q r back rfl
    · intro q rest h
      obtain ⟨q, back, rfl, -⟩ := exists_of_unplaced h
      exact hoptional q back rfl
    · intro q rest h
      obtain ⟨q, back, rfl, -⟩ := exists_of_unplaced h
      exact hnullable q back rfl
    · intro q rest h
      obtain ⟨q, back, rfl, -⟩ := exists_of_unplaced h
      exact hnot q back rfl

theorem blind_readSuffixed : Blind (readSuffixed operand) := by
  intro ts
  unfold readSuffixed
  rw [blind_readPrimary hoperand]
  cases readPrimary operand ts with
  | error e => rfl
  | ok r =>
    simp only [forget, readSuffixes_unplaced]

theorem blind_readModified : Blind (readModified operand) := by
  intro ts
  match ts with
  | ⟨.mark c, q⟩ :: ts =>
    change readModified operand (⟨.mark c, 0⟩ :: unplaced ts) = _
    rw [readModified_mark, readModified_mark, atBoundary_unplaced]
    split
    · split
      · rfl
      · exact blind_readUnder hoperand .nullable ts
    · split
      · exact blind_readUnder hoperand .notNullable ts
      · exact blind_readSuffixed hoperand (⟨.mark c, q⟩ :: ts)
  | ⟨.ellipsis, q⟩ :: ts =>
    change readModified operand (⟨.ellipsis, 0⟩ :: unplaced ts) = _
    rw [readModified_dots, readModified_dots, atBoundary_unplaced]
    split
    · rfl
    · exact blind_readUnder hoperand .variadic ts
  | [] => exact blind_readSuffixed hoperand []
  | ⟨.name text, q⟩ :: ts => exact blind_readSuffixed hoperand (⟨.name text, q⟩ :: ts)
  | ⟨.quoted text, q⟩ :: ts => exact blind_readSuffixed hoperand (⟨.quoted text, q⟩ :: ts)
  | ⟨.number text, q⟩ :: ts => exact blind_readSuffixed hoperand (⟨.number text, q⟩ :: ts)
  | ⟨.stop, q⟩ :: ts => exact blind_readSuffixed hoperand (⟨.stop, q⟩ :: ts)

end

theorem blind_readOperand (depth : Nat) : Blind (readOperand depth) := by
  induction depth with
  | zero =>
    intro ts
    simp only [readOperand, nextPosition_unplaced]
    rfl
  | succ depth ih => exact blind_readModified ih

/-! ## Whole texts -/

theorem readAll_unplaced (depth : Nat) (ts : List Token) :
    readAll depth (unplaced ts) = (readAll depth ts).mapError SyntaxError.unplaced := by
  unfold readAll
  rw [blind_readType (blind_readOperand depth)]
  cases readType (readOperand depth) ts with
  | error e => rfl
  | ok r =>
    simp only [forget, nextLexeme_unplaced, nextPosition_unplaced]
    split <;> rfl

theorem readAll_eq_of_lexemes (depth : Nat) {ts us : List Token}
    (h : ts.map Token.lexeme = us.map Token.lexeme) :
    (readAll depth ts).mapError SyntaxError.unplaced =
      (readAll depth us).mapError SyntaxError.unplaced := by
  rw [← readAll_unplaced, ← readAll_unplaced, unplaced_eq_of_map h]

theorem isBlankText_spread {gap : Nat → List Char} (hblank : ∀ q, ∀ c ∈ gap q, isBlank c = true)
    (p : Nat) (cs : List Char) : isBlankText (spread gap p cs) = isBlankText cs := by
  have hgap : ∀ q, (gap q).all isBlank = true := fun q => List.all_eq_true.2 (hblank q)
  unfold isBlankText
  induction cs generalizing p with
  | nil => exact hgap p
  | cons c cs ih => rw [spread, List.all_append, hgap, List.all_cons, ih, List.all_cons,
      Bool.true_and]

/-- The two texts are read into the same tree, or neither is, for the same reason. -/
def ReadAlike (s t : String) : Prop :=
  (∃ node, parseNode s = .ok node ∧ parseNode t = .ok node) ∨
    ∃ e f, parseNode s = .error e ∧ parseNode t = .error f ∧ e.unplaced = f.unplaced

theorem readAlike_of_mapError {s t : String}
    (h : (parseNode s).mapError SyntaxError.unplaced =
      (parseNode t).mapError SyntaxError.unplaced) : ReadAlike s t := by
  unfold ReadAlike
  cases hs : parseNode s with
  | ok node =>
    cases ht : parseNode t with
    | ok node' =>
      rw [hs, ht] at h
      cases h
      exact Or.inl ⟨node, rfl, rfl⟩
    | error f =>
      rw [hs, ht] at h
      cases h
  | error e =>
    cases ht : parseNode t with
    | ok node' =>
      rw [hs, ht] at h
      cases h
    | error f =>
      rw [hs, ht] at h
      exact Or.inr ⟨e, f, rfl, rfl, Except.error.inj h⟩

/-- **Blanks between tokens never matter.** Let a text have tokens, and put in blanks of any kind at
any places where a token starts or ends. The text that comes out is read into the same tree, or
neither text can be read, and then for the same reason. -/
theorem parseNode_spread {source : String} {ts : List Token} (h : tokens source = .ok ts)
    {gap : Nat → List Char} (hblank : ∀ q, ∀ c ∈ gap q, isBlank c = true)
    (hedge : ∀ q, gap q ≠ [] → ∃ t ∈ ts, q = t.position ∨ q = t.finish) :
    ReadAlike (String.ofList (spread gap 0 source.toList)) source := by
  apply readAlike_of_mapError
  obtain ⟨ts', hts', hsame⟩ :=
    lexemes_spread hblank (lexed_of_tokensFrom h) (fun q _ => hedge q) 0
  unfold parseNode
  rw [tokens, String.toList_ofList, isBlankText_spread hblank, hts', h]
  split
  · rfl
  · exact readAll_eq_of_lexemes maxDepth hsame

/-- Blanks behind a name, around three dots and behind the whole text. -/
def sampleGap (q : Nat) : List Char :=
  if q = 8 then [' ']
  else if q = 9 ∨ q = 12 then ['\u2003', '\n']
  else if q = 15 then ['\t']
  else []

theorem function_type_spread :
    (tokens "function(...):?").isOk = true ∧
      ReadAlike "function (\u2003\n...\u2003\n):?\t" "function(...):?" := by
  have htokens : tokens "function(...):?" =
      .ok [⟨.name "function", 0⟩, ⟨.mark '(', 8⟩, ⟨.ellipsis, 9⟩, ⟨.mark ')', 12⟩, ⟨.mark ':', 13⟩,
        ⟨.mark '?', 14⟩, ⟨.stop, 15⟩] := by decide +kernel
  have hblank : ∀ q, ∀ c ∈ sampleGap q, isBlank c = true := by
    intro q
    unfold sampleGap
    split
    · exact forall_mem_of_all (by decide)
    · split
      · exact forall_mem_of_all (by decide)
      · split
        · exact forall_mem_of_all (by decide)
        · exact List.forall_mem_nil _
  have hplaces : ∀ q, sampleGap q ≠ [] → q = 8 ∨ q = 9 ∨ q = 12 ∨ q = 15 := by
    intro q hq
    unfold sampleGap at hq
    split at hq
    · next h => exact Or.inl h
    · split at hq
      · next h => exact Or.inr (or_assoc.1 (Or.inl h))
      · split at hq
        · next h => exact Or.inr (Or.inr (Or.inr h))
        · exact absurd rfl hq
  have hspread : String.ofList (spread sampleGap 0 "function(...):?".toList) =
      "function (\u2003\n...\u2003\n):?\t" := by decide +kernel
  rw [← hspread]
  refine ⟨by rw [htokens]; rfl, parseNode_spread htokens hblank fun q hq => ?_⟩
  rcases hplaces q hq with rfl | rfl | rfl | rfl
  · exact ⟨⟨.mark '(', 8⟩, by simp, Or.inl rfl⟩
  · exact ⟨⟨.mark '(', 8⟩, by simp, Or.inr rfl⟩
  · exact ⟨⟨.ellipsis, 9⟩, by simp, Or.inr rfl⟩
  · exact ⟨⟨.stop, 15⟩, by simp, Or.inl rfl⟩

end ApiDoc.TypeExpr
