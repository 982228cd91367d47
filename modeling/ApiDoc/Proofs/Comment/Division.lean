import ApiDoc.Proofs.Comment.BlockText

/-!
# The division of a text into doc blocks and gaps

Doc blocks are found by a search from left to right. Here they are described without the search: a
text is divided into gaps and blocks, where a block starts with an opener and ends with the first
`*/` that does not share a star with it, no opener stands in a gap before a block, and no opener
behind the last block is ever closed.

* `Divides.unique`: a text has one division at most.
* `exists_division`: the blocks that the search finds are those of a division.
* `extract_doc_divides`: so the doc comments of a text are those of its division.
-/

namespace ApiDoc.Comment

/-! ## Delimiters and their places -/

/-- Does the text start with an opener, a `/**` without a slash behind it? -/
def Opens (cs : List Char) : Prop :=
  ['/', '*', '*'] <+: cs ∧ cs[3]? ≠ some '/'

/-- Is there an opener at a place of a text? -/
def OpensAt (cs : List Char) (n : Nat) : Prop :=
  Opens (cs.drop n)

/-- Is there a `*/` at a place of a text? -/
def ClosesAt (cs : List Char) (n : Nat) : Prop :=
  ['*', '/'] <+: cs.drop n

theorem opensAt_append (a cs : List Char) (n : Nat) :
    OpensAt (a ++ cs) (a.length + n) ↔ OpensAt cs n := by
  rw [OpensAt, OpensAt, ← List.drop_drop, List.drop_left]

theorem closesAt_append (a cs : List Char) (n : Nat) :
    ClosesAt (a ++ cs) (a.length + n) ↔ ClosesAt cs n := by
  rw [ClosesAt, ClosesAt, ← List.drop_drop, List.drop_left]

theorem ClosesAt.add_two_le {cs : List Char} {n : Nat} (h : ClosesAt cs n) :
    n + 2 ≤ cs.length := by
  have hlength := h.length_le
  rw [List.length_drop] at hlength
  change 2 ≤ cs.length - n at hlength
  omega

theorem closesAt_extend {cs : List Char} {n : Nat} (hn : n + 2 ≤ cs.length) (more : List Char) :
    ClosesAt (cs ++ more) n ↔ ClosesAt cs n := by
  have hdrop : (cs ++ more).drop n = cs.drop n ++ more :=
    List.drop_append_of_le_length (by omega)
  rw [ClosesAt, ClosesAt, hdrop]
  constructor
  · intro h
    apply List.prefix_of_prefix_length_le h (List.prefix_append _ _)
    rw [List.length_drop]
    change 2 ≤ cs.length - n
    omega
  · intro h
    exact h.trans (List.prefix_append _ _)

theorem opens_extend {cs : List Char} (hn : 4 ≤ cs.length) (more : List Char) :
    Opens (cs ++ more) ↔ Opens cs := by
  have hnext : (cs ++ more)[3]? = cs[3]? := List.getElem?_append_left (by omega)
  rw [Opens, Opens, hnext]
  apply and_congr_left'
  constructor
  · intro h
    apply List.prefix_of_prefix_length_le h (List.prefix_append _ _)
    change 3 ≤ cs.length
    omega
  · intro h
    exact h.trans (List.prefix_append _ _)

/-! ## Divisions -/

/-- Is the text a doc block: from an opener up to the first `*/` behind it? -/
structure IsDocBlock (b : List Char) : Prop where
  opens : Opens b
  ends : ['*', '/'] <:+ b
  closes_last : ∀ n, 3 ≤ n → ClosesAt b n → n + 2 = b.length

/-- A block and the text between it and the block before it. -/
structure Stretch where
  gap : List Char
  block : List Char
deriving Repr, DecidableEq, Inhabited

/-- The text of a row of gaps and blocks. -/
def stretchText (stretches : List Stretch) : List Char :=
  stretches.flatMap fun p => p.gap ++ p.block

/-- The text is made up of the stretches and the tail. Each block is a doc block, no gap before a
block has an opener, and no opener of the tail has a `*/` behind its stars. -/
structure Divides (cs : List Char) (stretches : List Stretch) (tail : List Char) : Prop where
  text : cs = stretchText stretches ++ tail
  blocks : ∀ p ∈ stretches, IsDocBlock p.block
  gaps : ∀ before p after, stretches = before ++ p :: after →
    ∀ n < p.gap.length, ¬ OpensAt cs ((stretchText before).length + n)
  tail : ∀ n, (stretchText stretches).length ≤ n → OpensAt cs n →
    ∀ m, n + 3 ≤ m → ¬ ClosesAt cs m

/-- What stands between the opener of a block and its last `*/`. -/
def inside (block : List Char) : List Char :=
  (block.drop 3).take (block.length - 5)

/-- The comment of the block of a stretch. -/
def Stretch.comment (p : Stretch) : Comment where
  source := String.ofList p.block
  content := parseContent (String.ofList (stripStars (inside p.block)))

namespace IsDocBlock

variable {b : List Char} (h : IsDocBlock b)
include h

/-- The delimiters of a block share no star, as `/**/` is no opener. -/
theorem five_le_length : 5 ≤ b.length := by
  obtain ⟨⟨rest, rfl⟩, hnext⟩ := h.opens
  obtain ⟨front, hfront⟩ := h.ends
  match rest with
  | [] =>
    have hlast := congrArg List.getLast? hfront
    rw [List.getLast?_append] at hlast
    cases hlast
  | [c] =>
    have hlast := congrArg List.getLast? hfront
    rw [List.getLast?_append, List.getLast?_append] at hlast
    exact absurd hlast.symm hnext
  | _ :: _ :: rest =>
    simp only [List.length_append, List.length_cons]
    omega

theorem drop_eq : b.drop (b.length - 2) = ['*', '/'] :=
  (List.suffix_iff_eq_drop.1 h.ends).symm

theorem eq_delimited : b = ['/', '*', '*'] ++ inside b ++ ['*', '/'] := by
  have hlength := h.five_le_length
  have hopen : b.take 3 = ['/', '*', '*'] := (List.prefix_iff_eq_take.1 h.opens.1).symm
  have hrest : (b.drop 3).drop (b.length - 5) = b.drop (b.length - 2) := by
    rw [List.drop_drop]
    congr 1
    omega
  rw [inside, ← h.drop_eq, ← hrest, List.append_assoc, List.take_append_drop, ← hopen,
    List.take_append_drop]

theorem closesAt_end : ClosesAt b (b.length - 2) := by
  refine ⟨[], ?_⟩
  rw [List.append_nil, h.drop_eq]

/-- The first `*/` behind the opener ends a block, whatever follows it. -/
theorem length_le {c more more' : List Char} (hc : IsDocBlock c) (he : b ++ more = c ++ more') :
    b.length ≤ c.length := by
  have hb := h.five_le_length
  have hlength := hc.five_le_length
  by_contra hlt
  have hcloses : ClosesAt b (c.length - 2) := by
    rw [← closesAt_extend (by omega) more, he, closesAt_extend (by omega) more']
    exact hc.closesAt_end
  have := h.closes_last (c.length - 2) (by omega) hcloses
  omega

end IsDocBlock

theorem divides_nil {cs tail : List Char} :
    Divides cs [] tail ↔
      cs = tail ∧ ∀ n, OpensAt cs n → ∀ m, n + 3 ≤ m → ¬ ClosesAt cs m := by
  constructor
  · intro h
    exact ⟨h.text, fun n => h.tail n (Nat.zero_le n)⟩
  · rintro ⟨htext, htail⟩
    refine ⟨htext, List.forall_mem_nil _, ?_, fun n _ => htail n⟩
    intro before p after he
    cases before <;> cases he

theorem stretchText_cons (p : Stretch) (stretches : List Stretch) :
    stretchText (p :: stretches) = p.gap ++ p.block ++ stretchText stretches :=
  List.flatMap_cons

/-- A division from its first stretch on. -/
theorem divides_cons {cs tail : List Char} {p : Stretch} {stretches : List Stretch} :
    Divides cs (p :: stretches) tail ↔
      ∃ rest, cs = p.gap ++ p.block ++ rest ∧ IsDocBlock p.block ∧
        (∀ n < p.gap.length, ¬ OpensAt cs n) ∧ Divides rest stretches tail := by
  constructor
  · intro h
    obtain ⟨hblock, hblocks⟩ := List.forall_mem_cons.1 h.blocks
    have htext := h.text
    rw [stretchText_cons, List.append_assoc] at htext
    refine ⟨stretchText stretches ++ tail, htext, hblock, ?_, rfl, hblocks, ?_, ?_⟩
    · intro n hn
      have hgap := h.gaps [] p stretches rfl n hn
      rwa [stretchText, List.flatMap_nil, List.length_nil, Nat.zero_add] at hgap
    · intro before q after he n hn
      have hgap := h.gaps (p :: before) q after (by rw [he]; rfl) n hn
      rw [stretchText_cons, List.length_append, Nat.add_assoc, htext, opensAt_append] at hgap
      exact hgap
    · intro n hn hopen m hm
      have hlength : (stretchText (p :: stretches)).length ≤ (p.gap ++ p.block).length + n := by
        rw [stretchText_cons, List.length_append]
        omega
      have hclosed := h.tail _ hlength (by rw [htext, opensAt_append]; exact hopen)
        ((p.gap ++ p.block).length + m) (by omega)
      rwa [htext, closesAt_append] at hclosed
  · rintro ⟨rest, rfl, hblock, hgap, h⟩
    refine ⟨?_, List.forall_mem_cons.2 ⟨hblock, h.blocks⟩, ?_, ?_⟩
    · rw [h.text, stretchText_cons, ← List.append_assoc]
    · intro before q after he n hn
      cases before with
      | nil =>
        cases he
        rw [stretchText, List.flatMap_nil, List.length_nil, Nat.zero_add]
        exact hgap n hn
      | cons p' before =>
        cases he
        rw [stretchText_cons, List.length_append, Nat.add_assoc, opensAt_append]
        exact h.gaps before q after rfl n hn
    · intro n hn hopen m hm
      rw [stretchText_cons, List.length_append] at hn
      obtain ⟨n, rfl⟩ := Nat.exists_eq_add_of_le (show (p.gap ++ p.block).length ≤ n by omega)
      obtain ⟨m, rfl⟩ := Nat.exists_eq_add_of_le (show (p.gap ++ p.block).length ≤ m by omega)
      rw [opensAt_append] at hopen
      rw [closesAt_append]
      exact h.tail n (by omega) hopen m (by omega)

/-! ## There is one division at most -/

section

variable {p q : Stretch} {rest rest' : List Char}

theorem opensAt_gap (hp : IsDocBlock p.block) (rest : List Char) :
    OpensAt (p.gap ++ p.block ++ rest) p.gap.length := by
  have hlength := hp.five_le_length
  have hopens := opensAt_append p.gap (p.block ++ rest) 0
  rw [Nat.add_zero] at hopens
  rw [List.append_assoc, hopens]
  exact (opens_extend (by omega) rest).2 hp.opens

theorem closesAt_block (hp : IsDocBlock p.block) (rest : List Char) :
    ClosesAt (p.gap ++ p.block ++ rest) (p.gap.length + (p.block.length - 2)) := by
  have hlength := hp.five_le_length
  rw [List.append_assoc, closesAt_append, closesAt_extend (by omega)]
  exact hp.closesAt_end

theorem gap_length_le (he : p.gap ++ p.block ++ rest = q.gap ++ q.block ++ rest')
    (hq : IsDocBlock q.block)
    (hgap : ∀ n < p.gap.length, ¬ OpensAt (p.gap ++ p.block ++ rest) n) :
    p.gap.length ≤ q.gap.length := by
  by_contra hlt
  apply hgap q.gap.length (by omega)
  rw [he]
  exact opensAt_gap hq rest'

end

theorem Divides.unique {cs tail tail' : List Char} {stretches stretches' : List Stretch}
    (h : Divides cs stretches tail) (h' : Divides cs stretches' tail') :
    stretches' = stretches ∧ tail' = tail := by
  induction stretches generalizing cs stretches' with
  | nil =>
    obtain ⟨rfl, hopen⟩ := divides_nil.1 h
    cases stretches' with
    | nil => exact ⟨rfl, (divides_nil.1 h').1.symm⟩
    | cons q stretches' =>
      obtain ⟨rest, htext, hq, -, -⟩ := divides_cons.1 h'
      have hlength := hq.five_le_length
      rw [htext] at hopen
      exact absurd (closesAt_block hq rest) (hopen _ (opensAt_gap hq rest) _ (by omega))
  | cons p stretches ih =>
    obtain ⟨rest, rfl, hp, hgap, hrest⟩ := divides_cons.1 h
    cases stretches' with
    | nil =>
      obtain ⟨-, hopen⟩ := divides_nil.1 h'
      have hlength := hp.five_le_length
      exact absurd (closesAt_block hp rest) (hopen _ (opensAt_gap hp rest) _ (by omega))
    | cons q stretches' =>
      obtain ⟨rest', htext, hq, hgap', hrest'⟩ := divides_cons.1 h'
      -- an opener ends the gap, and the first `*/` behind it the block
      have hgaps : p.gap.length = q.gap.length := by
        apply Nat.le_antisymm (gap_length_le htext hq hgap)
        rw [htext] at hgap'
        exact gap_length_le htext.symm hp hgap'
      rw [List.append_assoc, List.append_assoc] at htext
      obtain ⟨hgapEq, hblocks⟩ := List.append_inj htext hgaps
      have hlengths : p.block.length = q.block.length :=
        Nat.le_antisymm (hp.length_le hq hblocks) (hq.length_le hp hblocks.symm)
      obtain ⟨hblockEq, rfl⟩ := List.append_inj hblocks hlengths
      obtain ⟨rfl, rfl⟩ := ih hrest hrest'
      obtain ⟨gap, block⟩ := p
      obtain ⟨gap', block'⟩ := q
      cases hgapEq
      cases hblockEq
      exact ⟨rfl, rfl⟩

/-! ## The search finds it -/

theorem not_closesAt_of_readToClose?_some {cs body rest : List Char}
    (h : readToClose? cs = some (body, rest)) : ∀ n < body.length, ¬ ClosesAt cs n := by
  fun_induction readToClose? cs generalizing body rest with
  | case1 =>
    cases h
    intro n hn
    cases hn
  | case2 c cs hfirst ih =>
    obtain ⟨⟨body', rest'⟩, hread, he⟩ := Option.map_eq_some_iff.1 h
    cases he
    intro n hn hclose
    cases n with
    | zero =>
      obtain ⟨more, hmore⟩ := hclose
      cases hmore
      exact hfirst more rfl rfl
    | succ n => exact ih hread n (Nat.lt_of_succ_lt_succ hn) hclose
  | case3 => cases h

theorem not_closesAt_of_readToClose?_none {cs : List Char} (h : readToClose? cs = none) (n : Nat) :
    ¬ ClosesAt cs n := by
  fun_induction readToClose? cs generalizing n with
  | case1 => cases h
  | case2 c cs hfirst ih =>
    intro hclose
    cases n with
    | zero =>
      obtain ⟨more, hmore⟩ := hclose
      cases hmore
      exact hfirst more rfl rfl
    | succ n => exact ih (Option.map_eq_none_iff.1 h) n hclose
  | case3 =>
    intro hclose
    have := hclose.add_two_le
    rw [List.length_nil] at this
    omega

theorem opener?_doc_of_opens {cs : List Char} (h : Opens cs) :
    Mode.doc.opener? cs = some (['/', '*', '*'], cs.drop 3) := by
  obtain ⟨⟨rest, rfl⟩, hnext⟩ := h
  cases rest with
  | nil => rfl
  | cons c rest =>
    have hc : c ≠ '/' := by
      rintro rfl
      exact hnext rfl
    simp [Mode.opener?, hc]

theorem opens_of_opener?_doc {cs opener rest : List Char}
    (h : Mode.doc.opener? cs = some (opener, rest)) : Opens cs ∧ opener = ['/', '*', '*'] := by
  unfold Mode.opener? at h
  split at h
  · cases h
  · next rest hnext =>
    cases h
    refine ⟨⟨⟨rest, rfl⟩, ?_⟩, rfl⟩
    intro hslash
    cases rest with
    | nil => cases hslash
    | cons c rest =>
      cases hslash
      exact hnext rest rfl
  · next hmode => cases hmode
  · cases h

/-- Where no block can be read at an opener, it is not closed. -/
theorem not_closesAt_of_readBlock? {cs : List Char} (h : Mode.doc.readBlock? cs = none)
    (hopen : Opens cs) (n : Nat) (hn : 3 ≤ n) : ¬ ClosesAt cs n := by
  rw [Mode.readBlock?, opener?_doc_of_opens hopen] at h
  obtain ⟨n, rfl⟩ := Nat.exists_eq_add_of_le hn
  cases hread : readToClose? (cs.drop 3) with
  | none =>
    have hnone := not_closesAt_of_readToClose?_none hread n
    rwa [ClosesAt, List.drop_drop] at hnone
  | some r =>
    simp only [hread] at h
    cases h

theorem isDocBlock_of_readBlock? {cs rest : List Char} {b : Block}
    (h : Mode.doc.readBlock? cs = some (b, rest)) :
    b.opener = ['/', '*', '*'] ∧ IsDocBlock b.source := by
  have hcs := Mode.readBlock?_append h
  unfold Mode.readBlock? at h
  split at h
  · cases h
  · next opener text hopener =>
    obtain ⟨hopen, rfl⟩ := opens_of_opener?_doc hopener
    split at h
    · cases h
    · next body after hread =>
      cases h
      have htext := (Mode.opener?_append hopener).1
      have hlength : (Block.source ⟨['/', '*', '*'], body⟩).length = 3 + body.length + 2 := by
        simp only [Block.source, List.length_append, List.length_cons, List.length_nil]
      refine ⟨rfl, ?_, ⟨_, rfl⟩, ?_⟩
      · rw [hcs, opens_extend (by omega)] at hopen
        exact hopen
      · intro n hn hclose
        have hend := hclose.add_two_le
        rw [← closesAt_extend hend rest, ← hcs, htext] at hclose
        obtain ⟨n, rfl⟩ := Nat.exists_eq_add_of_le hn
        have hlast : ¬ n < body.length := by
          intro hlt
          exact not_closesAt_of_readToClose?_some hread n hlt
            ((closesAt_append ['/', '*', '*'] text n).1 hclose)
        omega

/-- The comment of a block is read from what stands between its delimiters. -/
theorem ofBlock_of_readBlock? {cs rest : List Char} {b : Block}
    (h : Mode.doc.readBlock? cs = some (b, rest)) : ofBlock b = Stretch.comment ⟨[], b.source⟩ := by
  obtain ⟨hopener, hblock⟩ := isDocBlock_of_readBlock? h
  have hsource : b.source = ['/', '*', '*'] ++ b.body ++ ['*', '/'] := by
    rw [Block.source, hopener]
  have hbody : b.body = inside b.source :=
    List.append_cancel_left (List.append_cancel_right (hsource.symm.trans hblock.eq_delimited))
  rw [ofBlock, Stretch.comment, parseContent, String.toList_ofList, ← hbody]

/-- Where a text starts no block, its first character goes to the gap behind it. -/
theorem exists_division_cons {c : Char} {cs tail : List Char} {stretches : List Stretch}
    (hnone : Mode.doc.readBlock? (c :: cs) = none) (h : Divides cs stretches tail) :
    ∃ stretches' tail', Divides (c :: cs) stretches' tail' ∧
      stretches'.map Stretch.comment = stretches.map Stretch.comment := by
  have hfirst := not_closesAt_of_readBlock? hnone
  cases stretches with
  | nil =>
    obtain ⟨rfl, htail⟩ := divides_nil.1 h
    refine ⟨[], c :: cs, divides_nil.2 ⟨rfl, ?_⟩, rfl⟩
    intro n hopen m hm
    cases n with
    | zero => exact hfirst hopen m (by omega)
    | succ n =>
      obtain ⟨m, rfl⟩ := Nat.exists_eq_add_of_le' (show 1 ≤ m by omega)
      exact htail n hopen m (by omega)
  | cons p stretches =>
    obtain ⟨rest, rfl, hp, hgap, hrest⟩ := divides_cons.1 h
    refine ⟨⟨c :: p.gap, p.block⟩ :: stretches, tail,
      divides_cons.2 ⟨rest, rfl, hp, ?_, hrest⟩, rfl⟩
    intro n hn hopen
    cases n with
    | zero =>
      -- the block behind the gap would close the opener
      have hlength := hp.five_le_length
      exact hfirst hopen (p.gap.length + (p.block.length - 2) + 1) (by omega)
        (closesAt_block hp rest)
    | succ n => exact hgap n (Nat.lt_of_succ_lt_succ hn) hopen

theorem exists_division (cs : List Char) :
    ∃ stretches tail, Divides cs stretches tail ∧
      (Mode.doc.blocks cs).map ofBlock = stretches.map Stretch.comment := by
  generalize hmode : Mode.doc = mode
  fun_induction Mode.blocks mode cs with
  | case1 =>
    refine ⟨[], [], divides_nil.2 ⟨rfl, ?_⟩, rfl⟩
    intro n _ m _ hclose
    have := hclose.add_two_le
    rw [List.length_nil] at this
    omega
  | case2 c rest hnone ih =>
    subst hmode
    obtain ⟨stretches, tail, hdivides, hcomments⟩ := ih
    obtain ⟨stretches', tail', hdivides', hsame⟩ := exists_division_cons hnone hdivides
    exact ⟨stretches', tail', hdivides', hcomments.trans hsame.symm⟩
  | case3 c rest b after hb _ ih =>
    subst hmode
    obtain ⟨stretches, tail, hdivides, hcomments⟩ := ih
    refine ⟨⟨[], b.source⟩ :: stretches, tail, divides_cons.2 ⟨after, ?_, ?_, ?_, hdivides⟩, ?_⟩
    · exact Mode.readBlock?_append hb
    · exact (isDocBlock_of_readBlock? hb).2
    · intro n hn
      cases hn
    · rw [List.map_cons, List.map_cons, hcomments, ofBlock_of_readBlock? hb]

/-- **Doc comments are the blocks of the division.** Every text has exactly one division into gaps
and doc blocks. The doc comments of the text are the blocks of the division in order, each read
from what stands between its delimiters. -/
theorem extract_doc_divides (source : String) :
    ∃ stretches tail, Divides source.toList stretches tail ∧
      (∀ stretches' tail', Divides source.toList stretches' tail' →
        stretches' = stretches ∧ tail' = tail) ∧
      (∀ p ∈ stretches, p.block = ['/', '*', '*'] ++ inside p.block ++ ['*', '/']) ∧
      extract .doc source = stretches.map Stretch.comment := by
  obtain ⟨stretches, tail, hdivides, hcomments⟩ := exists_division source.toList
  refine ⟨stretches, tail, hdivides, ?_, ?_, hcomments⟩
  · intro stretches' tail' h
    exact hdivides.unique h
  · intro p hp
    exact (hdivides.blocks p hp).eq_delimited

example : (extract .doc "/**/ /***/ /** a /** b */ */ /** c").map Comment.source =
    ["/***/", "/** a /** b */"] := by
  decide +kernel

end ApiDoc.Comment
