import ApiDoc.Proofs.Comment.Sections
import ApiDoc.Proofs.TypeExpr.Lexed
import ApiDoc.Proofs.TypeExpr.Nesting

/-!
# Where the type of a tag ends

The type of a tag is cut out by counting braces, and the tag itself ends where the next marker line
starts. Neither looks at quotes, while a type may hold any character within a string. A type that is
read on its own is therefore read in a tag exactly when its braces are balanced, those within
strings included, and none of its lines after the first starts a tag.

* `closes_filter_isBrace`: only the braces of a text count.
* `balanced_of_tokens`: strings aside, the braces of a type are balanced.
* `quiet_of_tokens`: strings aside, no line of a type starts a tag.
* `reads_property_iff`: where a tag with a type is read as it is meant.
-/

namespace ApiDoc.Comment

open Text TypeExpr

/-! ## Counting braces -/

/-- One of the two characters that are counted. -/
def isBrace (c : Char) : Bool :=
  c == '{' || c == '}'

theorem isBrace_eq_false_of_isBlank {c : Char} (h : isBlank c = true) : isBrace c = false := by
  rw [Bool.eq_false_iff]
  intro hc
  rcases Bool.or_eq_true_iff.1 hc with hc | hc
  · obtain rfl := beq_iff_eq.1 hc
    exact absurd h (by decide)
  · obtain rfl := beq_iff_eq.1 hc
    exact absurd h (by decide)

theorem closes_filter_isBrace {depth : Nat} {cs : List Char} :
    Closes depth (cs.filter isBrace) ↔ Closes depth cs := by
  induction cs generalizing depth with
  | nil => exact Iff.rfl
  | cons c cs ih =>
    by_cases hopen : c = '{'
    · subst hopen
      rw [List.filter_cons_of_pos rfl, closes_open, closes_open, ih]
    · by_cases hclose : c = '}'
      · subst hclose
        rw [List.filter_cons_of_pos rfl, closes_close, closes_close]
        simp only [ih]
      · have hc : ¬ isBrace c = true := by simp [isBrace, hopen, hclose]
        rw [List.filter_cons_of_neg hc, closes_cons hopen hclose, ih]

theorem balanced_of_forall_ne {cs : List Char} (h : ∀ c ∈ cs, c ≠ '{' ∧ c ≠ '}') :
    Balanced cs := by
  induction cs with
  | nil => decide
  | cons c cs ih =>
    obtain ⟨⟨hopen, hclose⟩, hcs⟩ := List.forall_mem_cons.1 h
    exact (closes_cons hopen hclose).2 (ih hcs)

theorem Closes.append {d e : Nat} {a b : List Char} (ha : Closes d a) (hb : Closes e b) :
    Closes (d + e) (a ++ b) := by
  constructor
  · intro front back hcs
    rcases List.append_eq_append_iff.1 hcs with ⟨more, rfl, hmore⟩ | ⟨more, rfl, -⟩
    · -- the front runs into `b`, and all of `a` is closed by then
      have hfront := hb.1 more back hmore
      have hall := ha.2
      rw [List.count_append, List.count_append]
      omega
    · have hfront := ha.1 front more rfl
      omega
  · have ha := ha.2
    have hb := hb.2
    rw [List.count_append, List.count_append]
    omega

theorem Closes.braced {cs : List Char} (h : Balanced cs) : Balanced ('{' :: (cs ++ ['}'])) :=
  closes_open.2 (h.append (e := 1) (by decide))

/-! ## Cutting out a type -/

theorem filter_isBrace_stripStart (cs : List Char) :
    (stripStart cs).filter isBrace = cs.filter isBrace := by
  induction cs with
  | nil => rfl
  | cons c cs ih =>
    cases hc : isBlank c with
    | true =>
      have hbrace : ¬ isBrace c = true := by simp [isBrace_eq_false_of_isBlank hc]
      rw [stripStart_cons_of_isBlank hc, ih, List.filter_cons_of_neg hbrace]
    | false => rw [stripStart_cons_of_not_isBlank hc]

theorem filter_isBrace_strip (cs : List Char) :
    (strip cs).filter isBrace = cs.filter isBrace := by
  have hend : ∀ ds : List Char, (stripEnd ds).filter isBrace = ds.filter isBrace := by
    intro ds
    have h := filter_isBrace_stripStart ds.reverse
    rw [stripStart, List.filter_reverse] at h
    rw [stripEnd, List.filter_reverse, h, List.reverse_reverse]
  rw [strip, hend, filter_isBrace_stripStart]

theorem balanced_strip {cs : List Char} (h : Balanced cs) : Balanced (strip cs) := by
  rw [Balanced, ← closes_filter_isBrace, filter_isBrace_strip, closes_filter_isBrace]
  exact h

/-! ## The braces of a type -/

/-- The texts of all tokens, one after the other. -/
def joined (ts : List Token) : List Char :=
  ts.flatMap fun t => t.lexeme.text.toList

theorem filter_isBrace_joined {p : Nat} {cs : List Char} {ts : List Token} (h : Lexed p cs ts) :
    cs.filter isBrace = (joined ts).filter isBrace := by
  induction h with
  | stop p => rfl
  | blank hblank _ ih =>
    rw [List.filter_cons_of_neg (by simp [isBrace_eq_false_of_isBlank hblank]), ih]
  | token hread _ _ ih =>
    rw [(readLexeme?_append hread).1, joined, List.flatMap_cons, List.filter_append,
      List.filter_append, ih]
    rfl

theorem balanced_joined {ts : List Token} (h : Nested ts)
    (hall : ∀ t ∈ ts, (∃ c, t.lexeme = .mark c) ∨ Balanced t.lexeme.text.toList) :
    Balanced (joined ts) := by
  induction h with
  | nil => decide
  | @plain t ts hopen hclose _ ih =>
    obtain ⟨ht, hts⟩ := List.forall_mem_cons.1 hall
    have htext : Balanced t.lexeme.text.toList := by
      rcases ht with ⟨c, hc⟩ | ht
      · rw [hc] at hopen hclose ⊢
        refine balanced_of_forall_ne fun d hd => ?_
        obtain rfl : d = c := by simpa [Lexeme.text] using hd
        exact ⟨fun he => hopen (by rw [he]), fun he => hclose (by rw [he])⟩
      · exact ht
    exact htext.append (ih hts)
  | @braced inner ts p q _ _ ihinner ihts =>
    obtain ⟨-, hmore⟩ := List.forall_mem_cons.1 hall
    obtain ⟨hinner, hmore⟩ := List.forall_mem_append.1 hmore
    obtain ⟨-, hts⟩ := List.forall_mem_cons.1 hmore
    have hsplit : joined (⟨.mark '{', p⟩ :: (inner ++ ⟨.mark '}', q⟩ :: ts)) =
        '{' :: (joined inner ++ ['}']) ++ joined ts := by
      simp [joined, Lexeme.text]
    rw [hsplit]
    exact (ihinner hinner).braced.append (ihts hts)

/-- A row of tokens that is read to its end pairs up its braces. -/
theorem nested_of_lexed {p depth : Nat} {cs : List Char} {ts : List Token} {node : Node}
    (hlexed : Lexed p cs ts) (hread : readAll depth ts = .ok node) : Nested ts := by
  obtain ⟨used, rest, rfl, hused, hstop⟩ := nested_of_readAll hread
  obtain ⟨front, q, hts, hfront⟩ := hlexed.exists_concat
  refine hused.append ?_
  rcases List.append_eq_append_iff.1 hts with ⟨more, rfl, hrest⟩ | ⟨more, rfl, hrest⟩
  · cases more with
    | nil =>
      rw [hrest]
      exact .plain nofun nofun .nil
    | cons t more =>
      -- a token before the last does not stand for the end
      rw [hrest] at hstop
      have hshape := hfront t (List.mem_append_right _ List.mem_cons_self)
      exact absurd hstop hshape.ne_stop
  · cases more with
    | nil =>
      obtain rfl : rest = _ := hrest.symm
      exact .plain nofun nofun .nil
    | cons t more =>
      have hnil : rest = [] := by
        have hlength := congrArg List.length hrest
        simp only [List.length_append, List.length_cons, List.length_nil] at hlength
        exact List.length_eq_zero_iff.1 (by omega)
      rw [hnil]
      exact .nil

theorem balanced_of_tokens {p depth : Nat} {cs : List Char} {ts : List Token} {node : Node}
    (hlexed : Lexed p cs ts) (hread : readAll depth ts = .ok node)
    (hquoted : ∀ t ∈ ts, ∀ s, t.lexeme = .quoted s → Balanced s.toList) : Balanced cs := by
  rw [Balanced, ← closes_filter_isBrace, filter_isBrace_joined hlexed, closes_filter_isBrace]
  refine balanced_joined (nested_of_lexed hlexed hread) ?_
  obtain ⟨front, q, rfl, hfront⟩ := hlexed.exists_concat
  intro t ht
  rcases List.mem_append.1 ht with hmem | hmem
  · cases t with
    | mk l pos =>
      cases hfront _ hmem with
      | @quoted s _ _ _ _ => exact Or.inr (hquoted _ ht s rfl)
      | mark c _ => exact Or.inl ⟨c, rfl⟩
      | plain hplain _ =>
        refine Or.inr (balanced_of_forall_ne fun c hc => ?_)
        exact ⟨(hplain c hc).ne (not_isPlain_of_eq (by simp)),
          (hplain c hc).ne (not_isPlain_of_eq (by simp))⟩
  · obtain rfl := List.mem_singleton.1 hmem
    exact Or.inr (balanced_of_forall_ne nofun)

/-! ## The lines of a type -/

theorem not_marks_of_lexed {p : Nat} {cs : List Char} {ts : List Token} (h : Lexed p cs ts) :
    ¬ Marks cs := by
  induction h with
  | stop p => exact not_marks_nil
  | blank hblank _ ih =>
    intro hmarks
    rcases marks_cons.1 hmarks with ⟨-, hmore⟩ | ⟨rfl, -⟩
    · exact ih hmore
    · exact absurd hblank (by decide)
  | @token p l cs rest ts hread hhead _ _ =>
    obtain ⟨hcs, hne⟩ := readLexeme?_append hread
    obtain ⟨c, text, htext⟩ := List.exists_cons_of_ne_nil hne
    rw [hcs, htext, List.cons_append] at hhead ⊢
    intro hmarks
    rcases marks_cons.1 hmarks with ⟨hblank, -⟩ | ⟨rfl, -⟩
    · rw [isInlineBlank_eq_false (hhead c rfl)] at hblank
      cases hblank
    · -- no token starts with an `@`
      cases readLexeme?_shape hread with
      | quoted hq hs =>
        have hhead : '@' = _ := (List.cons.inj (htext.symm.trans hs)).1
        rcases hq with rfl | rfl
        · exact absurd hhead (by decide)
        · exact absurd hhead (by decide)
      | mark c hc =>
        have hc' : [c] = '@' :: text := by simpa [Lexeme.text] using htext
        rw [(List.cons.inj hc').1] at hc
        exact absurd hc (by decide)
      | plain hplain _ =>
        have hat := hplain '@' (by rw [htext]; exact List.mem_cons_self)
        exact hat.ne (not_isPlain_of_eq (by simp)) rfl

theorem quiet_of_tokens {p : Nat} {cs : List Char} {ts : List Token} (h : Lexed p cs ts)
    (hquoted : ∀ t ∈ ts, ∀ s, t.lexeme = .quoted s → Quiet s.toList) : Quiet cs := by
  induction h with
  | stop p => exact quiet_nil
  | blank _ hlexed ih =>
    exact quiet_cons.2 ⟨fun _ => not_marks_of_lexed hlexed, ih hquoted⟩
  | @token p l cs rest ts hread _ _ ih =>
    obtain ⟨hl, hts⟩ := List.forall_mem_cons.1 hquoted
    rw [(readLexeme?_append hread).1]
    cases readLexeme?_shape hread with
    | @quoted s q body hq hs =>
      have hbreaks : Breaks q := by
        rcases hq with rfl | rfl
        · decide
        · decide
      have hquiet : Quiet s.toList := hl s rfl
      rw [hs, ← List.cons_append] at hquiet
      have hbody : Quiet (q :: body) := hquiet.of_infix (List.prefix_append _ _).isInfix
      have hall : (Lexeme.quoted s).text.toList ++ rest = (q :: body) ++ q :: rest := by
        rw [Lexeme.text, hs]
        simp
      rw [hall]
      exact hbody.append_break hbreaks (ih hts)
    | mark c hc =>
      refine Quiet.append_left (fun hmem => ?_) (ih hts)
      obtain rfl : '\n' = c := by simpa [Lexeme.text] using hmem
      exact absurd hc (by decide)
    | plain hplain _ =>
      refine Quiet.append_left (fun hmem => ?_) (ih hts)
      exact (hplain '\n' hmem).ne (not_isPlain_of_eq (by simp)) rfl

/-! ## A tag with a type -/

/-- A tag with the given type. -/
def propertyText (s : String) : String :=
  "@property \x7b" ++ s ++ "\x7d value - A value."

/-- The text is read as a single tag with the type, the name and the description that are meant. -/
def ReadsProperty (s : String) : Prop :=
  ∃ t, parseContent (propertyText s) = [.tag t] ∧ t.type = some (TypeExpr.parse s) ∧
    t.name = some "value" ∧ t.description = some "A value."

theorem tokens_of_parseNode {s : String} {node : Node} (h : parseNode s = .ok node) :
    isBlankText s.toList = false ∧
      ∃ ts, tokens s = .ok ts ∧ readAll maxDepth ts = .ok node := by
  unfold parseNode at h
  split at h
  · cases h
  · next hblank =>
    split at h
    · cases h
    · next ts hts => exact ⟨Bool.eq_false_iff.2 hblank, ts, hts, h⟩

theorem exists_node_of_isOk {s : String} (h : (parseNode s).isOk = true) :
    ∃ node, parseNode s = .ok node := by
  cases hs : parseNode s with
  | error e =>
    rw [hs] at h
    cases h
  | ok node => exact ⟨node, rfl⟩

/-- The strings in a type expression, as they are written. -/
def stringLiterals (s : String) : List String :=
  match tokens s with
  | .error _ => []
  | .ok ts => ts.filterMap fun t =>
    match t.lexeme with
    | .quoted text => some text
    | _ => none

theorem mem_stringLiterals {s text : String} {ts : List Token} {t : Token}
    (h : tokens s = .ok ts) (ht : t ∈ ts) (htext : t.lexeme = .quoted text) :
    text ∈ stringLiterals s := by
  rw [stringLiterals, h]
  exact List.mem_filterMap.2 ⟨t, ht, by rw [htext]⟩

/-- Strings aside, a type that is read on its own is balanced and quiet. -/
theorem balanced_and_quiet_of_parseNode {s : String} {node : Node} (h : parseNode s = .ok node)
    (hstrings : ∀ text ∈ stringLiterals s, Balanced text.toList ∧ Quiet text.toList) :
    Balanced s.toList ∧ Quiet s.toList := by
  obtain ⟨-, ts, hts, hread⟩ := tokens_of_parseNode h
  have hlexed : Lexed 0 s.toList ts := lexed_of_tokensFrom hts
  constructor
  · refine balanced_of_tokens hlexed hread fun t ht text htext => ?_
    exact (hstrings text (mem_stringLiterals hts ht htext)).1
  · refine quiet_of_tokens hlexed fun t ht text htext => ?_
    exact (hstrings text (mem_stringLiterals hts ht htext)).2

/-- What follows the label of the tag. -/
def propertyBody (cs : List Char) : List Char :=
  ' ' :: '{' :: (cs ++ '}' :: " value - A value.".toList)

theorem toList_propertyText (s : String) :
    (propertyText s).toList = '@' :: ("property".toList ++ propertyBody s.toList) := by
  simp [propertyText, propertyBody, String.toList_append]

theorem headed_property (cs : List Char) :
    Headed ('@' :: ("property".toList ++ propertyBody cs)) [] "property".toList
      (propertyBody cs) where
  text := rfl
  blanks := List.forall_mem_nil _
  label_ne_nil := by decide
  letters := forall_mem_of_all (by decide)
  body := by
    intro c hc
    obtain rfl := Option.some.inj hc
    rfl

/-- The tag is read as one only if no line within the type starts another. -/
theorem quiet_of_partsOf {cs : List Char} {part : Part}
    (h : partsOf ('@' :: ("property".toList ++ propertyBody cs)) = [part]) : Quiet cs := by
  rintro before after rfl hmarks
  have hsplit : '@' :: ("property".toList ++ propertyBody (before ++ '\n' :: after)) =
      ("@property \x7b".toList ++ before) ++ '\n' :: (after ++ "\x7d value - A value.".toList) := by
    simp [propertyBody]
  have hstart : Marks ("@property \x7b".toList ++ before) :=
    Marks.append ⟨[], 'p', "roperty \x7b".toList, by decide, by simp, by decide⟩ before
  have hnext := hmarks.append "\x7d value - A value.".toList
  rw [hsplit, partsOf_append_marks _ hnext] at h
  have hfirst := List.length_pos_iff.2 (partsOf_ne_nil hstart)
  have hsecond := List.length_pos_iff.2 (partsOf_ne_nil hnext)
  have hlength := congrArg List.length h
  rw [List.length_append, List.length_singleton] at hlength
  omega

theorem partsOf_property {cs : List Char} (h : Quiet cs) :
    partsOf ('@' :: ("property".toList ++ propertyBody cs)) =
      [.tag (readTag ('@' :: ("property".toList ++ propertyBody cs)) "property".toList
        (propertyBody cs))] := by
  have hrest : Quiet (cs ++ '}' :: " value - A value.".toList) :=
    h.append_break (by decide) (by decide)
  apply (headed_property cs).partsOf_eq
  exact Quiet.append_left (a := "@property \x7b".toList) (by decide) hrest

theorem readTag_property_type (source label cs : List Char) :
    (readTag source label (propertyBody cs)).type =
      (splitType ('{' :: (cs ++ '}' :: " value - A value.".toList))).1 := by
  rw [readTag_eq]
  rfl

/-- A balanced type is read up to its end, and what follows as the name and the description. -/
theorem readTag_property {s : String} {node : Node} (hstrip : strip s.toList = s.toList)
    (hnode : parseNode s = .ok node) (hbalanced : Balanced s.toList) (source label : List Char) :
    let t := readTag source label (propertyBody s.toList)
    t.type = some (TypeExpr.parse s) ∧ t.name = some "value" ∧
      t.description = some "A value." := by
  have hread : readBraced? ('{' :: (s.toList ++ '}' :: " value - A value.".toList)) =
      some (s.toList, " value - A value.".toList) :=
    readBraced?_eq_some_iff.2 ⟨rfl, hbalanced⟩
  have htype : typeOfBraces s.toList = some (TypeExpr.parse s) := by
    rw [typeOfBraces, (tokens_of_parseNode hnode).1, hstrip, String.ofList_toList]
    rfl
  have hbody : (propertyBody s.toList).dropWhile isInlineBlank =
      '{' :: (s.toList ++ '}' :: " value - A value.".toList) := rfl
  simp only [readTag_eq, hbody, splitType_of_some hread, htype]
  decide

/-- A type is cut out of a balanced text that is not blank. -/
theorem exists_inner_of_splitType {body : List Char} {t : TypeExpr}
    (h : (splitType body).1 = some t) :
    ∃ inner, isBlankText inner = false ∧ Balanced inner ∧
      t = TypeExpr.parse (String.ofList (strip inner)) := by
  unfold splitType at h
  split at h
  · next inner rest hread =>
    unfold typeOfBraces at h
    simp only at h
    split at h
    · cases h
    · next hblank =>
      exact ⟨inner, Bool.eq_false_iff.2 hblank, (readBraced?_eq_some_iff.1 hread).2,
        (Option.some.inj h).symm⟩
  · cases h

/-- A type that is cut out as it stands is balanced. -/
theorem balanced_of_splitType {cs body : List Char} {t : TypeExpr}
    (h : (splitType body).1 = some t) (ht : t.source = String.ofList cs) : Balanced cs := by
  obtain ⟨inner, -, hbalanced, rfl⟩ := exists_inner_of_splitType h
  have hcs : strip inner = cs := String.ofList_injective ht
  rw [← hcs]
  exact balanced_strip hbalanced

theorem ReadsProperty.balanced_and_quiet {s : String} (h : ReadsProperty s) :
    Balanced s.toList ∧ Quiet s.toList := by
  obtain ⟨t, hparts, htype, -, -⟩ := h
  rw [parseContent, toList_propertyText] at hparts
  have hquiet := quiet_of_partsOf hparts
  rw [partsOf_property hquiet] at hparts
  obtain rfl := Part.tag.inj (List.cons.inj hparts).1
  rw [readTag_property_type] at htype
  exact ⟨balanced_of_splitType htype String.ofList_toList.symm, hquiet⟩

/-- **The extent of a type.** Let a text without blanks at its ends be a type on its own. Between
the braces of a tag it is read as this type, with the name and the description behind it, exactly
when its braces are balanced, those within strings included, and no line of it after the first
starts a tag. Only strings can stand against that: it is so when each string of the type is balanced
and has no such line. -/
theorem reads_property_iff {s : String} {node : Node} (hstrip : strip s.toList = s.toList)
    (hnode : parseNode s = .ok node) :
    (ReadsProperty s ↔ Balanced s.toList ∧ Quiet s.toList) ∧
      ((∀ text ∈ stringLiterals s, Balanced text.toList ∧ Quiet text.toList) →
        Balanced s.toList ∧ Quiet s.toList) := by
  refine ⟨⟨ReadsProperty.balanced_and_quiet, ?_⟩, balanced_and_quiet_of_parseNode hnode⟩
  rintro ⟨hbalanced, hquiet⟩
  have hparts := partsOf_property hquiet
  rw [← toList_propertyText] at hparts
  exact ⟨_, hparts, readTag_property hstrip hnode hbalanced _ _⟩

/-- A record whose string holds a pair of braces. -/
theorem reads_property_braces_in_string :
    ReadsProperty "\x7ba: \"\x7b\x7d\"\x7d" := by
  have hok : (parseNode "\x7ba: \"\x7b\x7d\"\x7d").isOk = true := by decide +kernel
  obtain ⟨node, hnode⟩ := exists_node_of_isOk hok
  obtain ⟨hiff, hstrings⟩ := reads_property_iff (by decide) hnode
  apply hiff.2
  apply hstrings
  have hliterals : stringLiterals "\x7ba: \"\x7b\x7d\"\x7d" = ["\"\x7b\x7d\""] := by
    decide +kernel
  intro text htext
  rw [hliterals] at htext
  obtain rfl := List.mem_singleton.1 htext
  decide

/-- A closing brace within a string ends the type of a tag, though the string is a type. -/
theorem brace_in_string_ends_type :
    ¬ ∀ (s : String) (node : Node), strip s.toList = s.toList → parseNode s = .ok node →
      ReadsProperty s := by
  intro h
  have hok : (parseNode "\"\x7d\"").isOk = true := by decide +kernel
  obtain ⟨node, hnode⟩ := exists_node_of_isOk hok
  have hread := h _ node (by decide) hnode
  exact absurd hread.balanced_and_quiet.1 (by decide)

end ApiDoc.Comment
