import ApiDoc.Files.Path
import ApiDoc.Proofs.Text.Strip

/-!
# Texts of paths

The text of a path names the path, as long as its names are such that a text can be divided into
them again. Such paths are all that come from texts (`Path.lexical_ofText`), and they stay such when
names are added at their end.

* `Path.ofText_text`: the text of a path is read as this path.
* `collapse_append`: names without double dots stay as they are behind a place.
-/

namespace ApiDoc.Files

open Text

/-! ## Names -/

/-- A name that the text of a path keeps. -/
structure IsName (n : String) : Prop where
  ne_empty : n ≠ ""
  ne_dot : n ≠ "."
  no_slash : '/' ∉ n.toList

theorem isName_of_mem_namesOf {s n : String} (h : n ∈ namesOf s) : IsName n := by
  obtain ⟨hmem, hkeep⟩ := List.mem_filter.1 h
  obtain ⟨hempty, hdot⟩ := of_decide_eq_true hkeep
  refine ⟨hempty, hdot, ?_⟩
  obtain ⟨part, hpart, rfl⟩ := List.mem_map.1 hmem
  rw [String.toList_ofList]
  exact not_mem_of_mem_splitAt hpart

theorem filter_names {names : List String} (h : ∀ n ∈ names, IsName n) :
    (names.filter fun n => n ≠ "" ∧ n ≠ ".") = names := by
  refine List.filter_eq_self.2 fun n hn => ?_
  exact decide_eq_true ⟨(h n hn).ne_empty, (h n hn).ne_dot⟩

theorem splitSlashes_joinSlashes {name : String} {names : List String}
    (h : ∀ n ∈ name :: names, IsName n) :
    splitSlashes (joinSlashes (name :: names)) = name :: names := by
  have hparts : ∀ p ∈ (name :: names).map String.toList, '/' ∉ p := by
    intro p hp
    obtain ⟨n, hn, rfl⟩ := List.mem_map.1 hp
    exact (h n hn).no_slash
  have hsplit := splitAt_intercalate hparts
  rw [splitSlashes, joinSlashes, String.toList_intercalate]
  have hsep : "/".toList = ['/'] := rfl
  rw [hsep, List.map_cons, hsplit]
  simp

/-! ## The text of a path -/

/-- A path as texts give it. -/
structure Path.Lexical (p : Path) : Prop where
  root : p.root = "" ∨ p.root = "/" ∨ p.root = "//"
  names : ∀ n ∈ p.names, IsName n

theorem Path.Lexical.below {p : Path} (h : p.Lexical) {names : List String}
    (hnames : ∀ n ∈ names, IsName n) : (p.below names).Lexical :=
  ⟨h.root, List.forall_mem_append.2 ⟨h.names, hnames⟩⟩

theorem Path.lexical_ofText (s : String) : (Path.ofText s).Lexical := by
  refine ⟨?_, fun n hn => isName_of_mem_namesOf hn⟩
  unfold Path.ofText Path.rootOf
  simp only
  split
  · exact Or.inr (Or.inl rfl)
  · exact Or.inr (Or.inr rfl)
  · exact Or.inr (Or.inl rfl)
  · exact Or.inl rfl

theorem namesOf_joinSlashes {names : List String} (h : ∀ n ∈ names, IsName n) :
    namesOf (joinSlashes names) = names := by
  cases names with
  | nil => rfl
  | cons name names => rw [namesOf, splitSlashes_joinSlashes h, filter_names h]

theorem splitSlashes_slash (s : String) : splitSlashes ("/" ++ s) = "" :: splitSlashes s := by
  rw [splitSlashes, String.toList_append]
  rfl

theorem namesOf_slash (s : String) : namesOf ("/" ++ s) = namesOf s := by
  rw [namesOf, splitSlashes_slash, List.filter_cons_of_neg (by decide), namesOf]

theorem head?_joinSlashes {names : List String} (h : ∀ n ∈ names, IsName n) :
    (joinSlashes names).toList.head? ≠ some '/' := by
  cases names with
  | nil => exact nofun
  | cons name names =>
    obtain ⟨hname, -⟩ := List.forall_mem_cons.1 h
    obtain ⟨c, cs, hcs⟩ : ∃ c cs, name.toList = c :: cs := by
      refine List.exists_cons_of_ne_nil fun hnil => hname.ne_empty ?_
      rw [← String.ofList_toList (s := name), hnil]
    have hc : c ≠ '/' := by
      rintro rfl
      exact hname.no_slash (by rw [hcs]; exact List.mem_cons_self)
    rw [joinSlashes, String.toList_intercalate, List.map_cons, hcs,
      List.intercalate_cons_cons_left]
    simpa using hc

theorem rootOf_append {root s : String} (hroot : root = "" ∨ root = "/" ∨ root = "//")
    (hs : s.toList.head? ≠ some '/') : Path.rootOf (root ++ s) = root := by
  have hslash : ∀ cs, s.toList ≠ '/' :: cs := by
    intro cs he
    rw [he] at hs
    exact hs rfl
  unfold Path.rootOf
  rcases hroot with rfl | rfl | rfl
  · rw [String.empty_append]
    split <;> grind
  · have htext : ("/" ++ s).toList = '/' :: s.toList := by simp
    rw [htext]
    split <;> grind
  · have htext : ("//" ++ s).toList = '/' :: '/' :: s.toList := by simp
    rw [htext]
    split <;> grind

/-- **Round trip of paths.** The text of a path is read as this path. -/
theorem Path.ofText_text {p : Path} (h : p.Lexical) : Path.ofText p.text = p := by
  obtain ⟨root, names⟩ := p
  obtain ⟨hroot, hnames⟩ := h
  simp only at hroot hnames
  unfold Path.text
  split
  · next hempty =>
    obtain ⟨hr, hn⟩ := Bool.and_eq_true_iff.1 hempty
    simp only [String.isEmpty_iff, List.isEmpty_iff] at hr hn
    rw [hr, hn]
    decide
  · have hnamesOf : namesOf (root ++ joinSlashes names) = names := by
      rcases hroot with rfl | rfl | rfl
      · rw [String.empty_append, namesOf_joinSlashes hnames]
      · rw [namesOf_slash, namesOf_joinSlashes hnames]
      · have htwo : "//" ++ joinSlashes names = "/" ++ ("/" ++ joinSlashes names) := by
          rw [← String.append_assoc]
          rfl
        rw [htwo, namesOf_slash, namesOf_slash, namesOf_joinSlashes hnames]
    rw [Path.ofText, rootOf_append hroot (head?_joinSlashes hnames), hnamesOf]

theorem Path.text_injective {p q : Path} (hp : p.Lexical) (hq : q.Lexical)
    (h : p.text = q.text) : p = q := by
  rw [← Path.ofText_text hp, h, Path.ofText_text hq]

/-! ## Double dots -/

theorem foldl_collapseStep {names : List String} (h : ".." ∉ names) (above : List String) :
    names.foldl collapseStep above = names.reverse ++ above := by
  induction names generalizing above with
  | nil => rfl
  | cons name names ih =>
    obtain ⟨hname, hnames⟩ := not_or.1 (mt List.mem_cons.2 h)
    rw [List.foldl_cons, collapseStep, if_neg (Ne.symm hname), ih hnames, List.reverse_cons,
      List.append_assoc]
    rfl

theorem collapse_append (a : List String) {b : List String} (h : ".." ∉ b) :
    collapse (a ++ b) = collapse a ++ b := by
  rw [collapse, List.foldl_append, foldl_collapseStep h, List.reverse_append, List.reverse_reverse,
    collapse]

end ApiDoc.Files
