import ApiDoc.Proofs.Comment.Closer
import ApiDoc.Proofs.Page.Layout

/-!
# Paths without the closing delimiter

A path is put together with slashes, so `*/` arises in it exactly where a name ends in a star and
another name follows. A text that neither contains `*/` nor ends in a star is `Tame`; taking tame
paths apart and putting them together leads to tame paths only.

* `tame_of_mem_splitSlashes`, `tame_joinSlashes`: names and their path.
* `tame_relativePath`: the way from one folder to another.
* `tame_pagePath`: the place of a page.
-/

namespace ApiDoc.Files

open Text

/-- A slash may follow this text. -/
structure Tame (s : String) : Prop where
  noCloser : NoCloser s.toList
  last : s.toList.getLast? ≠ some '*'

theorem tame_of_notMem {s : String} (h : '*' ∉ s.toList) : Tame s :=
  ⟨noCloser_of_notMem h, fun hlast => h (List.mem_of_getLast? hlast)⟩

theorem Tame.append {a b : String} (ha : Tame a) (hb : Tame b) : Tame (a ++ b) := by
  refine ⟨?_, ?_⟩
  · rw [String.toList_append]
    exact noCloser_append.2 ⟨ha.noCloser, hb.noCloser, fun hmeet => ha.last hmeet.1⟩
  · rw [String.toList_append, List.getLast?_append]
    cases hlast : b.toList.getLast? with
    | none => exact ha.last
    | some c =>
      rw [Option.some_or, ← hlast]
      exact hb.last

/-! ## Names and their path -/

theorem head?_of_splitAt {sep c : Char} {cs : List Char} {parts : List (List Char)}
    (h : splitAt sep (c :: cs) = [] :: parts) : c = sep := by
  by_contra hc
  rw [splitAt, if_neg hc] at h
  split at h
  · cases h
  · cases h

theorem getLast?_of_mem_splitAt {cs part : List Char} (h : NoCloser cs)
    (hlast : cs.getLast? ≠ some '*') (hpart : part ∈ splitAt '/' cs) :
    part.getLast? ≠ some '*' := by
  induction cs generalizing part with
  | nil =>
    rw [List.mem_singleton.1 hpart]
    exact hlast
  | cons c cs ih =>
    obtain ⟨hfirst, hcs⟩ := noCloser_cons.1 h
    have hlast' : cs.getLast? ≠ some '*' := by
      cases cs with
      | nil => exact nofun
      | cons d cs => exact hlast
    rw [splitAt] at hpart
    split at hpart
    · rcases List.mem_cons.1 hpart with rfl | hpart
      · exact nofun
      · exact ih hcs hlast' hpart
    · split at hpart
      · next hnil => exact absurd hnil (splitAt_ne_nil '/' cs)
      · next line parts hsplit =>
        have hline : line.getLast? ≠ some '*' := ih hcs hlast' (hsplit ▸ List.mem_cons_self)
        rcases List.mem_cons.1 hpart with rfl | hpart
        · cases line with
          | nil =>
            -- the name ends here, because of a slash or the end of the text
            rintro he
            obtain rfl := Option.some.inj he
            cases cs with
            | nil => exact hlast rfl
            | cons d cs => exact hfirst ⟨rfl, congrArg some (head?_of_splitAt hsplit)⟩
          | cons d line => exact hline
        · exact ih hcs hlast' (hsplit ▸ List.mem_cons_of_mem line hpart)

theorem tame_of_mem_splitSlashes {s n : String} (h : Tame s) (hn : n ∈ splitSlashes s) :
    Tame n := by
  obtain ⟨part, hpart, rfl⟩ := List.mem_map.1 hn
  have hslash : '/' ∉ part := not_mem_of_mem_splitAt hpart
  refine ⟨?_, ?_⟩
  · rw [String.toList_ofList]
    intro hin
    exact hslash (hin.subset (by simp))
  · rw [String.toList_ofList]
    exact getLast?_of_mem_splitAt h.noCloser h.last hpart

theorem tame_joinSlashes {names : List String} (h : ∀ n ∈ names, Tame n) :
    Tame (joinSlashes names) := by
  have hslash : Tame "/" := tame_of_notMem (by decide)
  induction names with
  | nil => exact tame_of_notMem (by decide)
  | cons n names ih =>
    obtain ⟨hn, hnames⟩ := List.forall_mem_cons.1 h
    by_cases hnil : names = []
    · rw [hnil, joinSlashes, String.intercalate_singleton]
      exact hn
    · rw [joinSlashes, String.intercalate_cons_of_ne_nil hnil]
      exact (hn.append hslash).append (ih hnames)

theorem tame_of_mem_namesOf {s n : String} (h : Tame s) (hn : n ∈ namesOf s) : Tame n :=
  tame_of_mem_splitSlashes h (List.mem_filter.1 hn).1

/-- All parts of the path are tame. -/
structure Path.Tame (p : Path) : Prop where
  root : Files.Tame p.root
  names : ∀ n ∈ p.names, Files.Tame n

theorem tame_rootOf (s : String) : Tame (Path.rootOf s) := by
  unfold Path.rootOf
  split <;> exact tame_of_notMem (by decide)

theorem tame_ofText {s : String} (h : Tame s) : (Path.ofText s).Tame :=
  ⟨tame_rootOf s, fun _ hn => tame_of_mem_namesOf h hn⟩

theorem Path.Tame.text {p : Path} (h : p.Tame) : Files.Tame p.text := by
  unfold Path.text
  split
  · exact tame_of_notMem (by decide)
  · exact h.root.append (tame_joinSlashes h.names)

theorem Path.Tame.join {p q : Path} (hp : p.Tame) (hq : q.Tame) : (p.join q).Tame := by
  unfold Path.join
  split
  · exact hq
  · exact ⟨hp.root, List.forall_mem_append.2 ⟨hp.names, hq.names⟩⟩

/-! ## Ways and places -/

section

variable {cwd : List String} (hcwd : ∀ n ∈ cwd, '*' ∉ n.toList)
include hcwd

theorem tame_relativePath {target : String} (h : Tame target) (start : String) :
    (relativePath cwd target start).Tame := by
  have hroot : Tame "" := tame_of_notMem (by decide)
  refine ⟨hroot, ?_⟩
  intro n hn
  rcases Page.mem_stepsBetween hn with rfl | hn
  · exact tame_of_notMem (by decide)
  · have hmem := mem_of_mem_collapse hn
    split at hmem
    · exact tame_of_mem_namesOf h hmem
    · rcases List.mem_append.1 hmem with hmem | hmem
      · exact tame_of_notMem (hcwd n hmem)
      · exact tame_of_mem_namesOf h hmem

end

theorem star_notMem_joinSlashes {names : List String} (h : ∀ n ∈ names, '*' ∉ n.toList) :
    '*' ∉ (joinSlashes names).toList := by
  induction names with
  | nil => decide
  | cons n names ih =>
    obtain ⟨hn, hnames⟩ := List.forall_mem_cons.1 h
    by_cases hnil : names = []
    · rw [hnil, joinSlashes, String.intercalate_singleton]
      exact hn
    · rw [joinSlashes, String.intercalate_cons_of_ne_nil hnil, String.toList_append,
        String.toList_append, List.mem_append, List.mem_append, not_or, not_or]
      exact ⟨⟨hn, by decide⟩, ih hnames⟩

/-- The folder of a file has no star where the names of the folders have none. -/
theorem star_notMem_folderText {s : String} (h : ∀ n ∈ (splitSlashes s).dropLast, '*' ∉ n.toList) :
    '*' ∉ (folderText s).toList := by
  have hhead : '*' ∉ (joinSlashes ((splitSlashes s).dropLast ++ [""])).toList := by
    apply star_notMem_joinSlashes
    refine List.forall_mem_append.2 ⟨h, List.forall_mem_singleton.2 (by decide)⟩
  unfold folderText
  split
  · decide
  · simp only
    split
    · decide
    · split
      · exact hhead
      · rw [String.toList_ofList, List.mem_reverse]
        intro hstar
        exact hhead (List.mem_reverse.1 ((List.dropWhile_subset _) hstar))

end ApiDoc.Files

namespace ApiDoc.Page

open Text Files

/-- The path of a page is tame: its folders have no stars, and the last name of the class goes on
with an extension. -/
theorem tame_pagePath {cwd : List String} (hcwd : ∀ n ∈ cwd, '*' ∉ n.toList) (docs : Docs)
    {c : ClassDoc} (hfile : ∀ n ∈ (splitSlashes c.file).dropLast, '*' ∉ n.toList)
    (hname : NoCloser c.name.toList) : (pagePath cwd docs c).Tame := by
  have hfolder : Tame (if (folderText c.file).isEmpty then "." else folderText c.file) := by
    split
    · exact tame_of_notMem (by decide)
    · exact tame_of_notMem (star_notMem_folderText hfile)
  have hpage : Tame (c.name ++ ".md") := by
    refine ⟨?_, ?_⟩
    · rw [String.toList_append]
      exact hname.append_framed ⟨by decide, by decide, by decide⟩
    · rw [String.toList_append, List.getLast?_append]
      exact nofun
  exact (tame_relativePath hcwd hfolder docs.sourceFolder).join (tame_ofText hpage)

end ApiDoc.Page
