import ApiDoc.Proofs.Page.Writing

/-!
# Pages inside the output folder

The name of a class stands in the path of its page as it is, so it may be more than one name and may
go up. Where the page of a class lies is settled by the folder of its file and by this name: it is
inside the output folder as long as the name does not start at the root and goes up at most as many
levels as the folder is deep.

* `inside_pagePath_iff`: which names keep the page inside.
* `writeAll_changesOnly`: a row of tasks changes nothing off the paths of its pages, however it ends.
* `pages_inside`: which classes have their pages inside, and what rendering them can change.
-/

namespace ApiDoc.Page

open Files Analysis

/-- A relative path that does not start with a double dot when it is normalized. -/
def Inside (p : Path) : Prop :=
  p.isAbsolute = false ∧ (normalize p.names).head? ≠ some ".."

instance (p : Path) : Decidable (Inside p) :=
  inferInstanceAs (Decidable (_ ∧ _))

/-! ## Names that keep a page inside -/

theorem isAbsoluteText_page (name : String) :
    isAbsoluteText (name ++ ".md") = true ↔ name.toList.head? = some '/' := by
  rw [isAbsoluteText, String.toList_append]
  cases name.toList with
  | nil => decide
  | cons c cs => simp

theorem inside_pagePath_iff {docs : Docs} {c : ClassDoc} {dir : List String}
    (h : LiesIn docs.sourceFolder c.file dir) (here : List String) :
    Inside (pagePath here docs c) ↔
      c.name.toList.head? ≠ some '/' ∧
        staysWithin dir.length (namesOf (c.name ++ ".md")) = true := by
  rw [pagePath_of_liesIn h here, Path.join]
  by_cases habsolute : isAbsoluteText (c.name ++ ".md") = true
  · have hslash := (isAbsoluteText_page c.name).1 habsolute
    rw [isAbsoluteText_eq] at habsolute
    rw [if_pos habsolute]
    constructor
    · rintro ⟨hrelative, -⟩
      rw [habsolute] at hrelative
      cases hrelative
    · rintro ⟨hname, -⟩
      exact absurd hslash hname
  · have hslash : c.name.toList.head? ≠ some '/' := mt (isAbsoluteText_page c.name).2 habsolute
    have hdepth := staysWithin_append h.no_dots 0 (namesOf (c.name ++ ".md"))
    rw [Nat.zero_add] at hdepth
    have hnormal := head?_normalize_eq_dots (dir ++ namesOf (c.name ++ ".md"))
    rw [hdepth] at hnormal
    rw [isAbsoluteText_eq] at habsolute
    rw [if_neg habsolute]
    change _ ∧ (normalize (dir ++ namesOf (c.name ++ ".md"))).head? ≠ some ".." ↔ _
    rw [Ne, hnormal, Bool.not_eq_false]
    exact ⟨fun hinside => ⟨hslash, hinside.2⟩, fun hname => ⟨rfl, hname.2⟩⟩

theorem inside_of_no_slash {docs : Docs} {c : ClassDoc} {dir : List String}
    (h : LiesIn docs.sourceFolder c.file dir) (hname : '/' ∉ c.name.toList) (here : List String) :
    Inside (pagePath here docs c) := by
  have hnames : namesOf (c.name ++ ".md") = [c.name ++ ".md"] :=
    congrArg Path.names (ofText_page hname)
  refine (inside_pagePath_iff h here).2 ⟨?_, ?_⟩
  · exact fun hhead => hname (List.mem_of_head? hhead)
  · rw [hnames, staysWithin_cons, if_neg (page_ne _).2.2]
    rfl

/-! ## What rendering can change -/

section

variable {style : Style} {docs : Docs} {root : Path}
  (hp : ∀ c, (pageTarget style docs root c).Rooted)
include hp

/-- However a task ends, it changes nothing off the path of its page. -/
theorem writeClass_changesOnly (t : Tree) (c : ClassDoc) :
    t.ChangesOnly (Passes (pageTarget style docs root c).names)
      (writeClass style docs root t c).1 := by
  have hfolders := (Tree.createFolders_adds (hp c).parent t style.cwd).changesOnly.mono
    fun q hq => passes_iff.2 (Or.inr hq)
  unfold writeClass
  simp only
  split
  · next hrun =>
    rw [pageTarget, hrun] at hfolders
    exact hfolders
  · next t₁ hrun =>
    have hwrite := Tree.write_changesOnly (hp c) t₁ style.cwd (pageBytes style docs c)
    rw [pageTarget, hrun] at hfolders
    rw [pageTarget, pageBytes] at hwrite
    split
    · next hrun' =>
      rw [hrun'] at hwrite
      exact hfolders.trans hwrite
    · next hrun' =>
      rw [hrun'] at hwrite
      exact hfolders.trans hwrite

theorem writeAll_changesOnly (t : Tree) (cs : List ClassDoc) :
    t.ChangesOnly (fun q => ∃ c ∈ cs, Passes (pageTarget style docs root c).names q)
      (writeAll style docs root t cs).1 := by
  induction cs generalizing t with
  | nil => exact Tree.ChangesOnly.refl _ t
  | cons c cs ih =>
    have hfirst : t.ChangesOnly
        (fun q => ∃ d ∈ c :: cs, Passes (pageTarget style docs root d).names q)
        (writeClass style docs root t c).1 :=
      (writeClass_changesOnly hp t c).mono fun q hq => ⟨c, List.mem_cons_self, hq⟩
    refine hfirst.trans ((ih _).mono ?_)
    rintro q ⟨d, hd, hq⟩
    exact ⟨d, List.mem_cons_of_mem c hd, hq⟩

end

theorem prefix_of_passes {root names q : List String} (hroot : ".." ∉ root)
    (h : staysWithin 0 names = true) (hq : Passes (root ++ names) q) : q <+: root ∨ root <+: q := by
  obtain ⟨front, hfront, rfl⟩ := hq
  rcases List.prefix_or_prefix_of_prefix hfront (List.prefix_append root names) with hle | hle
  · rw [collapse_of_no_dots fun hmem => hroot (hle.subset hmem)]
    exact Or.inl hle
  · obtain ⟨more, rfl⟩ := hle
    have hmore : more <+: names := (List.prefix_append_right_inj root).1 hfront
    exact Or.inr (prefix_collapse hroot (staysWithin_front h hmore))

/-- A place after rendering: as before, inside the output folder, or a folder that was missing at or
above the output folder. -/
def ChangedInside (root : List String) (t t' : Tree) (q : List String) : Prop :=
  t'.entry? q = t.entry? q ∨ root <+: q ∨
    (q <+: root ∧ t.entry? q = none ∧ t'.entry? q = some .folder)

section

variable {style : Style} (hcwd : ∀ n ∈ style.cwd, IsName n) {docs : Docs} {order : List ClassDoc}
  (hinside : ∀ c ∈ order, Inside (pagePath style.cwd docs c))
include hcwd hinside

theorem writeAll_inside (destination : String) {t : Tree}
    (hroot : ∀ q, q <+: (outputFolder style.cwd destination).names → t.entry? q = some .folder)
    (q : List String) :
    Tree.entry? (writeAll style docs (outputFolder style.cwd destination) t order).1 q =
        t.entry? q ∨
      (outputFolder style.cwd destination).names <+: q := by
  have hp := rooted_pageTarget hcwd docs (rooted_outputFolder hcwd destination)
  refine (writeAll_changesOnly hp t order q).imp id ?_
  rintro ⟨⟨c, hc, hq⟩, hne⟩
  obtain ⟨hrelative, hnormal⟩ := hinside c hc
  have hstays : staysWithin 0 (pagePath style.cwd docs c).names = true := by
    rw [Ne, head?_normalize_eq_dots, Bool.not_eq_false] at hnormal
    exact hnormal
  have hnames : (pageTarget style docs (outputFolder style.cwd destination) c).names =
      (outputFolder style.cwd destination).names ++ (pagePath style.cwd docs c).names := by
    rw [pageTarget, Path.join, hrelative]
    rfl
  rw [hnames] at hq
  rcases prefix_of_passes (dots_notMem_outputFolder _ _) hstays hq with hle | hle
  · exact absurd (hroot q hle) hne
  · exact hle

/-- Pages that are all inside are written inside, and nothing else is touched. -/
theorem renderIn_changedInside (destination : String) (workers : Option Int) (t : Tree)
    (q : List String) :
    ChangedInside (outputFolder style.cwd destination).names t
      (renderIn order style docs destination workers t).1 q := by
  have hroot := rooted_outputFolder hcwd destination
  have hdots := dots_notMem_outputFolder style.cwd destination
  have hadds := Tree.createFolders_adds hroot t style.cwd q
  rw [passes_of_no_dots hdots] at hadds
  unfold renderIn
  simp only
  split
  · next hrun =>
    rw [hrun] at hadds
    exact hadds.imp id Or.inr
  · next t₀ hrun =>
    obtain ⟨-, hfolders⟩ := Tree.createFolders_ok hroot hrun
    have hwritten := writeAll_inside hcwd hinside destination
      (fun q hq => hfolders q ((passes_of_no_dots hdots).2 hq)) q
    rw [hrun] at hadds
    split
    · exact hadds.imp id Or.inr
    · rcases hwritten with he | hle
      · rw [ChangedInside, he]
        exact hadds.imp id Or.inr
      · exact Or.inr (Or.inl hle)

end

/-- **Containment.** Let a model come from a source. The page of a class has a relative path that
does not lead out of the output folder just when the name of the class does not start at the root
and goes up no further than the folder of its file is deep below the source; so it is for every name
without a slash. If this holds of all classes, rendering, in whatever order and however it ends,
changes nothing outside of the output folder, but for creating it and the folders above it. -/
theorem pages_inside {t : Tree} (ht : t.WellFormed) {cwd : List String}
    (hcwd : t.entry? cwd = some .folder) {source : String} {docs : Docs}
    (hdocs : ModelOf t cwd source docs) :
    (∀ c ∈ docs.classes.values, ∃ dir, LiesIn docs.sourceFolder c.file dir ∧
      ∀ here, Inside (pagePath here docs c) ↔
        c.name.toList.head? ≠ some '/' ∧
          staysWithin dir.length (namesOf (c.name ++ ".md")) = true) ∧
    (∀ c ∈ docs.classes.values, '/' ∉ c.name.toList →
      ∀ here, Inside (pagePath here docs c)) ∧
    ∀ style : Style, (∀ n ∈ style.cwd, IsName n) →
      (∀ c ∈ docs.classes.values, Inside (pagePath style.cwd docs c)) →
      ∀ order : List ClassDoc, order.Perm docs.classes.values →
      ∀ destination workers u q,
        ChangedInside (outputFolder style.cwd destination).names u
          (renderIn order style docs destination workers u).1 q := by
  refine ⟨?_, ?_, ?_⟩
  · intro c hc
    obtain ⟨dir, hfile⟩ := hdocs.exists_liesIn ht hcwd hc
    exact ⟨dir, hfile, inside_pagePath_iff hfile⟩
  · intro c hc hname
    obtain ⟨dir, hfile⟩ := hdocs.exists_liesIn ht hcwd hc
    exact inside_of_no_slash hfile hname
  · intro style hstyle hinside order horder destination workers u q
    exact renderIn_changedInside hstyle (fun c hc => hinside c (horder.mem_iff.1 hc)) destination
      workers u q

/-- Pages of classes without slashes, written anywhere and in any order. -/
theorem family_pages_inside :
    (∀ here, Inside (pagePath here familyDocs bee)) ∧
    ∀ order : List ClassDoc, order.Perm familyDocs.classes.values → ∀ destination workers u q,
      ChangedInside (outputFolder ["home"] destination).names u
        (renderIn order { cwd := ["home"] } familyDocs destination workers u).1 q := by
  have ht : familyTree.WellFormed := by decide +kernel
  have hentry : ∀ n ∈ ["home"], IsEntryName n := by decide
  have hslash : ∀ c ∈ familyDocs.classes.values, '/' ∉ c.name.toList := by decide
  obtain ⟨-, hinside, hrender⟩ := pages_inside ht rfl modelOf_family
  refine ⟨hinside bee (by decide) (by decide), ?_⟩
  exact hrender { cwd := ["home"] } (fun n hn => (hentry n hn).toIsName)
    fun c hc => hinside c hc (hslash c hc) _

/-- A class whose name goes up, at the top of its source. -/
def climbTree : Tree where
  entries := [(["src"], .folder), (["src", "ant.js"], .file (.ok "/** @class ../Ant */".toUTF8))]

/-- The class of this source. -/
def climber : ClassDoc where
  file := "src/ant.js"
  name := "../Ant"

/-- The model of this source. -/
def climbDocs : Docs where
  sourceFolder := "src"
  classes := ⟨[("../Ant", climber)]⟩

/-- The page of this class is written beside the output folder. -/
theorem page_beside_output :
    ModelOf climbTree [] "src" climbDocs ∧ ¬ Inside (pagePath [] climbDocs climber) ∧
      climbTree.entry? ["Ant.md"] = none ∧
      Tree.entry? (render { cwd := [] } climbDocs "out" none climbTree).1 ["Ant.md"] =
        some (.file (.ok "# `class ../Ant`\n".toUTF8)) := by
  have hpaths : (climbTree.filesBelow ["src"]).map
      (fun names => ((Path.ofText "src").below names).text) = ["src/ant.js"] := by decide
  refine ⟨modelOf_of_sorted rfl rfl hpaths (by decide) (by decide +kernel), by decide, rfl, ?_⟩
  decide +kernel

end ApiDoc.Page
