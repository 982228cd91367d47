import ApiDoc.Proofs.Files.Route
import ApiDoc.Proofs.Page.Layout

/-!
# Writing pages in any order

The tasks that write the pages run in an order that nobody controls. Each needs the folders above
its page to be or to become folders, and its page not to be one. What is there when a task runs
depends on the tasks before it, yet whether all tasks succeed does not depend on the order: it is
settled by the places of the pages and of the folders above them (`Fits`), and so is the tree that
they leave (`Shows`).

* `writeClass_ok`, `exists_writeClass`: the task of one class.
* `writeAll_of_fits`, `fits_of_writeAll`: a row of tasks, both ways.
* `error_of_not_pagesFit`: pages that do not fit come out in no order.
* `render_any_order_iff`: when a site comes out the same and whole in every order.
-/

namespace ApiDoc.Page

open Files Analysis

/-! ## Paths of pages -/

/-- The path of a class's page. -/
def pageTarget (style : Style) (docs : Docs) (root : Path) (c : ClassDoc) : Path :=
  root.join (pagePath style.cwd docs c)

/-- The bytes of a class's page. -/
def pageBytes (style : Style) (docs : Docs) (c : ClassDoc) : ByteArray :=
  (renderClass style docs c).toUTF8

section

variable {here : List String} (hhere : ∀ n ∈ here, IsName n)
include hhere

theorem isName_absoluteNames (s : String) : ∀ n ∈ absoluteNames here s, IsName n := by
  intro n hn
  have hmem := mem_of_mem_collapse hn
  split at hmem
  · exact isName_of_mem_namesOf hmem
  · rcases List.mem_append.1 hmem with hmem | hmem
    · exact hhere n hmem
    · exact isName_of_mem_namesOf hmem

theorem lexical_pagePath (docs : Docs) (c : ClassDoc) : (pagePath here docs c).Lexical := by
  have hpage := Path.lexical_ofText (c.name ++ ".md")
  unfold pagePath Path.join
  simp only
  split
  · exact hpage
  · refine Path.Lexical.below ⟨Or.inl rfl, fun n hn => ?_⟩ hpage.names
    rcases mem_stepsBetween hn with rfl | hn
    · exact isName_dots
    · exact isName_absoluteNames hhere _ n hn

theorem rooted_outputFolder (destination : String) : (outputFolder here destination).Rooted :=
  (Path.lexical_ofText destination).rooted_resolve hhere

end

theorem rooted_pageTarget {style : Style} (hcwd : ∀ n ∈ style.cwd, IsName n) (docs : Docs)
    {root : Path} (hroot : root.Rooted) (c : ClassDoc) :
    (pageTarget style docs root c).Rooted := by
  have hpage := lexical_pagePath hcwd docs c
  unfold pageTarget Path.join
  split
  · next habsolute => exact ⟨habsolute, hpage.names⟩
  · exact ⟨hroot.absolute, List.forall_mem_append.2 ⟨hroot.names, hpage.names⟩⟩

section

variable {style : Style} {docs : Docs} {root : Path}

/-! ## One task -/

section

variable {t : Tree} {c : ClassDoc} (hp : (pageTarget style docs root c).Rooted)
include hp

/-- What a task that succeeds has found and done. -/
theorem writeClass_ok {t' : Tree} {p : Path} (h : writeClass style docs root t c = (t', .ok p)) :
    p = pageTarget style docs root c ∧ t.Writable (pageTarget style docs root c) ∧
      t.Wrote t' (pageTarget style docs root c) (pageBytes style docs c) := by
  unfold writeClass at h
  simp only at h
  split at h
  · cases h
  · next t₁ hfolders =>
    split at h
    · cases h
    · next t₂ hwrite =>
      cases h
      exact ⟨rfl, Tree.writable_of_ok hp hfolders hwrite⟩

theorem exists_writeClass (h : t.Writable (pageTarget style docs root c)) :
    ∃ t', writeClass style docs root t c = (t', .ok (pageTarget style docs root c)) := by
  obtain ⟨t₁, t₂, hfolders, hwrite⟩ := h.exists_write hp style.cwd (pageBytes style docs c)
  unfold pageTarget at hfolders
  unfold pageTarget pageBytes at hwrite
  refine ⟨t₂, ?_⟩
  unfold writeClass
  simp only [hfolders, hwrite]
  rfl

end

/-! ## A row of tasks -/

/-- The place of a class's page. -/
def pagePlace (style : Style) (docs : Docs) (root : Path) (c : ClassDoc) : List String :=
  collapse (pageTarget style docs root c).names

/-- A place is that of a folder above the page of a class. -/
def OnTheWay (style : Style) (docs : Docs) (root : Path) (c : ClassDoc) (q : List String) : Prop :=
  Passes (pageTarget style docs root c).names.dropLast q

/-- What it takes to write all pages of the given classes into a tree, except that pages may still
come over each other. -/
structure Fits (style : Style) (docs : Docs) (root : Path) (t : Tree) (cs : List ClassDoc) :
    Prop where
  steps : ∀ c ∈ cs, ∀ n ∈ (pageTarget style docs root c).names, IsStep n
  /-- No page is where a folder has to be. -/
  apart : ∀ c ∈ cs, ∀ d ∈ cs, ¬ OnTheWay style docs root d (pagePlace style docs root c)
  way : ∀ c ∈ cs, ∀ q, OnTheWay style docs root c q → t.NoFile q
  page : ∀ c ∈ cs, t.TakesFile (pagePlace style docs root c)

/-- No two classes have their pages at one place. -/
def OwnPlaces (style : Style) (docs : Docs) (root : Path) (cs : List ClassDoc) : Prop :=
  ∀ c ∈ cs, ∀ d ∈ cs, pagePlace style docs root c = pagePlace style docs root d → c = d

/-- A tree with the pages of the given classes and the folders above them, and otherwise as it
was. -/
structure Shows (style : Style) (docs : Docs) (root : Path) (t t' : Tree) (cs : List ClassDoc) :
    Prop where
  way : ∀ c ∈ cs, ∀ q, OnTheWay style docs root c q → t'.entry? q = some .folder
  page : ∀ c ∈ cs,
    t'.entry? (pagePlace style docs root c) = some (.file (.ok (pageBytes style docs c)))
  rest : ∀ q, (∀ c ∈ cs, ¬ OnTheWay style docs root c q) →
    (∀ c ∈ cs, q ≠ pagePlace style docs root c) → t'.entry? q = t.entry? q

theorem Fits.mono {t : Tree} {cs cs' : List ClassDoc} (h : Fits style docs root t cs)
    (hle : ∀ c ∈ cs', c ∈ cs) : Fits style docs root t cs' :=
  ⟨fun c hc => h.steps c (hle c hc), fun c hc d hd => h.apart c (hle c hc) d (hle d hd),
    fun c hc => h.way c (hle c hc), fun c hc => h.page c (hle c hc)⟩

theorem OwnPlaces.mono {cs cs' : List ClassDoc} (h : OwnPlaces style docs root cs)
    (hle : ∀ c ∈ cs', c ∈ cs) : OwnPlaces style docs root cs' :=
  fun c hc d hd => h c (hle c hc) d (hle d hd)

theorem Fits.writable {t : Tree} {c : ClassDoc} {cs : List ClassDoc}
    (h : Fits style docs root t cs) (hc : c ∈ cs) :
    t.Writable (pageTarget style docs root c) :=
  ⟨h.steps c hc, h.way c hc, h.apart c hc c hc, h.page c hc⟩

/-- What the first task leaves is as good for the others as what it found. -/
theorem Fits.tail {t t' : Tree} {c : ClassDoc} {cs : List ClassDoc}
    (h : Fits style docs root t (c :: cs))
    (hwrote : t.Wrote t' (pageTarget style docs root c) (pageBytes style docs c)) :
    Fits style docs root t' cs := by
  have hmem : ∀ d ∈ cs, d ∈ c :: cs := fun d hd => List.mem_cons_of_mem c hd
  refine ⟨fun d hd => h.steps d (hmem d hd),
    fun d hd e he => h.apart d (hmem d hd) e (hmem e he), ?_, ?_⟩
  · intro d hd q hq
    by_cases hway : OnTheWay style docs root c q
    · exact Tree.noFile_of_folder (hwrote.way q hway)
    · have hpage : q ≠ pagePlace style docs root c := by
        intro he
        exact h.apart c List.mem_cons_self d (hmem d hd) (he ▸ hq)
      rw [Tree.NoFile, hwrote.rest q hway hpage]
      exact h.way d (hmem d hd) q hq
  · intro d hd
    by_cases hplace : pagePlace style docs root d = pagePlace style docs root c
    · rw [hplace]
      exact Or.inr ⟨_, hwrote.page⟩
    · rw [Tree.TakesFile, hwrote.rest _ (h.apart d (hmem d hd) c List.mem_cons_self) hplace]
      exact h.page d (hmem d hd)

theorem Shows.cons {t t₁ t' : Tree} {c : ClassDoc} {cs : List ClassDoc}
    (h : Fits style docs root t (c :: cs)) (hown : OwnPlaces style docs root (c :: cs))
    (hwrote : t.Wrote t₁ (pageTarget style docs root c) (pageBytes style docs c))
    (hshows : Shows style docs root t₁ t' cs) : Shows style docs root t t' (c :: cs) := by
  have hmem : ∀ d ∈ cs, d ∈ c :: cs := fun d hd => List.mem_cons_of_mem c hd
  refine ⟨?_, ?_, ?_⟩
  · intro d hd q hq
    rcases List.mem_cons.1 hd with rfl | hd
    · by_cases hway : ∃ e ∈ cs, OnTheWay style docs root e q
      · obtain ⟨e, he, hway⟩ := hway
        exact hshows.way e he q hway
      · have hpages : ∀ e ∈ cs, q ≠ pagePlace style docs root e := by
          intro e he hplace
          exact h.apart e (hmem e he) d List.mem_cons_self (hplace ▸ hq)
        rw [hshows.rest q (fun e he hq => hway ⟨e, he, hq⟩) hpages]
        exact hwrote.way q hq
    · exact hshows.way d hd q hq
  · intro d hd
    rcases List.mem_cons.1 hd with rfl | hd
    · by_cases hsame : ∃ e ∈ cs, pagePlace style docs root d = pagePlace style docs root e
      · obtain ⟨e, he, hplace⟩ := hsame
        rw [hown d List.mem_cons_self e (hmem e he) hplace]
        exact hshows.page e he
      · rw [hshows.rest _ (fun e he => h.apart d List.mem_cons_self e (hmem e he))
          fun e he hplace => hsame ⟨e, he, hplace⟩]
        exact hwrote.page
    · exact hshows.page d hd
  · intro q hway hpage
    obtain ⟨hwayc, hways⟩ := List.forall_mem_cons.1 hway
    obtain ⟨hpagec, hpages⟩ := List.forall_mem_cons.1 hpage
    rw [hshows.rest q hways hpages, hwrote.rest q hwayc hpagec]

section

variable (hp : ∀ c, (pageTarget style docs root c).Rooted)
include hp

/-- Tasks that fit all succeed, and leave what their pages say if each page has a place of its
own. -/
theorem writeAll_of_fits {t : Tree} {cs : List ClassDoc} (h : Fits style docs root t cs)
    (hown : OwnPlaces style docs root cs) :
    ∃ t', writeAll style docs root t cs =
        (t', cs.map fun c => (c.name, .ok (pageTarget style docs root c))) ∧
      Shows style docs root t t' cs := by
  induction cs generalizing t with
  | nil =>
    refine ⟨t, rfl, ?_, ?_, fun _ _ _ => rfl⟩
    · exact List.forall_mem_nil _
    · exact List.forall_mem_nil _
  | cons c cs ih =>
    obtain ⟨t₁, hrun⟩ := exists_writeClass (hp c) (h.writable List.mem_cons_self)
    obtain ⟨-, -, hwrote⟩ := writeClass_ok (hp c) hrun
    obtain ⟨t', hruns, hshows⟩ := ih (h.tail hwrote)
      (hown.mono fun d hd => List.mem_cons_of_mem c hd)
    refine ⟨t', ?_, Shows.cons h hown hwrote hshows⟩
    rw [writeAll, hrun]
    simp only [hruns, List.map_cons]

/-- Tasks that all succeed fit. -/
theorem fits_of_writeAll {t : Tree} {cs : List ClassDoc}
    (h : ∀ x ∈ (writeAll style docs root t cs).2, ∃ p, x.2 = .ok p) :
    Fits style docs root t cs := by
  induction cs generalizing t with
  | nil => exact ⟨List.forall_mem_nil _, List.forall_mem_nil _, List.forall_mem_nil _,
      List.forall_mem_nil _⟩
  | cons c cs ih =>
    have hsplit : ∀ t₁ r, writeClass style docs root t c = (t₁, r) →
        (writeAll style docs root t (c :: cs)).2 =
          (c.name, r) :: (writeAll style docs root t₁ cs).2 := by
      intro t₁ r hrun
      rw [writeAll, hrun]
    obtain ⟨t₁, r, hrun⟩ : ∃ t₁ r, writeClass style docs root t c = (t₁, r) := ⟨_, _, rfl⟩
    rw [hsplit t₁ r hrun] at h
    obtain ⟨⟨p, hr⟩, hrest⟩ := List.forall_mem_cons.1 h
    obtain rfl : r = .ok p := hr
    obtain ⟨-, hwritable, hwrote⟩ := writeClass_ok (hp c) hrun
    have htail := ih hrest
    refine ⟨?_, ?_, ?_, ?_⟩
    · exact List.forall_mem_cons.2 ⟨hwritable.steps, htail.steps⟩
    · -- a page is a file and a folder above a page a folder, from when they are written
      intro d hd e he
      rcases List.mem_cons.1 hd with hdc | hds
      · rcases List.mem_cons.1 he with hec | hes
        · rw [hdc, hec]
          exact hwritable.apart
        · rw [hdc]
          exact fun hway => htail.way e hes _ hway _ hwrote.page
      · rcases List.mem_cons.1 he with hec | hes
        · rw [hec]
          exact fun hway => (htail.page d hds).ne_folder (hwrote.way _ hway)
        · exact htail.apart d hds e hes
    · refine List.forall_mem_cons.2 ⟨hwritable.way, fun d hd q hq => ?_⟩
      exact Tree.Wrote.noFile_of_noFile hwritable hwrote (htail.way d hd q hq)
    · refine List.forall_mem_cons.2 ⟨hwritable.page, fun d hd => ?_⟩
      exact Tree.Wrote.takesFile hwritable hwrote (htail.page d hd)

end

/-- The classes alone settle what such a tree has, not their order. -/
theorem Shows.entry?_eq {t u u' : Tree} {cs cs' : List ClassDoc} (h : Shows style docs root t u cs)
    (h' : Shows style docs root t u' cs') (hmem : ∀ c, c ∈ cs ↔ c ∈ cs') (q : List String) :
    u.entry? q = u'.entry? q := by
  by_cases hway : ∃ c ∈ cs, OnTheWay style docs root c q
  · obtain ⟨c, hc, hq⟩ := hway
    rw [h.way c hc q hq, h'.way c ((hmem c).1 hc) q hq]
  · by_cases hpage : ∃ c ∈ cs, q = pagePlace style docs root c
    · obtain ⟨c, hc, hq⟩ := hpage
      rw [hq, h.page c hc, h'.page c ((hmem c).1 hc)]
    · have hway' : ∀ c ∈ cs, ¬ OnTheWay style docs root c q := fun c hc hq => hway ⟨c, hc, hq⟩
      have hpage' : ∀ c ∈ cs, q ≠ pagePlace style docs root c := fun c hc hq => hpage ⟨c, hc, hq⟩
      rw [h.rest q hway' hpage', h'.rest q (fun c hc => hway' c ((hmem c).2 hc))
        fun c hc => hpage' c ((hmem c).2 hc)]

theorem Shows.read {t u : Tree} {cs : List ClassDoc} (h : Shows style docs root t u cs)
    (hp : ∀ c, (pageTarget style docs root c).Rooted)
    (hsteps : ∀ c ∈ cs, ∀ n ∈ (pageTarget style docs root c).names, IsStep n) {c : ClassDoc}
    (hc : c ∈ cs) (here : List String) :
    u.read here (pageTarget style docs root c) = .ok (pageBytes style docs c) := by
  have hplace : u.locate here (pageTarget style docs root c) = .ok (pagePlace style docs root c) :=
    (Tree.locate_ok_iff (hp c)).2 ⟨hsteps c hc, h.way c hc, rfl⟩
  exact Tree.read_of_file hplace (h.page c hc)

/-! ## Outcomes -/

theorem map_fst_writeAll (t : Tree) (cs : List ClassDoc) :
    (writeAll style docs root t cs).2.map Prod.fst = cs.map ClassDoc.name := by
  induction cs generalizing t with
  | nil => rfl
  | cons c cs ih => rw [writeAll, List.map_cons, List.map_cons, ih]

end

section

variable {outcomes : List (String × Except FileError Path)}

theorem outcomeOf_eq_get? (n : String) : outcomeOf n outcomes = (⟨outcomes⟩ : Table _).get? n := by
  induction outcomes with
  | nil => rfl
  | cons x outcomes ih =>
    obtain ⟨m, r⟩ := x
    unfold Table.get? at ih ⊢
    rw [outcomeOf, Table.find?, ih]
    simp only [eq_comm]

theorem outcomeOf_of_mem (hnodup : (outcomes.map Prod.fst).Nodup) {n : String}
    {r : Except FileError Path} (h : (n, r) ∈ outcomes) : outcomeOf n outcomes = some r := by
  rw [outcomeOf_eq_get?]
  exact Table.get?_of_mem hnodup h

theorem gather_of_ok {f : ClassDoc → Path} {cs : List ClassDoc}
    (h : ∀ c ∈ cs, outcomeOf c.name outcomes = some (.ok (f c))) :
    gather outcomes cs = .ok (cs.map f) := by
  induction cs with
  | nil => rfl
  | cons c cs ih =>
    obtain ⟨hc, hcs⟩ := List.forall_mem_cons.1 h
    rw [gather, hc]
    simp only [ih hcs, List.map_cons]

theorem not_error_of_gather {cs : List ClassDoc} {ps : List Path}
    (h : gather outcomes cs = .ok ps) :
    ∀ c ∈ cs, ∀ e, outcomeOf c.name outcomes ≠ some (.error e) := by
  induction cs generalizing ps with
  | nil => exact List.forall_mem_nil _
  | cons c cs ih =>
    rw [gather] at h
    split at h
    · cases h
    · next hc =>
      split at h
      · cases h
      · next hrest =>
        refine List.forall_mem_cons.2 ⟨fun e he => ?_, ih hrest⟩
        rw [hc] at he
        cases he
    · next hc =>
      refine List.forall_mem_cons.2 ⟨fun e he => ?_, ih h⟩
      rw [hc] at he
      cases he

/-- If the paths of all tasks come out, every task has succeeded. -/
theorem ok_of_gather {cs : List ClassDoc} {ps : List Path}
    (hnodup : (outcomes.map Prod.fst).Nodup)
    (hnames : ∀ n ∈ outcomes.map Prod.fst, n ∈ cs.map ClassDoc.name)
    (h : gather outcomes cs = .ok ps) : ∀ x ∈ outcomes, ∃ p, x.2 = .ok p := by
  rintro ⟨n, r⟩ hx
  obtain ⟨c, hc, rfl⟩ := List.mem_map.1 (hnames n (List.mem_map.2 ⟨_, hx, rfl⟩))
  have houtcome := outcomeOf_of_mem hnodup hx
  cases r with
  | ok p => exact ⟨p, rfl⟩
  | error e => exact absurd houtcome (not_error_of_gather h c hc e)

end

/-! ## Whole sites -/

/-- Rendering succeeds in every order of the tasks, always with the paths of all pages in the order
of the classes and with the same tree, in which each path has the page of its class. -/
def RendersAlike (style : Style) (docs : Docs) (destination : String) (workers : Option Int)
    (t : Tree) : Prop :=
  let root := outputFolder style.cwd destination
  ∃ site : List String → Option Entry, ∀ order : List ClassDoc, order.Perm docs.classes.values →
    ∃ u, renderIn order style docs destination workers t =
        (u, .ok (docs.classes.values.map (pageTarget style docs root))) ∧
      (∀ q, u.entry? q = site q) ∧
      ∀ c ∈ docs.classes.values,
        u.read style.cwd (pageTarget style docs root c) = .ok (pageBytes style docs c)

/-- The pages of a model fit into a tree: the names of all paths can be followed, no page is where a
folder has to be, no file is in the way, and in the place of a page there is at most a file that can
be opened. -/
structure PagesFit (style : Style) (docs : Docs) (destination : String) (t : Tree) : Prop where
  rootSteps : ∀ n ∈ (outputFolder style.cwd destination).names, IsStep n
  rootWay : ∀ q, Passes (outputFolder style.cwd destination).names q → t.NoFile q
  rootApart : ∀ c ∈ docs.classes.values, ¬ Passes (outputFolder style.cwd destination).names
    (pagePlace style docs (outputFolder style.cwd destination) c)
  fits : Fits style docs (outputFolder style.cwd destination) t docs.classes.values

section

variable {style : Style} {docs : Docs} {root : Path}

theorem fits_iff_of_createFolders (hroot : root.Rooted) {t t₀ : Tree} {here : List String}
    (h : t.createFolders here root = (t₀, .ok ())) (cs : List ClassDoc) :
    Fits style docs root t₀ cs ↔ Fits style docs root t cs ∧
      ∀ c ∈ cs, ¬ Passes root.names (pagePlace style docs root c) := by
  have hadds := Tree.createFolders_adds hroot t here
  obtain ⟨-, hfolders⟩ := Tree.createFolders_ok hroot h
  rw [h] at hadds
  constructor
  · intro hfits
    refine ⟨⟨hfits.steps, hfits.apart, ?_, ?_⟩, ?_⟩
    · exact fun c hc q hq => hadds.noFile_iff.1 (hfits.way c hc q hq)
    · exact fun c hc => hadds.takesFile (hfits.page c hc)
    · exact fun c hc hq => (hfits.page c hc).ne_folder (hfolders _ hq)
  · rintro ⟨hfits, hapart⟩
    refine ⟨hfits.steps, hfits.apart, ?_, ?_⟩
    · exact fun c hc q hq => hadds.noFile_iff.2 (hfits.way c hc q hq)
    · intro c hc
      rcases hadds (pagePlace style docs root c) with hsame | ⟨hq, -, -⟩
      · rw [Tree.TakesFile, hsame]
        exact hfits.page c hc
      · exact absurd hq (hapart c hc)

end

theorem renderIn_eq {order : List ClassDoc} {style : Style} {docs : Docs} {destination : String}
    {workers : Option Int} (hworkers : ∀ n ∈ workers, 0 < n) {t t₀ : Tree}
    (h : t.createFolders style.cwd (outputFolder style.cwd destination) = (t₀, .ok ())) :
    renderIn order style docs destination workers t =
      ((writeAll style docs (outputFolder style.cwd destination) t₀ order).1,
        (gather (writeAll style docs (outputFolder style.cwd destination) t₀ order).2
          docs.classes.values).mapError .file) := by
  have hsome : workers.any (· ≤ 0) = false := by
    cases workers with
    | none => rfl
    | some n => simpa using hworkers n rfl
  unfold renderIn
  simp only [h, hsome, Bool.false_eq_true, if_false]

section

variable {style : Style} (hcwd : ∀ n ∈ style.cwd, IsName n) {docs : Docs} {destination : String}
  {workers : Option Int} {t : Tree} (hnames : (docs.classes.values.map ClassDoc.name).Nodup)
include hcwd hnames

theorem rendersAlike_of_pagesFit (hworkers : ∀ n ∈ workers, 0 < n)
    (hown : OwnPlaces style docs (outputFolder style.cwd destination) docs.classes.values)
    (h : PagesFit style docs destination t) : RendersAlike style docs destination workers t := by
  have hroot := rooted_outputFolder hcwd destination
  have hp := rooted_pageTarget hcwd docs hroot
  obtain ⟨t₀, ht₀⟩ := (Tree.createFolders_ok_iff hroot).2 ⟨h.rootSteps, h.rootWay⟩
  have hfits := (fits_iff_of_createFolders hroot ht₀ docs.classes.values).2 ⟨h.fits, h.rootApart⟩
  obtain ⟨site, -, hsite⟩ := writeAll_of_fits hp hfits hown
  refine ⟨fun q => site.entry? q, fun order horder => ?_⟩
  have hmem : ∀ c, c ∈ order ↔ c ∈ docs.classes.values := fun c => horder.mem_iff
  have hfits' := hfits.mono fun c hc => (hmem c).1 hc
  obtain ⟨u, hrun, hshows⟩ := writeAll_of_fits hp hfits' (hown.mono fun c hc => (hmem c).1 hc)
  refine ⟨u, ?_, hshows.entry?_eq hsite hmem, ?_⟩
  · have hnodup : ((writeAll style docs (outputFolder style.cwd destination) t₀ order).2.map
        Prod.fst).Nodup := by
      rw [map_fst_writeAll]
      exact (horder.map ClassDoc.name).nodup_iff.2 hnames
    rw [hrun] at hnodup
    rw [renderIn_eq hworkers ht₀, hrun, gather_of_ok fun c hc =>
      outcomeOf_of_mem hnodup (List.mem_map.2 ⟨c, (hmem c).2 hc, rfl⟩)]
    rfl
  · exact fun c hc => hshows.read hp hfits'.steps ((hmem c).2 hc) style.cwd

/-- If the paths of all pages come out in some order, the pages fit. -/
theorem pagesFit_of_gather {t₀ : Tree}
    (ht₀ : t.createFolders style.cwd (outputFolder style.cwd destination) = (t₀, .ok ()))
    {order : List ClassDoc} (horder : order.Perm docs.classes.values) {ps : List Path}
    (h : gather (writeAll style docs (outputFolder style.cwd destination) t₀ order).2
      docs.classes.values = .ok ps) : PagesFit style docs destination t := by
  have hroot := rooted_outputFolder hcwd destination
  have hp := rooted_pageTarget hcwd docs hroot
  obtain ⟨hsteps, hway⟩ := (Tree.createFolders_ok_iff hroot).1 ⟨t₀, ht₀⟩
  have hfst : (writeAll style docs (outputFolder style.cwd destination) t₀ order).2.map Prod.fst =
      order.map ClassDoc.name := map_fst_writeAll t₀ order
  have hperm := hfst ▸ horder.map ClassDoc.name
  have hok := ok_of_gather (hperm.nodup_iff.2 hnames) (fun n => hperm.mem_iff.1) h
  obtain ⟨hfits, hapart⟩ :=
    (fits_iff_of_createFolders hroot ht₀ _).1 (fits_of_writeAll hp hok)
  exact ⟨hsteps, hway, fun c hc => hapart c (horder.mem_iff.2 hc),
    hfits.mono fun c hc => horder.mem_iff.2 hc⟩

/-- Pages that do not fit come out in no order. -/
theorem error_of_not_pagesFit (hworkers : ∀ n ∈ workers, 0 < n)
    (h : ¬ PagesFit style docs destination t) {order : List ClassDoc}
    (horder : order.Perm docs.classes.values) :
    ∃ e, (renderIn order style docs destination workers t).2 = .error (.file e) := by
  obtain ⟨t₀, r, hfolders⟩ :
      ∃ t₀ r, t.createFolders style.cwd (outputFolder style.cwd destination) = (t₀, r) :=
    ⟨_, _, rfl⟩
  cases r with
  | error e =>
    refine ⟨e, ?_⟩
    unfold renderIn
    simp only [hfolders]
  | ok =>
    rw [renderIn_eq hworkers hfolders]
    cases hall : gather (writeAll style docs (outputFolder style.cwd destination) t₀ order).2
        docs.classes.values with
    | error e => exact ⟨e, rfl⟩
    | ok ps => exact absurd (pagesFit_of_gather hcwd hnames hfolders horder hall) h

theorem pagesFit_of_rendersAlike (hworkers : ∀ n ∈ workers, 0 < n)
    (h : RendersAlike style docs destination workers t) : PagesFit style docs destination t := by
  by_contra hfit
  obtain ⟨e, herror⟩ := error_of_not_pagesFit hcwd hnames hworkers hfit (List.Perm.refl _)
  obtain ⟨site, hsite⟩ := h
  obtain ⟨u, hrun, -⟩ := hsite _ (List.Perm.refl _)
  rw [hrun] at herror
  cases herror

end

/-! ## Names without slashes -/

theorem exists_pagePlace_concat (style : Style) (docs : Docs) (root : Path) {c : ClassDoc}
    (hname : '/' ∉ c.name.toList) :
    ∃ front, pagePlace style docs root c = front ++ [c.name ++ ".md"] := by
  have htarget : ∃ front, (pageTarget style docs root c).names = front ++ [c.name ++ ".md"] := by
    refine ⟨root.names ++ (relativePath style.cwd (if (folderText c.file).isEmpty then "."
      else folderText c.file) docs.sourceFolder).names, ?_⟩
    unfold pageTarget pagePath
    rw [ofText_page hname, List.append_assoc]
    rfl
  obtain ⟨front, hfront⟩ := htarget
  refine ⟨collapse front, ?_⟩
  rw [pagePlace, hfront, collapse_concat, if_neg (page_ne _).2.2]

/-- Classes without slashes in their names have their pages at different places. -/
theorem name_eq_of_pagePlace_eq {style : Style} {docs : Docs} {root : Path} {c d : ClassDoc}
    (hc : '/' ∉ c.name.toList) (hd : '/' ∉ d.name.toList)
    (h : pagePlace style docs root c = pagePlace style docs root d) : c.name = d.name := by
  obtain ⟨front, hfront⟩ := exists_pagePlace_concat style docs root hc
  obtain ⟨front', hfront'⟩ := exists_pagePlace_concat style docs root hd
  rw [hfront, hfront'] at h
  have hlast := List.singleton_inj.1 (List.append_inj_right' h rfl)
  exact String.append_left_inj ".md" |>.1 hlast

theorem dots_notMem_outputFolder (here : List String) (destination : String) :
    ".." ∉ (outputFolder here destination).names :=
  dots_notMem_collapse _

section

variable (style : Style) {docs : Docs} (destination : String) {c : ClassDoc} {dir : List String}
  (hfile : LiesIn docs.sourceFolder c.file dir) (hname : '/' ∉ c.name.toList)
include hfile hname

theorem names_pageTarget :
    (pageTarget style docs (outputFolder style.cwd destination) c).names =
      (outputFolder style.cwd destination).names ++ (pagePath style.cwd docs c).names := by
  rw [pageTarget, pagePath_of_no_slash hfile hname]
  rfl

theorem dots_notMem_pageTarget :
    ".." ∉ (pageTarget style docs (outputFolder style.cwd destination) c).names := by
  rw [names_pageTarget style destination hfile hname, pagePath_of_no_slash hfile hname]
  intro hmem
  rcases List.mem_append.1 hmem with hmem | hmem
  · exact dots_notMem_outputFolder _ _ hmem
  · exact dots_notMem_pageNames hfile _ hmem

theorem pagePlace_of_no_slash :
    pagePlace style docs (outputFolder style.cwd destination) c =
      (outputFolder style.cwd destination).names ++ (pagePath style.cwd docs c).names := by
  rw [pagePlace, collapse_of_no_dots (dots_notMem_pageTarget style destination hfile hname),
    names_pageTarget style destination hfile hname]

theorem onTheWay_of_no_slash {q : List String} :
    OnTheWay style docs (outputFolder style.cwd destination) c q ↔
      q <+: (outputFolder style.cwd destination).names ++
        (pagePath style.cwd docs c).names.dropLast := by
  have hdots := dots_notMem_pageTarget style destination hfile hname
  rw [OnTheWay, passes_of_no_dots fun hmem => hdots (List.dropLast_subset _ hmem),
    names_pageTarget style destination hfile hname, pagePath_of_no_slash hfile hname,
    List.dropLast_concat, ← List.append_assoc, List.dropLast_concat]

end

/-- A page is where a folder above another page has to be just when its path says so. -/
theorem onTheWay_pagePlace_iff (style : Style) {docs : Docs} (destination : String)
    {c d : ClassDoc} {dir dir' : List String} (hfile : LiesIn docs.sourceFolder c.file dir)
    (hname : '/' ∉ c.name.toList) (hfile' : LiesIn docs.sourceFolder d.file dir')
    (hname' : '/' ∉ d.name.toList) :
    OnTheWay style docs (outputFolder style.cwd destination) d
        (pagePlace style docs (outputFolder style.cwd destination) c) ↔
      (pagePath style.cwd docs c).names <+: (pagePath style.cwd docs d).names.dropLast := by
  rw [onTheWay_of_no_slash style destination hfile' hname',
    pagePlace_of_no_slash style destination hfile hname, List.prefix_append_right_inj]

section

variable {style : Style} {docs : Docs} {destination : String} {t : Tree}
  (hpages : ∀ c ∈ docs.classes.values, '/' ∉ c.name.toList ∧
    ∃ dir, LiesIn docs.sourceFolder c.file dir)
include hpages

/-- What there is left to ask for if no name has a slash and nothing is at the destination yet: names
that an entry of a folder can have, and no page where a folder of the source has its
counterpart. -/
theorem names_of_pagesFit (h : PagesFit style docs destination t) :
    (∀ n ∈ (outputFolder style.cwd destination).names, IsEntryName n) ∧
    (∀ c ∈ docs.classes.values, ∀ n ∈ (pagePath style.cwd docs c).names, IsEntryName n) ∧
    ∀ c ∈ docs.classes.values, ∀ d ∈ docs.classes.values,
      ¬ (pagePath style.cwd docs c).names <+: (pagePath style.cwd docs d).names.dropLast := by
  refine ⟨?_, ?_, ?_⟩
  · intro n hn
    refine (h.rootSteps n hn).resolve_left ?_
    rintro rfl
    exact dots_notMem_outputFolder style.cwd destination hn
  · intro c hc n hn
    obtain ⟨hname, dir, hfile⟩ := hpages c hc
    have htarget : n ∈ (pageTarget style docs (outputFolder style.cwd destination) c).names := by
      rw [names_pageTarget style destination hfile hname]
      exact List.mem_append_right _ hn
    refine (h.fits.steps c hc n htarget).resolve_left ?_
    rintro rfl
    exact dots_notMem_pageTarget style destination hfile hname htarget
  · intro c hc d hd hle
    obtain ⟨hname, dir, hfile⟩ := hpages c hc
    obtain ⟨hname', dir', hfile'⟩ := hpages d hd
    apply h.fits.apart c hc d hd
    exact (onTheWay_pagePlace_iff style destination hfile hname hfile' hname').2 hle

theorem pagesFit_of_names
    (hempty : t.EmptyAt (outputFolder style.cwd destination).names)
    (hroot : ∀ n ∈ (outputFolder style.cwd destination).names, IsEntryName n)
    (hsteps : ∀ c ∈ docs.classes.values, ∀ n ∈ (pagePath style.cwd docs c).names, IsEntryName n)
    (hapart : ∀ c ∈ docs.classes.values, ∀ d ∈ docs.classes.values,
      ¬ (pagePath style.cwd docs c).names <+: (pagePath style.cwd docs d).names.dropLast) :
    PagesFit style docs destination t := by
  have hdots := dots_notMem_outputFolder style.cwd destination
  -- every page is strictly below the destination
  have hbelow : ∀ c ∈ docs.classes.values,
      (outputFolder style.cwd destination).names ++ (pagePath style.cwd docs c).names ≠
        (outputFolder style.cwd destination).names := by
    intro c hc
    obtain ⟨hname, dir, hfile⟩ := hpages c hc
    rw [pagePath_of_no_slash hfile hname]
    simp
  refine ⟨fun n hn => Or.inr (hroot n hn), ?_, ?_, ?_, ?_, ?_, ?_⟩
  · intro q hq
    exact hempty.way q ((passes_of_no_dots hdots).1 hq)
  · intro c hc hq
    obtain ⟨hname, dir, hfile⟩ := hpages c hc
    rw [passes_of_no_dots hdots, pagePlace_of_no_slash style destination hfile hname] at hq
    exact hbelow c hc (hq.eq_of_length_le (by rw [List.length_append]; omega))
  · intro c hc n hn
    obtain ⟨hname, dir, hfile⟩ := hpages c hc
    rw [names_pageTarget style destination hfile hname] at hn
    rcases List.mem_append.1 hn with hn | hn
    · exact Or.inr (hroot n hn)
    · exact Or.inr (hsteps c hc n hn)
  · intro c hc d hd
    obtain ⟨hname, dir, hfile⟩ := hpages c hc
    obtain ⟨hname', dir', hfile'⟩ := hpages d hd
    rw [onTheWay_pagePlace_iff style destination hfile hname hfile' hname']
    exact hapart c hc d hd
  · intro c hc q hq
    obtain ⟨hname, dir, hfile⟩ := hpages c hc
    exact hempty.noFile ((onTheWay_of_no_slash style destination hfile hname).1 hq)
  · intro c hc
    obtain ⟨hname, dir, hfile⟩ := hpages c hc
    rw [pagePlace_of_no_slash style destination hfile hname]
    exact Or.inl (hempty.below _ (List.prefix_append _ _) (hbelow c hc))

end

/-! ## Sites of models -/

/-- **Rendering in any order.** Take the model that any run of the analysis leaves, any destination
and any tree. If the pages do not fit, rendering ends with an error in every order of the tasks. If
each page has a place of its own, rendering comes out the same and whole in every order just when
the pages fit; and classes without slashes in their names never share the place of a page. So if no
class has a slash in its name, each file lies below the source folder and the destination is empty,
only two things can go wrong: a name that no entry of a folder can have, and a page that is to be
where a folder of the source has its counterpart. -/
theorem render_any_order_iff (limit : Limit) (calls : List (List FileComments)) (folder : String)
    {style : Style} (hcwd : ∀ n ∈ style.cwd, IsName n) (destination : String)
    {workers : Option Int} (hworkers : ∀ n ∈ workers, 0 < n) (t : Tree) :
    let docs := (State.afterCalls limit calls).docs folder
    let classes := docs.classes.values
    let root := outputFolder style.cwd destination
    (¬ PagesFit style docs destination t → ∀ order : List ClassDoc, order.Perm classes →
      ∃ e, (renderIn order style docs destination workers t).2 = .error (.file e)) ∧
    (OwnPlaces style docs root classes →
      (RendersAlike style docs destination workers t ↔ PagesFit style docs destination t)) ∧
    (∀ c ∈ classes, ∀ d ∈ classes, '/' ∉ c.name.toList → '/' ∉ d.name.toList →
      pagePlace style docs root c = pagePlace style docs root d → c = d) ∧
    ((∀ c ∈ classes, '/' ∉ c.name.toList ∧ ∃ dir, LiesIn folder c.file dir) →
      t.EmptyAt root.names →
      (RendersAlike style docs destination workers t ↔
        (∀ n ∈ root.names, IsEntryName n) ∧
        (∀ c ∈ classes, ∀ n ∈ (pagePath style.cwd docs c).names, IsEntryName n) ∧
        ∀ c ∈ classes, ∀ d ∈ classes,
          ¬ (pagePath style.cwd docs c).names <+: (pagePath style.cwd docs d).names.dropLast)) := by
  intro docs classes root
  have hnames : (docs.classes.values.map ClassDoc.name).Nodup :=
    nodup_names_afterCalls limit calls
  have hiff : OwnPlaces style docs root classes →
      (RendersAlike style docs destination workers t ↔ PagesFit style docs destination t) :=
    fun hown => ⟨pagesFit_of_rendersAlike hcwd hnames hworkers,
      rendersAlike_of_pagesFit hcwd hnames hworkers hown⟩
  have hplaces : ∀ c ∈ classes, ∀ d ∈ classes, '/' ∉ c.name.toList → '/' ∉ d.name.toList →
      pagePlace style docs root c = pagePlace style docs root d → c = d := by
    intro c hc d hd hslash hslash' hplace
    exact List.inj_on_of_nodup_map hnames hc hd (name_eq_of_pagePlace_eq hslash hslash' hplace)
  refine ⟨fun hfit order => error_of_not_pagesFit hcwd hnames hworkers hfit, hiff, hplaces, ?_⟩
  intro hpages hempty
  have hown : OwnPlaces style docs root classes := fun c hc d hd =>
    hplaces c hc d hd (hpages c hc).1 (hpages d hd).1
  refine (hiff hown).trans ⟨names_of_pagesFit hpages, ?_⟩
  rintro ⟨hroot, hsteps, hapart⟩
  exact pagesFit_of_names hpages hempty hroot hsteps hapart

/-- Two pages in an empty folder, written by four workers. -/
theorem family_renders_alike :
    RendersAlike { cwd := ["home"] } familyDocs "../out" (some 4) {} := by
  have ht : familyTree.WellFormed := by decide +kernel
  have hentry : ∀ n ∈ ["home"], IsEntryName n := by decide
  have hcwd : ∀ n ∈ ({ cwd := ["home"] } : Style).cwd, IsName n := fun n hn =>
    (hentry n hn).toIsName
  have hworkers : ∀ n ∈ some (4 : Int), 0 < n := by decide
  have hempty : ({} : Tree).EmptyAt ["out"] := by
    refine ⟨fun q _ content => ?_, fun q hq _ => ?_⟩
    · cases q <;> exact nofun
    · obtain ⟨more, rfl⟩ := hq
      rfl
  have hpages : ∀ c ∈ familyDocs.classes.values, '/' ∉ c.name.toList ∧
      ∃ dir, LiesIn familyDocs.sourceFolder c.file dir := fun c hc =>
    ⟨by revert c; decide, modelOf_family.exists_liesIn ht rfl hc⟩
  obtain ⟨limit, calls, hdocs⟩ := modelOf_family.exists_afterCalls
  obtain ⟨-, -, -, hiff⟩ := render_any_order_iff limit calls
    (Scan.sourceFolder familyTree [] "src/../src") hcwd "../out" hworkers {}
  rw [← hdocs] at hiff
  exact (hiff hpages hempty).2 ⟨by decide, by decide, by decide⟩

/-- A class at the top of a folder, and another one in a folder that is named like its page. -/
def clashTree : Tree where
  entries := [(["src"], .folder), (["src", "Ant.md"], .folder),
    (["src", "Ant.md", "bee.js"], .file (.ok "/** @class Bee */".toUTF8)),
    (["src", "ant.js"], .file (.ok "/** @class Ant */".toUTF8))]

/-- The model of this folder. -/
def clashDocs : Docs where
  sourceFolder := "src"
  classes := ⟨[("Bee", { file := "src/Ant.md/bee.js", name := "Bee" }),
    ("Ant", { file := "src/ant.js", name := "Ant" })]⟩

/-- A page that is to be where a folder has to be: one of the two tasks fails, and the order settles
which one. -/
theorem page_in_place_of_folder :
    let style : Style := { cwd := [] }
    let classes := clashDocs.classes.values
    ModelOf clashTree [] "src" clashDocs ∧ clashTree.EmptyAt ["out"] ∧
      Tree.entry? (renderIn classes style clashDocs "out" none clashTree).1 ["out", "Ant.md"] =
        some .folder ∧
      Tree.entry? (renderIn classes.reverse style clashDocs "out" none clashTree).1
        ["out", "Ant.md"] = some (.file (.ok "# `class Ant`\n".toUTF8)) ∧
      ¬ RendersAlike style clashDocs "out" none clashTree := by
  have hpaths : (clashTree.filesBelow ["src"]).map
      (fun names => ((Path.ofText "src").below names).text) =
        ["src/Ant.md/bee.js", "src/ant.js"] := by decide
  have hfolder : Tree.entry? (renderIn clashDocs.classes.values { cwd := [] } clashDocs "out" none
      clashTree).1 ["out", "Ant.md"] = some .folder := by decide +kernel
  have hfile : Tree.entry? (renderIn clashDocs.classes.values.reverse { cwd := [] } clashDocs "out"
      none clashTree).1 ["out", "Ant.md"] = some (.file (.ok "# `class Ant`\n".toUTF8)) := by
    decide +kernel
  refine ⟨modelOf_of_sorted rfl rfl hpaths (by decide) (by decide +kernel), ?_, hfolder, hfile, ?_⟩
  · refine ⟨fun q hq content => ?_, fun q hq _ => ?_⟩
    · rcases List.prefix_cons_iff.1 hq with rfl | ⟨more, rfl, hmore⟩
      · exact nofun
      · rw [List.prefix_nil.1 hmore]
        exact nofun
    · obtain ⟨more, rfl⟩ := hq
      simp [ Tree.entry?, Tree.find?, clashTree]
  · rintro ⟨site, hsite⟩
    obtain ⟨u, hrun, hu, -⟩ := hsite _ (List.Perm.refl _)
    obtain ⟨u', hrun', hu', -⟩ := hsite _ (List.reverse_perm _)
    rw [hrun, hu] at hfolder
    rw [hrun', hu', hfolder] at hfile
    cases hfile

end ApiDoc.Page
