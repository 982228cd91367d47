import ApiDoc.Proofs.Page.Writing
import ApiDoc.Proofs.Table.Grouping

/-!
# The navigation list

The list of pages and the pages themselves are made by ways of their own: the list groups the
classes of a model by section, and the tasks write page after page. They meet in the path of a page,
which the list shows as a link and a task follows from the output folder.

* `renderNav_eq`: the lines of the list, section by section.
* `pageAt_link`: the link of a class leads to where its task writes the page.
* `paths_of_render`: so do the paths of a whole site.
* `renderNav_lists_pages`: the list has every page once, under the path at which it is written.
-/

namespace ApiDoc.Page

open Files

/-! ## Sections -/

/-- The section of a class: the first part of the path of its page if there are more of them. -/
def sectionName (cwd : List String) (docs : Docs) (c : ClassDoc) : String :=
  if 1 < (pagePath cwd docs c).parts.length then (pagePath cwd docs c).parts.headD "" else "."

/-- The sections of a model, in the order of their first classes. -/
def sectionNames (cwd : List String) (docs : Docs) : List String :=
  (docs.classes.values.map (sectionName cwd docs)).eraseDups

/-- The classes of a section, in the order of the model. -/
def sectionClasses (cwd : List String) (docs : Docs) (name : String) : List ClassDoc :=
  docs.classes.values.filter fun c => sectionName cwd docs c = name

section

variable (cwd : List String) (docs : Docs)

theorem sectionOf_pagePath (c : ClassDoc) :
    sectionOf (pagePath cwd docs c) = sectionName cwd docs c := by
  rw [sectionOf, sectionName]
  match (pagePath cwd docs c).parts with
  | [] => rfl
  | [_] => rfl
  | _ :: _ :: _ => exact (if_pos (by simp)).symm

theorem sections_eq_grouped (base : String) :
    sections cwd docs base =
      Table.grouped (sectionName cwd docs) (fun c => ⟨c.name, linkTo base (pagePath cwd docs c)⟩)
        docs.classes.values := by
  unfold sections
  simp only [sectionOf_pagePath]
  rfl

/-- The lines of the list, section by section. -/
theorem renderNav_eq (pad base : String) :
    renderNav cwd docs pad base =
      String.join ((sectionNames cwd docs).map fun name =>
        pad ++ "- " ++ name ++ "/\n" ++
          String.join ((sectionClasses cwd docs name).map fun c =>
            pad ++ "  - [" ++ c.name ++ "](" ++ linkTo base (pagePath cwd docs c) ++ ")\n")) := by
  rw [renderNav, navigation, sections_eq_grouped, Table.entries_grouped, List.map_map]
  congr 1
  refine List.map_congr_left fun name _ => ?_
  rw [Function.comp_apply, sectionLines, List.map_map]
  rfl

theorem sectionClasses_perm :
    ((sectionNames cwd docs).flatMap (sectionClasses cwd docs)).Perm docs.classes.values := by
  apply flatMap_filter_perm (nodup_eraseDups _)
  intro c hc
  exact List.mem_eraseDups.2 (List.mem_map_of_mem hc)

end

/-! ## Links and pages -/

/-- The page of a class lies at the path of this text below the output folder: there its task
succeeds whenever a file can be written, and when it has succeeded, the page is there. -/
structure PageAt (style : Style) (docs : Docs) (destination : String) (c : ClassDoc)
    (link : String) : Prop where
  task : ∀ t p, (∃ t', writeClass style docs (outputFolder style.cwd destination) t c =
      (t', .ok p)) ↔
    p = (outputFolder style.cwd destination).join (Path.ofText link) ∧ t.Writable p
  page : ∀ t t' p, writeClass style docs (outputFolder style.cwd destination) t c = (t', .ok p) →
    t'.read style.cwd p = .ok (renderClass style docs c).toUTF8

section

variable {style : Style} (hcwd : ∀ n ∈ style.cwd, IsName n) (docs : Docs)
include hcwd

theorem join_link (root : Path) (c : ClassDoc) :
    root.join (Path.ofText (linkTo "" (pagePath style.cwd docs c))) =
      pageTarget style docs root c := by
  rw [linkTo_empty, Path.ofText_text (lexical_pagePath hcwd docs c), pageTarget]

theorem pageAt_link (destination : String) (c : ClassDoc) :
    PageAt style docs destination c (linkTo "" (pagePath style.cwd docs c)) := by
  have hp := rooted_pageTarget hcwd docs (rooted_outputFolder hcwd destination) c
  refine ⟨fun t p => ?_, fun t t' p h => ?_⟩
  · rw [join_link hcwd]
    constructor
    · rintro ⟨t', h⟩
      obtain ⟨rfl, hwritable, -⟩ := writeClass_ok hp h
      exact ⟨rfl, hwritable⟩
    · rintro ⟨rfl, hwritable⟩
      exact exists_writeClass hp hwritable
  · obtain ⟨rfl, hwritable, hwrote⟩ := writeClass_ok hp h
    have hplace : t'.locate style.cwd (pageTarget style docs _ c) = .ok _ :=
      (Tree.locate_ok_iff hp).2 ⟨hwritable.steps, hwrote.way, rfl⟩
    exact Tree.read_of_file hplace hwrote.page

/-- What a task reports is the path of its page. -/
theorem exists_of_mem_writeAll {root : Path} (hroot : root.Rooted) {t : Tree} {cs : List ClassDoc}
    {x : String × Except FileError Path} (h : x ∈ (writeAll style docs root t cs).2) :
    ∃ c ∈ cs, x.1 = c.name ∧ ∀ p, x.2 = .ok p → p = pageTarget style docs root c := by
  induction cs generalizing t with
  | nil => cases h
  | cons c cs ih =>
    rw [writeAll] at h
    rcases List.mem_cons.1 h with rfl | h
    · refine ⟨c, List.mem_cons_self, rfl, fun p hok => ?_⟩
      exact (writeClass_ok (rooted_pageTarget hcwd docs hroot c) (Prod.ext rfl hok)).1
    · obtain ⟨d, hd, hx⟩ := ih h
      exact ⟨d, List.mem_cons_of_mem c hd, hx⟩

end

theorem gather_of_render {style : Style} {docs : Docs} {destination : String}
    {workers : Option Int} {t t' : Tree} {paths : List Path}
    (h : render style docs destination workers t = (t', .ok paths)) :
    ∃ t₀, gather (writeAll style docs (outputFolder style.cwd destination) t₀
      docs.classes.values).2 docs.classes.values = .ok paths := by
  unfold render renderIn at h
  simp only at h
  split at h
  · cases h
  · next t₀ _ =>
    split at h
    · cases h
    · refine ⟨t₀, ?_⟩
      have hpaths := congrArg Prod.snd h
      simp only at hpaths
      cases hgather : gather (writeAll style docs (outputFolder style.cwd destination) t₀
          docs.classes.values).2 docs.classes.values with
      | error e =>
        rw [hgather] at hpaths
        cases hpaths
      | ok ps =>
        rw [hgather] at hpaths
        cases hpaths
        rfl

theorem paths_of_render {style : Style} (hcwd : ∀ n ∈ style.cwd, IsName n) {docs : Docs}
    (hnames : (docs.classes.values.map ClassDoc.name).Nodup) {destination : String}
    {workers : Option Int} {t t' : Tree} {paths : List Path}
    (h : render style docs destination workers t = (t', .ok paths)) :
    paths = docs.classes.values.map
      (pageTarget style docs (outputFolder style.cwd destination)) := by
  obtain ⟨t₀, hgather⟩ := gather_of_render h
  have hfst : (writeAll style docs (outputFolder style.cwd destination) t₀
      docs.classes.values).2.map Prod.fst = docs.classes.values.map ClassDoc.name :=
    map_fst_writeAll t₀ _
  have hok := ok_of_gather (hfst ▸ hnames) (fun n hn => hfst ▸ hn) hgather
  have houtcomes : ∀ c ∈ docs.classes.values, outcomeOf c.name
      (writeAll style docs (outputFolder style.cwd destination) t₀ docs.classes.values).2 =
        some (.ok (pageTarget style docs (outputFolder style.cwd destination) c)) := by
    intro c hc
    obtain ⟨x, hx, hname⟩ := List.mem_map.1 (hfst ▸ List.mem_map_of_mem hc)
    obtain ⟨p, hp⟩ := hok x hx
    obtain ⟨d, hd, hxd, htarget⟩ :=
      exists_of_mem_writeAll hcwd docs (rooted_outputFolder hcwd destination) hx
    -- names tell the classes apart
    obtain rfl : d = c := List.inj_on_of_nodup_map hnames hd hc (hxd.symm.trans hname)
    rw [← htarget p hp]
    apply outcomeOf_of_mem (hfst ▸ hnames)
    rw [← hname, ← hp]
    exact hx
  rw [gather_of_ok houtcomes] at hgather
  cases hgather
  rfl

/-! ## The list and the site -/

/-- **The navigation list has every page once.** The list is made of the sections, each one once and
in the order of their first classes, and of the classes of each section in the order of the model;
together these are the classes of the model. Without a base path the link of a class is the path of
its page below the output folder: there its task writes it, and there rendering reports it. -/
theorem renderNav_lists_pages {style : Style} (hcwd : ∀ n ∈ style.cwd, IsName n) (docs : Docs) :
    (∀ pad base, renderNav style.cwd docs pad base =
      String.join ((sectionNames style.cwd docs).map fun name =>
        pad ++ "- " ++ name ++ "/\n" ++
          String.join ((sectionClasses style.cwd docs name).map fun c =>
            pad ++ "  - [" ++ c.name ++ "](" ++ linkTo base (pagePath style.cwd docs c) ++
              ")\n"))) ∧
    (sectionNames style.cwd docs).Nodup ∧
    ((sectionNames style.cwd docs).flatMap (sectionClasses style.cwd docs)).Perm
      docs.classes.values ∧
    (∀ c, linkTo "" (pagePath style.cwd docs c) = (pagePath style.cwd docs c).text ∧
      ∀ destination, PageAt style docs destination c (pagePath style.cwd docs c).text) ∧
    ∀ destination workers t t' paths, (docs.classes.values.map ClassDoc.name).Nodup →
      render style docs destination workers t = (t', .ok paths) →
      paths = docs.classes.values.map fun c => (outputFolder style.cwd destination).join
        (Path.ofText (pagePath style.cwd docs c).text) := by
  refine ⟨renderNav_eq style.cwd docs, nodup_eraseDups _, sectionClasses_perm style.cwd docs, ?_,
    ?_⟩
  · intro c
    refine ⟨linkTo_empty _, fun destination => ?_⟩
    rw [← linkTo_empty]
    exact pageAt_link hcwd docs destination c
  · intro destination workers t t' paths hnames h
    rw [paths_of_render hcwd hnames h]
    refine List.map_congr_left fun c _ => ?_
    rw [← linkTo_empty, join_link hcwd]

/-- Two classes in sections of their own, seen from a folder beside the output. -/
theorem family_listed :
    renderNav ["home"] familyDocs "" "" =
      "- ./\n  - [Ant](Ant.md)\n- lib/\n  - [Bee](lib/Bee.md)\n" ∧
    PageAt { cwd := ["home"] } familyDocs "../out" bee "lib/Bee.md" ∧
    (render { cwd := ["home"] } familyDocs "../out" none {}).2 =
      .ok [⟨"/", ["out", "Ant.md"]⟩, ⟨"/", ["out", "lib", "Bee.md"]⟩] := by
  have hentry : ∀ n ∈ ["home"], IsEntryName n := by decide
  have hcwd : ∀ n ∈ ({ cwd := ["home"] } : Style).cwd, IsName n := fun n hn =>
    (hentry n hn).toIsName
  obtain ⟨hlines, -, -, hlink, hpaths⟩ := renderNav_lists_pages hcwd familyDocs
  refine ⟨?_, ?_, ?_⟩
  · rw [hlines]
    decide +kernel
  · have hbee : (pagePath ["home"] familyDocs bee).text = "lib/Bee.md" := by decide +kernel
    have hpage := (hlink bee).2 "../out"
    rwa [hbee] at hpage
  · have hok : (render { cwd := ["home"] } familyDocs "../out" none {}).2.isOk = true := by
      decide +kernel
    match hrender : render { cwd := ["home"] } familyDocs "../out" none {} with
    | (t', .ok paths) =>
      rw [hpaths "../out" none {} t' paths (by decide) hrender]
      exact congrArg Except.ok (by decide +kernel)
    | (_, .error _) =>
      rw [hrender] at hok
      cases hok

end ApiDoc.Page
