import ApiDoc.Page.Site
import ApiDoc.Proofs.Analysis.Source

/-!
# Where pages lie and how they refer to each other

The page of a class lies below the output folder as its file lies below the source folder. Both the
place of a page and the steps from one page to another are found by way of absolute paths, yet the
current folder has no part in what comes out.

* `pagePath_of_liesIn`: the names of the folder, and behind them what the name of the class says.
* `parentReference_eq`: the link to a parent holds the steps from one page to the other.
* `renderClass_heading`, `renderClass_notes`: where a page has its references.
* `page_layout`: places, links and plain names for every class without a slash in its name.
-/

namespace ApiDoc.Page

open Files Analysis

/-! ## Places of pages -/

theorem absoluteNames_folder {folder file : String} {dir : List String}
    (h : LiesIn folder file dir) (here : List String) :
    absoluteNames here (if (folderText file).isEmpty then "." else folderText file) =
      absoluteNames here folder ++ dir := by
  obtain ⟨hdir, hdots, n, hn, rfl⟩ := h
  have hp : ((Path.ofText folder).below (dir ++ [n])).Lexical := by
    refine (Path.lexical_ofText folder).below (List.forall_mem_append.2 ⟨hdir, fun m hm => ?_⟩)
    rw [List.mem_singleton.1 hm]
    exact hn
  have hfront : ((Path.ofText folder).below (dir ++ [n])).names.dropLast =
      namesOf folder ++ dir := by
    change (namesOf folder ++ (dir ++ [n])).dropLast = _
    rw [← List.append_assoc, List.dropLast_concat]
  have hroot : ((Path.ofText folder).below (dir ++ [n])).isAbsolute = isAbsoluteText folder := by
    rw [isAbsoluteText_eq]
    rfl
  have hne : ((Path.ofText folder).below (dir ++ [n])).names ≠ [] := by
    change namesOf folder ++ (dir ++ [n]) ≠ []
    simp
  rw [absoluteNames_folderText here hp hne, hfront, hroot, absoluteNames]
  split
  · exact collapse_append _ hdots
  · rw [← List.append_assoc]
    exact collapse_append _ hdots

/-- The page of a class: the folder of its file below the source, and what its name says. -/
theorem pagePath_of_liesIn {docs : Docs} {c : ClassDoc} {dir : List String}
    (h : LiesIn docs.sourceFolder c.file dir) (here : List String) :
    pagePath here docs c = (⟨"", dir⟩ : Path).join (Path.ofText (c.name ++ ".md")) := by
  unfold pagePath relativePath
  simp only
  rw [absoluteNames_folder h here, stepsBetween_below]

theorem linkTo_empty (p : Path) : linkTo "" p = p.text := by
  unfold linkTo
  exact if_pos rfl

theorem page_ne (name : String) :
    name ++ ".md" ≠ "" ∧ name ++ ".md" ≠ "." ∧ name ++ ".md" ≠ ".." := by
  have hlength : 3 ≤ (name ++ ".md").toList.length := by simp
  refine ⟨?_, ?_, ?_⟩
  all_goals
    intro he
    rw [he] at hlength
    exact absurd hlength (by decide)

theorem isName_page {name : String} (h : '/' ∉ name.toList) : IsName (name ++ ".md") := by
  obtain ⟨hempty, hdot, -⟩ := page_ne name
  refine ⟨hempty, hdot, ?_⟩
  rw [String.toList_append]
  simpa using h

theorem ofText_page {name : String} (h : '/' ∉ name.toList) :
    Path.ofText (name ++ ".md") = ⟨"", [name ++ ".md"]⟩ := by
  have hlexical : (⟨"", [name ++ ".md"]⟩ : Path).Lexical := by
    refine ⟨Or.inl rfl, fun n hn => ?_⟩
    rw [List.mem_singleton.1 hn]
    exact isName_page h
  have htext : (⟨"", [name ++ ".md"]⟩ : Path).text = name ++ ".md" := by
    rw [Path.text_of_ne_nil (List.cons_ne_nil _ _), String.empty_append, joinSlashes,
      String.intercalate_singleton]
  rw [← htext]
  exact Path.ofText_text hlexical

theorem pagePath_of_no_slash {docs : Docs} {c : ClassDoc} {dir : List String}
    (h : LiesIn docs.sourceFolder c.file dir) (hname : '/' ∉ c.name.toList) (here : List String) :
    pagePath here docs c = ⟨"", dir ++ [c.name ++ ".md"]⟩ := by
  rw [pagePath_of_liesIn h, ofText_page hname]
  rfl

/-! ## References -/

/-- The path that leads from the folder of one page to another page. -/
def linkBetween (dir target : List String) : Path :=
  ⟨"", stepsBetween dir target⟩

theorem mem_stepsBetween {start target : List String} {n : String}
    (h : n ∈ stepsBetween start target) : n = ".." ∨ n ∈ target := by
  obtain ⟨shared, own, other, -, rfl, hsteps⟩ := exists_stepsBetween start target
  rw [hsteps] at h
  rcases List.mem_append.1 h with hup | hdown
  · exact Or.inl (List.mem_replicate.1 hup).2
  · exact Or.inr (List.mem_append_right shared hdown)

theorem isName_dots : IsName ".." :=
  ⟨by decide, by decide, by decide⟩

theorem lexical_linkBetween {dir target : List String} (h : ∀ n ∈ target, IsName n) :
    (linkBetween dir target).Lexical := by
  refine ⟨Or.inl rfl, fun n hn => ?_⟩
  rcases mem_stepsBetween hn with rfl | hn
  · exact isName_dots
  · exact h n hn

theorem isName_pageNames {folder file name : String} {dir : List String}
    (h : LiesIn folder file dir) (hname : '/' ∉ name.toList) :
    ∀ n ∈ dir ++ [name ++ ".md"], IsName n := by
  refine List.forall_mem_append.2 ⟨h.names, fun n hn => ?_⟩
  rw [List.mem_singleton.1 hn]
  exact isName_page hname

theorem dots_notMem_pageNames {folder file : String} {dir : List String}
    (h : LiesIn folder file dir) (name : String) : ".." ∉ dir ++ [name ++ ".md"] := by
  intro hmem
  rcases List.mem_append.1 hmem with hmem | hmem
  · exact h.no_dots hmem
  · exact (page_ne name).2.2 (List.mem_singleton.1 hmem).symm

/-- The reference to a parent that has a page. -/
theorem parentReference_eq {docs : Docs} {c parent : ClassDoc} {dir dir' : List String}
    (hc : LiesIn docs.sourceFolder c.file dir) (hname : '/' ∉ c.name.toList)
    (hparent : LiesIn docs.sourceFolder parent.file dir') (hname' : '/' ∉ parent.name.toList)
    (hget : docs.classes.get? parent.name = some parent) (here : List String) :
    parentReference here docs c parent.name =
      "[" ++ parent.name ++ "](" ++ (linkBetween dir (dir' ++ [parent.name ++ ".md"])).text ++
        ")" := by
  have hown : (⟨"", dir⟩ : Path).Lexical := ⟨Or.inl rfl, hc.names⟩
  have htarget : (⟨"", dir' ++ [parent.name ++ ".md"]⟩ : Path).Lexical :=
    ⟨Or.inl rfl, isName_pageNames hparent hname'⟩
  have hfolder : (⟨"", dir ++ [c.name ++ ".md"]⟩ : Path).parent = ⟨"", dir⟩ := by
    rw [Path.parent, List.dropLast_concat]
  have hstart : absoluteNames here (⟨"", dir⟩ : Path).text = collapse here ++ dir := by
    rw [absoluteNames_text here hown]
    exact collapse_append here hc.no_dots
  have hend : absoluteNames here (⟨"", dir' ++ [parent.name ++ ".md"]⟩ : Path).text =
      collapse here ++ (dir' ++ [parent.name ++ ".md"]) := by
    rw [absoluteNames_text here htarget]
    exact collapse_append here (dots_notMem_pageNames hparent _)
  unfold parentReference
  rw [hget]
  simp only
  rw [pagePath_of_no_slash hc hname, pagePath_of_no_slash hparent hname', hfolder, relativePath,
    hstart, hend, stepsBetween_append_left]
  rfl

/-- A link, put behind the folder of the page it stands on, leads to the other page, wherever the
output folder is. -/
theorem resolve_linkBetween {dir target : List String} (hdir : ".." ∉ dir) (htarget : ".." ∉ target)
    (hnames : ∀ n ∈ target, IsName n) (root : Path) (page : String) (here : List String) :
    ((root.join ⟨"", dir ++ [page]⟩).parent.join
        (Path.ofText (linkBetween dir target).text)).resolve here =
      (root.resolve here).join ⟨"", target⟩ := by
  have hfolder : (root.join ⟨"", dir ++ [page]⟩).parent = root.below dir := by
    change (⟨root.root, (root.names ++ (dir ++ [page])).dropLast⟩ : Path) = _
    rw [← List.append_assoc, List.dropLast_concat]
    rfl
  have hcollapse : ∀ front, collapse (front ++ dir ++ stepsBetween dir target) =
      collapse front ++ target := by
    intro front
    rw [collapse_stepsBetween front target hdir, collapse_append front htarget]
  rw [hfolder, Path.ofText_text (lexical_linkBetween hnames)]
  change (⟨"/", collapse (if root.isAbsolute then root.names ++ dir ++ stepsBetween dir target
    else here ++ (root.names ++ dir ++ stepsBetween dir target))⟩ : Path) =
      ⟨"/", collapse (if root.isAbsolute then root.names else here ++ root.names) ++ target⟩
  split
  · rw [hcollapse]
  · rw [← List.append_assoc, ← List.append_assoc, hcollapse]

/-! ## References on a page -/

section

variable (style : Style) (docs : Docs) (c : ClassDoc)

theorem renderClass_heading : ∃ rest, renderClass style docs c =
    "# `" ++ (if c.abstract then "abstract " else "") ++ "class " ++ c.name ++ "`" ++
      (if c.parents.isEmpty then ""
        else " extends " ++ ", ".intercalate (c.parents.map (parentReference style.cwd docs c))) ++
      "\n" ++ rest := by
  unfold renderClass classPage heading
  rw [List.isEmpty_map, String.append_assoc, String.append_assoc]
  exact ⟨_, rfl⟩

/-- A group of members, wherever it stands, begins with a note on the parents. -/
theorem exists_note (front back title what : String) {parents blocks : List String}
    (hparents : parents ≠ []) (hblocks : blocks ≠ []) :
    ∃ front' rest, front ++ memberGroup title what parents blocks ++ back =
      front' ++ ("\n## " ++ title ++ "\n\nInherits " ++ what ++ " from ") ++
        ", ".intercalate parents ++ ".\n" ++ rest := by
  refine ⟨front, String.join blocks ++ back, ?_⟩
  unfold memberGroup inheritedNote
  rw [if_neg (mt List.isEmpty_iff.1 hblocks), if_neg (mt List.isEmpty_iff.1 hparents)]
  apply String.toList_injective
  simp [String.toList_append]

theorem renderClass_notes (hparents : c.parents ≠ []) :
    let references := ", ".intercalate (c.parents.map (parentReference style.cwd docs c))
    (c.properties.values ≠ [] → ∃ front rest, renderClass style docs c =
      front ++ "\n## Properties\n\nInherits properties from " ++ references ++ ".\n" ++ rest) ∧
    (c.methods.values ≠ [] → ∃ front rest, renderClass style docs c =
      front ++ "\n## Methods\n\nInherits methods from " ++ references ++ ".\n" ++ rest) := by
  intro references
  let names := c.parents.map (parentReference style.cwd docs c)
  let properties := c.properties.values.map (propertyBlock style.missing)
  let methods := c.methods.values.map (methodBlock style.missing)
  have hnames : names ≠ [] := mt List.map_eq_nil_iff.1 hparents
  unfold renderClass classPage
  refine ⟨fun hproperties => ?_, fun hmethods => ?_⟩
  · have hblocks : properties ≠ [] := mt List.map_eq_nil_iff.1 hproperties
    exact exists_note (heading c names ++ descriptionBlock c.description)
      (memberGroup "Methods" "methods" names methods) "Properties" "properties" hnames hblocks
  · have hblocks : methods ≠ [] := mt List.map_eq_nil_iff.1 hmethods
    have hnote := exists_note (heading c names ++ descriptionBlock c.description ++
      memberGroup "Properties" "properties" names properties) "" "Methods" "methods" hnames hblocks
    rwa [String.append_empty] at hnote

end

/-! ## The layout of a model -/

section

variable {t : Tree} (ht : t.WellFormed) {cwd : List String} (hcwd : t.entry? cwd = some .folder)
  {source : String} {docs : Docs} (hdocs : ModelOf t cwd source docs)
  {c parent : ClassDoc} {dir : List String} (hfile : LiesIn docs.sourceFolder c.file dir)
  (hname : '/' ∉ c.name.toList)
include ht hcwd hdocs hfile hname

/-- A parent that has a page is referred to by a link that leads there. -/
theorem exists_link {name : String} (hget : docs.classes.get? name = some parent)
    (hslash : '/' ∉ name.toList) :
    ∃ link,
      (∀ here, parentReference here docs c name = "[" ++ name ++ "](" ++ link ++ ")") ∧
      ∀ (root : Path) (here : List String),
        ((root.join (pagePath here docs c)).parent.join (Path.ofText link)).resolve here =
          (root.resolve here).join (pagePath here docs parent) := by
  obtain ⟨dir', hparent⟩ := hdocs.exists_liesIn ht hcwd (Table.mem_values_of_get? hget)
  obtain ⟨limit, calls, rfl⟩ := hdocs.exists_afterCalls
  obtain ⟨rfl, -⟩ := exists_declaration hget
  refine ⟨(linkBetween dir (dir' ++ [parent.name ++ ".md"])).text,
    parentReference_eq hfile hname hparent hslash hget, fun root here => ?_⟩
  rw [pagePath_of_no_slash hfile hname, pagePath_of_no_slash hparent hslash]
  exact resolve_linkBetween hfile.no_dots (dots_notMem_pageNames hparent _)
    (isName_pageNames hparent hslash) root _ here

theorem parentReference_anywhere {name : String}
    (hslash : (docs.classes.get? name).isSome → '/' ∉ name.toList) (here here' : List String) :
    parentReference here docs c name = parentReference here' docs c name := by
  cases hget : docs.classes.get? name with
  | none => rw [parentReference, parentReference, hget]
  | some parent =>
    rw [hget] at hslash
    obtain ⟨link, hlink, -⟩ := exists_link ht hcwd hdocs hfile hname hget (hslash rfl)
    rw [hlink, hlink]

end

/-- **Layout.** Let a model come from a source, and take a class of it without a slash in its name.
Its page lies where its file lies below the source folder and is named after it, whatever the
current folder is. A parent that is a class of the model, without a slash in its name too, is
referred to by a link that does not depend on the current folder either, and that leads from the
folder of the page to the page of the parent below every output folder. Other parents stand there by
name. The page has these references in its first line and, if there are members, in the notes on
what is inherited. So the whole page does not depend on the current folder. -/
theorem page_layout {t : Tree} (ht : t.WellFormed) {cwd : List String}
    (hcwd : t.entry? cwd = some .folder) {source : String} {docs : Docs}
    (hdocs : ModelOf t cwd source docs) {c : ClassDoc} (hc : c ∈ docs.classes.values)
    (hname : '/' ∉ c.name.toList) :
    (∃ dir, LiesIn docs.sourceFolder c.file dir ∧
      ∀ here, pagePath here docs c = ⟨"", dir ++ [c.name ++ ".md"]⟩) ∧
    (∀ name parent, docs.classes.get? name = some parent → '/' ∉ name.toList → ∃ link,
      (∀ here, parentReference here docs c name = "[" ++ name ++ "](" ++ link ++ ")") ∧
      ∀ (root : Path) (here : List String),
        ((root.join (pagePath here docs c)).parent.join (Path.ofText link)).resolve here =
          (root.resolve here).join (pagePath here docs parent)) ∧
    (∀ name, docs.classes.get? name = none →
      ∀ here, parentReference here docs c name = name) ∧
    (∀ style,
      let references := ", ".intercalate (c.parents.map (parentReference style.cwd docs c))
      (∃ rest, renderClass style docs c =
        "# `" ++ (if c.abstract then "abstract " else "") ++ "class " ++ c.name ++ "`" ++
          (if c.parents.isEmpty then "" else " extends " ++ references) ++ "\n" ++ rest) ∧
      (c.parents ≠ [] →
        (c.properties.values ≠ [] → ∃ front rest, renderClass style docs c =
          front ++ "\n## Properties\n\nInherits properties from " ++ references ++ ".\n" ++ rest) ∧
        (c.methods.values ≠ [] → ∃ front rest, renderClass style docs c =
          front ++ "\n## Methods\n\nInherits methods from " ++ references ++ ".\n" ++ rest))) ∧
    ((∀ name ∈ c.parents, (docs.classes.get? name).isSome → '/' ∉ name.toList) →
      ∀ style here, renderClass { style with cwd := here } docs c = renderClass style docs c) := by
  obtain ⟨dir, hfile⟩ := hdocs.exists_liesIn ht hcwd hc
  refine ⟨⟨dir, hfile, pagePath_of_no_slash hfile hname⟩, ?_, ?_, ?_, ?_⟩
  · intro name parent hget hslash
    exact exists_link ht hcwd hdocs hfile hname hget hslash
  · intro name hget here
    rw [parentReference, hget]
  · intro style
    exact ⟨renderClass_heading style docs c, renderClass_notes style docs c⟩
  · intro hparents style here
    have hreferences : c.parents.map (parentReference here docs c) =
        c.parents.map (parentReference style.cwd docs c) := by
      refine List.map_congr_left fun name hmem => ?_
      exact parentReference_anywhere ht hcwd hdocs hfile hname (hparents name hmem) _ _
    rw [renderClass, renderClass, hreferences]

/-- A folder with a class, and one below it with a class that extends this one and another. -/
def familyTree : Tree where
  entries := [(["src"], .folder), (["src", "ant.js"], .file (.ok "/** @class Ant */".toUTF8)),
    (["src", "lib"], .folder),
    (["src", "lib", "bee.js"],
      .file (.ok "/** @class Bee\n@extends Ant\n@extends Cat */".toUTF8))]

/-- The class at the top of the folder. -/
def ant : ClassDoc where
  file := "src/../src/ant.js"
  name := "Ant"

/-- The class in the folder below. -/
def bee : ClassDoc where
  file := "src/../src/lib/bee.js"
  name := "Bee"
  parents := ["Ant", "Cat"]

/-- The model of the folder, taken through a path that goes up and down again. -/
def familyDocs : Docs where
  sourceFolder := "src/../src"
  classes := ⟨[("Ant", ant), ("Bee", bee)]⟩

theorem modelOf_family : ModelOf familyTree [] "src/../src" familyDocs := by
  have hpaths : (familyTree.filesBelow ["src"]).map
      (fun names => ((Path.ofText "src/../src").below names).text) =
        ["src/../src/ant.js", "src/../src/lib/bee.js"] := by decide
  exact modelOf_of_sorted rfl rfl hpaths (by decide) (by decide +kernel)

/-- A class below the top of its source refers to one at the top, and to one that is not there. -/
theorem bee_page_below_ant :
    (∃ dir, LiesIn "src/../src" "src/../src/lib/bee.js" dir ∧
      ∀ here, pagePath here familyDocs bee = ⟨"", dir ++ ["Bee.md"]⟩) ∧
    (∃ link,
      (∀ here, parentReference here familyDocs bee "Ant" = "[Ant](" ++ link ++ ")") ∧
      ∀ (root : Path) (here : List String),
        ((root.join (pagePath here familyDocs bee)).parent.join (Path.ofText link)).resolve here =
          (root.resolve here).join (pagePath here familyDocs ant)) ∧
    (∀ here, parentReference here familyDocs bee "Cat" = "Cat") ∧
    (∀ style, ∃ rest, renderClass style familyDocs bee =
      "# `class Bee` extends [Ant](../Ant.md), Cat\n" ++ rest) ∧
    ∀ style here, renderClass { style with cwd := here } familyDocs bee =
      renderClass style familyDocs bee := by
  have ht : familyTree.WellFormed := by decide +kernel
  have hroot : familyTree.entry? [] = some .folder := rfl
  have hbee : bee ∈ familyDocs.classes.values := by decide
  obtain ⟨hpage, hlink, hplain, hreferences, hany⟩ :=
    page_layout ht hroot modelOf_family hbee (by decide)
  refine ⟨hpage, hlink "Ant" ant rfl (by decide), hplain "Cat" rfl, fun style => ?_,
    hany (by decide)⟩
  obtain ⟨⟨rest, hrest⟩, -⟩ := hreferences { style with cwd := [] }
  have hfirst : parentReference [] familyDocs bee "Ant" = "[Ant](../Ant.md)" := by decide +kernel
  refine ⟨rest, (hany (by decide) style []).symm.trans (hrest.trans ?_)⟩
  rw [show bee.parents = ["Ant", "Cat"] from rfl, List.map_cons, List.map_singleton, hfirst,
    hplain "Cat" rfl]
  rfl

end ApiDoc.Page
