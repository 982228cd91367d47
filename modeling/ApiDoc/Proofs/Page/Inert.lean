import ApiDoc.Proofs.Analysis.Inert
import ApiDoc.Proofs.Page.Tame

/-!
# Pages without the closing delimiter

A page puts texts of the model between fixed ones. A fixed one neither begins with a slash nor ends
with a star, so that no `*/` appears where it meets a text of the model, and every block of the page
can stand beside every other one. Only in paths and behind the name of a section does a slash stand
right behind a name, and there no name ends with a star.

* `framed_classPage`: the page of a class without `*/` in its texts.
* `Calm.noCloser_renderClass`: with the references to its parents.
* `Calm.calm_sections`, `Calm.framed_renderNav`: the navigation list, section by section.
-/

namespace ApiDoc.Page

open Text Files Analysis

/-! ## Texts put together -/

section

variable {a b l r : String}

theorem framed_append (ha : Framed a.toList) (hb : Framed b.toList) : Framed (a ++ b).toList := by
  rw [String.toList_append]
  exact ha.append hb

theorem joint_append (ha : Joint a.toList) (hb : Framed b.toList) : Joint (a ++ b).toList := by
  rw [String.toList_append]
  exact ha.append hb

theorem joint_around (hl : Joint l.toList) (ha : NoCloser a.toList) (hr : Joint r.toList) :
    Joint (l ++ a ++ r).toList := by
  rw [String.toList_append, String.toList_append]
  exact hl.around ha hr

theorem noCloser_behind (hl : Joint l.toList) (ha : NoCloser a.toList) :
    NoCloser (l ++ a).toList := by
  rw [String.toList_append]
  exact hl.append_noCloser ha

theorem framed_join {blocks : List String} (h : ∀ b ∈ blocks, Framed b.toList) :
    Framed (String.join blocks).toList := by
  induction blocks with
  | nil => exact framed_nil
  | cons b blocks ih =>
    obtain ⟨hb, hblocks⟩ := List.forall_mem_cons.1 h
    rw [String.join_cons]
    exact framed_append hb (ih hblocks)

theorem noCloser_commas {parts : List String} (h : ∀ s ∈ parts, NoCloser s.toList) :
    NoCloser (", ".intercalate parts).toList := by
  rw [String.toList_intercalate]
  apply noCloser_intercalate (by decide)
  intro part hpart
  obtain ⟨s, hs, rfl⟩ := List.mem_map.1 hpart
  exact h s hs

end

/-! ## Blocks of a page -/

theorem framed_descriptionBlock {s : Option String} (h : ∀ d ∈ s, NoCloser d.toList) :
    Framed (descriptionBlock s).toList := by
  unfold descriptionBlock whenText
  split
  · exact framed_nil
  · next d =>
    split
    · exact framed_nil
    · exact (joint_around (by decide) (h d rfl) (by decide)).toFramed

/-- The stars around an access level stand beside its letters. -/
theorem joint_access {l a : String} (hl : Joint l.toList) (ha : NoCloser a.toList)
    (access : Access) : Joint (l ++ a ++ "`\n\n*" ++ access.label ++ "*\n").toList := by
  have hend : Joint ("`\n\n*" ++ access.label ++ "*\n").toList := by
    cases access <;> decide +kernel
  have hall := hl.around ha hend
  rw [String.toList_append, String.toList_append] at hall
  rw [String.toList_append, String.toList_append, String.toList_append, String.toList_append,
    List.append_assoc, List.append_assoc, ← List.append_assoc "`\n\n*".toList]
  exact hall

theorem framed_paramLine {p : Param} (h : p.Inert) : Framed (paramLine p).toList := by
  have hname : Joint ("- `" ++ p.name ++ "`").toList := joint_around (by decide) h.name (by decide)
  unfold paramLine
  refine (joint_around (joint_append hname ?_) ?_ (by decide)).toFramed
  · split
    · exact framed_nil
    · next e he => exact (joint_around (by decide) (h.type e he) (by decide)).toFramed
  · unfold whenText
    split
    · exact noCloser_nil
    · next d hd =>
      split
      · exact noCloser_nil
      · exact noCloser_behind (by decide) (h.description d hd)

theorem framed_paramsBlock {ps : List Param} (h : ∀ p ∈ ps, p.Inert) :
    Framed (paramsBlock ps).toList := by
  unfold paramsBlock
  split
  · exact framed_nil
  · have hlabel : Joint "\n**Parameters:**\n\n".toList := by decide +kernel
    apply framed_append hlabel.toFramed
    apply framed_join
    intro b hb
    obtain ⟨p, hp, rfl⟩ := List.mem_map.1 hb
    exact framed_paramLine (h p hp)

section

variable {missing : String} (hmissing : NoCloser missing.toList)
include hmissing

theorem noCloser_typeText {t : Option TypeExpr} (h : ∀ e ∈ t, NoCloser e.source.toList) :
    NoCloser (typeText missing t).toList := by
  unfold typeText
  split
  · exact hmissing
  · next e => exact h e rfl

theorem framed_propertyBlock {p : Property} (h : p.Inert) :
    Framed (propertyBlock missing p).toList := by
  have hname : Joint ("\n### `." ++ p.name ++ ": ").toList :=
    joint_around (by decide +kernel) h.name (by decide)
  apply framed_append _ (framed_descriptionBlock h.description)
  exact (joint_access hname (noCloser_typeText hmissing h.type) _).toFramed

theorem framed_methodBlock {m : Method} (h : m.Inert) :
    Framed (methodBlock missing m).toList := by
  have hname : Joint ("\n### `." ++ m.name ++ "(").toList :=
    joint_around (by decide +kernel) h.name (by decide)
  have hparams : NoCloser (", ".intercalate (m.params.map Param.name)).toList := by
    apply noCloser_commas
    intro n hn
    obtain ⟨p, hp, rfl⟩ := List.mem_map.1 hn
    exact (h.params p hp).name
  have hsignature := joint_around hname hparams (r := "): ") (by decide)
  apply framed_append _ (framed_paramsBlock h.params)
  apply framed_append _ (framed_descriptionBlock h.description)
  exact (joint_access hsignature (noCloser_typeText hmissing h.returns) _).toFramed

end

/-! ## The page of a class -/

theorem joint_heading {c : ClassDoc} (h : c.Inert) {parents : List String}
    (hparents : ∀ s ∈ parents, NoCloser s.toList) : Joint (heading c parents).toList := by
  have hstart : Joint ("# `" ++ (if c.abstract then "abstract " else "") ++ "class ").toList := by
    cases c.abstract <;> decide +kernel
  have hname : Joint ("# `" ++ (if c.abstract then "abstract " else "") ++ "class " ++ c.name ++
      "`").toList :=
    joint_around hstart h.name (by decide)
  apply joint_around hname _ (by decide)
  split
  · exact noCloser_nil
  · exact noCloser_behind (by decide +kernel) (noCloser_commas hparents)

theorem framed_memberGroup {title what : String} (htitle : NoCloser title.toList)
    (hwhat : NoCloser what.toList) {parents blocks : List String}
    (hparents : ∀ s ∈ parents, NoCloser s.toList) (hblocks : ∀ b ∈ blocks, Framed b.toList) :
    Framed (memberGroup title what parents blocks).toList := by
  have hnote : Framed (inheritedNote what parents).toList := by
    unfold inheritedNote
    split
    · exact framed_nil
    · have hstart : Joint ("\nInherits " ++ what ++ " from ").toList :=
        joint_around (by decide +kernel) hwhat (by decide +kernel)
      exact (joint_around hstart (noCloser_commas hparents) (by decide)).toFramed
  unfold memberGroup
  split
  · exact framed_nil
  · apply framed_append _ (framed_join hblocks)
    apply framed_append _ hnote
    exact (joint_around (by decide +kernel) htitle (by decide)).toFramed

theorem framed_classPage {c : ClassDoc} (h : c.Inert) {parents : List String}
    (hparents : ∀ s ∈ parents, NoCloser s.toList) {missing : String}
    (hmissing : NoCloser missing.toList) : Framed (classPage c parents missing).toList := by
  apply framed_append
  · apply framed_append
    · exact framed_append (joint_heading h hparents).toFramed (framed_descriptionBlock h.description)
    · apply framed_memberGroup (by decide +kernel) (by decide +kernel) hparents
      intro b hb
      obtain ⟨p, hp, rfl⟩ := List.mem_map.1 hb
      exact framed_propertyBlock hmissing (h.properties p hp)
  · apply framed_memberGroup (by decide +kernel) (by decide +kernel) hparents
    intro b hb
    obtain ⟨m, hm, rfl⟩ := List.mem_map.1 hb
    exact framed_methodBlock hmissing (h.methods m hm)

/-! ## Pages of a model -/

/-- A model whose texts do not contain `*/`, with no star in the names of its folders. -/
structure Calm (docs : Docs) : Prop where
  inert : ∀ c ∈ docs.classes.values, c.Inert
  folders : ∀ c ∈ docs.classes.values, ∀ n ∈ (splitSlashes c.file).dropLast, '*' ∉ n.toList

section

variable {docs : Docs} (h : Calm docs) {cwd : List String} (hcwd : ∀ n ∈ cwd, '*' ∉ n.toList)
include h hcwd

theorem Calm.tame_pagePath {c : ClassDoc} (hc : c ∈ docs.classes.values) :
    (pagePath cwd docs c).Tame :=
  Page.tame_pagePath hcwd docs (h.folders c hc) (h.inert c hc).name

theorem Calm.noCloser_parentReference (c : ClassDoc) {name : String}
    (hname : NoCloser name.toList) :
    NoCloser (parentReference cwd docs c name).toList := by
  unfold parentReference
  split
  · exact hname
  · next parent hget =>
    have hparent := h.tame_pagePath hcwd (Table.mem_values_of_get? hget)
    have hlink := tame_relativePath hcwd hparent.text (pagePath cwd docs c).parent.text
    have hlabel : Joint ("[" ++ name ++ "](").toList := joint_around (by decide) hname (by decide)
    exact (joint_around hlabel hlink.text.noCloser (by decide)).noCloser

theorem Calm.noCloser_renderClass {missing : String} (hmissing : NoCloser missing.toList)
    {c : ClassDoc} (hc : c ∈ docs.classes.values) :
    NoCloser (renderClass { missing, cwd } docs c).toList := by
  apply (framed_classPage (h.inert c hc) _ hmissing).noCloser
  intro s hs
  obtain ⟨name, hname, rfl⟩ := List.mem_map.1 hs
  exact h.noCloser_parentReference hcwd c ((h.inert c hc).parents name hname)

end

theorem tame_sectionOf {p : Path} (hp : p.Tame) : Tame (sectionOf p) := by
  have hparts : ∀ n ∈ p.parts, Tame n := by
    unfold Path.parts
    split
    · exact List.forall_mem_cons.2 ⟨hp.root, hp.names⟩
    · exact hp.names
  unfold sectionOf
  split
  · next first _ _ he => exact hparts first (he ▸ List.mem_cons_self)
  · exact tame_of_notMem (by decide)

/-- A slash may follow the name of the section, and its links do not contain `*/`. -/
def CalmSection (s : String × List Link) : Prop :=
  Tame s.1 ∧ ∀ l ∈ s.2, NoCloser l.name.toList ∧ NoCloser l.target.toList

theorem framed_sectionLines {s : String × List Link} (h : CalmSection s) :
    Framed (sectionLines "" s).toList := by
  have hdash : Tame "- " := tame_of_notMem (by decide)
  have hslash : Tame "/\n" := tame_of_notMem (by decide)
  have hline := (hdash.append h.1).append hslash
  unfold sectionLines
  rw [String.empty_append]
  apply framed_append
  · refine ⟨hline.noCloser, ?_, hline.last⟩
    rw [String.toList_append, String.toList_append]
    exact nofun
  · apply framed_join
    intro b hb
    obtain ⟨l, hl, rfl⟩ := List.mem_map.1 hb
    obtain ⟨hname, htarget⟩ := h.2 l hl
    have hlabel : Joint ("  - [" ++ l.name ++ "](").toList :=
      joint_around (by decide) hname (by decide)
    unfold linkLine
    rw [String.empty_append]
    exact (joint_around hlabel htarget (by decide)).toFramed

section

variable {docs : Docs} (h : Calm docs) {cwd : List String} (hcwd : ∀ n ∈ cwd, '*' ∉ n.toList)
include h hcwd

theorem Calm.calm_sections : ∀ s ∈ (sections cwd docs "").entries, CalmSection s := by
  unfold sections
  refine List.foldlRecOn (motive := fun acc : Table (List Link) => ∀ s ∈ acc.entries, CalmSection s)
    _ _ (List.forall_mem_nil _) fun acc hacc c hc s hs => ?_
  have hpath := h.tame_pagePath hcwd hc
  have hsection := tame_sectionOf hpath
  have hlink : NoCloser c.name.toList ∧ NoCloser (linkTo "" (pagePath cwd docs c)).toList := by
    rw [linkTo_empty]
    exact ⟨(h.inert c hc).name, hpath.text.noCloser⟩
  simp only at hs
  generalize sectionOf (pagePath cwd docs c) = key at hs hsection
  generalize linkTo "" (pagePath cwd docs c) = target at hs hlink
  rcases Table.mem_entries_insert hs with rfl | hs
  · refine ⟨hsection, fun l hl => ?_⟩
    rcases List.mem_append.1 hl with hl | hl
    · cases hget : acc.get? key with
      | none =>
        rw [hget] at hl
        cases hl
      | some links =>
        rw [hget] at hl
        obtain ⟨old, hold, rfl⟩ := List.mem_map.1 (Table.mem_values_of_get? hget)
        exact (hacc old hold).2 l hl
    · rw [List.mem_singleton.1 hl]
      exact hlink
  · exact hacc s hs

theorem Calm.framed_renderNav : Framed (renderNav cwd docs "" "").toList := by
  apply framed_join
  intro b hb
  obtain ⟨s, hs, rfl⟩ := List.mem_map.1 hb
  exact framed_sectionLines (h.calm_sections hcwd s hs)

theorem Calm.noCloser_indexPage {title : String} (htitle : NoCloser title.toList) :
    NoCloser (indexPage title (renderNav cwd docs "" "")).toList := by
  have hheading : Joint (headingMark ++ title ++ "\n\n").toList :=
    joint_around (by decide) htitle (by decide)
  exact (joint_append hheading (h.framed_renderNav hcwd)).noCloser

end

end ApiDoc.Page
