import ApiDoc.Proofs.Analysis.Remarks

/-!
# Files that declare different names

A file reaches the entries of the classes and functions that it declares, and no others, although
its members find their class through the one that is current. So two files without a common name
may be taken in either order.

* `foldl_entryStep_of_notMem`, `foldl_functionStep_of_notMem`: what a file does not declare stays.
* `remarks_addComments_congr`: what is remarked about a file depends on the classes it declares.
* `independent_files_commute`: both orders leave the same entries and the same remarks.
-/

namespace ApiDoc.Analysis

/-! ## Entries -/

theorem entryStep_of_ne {file key : String} {p : Placed} (hname : className? p.comment ≠ some key)
    (hcurrent : p.current ≠ some key) (entry : Option ClassDoc) :
    entryStep file key entry p = entry := by
  have hdeclared : declaredEntry file p.comment key entry = entry := by
    unfold declaredEntry
    rw [classDoc?_ofComment]
    cases h : className? p.comment with
    | none => rfl
    | some name =>
      apply if_neg
      rintro rfl
      exact hname h
  simp only [entryStep, hdeclared, if_neg hcurrent]
  exact Option.map_id'

/-- A comment belongs to a file, and the class that is current after it was declared there. -/
theorem names_of_mem_placed {f : FileComments} {p : Placed} (hp : p ∈ placed f) :
    p.comment ∈ f.comments ∧ ∀ key, p.current = some key → key ∈ classNames f := by
  obtain ⟨i, hi, rfl⟩ := List.mem_mapIdx.1 hp
  refine ⟨List.getElem_mem hi, ?_⟩
  intro key hkey
  obtain ⟨c, hc, hname⟩ := List.mem_filterMap.1 (List.mem_of_getLast? hkey)
  exact List.mem_filterMap.2 ⟨c, List.mem_of_mem_take hc, hname⟩

theorem foldl_entryStep_of_notMem {f : FileComments} {key : String} (h : key ∉ classNames f)
    (entry : Option ClassDoc) : (placed f).foldl (entryStep f.file key) entry = entry := by
  apply foldl_eq_self
  intro p hp
  obtain ⟨hmem, hcurrent⟩ := names_of_mem_placed hp
  apply entryStep_of_ne
  · intro hname
    exact h (List.mem_filterMap.2 ⟨p.comment, hmem, hname⟩)
  · intro hkey
    exact h (hcurrent key hkey)

theorem get?_addFile_of_notMem (limit : Limit) {s : State} (hs : Sound s.classes none)
    {f : FileComments} {key : String} (h : key ∉ classNames f) :
    (s.addFile limit f).classes.get? key = s.classes.get? key := by
  rw [get?_addFile limit hs, foldl_entryStep_of_notMem h]

/-! ## Functions -/

theorem foldl_functionStep_of_notMem {f : FileComments} {name : String}
    (h : name ∉ functionNames f) (entry : Option FunctionDoc) :
    (filed f).foldl (functionStep name) entry = entry := by
  apply foldl_eq_self
  intro c hc
  obtain ⟨comment, hmem, rfl⟩ := List.mem_map.1 hc
  apply if_neg
  intro hname
  exact h (List.mem_filterMap.2 ⟨comment, hmem, hname⟩)

/-! ## Remarks -/

theorem remarks_addComments_congr (limit : Limit) (file : String) (names : List String)
    (cs : List Comment) :
    ∀ (s t : State) (active : Option String), Sound s.classes active → Sound t.classes active →
      (∀ key ∈ names, s.classes.get? key = t.classes.get? key) →
      (∀ key, active = some key → key ∈ names) →
      (∀ key ∈ cs.filterMap className?, key ∈ names) →
      ∃ new, (s.addComments limit file active cs).warnings = s.warnings ++ new ∧
        (t.addComments limit file active cs).warnings = t.warnings ++ new := by
  induction cs with
  | nil =>
    intro s t active _ _ _ _ _
    exact ⟨[], (List.append_nil _).symm, (List.append_nil _).symm⟩
  | cons c cs ih =>
    intro s t active hs ht hagree hactive hnames
    have hcurrent : ∀ key, (className? c).or active = some key → key ∈ names := by
      intro key hkey
      rcases Option.or_eq_some_iff.1 hkey with hname | ⟨-, hold⟩
      · apply hnames
        exact List.mem_filterMap.2 ⟨c, List.mem_cons_self, hname⟩
      · exact hactive key hold
    -- the two states agree on the class that is current, so they remark the same
    have hentry : currentEntry file s.classes ⟨c, (className? c).or active⟩ =
        currentEntry file t.classes ⟨c, (className? c).or active⟩ := by
      unfold currentEntry
      cases hc : (className? c).or active with
      | none => rfl
      | some key => rw [Option.bind_some, Option.bind_some, hagree key (hcurrent key hc)]
    have hnext : ∀ key ∈ names, (s.addComment limit file active c).1.classes.get? key =
        (t.addComment limit file active c).1.classes.get? key := by
      intro key hkey
      rw [get?_addComment limit file c hs, get?_addComment limit file c ht, hagree key hkey]
    obtain ⟨new, hnewS, hnewT⟩ := ih _ _ _ (sound_addComment limit file c hs)
      (sound_addComment limit file c ht) hnext hcurrent (by
        intro key hkey
        obtain ⟨d, hd, hname⟩ := List.mem_filterMap.1 hkey
        exact hnames key (List.mem_filterMap.2 ⟨d, List.mem_cons_of_mem c hd, hname⟩))
    rw [remarks_addComment limit file c hs, List.append_assoc] at hnewS
    rw [remarks_addComment limit file c ht, ← hentry, List.append_assoc] at hnewT
    rw [addComments_cons, addComments_cons]
    exact ⟨_, hnewS, hnewT⟩

/-- What is remarked about a file is the same after another file that declares other classes. -/
theorem remarks_addFile_after (limit : Limit) {s : State} (hs : Sound s.classes none)
    {f g : FileComments} (h : ∀ key ∈ classNames f, key ∉ classNames g) :
    ∃ new, (s.addFile limit f).warnings = s.warnings ++ new ∧
      ((s.addFile limit g).addFile limit f).warnings = (s.addFile limit g).warnings ++ new := by
  apply remarks_addComments_congr limit f.file (classNames f) f.comments s (s.addFile limit g) none
    hs (sound_addFile limit hs g)
  · intro key hkey
    rw [get?_addFile_of_notMem limit hs (h key hkey)]
  · intro key hkey
    cases hkey
  · intro key hkey
    exact hkey

/-! ## Both orders -/

/-- **Independent files.** Two files that declare no common class and no common function leave the
same entry of each class and each function in either order, and what is remarked about each of them
is the same whether it comes first or second. -/
theorem independent_files_commute (limit : Limit) (calls : List (List FileComments))
    (f g : FileComments) (hclasses : ∀ name ∈ classNames f, name ∉ classNames g)
    (hfunctions : ∀ name ∈ functionNames f, name ∉ functionNames g) :
    let s := State.afterCalls limit calls
    (∀ name, (s.addFiles limit [f, g]).classes.get? name =
      (s.addFiles limit [g, f]).classes.get? name) ∧
    (∀ name, (s.addFiles limit [f, g]).functions.get? name =
      (s.addFiles limit [g, f]).functions.get? name) ∧
    ∃ ofF ofG,
      (s.addFiles limit [f]).warnings = s.warnings ++ ofF ∧
      (s.addFiles limit [g]).warnings = s.warnings ++ ofG ∧
      (s.addFiles limit [f, g]).warnings = s.warnings ++ ofF ++ ofG ∧
      (s.addFiles limit [g, f]).warnings = s.warnings ++ ofG ++ ofF := by
  intro s
  have hs : Sound s.classes none := sound_afterCalls limit calls
  have hsF := sound_addFile limit hs f
  have hsG := sound_addFile limit hs g
  refine ⟨?_, ?_, ?_⟩
  · intro name
    change ((s.addFile limit f).addFile limit g).classes.get? name =
      ((s.addFile limit g).addFile limit f).classes.get? name
    rw [get?_addFile limit hsF, get?_addFile limit hs, get?_addFile limit hsG,
      get?_addFile limit hs]
    by_cases hf : name ∈ classNames f
    · simp only [foldl_entryStep_of_notMem (hclasses name hf)]
    · simp only [foldl_entryStep_of_notMem hf]
  · intro name
    change ((s.addFile limit f).addFile limit g).functions.get? name =
      ((s.addFile limit g).addFile limit f).functions.get? name
    rw [function?_addFile limit hsF, function?_addFile limit hs, function?_addFile limit hsG,
      function?_addFile limit hs]
    by_cases hf : name ∈ functionNames f
    · simp only [foldl_functionStep_of_notMem (hfunctions name hf)]
    · simp only [foldl_functionStep_of_notMem hf]
  · have hsymm : ∀ name ∈ classNames g, name ∉ classNames f := fun name hg hf =>
      hclasses name hf hg
    obtain ⟨ofF, hF, hFG⟩ := remarks_addFile_after limit hs hclasses
    obtain ⟨ofG, hG, hGF⟩ := remarks_addFile_after limit hs hsymm
    refine ⟨ofF, ofG, hF, hG, ?_, ?_⟩
    · rw [← hF]
      exact hGF
    · rw [← hG]
      exact hFG

/-- A comment of one tag with a name. -/
def tagged (label name : String) : Comment where
  source := "/** @" ++ label ++ " " ++ name ++ " */"
  content := [.tag { source := "@" ++ label ++ " " ++ name, label, name := some name }]

/-- A file that goes on with a class of another file, and says again what is known of it. -/
def antFile : FileComments :=
  ⟨"ant.js", [tagged "class" "Ant", tagged "method" "run", tagged "function" "feed"]⟩

/-- A file whose first member comes before its class. -/
def beeFile : FileComments :=
  ⟨"bee.js", [tagged "method" "run", tagged "class" "Bee", tagged "method" "run"]⟩

/-- Both files bring a method `run`: one is known already, one has no class, one is new. -/
theorem ant_and_bee_files_commute :
    let s := State.afterCalls none [[antFile]]
    (classNames antFile = ["Ant"] ∧ classNames beeFile = ["Bee"] ∧
      functionNames antFile = ["feed"] ∧ functionNames beeFile = []) ∧
    (∀ name, (s.addFiles none [antFile, beeFile]).classes.get? name =
      (s.addFiles none [beeFile, antFile]).classes.get? name) ∧
    (∀ name, (s.addFiles none [antFile, beeFile]).functions.get? name =
      (s.addFiles none [beeFile, antFile]).functions.get? name) ∧
    ∃ ofAnt ofBee,
      (s.addFiles none [antFile]).warnings = s.warnings ++ ofAnt ∧
      (s.addFiles none [beeFile]).warnings = s.warnings ++ ofBee ∧
      (s.addFiles none [antFile, beeFile]).warnings = s.warnings ++ ofAnt ++ ofBee ∧
      (s.addFiles none [beeFile, antFile]).warnings = s.warnings ++ ofBee ++ ofAnt := by
  have hclasses : ∀ name ∈ classNames antFile, name ∉ classNames beeFile := by decide
  have hfunctions : ∀ name ∈ functionNames antFile, name ∉ functionNames beeFile := by decide
  exact ⟨by decide, independent_files_commute none [[antFile]] antFile beeFile hclasses hfunctions⟩

end ApiDoc.Analysis
