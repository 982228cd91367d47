import ApiDoc.Proofs.Analysis.Headings
import ApiDoc.Proofs.Files.Relative
import ApiDoc.Proofs.Scan.Completion

/-!
# Models of sources

The model of a source (`ModelOf`) is what comes of the files below it, read in any order and
filtered in any way. Whatever comments the files hold, each class of a run stands once and under its
own name, and its file is one of those that were read.

* `nodup_names_afterCalls`, `get?_name_of_mem`: a class is found by its name.
* `exists_file_of_mem`: the file of a class was read.
* `ModelOf.exists_liesIn`: for a source, this file lies somewhere below its folder.
-/

namespace ApiDoc

namespace Analysis

open Files Scan

/-! ## Classes of a run -/

section

variable (limit : Limit) (calls : List (List FileComments))

theorem keys_classes_afterCalls : (State.afterCalls limit calls).classes.keys =
    ((filedIn calls).filterMap fun c => className? c.comment).eraseDups := by
  rw [← foldl_toList_eq_eraseDups]
  exact view_afterCalls (fun s => s.classes.keys)
    (fun s active file c hs => keys_addComment limit hs file c) calls

theorem nodup_keys_afterCalls : (State.afterCalls limit calls).classes.keys.Nodup := by
  rw [keys_classes_afterCalls]
  exact nodup_eraseDups _

theorem heading_afterCalls (name : String) :
    ((State.afterCalls limit calls).classes.get? name).map heading =
      headingOf name (declarationsOf name (filedIn calls)) := by
  rw [← foldl_joinHeading]
  exact view_afterCalls (fun s => (s.classes.get? name).map heading)
    (fun s active file c hs => heading_addComment limit hs file c name) calls

variable {limit calls} {c : ClassDoc}

/-- What is known of the first declaration of a class that is in the model. -/
theorem exists_declaration {name : String}
    (h : (State.afterCalls limit calls).classes.get? name = some c) :
    c.name = name ∧ ∃ f ∈ calls.flatten, c.file = f.file := by
  have hheading := heading_afterCalls limit calls name
  rw [h, Option.map_some, headingOf] at hheading
  obtain ⟨first, hfirst, he⟩ := Option.map_eq_some_iff.1 hheading.symm
  have hname : name = c.name := congrArg Heading.name he
  have hfile : first.file = c.file := congrArg Heading.file he
  have hmem : first ∈ filedIn calls := (List.mem_filter.1 (List.mem_of_head? hfirst)).1
  obtain ⟨f, hf, hfiled⟩ := List.mem_flatMap.1 hmem
  obtain ⟨comment, -, rfl⟩ := List.mem_map.1 hfiled
  exact ⟨hname.symm, f, hf, hfile.symm⟩

theorem get?_name_of_mem (h : c ∈ (State.afterCalls limit calls).classes.values) :
    (State.afterCalls limit calls).classes.get? c.name = some c := by
  obtain ⟨⟨key, c'⟩, hmem, rfl⟩ := List.mem_map.1 h
  have hget := Table.get?_of_mem (nodup_keys_afterCalls limit calls) hmem
  obtain ⟨hname, -⟩ := exists_declaration hget
  rw [hname]
  exact hget

theorem exists_file_of_mem (h : c ∈ (State.afterCalls limit calls).classes.values) :
    ∃ f ∈ calls.flatten, c.file = f.file :=
  (exists_declaration (get?_name_of_mem h)).2

variable (limit calls)

/-- Different classes have different names. -/
theorem nodup_names_afterCalls :
    ((State.afterCalls limit calls).classes.values.map ClassDoc.name).Nodup := by
  have hnames : (State.afterCalls limit calls).classes.values.map ClassDoc.name =
      (State.afterCalls limit calls).classes.keys := by
    rw [Table.values, Table.keys, List.map_map]
    refine List.map_congr_left fun e he => ?_
    exact (exists_declaration (Table.get?_of_mem (nodup_keys_afterCalls limit calls) he)).1
  rw [hnames]
  exact nodup_keys_afterCalls limit calls

end

/-! ## Files of a scan -/

theorem file_mem_of_completeReads {read : String → Except ScanError (List Comment)}
    {files : List String} {order : List (Fin files.length)} {p : Pending}
    {results : List FileComments} (hp : ∀ f, some f ∈ p.results → f.file ∈ files)
    (h : (completeReads read files p order).result = .ok results) :
    ∀ f ∈ results, f.file ∈ files := by
  induction order generalizing p with
  | nil =>
    cases h
    intro f hf
    obtain ⟨slot, hslot, rfl⟩ := List.mem_filterMap.1 hf
    exact hp f hslot
  | cons i order ih =>
    rw [completeReads] at h
    split at h
    · cases h
    · refine ih (fun f hf => ?_) h
      rcases List.mem_or_eq_of_mem_set hf with hf | he
      · exact hp f hf
      · cases he
        exact List.get_mem files i

theorem file_mem_of_scanAccepted {schedule : Schedule} {accepts : String → Bool}
    {options : Options} {t : Tree} {cwd : List String} {source : String}
    {results : List FileComments}
    (h : (scanAccepted schedule accepts options t cwd source).result = .ok results) :
    ∃ files, acceptedFiles accepts t cwd source = .ok files ∧ ∀ f ∈ results, f.file ∈ files := by
  unfold scanAccepted at h
  split at h
  · cases h
  · next files hfiles =>
    split at h
    · cases h
    · refine ⟨files, hfiles, file_mem_of_completeReads (fun f hf => ?_) h⟩
      have hnone := (List.mem_replicate.1 hf).2
      cases hnone

/-! ## The model of a source -/

/-- The model of a source: its files, filtered in some way and read in some order, taken into an
analysis that knew nothing before. -/
def ModelOf (t : Tree) (cwd : List String) (source : String) (docs : Docs) : Prop :=
  ∃ schedule accepts options limit files,
    (scanAccepted schedule accepts options t cwd source).result = .ok files ∧
    docs = (State.addFiles limit {} files).docs (sourceFolder t cwd source)

/-- The path of the file is that of the folder with the names `dir` and one more name behind it. -/
structure LiesIn (folder file : String) (dir : List String) : Prop where
  names : ∀ m ∈ dir, IsName m
  no_dots : ".." ∉ dir
  path : ∃ n, IsName n ∧ file = ((Path.ofText folder).below (dir ++ [n])).text

theorem liesIn_of_fileBelow {t : Tree} (ht : t.WellFormed) {cwd : List String}
    (hcwd : t.entry? cwd = some .folder) {source file : String} {content : Content}
    (h : FileBelow t cwd source file content) :
    ∃ dir, LiesIn (sourceFolder t cwd source) file dir := by
  obtain ⟨place, names, hplace, hfile, rfl⟩ := h
  have hp := Path.lexical_ofText source
  by_cases hnil : names = []
  · -- the source is the file itself
    subst hnil
    rw [List.append_nil] at hfile
    have hne : (Path.ofText source).names ≠ [] := by
      intro hnames
      rw [Tree.locate, hnames] at hplace
      obtain rfl := Except.ok.inj hplace
      split at hfile
      · cases hfile
      · rw [hcwd] at hfile
        cases hfile
    have hfolder : t.isFolder cwd (Path.ofText source) = false := by
      unfold Tree.isFolder Tree.status
      rw [hplace]
      simp only [hfile]
    have hsource : sourceFolder t cwd source = (Path.ofText source).parent.text := by
      simp only [sourceFolder, hfolder, Bool.false_eq_true, if_false]
    refine ⟨[], List.forall_mem_nil _, List.not_mem_nil, (Path.ofText source).names.getLast hne,
      hp.names _ (List.getLast_mem hne), ?_⟩
    rw [hsource, Path.ofText_text hp.parent]
    unfold Path.below Path.parent
    rw [List.nil_append, List.append_nil, List.dropLast_append_getLast]
  · have hlength : place.length < (place ++ names).length := by
      have := List.length_pos_iff.2 hnil
      rw [List.length_append]
      omega
    have hentry := Tree.entry?_take ht hfile hlength
    rw [List.take_left] at hentry
    have hfolder : t.isFolder cwd (Path.ofText source) = true := by
      unfold Tree.isFolder Tree.status
      rw [hplace]
      simp only [hentry]
    have hsource : sourceFolder t cwd source = (Path.ofText source).text := by
      simp only [sourceFolder, hfolder, if_true]
    have hnames : ∀ n ∈ names, IsEntryName n := fun n hn =>
      Tree.isEntryName_of_mem ht hfile n (List.mem_append_right place hn)
    refine ⟨names.dropLast, ?_, ?_, names.getLast hnil, ?_, ?_⟩
    · exact fun n hn => (hnames n (List.dropLast_subset names hn)).toIsName
    · exact fun hmem => (hnames _ (List.dropLast_subset names hmem)).ne_dots rfl
    · exact (hnames _ (List.getLast_mem hnil)).toIsName
    · rw [hsource, Path.ofText_text hp, List.dropLast_append_getLast hnil]

section

variable {t : Tree} {cwd : List String} {source : String} {docs : Docs}

/-- A scan of a folder whose files are found in the order of their paths. -/
theorem scanAccepted_of_sorted {options : Options} (hworkers : ∀ n ∈ options.workers, 0 < n)
    {place paths : List String} (hplace : t.locate cwd (Path.ofText source) = .ok place)
    (hfolder : t.entry? place = some .folder)
    (hpaths : (t.filesBelow place).map (fun names => ((Path.ofText source).below names).text) =
      paths)
    (hsorted : paths.Pairwise fun a b => (!decide (b < a)) = true) :
    scanAccepted List.finRange (fun _ => true) options t cwd source =
      readFiles (scanFile options t cwd) paths (List.finRange paths.length) := by
  have hfiles : acceptedFiles (fun _ => true) t cwd source = .ok paths := by
    simp only [acceptedFiles, listFiles, hplace, hfolder, hpaths]
    rw [List.mergeSort_of_pairwise hsorted, List.filter_true]
  exact scanAccepted_eq hworkers hfiles List.finRange

theorem modelOf_of_sorted {place paths : List String}
    (hplace : t.locate cwd (Path.ofText source) = .ok place)
    (hfolder : t.entry? place = some .folder)
    (hpaths : (t.filesBelow place).map (fun names => ((Path.ofText source).below names).text) =
      paths)
    (hsorted : paths.Pairwise fun a b => (!decide (b < a)) = true)
    (hread : (readFiles (scanFile {} t cwd) paths (List.finRange paths.length)).result.toOption.map
      (fun files => (State.addFiles none {} files).docs (sourceFolder t cwd source)) = some docs) :
    ModelOf t cwd source docs := by
  have hworkers : ∀ n ∈ ({} : Options).workers, 0 < n := by
    intro n hn
    cases hn
  obtain ⟨files, hresult, hdocs⟩ := Option.map_eq_some_iff.1 hread
  refine ⟨List.finRange, fun _ => true, {}, none, files, ?_, hdocs.symm⟩
  rw [scanAccepted_of_sorted hworkers hplace hfolder hpaths hsorted]
  exact eq_ok_of_toOption hresult

/-- A model is what some run of an analysis leaves. -/
theorem ModelOf.exists_afterCalls (h : ModelOf t cwd source docs) :
    ∃ limit calls, docs = (State.afterCalls limit calls).docs (sourceFolder t cwd source) := by
  obtain ⟨-, -, -, limit, files, -, rfl⟩ := h
  exact ⟨limit, [files], rfl⟩

/-- The file of a class lies somewhere below the folder of the source. -/
theorem ModelOf.exists_liesIn (h : ModelOf t cwd source docs) (ht : t.WellFormed)
    (hcwd : t.entry? cwd = some .folder) {c : ClassDoc} (hc : c ∈ docs.classes.values) :
    ∃ dir, LiesIn docs.sourceFolder c.file dir := by
  obtain ⟨schedule, accepts, options, limit, results, hscan, rfl⟩ := h
  obtain ⟨f, hf, hfile⟩ : ∃ f ∈ [results].flatten, c.file = f.file :=
    @exists_file_of_mem limit [results] c hc
  rw [List.flatten_singleton] at hf
  obtain ⟨files, hfiles, hmem⟩ := file_mem_of_scanAccepted hscan
  have hsource : t.pathExists cwd (Path.ofText source) = true := by
    by_contra hmissing
    rw [acceptedFiles, listFiles_of_not_pathExists (Bool.eq_false_iff.2 hmissing)] at hfiles
    cases hfiles
  obtain ⟨files', hfiles', -, hbelow⟩ := acceptedFiles_spec ht hsource accepts
  obtain rfl := Except.ok.inj (hfiles.symm.trans hfiles')
  obtain ⟨-, content, hcontent⟩ := (hbelow _).1 (hmem f hf)
  rw [hfile]
  exact liesIn_of_fileBelow ht hcwd hcontent

end

end Analysis

end ApiDoc
