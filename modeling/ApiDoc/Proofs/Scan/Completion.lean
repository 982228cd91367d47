import Mathlib.Data.List.Sort
import Mathlib.Tactic.Choose
import ApiDoc.Scan
import ApiDoc.Proofs.Files.Tree

/-!
# Scans in any order of completion

The reads of a scan complete in an order that nobody controls. What a scan has gathered depends only
on which reads have completed (`reached`), so that every order leads to the same result, and an
order shows in the announcements alone.

* `put_reached`, `completeReads_reached`: one completed read, and any row of them.
* `listFiles_spec`: the listing is strictly sorted and holds just the files below the source.
* `scanFile_of_fileBelow`: what comes of a listed file is settled by its own content.
* `scanAccepted_any_order`: what a scan gives, announces and depends on, for every order.
-/

namespace ApiDoc.Scan

open Files

/-! ## Completed reads -/

section

variable {n : Nat} (f : Fin n → FileComments)

/-- A scan in which the reads of the given files have completed, in this order. -/
def reached (done : List (Fin n)) : Pending where
  announced := done.map f
  results := (List.finRange n).map fun i => if i ∈ done then some (f i) else none

theorem start_eq_reached : Pending.start n = reached f [] := by
  simp [Pending.start, reached, List.map_const']

/-- One more read completes. -/
theorem put_reached (done : List (Fin n)) (i : Fin n) :
    (reached f done).put i (f i) = reached f (done ++ [i]) := by
  have hresults : (reached f done).results.set i (some (f i)) =
      (reached f (done ++ [i])).results := by
    apply List.ext_getElem
    · simp [reached]
    · intro k hk hk'
      have hlt : k < n := by simpa [reached] using hk'
      by_cases hki : i.val = k
      · subst hki
        simp [reached]
      · have hne : (⟨k, hlt⟩ : Fin n) ≠ i := fun he => hki (congrArg Fin.val he).symm
        rw [List.getElem_set_ne hki]
        simp [reached, hne]
  rw [Pending.put, hresults]
  simp [reached]

theorem filterMap_results {order : List (Fin n)} (h : ∀ i, i ∈ order) :
    (reached f order).results.filterMap id = (List.finRange n).map f := by
  have hall : (reached f order).results = ((List.finRange n).map f).map some := by
    simp [reached, h]
  rw [hall, List.filterMap_map]
  simp

end

section

variable {read : String → Except ScanError (List Comment)} {files : List String}
  {comments : Fin files.length → List Comment}

/-- The comments of a file with its path. -/
def payload (files : List String) (comments : Fin files.length → List Comment)
    (i : Fin files.length) : FileComments :=
  ⟨files.get i, comments i⟩

/-- Any row of reads that succeed. -/
theorem completeReads_reached {order : List (Fin files.length)}
    (h : ∀ i ∈ order, read (files.get i) = .ok (comments i)) (done rest : List (Fin files.length)) :
    completeReads read files (reached (payload files comments) done) (order ++ rest) =
      completeReads read files (reached (payload files comments) (done ++ order)) rest := by
  induction order generalizing done with
  | nil => rw [List.nil_append, List.append_nil]
  | cons i order ih =>
    obtain ⟨hi, horder⟩ := List.forall_mem_cons.1 h
    have hput := put_reached (payload files comments) done i
    rw [payload] at hput
    rw [List.cons_append, completeReads, hi]
    simp only
    rw [hput, ih horder, List.append_assoc, List.singleton_append]

/-- The scan has read every file: the result has all of them in the order of the files, and each
was announced with the same comments when its read completed. -/
def Run.Finished (run : Run) (read : String → Except ScanError (List Comment))
    (files : List String) (order : List (Fin files.length)) : Prop :=
  ∃ comments : Fin files.length → List Comment,
    (∀ i, read (files.get i) = .ok (comments i)) ∧
    run.result = .ok ((List.finRange files.length).map (payload files comments)) ∧
    run.announced = order.map (payload files comments)

/-- The scan has ended with the first read that failed: there is no result but the error of this
read, and just the files whose reads completed before it were announced. -/
def Run.Stopped (run : Run) (read : String → Except ScanError (List Comment))
    (files : List String) (order : List (Fin files.length)) : Prop :=
  ∃ before i after e, order = before ++ i :: after ∧
    read (files.get i) = .error e ∧ run.result = .error e ∧
    ∃ comments : Fin files.length → List Comment,
      (∀ j ∈ before, read (files.get j) = .ok (comments j)) ∧
      run.announced = before.map (payload files comments)

theorem readFiles_finished {order : List (Fin files.length)}
    (horder : order.Perm (List.finRange files.length))
    (h : ∀ f ∈ files, ∃ comments, read f = .ok comments) :
    (readFiles read files order).Finished read files order := by
  have hread : ∀ i : Fin files.length, ∃ c, read (files.get i) = .ok c :=
    fun i => h _ (List.get_mem files i)
  choose comments hcomments using hread
  have hall : ∀ i, i ∈ order := fun i => horder.mem_iff.2 (List.mem_finRange i)
  have hok : ∀ i ∈ order, read (files.get i) = .ok (comments i) := fun i _ => hcomments i
  have hrun := completeReads_reached hok [] []
  rw [List.append_nil, List.nil_append, ← start_eq_reached, completeReads,
    filterMap_results _ hall] at hrun
  refine ⟨comments, hcomments, ?_, ?_⟩
  · rw [readFiles, hrun]
  · rw [readFiles, hrun]
    rfl

theorem exists_ok_of_isOk {ε α : Type} {x : Except ε α} (h : x.isOk = true) :
    ∃ a, x = .ok a := by
  cases x with
  | error e => cases h
  | ok a => exact ⟨a, rfl⟩

theorem eq_ok_of_toOption {ε α : Type} {x : Except ε α} {a : α} (h : x.toOption = some a) :
    x = .ok a := by
  cases x with
  | error e => cases h
  | ok b =>
    cases h
    rfl

theorem readFiles_stopped {order : List (Fin files.length)}
    (horder : order.Perm (List.finRange files.length))
    (h : ∃ f ∈ files, ∃ e, read f = .error e) :
    (readFiles read files order).Stopped read files order := by
  obtain ⟨f, hf, e, he⟩ := h
  obtain ⟨k, rfl⟩ := List.get_of_mem hf
  -- the first read of the order that fails
  have hfails : (order.find? fun i => !(read (files.get i)).isOk).isSome := by
    refine List.find?_isSome.2 ⟨k, horder.mem_iff.2 (List.mem_finRange k), ?_⟩
    rw [he]
    rfl
  obtain ⟨i, hi⟩ := Option.isSome_iff_exists.1 hfails
  obtain ⟨hfail, before, after, hsplit, hbefore⟩ := List.find?_eq_some_iff_append.1 hi
  have hread : ∀ j : Fin files.length, ∃ c, j ∈ before → read (files.get j) = .ok c := by
    intro j
    by_cases hj : j ∈ before
    · have hok := hbefore j hj
      rw [Bool.not_not] at hok
      obtain ⟨c, hc⟩ := exists_ok_of_isOk hok
      exact ⟨c, fun _ => hc⟩
    · exact ⟨[], fun hmem => absurd hmem hj⟩
  choose comments hcomments using hread
  have hrun := completeReads_reached hcomments [] (i :: after)
  rw [← hsplit, List.nil_append, ← start_eq_reached] at hrun
  cases hr : read (files.get i) with
  | ok c =>
    rw [hr] at hfail
    cases hfail
  | error e =>
    rw [completeReads, hr] at hrun
    refine ⟨before, i, after, e, hsplit, hr, ?_, comments, hcomments, ?_⟩
    · rw [readFiles, hrun]
    · rw [readFiles, hrun]
      rfl

theorem completeReads_congr {read' : String → Except ScanError (List Comment)}
    (h : ∀ f ∈ files, read f = read' f) (p : Pending) (order : List (Fin files.length)) :
    completeReads read files p order = completeReads read' files p order := by
  induction order generalizing p with
  | nil => rfl
  | cons i order ih =>
    rw [completeReads, completeReads, h _ (List.get_mem files i)]
    split
    · rfl
    · exact ih _

/-- Whatever the order, and whether or not it has all files, what stands in the result was read. -/
theorem read_of_mem_result {p : Pending}
    (hp : ∀ f, some f ∈ p.results → read f.file = .ok f.comments)
    {order : List (Fin files.length)} {found : List FileComments}
    (h : (completeReads read files p order).result = .ok found) :
    ∀ f ∈ found, read f.file = .ok f.comments := by
  induction order generalizing p with
  | nil =>
    cases h
    intro f hf
    obtain ⟨entry, hentry, he⟩ := List.mem_filterMap.1 hf
    obtain rfl : entry = some f := he
    exact hp f hentry
  | cons i order ih =>
    rw [completeReads] at h
    split at h
    · cases h
    · next comments hread =>
      refine ih (fun f hf => ?_) h
      rcases List.mem_or_eq_of_mem_set hf with hf | hf
      · exact hp f hf
      · cases hf
        exact hread

end

/-! ## Listed files -/

/-- A file with this content, which may be one that cannot be opened, is at or below the place that
the source leads to, and `f` is its path. -/
def FileBelow (t : Tree) (cwd : List String) (source f : String) (content : Content) : Prop :=
  ∃ place names, t.locate cwd (Path.ofText source) = .ok place ∧
    t.entry? (place ++ names) = some (.file content) ∧
    f = ((Path.ofText source).below names).text

/-- What comes of a file with this path and content. -/
def outcome (options : Options) (cwd : List String) (f : String) (content : Content) :
    Except ScanError (List Comment) :=
  if options.charset.toList.contains (Char.ofNat 0) then .error .nulInCharset
  else
    match content with
    | .error r => .error (.file ⟨.refused r, ((Path.ofText f).resolve cwd).text⟩)
    | .ok bytes => commentsIn options bytes

theorem exists_of_pathExists {t : Tree} {cwd : List String} {p : Path}
    (h : t.pathExists cwd p = true) :
    ∃ place e, t.locate cwd p = .ok place ∧ t.entry? place = some e := by
  unfold Tree.pathExists Tree.status at h
  split at h
  · cases h
  · next place hplace =>
    split at h
    · cases h
    · next e he => exact ⟨place, e, hplace, he⟩

theorem listFiles_of_not_pathExists {t : Tree} {cwd : List String} {source : String}
    (h : t.pathExists cwd (Path.ofText source) = false) :
    listFiles t cwd source = .error (.sourceMissing source) := by
  unfold Tree.pathExists Tree.status at h
  unfold listFiles
  simp only
  split
  · rfl
  · next place hplace =>
    rw [hplace] at h
    simp only at h
    split
    · rfl
    · next he =>
      rw [he] at h
      cases h
    · next he =>
      rw [he] at h
      cases h

/-- Sorting texts that are all different makes each smaller than those behind it. -/
theorem pairwise_lt_mergeSort {paths : List String} (h : paths.Nodup) :
    (paths.mergeSort fun a b => !decide (b < a)).Pairwise (· < ·) := by
  have hle : ∀ a b : String, (!decide (b < a)) = true ↔ a ≤ b := by
    intro a b
    rw [Bool.not_eq_true', decide_eq_false_iff_not, String.not_lt]
  have hsorted := @List.pairwise_mergeSort String (fun a b => !decide (b < a))
    (fun a b c hab hbc => (hle a c).2 (String.le_trans ((hle a b).1 hab) ((hle b c).1 hbc)))
    (fun a b => Bool.or_eq_true_iff.2 ((String.le_total a b).imp (hle a b).2 (hle b a).2)) paths
  have hnodup := (List.mergeSort_perm paths fun a b => !decide (b < a)).nodup_iff.2 h
  refine (List.pairwise_and_iff.2 ⟨hsorted, hnodup⟩).imp ?_
  rintro a b ⟨hab, hne⟩
  rw [← String.not_le]
  intro hba
  exact hne (String.le_antisymm ((hle a b).1 hab) hba)

section

variable {t : Tree} (ht : t.WellFormed) {cwd : List String} {source : String}
include ht

theorem lexical_below {p : Path} (hp : p.Lexical) {place names : List String}
    (h : names ∈ t.filesBelow place) : (p.below names).Lexical := by
  obtain ⟨-, content, hfile⟩ := (Tree.mem_filesBelow ht).1 h
  exact hp.below (Tree.isName_of_below ht hfile)

/-- Different files have different paths. -/
theorem nodup_paths {p : Path} (hp : p.Lexical) (place : List String) :
    ((t.filesBelow place).map fun names => (p.below names).text).Nodup := by
  refine List.Nodup.map_on ?_ (Tree.nodup_filesBelow ht)
  intro a ha b hb htext
  have hpath := Path.text_injective (lexical_below ht hp ha) (lexical_below ht hp hb) htext
  exact List.append_cancel_left (congrArg Path.names hpath)

/-- The listing is strictly sorted, and holds just the files at or below the source. -/
theorem listFiles_spec (hsource : t.pathExists cwd (Path.ofText source) = true) :
    ∃ files, listFiles t cwd source = .ok files ∧ files.Pairwise (· < ·) ∧
      ∀ f, f ∈ files ↔ ∃ content, FileBelow t cwd source f content := by
  obtain ⟨place, e, hplace, he⟩ := exists_of_pathExists hsource
  unfold listFiles
  simp only [hplace, he]
  cases e with
  | file content =>
    refine ⟨_, rfl, List.pairwise_singleton _ _, fun f => ?_⟩
    rw [List.mem_singleton]
    constructor
    · rintro rfl
      refine ⟨content, place, [], hplace, ?_, ?_⟩
      · rw [List.append_nil]
        exact he
      · rw [Path.below, List.append_nil]
    · rintro ⟨content', place', names, hplace', hfile, rfl⟩
      obtain rfl := Except.ok.inj (hplace.symm.trans hplace')
      rw [Tree.eq_nil_of_file ht he hfile, Path.below, List.append_nil]
  | folder =>
    have hnodup := nodup_paths ht (Path.lexical_ofText source) place
    refine ⟨_, rfl, pairwise_lt_mergeSort hnodup, fun f => ?_⟩
    rw [List.mem_mergeSort, List.mem_map]
    constructor
    · rintro ⟨names, hnames, rfl⟩
      obtain ⟨-, content, hfile⟩ := (Tree.mem_filesBelow ht).1 hnames
      exact ⟨content, place, names, hplace, hfile, rfl⟩
    · rintro ⟨content, place', names, hplace', hfile, rfl⟩
      obtain rfl := Except.ok.inj (hplace.symm.trans hplace')
      refine ⟨names, (Tree.mem_filesBelow ht).2 ⟨?_, content, hfile⟩, rfl⟩
      rintro rfl
      rw [List.append_nil, he] at hfile
      cases hfile

theorem acceptedFiles_spec (hsource : t.pathExists cwd (Path.ofText source) = true)
    (accepts : String → Bool) :
    ∃ files, acceptedFiles accepts t cwd source = .ok files ∧ files.Pairwise (· < ·) ∧
      ∀ f, f ∈ files ↔ accepts f = true ∧ ∃ content, FileBelow t cwd source f content := by
  obtain ⟨files, hfiles, hsorted, hmem⟩ := listFiles_spec ht hsource
  refine ⟨files.filter accepts, ?_, hsorted.filter _, fun f => ?_⟩
  · rw [acceptedFiles, hfiles]
  · rw [List.mem_filter, hmem, and_comm]

/-- The path of a file leads back to its content. -/
theorem scanFile_of_fileBelow (hcwd : t.entry? cwd = some .folder) (options : Options) {f : String}
    {content : Content} (h : FileBelow t cwd source f content) :
    scanFile options t cwd f = outcome options cwd f content := by
  obtain ⟨place, names, hplace, hfile, rfl⟩ := h
  have hp := Path.lexical_ofText source
  have hlexical := hp.below (Tree.isName_of_below ht hfile)
  unfold scanFile outcome
  rw [Path.ofText_text hlexical, Tree.read_resolve ht hcwd hp hplace hfile]
  cases content <;> rfl

end

/-! ## Whole scans -/

theorem scanAccepted_eq {t : Tree} {cwd : List String} {source : String} {accepts : String → Bool}
    {files : List String} {options : Options} (hworkers : ∀ n ∈ options.workers, 0 < n)
    (h : acceptedFiles accepts t cwd source = .ok files) (schedule : Schedule) :
    scanAccepted schedule accepts options t cwd source =
      readFiles (scanFile options t cwd) files (schedule files.length) := by
  have hsome : options.workers.any (· ≤ 0) = false := by
    cases hw : options.workers with
    | none => rfl
    | some n =>
      have hn := hworkers n hw
      simpa using hn
  rw [scanAccepted, h]
  simp only [hsome, Bool.false_eq_true, if_false]

theorem scanFile_of_mem_scan {schedule : Schedule} {accepts : String → Bool} {options : Options}
    {t : Tree} {cwd : List String} {source : String} {found : List FileComments}
    (h : (scanAccepted schedule accepts options t cwd source).result = .ok found) :
    ∀ f ∈ found, scanFile options t cwd f.file = .ok f.comments := by
  unfold scanAccepted at h
  split at h
  · cases h
  · split at h
    · cases h
    · refine read_of_mem_result (fun f hf => ?_) h
      cases List.eq_of_mem_replicate hf

/-- Scans of trees with the same accepted files are the same. -/
theorem scanAccepted_congr {t u : Tree} (ht : t.WellFormed) (hu : u.WellFormed)
    {cwd : List String} (hcwd : t.entry? cwd = some .folder) (hcwd' : u.entry? cwd = some .folder)
    {source : String} (hsource : t.pathExists cwd (Path.ofText source) = true)
    (hsource' : u.pathExists cwd (Path.ofText source) = true) {accepts : String → Bool}
    (hsame : ∀ f content, accepts f = true →
      (FileBelow t cwd source f content ↔ FileBelow u cwd source f content))
    {options : Options} (hworkers : ∀ n ∈ options.workers, 0 < n) (schedule : Schedule) :
    scanAccepted schedule accepts options u cwd source =
      scanAccepted schedule accepts options t cwd source := by
  obtain ⟨files, hfiles, hsorted, hmem⟩ := acceptedFiles_spec ht hsource accepts
  obtain ⟨files', hfiles', hsorted', hmem'⟩ := acceptedFiles_spec hu hsource' accepts
  have heq : files' = files := by
    refine hsorted'.eq_of_mem_iff hsorted fun f => ?_
    rw [hmem, hmem']
    exact and_congr_right fun hf => exists_congr fun content => (hsame f content hf).symm
  subst heq
  rw [scanAccepted_eq hworkers hfiles, scanAccepted_eq hworkers hfiles']
  refine completeReads_congr (fun f hf => ?_) _ _
  obtain ⟨hf, content, hbelow⟩ := (hmem f).1 hf
  rw [scanFile_of_fileBelow ht hcwd options hbelow,
    scanFile_of_fileBelow hu hcwd' options ((hsame f content hf).1 hbelow)]

/-- **Scans in any order of completion.** Let the reads of a scan complete in any order, each once.
A source that leads nowhere is reported. Otherwise the files that are read are those at or below the
source that the filter accepts, strictly sorted by their paths, and what comes of each is settled by
its own content: the comments in its bytes, or why it cannot be opened. If all reads succeed, the
result has every file once and in this order, and each was announced with the same comments when its
read completed. If some read fails, the first to do so gives its error, and just the files before it
were announced. Either way only the accepted files matter: a tree with the same accepted files is
scanned to the same end. -/
theorem scanAccepted_any_order {t : Tree} (ht : t.WellFormed) {cwd : List String}
    (hcwd : t.entry? cwd = some .folder) (source : String) (accepts : String → Bool)
    {options : Options} (hworkers : ∀ n ∈ options.workers, 0 < n) :
    (t.pathExists cwd (Path.ofText source) = false → ∀ schedule,
      scanAccepted schedule accepts options t cwd source = ⟨[], .error (.sourceMissing source)⟩) ∧
    (t.pathExists cwd (Path.ofText source) = true → ∃ files,
      acceptedFiles accepts t cwd source = .ok files ∧
      files.Pairwise (· < ·) ∧
      (∀ f, f ∈ files ↔ accepts f = true ∧ ∃ content, FileBelow t cwd source f content) ∧
      (∀ f content, FileBelow t cwd source f content →
        scanFile options t cwd f = outcome options cwd f content) ∧
      ∀ schedule : Schedule, (schedule files.length).Perm (List.finRange files.length) →
        let run := scanAccepted schedule accepts options t cwd source
        let read := scanFile options t cwd
        ((∀ f ∈ files, ∃ comments, read f = .ok comments) →
          run.Finished read files (schedule files.length)) ∧
        ((∃ f ∈ files, ∃ e, read f = .error e) →
          run.Stopped read files (schedule files.length)) ∧
        ∀ u : Tree, u.WellFormed → u.entry? cwd = some .folder →
          u.pathExists cwd (Path.ofText source) = true →
          (∀ f content, accepts f = true →
            (FileBelow t cwd source f content ↔ FileBelow u cwd source f content)) →
          scanAccepted schedule accepts options u cwd source = run) := by
  constructor
  · intro hmissing schedule
    rw [scanAccepted, acceptedFiles, listFiles_of_not_pathExists hmissing]
  · intro hsource
    obtain ⟨files, hfiles, hsorted, hmem⟩ := acceptedFiles_spec ht hsource accepts
    refine ⟨files, hfiles, hsorted, hmem,
      fun f content hf => scanFile_of_fileBelow ht hcwd options hf, ?_⟩
    intro schedule hschedule run read
    have hrun : run = readFiles read files (schedule files.length) :=
      scanAccepted_eq hworkers hfiles schedule
    refine ⟨?_, ?_, ?_⟩
    · intro hok
      rw [hrun]
      exact readFiles_finished hschedule hok
    · intro hfail
      rw [hrun]
      exact readFiles_stopped hschedule hfail
    · intro u hu hcwd' hsource' hsame
      exact scanAccepted_congr ht hu hcwd hcwd' hsource hsource' hsame hworkers schedule

/-- A folder with two files, and a folder to leave out whose file is no text. -/
def sampleTree : Tree where
  entries := [(["src"], .folder), (["src", "a.js"], .file (.ok "/** Ant. */".toUTF8)),
    (["src", "b.js"], .file (.ok "/** Ant. */".toUTF8)), (["src", "lib"], .folder),
    (["src", "lib", "x.js"], .file (.ok ⟨#[0xff]⟩))]

/-- Two files of which the second is read first. -/
theorem sample_scan_in_reverse :
    let run := scanAccepted (fun n => (List.finRange n).reverse) (isIncluded ["lib"]) {} sampleTree
      [] "src"
    run.Finished (scanFile {} sampleTree []) ["src/a.js", "src/b.js"] [1, 0] := by
  have hlisted : acceptedFiles (isIncluded ["lib"]) sampleTree [] "src" =
      .ok ["src/a.js", "src/b.js"] := by
    have hplace : sampleTree.locate [] (Path.ofText "src") = .ok ["src"] := rfl
    have hfolder : sampleTree.entry? ["src"] = some .folder := rfl
    have hpaths : (sampleTree.filesBelow ["src"]).map
        (fun names => ((Path.ofText "src").below names).text) =
          ["src/a.js", "src/b.js", "src/lib/x.js"] := by decide
    simp only [acceptedFiles, listFiles, hplace, hfolder, hpaths]
    rw [List.mergeSort_of_pairwise (by decide)]
    rfl
  have ht : sampleTree.WellFormed := by decide +kernel
  have hroot : sampleTree.entry? [] = some .folder := rfl
  have hworkers : ∀ n ∈ ({} : Options).workers, 0 < n := by
    intro n hn
    cases hn
  obtain ⟨-, hscan⟩ := scanAccepted_any_order ht hroot "src" (isIncluded ["lib"]) hworkers
  obtain ⟨files, hfiles, -, -, -, hrun⟩ := hscan rfl
  obtain rfl := Except.ok.inj (hlisted.symm.trans hfiles)
  refine (hrun _ (List.reverse_perm _)).1 fun f hf => exists_ok_of_isOk ?_
  rcases List.mem_cons.1 hf with rfl | hf
  · decide +kernel
  · obtain rfl := List.mem_singleton.1 hf
    decide +kernel

end ApiDoc.Scan
