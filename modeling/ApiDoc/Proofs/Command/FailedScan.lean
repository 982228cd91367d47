import ApiDoc.Proofs.Command.Logging
import ApiDoc.Proofs.Scan.Completion

/-!
# Failed scans

A command for pages reads the whole source before it touches a page, so a file that cannot be read
ends it while nothing but the log file has changed. Only files that are to be read count: what the
files under excluded names hold makes no difference.

* `Unreadable`: a file of the source that is to be read and cannot be.
* `scan_fails`, `scan_succeeds`: what comes of a scan with and without such a file.
* `Tells`, `tells_scanEnding`: how the command ends then, and what it says.
* `readSources_cases`: the step that reads the source, with the log around it.
* `output_writeSite`: writing pages takes back nothing that was printed.
* `failed_scan_changes_no_output`: whole runs.
-/

namespace ApiDoc.Command

open Files
open Files.Tree (Rewrites)

/-! ## Scans -/

/-- The settings, with a switch of the command, give these options to a scan, and nothing is wrong
with them: the encoding is a known one, there are workers if their number is set, and the limit of
subjects is a number. -/
structure ValidFor (place : Place) (settings : Settings) (singleStar : Bool)
    (options : Scan.Options) : Prop where
  mode : options.mode = settings.commentMode singleStar
  codecs : options.codecs = place.codecs
  excluded : settings.excludedNames = .ok options.excluded
  workers : settings.workerCount = .ok options.workers
  positive : ∀ n ∈ options.workers, 0 < n
  charset : settings.charsetName = .ok options.charset
  known : (options.codecs.find? options.charset).isSome = true
  no_nul : options.charset.toList.contains (Char.ofNat 0) = false
  limit : ∃ limit, settings.subjectLimit = .ok limit

/-- The path of a file at or below the source that is not left out and cannot be read or decoded. -/
structure Unreadable (options : Scan.Options) (t : Tree) (cwd : List String) (source f : String) :
    Prop where
  below : ∃ content, Scan.FileBelow t cwd source f content
  included : isIncluded options.excluded f = true
  fails : ∃ e, Scan.scanFile options t cwd f = .error e

/-- A file is closed, or its bytes are no text in a known encoding. -/
theorem error_of_outcome {options : Scan.Options} {cwd : List String} {f : String}
    {content : Content} {e : ScanError}
    (hknown : (options.codecs.find? options.charset).isSome = true)
    (hnul : options.charset.toList.contains (Char.ofNat 0) = false)
    (h : Scan.outcome options cwd f content = .error e) :
    (∃ r path, e = .file ⟨.refused r, path⟩) ∨ (∃ d, e = .decode d) ∨ ∃ m, e = .codec m := by
  obtain ⟨codec, hcodec⟩ := Option.isSome_iff_exists.1 hknown
  unfold Scan.outcome at h
  rw [hnul, if_neg Bool.false_ne_true] at h
  cases content with
  | error r =>
    cases h
    exact Or.inl ⟨r, _, rfl⟩
  | ok bytes =>
    simp only [Scan.commentsIn, hcodec] at h
    split at h
    · next failure _ =>
      cases h
      cases failure with
      | bytes d => exact Or.inr (Or.inl ⟨d, rfl⟩)
      | other m => exact Or.inr (Or.inr ⟨m, rfl⟩)
    · cases h

/-- The encodings that are written out fail at bytes only. -/
theorem ne_codec_of_ofName? {options : Scan.Options} {charset : Text.Charset}
    (hname : Text.Charset.ofName? options.charset = some charset) {t : Tree} {cwd : List String}
    {f : String} {e : ScanError} (h : Scan.scanFile options t cwd f = .error e) (m : String) :
    e ≠ .codec m := by
  have hcodec : options.codecs.find? options.charset = some charset.codec := by
    rw [Text.Codecs.find?, hname]
  rintro rfl
  unfold Scan.scanFile at h
  split at h
  · cases h
  · split at h
    · cases h
    · next bytes _ =>
      simp only [Scan.commentsIn, hcodec, Text.Codec.readText, Text.Charset.codec] at h
      cases hdecode : charset.decode bytes.toList with
      | error d =>
        rw [hdecode] at h
        cases h
      | ok cs =>
        rw [hdecode] at h
        cases h

section

variable {t : Tree} (ht : t.WellFormed) {cwd : List String} {source : String}
  (hsource : t.pathExists cwd (Path.ofText source) = true)
  {schedule : Scan.Schedule} (hschedule : ∀ n, (schedule n).Perm (List.finRange n))
  {options : Scan.Options} (hworkers : ∀ n ∈ options.workers, 0 < n)
include ht hsource hschedule hworkers

theorem scan_succeeds
    (h : ∀ f content, isIncluded options.excluded f = true →
      Scan.FileBelow t cwd source f content →
      ∃ comments, Scan.scanFile options t cwd f = .ok comments) :
    ∃ found, (Scan.scanFolderIn schedule options t cwd source).result = .ok found := by
  obtain ⟨files, hfiles, -, hmem⟩ :=
    Scan.acceptedFiles_spec ht hsource (isIncluded options.excluded)
  have hread : ∀ f ∈ files, ∃ comments, Scan.scanFile options t cwd f = .ok comments := by
    intro f hf
    obtain ⟨hincluded, content, hbelow⟩ := (hmem f).1 hf
    exact h f content hincluded hbelow
  obtain ⟨comments, -, hresult, -⟩ := Scan.readFiles_finished (hschedule files.length) hread
  rw [← Scan.scanAccepted_eq hworkers hfiles schedule] at hresult
  exact ⟨_, hresult⟩

theorem scan_fails {f : String} (h : Unreadable options t cwd source f) :
    ∃ f' e, Unreadable options t cwd source f' ∧ Scan.scanFile options t cwd f' = .error e ∧
      (Scan.scanFolderIn schedule options t cwd source).result = .error e := by
  obtain ⟨files, hfiles, -, hmem⟩ :=
    Scan.acceptedFiles_spec ht hsource (isIncluded options.excluded)
  have hf : f ∈ files := (hmem f).2 ⟨h.included, h.below⟩
  obtain ⟨before, i, after, e, -, hread, hresult, -⟩ :=
    Scan.readFiles_stopped (hschedule files.length) ⟨f, hf, h.fails⟩
  obtain ⟨hincluded, hbelow⟩ := (hmem _).1 (List.get_mem files i)
  rw [← Scan.scanAccepted_eq hworkers hfiles schedule] at hresult
  exact ⟨files.get i, e, ⟨hbelow, hincluded, e, hread⟩, hread, hresult⟩

end

/-! ## Files under a log -/

section

variable {places : List String → Prop} {t u : Tree} (h : Rewrites places t u) {cwd : List String}
  {source f : String} {content : Content}
include h

theorem pathExists_of_rewrites {p : Path} (hp : t.pathExists cwd p = true) :
    u.pathExists cwd p = true := by
  obtain ⟨place, e, hplace, he⟩ := Scan.exists_of_pathExists hp
  have hentry : ∃ e', u.entry? place = some e' := by
    cases e with
    | folder => exact ⟨_, h.entry?_folder he⟩
    | file content =>
      obtain ⟨content', hfile⟩ := h.exists_file he
      exact ⟨_, hfile⟩
  obtain ⟨e', he'⟩ := hentry
  rw [Tree.pathExists, Tree.status, h.locate_ok hplace]
  simp only [he']
  rfl

/-- Files that have only been written over were there before. -/
theorem fileBelow_of_rewrites (hthere : ∀ q, places q → ∃ bytes, t.entry? q = some (.file bytes))
    (hsource : t.pathExists cwd (Path.ofText source) = true)
    (hf : Scan.FileBelow u cwd source f content) :
    ∃ content', Scan.FileBelow t cwd source f content' := by
  obtain ⟨root, -, hroot, -⟩ := Scan.exists_of_pathExists hsource
  obtain ⟨root', names, hroot', hfile, rfl⟩ := hf
  obtain rfl := Except.ok.inj ((h.locate_ok hroot).symm.trans hroot')
  rcases h.entries (root ++ names) with he | ⟨⟨hplace, -⟩, -⟩
  · exact ⟨content, root, names, hroot, he.symm.trans hfile, rfl⟩
  · obtain ⟨bytes, hbytes⟩ := hthere _ hplace
    exact ⟨bytes, root, names, hroot, hbytes, rfl⟩

/-- A file that is no log file is as unreadable as it was. -/
theorem Unreadable.of_rewrites {options : Scan.Options} (ht : t.WellFormed)
    (hcwd : t.entry? cwd = some .folder) (hf : Unreadable options t cwd source f)
    (hplace : ¬ places ((Path.ofText f).resolve cwd).names) :
    Unreadable options u cwd source f := by
  obtain ⟨⟨content, hbelow⟩, hincluded, hfails⟩ := hf
  have hscan := Scan.scanFile_of_fileBelow ht hcwd options hbelow
  obtain ⟨root, names, hroot, hfile, rfl⟩ := hbelow
  have hp := Path.lexical_ofText source
  rw [Path.ofText_text (hp.below (Tree.isName_of_below ht hfile)),
    Tree.resolve_below ht hcwd hp hroot hfile] at hplace
  have hbelow : Scan.FileBelow u cwd source ((Path.ofText source).below names).text content :=
    ⟨root, names, h.locate_ok hroot, (h.entry?_of_not hplace).trans hfile, rfl⟩
  refine ⟨⟨content, hbelow⟩, hincluded, ?_⟩
  rw [Scan.scanFile_of_fileBelow (h.wellFormed ht) (h.entry?_folder hcwd) options hbelow, ← hscan]
  exact hfails

end

/-! ## Reading the source -/

section

variable {places : List String → Prop} {place : Place} {settings : Settings} {singleStar : Bool}
  {options : Scan.Options} {source : String} {s : Session}

/-- How a failed scan is told of: with the file and what is wrong with it, unless an encoding failed
in its own words, which breaks off the run. -/
def Tells (source : String) (e : ScanError) (r : Session × Ending) : Prop :=
  (∃ m, e = .codec m ∧ r.2 = .crash (.scan e)) ∨
    (r.2 = .exit 1 ∧ ∃ before, r.1.sink.console = before ++ Text.withoutStyling ("Error: " ++
      ("Scanning " ++ source ++ " failed: " ++ e.message)) ++ "\n")

theorem scanEnding_spec (s : Session) (source : String) (e : ScanError) :
    let r := scanEnding s source e
    r.2.status = 1 ∧ r.1.tree = s.tree ∧ r.1.output = s.output := by
  unfold scanEnding
  cases e with
  | file f =>
    simp only
    split <;> exact ⟨rfl, rfl, rfl⟩
  | _ => exact ⟨rfl, rfl, rfl⟩

theorem tells_scanEnding (ht : s.tree.WellFormed) {cwd : List String}
    (hcwd : s.tree.entry? cwd = some .folder)
    (hvalid : ValidFor place settings singleStar options) {f : String} {e : ScanError}
    (hf : Unreadable options s.tree cwd source f)
    (h : Scan.scanFile options s.tree cwd f = .error e) (s' : Session) :
    Tells source e (scanEnding s' source e) := by
  obtain ⟨content, hbelow⟩ := hf.below
  rw [Scan.scanFile_of_fileBelow ht hcwd options hbelow] at h
  rcases error_of_outcome hvalid.known hvalid.no_nul h with ⟨r, path, rfl⟩ | ⟨d, rfl⟩ | ⟨m, rfl⟩
  · exact Or.inr ⟨rfl, s'.sink.console, rfl⟩
  · exact Or.inr ⟨rfl, s'.sink.console, rfl⟩
  · exact Or.inl ⟨m, rfl, rfl⟩

theorem readOptions_cases (hvalid : ValidFor place settings singleStar options)
    (files : List String) :
    ∃ used : Scan.Options, readOptions settings files
        { codecs := place.codecs, mode := settings.commentMode singleStar,
          excluded := options.excluded } = .ok used ∧
      used.excluded = options.excluded ∧ used.workers = options.workers ∧
      (files ≠ [] → used = options) := by
  have hsome : options.workers.any (· ≤ 0) = false := by
    cases hw : options.workers with
    | none => rfl
    | some n =>
      have hn := hvalid.positive n hw
      simpa using hn
  rw [readOptions, hvalid.workers, hvalid.charset, ← hvalid.mode, ← hvalid.codecs]
  simp only [hsome, Bool.or_false]
  split
  · next hempty => exact ⟨_, rfl, rfl, rfl, fun hne => absurd (List.isEmpty_iff.1 hempty) hne⟩
  · exact ⟨_, rfl, rfl, rfl, fun _ => rfl⟩

/-- Reading the source ends the run if a file cannot be read, and goes on if all can, whatever the
other files hold; the files are those that are there when the scan has been announced. -/
theorem readSources_cases (hvalid : ValidFor place settings singleStar options)
    (hschedule : ∀ n, (place.schedule n).Perm (List.finRange n)) (ht : s.tree.WellFormed)
    (hcwd : s.tree.entry? place.cwd = some .folder)
    (hsource : s.tree.pathExists place.cwd (Path.ofText source) = true)
    (hlog : s.log.WritesTo places)
    (hthere : ∀ q, places q → ∃ content, s.tree.entry? q = some (.file content)) :
    ∃ u, Rewrites places s.tree u ∧
      ((∃ f, Unreadable options u place.cwd source f) →
        ∃ s' e, Session.Logs places s s' ∧
          readSources place settings singleStar source s = .ended (scanEnding s' source e) ∧
          Tells source e (scanEnding s' source e) ∧
          ∃ f, Unreadable options u place.cwd source f ∧
            Scan.scanFile options u place.cwd f = .error e) ∧
      ((¬ ∃ f, Unreadable options u place.cwd source f) →
        ∃ s' found, Session.Logs places s s' ∧
          readSources place settings singleStar source s = (s', .ok found)) := by
  obtain ⟨files, hfiles, -, hmem⟩ :=
    Scan.acceptedFiles_spec ht hsource (isIncluded options.excluded)
  obtain ⟨used, hoptions, hexcluded, hworkers, hused⟩ := readOptions_cases hvalid files
  have hannounced := Session.record_logs hlog (Progress.scanning source files.length)
  generalize hs₁ : s.record (Progress.scanning source files.length) = s₁ at hannounced
  have hlog₁ : s₁.log.WritesTo places := hannounced.log ▸ hlog
  have ht₁ := hannounced.tree.wellFormed ht
  have hcwd₁ := hannounced.tree.entry?_folder hcwd
  have hsource₁ := pathExists_of_rewrites hannounced.tree hsource
  -- the files were listed before the scan was announced; without one, no encoding is asked for
  have hread : ∀ f content, isIncluded options.excluded f = true →
      Scan.FileBelow s₁.tree place.cwd source f content → used = options := by
    intro f content hincluded hbelow
    have hf := (hmem f).2
      ⟨hincluded, fileBelow_of_rewrites hannounced.tree hthere hsource hbelow⟩
    exact hused (List.ne_nil_of_mem hf)
  generalize hrun : Scan.scanFolderIn place.schedule used s₁.tree place.cwd source = run
  have hrecords := hannounced.trans
    (Session.records_logs hlog₁ (run.announced.flatMap Progress.fileRead))
  generalize hs₂ : s₁.records (run.announced.flatMap Progress.fileRead) = s₂ at hrecords
  have herror : ∀ e, run.result = .error e →
      readSources place settings singleStar source s = .ended (scanEnding s₂ source e) := by
    intro e he
    simp only [readSources, hvalid.excluded, Scan.selectFiles, hfiles, hs₁, hoptions, hrun, hs₂,
      he]
  have hok : ∀ found, run.result = .ok found →
      readSources place settings singleStar source s = (s₂, .ok found) := by
    intro found hfound
    simp only [readSources, hvalid.excluded, Scan.selectFiles, hfiles, hs₁, hoptions, hrun, hs₂,
      hfound]
  refine ⟨s₁.tree, hannounced.tree, ?_, ?_⟩
  · rintro ⟨f, hf⟩
    obtain ⟨content, hbelow⟩ := hf.below
    obtain rfl := hread f content hf.included hbelow
    obtain ⟨f', e, hf', hfails, he⟩ := scan_fails ht₁ hsource₁ hschedule hvalid.positive hf
    rw [hrun] at he
    exact ⟨s₂, e, hrecords, herror e he, tells_scanEnding ht₁ hcwd₁ hvalid hf' hfails s₂, f', hf',
      hfails⟩
  · intro hnone
    have hall : ∀ f content, isIncluded used.excluded f = true →
        Scan.FileBelow s₁.tree place.cwd source f content →
        ∃ comments, Scan.scanFile used s₁.tree place.cwd f = .ok comments := by
      intro f content hincluded hbelow
      rw [hexcluded] at hincluded
      obtain rfl := hread f content hincluded hbelow
      cases hscan : Scan.scanFile used s₁.tree place.cwd f with
      | ok comments => exact ⟨comments, rfl⟩
      | error e => exact absurd ⟨f, ⟨content, hbelow⟩, hincluded, e, hscan⟩ hnone
    obtain ⟨found, hfound⟩ :=
      scan_succeeds ht₁ hsource₁ hschedule (hworkers ▸ hvalid.positive) hall
    rw [hrun] at hfound
    exact ⟨s₂, found, hrecords, hok found hfound⟩

end

/-! ## Writing pages -/

section

variable {place : Place} {settings : Settings} (s : Session)

@[simp] theorem Session.output_record (r : Log.Record) : (s.record r).output = s.output := rfl

@[simp] theorem Session.output_withTree (t : Tree) : (s.withTree t).output = s.output := rfl

@[simp] theorem Session.output_records (rs : List Log.Record) :
    (s.records rs).output = s.output := by
  unfold Session.records
  induction rs generalizing s with
  | nil => rfl
  | cons r rs ih => exact ih (s.record r)

theorem output_writeEnding (outputDir : String) (e : FileError) :
    (writeEnding s outputDir e).1.output = s.output := by
  unfold writeEnding
  split <;> rfl

theorem output_leavePage (style : Page.Style) (docs : Docs) (outputRoot : Path)
    (u : Data.Unshowable) (c : ClassDoc) :
    (leavePage style docs outputRoot u s c).output = s.output := by
  unfold leavePage
  simp only
  split <;> simp

theorem output_writePagesOf (order : List ClassDoc) (style : Page.Style) (docs : Docs)
    (outputDir : String) : (writePagesOf order style docs outputDir s).1.output = s.output := by
  unfold writePagesOf
  simp only
  split
  · simp [Step.ended, output_writeEnding]
  · simp [Step.crashed]
  · simp

theorem output_foldl_leavePage (style : Page.Style) (docs : Docs) (outputRoot : Path)
    (u : Data.Unshowable) (cs : List ClassDoc) :
    (cs.foldl (leavePage style docs outputRoot u) s).output = s.output := by
  induction cs generalizing s with
  | nil => rfl
  | cons c cs ih => exact (ih _).trans (output_leavePage s style docs outputRoot u c)

theorem output_writePages (missing : Data) (docs : Docs) (outputDir : String) :
    (writePages place missing docs outputDir s).1.output = s.output := by
  unfold writePages
  simp only
  split
  · next hpages =>
    have houtput := congrArg (fun r : Step (List Path) => r.1.output) hpages
    exact houtput.symm.trans (output_writePagesOf s _ _ _ _)
  · next hpages =>
    have houtput := congrArg (fun r : Step (List Path) => r.1.output) hpages
    have hkept := houtput.symm.trans (output_writePagesOf s _ _ _ _)
    split
    · simp only [Step.crashed, output_foldl_leavePage]
      exact hkept
    · exact hkept

theorem output_writeIndex (style : Page.Style) (docs : Docs) (outputDir : String) :
    (writeIndex settings style docs outputDir s).1.output = s.output := by
  unfold writeIndex
  cases settings.indexName with
  | error m => rfl
  | ok name =>
    generalize settings.indexTitle.display = title
    generalize settings.indexTitle.unshowable? = u
    simp only
    split
    · exact Session.output_record s _
    · generalize (if u.isSome then Page.writeIndexText style.cwd outputDir name "" s.tree
        else Page.writeIndex style docs outputDir name title s.tree) = written
      obtain ⟨t, result⟩ := written
      -- the records are not to be computed, so the steps are taken one by one
      cases result with
      | error e => exact (output_writeEnding _ _ _).trans (Session.output_records _ _)
      | ok p =>
        cases u with
        | none => exact (Session.output_record _ _).trans (Session.output_records _ _)
        | some u => exact Session.output_records _ _

theorem output_writeSite (noIndex : Bool) (docs : Docs) (outputDir : String) :
    (writeSite place settings noIndex docs outputDir s).1.output = s.output := by
  unfold writeSite
  split
  · next hpages =>
    have houtput := congrArg (fun r : Step Unit => r.1.output) hpages
    exact houtput.symm.trans (output_writePages s _ _ _)
  · next hpages =>
    have houtput := congrArg (fun r : Step Unit => r.1.output) hpages
    have hkept := houtput.symm.trans (output_writePages s _ _ _)
    split
    · exact hkept
    · exact (output_writeIndex _ _ _ _).trans hkept

end

section

variable {place : Place} {settings : Settings} {request : Request} {s s' : Session}

theorem output_say_ne_empty (s : Session) (line : String) : (s.say line).output ≠ "" := by
  intro h
  have hchars := congrArg String.toList h
  simp [Session.say] at hchars

theorem exists_analyze (hlimit : ∃ limit, settings.subjectLimit = .ok limit)
    (found : List FileComments) (s : Session) :
    ∃ s' state, analyze settings found s = (s', .ok state) := by
  obtain ⟨limit, hlimit⟩ := hlimit
  unfold analyze
  rw [hlimit]
  exact ⟨_, _, rfl⟩

/-- Once the source has been read, what was found is printed, and stays printed. -/
theorem output_generate_ne_empty {found : List FileComments}
    (hread : readSources place settings request.singleStar request.source s = (s', .ok found))
    (hlimit : ∃ limit, settings.subjectLimit = .ok limit) :
    (generate place settings request s).1.output ≠ "" := by
  obtain ⟨s₁, state, hanalyze⟩ := exists_analyze hlimit found s'
  unfold generate
  simp only [hread, Step.andThen, hanalyze]
  generalize hs₂ : (s₁.say _).record _ = s₂
  have hs₂ : s₂.output ≠ "" := by
    rw [← hs₂, Session.output_record]
    exact output_say_ne_empty s₁ _
  split
  · exact hs₂
  · next outputDir _ =>
    split
    · next hsite =>
      have houtput := congrArg (fun r : Step Unit => r.1.output) hsite
      rw [← houtput.symm.trans (output_writeSite s₂ _ _ _)] at hs₂
      exact hs₂
    · exact output_say_ne_empty _ _

end

/-! ## Whole runs -/

/-- A dot behind a path asks for a folder and leads nowhere else. -/
theorem follow_of_follow_dot {t : Tree} {place names q : List String}
    (h : t.follow place (names ++ ["."]) = .ok q) : t.follow place names = .ok q := by
  rw [Tree.follow_concat] at h
  cases hfront : t.follow place names with
  | error f =>
    rw [hfront] at h
    cases h
  | ok q' =>
    rw [hfront] at h
    change t.follow q' ["."] = .ok q at h
    rw [Tree.follow] at h
    split at h
    · cases h
    · cases h
    · exact h

theorem pathExists_of_statusOfText {t : Tree} {cwd : List String} {source : String} {e : Entry}
    (h : t.statusOfText cwd source = .ok e) : t.pathExists cwd (Path.ofText source) = true := by
  have hpath : ∀ q, t.follow (if (Path.ofText source).isAbsolute then [] else cwd)
      (Path.ofText source).names = .ok q → Tree.hasNul (Path.ofText source).names = false →
      (t.entry? q).isSome = true → t.pathExists cwd (Path.ofText source) = true := by
    intro q hq hnul he
    obtain ⟨e, he⟩ := Option.isSome_iff_exists.1 he
    rw [Tree.pathExists, Tree.status, Tree.locate, hnul, if_neg (by simp), hq]
    simp only [he]
    rfl
  unfold Tree.statusOfText at h
  simp only at h
  split at h
  · cases h
  · generalize hnames : (if Tree.asksForFolder source then (Path.ofText source).names ++ ["."]
      else (Path.ofText source).names) = names at h
    split at h
    · cases h
    · next hnul =>
      split at h
      · cases h
      · next q hq =>
        split at h
        · cases h
        · next e' he =>
          have hsome : (t.entry? q).isSome = true := by
            rw [he]
            rfl
          rw [Bool.not_eq_true] at hnul
          split at hnames
          · subst hnames
            rw [Tree.hasNul, List.any_append, Bool.or_eq_false_iff] at hnul
            exact hpath q (follow_of_follow_dot hq) hnul.1 hsome
          · subst hnames
            exact hpath q hq hnul hsome

theorem commandWords_ok {place : Place} {action : Action} {args : List String} {s s' : Session}
    {request : Request} (h : commandWords place action args s = (s', .ok request)) :
    s' = s ∧ s.tree.pathExists place.cwd (Path.ofText request.source) = true := by
  unfold commandWords at h
  simp only at h
  split at h
  · cases h
  · split at h
    · cases h
    · split at h
      · cases h
      · cases h
      · next source extra _ _ =>
        split at h
        · cases h
        · split at h
          · cases h
          · next hsource =>
            split at h
            · cases h
            · cases h
              have hok : (s.tree.statusOfText place.cwd source).isOk = true := by
                simpa using hsource
              obtain ⟨e, he⟩ := Scan.exists_ok_of_isOk hok
              exact ⟨rfl, pathExists_of_statusOfText he⟩

/-- The words ask for pages, and neither they nor the settings nor the log stand in the way. -/
def Begins (place : Place) (args : List String) (s : Session) (settings : Settings)
    (request : Request) : Prop :=
  ∃ config rest loaded ready,
    programWords place args s = (s, .ok (config, "generate" :: rest)) ∧
    loadSettings place config s = (loaded, .ok settings) ∧
    openLog place settings loaded = (ready, .ok ()) ∧
    commandWords place .generate rest ready = (ready, .ok request)

theorem Begins.exists_ready {place : Place} {args : List String} {s : Session}
    {settings : Settings} {request : Request} (h : Begins place args s settings request)
    (hlog : s.log.handlers = []) (hcwd : ∀ n ∈ place.cwd, IsName n) :
    ∃ ready : Session, run place args s = generate place settings request ready ∧
      ready.output = s.output ∧ Rewrites (IsLogPlace settings place.cwd) s.tree ready.tree ∧
      ready.log.WritesTo (IsLogPlace settings place.cwd) ∧
      (∀ q, IsLogPlace settings place.cwd q →
        ∃ content, ready.tree.entry? q = some (.file content)) ∧
      ready.tree.pathExists place.cwd (Path.ofText request.source) = true := by
  obtain ⟨config, rest, loaded, ready, hwords, hload, hopen, hcommand⟩ := h
  have hquiet : s.log.WritesTo (IsLogPlace settings place.cwd) := by
    intro x hx
    rw [hlog] at hx
    cases hx
  have hloaded := loadSettings_logs hquiet hload
  obtain ⟨hwrites, houtput, htree, hthere⟩ := openLog_ok hcwd hopen
  refine ⟨ready, ?_, houtput.trans hloaded.output, hloaded.tree.trans htree, hwrites, hthere,
    (commandWords_ok hcommand).2⟩
  have hargs : args.isEmpty = false := by
    cases args with
    | nil =>
      cases hwords
    | cons w args => rfl
  have hlabel : Action.ofLabel? "generate" = some .generate := rfl
  unfold run
  rw [hargs, hwords]
  simp only [Bool.false_eq_true, if_false, Step.andThen, dispatch, hlabel, hload, hopen, hcommand,
    perform]

/-- The run has ended because the source could not be read: it tells of a file that cannot be read or
decoded, as the reads found it, has printed no result, and has changed nothing but the log file. -/
structure ScanFailed (place : Place) (settings : Settings) (options : Scan.Options)
    (source : String) (t : Tree) (r : Session × Ending) : Prop where
  status : r.2.status = 1
  tree : Tree.ChangesOnly (IsLogPlace settings place.cwd) t r.1.tree
  output : r.1.output = ""
  report : ∃ u f e, Tree.ChangesOnly (IsLogPlace settings place.cwd) t u ∧
    Unreadable options u place.cwd source f ∧ Scan.scanFile options u place.cwd f = .error e ∧
    Tells source e r

/-- **A failed scan changes no output.** Let the command for pages begin with valid settings, on any
tree of files, with any encodings at hand and with the reads completing in any order. If some file
at or below the source that is not left out cannot be read or decoded, the run ends with status 1
and everything but the log file is as it was. The reads find the files as they were, the log file
aside, and the run fails this way only if one of those that are not left out cannot be read;
otherwise what was found is printed, whatever the files under excluded names hold. -/
theorem failed_scan_changes_no_output {place : Place} {args : List String} {t : Tree}
    {time : String} {settings : Settings} {request : Request} {options : Scan.Options}
    (ht : t.WellFormed) (hcwd : t.entry? place.cwd = some .folder)
    (hschedule : ∀ n, (place.schedule n).Perm (List.finRange n))
    (hbegins : Begins place args { sink := { tree := t, time } } settings request)
    (hvalid : ValidFor place settings request.singleStar options) :
    let r := run place args { sink := { tree := t, time } }
    (∀ f, Unreadable options t place.cwd request.source f →
      ¬ IsLogPlace settings place.cwd ((Path.ofText f).resolve place.cwd).names →
      ScanFailed place settings options request.source t r) ∧
    ∃ u, Tree.ChangesOnly (IsLogPlace settings place.cwd) t u ∧
      ((∃ f, Unreadable options u place.cwd request.source f) →
        ScanFailed place settings options request.source t r) ∧
      ((¬ ∃ f, Unreadable options u place.cwd request.source f) → r.1.output ≠ "") := by
  intro r
  have hnames : ∀ n ∈ place.cwd, IsName n := fun n hn =>
    (Tree.isEntryName_of_mem ht hcwd n hn).toIsName
  obtain ⟨ready, hrun, houtput, hready, hwrites, hthere, hsource⟩ :=
    hbegins.exists_ready rfl hnames
  have hr : r = generate place settings request ready := hrun
  obtain ⟨u, hu, hfail, hfound⟩ := readSources_cases hvalid hschedule (hready.wellFormed ht)
    (hready.entry?_folder hcwd) hsource hwrites hthere
  -- the log may be written before the files are read, so they are looked for in `u`
  have hreads : Rewrites (IsLogPlace settings place.cwd) t u := hready.trans hu
  have hfailed : (∃ f, Unreadable options u place.cwd request.source f) →
      ScanFailed place settings options request.source t r := by
    intro hbad
    obtain ⟨s', e, hlogs, hread, htells, f, hf, hfails⟩ := hfail hbad
    have hend : r = scanEnding s' request.source e := by
      rw [hr, generate, hread]
      rfl
    obtain ⟨hstatus, htree, hsame⟩ := scanEnding_spec s' request.source e
    rw [hend]
    refine ⟨hstatus, ?_, hsame.trans (hlogs.output.trans houtput), u, f, e, hreads.changesOnly, hf,
      hfails, htells⟩
    rw [htree]
    exact (hready.trans hlogs.tree).changesOnly
  refine ⟨?_, u, hreads.changesOnly, hfailed, ?_⟩
  · intro f hf hplace
    exact hfailed ⟨f, hf.of_rewrites hreads ht hcwd hplace⟩
  · intro hnone
    obtain ⟨s', found, -, hread⟩ := hfound hnone
    rw [hr]
    exact output_generate_ne_empty hread hvalid.limit

/-- A source with a file that is no text and one that is closed, and the index of an earlier run. -/
def brokenTree : Tree where
  entries := [(["src"], .folder), (["src", "a.js"], .file (.ok "/** Ant. */".toUTF8)),
    (["src", "b.js"], .file (.ok ⟨#[0xff]⟩)),
    (["src", "c.js"], .file (.error ⟨13, "Permission denied"⟩)), (["docs"], .folder),
    (["docs", "api"], .folder), (["docs", "api", "index.md"], .file (.ok "# Old".toUTF8))]

/-- Each of the two files ends the run, and the index stays. -/
theorem broken_source_keeps_index :
    let r := run { cwd := [] } ["--config", "none.yml", "generate", "src"]
      { sink := { tree := brokenTree } }
    (∀ f ∈ ["src/b.js", "src/c.js"], Unreadable {} brokenTree [] "src" f ∧
      ScanFailed { cwd := [] } {} {} "src" brokenTree r) ∧
    r.2 = .exit 1 ∧
    r.1.tree.entry? ["docs", "api", "index.md"] = some (.file (.ok "# Old".toUTF8)) := by
  intro r
  have ht : brokenTree.WellFormed := by decide +kernel
  have hbegins : Begins { cwd := [] } ["--config", "none.yml", "generate", "src"]
      { sink := { tree := brokenTree } } {} { source := "src" } :=
    ⟨some "none.yml", ["src"], _, _, rfl, rfl, rfl, rfl⟩
  have hvalid : ValidFor { cwd := [] } {} false {} :=
    ⟨rfl, rfl, rfl, rfl, nofun, rfl, by decide, by decide, some 2, rfl⟩
  have hbad : ∀ f ∈ ["src/b.js", "src/c.js"], Unreadable {} brokenTree [] "src" f := by
    have hfails : ∀ f ∈ ["src/b.js", "src/c.js"],
        (Scan.scanFile {} brokenTree [] f).isOk = false := by decide +kernel
    intro f hf
    have herror : ∃ e, Scan.scanFile {} brokenTree [] f = .error e := by
      have hfail := hfails f hf
      cases h : Scan.scanFile {} brokenTree [] f with
      | error e => exact ⟨e, rfl⟩
      | ok comments =>
        rw [h] at hfail
        cases hfail
    rcases List.mem_pair.1 hf with rfl | rfl
    · exact ⟨⟨_, ["src"], ["b.js"], rfl, rfl, by decide⟩, by decide, herror⟩
    · exact ⟨⟨_, ["src"], ["c.js"], rfl, rfl, by decide⟩, by decide, herror⟩
  have hlog : ∀ q, ¬ IsLogPlace {} [] q := by
    rintro q ⟨file, hfile, hne, -⟩
    cases hfile
    exact hne rfl
  have hfailed : ∀ f ∈ ["src/b.js", "src/c.js"],
      ScanFailed { cwd := [] } {} {} "src" brokenTree r := fun f hf =>
    (failed_scan_changes_no_output ht rfl (fun n => List.Perm.refl _) hbegins hvalid).1 f
      (hbad f hf) (hlog _)
  have hend := hfailed "src/b.js" (List.mem_cons_self ..)
  refine ⟨fun f hf => ⟨hbad f hf, hfailed f hf⟩, ?_, ?_⟩
  · obtain ⟨u, f, e, -, -, hfails, htells⟩ := hend.report
    have hname : Text.Charset.ofName? "utf-8" = some .utf8 := by decide
    rcases htells with ⟨m, he, -⟩ | ⟨hexit, -⟩
    · exact absurd he (ne_codec_of_ofName? hname hfails m)
    · exact hexit
  · rcases hend.tree ["docs", "api", "index.md"] with hkept | ⟨hplace, -⟩
    · rw [hkept]
      rfl
    · exact absurd hplace (hlog _)

end ApiDoc.Command
