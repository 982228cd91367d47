import ApiDoc.Command.Basic
import ApiDoc.Proofs.Files.Append

/-!
# What the log touches

Records go to the console and to the file of the log, so a run that does no more than write records
leaves everything but this file as it was.

* `Log.State.WritesTo`: the files among the targets of a log are at certain places.
* `Log.State.write_rewrites`: a record rewrites no file elsewhere.
* `Log.setup_ok`: a log that has been set up writes to the file it was given, which is there.
* `Session.Logs`: two states of a session between which nothing but log files was written.
* `loadSettings_logs`, `openLog_ok`: the steps before a command.
-/

namespace ApiDoc

open Files
open Files.Tree (Rewrites)

/-! ## Records -/

namespace Log

/-- The files among the targets of the log are at such places. -/
def State.WritesTo (places : List String → Prop) (s : State) : Prop :=
  ∀ h ∈ s.handlers, ∀ p, h.target = .file p → p.Rooted ∧ ".." ∉ p.names ∧ places p.names

section

variable {places : List String → Prop}

theorem Sink.writeLine_rewrites {target : Target}
    (h : ∀ p, target = .file p → p.Rooted ∧ ".." ∉ p.names ∧ places p.names) (k : Sink)
    (line : String) : Rewrites places k.tree (k.writeLine target line).tree := by
  cases target with
  | console => exact Rewrites.refl _ _
  | file p =>
    obtain ⟨hp, hdots, hplace⟩ := h p rfl
    refine (Tree.append_rewrites hp hdots k.tree [] _).mono ?_
    rintro q rfl
    exact hplace

theorem State.write_rewrites {s : State} (h : s.WritesTo places) (k : Sink) (r : Record) :
    Rewrites places k.tree (s.write k r).tree := by
  have hrun : ∀ (handlers : List Handler) (k : Sink), (∀ x ∈ handlers, x ∈ s.handlers) →
      Rewrites places k.tree (handlers.foldl (fun k h =>
        if h.level ≤ r.level then k.writeLine h.target (formatRecord k.time h.format r)
        else k) k).tree := by
    intro handlers
    induction handlers with
    | nil => exact fun k _ => Rewrites.refl _ _
    | cons x handlers ih =>
      intro k hmem
      obtain ⟨hx, hmem⟩ := List.forall_mem_cons.1 hmem
      rw [List.foldl_cons]
      split
      · exact (Sink.writeLine_rewrites (h x hx) k _).trans (ih _ hmem)
      · exact ih _ hmem
  have hours : ∀ x ∈ (if isOurs r.logger then s.handlers else []), x ∈ s.handlers := by
    intro x hx
    split at hx
    · exact hx
    · cases hx
  unfold State.write
  split
  · exact Rewrites.refl _ _
  · simp only
    generalize (if isOurs r.logger then s.handlers else []) = handlers at hours ⊢
    split
    · split
      · exact Rewrites.refl _ _
      · exact Rewrites.refl _ _
    · exact hrun handlers k hours

/-! ## Setting up -/

/-- The place of the file that a log is given. -/
def IsFilePlace (cwd : List String) (file : String) (q : List String) : Prop :=
  file ≠ "" ∧ q = ((Path.ofText file).resolve cwd).names

section

variable {s : State} {k : Sink} {cwd : List String} {level format file : String} {r : Setup}
  (hr : setup s k cwd level format file = r) (hok : r.result = .ok ())
include hr hok

theorem exists_of_setup :
    ∃ (n : Level) (files : List Handler) (tree : Tree) (note : Record),
      r.state.handlers = ⟨.console, n, format⟩ :: files ∧
      r.sink = r.state.write { k with tree } note ∧
      (file = "" ∧ files = [] ∧ tree = k.tree ∨
        file ≠ "" ∧ files = [⟨.file ((Path.ofText file).resolve cwd), n, format⟩] ∧
          k.tree.append cwd ((Path.ofText file).resolve cwd) ByteArray.empty = (tree, .ok ())) := by
  unfold setup at hr
  simp only at hr
  split at hr
  · subst hr
    cases hok
  · next n hlevel =>
    split at hr
    · subst hr
      cases hok
    · split at hr
      · subst hr
        cases hok
      · next files tree hopened =>
        subst hr
        refine ⟨n, files, tree, _, rfl, rfl, ?_⟩
        split at hopened
        · next hempty =>
          cases hopened
          exact Or.inl ⟨String.isEmpty_iff.1 hempty, rfl, rfl⟩
        · next hempty =>
          refine Or.inr ⟨fun he => hempty (String.isEmpty_iff.2 he), ?_⟩
          split at hopened
          · cases hopened
          · next happend =>
            cases hopened
            exact ⟨rfl, happend⟩

/-- A log that has been set up writes to the file that it was given, which is there. -/
theorem setup_ok (hcwd : ∀ n ∈ cwd, IsName n) :
    r.state.WritesTo (IsFilePlace cwd file) ∧ Rewrites (IsFilePlace cwd file) k.tree r.sink.tree ∧
      ∀ q, IsFilePlace cwd file q → ∃ content, r.sink.tree.entry? q = some (.file content) := by
  obtain ⟨n, files, tree, note, hhandlers, hsink, hfiles⟩ := exists_of_setup hr hok
  have hrooted := (Path.lexical_ofText file).rooted_resolve hcwd
  have hdots : ".." ∉ ((Path.ofText file).resolve cwd).names := dots_notMem_collapse _
  have hwrites : r.state.WritesTo (IsFilePlace cwd file) := by
    intro x hx p hp
    rw [hhandlers] at hx
    rcases List.mem_cons.1 hx with rfl | hx
    · cases hp
    · rcases hfiles with ⟨-, rfl, -⟩ | ⟨hne, rfl, -⟩
      · cases hx
      · obtain rfl := List.mem_singleton.1 hx
        cases hp
        exact ⟨hrooted, hdots, hne, rfl⟩
  have hwrite := State.write_rewrites hwrites { k with tree } note
  rw [← hsink] at hwrite
  refine ⟨hwrites, ?_, ?_⟩
  · rcases hfiles with ⟨-, -, rfl⟩ | ⟨hne, -, happend⟩
    · exact hwrite
    · have hopened := Tree.append_rewrites hrooted hdots k.tree cwd ByteArray.empty
      rw [happend] at hopened
      refine (hopened.mono ?_).trans hwrite
      rintro q rfl
      exact ⟨hne, rfl⟩
  · rintro q ⟨hne, rfl⟩
    rcases hfiles with ⟨he, -, -⟩ | ⟨-, -, happend⟩
    · exact absurd he hne
    · obtain ⟨content, hfile⟩ := Tree.exists_file_of_append hrooted hdots happend
      exact hwrite.exists_file hfile

end

end

end Log

/-! ## Sessions -/

namespace Command

/-- Nothing has happened to the session but that records were written, to log files at such
places. -/
structure Session.Logs (places : List String → Prop) (s s' : Session) : Prop where
  log : s'.log = s.log
  output : s'.output = s.output
  tree : Rewrites places s.tree s'.tree

section

variable {places : List String → Prop} {s s' : Session}

theorem Session.Logs.refl (places : List String → Prop) (s : Session) : Logs places s s :=
  ⟨rfl, rfl, Rewrites.refl _ _⟩

theorem Session.Logs.trans {s'' : Session} (h : Logs places s s') (h' : Logs places s' s'') :
    Logs places s s'' :=
  ⟨h'.log.trans h.log, h'.output.trans h.output, h.tree.trans h'.tree⟩

theorem Session.record_logs (h : s.log.WritesTo places) (r : Log.Record) :
    Logs places s (s.record r) :=
  ⟨rfl, rfl, Log.State.write_rewrites h s.sink r⟩

theorem Session.records_logs (h : s.log.WritesTo places) (rs : List Log.Record) :
    Logs places s (s.records rs) := by
  unfold Session.records
  induction rs generalizing s with
  | nil => exact Logs.refl _ _
  | cons r rs ih =>
    have hr := record_logs h r
    exact hr.trans (ih (hr.log ▸ h))

/-! ## The steps before a command -/

variable {place : Place} {settings : Settings}

theorem loadSettings_logs (hlog : s.log.WritesTo places) {file : Option String}
    (h : loadSettings place file s = (s', .ok settings)) : Session.Logs places s s' := by
  have hparse : ∀ text, loadSettings.parse s text = (s', .ok settings) →
      Session.Logs places s s' := by
    intro text h
    unfold loadSettings.parse at h
    split at h
    · cases h
    · cases h
      exact Session.Logs.refl _ _
  unfold loadSettings at h
  split at h
  · exact hparse _ h
  · simp only at h
    split at h
    · cases h
    · cases h
      exact Session.record_logs hlog _
    · cases h
    · cases h
    · split at h
      · cases h
      · exact hparse _ h

/-- The place of the log file that the settings name. -/
def IsLogPlace (settings : Settings) (cwd q : List String) : Prop :=
  ∃ file, settings.logPath = .ok file ∧ Log.IsFilePlace cwd file q

/-- An open log writes to the file that the settings name, which is there. -/
theorem openLog_ok (hcwd : ∀ n ∈ place.cwd, IsName n)
    (h : openLog place settings s = (s', .ok ())) :
    s'.log.WritesTo (IsLogPlace settings place.cwd) ∧ s'.output = s.output ∧
      Rewrites (IsLogPlace settings place.cwd) s.tree s'.tree ∧
      ∀ q, IsLogPlace settings place.cwd q →
        ∃ content, s'.tree.entry? q = some (.file content) := by
  unfold openLog at h
  split at h
  · cases h
  · split at h
    · cases h
    · cases h
    · split at h
      · cases h
      · split at h
        · cases h
        · next file hfile =>
          simp only at h
          split at h
          · cases h
          · next hok =>
            cases h
            have hplaces : IsLogPlace settings place.cwd = Log.IsFilePlace place.cwd file := by
              funext q
              simp [IsLogPlace, hfile]
            obtain ⟨hwrites, htree, hthere⟩ := Log.setup_ok rfl hok hcwd
            rw [hplaces]
            exact ⟨hwrites, rfl, htree, hthere⟩

end

end Command

end ApiDoc
