import Mathlib.Data.List.Induction
import ApiDoc.Proofs.Files.Relative
import ApiDoc.Proofs.Files.Tree

/-!
# Folders and files along an absolute path

An absolute path leads through the places that the fronts of its names collapse to (`Passes`).
Whether it can be followed, and what creating its folders or writing a file at its end does to a
tree, is settled by what is at these places and by the names themselves (`IsStep`).

* `Tree.locate_ok_iff`: a path can be followed just when it leads through folders.
* `Tree.createFolders_ok_iff`: folders can be created along a path just when no file is in the way.
* `Tree.createFolders_adds`: however it ends, only missing folders on the way are added.
* `Tree.Writable`, `Tree.Wrote`: what it takes to write a file with the folders above it, and what
  has changed then; `Tree.writable_of_ok` and `Tree.Writable.exists_write` tie them to the
  operations.
* `Tree.ChangesOnly`: where a tree can have changed, however an operation ended.
-/

namespace ApiDoc.Files

/-! ## Places on the way -/

/-- The names lead through this place, or end there. -/
def Passes (names q : List String) : Prop :=
  ∃ front, front <+: names ∧ collapse front = q

/-- A name that can be followed from a folder. -/
def IsStep (n : String) : Prop :=
  n = ".." ∨ IsEntryName n

instance (n : String) : Decidable (IsStep n) :=
  inferInstanceAs (Decidable (_ ∨ _))

theorem passes_collapse (names : List String) : Passes names (collapse names) :=
  ⟨names, List.prefix_rfl, rfl⟩

theorem Passes.mono {names names' q : List String} (h : Passes names q) (hle : names <+: names') :
    Passes names' q := by
  obtain ⟨front, hfront, hq⟩ := h
  exact ⟨front, hfront.trans hle, hq⟩

theorem passes_nil {q : List String} : Passes [] q ↔ q = [] := by
  constructor
  · rintro ⟨front, hfront, rfl⟩
    rw [List.prefix_nil.1 hfront]
    rfl
  · rintro rfl
    exact passes_collapse []

theorem passes_concat {names q : List String} {n : String} :
    Passes (names ++ [n]) q ↔ q = collapse (names ++ [n]) ∨ Passes names q := by
  constructor
  · rintro ⟨front, hfront, rfl⟩
    rcases List.prefix_concat_iff.1 hfront with rfl | hfront
    · exact Or.inl rfl
    · exact Or.inr ⟨front, hfront, rfl⟩
  · rintro (rfl | h)
    · exact passes_collapse _
    · exact h.mono (List.prefix_append _ _)

theorem passes_iff {names q : List String} :
    Passes names q ↔ q = collapse names ∨ Passes names.dropLast q := by
  cases names using List.reverseRecOn with
  | nil => exact ⟨Or.inr, fun h => h.elim (fun he => passes_nil.2 he) id⟩
  | append_singleton front n =>
    rw [List.dropLast_concat]
    exact passes_concat

theorem passes_of_no_dots {names q : List String} (h : ".." ∉ names) :
    Passes names q ↔ q <+: names := by
  have hfront : ∀ front, front <+: names → collapse front = front := fun front hle =>
    collapse_of_no_dots fun hmem => h (hle.subset hmem)
  constructor
  · rintro ⟨front, hle, rfl⟩
    rw [hfront front hle]
    exact hle
  · exact fun hle => ⟨q, hle, hfront q hle⟩

/-- A path from the root, with names as texts give them. -/
structure Path.Rooted (p : Path) : Prop where
  absolute : p.isAbsolute = true
  names : ∀ n ∈ p.names, IsName n

theorem Path.Rooted.parent {p : Path} (h : p.Rooted) : p.parent.Rooted :=
  ⟨h.absolute, fun n hn => h.names n (List.dropLast_subset _ hn)⟩

theorem Path.Lexical.rooted_resolve {p : Path} (hp : p.Lexical) {cwd : List String}
    (hcwd : ∀ n ∈ cwd, IsName n) : (p.resolve cwd).Rooted := by
  refine ⟨rfl, fun n hn => ?_⟩
  have hmem := mem_of_mem_collapse hn
  split at hmem
  · exact hp.names n hmem
  · rcases List.mem_append.1 hmem with hmem | hmem
    · exact hcwd n hmem
    · exact hp.names n hmem

theorem Path.parent_concat (root : String) (names : List String) (n : String) :
    (⟨root, names ++ [n]⟩ : Path).parent = ⟨root, names⟩ := by
  rw [Path.parent, List.dropLast_concat]

namespace Tree

/-! ## Entries after a change -/

theorem find?_filter_ne {place q : List String} (h : q ≠ place)
    (entries : List (List String × Entry)) :
    find? q (entries.filter fun x => x.1 ≠ place) = find? q entries := by
  induction entries with
  | nil => rfl
  | cons x entries ih =>
    obtain ⟨p, e⟩ := x
    by_cases hp : p = place
    · have hq : q ≠ p := fun he => h (he.trans hp)
      rw [List.filter_cons_of_neg (by simpa using hp), ih, find?, if_neg hq]
    · rw [List.filter_cons_of_pos (by simpa using hp), find?, find?, ih]

theorem entry?_nil (t : Tree) : t.entry? [] = some .folder := rfl

theorem entry?_set_self (t : Tree) {place : List String} (h : place ≠ []) (e : Entry) :
    Tree.entry? (t.set place e) place = some e := by
  unfold entry?
  rw [List.isEmpty_eq_false_iff.2 h]
  exact if_pos rfl

theorem entry?_set_of_ne (t : Tree) {place q : List String} (h : q ≠ place) (e : Entry) :
    Tree.entry? (t.set place e) q = t.entry? q := by
  unfold entry? set
  rw [find?, if_neg h, find?_filter_ne h]

/-- No file is at this place. -/
def NoFile (t : Tree) (q : List String) : Prop :=
  ∀ content, t.entry? q ≠ some (.file content)

theorem noFile_of_none {t : Tree} {q : List String} (h : t.entry? q = none) : t.NoFile q := by
  intro content hfile
  rw [h] at hfile
  cases hfile

theorem noFile_of_folder {t : Tree} {q : List String} (h : t.entry? q = some .folder) :
    t.NoFile q := by
  intro content hfile
  rw [h] at hfile
  cases hfile

/-- Nothing is below this place, and no file at it or above it. -/
structure EmptyAt (t : Tree) (place : List String) : Prop where
  way : ∀ q, q <+: place → t.NoFile q
  below : ∀ q, place <+: q → q ≠ place → t.entry? q = none

theorem EmptyAt.noFile {t : Tree} {place q more : List String} (h : t.EmptyAt place)
    (hq : q <+: place ++ more) : t.NoFile q := by
  rcases List.prefix_or_prefix_of_prefix hq (List.prefix_append place more) with hq | hq
  · exact h.way q hq
  · by_cases he : q = place
    · rw [he]
      exact h.way place List.prefix_rfl
    · exact noFile_of_none (h.below q hq he)

/-! ## Following a path -/

theorem follow_concat (t : Tree) (place names : List String) (n : String) :
    t.follow place (names ++ [n]) = (t.follow place names).bind fun q => t.follow q [n] := by
  induction names generalizing place with
  | nil => rfl
  | cons m names ih =>
    rw [List.cons_append, follow, follow]
    cases t.entry? place with
    | none => rfl
    | some e =>
      cases e with
      | file content => rfl
      | folder =>
        simp only [ih]
        split
        · rfl
        · split
          · rfl
          · split <;> rfl

theorem follow_step {t : Tree} {place : List String} {n : String}
    (hfolder : t.entry? place = some .folder) (hn : IsStep n) :
    t.follow place [n] = .ok (if n = ".." then place.dropLast else place ++ [n]) := by
  rw [follow, hfolder]
  rcases hn with rfl | hn
  · rfl
  · simp only [hn.ne_dots, hn.ne_dot, Nat.not_lt.2 hn.short, if_false]
    rfl

/-- A path through folders leads to where its names collapse to. -/
theorem follow_of_folders {t : Tree} {names : List String} (hsteps : ∀ n ∈ names, IsStep n)
    (hfolders : ∀ q, Passes names.dropLast q → t.entry? q = some .folder) :
    t.follow [] names = .ok (collapse names) := by
  induction names using List.reverseRecOn with
  | nil => rfl
  | append_singleton names n ih =>
    rw [List.dropLast_concat] at hfolders
    obtain ⟨hnames, hn⟩ := List.forall_mem_append.1 hsteps
    have hfront := ih hnames fun q hq => hfolders q (hq.mono (List.dropLast_prefix names))
    rw [follow_concat, hfront, collapse_concat]
    exact follow_step (hfolders _ (passes_collapse names)) (hn n List.mem_cons_self)

theorem follow_inversion {t : Tree} {names place : List String} (hnames : ∀ n ∈ names, IsName n)
    (hnul : hasNul names = false) (h : t.follow [] names = .ok place) :
    (∀ n ∈ names, IsStep n) ∧ (∀ q, Passes names.dropLast q → t.entry? q = some .folder) ∧
      place = collapse names := by
  induction names using List.reverseRecOn generalizing place with
  | nil =>
    refine ⟨List.forall_mem_nil _, ?_, ?_⟩
    · intro q hq
      rw [passes_nil.1 hq, entry?_nil]
    · cases h
      rfl
  | append_singleton names n ih =>
    obtain ⟨hnames, hn⟩ := List.forall_mem_append.1 hnames
    have hname : IsName n := hn n List.mem_cons_self
    rw [hasNul, List.any_append, Bool.or_eq_false_iff] at hnul
    rw [follow_concat] at h
    cases hfront : t.follow [] names with
    | error f =>
      rw [hfront] at h
      cases h
    | ok q =>
      obtain ⟨hsteps, hfolders, rfl⟩ := ih hnames hnul.1 hfront
      rw [hfront] at h
      change t.follow (collapse names) [n] = .ok place at h
      have hfolder : t.entry? (collapse names) = some .folder := by
        rw [follow] at h
        split at h
        · cases h
        · cases h
        · next he => exact he
      have hstep : IsStep n := by
        by_cases hdots : n = ".."
        · exact Or.inl hdots
        · rw [follow, hfolder] at h
          simp only [hdots, hname.ne_dot, if_false] at h
          split at h
          · cases h
          · next hshort =>
            refine Or.inr ⟨hname, hdots, ?_, Nat.not_lt.1 hshort⟩
            simpa using hnul.2
      refine ⟨?_, ?_, ?_⟩
      · refine List.forall_mem_append.2 ⟨hsteps, fun m hm => ?_⟩
        rw [List.mem_singleton.1 hm]
        exact hstep
      · rw [List.dropLast_concat]
        intro q hq
        rcases passes_iff.1 hq with rfl | hq
        · exact hfolder
        · exact hfolders q hq
      · rw [follow_step hfolder hstep] at h
        rw [collapse_concat]
        exact (Except.ok.inj h).symm

theorem follow_of_no_file {t : Tree} {names : List String} (hsteps : ∀ n ∈ names, IsStep n)
    (hfree : ∀ q, Passes names.dropLast q → t.NoFile q) :
    t.follow [] names = .ok (collapse names) ∨ t.follow [] names = .error .notFound := by
  induction names using List.reverseRecOn with
  | nil => exact Or.inl rfl
  | append_singleton names n ih =>
    rw [List.dropLast_concat] at hfree
    obtain ⟨hnames, hn⟩ := List.forall_mem_append.1 hsteps
    have hstep : IsStep n := hn n List.mem_cons_self
    have hfront := ih hnames fun q hq => hfree q (hq.mono (List.dropLast_prefix names))
    rw [follow_concat]
    rcases hfront with hfront | hfront
    · rw [hfront]
      change t.follow (collapse names) [n] = _ ∨ t.follow (collapse names) [n] = _
      cases he : t.entry? (collapse names) with
      | none =>
        rw [follow, he]
        exact Or.inr rfl
      | some e =>
        cases e with
        | file content => exact absurd he (hfree _ (passes_collapse names) content)
        | folder =>
          rw [follow_step he hstep, collapse_concat]
          exact Or.inl rfl
    · rw [hfront]
      exact Or.inr rfl

theorem hasNul_of_steps {names : List String} (h : ∀ n ∈ names, IsStep n) :
    hasNul names = false := by
  rw [hasNul, List.any_eq_false]
  intro n hn
  rcases h n hn with rfl | hname
  · decide
  · simpa using hname.no_nul

theorem locate_of_rooted {t : Tree} {p : Path} (hp : p.Rooted) (hnul : hasNul p.names = false)
    (cwd : List String) : t.locate cwd p = t.follow [] p.names := by
  rw [locate, hnul, hp.absolute]
  rfl

/-- A path can be followed just when it leads through folders. -/
theorem locate_ok_iff {t : Tree} {cwd place : List String} {p : Path} (hp : p.Rooted) :
    t.locate cwd p = .ok place ↔
      (∀ n ∈ p.names, IsStep n) ∧
        (∀ q, Passes p.names.dropLast q → t.entry? q = some .folder) ∧ place = collapse p.names := by
  constructor
  · intro h
    have hnul : hasNul p.names = false := by
      rw [locate] at h
      split at h
      · cases h
      · next hnul => exact Bool.eq_false_iff.2 hnul
    rw [locate_of_rooted hp hnul cwd] at h
    exact follow_inversion hp.names hnul h
  · rintro ⟨hsteps, hfolders, rfl⟩
    rw [locate_of_rooted hp (hasNul_of_steps hsteps) cwd]
    exact follow_of_folders hsteps hfolders

/-! ## Creating one folder -/

theorem createFolder_ok {t t' : Tree} {cwd : List String} {p : Path}
    (h : t.createFolder cwd p = .ok t') :
    ∃ place, t.locate cwd p = .ok place ∧ t.entry? place = none ∧ t' = t.set place .folder := by
  rw [createFolder] at h
  split at h
  · cases h
  · next place hplace =>
    split at h
    · cases h
    · next hnone =>
      refine ⟨place, hplace, ?_, (Except.ok.inj h).symm⟩
      rwa [Option.not_isSome_iff_eq_none] at hnone

theorem isFolder_iff {t : Tree} {cwd : List String} {p : Path} :
    t.isFolder cwd p = true ↔
      ∃ place, t.locate cwd p = .ok place ∧ t.entry? place = some .folder := by
  unfold isFolder status
  cases t.locate cwd p with
  | error f => simp
  | ok place =>
    cases he : t.entry? place with
    | none => simp [he]
    | some e => cases e <;> simp [he]

/-- What creating one folder can have done: nothing, or it has added the folder where there was
nothing. -/
theorem createMissing_cases (t : Tree) (cwd : List String) (p : Path) :
    (t.createMissing cwd p).1 = t ∨
      ∃ place, t.locate cwd p = .ok place ∧ t.entry? place = none ∧
        (t.createMissing cwd p).1 = t.set place .folder := by
  unfold createMissing
  cases hc : t.createFolder cwd p with
  | ok t' =>
    obtain ⟨place, hplace, hnone, rfl⟩ := createFolder_ok hc
    exact Or.inr ⟨place, hplace, hnone, rfl⟩
  | error f =>
    refine Or.inl ?_
    simp only
    split <;> rfl

theorem createMissing_ok {t t' : Tree} {cwd : List String} {p : Path}
    (h : t.createMissing cwd p = (t', .ok ())) :
    ∃ place, t.locate cwd p = .ok place ∧ t'.entry? place = some .folder := by
  unfold createMissing at h
  split at h
  · next hc =>
    cases h
    obtain ⟨place, hplace, hnone, rfl⟩ := createFolder_ok hc
    refine ⟨place, hplace, entry?_set_self t ?_ _⟩
    rintro rfl
    cases hnone
  · split at h
    · next hfolder =>
      cases h
      exact isFolder_iff.1 hfolder
    · cases h

theorem createFolder_of_locate {t : Tree} {cwd place : List String} {p : Path}
    (hplace : t.locate cwd p = .ok place) :
    t.createFolder cwd p =
      if (t.entry? place).isSome then .error .alreadyThere else .ok (t.set place .folder) := by
  rw [createFolder, hplace]

theorem createMissing_of_locate {t : Tree} {cwd place : List String} {p : Path}
    (hplace : t.locate cwd p = .ok place) (hfree : t.NoFile place) :
    ∃ t', t.createMissing cwd p = (t', .ok ()) := by
  rw [createMissing, createFolder_of_locate hplace]
  cases he : t.entry? place with
  | none => exact ⟨_, rfl⟩
  | some e =>
    cases e with
    | file content => exact absurd he (hfree content)
    | folder =>
      have hfolder : t.isFolder cwd p = true := isFolder_iff.2 ⟨place, hplace, he⟩
      refine ⟨t, ?_⟩
      simp only [Option.isSome_some, if_true, hfolder]

/-! ## Creating folders along a path -/

/-- All that has changed is that missing folders on the way of the names were added. -/
def AddsFolders (names : List String) (t t' : Tree) : Prop :=
  ∀ q, t'.entry? q = t.entry? q ∨
    (Passes names q ∧ t.entry? q = none ∧ t'.entry? q = some .folder)

theorem AddsFolders.refl (names : List String) (t : Tree) : AddsFolders names t t :=
  fun _ => Or.inl rfl

theorem AddsFolders.mono {names names' : List String} {t t' : Tree} (h : AddsFolders names t t')
    (hle : names <+: names') : AddsFolders names' t t' :=
  fun q => (h q).imp id fun hq => ⟨hq.1.mono hle, hq.2⟩

theorem AddsFolders.trans {names : List String} {t t' t'' : Tree} (h : AddsFolders names t t')
    (h' : AddsFolders names t' t'') : AddsFolders names t t'' := by
  intro q
  rcases h q with he | ⟨hq, hnone, hfolder⟩
  · rw [← he]
    exact h' q
  · refine Or.inr ⟨hq, hnone, ?_⟩
    rcases h' q with he | ⟨-, -, hfolder'⟩
    · rw [he, hfolder]
    · exact hfolder'

theorem AddsFolders.entry?_folder {names : List String} {t t' : Tree} (h : AddsFolders names t t')
    {q : List String} (hq : t.entry? q = some .folder) : t'.entry? q = some .folder := by
  rcases h q with he | ⟨-, -, hfolder⟩
  · rw [he, hq]
  · exact hfolder

theorem AddsFolders.noFile_iff {names : List String} {t t' : Tree} (h : AddsFolders names t t')
    {q : List String} : t'.NoFile q ↔ t.NoFile q := by
  rcases h q with he | ⟨-, hnone, hfolder⟩
  · unfold NoFile
    rw [he]
  · exact ⟨fun _ => noFile_of_none hnone, fun _ => noFile_of_folder hfolder⟩

theorem createMissing_adds {p : Path} (hp : p.Rooted) (t : Tree) (cwd : List String) :
    AddsFolders p.names t (t.createMissing cwd p).1 := by
  rcases createMissing_cases t cwd p with hsame | ⟨place, hplace, hnone, hset⟩
  · rw [hsame]
    exact AddsFolders.refl _ t
  · obtain ⟨-, -, rfl⟩ := (locate_ok_iff hp).1 hplace
    have hne : collapse p.names ≠ [] := by
      intro hnil
      rw [hnil] at hnone
      cases hnone
    intro q
    rw [hset]
    by_cases hq : q = collapse p.names
    · rw [hq]
      exact Or.inr ⟨passes_collapse _, hnone, entry?_set_self t hne _⟩
    · exact Or.inl (entry?_set_of_ne t hq _)

theorem createFolders_of_ne {t : Tree} {cwd : List String} {p : Path}
    (h : t.createFolder cwd p ≠ .error .notFound) :
    t.createFolders cwd p = t.createMissing cwd p := by
  rw [createFolders]
  split
  · next hc => exact absurd hc h
  · rfl

theorem createFolders_of_notFound {t : Tree} {cwd : List String} {p : Path}
    (h : t.createFolder cwd p = .error .notFound) (hne : p.names ≠ []) :
    t.createFolders cwd p =
      match t.createFolders cwd p.parent with
      | (t', .error e) => (t', .error e)
      | (t', .ok ()) => t'.createMissing cwd p := by
  rw [createFolders, h]
  exact dif_neg hne

theorem createFolder_root {t : Tree} {cwd : List String} {root : String}
    (hroot : (⟨root, []⟩ : Path).Rooted) :
    t.createFolder cwd ⟨root, []⟩ = .error .alreadyThere := by
  have hplace : t.locate cwd ⟨root, []⟩ = .ok [] := locate_of_rooted hroot rfl cwd
  rw [createFolder_of_locate hplace]
  rfl

/-- However it ends, creating folders only adds missing folders on the way. -/
theorem createFolders_adds {p : Path} (hp : p.Rooted) (t : Tree) (cwd : List String) :
    AddsFolders p.names t (t.createFolders cwd p).1 := by
  obtain ⟨root, names⟩ := p
  induction names using List.reverseRecOn with
  | nil =>
    rw [createFolders_of_ne (by rw [createFolder_root hp]; nofun)]
    exact createMissing_adds hp t cwd
  | append_singleton names n ih =>
    by_cases hc : t.createFolder cwd ⟨root, names ++ [n]⟩ = .error .notFound
    · have hparent := Path.parent_concat root names n
      have hfront := ih (hparent ▸ hp.parent)
      have hle : names <+: names ++ [n] := List.prefix_append _ _
      rw [createFolders_of_notFound hc (by simp), hparent]
      split
      · next hrun =>
        rw [hrun] at hfront
        exact hfront.mono hle
      · next hrun =>
        rw [hrun] at hfront
        exact (hfront.mono hle).trans (createMissing_adds hp _ cwd)
    · rw [createFolders_of_ne hc]
      exact createMissing_adds hp t cwd

theorem createFolders_ok {cwd : List String} {p : Path} (hp : p.Rooted) {t t' : Tree}
    (h : t.createFolders cwd p = (t', .ok ())) :
    (∀ n ∈ p.names, IsStep n) ∧ ∀ q, Passes p.names q → t'.entry? q = some .folder := by
  -- the last folder was created in a tree in which all others on the way are there
  have hlast : ∀ u : Tree, u.createMissing cwd p = (t', .ok ()) →
      (∀ n ∈ p.names, IsStep n) ∧ ∀ q, Passes p.names q → t'.entry? q = some .folder := by
    intro u hu
    obtain ⟨place, hplace, hfolder⟩ := createMissing_ok hu
    obtain ⟨hsteps, hfolders, rfl⟩ := (locate_ok_iff hp).1 hplace
    have hadds := createMissing_adds hp u cwd
    rw [hu] at hadds
    refine ⟨hsteps, fun q hq => ?_⟩
    rcases passes_iff.1 hq with rfl | hq
    · exact hfolder
    · exact hadds.entry?_folder (hfolders q hq)
  by_cases hc : t.createFolder cwd p = .error .notFound
  · have hne : p.names ≠ [] := by
      intro hnil
      obtain ⟨root, names⟩ := p
      obtain rfl : names = [] := hnil
      rw [createFolder_root hp] at hc
      cases hc
    rw [createFolders_of_notFound hc hne] at h
    split at h
    · cases h
    · exact hlast _ h
  · rw [createFolders_of_ne hc] at h
    exact hlast t h

theorem createFolders_of_no_file {p : Path} (hp : p.Rooted) {t : Tree}
    (hsteps : ∀ n ∈ p.names, IsStep n)
    (hfree : ∀ q, Passes p.names q → t.NoFile q) (cwd : List String) :
    ∃ t', t.createFolders cwd p = (t', .ok ()) := by
  obtain ⟨root, names⟩ := p
  induction names using List.reverseRecOn with
  | nil =>
    have hplace : t.locate cwd ⟨root, []⟩ = .ok [] := locate_of_rooted hp rfl cwd
    rw [createFolders_of_ne (by rw [createFolder_root hp]; nofun)]
    exact createMissing_of_locate hplace (hfree _ (passes_collapse []))
  | append_singleton names n ih =>
    have hend : t.NoFile (collapse (names ++ [n])) := hfree _ (passes_collapse _)
    have hroute := follow_of_no_file hsteps fun q hq => hfree q (passes_iff.2 (Or.inr hq))
    rw [← locate_of_rooted hp (hasNul_of_steps hsteps) cwd] at hroute
    rcases hroute with hplace | hmissing
    · have hc : t.createFolder cwd ⟨root, names ++ [n]⟩ ≠ .error .notFound := by
        rw [createFolder_of_locate hplace]
        split <;> nofun
      rw [createFolders_of_ne hc]
      exact createMissing_of_locate hplace hend
    · have hc : t.createFolder cwd ⟨root, names ++ [n]⟩ = .error .notFound := by
        rw [createFolder, hmissing]
      have hparent := Path.parent_concat root names n
      have hp' : (⟨root, names⟩ : Path).Rooted := hparent ▸ hp.parent
      have hle : names <+: names ++ [n] := List.prefix_append _ _
      obtain ⟨t', hrun⟩ := ih hp' (List.forall_mem_append.1 hsteps).1
        fun q hq => hfree q (hq.mono hle)
      have hadds := createFolders_adds hp' t cwd
      obtain ⟨-, hfolders⟩ := createFolders_ok hp' hrun
      rw [hrun] at hadds
      rw [createFolders_of_notFound hc (by simp), hparent, hrun]
      refine createMissing_of_locate ((locate_ok_iff hp).2 ⟨hsteps, ?_, rfl⟩)
        (hadds.noFile_iff.2 hend)
      rw [List.dropLast_concat]
      exact hfolders

/-- Folders can be created along a path just when no file is in the way. -/
theorem createFolders_ok_iff {cwd : List String} {p : Path} (hp : p.Rooted) {t : Tree} :
    (∃ t', t.createFolders cwd p = (t', .ok ())) ↔
      (∀ n ∈ p.names, IsStep n) ∧ ∀ q, Passes p.names q → t.NoFile q := by
  constructor
  · rintro ⟨t', h⟩
    have hadds := createFolders_adds hp t cwd
    obtain ⟨hsteps, hfolders⟩ := createFolders_ok hp h
    rw [h] at hadds
    exact ⟨hsteps, fun q hq => hadds.noFile_iff.1 (noFile_of_folder (hfolders q hq))⟩
  · rintro ⟨hsteps, hfree⟩
    exact createFolders_of_no_file hp hsteps hfree cwd

/-! ## Writing a file and the folders above it -/

/-- There is nothing at this place but perhaps a file that can be opened. -/
def TakesFile (t : Tree) (q : List String) : Prop :=
  t.entry? q = none ∨ ∃ bytes, t.entry? q = some (.file (.ok bytes))

theorem TakesFile.ne_folder {t : Tree} {q : List String} (h : t.TakesFile q) :
    t.entry? q ≠ some .folder := by
  intro hfolder
  rcases h with hnone | ⟨bytes, hfile⟩
  · rw [hnone] at hfolder
    cases hfolder
  · rw [hfile] at hfolder
    cases hfolder

theorem write_ok_iff {t t' : Tree} {cwd : List String} {p : Path} {content : ByteArray} :
    t.write cwd p content = (t', .ok ()) ↔
      ∃ place, t.locate cwd p = .ok place ∧ t.TakesFile place ∧
        t' = t.set place (.file (.ok content)) := by
  unfold write TakesFile
  cases t.locate cwd p with
  | error f => simp
  | ok place =>
    cases he : t.entry? place with
    | none => simp [he, eq_comm]
    | some e =>
      cases e with
      | folder => simp [he]
      | file old => cases old <;> simp [he, eq_comm]

theorem read_of_file {t : Tree} {cwd place : List String} {p : Path} {content : ByteArray}
    (hplace : t.locate cwd p = .ok place) (hfile : t.entry? place = some (.file (.ok content))) :
    t.read cwd p = .ok content := by
  rw [read, status, hplace]
  simp only [hfile]
  rfl

theorem exists_of_read {t : Tree} {cwd : List String} {p : Path} {content : ByteArray}
    (h : t.read cwd p = .ok content) :
    ∃ place, t.locate cwd p = .ok place ∧ t.entry? place = some (.file (.ok content)) := by
  unfold read status at h
  cases hplace : t.locate cwd p with
  | error f =>
    rw [hplace] at h
    cases h
  | ok place =>
    rw [hplace] at h
    cases he : t.entry? place with
    | none =>
      simp only [he] at h
      cases h
    | some e =>
      simp only [he] at h
      cases e with
      | folder => cases h
      | file content' =>
        cases content' with
        | error r => cases h
        | ok bytes =>
          cases h
          exact ⟨place, rfl, he⟩

theorem AddsFolders.takesFile {names : List String} {t t' : Tree} (h : AddsFolders names t t')
    {q : List String} (hq : t'.TakesFile q) : t.TakesFile q := by
  rcases h q with he | ⟨-, -, hfolder⟩
  · rwa [TakesFile, ← he]
  · exact absurd hfolder hq.ne_folder

/-- What it takes to write a file and the folders above it. -/
structure Writable (t : Tree) (p : Path) : Prop where
  steps : ∀ n ∈ p.names, IsStep n
  /-- No file is in the way. -/
  way : ∀ q, Passes p.names.dropLast q → t.NoFile q
  /-- The path does not lead through the place that it ends at. -/
  apart : ¬ Passes p.names.dropLast (collapse p.names)
  /-- No folder is at its end, and no file that cannot be opened. -/
  page : t.TakesFile (collapse p.names)

/-- A file and the folders above it have been written, and nothing else. -/
structure Wrote (t t' : Tree) (p : Path) (content : ByteArray) : Prop where
  way : ∀ q, Passes p.names.dropLast q → t'.entry? q = some .folder
  page : t'.entry? (collapse p.names) = some (.file (.ok content))
  rest : ∀ q, ¬ Passes p.names.dropLast q → q ≠ collapse p.names → t'.entry? q = t.entry? q

section

variable {t t₁ t₂ : Tree} {cwd : List String} {p : Path} {content : ByteArray}
  (hp : p.Rooted)
include hp

theorem writable_of_ok (hfolders : t.createFolders cwd p.parent = (t₁, .ok ()))
    (hwrite : t₁.write cwd p content = (t₂, .ok ())) :
    t.Writable p ∧ t.Wrote t₂ p content := by
  have hadds := createFolders_adds hp.parent t cwd
  obtain ⟨-, hway⟩ := createFolders_ok hp.parent hfolders
  obtain ⟨-, hfree⟩ := (createFolders_ok_iff hp.parent).1 ⟨t₁, hfolders⟩
  obtain ⟨place, hplace, hpage, rfl⟩ := write_ok_iff.1 hwrite
  obtain ⟨hsteps, -, rfl⟩ := (locate_ok_iff hp).1 hplace
  rw [hfolders] at hadds
  have hapart : ¬ Passes p.names.dropLast (collapse p.names) := fun h => hpage.ne_folder (hway _ h)
  have hne : collapse p.names ≠ [] := by
    intro hnil
    rw [hnil] at hpage
    exact hpage.ne_folder rfl
  refine ⟨⟨hsteps, hfree, hapart, hadds.takesFile hpage⟩, ?_, ?_, ?_⟩
  · intro q hq
    have hqne : q ≠ collapse p.names := by
      rintro rfl
      exact hapart hq
    rw [entry?_set_of_ne t₁ hqne]
    exact hway q hq
  · exact entry?_set_self t₁ hne _
  · intro q hq hqne
    rw [entry?_set_of_ne t₁ hqne]
    rcases hadds q with he | ⟨hpasses, -, -⟩
    · exact he
    · exact absurd hpasses hq

theorem Writable.exists_write (h : t.Writable p) (cwd : List String) (content : ByteArray) :
    ∃ t₁ t₂, t.createFolders cwd p.parent = (t₁, .ok ()) ∧
      t₁.write cwd p content = (t₂, .ok ()) := by
  have hsteps : ∀ n ∈ p.parent.names, IsStep n := fun n hn =>
    h.steps n (List.dropLast_subset _ hn)
  obtain ⟨t₁, hfolders⟩ := createFolders_of_no_file hp.parent hsteps h.way cwd
  have hadds := createFolders_adds hp.parent t cwd
  obtain ⟨-, hway⟩ := createFolders_ok hp.parent hfolders
  rw [hfolders] at hadds
  refine ⟨t₁, _, hfolders, write_ok_iff.2 ⟨_, (locate_ok_iff hp).2 ⟨h.steps, hway, rfl⟩,
    ?_, rfl⟩⟩
  rcases hadds (collapse p.names) with he | ⟨hpasses, -, -⟩
  · rw [TakesFile, he]
    exact h.page
  · exact absurd hpasses h.apart

end

section

variable {t t' : Tree} {p : Path} {content : ByteArray} (h : t.Writable p)
  (h' : t.Wrote t' p content) {q : List String}
include h h'

theorem Wrote.noFile_of_noFile (hq : t'.NoFile q) : t.NoFile q := by
  by_cases hway : Passes p.names.dropLast q
  · exact h.way q hway
  · by_cases hpage : q = collapse p.names
    · exact absurd (hpage ▸ h'.page) (hq (.ok content))
    · intro bytes hbytes
      exact hq bytes ((h'.rest q hway hpage).trans hbytes)

/-- A place that takes a file then took one before. -/
theorem Wrote.takesFile (hq : t'.TakesFile q) : t.TakesFile q := by
  by_cases hway : Passes p.names.dropLast q
  · exact absurd (h'.way q hway) hq.ne_folder
  · by_cases hpage : q = collapse p.names
    · rw [hpage]
      exact h.page
    · rwa [TakesFile, ← h'.rest q hway hpage]

end

/-! ## Where a tree can have changed -/

/-- Nothing has changed but at such places, and no folder even there. -/
def ChangesOnly (places : List String → Prop) (t t' : Tree) : Prop :=
  ∀ q, t'.entry? q = t.entry? q ∨ (places q ∧ t.entry? q ≠ some .folder)

theorem ChangesOnly.refl (places : List String → Prop) (t : Tree) : ChangesOnly places t t :=
  fun _ => Or.inl rfl

theorem ChangesOnly.mono {places more : List String → Prop} {t t' : Tree}
    (h : ChangesOnly places t t') (hle : ∀ q, places q → more q) : ChangesOnly more t t' :=
  fun q => (h q).imp id fun hq => ⟨hle q hq.1, hq.2⟩

theorem ChangesOnly.trans {places : List String → Prop} {t t' t'' : Tree}
    (h : ChangesOnly places t t') (h' : ChangesOnly places t' t'') : ChangesOnly places t t'' := by
  intro q
  rcases h q with he | hq
  · rw [← he]
    exact h' q
  · exact Or.inr hq

theorem ChangesOnly.entry?_folder {places : List String → Prop} {t t' : Tree}
    (h : ChangesOnly places t t') {q : List String} (hq : t.entry? q = some .folder) :
    t'.entry? q = some .folder := by
  rcases h q with he | ⟨-, hne⟩
  · rw [he, hq]
  · exact absurd hq hne

theorem AddsFolders.changesOnly {names : List String} {t t' : Tree} (h : AddsFolders names t t') :
    ChangesOnly (Passes names) t t' := by
  refine fun q => (h q).imp id ?_
  rintro ⟨hq, hnone, -⟩
  rw [hnone]
  exact ⟨hq, nofun⟩

theorem write_changesOnly {p : Path} (hp : p.Rooted) (t : Tree) (cwd : List String)
    (content : ByteArray) : ChangesOnly (Passes p.names) t (t.write cwd p content).1 := by
  unfold write
  split
  · exact ChangesOnly.refl _ t
  · next place hplace =>
    obtain ⟨-, -, rfl⟩ := (locate_ok_iff hp).1 hplace
    split
    · exact ChangesOnly.refl _ t
    · exact ChangesOnly.refl _ t
    · next hfolder _ =>
      intro q
      by_cases hq : q = collapse p.names
      · rw [hq]
        exact Or.inr ⟨passes_collapse _, hfolder⟩
      · exact Or.inl (entry?_set_of_ne t hq _)

end Tree

end ApiDoc.Files
