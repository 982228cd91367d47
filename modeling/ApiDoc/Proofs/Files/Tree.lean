import ApiDoc.Files.Tree
import ApiDoc.Proofs.Files.Path

/-!
# Well-formed file trees

What every tree of files has in common (`Tree.WellFormed`), whichever way it came about, and what
follows for the paths of its files.

* `Tree.locate_eq_collapse`: where a path leads to is settled by its names.
* `Tree.read_resolve`: a path with the names of a file behind it is resolved to this file.
* `Tree.mem_filesBelow`, `Tree.nodup_filesBelow`: the files below a place, each once.
-/

namespace ApiDoc.Files

/-- A name that an entry of a folder can have. -/
structure IsEntryName (n : String) : Prop extends IsName n where
  ne_dots : n ≠ ".."
  no_nul : Char.ofNat 0 ∉ n.toList
  short : n.utf8ByteSize ≤ Tree.maxNameLength

instance (n : String) : Decidable (IsEntryName n) :=
  decidable_of_iff
    ((n ≠ "" ∧ n ≠ "." ∧ '/' ∉ n.toList) ∧ n ≠ ".." ∧ Char.ofNat 0 ∉ n.toList ∧
      n.utf8ByteSize ≤ Tree.maxNameLength)
    ⟨fun ⟨⟨hempty, hdot, hslash⟩, hdots, hnul, hshort⟩ =>
      ⟨⟨hempty, hdot, hslash⟩, hdots, hnul, hshort⟩,
      fun h => ⟨⟨h.ne_empty, h.ne_dot, h.no_slash⟩, h.ne_dots, h.no_nul, h.short⟩⟩

namespace Tree

/-- What makes a row of entries a tree of files: every place is listed once, with names that an
entry can have, and all places above it are folders. -/
structure WellFormed (t : Tree) : Prop where
  distinct : (t.entries.map Prod.fst).Nodup
  names : ∀ x ∈ t.entries, x.1 ≠ [] ∧ ∀ n ∈ x.1, IsEntryName n
  above : ∀ x ∈ t.entries, ∀ k < x.1.length, t.entry? (x.1.take k) = some .folder

instance (t : Tree) : Decidable t.WellFormed :=
  decidable_of_iff
    ((t.entries.map Prod.fst).Nodup ∧
      (∀ x ∈ t.entries, x.1 ≠ [] ∧ ∀ n ∈ x.1, IsEntryName n) ∧
      ∀ x ∈ t.entries, ∀ k < x.1.length, t.entry? (x.1.take k) = some .folder)
    ⟨fun ⟨hdistinct, hnames, habove⟩ => ⟨hdistinct, hnames, habove⟩,
      fun h => ⟨h.distinct, h.names, h.above⟩⟩

/-! ## Entries -/

theorem mem_of_find? {place : List String} {entries : List (List String × Entry)} {e : Entry}
    (h : find? place entries = some e) : (place, e) ∈ entries := by
  induction entries with
  | nil => cases h
  | cons x rest ih =>
    obtain ⟨q, e'⟩ := x
    rw [find?] at h
    split at h
    · next hq =>
      cases h
      rw [hq]
      exact List.mem_cons_self
    · exact List.mem_cons_of_mem _ (ih h)

theorem find?_of_mem {place : List String} {entries : List (List String × Entry)} {e : Entry}
    (hdistinct : (entries.map Prod.fst).Nodup) (h : (place, e) ∈ entries) :
    find? place entries = some e := by
  induction entries with
  | nil => cases h
  | cons x rest ih =>
    obtain ⟨q, e'⟩ := x
    obtain ⟨hq, hrest⟩ := List.nodup_cons.1 hdistinct
    rw [find?]
    rcases List.mem_cons.1 h with he | hmem
    · cases he
      rw [if_pos rfl]
    · have hne : place ≠ q := by
        rintro rfl
        exact hq (List.mem_map.2 ⟨_, hmem, rfl⟩)
      rw [if_neg hne, ih hrest hmem]

section

variable {t : Tree} (ht : t.WellFormed) {place : List String} {e : Entry}
include ht

theorem entry?_eq_some (hplace : place ≠ []) :
    t.entry? place = some e ↔ (place, e) ∈ t.entries := by
  have hempty : place.isEmpty = false := by
    rw [Bool.eq_false_iff]
    exact fun h => hplace (List.isEmpty_iff.1 h)
  unfold entry?
  rw [hempty]
  exact ⟨mem_of_find?, find?_of_mem ht.distinct⟩

theorem isEntryName_of_mem (h : t.entry? place = some e) : ∀ n ∈ place, IsEntryName n := by
  by_cases hplace : place = []
  · rw [hplace]
    exact List.forall_mem_nil _
  · exact (ht.names _ ((entry?_eq_some ht hplace).1 h)).2

theorem isName_of_below {names : List String} (h : t.entry? (place ++ names) = some e) :
    ∀ n ∈ names, IsName n := by
  intro n hn
  exact (isEntryName_of_mem ht h n (List.mem_append_right place hn)).toIsName

theorem entry?_take (h : t.entry? place = some e) {k : Nat} (hk : k < place.length) :
    t.entry? (place.take k) = some .folder := by
  have hplace : place ≠ [] := by
    rintro rfl
    exact absurd hk (Nat.not_lt_zero k)
  exact ht.above _ ((entry?_eq_some ht hplace).1 h) k hk

/-- Nothing is below a file. -/
theorem eq_nil_of_file {content : Content} {names : List String}
    (hfile : t.entry? place = some (.file content)) (h : t.entry? (place ++ names) = some e) :
    names = [] := by
  cases names with
  | nil => rfl
  | cons n names =>
    have hk : place.length < (place ++ n :: names).length := by
      rw [List.length_append, List.length_cons]
      omega
    have hfolder := entry?_take ht h hk
    rw [List.take_left, hfile] at hfolder
    cases hfolder

end

/-! ## Following paths -/

theorem follow_append {t : Tree} {place names : List String}
    (hnames : ∀ n ∈ names, IsEntryName n)
    (hfolders : ∀ k < names.length, t.entry? (place ++ names.take k) = some .folder) :
    t.follow place names = .ok (place ++ names) := by
  induction names generalizing place with
  | nil => rw [follow, List.append_nil]
  | cons n names ih =>
    obtain ⟨hn, hnames⟩ := List.forall_mem_cons.1 hnames
    have hplace : t.entry? place = some .folder := by
      simpa using hfolders 0 (Nat.succ_pos _)
    have hmore : ∀ k < names.length, t.entry? (place ++ [n] ++ names.take k) = some .folder := by
      intro k hk
      simpa using hfolders (k + 1) (Nat.succ_lt_succ hk)
    rw [follow, hplace]
    simp only [hn.ne_dots, hn.ne_dot, Nat.not_lt.2 hn.short, if_false]
    rw [ih hnames hmore, List.append_assoc]
    rfl

theorem follow_eq_foldl {t : Tree} {names place : List String} (hdot : "." ∉ names)
    (above : List String) (h : t.follow above.reverse names = .ok place) :
    place = (names.foldl collapseStep above).reverse := by
  induction names generalizing above with
  | nil =>
    cases h
    rfl
  | cons n names ih =>
    obtain ⟨hn, hnames⟩ := not_or.1 (mt List.mem_cons.2 hdot)
    rw [follow] at h
    split at h
    · cases h
    · cases h
    · rw [List.foldl_cons, collapseStep]
      split at h
      · next hdots =>
        rw [if_pos hdots]
        rw [List.dropLast_reverse] at h
        exact ih hnames _ h
      · next hdots =>
        rw [if_neg hdots]
        rw [if_neg (Ne.symm hn)] at h
        split at h
        · cases h
        · rw [← List.reverse_cons] at h
          exact ih hnames _ h

section

variable {t : Tree} (ht : t.WellFormed) {cwd place : List String}
  (hcwd : t.entry? cwd = some .folder)
include ht

theorem locate_self {e : Entry} (h : t.entry? place = some e) :
    t.locate cwd ⟨"/", place⟩ = .ok place := by
  have hnames := isEntryName_of_mem ht h
  have hnul : hasNul place = false := by
    rw [hasNul, List.any_eq_false]
    intro n hn
    simpa using (hnames n hn).no_nul
  have hfolders : ∀ k < place.length, t.entry? ([] ++ place.take k) = some .folder := by
    intro k hk
    exact entry?_take ht h hk
  rw [locate, hnul]
  exact follow_append hnames hfolders

include hcwd

/-- A path leads to the place that its names say, seen from the current folder. -/
theorem locate_eq_collapse {p : Path} (hp : p.Lexical) (h : t.locate cwd p = .ok place) :
    place = collapse (if p.isAbsolute then p.names else cwd ++ p.names) := by
  have hdot : "." ∉ p.names := fun hmem => (hp.names _ hmem).ne_dot rfl
  have hdots : ".." ∉ cwd := fun hmem => (isEntryName_of_mem ht hcwd _ hmem).ne_dots rfl
  rw [locate] at h
  split at h
  · cases h
  · split at h
    · next habsolute =>
      rw [if_pos habsolute]
      exact follow_eq_foldl hdot [] h
    · next hrelative =>
      rw [if_neg hrelative]
      have hstart : cwd.foldl collapseStep [] = cwd.reverse := by
        simpa using foldl_collapseStep hdots []
      rw [← List.reverse_reverse cwd] at h
      rw [collapse, List.foldl_append, hstart]
      exact follow_eq_foldl hdot cwd.reverse h

theorem resolve_below {p : Path} (hp : p.Lexical) (hplace : t.locate cwd p = .ok place)
    {names : List String} {e : Entry} (hentry : t.entry? (place ++ names) = some e) :
    (p.below names).resolve cwd = ⟨"/", place ++ names⟩ := by
  have hdots : ".." ∉ names := fun hmem =>
    (isEntryName_of_mem ht hentry _ (List.mem_append_right _ hmem)).ne_dots rfl
  rw [locate_eq_collapse ht hcwd hp hplace, ← collapse_append _ hdots]
  unfold Path.resolve Path.below Path.isAbsolute
  split
  · rfl
  · rw [List.append_assoc]

/-- The path of a file below the place that a path leads to is read as this file. -/
theorem read_resolve {p : Path} (hp : p.Lexical) (hplace : t.locate cwd p = .ok place)
    {names : List String} {content : Content}
    (hfile : t.entry? (place ++ names) = some (.file content)) :
    t.read cwd ((p.below names).resolve cwd) =
      content.mapError fun r => ⟨.refused r, ((p.below names).resolve cwd).text⟩ := by
  rw [resolve_below ht hcwd hp hplace hfile, read, status, locate_self ht hfile]
  simp only [hfile]

end

/-! ## Listing files -/

section

variable {t : Tree} (ht : t.WellFormed) {place : List String}
include ht

theorem mem_filesBelow {names : List String} :
    names ∈ t.filesBelow place ↔
      names ≠ [] ∧ ∃ content, t.entry? (place ++ names) = some (.file content) := by
  unfold filesBelow
  rw [List.mem_filterMap]
  constructor
  · rintro ⟨⟨q, e⟩, hmem, hq⟩
    cases e with
    | folder => cases hq
    | file content =>
      simp only at hq
      split at hq
      · next hbelow =>
        cases hq
        have hsplit := List.take_append_drop place.length q
        rw [hbelow.2] at hsplit
        refine ⟨?_, content, ?_⟩
        · intro hnil
          have hlength := congrArg List.length hnil
          rw [List.length_drop, List.length_nil] at hlength
          omega
        · rw [hsplit]
          exact (entry?_eq_some ht (ht.names _ hmem).1).2 hmem
      · cases hq
  · rintro ⟨hne, content, hfile⟩
    have hmem := (entry?_eq_some ht (List.append_ne_nil_of_right_ne_nil place hne)).1 hfile
    have hlength := List.length_pos_iff.2 hne
    refine ⟨_, hmem, ?_⟩
    have hbelow : place.length < (place ++ names).length ∧
        (place ++ names).take place.length = place := by
      rw [List.length_append, List.take_left]
      exact ⟨by omega, rfl⟩
    simp only [hbelow, List.drop_left, if_true, and_self]

theorem nodup_filesBelow : (t.filesBelow place).Nodup := by
  have hdistinct : t.entries.Pairwise fun x y => x.1 ≠ y.1 :=
    List.pairwise_map.1 ht.distinct
  refine List.Pairwise.filterMap _ ?_ hdistinct
  rintro ⟨q, e⟩ ⟨q', e'⟩ hne names hnames names' hnames' rfl
  apply hne
  cases e with
  | folder => cases hnames
  | file content =>
    cases e' with
    | folder => cases hnames'
    | file content' =>
      simp only at hnames hnames'
      split at hnames
      · next hq =>
        split at hnames'
        · next hq' =>
          cases hnames
          have hdrop := Option.some.inj hnames'
          have htake : q.take place.length = q'.take place.length := hq.2.trans hq'.2.symm
          simp only
          rw [← List.take_append_drop place.length q, htake, ← hdrop, List.take_append_drop]
        · cases hnames'
      · cases hnames

end

end Tree

end ApiDoc.Files
