import ApiDoc.Proofs.Files.Route

/-!
# Files written over

A file that is written to changes a tree at its own place and nowhere else; the tree stays a tree of
files, and paths lead to where they have led.

* `Tree.Rewrites`: files have been written at certain places, and nothing else has changed.
* `Tree.WellFormed.set_file`: a file put into a folder keeps a tree well-formed.
* `Tree.append_rewrites`: so writing to the end of a file rewrites this file alone.
-/

namespace ApiDoc.Files

namespace Tree

theorem WellFormed.set_file {t : Tree} (ht : t.WellFormed) {place : List String}
    (hne : place ≠ []) (hnames : ∀ n ∈ place, IsEntryName n)
    (habove : ∀ k < place.length, t.entry? (place.take k) = some .folder)
    (hplace : t.entry? place ≠ some .folder) (content : Content) :
    (t.set place (.file content)).WellFormed := by
  have hkept : ∀ q, t.entry? q = some .folder →
      Tree.entry? (t.set place (.file content)) q = some .folder := by
    intro q hq
    have hqne : q ≠ place := by
      rintro rfl
      exact hplace hq
    rw [entry?_set_of_ne t hqne, hq]
  refine ⟨?_, ?_, ?_⟩
  · have hrest : ((t.entries.filter fun x => x.1 ≠ place).map Prod.fst).Nodup :=
      ht.distinct.sublist (List.filter_sublist.map _)
    refine List.nodup_cons.2 ⟨?_, hrest⟩
    simp
  · refine List.forall_mem_cons.2 ⟨⟨hne, hnames⟩, fun x hx => ?_⟩
    exact ht.names x (List.mem_filter.1 hx).1
  · refine List.forall_mem_cons.2 ⟨fun k hk => hkept _ (habove k hk), fun x hx k hk => ?_⟩
    exact hkept _ (ht.above x (List.mem_filter.1 hx).1 k hk)

/-- Files have been written at such places, where no folder has been, and nothing else has
changed. -/
structure Rewrites (places : List String → Prop) (t u : Tree) : Prop where
  entries : ∀ q, u.entry? q = t.entry? q ∨
    (places q ∧ t.entry? q ≠ some .folder) ∧ ∃ content, u.entry? q = some (.file content)
  wellFormed : t.WellFormed → u.WellFormed

namespace Rewrites

variable {places : List String → Prop} {t u : Tree}

theorem refl (places : List String → Prop) (t : Tree) : Rewrites places t t :=
  ⟨fun _ => Or.inl rfl, id⟩

theorem changesOnly (h : Rewrites places t u) : ChangesOnly places t u :=
  fun q => (h.entries q).imp id And.left

theorem mono {more : List String → Prop} (h : Rewrites places t u)
    (hle : ∀ q, places q → more q) : Rewrites more t u :=
  ⟨fun q => (h.entries q).imp id fun hq => ⟨⟨hle q hq.1.1, hq.1.2⟩, hq.2⟩, h.wellFormed⟩

theorem entry?_folder (h : Rewrites places t u) {q : List String}
    (hq : t.entry? q = some .folder) : u.entry? q = some .folder :=
  h.changesOnly.entry?_folder hq

theorem entry?_of_not (h : Rewrites places t u) {q : List String} (hq : ¬ places q) :
    u.entry? q = t.entry? q := by
  rcases h.entries q with he | ⟨⟨hplace, -⟩, -⟩
  · exact he
  · exact absurd hplace hq

/-- Files stay files. -/
theorem exists_file (h : Rewrites places t u) {q : List String} {content : Content}
    (hq : t.entry? q = some (.file content)) : ∃ content', u.entry? q = some (.file content') := by
  rcases h.entries q with he | ⟨-, hfile⟩
  · exact ⟨content, he.trans hq⟩
  · exact hfile

theorem trans {v : Tree} (h : Rewrites places t u) (h' : Rewrites places u v) :
    Rewrites places t v := by
  refine ⟨fun q => ?_, fun ht => h'.wellFormed (h.wellFormed ht)⟩
  rcases h.entries q with he | ⟨hq, content, hfile⟩
  · rw [← he]
    exact h'.entries q
  · exact Or.inr ⟨hq, h'.exists_file hfile⟩

theorem follow_ok (h : Rewrites places t u) {place names q : List String}
    (hq : t.follow place names = .ok q) : u.follow place names = .ok q := by
  induction names generalizing place with
  | nil => exact hq
  | cons n names ih =>
    rw [follow] at hq
    split at hq
    · cases hq
    · cases hq
    · next hfolder =>
      rw [follow, h.entry?_folder hfolder]
      simp only
      split at hq
      · next hdots =>
        rw [if_pos hdots]
        exact ih hq
      · next hdots =>
        rw [if_neg hdots]
        split at hq
        · next hdot =>
          rw [if_pos hdot]
          exact ih hq
        · next hdot =>
          rw [if_neg hdot]
          split at hq
          · cases hq
          · next hshort =>
            rw [if_neg hshort]
            exact ih hq

theorem locate_ok (h : Rewrites places t u) {cwd q : List String} {p : Path}
    (hq : t.locate cwd p = .ok q) : u.locate cwd p = .ok q := by
  rw [locate] at hq ⊢
  split at hq
  · cases hq
  · next hnul =>
    rw [if_neg hnul]
    exact h.follow_ok hq

end Rewrites

section

variable {p : Path} (hp : p.Rooted) (hdots : ".." ∉ p.names)
include hp hdots

theorem write_rewrites (t : Tree) (cwd : List String) (content : ByteArray) :
    Rewrites (· = p.names) t (t.write cwd p content).1 := by
  unfold write
  split
  · exact Rewrites.refl _ t
  · next place hplace =>
    obtain ⟨hsteps, hway, rfl⟩ := (locate_ok_iff hp).1 hplace
    rw [collapse_of_no_dots hdots]
    split
    · exact Rewrites.refl _ t
    · exact Rewrites.refl _ t
    · next hfolder _ =>
      have hne : p.names ≠ [] := by
        intro hnil
        rw [hnil] at hfolder
        exact hfolder rfl
      refine ⟨fun q => ?_, fun ht => ht.set_file hne ?_ ?_ hfolder _⟩
      · by_cases hq : q = p.names
        · rw [hq]
          exact Or.inr ⟨⟨rfl, hfolder⟩, _, entry?_set_self t hne _⟩
        · exact Or.inl (entry?_set_of_ne t hq _)
      · intro n hn
        rcases hsteps n hn with rfl | hname
        · exact absurd hn hdots
        · exact hname
      · intro k hk
        have hdots' : ".." ∉ p.names.dropLast := fun h => hdots (List.dropLast_subset _ h)
        apply hway
        rw [passes_of_no_dots hdots', List.dropLast_eq_take]
        exact List.take_prefix_take_left (by omega)

theorem append_rewrites (t : Tree) (cwd : List String) (content : ByteArray) :
    Rewrites (· = p.names) t (t.append cwd p content).1 := by
  unfold append
  split
  · exact write_rewrites hp hdots t cwd _
  · exact write_rewrites hp hdots t cwd _

/-- A file that could be written to is there. -/
theorem exists_file_of_append {t u : Tree} {cwd : List String} {content : ByteArray}
    (h : t.append cwd p content = (u, .ok ())) :
    ∃ bytes, u.entry? p.names = some (.file bytes) := by
  have hwrite : ∃ bytes, t.write cwd p bytes = (u, .ok ()) := by
    unfold append at h
    split at h
    · exact ⟨_, h⟩
    · exact ⟨_, h⟩
  obtain ⟨bytes, hwrite⟩ := hwrite
  obtain ⟨place, hplace, htakes, rfl⟩ := write_ok_iff.1 hwrite
  obtain ⟨-, -, rfl⟩ := (locate_ok_iff hp).1 hplace
  rw [collapse_of_no_dots hdots] at htakes ⊢
  have hne : p.names ≠ [] := by
    intro hnil
    rw [hnil] at htakes
    exact htakes.ne_folder rfl
  exact ⟨_, entry?_set_self t hne _⟩

end

end Tree

end ApiDoc.Files
