import ApiDoc.Table

/-!
# The first item of each key

Parameters of a comment and members of a class come in one after the other, and an item whose key
is there already is dropped. Such a run leaves the first item of each key, in the order of the run.

* `foldl_appendNew`: what a run adds to the items that are there before it.
* `find?_firstOfKey`, `map_firstOfKey`: what is found under a key is what the run brought first
  for it, and the keys are those of the run without their repetitions.
* `foldl_appendNew_twice`, `foldl_appendNew_foldl`: the same run a second time, and two runs.
* `map_foldl_appendNew`: the keys after a run.
* `get?_eq_find?`, `insert_eq_appendNew`, `keys_insert`, `eq_of_keys`: a table under this view.
-/

namespace ApiDoc

variable {α : Type}

/-- The items with one more behind them, unless one of them has its key. -/
def appendNew (key : α → String) (items : List α) (a : α) : List α :=
  if items.any (key · == key a) then items else items ++ [a]

/-- The first item of each key, in order. -/
def firstOfKey (key : α → String) (items : List α) : List α :=
  items.eraseDupsBy fun a b => key a == key b

theorem firstOfKey_cons (key : α → String) (a : α) (items : List α) :
    firstOfKey key (a :: items) =
      a :: firstOfKey key (items.filter fun b => !(key b == key a)) := by
  unfold firstOfKey
  rw [List.eraseDupsBy_cons]
  congr 3
  funext b
  cases key b == key a <;> rfl

/-- A run that drops what is there already adds the first item of each new key. -/
theorem foldl_appendNew (key : α → String) (as items : List α) :
    as.foldl (appendNew key) items =
      items ++ firstOfKey key (as.filter fun a => !items.any (key · == key a)) := by
  induction as generalizing items with
  | nil => simp [firstOfKey]
  | cons a as ih =>
    rw [List.foldl_cons, ih]
    by_cases h : items.any (key · == key a) = true
    · rw [appendNew, if_pos h, List.filter_cons_of_neg (by simp [h])]
    · rw [appendNew, if_neg h, List.filter_cons_of_pos (by simp [h]), firstOfKey_cons,
        List.filter_filter, List.append_assoc, List.singleton_append]
      congr 3
      apply List.filter_congr
      intro b _
      rw [List.any_append, Bool.not_or, Bool.and_comm]
      simp [BEq.comm (a := key a)]

theorem foldl_appendNew_nil (key : α → String) (as : List α) :
    as.foldl (appendNew key) [] = firstOfKey key as := by
  rw [foldl_appendNew, List.nil_append]
  congr 1
  exact List.filter_eq_self.2 (fun _ _ => rfl)

theorem mem_keys_foldl_appendNew (key : α → String) (as items : List α) (k : String) :
    k ∈ (as.foldl (appendNew key) items).map key ↔ k ∈ items.map key ∨ k ∈ as.map key := by
  induction as generalizing items with
  | nil => simp
  | cons a as ih =>
    rw [List.foldl_cons, ih, appendNew]
    split
    · next h =>
      have ha : key a ∈ items.map key := by simpa using h
      rw [List.map_cons, List.mem_cons]
      constructor
      · exact fun hk => hk.imp_right Or.inr
      · rintro (hk | rfl | hk)
        · exact Or.inl hk
        · exact Or.inl ha
        · exact Or.inr hk
    · simp [or_assoc]

/-- A run that brings nothing new. -/
theorem foldl_appendNew_of_mem {key : α → String} {as items : List α}
    (h : ∀ a ∈ as, key a ∈ items.map key) : as.foldl (appendNew key) items = items := by
  induction as with
  | nil => rfl
  | cons a as ih =>
    have ha : items.any (key · == key a) = true := by simpa using h a List.mem_cons_self
    rw [List.foldl_cons, appendNew, if_pos ha]
    exact ih fun b hb => h b (List.mem_cons_of_mem a hb)

/-- A run that comes a second time brings nothing new. -/
theorem foldl_appendNew_twice (key : α → String) (as items : List α) :
    as.foldl (appendNew key) (as.foldl (appendNew key) items) =
      as.foldl (appendNew key) items := by
  apply foldl_appendNew_of_mem
  intro a ha
  rw [mem_keys_foldl_appendNew]
  exact Or.inr (List.mem_map_of_mem ha)

theorem mem_of_mem_firstOfKey {key : α → String} {items : List α} {a : α}
    (h : a ∈ firstOfKey key items) : a ∈ items := by
  match items with
  | [] => exact h
  | b :: items =>
    rw [firstOfKey_cons] at h
    rcases List.mem_cons.1 h with rfl | h
    · exact List.mem_cons_self
    · exact List.mem_cons_of_mem b (List.mem_filter.1 (mem_of_mem_firstOfKey h)).1
termination_by items.length
decreasing_by exact Nat.lt_succ_of_le (List.length_filter_le _ _)

/-- The first item of a key is still found under it. -/
theorem find?_firstOfKey (key : α → String) (k : String) (items : List α) :
    (firstOfKey key items).find? (key · == k) = items.find? (key · == k) := by
  match items with
  | [] => rfl
  | a :: items =>
    rw [firstOfKey_cons, List.find?_cons, List.find?_cons]
    split
    · rfl
    · next hne =>
      rw [find?_firstOfKey key k, List.find?_filter]
      congr 1
      funext b
      by_cases hb : key b = k
      · have hba : key b ≠ key a := by
          rintro he
          simp [← hb, he] at hne
        simp [hb ▸ hba, hb]
      · simp [hb]
termination_by items.length
decreasing_by exact Nat.lt_succ_of_le (List.length_filter_le _ _)

/-- The keys of the first items are the keys without their repetitions. -/
theorem map_firstOfKey (key : α → String) (items : List α) :
    (firstOfKey key items).map key = (items.map key).eraseDups := by
  match items with
  | [] => rfl
  | a :: items =>
    rw [firstOfKey_cons, List.map_cons, List.map_cons, List.eraseDups_cons, map_firstOfKey,
      List.filter_map]
    rfl
termination_by items.length
decreasing_by exact Nat.lt_succ_of_le (List.length_filter_le _ _)

/-- One more item for a run is one more item after it. -/
theorem foldl_appendNew_appendNew (key : α → String) (items as : List α) (a : α) :
    (appendNew key as a).foldl (appendNew key) items =
      appendNew key (as.foldl (appendNew key) items) a := by
  by_cases h : as.any (key · == key a) = true
  · -- the key of `a` came in with `as` at the latest
    have hkeys : key a ∈ (as.foldl (appendNew key) items).map key := by
      rw [mem_keys_foldl_appendNew]
      exact Or.inr (by simpa using h)
    have hany : (as.foldl (appendNew key) items).any (key · == key a) = true := by
      simpa using hkeys
    rw [appendNew, if_pos h, appendNew, if_pos hany]
  · rw [appendNew, if_neg h, List.foldl_append, List.foldl_cons, List.foldl_nil]

/-- Runs can be put together before they are taken. -/
theorem foldl_appendNew_foldl (key : α → String) (items as bs : List α) :
    (bs.foldl (appendNew key) as).foldl (appendNew key) items =
      bs.foldl (appendNew key) (as.foldl (appendNew key) items) := by
  induction bs generalizing as with
  | nil => rfl
  | cons b bs ih => rw [List.foldl_cons, ih, foldl_appendNew_appendNew, List.foldl_cons]

theorem nodup_appendNew {keys : List String} (h : keys.Nodup) (k : String) :
    (appendNew id keys k).Nodup := by
  unfold appendNew
  split
  · exact h
  · next hnew =>
    refine List.nodup_append.2 ⟨h, List.pairwise_singleton _ k, ?_⟩
    intro a ha b hb
    rw [List.mem_singleton.1 hb]
    rintro rfl
    exact hnew (List.any_eq_true.2 ⟨a, ha, beq_self_eq_true a⟩)

theorem nodup_eraseDups (names : List String) : names.eraseDups.Nodup := by
  change (firstOfKey id names).Nodup
  rw [← foldl_appendNew_nil]
  exact List.foldlRecOn names _ List.nodup_nil fun keys hkeys k _ => nodup_appendNew hkeys k

/-- The names of a second list that are not in a first one, each one once. -/
def newNames (names more : List String) : List String :=
  (more.filter fun n => n ∉ names).eraseDups

/-- The keys after a run: those from before it, and the new ones behind them. -/
theorem map_foldl_appendNew (key : α → String) (as items : List α) :
    (as.foldl (appendNew key) items).map key =
      items.map key ++ newNames (items.map key) (as.map key) := by
  rw [foldl_appendNew, List.map_append, map_firstOfKey, newNames, List.filter_map]
  congr 3
  apply List.filter_congr
  intro a _
  rw [Bool.eq_iff_iff]
  simp

/-! ## Tables -/

namespace Table

theorem get?_eq_find? (t : Table α) (k : String) :
    t.get? k = (t.entries.find? (·.1 == k)).map Prod.snd := by
  obtain ⟨es⟩ := t
  unfold get?
  induction es with
  | nil => rfl
  | cons e es ih =>
    obtain ⟨key, value⟩ := e
    by_cases h : k = key
    · simp [find?, h]
    · simp [find?, h, Ne.symm h, ih]

theorem contains_eq_any (t : Table α) (k : String) :
    t.contains k = t.entries.any (·.1 == k) := by
  rw [contains, get?_eq_find?, Option.isSome_map, Bool.eq_iff_iff, List.find?_isSome,
    List.any_eq_true]

/-- A key that is new comes in at the end. -/
theorem insert_of_not_contains {t : Table α} {k : String} (h : t.contains k = false) (v : α) :
    (t.insert k v).entries = t.entries ++ [(k, v)] := by
  obtain ⟨es⟩ := t
  rw [contains_eq_any] at h
  unfold insert
  induction es with
  | nil => rfl
  | cons e es ih =>
    obtain ⟨key, value⟩ := e
    simp only [List.any_cons, Bool.or_eq_false_iff, beq_eq_false_iff_ne] at h
    have hne : k ≠ key := fun he => h.1 he.symm
    simp only [insertEntry, if_neg hne, List.cons_append, List.cons.injEq, true_and]
    exact ih h.2

/-- Putting in an entry under a new key, and leaving the table as it is under an old one. -/
theorem insert_eq_appendNew (t : Table α) (k : String) (v : α) :
    (if t.contains k then t else t.insert k v).entries = appendNew Prod.fst t.entries (k, v) := by
  unfold appendNew
  rw [← contains_eq_any]
  split
  · rfl
  · next h => exact insert_of_not_contains (by simpa using h) v

theorem entries_insertNew (t : Table α) (k : String) (v : α) :
    (t.insertNew k v).entries = appendNew Prod.fst t.entries (k, v) := by
  rw [insertNew, appendNew, contains_eq_any]
  split
  · rfl
  · rfl

theorem eq_of_entries {t u : Table α} (h : t.entries = u.entries) : t = u := by
  cases t
  cases u
  exact congrArg _ h

theorem contains_iff_mem_keys (t : Table α) (k : String) : t.contains k = true ↔ k ∈ t.keys := by
  rw [contains_eq_any, keys]
  simp

/-- An old key keeps its place and a new one comes in at the end. -/
theorem keys_insert (t : Table α) (k : String) (v : α) :
    (t.insert k v).keys = appendNew id t.keys k := by
  obtain ⟨es⟩ := t
  simp only [keys, insert]
  induction es with
  | nil => rfl
  | cons e es ih =>
    obtain ⟨key, value⟩ := e
    unfold appendNew at ih ⊢
    by_cases hk : k = key
    · subst hk
      simp [insertEntry]
    · have hkey : (key == k) = false := beq_eq_false_iff_ne.2 fun he => hk he.symm
      simp only [insertEntry, if_neg hk, List.map_cons, ih, id, List.any_cons, hkey, Bool.false_or]
      split <;> rfl

theorem keys_insert_of_mem {t : Table α} {k : String} (h : k ∈ t.keys) (v : α) :
    (t.insert k v).keys = t.keys := by
  rw [keys_insert, appendNew, if_pos]
  simpa using h

theorem get?_of_mem {t : Table α} (hkeys : t.keys.Nodup) {k : String} {v : α}
    (h : (k, v) ∈ t.entries) : t.get? k = some v := by
  obtain ⟨es⟩ := t
  unfold keys at hkeys
  unfold get?
  induction es with
  | nil => cases h
  | cons e es ih =>
    obtain ⟨key, value⟩ := e
    obtain ⟨hkey, hrest⟩ := List.nodup_cons.1 hkeys
    rw [find?]
    rcases List.mem_cons.1 h with he | hmem
    · cases he
      rw [if_pos rfl]
    · have hne : k ≠ key := by
        rintro rfl
        exact hkey (List.mem_map.2 ⟨_, hmem, rfl⟩)
      rw [if_neg hne, ih hrest hmem]

theorem map_keys_get? {t : Table α} (hkeys : t.keys.Nodup) :
    t.keys.map (fun k => (k, t.get? k)) = t.entries.map fun e => (e.1, some e.2) := by
  rw [keys, List.map_map]
  apply List.map_congr_left
  intro e he
  rw [Function.comp_apply, get?_of_mem hkeys he]

/-- A table is known by its keys and by what is found under them. -/
theorem eq_of_keys {t u : Table α} (hnodup : t.keys.Nodup) (hkeys : t.keys = u.keys)
    (hget : ∀ k, t.get? k = u.get? k) : t = u := by
  have hentries : t.entries.map (fun e => (e.1, some e.2)) =
      u.entries.map fun e => (e.1, some e.2) := by
    rw [← map_keys_get? hnodup, ← map_keys_get? (hkeys ▸ hnodup), hkeys]
    simp only [hget]
  have hinj : ∀ e f : String × α, (e.1, some e.2) = (f.1, some f.2) → e = f := by
    rintro ⟨k, v⟩ ⟨l, w⟩ h
    cases h
    rfl
  obtain ⟨es⟩ := t
  obtain ⟨fs⟩ := u
  exact congrArg _ ((List.map_inj_right hinj).1 hentries)

theorem mem_values_of_get? {t : Table α} {k : String} {v : α} (h : t.get? k = some v) :
    v ∈ t.values := by
  rw [get?_eq_find?] at h
  obtain ⟨e, he, rfl⟩ := Option.map_eq_some_iff.1 h
  exact List.mem_map.2 ⟨e, List.mem_of_find?_eq_some he, rfl⟩

theorem mem_entries_insert {t : Table α} {k : String} {v : α} {e : String × α}
    (h : e ∈ (t.insert k v).entries) : e = (k, v) ∨ e ∈ t.entries := by
  obtain ⟨entries⟩ := t
  change e ∈ insertEntry k v entries at h
  induction entries with
  | nil => exact Or.inl (List.mem_singleton.1 h)
  | cons first entries ih =>
    rw [insertEntry] at h
    split at h
    · next hk =>
      rcases List.mem_cons.1 h with rfl | h
      · exact Or.inl (by rw [hk])
      · exact Or.inr (List.mem_cons_of_mem _ h)
    · rcases List.mem_cons.1 h with rfl | h
      · exact Or.inr List.mem_cons_self
      · exact (ih h).imp_right (List.mem_cons_of_mem _)

end Table

end ApiDoc
