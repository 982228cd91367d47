import ApiDoc.Docs.Basic
import ApiDoc.Proofs.Table.FirstOfKey

/-!
# Merging declarations of a class

Parents, properties and methods of a later declaration come in by the same rule: behind what is
there, in their order, and only under names that are new. The laws of merging are therefore those of
one run over names (`foldl_appendNew_foldl`, `foldl_appendNew_twice`), taken three times.

* `addNames_addNames`, `addNames_eq_append`: parents.
* `Table.union_assoc`, `Table.get?_union`, `Table.keys_union`: members.
* `merge_algebra`: merging as a whole.
-/

namespace ApiDoc

/-! ## Names -/

theorem addNames_eq_foldl (names more : List String) :
    addNames names more = more.foldl (appendNew id) names := by
  unfold addNames appendNew
  congr 1
  funext acc n
  rw [List.contains_eq_any_beq]
  simp only [id, BEq.comm]

/-- Names that were freed of repetitions among themselves come in as they would one by one. -/
theorem addNames_addNames (names acc more : List String) :
    addNames names (addNames acc more) = addNames (addNames names acc) more := by
  simp only [addNames_eq_foldl, foldl_appendNew_foldl]

theorem addNames_eq_append (names more : List String) :
    addNames names more = names ++ newNames names more := by
  have hmap := map_foldl_appendNew id more names
  simp only [List.map_id] at hmap
  rw [addNames_eq_foldl, hmap]

theorem mem_addNames {n : String} {names more : List String} :
    n ∈ addNames names more ↔ n ∈ names ∨ n ∈ more := by
  have hmem := mem_keys_foldl_appendNew id more names n
  simp only [List.map_id] at hmem
  rw [addNames_eq_foldl, hmem]

theorem addNames_nil_eq (names : List String) : addNames [] names = names.eraseDups := by
  rw [addNames_eq_foldl, foldl_appendNew_nil]
  rfl

theorem addNames_of_subset {names more : List String} (h : ∀ n ∈ more, n ∈ names) :
    addNames names more = names := by
  rw [addNames_eq_foldl]
  apply foldl_appendNew_of_mem
  intro n hn
  rw [List.map_id]
  exact h n hn

theorem addNames_twice (names more : List String) :
    addNames (addNames names more) more = addNames names more :=
  addNames_of_subset fun _ hn => mem_addNames.2 (Or.inr hn)

theorem nodup_addNames {names : List String} (h : names.Nodup) (more : List String) :
    (addNames names more).Nodup := by
  rw [addNames_eq_foldl]
  exact List.foldlRecOn more _ h fun keys hkeys k _ => nodup_appendNew hkeys k

/-! ## Tables -/

namespace Table

variable {α : Type}

theorem entries_union (t u : Table α) :
    (t.union u).entries = u.entries.foldl (appendNew Prod.fst) t.entries := by
  obtain ⟨es⟩ := u
  unfold union
  induction es generalizing t with
  | nil => rfl
  | cons e es ih => rw [List.foldl_cons, ih, entries_insertNew, List.foldl_cons]

theorem union_assoc (t u v : Table α) : (t.union u).union v = t.union (u.union v) := by
  apply eq_of_entries
  simp only [entries_union, foldl_appendNew_foldl]

theorem union_self (t : Table α) : t.union t = t := by
  apply eq_of_entries
  rw [entries_union]
  exact foldl_appendNew_of_mem fun e he => List.mem_map_of_mem he

theorem union_twice (t u : Table α) : (t.union u).union u = t.union u := by
  apply eq_of_entries
  simp only [entries_union, foldl_appendNew_twice]

theorem keys_union (t u : Table α) : (t.union u).keys = t.keys ++ newNames t.keys u.keys := by
  rw [keys, entries_union, map_foldl_appendNew]
  rfl

/-- A key is looked up in the first table, and in the second where the first does not have it. -/
theorem get?_union (t u : Table α) (k : String) :
    (t.union u).get? k = (t.get? k).or (u.get? k) := by
  obtain ⟨es⟩ := u
  change _ = (t.get? k).or (find? k es)
  unfold union
  induction es generalizing t with
  | nil => simp [find?]
  | cons e es ih =>
    rw [List.foldl_cons, ih, get?_insertNew, Option.or_assoc, find?]
    congr 1
    split
    · rfl
    · rfl

end Table

/-! ## Classes -/

/-- The class `m` is `a` with the later declaration `b` folded in. -/
structure ClassDoc.FoldsIn (a b m : ClassDoc) : Prop where
  file : m.file = a.file
  name : m.name = a.name
  description : m.description = a.description
  parents : m.parents = a.parents ++ newNames a.parents b.parents
  abstract : m.abstract = b.abstract
  propertyKeys : m.properties.keys =
    a.properties.keys ++ newNames a.properties.keys b.properties.keys
  methodKeys : m.methods.keys = a.methods.keys ++ newNames a.methods.keys b.methods.keys
  property : ∀ k, m.properties.get? k = (a.properties.get? k).or (b.properties.get? k)
  method : ∀ k, m.methods.get? k = (a.methods.get? k).or (b.methods.get? k)

namespace ClassDoc

theorem foldsIn_merge (a b : ClassDoc) : FoldsIn a b (a.merge b) where
  file := rfl
  name := rfl
  description := rfl
  parents := addNames_eq_append a.parents b.parents
  abstract := rfl
  propertyKeys := a.properties.keys_union b.properties
  methodKeys := a.methods.keys_union b.methods
  property := a.properties.get?_union b.properties
  method := a.methods.get?_union b.methods

theorem merge_assoc (a b c : ClassDoc) : (a.merge b).merge c = a.merge (b.merge c) := by
  simp only [merge, addNames_addNames, Table.union_assoc]

theorem merge_self (a : ClassDoc) : a.merge a = a := by
  simp only [merge, addNames_of_subset fun _ hn => hn, Table.union_self]

theorem merge_twice (a b : ClassDoc) : (a.merge b).merge b = a.merge b := by
  simp only [merge, addNames_twice, Table.union_twice]

/-- **The algebra of merging.** Merging declarations is associative and idempotent, with the order
of parents and of member keys. The merged class has the file, name and description of the first
one and the abstractness of the second; its parents and member keys are those of the first, in
their order, and behind them the new ones of the second, each once; a member is looked up in the
first and otherwise in the second; and parents that were distinct stay so. -/
theorem merge_algebra (a b c : ClassDoc) :
    (a.merge b).merge c = a.merge (b.merge c) ∧ a.merge a = a ∧
      (a.merge b).merge b = a.merge b ∧ FoldsIn a b (a.merge b) ∧
      (a.parents.Nodup → (a.merge b).parents.Nodup) :=
  ⟨merge_assoc a b c, merge_self a, merge_twice a b, foldsIn_merge a b,
    fun h => nodup_addNames h b.parents⟩

/-- A later declaration that names a parent twice, and one that is known. -/
theorem merge_repeated_parents :
    ∃ a b : ClassDoc, a.parents = ["Bug"] ∧ b.parents = ["Pet", "Bug", "Pet"] ∧
      (a.merge b).parents = ["Bug", "Pet"] ∧ (a.merge b).parents.Nodup :=
  ⟨{ file := "ant.js", name := "Ant", parents := ["Bug"] },
    { file := "pet.js", name := "Ant", parents := ["Pet", "Bug", "Pet"] }, rfl, rfl, by decide,
    (merge_algebra _ _ default).2.2.2.2 (by decide)⟩

end ClassDoc

end ApiDoc
