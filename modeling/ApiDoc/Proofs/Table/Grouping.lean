import Mathlib.Data.List.Perm.Basic
import ApiDoc.Proofs.Table.FirstOfKey

/-!
# Items grouped by a key

Items are put into a table one after the other, each behind those that are there under its key. The
keys of the table are those of the items, in the order of their first item, and under each key are
its items, in their own order. So the groups lose no item and double none.

* `keys_grouped`, `get?_grouped`, `entries_grouped`: the keys, a group, and the table as a whole.
* `flatMap_filter_perm`: the groups one behind the other are the items in another order.
-/

namespace ApiDoc

variable {α β : Type}

namespace Table

/-- The table with one more item, behind those under its key. -/
def addTo (key : α → String) (value : α → β) (t : Table (List β)) (a : α) : Table (List β) :=
  t.insert (key a) ((t.get? (key a)).getD [] ++ [value a])

/-- The items by their keys. -/
def grouped (key : α → String) (value : α → β) (items : List α) : Table (List β) :=
  items.foldl (addTo key value) empty

section

variable (key : α → String) (value : α → β)

theorem keys_foldl_addTo (items : List α) (t : Table (List β)) :
    (items.foldl (addTo key value) t).keys = (items.map key).foldl (appendNew id) t.keys := by
  induction items generalizing t with
  | nil => rfl
  | cons a items ih => rw [List.foldl_cons, ih, addTo, keys_insert, List.map_cons, List.foldl_cons]

theorem keys_grouped (items : List α) :
    (grouped key value items).keys = (items.map key).eraseDups := by
  have hfirst := foldl_appendNew_nil id (items.map key)
  rw [grouped, keys_foldl_addTo]
  exact hfirst

theorem get?_foldl_addTo (items : List α) (t : Table (List β)) (k : String) :
    ((items.foldl (addTo key value) t).get? k).getD [] =
      (t.get? k).getD [] ++ (items.filter fun a => key a = k).map value := by
  induction items generalizing t with
  | nil => simp
  | cons a items ih =>
    rw [List.foldl_cons, ih, addTo, get?_insert]
    by_cases h : key a = k
    · rw [if_pos h.symm, List.filter_cons_of_pos (by simpa using h), h]
      simp
    · rw [if_neg fun he => h he.symm, List.filter_cons_of_neg (by simpa using h)]

theorem get?_grouped (items : List α) (k : String) :
    ((grouped key value items).get? k).getD [] = (items.filter fun a => key a = k).map value :=
  get?_foldl_addTo key value items empty k

end

theorem entries_eq_map_keys [Inhabited α] {t : Table α} (h : t.keys.Nodup) :
    t.entries = t.keys.map fun k => (k, (t.get? k).getD default) := by
  rw [keys, List.map_map]
  refine (List.map_id _).symm.trans (List.map_congr_left fun e he => ?_)
  rw [Function.comp_apply, get?_of_mem h he]
  rfl

/-- The groups, in the order of their first items. -/
theorem entries_grouped (key : α → String) (value : α → β) (items : List α) :
    (grouped key value items).entries =
      (items.map key).eraseDups.map fun k => (k, (items.filter fun a => key a = k).map value) := by
  have hnodup : (grouped key value items).keys.Nodup := by
    rw [keys_grouped]
    exact nodup_eraseDups _
  rw [entries_eq_map_keys hnodup, keys_grouped]
  refine List.map_congr_left fun k _ => ?_
  rw [← get?_grouped key value]
  rfl

end Table

/-- Items taken key by key, when all of their keys are there, each one once. -/
theorem flatMap_filter_perm {key : α → String} {keys : List String} (hkeys : keys.Nodup)
    {items : List α} (hall : ∀ a ∈ items, key a ∈ keys) :
    (keys.flatMap fun k => items.filter fun a => key a = k).Perm items := by
  induction keys generalizing items with
  | nil =>
    obtain rfl : items = [] := List.eq_nil_iff_forall_not_mem.2 fun a ha => nomatch hall a ha
    exact List.Perm.nil
  | cons k keys ih =>
    obtain ⟨hk, hrest⟩ := List.nodup_cons.1 hkeys
    -- what is left without the group of `k` is taken by the other keys
    let others := items.filter fun a => !decide (key a = k)
    have hothers : ∀ a ∈ others, key a ∈ keys := by
      intro a ha
      obtain ⟨hmem, hne⟩ := List.mem_filter.1 ha
      rcases List.mem_cons.1 (hall a hmem) with he | hin
      · simp [he] at hne
      · exact hin
    have hgroups : (keys.flatMap fun l => items.filter fun a => key a = l) =
        keys.flatMap fun l => others.filter fun a => key a = l := by
      refine List.flatMap_congr fun l hl => ?_
      rw [List.filter_filter]
      refine List.filter_congr fun a _ => ?_
      have hne : key a = l → key a ≠ k := fun ha he => hk (he ▸ ha ▸ hl)
      by_cases ha : key a = l
      · simp [ha, ha ▸ hne ha]
      · simp [ha]
    rw [List.flatMap_cons, hgroups]
    exact ((ih hrest hothers).append_left _).trans (List.filter_append_perm _ items)

end ApiDoc
