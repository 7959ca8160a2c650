import Mathlib

/-!
# The entries of an ordered map

An ordered map is iterated as the list of its entries.  What is added up or
counted over the entries does not depend on their order, so an update of the map
is described as a permutation of that list: the entry of the key comes out and
another one goes in.

## Main results

* `nodup_map_toList`, `nodup_flatMap_toList` — lists made from the entries.
* `perm_toList_of_getElem?` — an entry of the map and the entries without it.
* `perm_toList_insert` — the entries after an insertion.
* `perm_flatMap_of_getElem?`, `perm_flatMap_replace`, `perm_flatMap_insert_new` — the same
  for lists made from the entries.
* `toList_erase_of_head?` — the entries without the first one.
* `sumOf_insert`, `sumOf_erase_add`, `sumOf_eq_zero_iff` — sums over the entries.
-/

namespace OrderedMap

variable {α β : Type*} {cmp : α → α → Ordering} [Std.TransCmp cmp] [Std.LawfulEqCmp cmp]
  {m : Std.ExtTreeMap α β cmp} {k : α} {v : β}

theorem nodup_toList (m : Std.ExtTreeMap α β cmp) : m.toList.Nodup := by
  refine List.Pairwise.imp ?_ m.distinct_keys_toList
  rintro a b hne rfl
  exact hne Std.ReflCmp.compare_self

/-- A list made from the entries repeats nothing if the key can be read back. -/
theorem nodup_map_toList {γ : Type*} (m : Std.ExtTreeMap α β cmp) {f : α × β → γ} (key : γ → α)
    (hf : ∀ entry, key (f entry) = entry.1) : (m.toList.map f).Nodup := by
  refine List.Nodup.map_on ?_ (nodup_toList m)
  rintro ⟨k, v⟩ hv ⟨k', v'⟩ hv' heq
  have hk : k = k' := (hf (k, v)).symm.trans ((congrArg key heq).trans (hf (k', v')))
  rw [Std.ExtTreeMap.mem_toList_iff_getElem?_eq_some] at hv hv'
  subst hk
  rw [hv, Option.some.injEq] at hv'
  rw [hv']

/-- The same for a list of several values for each entry. -/
theorem nodup_flatMap_toList {γ : Type*} {m : Std.ExtTreeMap α β cmp} {f : α × β → List γ}
    (key : γ → α) (hnodup : ∀ entry, (f entry).Nodup)
    (hkey : ∀ entry, ∀ x ∈ f entry, key x = entry.1) : (m.toList.flatMap f).Nodup := by
  refine List.nodup_flatMap.mpr ⟨fun entry _ => hnodup entry, ?_⟩
  refine List.Pairwise.imp ?_ m.distinct_keys_toList
  intro a b hne x hxa hxb
  refine hne ?_
  rw [← hkey a x hxa, hkey b x hxb]
  exact Std.ReflCmp.compare_self

/-- Two lists of entries without repetition that hold the same entries. -/
theorem perm_of_mem_iff {l : List (α × β)} (hl : l.Nodup)
    (h : ∀ k v, m[k]? = some v ↔ (k, v) ∈ l) : m.toList.Perm l := by
  refine (List.perm_ext_iff_of_nodup (nodup_toList m) hl).mpr ?_
  rintro ⟨k, v⟩
  rw [Std.ExtTreeMap.mem_toList_iff_getElem?_eq_some, h]

theorem nodup_cons_erase : ((k, v) :: (m.erase k).toList).Nodup := by
  refine List.nodup_cons.mpr ⟨fun hmem => ?_, nodup_toList _⟩
  rw [Std.ExtTreeMap.mem_toList_iff_getElem?_eq_some, Std.ExtTreeMap.getElem?_erase_self] at hmem
  cases hmem

/-- **An entry of the map and the entries without it.** -/
theorem perm_toList_of_getElem? (h : m[k]? = some v) :
    m.toList.Perm ((k, v) :: (m.erase k).toList) := by
  refine perm_of_mem_iff nodup_cons_erase fun k' v' => ?_
  rw [List.mem_cons, Std.ExtTreeMap.mem_toList_iff_getElem?_eq_some,
    Std.ExtTreeMap.getElem?_erase]
  by_cases hk : k = k'
  · subst hk
    simp [h, eq_comm]
  · simp [hk, Ne.symm hk]

/-- **The entries after an insertion.** -/
theorem perm_toList_insert (m : Std.ExtTreeMap α β cmp) (k : α) (v : β) :
    (m.insert k v).toList.Perm ((k, v) :: (m.erase k).toList) := by
  refine perm_of_mem_iff nodup_cons_erase fun k' v' => ?_
  rw [List.mem_cons, Std.ExtTreeMap.mem_toList_iff_getElem?_eq_some,
    Std.ExtTreeMap.getElem?_erase, Std.ExtTreeMap.getElem?_insert]
  by_cases hk : k = k'
  · subst hk
    simp [Std.ReflCmp.compare_self, eq_comm (a := v)]
  · simp [hk, Ne.symm hk]

/-- Lists made from the entries, with the entry of a key apart. -/
theorem perm_flatMap_of_getElem? {γ : Type*} (f : α × β → List γ) (h : m[k]? = some v) :
    (m.toList.flatMap f).Perm (f (k, v) ++ (m.erase k).toList.flatMap f) :=
  (perm_toList_of_getElem? h).flatMap_right f

/-- Lists made from the entries after an insertion. -/
theorem perm_flatMap_insert {γ : Type*} (f : α × β → List γ) (m : Std.ExtTreeMap α β cmp) (k : α)
    (v : β) : ((m.insert k v).toList.flatMap f).Perm (f (k, v) ++ (m.erase k).toList.flatMap f) :=
  (perm_toList_insert m k v).flatMap_right f

/-- Lists made from the entries after an entry is replaced: what comes out and what goes
in. -/
theorem perm_flatMap_replace {γ : Type*} (f : α × β → List γ) (h : m[k]? = some v) (v' : β) :
    ((m.insert k v').toList.flatMap f ++ f (k, v)).Perm (m.toList.flatMap f ++ f (k, v')) := by
  have hbefore := perm_flatMap_of_getElem? f h
  have hafter := perm_flatMap_insert f m k v'
  classical
  refine List.perm_iff_count.mpr fun x => ?_
  have hb := hbefore.count_eq x
  have ha := hafter.count_eq x
  simp only [List.count_append] at hb ha ⊢
  omega

/-- Erasing a key that is not there. -/
theorem erase_of_getElem?_eq_none (h : m[k]? = none) : m.erase k = m := by
  refine Std.ExtTreeMap.ext_getElem? fun k' => ?_
  rw [Std.ExtTreeMap.getElem?_erase]
  split
  · next hk =>
    rw [← Std.LawfulEqCmp.eq_of_compare hk, h]
  · rfl

/-- Lists made from the entries after a new entry. -/
theorem perm_flatMap_insert_new {γ : Type*} (f : α × β → List γ) (h : m[k]? = none) (v : β) :
    ((m.insert k v).toList.flatMap f).Perm (m.toList.flatMap f ++ f (k, v)) := by
  have hafter := perm_flatMap_insert f m k v
  rw [erase_of_getElem?_eq_none h] at hafter
  exact hafter.trans List.perm_append_comm

/-- Erasing the first entry. -/
theorem toList_erase_of_head? (h : m.toList.head? = some (k, v)) :
    (m.erase k).toList = m.toList.tail := by
  obtain ⟨rest, hrest⟩ := List.head?_eq_some_iff.mp h
  have hget : m[k]? = some v :=
    Std.ExtTreeMap.mem_toList_iff_getElem?_eq_some.mp (List.mem_of_head? h)
  have hperm := perm_toList_of_getElem? hget
  have hsorted : m.toList.Pairwise fun a b => cmp a.1 b.1 = .lt :=
    Std.ExtTreeMap.ordered_keys_toList
  rw [hrest] at hperm hsorted
  rw [hrest, List.tail_cons]
  refine (List.Perm.cons_inv hperm).symm.eq_of_pairwise (fun a b _ _ hab hba => ?_)
    Std.ExtTreeMap.ordered_keys_toList (List.pairwise_cons.mp hsorted).2
  have hloop := Std.TransCmp.lt_trans hab hba
  rw [(Std.ReflCmp.compare_self : cmp a.1 a.1 = .eq)] at hloop
  cases hloop

/-! ### Sums over the entries -/

/-- A number for each entry, added up. -/
def sumOf (g : α × β → ℕ) (m : Std.ExtTreeMap α β cmp) : ℕ := (m.toList.map g).sum

variable (g : α × β → ℕ)

/-- The sum, with the entry of a key apart. -/
theorem sumOf_of_getElem? (h : m[k]? = some v) :
    sumOf g m = g (k, v) + sumOf g (m.erase k) := by
  rw [sumOf, ((perm_toList_of_getElem? h).map g).sum_eq, List.map_cons, List.sum_cons, sumOf]

/-- The sum after an insertion. -/
theorem sumOf_insert (m : Std.ExtTreeMap α β cmp) (k : α) (v : β) :
    sumOf g (m.insert k v) = g (k, v) + sumOf g (m.erase k) := by
  rw [sumOf, ((perm_toList_insert m k v).map g).sum_eq, List.map_cons, List.sum_cons, sumOf]

/-- The sum without the entry of a key. -/
theorem sumOf_erase_add (m : Std.ExtTreeMap α β cmp) (k : α) :
    sumOf g (m.erase k) + (m[k]?.map fun v => g (k, v)).getD 0 = sumOf g m := by
  cases h : m[k]? with
  | none => rw [erase_of_getElem?_eq_none h, Option.map_none, Option.getD_none, Nat.add_zero]
  | some v => rw [sumOf_of_getElem? g h, Option.map_some, Option.getD_some, Nat.add_comm]

theorem sumOf_eq_zero_iff :
    sumOf g m = 0 ↔ ∀ k v, m[k]? = some v → g (k, v) = 0 := by
  simp only [sumOf, List.sum_eq_zero_iff, List.forall_mem_map, Prod.forall,
    Std.ExtTreeMap.mem_toList_iff_getElem?_eq_some]

omit [Std.LawfulEqCmp cmp] in
/-- A set of size `0`. -/
theorem size_eq_zero_iff {t : Std.ExtTreeSet α cmp} : t.size = 0 ↔ t = ∅ := by
  rw [← Std.ExtTreeSet.isEmpty_iff, Std.ExtTreeSet.isEmpty_eq_size_beq_zero, beq_iff_eq]

end OrderedMap
