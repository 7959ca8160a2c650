import ChronoLog.Lib.Greatest

/-!
# Gathering from several parties

Each of several parties holds a part of a set and names the greatest elements of its part; a
second question fetches the greatest ones of all that were named.  What was named has the
greatest elements of the whole set, and a fetch that brings no fewer than it asked for has
brought these.

## Main results

* `Greatest.Keeps.family` — what the lists of a family hold together.
* `Greatest.IsLast.eq_of_subset` — some of the greatest elements, and no fewer, are all of them.
* `Gather.getElem?_foldl_insert`, `Gather.mem_foldl_insert` — entries inserted one after another.
* `Gather.mem_foldl_group` — elements grouped under their keys.
-/

namespace Greatest

variable {α : Type*} [Ord α] {n : ℕ} {P : α → Prop} {l l' : List α}

/-- **What the lists of a family hold together.** -/
theorem Keeps.family {ι : Type*} {S : ι → Prop} {R : ι → α → Prop} {f : ι → List α} {u : List α}
    (h : ∀ i, S i → Keeps n (R i) (f i)) (hnodup : ∀ i, S i → (f i).Nodup)
    (hu : ∀ x, x ∈ u ↔ ∃ i, S i ∧ x ∈ f i) : Keeps n (fun x => ∃ i, S i ∧ R i x) u := by
  refine ⟨fun x hx => ?_, ?_⟩
  · obtain ⟨i, hi, hmem⟩ := (hu x).mp hx
    exact ⟨i, hi, (h i hi).mem x hmem⟩
  · rintro x ⟨i, hi, hx⟩ hnot
    have habove := (h i hi).above x hx fun hmem => hnot ((hu x).mpr ⟨i, hi, hmem⟩)
    have hsub : f i ⊆ u := fun y hy => (hu y).mpr ⟨i, hi, hy⟩
    exact habove.trans (((hnodup i hi).subperm hsub).countP_le _)

/-- Some of the greatest elements, and no fewer, are all of them. -/
theorem IsLast.eq_of_subset [Std.TransOrd α] (h : IsLast n P l)
    (hsorted : l'.Pairwise fun a b => compare a b = .lt) (hsub : l' ⊆ l)
    (hle : l.length ≤ l'.length) : l' = l := by
  have hperm : l'.Perm l := ((nodup_of_sorted hsorted).subperm hsub).perm_of_length_le hle
  refine hperm.eq_of_pairwise (fun a b _ _ hab hba => ?_) hsorted h.sorted
  have hloop := Std.TransCmp.lt_trans hab hba
  rw [(Std.ReflCmp.compare_self : compare a a = .eq)] at hloop
  cases hloop

end Greatest

namespace Gather

variable {α β γ : Type*} {cmp : α → α → Ordering} [Std.TransCmp cmp] [Std.LawfulEqCmp cmp]
  {m : Std.ExtTreeMap α β cmp} {k : α} {v : β}

/-- A loop with two accumulators is two loops. -/
theorem foldl_pair {σ τ : Type*} (f : σ → γ → σ) (g : τ → γ → τ) (l : List γ) (s : σ) (t : τ) :
    l.foldl (fun acc c => (f acc.1 c, g acc.2 c)) (s, t) = (l.foldl f s, l.foldl g t) := by
  induction l generalizing s t with
  | nil => rfl
  | cons c l ih => exact ih (f s c) (g t c)

/-- **What entries inserted one after another leave**: one of them, or what was there. -/
theorem getElem?_foldl_insert (key : γ → α) (val : γ → β) (l : List γ)
    (h : (l.foldl (fun m c => m.insert (key c) (val c)) m)[k]? = some v) :
    m[k]? = some v ∨ ∃ c ∈ l, key c = k ∧ val c = v := by
  induction l generalizing m with
  | nil => exact Or.inl h
  | cons c l ih =>
    rcases ih h with hget | ⟨c', hc', hkey, hval⟩
    · rw [Std.ExtTreeMap.getElem?_insert] at hget
      split at hget
      · next heq =>
        exact Or.inr ⟨c, List.mem_cons_self, Std.LawfulEqCmp.eq_of_compare heq,
          Option.some.inj hget⟩
      · exact Or.inl hget
    · exact Or.inr ⟨c', List.mem_cons_of_mem _ hc', hkey, hval⟩

/-- The keys after entries are inserted one after another. -/
theorem mem_foldl_insert (key : γ → α) (val : γ → β) (l : List γ) :
    k ∈ l.foldl (fun m c => m.insert (key c) (val c)) m ↔ k ∈ m ∨ ∃ c ∈ l, key c = k := by
  induction l generalizing m with
  | nil => simp
  | cons c l ih =>
    rw [List.foldl_cons, ih, Std.ExtTreeMap.mem_insert, Std.LawfulEqCmp.compare_eq_iff_eq,
      List.exists_mem_cons_iff]
    tauto

/-- **Elements grouped under their keys.** -/
theorem mem_foldl_group (l : List (β × α)) {m : Std.ExtTreeMap α (List β) cmp} {x : β} :
    x ∈ (l.foldl (fun m c => m.insert c.2 (m[c.2]?.getD [] ++ [c.1])) m)[k]?.getD [] ↔
      x ∈ m[k]?.getD [] ∨ (x, k) ∈ l := by
  induction l generalizing m with
  | nil => simp
  | cons c l ih =>
    obtain ⟨y, k'⟩ := c
    rw [List.foldl_cons, ih, Std.ExtTreeMap.getElem?_insert, List.mem_cons, Prod.mk.injEq]
    split
    · next heq =>
      obtain rfl := Std.LawfulEqCmp.eq_of_compare heq
      rw [Option.getD_some, List.mem_append, List.mem_singleton]
      tauto
    · next hne =>
      have hkeys : k ≠ k' := by
        rintro rfl
        exact hne Std.ReflCmp.compare_self
      tauto

omit [Std.LawfulEqCmp cmp] in
/-- No group is empty. -/
theorem ne_nil_of_foldl_group (l : List (β × α)) {vs : List β}
    (h : (l.foldl (fun m c => m.insert c.2 (m[c.2]?.getD [] ++ [c.1]))
      (∅ : Std.ExtTreeMap α (List β) cmp))[k]? = some vs) : vs ≠ [] := by
  have hall : ∀ (k : α) (vs : List β), (l.foldl (fun m c => m.insert c.2 (m[c.2]?.getD [] ++ [c.1]))
      (∅ : Std.ExtTreeMap α (List β) cmp))[k]? = some vs → vs ≠ [] := by
    refine List.foldlRecOn (motive := fun m : Std.ExtTreeMap α (List β) cmp =>
      ∀ (k : α) (vs : List β), m[k]? = some vs → vs ≠ []) l _ ?_ ?_
    · intro k vs hget
      simp at hget
    · intro m hm c _ k vs hget
      rw [Std.ExtTreeMap.getElem?_insert] at hget
      split at hget
      · rw [← Option.some.inj hget]
        exact List.append_ne_nil_of_right_ne_nil _ (List.cons_ne_nil _ _)
      · exact hm k vs hget
  exact hall k vs h

end Gather
