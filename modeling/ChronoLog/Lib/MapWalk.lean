import Mathlib

/-!
# Walking an ordered map while changing it

A loop steps through the entries of an ordered map from a lower bound on, as long as a test
of the key holds, and changes or erases the entry it stands at before it steps on.  When
the keys that pass the test stand together behind the bound, the loop does to each of them
what one pass over the map would do.

## Main definitions

* `MapWalk.lowerBound`, `MapWalk.next` — positions in the map.
* `MapWalk.walk` — the loop.

## Main results

* `MapWalk.walk_lowerBound` — the loop is one pass over the entries that pass the test.
-/

namespace MapWalk

variable {α β : Type*} {cmp : α → α → Ordering} [Std.TransCmp cmp] [Std.LawfulEqCmp cmp]

/-- The first key of the map that passes a test. -/
def firstKey (m : Std.ExtTreeMap α β cmp) (p : α → Bool) : Option α := m.keys.find? p

/-- `lower_bound`. -/
def lowerBound (m : Std.ExtTreeMap α β cmp) (t : α) : Option α := firstKey m fun k => (cmp t k).isLE

/-- The key after the position `k`, which may be erased. -/
def next (m : Std.ExtTreeMap α β cmp) (k : α) : Option α := firstKey m fun k' => cmp k k' = .lt

/-- The loop from a position on, for at most `fuel` entries. -/
def walk (inside : α → Bool) (visit : β → Option β) :
    ℕ → Std.ExtTreeMap α β cmp → Option α → Std.ExtTreeMap α β cmp
  | 0, m, _ => m
  | _ + 1, m, none => m
  | fuel + 1, m, some k =>
    if inside k then
      let m' := m.alter k fun entry => entry.bind visit
      walk inside visit fuel m' (next m' k)
    else m

variable {m : Std.ExtTreeMap α β cmp} {k k' : α} {p : α → Bool}

theorem mem_of_firstKey (h : firstKey m p = some k) : k ∈ m ∧ p k = true :=
  ⟨Std.ExtTreeMap.mem_keys.mp (List.mem_of_find?_eq_some h), List.find?_some h⟩

theorem firstKey_eq_none_iff : firstKey m p = none ↔ ∀ k ∈ m, p k = false := by
  simp only [firstKey, List.find?_eq_none, Std.ExtTreeMap.mem_keys, Bool.not_eq_true]

/-- No key that passes the test stands before the first one. -/
theorem not_lt_firstKey (h : firstKey m p = some k) (hk' : k' ∈ m) (hp : p k' = true) :
    cmp k' k ≠ .lt := by
  intro hlt
  obtain ⟨-, before, after, hkeys, hbefore⟩ := List.find?_eq_some_iff_append.mp h
  have hsorted : m.keys.Pairwise fun a b => cmp a b = .lt := Std.ExtTreeMap.ordered_keys
  rw [hkeys] at hsorted
  have hmem : k' ∈ before ++ k :: after := by
    rw [← hkeys]
    exact Std.ExtTreeMap.mem_keys.mpr hk'
  rcases List.mem_append.mp hmem with hin | hin
  · simpa [hp] using hbefore k' hin
  · have hloop : ∀ a b, cmp a b = .lt → cmp b a = .lt → False := by
      intro a b hab hba
      have haa := Std.TransCmp.lt_trans hab hba
      rw [(Std.ReflCmp.compare_self : cmp a a = .eq)] at haa
      cases haa
    rcases List.mem_cons.mp hin with rfl | hin
    · exact hloop k' k' hlt hlt
    · exact hloop k' k hlt ((List.pairwise_cons.mp (List.pairwise_append.mp hsorted).2.1).1 k' hin)

/-- The entries that are ahead of the loop. -/
def ahead (m : Std.ExtTreeMap α β cmp) (p : α → Bool) : List α := m.keys.filter p

theorem mem_ahead : k ∈ ahead m p ↔ k ∈ m ∧ p k = true := by
  rw [ahead, List.mem_filter, Std.ExtTreeMap.mem_keys]

theorem nodup_ahead (m : Std.ExtTreeMap α β cmp) (p : α → Bool) : (ahead m p).Nodup := by
  refine List.Nodup.filter _ (m.distinct_keys.imp ?_)
  rintro a b hne rfl
  exact hne Std.ReflCmp.compare_self

variable {visit : β → Option β}

theorem getElem?_alter_bind (m : Std.ExtTreeMap α β cmp) (k k' : α) :
    (m.alter k fun entry => entry.bind visit)[k']? =
      if cmp k k' = .eq then m[k']?.bind visit else m[k']? := by
  rw [Std.ExtTreeMap.getElem?_alter]
  split
  · next h => rw [Std.LawfulEqCmp.eq_of_compare h]
  · rfl

theorem mem_of_mem_alter (h : k' ∈ m.alter k fun entry => entry.bind visit) : k' ∈ m := by
  rw [Std.ExtTreeMap.mem_iff_isSome_getElem?, getElem?_alter_bind] at h
  rw [Std.ExtTreeMap.mem_iff_isSome_getElem?]
  cases hm : m[k']? with
  | some v => rfl
  | none =>
    rw [hm] at h
    split at h <;> exact h

/-- Past the position of the loop there are fewer entries ahead. -/
theorem length_ahead_lt (h : firstKey m p = some k) (hup : ∀ k', cmp k k' = .lt → p k' = true) :
    (ahead (m.alter k fun entry => entry.bind visit) fun k' => cmp k k' = .lt).length <
      (ahead m p).length := by
  obtain ⟨hmem, hp⟩ := mem_of_firstKey h
  have hnodup : (k :: ahead (m.alter k fun entry => entry.bind visit) fun k' =>
      cmp k k' = .lt).Nodup := by
    refine List.nodup_cons.mpr ⟨fun hk => ?_, nodup_ahead _ _⟩
    have hself := (mem_ahead.mp hk).2
    rw [(Std.ReflCmp.compare_self : cmp k k = .eq)] at hself
    simp at hself
  refine (List.subperm_of_subset hnodup fun k' hk' => ?_).length_le
  rcases List.mem_cons.mp hk' with rfl | hk'
  · exact mem_ahead.mpr ⟨hmem, hp⟩
  · obtain ⟨hin, hlt⟩ := mem_ahead.mp hk'
    exact mem_ahead.mpr ⟨mem_of_mem_alter hin, hup k' (by simpa using hlt)⟩

/-- What the loop leaves under a key, from the first entry that is ahead on. -/
theorem getElem?_walk {inside : α → Bool} (fuel : ℕ) (m : Std.ExtTreeMap α β cmp) (p : α → Bool)
    (hup : ∀ k k', p k = true → cmp k k' = .lt → p k' = true)
    (hconvex : ∀ k k', p k = true → cmp k k' = .lt → inside k' = true → inside k = true)
    (hfuel : (ahead m p).length ≤ fuel) (k : α) :
    (walk inside visit fuel m (firstKey m p))[k]? =
      if p k = true ∧ inside k = true then m[k]?.bind visit else m[k]? := by
  have hmissing : k ∉ m → m[k]? = if p k = true ∧ inside k = true then m[k]?.bind visit
      else m[k]? := by
    intro hk
    rw [Std.ExtTreeMap.getElem?_eq_none hk]
    split <;> rfl
  induction fuel generalizing m p with
  | zero =>
    rw [walk]
    by_cases hk : k ∈ m ∧ p k = true
    · have hmem := List.length_pos_of_mem (mem_ahead.mpr hk)
      omega
    · by_cases hp : p k = true
      · exact hmissing fun hm => hk ⟨hm, hp⟩
      · rw [if_neg fun h => hp h.1]
  | succ fuel ih =>
    cases hfirst : firstKey m p with
    | none =>
      rw [walk]
      by_cases hk : k ∈ m
      · rw [if_neg]
        rw [firstKey_eq_none_iff.mp hfirst k hk]
        simp
      · exact hmissing hk
    | some first =>
      obtain ⟨hmem, hp⟩ := mem_of_firstKey hfirst
      have hbefore := fun h hp => @not_lt_firstKey _ _ _ _ _ _ _ k _ hfirst h hp
      rw [walk]
      split
      · next hinside =>
        have hless := @length_ahead_lt _ _ _ _ _ _ _ _ visit hfirst fun k' => hup first k' hp
        have hrest := ih (m.alter first fun entry => entry.bind visit)
          (fun k' => cmp first k' = .lt)
          (fun a b ha hab => by
            simp only [decide_eq_true_eq] at *
            exact Std.TransCmp.lt_trans ha hab)
          (fun a b ha hab hb => hconvex a b (hup first a hp (by simpa using ha)) hab hb)
          (by omega)
          (fun hk => by rw [Std.ExtTreeMap.getElem?_eq_none hk]; split <;> rfl)
        simp only [next]
        rw [hrest, getElem?_alter_bind]
        cases hcmp : cmp first k with
        | lt => simp [hup first k hp hcmp]
        | eq =>
          obtain rfl := Std.LawfulEqCmp.eq_of_compare hcmp
          simp [hp, hinside]
        | gt =>
          -- the entries before the first one are not ahead
          simp only [reduceCtorEq, decide_false, Bool.false_eq_true, false_and, if_false]
          by_cases hk : k ∈ m
          · have hlt : cmp k first = .lt := Std.OrientedCmp.gt_iff_lt.mp hcmp
            rw [if_neg fun h => hbefore hk h.1 hlt]
          · exact hmissing hk
      · next houtside =>
        by_cases hk : k ∈ m
        · rw [if_neg]
          rintro ⟨hpk, hin⟩
          cases hcmp : cmp first k with
          | lt => exact houtside (hconvex first k hp hcmp hin)
          | eq =>
            obtain rfl := Std.LawfulEqCmp.eq_of_compare hcmp
            exact houtside hin
          | gt => exact hbefore hk hpk (Std.OrientedCmp.gt_iff_lt.mp hcmp)
        · exact hmissing hk

/-- **The loop is one pass over the entries that pass the test**, where these stand together
from the lower bound on. -/
theorem walk_lowerBound {inside : α → Bool} (m : Std.ExtTreeMap α β cmp) {t : α}
    (hbound : ∀ k, inside k = true → (cmp t k).isLE = true)
    (hconvex : ∀ k k', (cmp t k).isLE = true → cmp k k' = .lt → inside k' = true →
      inside k = true) (visit : β → Option β) :
    walk inside visit m.size m (lowerBound m t) =
      m.filterMap fun k v => if inside k then visit v else some v := by
  refine Std.ExtTreeMap.ext_getElem? fun k => ?_
  have hfuel : (ahead m fun k => (cmp t k).isLE).length ≤ m.size := by
    rw [ahead, ← Std.ExtTreeMap.length_keys]
    exact List.length_filter_le _ _
  rw [lowerBound, getElem?_walk m.size m _ (fun a b ha hab => ?_) hconvex hfuel,
    Std.ExtTreeMap.getElem?_filterMap']
  · by_cases hin : inside k = true
    · simp [hin, hbound k hin]
    · simp [hin]
  · exact Std.TransCmp.isLE_trans ha (by rw [hab]; rfl)

end MapWalk
