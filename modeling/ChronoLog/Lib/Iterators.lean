import ChronoLog.Lib.OrdMap

/-!
# Iterators of a map with numeric keys

An iterator is the key of its entry, `none` behind the last one.  The searches
and the steps to the neighbouring entries are described by the keys alone.

## Main definitions

* `firstKey`, `lastKey` — the first and the last entry.
* `lowerBound`, `upperBound` — the first entry not below a number, and above it.
* `next`, `prev` — the entries after and before an iterator.

## Main results

* `lowerBound_eq_some_iff`, `upperBound_eq_some_iff`, `prev_some_eq_some_iff` — the entry
  found.
* `firstKey_eq_some_iff`, `lastKey_eq_some_iff` — the first and the last entry.
* `toList_insert_last`, `toList_erase_first` — the entries, in order, after a new
  last one and without the first.
* `two_le_size_iff` — a map with two entries.
-/

namespace OrderedMap

variable {β : Type*}

/-- A map with numeric keys. -/
abbrev NatMap (β : Type*) := Std.ExtTreeMap ℕ β compare

/-- `begin`. -/
def firstKey (m : NatMap β) : Option ℕ := m.keys.head?

/-- `--` on `end`. -/
def lastKey (m : NatMap β) : Option ℕ := m.keys.reverse.head?

/-- `lower_bound`: the first entry whose key is not below `t`. -/
def lowerBound (m : NatMap β) (t : ℕ) : Option ℕ := m.keys.find? fun k => t ≤ k

/-- `upper_bound`: the first entry whose key is above `t`. -/
def upperBound (m : NatMap β) (t : ℕ) : Option ℕ := m.keys.find? fun k => t < k

/-- `++` on the iterator at `k`. -/
def next (m : NatMap β) (k : ℕ) : Option ℕ := upperBound m k

/-- `--` on an iterator. -/
def prev (m : NatMap β) : Option ℕ → Option ℕ
  | none => lastKey m
  | some k => m.keys.reverse.find? fun k' => k' < k

variable {m : NatMap β} {k t : ℕ} {v : β}

theorem pairwise_keys (m : NatMap β) : m.keys.Pairwise (· < ·) :=
  Std.ExtTreeMap.ordered_keys.imp fun h => Nat.compare_eq_lt.mp h

/-- The first member of an ordered list that passes a test. -/
theorem find?_eq_some_iff_of_pairwise {l : List ℕ} (hl : l.Pairwise (· < ·)) (p : ℕ → Bool) :
    l.find? p = some k ↔ k ∈ l ∧ p k = true ∧ ∀ k' ∈ l, p k' = true → k ≤ k' := by
  induction l with
  | nil => simp
  | cons a l ih =>
    obtain ⟨ha, hl⟩ := List.pairwise_cons.mp hl
    rw [List.find?_cons]
    cases hp : p a with
    | true =>
      simp only [Option.some.injEq]
      constructor
      · rintro rfl
        refine ⟨List.mem_cons_self, hp, fun k' hk' _ => ?_⟩
        rcases List.mem_cons.mp hk' with rfl | hk'
        · exact Nat.le_refl _
        · exact (ha k' hk').le
      · rintro ⟨hk, -, hmin⟩
        rcases List.mem_cons.mp hk with rfl | hk
        · rfl
        · have hlt := ha k hk
          have hle := hmin a List.mem_cons_self hp
          omega
    | false =>
      rw [ih hl]
      constructor
      · rintro ⟨hk, hpk, hmin⟩
        refine ⟨List.mem_cons_of_mem a hk, hpk, fun k' hk' hpk' => ?_⟩
        rcases List.mem_cons.mp hk' with rfl | hk'
        · rw [hp] at hpk'
          cases hpk'
        · exact hmin k' hk' hpk'
      · rintro ⟨hk, hpk, hmin⟩
        rcases List.mem_cons.mp hk with rfl | hk
        · rw [hp] at hpk
          cases hpk
        · exact ⟨hk, hpk, fun k' hk' => hmin k' (List.mem_cons_of_mem a hk')⟩

/-- The last member of an ordered list that passes a test. -/
theorem find?_reverse_eq_some_iff_of_pairwise {l : List ℕ} (hl : l.Pairwise (· < ·))
    (p : ℕ → Bool) :
    l.reverse.find? p = some k ↔ k ∈ l ∧ p k = true ∧ ∀ k' ∈ l, p k' = true → k' ≤ k := by
  induction l with
  | nil => simp
  | cons a l ih =>
    obtain ⟨ha, hl⟩ := List.pairwise_cons.mp hl
    rw [List.reverse_cons, List.find?_append, Option.or_eq_some_iff, ih hl]
    constructor
    · rintro (⟨hk, hpk, hmax⟩ | ⟨hnone, hfound⟩)
      · refine ⟨List.mem_cons_of_mem a hk, hpk, fun k' hk' hpk' => ?_⟩
        rcases List.mem_cons.mp hk' with rfl | hk'
        · exact (ha k hk).le
        · exact hmax k' hk' hpk'
      · rw [List.find?_singleton] at hfound
        split at hfound
        · next hpa =>
          cases hfound
          refine ⟨List.mem_cons_self, hpa, fun k' hk' hpk' => ?_⟩
          rcases List.mem_cons.mp hk' with rfl | hk'
          · exact Nat.le_refl _
          · rw [List.find?_eq_none] at hnone
            exact absurd hpk' (hnone k' (List.mem_reverse.mpr hk'))
        · cases hfound
    · rintro ⟨hk, hpk, hmax⟩
      rcases List.mem_cons.mp hk with rfl | hk
      · refine Or.inr ⟨?_, by simp [hpk]⟩
        rw [List.find?_eq_none]
        intro k' hk' hpk'
        have hmem := List.mem_reverse.mp hk'
        have hlt := ha k' hmem
        have hle := hmax k' (List.mem_cons_of_mem k hmem) hpk'
        omega
      · exact Or.inl ⟨hk, hpk, fun k' hk' => hmax k' (List.mem_cons_of_mem a hk')⟩

theorem lowerBound_eq_some_iff :
    lowerBound m t = some k ↔ k ∈ m ∧ t ≤ k ∧ ∀ k' ∈ m, t ≤ k' → k ≤ k' := by
  unfold lowerBound
  rw [find?_eq_some_iff_of_pairwise (pairwise_keys m)]
  simp only [Std.ExtTreeMap.mem_keys, decide_eq_true_eq]

theorem lowerBound_eq_none_iff : lowerBound m t = none ↔ ∀ k ∈ m, k < t := by
  simp only [lowerBound, List.find?_eq_none, Std.ExtTreeMap.mem_keys, decide_eq_true_eq, not_le]

theorem upperBound_eq_some_iff :
    upperBound m t = some k ↔ k ∈ m ∧ t < k ∧ ∀ k' ∈ m, t < k' → k ≤ k' := by
  unfold upperBound
  rw [find?_eq_some_iff_of_pairwise (pairwise_keys m)]
  simp only [Std.ExtTreeMap.mem_keys, decide_eq_true_eq]

theorem upperBound_eq_none_iff : upperBound m t = none ↔ ∀ k ∈ m, k ≤ t := by
  simp only [upperBound, List.find?_eq_none, Std.ExtTreeMap.mem_keys, decide_eq_true_eq, not_lt]

theorem head?_eq_find? {α : Type*} (l : List α) : l.head? = l.find? fun _ => true := by
  cases l <;> rfl

theorem firstKey_eq_some_iff : firstKey m = some k ↔ k ∈ m ∧ ∀ k' ∈ m, k ≤ k' := by
  unfold firstKey
  rw [head?_eq_find?, find?_eq_some_iff_of_pairwise (pairwise_keys m)]
  simp only [Std.ExtTreeMap.mem_keys, true_and, forall_true_left]

theorem lastKey_eq_some_iff : lastKey m = some k ↔ k ∈ m ∧ ∀ k' ∈ m, k' ≤ k := by
  unfold lastKey
  rw [head?_eq_find?, find?_reverse_eq_some_iff_of_pairwise (pairwise_keys m)]
  simp only [Std.ExtTreeMap.mem_keys, true_and, forall_true_left]

/-- The keys alone decide which is the first. -/
theorem firstKey_congr {m' : NatMap β} (h : ∀ k, k ∈ m' ↔ k ∈ m) : firstKey m' = firstKey m :=
  Option.ext fun k => by simp only [firstKey_eq_some_iff, h]

theorem lastKey_congr {m' : NatMap β} (h : ∀ k, k ∈ m' ↔ k ∈ m) : lastKey m' = lastKey m :=
  Option.ext fun k => by simp only [lastKey_eq_some_iff, h]

/-- A map with an entry has a first and a last one. -/
theorem exists_firstKey (hk : k ∈ m) : ∃ first, firstKey m = some first := by
  rw [← Std.ExtTreeMap.mem_keys] at hk
  unfold firstKey
  cases hkeys : m.keys with
  | nil =>
    rw [hkeys] at hk
    cases hk
  | cons a l => exact ⟨a, rfl⟩

theorem exists_lastKey (hk : k ∈ m) : ∃ last, lastKey m = some last := by
  rw [← Std.ExtTreeMap.mem_keys, ← List.mem_reverse] at hk
  unfold lastKey
  cases hkeys : m.keys.reverse with
  | nil =>
    rw [hkeys] at hk
    cases hk
  | cons a l => exact ⟨a, rfl⟩

theorem prev_some_eq_some_iff {k' : ℕ} :
    prev m (some k') = some k ↔ k ∈ m ∧ k < k' ∧ ∀ j ∈ m, j < k' → j ≤ k := by
  unfold prev
  rw [find?_reverse_eq_some_iff_of_pairwise (pairwise_keys m)]
  simp only [Std.ExtTreeMap.mem_keys, decide_eq_true_eq]

/-- The entry before the first one above `t` is the last one not above it. -/
theorem prev_upperBound (hk : k ∈ m) (hkt : k ≤ t) (hmax : ∀ k' ∈ m, k' ≤ t → k' ≤ k) :
    upperBound m t ≠ firstKey m ∧ prev m (upperBound m t) = some k := by
  obtain ⟨first, hfirst⟩ := exists_firstKey hk
  have hmin := (firstKey_eq_some_iff.mp hfirst).2 k hk
  rw [hfirst]
  cases hupper : upperBound m t with
  | none =>
    have hall := upperBound_eq_none_iff.mp hupper
    exact ⟨by simp, lastKey_eq_some_iff.mpr ⟨hk, fun k' hk' => hmax k' hk' (hall k' hk')⟩⟩
  | some above =>
    obtain ⟨habove, hlt, hleast⟩ := upperBound_eq_some_iff.mp hupper
    refine ⟨fun heq => ?_, prev_some_eq_some_iff.mpr ⟨hk, by omega, fun k' hk' hbelow => ?_⟩⟩
    · rw [Option.some.injEq] at heq
      omega
    · refine hmax k' hk' ?_
      by_contra hge
      exact absurd (hleast k' hk' (not_le.mp hge)) (not_le.mpr hbelow)

/-- The entries of the map are the members of an ordered list of entries. -/
theorem toList_eq_of_perm {l : List (ℕ × β)} (hperm : m.toList.Perm l)
    (hl : l.Pairwise fun a b => a.1 < b.1) : m.toList = l := by
  have hm : m.toList.Pairwise fun a b => a.1 < b.1 :=
    Std.ExtTreeMap.ordered_keys_toList.imp fun h => Nat.compare_eq_lt.mp h
  refine hperm.eq_of_pairwise (fun a b _ _ hab hba => ?_) hm hl
  omega

theorem toList_insert_last (h : ∀ k' ∈ m, k' < k) :
    (m.insert k v).toList = m.toList ++ [(k, v)] := by
  have hnone : m[k]? = none :=
    Std.ExtTreeMap.getElem?_eq_none fun hk => absurd (h k hk) (Nat.lt_irrefl k)
  have hperm := perm_toList_insert m k v
  rw [erase_of_getElem?_eq_none hnone] at hperm
  refine toList_eq_of_perm (hperm.trans (List.perm_append_singleton (k, v) m.toList).symm) ?_
  refine List.pairwise_append.mpr ⟨?_, List.pairwise_singleton _ _, ?_⟩
  · exact Std.ExtTreeMap.ordered_keys_toList.imp fun h => Nat.compare_eq_lt.mp h
  · intro a ha b hb
    rw [List.mem_singleton.mp hb]
    exact h a.1 (Std.ExtTreeMap.mem_iff_isSome_getElem?.mpr
      (by rw [Std.ExtTreeMap.mem_toList_iff_getElem?_eq_some.mp ha]; rfl))

theorem toList_erase_first (hk : m[k]? = some v) (h : ∀ k' ∈ m, k ≤ k') :
    m.toList = (k, v) :: (m.erase k).toList := by
  refine toList_eq_of_perm (perm_toList_of_getElem? hk) (List.pairwise_cons.mpr ⟨?_, ?_⟩)
  · intro a ha
    have hmem := Std.ExtTreeMap.mem_toList_iff_getElem?_eq_some.mp ha
    have hin : a.1 ∈ m.erase k := Std.ExtTreeMap.mem_iff_isSome_getElem?.mpr (by rw [hmem]; rfl)
    obtain ⟨hne, hin⟩ := Std.ExtTreeMap.mem_erase.mp hin
    have hle := h a.1 hin
    have hne : k ≠ a.1 := fun heq => hne (heq ▸ Std.ReflCmp.compare_self)
    change k < a.1
    omega
  · exact Std.ExtTreeMap.ordered_keys_toList.imp fun h => Nat.compare_eq_lt.mp h

theorem two_le_size_iff : 2 ≤ m.size ↔ ∃ k ∈ m, ∃ k' ∈ m, k < k' := by
  have hsorted := pairwise_keys m
  have hmem : ∀ k, k ∈ m ↔ k ∈ m.keys := fun k => Std.ExtTreeMap.mem_keys.symm
  simp only [hmem]
  rw [← Std.ExtTreeMap.length_keys]
  cases hkeys : m.keys with
  | nil => simp
  | cons a l =>
    rw [hkeys] at hsorted
    cases l with
    | nil => simp
    | cons b l =>
      simp only [List.length_cons, Nat.le_add_left, true_iff]
      have hab := (List.pairwise_cons.mp hsorted).1 b List.mem_cons_self
      exact ⟨a, List.mem_cons_self, b, List.mem_cons_of_mem a List.mem_cons_self, hab⟩

end OrderedMap
