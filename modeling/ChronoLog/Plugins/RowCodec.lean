import ChronoLog.Plugins.JsonC

/-!
# The payloads of SQL rows

A row goes into the story of its table as a JSON object with a string for each column that is
not null, and is read back as a map (`chronosql_row_codec.cpp`).  Names and values pass through
C strings on the way in and on the way out.

## Main definitions

* `emplaceAll` — a map from pairs, the first of a key.
* `encodeRow`, `decodeRow` — the payload of a row, and the row of a payload.

## Main results

* `getElem?_emplaceAll` — what a key has.
* `decodeRow_encodeRow` — **a row without a zero byte is read back.**
* `notMem_of_decodeRow` — no other row is.
-/

namespace ChronoLog.Plugins

open JsonText

/-- The values of a row by column. -/
abbrev RowValues := Std.ExtTreeMap Bytes Bytes

/-- A map that pairs are put into one after the other with `emplace`. -/
def emplaceAll (pairs : List (Bytes × Bytes)) : RowValues :=
  pairs.foldl (fun row kv => row.insertIfNew kv.1 kv.2) ∅

/-- `json_object_object_add`: a key that is there gets the new value. -/
def objectAdd (members : List (Bytes × Json)) (key : Bytes) (j : Json) : List (Bytes × Json) :=
  if members.any fun m => m.1 == key then
    members.map fun m => if m.1 = key then (key, j) else m
  else members ++ [(key, j)]

/-- The object of a row. -/
def rowMembers (pairs : List (Bytes × Bytes)) : List (Bytes × Json) :=
  pairs.foldl (fun members kv => objectAdd members (c_str kv.1) (newString kv.2)) []

def encodeRow (lib : JsonC) (row : RowValues) : Bytes := lib.print (.object (rowMembers row.toList))

/-- The text of a value: a string as it is, anything else as it is printed. -/
def valueText (lib : JsonC) : Json → Bytes
  | .string s => c_str s
  | j => lib.print j

/-- `decodeRow`; `none` where it throws. -/
def decodeRow (lib : JsonC) (payload : Bytes) : Option RowValues :=
  match lib.parse payload with
  | some (.object members) =>
    some (emplaceAll (members.map fun m => (c_str m.1, valueText lib m.2)))
  | _ => none

/-! ### Maps from pairs -/

/-- **What a key has**: the first value among the pairs. -/
theorem getElem?_emplaceAll (pairs : List (Bytes × Bytes)) (key : Bytes) :
    (emplaceAll pairs)[key]? = pairs.lookup key := by
  have hfold : ∀ row : RowValues,
      (pairs.foldl (fun row kv => row.insertIfNew kv.1 kv.2) row)[key]? =
      (row[key]?).or (pairs.lookup key) := by
    induction pairs with
    | nil =>
      intro row
      simp
    | cons kv pairs ih =>
      intro row
      obtain ⟨k, v⟩ := kv
      rw [List.foldl_cons, ih, Std.ExtTreeMap.getElem?_insertIfNew, List.lookup_cons]
      by_cases hkey : k = key
      · subst hkey
        by_cases hmem : k ∈ row
        · simp [hmem]
        · simp [hmem]
      · have hbeq : (key == k) = false := beq_eq_false_iff_ne.mpr (Ne.symm hkey)
        simp [hkey, hbeq]
  rw [emplaceAll, hfold]
  simp

theorem lookup_eq_some_iff_mem {l : List (Bytes × Bytes)} (h : (l.map Prod.fst).Nodup)
    {k v : Bytes} : l.lookup k = some v ↔ (k, v) ∈ l := by
  induction l with
  | nil => simp
  | cons kv l ih =>
    obtain ⟨k', v'⟩ := kv
    rw [List.map_cons, List.nodup_cons] at h
    rw [List.lookup_cons, List.mem_cons]
    by_cases hkey : k = k'
    · subst hkey
      have hnot : (k, v) ∉ l := by
        intro hmem
        have hkey : k ∈ l.map Prod.fst := List.mem_map_of_mem hmem
        exact h.1 hkey
      simp [hnot, eq_comm]
    · have hbeq : (k == k') = false := beq_eq_false_iff_ne.mpr hkey
      simp [hbeq, hkey, ih h.2]

theorem nodup_keys_toList (row : RowValues) : (row.toList.map Prod.fst).Nodup := by
  rw [List.Nodup, List.pairwise_map]
  refine row.distinct_keys_toList.imp ?_
  intro a b hne heq
  rw [heq] at hne
  exact hne Std.ReflCmp.compare_self

/-- A map is made again from its entries. -/
theorem emplaceAll_toList (row : RowValues) : emplaceAll row.toList = row := by
  apply Std.ExtTreeMap.ext_getElem?
  intro key
  apply Option.ext
  intro v
  rw [getElem?_emplaceAll, lookup_eq_some_iff_mem (nodup_keys_toList row),
    Std.ExtTreeMap.mem_toList_iff_getElem?_eq_some]

/-! ### Objects -/

/-- Members that are strings without a zero byte, as their keys are, which are different. -/
def Strings (members : List (Bytes × Json)) : Prop :=
  (members.map Prod.fst).Nodup ∧
    ∀ m ∈ members, 0 ∉ m.1 ∧ ∃ s : Bytes, 0 ∉ s ∧ m.2 = .string s

theorem any_key_iff {members : List (Bytes × Json)} {key : Bytes} :
    (members.any fun m => m.1 == key) = true ↔ key ∈ members.map Prod.fst := by
  simp only [List.any_eq_true, beq_iff_eq, List.mem_map]

theorem strings_objectAdd {members : List (Bytes × Json)} (h : Strings members) (k v : Bytes) :
    Strings (objectAdd members (c_str k) (newString v)) := by
  have hnew : 0 ∉ c_str k ∧ ∃ s : Bytes, 0 ∉ s ∧ newString v = .string s :=
    ⟨notMem_c_str k, c_str v, notMem_c_str v, rfl⟩
  unfold objectAdd
  split
  · refine ⟨?_, ?_⟩
    · -- the keys stay as they are
      have hkeys : (members.map fun m => if m.1 = c_str k then (c_str k, newString v) else m).map
          Prod.fst = members.map Prod.fst := by
        rw [List.map_map]
        refine List.map_congr_left fun m _ => ?_
        rw [Function.comp_apply]
        split
        · next heq => exact heq.symm
        · rfl
      rw [hkeys]
      exact h.1
    · intro m hm
      obtain ⟨m', hm', rfl⟩ := List.mem_map.mp hm
      split
      · exact hnew
      · exact h.2 m' hm'
  · next hnot =>
    refine ⟨?_, ?_⟩
    · rw [List.map_append, List.nodup_append]
      refine ⟨h.1, List.nodup_singleton _, ?_⟩
      rintro a ha b hb rfl
      rw [List.map_singleton, List.mem_singleton] at hb
      rw [hb] at ha
      exact hnot (any_key_iff.mpr ha)
    · intro m hm
      rcases List.mem_append.mp hm with hm | hm
      · exact h.2 m hm
      · rw [List.mem_singleton] at hm
        rw [hm]
        exact hnew

theorem strings_rowMembers (pairs : List (Bytes × Bytes)) : Strings (rowMembers pairs) := by
  have hfold : ∀ members, Strings members → Strings (pairs.foldl
      (fun members kv => objectAdd members (c_str kv.1) (newString kv.2)) members) := by
    induction pairs with
    | nil =>
      intro members h
      exact h
    | cons kv pairs ih =>
      intro members h
      exact ih _ (strings_objectAdd h kv.1 kv.2)
  exact hfold [] ⟨List.nodup_nil, nofun⟩

theorem Strings.plain {members : List (Bytes × Json)} (h : Strings members) :
    (Json.object members).Plain := by
  refine .object h.1 (fun m hm => (h.2 m hm).1) fun m hm => ?_
  obtain ⟨s, hs, heq⟩ := (h.2 m hm).2
  rw [heq]
  exact .string hs

/-- Pairs without a zero byte and with different keys are the members. -/
theorem rowMembers_of_notMem {pairs : List (Bytes × Bytes)} (hnodup : (pairs.map Prod.fst).Nodup)
    (h : ∀ kv ∈ pairs, 0 ∉ kv.1 ∧ 0 ∉ kv.2) :
    rowMembers pairs = pairs.map fun kv => (kv.1, .string kv.2) := by
  have hfold : ∀ members : List (Bytes × Json), (∀ kv ∈ pairs, kv.1 ∉ members.map Prod.fst) →
      pairs.foldl (fun members kv => objectAdd members (c_str kv.1) (newString kv.2)) members =
        members ++ pairs.map fun kv => (kv.1, .string kv.2) := by
    induction pairs with
    | nil =>
      intro members _
      simp
    | cons kv pairs ih =>
      intro members hnew
      rw [List.map_cons, List.nodup_cons] at hnodup
      obtain ⟨hk, hv⟩ := h kv List.mem_cons_self
      have hadd : objectAdd members (c_str kv.1) (newString kv.2) =
          members ++ [(kv.1, .string kv.2)] := by
        rw [objectAdd, newString, c_str_eq_self_iff.mpr hk, c_str_eq_self_iff.mpr hv,
          if_neg (any_key_iff.not.mpr (hnew kv List.mem_cons_self))]
      rw [List.foldl_cons, hadd, ih hnodup.2 (fun p hp => h p (List.mem_cons_of_mem _ hp))]
      · simp
      · intro p hp hmem
        rw [List.map_append, List.mem_append] at hmem
        rcases hmem with hmem | hmem
        · exact hnew p (List.mem_cons_of_mem _ hp) hmem
        · rw [List.map_singleton, List.mem_singleton] at hmem
          exact hnodup.1 (hmem ▸ List.mem_map_of_mem hp)
  have hmembers := hfold [] (fun _ _ => List.not_mem_nil)
  rwa [List.nil_append] at hmembers

/-! ### Rows -/

section

variable {lib : JsonC}

/-- The payload of a row is read back as its members. -/
theorem decodeRow_eq (hlib : lib.RoundTrips) (row : RowValues) :
    decodeRow lib (encodeRow lib row) = some (emplaceAll
      ((rowMembers row.toList).map fun m => (c_str m.1, valueText lib m.2))) := by
  rw [decodeRow, encodeRow, hlib _ (strings_rowMembers row.toList).plain]

/-- **A row without a zero byte is read back.** -/
theorem decodeRow_encodeRow (hlib : lib.RoundTrips) {row : RowValues}
    (h : ∀ k v : Bytes, row[k]? = some v → 0 ∉ k ∧ 0 ∉ v) :
    decodeRow lib (encodeRow lib row) = some row := by
  have hentry : ∀ kv ∈ row.toList, 0 ∉ kv.1 ∧ 0 ∉ kv.2 := by
    intro kv hkv
    exact h kv.1 kv.2 (Std.ExtTreeMap.mem_toList_iff_getElem?_eq_some.mp hkv)
  have hpairs : ((rowMembers row.toList).map fun m => (c_str m.1, valueText lib m.2)) =
      row.toList := by
    rw [rowMembers_of_notMem (nodup_keys_toList row) hentry, List.map_map]
    calc row.toList.map _ = row.toList.map id := by
          refine List.map_congr_left fun kv hkv => ?_
          obtain ⟨hk, hv⟩ := hentry kv hkv
          show (c_str kv.1, c_str kv.2) = kv
          rw [c_str_eq_self_iff.mpr hk, c_str_eq_self_iff.mpr hv]
      _ = row.toList := List.map_id _
  rw [decodeRow_eq hlib, hpairs, emplaceAll_toList]

/-- No other row is: what is read has no zero byte. -/
theorem notMem_of_decodeRow (hlib : lib.RoundTrips) {row row' : RowValues}
    (h : decodeRow lib (encodeRow lib row) = some row') {k v : Bytes} (hkv : row'[k]? = some v) :
    0 ∉ k ∧ 0 ∉ v := by
  rw [decodeRow_eq hlib, Option.some.injEq] at h
  rw [← h, getElem?_emplaceAll, List.lookup_eq_some_iff] at hkv
  obtain ⟨before, after, hsplit, -⟩ := hkv
  have hmem : (k, v) ∈ (rowMembers row.toList).map fun m => (c_str m.1, valueText lib m.2) := by
    rw [hsplit]
    simp
  obtain ⟨m, hm, heq⟩ := List.mem_map.mp hmem
  obtain ⟨s, hs, hstring⟩ := ((strings_rowMembers row.toList).2 m hm).2
  rw [hstring, Prod.mk.injEq] at heq
  rw [← heq.1, ← heq.2]
  exact ⟨notMem_c_str _, notMem_c_str _⟩

end

end ChronoLog.Plugins
