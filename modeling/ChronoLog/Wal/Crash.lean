import ChronoLog.Wal.FileSink

/-!
# What a listing shows and what a crash leaves

The operations on the directory in terms of what a listing and a read of each file
return, and the directories a crash may leave of one: of each file any mixture of
its contents since its last data sync, and of the links and the file of drops any
version since the last directory sync.

## Main definitions

* `SegmentFile.Survives` — a content a crash may leave of a file.
* `Disk.Crash` — a directory a crash may leave.

## Main results

* `Disk.mem_image`, `Disk.image_congr` — the image is what the reads return.
-/

namespace ChronoLog

namespace Disk

/-! ### Listings and reads -/

theorem image_eq_toList (disk : Disk) : disk.image =
    ((disk.segments.filter fun _ file => file.linked).map fun _ file => file.content).toList := by
  rw [Std.ExtTreeMap.toList_map, Std.ExtTreeMap.toList_filter, image]

theorem readFile_eq (disk : Disk) (segment : ℕ) :
    disk.readFile segment =
      ((disk.segments.filter fun _ file => file.linked).map fun _ file =>
        file.content)[segment]? := by
  rw [Std.ExtTreeMap.getElem?_map, Std.ExtTreeMap.getElem?_filter', readFile]

/-- The image is what the reads return. -/
theorem image_congr {disk disk' : Disk}
    (h : ∀ segment, disk.readFile segment = disk'.readFile segment) :
    disk.image = disk'.image := by
  rw [image_eq_toList, image_eq_toList]
  congr 1
  apply Std.ExtTreeMap.ext_getElem?
  intro segment
  rw [← readFile_eq, ← readFile_eq]
  exact h segment

/-- A directory that lists the same files, in terms of the other. -/
theorem image_eq_map {disk disk' : Disk}
    (h : ∀ segment, (disk'.readFile segment).isSome = (disk.readFile segment).isSome) :
    disk'.image = disk.image.map fun file => (file.1, (disk'.readFile file.1).getD file.2) := by
  rw [image_eq_toList, image_eq_toList, ← Std.ExtTreeMap.toList_map
    (f := fun segment bytes => (disk'.readFile segment).getD bytes)]
  congr 1
  apply Std.ExtTreeMap.ext_getElem?
  intro segment
  rw [← readFile_eq, Std.ExtTreeMap.getElem?_map, ← readFile_eq]
  have hsome := h segment
  rcases hleft : disk'.readFile segment with - | bytes' <;>
    rcases hright : disk.readFile segment with - | bytes <;> rw [hleft, hright] at hsome
  · rfl
  · cases hsome
  · cases hsome
  · rfl

theorem mem_image {disk : Disk} {segment : ℕ} {bytes : Bytes} :
    (segment, bytes) ∈ disk.image ↔ disk.readFile segment = some bytes := by
  rw [image_eq_toList, readFile_eq, Std.ExtTreeMap.mem_toList_iff_getElem?_eq_some]

theorem list_eq (disk : Disk) : disk.list = disk.image.map Prod.fst := by
  simp only [list, image, List.map_map]
  rfl

theorem pairwise_image (disk : Disk) : disk.image.Pairwise fun a b => a.1 < b.1 := by
  rw [image_eq_toList]
  refine Std.ExtTreeMap.ordered_keys_toList.imp fun h => ?_
  exact Nat.compare_eq_lt.mp h

theorem image_eq_singleton {disk : Disk} {segment : ℕ} {bytes : Bytes}
    (h : ∀ other, disk.readFile other = if other = segment then some bytes else none) :
    disk.image = [(segment, bytes)] := by
  have hnodup : disk.image.Nodup :=
    disk.pairwise_image.imp fun hlt heq => by rw [heq] at hlt; exact lt_irrefl _ hlt
  rw [← List.perm_singleton, List.perm_ext_iff_of_nodup hnodup (List.nodup_singleton _)]
  rintro ⟨other, content⟩
  rw [mem_image, h, List.mem_singleton, Prod.mk.injEq]
  split
  · rename_i heq
    simp [heq, eq_comm]
  · rename_i hne
    simp [hne]

theorem readFile_syncDirectory (disk : Disk) (segment : ℕ) :
    disk.syncDirectory.readFile segment = disk.readFile segment := by
  simp only [readFile, syncDirectory, Std.ExtTreeMap.getElem?_map, Std.ExtTreeMap.getElem?_filter']
  cases disk.segments[segment]? with
  | none => rfl
  | some file =>
    cases hlinked : file.linked <;> simp [Option.filter, hlinked]

theorem readFile_syncData (disk : Disk) (segment other : ℕ) :
    (disk.syncData segment).readFile other = disk.readFile other := by
  simp only [readFile, syncData, Std.ExtTreeMap.getElem?_alter, Std.compare_eq_iff_eq]
  split
  · rename_i heq
    subst heq
    cases disk.segments[segment]? with
    | none => rfl
    | some file => cases hlinked : file.linked <;> simp [Option.filter, hlinked]
  · rfl

theorem readFile_writeAt (disk : Disk) (segment offset : ℕ) (data : Bytes) (other : ℕ) :
    (disk.writeAt segment offset data).readFile other =
      (disk.readFile other).map fun content =>
        if segment = other then overwrite content offset data else content := by
  simp only [readFile, writeAt, Std.ExtTreeMap.getElem?_alter, Std.compare_eq_iff_eq]
  split
  · rename_i heq
    subst heq
    cases disk.segments[segment]? with
    | none => rfl
    | some file => cases hlinked : file.linked <;> simp [Option.filter, hlinked]
  · rw [Option.map_map]
    rfl

theorem image_syncDirectory (disk : Disk) : disk.syncDirectory.image = disk.image :=
  image_congr (readFile_syncDirectory disk)

end Disk

/-! ### Crashes -/

/-- A content a crash may leave of a file: the length of one of those since the last data
sync, and each byte of one of them. -/
def SegmentFile.Survives (file : SegmentFile) (bytes : Bytes) : Prop :=
  (∃ version ∈ file.content :: file.unsynced, bytes.length = version.length) ∧
    ∀ i < bytes.length, ∃ version ∈ file.content :: file.unsynced,
      bytes.getD i 0 = version.getD i 0

/-- What a crash may leave of one entry of the directory: the file, unless its link was
removed for good, or nothing, unless it was made for good. -/
def SegmentFile.CrashesTo : Option SegmentFile → Option SegmentFile → Prop
  | none, left => left = none
  | some file, some left => (file.linked ∨ file.linkUnsynced) ∧ file.Survives left.content ∧
      left = { content := left.content, unsynced := [], linked := true, linkUnsynced := false }
  | some file, none => ¬file.linked ∨ file.linkUnsynced

/-- A directory a crash may leave. -/
structure Disk.Crash (disk left : Disk) : Prop where
  segments : ∀ segment : ℕ,
    SegmentFile.CrashesTo disk.segments[segment]? left.segments[segment]?
  drops : left.drops ∈ disk.drops :: disk.olderDrops
  olderDrops : left.olderDrops = []

/-- A crash of a directory with one segment. -/
theorem Disk.crash_of_one {disk left : Disk} {segment : ℕ} {file : SegmentFile} {bytes : Bytes}
    (hdisk : ∀ other : ℕ, disk.segments[other]? = if other = segment then some file else none)
    (hleft : ∀ other : ℕ, left.segments[other]? =
      if other = segment then some ⟨bytes, [], true, false⟩ else none)
    (hlinked : file.linked = true) (hsurvives : file.Survives bytes)
    (hdrops : left.drops = disk.drops) (holder : left.olderDrops = []) : disk.Crash left := by
  refine ⟨fun other => ?_, List.mem_cons.mpr (.inl hdrops), holder⟩
  rw [hdisk, hleft]
  split
  · exact ⟨.inl hlinked, hsurvives, rfl⟩
  · rfl

end ChronoLog
