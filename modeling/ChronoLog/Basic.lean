import Mathlib

/-!
# Identifiers and constants shared by every component

## Main definitions

* `StoryId` — the id of a story, a 64-bit hash of its names.
* `kStoryDroppedWatermark` — the watermark that reports a destroyed story.
* `OrdMap`, `OrdSet` — the ordered maps and sets of the source (`std::map`,
  `std::set`), iterated in the order of their keys.
-/

namespace ChronoLog

/-- A story id: the hash of the chronicle and story names. -/
abbrev StoryId := UInt64

/-- The watermark a grapher reports once for a destroyed story. -/
def kStoryDroppedWatermark : ℕ := 2 ^ 64 - 1

/-- `std::map`. -/
abbrev OrdMap (κ : Type) (β : Type*) [Ord κ] := Std.ExtTreeMap κ β compare

/-- `std::set`. -/
abbrev OrdSet (κ : Type) [Ord κ] := Std.ExtTreeSet κ compare

end ChronoLog
