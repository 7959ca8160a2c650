import ChronoLog.Lib.JsonText
import ChronoLog.Plugins.SqlTypes

/-!
# The JSON library of the SQL plugin

The plugin prints and parses its payloads with json-c, which is not part of the source, and
passes strings to it and takes them from it as C strings (`chronosql_metadata.cpp`,
`chronosql_row_codec.cpp`).

## Main definitions

* `c_str`, `newString` — what a C string keeps of a string, and a JSON string made from it.
* `JsonC` — the printer and the parser.
* `JsonC.RoundTrips` — plain values are read back from their texts.
* `compactJson` — such a library.
-/

namespace ChronoLog.Plugins

open JsonText

/-- A C string ends before the first zero byte. -/
def c_str (s : Bytes) : Bytes := s.takeWhile (· ≠ 0)

theorem notMem_c_str (s : Bytes) : 0 ∉ c_str s := by
  intro hmem
  have hne := List.mem_takeWhile_imp hmem
  simp at hne

theorem c_str_eq_self_iff {s : Bytes} : c_str s = s ↔ 0 ∉ s := by
  rw [c_str, List.takeWhile_eq_self_iff]
  constructor
  · intro h hmem
    simpa using h 0 hmem
  · intro h c hc
    have hne : c ≠ 0 := by
      rintro rfl
      exact h hc
    simpa using hne

@[simp] theorem c_str_c_str (s : Bytes) : c_str (c_str s) = c_str s :=
  c_str_eq_self_iff.mpr (notMem_c_str s)

/-- `json_object_new_string` on a string. -/
def newString (s : Bytes) : Json := .string (c_str s)

theorem plain_newString (s : Bytes) : (newString s).Plain := .string (notMem_c_str s)

/-- The library. -/
structure JsonC where
  /-- `json_object_to_json_string_ext` without white space. -/
  print : Json → Bytes
  /-- `json_tokener_parse_ex`; `none` unless it succeeds. -/
  parse : Bytes → Option Json

namespace JsonC

/-- Plain values are read back from their texts. -/
def RoundTrips (lib : JsonC) : Prop := ∀ j : Json, j.Plain → lib.parse (lib.print j) = some j

/-- `json_object_get_string`, a null pointer for a null. -/
def getString (lib : JsonC) : Json → Option Bytes
  | .null => none
  | .string s => some (c_str s)
  | j => some (lib.print j)

@[simp] theorem getString_string (lib : JsonC) (s : Bytes) :
    lib.getString (.string s) = some (c_str s) := rfl

theorem getString_eq_none_iff {lib : JsonC} {j : Json} :
    lib.getString j = none ↔ j.isNull = true := by
  cases j <;> simp [getString, Json.isNull]

end JsonC

/-- A library that reads the texts it prints. -/
def compactJson : JsonC where
  print := print
  parse := parse

theorem compactJson_roundTrips : compactJson.RoundTrips := fun _ h => parse_print h

end ChronoLog.Plugins
