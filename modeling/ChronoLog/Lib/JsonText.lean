import Mathlib

/-!
# JSON values and their compact texts

Values, the compact text of a value, and a reader of such texts.  Strings are bytes; a string
is escaped where JSON asks for it, and so is a slash.  The reader takes the texts of values
that are made of strings, arrays and objects.

## Main definitions

* `Json`, `Json.member` — values, and the value under a key of an object.
* `Json.Plain` — the values made of strings without a zero byte, arrays and objects without
  repeated keys.
* `print`, `parse` — the text of a value, and the value of a text.

## Main results

* `readBody_escape` — a string is read back from its escaped bytes.
* `parse_print` — **a plain value is read back from its text.**
-/

namespace JsonText

/-- A value; a number or a boolean is kept as its text. -/
inductive Json where
  | null
  | scalar (text : List UInt8)
  | string (s : List UInt8)
  | array (items : List Json)
  | object (members : List (List UInt8 × Json))

namespace Json

/-- The value under a key of an object. -/
def member (key : List UInt8) : Json → Option Json
  | object members => (members.find? fun m => m.1 = key).map Prod.snd
  | _ => none

def isNull : Json → Bool
  | null => true
  | _ => false

/-- Strings without a zero byte, arrays, and objects without repeated keys. -/
inductive Plain : Json → Prop where
  | string {s : List UInt8} : 0 ∉ s → Plain (string s)
  | array {items : List Json} : (∀ j ∈ items, Plain j) → Plain (array items)
  | object {members : List (List UInt8 × Json)} : (members.map Prod.fst).Nodup →
      (∀ m ∈ members, 0 ∉ m.1) → (∀ m ∈ members, Plain m.2) → Plain (object members)

end Json

/-! ### Strings -/

def hexDigit (n : UInt8) : UInt8 := if n < 10 then n + 48 else n + 87

def hexValue (c : UInt8) : UInt8 := if c < 58 then c - 48 else c - 87

/-- The letters of the short escapes. -/
def shortEscapes : List (UInt8 × UInt8) :=
  [(8, 98), (10, 110), (13, 114), (9, 116), (12, 102), (34, 34), (92, 92), (47, 47)]

/-- A byte of a string as it is printed. -/
def escape (c : UInt8) : List UInt8 :=
  match shortEscapes.find? fun e => e.1 = c with
  | some e => [92, e.2]
  | none => if c < 32 then [92, 117, 48, 48, hexDigit (c >>> 4), hexDigit (c &&& 15)] else [c]

/-- The content of a string after its opening quote, and what follows the closing one. -/
def readBody : List UInt8 → Option (List UInt8 × List UInt8)
  | [] => none
  | c :: rest =>
    if c = 34 then some ([], rest)
    else if c = 92 then
      match rest with
      | [] => none
      | d :: rest =>
        if d = 117 then
          match rest with
          | _ :: _ :: a :: b :: rest =>
            (readBody rest).map fun r => ((hexValue a <<< 4 ||| hexValue b) :: r.1, r.2)
          | _ => none
        else
          (shortEscapes.find? fun e => e.2 = d).bind fun e =>
            (readBody rest).map fun r => (e.1 :: r.1, r.2)
    else (readBody rest).map fun r => (c :: r.1, r.2)

theorem mem_shortEscapes {e : UInt8 × UInt8} (h : e ∈ shortEscapes) :
    e.2 ≠ 117 ∧ shortEscapes.find? (fun e' => e'.2 = e.2) = some e := by
  simp only [shortEscapes, List.mem_cons, List.not_mem_nil, or_false] at h
  rcases h with rfl | rfl | rfl | rfl | rfl | rfl | rfl | rfl <;> exact ⟨by decide, rfl⟩

theorem hexValue_hexDigit :
    ∀ n < 32, hexValue (hexDigit (UInt8.ofNat n >>> 4)) <<< 4 |||
      hexValue (hexDigit (UInt8.ofNat n &&& 15)) = UInt8.ofNat n := by
  decide +kernel

theorem readBody_quote (rest : List UInt8) : readBody (34 :: rest) = some ([], rest) := by
  rw [readBody.eq_def]
  rfl

theorem readBody_plain {c : UInt8} (hquote : c ≠ 34) (hslash : c ≠ 92) (rest : List UInt8) :
    readBody (c :: rest) = (readBody rest).map fun r => (c :: r.1, r.2) := by
  rw [readBody.eq_def]
  dsimp only
  rw [if_neg hquote, if_neg hslash]

theorem readBody_short {e : UInt8 × UInt8} (h : e ∈ shortEscapes) (rest : List UInt8) :
    readBody (92 :: e.2 :: rest) = (readBody rest).map fun r => (e.1 :: r.1, r.2) := by
  obtain ⟨hne, hback⟩ := mem_shortEscapes h
  rw [readBody.eq_def]
  dsimp only
  rw [if_neg (by decide), if_pos rfl, if_neg hne, hback, Option.bind_some]

theorem readBody_hex (x y a b : UInt8) (rest : List UInt8) :
    readBody (92 :: 117 :: x :: y :: a :: b :: rest) =
      (readBody rest).map fun r => ((hexValue a <<< 4 ||| hexValue b) :: r.1, r.2) := by
  rw [readBody.eq_def]
  rfl

/-- A printed byte is read back. -/
theorem readBody_escape (c : UInt8) (s : List UInt8) :
    readBody (escape c ++ s) = (readBody s).map fun r => (c :: r.1, r.2) := by
  cases hshort : shortEscapes.find? fun e => e.1 = c with
  | some e =>
    have hc : e.1 = c := by simpa using List.find?_some hshort
    have hread := readBody_short (List.mem_of_find?_eq_some hshort) s
    rw [hc] at hread
    rw [escape, hshort]
    exact hread
  | none =>
    have hall := List.find?_eq_none.mp hshort
    have hquote : c ≠ 34 := by
      rintro rfl
      exact hall (34, 34) (by decide) rfl
    have hslash : c ≠ 92 := by
      rintro rfl
      exact hall (92, 92) (by decide) rfl
    rw [escape, hshort]
    by_cases hlow : c < 32
    · have hvalue := hexValue_hexDigit c.toNat (UInt8.lt_iff_toNat_lt.mp hlow)
      have hread := readBody_hex 48 48 (hexDigit (c >>> 4)) (hexDigit (c &&& 15)) s
      rw [UInt8.ofNat_toNat] at hvalue
      rw [hvalue] at hread
      simp only [if_pos hlow]
      exact hread
    · simp only [if_neg hlow]
      exact readBody_plain hquote hslash s

/-- **A string is read back from its escaped bytes.** -/
theorem readBody_flatMap_escape (s rest : List UInt8) :
    readBody (s.flatMap escape ++ 34 :: rest) = some (s, rest) := by
  induction s with
  | nil => exact readBody_quote rest
  | cons c s ih => rw [List.flatMap_cons, List.append_assoc, readBody_escape, ih, Option.map_some]

/-! ### Values -/

/-- A string between quotes. -/
def printString (s : List UInt8) : List UInt8 := 34 :: (s.flatMap escape ++ [34])

mutual

/-- The compact text of a value. -/
def print : Json → List UInt8
  | .null => [110, 117, 108, 108]
  | .scalar text => text
  | .string s => printString s
  | .array [] => [91, 93]
  | .array (j :: js) => 91 :: (print j ++ printItems js)
  | .object [] => [123, 125]
  | .object ((key, j) :: ms) => 123 :: (printString key ++ 58 :: (print j ++ printMembers ms))

/-- The items after the first one, and the closing bracket. -/
def printItems : List Json → List UInt8
  | [] => [93]
  | j :: js => 44 :: (print j ++ printItems js)

/-- The members after the first one, and the closing brace. -/
def printMembers : List (List UInt8 × Json) → List UInt8
  | [] => [125]
  | (key, j) :: ms => 44 :: (printString key ++ 58 :: (print j ++ printMembers ms))

end

/-- A string with its quotes, and what follows it. -/
def readString : List UInt8 → Option (List UInt8 × List UInt8)
  | [] => none
  | c :: rest => if c = 34 then readBody rest else none

/-- A key and the colon after it. -/
def readKey (s : List UInt8) : Option (List UInt8 × List UInt8) :=
  (readString s).bind fun r => if r.2.head? = some 58 then some (r.1, r.2.tail) else none

mutual

/-- The value a text starts with, and what follows it. -/
def readValue : ℕ → List UInt8 → Option (Json × List UInt8)
  | 0, _ => none
  | _ + 1, [] => none
  | fuel + 1, c :: rest =>
    if c = 34 then (readBody rest).map fun r => (.string r.1, r.2)
    else if c = 91 then
      if rest.head? = some 93 then some (.array [], rest.tail)
      else (readValue fuel rest).bind fun r =>
        (readItems fuel r.2).map fun r' => (.array (r.1 :: r'.1), r'.2)
    else if c = 123 then
      if rest.head? = some 125 then some (.object [], rest.tail)
      else (readKey rest).bind fun k => (readValue fuel k.2).bind fun r =>
        (readMembers fuel r.2).map fun r' => (.object ((k.1, r.1) :: r'.1), r'.2)
    else none

/-- The items after the first one. -/
def readItems : ℕ → List UInt8 → Option (List Json × List UInt8)
  | 0, _ => none
  | _ + 1, [] => none
  | fuel + 1, c :: rest =>
    if c = 93 then some ([], rest)
    else if c = 44 then
      (readValue fuel rest).bind fun r =>
        (readItems fuel r.2).map fun r' => (r.1 :: r'.1, r'.2)
    else none

/-- The members after the first one. -/
def readMembers : ℕ → List UInt8 → Option (List (List UInt8 × Json) × List UInt8)
  | 0, _ => none
  | _ + 1, [] => none
  | fuel + 1, c :: rest =>
    if c = 125 then some ([], rest)
    else if c = 44 then
      (readKey rest).bind fun k => (readValue fuel k.2).bind fun r =>
        (readMembers fuel r.2).map fun r' => ((k.1, r.1) :: r'.1, r'.2)
    else none

end

/-- The value of a text; each step takes a byte. -/
def parse (text : List UInt8) : Option Json :=
  (readValue text.length text).bind fun r => if r.2 = [] then some r.1 else none

/-! ### Round trip -/

theorem readKey_printString (key rest : List UInt8) :
    readKey (printString key ++ 58 :: rest) = some (key, rest) := by
  have hsplit : printString key ++ 58 :: rest = 34 :: (key.flatMap escape ++ 34 :: 58 :: rest) := by
    simp [printString]
  rw [hsplit, readKey, readString, if_pos rfl, readBody_flatMap_escape]
  rfl

/-- The text of a plain value starts with none of the closing marks. -/
theorem print_head {j : Json} (h : j.Plain) :
    ∃ c rest, print j = c :: rest ∧ c ≠ 93 ∧ c ≠ 125 := by
  cases h with
  | string _ => exact ⟨_, _, rfl, by decide, by decide⟩
  | @array items _ =>
    cases items with
    | nil => exact ⟨_, _, rfl, by decide, by decide⟩
    | cons j js => exact ⟨_, _, rfl, by decide, by decide⟩
  | @object members _ _ _ =>
    cases members with
    | nil => exact ⟨_, _, rfl, by decide, by decide⟩
    | cons m ms => exact ⟨_, _, rfl, by decide, by decide⟩

/-- What is read back with some fuel. -/
structure ReadBack (fuel : ℕ) : Prop where
  value : ∀ {j : Json} (rest : List UInt8), j.Plain → (print j).length ≤ fuel →
    readValue fuel (print j ++ rest) = some (j, rest)
  items : ∀ {js : List Json} (rest : List UInt8), (∀ j ∈ js, j.Plain) →
    (printItems js).length ≤ fuel → readItems fuel (printItems js ++ rest) = some (js, rest)
  members : ∀ {ms : List (List UInt8 × Json)} (rest : List UInt8), (∀ m ∈ ms, m.2.Plain) →
    (printMembers ms).length ≤ fuel → readMembers fuel (printMembers ms ++ rest) = some (ms, rest)

/-- The text of a plain value starts with none of the closing marks. -/
theorem head?_print_append {j : Json} (h : j.Plain) (rest : List UInt8) :
    (print j ++ rest).head? ≠ some 93 ∧ (print j ++ rest).head? ≠ some 125 := by
  obtain ⟨c, tail, hprint, h1, h2⟩ := print_head h
  rw [hprint]
  simp [h1, h2]

theorem readBack (fuel : ℕ) : ReadBack fuel := by
  induction fuel with
  | zero =>
    refine ⟨?_, ?_, ?_⟩
    · intro j rest hplain hle
      obtain ⟨c, tail, hprint, -⟩ := print_head hplain
      simp [hprint] at hle
    · intro js rest _ hle
      cases js <;> simp [printItems] at hle
    · intro ms rest _ hle
      cases ms <;> simp [printMembers] at hle
  | succ fuel ih =>
    refine ⟨?_, ?_, ?_⟩
    · intro j rest hplain hle
      cases hplain with
      | @string s _ =>
        have hsplit : print (.string s) ++ rest = 34 :: (s.flatMap escape ++ 34 :: rest) := by
          simp [print, printString]
        rw [hsplit, readValue, if_pos rfl, readBody_flatMap_escape]
        rfl
      | @array items hitems =>
        cases items with
        | nil => rfl
        | cons j js =>
          have hj := hitems j List.mem_cons_self
          rw [print, List.length_cons, List.length_append] at hle
          have hsplit : print (.array (j :: js)) ++ rest =
              91 :: (print j ++ (printItems js ++ rest)) := by
            simp [print]
          rw [hsplit, readValue, if_neg (by decide), if_pos rfl,
            if_neg (head?_print_append hj _).1, ih.value _ hj (by omega), Option.bind_some,
            ih.items rest (fun k hk => hitems k (List.mem_cons_of_mem _ hk)) (by omega)]
          rfl
      | @object members _ _ hmembers =>
        cases members with
        | nil => rfl
        | cons m ms =>
          obtain ⟨key, j⟩ := m
          have hj : j.Plain := hmembers (key, j) List.mem_cons_self
          rw [print, List.length_cons, List.length_append, List.length_cons,
            List.length_append] at hle
          have hsplit : print (.object ((key, j) :: ms)) ++ rest =
              123 :: (printString key ++ 58 :: (print j ++ (printMembers ms ++ rest))) := by
            simp [print]
          have hhead : ¬ (printString key ++ 58 :: (print j ++ (printMembers ms ++ rest))).head? =
              some 125 := by
            simp [printString]
          rw [hsplit, readValue, if_neg (by decide), if_neg (by decide), if_pos rfl,
            if_neg hhead, readKey_printString, Option.bind_some, ih.value _ hj (by omega),
            Option.bind_some,
            ih.members rest (fun k hk => hmembers k (List.mem_cons_of_mem _ hk)) (by omega)]
          rfl
    · intro js rest hplain hle
      cases js with
      | nil => rfl
      | cons j js =>
        have hj := hplain j List.mem_cons_self
        rw [printItems, List.length_cons, List.length_append] at hle
        have hsplit :
            printItems (j :: js) ++ rest = 44 :: (print j ++ (printItems js ++ rest)) := by
          simp [printItems]
        rw [hsplit, readItems, if_neg (by decide), if_pos rfl, ih.value _ hj (by omega),
          Option.bind_some,
          ih.items rest (fun k hk => hplain k (List.mem_cons_of_mem _ hk)) (by omega)]
        rfl
    · intro ms rest hplain hle
      cases ms with
      | nil => rfl
      | cons m ms =>
        obtain ⟨key, j⟩ := m
        have hj : j.Plain := hplain (key, j) List.mem_cons_self
        rw [printMembers, List.length_cons, List.length_append, List.length_cons,
          List.length_append] at hle
        have hsplit : printMembers ((key, j) :: ms) ++ rest =
            44 :: (printString key ++ 58 :: (print j ++ (printMembers ms ++ rest))) := by
          simp [printMembers]
        rw [hsplit, readMembers, if_neg (by decide), if_pos rfl, readKey_printString,
          Option.bind_some, ih.value _ hj (by omega), Option.bind_some,
          ih.members rest (fun k hk => hplain k (List.mem_cons_of_mem _ hk)) (by omega)]
        rfl

/-- **A plain value is read back from its text.** -/
theorem parse_print {j : Json} (h : j.Plain) : parse (print j) = some j := by
  have hread := (readBack (print j).length).value [] h (Nat.le_refl _)
  rw [List.append_nil] at hread
  rw [parse, hread]
  rfl

end JsonText
