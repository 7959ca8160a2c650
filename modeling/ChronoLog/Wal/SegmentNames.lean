import ChronoLog.Wal.Codec

/-!
# The names of segment files

A segment's file is named by its number, in decimal digits of one width, so that a
directory listing in the order of the names is one in the order of the numbers
(`WalFormat.cpp`).

## Main definitions

* `segmentFileName`, `parseSegmentFileName` — the name of a segment, and its number read
  back.
* `digitOf`, `numberOf` — the digits of a name and their number.

## Main results

* `ofDigits_lt_iff` — digits of one width compare like their numbers.
* `parseDigits_eq_some_iff` — the loop takes the digits of the 64-bit numbers.
* `segmentFileName_order` — **names and numbers are the same in the same order.**
-/

namespace ChronoLog

namespace Wal

/-! ### Digits of one width -/

section

variable {b : ℕ} {ds es : List ℕ}

theorem ofDigits_reverse_lt (hb : 1 < b) (hds : ∀ d ∈ ds, d < b) :
    Nat.ofDigits b ds.reverse < b ^ ds.length := by
  rw [← List.length_reverse]
  exact Nat.ofDigits_lt_base_pow_length hb fun d hd => hds d (List.mem_reverse.mp hd)

/-- Digits of one width, the highest first, compare like their numbers. -/
theorem ofDigits_lt_iff (hb : 1 < b) (hds : ∀ d ∈ ds, d < b) (hes : ∀ e ∈ es, e < b)
    (hlength : ds.length = es.length) :
    Nat.ofDigits b ds.reverse < Nat.ofDigits b es.reverse ↔ ds < es := by
  induction ds generalizing es with
  | nil =>
    rw [List.length_nil, eq_comm, List.length_eq_zero_iff] at hlength
    rw [hlength]
    exact iff_of_false (lt_irrefl _) (List.lt_irrefl [])
  | cons d ds ih =>
    cases es with
    | nil => cases hlength
    | cons e es =>
      rw [List.forall_mem_cons] at hds hes
      have hrest : ds.length = es.length := Nat.succ.inj hlength
      have hlow := ofDigits_reverse_lt hb hds.2
      have hlow' := ofDigits_reverse_lt hb hes.2
      rw [Nat.ofDigits_reverse_cons, Nat.ofDigits_reverse_cons, List.cons_lt_cons_iff, hrest,
        ← ih hds.2 hes.2 hrest]
      rw [hrest] at hlow
      -- the first digits decide unless they are equal
      rcases Nat.lt_trichotomy d e with hlt | rfl | hgt
      · have hstep := Nat.mul_le_mul_left (b ^ es.length) (Nat.succ_le_of_lt hlt)
        rw [Nat.mul_succ] at hstep
        exact iff_of_true (by omega) (Or.inl hlt)
      · simp only [Nat.add_lt_add_iff_right, Nat.lt_irrefl, false_or, true_and]
      · have hstep := Nat.mul_le_mul_left (b ^ es.length) (Nat.succ_le_of_lt hgt)
        rw [Nat.mul_succ] at hstep
        refine iff_of_false (by omega) ?_
        rintro (hlt | ⟨rfl, -⟩) <;> omega

end

/-! ### Names -/

/-- `kSegmentDigits`. -/
def kSegmentDigits : ℕ := 20

/-- `kSegmentSuffix`: ".wal". -/
def kSegmentSuffix : Bytes := [0x2E, 0x77, 0x61, 0x6C]

/-- The decimal digits of a number, as characters of one byte. -/
def decimalDigits (n : ℕ) : Bytes := (Nat.toDigits 10 n).map fun c => UInt8.ofNat c.toNat

/-- `segmentFileName`: `%020llu%s`, into a buffer of the size of a name. -/
def segmentFileName (segment : UInt64) : Bytes :=
  let digits := decimalDigits segment.toNat
  (List.replicate (kSegmentDigits - digits.length) 0x30 ++ digits ++ kSegmentSuffix).take
    (kSegmentDigits + kSegmentSuffix.length)

/-- The loop of `parseSegmentFileName`. -/
def parseDigits (segment : UInt64) : Bytes → Option UInt64
  | [] => some segment
  | c :: name =>
    if c < 0x30 ∨ 0x39 < c then none
    else
      let digit := (c - 0x30).toUInt64
      if (0xFFFFFFFFFFFFFFFF - digit) / 10 < segment then none
      else parseDigits (segment * 10 + digit) name

/-- `parseSegmentFileName`. -/
def parseSegmentFileName (name : Bytes) : Option UInt64 :=
  if name.length ≠ kSegmentDigits + kSegmentSuffix.length ∨
      name.drop kSegmentDigits ≠ kSegmentSuffix then none
  else parseDigits 0 (name.take kSegmentDigits)

/-! ### What the loop takes -/

/-- The byte is a decimal digit. -/
def IsDigit (c : UInt8) : Prop := 0x30 ≤ c ∧ c ≤ 0x39

instance (c : UInt8) : Decidable (IsDigit c) := inferInstanceAs (Decidable (_ ∧ _))

/-- The value of a digit. -/
def digitOf (c : UInt8) : ℕ := c.toNat - 48

/-- The number of digits, the highest first. -/
def numberOf (digits : Bytes) : ℕ := Nat.ofDigits 10 (digits.map digitOf).reverse

theorem numberOf_cons (c : UInt8) (digits : Bytes) :
    numberOf (c :: digits) = numberOf digits + 10 ^ digits.length * digitOf c := by
  rw [numberOf, List.map_cons, Nat.ofDigits_reverse_cons, List.length_map]
  rfl

theorem IsDigit.digitOf_lt {c : UInt8} (h : IsDigit c) : digitOf c < 10 := by
  have hle := UInt8.le_iff_toNat_le.mp h.2
  change c.toNat ≤ 57 at hle
  rw [digitOf]
  omega

theorem IsDigit.toNat_sub {c : UInt8} (h : IsDigit c) :
    (c - 0x30).toUInt64.toNat = digitOf c := by
  rw [UInt8.toNat_toUInt64, UInt8.toNat_sub_of_le _ _ h.1]
  rfl

/-- The test before the multiplication: it passes where the result is a 64-bit number. -/
theorem overflows_iff {segment digit : UInt64} (hdigit : digit.toNat < 10) :
    (0xFFFFFFFFFFFFFFFF - digit) / 10 < segment ↔
      ¬segment.toNat * 10 + digit.toNat < 2 ^ 64 := by
  have hle : digit ≤ 0xFFFFFFFFFFFFFFFF := by
    rw [UInt64.le_iff_toNat_le]
    change digit.toNat ≤ 18446744073709551615
    omega
  rw [UInt64.lt_iff_toNat_lt, UInt64.toNat_div, UInt64.toNat_sub_of_le _ _ hle]
  change (18446744073709551615 - digit.toNat) / 10 < segment.toNat ↔ _
  omega

theorem parseDigits_cons {segment : UInt64} {c : UInt8} {digits : Bytes} :
    parseDigits segment (c :: digits) =
      if IsDigit c ∧ segment.toNat * 10 + digitOf c < 2 ^ 64 then
        parseDigits (UInt64.ofNat (segment.toNat * 10 + digitOf c)) digits else none := by
  rw [parseDigits]
  by_cases hc : IsDigit c
  · have hrange : ¬(c < 0x30 ∨ 0x39 < c) := by
      rw [not_or, UInt8.not_lt, UInt8.not_lt]
      exact hc
    have hdigit : (c - 0x30).toUInt64.toNat < 10 := hc.toNat_sub ▸ hc.digitOf_lt
    simp only [if_neg hrange, hc, true_and, overflows_iff hdigit, hc.toNat_sub]
    by_cases hfits : segment.toNat * 10 + digitOf c < 2 ^ 64
    · have hnext : segment * 10 + (c - 0x30).toUInt64 =
          UInt64.ofNat (segment.toNat * 10 + digitOf c) := by
        apply UInt64.toNat_inj.mp
        rw [UInt64.toNat_add, UInt64.toNat_mul, hc.toNat_sub, UInt64.toNat_ofNat']
        change (segment.toNat * 10 % 2 ^ 64 + digitOf c) % 2 ^ 64 = _
        omega
      rw [if_neg (not_not.mpr hfits), if_pos hfits, hnext]
    · rw [if_pos hfits, if_neg hfits]
  · have hrange : c < 0x30 ∨ 0x39 < c := by
      by_contra hnot
      rw [not_or, UInt8.not_lt, UInt8.not_lt] at hnot
      exact hc hnot
    rw [if_pos hrange, if_neg fun h => hc h.1]

/-- **The loop takes the digits of the 64-bit numbers, and gives their numbers.** -/
theorem parseDigits_eq_some_iff {segment result : UInt64} {digits : Bytes} :
    parseDigits segment digits = some result ↔ (∀ c ∈ digits, IsDigit c) ∧
      result.toNat = numberOf digits + 10 ^ digits.length * segment.toNat := by
  induction digits generalizing segment with
  | nil =>
    rw [parseDigits, Option.some.injEq, ← UInt64.toNat_inj]
    simp [numberOf, eq_comm]
  | cons c digits ih =>
    rw [parseDigits_cons, numberOf_cons, List.forall_mem_cons, List.length_cons]
    have hnumber : numberOf digits + 10 ^ digits.length * (segment.toNat * 10 + digitOf c) =
        numberOf digits + 10 ^ digits.length * digitOf c +
          10 ^ (digits.length + 1) * segment.toNat := by ring
    have hpow : 0 < 10 ^ digits.length := Nat.pow_pos (by omega)
    split
    · next h =>
      rw [ih, UInt64.toNat_ofNat', Nat.mod_eq_of_lt h.2, hnumber]
      exact ⟨fun hrest => ⟨⟨h.1, hrest.1⟩, hrest.2⟩, fun hall => ⟨hall.1.2, hall.2⟩⟩
    · next h =>
      refine iff_of_false (fun hnone => by cases hnone) ?_
      rintro ⟨⟨hc, -⟩, hresult⟩
      -- a step that overflows leaves a result that is no 64-bit number
      have hlt := result.toNat_lt
      rw [← hnumber] at hresult
      have hle : segment.toNat * 10 + digitOf c ≤
          10 ^ digits.length * (segment.toNat * 10 + digitOf c) := Nat.le_mul_of_pos_left _ hpow
      exact h ⟨hc, by omega⟩

/-! ### The digits of a name -/

theorem toNat_of_isDigit {d : Char} (h : d.isDigit = true) : 48 ≤ d.toNat ∧ d.toNat ≤ 57 := by
  simp only [Char.isDigit, Bool.and_eq_true, decide_eq_true_eq] at h
  exact ⟨UInt32.le_iff_toNat_le.mp h.1, UInt32.le_iff_toNat_le.mp h.2⟩

theorem toNat_ofNat_of_isDigit {d : Char} (h : d.isDigit = true) :
    (UInt8.ofNat d.toNat).toNat = d.toNat := by
  have hrange := toNat_of_isDigit h
  rw [UInt8.toNat_ofNat']
  exact Nat.mod_eq_of_lt (by omega)

theorem isDigit_of_mem_decimalDigits {n : ℕ} {c : UInt8} (h : c ∈ decimalDigits n) :
    IsDigit c := by
  obtain ⟨d, hd, rfl⟩ := List.mem_map.mp h
  have hdigit := Nat.isDigit_of_mem_toDigits (by omega) (by omega) hd
  have hrange := toNat_of_isDigit hdigit
  have htoNat := toNat_ofNat_of_isDigit hdigit
  constructor
  · rw [UInt8.le_iff_toNat_le, htoNat]
    exact hrange.1
  · rw [UInt8.le_iff_toNat_le, htoNat]
    exact hrange.2

theorem numberOf_map {digits : List Char} (h : ∀ d ∈ digits, d.isDigit = true) :
    numberOf (digits.map fun d => UInt8.ofNat d.toNat) = Nat.ofDigitChars 10 digits 0 := by
  induction digits with
  | nil => rfl
  | cons d digits ih =>
    rw [List.forall_mem_cons] at h
    rw [List.map_cons, numberOf_cons, ih h.2, List.length_map, digitOf,
      toNat_ofNat_of_isDigit h.1, Nat.ofDigitChars_cons, Nat.mul_zero, Nat.zero_add,
      @Nat.ofDigitChars_eq_ofDigitChars_zero digits (d.toNat - '0'.toNat), Nat.add_comm]
    rfl

theorem numberOf_decimalDigits (n : ℕ) : numberOf (decimalDigits n) = n := by
  have hdigits : ∀ d ∈ Nat.toDigits 10 n, d.isDigit = true := fun d hd =>
    Nat.isDigit_of_mem_toDigits (by omega) (by omega) hd
  rw [decimalDigits, numberOf_map hdigits, Nat.ofDigitChars_ten_toDigits]

/-- The digits of a 64-bit number fit. -/
theorem length_decimalDigits_le (segment : UInt64) :
    (decimalDigits segment.toNat).length ≤ kSegmentDigits := by
  rw [decimalDigits, List.length_map]
  exact (Nat.length_toDigits_le_iff (by omega) (by decide)).mpr
    (Nat.lt_trans segment.toNat_lt (by decide))

/-- The digits of a segment's name. -/
def nameDigits (segment : UInt64) : Bytes :=
  List.replicate (kSegmentDigits - (decimalDigits segment.toNat).length) 0x30 ++
    decimalDigits segment.toNat

theorem length_nameDigits (segment : UInt64) : (nameDigits segment).length = kSegmentDigits := by
  rw [nameDigits, List.length_append, List.length_replicate]
  have hle := length_decimalDigits_le segment
  omega

/-- The buffer holds the name. -/
theorem segmentFileName_eq (segment : UInt64) :
    segmentFileName segment = nameDigits segment ++ kSegmentSuffix := by
  refine List.take_of_length_le ?_
  rw [List.length_append, ← nameDigits, length_nameDigits]

theorem isDigit_nameDigits {segment : UInt64} {c : UInt8} (h : c ∈ nameDigits segment) :
    IsDigit c := by
  rcases List.mem_append.mp h with hzero | hdigit
  · rw [List.eq_of_mem_replicate hzero]
    decide
  · exact isDigit_of_mem_decimalDigits hdigit

theorem numberOf_replicate_append (n : ℕ) (digits : Bytes) :
    numberOf (List.replicate n 0x30 ++ digits) = numberOf digits := by
  induction n with
  | zero => rfl
  | succ n ih =>
    rw [List.replicate_succ, List.cons_append, numberOf_cons, ih]
    rfl

theorem numberOf_nameDigits (segment : UInt64) : numberOf (nameDigits segment) = segment.toNat := by
  rw [nameDigits, numberOf_replicate_append, numberOf_decimalDigits]

theorem digitOf_lt_iff {c c' : UInt8} (h : IsDigit c) (h' : IsDigit c') :
    digitOf c < digitOf c' ↔ c < c' := by
  have hle := UInt8.le_iff_toNat_le.mp h.1
  have hle' := UInt8.le_iff_toNat_le.mp h'.1
  change 48 ≤ c.toNat at hle
  change 48 ≤ c'.toNat at hle'
  rw [UInt8.lt_iff_toNat_lt, digitOf, digitOf]
  omega

theorem digitOf_inj {c c' : UInt8} (h : IsDigit c) (h' : IsDigit c')
    (heq : digitOf c = digitOf c') : c = c' := by
  have hle := UInt8.le_iff_toNat_le.mp h.1
  have hle' := UInt8.le_iff_toNat_le.mp h'.1
  change 48 ≤ c.toNat at hle
  change 48 ≤ c'.toNat at hle'
  rw [digitOf, digitOf] at heq
  exact UInt8.toNat_inj.mp (by omega)

section

variable {digits digits' : Bytes}

theorem map_digitOf_lt_iff (h : ∀ c ∈ digits, IsDigit c) (h' : ∀ c ∈ digits', IsDigit c) :
    digits.map digitOf < digits'.map digitOf ↔ digits < digits' := by
  induction digits generalizing digits' with
  | nil =>
    cases digits' with
    | nil => exact iff_of_false (List.lt_irrefl []) (List.lt_irrefl [])
    | cons c' digits' => exact iff_of_true (List.nil_lt_cons _ _) (List.nil_lt_cons _ _)
  | cons c digits ih =>
    cases digits' with
    | nil => exact iff_of_false (List.not_lt_nil _) (List.not_lt_nil _)
    | cons c' digits' =>
      rw [List.forall_mem_cons] at h h'
      rw [List.map_cons, List.map_cons, List.cons_lt_cons_iff, List.cons_lt_cons_iff,
        ih h.2 h'.2, digitOf_lt_iff h.1 h'.1]
      have heq : digitOf c = digitOf c' ↔ c = c' := ⟨digitOf_inj h.1 h'.1, congrArg digitOf⟩
      rw [heq]

theorem forall_digitOf_lt (h : ∀ c ∈ digits, IsDigit c) : ∀ d ∈ digits.map digitOf, d < 10 := by
  intro d hd
  obtain ⟨c, hc, rfl⟩ := List.mem_map.mp hd
  exact (h c hc).digitOf_lt

/-- Digits of one width compare like their numbers. -/
theorem numberOf_lt_iff (h : ∀ c ∈ digits, IsDigit c) (h' : ∀ c ∈ digits', IsDigit c)
    (hlength : digits.length = digits'.length) :
    numberOf digits < numberOf digits' ↔ digits < digits' := by
  rw [numberOf, numberOf, ofDigits_lt_iff (by omega) (forall_digitOf_lt h) (forall_digitOf_lt h')
    (by simpa using hlength), map_digitOf_lt_iff h h']

/-- Digits of one width have different numbers. -/
theorem eq_of_numberOf_eq (h : ∀ c ∈ digits, IsDigit c) (h' : ∀ c ∈ digits', IsDigit c)
    (hlength : digits.length = digits'.length) (heq : numberOf digits = numberOf digits') :
    digits = digits' := by
  refine List.le_antisymm (fun hgt => ?_) fun hlt => ?_
  · have hnumber := (numberOf_lt_iff h' h hlength.symm).mpr hgt
    omega
  · have hnumber := (numberOf_lt_iff h h' hlength).mpr hlt
    omega

/-- What follows names of one width does not decide. -/
theorem append_lt_append_iff (hlength : digits.length = digits'.length) (suffix : Bytes) :
    digits ++ suffix < digits' ++ suffix ↔ digits < digits' := by
  induction digits generalizing digits' with
  | nil =>
    rw [List.length_nil, eq_comm, List.length_eq_zero_iff] at hlength
    rw [hlength]
    exact iff_of_false (List.lt_irrefl _) (List.lt_irrefl _)
  | cons c digits ih =>
    cases digits' with
    | nil => cases hlength
    | cons c' digits' =>
      rw [List.cons_append, List.cons_append, List.cons_lt_cons_iff, List.cons_lt_cons_iff,
        ih (Nat.succ.inj hlength)]

end

/-- What a name that is taken looks like. -/
theorem parseSegmentFileName_eq_some_iff {name : Bytes} {segment : UInt64} :
    parseSegmentFileName name = some segment ↔ ∃ digits, name = digits ++ kSegmentSuffix ∧
      digits.length = kSegmentDigits ∧ (∀ c ∈ digits, IsDigit c) ∧
      numberOf digits = segment.toNat := by
  rw [parseSegmentFileName]
  constructor
  · intro h
    split at h
    · cases h
    · next hname =>
      rw [not_or, not_ne_iff, not_ne_iff] at hname
      obtain ⟨hdigits, hnumber⟩ := parseDigits_eq_some_iff.mp h
      refine ⟨name.take kSegmentDigits, ?_, ?_, hdigits, by simpa using hnumber.symm⟩
      · rw [← hname.2, List.take_append_drop]
      · rw [List.length_take, hname.1]
        exact Nat.min_eq_left (Nat.le_add_right _ _)
  · rintro ⟨digits, rfl, hlength, hdigits, hnumber⟩
    rw [if_neg, List.take_left' hlength]
    · exact parseDigits_eq_some_iff.mpr ⟨hdigits, by simpa using hnumber.symm⟩
    · rw [List.drop_left' hlength, List.length_append, hlength]
      simp

/-- **Names and numbers are the same in the same order**: each is read back from the other, the
digits of a greater number are not taken, and names compare like their numbers. -/
theorem segmentFileName_order (segment other : UInt64) (name digits : Bytes) :
    parseSegmentFileName (segmentFileName segment) = some segment ∧
      (parseSegmentFileName name = some segment ↔ name = segmentFileName segment) ∧
      (2 ^ 64 ≤ numberOf digits → parseSegmentFileName (digits ++ kSegmentSuffix) = none) ∧
      (segmentFileName segment < segmentFileName other ↔ segment < other) := by
  have hparse : ∀ {name : Bytes}, parseSegmentFileName name = some segment ↔
      name = segmentFileName segment := by
    intro name
    rw [parseSegmentFileName_eq_some_iff, segmentFileName_eq]
    constructor
    · rintro ⟨digits, rfl, hlength, hdigits, hnumber⟩
      rw [eq_of_numberOf_eq hdigits (fun _ => isDigit_nameDigits)
        (hlength.trans (length_nameDigits segment).symm)
        (hnumber.trans (numberOf_nameDigits segment).symm)]
    · rintro rfl
      exact ⟨_, rfl, length_nameDigits segment, fun _ => isDigit_nameDigits,
        numberOf_nameDigits segment⟩
  refine ⟨hparse.mpr rfl, hparse, fun hover => ?_, ?_⟩
  · refine Option.eq_none_iff_forall_not_mem.mpr fun result hresult => ?_
    obtain ⟨digits', heq, -, -, hnumber⟩ := parseSegmentFileName_eq_some_iff.mp hresult
    rw [List.append_cancel_right heq, hnumber] at hover
    exact absurd result.toNat_lt (Nat.not_lt.mpr hover)
  · rw [segmentFileName_eq, segmentFileName_eq,
      append_lt_append_iff ((length_nameDigits _).trans (length_nameDigits _).symm),
      ← numberOf_lt_iff (fun _ => isDigit_nameDigits) (fun _ => isDigit_nameDigits)
        ((length_nameDigits _).trans (length_nameDigits _).symm),
      numberOf_nameDigits, numberOf_nameDigits, UInt64.lt_iff_toNat_lt]

end Wal

end ChronoLog
