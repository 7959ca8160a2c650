import Mathlib

/-!
# Words as polynomials over the field of two elements

A cyclic redundancy check is a remainder of polynomials whose coefficients are bits.  A word
is such a polynomial in two ways, its low bit being the highest coefficient or the lowest.
A register that holds a remainder low bit first is shifted down and, where a one falls out,
added to the generator: this multiplies by `X` modulo the generator.

## Main definitions

* `lowFirst w n`, `highFirst w n` — the low `w` bits of `n`, the low bit at `X ^ (w - 1)` or
  at `1`.
* `reverseBits` — the bits of a word in the other order.
* `generator`, `shiftReduce` — a generator given by its reflected word, one step of the
  register.

## Main results

* `lowFirst_inj` — words are their polynomials.
* `lowFirst_xor`, `lowFirst_add` — sums and juxtapositions of words.
* `highFirst_reverseBits`, `lowFirst_reverseBits` — a reversed word read the other way is the same
  polynomial.
* `mk_lowFirst_shiftReduce` — **a step of the register multiplies by `X`.**
* `eq_modByMonic` — a polynomial of small degree in the class of another is its remainder.
-/

open Polynomial

namespace WordPolynomials

/-- The low `w` bits of `n`, the low bit at `X ^ (w - 1)`. -/
noncomputable def lowFirst : ℕ → ℕ → (ZMod 2)[X]
  | 0, _ => 0
  | w + 1, n => C (n : ZMod 2) * X ^ w + lowFirst w (n / 2)

/-- The low `w` bits of `n`, the low bit at `1`. -/
noncomputable def highFirst : ℕ → ℕ → (ZMod 2)[X]
  | 0, _ => 0
  | w + 1, n => C (n : ZMod 2) + X * highFirst w (n / 2)

@[simp] theorem lowFirst_zero (w : ℕ) : lowFirst w 0 = 0 := by
  induction w with
  | zero => rfl
  | succ w ih => simp [lowFirst, ih]

theorem cast_xor (m n : ℕ) : ((m ^^^ n : ℕ) : ZMod 2) = m + n := by
  rw [← Nat.cast_add, ZMod.natCast_eq_natCast_iff', Nat.xor_mod_two_eq]

theorem lowFirst_xor (w m n : ℕ) : lowFirst w (m ^^^ n) = lowFirst w m + lowFirst w n := by
  induction w generalizing m n with
  | zero => simp [lowFirst]
  | succ w ih =>
    rw [lowFirst, cast_xor, Nat.xor_div_two, ih, C_add, lowFirst, lowFirst]
    ring

theorem degree_lowFirst_lt (w n : ℕ) : (lowFirst w n).degree < w := by
  induction w generalizing n with
  | zero => simp [lowFirst]
  | succ w ih =>
    apply (degree_add_le _ _).trans_lt
    apply max_lt
    · exact (degree_C_mul_X_pow_le w _).trans_lt (by exact_mod_cast Nat.lt_succ_self w)
    · exact (ih _).trans (by exact_mod_cast Nat.lt_succ_self w)

/-- **Words of one width are their polynomials.** -/
theorem lowFirst_inj {w m n : ℕ} (hm : m < 2 ^ w) (hn : n < 2 ^ w)
    (h : lowFirst w m = lowFirst w n) : m = n := by
  induction w generalizing m n with
  | zero =>
    rw [pow_zero] at hm hn
    omega
  | succ w ih =>
    have hcoeff : ∀ k : ℕ, (lowFirst (w + 1) k).coeff w = (k : ZMod 2) := by
      intro k
      rw [lowFirst, coeff_add, coeff_C_mul_X_pow, if_pos rfl,
        coeff_eq_zero_of_degree_lt (degree_lowFirst_lt w _), add_zero]
    have hlow : (m : ZMod 2) = n := by rw [← hcoeff m, h, hcoeff n]
    have hhigh : m / 2 = n / 2 := by
      apply ih (by omega) (by omega)
      simpa only [lowFirst, hlow, add_right_inj] using h
    rw [ZMod.natCast_eq_natCast_iff'] at hlow
    omega

/-- Bits past the width do not matter. -/
theorem lowFirst_add_mul (w n k : ℕ) : lowFirst w (n + 2 ^ w * k) = lowFirst w n := by
  induction w generalizing n with
  | zero => rfl
  | succ w ih =>
    have heven : ((n + 2 ^ (w + 1) * k : ℕ) : ZMod 2) = n := by
      rw [ZMod.natCast_eq_natCast_iff', pow_succ', mul_assoc]
      omega
    have hhalf : (n + 2 ^ (w + 1) * k) / 2 = n / 2 + 2 ^ w * k := by
      rw [pow_succ', mul_assoc]
      omega
    rw [lowFirst, heven, hhalf, ih, lowFirst]

/-- The low bits of a word, then the rest of it. -/
theorem lowFirst_add (v w n : ℕ) :
    lowFirst (v + w) n = lowFirst v n * X ^ w + lowFirst w (n / 2 ^ v) := by
  induction v generalizing n with
  | zero => simp [lowFirst]
  | succ v ih =>
    rw [Nat.succ_add, lowFirst, ih, lowFirst, Nat.div_div_eq_div_mul, ← pow_succ']
    ring

/-- A word that leaves its high bit free. -/
theorem lowFirst_succ_of_lt {w n : ℕ} (h : n < 2 ^ w) : lowFirst (w + 1) n = X * lowFirst w n := by
  rw [lowFirst_add w 1, Nat.div_eq_of_lt h, lowFirst_zero, add_zero, pow_one, mul_comm]

/-! ### The other order -/

/-- `count` bits of a word, the lowest first, pushed onto another one. -/
def reverseBits : ℕ → ℕ → ℕ → ℕ
  | 0, _, reversed => reversed
  | count + 1, n, reversed => reverseBits count (n / 2) (2 * reversed + n % 2)

/-- **A reversed word read the other way is the same polynomial.** -/
theorem highFirst_reverseBits (count w n reversed : ℕ) :
    highFirst (w + count) (reverseBits count n reversed) =
      X ^ count * highFirst w reversed + lowFirst count n := by
  induction count generalizing w n reversed with
  | zero => simp [reverseBits, lowFirst]
  | succ count ih =>
    have hlow : ((2 * reversed + n % 2 : ℕ) : ZMod 2) = n := by
      rw [ZMod.natCast_eq_natCast_iff']
      omega
    have hhalf : (2 * reversed + n % 2) / 2 = reversed := by omega
    rw [reverseBits, show w + (count + 1) = w + 1 + count by omega, ih, highFirst, hlow, hhalf,
      lowFirst]
    ring

theorem lowFirst_reverseBits (count w n reversed : ℕ) :
    lowFirst (w + count) (reverseBits count n reversed) =
      X ^ w * highFirst count n + lowFirst w reversed := by
  induction count generalizing w n reversed with
  | zero => simp [reverseBits, highFirst]
  | succ count ih =>
    have hlow : ((2 * reversed + n % 2 : ℕ) : ZMod 2) = n := by
      rw [ZMod.natCast_eq_natCast_iff']
      omega
    have hhalf : (2 * reversed + n % 2) / 2 = reversed := by omega
    rw [reverseBits, show w + (count + 1) = w + 1 + count by omega, ih, lowFirst, hlow, hhalf,
      highFirst]
    ring

/-! ### Remainders -/

variable {w : ℕ}

/-- The generator of degree `w` whose other coefficients are a word, low bit first. -/
noncomputable def generator (w taps : ℕ) : (ZMod 2)[X] := X ^ w + lowFirst w taps

theorem monic_generator (w taps : ℕ) : (generator w taps).Monic :=
  monic_X_pow_add (degree_lowFirst_lt w taps)

theorem degree_generator (w taps : ℕ) : (generator w taps).degree = w := by
  rw [generator, degree_add_eq_left_of_degree_lt (by
    rw [degree_X_pow]
    exact degree_lowFirst_lt w taps), degree_X_pow]

/-- A polynomial of small degree in the class of another is its remainder. -/
theorem eq_modByMonic {g p q : (ZMod 2)[X]} (hg : g.Monic) (hp : p.degree < g.degree)
    (h : AdjoinRoot.mk g p = AdjoinRoot.mk g q) : p = q %ₘ g := by
  rw [← (modByMonic_eq_self_iff hg).mpr hp]
  exact modByMonic_eq_of_dvd_sub hg (AdjoinRoot.mk_eq_mk.mp h)

/-- One step of a register that holds a remainder low bit first. -/
def shiftReduce (taps n : ℕ) : ℕ := if n % 2 = 1 then (n / 2) ^^^ taps else n / 2

/-- **A step of the register multiplies by `X`** modulo the generator. -/
theorem mk_lowFirst_shiftReduce {n taps : ℕ} (h : n < 2 ^ w) :
    AdjoinRoot.mk (generator w taps) (lowFirst w (shiftReduce taps n)) =
      AdjoinRoot.mk (generator w taps) (X * lowFirst w n) := by
  -- what is shifted, with the bit that falls out at `X ^ w`
  have hshift : X * lowFirst w n = C (n : ZMod 2) * X ^ w + lowFirst w (n / 2) := by
    cases w with
    | zero =>
      rw [pow_zero, Nat.lt_one_iff] at h
      simp [lowFirst, h]
    | succ v =>
      have hhalf : n / 2 < 2 ^ v := by
        rw [pow_succ] at h
        omega
      rw [lowFirst_succ_of_lt hhalf, lowFirst]
      ring
  rw [hshift, shiftReduce]
  split
  · next hodd =>
    have hone : (n : ZMod 2) = 1 := by
      rw [← Nat.cast_one, ZMod.natCast_eq_natCast_iff', hodd]
    rw [hone, C_1, one_mul, lowFirst_xor, AdjoinRoot.mk_eq_mk]
    -- the two differ by the generator
    refine ⟨1, ?_⟩
    calc lowFirst w (n / 2) + lowFirst w taps - (X ^ w + lowFirst w (n / 2))
        = lowFirst w taps - X ^ w := by ring
      _ = generator w taps * 1 := by
        rw [CharTwo.sub_eq_add, mul_one, generator, add_comm]
  · next heven =>
    have hzero : (n : ZMod 2) = 0 := by
      rw [← Nat.cast_zero, ZMod.natCast_eq_natCast_iff']
      omega
    rw [hzero, C_0, zero_mul, zero_add]

end WordPolynomials
