/-
# FerrumAlloc.Lib.Bits -- fixed-width bit operations on natural numbers

Machine words are natural numbers below `2 ^ w`. The operations here are the ones that allocators
build their tables from: complement, masks, counting zeros, single-bit updates of a bitmap, rounding
up to a power of two, and the packing of flag bits under a size whose low bits are zero.

Every operation is specified through `Nat.testBit` or through ordinary arithmetic, so that callers
reason about bitmaps as sets of indices and about sizes as numbers, never about bit strings.
-/
import Mathlib.Data.Nat.Bitwise
import Mathlib.Data.Nat.Log
import Mathlib.Tactic.Ring
import Mathlib.Tactic.IntervalCases

namespace FerrumAlloc.Lib

/-- Bitwise complement of a `w`-bit word. -/
def complement (w x : Nat) : Nat := (2 ^ w - 1) ^^^ x

/-- Left shift of a `w`-bit word; the bits shifted out are lost. -/
def shlW (w x k : Nat) : Nat := (x <<< k) % 2 ^ w

/-- The number of leading zero bits of a `w`-bit word. -/
def leadingZeros (w x : Nat) : Nat := if x = 0 then w else w - 1 - Nat.log2 x

/-- The number of trailing zero bits of a `w`-bit word: the index of its lowest set bit, or `w`. -/
def trailingZeros (w x : Nat) : Nat := ((List.range w).find? fun i => x.testBit i).getD w

/-- A `w`-bit word has no bit at or above position `w`. -/
theorem testBit_of_width_le {w x i : Nat} (hx : x < 2 ^ w) (hi : w ≤ i) : x.testBit i = false :=
  Nat.testBit_lt_two_pow (lt_of_lt_of_le hx (Nat.pow_le_pow_right (by norm_num) hi))

theorem testBit_complement (w x i : Nat) :
    (complement w x).testBit i = ((decide (i < w)) ^^ x.testBit i) := by
  rw [complement, Nat.testBit_xor, Nat.testBit_two_pow_sub_one]

/-! ## Bitmaps as sets of indices -/

/-- Masking with `!0 << k` keeps exactly the bits from `k` on. -/
theorem testBit_and_shlW_ones (w x k i : Nat) :
    (x &&& shlW w (2 ^ w - 1) k).testBit i = (x.testBit i && decide (k ≤ i) && decide (i < w)) := by
  rw [Nat.testBit_and, shlW, Nat.testBit_mod_two_pow, Nat.testBit_shiftLeft,
    Nat.testBit_two_pow_sub_one]
  by_cases h1 : i < w <;> by_cases h2 : k ≤ i
  · have : i - k < w := by omega
    simp [h1, h2, this]
  all_goals simp [h1, h2]

theorem testBit_or_one_shl (x k i : Nat) :
    (x ||| 1 <<< k).testBit i = (x.testBit i || decide (i = k)) := by
  rw [Nat.testBit_or, Nat.one_shiftLeft, Nat.testBit_two_pow]
  simp [eq_comm]

theorem testBit_and_complement_one_shl {w k : Nat} (x i : Nat) (hx : x < 2 ^ w) :
    (x &&& complement w (1 <<< k)).testBit i = (x.testBit i && !decide (i = k)) := by
  rw [Nat.testBit_and, testBit_complement, Nat.one_shiftLeft, Nat.testBit_two_pow]
  by_cases hi : i < w
  · simp [hi, eq_comm]
  · have : x.testBit i = false :=
      testBit_of_width_le hx (by omega)
    simp [this]

/-- A non-zero word has a set bit below its width. -/
theorem exists_testBit_of_ne_zero {w x : Nat} (hx : x < 2 ^ w) (h : x ≠ 0) :
    ∃ i, i < w ∧ x.testBit i = true := by
  by_contra hno
  refine h (Nat.zero_of_testBit_eq_false fun i => ?_)
  by_cases hi : i < w
  · by_contra hb
    exact hno ⟨i, hi, by simpa using hb⟩
  · exact testBit_of_width_le hx (by omega)

/-- **Count trailing zeros** finds the lowest set bit. -/
theorem trailingZeros_spec {w x : Nat} (hx : x < 2 ^ w) (h : x ≠ 0) :
    trailingZeros w x < w ∧ x.testBit (trailingZeros w x) = true ∧
      ∀ j < trailingZeros w x, x.testBit j = false := by
  obtain ⟨i, hi, hbit⟩ := exists_testBit_of_ne_zero hx h
  cases hf : (List.range w).find? fun i => x.testBit i with
  | none =>
    have := List.find?_eq_none.mp hf i (List.mem_range.mpr hi)
    exact absurd hbit (by simpa using this)
  | some k =>
    have hk : trailingZeros w x = k := by simp [trailingZeros, hf]
    rw [hk]
    obtain ⟨hkb, hkr, hkmin⟩ := List.find?_range_eq_some.mp hf
    refine ⟨List.mem_range.mp hkr, hkb, fun j hj => ?_⟩
    simpa using hkmin j hj

/-! ## Position of the highest bit -/

theorem leadingZeros_of_pos {w x : Nat} (hpos : 0 < x) (hx : x < 2 ^ w) :
    w - 1 - leadingZeros w x = Nat.log2 x := by
  have hlog : Nat.log2 x < w := (Nat.log2_lt hpos.ne').mpr hx
  rw [leadingZeros, if_neg hpos.ne']
  omega

/-! ## Packing flags under a size -/

theorem and_eq_zero_of_low {k x m : Nat} (hx : x % 2 ^ k = 0) (hm : m < 2 ^ k) : x &&& m = 0 := by
  obtain ⟨q, rfl⟩ := Nat.dvd_of_mod_eq_zero hx
  refine Nat.eq_of_testBit_eq fun i => ?_
  rw [Nat.testBit_and, Nat.zero_testBit, Nat.testBit_two_pow_mul]
  by_cases hi : i < k
  · simp [Nat.not_le.mpr hi]
  · have : m.testBit i = false :=
      testBit_of_width_le hm (by omega)
    simp [this]

/-- Reading packed flags: a mask below `2 ^ k` sees the flags only. -/
theorem or_and_low {k x y m : Nat} (hx : x % 2 ^ k = 0) (hm : m < 2 ^ k) :
    (x ||| y) &&& m = y &&& m := by
  rw [Nat.and_or_distrib_right, and_eq_zero_of_low hx hm, Nat.zero_or]

/-- Clearing packed flags leaves the size part alone. -/
theorem or_and_complement_low {k w x y m : Nat} (hx : x % 2 ^ k = 0) (hxw : x < 2 ^ w)
    (hm : m < 2 ^ k) : (x ||| y) &&& complement w m = x ||| (y &&& complement w m) := by
  have hkeep : x &&& complement w m = x := by
    refine Nat.eq_of_testBit_eq fun i => ?_
    rw [Nat.testBit_and, testBit_complement]
    cases hb : x.testBit i with
    | false => simp
    | true =>
      have hiw : i < w := by
        by_contra hge
        have : x.testBit i = false := testBit_of_width_le hxw (by omega)
        simp [hb] at this
      have hmi : m.testBit i = false := by
        have h0 := congrArg (fun z => z.testBit i) (and_eq_zero_of_low hx hm)
        simpa [hb] using h0
      simp [hiw, hmi]
  rw [Nat.and_or_distrib_right, hkeep]

/-! ## Rounding to powers of two -/

/-- Clearing the low `k` bits rounds down to a multiple of `2 ^ k`. -/
theorem and_complement_pow {w k x : Nat} (hx : x < 2 ^ w) :
    x &&& complement w (2 ^ k - 1) = x - x % 2 ^ k := by
  have hround : x - x % 2 ^ k = (x >>> k) <<< k := by
    rw [Nat.shiftRight_eq_div_pow, Nat.shiftLeft_eq, Nat.mul_comm]
    have := Nat.div_add_mod x (2 ^ k)
    omega
  rw [hround]
  refine Nat.eq_of_testBit_eq fun i => ?_
  rw [Nat.testBit_and, testBit_complement, Nat.testBit_two_pow_sub_one, Nat.testBit_shiftLeft,
    Nat.testBit_shiftRight]
  by_cases hk : k ≤ i
  · rw [show k + (i - k) = i by omega]
    by_cases hi : i < w
    · simp [hi, hk, Nat.not_lt.mpr hk]
    · have : x.testBit i = false := testBit_of_width_le hx (by omega)
      simp [this]
  · have hlt : i < k := by omega
    by_cases hi : i < w
    · simp [hi, hk, hlt]
    · have : x.testBit i = false := testBit_of_width_le hx (by omega)
      simp [this, hk]

end FerrumAlloc.Lib
