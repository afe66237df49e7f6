/-
# FerrumAlloc.Tlsf.Mapping -- the bins as half-open intervals of sizes

Bin `(f, l)` holds the sizes from `binLo f l = (16 + l) * 2 ^ f` up to, not including,
`(17 + l) * 2 ^ f`. `mapping` computes the bin of a size with a leading-zero count, a shift and an
XOR; `mapping_iff` says that it computes exactly this partition of the sizes from 16 on.

`mappingSearch` rounds up before it maps, so that every block of the bin it names, and of every bin
after it, is large enough (`mappingSearch_sound`).
-/
import FerrumAlloc.Tlsf.Model

namespace FerrumAlloc.Tlsf

open Lib

/-- The smallest size filed in bin `(f, l)`. -/
def binLo (f l : Nat) : Nat := (16 + l) * 2 ^ f

/-- The second-level XOR subtracts `SL_COUNT` from a five-bit number with its top bit set. -/
theorem xor_slCount {q : Nat} (h1 : 16 ≤ q) (h2 : q < 32) : q ^^^ slCount = q - 16 := by
  interval_cases q <;> rfl

theorem highBit_eq {s : Nat} (h16 : 16 ≤ s) (h64 : s < 2 ^ 64) :
    64 - 1 - leadingZeros 64 s = Nat.log2 s := leadingZeros_of_pos (by omega) h64

theorem four_le_log2 {s : Nat} (h16 : 16 ≤ s) : 4 ≤ Nat.log2 s :=
  (Nat.le_log2 (by omega)).mpr h16

/-- A size lies between the power of two below it and the next one. -/
theorem log2_bounds {s : Nat} (h : 0 < s) : 2 ^ Nat.log2 s ≤ s ∧ s < 2 ^ (Nat.log2 s + 1) :=
  ⟨(Nat.le_log2 h.ne').mp (Nat.le_refl _), (Nat.log2_lt h.ne').mp (Nat.lt_succ_self _)⟩

/-- Dividing a size by the width of its second-level bins leaves a five-bit number. -/
theorem quot_bounds {s : Nat} (h16 : 16 ≤ s) :
    16 ≤ s / 2 ^ (Nat.log2 s - 4) ∧ s / 2 ^ (Nat.log2 s - 4) < 32 := by
  obtain ⟨hlo, hhi⟩ := log2_bounds (s := s) (by omega)
  have h4 := four_le_log2 h16
  have hw : 0 < 2 ^ (Nat.log2 s - 4) := Nat.two_pow_pos _
  have e1 : 2 ^ Nat.log2 s = 16 * 2 ^ (Nat.log2 s - 4) := by
    conv_lhs => rw [show Nat.log2 s = 4 + (Nat.log2 s - 4) by omega, pow_add]
    rfl
  have e2 : 2 ^ (Nat.log2 s + 1) = 32 * 2 ^ (Nat.log2 s - 4) := by rw [pow_succ, e1]; ring
  exact ⟨(Nat.le_div_iff_mul_le hw).mpr (by omega), (Nat.div_lt_iff_lt_mul hw).mpr (by omega)⟩

/-- `mapping` in arithmetic form. -/
theorem mapping_eq {s : Nat} (h16 : 16 ≤ s) (h64 : s < 2 ^ 64) :
    mapping s = (Nat.log2 s - 4, s / 2 ^ (Nat.log2 s - 4) - 16) := by
  obtain ⟨hq1, hq2⟩ := quot_bounds h16
  simp only [mapping, highBit_eq h16 h64, slLog2, flShift, Nat.shiftRight_eq_div_pow]
  rw [xor_slCount hq1 hq2]

/-- **The bins partition the sizes**: `mapping` names the bin whose interval contains the size. -/
theorem mapping_iff {s f l : Nat} (h16 : 16 ≤ s) (h64 : s < 2 ^ 64) :
    mapping s = (f, l) ↔ l < 16 ∧ binLo f l ≤ s ∧ s < (17 + l) * 2 ^ f := by
  obtain ⟨hq1, hq2⟩ := quot_bounds h16
  have hdm := Nat.div_add_mod s (2 ^ (Nat.log2 s - 4))
  have hml : s % 2 ^ (Nat.log2 s - 4) < 2 ^ (Nat.log2 s - 4) := Nat.mod_lt _ (Nat.two_pow_pos _)
  rw [mapping_eq h16 h64, Prod.mk.injEq]
  constructor
  · rintro ⟨rfl, rfl⟩
    set w := 2 ^ (Nat.log2 s - 4)
    set q := s / w
    refine ⟨by omega, ?_, ?_⟩
    · rw [binLo, show 16 + (q - 16) = q by omega]
      change q * w ≤ s
      rw [Nat.mul_comm]; omega
    · rw [show 17 + (q - 16) = q + 1 by omega, Nat.add_mul, Nat.one_mul, Nat.mul_comm]
      omega
  · rintro ⟨hl, hlo, hhi⟩
    have hw : 0 < 2 ^ f := Nat.two_pow_pos f
    have hf : Nat.log2 s - 4 = f := by
      have h1 : 2 ^ (f + 4) ≤ s := by
        refine le_trans ?_ hlo
        rw [binLo, pow_add, Nat.mul_comm]
        exact Nat.mul_le_mul_right _ (by omega)
      have h2 : s < 2 ^ (f + 5) := by
        refine lt_of_lt_of_le hhi ?_
        rw [pow_add, Nat.mul_comm (2 ^ f)]
        exact Nat.mul_le_mul_right _ (by omega)
      have h3 : f + 4 ≤ Nat.log2 s := (Nat.le_log2 (by omega)).mpr h1
      have h4 : Nat.log2 s < f + 5 := (Nat.log2_lt (by omega)).mpr h2
      omega
    rw [hf]
    refine ⟨rfl, ?_⟩
    have hq : s / 2 ^ f = 16 + l := by
      refine Nat.div_eq_of_lt_le ?_ ?_
      · exact hlo
      · rw [show 16 + l + 1 = 17 + l by omega]; exact hhi
    omega

theorem mapping_sl_lt {s : Nat} (h16 : 16 ≤ s) (h64 : s < 2 ^ 64) : (mapping s).2 < slCount :=
  ((mapping_iff h16 h64).mp rfl).1

/-- Sizes below 4 MB have a first-level bin. -/
theorem mapping_fl_lt {s : Nat} (h16 : 16 ≤ s) (h22 : s < 2 ^ 22) : (mapping s).1 < flCount := by
  have hlog : Nat.log2 s < 22 := (Nat.log2_lt (by omega)).mpr h22
  rw [mapping_eq h16 (by omega)]
  simp only [flCount, flMax, flShift]
  omega

theorem binLo_mapping_le {s : Nat} (h16 : 16 ≤ s) (h64 : s < 2 ^ 64) :
    binLo (mapping s).1 (mapping s).2 ≤ s := ((mapping_iff h16 h64).mp rfl).2.1

/-- Bins are ordered like their smallest sizes. -/
theorem binLo_mono {f l f' l' : Nat} (hl : l < 16) (h : f < f' ∨ (f = f' ∧ l ≤ l')) :
    binLo f l ≤ binLo f' l' := by
  rcases h with h | ⟨rfl, h⟩
  · have hpow : 2 ^ (f + 1) ≤ 2 ^ f' := Nat.pow_le_pow_right (by norm_num) h
    calc binLo f l ≤ 32 * 2 ^ f := Nat.mul_le_mul_right _ (by omega)
      _ = 16 * 2 ^ (f + 1) := by rw [pow_succ]; ring
      _ ≤ 16 * 2 ^ f' := Nat.mul_le_mul_left _ hpow
      _ ≤ binLo f' l' := Nat.mul_le_mul_right _ (by omega)
  · exact Nat.mul_le_mul_right _ (by omega)

/-- The size that `mapping_search` maps: `size` rounded up to the end of its second-level bin. -/
def searchSize (s : Nat) : Nat := min (s + (2 ^ (Nat.log2 s - 4) - 1)) usizeMax

theorem le_searchSize {s : Nat} (h64 : s < 2 ^ 64) : s ≤ searchSize s := by
  simp only [searchSize, usizeMax]; omega

theorem searchSize_lt (s : Nat) : searchSize s < 2 ^ 64 := by
  simp only [searchSize, usizeMax]; omega

/-- `mapping_search` maps the rounded size, or gives up. -/
theorem mappingSearch_eq {s : Nat} (h16 : 16 ≤ s) (h64 : s < 2 ^ 64) :
    mappingSearch s = if Nat.log2 (searchSize s) > 21 then (flCount, 0)
      else mapping (searchSize s) := by
  have h16' : 16 ≤ searchSize s := le_trans h16 (le_searchSize h64)
  have e : min (s + (1 <<< (Nat.log2 s - 4) - 1)) usizeMax = searchSize s := by
    rw [Nat.one_shiftLeft, searchSize]
  simp only [mappingSearch, mapping, highBit_eq h16 h64, slLog2, flMax, flShift, e,
    highBit_eq h16' (searchSize_lt s)]

/-- Rounding up reaches the start of the next bin, also across a power of two. -/
theorem le_binLo_searchSize {s f l : Nat} (h16 : 16 ≤ s) (h64 : s < 2 ^ 64)
    (hlog : Nat.log2 (searchSize s) ≤ 21) (hmap : mapping (searchSize s) = (f, l)) :
    s ≤ binLo f l := by
  obtain ⟨hslo, hshi⟩ := log2_bounds (s := s) (by omega)
  have h16' : 16 ≤ searchSize s := le_trans h16 (le_searchSize h64)
  obtain ⟨hlo, hhi⟩ := log2_bounds (s := searchSize s) (by omega)
  have hpow22 : 2 ^ (Nat.log2 (searchSize s) + 1) ≤ 2 ^ 22 :=
    Nat.pow_le_pow_right (by norm_num) (by omega)
  have heq : searchSize s = s + (2 ^ (Nat.log2 s - 4) - 1) := by
    simp only [searchSize, usizeMax] at hhi hpow22 ⊢
    omega
  obtain ⟨hl, hb1, hb2⟩ := (mapping_iff h16' (searchSize_lt s)).mp hmap
  have hf : Nat.log2 (searchSize s) - 4 = f := by
    rw [mapping_eq h16' (searchSize_lt s), Prod.mk.injEq] at hmap
    exact hmap.1
  set w := 2 ^ (Nat.log2 s - 4) with hw
  have hwpos : 0 < w := Nat.two_pow_pos _
  have hmono : Nat.log2 s ≤ Nat.log2 (searchSize s) :=
    (Nat.le_log2 (by omega)).mpr (by omega)
  rcases Nat.eq_or_lt_of_le hmono with hsame | hnext
  · -- same power of two: the bin width is `w`, and rounding adds `w - 1`
    rw [← hf, ← hsame, ← hw] at hb2
    rw [← hf, ← hsame, binLo, ← hw]
    have : (17 + l) * w = (16 + l) * w + w := by ring
    omega
  · -- the rounded size crossed into the next power of two, whose first bin starts above `s`
    have h1 : 2 ^ (Nat.log2 s + 1) ≤ 2 ^ Nat.log2 (searchSize s) :=
      Nat.pow_le_pow_right (by norm_num) hnext
    have h2 : 2 ^ Nat.log2 (searchSize s) = 16 * 2 ^ f := by
      have h4 := four_le_log2 h16
      conv_lhs => rw [show Nat.log2 (searchSize s) = 4 + f by omega, pow_add]
      rfl
    have h3 : 16 * 2 ^ f ≤ binLo f l := Nat.mul_le_mul_right _ (by omega)
    omega

/-- **The search bin is sound.** A bin that `mapping_search` names has in-range indices, and every
size filed there is large enough. -/
theorem mappingSearch_sound {s fl sl : Nat} (h16 : 16 ≤ s) (h64 : s < 2 ^ 64)
    (h : mappingSearch s = (fl, sl)) (hfl : fl < flCount) : sl < slCount ∧ s ≤ binLo fl sl := by
  rw [mappingSearch_eq h16 h64] at h
  split at h
  · rw [Prod.mk.injEq] at h
    omega
  · rename_i hlog
    have h16' : 16 ≤ searchSize s := le_trans h16 (le_searchSize h64)
    have hsl := mapping_sl_lt h16' (searchSize_lt s)
    rw [h] at hsl
    exact ⟨hsl, le_binLo_searchSize h16 h64 (by omega) h⟩

end FerrumAlloc.Tlsf
