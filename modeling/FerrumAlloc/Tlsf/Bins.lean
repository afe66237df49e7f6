/-
# FerrumAlloc.Tlsf.Bins -- the search bin is the least one that suits

A bin suits a size when every size filed in it is at least as large. `mapping_search` rounds up by one
bin width less one, which is enough to leave the bin of the size itself unless the size starts it, and
never enough to jump over a bin that suits: `binLe_mappingSearch_iff`. Sizes whose rounding saturates are
no exception, since the argument uses an upper bound of the rounded size only.

`exists_fitBound` says the same about sizes instead of bins. Let `T` be the least bound of a bin that is
at least the size searched for. Then good-fit search looks at exactly the blocks of size `T` and more.
-/
import FerrumAlloc.Tlsf.Search
import Mathlib.Order.Bounds.Basic

namespace FerrumAlloc.Tlsf

variable {s b f l f' l' : Nat}

/-! ## The order of the bins -/

/-- A bin ends where the next one starts, or before. -/
theorem binEnd_le_binLo (hl : l < 16) (h : ¬ BinLe f' l' f l) : (17 + l) * 2 ^ f ≤ binLo f' l' := by
  unfold BinLe at h
  rcases Nat.lt_or_ge f f' with hf | hf
  · have hpow : 2 ^ (f + 1) ≤ 2 ^ f' := Nat.pow_le_pow_right (by norm_num) hf
    calc (17 + l) * 2 ^ f ≤ 32 * 2 ^ f := Nat.mul_le_mul_right _ (by omega)
      _ = 16 * 2 ^ (f + 1) := by rw [pow_succ]; ring
      _ ≤ 16 * 2 ^ f' := Nat.mul_le_mul_left _ hpow
      _ ≤ binLo f' l' := Nat.mul_le_mul_right _ (by omega)
  · -- the same first level, since the bin is not before `(f, l)`
    obtain rfl : f = f' := by omega
    exact Nat.mul_le_mul_right _ (by omega)

/-- **A size reaches the bound of a bin exactly when its own bin is not before that bin.** -/
theorem binLo_le_iff (h16 : 16 ≤ s) (h64 : s < 2 ^ 64) (hl : l < 16) :
    binLo f l ≤ s ↔ BinLe f l (mapping s).1 (mapping s).2 := by
  obtain ⟨hl', hlo, hhi⟩ := (mapping_iff h16 h64).mp (Prod.mk.eta (p := mapping s)).symm
  constructor
  · intro hle
    by_contra hnot
    have hend := binEnd_le_binLo hl' hnot
    omega
  · intro hle
    exact (binLo_mono hl hle).trans hlo

/-- `mapping` is monotone for the lexicographic order. -/
theorem mapping_mono (h16 : 16 ≤ s) (hle : s ≤ b) (h64 : b < 2 ^ 64) :
    BinLe (mapping s).1 (mapping s).2 (mapping b).1 (mapping b).2 := by
  have hs64 : s < 2 ^ 64 := lt_of_le_of_lt hle h64
  apply (binLo_le_iff (h16.trans hle) h64 (mapping_sl_lt h16 hs64)).mp
  exact (binLo_mapping_le h16 hs64).trans hle

theorem sixteen_le_binLo : 16 ≤ binLo f l := by
  have hpow : 1 ≤ 2 ^ f := Nat.one_le_two_pow
  calc 16 = 16 * 1 := rfl
    _ ≤ (16 + l) * 2 ^ f := Nat.mul_le_mul (by omega) hpow

/-- The bins that have lists end at 4 MB. -/
theorem binEnd_le (hf : f < flCount) (hl : l < slCount) : (17 + l) * 2 ^ f ≤ 2 ^ 22 := by
  have hl16 : l < 16 := hl
  have hf17 : f ≤ 17 := Nat.le_of_lt_succ hf
  have hpow : 2 ^ f ≤ 2 ^ 17 := Nat.pow_le_pow_right (by norm_num) hf17
  calc (17 + l) * 2 ^ f ≤ 32 * 2 ^ 17 := Nat.mul_le_mul (by omega) hpow
    _ = 2 ^ 22 := by norm_num

theorem binLo_lt_binEnd : binLo f l < (17 + l) * 2 ^ f := by
  have hpow : 0 < 2 ^ f := Nat.two_pow_pos f
  have heq : (17 + l) * 2 ^ f = binLo f l + 2 ^ f := by unfold binLo; ring
  omega

/-- The bound of a bin is filed in it. -/
theorem mapping_binLo (hf : f < flCount) (hl : l < slCount) : mapping (binLo f l) = (f, l) := by
  have hend := binEnd_le hf hl
  have hlt := binLo_lt_binEnd (f := f) (l := l)
  exact (mapping_iff sixteen_le_binLo (by omega)).mpr ⟨hl, Nat.le_refl _, hlt⟩

/-! ## The searched bin -/

/-- Every size filed in the bin is at least `s`. -/
def Suits (s f l : Nat) : Prop := ∀ b, 16 ≤ b → b < 2 ^ 64 → mapping b = (f, l) → s ≤ b

theorem suits_iff (hf : f < flCount) (hl : l < slCount) : Suits s f l ↔ s ≤ binLo f l := by
  constructor
  · intro hall
    have hend := binEnd_le hf hl
    have hlt := binLo_lt_binEnd (f := f) (l := l)
    exact hall _ sixteen_le_binLo (by omega) (mapping_binLo hf hl)
  · intro hle b h16 h64 hmap
    have hlo := binLo_mapping_le h16 h64
    rw [hmap] at hlo
    exact hle.trans hlo

/-- Rounding a size up stays inside any bin whose bound the size does not exceed. -/
theorem searchSize_lt_binEnd (h16 : 16 ≤ s) (hl : l < 16) (hle : s ≤ binLo f l) :
    searchSize s < (17 + l) * 2 ^ f := by
  have hend : binLo f l < 2 ^ (f + 5) := by
    calc binLo f l < (17 + l) * 2 ^ f := binLo_lt_binEnd
      _ ≤ 32 * 2 ^ f := Nat.mul_le_mul_right _ (by omega)
      _ = 2 ^ (f + 5) := by rw [pow_add]; ring
  have hlog : Nat.log2 s < f + 5 := (Nat.log2_lt (by omega)).mpr (lt_of_le_of_lt hle hend)
  -- the width of the bins around `s` is at most the width of bin `(f, l)`
  have hw : 2 ^ (Nat.log2 s - 4) ≤ 2 ^ f := Nat.pow_le_pow_right (by norm_num) (by omega)
  have hpos : 0 < 2 ^ (Nat.log2 s - 4) := Nat.two_pow_pos _
  have hround : searchSize s ≤ s + (2 ^ (Nat.log2 s - 4) - 1) := Nat.min_le_left _ _
  have heq : (17 + l) * 2 ^ f = binLo f l + 2 ^ f := by unfold binLo; ring
  omega

/-- **The search looks at exactly the bins that suit.** -/
theorem binLe_mappingSearch_iff (h16 : 16 ≤ s) (h64 : s < 2 ^ 64) (hf : f < flCount) (hl : l < slCount) :
    BinLe (mappingSearch s).1 (mappingSearch s).2 f l ↔ s ≤ binLo f l := by
  have h16' : 16 ≤ searchSize s := h16.trans (le_searchSize h64)
  constructor
  · intro hle
    have hfl : (mappingSearch s).1 < flCount := by
      unfold BinLe at hle
      omega
    obtain ⟨hsl, hlo⟩ := mappingSearch_sound h16 h64 Prod.mk.eta.symm hfl
    exact hlo.trans (binLo_mono hsl hle)
  · intro hle
    have hlt := searchSize_lt_binEnd h16 hl hle
    have hend := binEnd_le hf hl
    -- so the rounded size is in range, and the search does not give up
    have hlog : Nat.log2 (searchSize s) < 22 := (Nat.log2_lt (by omega)).mpr (by omega)
    rw [mappingSearch_eq h16 h64, if_neg (by omega)]
    by_contra hnot
    have hbin := binEnd_le_binLo hl hnot
    have hlo := binLo_mapping_le h16' (searchSize_lt s)
    omega

/-- What `mapping_search` answers for `s`: the least bin that suits, among those that have lists. -/
inductive SearchBin (s : Nat) : Nat × Nat → Prop
  | found {fl sl : Nat} : fl < flCount → sl < slCount → Suits s fl sl →
      (∀ f l, f < flCount → l < slCount → Suits s f l → BinLe fl sl f l) → SearchBin s (fl, sl)
  | tooLarge : (∀ f l, f < flCount → l < slCount → ¬ Suits s f l) → SearchBin s (flCount, 0)

theorem mappingSearch_searchBin (h16 : 16 ≤ s) (h64 : s < 2 ^ 64) : SearchBin s (mappingSearch s) := by
  by_cases hfl : (mappingSearch s).1 < flCount
  · obtain ⟨hsl, hlo⟩ := mappingSearch_sound h16 h64 Prod.mk.eta.symm hfl
    apply SearchBin.found hfl hsl ((suits_iff hfl hsl).mpr hlo)
    intro f l hf hl hsuits
    exact (binLe_mappingSearch_iff h16 h64 hf hl).mpr ((suits_iff hf hl).mp hsuits)
  · have hgive : mappingSearch s = (flCount, 0) := by
      rw [mappingSearch_eq h16 h64] at hfl ⊢
      split
      · rfl
      · rename_i hlog
        -- a rounded size below 4 MB has a first-level bin
        rw [if_neg hlog] at hfl
        have hlt : searchSize s < 2 ^ 22 := by
          have h16' := h16.trans (le_searchSize h64)
          exact (Nat.log2_lt (by omega)).mp (by omega)
        exact absurd (mapping_fl_lt (h16.trans (le_searchSize h64)) hlt) hfl
    rw [hgive]
    apply SearchBin.tooLarge
    intro f l hf hl hsuits
    have hle := (binLe_mappingSearch_iff h16 h64 hf hl).mpr ((suits_iff hf hl).mp hsuits)
    unfold BinLe at hle
    omega

/-- **The bins partition the sizes, and the search bin is sound and tight.** `mapping` finds the one bin
whose interval contains the size and is monotone; `mapping_search` finds the least bin all of whose sizes
are large enough, or says that there is none. -/
theorem mapping_exact :
    (∀ b f l, 16 ≤ b → b < 2 ^ 64 →
      (mapping b = (f, l) ↔ l < 16 ∧ (16 + l) * 2 ^ f ≤ b ∧ b < (17 + l) * 2 ^ f)) ∧
    (∀ s b, 16 ≤ s → s ≤ b → b < 2 ^ 64 →
      BinLe (mapping s).1 (mapping s).2 (mapping b).1 (mapping b).2) ∧
    ∀ s, 16 ≤ s → s < 2 ^ 64 → SearchBin s (mappingSearch s) := by
  refine ⟨fun b f l h16 h64 => mapping_iff h16 h64, fun s b h16 hle h64 => mapping_mono h16 hle h64, ?_⟩
  intro s h16 h64
  exact mappingSearch_searchBin h16 h64

/-- The largest size of all saturates, and no bin suits it; 528 is searched for one bin up. -/
theorem mapping_exact_samples : SearchBin usizeMax (flCount, 0) ∧ SearchBin 528 (5, 1) := by
  have hmax : mappingSearch usizeMax = (flCount, 0) := by decide
  have h528 : mappingSearch 528 = (5, 1) := by decide
  have h := mapping_exact.2.2
  exact ⟨hmax ▸ h usizeMax (by decide) (by decide), h528 ▸ h 528 (by decide) (by decide)⟩

/-! ## The least bound that fits -/

/-- The bounds of bins from `a` on; the first level may be any. -/
def fitBounds (a : Nat) : Set Nat := {T | a ≤ T ∧ ∃ f l, l < 16 ∧ T = (16 + l) * 2 ^ f}

theorem exists_isLeast_fitBounds (a : Nat) : ∃ T, IsLeast (fitBounds a) T := by
  classical
  have hsome : ∃ T, T ∈ fitBounds a := by
    refine ⟨(16 + 0) * 2 ^ a, ?_, a, 0, by norm_num, rfl⟩
    have hlt : a < 2 ^ a := Nat.lt_two_pow_self
    omega
  refine ⟨Nat.find hsome, Nat.find_spec hsome, fun T hT => ?_⟩
  exact Nat.find_min' hsome hT

/-- **Good-fit search looks at exactly the sizes from the least bound on**, both by bin and by size. -/
theorem fitBound_le_iff {a T : Nat} (h16 : 16 ≤ a) (h64 : a < 2 ^ 64) (hT : IsLeast (fitBounds a) T)
    (hf : f < flCount) (hl : l < slCount) :
    BinLe (mappingSearch a).1 (mappingSearch a).2 f l ↔ T ≤ binLo f l := by
  rw [binLe_mappingSearch_iff h16 h64 hf hl]
  constructor
  · intro hle
    exact hT.2 ⟨hle, f, l, hl, rfl⟩
  · intro hle
    exact hT.1.1.trans hle

theorem fitBound_le_size_iff {a T : Nat} (h16 : 16 ≤ a) (h64 : a < 2 ^ 64) (hT : IsLeast (fitBounds a) T)
    (hs16 : 16 ≤ s) (hs22 : s < 2 ^ 22) :
    BinLe (mappingSearch a).1 (mappingSearch a).2 (mapping s).1 (mapping s).2 ↔ T ≤ s := by
  have hs64 : s < 2 ^ 64 := hs22.trans (by norm_num)
  have hsl := mapping_sl_lt hs16 hs64
  rw [fitBound_le_iff h16 h64 hT (mapping_fl_lt hs16 hs22) hsl]
  constructor
  · intro hle
    exact hle.trans (binLo_mapping_le hs16 hs64)
  · intro hle
    -- `T` is the bound of a bin, and the bin of `s` is not before it
    obtain ⟨_, f, l, hl, rfl⟩ := hT.1
    exact binLo_mono hl ((binLo_le_iff hs16 hs64 hl).mp hle)

end FerrumAlloc.Tlsf
