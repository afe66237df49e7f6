/-
# FerrumAlloc.Tlsf.Search -- the bitmap search for a large enough block

`find_suitable` masks the second-level bitmap of the searched bin, and falls back to the lowest bin of
the next non-empty first level. `findBin_spec` says that, for exact bitmaps, this finds the first
non-empty list at or after the searched bin in lexicographic order, and gives up only if there is
none. With the soundness of `mappingSearch` the block at the head of that list is large enough.
-/
import FerrumAlloc.Tlsf.Lists

namespace FerrumAlloc.Tlsf

open Lib

/-- Lexicographic order on bins. -/
def BinLe (fl sl fl' sl' : Nat) : Prop := fl < fl' ∨ (fl = fl' ∧ sl ≤ sl')

variable {t : TlsfAllocator} {m : Mem} {L : Nat → Nat → List Nat} {F : FreeSet}

/-- The lowest set bit at or above `k`. -/
theorem trailingZeros_mask {x k : Nat} (hx : x < 2 ^ 32)
    (hne : x &&& shlW 32 (2 ^ 32 - 1) k ≠ 0) :
    let i := trailingZeros 32 (x &&& shlW 32 (2 ^ 32 - 1) k)
    k ≤ i ∧ x.testBit i = true ∧ ∀ j, k ≤ j → x.testBit j = true → i ≤ j := by
  intro i
  have hlt : x &&& shlW 32 (2 ^ 32 - 1) k < 2 ^ 32 := lt_of_le_of_lt Nat.and_le_left hx
  obtain ⟨_, hbit, hmin⟩ := trailingZeros_spec hlt hne
  rw [testBit_and_shlW_ones] at hbit
  simp only [Bool.and_eq_true, decide_eq_true_eq] at hbit
  refine ⟨hbit.1.2, hbit.1.1, fun j hj hb => ?_⟩
  by_contra hlt'
  have hj32 : j < 32 := by
    by_contra hge
    rw [testBit_of_width_le hx (by omega)] at hb
    exact Bool.false_ne_true hb
  have h0 := hmin j (by omega)
  rw [testBit_and_shlW_ones] at h0
  simp [hj, hb, hj32] at h0

/-- A masked word is zero exactly when no bit from `k` on is set. -/
theorem mask_eq_zero {x k : Nat} (hx : x < 2 ^ 32) (h0 : x &&& shlW 32 (2 ^ 32 - 1) k = 0) :
    ∀ j, k ≤ j → x.testBit j = false := by
  intro j hj
  by_cases hj32 : j < 32
  · have h := congrArg (fun z => z.testBit j) h0
    simp only [testBit_and_shlW_ones, Nat.zero_testBit] at h
    simpa [hj, hj32] using h
  · exact testBit_of_width_le hx (by omega)

/-- **The bitmap search** finds the first non-empty bin at or after the given one. -/
theorem findBin_spec (h : Bitmaps t L) (hrange : ∀ fl sl, L fl sl ≠ [] → fl < flCount)
    {fl : Nat} (sl : Nat) (hfl : fl < flCount) :
    match findBin t fl sl with
    | none => ∀ fl' sl', BinLe fl sl fl' sl' → L fl' sl' = []
    | some (f, l) => L f l ≠ [] ∧ BinLe fl sl f l ∧
        ∀ fl' sl', BinLe fl sl fl' sl' → L fl' sl' ≠ [] → BinLe f l fl' sl' := by
  unfold findBin
  by_cases hsl : t.slBitmaps fl &&& shlW 32 (2 ^ 32 - 1) sl = 0
  · have hslNone := mask_eq_zero (h.slLt fl hfl) hsl
    have hrow : ∀ sl', sl ≤ sl' → L fl sl' = [] := by
      intro sl' hle
      by_contra hne
      have := (h.slBit fl hfl sl').mpr hne
      rw [hslNone sl' hle] at this
      exact Bool.false_ne_true this
    by_cases hfl0 : t.flBitmap &&& shlW 32 (2 ^ 32 - 1) (fl + 1) = 0
    · simp only [hsl, ne_eq, not_true_eq_false, if_false, hfl0, if_true]
      rintro fl' sl' (hlt | ⟨rfl, hle⟩)
      · by_contra hne
        have := (h.flBit fl').mpr ⟨sl', hne⟩
        rw [mask_eq_zero h.flLt hfl0 fl' hlt] at this
        exact Bool.false_ne_true this
      · exact hrow sl' hle
    · obtain ⟨hge, hbit, hmin⟩ := trailingZeros_mask h.flLt hfl0
      simp only [hsl, ne_eq, not_true_eq_false, if_false, hfl0]
      obtain ⟨f, hf⟩ : ∃ f, f = trailingZeros 32 (t.flBitmap &&& shlW 32 (2 ^ 32 - 1) (fl + 1)) :=
        ⟨_, rfl⟩
      rw [← hf] at hge hbit hmin ⊢
      obtain ⟨s₀, hs₀⟩ := (h.flBit f).mp hbit
      have hfc : f < flCount := hrange f s₀ hs₀
      have hne0 : t.slBitmaps f ≠ 0 := by
        intro h0
        have := (h.slBit f hfc s₀).mpr hs₀
        rw [h0, Nat.zero_testBit] at this
        exact Bool.false_ne_true this
      obtain ⟨_, hbit', hmin'⟩ := trailingZeros_spec (h.slLt f hfc) hne0
      refine ⟨(h.slBit f hfc _).mp hbit', .inl hge, ?_⟩
      rintro fl' sl' (hlt | ⟨rfl, hle⟩) hne
      · have hfle := hmin fl' hlt ((h.flBit fl').mpr ⟨sl', hne⟩)
        rcases Nat.eq_or_lt_of_le hfle with rfl | hlt'
        · refine .inr ⟨rfl, ?_⟩
          by_contra hgt
          have := (h.slBit f hfc sl').mpr hne
          rw [hmin' sl' (by omega)] at this
          exact Bool.false_ne_true this
        · exact .inl hlt'
      · exact absurd (hrow sl' hle) hne
  · obtain ⟨hge, hbit, hmin⟩ := trailingZeros_mask (h.slLt fl hfl) hsl
    simp only [ne_eq, hsl, not_false_eq_true, if_true]
    refine ⟨(h.slBit fl hfl _).mp hbit, .inr ⟨rfl, hge⟩, ?_⟩
    rintro fl' sl' (hlt | ⟨rfl, hle⟩) hne
    · exact .inl hlt
    · exact .inr ⟨rfl, hmin sl' hle ((h.slBit fl hfl sl').mpr hne)⟩

/-! ## Filing and unfiling on the abstract lists -/

/-- The lists with block `b` of size `s` taken off its bin. -/
def unfile (L : Nat → Nat → List Nat) (b s : Nat) : Nat → Nat → List Nat :=
  updBin L (mapping s).1 (mapping s).2 ((L (mapping s).1 (mapping s).2).erase b)

/-- The lists with block `b` of size `s` put at the head of its bin. -/
def file (L : Nat → Nat → List Nat) (b s : Nat) : Nat → Nat → List Nat :=
  updBin L (mapping s).1 (mapping s).2 (b :: L (mapping s).1 (mapping s).2)

/-- The block that good-fit search takes for `sz` bytes: the head of the first non-empty bin at or
after the searched one. -/
structure Chosen (L : Nat → Nat → List Nat) (sz b s : Nat) : Prop where
  head : (L (mapping s).1 (mapping s).2).head? = some b
  le : BinLe (mappingSearch sz).1 (mappingSearch sz).2 (mapping s).1 (mapping s).2
  first : ∀ fl sl, BinLe (mappingSearch sz).1 (mappingSearch sz).2 fl sl → L fl sl ≠ [] →
    BinLe (mapping s).1 (mapping s).2 fl sl

/-- Every bin from the searched one on is empty. -/
def NoFit (L : Nat → Nat → List Nat) (sz : Nat) : Prop :=
  ∀ fl sl, BinLe (mappingSearch sz).1 (mappingSearch sz).2 fl sl → L fl sl = []

/-- **`find_suitable`**: null and no change when every bin from the searched one on is empty,
otherwise the head of the first non-empty one, which is large enough, taken off its list. -/
theorem findSuitable_spec (h : Filed t m L F) (hsizes : ∀ x s, F x s → size m x = s) {sz : Nat}
    (h16 : 16 ≤ sz) (h64 : sz < 2 ^ 64) :
    (findSuitable t m sz = .ok (t, m, 0) ∧ NoFit L sz) ∨
    ∃ b s t', F b s ∧ sz ≤ s ∧ Chosen L sz b s ∧
      findSuitable t m sz = .ok (t', unlinkMem m b, b) ∧
      Filed t' (unlinkMem m b) (unfile L b s) (F.erase b) ∧
      t'.poolStart = t.poolStart ∧ t'.poolEnd = t.poolEnd := by
  obtain ⟨fl, sl, hms⟩ : ∃ fl sl, mappingSearch sz = (fl, sl) := ⟨_, _, rfl⟩
  have hrange : ∀ f l, L f l ≠ [] → f < flCount := fun f l hne => (h.bin_lt_of_ne_nil hne).1
  simp only [NoFit, hms]
  by_cases hfl : fl < flCount
  · have hfind := findBin_spec h.bits hrange sl hfl
    have hnge : ¬ fl ≥ flCount := by omega
    cases hfb : findBin t fl sl with
    | none =>
      rw [hfb] at hfind
      refine .inl ⟨?_, hfind⟩
      simp only [findSuitable, hms, if_neg hnge, hfb, Exec.pure_eq]
    | some bin =>
      obtain ⟨f, l⟩ := bin
      rw [hfb] at hfind
      obtain ⟨hne, hle, hmin⟩ := hfind
      obtain ⟨hf, hl⟩ := h.bin_lt_of_ne_nil hne
      obtain ⟨b, rest, hb⟩ := List.exists_cons_of_ne_nil hne
      have hhead : t.lists f l = b := by rw [(h.dlist f l).head, hb]; rfl
      obtain ⟨s, hs, hmap⟩ := (h.mem f l b).mp (hb ▸ List.mem_cons_self)
      obtain ⟨t', hrem, hfiled, hps, hpe⟩ := removeFree_spec h hs (hsizes b s hs) hmap
      have hlarge : sz ≤ s := by
        obtain ⟨hsl, hlo⟩ := mappingSearch_sound h16 h64 hms hfl
        have hmono := binLo_mono hsl hle
        have hsz := binLo_mapping_le (h.ok.min hs) (lt_trans (h.ok.max hs) (by norm_num))
        rw [hmap] at hsz
        exact le_trans hlo (le_trans hmono hsz)
      have hcheck : findSuitable t m sz = .ok (t', unlinkMem m b, b) := by
        simp only [findSuitable, hms, if_neg hnge, hfb, checkIndex_of_lt hf, checkIndex_of_lt hl,
          Exec.bind_ok, hhead, hrem, Exec.pure_eq]
      refine .inr ⟨b, s, t', hs, hlarge, ⟨?_, ?_, ?_⟩, hcheck, ?_, hps, hpe⟩
      · rw [hmap, hb]; rfl
      · rw [hms, hmap]; exact hle
      · rw [hms, hmap]; exact hmin
      · rw [unfile, hmap]; exact hfiled
  · refine .inl ⟨?_, ?_⟩
    · have hge : fl ≥ flCount := by omega
      simp only [findSuitable, hms, if_pos hge, Exec.pure_eq]
    · rintro f l (hlt | ⟨rfl, _⟩)
      · by_contra hne
        have := hrange f l hne
        omega
      · by_contra hne
        exact hfl (hrange _ l hne)

end FerrumAlloc.Tlsf
