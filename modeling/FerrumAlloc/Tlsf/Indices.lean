/-
# FerrumAlloc.Tlsf.Indices -- which pools keep the bin indices in range

`insert_free` and `remove_free` index the lists and bitmaps by the bin of a block, and assert that the bin
is in range. Block sizes start from the payload of the pool, which `add_pool` does not bound: it checks
only that a block fits. So the assertion is a condition on the pool. A pool whose payload is below 4 MB
meets it in every run, since no block is larger than the pool. Any other pool breaks it at once, when
`add_pool` files its first block (`addPool_large`).

The search side does check: `find_suitable` gives up when `mapping_search` answers `FL_COUNT`.
-/
import FerrumAlloc.Tlsf.Bins
import FerrumAlloc.Tlsf.Runs

namespace FerrumAlloc.Tlsf

open Lib

/-- The regions that `add_pool` accepts: not at the null pointer, aligned, not wrapping, not ignored. -/
structure PoolRegion (base size : Nat) : Prop where
  pos : 0 < base
  al : base % 16 = 0
  fits : base + size < 2 ^ 64
  min : 48 ≤ size

instance (base size : Nat) : Decidable (PoolRegion base size) :=
  decidable_of_iff (0 < base ∧ base % 16 = 0 ∧ base + size < 2 ^ 64 ∧ 48 ≤ size)
    ⟨fun ⟨h1, h2, h3, h4⟩ => ⟨h1, h2, h3, h4⟩, fun h => ⟨h.pos, h.al, h.fits, h.min⟩⟩

variable {base size s : Nat}

/-- Sizes from 4 MB on have no first-level bin. -/
theorem flCount_le_mapping (h22 : 2 ^ 22 ≤ s) (h64 : s < 2 ^ 64) : flCount ≤ (mapping s).1 := by
  have hlog : 22 ≤ Nat.log2 s := (Nat.le_log2 (by omega)).mpr h22
  rw [mapping_eq (by omega) h64]
  show 21 - 4 + 1 ≤ Nat.log2 s - 4
  omega

/-- The payload of a pool is below 4 MB when the pool is below 4 MB and two headers. -/
theorem poolPayload_lt_iff (h64 : size < 2 ^ 64) : poolPayload size < 2 ^ 22 ↔ size < 2 ^ 22 + 32 := by
  rw [poolPayload_eq h64]
  omega

/-- **`add_pool` panics on a large pool**: the first block has no bin. -/
theorem addPool_large (m : Mem) (h : PoolRegion base size) (hbig : 2 ^ 22 ≤ poolPayload size) :
    addPool new m base size = .error .indexOutOfBounds := by
  have hfits := h.fits
  have hmin := h.min
  have hps : poolPayload size = (size - 32) - (size - 32) % 16 := poolPayload_eq (by omega)
  obtain ⟨ps, hpsdef⟩ : ∃ ps, ps = poolPayload size := ⟨_, rfl⟩
  rw [← hpsdef] at hps hbig
  have hlt : ps < 2 ^ 64 := by omega
  have hword : headerWord ps true false < 2 ^ 64 := headerWord_lt _ _ hlt
  have hread : ∀ {m : Mem}, word m base 1 = headerWord ps true false → Tlsf.size m base = ps := by
    intro m hw
    unfold Tlsf.size
    rw [sizeAndFlags_eq, hw]
    exact headerWord_size _ _ (by omega) hlt
  -- the links do not touch the header of the block, and neither does the sentinel
  obtain ⟨m₁, hm₁⟩ : ∃ m₁, m₁ = setLinkNext (setLinkPrev (writeHeader m base 0 (ps ||| fFree)) base 0) base 0 :=
    ⟨_, rfl⟩
  have hsize₁ : Tlsf.size m₁ base = ps := by
    apply hread
    rw [hm₁, setLinkNext_eq, word_setWord_ne (by decide), setLinkPrev_eq, word_setWord_ne (by decide)]
    unfold writeHeader
    rw [setSizeAndFlags_eq, ← headerWord_free]
    exact word_setWord_same hword
  have hnext : nextPhys m₁ base = base + 16 + ps := by
    unfold nextPhys
    rw [hsize₁]
    rfl
  obtain ⟨m₂, hm₂⟩ : ∃ m₂, m₂ = writeHeader m₁ (base + 16 + ps) ps fPrevFree := ⟨_, rfl⟩
  have hsize₂ : Tlsf.size m₂ base = ps := by
    have hapart : Apart base (base + 16 + ps) := .inl (by omega)
    have hword₂ : word m₂ base 1 = word m₁ base 1 := by
      rw [hm₂]
      unfold writeHeader
      rw [setSizeAndFlags_eq, word_setWord_apart hapart (by decide) (by decide), setPrevPhysSize_eq,
        word_setWord_apart hapart (by decide) (by decide)]
    unfold Tlsf.size at hsize₁ ⊢
    rw [sizeAndFlags_eq, hword₂]
    exact hsize₁
  have hbin := flCount_le_mapping hbig hlt
  have hcheck : checkIndex (mapping ps).1 flCount = .error .indexOutOfBounds := if_neg (Nat.not_lt_of_le hbin)
  have hmin' : ¬ size < 2 * headerSize + minPayload := Nat.not_lt_of_le hmin
  have hpay : (size - 2 * headerSize) &&& complement 64 (align - 1) = ps := hpsdef.symm
  unfold addPool
  simp only [if_neg hmin', hpay, ← hm₁, hnext, ← hm₂]
  unfold insertFree
  simp only [hsize₂, hcheck, Exec.bind_error]

/-- **No index is out of range**, in `add_pool` and in any call of any run, with any requests; and the
second-level index that a search starts from is in range when it does not give up. -/
structure IndicesInRange (base size : Nat) : Prop where
  addPool : ∀ m, Tlsf.addPool new m base size ≠ .error .indexOutOfBounds
  alloc : ∀ s, (anySystem base size).Reachable s → ∀ n ≤ usizeMax,
    Tlsf.alloc s.tlsf s.mem n ≠ .error .indexOutOfBounds
  free : ∀ s, (anySystem base size).Reachable s → ∀ e ∈ s.live,
    Tlsf.free s.tlsf s.mem e.ptr ≠ .error .indexOutOfBounds
  search : ∀ n ≤ usizeMax, (mappingSearch (adjusted n)).1 < flCount → (mappingSearch (adjusted n)).2 < slCount

theorem PoolArgs.indicesInRange (ha : PoolArgs base size) : IndicesInRange base size where
  addPool m herr := by
    obtain ⟨t, m', hrun, _⟩ := addPool_spec m ha
    exact absurd (hrun.symm.trans herr) nofun
  alloc s hr n hn herr := by
    obtain ⟨bs, L, h⟩ := reachable_anyState ha hr
    obtain ⟨r, hrun⟩ := h.alloc_returns hn
    exact absurd (hrun.symm.trans herr) nofun
  free s hr e he herr := by
    obtain ⟨bs, L, h⟩ := reachable_anyState ha hr
    obtain ⟨t, m, _, _, hrun, _⟩ := h.free_returns he
    exact absurd (hrun.symm.trans herr) nofun
  search n hn hfl := by
    obtain ⟨h16, h64⟩ := adjusted_bounds hn
    exact (mappingSearch_sound h16 h64 Prod.mk.eta.symm hfl).1

/-- **The indices are in range exactly for pools below 4 MB and two headers.** -/
theorem indicesInRange_iff (h : PoolRegion base size) : IndicesInRange base size ↔ size < 2 ^ 22 + 32 := by
  have h64 : size < 2 ^ 64 := by
    have := h.fits
    omega
  constructor
  · intro hrange
    by_contra hlarge
    have hbig : 2 ^ 22 ≤ poolPayload size := by
      have hiff := poolPayload_lt_iff h64
      omega
    exact hrange.addPool (fun _ => 0) (addPool_large _ h hbig)
  · intro hsmall
    exact PoolArgs.indicesInRange ⟨h.pos, h.al, h.fits, h.min, (poolPayload_lt_iff h64).mpr hsmall⟩

/-- One page is small enough. -/
theorem indicesInRange_iff_page : PoolRegion 4096 4096 ∧ (IndicesInRange 4096 4096 ↔ 4096 < 2 ^ 22 + 32) :=
  ⟨by decide, indicesInRange_iff (by decide)⟩

/-- **A pool of 4 MB and two headers panics in `add_pool`**, whatever its bytes were. -/
theorem not_indicesInRange_large : PoolRegion 4096 4194336 ∧
    (∀ m, addPool new m 4096 4194336 = .error .indexOutOfBounds) ∧ ¬ IndicesInRange 4096 4194336 := by
  have hregion : PoolRegion 4096 4194336 := by decide
  have hbig : 2 ^ 22 ≤ poolPayload 4194336 := by decide
  refine ⟨hregion, fun m => addPool_large m hregion hbig, fun hrange => ?_⟩
  exact hrange.addPool (fun _ => 0) (addPool_large _ hregion hbig)

end FerrumAlloc.Tlsf
