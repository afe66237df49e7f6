/-
# FerrumAlloc.Tlsf.Fit -- when an allocation succeeds

Good fit is neither first fit nor best fit. A request is rounded up to `a`, and then only blocks from the
least bin bound `T ≥ a` on are looked at: `reachable_alloc_fit` says that `alloc` fails exactly when no
free block has `T` bytes, and which block it takes otherwise.

The rounding has a price. A block is cut to `a` bytes, not to `T`, and goes back to the bin below `T` when
it is freed. So a request may fail right after a block of its own size has come back, unless `a` is itself
a bound (`reachable_free_alloc`, and `exists_free_alloc_null` for a pool where it fails).
-/
import FerrumAlloc.Tlsf.Bins
import FerrumAlloc.Tlsf.Determined
import FerrumAlloc.Tlsf.Runs

namespace FerrumAlloc.Tlsf

open Lib

/-- The free blocks of a pool, as found in memory. -/
def FreeAt (m : Mem) (start x : Nat) : Prop := BlockAt m start x ∧ isFree m x = true

section

variable {t : TlsfAllocator} {m : Mem} {bs : List Blk} {L : Nat → Nat → List Nat} {x s a T n p : Nat}

/-- The free blocks found in memory are those of the layout. -/
theorem PoolInv.freeAt_iff (h : PoolInv t m bs L) :
    FreeAt m t.poolStart x ↔ freeCells t.poolStart bs x (size m x) := by
  have hhdr : ∀ {b}, (x, b) ∈ cells t.poolStart (bs ++ [sentinel]) →
      isFree m x = b.free ∧ size m x = b.size := by
    intro b hb
    obtain ⟨pf, ps, hh⟩ := h.seg.headerAt hb
    have hok := h.seg_ok b (cells_mem hb)
    exact ⟨hh.isFree_eq hok, hh.size_eq hok⟩
  constructor
  · rintro ⟨hblock, hfree⟩
    obtain ⟨b, hb⟩ := h.blockAt_iff.mp hblock
    obtain ⟨hf, hs⟩ := hhdr hb
    rw [cells_append, List.mem_append] at hb
    rcases hb with hb | hb
    · have heq : b = ⟨size m x, true⟩ := by rw [hs, ← hfree, hf]
      show (x, (⟨size m x, true⟩ : Blk)) ∈ cells t.poolStart bs
      rw [← heq]
      exact hb
    · -- the sentinel is not free
      obtain ⟨_, rfl⟩ := Prod.mk.inj (List.mem_singleton.mp hb)
      exact absurd (hf.symm.trans hfree) nofun
  · intro hcell
    have hmem : (x, (⟨size m x, true⟩ : Blk)) ∈ cells t.poolStart (bs ++ [sentinel]) := by
      rw [cells_append]
      exact List.mem_append_left _ hcell
    exact ⟨h.blockAt_iff.mpr ⟨_, hmem⟩, (hhdr hmem).1⟩

theorem PoolInv.freeAt_of_cell (h : PoolInv t m bs L) (hx : freeCells t.poolStart bs x s) :
    FreeAt m t.poolStart x ∧ size m x = s := by
  have hs := h.size_eq hx
  refine ⟨h.freeAt_iff.mpr ?_, hs⟩
  rw [hs]
  exact hx

/-- **No bin has a fit exactly when no free block reaches the least bound.** -/
theorem PoolInv.noFit_iff (h : PoolInv t m bs L) (h16 : 16 ≤ a) (h64 : a < 2 ^ 64)
    (hT : IsLeast (fitBounds a) T) : NoFit L a ↔ ∀ x, FreeAt m t.poolStart x → size m x < T := by
  have hok := h.layout.freeCells_ok
  constructor
  · intro hno x hx
    have hcell := h.freeAt_iff.mp hx
    by_contra hge
    have hbin := (fitBound_le_size_iff h16 h64 hT (hok.min hcell) (hok.max hcell)).mpr (Nat.le_of_not_lt hge)
    have hmem := (h.filed.mem (mapping (size m x)).1 (mapping (size m x)).2 x).mpr ⟨_, hcell, rfl⟩
    rw [hno _ _ hbin] at hmem
    nomatch hmem
  · intro hsmall fl sl hbin
    by_contra hne
    obtain ⟨x, hx⟩ := List.exists_mem_of_ne_nil _ hne
    obtain ⟨s, hs, hmap⟩ := (h.filed.mem fl sl x).mp hx
    obtain ⟨hfree, hsize⟩ := h.freeAt_of_cell hs
    have hlt := hsmall x hfree
    rw [hsize] at hlt
    apply Nat.not_le_of_lt hlt
    apply (fitBound_le_size_iff h16 h64 hT (hok.min hs) (hok.max hs)).mp
    rw [hmap]
    exact hbin

/-- **The block that good fit takes** for `a` bytes: the head of the lowest list whose bin starts at the
least bound or above. -/
structure GoodFit (t : TlsfAllocator) (m : Mem) (a T b : Nat) : Prop where
  free : FreeAt m t.poolStart b
  large : a ≤ size m b
  bin : (mapping (size m b)).1 < flCount ∧ (mapping (size m b)).2 < slCount
  head : t.lists (mapping (size m b)).1 (mapping (size m b)).2 = b
  bound : T ≤ binLo (mapping (size m b)).1 (mapping (size m b)).2
  lowest : ∀ fl sl, fl < flCount → sl < slCount → t.lists fl sl ≠ 0 → T ≤ binLo fl sl →
    BinLe (mapping (size m b)).1 (mapping (size m b)).2 fl sl

/-- The chosen block is the good fit. -/
theorem PoolInv.goodFit (h : PoolInv t m bs L) (h16 : 16 ≤ a) (h64 : a < 2 ^ 64)
    (hT : IsLeast (fitBounds a) T) {b : Nat} (hb : freeCells t.poolStart bs b s) (hc : Chosen L a b s) :
    GoodFit t m a T b := by
  have hok := h.layout.freeCells_ok
  have hlist : ∀ fl sl, t.lists fl sl = (L fl sl).headD 0 := fun fl sl => (h.filed.dlist fl sl).head
  have hbin := h.filed.bin_lt ((h.filed.mem _ _ b).mpr ⟨s, hb, rfl⟩)
  have hTs : T ≤ s := (fitBound_le_size_iff h16 h64 hT (hok.min hb) (hok.max hb)).mp hc.le
  obtain ⟨hfree, hsize⟩ := h.freeAt_of_cell hb
  refine ⟨hfree, ?_, ?_, ?_, ?_, ?_⟩
  · rw [hsize]
    exact hT.1.1.trans hTs
  · rw [hsize]
    exact hbin
  · rw [hsize, hlist, List.headD_eq_head?_getD, hc.head]
    rfl
  · rw [hsize]
    exact (fitBound_le_iff h16 h64 hT hbin.1 hbin.2).mp hc.le
  · intro fl sl hfl hsl hne hle
    rw [hsize]
    apply hc.first fl sl ((fitBound_le_iff h16 h64 hT hfl hsl).mpr hle)
    intro hnil
    rw [hlist, hnil] at hne
    exact hne rfl

/-- What a call of `alloc` answers: null, without any change, when no free block reaches the bound, and
else the payload of the good fit. -/
inductive FitAnswer (t : TlsfAllocator) (m : Mem) (a T : Nat) : TlsfAllocator × Mem × Nat → Prop
  | refused : (∀ x, FreeAt m t.poolStart x → size m x < T) → FitAnswer t m a T (t, m, 0)
  | taken {t' : TlsfAllocator} {m' : Mem} {b : Nat} : (∃ x, FreeAt m t.poolStart x ∧ T ≤ size m x) →
      GoodFit t m a T b → FitAnswer t m a T (t', m', payload b)

theorem PoolInv.fitAnswer (h : PoolInv t m bs L) (h0 : 0 < n) (hn : n ≤ usizeMax)
    (hT : IsLeast (fitBounds (adjusted n)) T) :
    ∃ r, Tlsf.alloc t m n = .ok r ∧ FitAnswer t m (adjusted n) T r := by
  obtain ⟨h16, h64⟩ := adjusted_bounds hn
  rcases h.alloc_any h0 hn with ⟨hrun, hno⟩ | ⟨t', m', bs', L', p, hrun, ha⟩
  · exact ⟨_, hrun, .refused ((h.noFit_iff h16 h64 hT).mp hno)⟩
  · obtain ⟨s, hb, hchosen⟩ := ha.chosen
    have hp : p = payload (fromPayload p) := by
      obtain ⟨pre, _, _, _, rfl, _⟩ := ha.carve.inv
      exact (Nat.sub_add_cancel (Nat.le_add_left 16 _)).symm
    have hfit := h.goodFit h16 h64 hT hb hchosen
    have hbound : T ≤ size m (fromPayload p) :=
      hfit.bound.trans (by
        have hcell := h.freeAt_iff.mp hfit.free
        have hok := h.layout.freeCells_ok
        exact binLo_mapping_le (hok.min hcell) ((hok.max hcell).trans (by norm_num)))
    refine ⟨_, hrun, ?_⟩
    rw [hp]
    exact .taken ⟨_, hfit.free, hbound⟩ hfit

/-- Null means that no free block reaches the bound. -/
theorem FitAnswer.null_iff {r : TlsfAllocator × Mem × Nat} (h : FitAnswer t m a T r) :
    r.2.2 = 0 ↔ ∀ x, FreeAt m t.poolStart x → size m x < T := by
  cases h with
  | refused hall => exact ⟨fun _ => hall, fun _ => rfl⟩
  | @taken t' m' b hsome _ =>
    constructor
    · intro hnull
      exact absurd hnull (Nat.succ_ne_zero _)
    · intro hall
      obtain ⟨x, hx, hle⟩ := hsome
      exact absurd (hall x hx) (Nat.not_lt_of_le hle)

end

/-! ## In every run -/

section

variable {base size : Nat} {s : State}

/-- **Allocation succeeds exactly when a good fit exists.** In every reachable state, with `a` the rounded
request and `T` the least bin bound from `a` on: `alloc` returns null, and changes nothing, if and only if
no free block has `T` bytes; otherwise it takes the head of the lowest non-empty bin from `T` on. -/
theorem reachable_alloc_fit (ha : PoolArgs base size) (hr : (anySystem base size).Reachable s) {n : Nat}
    (h1 : 1 ≤ n) (hn : n ≤ usizeMax - 16) :
    ∃ a T, a = max 16 ((n + 15) / 16 * 16) ∧
      IsLeast {T | a ≤ T ∧ ∃ f l, l < 16 ∧ T = (16 + l) * 2 ^ f} T ∧
      ∃ t' m' p, Tlsf.alloc s.tlsf s.mem n = .ok (t', m', p) ∧
        (p = 0 ↔ ∀ x, FreeAt s.mem s.tlsf.poolStart x → Tlsf.size s.mem x < T) ∧
        (p = 0 → t' = s.tlsf ∧ m' = s.mem) ∧
        (p ≠ 0 → ∃ b, p = payload b ∧ GoodFit s.tlsf s.mem a T b) := by
  obtain ⟨bs, L, h⟩ := reachable_anyState ha hr
  obtain ⟨T, hT⟩ := exists_isLeast_fitBounds (adjusted n)
  have hmax : n ≤ usizeMax := hn.trans (Nat.sub_le _ _)
  have hadj : adjusted n = max 16 ((n + 15) / 16 * 16) := by
    unfold adjusted
    rw [alignUpSize_eq hn, Nat.max_comm]
    rfl
  obtain ⟨r, hrun, hans⟩ := h.inv.fitAnswer h1 hmax hT
  refine ⟨adjusted n, T, hadj, hT, r.1, r.2.1, r.2.2, hrun, hans.null_iff, ?_, ?_⟩
  · intro hnull
    cases hans with
    | refused => exact ⟨rfl, rfl⟩
    | taken => exact absurd hnull (Nat.succ_ne_zero _)
  · intro hne
    cases hans with
    | refused => exact absurd rfl hne
    | taken _ hfit => exact ⟨_, rfl, hfit⟩

/-- A request for 520 bytes on a page with 100 bytes taken. -/
theorem reachable_alloc_fit_page : ∃ s : State, s.live = [⟨4112, 100, 112⟩] ∧
    (anySystem 4096 4096).Reachable s ∧ ∃ a T, a = max 16 ((520 + 15) / 16 * 16) ∧
      IsLeast {T | a ≤ T ∧ ∃ f l, l < 16 ∧ T = (16 + l) * 2 ^ f} T ∧
      ∃ t' m' p, Tlsf.alloc s.tlsf s.mem 520 = .ok (t', m', p) ∧
        (p = 0 ↔ ∀ x, FreeAt s.mem s.tlsf.poolStart x → Tlsf.size s.mem x < T) ∧
        (p = 0 → t' = s.tlsf ∧ m' = s.mem) ∧
        (p ≠ 0 → ∃ b, p = payload b ∧ GoodFit s.tlsf s.mem a T b) := by
  obtain ⟨⟨s, hlive, hr⟩, _⟩ := exists_page
  have hany := reachable_any hr
  exact ⟨s, hlive, hany, reachable_alloc_fit (by decide) hany (by decide) (by decide)⟩

end

/-! ## The same request again -/

section

variable {start : Nat} {bs bs' : List Blk} {L L' : Nat → Nat → List Nat} {p x z : Nat}

/-- **A freed block lies inside a free block**: itself, merged with its free neighbours. -/
theorem Release.covers (h : Release start L bs p bs' L') (hx : UsedAt start bs x z) (hp : p = x + 16) :
    ∃ y s, freeCells start bs' y s ∧ y ≤ x ∧ x + 16 + z ≤ y + 16 + s := by
  obtain ⟨pre, s, post, pre', s₁, s₂, post', L₁, L₂, rfl, hp', hnext, hprev, rfl, _⟩ := h.inv
  -- the block that is freed is the one after `pre`
  have hcell : (endAddr start pre, (⟨s, false⟩ : Blk)) ∈ cells start (pre ++ ⟨s, false⟩ :: post) := by
    rw [cells_append]
    exact List.mem_append_right _ List.mem_cons_self
  obtain rfl : x = endAddr start pre := by omega
  obtain rfl : z = s := congrArg Blk.size (cells_unique hx hcell)
  have hs₁ : z ≤ s₁ := by
    cases hnext with
    | used => exact Nat.le_refl _
    | free => omega
  refine ⟨endAddr start pre', s₂, ?_, ?_⟩
  · exact freeCells_mid.mpr (.inr (.inl ⟨rfl, rfl⟩))
  · have haddr := (absorbPrev_used hprev 0 0).2
    cases hprev with
    | used => exact ⟨Nat.le_refl _, by omega⟩
    | free =>
      simp only [endAddr_append, endAddr_cons, endAddr_nil] at haddr ⊢
      exact ⟨by omega, by omega⟩

end

section

variable {base size : Nat} {s : State} {bs : List Blk} {L : Nat → Nat → List Nat} {e : Payload}

/-- The usable size of a live payload is a multiple of sixteen that covers the rounded request. -/
theorem AnyState.adjusted_le (h : AnyState base size s bs L) (he : e ∈ s.live) :
    adjusted e.req ≤ e.usable := by
  obtain ⟨x, _, hu⟩ := h.block he
  rw [← h.start_eq] at hu
  have hblk := h.inv.layout.blk _ (cells_mem hu)
  have hreq : clampSize e.req ≤ e.usable := h.clamped.req e.clamp (AnyState.clamp_mem he)
  rw [← adjusted_clampSize (h.asked e he).2]
  unfold adjusted
  rw [alignUpSize_eq (clampSize_le _)]
  unfold minPayload
  simp only at hblk
  omega

/-- **Freeing a payload and asking for it again.** In every reachable state, for a live payload that was
obtained by asking for `n` bytes: `free` leaves its block inside a free block, and asking for `n` bytes
again fails exactly when neither that block nor any other free one reaches the least bin bound `T` from
the rounded request on. When the rounded request is a bin bound itself, asking again does not fail. -/
theorem reachable_free_alloc (ha : PoolArgs base size) (hr : (anySystem base size).Reachable s)
    (he : e ∈ s.live) :
    ∃ T t m t' m' p, IsLeast {T | adjusted e.req ≤ T ∧ ∃ f l, l < 16 ∧ T = (16 + l) * 2 ^ f} T ∧
      Tlsf.free s.tlsf s.mem e.ptr = .ok (t, m) ∧ Tlsf.alloc t m e.req = .ok (t', m', p) ∧
      (∃ b, FreeAt m t.poolStart b ∧ payload b ≤ e.ptr ∧ e.ptr + e.usable ≤ payload b + Tlsf.size m b) ∧
      (p = 0 ↔ ∀ x, FreeAt m t.poolStart x → Tlsf.size m x < T) ∧
      ((∃ f l, l < 16 ∧ adjusted e.req = (16 + l) * 2 ^ f) → p ≠ 0) := by
  obtain ⟨bs, L, h⟩ := reachable_anyState ha hr
  obtain ⟨x, hx, hu⟩ := h.block he
  obtain ⟨t, m, bs', L', hfree, hrel⟩ := h.free_returns he
  obtain ⟨hpos, hmax⟩ := h.asked e he
  obtain ⟨T, hT⟩ := exists_isLeast_fitBounds (adjusted e.req)
  obtain ⟨r, hrun, hans⟩ := hrel.inv.fitAnswer hpos hmax hT
  have hrelease := hrel.release
  rw [h.start_eq] at hrelease
  obtain ⟨y, z, hcell, hlo, hhi⟩ := hrelease.covers hu hx
  rw [← h.start_eq, ← hrel.start_eq] at hcell
  obtain ⟨hy, hz⟩ := hrel.inv.freeAt_of_cell hcell
  refine ⟨T, t, m, r.1, r.2.1, r.2.2, hT, hfree, hrun, ⟨y, hy, ?_, ?_⟩, hans.null_iff, ?_⟩
  · rw [hx]
    exact Nat.add_le_add_right hlo 16
  · rw [hx, hz]
    exact hhi
  · intro hbound hnull
    -- the rounded request is the least bound, and the merged block holds it
    have hTa : T ≤ adjusted e.req := hT.2 ⟨Nat.le_refl _, hbound⟩
    have hsmall := hans.null_iff.mp hnull y hy
    have hfits := h.adjusted_le he
    rw [hz] at hsmall
    omega

/-- A payload of 100 bytes on a page: it can be had again, as 112 is a bin bound. -/
theorem reachable_free_alloc_page : ∃ s : State, s.live = [⟨4112, 100, 112⟩] ∧
    ∃ t m t' m' p, Tlsf.free s.tlsf s.mem 4112 = .ok (t, m) ∧ Tlsf.alloc t m 100 = .ok (t', m', p) ∧
      p ≠ 0 := by
  obtain ⟨⟨s, hlive, hr⟩, _⟩ := exists_page
  obtain ⟨T, t, m, t', m', p, _, hfree, hrun, _, _, hne⟩ :=
    reachable_free_alloc (e := ⟨4112, 100, 112⟩) (by decide) (reachable_any hr)
      (by rw [hlive]; exact List.mem_singleton_self _)
  exact ⟨s, hlive, t, m, t', m', p, hfree, hrun, hne ⟨2, 12, by decide, by decide⟩⟩

end

/-! ### Where it fails -/

private theorem ok_null {x : Exec (TlsfAllocator × Mem × Nat)} {r : TlsfAllocator × Mem × Nat} (h : x = .ok r)
    (hnull : r.2.2 = 0) : x = .ok (r.1, r.2.1, 0) := by
  rw [h, ← hnull]

private theorem tight_addPool : (addPool new (fun _ => 0) 4096 592).isOk = true := by decide +kernel

private theorem tight_alloc : (Tlsf.alloc (Exec.result _ tight_addPool).1 (Exec.result _ tight_addPool).2
    520).isOk = true := by decide +kernel

private theorem tight_alloc_rest : (Tlsf.alloc (Exec.result _ tight_alloc).1
    (Exec.result _ tight_alloc).2.1 16).isOk = true := by decide +kernel

private theorem tight_free : (Tlsf.free (Exec.result _ tight_alloc_rest).1
    (Exec.result _ tight_alloc_rest).2.1 4112).isOk = true := by decide +kernel

private theorem tight_again : (Tlsf.alloc (Exec.result _ tight_free).1 (Exec.result _ tight_free).2
    520).isOk = true := by decide +kernel

/-- **A payload that cannot be had again.** On a pool of 560 bytes, 520 bytes are taken as a block of 528,
and the other 16 bytes after it. When the 528 bytes come back they are filed below the bound 544, and the
request for 520 bytes, looking from 544 on, fails. -/
theorem exists_free_alloc_null : PoolArgs 4096 592 ∧ ∃ s : State, ∃ e ∈ s.live,
    (anySystem 4096 592).Reachable s ∧ e = ⟨4112, 520, 528⟩ ∧
    ∃ t m t' m', Tlsf.free s.tlsf s.mem e.ptr = .ok (t, m) ∧ Tlsf.alloc t m e.req = .ok (t', m', 0) := by
  obtain ⟨s₀, hs₀⟩ : ∃ s₀ : State, s₀ = ⟨(Exec.result _ tight_addPool).1, (Exec.result _ tight_addPool).2, []⟩ :=
    ⟨_, rfl⟩
  have hr₀ : (anySystem 4096 592).Reachable s₀ :=
    .init ⟨fun _ => 0, by rw [hs₀]; exact Exec.eq_ok_result _ tight_addPool, by rw [hs₀]⟩
  subst hs₀
  have hr₁ := hr₀.step (AnyStep.alloc (n := 520) (by decide) (Exec.eq_ok_result _ tight_alloc))
  have hr₂ := hr₁.step (AnyStep.alloc (n := 16) (by decide) (Exec.eq_ok_result _ tight_alloc_rest))
  have hagain := ok_null (Exec.eq_ok_result _ tight_again) (by decide +kernel)
  refine ⟨by decide, _, ⟨4112, 520, 528⟩, ?_, hr₂, rfl, _, _, _, _,
    Exec.eq_ok_result _ tight_free, hagain⟩
  decide +kernel

end FerrumAlloc.Tlsf
