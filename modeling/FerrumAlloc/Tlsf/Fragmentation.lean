/-
# FerrumAlloc.Tlsf.Fragmentation -- how much of a pool may be lost to free blocks that are too small

Frees merge at once, so no two free blocks are neighbours: there is at most one more of them than of live
payloads. Free blocks, live payloads and their headers fill the pool (`reachable_accounting`).

Hence free memory cannot be scattered over too many blocks: if a request fails, each free block is smaller than
the least bin bound from the rounded request on, and there are few of them. `reachable_alloc_room` turns this
into a promise that looks at the live requests only: whatever the run was that led here, the request is served
as long as they leave enough of the pool.
-/
import FerrumAlloc.Tlsf.Fit
import FerrumAlloc.Lib.Counting

namespace FerrumAlloc.Tlsf

open Lib

/-! ## The blocks of a layout -/

section

variable {a x s : Nat} {l : List Blk}

/-- The free blocks with their addresses. -/
def freeOf (a : Nat) (l : List Blk) : List (Nat × Blk) := (cells a l).filter fun c => c.2.free

/-- The used blocks with their addresses. -/
def usedOf (a : Nat) (l : List Blk) : List (Nat × Blk) := (cells a l).filter fun c => !c.2.free

/-- The bytes of a block, with its header. -/
def space (c : Nat × Blk) : Nat := c.2.size + 16

theorem cells_snd (a : Nat) (l : List Blk) : (cells a l).map Prod.snd = l := by
  induction l generalizing a with
  | nil => rfl
  | cons b l ih => simp [ih]

/-- The blocks are laid out without gaps. -/
theorem endAddr_eq_sum (a : Nat) (l : List Blk) : endAddr a l = a + ((cells a l).map space).sum := by
  induction l generalizing a with
  | nil => rfl
  | cons b l ih =>
    have hspace : space (a, b) = b.size + 16 := rfl
    rw [endAddr_cons, ih, cells_cons, List.map_cons, List.sum_cons, hspace]
    omega

theorem cells_nodup (a : Nat) (l : List Blk) : (cells a l).Nodup := by
  induction l generalizing a with
  | nil => exact List.nodup_nil
  | cons b l ih =>
    refine List.nodup_cons.mpr ⟨fun hmem => ?_, ih _⟩
    have hlo := cells_lo hmem
    omega

theorem mem_freeOf : (x, ⟨s, true⟩) ∈ freeOf a l ↔ freeCells a l x s := by
  simp [freeOf, freeCells]

theorem exists_of_mem_freeOf {c : Nat × Blk} (h : c ∈ freeOf a l) : ∃ s, c = (c.1, ⟨s, true⟩) := by
  obtain ⟨x, s, free⟩ := c
  obtain ⟨_, hfree⟩ := List.mem_filter.mp h
  exact ⟨s, by rw [show free = true from hfree]⟩

theorem mem_usedOf : (x, ⟨s, false⟩) ∈ usedOf a l ↔ UsedAt a l x s := by
  simp [usedOf, UsedAt]

theorem exists_of_mem_usedOf {c : Nat × Blk} (h : c ∈ usedOf a l) : ∃ s, c = (c.1, ⟨s, false⟩) := by
  obtain ⟨x, s, free⟩ := c
  obtain ⟨_, hfree⟩ := List.mem_filter.mp h
  exact ⟨s, by rw [show free = false by simpa using hfree]⟩

/-- **There is at most one more free block than used ones**, as no two free blocks are neighbours. -/
theorem freeOf_length_le (h : NoAdjacentFree l) : (freeOf a l).length ≤ (usedOf a l).length + 1 := by
  have hchain : (cells a l).IsChain fun c d => ¬ (c.2.free = true ∧ d.2.free = true) := by
    unfold NoAdjacentFree at h
    rw [← cells_snd a l, List.isChain_map] at h
    exact h
  have hle := countP_le_of_isChain (p := fun c : Nat × Blk => c.2.free) hchain
  unfold freeOf usedOf
  rw [← List.countP_eq_length_filter, ← List.countP_eq_length_filter]
  exact hle.trans (Nat.add_le_add_left (Bool.toNat_le _) _)

end

/-! ## The least bound -/

section

variable {a T : Nat}

/-- The least bound is at most a sixteenth above the size. -/
theorem fitBound_le (h16 : 16 ≤ a) (h64 : a < 2 ^ 64) (hT : IsLeast (fitBounds a) T) : T ≤ a + a / 16 := by
  obtain ⟨f, l, hmap⟩ : ∃ f l, mapping a = (f, l) := ⟨_, _, rfl⟩
  obtain ⟨hl, hlo, hhi⟩ := (mapping_iff h16 h64).mp hmap
  -- the next bound but the one that `a` has reached
  have hnext : T ≤ (17 + l) * 2 ^ f := by
    refine hT.2 ⟨hhi.le, ?_⟩
    by_cases hlast : l = 15
    · exact ⟨f + 1, 0, by omega, by rw [hlast, pow_succ]; omega⟩
    · exact ⟨f, l + 1, by omega, by rw [show 16 + (l + 1) = 17 + l by omega]⟩
  have hwidth : (17 + l) * 2 ^ f = binLo f l + 2 ^ f := by
    unfold binLo
    ring
  have hsmall : 16 * 2 ^ f ≤ binLo f l := Nat.mul_le_mul_right _ (Nat.le_add_right 16 l)
  omega

/-- Small multiples of sixteen are bounds. -/
theorem binLo_mapping_small : ∀ k < 16, 0 < k → binLo (mapping (16 * k)).1 (mapping (16 * k)).2 = 16 * k := by
  decide

/-- Like all block sizes, the least bound for one is a multiple of sixteen. -/
theorem fitBound_mod (h16 : 16 ≤ a) (h64 : a < 2 ^ 64) (hmod : a % 16 = 0) (hT : IsLeast (fitBounds a) T) :
    T % 16 = 0 := by
  obtain ⟨hle, f, l, hl, heq⟩ := hT.1
  by_cases hf : 4 ≤ f
  · obtain ⟨k, rfl⟩ := Nat.exists_eq_add_of_le hf
    have hsplit : (16 + l) * 2 ^ (4 + k) = 16 * ((16 + l) * 2 ^ k) := by
      rw [pow_add]
      ring
    rw [heq, hsplit]
    exact Nat.mul_mod_right ..
  · -- `a` itself is the bound
    have hpow : 2 ^ f ≤ 2 ^ 3 := Nat.pow_le_pow_right (by decide) (by omega)
    have hsmall : T ≤ 31 * 2 ^ 3 := heq ▸ Nat.mul_le_mul (by omega) hpow
    have hself := binLo_mapping_small (a / 16) (by omega) (by omega)
    rw [show 16 * (a / 16) = a by omega] at hself
    have hTa : T ≤ a := hT.2 ⟨Nat.le_refl _, _, _, ((mapping_iff (s := a) h16 h64).mp rfl).1, hself.symm⟩
    rw [Nat.le_antisymm hTa hle]
    exact hmod

end

/-! ## In every run -/

section

variable {base size n T : Nat} {s s' : State} {bs bs' : List Blk} {L L' : Nat → Nat → List Nat} {e : Payload}
  {ev : Event}

/-- The block of a live payload. -/
def Payload.cell (e : Payload) : Nat × Blk := (e.ptr - 16, ⟨e.usable, false⟩)

/-- **The used blocks are those of the live payloads.** -/
theorem AnyState.used_perm (h : AnyState base size s bs L) : (usedOf base bs).Perm (s.live.map Payload.cell) := by
  have hptr : (s.live.map Payload.ptr).Nodup := by
    have hnd := h.clamped.nodup
    unfold State.clamp at hnd
    rw [List.map_map] at hnd
    exact hnd
  have hcells : (s.live.map Payload.cell).Nodup := by
    refine (List.nodup_map_iff_inj_on hptr.of_map).mpr fun e he f hf heq => ?_
    obtain ⟨x, hx, _⟩ := h.block he
    obtain ⟨y, hy, _⟩ := h.block hf
    have haddr : e.ptr - 16 = f.ptr - 16 := congrArg Prod.fst heq
    exact List.inj_on_of_nodup_map hptr he hf (by omega)
  refine (List.perm_ext_iff_of_nodup ((cells_nodup base bs).filter _) hcells).mpr fun c => ⟨fun hc => ?_, fun hc => ?_⟩
  · obtain ⟨z, hz⟩ := exists_of_mem_usedOf hc
    rw [hz] at hc
    obtain ⟨g, hg, hgx, hgz⟩ := h.clamped.live (mem_usedOf.mp hc)
    obtain ⟨e, he, rfl⟩ := List.mem_map.mp hg
    refine List.mem_map.mpr ⟨e, he, ?_⟩
    have hex : e.ptr = c.1 + 16 := hgx
    have hez : e.usable = z := hgz
    unfold Payload.cell
    rw [hz, hex, hez]
    rfl
  · obtain ⟨e, he, rfl⟩ := List.mem_map.mp hc
    obtain ⟨x, hx, hu⟩ := h.block he
    have hcell : e.cell = (x, ⟨e.usable, false⟩) := by
      unfold Payload.cell
      rw [hx]
      rfl
    rw [hcell]
    exact mem_usedOf.mpr hu

/-- **Free blocks, live payloads and headers fill the pool.** -/
theorem AnyState.accounting (h : AnyState base size s bs L) :
    (freeOf base bs).length ≤ s.live.length + 1 ∧
      ((freeOf base bs).map space).sum + (s.live.map fun e => e.usable + 16).sum = poolPayload size + 16 := by
  have hperm := h.used_perm
  constructor
  · have hle := freeOf_length_le (a := base) h.inv.layout.noAdj
    rw [hperm.length_eq, List.length_map] at hle
    exact hle
  · have hused : ((usedOf base bs).map space).sum = (s.live.map fun e => e.usable + 16).sum := by
      rw [(hperm.map space).sum_nat, List.map_map]
      rfl
    have hall := List.sum_map_filter_add_sum_map_filter_not (fun c => c.2.free = true) space (cells base bs)
    simp only [Bool.decide_eq_true, decide_not] at hall
    have htiles := h.clamped.tiles
    rw [endAddr_eq_sum] at htiles
    rw [← hused]
    unfold freeOf usedOf
    omega

/-- The usable size of every live payload exceeds its rounded request by sixteen bytes at most. -/
def State.Tight (s : State) : Prop := ∀ e ∈ s.live, e.usable ≤ adjusted e.req + 16

theorem adjusted_mod (hn : n ≤ usizeMax) : adjusted n % 16 = 0 := by
  obtain ⟨_, hmod, _⟩ := adjusted_spec (clampSize_le n)
  rwa [adjusted_clampSize hn] at hmod

theorem le_add_sixteen {z k : Nat} (hz : z % 16 = 0) (hk : k % 16 = 0) (hlt : z < k + 32) : z ≤ k + 16 := by
  omega

/-- A new payload has a block of the rounded size, or with less than a header and the least payload more. -/
theorem PoolInv.usable_lt {t t' : TlsfAllocator} {m m' : Mem} {p : Nat} (h : PoolInv t m bs L) (h0 : 0 < n)
    (hn : n ≤ usizeMax) (hrun : Tlsf.alloc t m n = .ok (t', m', p)) (hp : p ≠ 0) :
    usableSize m' p < adjusted n + 32 := by
  rcases h.alloc_any h0 hn with ⟨hnone, _⟩ | ⟨_, _, bs', L', _, hsome, ha⟩
  · obtain ⟨_, heq⟩ := Prod.mk.inj (Except.ok.inj (hrun.symm.trans hnone))
    exact absurd (Prod.mk.inj heq).2 hp
  · obtain ⟨rfl, heq⟩ := Prod.mk.inj (Except.ok.inj (hrun.symm.trans hsome))
    obtain ⟨rfl, rfl⟩ := Prod.mk.inj heq
    obtain ⟨x, z, hx, _, hz, _, hused⟩ := ha.carve.used
    have hux : UsedAt t'.poolStart bs' x z := by
      rw [ha.start_eq]
      exact (hused x z).mpr (.inr ⟨rfl, rfl⟩)
    have hsize : usableSize m' p = z := by
      rw [usableSize, if_neg hp, hx, show fromPayload (x + 16) = x from Nat.add_sub_cancel x 16]
      exact ha.inv.size_eq hux
    rw [hsize]
    exact hz

/-- Step lemma. -/
theorem State.Tight.step (ht : s.Tight) (h : AnyState base size s bs L) (h' : AnyState base size s' bs' L')
    (hs : AnyStep s ev s') : s'.Tight := by
  cases hs with
  | @alloc n r hn hrun =>
    intro e he
    obtain ⟨hpos, _⟩ := h'.asked e he
    obtain ⟨x, _, hu⟩ := h'.block he
    rw [← h'.start_eq] at hu
    have hsize : e.usable % 16 = 0 := (h'.inv.layout.blk _ (cells_mem hu)).2
    unfold State.issue at he
    split at he
    · exact ht e he
    · rename_i hp
      rcases List.mem_cons.mp he with rfl | he
      · have hlt := h.inv.usable_lt (n := n) hpos hn hrun hp
        have hadj := adjusted_mod hn
        exact le_add_sixteen hsize hadj hlt
      · exact ht e he
  | free _ _ => exact fun e he => ht e (List.mem_of_mem_erase he)
  | write _ _ _ => exact ht

/-- Run lemma. -/
theorem reachable_tight (ha : PoolArgs base size) (hr : (anySystem base size).Reachable s) : s.Tight := by
  refine hr.invariant (I := State.Tight) ?_ ?_
  · rintro s ⟨_, _, hlive⟩ e he
    rw [hlive] at he
    nomatch he
  · intro s e s' hr ht hs
    obtain ⟨bs, L, h⟩ := reachable_anyState ha hr
    obtain ⟨bs', L', h'⟩ := reachable_anyState ha (hr.step hs)
    exact ht.step h h' hs

/-- **Where the bytes of a pool are.** In every reachable state there are at most one more free blocks than live
payloads; with sixteen bytes for the header of each, free blocks and live payloads fill the pool up to the
sentinel; and no payload has more than sixteen bytes above its rounded request. -/
theorem reachable_accounting (ha : PoolArgs base size) (hr : (anySystem base size).Reachable s) :
    ∃ fs : List Nat, fs.Nodup ∧ (∀ x, x ∈ fs ↔ FreeAt s.mem s.tlsf.poolStart x) ∧
      fs.length ≤ s.live.length + 1 ∧
      (fs.map fun x => Tlsf.size s.mem x + 16).sum + (s.live.map fun e => e.usable + 16).sum =
        poolPayload size + 16 ∧
      ∀ e ∈ s.live, e.usable ≤ adjusted e.req + 16 := by
  obtain ⟨bs, L, h⟩ := reachable_anyState ha hr
  obtain ⟨hlen, hsum⟩ := h.accounting
  have hmem : ∀ {c}, c ∈ freeOf base bs → freeCells s.tlsf.poolStart bs c.1 c.2.size := fun {c} hc => by
    obtain ⟨z, hz⟩ := exists_of_mem_freeOf hc
    rw [hz] at hc ⊢
    rw [h.start_eq]
    exact mem_freeOf.mp hc
  refine ⟨(freeOf base bs).map Prod.fst, ?_, fun x => ⟨fun hx => ?_, fun hx => ?_⟩, ?_, ?_, reachable_tight ha hr⟩
  · refine (List.nodup_map_iff_inj_on ((cells_nodup base bs).filter _)).mpr fun c hc d hd heq => ?_
    obtain ⟨x, b⟩ := c
    obtain ⟨y, b'⟩ := d
    obtain rfl : x = y := heq
    rw [cells_unique (List.mem_filter.mp hc).1 (List.mem_filter.mp hd).1]
  · obtain ⟨c, hc, rfl⟩ := List.mem_map.mp hx
    exact (h.inv.freeAt_of_cell (hmem hc)).1
  · have hcell := h.inv.freeAt_iff.mp hx
    rw [h.start_eq] at hcell
    exact List.mem_map.mpr ⟨_, mem_freeOf.mpr hcell, rfl⟩
  · rw [List.length_map]
    exact hlen
  · rw [← hsum, List.map_map]
    refine congrArg (· + _) (congrArg List.sum (List.map_congr_left fun c hc => ?_))
    show Tlsf.size s.mem c.1 + 16 = c.2.size + 16
    rw [(h.inv.freeAt_of_cell (hmem hc)).2]

/-- One payload of 100 bytes on a page: 4048 bytes, with two headers. -/
theorem reachable_accounting_page : ∃ (s : State) (fs : List Nat), s.live = [⟨4112, 100, 112⟩] ∧
    (∀ x, x ∈ fs ↔ FreeAt s.mem s.tlsf.poolStart x) ∧ fs.length ≤ 2 ∧
    (fs.map fun x => Tlsf.size s.mem x + 16).sum + 128 = 4080 := by
  obtain ⟨⟨s, hlive, hr⟩, _⟩ := exists_page
  obtain ⟨fs, _, hmem, hlen, hsum, _⟩ := reachable_accounting (by decide) (reachable_any hr)
  rw [hlive] at hlen hsum
  exact ⟨s, fs, hlive, hmem, hlen, hsum⟩

/-- When a request is refused, the free blocks are too small, and too few to be much together. -/
theorem AnyState.refused_space (h : AnyState base size s bs L) (hn : n ≤ usizeMax)
    (hT : IsLeast (fitBounds (adjusted n)) T) (hno : ∀ x, FreeAt s.mem s.tlsf.poolStart x → Tlsf.size s.mem x < T) :
    poolPayload size + 16 ≤ (s.live.map fun e => e.usable + 16).sum + (s.live.length + 1) * T := by
  obtain ⟨hlen, hsum⟩ := h.accounting
  obtain ⟨h16, h64⟩ := adjusted_bounds hn
  have hTmod := fitBound_mod h16 h64 (adjusted_mod hn) hT
  have hsmall : ∀ c ∈ freeOf base bs, space c ≤ T := by
    intro c hc
    obtain ⟨z, hz⟩ := exists_of_mem_freeOf hc
    rw [hz] at hc ⊢
    have hcell := mem_freeOf.mp hc
    rw [← h.start_eq] at hcell
    obtain ⟨hfree, hsize⟩ := h.inv.freeAt_of_cell hcell
    have hlt := hno _ hfree
    have hmod : z % 16 = 0 := (h.inv.layout.blk _ (cells_mem hcell)).2
    show z + 16 ≤ T
    omega
  have hfree := List.sum_le_card_nsmul ((freeOf base bs).map space) T fun k hk => by
    obtain ⟨c, hc, rfl⟩ := List.mem_map.mp hk
    exact hsmall c hc
  rw [List.length_map, Nat.nsmul_eq_mul] at hfree
  have hcount : (freeOf base bs).length * T ≤ (s.live.length + 1) * T := Nat.mul_le_mul_right T hlen
  omega

/-- **A promise about fragmentation.** In every reachable state, whatever calls have led to it, a request of
`n` bytes is served if the live requests, each rounded up and with 32 bytes more, leave room for one block of
the rounded request, and a sixteenth of it, on each side of every live payload. -/
theorem reachable_alloc_room (ha : PoolArgs base size) (hr : (anySystem base size).Reachable s) (h1 : 1 ≤ n)
    (hn : n ≤ usizeMax)
    (hroom : (s.live.map fun e => adjusted e.req + 32).sum +
      (s.live.length + 1) * (adjusted n + adjusted n / 16) < poolPayload size + 16) :
    ∃ t' m' p, Tlsf.alloc s.tlsf s.mem n = .ok (t', m', p) ∧ p ≠ 0 := by
  obtain ⟨bs, L, h⟩ := reachable_anyState ha hr
  obtain ⟨h16, h64⟩ := adjusted_bounds hn
  obtain ⟨T, hT⟩ := exists_isLeast_fitBounds (adjusted n)
  obtain ⟨r, hrun, hans⟩ := h.inv.fitAnswer h1 hn hT
  refine ⟨r.1, r.2.1, r.2.2, hrun, fun hnull => ?_⟩
  have hspace := h.refused_space hn hT (hans.null_iff.mp hnull)
  have hlive : (s.live.map fun e => e.usable + 16).sum ≤ (s.live.map fun e => adjusted e.req + 32).sum := by
    refine List.sum_le_sum fun e he => ?_
    have htight := reachable_tight ha hr e he
    omega
  have hcount := Nat.mul_le_mul_left (s.live.length + 1) (fitBound_le h16 h64 hT)
  omega

/-- On a page with 100 bytes taken, 1800 bytes can be had. -/
theorem reachable_alloc_room_page : ∃ s : State, s.live = [⟨4112, 100, 112⟩] ∧
    ∃ t' m' p, Tlsf.alloc s.tlsf s.mem 1800 = .ok (t', m', p) ∧ p ≠ 0 := by
  obtain ⟨⟨s, hlive, hr⟩, _⟩ := exists_page
  have hroom : (s.live.map fun e => adjusted e.req + 32).sum +
      (s.live.length + 1) * (adjusted 1800 + adjusted 1800 / 16) < poolPayload 4096 + 16 := by
    rw [hlive]
    decide
  exact ⟨s, hlive, reachable_alloc_room (by decide) (reachable_any hr) (by decide) (by decide) hroom⟩

end

end FerrumAlloc.Tlsf
