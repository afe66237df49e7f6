/-
# FerrumAlloc.Api.ActsPool -- the acts of the TLSF pool and of the page counter

`carve`, `release` and `issue` write in one zone only: the pool for the first two, the metadata of the
arena for the third. Everything in another zone stays as it is (`ArenaSide.pool_frame`,
`ArenaSide.header_frame`); inside the zone the lemmas of the backend say what has changed.
-/
import FerrumAlloc.Api.ActsOs

namespace FerrumAlloc

open Lib
open Tlsf (TlsfAllocator Blk UsedAt ownBytes)

variable {h : Heap} {v v' : View} {l : List Block} {b b' : Block} {n p z : Nat} {m : Mem} {S : Set Nat}
  {tlsf : TlsfAllocator} {bs : List Blk} {L : Nat → Nat → List Nat}

/-! ## Frames by zone -/

/-- A change inside the pool does not reach the slab side. -/
theorem ArenaSide.pool_frame (ha : ArenaSide h v) (hm : Set.EqOn m h.os.bytes Sᶜ)
    (hS : ∀ z ∈ S, v.arena.zone z = .pool) :
    Set.EqOn m h.os.bytes (slabOwn v.arena v.g ∪ stackBytes v.role) := by
  intro z hz
  apply hm
  intro hzS
  have hpool := hS z hzS
  rcases hz with hz | hz
  · rcases ha.slabs.zone_own hz with hzone | ⟨i, c, _, hzone⟩
    · exact Zone.noConfusion (hpool.symm.trans hzone)
    · exact Zone.noConfusion (hpool.symm.trans hzone)
  · obtain ⟨i, c, _, hzone⟩ := ha.slabs.zone_stack hz
    exact Zone.noConfusion (hpool.symm.trans hzone)

/-- A change inside the arena does not reach the header page of a huge block. -/
theorem ArenaSide.header_page (ha : ArenaSide h v) (hmaps : Mappings h.os.maps)
    (hm : Set.EqOn m h.os.bytes Sᶜ) (hS : ∀ z ∈ S, v.arena.zone z ≠ .outside) (hb : MapBlock h.os v b) :
    Set.EqOn m h.os.bytes (headerPage (b.ptr - 4096)) := by
  intro z hz
  apply hm
  intro hzS
  exact hS z hzS (ha.region_outside hmaps hb (Block.header_region hz))

/-- A huge block does not start inside the arena, but for its very first byte. -/
theorem ArenaSide.huge_ptr (ha : ArenaSide h v) (hmaps : Mappings h.os.maps) (hb : MapBlock h.os v b) :
    b.ptr ≤ v.arena.base ∨ v.arena.base + 2097152 ≤ b.ptr := by
  have hge := hb.1.ge
  have hdisj := ha.region_disjoint hmaps hb
  unfold Region.Disjoint Block.region at hdisj
  simp only at hdisj
  omega

/-- **A new block of the arena is apart from all others** when it is from those of the arena. -/
theorem Good.apart_new (hg : Good h v l) (ha : ArenaSide h v) (hcap : 0 < b.cap)
    (hin : ∀ z ∈ b.extent, v.arena.base + 20480 ≤ z ∧ z < v.arena.base + 2097152)
    (hd : ∀ b' ∈ l, b'.via ≠ .huge → ∀ z ∈ b.extent, z ∉ b'.extent) : ∀ b' ∈ l, b.Apart b' := by
  have hself : b.ptr ∈ b.extent := ⟨Nat.le_refl _, Nat.lt_add_of_pos_right hcap⟩
  intro b' hb'
  have hpl := hg.placed b' hb'
  by_cases hvia : b'.via = .huge
  · have hmap := hpl.mapBlock hvia
    refine ⟨fun heq => ?_, fun z hz hz' => ?_⟩
    · have hout := ha.huge_ptr hg.maps hmap
      have := hin _ hself
      omega
    · have hout := ha.region_outside hg.maps hmap (hmap.mem_region hz')
      have hbounds := hin z hz
      rw [zone_outside_iff, Region.mem_bytes] at hout
      simp only at hout
      omega
  · refine ⟨fun heq => hd b' hb' hvia _ hself ?_, hd b' hb' hvia⟩
    rw [heq]
    exact ⟨Nat.le_refl _, Nat.lt_add_of_pos_right (hpl.cap_pos ha hvia)⟩

/-! ## The pool -/

/-- **An operation of the pool writes inside the pool**, links and headers before and after. -/
theorem PoolSide.zone_both {m₀ : Mem} (hp : PoolSide m₀ v) (hp' : PoolSide m (v.setPool tlsf bs L))
    (hstart : tlsf.poolStart = v.tlsf.poolStart)
    (hz : z ∈ ownBytes v.tlsf.poolStart v.bs ∪ ownBytes v.tlsf.poolStart bs) :
    v.arena.zone z = .pool := by
  rcases hz with hz | hz
  · exact hp.zone_own hz
  · rw [← hstart] at hz
    exact hp'.zone_own hz

/-- The pool after an allocation, and after a free. -/
theorem ArenaSide.carved (ha : ArenaSide h v)
    (hal : Tlsf.Allocated v.tlsf h.os.bytes v.bs v.L n tlsf m bs L p) :
    PoolSide m (v.setPool tlsf bs L) :=
  ⟨hal.inv, hal.start_eq.trans ha.pool.start_eq, hal.end_eq.trans ha.pool.stop_eq⟩

theorem ArenaSide.released (ha : ArenaSide h v)
    (hr : Tlsf.Released v.tlsf h.os.bytes v.bs v.L p tlsf m bs L) :
    PoolSide m (v.setPool tlsf bs L) :=
  ⟨hr.inv, hr.start_eq.trans ha.pool.start_eq, hr.end_eq.trans ha.pool.stop_eq⟩

/-- The slab side after a change of the pool. -/
theorem ArenaSide.setPool (ha : ArenaSide h v) (hm : Set.EqOn m h.os.bytes Sᶜ)
    (hS : ∀ z ∈ S, v.arena.zone z = .pool) (hp : PoolSide m (v.setPool tlsf bs L)) :
    ArenaSide (h.setTlsf tlsf m) (v.setPool tlsf bs L) := by
  have hs := ha.slabs.frame (ha.pool_frame hm hS)
  exact ⟨ha.arena, ha.slab, rfl, ha.ready, ha.map, ⟨hs.inv, hs.next_ge, hs.low, hs.role, hs.stack⟩, hp⟩

/-- Blocks outside the pool, after a change of the pool. -/
theorem Good.placed_setPool (hg : Good h v l) (ha : ArenaSide h v) (hm : Set.EqOn m h.os.bytes Sᶜ)
    (hS : ∀ z ∈ S, v.arena.zone z = .pool) (hb : b ∈ l)
    (hpool : b.via = .tlsf → PoolBlock v b → PoolBlock (v.setPool tlsf bs L) b) :
    Placed (h.setTlsf tlsf m) (v.setPool tlsf bs L) b := by
  have hown := ha.pool_frame hm hS
  refine (hg.placed b hb).keep (fun _ _ hb => hb) hpool ?_ ?_
  · intro _ hpage
    show PageBlock v (v.arena.nextFreePage m) b
    have hnext : v.arena.nextFreePage m = v.arena.nextFreePage h.os.bytes := by
      apply Arena.nextFreePage_of_eqOn
      exact hown.mono fun z hz => .inl (.inl (Arena.arenaMetaBytes_subset hz))
    rw [hnext]
    exact hpage
  · intro _ hmap
    refine hmap.frame hmap.1.map ?_ hmap.2.1 hmap.2.2
    apply ha.header_page hg.maps hm ?_ hmap
    intro z hz
    rw [hS z hz]
    nofun

/-- Blocks of other backends lie outside the pool. -/
theorem Good.extent_not_pool (hg : Good h v l) (ha : ArenaSide h v) (hb : b ∈ l)
    (hvia : b.via ≠ .tlsf) (hz : z ∈ b.extent) : v.arena.zone z ≠ .pool := by
  intro hpool
  have hin := (hg.placed b hb).territory ha hg.maps hz
  cases hv : b.via with
  | null => rw [hv] at hin; exact hin
  | slab c =>
    rw [hv] at hin
    obtain ⟨i, _, hpage⟩ := hin
    exact Zone.noConfusion (hpool.symm.trans hpage)
  | tlsf => exact hvia hv
  | bump =>
    rw [hv] at hin
    obtain ⟨i, _, _, hpage⟩ := hin
    exact Zone.noConfusion (hpool.symm.trans hpage)
  | huge =>
    rw [hv] at hin
    exact Zone.noConfusion (hpool.symm.trans hin)

/-- The payload of a block of the pool. -/
theorem PoolBlock.mem (hb : PoolBlock v b) (hz : z ∈ b.extent) :
    ∃ x, b.ptr = x + 16 ∧ UsedAt v.tlsf.poolStart v.bs x b.cap ∧ x + 16 ≤ z ∧ z < x + 16 + b.cap := by
  obtain ⟨x, hp, hu⟩ := hb
  rw [Block.mem_extent, hp] at hz
  exact ⟨x, hp, hu, hz⟩

/-- **The pool gives a block.** -/
theorem Good.carve (hg : Good h v l) (hinit : h.arenaInit = true) (hn : n ≤ usizeMax - 16)
    (hal : Tlsf.Allocated v.tlsf h.os.bytes v.bs v.L n tlsf m bs L p) :
    Kept ⟨h, v, l⟩
      ⟨h.setTlsf tlsf m, v.setPool tlsf bs L, ⟨p, n, .tlsf, Tlsf.usableSize m p⟩ :: l⟩ := by
  have ha := hg.arena hinit
  have ht := hg.threads
  obtain ⟨x, s, hp, hle, _, hnew, hused⟩ := hal.carve.used
  have hpool : PoolSide m (v.setPool tlsf bs L) := ha.carved hal
  have hstart : tlsf.poolStart = v.tlsf.poolStart := hal.start_eq
  have hS : ∀ z ∈ ownBytes v.tlsf.poolStart v.bs ∪ ownBytes v.tlsf.poolStart bs,
      v.arena.zone z = .pool := fun z hz => ha.pool.zone_both hpool hstart hz
  have hux : UsedAt tlsf.poolStart bs x s := by
    rw [hstart]
    exact (hused x s).mpr (.inr ⟨rfl, rfl⟩)
  have hsize : Tlsf.usableSize m p = s := by
    rw [hp, Tlsf.usableSize, if_neg (by omega), show Tlsf.fromPayload (x + 16) = x from Nat.add_sub_cancel x 16]
    exact hal.inv.size_eq hux
  have h16 : 16 ≤ s := (hal.inv.layout.blk _ (Tlsf.cells_mem hux)).1
  rw [hsize]
  obtain ⟨b, hbdef⟩ : ∃ b : Block, b = ⟨p, n, .tlsf, s⟩ := ⟨_, rfl⟩
  have hvia : b.via = .tlsf := by rw [hbdef]
  have hmine : PoolBlock (v.setPool tlsf bs L) b := ⟨x, by rw [hbdef]; exact hp, by rw [hbdef]; exact hux⟩
  have hmem : ∀ z ∈ b.extent, x + 16 ≤ z ∧ z < x + 16 + s := by
    intro z hz
    rw [Block.mem_extent, hbdef, hp] at hz
    exact hz
  rw [← hbdef]
  -- blocks of the pool that stay used keep their place and their bytes
  have hkeep : ∀ b' ∈ l, b'.via = .tlsf → PoolBlock v b' → PoolBlock (v.setPool tlsf bs L) b' := by
    rintro b' _ _ ⟨y, hy, hu⟩
    refine ⟨y, hy, ?_⟩
    show UsedAt tlsf.poolStart bs y b'.cap
    rw [hstart]
    exact (hused y _).mpr (.inl hu)
  have hdisj : ∀ b' ∈ l, b'.via ≠ .huge → ∀ z ∈ b.extent, z ∉ b'.extent := by
    intro b' hb' _ z hz hz'
    obtain ⟨h1, h2⟩ := hmem z hz
    by_cases hv : b'.via = .tlsf
    · obtain ⟨y, _, hu, h3, h4⟩ := ((hg.placed b' hb').poolBlock hv).mem hz'
      have hne : x ≠ y := fun heq => hnew _ (heq ▸ hu)
      have hd := Tlsf.cells_disjoint ((hused x s).mpr (.inr ⟨rfl, rfl⟩))
        ((hused y _).mpr (.inl hu)) hne
      simp only at hd
      omega
    · exact hg.extent_not_pool ha hb' hv hz' (hpool.zone_used hux h1 h2)
  refine ⟨⟨hg.lock, hg.maps, ⟨ht.tls, ht.owner, ht.registry, ht.id, ht.blank, ht.pages, ht.map⟩,
    fun _ => ha.setPool hal.frame hS hpool, fun hboot => absurd (hinit.symm.trans hboot) nofun,
    fun b' hb' => ?_, fun b' hb' => ?_, ?_⟩, fun b' hb' _ z hz => ?_⟩
  · rcases List.mem_cons.mp hb' with rfl | hb'
    · exact (placed_tlsf hvia).mpr hmine
    · exact hg.placed_setPool ha hal.frame hS hb' (hkeep b' hb')
  · rcases List.mem_cons.mp hb' with rfl | hb'
    · rw [hbdef]
      exact le_trans (Tlsf.adjusted_spec hn).1 hle
    · exact hg.sized b' hb'
  · refine List.pairwise_cons.mpr ⟨hg.apart_new ha ?_ (fun z hz => ?_) hdisj, hg.apart⟩
    · rw [hbdef]
      exact lt_of_lt_of_le (by norm_num) h16
    · obtain ⟨h1, h2⟩ := hmem z hz
      have hz' : v.arena.zone z = .pool := hpool.zone_used hux h1 h2
      exact zone_bounds (by rw [hz']; nofun) (by rw [hz']; nofun)
  · apply hal.frame
    rintro (hz' | hz')
    · exact (hg.placed b' hb').not_own ha hg.maps hz (.inr hz')
    · by_cases hv : b'.via = .tlsf
      · obtain ⟨y, _, hu, h3, h4⟩ := ((hg.placed b' hb').poolBlock hv).mem hz
        refine Tlsf.payload_not_own (fun c hc => (hal.inv.layout.blk c hc).1)
          ((hused y _).mpr (.inl hu)) h3 h4 hz'
      · exact hg.extent_not_pool ha hb' hv hz (hS z (.inr hz'))

/-- **The pool takes a block back.** -/
theorem Good.release (hg : Good h v l) (hinit : h.arenaInit = true) (hb : b ∈ l)
    (hr : Tlsf.Released v.tlsf h.os.bytes v.bs v.L b.ptr tlsf m bs L) :
    Kept ⟨h, v, l⟩ ⟨h.setTlsf tlsf m, v.setPool tlsf bs L, l.erase b⟩ := by
  have ha := hg.arena hinit
  have ht := hg.threads
  obtain ⟨_, hused⟩ := hr.release.used
  have hpool : PoolSide m (v.setPool tlsf bs L) := ha.released hr
  have hstart : tlsf.poolStart = v.tlsf.poolStart := hr.start_eq
  have hS : ∀ z ∈ ownBytes v.tlsf.poolStart v.bs ∪ ownBytes v.tlsf.poolStart bs,
      v.arena.zone z = .pool := fun z hz => ha.pool.zone_both hpool hstart hz
  have hmem : ∀ b' ∈ l.erase b, b' ∈ l ∧ b' ≠ b := fun b' hb' => hg.mem_erase hb'
  have hkeep : ∀ b' ∈ l, b' ≠ b → PoolBlock v b' → PoolBlock (v.setPool tlsf bs L) b' := by
    rintro b' hb' hne ⟨y, hy, hu⟩
    refine ⟨y, hy, ?_⟩
    show UsedAt tlsf.poolStart bs y b'.cap
    rw [hstart]
    refine (hused y _).mpr ⟨hu, ?_⟩
    rw [← hy]
    exact (hg.apart_of_ne hb' hb hne).1
  refine ⟨⟨hg.lock, hg.maps, ⟨ht.tls, ht.owner, ht.registry, ht.id, ht.blank, ht.pages, ht.map⟩,
    fun _ => ha.setPool hr.frame hS hpool, fun hboot => absurd (hinit.symm.trans hboot) nofun,
    fun b' hb' => ?_, fun b' hb' => hg.sized b' (hmem b' hb').1,
    hg.apart.sublist List.erase_sublist⟩, fun b' hb' hb'' z hz => ?_⟩
  · obtain ⟨hb', hne⟩ := hmem b' hb'
    exact hg.placed_setPool ha hr.frame hS hb' fun _ => hkeep b' hb' hne
  · apply hr.frame
    rintro (hz' | hz')
    · exact (hg.placed b' hb').not_own ha hg.maps hz (.inr hz')
    · by_cases hv : b'.via = .tlsf
      · have hpb := hkeep b' hb' (hmem b' hb'').2 ((hg.placed b' hb').poolBlock hv)
        obtain ⟨y, _, hu, h3, h4⟩ := hpb.mem hz
        have hu' : UsedAt v.tlsf.poolStart bs y b'.cap := by
          rw [← hstart]
          exact hu
        exact Tlsf.payload_not_own (fun c hc => (hr.inv.layout.blk c hc).1) hu' h3 h4 hz'
      · exact hg.extent_not_pool ha hb' hv hz (hS z (.inr hz'))

/-! ## The page counter -/

namespace Issues

/-- The slab side after pages have been issued. -/
theorem slabs (hi : Issues h v n m) (ha : ArenaSide h v) : SlabSide m h.slabs h.remote v := by
  have hinv : SlabInv v.arena m h.slabs v.g := by
    have hbump := ha.slabs.inv.bump n
    rw [hi.run] at hbump
    exact hbump
  refine ⟨hinv, ?_, ha.slabs.low, ha.slabs.role, fun p => ?_⟩
  · rw [hi.next]
    exact Nat.le_trans ha.slabs.next_ge (Nat.le_add_right _ _)
  · apply (ha.slabs.stack p).keep
    intro x hx
    refine ⟨hx, read64_eqOn fun z hz => hi.bytes fun hz' => ?_⟩
    obtain ⟨j, c, _, hpage⟩ := ha.slabs.zone_stack ⟨x, p, hx, hz.1, hz.2⟩
    exact Zone.noConfusion (hpage.symm.trans (zone_header hz'))

theorem pool (hi : Issues h v n m) (ha : ArenaSide h v) : PoolSide m v := by
  apply ha.pool.frame
  intro z hz
  apply hi.bytes
  intro hz'
  exact Zone.noConfusion ((ha.pool.zone_own hz).symm.trans (zone_header hz'))

/-- The bytes of the new pages lie in pages not issued before. -/
theorem zone (hi : Issues h v n m) (ha : ArenaSide h v)
    (h1 : v.arena.pageAddr (v.arena.nextFreePage h.os.bytes) ≤ z)
    (h2 : z < v.arena.pageAddr (v.arena.nextFreePage h.os.bytes) + (n + 4095) / 4096 * 4096) :
    ∃ j, v.arena.nextFreePage h.os.bytes ≤ j ∧ v.arena.zone z = .page j := by
  have hroom : v.arena.nextFreePage h.os.bytes + (n + 4095) / 4096 ≤ 512 := hi.room
  have hlow : 133 ≤ v.arena.nextFreePage h.os.bytes := ha.slabs.next_ge
  rw [Arena.pageAddr_eq] at h1 h2
  refine ⟨(z - v.arena.base) / 4096, by omega, ?_⟩
  unfold Arena.zone
  rw [if_neg (by omega), if_neg (by omega), if_neg (by omega)]

/-- Live blocks keep their place when pages are issued. -/
theorem placed (hi : Issues h v n m) (hg : Good h v l) (hb : b ∈ l) : Placed (h.setBytes m) v b := by
  have ha := hg.arena hi.init
  refine (hg.placed b hb).keep (fun _ _ hb => hb) (fun _ hb => hb) ?_ ?_
  · rintro _ ⟨i', k', hp, hcap, hk', hlo, hhi, hcls⟩
    refine ⟨i', k', hp, hcap, hk', hlo, ?_, hcls⟩
    show i' + k' ≤ v.arena.nextFreePage m
    rw [hi.next]
    omega
  · intro _ hmap
    refine hmap.frame hmap.1.map ?_ hmap.2.1 hmap.2.2
    apply ha.header_page hg.maps hi.bytes ?_ hmap
    intro z hz
    rw [zone_header hz]
    nofun

/-- No live block of the arena reaches into a page not issued. -/
theorem not_extent (hi : Issues h v n m) (hg : Good h v l) (hb : b ∈ l) {j : Nat}
    (hj : v.arena.nextFreePage h.os.bytes ≤ j) (hzone : v.arena.zone z = .page j) : z ∉ b.extent := by
  intro hz
  have ha := hg.arena hi.init
  have hin := (hg.placed b hb).territory ha hg.maps hz
  cases hv : b.via with
  | null => rw [hv] at hin; exact hin
  | slab c =>
    rw [hv] at hin
    obtain ⟨i', hcls, hpage⟩ := hin
    obtain rfl := Zone.page.inj (hzone.symm.trans hpage)
    have := (ha.slabs.inv.range j c hcls).2
    omega
  | tlsf =>
    rw [hv] at hin
    exact Zone.noConfusion (hzone.symm.trans hin)
  | bump =>
    rw [hv] at hin
    obtain ⟨i', hlt, _, hpage⟩ := hin
    obtain rfl := Zone.page.inj (hzone.symm.trans hpage)
    omega
  | huge =>
    rw [hv] at hin
    exact Zone.noConfusion (hzone.symm.trans hin)

end Issues

/-- **The arena issues pages.** -/
theorem Good.issue (hg : Good h v l) (hi : Issues h v n m) :
    Kept ⟨h, v, l⟩ ⟨h.setBytes m, v, ⟨v.arena.pageAddr (v.arena.nextFreePage h.os.bytes), n, .bump,
      (n + 4095) / 4096 * 4096⟩ :: l⟩ := by
  have ha := hg.arena hi.init
  have ht := hg.threads
  have hkpos : 0 < (n + 4095) / 4096 := by
    have := hi.pos
    omega
  obtain ⟨b, hbdef⟩ : ∃ b : Block, b = ⟨v.arena.pageAddr (v.arena.nextFreePage h.os.bytes), n, .bump,
    (n + 4095) / 4096 * 4096⟩ := ⟨_, rfl⟩
  have hmine : PageBlock v (v.arena.nextFreePage m) b := by
    rw [hi.next, hbdef]
    refine ⟨_, (n + 4095) / 4096, rfl, rfl, hkpos, ha.slabs.next_ge, Nat.le_refl _, fun j hij _ => ?_⟩
    exact ha.slabs.inv.cls_next hij
  have hpage : ∀ z ∈ b.extent, ∃ j, v.arena.nextFreePage h.os.bytes ≤ j ∧ v.arena.zone z = .page j := by
    intro z hz
    rw [hbdef] at hz
    exact hi.zone ha hz.1 hz.2
  rw [← hbdef]
  refine ⟨⟨hg.lock, hg.maps, ⟨ht.tls, ht.owner, ht.registry, ht.id, ht.blank, ht.pages, ht.map⟩,
    fun _ => ⟨ha.arena, ha.slab, ha.tlsf, ha.ready, ha.map, hi.slabs ha, hi.pool ha⟩,
    fun hboot => absurd (hi.init.symm.trans hboot) nofun, fun b' hb' => ?_, fun b' hb' => ?_, ?_⟩,
    fun b' hb' _ z hz => ?_⟩
  · rcases List.mem_cons.mp hb' with rfl | hb'
    · exact (placed_bump (h := h.setBytes m) (by rw [hbdef])).mpr hmine
    · exact hi.placed hg hb'
  · rcases List.mem_cons.mp hb' with rfl | hb'
    · rw [hbdef]
      rfl
    · exact hg.sized b' hb'
  · refine List.pairwise_cons.mpr ⟨hg.apart_new ha ?_ (fun z hz => ?_) ?_, hg.apart⟩
    · rw [hbdef]
      exact Nat.mul_pos hkpos (by norm_num)
    · obtain ⟨j, _, hzone⟩ := hpage z hz
      exact zone_bounds (by rw [hzone]; nofun) (by rw [hzone]; nofun)
    · intro b' hb' _ z hz
      obtain ⟨j, hij, hzone⟩ := hpage z hz
      exact hi.not_extent hg hb' hij hzone
  · apply hi.bytes
    intro hz'
    exact (hg.placed b' hb').not_own ha hg.maps hz (.inl (.inl (.inl hz')))

end FerrumAlloc
