/-
# FerrumAlloc.Api.ActsOs -- the acts that deal with mappings and threads

Set up, use up an identifier, make a cache, map and unmap a huge block, forget a block, and the client's
own stores. None of them touches a byte that slabs, stacks or pool rely on, so the sides of the arena
come over by their frame rules (`ArenaSide.frame`); what is left to see is that every live block is still
where it was. `Kept` is the conclusion of all these lemmas: the invariant holds afterwards, and blocks
that live on keep their bytes.
-/
import FerrumAlloc.Api.Acts

namespace FerrumAlloc

open Lib

variable {h h' : Heap} {v v' : View} {l l' : List Block} {b b' : Block} {t p n z : Nat} {m : Mem}

/-- Blocks that live on keep their bytes. -/
def Keeps (c c' : Conf) : Prop :=
  ∀ b ∈ c.live, b ∈ c'.live → Set.EqOn c'.heap.os.bytes c.heap.os.bytes b.extent

/-- The effect of an act: the invariant still holds and live blocks keep their bytes. -/
structure Kept (c c' : Conf) : Prop where
  good : Good c'.heap c'.view c'.live
  keeps : Keeps c c'

/-! ## Carrying blocks over -/

/-- A block stays placed when the part of the view that its backend looks at does. -/
theorem Placed.keep (hb : Placed h v b) (hslab : ∀ c, b.via = .slab c → SlabBlock v c b → SlabBlock v' c b)
    (hpool : b.via = .tlsf → PoolBlock v b → PoolBlock v' b)
    (hpage : b.via = .bump → PageBlock v (v.arena.nextFreePage h.os.bytes) b →
      PageBlock v' (v'.arena.nextFreePage h'.os.bytes) b)
    (hmap : b.via = .huge → MapBlock h.os v b → MapBlock h'.os v' b) : Placed h' v' b := by
  unfold Placed at hb ⊢
  cases hvia : b.via with
  | null => rw [hvia] at hb; exact hb
  | slab c => rw [hvia] at hb; exact hslab c hvia hb
  | tlsf => rw [hvia] at hb; exact hpool hvia hb
  | bump => rw [hvia] at hb; exact hpage hvia hb
  | huge => rw [hvia] at hb; exact hmap hvia hb

/-! What the view holds at a block, by backend. -/

theorem placed_slab {c : Nat} (hvia : b.via = .slab c) : Placed h v b ↔ SlabBlock v c b := by
  unfold Placed
  rw [hvia]

theorem placed_tlsf (hvia : b.via = .tlsf) : Placed h v b ↔ PoolBlock v b := by
  unfold Placed
  rw [hvia]

theorem placed_bump (hvia : b.via = .bump) :
    Placed h v b ↔ PageBlock v (v.arena.nextFreePage h.os.bytes) b := by
  unfold Placed
  rw [hvia]

theorem placed_huge (hvia : b.via = .huge) : Placed h v b ↔ MapBlock h.os v b := by
  unfold Placed
  rw [hvia]

theorem Placed.slabBlock {c : Nat} (hb : Placed h v b) (hvia : b.via = .slab c) : SlabBlock v c b :=
  (placed_slab hvia).mp hb

theorem Placed.poolBlock (hb : Placed h v b) (hvia : b.via = .tlsf) : PoolBlock v b := (placed_tlsf hvia).mp hb

theorem Placed.pageBlock (hb : Placed h v b) (hvia : b.via = .bump) :
    PageBlock v (v.arena.nextFreePage h.os.bytes) b := (placed_bump hvia).mp hb

theorem Placed.mapBlock (hb : Placed h v b) (hvia : b.via = .huge) : MapBlock h.os v b := (placed_huge hvia).mp hb

theorem Placed.via_ne_null (hb : Placed h v b) : b.via ≠ .null := by
  intro hvia
  unfold Placed at hb
  rw [hvia] at hb
  exact hb

/-- All blocks but huge ones lie behind the metadata of the arena. -/
theorem Placed.inside (ha : ArenaSide h v) (hm : Mappings h.os.maps) (hb : Placed h v b)
    (hvia : b.via ≠ .huge) (hz : z ∈ b.extent) :
    v.arena.base + 20480 ≤ z ∧ z < v.arena.base + 2097152 := by
  have hin := hb.territory ha hm hz
  cases hv : b.via with
  | null => rw [hv] at hin; exact hin.elim
  | slab c =>
    rw [hv] at hin
    obtain ⟨i, _, hpage⟩ := hin
    exact zone_bounds (by rw [hpage]; nofun) (by rw [hpage]; nofun)
  | tlsf =>
    rw [hv] at hin
    have hpool : v.arena.zone z = .pool := hin
    exact zone_bounds (by rw [hpool]; nofun) (by rw [hpool]; nofun)
  | bump =>
    rw [hv] at hin
    obtain ⟨i, _, _, hpage⟩ := hin
    exact zone_bounds (by rw [hpage]; nofun) (by rw [hpage]; nofun)
  | huge => exact absurd hv hvia

theorem Placed.not_outside (ha : ArenaSide h v) (hm : Mappings h.os.maps) (hb : Placed h v b)
    (hvia : b.via ≠ .huge) (hz : z ∈ b.extent) : v.arena.zone z ≠ .outside := by
  intro hout
  obtain ⟨h1, h2⟩ := hb.inside ha hm hvia hz
  rw [zone_outside_iff, Region.mem_bytes] at hout
  simp only at hout
  omega

/-- All blocks but huge ones have bytes. -/
theorem Placed.cap_pos (ha : ArenaSide h v) (hb : Placed h v b) (hvia : b.via ≠ .huge) : 0 < b.cap := by
  unfold Placed at hb
  cases hv : b.via with
  | null => rw [hv] at hb; exact hb.elim
  | slab c =>
    rw [hv] at hb
    obtain ⟨i, j, hu, _, hcap, _⟩ := hb
    have h8 := (slots_of_lt (ha.slabs.inv.used_lt hu)).size_ge
    omega
  | tlsf =>
    rw [hv] at hb
    obtain ⟨x, _, hu⟩ := hb
    have hmin : 16 ≤ b.cap := (ha.pool.inv.layout.blk _ (Tlsf.cells_mem hu)).1
    omega
  | bump =>
    rw [hv] at hb
    obtain ⟨i, k, _, hcap, hk, _⟩ := hb
    omega
  | huge => exact absurd hv hvia

namespace Good

/-- Distinct live blocks are apart. -/
theorem apart_of_ne (hg : Good h v l) (hb : b ∈ l) (hb' : b' ∈ l) (hne : b ≠ b') : b.Apart b' := by
  apply List.Pairwise.forall_of_forall_of_flip (R := fun b b' => b ≠ b' → b.Apart b')
    (fun b _ hbb => absurd rfl hbb) ?_ ?_ hb hb' hne
  · exact hg.apart.imp fun {b b'} hd (_ : b ≠ b') => hd
  · exact hg.apart.imp fun {b b'} hd (_ : b' ≠ b) => hd.symm

theorem nodup (hg : Good h v l) : l.Nodup := hg.apart.imp fun hd heq => hd.1 (congrArg Block.ptr heq)

theorem mem_erase (hg : Good h v l) (hb' : b' ∈ l.erase b) : b' ∈ l ∧ b' ≠ b := by
  obtain ⟨hne, hb'⟩ := hg.nodup.mem_erase_iff.mp hb'
  exact ⟨hb', hne⟩

/-- A block that is not huge lives in an arena that is set up. -/
theorem init_of_via (hg : Good h v l) (hb : b ∈ l) (hvia : b.via ≠ .huge) : h.arenaInit = true := by
  cases hinit : h.arenaInit with
  | true => rfl
  | false => exact absurd ((hg.booting hinit).huge b hb) hvia

/-- The header page of a huge block is no part of any live block. -/
theorem header_not_extent (hg : Good h v l) (hb : b ∈ l) (hvia : b.via = .huge) (hb' : b' ∈ l)
    (hz : z ∈ headerPage (b.ptr - 4096)) : z ∉ b'.extent := by
  intro hz'
  have hm := (hg.placed b hb).mapBlock hvia
  have hreg := Block.header_region hz
  by_cases hvia' : b'.via = .huge
  · have hm' := (hg.placed b' hb').mapBlock hvia'
    by_cases hptr : b.ptr = b'.ptr
    · -- its own block starts behind the header page
      have hge := hm.1.ge
      rw [mem_headerPage] at hz
      rw [Block.mem_extent] at hz'
      have hlt : z < b.ptr := by
        have hsub := Nat.sub_add_cancel (Nat.le_of_lt hge)
        rw [hsub] at hz
        exact hz.2
      omega
    · have hdisj := hg.maps.disjoint hm.1.map hm'.1.map (hm.region_ne hm' hptr)
      exact hdisj.not_mem hreg (hm'.mem_region hz')
  · have ha := hg.arena (hg.init_of_via hb' hvia')
    exact (hg.placed b' hb').not_outside ha hg.maps hvia' hz' (ha.region_outside hg.maps hm hreg)

end Good

/-! ## The frame rule of the arena -/

/-- **Frame.** The sides of the arena depend on their own bytes, on the slabs and on the stacks. -/
theorem ArenaSide.frame (h' : Heap) (made : List Nat) (ha : ArenaSide h v)
    (hm : Set.EqOn h'.os.bytes h.os.bytes v.own) (harena : h'.globalArena = h.globalArena)
    (hslab : h'.globalSlab = h.globalSlab) (htlsf : h'.globalTlsf = h.globalTlsf)
    (hready : h'.tlsReady = h.tlsReady) (hmap : ⟨v.arena.base, 2097152⟩ ∈ h'.os.maps)
    (hslabs : h'.slabs = h.slabs) (hremote : h'.remote = h.remote) :
    ArenaSide h' { v with made := made } := by
  have hs : SlabSide h'.os.bytes h.slabs h.remote v := by
    apply ha.slabs.frame
    exact hm.mono Set.subset_union_left
  have hp : PoolSide h'.os.bytes v := by
    apply ha.pool.frame
    exact hm.mono Set.subset_union_right
  rw [← hslabs, ← hremote] at hs
  exact ⟨harena.trans ha.arena, by rw [hslab]; exact ha.slab, htlsf.trans ha.tlsf,
    hready.trans ha.ready, hmap, ⟨hs.inv, hs.next_ge, hs.low, hs.role, hs.stack⟩,
    ⟨hp.inv, hp.start_eq, hp.stop_eq⟩⟩

/-- The page counter is one of the bytes relied on. -/
theorem ArenaSide.next_eq (hm : Set.EqOn m h.os.bytes v.own) :
    v.arena.nextFreePage m = v.arena.nextFreePage h.os.bytes := by
  apply Arena.nextFreePage_of_eqOn
  exact hm.mono fun z hz => .inl (.inl (.inl (Arena.arenaMetaBytes_subset hz)))

/-! ## Stores of the client, and blocks forgotten -/

/-- **A store into a live block** keeps the invariant. -/
theorem Good.store (hg : Good h v l) (hb : b ∈ l) (hm : Set.EqOn m h.os.bytes b.extentᶜ) :
    Good (h.setBytes m) v l := by
  have hown : h.arenaInit = true → Set.EqOn m h.os.bytes v.own := by
    intro hinit z hz
    apply hm
    intro hz'
    exact (hg.placed b hb).not_own (hg.arena hinit) hg.maps hz' hz
  refine ⟨hg.lock, hg.maps, ⟨hg.threads.tls, hg.threads.owner, hg.threads.registry, hg.threads.id,
    hg.threads.blank, hg.threads.pages, hg.threads.map⟩, fun hinit => ?_, fun hinit => ?_,
    fun b' hb' => ?_, hg.sized, hg.apart⟩
  · have ha := hg.arena hinit
    exact ArenaSide.frame (h.setBytes m) v.made ha (hown hinit) rfl rfl rfl rfl ha.map rfl rfl
  · have hboot := hg.booting hinit
    exact ⟨hboot.ready, hboot.arena, hboot.tlsf, hboot.base, hboot.made, hboot.next, hboot.cls, hboot.huge⟩
  · refine (hg.placed b' hb').keep (fun _ _ hb => hb) (fun _ hb => hb) ?_ ?_
    · intro hvia hpage
      have hinit := hg.init_of_via hb' (by rw [hvia]; nofun)
      have hnext : v.arena.nextFreePage m = _ := ArenaSide.next_eq (hown hinit)
      show PageBlock v (v.arena.nextFreePage m) b'
      rw [hnext]
      exact hpage
    · intro hvia hmap
      show MapBlock ⟨m, h.os.maps⟩ v b'
      apply hmap.frame hmap.1.map ?_ hmap.2.1 hmap.2.2
      intro z hz
      exact hm (hg.header_not_extent hb' hvia hb hz)

/-- Only the block stored into changes. -/
theorem Good.store_keeps (hg : Good h v l) (hb : b ∈ l) (hm : Set.EqOn m h.os.bytes b.extentᶜ)
    (hb' : b' ∈ l) (hne : b' ≠ b) : Set.EqOn m h.os.bytes b'.extent := by
  intro z hz
  exact hm ((hg.apart_of_ne hb' hb hne).2 z hz)

/-- Forgetting a block. -/
theorem Good.leak (hg : Good h v l) (b : Block) : Kept ⟨h, v, l⟩ ⟨h, v, l.erase b⟩ := by
  refine ⟨⟨hg.lock, hg.maps, hg.threads, hg.arena, fun hinit => ?_,
    fun b' hb' => hg.placed b' (List.mem_of_mem_erase hb'),
    fun b' hb' => hg.sized b' (List.mem_of_mem_erase hb'), hg.apart.sublist List.erase_sublist⟩,
    fun _ _ _ => Set.eqOn_refl _ _⟩
  have hboot := hg.booting hinit
  exact ⟨hboot.ready, hboot.arena, hboot.tlsf, hboot.base, hboot.made, hboot.next, hboot.cls,
    fun b' hb' => hboot.huge b' (List.mem_of_mem_erase hb')⟩

/-- Using up an identifier. -/
theorem Good.attempt (hg : Good h v l) (hinit : h.arenaInit = true) :
    Kept ⟨h, v, l⟩ ⟨h.attempt, v, l⟩ := by
  have ha := hg.arena hinit
  have ht := hg.threads
  refine ⟨⟨hg.lock, hg.maps, ⟨ht.tls, ht.owner, ht.registry, ht.id, ht.blank, ht.pages, ht.map⟩,
    fun _ => ⟨ha.arena, ha.slab, ha.tlsf, ha.ready, ha.map, ha.slabs, ha.pool⟩, fun hboot => ?_,
    hg.placed, hg.sized, hg.apart⟩, fun _ _ _ => Set.eqOn_refl _ _⟩
  exact absurd (hinit.symm.trans hboot) nofun

/-! ## Fresh mappings -/

section Fresh

variable {r : Region}

theorem ArenaSide.fresh_outside (ha : ArenaSide h v) (hgrant : Grantable h.os.maps r.size r.base)
    (hz : z ∈ r.bytes) : v.arena.zone z = .outside := by
  rw [zone_outside_iff]
  intro hz'
  exact (hgrant.2.2.2.2 _ ha.map).not_mem hz' hz

/-- **A fresh mapping is away from everything**: from the bytes the allocator relies on. -/
theorem Good.fresh_not_own (hg : Good h v l) (hinit : h.arenaInit = true)
    (hgrant : Grantable h.os.maps r.size r.base) (hz : z ∈ r.bytes) : z ∉ v.own := by
  have ha := hg.arena hinit
  have hout := ha.fresh_outside hgrant hz
  rintro ((hz' | hz') | hz')
  · rcases ha.slabs.zone_own hz' with hzone | ⟨i, c, _, hzone⟩
    · exact Zone.noConfusion (hout.symm.trans hzone)
    · exact Zone.noConfusion (hout.symm.trans hzone)
  · obtain ⟨i, c, _, hzone⟩ := ha.slabs.zone_stack hz'
    exact Zone.noConfusion (hout.symm.trans hzone)
  · exact Zone.noConfusion (hout.symm.trans (ha.pool.zone_own hz'))

/-- And from every live block, header page included. -/
theorem Good.fresh_not_extent (hg : Good h v l) (hgrant : Grantable h.os.maps r.size r.base)
    (hb : b ∈ l) (hz : z ∈ r.bytes) : z ∉ b.extent := by
  intro hz'
  by_cases hvia : b.via = .huge
  · have hm := (hg.placed b hb).mapBlock hvia
    exact (hgrant.2.2.2.2 _ hm.1.map).not_mem (hm.mem_region hz') hz
  · have ha := hg.arena (hg.init_of_via hb hvia)
    exact (hg.placed b hb).not_outside ha hg.maps hvia hz' (ha.fresh_outside hgrant hz)

/-- Nor from the header page of one. -/
theorem Good.fresh_not_header (hg : Good h v l) (hgrant : Grantable h.os.maps r.size r.base)
    (hb : b ∈ l) (hvia : b.via = .huge) (hz : z ∈ headerPage (b.ptr - 4096)) : z ∉ r.bytes := by
  have hm := (hg.placed b hb).mapBlock hvia
  exact (hgrant.2.2.2.2 _ hm.1.map).not_mem (Block.header_region hz)

end Fresh

/-! ## Caches -/

/-- A cache just made is known to its thread and to the registry, and to nobody else. -/
theorem ThreadSide.create (ht : ThreadSide h v) (hm : Mappings h.os.maps) (hc : Creates h t p m) :
    ThreadSide (h.create t p m) { v with made := p :: v.made } := by
  have hpos : p ≠ 0 := Nat.ne_of_gt hc.grant.1
  have hfresh : ∀ q ∈ v.made, q ≠ p := fun q hq => hm.base_ne hc.grant (ht.map q hq)
  have hcache : ∀ q, q ≠ p → (h.create t p m).caches q = h.caches q :=
    fun q hq => Function.update_of_ne hq _ _
  have hself : (h.create t p m).caches p = .new h.nextThreadId := Function.update_self _ _ _
  have htls : ∀ t', t' ≠ t → (h.create t p m).tls t' = h.tls t' :=
    fun t' ht' => Function.update_of_ne ht' _ _
  have htls' : (h.create t p m).tls t = p := Function.update_self _ _ _
  have hreg : ∀ k, k ≠ h.nextThreadId → (h.create t p m).registry k = h.registry k :=
    fun k hk => Function.update_of_ne hk _ _
  have hreg' : (h.create t p m).registry h.nextThreadId = p := Function.update_self _ _ _
  have hregne : ∀ k, h.registry k ≠ 0 → (h.create t p m).registry k ≠ 0 := by
    intro k hk
    by_cases hkid : k = h.nextThreadId
    · rw [hkid, hreg']
      exact hpos
    · rw [hreg k hkid]
      exact hk
  refine ⟨?_, ?_, ?_, ?_, ?_, ?_, ?_⟩
  · intro t' hne
    by_cases htt : t' = t
    · rw [htt, htls']
      exact List.mem_cons_self
    · rw [htls t' htt] at hne ⊢
      exact List.mem_cons_of_mem _ (ht.tls t' hne)
  · -- no thread had the new cache before
    intro t₁ t₂ hne heq
    by_cases h1 : t₁ = t
    · by_cases h2 : t₂ = t
      · rw [h1, h2]
      · rw [h1, htls', htls t₂ h2] at heq
        exact absurd heq.symm (hfresh _ (ht.tls t₂ (by rw [← heq]; exact hpos)))
    · rw [htls t₁ h1] at hne heq
      by_cases h2 : t₂ = t
      · rw [h2, htls'] at heq
        exact absurd heq (hfresh _ (ht.tls t₁ hne))
      · rw [htls t₂ h2] at heq
        exact ht.owner t₁ t₂ hne heq
  · intro k hne
    by_cases hk : k = h.nextThreadId
    · rw [hk, hreg', hself]
      exact ⟨List.mem_cons_self, rfl⟩
    · rw [hreg k hk] at hne ⊢
      obtain ⟨hmem, hid⟩ := ht.registry k hne
      rw [hcache _ (hfresh _ hmem)]
      exact ⟨List.mem_cons_of_mem _ hmem, hid⟩
  · intro q hq
    rcases List.mem_cons.mp hq with rfl | hq
    · rw [hself]
      exact ⟨hpos, hc.id, hreg'.symm ▸ hpos⟩
    · rw [hcache q (hfresh q hq)]
      obtain ⟨h0, hlt, hne⟩ := ht.id q hq
      exact ⟨h0, hlt, hregne _ hne⟩
  · intro q hq
    rw [List.mem_cons, not_or] at hq
    rw [hcache q hq.1]
    exact ht.blank q hq.2
  · intro i c hic
    obtain ⟨hlt, hne⟩ := ht.pages i c hic
    exact ⟨hlt, hregne _ hne⟩
  · intro q hq
    rcases List.mem_cons.mp hq with rfl | hq
    · exact List.mem_cons_self
    · exact List.mem_cons_of_mem _ (ht.map q hq)

/-- **Making a cache** for a thread that has none. -/
theorem Good.create (hg : Good h v l) (hc : Creates h t p m) :
    Kept ⟨h, v, l⟩ ⟨h.create t p m, { v with made := p :: v.made }, l⟩ := by
  have ha := hg.arena hc.init
  have ht := hg.threads
  have hnew : p ∉ v.made := fun hmem => hg.maps.base_ne hc.grant (ht.map p hmem) rfl
  -- slab and stack at the new address are as empty as before
  obtain ⟨hblank, hblank'⟩ := ht.blank p hnew
  have hslabs : (h.create t p m).slabs = h.slabs := by
    refine (Heap.slabs_setCache h p (.new h.nextThreadId)).trans ?_
    rw [show (ThreadCache.new h.nextThreadId).slab = h.slabs (some p) from hblank.symm]
    exact Function.update_eq_self (some p) h.slabs
  have hremote : (h.create t p m).remote = h.remote := by
    refine (Heap.remote_setCache h p (.new h.nextThreadId)).trans ?_
    rw [show (ThreadCache.new h.nextThreadId).remoteFrees = h.remote p from hblank'.symm]
    exact Function.update_eq_self p h.remote
  have hown : Set.EqOn m h.os.bytes v.own := by
    intro z hz
    apply hc.bytes
    intro hz'
    exact hg.fresh_not_own (r := ⟨p, 4096⟩) hc.init hc.grant hz' hz
  refine ⟨⟨hg.lock, hg.maps.cons hc.grant, ht.create hg.maps hc, fun _ => ?_, fun hboot => ?_,
    fun b hb => ?_, hg.sized, hg.apart⟩, fun b hb _ z hz => ?_⟩
  · exact ArenaSide.frame (h.create t p m) (p :: v.made) ha hown rfl rfl rfl rfl (List.mem_cons_of_mem _ ha.map)
      hslabs hremote
  · exact absurd (hc.init.symm.trans hboot) nofun
  · refine (hg.placed b hb).keep (fun _ _ hb => hb) (fun _ hb => hb) ?_ ?_
    · intro _ hpage
      show PageBlock v (v.arena.nextFreePage m) b
      rw [ArenaSide.next_eq hown]
      exact hpage
    · intro hvia hmap
      refine hmap.frame (List.mem_cons_of_mem _ hmap.1.map) (fun z hz => ?_) ?_ hmap.2.2
      · exact hc.bytes (hg.fresh_not_header (r := ⟨p, 4096⟩) hc.grant hb hvia hz)
      · show b.ptr - 4096 ∉ p :: v.made
        rw [List.mem_cons, not_or]
        have hne : b.region.base ≠ p := hg.maps.base_ne hc.grant hmap.1.map
        exact ⟨hne, hmap.2.1⟩
  · exact hc.bytes fun hz' => hg.fresh_not_extent (r := ⟨p, 4096⟩) hc.grant hb hz' hz

/-! ## Huge blocks -/

/-- The block that a fresh mapping holds. -/
theorem Maps.mapBlock (hg : Good h v l) {n base : Nat} {os : Os} (hm : Maps h n base os) :
    MapBlock os v ⟨base + 4096, n, .huge, hugeTotal n - 4096⟩ := by
  have hbase : base + 4096 - 4096 = base := Nat.add_sub_cancel _ _
  refine ⟨?_, ?_, ?_⟩
  · show HugeAt os (base + 4096) (hugeTotal n - 4096 + 4096)
    rw [Nat.sub_add_cancel hm.huge.pos]
    exact hm.huge
  · show base + 4096 - 4096 ∉ v.made
    rw [hbase]
    exact fun hmem => hg.maps.base_ne hm.grant (hg.threads.map _ hmem) rfl
  · show base + 4096 - 4096 ≠ v.arena.base
    rw [hbase]
    cases hinit : h.arenaInit with
    | true => exact (hg.maps.base_ne hm.grant (hg.arena hinit).map).symm
    | false =>
      rw [(hg.booting hinit).base]
      exact Nat.ne_of_gt hm.grant.1

/-- No other block has its pointer: one in the arena would have the mapping reach into the metadata. -/
theorem Maps.ptr_ne (hg : Good h v l) {n base : Nat} {os : Os} (hm : Maps h n base os) (hb : b ∈ l) :
    base + 4096 ≠ b.ptr := by
  intro heq
  by_cases hvia : b.via = .huge
  · have hm' := (hg.placed b hb).mapBlock hvia
    apply hg.maps.base_ne hm.grant hm'.1.map
    show b.ptr - 4096 = base
    rw [← heq]
    exact Nat.add_sub_cancel _ _
  · have ha := hg.arena (hg.init_of_via hb hvia)
    have hpl := hg.placed b hb
    have hin := hpl.inside ha hg.maps hvia (z := b.ptr)
      ⟨Nat.le_refl _, Nat.lt_add_of_pos_right (hpl.cap_pos ha hvia)⟩
    have hdisj := hm.grant.2.2.2.2 _ ha.map
    unfold Region.Disjoint at hdisj
    simp only at hdisj
    omega

/-- **Mapping a huge block.** -/
theorem Good.map (hg : Good h v l) {n base : Nat} {os : Os} (hm : Maps h n base os) :
    Kept ⟨h, v, l⟩ ⟨h.setOs os, v, ⟨base + 4096, n, .huge, hugeTotal n - 4096⟩ :: l⟩ := by
  have ht := hg.threads
  obtain ⟨r, hr⟩ : ∃ r : Region, r = ⟨base, hugeTotal n⟩ := ⟨_, rfl⟩
  have hgrant : Grantable h.os.maps r.size r.base := by rw [hr]; exact hm.grant
  have hbytes : Set.EqOn os.bytes h.os.bytes r.bytesᶜ := by rw [hr]; exact hm.bytes
  have hmaps : os.maps = r :: h.os.maps := by rw [hr]; exact hm.maps
  have hsub : ∀ r' ∈ h.os.maps, r' ∈ os.maps := fun r' hr' => hmaps ▸ List.mem_cons_of_mem _ hr'
  obtain ⟨b, hbdef⟩ : ∃ b : Block, b = ⟨base + 4096, n, .huge, hugeTotal n - 4096⟩ := ⟨_, rfl⟩
  have hmine : MapBlock os v b := hbdef ▸ hm.mapBlock hg
  have hown : h.arenaInit = true → Set.EqOn os.bytes h.os.bytes v.own := by
    intro hinit z hz
    apply hbytes
    intro hz'
    exact hg.fresh_not_own hinit hgrant hz' hz
  have hextent : ∀ z ∈ b.extent, z ∈ r.bytes := by
    intro z hz
    have hregion : b.region = r := by
      rw [hbdef, hr]
      exact congrArg₂ Region.mk (Nat.add_sub_cancel _ _) (Nat.sub_add_cancel hm.huge.pos)
    exact hregion ▸ hmine.mem_region hz
  rw [← hbdef]
  refine ⟨⟨hg.lock, ?_, ⟨ht.tls, ht.owner, ht.registry, ht.id, ht.blank, ht.pages, fun q hq => ?_⟩,
    fun hinit => ?_, fun hinit => ?_, fun b' hb' => ?_, fun b' hb' => ?_, ?_⟩, fun b' hb' _ z hz => ?_⟩
  · show Mappings os.maps
    rw [hmaps]
    exact hg.maps.cons hgrant
  · exact hsub _ (ht.map q hq)
  · have ha := hg.arena hinit
    exact ArenaSide.frame (h.setOs os) v.made ha (hown hinit) rfl rfl rfl rfl (hsub _ ha.map)
      rfl rfl
  · have hboot := hg.booting hinit
    refine ⟨hboot.ready, hboot.arena, hboot.tlsf, hboot.base, hboot.made, hboot.next, hboot.cls, fun b' hb' => ?_⟩
    rcases List.mem_cons.mp hb' with rfl | hb'
    · rw [hbdef]
    · exact hboot.huge b' hb'
  · rcases List.mem_cons.mp hb' with rfl | hb'
    · exact (placed_huge (h := h.setOs os) (by rw [hbdef])).mpr hmine
    · refine (hg.placed b' hb').keep (fun _ _ hb => hb) (fun _ hb => hb) ?_ ?_
      · intro hvia hpage
        have hinit := hg.init_of_via hb' (by rw [hvia]; nofun)
        show PageBlock v (v.arena.nextFreePage os.bytes) b'
        rw [ArenaSide.next_eq (hown hinit)]
        exact hpage
      · intro hvia hmap
        refine hmap.frame (hsub _ hmap.1.map) (fun z hz => ?_) hmap.2.1 hmap.2.2
        exact hbytes (hg.fresh_not_header hgrant hb' hvia hz)
  · rcases List.mem_cons.mp hb' with rfl | hb'
    · rw [hbdef]
      exact Nat.sub_add_cancel hm.huge.pos
    · exact hg.sized b' hb'
  · refine List.pairwise_cons.mpr ⟨fun b' hb' => ⟨?_, fun z hz => ?_⟩, hg.apart⟩
    · rw [hbdef]
      exact hm.ptr_ne hg hb'
    · exact hg.fresh_not_extent hgrant hb' (hextent z hz)
  · exact hbytes fun hz' => hg.fresh_not_extent hgrant hb' hz' hz

/-- **Unmapping a huge block.** -/
theorem Good.unmap (hg : Good h v l) (hb : b ∈ l) (hvia : b.via = .huge) :
    Kept ⟨h, v, l⟩ ⟨h.setOs { h.os with maps := h.os.maps.erase b.region }, v, l.erase b⟩ := by
  have ht := hg.threads
  have hm := (hg.placed b hb).mapBlock hvia
  have hkeep : ∀ r ∈ h.os.maps, r.base ≠ b.ptr - 4096 → r ∈ h.os.maps.erase b.region := by
    intro r hr hne
    refine (List.mem_erase_of_ne ?_).mpr hr
    rintro rfl
    exact hne rfl
  have hmem : ∀ b' ∈ l.erase b, b' ∈ l ∧ b' ≠ b := fun b' hb' => hg.mem_erase hb'
  refine ⟨⟨hg.lock, hg.maps.erase _, ⟨ht.tls, ht.owner, ht.registry, ht.id, ht.blank, ht.pages,
    fun q hq => ?_⟩, fun hinit => ?_, fun hinit => ?_, fun b' hb' => ?_,
    fun b' hb' => hg.sized b' (hmem b' hb').1, hg.apart.sublist List.erase_sublist⟩,
    fun _ _ _ => Set.eqOn_refl _ _⟩
  · apply hkeep _ (ht.map q hq)
    intro heq
    have heq' : q = b.ptr - 4096 := heq
    exact hm.2.1 (heq' ▸ hq)
  · have ha := hg.arena hinit
    refine ⟨ha.arena, ha.slab, ha.tlsf, ha.ready, ?_, ha.slabs, ha.pool⟩
    exact hkeep _ ha.map fun heq => hm.2.2 heq.symm
  · have hboot := hg.booting hinit
    exact ⟨hboot.ready, hboot.arena, hboot.tlsf, hboot.base, hboot.made, hboot.next, hboot.cls,
      fun b' hb' => hboot.huge b' (hmem b' hb').1⟩
  · obtain ⟨hb', hne⟩ := hmem b' hb'
    refine (hg.placed b' hb').keep (fun _ _ hb => hb) (fun _ hb => hb) (fun _ hb => hb) ?_
    intro hvia' hmap
    refine hmap.frame (hkeep _ hmap.1.map ?_) (Set.eqOn_refl _ _) hmap.2.1 hmap.2.2
    intro heq
    have hge := hm.1.ge
    have hge' := hmap.1.ge
    apply (hg.apart_of_ne hb' hb hne).1
    show b'.ptr = b.ptr
    have heq' : b'.ptr - 4096 = b.ptr - 4096 := heq
    omega

/-! ## Initialisation -/

/-- **Setting up the arena** while only huge blocks live. -/
theorem Good.setup (hg : Good h v l) {a : Arena} {tlsf : Tlsf.TlsfAllocator} (hs : Sets h a tlsf m) :
    Kept ⟨h, v, l⟩ ⟨h.setup a tlsf m, .fresh a tlsf, l⟩ := by
  have ht := hg.threads
  have hboot := hg.booting hs.init
  have hmade : ∀ p, p ∉ v.made := fun p hp => by rw [hboot.made] at hp; exact absurd hp List.not_mem_nil
  have hslabs : (h.setup a tlsf m).slabs = fun _ => .new := by
    funext k
    cases k with
    | none => rfl
    | some p => exact (ht.blank p (hmade p)).1
  have hremote : (h.setup a tlsf m).remote = fun _ => 0 := by
    funext p
    exact (ht.blank p (hmade p)).2
  refine ⟨⟨hg.lock, hg.maps.cons hs.grant, ⟨fun t hne => absurd rfl hne, fun t _ hne => absurd rfl hne,
    fun k hne => absurd (ht.registry k hne).1 (hmade _), fun p hp => absurd hp List.not_mem_nil,
    fun p _ => ht.blank p (hmade p), fun i c hc => absurd hc (Option.some_ne_none c).symm,
    fun p hp => absurd hp List.not_mem_nil⟩, fun _ => ?_, fun hinit => absurd hinit nofun,
    fun b hb => ?_, hg.sized, hg.apart⟩, fun b hb _ z hz => ?_⟩
  · refine ⟨rfl, rfl, rfl, rfl, List.mem_cons_self, ?_, hs.pool⟩
    rw [hslabs, hremote]
    exact hs.slabs
  · have hvia := hboot.huge b hb
    have hmap := (hg.placed b hb).mapBlock hvia
    refine (placed_huge (h := h.setup a tlsf m) (v := .fresh a tlsf) hvia).mpr ?_
    refine hmap.frame (List.mem_cons_of_mem _ hmap.1.map) (fun z hz => ?_) List.not_mem_nil ?_
    · exact hs.bytes (hg.fresh_not_header (r := ⟨a.base, 2097152⟩) hs.grant hb hvia hz)
    · have hne : b.region.base ≠ a.base := hg.maps.base_ne hs.grant hmap.1.map
      exact hne
  · exact hs.bytes fun hz' => hg.fresh_not_extent (r := ⟨a.base, 2097152⟩) hs.grant hb hz' hz

end FerrumAlloc
