/-
# FerrumAlloc.Api.ActsSlab -- the acts of slabs and stacks

A slot moves between three places: the free list of its page, the client, and the stack of a cache.
`serve`, `put`, `push` and `pop` are the moves. Each writes in the metadata, in the slot that moves, and
(for `serve`) in a page issued by the same call, so no other slot and no other zone sees it.
-/
import FerrumAlloc.Api.ActsPool

namespace FerrumAlloc

open Lib

variable {h : Heap} {v : View} {l : List Block} {b b' : Block} {p c i j n x z : Nat} {m : Mem}
  {s : SlabAllocator} {g : Ghost (Option Nat)} {k : Option Nat} {S : Set Nat}

/-! ## The thread side -/

/-- A cache may change in all but its identifier. -/
theorem ThreadSide.setCache (ht : ThreadSide h v) (hp : p ∈ v.made) (tc : ThreadCache)
    (hid : tc.id = (h.caches p).id) : ThreadSide (h.setCache p tc) v := by
  have hcache : ∀ q, ((h.setCache p tc).caches q).id = (h.caches q).id := by
    intro q
    by_cases hq : q = p
    · rw [hq]
      exact (congrArg ThreadCache.id (Function.update_self ..)).trans hid
    · exact congrArg ThreadCache.id (Function.update_of_ne hq ..)
  refine ⟨ht.tls, ht.owner, fun r hr => ?_, fun q hq => ?_, fun q hq => ?_, ht.pages, ht.map⟩
  · rw [hcache]
    exact ht.registry r hr
  · rw [hcache]
    exact ht.id q hq
  · have hne : q ≠ p := fun heq => hq (heq ▸ hp)
    have hsame : (h.setCache p tc).caches q = h.caches q := Function.update_of_ne hne ..
    rw [hsame]
    exact ht.blank q hq

/-- The thread side looks at the caches made and at the owners of slab pages only. -/
theorem ThreadSide.view {v' : View} (ht : ThreadSide h v) (hmade : v'.made = v.made)
    (hpages : ∀ i c, v'.g.cls i = some c →
      v'.g.owner i < maxThreads ∧ h.registry (v'.g.owner i) ≠ 0) : ThreadSide h v' :=
  ⟨by rw [hmade]; exact ht.tls, ht.owner, by rw [hmade]; exact ht.registry, by rw [hmade]; exact ht.id,
    by rw [hmade]; exact ht.blank, hpages, by rw [hmade]; exact ht.map⟩

theorem ThreadSide.setBytes (ht : ThreadSide h v) (m : Mem) : ThreadSide (h.setBytes m) v :=
  ⟨ht.tls, ht.owner, ht.registry, ht.id, ht.blank, ht.pages, ht.map⟩

theorem ThreadSide.setSlab (ht : ThreadSide h v) (hp : ∀ p, k = some p → p ∈ v.made) (s : SlabAllocator)
    (m : Mem) : ThreadSide (h.setSlab k s m) v := by
  cases k with
  | none => exact ⟨ht.tls, ht.owner, ht.registry, ht.id, ht.blank, ht.pages, ht.map⟩
  | some p => exact (ht.setCache (hp p rfl) { h.caches p with slab := s } rfl).setBytes m

/-! ## Serving a slot -/

/-- The bytes an allocation writes lie in the metadata or in the page it issues. -/
theorem ArenaSide.zone_allocBytes (ha : ArenaSide h v)
    (hroom : v.arena.nextFreePage h.os.bytes < pagesPerArena ∨ v.g.parts (k, c) ≠ [])
    (hz : z ∈ allocBytes v.arena v.g (v.arena.nextFreePage h.os.bytes) k c) :
    v.arena.zone z = .header ∨ v.arena.zone z = .page (v.arena.nextFreePage h.os.bytes) := by
  unfold allocBytes at hz
  split at hz
  · rename_i hnil
    have hlt := hroom.resolve_right (not_not.mpr hnil)
    rcases hz with (hz | hz) | hz
    · exact .inl (zone_header (Arena.arenaMetaBytes_subset hz))
    · exact .inr (zone_page ha.slabs.next_ge hlt hz)
    · exact .inl (zone_header (Arena.metaBytes_subset hlt hz))
  · exact .inl (zone_header (ha.slabs.inv.listBytes_subset _ hz))

/-- No live block is in the way of an allocation. -/
theorem Good.extent_not_alloc (hg : Good h v l) (ha : ArenaSide h v)
    (hroom : v.arena.nextFreePage h.os.bytes < pagesPerArena ∨ v.g.parts (k, c) ≠ []) (hb : b ∈ l)
    (hz : z ∈ b.extent) : z ∉ allocBytes v.arena v.g (v.arena.nextFreePage h.os.bytes) k c := by
  intro hz'
  have hzone := ha.zone_allocBytes hroom hz'
  have hin := (hg.placed b hb).territory ha hg.maps hz
  cases hv : b.via with
  | null => rw [hv] at hin; exact hin
  | slab c' =>
    obtain ⟨i', j', hu, hp, hcap, _⟩ := (hg.placed b hb).slabBlock hv
    rw [Block.mem_extent, hp, hcap] at hz
    exact ha.slabs.inv.allocBytes_not_used hroom hu hz hz'
  | tlsf =>
    rw [hv] at hin
    rcases hzone with hzone | hzone <;> exact Zone.noConfusion (hzone.symm.trans hin)
  | bump =>
    rw [hv] at hin
    obtain ⟨i', hlt, _, hpage⟩ := hin
    rcases hzone with hzone | hzone
    · exact Zone.noConfusion (hzone.symm.trans hpage)
    · have heq := Zone.page.inj (hzone.symm.trans hpage)
      omega
  | huge =>
    rw [hv] at hin
    rcases hzone with hzone | hzone <;> exact Zone.noConfusion (hzone.symm.trans hin)

/-- A slot served was free: no block and no stack has its address. -/
theorem Serves.role_free (hs : Serves h v p c i j s m g) (ha : ArenaSide h v) :
    v.role (v.arena.slotAddr i c j) = .free := by
  by_contra hne
  obtain ⟨i', c', j', hu, heq⟩ := (ha.slabs.role _).mp hne
  have hiff : ∀ {a b d}, g.Used a b d ↔ v.g.Used a b d ∨ a = i ∧ b = c ∧ d = j :=
    hs.served.used_iff ha.slabs.inv hs.cls
  obtain ⟨rfl, rfl, rfl⟩ := hs.inv.slotAddr_inj (hiff.mpr (.inr ⟨rfl, rfl, rfl⟩)) (hiff.mpr (.inl hu)) heq
  exact hs.served.not_used ha.slabs.inv hu

/-- An allocation does not move the page counter back. -/
theorem Serves.next_le (hs : Serves h v p c i j s m g) (ha : ArenaSide h v) :
    v.arena.nextFreePage h.os.bytes ≤ v.arena.nextFreePage m := by
  exact hs.served.next_le ha.slabs.inv hs.inv hs.bytes

/-- The slab side after a slot has been served. -/
theorem Serves.slabs (hs : Serves h v p c i j s m g) (ha : ArenaSide h v) :
    SlabSide m (Function.update h.slabs (some p) s) h.remote
      (v.serve g p i (v.arena.slotAddr i c j)) := by
  have hiff : ∀ {a b d}, g.Used a b d ↔ v.g.Used a b d ∨ a = i ∧ b = c ∧ d = j :=
    hs.served.used_iff ha.slabs.inv hs.cls
  have hfree := hs.role_free ha
  refine ⟨hs.inv, Nat.le_trans ha.slabs.next_ge (hs.next_le ha), fun i' c' hc' => ?_, fun x => ?_,
    fun q => ?_⟩
  · rcases hs.served.cls_some hc' with ⟨hc', _⟩ | ⟨hi', _⟩
    · exact ha.slabs.low i' c' hc'
    · rw [hi']
      exact ha.slabs.next_ge
  · show Function.update v.role (v.arena.slotAddr i c j) SlotRole.live x ≠ .free ↔ _
    by_cases hx : x = v.arena.slotAddr i c j
    · subst hx
      rw [Function.update_self]
      exact ⟨fun _ => ⟨i, c, j, hiff.mpr (.inr ⟨rfl, rfl, rfl⟩), rfl⟩, fun _ => nofun⟩
    · rw [Function.update_of_ne hx, ha.slabs.role]
      constructor
      · rintro ⟨i', c', j', hu, hx'⟩
        exact ⟨i', c', j', hiff.mpr (.inl hu), hx'⟩
      · rintro ⟨i', c', j', hu, hx'⟩
        rcases hiff.mp hu with hu | ⟨rfl, rfl, rfl⟩
        · exact ⟨i', c', j', hu, hx'⟩
        · exact absurd hx' hx
  · -- nodes on stacks are used slots, and those are not written
    apply (ha.slabs.stack q).keep
    intro x hx
    have hne : x ≠ v.arena.slotAddr i c j := by
      rintro rfl
      rw [hfree] at hx
      nomatch hx
    refine ⟨?_, read64_eqOn fun z hz => hs.bytes ?_⟩
    · show Function.update v.role (v.arena.slotAddr i c j) SlotRole.live x = .stacked q
      rw [Function.update_of_ne hne]
      exact hx
    · obtain ⟨i', c', j', hu, hx'⟩ := ha.slabs.stacked_used hx
      apply ha.slabs.inv.allocBytes_not_used hs.room hu
      exact SlabSide.node_subset_slot (ha.slabs.inv.used_lt hu) hx' hz.1 hz.2

/-- The pool lies elsewhere. -/
theorem Serves.pool (hs : Serves h v p c i j s m g) (ha : ArenaSide h v) : PoolSide m v := by
  apply ha.pool.frame
  intro z hz
  apply hs.bytes
  intro hz'
  have hz := ha.pool.zone_own hz
  rcases ha.zone_allocBytes hs.room hz' with hz' | hz' <;> exact Zone.noConfusion (hz.symm.trans hz')

/-- The thread side, with the owner of a page that is new. -/
theorem Serves.threads (hs : Serves h v p c i j s m g) (hg : Good h v l) (x : Nat) :
    ThreadSide (h.setSlab (some p) s m) (v.serve g p i x) := by
  have ht := hg.threads.setSlab (k := some p) (fun q hq => Option.some.inj hq ▸ hs.cache) s m
  refine ht.view rfl fun i' c' hc' => ?_
  show g.owner i' < maxThreads ∧ h.registry (g.owner i') ≠ 0
  rcases hs.served.cls_some hc' with ⟨hc', howner⟩ | ⟨_, _, _, howner⟩
  · rw [howner]
    exact hg.threads.pages i' c' hc'
  · rw [howner]
    exact (hg.threads.id p hs.cache).2

/-- Live blocks keep their place when a slot is served. -/
theorem Serves.placed (hs : Serves h v p c i j s m g) (hg : Good h v l) (hb : b ∈ l) :
    Placed (h.setSlab (some p) s m) (v.serve g p i (v.arena.slotAddr i c j)) b := by
  have ha := hg.arena hs.init
  refine (hg.placed b hb).keep ?_ (fun _ hb => hb) ?_ ?_
  · rintro c' _ ⟨i', j', hu, hp, hcap, hrole⟩
    refine ⟨i', j', (hs.served.used_iff ha.slabs.inv hs.cls).mpr (.inl hu), hp, hcap, ?_⟩
    show Function.update v.role (v.arena.slotAddr i c j) SlotRole.live b.ptr = .live
    by_cases hx : b.ptr = v.arena.slotAddr i c j
    · rw [hx, Function.update_self]
    · rw [Function.update_of_ne hx]
      exact hrole
  · rintro _ ⟨i', k', hp, hcap, hk', hlo, hhi, hcls⟩
    refine ⟨i', k', hp, hcap, hk', hlo, Nat.le_trans hhi (hs.next_le ha), fun j' h1 h2 => ?_⟩
    exact (hs.served.cls_of_lt (by omega)).trans (hcls j' h1 h2)
  · intro _ hmap
    refine hmap.frame hmap.1.map (ha.header_page hg.maps hs.bytes ?_ hmap) hmap.2.1 hmap.2.2
    intro z hz
    rcases ha.zone_allocBytes hs.room hz with hz | hz <;> rw [hz] <;> nofun

/-- No live block reaches into the slot served. -/
theorem Serves.not_extent (hs : Serves h v p c i j s m g) (hg : Good h v l) (hb : b ∈ l)
    (hz : z ∈ slotBytes v.arena i c j) : z ∉ b.extent := by
  intro hz'
  have ha := hg.arena hs.init
  have hiff : ∀ {a b d}, g.Used a b d ↔ v.g.Used a b d ∨ a = i ∧ b = c ∧ d = j :=
    hs.served.used_iff ha.slabs.inv hs.cls
  have hmine : g.Used i c j := hiff.mpr (.inr ⟨rfl, rfl, rfl⟩)
  have hpage : v.arena.zone z = .page i := (hs.slabs ha).zone_used hmine hz
  have hin := (hg.placed b hb).territory ha hg.maps hz'
  cases hv : b.via with
  | null => rw [hv] at hin; exact hin
  | slab c' =>
    obtain ⟨i', j', hu, hp, hcap, _⟩ := (hg.placed b hb).slabBlock hv
    rw [Block.mem_extent, hp, hcap] at hz'
    obtain ⟨rfl, rfl, rfl⟩ := hs.inv.used_unique hmine (hiff.mpr (.inl hu)) hz hz'
    exact hs.served.not_used ha.slabs.inv hu
  | tlsf =>
    rw [hv] at hin
    exact Zone.noConfusion (hpage.symm.trans hin)
  | bump =>
    rw [hv] at hin
    obtain ⟨i', hlt, hcls, hpage'⟩ := hin
    obtain rfl := Zone.page.inj (hpage.symm.trans hpage')
    exact Option.some_ne_none _ (hmine.1.symm.trans ((hs.served.cls_of_lt hlt).trans hcls))
  | huge =>
    rw [hv] at hin
    exact Zone.noConfusion (hpage.symm.trans hin)

/-- **A slot is handed out.** -/
theorem Good.serve (hg : Good h v l) (hs : Serves h v p c i j s m g) (hn : sizeToClass n = some c) :
    Kept ⟨h, v, l⟩ ⟨h.setSlab (some p) s m, v.serve g p i (v.arena.slotAddr i c j),
      ⟨v.arena.slotAddr i c j, n, .slab c, slotSize c⟩ :: l⟩ := by
  have ha := hg.arena hs.init
  have hside := hs.slabs ha
  have hpool := hs.pool ha
  have hmine : g.Used i c j := (hs.served.used_iff ha.slabs.inv hs.cls).mpr (.inr ⟨rfl, rfl, rfl⟩)
  obtain ⟨b, hbdef⟩ : ∃ b : Block, b = ⟨v.arena.slotAddr i c j, n, .slab c, slotSize c⟩ := ⟨_, rfl⟩
  have hmem : ∀ z ∈ b.extent, z ∈ slotBytes v.arena i c j := by
    intro z hz
    rw [hbdef] at hz
    exact hz
  rw [← hbdef]
  refine ⟨⟨hg.lock, hg.maps, hs.threads hg _, fun _ => ⟨ha.arena, ha.slab, ha.tlsf, ha.ready, ha.map, ?_,
    ⟨hpool.inv, hpool.start_eq, hpool.stop_eq⟩⟩, fun hboot => absurd (hs.init.symm.trans hboot) nofun,
    fun b' hb' => ?_, fun b' hb' => ?_, ?_⟩, fun b' hb' _ z hz => ?_⟩
  · rw [Heap.slabs_setSlab, Heap.remote_setSlab]
    exact hside
  · rcases List.mem_cons.mp hb' with rfl | hb'
    · refine (placed_slab (c := c) (by rw [hbdef])).mpr ⟨i, j, hmine, by rw [hbdef]; rfl, by rw [hbdef], ?_⟩
      rw [hbdef]
      exact Function.update_self ..
    · exact hs.placed hg hb'
  · rcases List.mem_cons.mp hb' with rfl | hb'
    · rw [hbdef]
      exact ⟨hn, rfl⟩
    · exact hg.sized b' hb'
  · refine List.pairwise_cons.mpr ⟨hg.apart_new ha ?_ (fun z hz => ?_) ?_, hg.apart⟩
    · have h8 := (slots_of_lt hs.cls).size_ge
      rw [hbdef]
      exact lt_of_lt_of_le (by norm_num) h8
    · have hpage : v.arena.zone z = .page i := hside.zone_used hmine (hmem z hz)
      exact zone_bounds (by rw [hpage]; nofun) (by rw [hpage]; nofun)
    · exact fun b' hb' _ z hz => hs.not_extent hg hb' (hmem z hz)
  · exact hs.bytes (hg.extent_not_alloc ha hs.room hb' hz)

/-! ## Putting a slot back -/

/-- The bytes a free writes lie in the metadata or in the page of the slot. -/
theorem ArenaSide.zone_freeBytes (ha : ArenaSide h v) (hu : v.g.Used i c j)
    (hz : z ∈ SlabInv.freeBytes v.arena v.g k i c j) :
    v.arena.zone z = .header ∨ v.arena.zone z = .page i := by
  rcases hz with hz | hz
  · left
    have hnode := ha.slabs.inv.put_node (ha.slabs.inv.index_lt hu.1) (k, c)
    exact zone_header (listBytes_metaRegion hnode hz)
  · right
    apply ha.slabs.zone_used hu
    exact linkSpan_subset_slotBytes (ha.slabs.inv.used_lt hu) hz

/-- No live block is in the way of a free, but for the block freed. -/
theorem Good.extent_not_free (hg : Good h v l) (ha : ArenaSide h v) (hu : v.g.Used i c j) (hb : b ∈ l)
    (hne : b.ptr ≠ v.arena.slotAddr i c j) (hz : z ∈ b.extent) :
    z ∉ SlabInv.freeBytes v.arena v.g k i c j := by
  intro hz'
  have hzone := ha.zone_freeBytes hu hz'
  have hin := (hg.placed b hb).territory ha hg.maps hz
  cases hv : b.via with
  | null => rw [hv] at hin; exact hin
  | slab c' =>
    obtain ⟨i', j', hu', hp, hcap, _⟩ := (hg.placed b hb).slabBlock hv
    rw [Block.mem_extent, hp, hcap] at hz
    refine ha.slabs.inv.freeBytes_not_used hu hu' ?_ hz hz'
    rintro ⟨rfl, rfl⟩
    obtain rfl := Option.some.inj (hu.1.symm.trans hu'.1)
    exact hne hp
  | tlsf =>
    rw [hv] at hin
    rcases hzone with hzone | hzone <;> exact Zone.noConfusion (hzone.symm.trans hin)
  | bump =>
    rw [hv] at hin
    obtain ⟨i', _, hcls, hpage⟩ := hin
    rcases hzone with hzone | hzone
    · exact Zone.noConfusion (hzone.symm.trans hpage)
    · obtain rfl := Zone.page.inj (hzone.symm.trans hpage)
      exact Option.some_ne_none _ (hu.1.symm.trans hcls)
  | huge =>
    rw [hv] at hin
    rcases hzone with hzone | hzone <;> exact Zone.noConfusion (hzone.symm.trans hin)

namespace Puts

/-- A free does not touch `ArenaMeta`. -/
theorem header_eq (hp : Puts h v k c i j s m) (ha : ArenaSide h v) :
    Set.EqOn m h.os.bytes v.arena.arenaMetaBytes :=
  fun _ hz => hp.bytes fun hz' => ha.slabs.inv.freeBytes_arenaMeta hp.used hz' hz

/-- Nor does it move the page counter. -/
theorem next_eq (hp : Puts h v k c i j s m) (ha : ArenaSide h v) :
    v.arena.nextFreePage m = v.arena.nextFreePage h.os.bytes :=
  Arena.nextFreePage_of_eqOn (hp.header_eq ha)

/-- Nodes on stacks are not written, but for the slot put back. -/
theorem node_eq (hp : Puts h v k c i j s m) (ha : ArenaSide h v) {q : Nat} (hx : v.role x = .stacked q)
    (hne : x ≠ v.arena.slotAddr i c j) : read64 m x = read64 h.os.bytes x := by
  obtain ⟨i', c', j', hu', hx'⟩ := ha.slabs.stacked_used hx
  apply read64_eqOn
  intro z hz
  apply hp.bytes
  refine ha.slabs.inv.freeBytes_not_used hp.used hu' ?_
    (SlabSide.node_subset_slot (ha.slabs.inv.used_lt hu') hx' hz.1 hz.2)
  rintro ⟨rfl, rfl⟩
  obtain rfl := Option.some.inj (hp.used.1.symm.trans hu'.1)
  exact hne hx'

/-- The slab side after a slot has been put back, given the stacks. -/
theorem slabs (hp : Puts h v k c i j s m) (ha : ArenaSide h v) {remote : Nat → Nat}
    {stack : Nat → List Nat} (hstack : ∀ q, Stack m (v.put k c i j).role (.stacked q) (remote q) (stack q)) :
    SlabSide m (Function.update h.slabs k s) remote { v.put k c i j with stack := stack } := by
  have hge := ha.slabs.next_ge
  rw [← hp.next_eq ha] at hge
  refine ⟨hp.inv, hge, ha.slabs.low, fun x => ?_, hstack⟩
  show Function.update v.role (v.arena.slotAddr i c j) SlotRole.free x ≠ .free ↔
    ∃ i' c' j', (v.g.put v.arena k c i j).Used i' c' j' ∧ x = v.arena.slotAddr i' c' j'
  by_cases hx : x = v.arena.slotAddr i c j
  · subst hx
    rw [Function.update_self]
    refine ⟨fun hne => absurd rfl hne, ?_⟩
    rintro ⟨i', c', j', hu', heq⟩
    obtain ⟨hu', hne⟩ := (Ghost.used_put hp.used).mp hu'
    obtain ⟨rfl, _, rfl⟩ := ha.slabs.slot_eq hp.used hu' heq
    exact absurd ⟨rfl, rfl⟩ hne
  · rw [Function.update_of_ne hx, ha.slabs.role]
    constructor
    · rintro ⟨i', c', j', hu', hx'⟩
      refine ⟨i', c', j', (Ghost.used_put hp.used).mpr ⟨hu', ?_⟩, hx'⟩
      rintro ⟨rfl, rfl⟩
      obtain rfl := Option.some.inj (hp.used.1.symm.trans hu'.1)
      exact hx hx'
    · rintro ⟨i', c', j', hu', hx'⟩
      exact ⟨i', c', j', ((Ghost.used_put hp.used).mp hu').1, hx'⟩

/-- Blocks that are not the slot put back keep their place. -/
theorem placed (hp : Puts h v k c i j s m) (hg : Good h v l) (hb : b ∈ l)
    (hne : b.ptr ≠ v.arena.slotAddr i c j) {h' : Heap} {stack : Nat → List Nat}
    (hbytes : h'.os.bytes = m) (hmaps : h'.os.maps = h.os.maps) :
    Placed h' { v.put k c i j with stack := stack } b := by
  have ha := hg.arena hp.init
  refine (hg.placed b hb).keep ?_ (fun _ hb => hb) ?_ ?_
  · rintro c' _ ⟨i', j', hu, hptr, hcap, hrole⟩
    refine ⟨i', j', (Ghost.used_put hp.used).mpr ⟨hu, ?_⟩, hptr, hcap, ?_⟩
    · rintro ⟨rfl, rfl⟩
      obtain rfl := Option.some.inj (hp.used.1.symm.trans hu.1)
      exact hne hptr
    · exact (Function.update_of_ne hne ..).trans hrole
  · intro _ hpage
    show PageBlock v (v.arena.nextFreePage h'.os.bytes) b
    rw [hbytes, hp.next_eq ha]
    exact hpage
  · intro _ hmap
    have hos : h'.os = ⟨m, h.os.maps⟩ := by rw [← hbytes, ← hmaps]
    rw [hos]
    refine hmap.frame hmap.1.map ?_ hmap.2.1 hmap.2.2
    apply ha.header_page hg.maps hp.bytes ?_ hmap
    intro z hz
    rcases ha.zone_freeBytes hp.used hz with hz | hz <;> rw [hz] <;> nofun

theorem pool (hp : Puts h v k c i j s m) (ha : ArenaSide h v) : PoolSide m v := by
  apply ha.pool.frame
  intro z hz
  apply hp.bytes
  intro hz'
  have hz := ha.pool.zone_own hz
  rcases ha.zone_freeBytes hp.used hz' with hz' | hz' <;> exact Zone.noConfusion (hz.symm.trans hz')

end Puts

/-- **A slot comes back** from the client. -/
theorem Good.put (hg : Good h v l) (hp : Puts h v k c i j s m) (hb : b ∈ l) (hvia : b.via = .slab c)
    (hptr : b.ptr = v.arena.slotAddr i c j) :
    Kept ⟨h, v, l⟩ ⟨h.setSlab k s m, v.put k c i j, l.erase b⟩ := by
  have ha := hg.arena hp.init
  have hmem : ∀ b' ∈ l.erase b, b' ∈ l ∧ b'.ptr ≠ v.arena.slotAddr i c j := by
    intro b' hb'
    obtain ⟨hb', hne⟩ := hg.mem_erase hb'
    rw [← hptr]
    exact ⟨hb', (hg.apart_of_ne hb' hb hne).1⟩
  obtain ⟨i', j', _, _, _, hrole⟩ := (hg.placed b hb).slabBlock hvia
  rw [hptr] at hrole
  have hside : SlabSide m (Function.update h.slabs k s) h.remote (v.put k c i j) := by
    apply hp.slabs ha
    intro q
    apply (ha.slabs.stack q).keep
    intro x hx
    have hne : x ≠ v.arena.slotAddr i c j := by
      rintro rfl
      rw [hrole] at hx
      nomatch hx
    exact ⟨(Function.update_of_ne hne ..).trans hx, hp.node_eq ha hx hne⟩
  have hthreads : ThreadSide (h.setSlab k s m) (v.put k c i j) :=
    (hg.threads.setSlab hp.cache s m).view rfl fun i' c' hc' => by
      cases k <;> exact hg.threads.pages i' c' hc'
  have hpool := hp.pool ha
  have hmaps : (h.setSlab k s m).os = ⟨m, h.os.maps⟩ := by cases k <;> rfl
  refine ⟨⟨?_, ?_, hthreads, fun _ => ⟨?_, ?_, ?_, ?_, ?_, ?_, ?_⟩, fun hboot => ?_, fun b' hb' => ?_,
    fun b' hb' => hg.sized b' (hmem b' hb').1, hg.apart.sublist List.erase_sublist⟩,
    fun b' hb' hb'' z hz => ?_⟩
  · cases k <;> exact hg.lock
  · rw [hmaps]
    exact hg.maps
  · cases k <;> exact ha.arena
  · cases k with
    | none => rfl
    | some q => exact ha.slab
  · cases k <;> exact ha.tlsf
  · cases k <;> exact ha.ready
  · rw [hmaps]
    exact ha.map
  · rw [Heap.slabs_setSlab, Heap.remote_setSlab, hmaps]
    exact hside
  · rw [hmaps]
    exact ⟨hpool.inv, hpool.start_eq, hpool.stop_eq⟩
  · have hinit : (h.setSlab k s m).arenaInit = true := by cases k <;> exact hp.init
    exact absurd (hinit.symm.trans hboot) nofun
  · obtain ⟨hb', hne⟩ := hmem b' hb'
    exact hp.placed hg hb' hne (by rw [hmaps]) (by rw [hmaps])
  · show (h.setSlab k s m).os.bytes z = h.os.bytes z
    rw [hmaps]
    exact hp.bytes (hg.extent_not_free ha hp.used hb' (hmem b' hb'').2 hz)

/-- The slot on top of a stack is no live block. -/
theorem Good.ptr_ne_stacked (hg : Good h v l) (ha : ArenaSide h v) (hu : v.g.Used i c j)
    (hrole : v.role (v.arena.slotAddr i c j) = .stacked p) (hb : b ∈ l) :
    b.ptr ≠ v.arena.slotAddr i c j := by
  intro heq
  have hpl := hg.placed b hb
  have h8 := (slots_of_lt (ha.slabs.inv.used_lt hu)).size_ge
  have hpage : v.arena.zone b.ptr = .page i := by
    rw [heq]
    exact ha.slabs.zone_used hu ⟨Nat.le_refl _, by omega⟩
  have hself : b.via ≠ .huge → b.ptr ∈ b.extent := fun hvia =>
    ⟨Nat.le_refl _, Nat.lt_add_of_pos_right (hpl.cap_pos ha hvia)⟩
  cases hv : b.via with
  | null =>
    have hin := hpl.territory ha hg.maps (hself (by rw [hv]; nofun))
    rw [hv] at hin
    exact hin
  | slab c' =>
    obtain ⟨i', j', _, _, _, hlive⟩ := hpl.slabBlock hv
    rw [heq, hrole] at hlive
    nomatch hlive
  | tlsf =>
    have hin := hpl.territory ha hg.maps (hself (by rw [hv]; nofun))
    rw [hv] at hin
    exact Zone.noConfusion (hpage.symm.trans hin)
  | bump =>
    have hin := hpl.territory ha hg.maps (hself (by rw [hv]; nofun))
    rw [hv] at hin
    obtain ⟨i', _, hcls, hpage'⟩ := hin
    obtain rfl := Zone.page.inj (hpage.symm.trans hpage')
    exact Option.some_ne_none _ (hu.1.symm.trans hcls)
  | huge =>
    have hout := ha.huge_ptr hg.maps (hpl.mapBlock hv)
    have hin := ha.slabs.inv.used_end_le hu
    omega

/-- **One step of a drain**: the top of a stack goes back to the slab of its cache. -/
theorem Good.pop (hg : Good h v l) (hp : Puts h v (some p) c i j s m)
    (htop : h.remote p = v.arena.slotAddr i c j) :
    Kept ⟨h, v, l⟩ ⟨h.pop p s m, v.pop p c i j, l⟩ := by
  have ha := hg.arena hp.init
  have hmade := hp.cache p rfl
  have hne0 : h.remote p ≠ 0 := by
    rw [htop]
    have hpos := ha.slabs.inv.arena.pos
    have := (ha.slabs.inv.used_end_le hp.used).1
    omega
  -- the top of the stack is the slot that is put back
  obtain ⟨rest, hstack, hnot, hrest⟩ := (ha.slabs.stack p).tail hne0
  have hrole := (ha.slabs.stack p).head_role hne0
  rw [htop] at hnot hrest hrole hstack
  have hside : SlabSide m (Function.update h.slabs (some p) s)
      (Function.update h.remote p (read64 h.os.bytes (h.remote p))) (v.pop p c i j) := by
    refine hp.slabs ha fun q => ?_
    by_cases hq : q = p
    · subst hq
      rw [Function.update_self, Function.update_self, hstack, htop]
      apply hrest.keepOn
      intro x hx
      have hne : x ≠ v.arena.slotAddr i c j := fun heq => hnot (heq ▸ hx)
      have hx' := hrest.role x hx
      exact ⟨(Function.update_of_ne hne ..).trans hx', hp.node_eq ha hx' hne⟩
    · rw [Function.update_of_ne hq, Function.update_of_ne hq]
      apply (ha.slabs.stack q).keep
      intro x hx
      have hne : x ≠ v.arena.slotAddr i c j := by
        rintro rfl
        rw [hrole] at hx
        exact hq (SlotRole.stacked.inj hx).symm
      exact ⟨(Function.update_of_ne hne ..).trans hx, hp.node_eq ha hx hne⟩
  have hthreads : ThreadSide (h.pop p s m) (v.pop p c i j) := by
    have ht := hg.threads.setCache hmade ⟨(h.caches p).id, s, read64 h.os.bytes (h.remote p)⟩ rfl
    exact (ht.setBytes m).view rfl fun i' c' hc' => hg.threads.pages i' c' hc'
  have hpool := hp.pool ha
  have hne : ∀ b ∈ l, b.ptr ≠ v.arena.slotAddr i c j :=
    fun b hb => hg.ptr_ne_stacked ha hp.used hrole hb
  refine ⟨⟨hg.lock, hg.maps, hthreads, fun _ => ⟨ha.arena, ha.slab, ha.tlsf, ha.ready, ha.map, ?_,
    ⟨hpool.inv, hpool.start_eq, hpool.stop_eq⟩⟩, fun hboot => absurd (hp.init.symm.trans hboot) nofun,
    fun b' hb' => ?_, hg.sized, hg.apart⟩, fun b' hb' _ z hz => ?_⟩
  · rw [Heap.slabs_pop, Heap.remote_pop]
    exact hside
  · exact hp.placed hg hb' (hne b' hb') rfl rfl
  · exact hp.bytes (hg.extent_not_free ha hp.used hb' (hne b' hb') hz)

/-! ## Pushing a slot on a stack -/

/-- The link of a slot on a stack is inside its block. -/
theorem Good.link_extent (hg : Good h v l) (hinit : h.arenaInit = true) (hu : v.g.Used i c j) (hb : b ∈ l)
    (hvia : b.via = .slab c) (x : Nat) : Set.EqOn (write64 h.os.bytes b.ptr x) h.os.bytes b.extentᶜ := by
  obtain ⟨_, _, _, _, hcap, _⟩ := (hg.placed b hb).slabBlock hvia
  have h8 : 8 ≤ b.cap := by
    rw [hcap]
    exact (slots_of_lt ((hg.arena hinit).slabs.inv.used_lt hu)).size_ge
  apply eqOn_compl_mono (write64_eqOn _ _ _)
  intro z hz
  rw [Set.mem_Ico] at hz
  exact ⟨hz.1, by omega⟩

/-- So no side of the allocator sees it written. -/
theorem Good.link_own (hg : Good h v l) (hinit : h.arenaInit = true) (hu : v.g.Used i c j) (hb : b ∈ l)
    (hvia : b.via = .slab c) (x : Nat) : Set.EqOn (write64 h.os.bytes b.ptr x) h.os.bytes v.own := by
  intro z hz
  apply hg.link_extent hinit hu hb hvia x
  intro hz'
  exact (hg.placed b hb).not_own (hg.arena hinit) hg.maps hz' hz

/-- The head of a stack is a word that can be read back. -/
theorem SlabSide.remote_lt {slabs : Option Nat → SlabAllocator} {remote : Nat → Nat}
    (hs : SlabSide m slabs remote v) (p : Nat) : remote p < 2 ^ 64 := by
  by_cases h0 : remote p = 0
  · rw [h0]
    norm_num
  · obtain ⟨i, c, j, hu, hx⟩ := hs.stacked_used ((hs.stack p).head_role h0)
    have hend := (hs.inv.used_end_le hu).2
    have hfits := Arena.fits_lt hs.inv.arena
    omega

/-- The slab side after a slot has gone from the client to a stack. -/
theorem Good.push_slabs (hg : Good h v l) (hinit : h.arenaInit = true) (hu : v.g.Used i c j) (hb : b ∈ l)
    (hvia : b.via = .slab c) (hptr : b.ptr = v.arena.slotAddr i c j) (p : Nat) :
    SlabSide (write64 h.os.bytes b.ptr (h.remote p)) h.slabs (Function.update h.remote p b.ptr)
      (v.push p b.ptr) := by
  have ha := hg.arena hinit
  obtain ⟨_, _, _, _, _, hrole⟩ := (hg.placed b hb).slabBlock hvia
  obtain ⟨m, hm⟩ : ∃ m, m = write64 h.os.bytes b.ptr (h.remote p) := ⟨_, rfl⟩
  have hown : Set.EqOn m h.os.bytes v.own := hm ▸ hg.link_own hinit hu hb hvia _
  have hfree : ∀ q, v.role b.ptr ≠ .stacked q := fun q => by rw [hrole]; nofun
  have hupd : ∀ x, x ≠ b.ptr → (v.push p b.ptr).role x = v.role x := fun x hx => Function.update_of_ne hx ..
  have hself : (v.push p b.ptr).role b.ptr = .stacked p := Function.update_self ..
  have hkeep : ∀ x q, v.role x = .stacked q → (v.push p b.ptr).role x = .stacked q := by
    intro x q hx
    by_cases hxb : x = b.ptr
    · exact absurd (hxb ▸ hx) (hfree q)
    · rw [hupd x hxb]
      exact hx
  have hnode : ∀ x q, v.role x = .stacked q → read64 m x = read64 h.os.bytes x := fun x q hx =>
    read64_eqOn (hown.mono fun z hz => .inl (.inr ⟨x, q, hx, hz.1, hz.2⟩))
  have hs := ha.slabs.frame (hown.mono Set.subset_union_left)
  rw [← hm]
  refine ⟨hs.inv, hs.next_ge, hs.low, fun x => ?_, fun q => ?_⟩
  · by_cases hx : x = b.ptr
    · rw [hx, hself]
      exact ⟨fun _ => ⟨i, c, j, hu, hptr⟩, fun _ => nofun⟩
    · rw [hupd x hx]
      exact ha.slabs.role x
  · show Stack m _ _ _ (Function.update v.stack p (b.ptr :: v.stack p) q)
    by_cases hq : q = p
    · rw [hq, Function.update_self, Function.update_self]
      have hold : Stack m v.role (.stacked p) (h.remote p) (v.stack p) := by
        apply (ha.slabs.stack p).keep
        exact fun x hx => ⟨hx, hnode x p hx⟩
      refine hold.push ?_ (hfree p) ?_ hself fun x hx => hkeep x p hx
      · rw [hptr]
        have := (ha.slabs.inv.used_end_le hu).1
        omega
      · rw [hm]
        exact read64_write64_same _ (ha.slabs.remote_lt p)
    · rw [Function.update_of_ne hq, Function.update_of_ne hq]
      apply (ha.slabs.stack q).keep
      exact fun x hx => ⟨hkeep x q hx, hnode x q hx⟩

/-- **A slot goes to the stack** of a cache. -/
theorem Good.pushTo (hg : Good h v l) (hinit : h.arenaInit = true) (hu : v.g.Used i c j) (hb : b ∈ l)
    (hvia : b.via = .slab c) (hptr : b.ptr = v.arena.slotAddr i c j) (hmade : p ∈ v.made) :
    Kept ⟨h, v, l⟩ ⟨h.push p b.ptr, v.push p b.ptr, l.erase b⟩ := by
  have ha := hg.arena hinit
  have hslabs := hg.push_slabs hinit hu hb hvia hptr p
  have hown := hg.link_own hinit hu hb hvia (h.remote p)
  have hbytes := hg.link_extent hinit hu hb hvia (h.remote p)
  obtain ⟨m, hm⟩ : ∃ m, m = write64 h.os.bytes b.ptr (h.remote p) := ⟨_, rfl⟩
  rw [← hm] at hslabs hown hbytes
  have hpool : PoolSide m v := by
    apply ha.pool.frame
    exact hown.mono Set.subset_union_right
  have hmem : ∀ b' ∈ l.erase b, b' ∈ l ∧ b' ≠ b := fun b' hb' => hg.mem_erase hb'
  have hos : (h.push p b.ptr).os = ⟨m, h.os.maps⟩ := by
    rw [hm]
    rfl
  have hthreads : ThreadSide (h.push p b.ptr) (v.push p b.ptr) := by
    have ht := (hg.threads.setBytes (write64 h.os.bytes b.ptr (h.remote p))).setCache hmade
      ⟨(h.caches p).id, (h.caches p).slab, b.ptr⟩ rfl
    exact ht.view rfl fun i' c' hc' => hg.threads.pages i' c' hc'
  refine ⟨⟨hg.lock, hg.maps, hthreads, fun _ => ⟨ha.arena, ha.slab, ha.tlsf, ha.ready, ha.map, ?_, ?_⟩,
    fun hboot => absurd (hinit.symm.trans hboot) nofun, fun b' hb' => ?_,
    fun b' hb' => hg.sized b' (hmem b' hb').1, hg.apart.sublist List.erase_sublist⟩,
    fun b' hb' hb'' z hz => ?_⟩
  · rw [Heap.slabs_push, Heap.remote_push, hos]
    exact hslabs
  · rw [hos]
    exact ⟨hpool.inv, hpool.start_eq, hpool.stop_eq⟩
  · obtain ⟨hb', hne⟩ := hmem b' hb'
    show Placed (h.push p b.ptr) (v.push p b.ptr) b'
    refine (hg.placed b' hb').keep ?_ (fun _ hb => hb) ?_ ?_
    · rintro c' _ ⟨i', j', hu', hp', hcap', hrole'⟩
      refine ⟨i', j', hu', hp', hcap', ?_⟩
      exact (Function.update_of_ne (hg.apart_of_ne hb' hb hne).1 ..).trans hrole'
    · intro _ hpage
      rw [hos]
      show PageBlock v (v.arena.nextFreePage m) b'
      rw [ArenaSide.next_eq hown]
      exact hpage
    · intro hvia' hmap
      rw [hos]
      refine hmap.frame hmap.1.map (fun z hz => ?_) hmap.2.1 hmap.2.2
      exact hbytes (hg.header_not_extent hb' hvia' hb hz)
  · show (h.push p b.ptr).os.bytes z = h.os.bytes z
    rw [hos]
    exact hg.store_keeps hb hbytes hb' (hmem b' hb'').2 hz

/-- The cache registered for the owner of its page is one. -/
theorem Good.push (hg : Good h v l) (hinit : h.arenaInit = true) (hu : v.g.Used i c j) (hb : b ∈ l)
    (hvia : b.via = .slab c) (hptr : b.ptr = v.arena.slotAddr i c j) :
    Kept ⟨h, v, l⟩ ⟨h.push (h.registry (v.g.owner i)) b.ptr,
      v.push (h.registry (v.g.owner i)) b.ptr, l.erase b⟩ :=
  hg.pushTo hinit hu hb hvia hptr (hg.threads.registry _ (hg.threads.pages i c hu.1).2).1

end FerrumAlloc
