/-
# FerrumAlloc.Api.Blocks -- live blocks and the invariant of the heap

A live block remembers its pointer, the bytes requested, the backend that served it, and the bytes that
were reserved for it (`cap`). `Placed` says what the view holds at its address: a used slot in role
`live`, a used block of the pool, a run of pages that belong to no slab, or a mapping of its own.

`Good` is the invariant of the whole heap. Its parts live in different zones: `Good.territory` gives the
zone of every byte of a live block, `Good.not_own` that no side of the allocator relies on it.
-/
import FerrumAlloc.Api.View

namespace FerrumAlloc

open Lib
open Tlsf (UsedAt ownBytes)

/-- A block handed out to a client. -/
structure Block where
  ptr : Nat
  /-- Bytes requested. -/
  req : Nat
  via : Backend
  /-- Bytes reserved. -/
  cap : Nat
  deriving DecidableEq, Repr

namespace Block

/-- The bytes reserved for a block. -/
def extent (b : Block) : Set Nat := Set.Ico b.ptr (b.ptr + b.cap)

theorem mem_extent {b : Block} {z : Nat} : z ∈ b.extent ↔ b.ptr ≤ z ∧ z < b.ptr + b.cap := Iff.rfl

/-- Two blocks have different pointers and share no byte. -/
def Apart (b b' : Block) : Prop := b.ptr ≠ b'.ptr ∧ ∀ z ∈ b.extent, z ∉ b'.extent

theorem Apart.symm {b b' : Block} (h : b.Apart b') : b'.Apart b :=
  ⟨h.1.symm, fun z hz hz' => h.2 z hz' hz⟩

/-- The bytes reserved, as the serving backend derives them from the request. -/
def Sized (b : Block) : Prop :=
  match b.via with
  | .null => False
  | .slab c => sizeToClass b.req = some c ∧ b.cap = slotSize c
  | .tlsf => b.req ≤ b.cap
  | .bump => b.cap = (b.req + 4095) / 4096 * 4096
  | .huge => b.cap + 4096 = hugeTotal b.req

/-- **A block holds its request**, except when a huge request has wrapped. -/
theorem Sized.req_le {b : Block} (h : b.Sized) (hn : b.via = .huge → b.req ≤ 2 ^ 64 - 8192) :
    b.req ≤ b.cap := by
  unfold Sized at h
  split at h
  · exact h.elim
  · rw [h.2]
    exact (sizeToClass_spec h.1).2.1
  · exact h
  · omega
  · rename_i hvia
    have htot := hugeTotal_eq (hn hvia)
    omega

end Block

/-! ## What the view holds at a block -/

/-- A used slot that has been handed out. -/
def SlabBlock (v : View) (c : Nat) (b : Block) : Prop :=
  ∃ i j, v.g.Used i c j ∧ b.ptr = v.arena.slotAddr i c j ∧ b.cap = slotSize c ∧ v.role b.ptr = .live

/-- The payload of a used block of the pool. -/
def PoolBlock (v : View) (b : Block) : Prop :=
  ∃ x, b.ptr = x + 16 ∧ UsedAt v.tlsf.poolStart v.bs x b.cap

/-- A run of issued pages behind the pool, none of them a slab page. -/
def PageBlock (v : View) (next : Nat) (b : Block) : Prop :=
  ∃ i k, b.ptr = v.arena.pageAddr i ∧ b.cap = k * 4096 ∧ 0 < k ∧ firstPage ≤ i ∧ i + k ≤ next ∧
    ∀ j, i ≤ j → j < i + k → v.g.cls j = none

/-- A mapping of its own, behind its header page. -/
def MapBlock (os : Os) (v : View) (b : Block) : Prop :=
  HugeAt os b.ptr (b.cap + 4096) ∧ b.ptr - 4096 ∉ v.made ∧ b.ptr - 4096 ≠ v.arena.base

/-- What the view holds at a live block. -/
def Placed (h : Heap) (v : View) (b : Block) : Prop :=
  match b.via with
  | .null => False
  | .slab c => SlabBlock v c b
  | .tlsf => PoolBlock v b
  | .bump => PageBlock v (v.arena.nextFreePage h.os.bytes) b
  | .huge => MapBlock h.os v b

/-- Before `ensure_init` has succeeded there are no globals, no caches, and no blocks but huge ones. -/
structure Booting (h : Heap) (v : View) (live : List Block) : Prop where
  ready : h.tlsReady = false
  arena : h.globalArena = none
  tlsf : h.globalTlsf = none
  base : v.arena.base = 0
  made : v.made = []
  next : h.nextThreadId = 0
  cls : ∀ i, v.g.cls i = none
  huge : ∀ b ∈ live, b.via = .huge

/-- **The invariant of the heap.** -/
structure Good (h : Heap) (v : View) (live : List Block) : Prop where
  lock : h.arenaLock = false
  maps : Mappings h.os.maps
  threads : ThreadSide h v
  arena : h.arenaInit = true → ArenaSide h v
  booting : h.arenaInit = false → Booting h v live
  placed : ∀ b ∈ live, Placed h v b
  sized : ∀ b ∈ live, b.Sized
  apart : live.Pairwise Block.Apart

/-- The zone of the bytes of a block, by backend. -/
def View.Territory (v : View) (next : Nat) (z : Nat) : Backend → Prop
  | .null => False
  | .slab c => ∃ i, v.g.cls i = some c ∧ v.arena.zone z = .page i
  | .tlsf => v.arena.zone z = .pool
  | .bump => ∃ i < next, v.g.cls i = none ∧ v.arena.zone z = .page i
  | .huge => v.arena.zone z = .outside

/-- The bytes that slabs, stacks and pool rely on. -/
def View.own (v : View) : Set Nat :=
  slabOwn v.arena v.g ∪ stackBytes v.role ∪ ownBytes v.tlsf.poolStart v.bs

section

variable {h h' : Heap} {v v' : View} {live live' : List Block} {b b' : Block} {z c : Nat}

/-! ## Huge blocks -/

/-- The mapping of a huge block. -/
def Block.region (b : Block) : Region := ⟨b.ptr - 4096, b.cap + 4096⟩

theorem Block.mem_region {b : Block} {z : Nat} : z ∈ b.region.bytes ↔
    b.ptr - 4096 ≤ z ∧ z < b.ptr - 4096 + (b.cap + 4096) := Iff.rfl

theorem MapBlock.mem_region {os : Os} (hb : MapBlock os v b) (hz : z ∈ b.extent) :
    z ∈ b.region.bytes := by
  have hge := hb.1.ge
  rw [Block.mem_extent] at hz
  rw [Block.mem_region]
  omega

theorem Block.header_region (hz : z ∈ headerPage (b.ptr - 4096)) : z ∈ b.region.bytes := by
  obtain ⟨h1, h2⟩ := mem_headerPage.mp hz
  exact Block.mem_region.mpr ⟨h1, Nat.lt_of_lt_of_le h2 (Nat.add_le_add_left (Nat.le_add_left _ _) _)⟩

/-- The mapping of a huge block is not that of the arena. -/
theorem ArenaSide.region_disjoint (ha : ArenaSide h v) (hm : Mappings h.os.maps) (hb : MapBlock h.os v b) :
    Region.Disjoint b.region ⟨v.arena.base, 2097152⟩ := by
  have hne : b.region ≠ ⟨v.arena.base, 2097152⟩ := by
    intro heq
    have hbase : b.region.base = v.arena.base := by rw [heq]
    exact hb.2.2 hbase
  exact hm.disjoint hb.1.map ha.map hne

/-- A huge block lies outside the arena. -/
theorem ArenaSide.region_outside (ha : ArenaSide h v) (hm : Mappings h.os.maps) (hb : MapBlock h.os v b)
    (hz : z ∈ b.region.bytes) : v.arena.zone z = .outside := by
  rw [zone_outside_iff]
  exact (ha.region_disjoint hm hb).not_mem hz

/-- A huge block depends on its mapping and its header page. -/
theorem MapBlock.frame {os : Os} {m : Mem} {maps : List Region} (hb : MapBlock os v b)
    (hmap : b.region ∈ maps) (hm : Set.EqOn m os.bytes (headerPage (b.ptr - 4096)))
    (hmade : b.ptr - 4096 ∉ v'.made) (hbase : b.ptr - 4096 ≠ v'.arena.base) :
    MapBlock ⟨m, maps⟩ v' b := ⟨hb.1.frame hmap hm, hmade, hbase⟩

/-- The mappings of two huge blocks. -/
theorem MapBlock.region_ne {os : Os} (hb : MapBlock os v b) (hb' : MapBlock os v b')
    (hne : b.ptr ≠ b'.ptr) : b.region ≠ b'.region := by
  intro heq
  have hbase : b.region.base = b'.region.base := by rw [heq]
  unfold Block.region at hbase
  simp only at hbase
  have h1 := hb.1.ge
  have h2 := hb'.1.ge
  omega

/-! ## Where blocks lie -/

theorem PageBlock.mem_page {next : Nat} (hb : PageBlock v next b) (hz : z ∈ b.extent) :
    ∃ i, firstPage ≤ i ∧ i < next ∧ v.g.cls i = none ∧ z ∈ v.arena.pageBytes i := by
  obtain ⟨i, k, hp, hcap, _, hlo, hhi, hcls⟩ := hb
  rw [Block.mem_extent, hp, hcap, Arena.pageAddr_eq] at hz
  obtain ⟨h1, h2⟩ := hz
  have hq := Nat.div_add_mod (z - (v.arena.base + i * 4096)) 4096
  have hlt : (z - (v.arena.base + i * 4096)) / 4096 < k := by omega
  obtain ⟨q, hqd⟩ : ∃ q, q = (z - (v.arena.base + i * 4096)) / 4096 := ⟨_, rfl⟩
  rw [← hqd] at hq hlt
  have haddr := Arena.pageAddr_eq v.arena (i + q)
  refine ⟨i + q, by omega, by omega, hcls _ (by omega) (by omega), ?_, ?_⟩
  · omega
  · omega

/-- **Blocks of different backends lie in different zones.** -/
theorem Placed.territory (ha : ArenaSide h v) (hm : Mappings h.os.maps) (hb : Placed h v b)
    (hz : z ∈ b.extent) : v.Territory (v.arena.nextFreePage h.os.bytes) z b.via := by
  unfold Placed at hb
  cases hvia : b.via with
  | null => rw [hvia] at hb; exact hb
  | slab c =>
    rw [hvia] at hb
    obtain ⟨i, j, hu, hp, hcap, _⟩ := hb
    refine ⟨i, hu.1, ha.slabs.zone_used hu ?_⟩
    rw [Block.extent, hp, hcap] at hz
    exact hz
  | tlsf =>
    rw [hvia] at hb
    obtain ⟨x, hp, hu⟩ := hb
    obtain ⟨h1, h2⟩ := hz
    exact ha.pool.zone_used hu (by omega) (by omega)
  | bump =>
    rw [hvia] at hb
    obtain ⟨i, hlo, hhi, hcls, hz⟩ := PageBlock.mem_page hb hz
    have hle := ha.slabs.inv.next_le
    exact ⟨i, hhi, hcls, zone_page hlo (by omega) hz⟩
  | huge =>
    rw [hvia] at hb
    exact ha.region_outside hm hb (MapBlock.mem_region hb hz)

/-- The bytes of a live block are no metadata and no links of free slots. -/
theorem Placed.not_slabOwn (ha : ArenaSide h v) (hm : Mappings h.os.maps) (hb : Placed h v b)
    (hz : z ∈ b.extent) : z ∉ slabOwn v.arena v.g := by
  intro hz'
  have ht := hb.territory ha hm hz
  have hzone := ha.slabs.zone_own hz'
  unfold Placed at hb
  unfold View.Territory at ht
  cases hvia : b.via with
  | null => rw [hvia] at hb; exact hb
  | slab c =>
    rw [hvia] at hb
    obtain ⟨i, j, hu, hp, hcap, _⟩ := hb
    apply ha.slabs.inv.used_not_own hu ?_ hz'
    rw [Block.extent, hp, hcap] at hz
    exact hz
  | tlsf =>
    rw [hvia] at ht
    simp only [ht] at hzone
    rcases hzone with hzone | ⟨i, c, _, hzone⟩ <;> nomatch hzone
  | bump =>
    rw [hvia] at ht
    obtain ⟨i, _, hcls, hpage⟩ := ht
    rw [hpage] at hzone
    rcases hzone with hzone | ⟨i', c, hc, hzone⟩
    · nomatch hzone
    · obtain rfl := Zone.page.inj hzone
      rw [hcls] at hc
      nomatch hc
  | huge =>
    rw [hvia] at ht
    simp only [ht] at hzone
    rcases hzone with hzone | ⟨i, c, _, hzone⟩ <;> nomatch hzone

/-- Nor are they links of a stack. -/
theorem Placed.not_stack (ha : ArenaSide h v) (hm : Mappings h.os.maps) (hb : Placed h v b)
    (hz : z ∈ b.extent) : z ∉ stackBytes v.role := by
  intro hz'
  have ht := hb.territory ha hm hz
  obtain ⟨i', c', hc', hpage'⟩ := ha.slabs.zone_stack hz'
  unfold Placed at hb
  unfold View.Territory at ht
  cases hvia : b.via with
  | null => rw [hvia] at hb; exact hb
  | slab c =>
    rw [hvia] at hb
    obtain ⟨i, j, hu, hp, hcap, hrole⟩ := hb
    obtain ⟨x, p, hx, h1, h2⟩ := hz'
    obtain ⟨i₂, c₂, j₂, hu₂, hx₂⟩ := ha.slabs.stacked_used hx
    have hz₂ := SlabSide.node_subset_slot (ha.slabs.inv.used_lt hu₂) hx₂ h1 h2
    rw [Block.extent, hp, hcap] at hz
    obtain ⟨rfl, rfl, rfl⟩ := ha.slabs.inv.used_unique hu hu₂ hz hz₂
    rw [hp, ← hx₂, hx] at hrole
    nomatch hrole
  | tlsf =>
    rw [hvia] at ht
    exact Zone.noConfusion (ht.symm.trans hpage')
  | bump =>
    rw [hvia] at ht
    obtain ⟨i, _, hcls, hpage⟩ := ht
    obtain rfl := Zone.page.inj (hpage.symm.trans hpage')
    exact Option.some_ne_none _ (hc'.symm.trans hcls)
  | huge =>
    rw [hvia] at ht
    exact Zone.noConfusion (ht.symm.trans hpage')

/-- Nor headers and links of the pool. -/
theorem Placed.not_poolOwn (ha : ArenaSide h v) (hm : Mappings h.os.maps) (hb : Placed h v b)
    (hz : z ∈ b.extent) : z ∉ ownBytes v.tlsf.poolStart v.bs := by
  intro hz'
  have ht := hb.territory ha hm hz
  have hzone := ha.pool.zone_own hz'
  unfold Placed at hb
  unfold View.Territory at ht
  cases hvia : b.via with
  | null => rw [hvia] at hb; exact hb
  | slab c =>
    rw [hvia] at ht
    obtain ⟨i, _, hpage⟩ := ht
    exact Zone.noConfusion (hpage.symm.trans hzone)
  | tlsf =>
    rw [hvia] at hb
    obtain ⟨x, hp, hu⟩ := hb
    obtain ⟨h1, h2⟩ := hz
    exact ha.pool.used_not_own hu (by omega) (by omega) hz'
  | bump =>
    rw [hvia] at ht
    obtain ⟨i, _, _, hpage⟩ := ht
    exact Zone.noConfusion (hpage.symm.trans hzone)
  | huge =>
    rw [hvia] at ht
    exact Zone.noConfusion (ht.symm.trans hzone)

/-- **No side of the allocator relies on a byte of a live block.** -/
theorem Placed.not_own (ha : ArenaSide h v) (hm : Mappings h.os.maps) (hb : Placed h v b)
    (hz : z ∈ b.extent) : z ∉ v.own := by
  rintro ((hz' | hz') | hz')
  · exact hb.not_slabOwn ha hm hz hz'
  · exact hb.not_stack ha hm hz hz'
  · exact hb.not_poolOwn ha hm hz hz'

end

end FerrumAlloc
