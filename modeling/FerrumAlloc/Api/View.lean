/-
# FerrumAlloc.Api.View -- the abstract view of the whole heap

Beside the concrete `Heap` stands a `View`: the arena and its slab pages, the blocks of the TLSF pool,
what has become of every used slot (handed out, or waiting on a stack of remote frees), the caches made
so far. The live blocks are a list of their own.

The representation invariant comes in sides. `SlabSide` and `PoolSide` tie slab pages and pool to the
bytes of memory, `ThreadSide` is about caches, registry and thread-local pointers, `Mappings` about the
operating system. Each side depends on its own bytes, and the `Zone` of an address tells the sides apart:
the metadata pages, the pool, one data page, or outside the arena.
-/
import FerrumAlloc.Api.Model
import FerrumAlloc.Slab.Calls
import FerrumAlloc.Tlsf.Free

namespace FerrumAlloc

open Lib
open Tlsf (TlsfAllocator Blk PoolInv UsedAt ownBytes endAddr)

/-! ## Mappings -/

/-- The mappings of the process are whole pages, apart from each other. -/
structure Mappings (maps : List Region) : Prop where
  apart : maps.Pairwise Region.Disjoint
  ok : ∀ r ∈ maps, 0 < r.base ∧ r.base % 4096 = 0 ∧ 0 < r.size ∧ r.base + r.size < 2 ^ 64

section Mappings

variable {maps : List Region} {r r' : Region} {n p : Nat}

namespace Mappings

theorem disjoint (h : Mappings maps) (hr : r ∈ maps) (hr' : r' ∈ maps) (hne : r ≠ r') :
    r.Disjoint r' := by
  apply List.Pairwise.forall_of_forall_of_flip (R := fun r r' => r ≠ r' → r.Disjoint r')
    (fun r _ hrr => absurd rfl hrr) ?_ ?_ hr hr' hne
  · exact h.apart.imp fun {r r'} hd (_ : r ≠ r') => hd
  · exact h.apart.imp fun {r r'} hd (_ : r' ≠ r) => hd.symm

/-- Granting a mapping. -/
theorem cons (h : Mappings maps) (hg : Grantable maps n p) : Mappings (⟨p, n⟩ :: maps) := by
  obtain ⟨hpos, hal, hn, hfits, hdisj⟩ := hg
  refine ⟨List.pairwise_cons.mpr ⟨fun r hr => (hdisj r hr).symm, h.apart⟩, fun r hr => ?_⟩
  rcases List.mem_cons.mp hr with rfl | hr
  · exact ⟨hpos, hal, hn, hfits⟩
  · exact h.ok r hr

/-- Giving one back. -/
theorem erase (h : Mappings maps) (r : Region) : Mappings (maps.erase r) :=
  ⟨h.apart.sublist List.erase_sublist, fun r' hr' => h.ok r' (List.mem_of_mem_erase hr')⟩

/-- There is no second mapping at one place. -/
theorem not_mem_erase (h : Mappings maps) : r ∉ maps.erase r := by
  have hnodup : maps.Nodup := by
    apply List.Pairwise.imp_of_mem ?_ h.apart
    intro r₁ r₂ hr₁ hr₂ hd heq
    have hpos := (h.ok r₁ hr₁).2.2.1
    unfold Region.Disjoint at hd
    rw [heq] at hd hpos
    omega
  exact fun hr => (hnodup.mem_erase_iff.mp hr).1 rfl

/-- A mapping just granted starts where no other does. -/
theorem base_ne (h : Mappings maps) (hg : Grantable maps n p) (hr : r ∈ maps) : r.base ≠ p := by
  intro heq
  obtain ⟨_, _, hn, _, hdisj⟩ := hg
  have hd := hdisj r hr
  have hs := (h.ok r hr).2.2.1
  unfold Region.Disjoint at hd
  simp only at hd
  omega

end Mappings

/-- Disjoint mappings share no byte. -/
theorem Region.Disjoint.not_mem (h : r.Disjoint r') {z : Nat} (hz : z ∈ r.bytes) : z ∉ r'.bytes := by
  intro hz'
  obtain ⟨h1, h2⟩ := hz
  obtain ⟨h3, h4⟩ := hz'
  unfold Region.Disjoint at h
  omega

end Mappings

/-! ## Zones -/

/-- The first data page behind the TLSF pool. -/
def firstPage : Nat := 133

/-- Where an address lies. -/
inductive Zone
  | outside
  | header
  | pool
  | page (i : Nat)

/-- The zone of an address: outside the arena, in its metadata, in the TLSF pool, or in a later page. -/
def Arena.zone (a : Arena) (z : Nat) : Zone :=
  if z < a.base ∨ a.base + 2097152 ≤ z then .outside
  else if z < a.base + 20480 then .header
  else if z < a.base + 544768 then .pool
  else .page ((z - a.base) / 4096)

section Zones

variable {a : Arena} {i z : Nat}

theorem zone_outside (h : z < a.base ∨ a.base + 2097152 ≤ z) : a.zone z = .outside := if_pos h

theorem zone_header (h : z ∈ a.metaRegion) : a.zone z = .header := by
  obtain ⟨h1, h2⟩ := h
  unfold Arena.zone
  rw [if_neg (by omega), if_pos h2]

theorem zone_pool (h1 : a.base + 20480 ≤ z) (h2 : z < a.base + 544768) : a.zone z = .pool := by
  unfold Arena.zone
  rw [if_neg (by omega), if_neg (by omega), if_pos h2]

theorem zone_page (hlo : firstPage ≤ i) (hi : i < pagesPerArena) (h : z ∈ a.pageBytes i) :
    a.zone z = .page i := by
  obtain ⟨h1, h2⟩ := h
  have h3 : 133 ≤ i := hlo
  have h4 : i < 512 := hi
  rw [Arena.pageAddr_eq] at h1 h2
  unfold Arena.zone
  rw [if_neg (by omega), if_neg (by omega), if_neg (by omega)]
  congr 1
  omega

/-- The bytes of the mapping of an arena. -/
theorem zone_outside_iff : a.zone z = .outside ↔ z ∉ Region.bytes ⟨a.base, 2097152⟩ := by
  unfold Region.bytes Arena.zone
  rw [Set.mem_Ico]
  constructor
  · intro h
    split at h
    · simp only
      omega
    · split at h
      · nomatch h
      · split at h <;> nomatch h
  · intro h
    simp only at h
    exact if_pos (by omega)

/-- Pool and data pages. -/
theorem zone_bounds (hne : a.zone z ≠ .outside) (hne' : a.zone z ≠ .header) :
    a.base + 20480 ≤ z ∧ z < a.base + 2097152 := by
  constructor
  · by_contra hlt
    by_cases hlo : z < a.base
    · exact hne (zone_outside (.inl hlo))
    · exact hne' (zone_header ⟨by omega, by omega⟩)
  · by_contra hge
    exact hne (zone_outside (.inr (by omega)))

end Zones

/-! ## The view -/

/-- What has become of a slot: in the free list of its page, handed out, or on the stack of remote frees
of the cache at `p`. -/
inductive SlotRole
  | free
  | live
  | stacked (p : Nat)
  deriving DecidableEq

/-- The abstract view of the heap. -/
structure View where
  arena : Arena
  tlsf : TlsfAllocator
  /-- Addresses of the thread caches. -/
  made : List Nat
  /-- The slab pages. -/
  g : Ghost (Option Nat)
  /-- The cache whose slab has initialised a slab page. -/
  maker : Nat → Nat
  /-- By address of the slot. -/
  role : Nat → SlotRole
  /-- The stack of remote frees of each cache. -/
  stack : Nat → List Nat
  /-- The blocks of the TLSF pool, and its free lists. -/
  bs : List Blk
  L : Nat → Nat → List Nat

/-- The slab allocators of the process: the global one, and one in each cache. -/
def Heap.slabs (h : Heap) : Option Nat → SlabAllocator
  | none => h.globalSlab.getD .new
  | some p => (h.caches p).slab

/-- The heads of the stacks of remote frees. -/
def Heap.remote (h : Heap) (p : Nat) : Nat := (h.caches p).remoteFrees

/-- The link bytes of the nodes waiting on stacks. -/
def stackBytes (role : Nat → SlotRole) : Set Nat := {z | ∃ x p, role x = .stacked p ∧ x ≤ z ∧ z < x + 8}

/-- **The slab side.** Pages and lists of all slabs, what has become of the used slots, and the stacks. -/
structure SlabSide (m : Mem) (slabs : Option Nat → SlabAllocator) (remote : Nat → Nat) (v : View) :
    Prop where
  inv : SlabInv v.arena m slabs v.g
  next_ge : firstPage ≤ v.arena.nextFreePage m
  low : ∀ i c, v.g.cls i = some c → firstPage ≤ i
  role : ∀ x, v.role x ≠ .free ↔ ∃ i c j, v.g.Used i c j ∧ x = v.arena.slotAddr i c j
  stack : ∀ p, Stack m v.role (.stacked p) (remote p) (v.stack p)

/-- **The pool side.** -/
structure PoolSide (m : Mem) (v : View) : Prop where
  inv : PoolInv v.tlsf m v.bs v.L
  start_eq : v.tlsf.poolStart = v.arena.base + 20480
  stop_eq : v.tlsf.poolEnd = v.arena.base + 544768

/-- **The thread side.** Every pointer to a cache points to one, and no two threads share one. -/
structure ThreadSide (h : Heap) (v : View) : Prop where
  tls : ∀ t, h.tls t ≠ 0 → h.tls t ∈ v.made
  owner : ∀ t t', h.tls t ≠ 0 → h.tls t = h.tls t' → t = t'
  registry : ∀ k, h.registry k ≠ 0 → h.registry k ∈ v.made ∧ (h.caches (h.registry k)).id = k
  id : ∀ p ∈ v.made, p ≠ 0 ∧ (h.caches p).id < maxThreads ∧ h.registry (h.caches p).id ≠ 0
  blank : ∀ p, p ∉ v.made → (h.caches p).slab = .new ∧ (h.caches p).remoteFrees = 0
  pages : ∀ i c, v.g.cls i = some c → v.g.owner i < maxThreads ∧ h.registry (v.g.owner i) ≠ 0
  map : ∀ p ∈ v.made, ⟨p, 4096⟩ ∈ h.os.maps

/-- **The arena**, once `ensure_init` has succeeded. -/
structure ArenaSide (h : Heap) (v : View) : Prop where
  arena : h.globalArena = some v.arena
  slab : h.globalSlab.isSome
  tlsf : h.globalTlsf = some v.tlsf
  ready : h.tlsReady = true
  map : ⟨v.arena.base, 2097152⟩ ∈ h.os.maps
  slabs : SlabSide h.os.bytes h.slabs h.remote v
  pool : PoolSide h.os.bytes v

/-! ## Bytes of the slab side -/

namespace SlabSide

variable {m m' : Mem} {slabs : Option Nat → SlabAllocator} {remote : Nat → Nat} {v : View}
  {i c j x z : Nat}

theorem zone_slab (h : SlabSide m slabs remote v) (hc : v.g.cls i = some c)
    (hz : z ∈ v.arena.pageBytes i) : v.arena.zone z = .page i :=
  zone_page (h.low i c hc) (h.inv.index_lt hc) hz

theorem zone_used (h : SlabSide m slabs remote v) (hu : v.g.Used i c j)
    (hz : z ∈ slotBytes v.arena i c j) : v.arena.zone z = .page i :=
  h.zone_slab hu.1 (slotBytes_in_page (h.inv.used_lt hu) hu.2.1 hz)

/-- The bytes the slabs rely on lie in the metadata and in slab pages. -/
theorem zone_own (h : SlabSide m slabs remote v) (hz : z ∈ slabOwn v.arena v.g) :
    v.arena.zone z = .header ∨ ∃ i c, v.g.cls i = some c ∧ v.arena.zone z = .page i := by
  rcases hz with hz | ⟨i, c, j, hc, hj, hz⟩
  · exact .inl (zone_header hz)
  · right
    have hsp := h.inv.slabPage hc
    exact ⟨i, c, hc, h.zone_slab hc (linkSpan_in_page hsp.cls_lt (hsp.lt j hj) hz)⟩

/-- A stacked node is a used slot. -/
theorem stacked_used (h : SlabSide m slabs remote v) {p : Nat} (hx : v.role x = .stacked p) :
    ∃ i c j, v.g.Used i c j ∧ x = v.arena.slotAddr i c j :=
  (h.role x).mp (by rw [hx]; nofun)

theorem node_subset_slot (hc : c < numSizeClasses) (hx : x = v.arena.slotAddr i c j) (h1 : x ≤ z)
    (h2 : z < x + 8) : z ∈ slotBytes v.arena i c j := by
  have h8 := (slots_of_lt hc).size_ge
  rw [hx] at h1 h2
  exact ⟨h1, by omega⟩

theorem zone_stack (h : SlabSide m slabs remote v) (hz : z ∈ stackBytes v.role) :
    ∃ i c, v.g.cls i = some c ∧ v.arena.zone z = .page i := by
  obtain ⟨x, p, hx, h1, h2⟩ := hz
  obtain ⟨i, c, j, hu, hxj⟩ := h.stacked_used hx
  exact ⟨i, c, hu.1, h.zone_used hu (node_subset_slot (h.inv.used_lt hu) hxj h1 h2)⟩

/-- **Frame.** -/
theorem frame (h : SlabSide m slabs remote v)
    (hm : Set.EqOn m' m (slabOwn v.arena v.g ∪ stackBytes v.role)) : SlabSide m' slabs remote v := by
  have hown : Set.EqOn m' m (slabOwn v.arena v.g) := hm.mono Set.subset_union_left
  have hnext : v.arena.nextFreePage m' = v.arena.nextFreePage m := by
    apply Arena.nextFreePage_of_eqOn
    exact hown.mono fun z hz => .inl (Arena.arenaMetaBytes_subset hz)
  refine ⟨h.inv.frame hown, by rw [hnext]; exact h.next_ge, h.low, h.role, fun p => ?_⟩
  apply (h.stack p).keep
  intro x hx
  refine ⟨hx, read64_eqOn (hm.mono fun z hz => .inr ⟨x, p, hx, hz.1, hz.2⟩)⟩

/-- Two used slots at one address are the same. -/
theorem slot_eq (h : SlabSide m slabs remote v) {i' c' j' : Nat} (hu : v.g.Used i c j)
    (hu' : v.g.Used i' c' j') (heq : v.arena.slotAddr i c j = v.arena.slotAddr i' c' j') :
    i = i' ∧ c = c' ∧ j = j' := h.inv.slotAddr_inj hu hu' heq

end SlabSide

/-! ## Bytes of the pool side -/

namespace PoolSide

variable {m m' : Mem} {v : View} {x s z : Nat}

/-- The whole pool, end marker included, lies between its bounds. -/
theorem end_le (h : PoolSide m v) :
    endAddr v.tlsf.poolStart v.bs + 16 ≤ v.arena.base + 544768 := by
  rw [← h.stop_eq]
  exact h.inv.layout.fits

/-- Headers and links lie inside the pool. -/
theorem zone_own (h : PoolSide m v) (hz : z ∈ ownBytes v.tlsf.poolStart v.bs) :
    v.arena.zone z = .pool := by
  obtain ⟨h1, h2⟩ := Tlsf.ownBytes_bounds (fun b hb => (h.inv.layout.blk b hb).1) hz
  have h3 := h.end_le
  have h4 := h.start_eq
  exact zone_pool (by omega) (by omega)

/-- Payloads lie inside the pool. -/
theorem zone_used (h : PoolSide m v) (hu : UsedAt v.tlsf.poolStart v.bs x s) (h1 : x + 16 ≤ z)
    (h2 : z < x + 16 + s) : v.arena.zone z = .pool := by
  obtain ⟨h3, h4⟩ := Tlsf.usedAt_bounds hu
  have h5 := h.end_le
  have h6 := h.start_eq
  exact zone_pool (by omega) (by omega)

theorem used_not_own (h : PoolSide m v) (hu : UsedAt v.tlsf.poolStart v.bs x s) (h1 : x + 16 ≤ z)
    (h2 : z < x + 16 + s) : z ∉ ownBytes v.tlsf.poolStart v.bs :=
  Tlsf.payload_not_own (fun b hb => (h.inv.layout.blk b hb).1) hu h1 h2

/-- **Frame.** -/
theorem frame (h : PoolSide m v) (hm : Set.EqOn m' m (ownBytes v.tlsf.poolStart v.bs)) :
    PoolSide m' v := ⟨h.inv.frame hm, h.start_eq, h.stop_eq⟩

end PoolSide

end FerrumAlloc
