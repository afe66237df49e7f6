/-
# FerrumAlloc.Api.Isolation -- clients and the allocator never share a byte

`MetaByte` says which bytes of memory are metadata, as a reader of the process finds them: the metadata
pages of the arena, the headers and links of the TLSF pool, the links of free slots, the nodes on stacks
of remote frees, the header pages of huge blocks and the pages of the thread caches. In every state that
the process reaches, the ranges requested by clients are disjoint from each other and from these bytes, and
no call changes a byte of a block that it neither hands out nor frees.
-/
import FerrumAlloc.Api.First
import FerrumAlloc.Tlsf.System
import Mathlib.Order.CompletePartialOrder

namespace FerrumAlloc

open Lib
open Tlsf (BlockAt)

/-- **The metadata of the allocator**, byte by byte. -/
inductive MetaByte (s : State) (z : Nat) : Prop
  /-- `ArenaMeta` and the `PageMeta` array. -/
  | arena {a : Arena} : s.heap.globalArena = some a → a.base ≤ z →
      z < a.base + metaPages * pageSize → MetaByte s z
  /-- The header of a block of the TLSF pool, the sentinel included. -/
  | header {tlsf : Tlsf.TlsfAllocator} {x : Nat} : s.heap.globalTlsf = some tlsf →
      BlockAt s.heap.os.bytes tlsf.poolStart x → x ≤ z → z < x + 16 → MetaByte s z
  /-- The list links of a free block of the pool. -/
  | link {tlsf : Tlsf.TlsfAllocator} {x : Nat} : s.heap.globalTlsf = some tlsf →
      BlockAt s.heap.os.bytes tlsf.poolStart x → Tlsf.isFree s.heap.os.bytes x = true →
      x + 16 ≤ z → z < x + 32 → MetaByte s z
  /-- The link of a free slot. -/
  | slot {a : Arena} {i c j : Nat} : s.heap.globalArena = some a → i < pagesPerArena →
      c = (readMeta s.heap.os.bytes (a.metaPtr i)).sizeClass → c ≠ noClass →
      OnChain (slotLink a s.heap.os.bytes i c) nullSlot
        (readMeta s.heap.os.bytes (a.metaPtr i)).freeListHead j →
      a.slotAddr i c j ≤ z → z < a.slotAddr i c j + 2 → MetaByte s z
  /-- A node that waits on the stack of a thread cache. -/
  | node {p x : Nat} : OnChain (read64 s.heap.os.bytes) 0 (s.heap.caches p).remoteFrees x →
      x ≤ z → z < x + 8 → MetaByte s z
  /-- The header page of a huge block. -/
  | huge {b : Block} : b ∈ s.live → b.via = .huge → b.ptr - pageSize ≤ z → z < b.ptr → MetaByte s z
  /-- The page of a thread cache. -/
  | cache {p : Nat} : (∃ t, s.heap.tls t = p) ∨ (∃ k, s.heap.registry k = p) → p ≠ 0 →
      p ≤ z → z < p + pageSize → MetaByte s z

/-- **Isolation** of the live blocks from each other and from the metadata. -/
structure Isolated (s : State) : Prop where
  blocks : s.live.Pairwise fun b b' => Disjoint b.range b'.range
  metadata : ∀ b ∈ s.live, ∀ z, MetaByte s z → z ∉ b.range

section

variable {h : Heap} {v : View} {l : List Block} {b : Block} {s : State} {p z : Nat}

/-! ## Metadata and live blocks -/

/-- The headers and links of the pool, as a walk finds them, are bytes of the pool's own. -/
theorem ArenaSide.pool_own (ha : ArenaSide h v) {tlsf : Tlsf.TlsfAllocator} {x : Nat}
    (ht : h.globalTlsf = some tlsf) (hx : BlockAt h.os.bytes tlsf.poolStart x) :
    (x ≤ z → z < x + 16 → z ∈ v.own) ∧
      (Tlsf.isFree h.os.bytes x = true → x + 16 ≤ z → z < x + 32 → z ∈ v.own) := by
  obtain rfl : v.tlsf = tlsf := Option.some.inj (ha.tlsf.symm.trans ht)
  have hinv := ha.pool.inv
  obtain ⟨blk, hblk⟩ := hinv.blockAt_iff.mp hx
  constructor
  · intro h1 h2
    exact .inr (Tlsf.header_own hblk (Tlsf.mem_headerBytes.mpr ⟨h1, h2⟩))
  · intro hfree h1 h2
    obtain ⟨pf, ps, hhdr⟩ := hinv.seg.headerAt hblk
    rw [hhdr.isFree_eq (hinv.seg_ok _ (Tlsf.cells_mem hblk))] at hfree
    rw [Tlsf.cells_append, List.mem_append] at hblk
    rcases hblk with hblk | hblk
    · right
      apply Tlsf.links_own
      refine ⟨x, blk.size, ?_, Tlsf.mem_linkBytes.mpr ⟨h1, h2⟩⟩
      show (x, (⟨blk.size, true⟩ : Tlsf.Blk)) ∈ Tlsf.cells v.tlsf.poolStart v.bs
      rw [← hfree]
      exact hblk
    · -- the sentinel is not free
      obtain rfl : blk = Tlsf.sentinel := congrArg Prod.snd (List.mem_singleton.mp hblk)
      nomatch hfree

/-- The free slots of a page, as its list is found in memory. -/
theorem ArenaSide.slot_own (ha : ArenaSide h v) {i c j : Nat} (hi : i < pagesPerArena)
    (hc : c = (readMeta h.os.bytes (v.arena.metaPtr i)).sizeClass) (hne : c ≠ noClass)
    (hj : OnChain (slotLink v.arena h.os.bytes i c) nullSlot
      (readMeta h.os.bytes (v.arena.metaPtr i)).freeListHead j)
    (hz : z ∈ linkSpan v.arena i c j) : z ∈ v.own := by
  cases hcls : v.g.cls i with
  | none => exact absurd (hc.trans (ha.class_none hi hcls)) hne
  | some c' =>
    have hsp := ha.slabs.inv.slabPage hcls
    obtain rfl : c = c' := hc.trans hsp.sizeClass
    have hfree : j ∈ v.g.free i := hsp.chain.onChain_iff.mp hj
    exact .inl (.inl (.inr ⟨i, c, j, hcls, hfree, hz⟩))

/-- The nodes of a stack, as it is found in memory. -/
theorem ArenaSide.node_own (ha : ArenaSide h v) {x : Nat}
    (hx : OnChain (read64 h.os.bytes) 0 (h.caches p).remoteFrees x) (h1 : x ≤ z) (h2 : z < x + 8) :
    z ∈ v.own := by
  have hs := ha.slabs.stack p
  have hmem : x ∈ v.stack p := hs.chain.onChain_iff.mp hx
  exact .inl (.inr ⟨x, p, hs.role x hmem, h1, h2⟩)

/-- No live block reaches into the page of a thread cache. -/
theorem Good.cache_not_extent (hg : Good h v l) (hb : b ∈ l) (hp : p ∈ v.made)
    (hz : z ∈ Region.bytes ⟨p, 4096⟩) : z ∉ b.extent := by
  intro hz'
  have hmap := hg.threads.map p hp
  have hplaced := hg.placed b hb
  by_cases hvia : b.via = .huge
  · have hm := hplaced.mapBlock hvia
    have hne : b.region ≠ ⟨p, 4096⟩ := by
      intro heq
      have hbase : b.region.base = p := by rw [heq]
      apply hm.2.1
      show b.region.base ∈ v.made
      rw [hbase]
      exact hp
    exact (hg.maps.disjoint hm.1.map hmap hne).not_mem (hm.mem_region hz') hz
  · have ha := hg.arena (hg.init_of_via hb hvia)
    obtain ⟨h1, h2⟩ := hplaced.inside ha hg.maps hvia hz'
    have hne : (⟨v.arena.base, 2097152⟩ : Region) ≠ ⟨p, 4096⟩ := by
      intro heq
      have hsize : (2097152 : Nat) = 4096 := congrArg Region.size heq
      omega
    refine (hg.maps.disjoint ha.map hmap hne).not_mem ?_ hz
    rw [Region.mem_bytes]
    simp only
    omega

/-- **No live block reaches into the metadata.** -/
theorem Good.metaByte_not_extent (hg : Good s.heap v s.live) (hb : b ∈ s.live) (hz : MetaByte s z) :
    z ∉ b.extent := by
  have hinit_of : ∀ {α : Type} {o : Option α} {x : α}, o = some x → (s.heap.arenaInit = false → o = none) →
      s.heap.arenaInit = true := by
    intro α o x hsome hnone
    cases hinit : s.heap.arenaInit with
    | true => rfl
    | false => exact absurd (hsome.symm.trans (hnone hinit)) (Option.some_ne_none x)
  have hown : s.heap.arenaInit = true → z ∈ v.own → z ∉ b.extent := fun hinit hz' hz =>
    (hg.placed b hb).not_own (hg.arena hinit) hg.maps hz hz'
  cases hz with
  | arena harena h1 h2 =>
    have hinit := hinit_of harena fun hno => (hg.booting hno).arena
    obtain rfl := Option.some.inj ((hg.arena hinit).arena.symm.trans harena)
    exact hown hinit (.inl (.inl (.inl ⟨h1, h2⟩)))
  | header htlsf hx h1 h2 =>
    have hinit := hinit_of htlsf fun hno => (hg.booting hno).tlsf
    exact hown hinit (((hg.arena hinit).pool_own htlsf hx).1 h1 h2)
  | link htlsf hx hfree h1 h2 =>
    have hinit := hinit_of htlsf fun hno => (hg.booting hno).tlsf
    exact hown hinit (((hg.arena hinit).pool_own htlsf hx).2 hfree h1 h2)
  | slot harena hi hc hne hj h1 h2 =>
    have hinit := hinit_of harena fun hno => (hg.booting hno).arena
    obtain rfl := Option.some.inj ((hg.arena hinit).arena.symm.trans harena)
    exact hown hinit ((hg.arena hinit).slot_own hi hc hne hj ⟨h1, h2⟩)
  | node hx h1 h2 =>
    cases hinit : s.heap.arenaInit with
    | true => exact hown hinit ((hg.arena hinit).node_own hx h1 h2)
    | false =>
      -- there are no caches yet, so all stacks are empty
      rename_i p x
      exfalso
      have hblank := (hg.threads.blank p (by rw [(hg.booting hinit).made]; exact List.not_mem_nil)).2
      rw [hblank] at hx
      have hnil : Chain (read64 s.heap.os.bytes) 0 0 [] := rfl
      exact List.not_mem_nil (hnil.onChain_iff.mp hx)
  | huge hb' hvia h1 h2 =>
    refine hg.header_not_extent hb' hvia hb ?_
    have hge := ((hg.placed _ hb').mapBlock hvia).1.ge
    rw [mem_headerPage]
    exact ⟨h1, Nat.lt_of_lt_of_le h2 (Nat.le_of_eq (Nat.sub_add_cancel (Nat.le_of_lt hge)).symm)⟩
  | cache hp hne h1 h2 =>
    rename_i p
    have hmade : p ∈ v.made := by
      rcases hp with ⟨t, rfl⟩ | ⟨k, rfl⟩
      · exact hg.threads.tls t hne
      · exact (hg.threads.registry k hne).1
    exact hg.cache_not_extent hb hmade (Region.mem_bytes.mpr ⟨h1, h2⟩)

/-! ## Runs -/

/-- What a call leaves alone: the ranges of the blocks that live before and after it. -/
def LeavesOthers (s : State) (c : Call) (r : Heap × Nat × Backend) : Prop :=
  ∀ b ∈ s.live, b ∈ c.after s.live r → Set.EqOn r.1.os.bytes s.heap.os.bytes b.range

/-- **Isolation across all backends.** In every state reached by modest requests the live ranges are
isolated, and once the arena is there every modest call, by any thread and whatever the operating system
answers, returns and changes no byte of the other live blocks. -/
theorem reachable_isolated {s : State} (hr : (system.restrict modest).Reachable s) :
    Isolated s ∧ (s.heap.arenaInit = true → ∀ (t : Nat) (c : Call) (ans : Nat → Answers),
      (∀ b, c.arg = some b → b ∈ s.live) → c.req ≤ usizeMax - 2 * pageSize →
      ∃ r, c.run s.heap t ans = .ok r ∧ LeavesOthers s c r) := by
  obtain ⟨v, hg⟩ := reachable_good (reachable_noWrap hr)
  have hfits := reachable_fits (reachable_noWrap hr)
  refine ⟨⟨?_, fun b hb z hz hz' => ?_⟩, fun hinit t c ans harg hreq => ?_⟩
  · refine hg.apart.imp_of_mem fun {b b'} hb hb' hd => ?_
    rw [Set.disjoint_left]
    exact fun z hz hz' => hd.2 z (Block.range_subset (hfits b hb) hz) (Block.range_subset (hfits b' hb') hz')
  · exact hg.metaByte_not_extent hb hz (Block.range_subset (hfits b hb) hz')
  · rcases Call.leads hg c harg (Call.noWrap_of_modest hreq).inBounds t ans with ⟨_, hno⟩ | ⟨r, v', hrun, _, hleads⟩
    · exact absurd (hinit.symm.trans hno) nofun
    · exact ⟨r, hrun, fun b hb hb' => (hleads.keeps b hb hb').mono (Block.range_subset (hfits b hb))⟩

/-- After one small request, for 100 bytes. -/
theorem reachable_isolated_first : ∃ s : State, s.heap.arenaInit = true ∧ s.live.length = 1 ∧
    Isolated s ∧ ∃ r, (Call.calloc 3 5).run s.heap 7 (fun _ => ⟨none, none, none⟩) = .ok r ∧
      LeavesOthers s (.calloc 3 5) r := by
  obtain ⟨a, tlsf, m, m', slab, m'', _, _, hr, _⟩ := exists_first (C := modest) (n := 100) (c := 8)
    (p := 4096) (A := 2097152) (fun s t n ans hn _ => modest_of_le s t n ans hn) (fun _ => 0) 1 (by decide)
    (by decide) (by decide) (by decide)
  obtain ⟨hiso, hcalls⟩ := reachable_isolated hr
  exact ⟨_, rfl, rfl, hiso, hcalls rfl 7 (.calloc 3 5) _ (fun b (hb : none = some b) => nomatch hb) (by decide)⟩

end

end FerrumAlloc
