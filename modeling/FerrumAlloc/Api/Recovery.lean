/-
# FerrumAlloc.Api.Recovery -- where freed memory goes

A freed block is not given back to anybody: its bytes go to a free list, to the stack of another thread, to
the pool or to the operating system, and it is from there that a later request must get them. `Recoverable`
lists these places as the memory shows them. The run carries the blocks freed so far along (`Account`), and
`reachable_recoverable` says that each of their bytes is in use again or in such a place.

Two frees are outside that statement. Pages of the bump allocator stay issued: the arena takes nothing back
(`not_recoverable_bump`). And a thread without a cache that frees a slot of a full page hands the page to the
global slab, from which nothing is ever served.
-/
import FerrumAlloc.Api.Ledger
import FerrumAlloc.Api.Discipline

namespace FerrumAlloc

open Lib
open Tlsf (TlsfAllocator Blk UsedAt endAddr linkNext mapping)

variable {h h' : Heap} {v v' : View} {l : List Block} {b : Block} {t z : Nat} {D : Prop}
  {E : View → Nat → Prop} {c c' : Conf} {m : Mem}

/-! ## The places -/

/-- The record of page `i`. -/
def Heap.record (h : Heap) (a : Arena) (i : Nat) : PageMeta := readMeta h.os.bytes (a.metaPtr i)

/-- **A later request can get the byte**, for it is in one of five places. -/
inductive Recoverable (h : Heap) (z : Nat) : Prop
  /-- A free slot of a page in the partial list of the slab of the thread that owns the page. -/
  | slot {a : Arena} {t i j : Nat} : h.globalArena = some a → h.tls t ≠ 0 →
      (h.record a i).ownerId = (h.caches (h.tls t)).id →
      OnChain (nextOf h.os.bytes) 0
        ((h.caches (h.tls t)).slab.partialPages (h.record a i).sizeClass) (a.metaPtr i) →
      OnChain (slotLink a h.os.bytes i (h.record a i).sizeClass) nullSlot
        (h.record a i).freeListHead j →
      z ∈ slotBytes a i (h.record a i).sizeClass j → Recoverable h z
  /-- A node pending in `remote_frees` of the thread that owns its page. -/
  | pending {a : Arena} {t x : Nat} : h.globalArena = some a → h.tls t ≠ 0 →
      (h.record a (a.ptrToPageIndex x)).ownerId = (h.caches (h.tls t)).id →
      OnChain (read64 h.os.bytes) 0 (h.caches (h.tls t)).remoteFrees x → x ≤ z →
      z < x + slotSize (h.record a (a.ptrToPageIndex x)).sizeClass → Recoverable h z
  /-- A free block of the pool, in the list for its size. -/
  | block {tlsf : TlsfAllocator} {x fl sl : Nat} : h.globalTlsf = some tlsf →
      Tlsf.isFree h.os.bytes x = true → mapping (Tlsf.size h.os.bytes x) = (fl, sl) →
      OnChain (linkNext h.os.bytes) 0 (tlsf.lists fl sl) x → x ≤ z →
      z < x + 16 + Tlsf.size h.os.bytes x → Recoverable h z
  /-- A page that the arena has not issued. -/
  | page {a : Arena} : h.globalArena = some a → a.pageAddr (a.nextFreePage h.os.bytes) ≤ z →
      z < a.pageAddr pagesPerArena → Recoverable h z
  /-- With the operating system. -/
  | unmapped : (∀ r ∈ h.os.maps, z ∉ r.bytes) → Recoverable h z

/-- The bytes that a live block occupies: its own, and a header in front of them. -/
def Block.footprint (b : Block) : Set Nat :=
  match b.via with
  | .tlsf => Set.Ico (b.ptr - 16) (b.ptr + b.cap)
  | .huge => b.region.bytes
  | _ => b.extent

/-- **The byte is in use**: a live block occupies it, or the cache of a thread. -/
def State.InUse (s : State) (z : Nat) : Prop :=
  (∃ b ∈ s.live, z ∈ b.footprint) ∨
    ∃ t, s.heap.tls t ≠ 0 ∧ s.heap.tls t ≤ z ∧ z < s.heap.tls t + 4096

/-! ## Freed bytes -/

/-- Where freed bytes are in the view: outside the arena, between the ends of the pool, or in a slot. -/
def View.Lodged (v : View) (z : Nat) : Prop :=
  v.arena.zone z = .outside ∨ (v.tlsf.poolStart ≤ z ∧ z < endAddr v.tlsf.poolStart v.bs) ∨
    ∃ i k j, v.g.cls i = some k ∧ j < slots k ∧ z ∈ slotBytes v.arena i k j

/-- Slab pages stay slab pages. -/
theorem View.Lodged.of_cls (hl : v.Lodged z) (harena : v'.arena = v.arena)
    (hstart : v'.tlsf.poolStart = v.tlsf.poolStart)
    (hend : endAddr v'.tlsf.poolStart v'.bs = endAddr v.tlsf.poolStart v.bs)
    (hcls : ∀ i k, v.g.cls i = some k → v'.g.cls i = some k) : v'.Lodged z := by
  rcases hl with hout | ⟨hlo, hhi⟩ | ⟨i, k, j, hc, hj, hz⟩
  · left
    rw [harena]
    exact hout
  · right
    left
    rw [hend, hstart]
    exact ⟨hlo, hhi⟩
  · right
    right
    refine ⟨i, k, j, hcls i k hc, hj, ?_⟩
    rw [harena]
    exact hz

/-- **Step lemma**, once the arena is there. -/
theorem Act.lodged (ha : Act t D E c c') (hg : Good c.heap c.view c.live)
    (hinit : c.heap.arenaInit = true) (hl : c.view.Lodged z) :
    c'.heap.arenaInit = true ∧ c'.view.Lodged z := by
  cases ha with
  | setup hs => exact absurd (hinit.symm.trans hs.init) nofun
  | serve hs htls hn =>
    refine ⟨hinit, hl.of_cls rfl rfl rfl fun i k hc => ?_⟩
    exact (hs.served.cls_of_lt ((hg.arena hinit).slabs.inv.range i k hc).2).trans hc
  | put hp hb hvia hptr hk hlone =>
    rename_i h v l q k i j s m b
    refine ⟨?_, hl.of_cls rfl rfl rfl fun _ _ hc => hc⟩
    cases q <;> exact hinit
  | carve hi hn hal =>
    rename_i h v l n p tlsf m bs L
    refine ⟨hinit, hl.of_cls rfl hal.start_eq ?_ fun _ _ hc => hc⟩
    show endAddr tlsf.poolStart bs = _
    rw [hal.start_eq]
    exact hal.carve.endAddr_eq
  | release hi hb hvia hr =>
    rename_i h v l b tlsf m bs L
    refine ⟨hinit, hl.of_cls rfl hr.start_eq ?_ fun _ _ hc => hc⟩
    show endAddr tlsf.poolStart bs = _
    rw [hr.start_eq]
    exact hr.release.endAddr_eq
  | attempt | create | pop | push | issue | map | unmap | leak =>
    exact ⟨hinit, hl.of_cls rfl rfl rfl fun _ _ hc => hc⟩

/-- Live blocks, other than pages of the bump allocator. -/
theorem Placed.lodged (ha : ArenaSide h v) (hm : Mappings h.os.maps) (hb : Placed h v b)
    (hvia : b.via ≠ .bump) (hz : z ∈ b.extent) : v.Lodged z := by
  cases hcase : b.via with
  | null => exact absurd hcase hb.via_ne_null
  | slab k =>
    obtain ⟨i, j, hu, hptr, hcap, _⟩ := hb.slabBlock hcase
    refine .inr (.inr ⟨i, k, j, hu.1, hu.2.1, ?_⟩)
    rw [Block.extent, hptr, hcap] at hz
    exact hz
  | tlsf =>
    obtain ⟨x, hptr, hu⟩ := hb.poolBlock hcase
    obtain ⟨h1, h2⟩ := Tlsf.usedAt_bounds hu
    obtain ⟨h3, h4⟩ := hz
    exact .inr (.inl ⟨by omega, by omega⟩)
  | bump => exact absurd hcase hvia
  | huge =>
    have ht := hb.territory ha hm hz
    rw [hcase] at ht
    exact .inl ht

/-! ## In use or recoverable -/

/-- The page has a free slot. -/
def HasFree (v : View) (i : Nat) : Prop := v.g.free i ≠ []

/-- What acts keep, as long as no full page goes to the global slab. -/
structure Tidy (c : Conf) : Prop where
  owned : Owned c.heap c.view
  homed : Homed c.view
  ledger : Ledger c.view c.live
  waiting : Waiting c.view

/-- **Run lemma.** -/
theorem Path.tidy (hp : Path t D HasFree c c') (hg : Good c.heap c.view c.live) (ht : Tidy c) : Tidy c' := by
  refine hp.invariant (fun _ _ hg ht ha => ?_) (fun _ _ _ _ ht hs => ?_) hg ht
  · exact ⟨ha.owned hg ht.owned, ha.homed (fun _ _ hE => hE) ht.homed, ha.ledger hg ht.ledger,
      ha.waiting hg ht.waiting⟩
  · cases hs
    exact ⟨ht.owned.of_ids (fun _ => rfl) rfl, ht.homed, ht.ledger, ht.waiting⟩

theorem Path.lodged (hp : Path t D E c c') (hg : Good c.heap c.view c.live) (hinit : c.heap.arenaInit = true)
    (hl : c.view.Lodged z) : c'.view.Lodged z := by
  refine (hp.invariant (I := fun c => c.heap.arenaInit = true ∧ c.view.Lodged z)
    (fun _ _ hg hI ha => ha.lodged hg hI.1 hI.2) (fun _ _ _ _ hI hs => ?_) hg ⟨hinit, hl⟩).2
  cases hs
  exact hI

/-- What is known of a state: every used slot, block of the pool and mapping is in somebody's hands. -/
structure Sorted (s : State) (v : View) : Prop where
  good : Good s.heap v s.live
  tidy : Tidy ⟨s.heap, v, s.live⟩
  mapped : Mapped s.heap s.live
  /-- No huge block is empty. -/
  filled : ∀ b ∈ s.live, b.via = .huge → b.cap ≠ 0

namespace Sorted

variable {s : State}

/-- A byte outside the arena. -/
theorem outside (hs : Sorted s v) (hz : v.arena.zone z = .outside) :
    s.InUse z ∨ Recoverable s.heap z := by
  by_cases hin : ∃ r ∈ s.heap.os.maps, z ∈ r.bytes
  · left
    obtain ⟨r, hr, hzr⟩ := hin
    rcases hs.mapped r hr with ⟨a, ha, rfl⟩ | ⟨t, ht, rfl⟩ | ⟨b, hb, hvia, rfl⟩
    · obtain ⟨_, rfl⟩ := hs.good.arena_eq ha
      exact absurd hzr (zone_outside_iff.mp hz)
    · exact .inr ⟨t, ht, hzr⟩
    · refine .inl ⟨b, hb, ?_⟩
      unfold Block.footprint
      rw [hvia]
      exact hzr
  · right
    exact .unmapped fun r hr hzr => hin ⟨r, hr, hzr⟩

/-- A byte of the pool. -/
theorem pool (hs : Sorted s v) (hinit : s.heap.arenaInit = true) (hlo : v.tlsf.poolStart ≤ z)
    (hhi : z < endAddr v.tlsf.poolStart v.bs) : s.InUse z ∨ Recoverable s.heap z := by
  have ha := hs.good.arena hinit
  obtain ⟨x, ⟨n, f⟩, hx, h1, h2⟩ := Tlsf.exists_cell hlo hhi
  cases f with
  | false =>
    left
    obtain ⟨b, hb, hvia, hptr⟩ := hs.tidy.ledger.pool x n hx
    obtain ⟨x', hptr', hu⟩ := (hs.good.placed b hb).poolBlock hvia
    obtain rfl : x = x' := by omega
    have hcap : b.cap = n := congrArg Blk.size (Tlsf.cells_unique hu hx)
    refine .inl ⟨b, hb, ?_⟩
    unfold Block.footprint
    rw [hvia, hptr, hcap]
    exact ⟨by omega, by omega⟩
  | true =>
    right
    obtain ⟨pf, ps, hh⟩ := ha.pool.inv.seg.headerAt (x := x) (b := ⟨n, true⟩) (by
      rw [Tlsf.cells_append]
      exact List.mem_append_left _ hx)
    have hok := ha.pool.inv.layout.ok hx
    have hsize : Tlsf.size s.heap.os.bytes x = n := hh.size_eq hok
    obtain ⟨fl, sl, hmap⟩ : ∃ fl sl, mapping n = (fl, sl) := ⟨_, _, rfl⟩
    have hmem : x ∈ v.L fl sl := (ha.pool.inv.filed.mem fl sl x).mpr ⟨n, hx, hmap⟩
    have hlist : OnChain (linkNext s.heap.os.bytes) 0 (v.tlsf.lists fl sl) x :=
      (ha.pool.inv.filed.dlist fl sl).chain.onChain_iff.mpr hmem
    have hbin : mapping (Tlsf.size s.heap.os.bytes x) = (fl, sl) := by
      rw [hsize]
      exact hmap
    refine .block ha.tlsf (hh.isFree_eq hok) hbin hlist h1 ?_
    rw [hsize]
    exact h2

/-- A byte of a slot. -/
theorem slot {i k j : Nat} (hs : Sorted s v) (hinit : s.heap.arenaInit = true)
    (hc : v.g.cls i = some k) (hj : j < slots k) (hz : z ∈ slotBytes v.arena i k j) :
    s.InUse z ∨ Recoverable s.heap z := by
  have ha := hs.good.arena hinit
  have hsp := ha.slabs.inv.slabPage hc
  have hcls : (s.heap.record v.arena i).sizeClass = k := hsp.sizeClass
  have howner : (s.heap.record v.arena i).ownerId = v.g.owner i := hsp.ownerId
  -- a cache of the view is the cache of a thread
  have huser : ∀ p ∈ v.made, ∃ t, s.heap.tls t = p ∧ s.heap.tls t ≠ 0 := by
    intro p hp
    obtain ⟨t, rfl⟩ := hs.tidy.owned.user p hp
    exact ⟨t, rfl, (hs.good.threads.id _ hp).1⟩
  by_cases hfree : j ∈ v.g.free i
  · right
    have hne : v.g.free i ≠ [] := List.ne_nil_of_mem hfree
    obtain ⟨p, hp⟩ := Option.ne_none_iff_exists'.mp (hs.tidy.homed i k hc hne)
    obtain ⟨hmade, hid⟩ := hs.tidy.owned.listed i k p hc hne hp
    obtain ⟨t, rfl, ht⟩ := huser p hmade
    have hpart : v.arena.metaPtr i ∈ v.g.parts (some (s.heap.tls t), k) :=
      (ha.slabs.inv.mem _ _ _).mpr ⟨i, rfl, hc, hne, hp⟩
    refine .slot (i := i) (j := j) ha.arena ht (howner.trans hid) ?_ ?_ (by rw [hcls]; exact hz)
    · rw [hcls]
      exact (ha.slabs.inv.lists.list (some (s.heap.tls t), k)).chain.onChain_iff.mpr hpart
    · rw [hcls]
      exact hsp.chain.onChain_iff.mpr hfree
  · have hu : v.g.Used i k j := ⟨hc, hj, hfree⟩
    cases hrole : v.role (v.arena.slotAddr i k j) with
    | free => exact absurd hrole ((ha.slabs.role _).mpr ⟨i, k, j, hu, rfl⟩)
    | live =>
      left
      obtain ⟨b, hb, hvia, hptr⟩ := hs.tidy.ledger.slot i k j hu hrole
      obtain ⟨_, _, _, _, hcap, _⟩ := (hs.good.placed b hb).slabBlock hvia
      refine .inl ⟨b, hb, ?_⟩
      unfold Block.footprint
      rw [hvia]
      rw [Block.extent, hptr, hcap]
      exact hz
    | stacked p =>
      right
      obtain ⟨hmade, hid⟩ := hs.tidy.owned.stacked i k j p hu hrole
      obtain ⟨t, rfl, ht⟩ := huser p hmade
      have hindex := ha.slabs.inv.ptrToPageIndex_slot hu
      refine .pending (x := v.arena.slotAddr i k j) ha.arena ht ?_ ?_ hz.1 ?_
      · rw [hindex]
        exact howner.trans hid
      · exact (ha.slabs.stack _).chain.onChain_iff.mpr (hs.tidy.waiting _ _ hrole)
      · rw [hindex, hcls]
        exact hz.2

/-- **Every lodged byte** is in use or recoverable. -/
theorem lodged (hs : Sorted s v) (hinit : s.heap.arenaInit = true) (hz : v.Lodged z) :
    s.InUse z ∨ Recoverable s.heap z := by
  rcases hz with hout | ⟨hlo, hhi⟩ | ⟨i, k, j, hc, hj, hz⟩
  · exact hs.outside hout
  · exact hs.pool hinit hlo hhi
  · exact hs.slot hinit hc hj hz

end Sorted

/-! ## Runs that remember what was freed -/

/-- A state, and the blocks freed so far. -/
structure Account where
  state : State
  freed : List Block

/-- Any number of threads that call `ferrum_malloc` and `ferrum_free` in any order, and clients that write
into their blocks. -/
inductive AccountStep : Account → Event → Account → Prop
  | call {x : Account} {t : Nat} {c : Call} {ans : Nat → Answers} {s' : State} : c.Simple →
      Step x.state (.call t c ans) s' → AccountStep x (.call t c ans) ⟨s', c.arg.toList ++ x.freed⟩
  | write {x : Account} {b : Block} {m : Mem} {s' : State} :
      Step x.state (.write b m) s' → AccountStep x (.write b m) ⟨s', x.freed⟩

def accountSystem : System Account Event where
  init x := ∃ bytes, x = ⟨⟨Heap.boot bytes, []⟩, []⟩
  step := AccountStep

/-- A thread that has no cache and gets none frees a slot of a full page. -/
def Call.LosesPage (c : Call) (h : Heap) (t : Nat) (ans : Nat → Answers) : Prop :=
  ∃ b k a, c = .free (some b) ∧ b.via = .slab k ∧ Cacheless h t (ans 0).cache ∧ h.globalArena = some a ∧
    (h.record a (a.ptrToPageIndex b.ptr)).freeListHead = nullSlot

/-- Requests are at most `usize::MAX - 2 * PAGE_SIZE` bytes, and no call loses a page. -/
def keepsPages (x : Account) (e : Event) : Prop :=
  modest x.state e ∧ onCalls (fun s t c ans => ¬ c.LosesPage s.heap t ans) x.state e

/-- What is known along such runs. -/
structure Balanced (x : Account) (v : View) : Prop where
  sorted : Sorted x.state v
  /-- Nothing is freed before the arena is there. -/
  booting : x.state.heap.arenaInit = false → x.freed = []
  lodged : ∀ b ∈ x.freed, b.via ≠ .bump → ∀ z ∈ b.extent, v.Lodged z

namespace Balanced

variable {x x' : Account} {n : Nat} {ans : Nat → Answers} {r : Heap × Nat × Backend}

/-- A block for a request that is not too large is not empty. -/
theorem filled_of_sized (hb : b.Sized) (hpos : 0 < b.req)
    (hle : b.req ≤ usizeMax - 2 * pageSize) : b.cap ≠ 0 := by
  have hfits := hb.req_le fun _ => Nat.le_trans hle (by decide)
  omega

/-- Along the calls of `ferrum_malloc`. -/
theorem malloc (hx : Balanced x v) (hrun : ferrumMalloc x.state.heap t n (ans 0) = .ok r)
    (hn : n ≤ usizeMax - 2 * pageSize) :
    ∃ v', Balanced ⟨⟨r.1, (Call.malloc n).after x.state.live r⟩, x.freed⟩ v' := by
  have hs := hx.sorted
  rcases Call.simple_leads (q := .malloc n) (D := True) (E := HasFree) trivial hs.good nofun t ans
    (fun _ => trivial) nofun with ⟨hrun', _⟩ | ⟨r', v', hrun', hinit', hleads⟩
  · nomatch hrun.symm.trans hrun'
  obtain rfl := Except.ok.inj (hrun.symm.trans hrun')
  have hkeep : ∀ b ∈ x.state.live, b ∈ (Call.malloc n).after x.state.live r := by
    intro b hb
    unfold Call.after
    by_cases h0 : r.2.1 = 0
    · rw [if_pos h0]
      exact hb
    · rw [if_neg h0]
      exact .tail _ hb
  have hg' : Good r.1 v' ((Call.malloc n).after x.state.live r) := hleads.good hs.good
  refine ⟨v', ⟨⟨hg', hleads.path.tidy hs.good hs.tidy, ?_, fun b hb hvia => ?_⟩, fun hno => ?_,
    fun b hb hvia z hz => ?_⟩⟩
  · rcases ferrumMalloc_grows hs.good hrun with hgr | ⟨h₁, base, os, hgr, hm, rfl⟩
    · exact hs.mapped.grows hgr fun b hb _ => hkeep b hb
    · have htot : 4096 ≤ hugeTotal n := by
        rw [hugeTotal_eq (Nat.le_trans hn (by decide))]
        omega
      have hreg : (newBlock (h₁.setOs os, base + 4096, .huge) n).region = ⟨base, hugeTotal n⟩ := by
        show (⟨base + 4096 - 4096, hugeTotal n - 4096 + 4096⟩ : Region) = _
        rw [Nat.add_sub_cancel, Nat.sub_add_cancel htot]
      exact (hs.mapped.grows hgr fun b hb _ => hb).map hm rfl hreg
  · rcases Call.mem_after hb with hold | ⟨hne, rfl⟩
    · exact hs.filled b hold hvia
    · refine filled_of_sized (hg'.sized _ hb) (Nat.pos_of_ne_zero ?_) hn
      rintro rfl
      have hnull := Except.ok.inj (hrun.symm.trans (ferrumMalloc_zero _ _ _))
      exact hne (congrArg (fun r => r.2.1) hnull)
  · refine hx.booting (Bool.eq_false_iff.mpr fun hyes => ?_)
    exact absurd ((hinit' hyes).symm.trans hno) nofun
  · cases hinit : x.state.heap.arenaInit with
    | true => exact hleads.path.lodged hs.good hinit (hx.lodged b hb hvia z hz)
    | false =>
      rw [hx.booting hinit] at hb
      nomatch hb

/-- Along the calls of `ferrum_free`. -/
theorem free {h' : Heap} (hx : Balanced x v) (hb : b ∈ x.state.live)
    (hrun : ferrumFree x.state.heap t b.ptr (ans 0) = .ok h')
    (hkeep : ¬ (Call.free (some b)).LosesPage x.state.heap t ans) :
    ∃ v', Balanced ⟨⟨h', x.state.live.erase b⟩, b :: x.freed⟩ v' := by
  have hs := hx.sorted
  obtain ⟨h₁, v₁, o, v', hpath, hgr, hinit₁, hcache, hnone, hfreed⟩ :=
    ferrumFree_freed (E := HasFree) hs.good hb hrun
  have hg₁ : Good h₁ v₁ x.state.live := hpath.good hs.good
  -- a page that is not full stays on the list where it is
  have hlone : o = none → v₁.Lone b HasFree := by
    intro ho k hvia i j hu hptr hfull
    have hinit : x.state.heap.arenaInit = true := hs.good.init_of_via hb (by rw [hvia]; nofun)
    obtain ⟨hless, rfl⟩ := hnone ho hinit
    have ha := hs.good.arena hinit
    refine hkeep ⟨b, k, v₁.arena, rfl, hvia, hless, ha.arena, ?_⟩
    rw [hptr, ha.slabs.inv.ptrToPageIndex_slot hu]
    exact (ha.slabs.inv.slabPage hu.1).chain.eq_nil_iff.mp hfull
  have hact : Act t True HasFree ⟨h₁, v₁, x.state.live⟩ ⟨h', v', x.state.live.erase b⟩ :=
    hfreed.act hb hcache hlone
  have hpath' : Path t True HasFree ⟨x.state.heap, v, x.state.live⟩ ⟨h', v', x.state.live.erase b⟩ :=
    Relation.ReflTransGen.tail hpath (.inl hact)
  have htidy := hpath'.tidy hs.good hs.tidy
  have hmapped := (hs.mapped.grows hgr fun b hb _ => hb).freed hg₁ hb (hs.filled b hb) hfreed
  refine ⟨v', ⟨⟨(hact.kept hg₁).good, htidy, hmapped, fun b' hb' => hs.filled b' (List.mem_of_mem_erase hb')⟩,
    fun hno => ?_, fun b' hb' hvia z hz => ?_⟩⟩
  · exact absurd ((hfreed.init_eq.trans hinit₁).symm.trans hno) nofun
  · have hold : v₁.Lodged z := by
      rcases List.mem_cons.mp hb' with rfl | hb'
      · exact (hg₁.placed b' hb).lodged (hg₁.arena hinit₁) hg₁.maps hvia hz
      · cases hinit : x.state.heap.arenaInit with
        | true => exact hpath.lodged hs.good hinit (hx.lodged b' hb' hvia z hz)
        | false =>
          rw [hx.booting hinit] at hb'
          nomatch hb'
    exact (hact.lodged hg₁ hinit₁ hold).2

/-- **Step lemma.** -/
theorem step {e : Event} (hx : Balanced x v) (hs : AccountStep x e x') (he : keepsPages x e) :
    ∃ v', Balanced x' v' := by
  cases hs with
  | call hq hs =>
    rename_i t q ans s'
    obtain ⟨hmodest, hkeep⟩ := he
    cases hs with
    | call harg hrun =>
      rename_i r
      cases q with
      | malloc n => exact hx.malloc hrun hmodest
      | free o =>
        cases o with
        | none =>
          obtain rfl := Except.ok.inj hrun
          exact ⟨v, hx⟩
        | some b =>
          obtain ⟨h', hfree, hret⟩ := Exec.bind_eq_ok.mp
            (show (do let h ← ferrumFree x.state.heap t b.ptr (ans 0); return (h, 0, Backend.null)) = .ok r
              from hrun)
          obtain rfl := Except.ok.inj hret
          exact hx.free (harg b rfl) hfree hkeep
      | calloc | ferrumCalloc | posixMemalign | realloc | usableSize => exact hq.elim
  | write hs =>
    cases hs with
    | write hb hm =>
      have hsort := hx.sorted
      have htidy := hsort.tidy
      exact ⟨v, ⟨⟨hsort.good.store hb hm,
        ⟨htidy.owned.of_ids (fun _ => rfl) rfl, htidy.homed, htidy.ledger, htidy.waiting⟩,
        hsort.mapped, hsort.filled⟩, hx.booting, hx.lodged⟩⟩

theorem boot (bytes : Mem) : Balanced ⟨⟨Heap.boot bytes, []⟩, []⟩ .start where
  sorted :=
    { good := .boot bytes
      tidy := ⟨⟨nofun, fun _ _ _ _ hu => (by nomatch hu.1), nofun, nofun⟩, nofun,
        ⟨fun _ _ _ hu => (by nomatch hu.1), nofun⟩, nofun⟩
      mapped := nofun
      filled := nofun }
  booting _ := rfl
  lodged := nofun

end Balanced

/-- **Run lemma.** -/
theorem reachable_balanced {x : Account} (hr : (accountSystem.restrict keepsPages).Reachable x) :
    ∃ v, Balanced x v := by
  refine hr.invariant (I := fun x => ∃ v, Balanced x v) ?_ ?_
  · rintro x ⟨bytes, rfl⟩
    exact ⟨.start, .boot bytes⟩
  · rintro x e x' _ ⟨v, hx⟩ ⟨hs, he⟩
    exact hx.step hs he

/-- **No freed memory is lost**, other than pages of the bump allocator: as long as no thread without a cache
frees a slot of a full page, every byte of every freed block is in use again, or a later request can get it. -/
theorem reachable_recoverable {x : Account} (hr : (accountSystem.restrict keepsPages).Reachable x) :
    ∀ b ∈ x.freed, b.via ≠ .bump → ∀ z ∈ b.extent, x.state.InUse z ∨ Recoverable x.state.heap z := by
  intro b hb hvia z hz
  obtain ⟨v, hx⟩ := reachable_balanced hr
  have hinit : x.state.heap.arenaInit = true := by
    by_contra hno
    rw [hx.booting (Bool.not_eq_true _ ▸ hno)] at hb
    nomatch hb
  exact hx.sorted.lodged hinit (hx.lodged b hb hvia z hz)

/-- Runs of such calls have an account. -/
theorem exists_account {s : State} (hr : (system.restrict fun s e => onCalls (fun _ _ c _ => c.Simple) s e ∧
    modest s e ∧ onCalls (fun s t c ans => ¬ c.LosesPage s.heap t ans) s e).Reachable s) :
    ∃ freed, (accountSystem.restrict keepsPages).Reachable ⟨s, freed⟩ := by
  induction hr with
  | init h0 =>
    obtain ⟨bytes, rfl⟩ := h0
    exact ⟨_, .init ⟨bytes, rfl⟩⟩
  | @step s s' e _ hs ih =>
    obtain ⟨freed, hr⟩ := ih
    obtain ⟨hstep, hsimple, he⟩ := hs
    cases e with
    | call t c ans => exact ⟨_, hr.step ⟨.call (x := ⟨s, freed⟩) hsimple hstep, he⟩⟩
    | write b m => exact ⟨_, hr.step ⟨.write (x := ⟨s, freed⟩) hstep, he⟩⟩

/-- One more free, once the arena is there. -/
theorem exists_freed {x : Account} (hr : (accountSystem.restrict keepsPages).Reachable x)
    (hg : Good x.state.heap v x.state.live) (hinit : x.state.heap.arenaInit = true) (hb : b ∈ x.state.live)
    (t : Nat) (ans : Nat → Answers) (hkeep : ¬ (Call.free (some b)).LosesPage x.state.heap t ans) :
    ∃ h₁ v₁ o h' v', Good h₁ v₁ x.state.live ∧ h₁.arenaInit = true ∧ Freed h₁ v₁ b o h' v' ∧
      (accountSystem.restrict keepsPages).Reachable ⟨⟨h', x.state.live.erase b⟩, b :: x.freed⟩ := by
  obtain ⟨h₁, v₁, o, hget, hleads, hinit₁, _, hsome⟩ :=
    getOrCreate_leads (D := True) (E := Anywhere) hg hinit t (ans 0).cache fun _ => trivial
  have hg₁ : Good h₁ v₁ x.state.live := hleads.good hg
  obtain ⟨h', v', hfreed, hstep⟩ := hg.free_step hinit hb ans hget hg₁ hinit₁ hsome
  refine ⟨h₁, v₁, o, h', v', hg₁, hinit₁, hfreed, hr.step (e := .call t (.free (some b)) ans) ⟨?_, ?_, hkeep⟩⟩
  · exact .call (c := .free (some b)) trivial hstep
  · exact Nat.zero_le _

/-- The first block of a process, freed. -/
theorem reachable_recoverable_first : ∃ (x : Account) (b : Block), b ∈ x.freed ∧ b.via ≠ .bump ∧
    ∀ z ∈ b.extent, x.state.InUse z ∨ Recoverable x.state.heap z := by
  obtain ⟨a, tlsf, m, m', slab, m'', _, _, hr, hg⟩ := exists_first (n := 100) (c := 8)
    (C := fun s e => onCalls (fun _ _ c _ => c.Simple) s e ∧ modest s e ∧
      onCalls (fun s t c ans => ¬ c.LosesPage s.heap t ans) s e)
    (fun s t n ans hn _ => ⟨trivial, modest_of_le s t n ans hn, nofun⟩) (fun _ => 0) 1 (A := 4096)
    (p := 4194304) (by decide) (by decide) (by decide) (by decide)
  obtain ⟨b, hbdef⟩ : ∃ b : Block, b = ⟨a.slotAddr firstPage 8 0, 100, .slab 8, slotSize 8⟩ := ⟨_, rfl⟩
  rw [← hbdef] at hr hg
  have hvia : b.via ≠ .bump := by
    rw [hbdef]
    nofun
  obtain ⟨freed, hx⟩ := exists_account hr
  have hhas : ((((Heap.boot fun _ => 0).setup a tlsf m).create 1 4194304 m').setSlab (some 4194304) slab
      m'').tls 1 = 4194304 := by
    show Function.update (fun _ => 0) 1 4194304 1 = 4194304
    rw [Function.update_self]
  obtain ⟨_, _, _, h', _, _, _, _, hx'⟩ := exists_freed hx hg rfl (.head _) 1 (fun _ => ⟨none, none, none⟩) (by
    rintro ⟨_, _, _, _, _, hless, _⟩
    exact absurd (hhas.symm.trans hless.1) (by decide))
  exact ⟨_, b, .head _, hvia, reachable_recoverable hx' b (.head _) hvia⟩

/-! ## Pages of the bump allocator -/

namespace PageBlock

variable {s : State}

/-- Nobody has the bytes of such pages once their block is freed. -/
theorem not_inUse (hb : PageBlock v (v.arena.nextFreePage s.heap.os.bytes) b)
    (hg : Good s.heap v s.live) (hinit : s.heap.arenaInit = true)
    (hapart : ∀ b' ∈ s.live, z ∉ b'.extent) (hz : z ∈ b.extent) : ¬ s.InUse z := by
  have ha := hg.arena hinit
  obtain ⟨i, hlo, hhi, hcls, hzi⟩ := hb.mem_page hz
  have hle := ha.slabs.inv.next_le
  have hzone : v.arena.zone z = .page i := zone_page hlo (Nat.lt_of_lt_of_le hhi hle) hzi
  rintro (⟨b', hb', hzb⟩ | ⟨t, ht, h1, h2⟩)
  · unfold Block.footprint at hzb
    cases hvia : b'.via with
    | tlsf =>
      rw [hvia] at hzb
      obtain ⟨x, hptr, hu⟩ := (hg.placed b' hb').poolBlock hvia
      obtain ⟨h1, h2⟩ := Tlsf.usedAt_bounds hu
      obtain ⟨h3, h4⟩ := hzb
      have hend := ha.pool.end_le
      have hstart := ha.pool.start_eq
      nomatch hzone.symm.trans (zone_pool (a := v.arena) (z := z) (by omega) (by omega))
    | huge =>
      rw [hvia] at hzb
      nomatch hzone.symm.trans (ha.region_outside hg.maps ((hg.placed b' hb').mapBlock hvia) hzb)
    | null | slab | bump =>
      rw [hvia] at hzb
      exact hapart b' hb' hzb
  · have hmap := hg.threads.map _ (hg.threads.tls t ht)
    have hne : (⟨s.heap.tls t, 4096⟩ : Region) ≠ ⟨v.arena.base, 2097152⟩ :=
      fun heq => nomatch congrArg Region.size heq
    have hout := zone_outside_iff.mpr ((hg.maps.disjoint hmap ha.map hne).not_mem ⟨h1, h2⟩)
    nomatch hzone.symm.trans hout

/-- Nor are they in a place from which a request could get them. -/
theorem not_recoverable (hb : PageBlock v (v.arena.nextFreePage h.os.bytes) b) (hg : Good h v l)
    (hinit : h.arenaInit = true) (hz : z ∈ b.extent) : ¬ Recoverable h z := by
  have ha := hg.arena hinit
  have hinv := ha.slabs.inv
  obtain ⟨i, hlo, hhi, hcls, hzi⟩ := hb.mem_page hz
  have hzone : v.arena.zone z = .page i := zone_page hlo (Nat.lt_of_lt_of_le hhi hinv.next_le) hzi
  -- a slot lies in a slab page
  have hslot : ∀ {i' k j}, v.g.cls i' = some k → j < slots k → z ∉ slotBytes v.arena i' k j := by
    intro i' k j hc hj hzs
    have hzp := slotBytes_in_page (hinv.slabPage hc).cls_lt hj hzs
    obtain rfl := Zone.page.inj (hzone.symm.trans (ha.slabs.zone_slab hc hzp))
    nomatch hc.symm.trans hcls
  have harena : ∀ {a}, h.globalArena = some a → a = v.arena := fun h' => Option.some.inj (h'.symm.trans ha.arena)
  intro hrec
  cases hrec with
  | slot harena' ht howner hpage hfree hzs =>
    rename_i a t i' j
    obtain rfl := harena harena'
    obtain ⟨i₂, hptr, hc, _⟩ := (hinv.mem _ _ _).mp
      ((hinv.lists.list (some (h.tls t), _)).chain.onChain_iff.mp hpage)
    obtain rfl := Arena.metaPtr_inj hptr
    have hsp := hinv.slabPage hc
    exact hslot hc (hsp.lt j (hsp.chain.onChain_iff.mp hfree)) hzs
  | pending harena' ht howner hnode h1 h2 =>
    rename_i a t x
    obtain rfl := harena harena'
    have hstack := ha.slabs.stack (h.tls t)
    obtain ⟨i', k, j, hu, rfl⟩ := ha.slabs.stacked_used (hstack.role x (hstack.chain.onChain_iff.mp hnode))
    rw [hinv.ptrToPageIndex_slot hu] at h2
    have hk : (h.record v.arena i').sizeClass = k := (hinv.slabPage hu.1).sizeClass
    rw [hk] at h2
    exact hslot hu.1 hu.2.1 ⟨h1, h2⟩
  | block htlsf _ hmap hfree h1 h2 =>
    obtain rfl := Option.some.inj (htlsf.symm.trans ha.tlsf)
    obtain ⟨n, hn, _⟩ := (ha.pool.inv.filed.mem _ _ _).mp
      ((ha.pool.inv.filed.dlist _ _).chain.onChain_iff.mp hfree)
    rw [ha.pool.inv.size_eq hn] at h2
    obtain ⟨h3, h4⟩ := Tlsf.freeCells_bounds hn
    have hend := ha.pool.end_le
    have hstart := ha.pool.start_eq
    simp only at h2
    nomatch hzone.symm.trans (zone_pool (a := v.arena) (z := z) (by omega) (by omega))
  | page harena' h1 _ =>
    obtain rfl := harena harena'
    obtain ⟨_, h2⟩ := hzi
    rw [Arena.pageAddr_eq] at h1 h2
    omega
  | unmapped hnone =>
    apply hnone _ ha.map
    by_contra hout
    nomatch hzone.symm.trans (zone_outside_iff.mpr hout)

end PageBlock

/-- **Pages of the bump allocator are lost.** Two requests of 262143 bytes, one of which the pool has no room
for; freed, its pages are nobody's. -/
theorem not_recoverable_bump : ∃ (x : Account) (b : Block) (z : Nat),
    (accountSystem.restrict keepsPages).Reachable x ∧ b ∈ x.freed ∧ b.via = .bump ∧ z ∈ b.extent ∧
      ¬ x.state.InUse z ∧ ¬ Recoverable x.state.heap z := by
  obtain ⟨s, b, hr, hinit, _, hb, hvia, _⟩ := exists_bump
    (C := fun s e => onCalls (fun _ _ c _ => c.Simple) s e ∧ modest s e ∧
      onCalls (fun s t c ans => ¬ c.LosesPage s.heap t ans) s e) (A := 2097152)
    (fun s t n ans hn => ⟨trivial, modest_of_le s t n ans hn, nofun⟩) (fun _ => 0) 1 (by decide)
  obtain ⟨freed, hx⟩ := exists_account hr
  obtain ⟨v, hbal⟩ := reachable_balanced hx
  obtain ⟨h₁, v₁, o, h', v', hg₁, hinit₁, hfreed, hx'⟩ := exists_freed hx hbal.sorted.good hinit hb 1
    (fun _ => ⟨none, none, none⟩) (by
      rintro ⟨b', k, _, hb', hvia', _⟩
      obtain rfl := Option.some.inj (Call.free.inj hb')
      nomatch hvia.symm.trans hvia')
  cases hfreed with
  | bump =>
    have hpage := (hg₁.placed b hb).pageBlock hvia
    have hg' : Good h₁ v₁ (s.live.erase b) :=
      ((Act.kept (D := True) (E := Anywhere) (t := 1) (.leak hb (.inl hvia)) hg₁)).good
    obtain ⟨i, k, hptr, hcap, hk, _⟩ := hpage
    have hmem : b.ptr ∈ b.extent := ⟨Nat.le_refl _, by omega⟩
    refine ⟨_, b, b.ptr, hx', .head _, hvia, hmem, ?_, ?_⟩
    · refine PageBlock.not_inUse (b := b) ((hg₁.placed b hb).pageBlock hvia) hg' hinit₁ (fun b' hb' hz => ?_)
        hmem
      have hne : b' ≠ b := by
        rintro rfl
        exact hg₁.nodup.not_mem_erase hb'
      exact (hg₁.apart_of_ne (List.mem_of_mem_erase hb') hb hne).2 _ hz hmem
    · exact PageBlock.not_recoverable ((hg₁.placed b hb).pageBlock hvia) hg₁ hinit₁ hmem
  | put hvia' => nomatch hvia.symm.trans hvia'
  | push hvia' => nomatch hvia.symm.trans hvia'
  | release hvia' => nomatch hvia.symm.trans hvia'
  | unmap hvia' => nomatch hvia.symm.trans hvia'
  | leak hvia' => nomatch hvia.symm.trans hvia'

end FerrumAlloc
