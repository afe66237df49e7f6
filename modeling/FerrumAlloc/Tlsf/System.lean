/-
# FerrumAlloc.Tlsf.System -- runs of the TLSF allocator and what holds in all of them

A run starts with one `add_pool` on an empty allocator and continues with calls of `alloc` and `free`
and with writes of the client into live payloads, in any order. The state carries a ghost list of the
live payloads: pointer, bytes requested, and the usable size reported when it was handed out.

`PoolState` ties this list to the used blocks of the abstract pool. `PoolState.step` is the step
lemma, `reachable_poolState` the run lemma. The two results about runs are read off it:
`reachable_wellFormed` (the heap structure, as a reader of the memory finds it) and
`reachable_guarantee` (what a client may rely on).
-/
import FerrumAlloc.Tlsf.Free
import FerrumAlloc.Lib.Transition

namespace FerrumAlloc.Tlsf

open Lib

/-! ## The heap as found in memory -/

/-- The `i`-th block met when walking `next_phys` from `start`. -/
def walk (m : Mem) (start : Nat) : Nat → Nat
  | 0 => start
  | i + 1 => nextPhys m (walk m start i)

/-- The block headers of a pool: those met by the walk, up to and including the first block of size
zero. -/
def BlockAt (m : Mem) (start x : Nat) : Prop :=
  ∃ i, x = walk m start i ∧ ∀ j < i, size m (walk m start j) ≠ 0

section Walk

variable {t : TlsfAllocator} {m : Mem} {bs : List Blk} {L : Nat → Nat → List Nat}

/-- The header after the first `i` blocks of a segment, and its size. -/
theorem Seg.headerAt_take {a : Nat} {l : List Blk} (h : Seg m a false 0 l) {i : Nat}
    (hi : i < l.length) :
    HeaderAt m (endAddr a (l.take i)) l[i] (endFree false (l.take i)) (endSize 0 (l.take i)) := by
  have hl : l = l.take i ++ l[i] :: l.drop (i + 1) := by
    rw [List.getElem_cons_drop, List.take_append_drop]
  rw [hl] at h
  exact (seg_append.mp h).2.1

/-- The walk visits the blocks of the layout, in order. -/
theorem walk_eq {a : Nat} {l : List Blk} (h : Seg m a false 0 l) (hok : ∀ b ∈ l, b.Ok) :
    ∀ i ≤ l.length, walk m a i = endAddr a (l.take i) := by
  intro i
  induction i with
  | zero => intro _; simp [walk]
  | succ i ih =>
    intro hi
    have hlt : i < l.length := hi
    have hhdr := h.headerAt_take hlt
    rw [walk, ih (by omega), hhdr.nextPhys_eq (hok _ (List.getElem_mem hlt)),
      List.take_succ_eq_append_getElem hlt, endAddr_append]
    rfl

/-- A block of the layout is one of the blocks of the walk. -/
theorem mem_cells_iff {a x : Nat} {l : List Blk} {b : Blk} :
    (x, b) ∈ cells a l ↔ ∃ i, ∃ hi : i < l.length, x = endAddr a (l.take i) ∧ b = l[i] := by
  constructor
  · intro h
    obtain ⟨l₁, l₂, rfl, rfl⟩ := cells_split h
    exact ⟨l₁.length, by simp, by simp, by simp⟩
  · rintro ⟨i, hi, rfl, rfl⟩
    have hl : l = l.take i ++ l[i] :: l.drop (i + 1) := by
      rw [List.getElem_cons_drop, List.take_append_drop]
    have hmem : (endAddr a (l.take i), l[i]) ∈ cells a (l.take i ++ l[i] :: l.drop (i + 1)) := by
      rw [cells_append]
      exact List.mem_append_right _ List.mem_cons_self
    rwa [← hl] at hmem

/-- What the invariant says about the block number `i` of the walk. -/
structure WalkAt (m : Mem) (start i : Nat) (l : List Blk) (b : Blk) : Prop where
  addr : walk m start i = endAddr start (l.take i)
  hdr : HeaderAt m (walk m start i) b (endFree false (l.take i)) (endSize 0 (l.take i))
  size : size m (walk m start i) = b.size
  isFree : isFree m (walk m start i) = b.free

variable (h : PoolInv t m bs L)
include h

theorem PoolInv.seg_ok : ∀ b ∈ bs ++ [sentinel], b.Ok := by
  intro b hb
  rcases List.mem_append.mp hb with hb | hb
  · obtain ⟨l₁, l₂, rfl⟩ := List.append_of_mem hb
    exact h.layout.mid_ok
  · rw [List.mem_singleton.mp hb]; exact sentinel_ok

theorem PoolInv.walkAt {i : Nat} (hi : i < (bs ++ [sentinel]).length) :
    WalkAt m t.poolStart i (bs ++ [sentinel]) (bs ++ [sentinel])[i] := by
  have haddr := walk_eq h.seg h.seg_ok i (le_of_lt hi)
  have hhdr := h.seg.headerAt_take hi
  have hok := h.seg_ok _ (List.getElem_mem hi)
  rw [← haddr] at hhdr
  exact ⟨haddr, hhdr, hhdr.size_eq hok, hhdr.isFree_eq hok⟩

/-- The blocks found by walking are the blocks of the layout and the sentinel. -/
theorem PoolInv.blockAt_iff {x : Nat} :
    BlockAt m t.poolStart x ↔ ∃ b, (x, b) ∈ cells t.poolStart (bs ++ [sentinel]) := by
  have hlen : (bs ++ [sentinel]).length = bs.length + 1 := by simp
  constructor
  · rintro ⟨i, rfl, hne⟩
    have hi : i < (bs ++ [sentinel]).length := by
      by_contra hge
      have hw := h.walkAt (i := bs.length) (by omega)
      refine hne bs.length (by omega) ?_
      rw [hw.size]
      simp [sentinel]
    exact ⟨_, mem_cells_iff.mpr ⟨i, hi, (h.walkAt hi).addr, rfl⟩⟩
  · rintro ⟨b, hb⟩
    obtain ⟨i, hi, rfl, rfl⟩ := mem_cells_iff.mp hb
    refine ⟨i, (h.walkAt hi).addr.symm, fun j hj => ?_⟩
    have hjb : j < bs.length := by omega
    rw [(h.walkAt (by omega)).size, List.getElem_append_left hjb]
    have := (h.layout.blk _ (List.getElem_mem hjb)).1
    omega

end Walk

/-! ## Runs -/

/-- A live payload: its address, the bytes requested, and `usable_size` when it was handed out. -/
structure Payload where
  ptr : Nat
  req : Nat
  usable : Nat
  deriving DecidableEq, Repr

/-- The allocator, the memory, and the ghost list of live payloads. -/
structure State where
  tlsf : TlsfAllocator
  mem : Mem
  live : List Payload

/-- A call of the allocator, or the client storing one byte. -/
inductive Event
  | alloc (size : Nat)
  | free (ptr : Nat)
  | write (addr : Nat) (byte : UInt8)

/-- Recording what `alloc` returned. -/
def State.issue (s : State) (n : Nat) (r : TlsfAllocator × Mem × Nat) : State where
  tlsf := r.1
  mem := r.2.1
  live := if r.2.2 = 0 then s.live else ⟨r.2.2, n, usableSize r.2.1 r.2.2⟩ :: s.live

/-- One step: a call that returns, or a client write inside a live payload. -/
inductive Step : State → Event → State → Prop
  | alloc {s : State} {n : Nat} {r : TlsfAllocator × Mem × Nat} : n ≤ usizeMax - 16 →
      Tlsf.alloc s.tlsf s.mem n = .ok r → Step s (.alloc n) (s.issue n r)
  | free {s : State} {e : Payload} {r : TlsfAllocator × Mem} : e ∈ s.live →
      Tlsf.free s.tlsf s.mem e.ptr = .ok r → Step s (.free e.ptr) ⟨r.1, r.2, s.live.erase e⟩
  | write {s : State} {e : Payload} {a : Nat} {v : UInt8} : e ∈ s.live → e.ptr ≤ a →
      a < e.ptr + usableSize s.mem e.ptr →
      Step s (.write a v) { s with mem := Function.update s.mem a v }

/-- Runs over the pool `[base, base + size)`, in any initial memory. -/
def poolSystem (base size : Nat) : System State Event where
  init s := ∃ m, addPool new m base size = .ok (s.tlsf, s.mem) ∧ s.live = []
  step := Step

/-! ## The invariant of runs -/

/-- The live payloads are the used blocks of the pool. -/
structure PoolState (base size : Nat) (s : State) (bs : List Blk) (L : Nat → Nat → List Nat) :
    Prop where
  inv : PoolInv s.tlsf s.mem bs L
  start_eq : s.tlsf.poolStart = base
  end_eq : s.tlsf.poolEnd = base + size
  tiles : endAddr base bs = base + 16 + poolPayload size
  block : ∀ e ∈ s.live, ∃ x, e.ptr = x + 16 ∧ UsedAt base bs x e.usable
  live : ∀ {x z}, UsedAt base bs x z → ∃ e ∈ s.live, e.ptr = x + 16 ∧ e.usable = z
  req : ∀ e ∈ s.live, e.req ≤ e.usable
  nodup : (s.live.map Payload.ptr).Nodup

namespace PoolState

variable {base size : Nat} {s s' : State} {bs : List Blk} {L : Nat → Nat → List Nat} {e : Payload}

theorem min (h : PoolState base size s bs L) : ∀ c ∈ bs, 16 ≤ c.size :=
  fun c hc => (h.inv.layout.blk c hc).1

/-- `usable_size` reads the size of the payload's block. -/
theorem usableSize_eq (h : PoolState base size s bs L) (he : e ∈ s.live) :
    usableSize s.mem e.ptr = e.usable := by
  obtain ⟨x, hx, hu⟩ := h.block e he
  rw [← h.start_eq] at hu
  rw [usableSize, if_neg (by omega), hx, show fromPayload (x + 16) = x from Nat.add_sub_cancel x 16]
  exact h.inv.size_eq hu

/-- The bytes of a live payload are not the allocator's. -/
theorem payload_disjoint (h : PoolState base size s bs L) (he : e ∈ s.live) {z : Nat}
    (h1 : e.ptr ≤ z) (h2 : z < e.ptr + e.usable) : z ∉ ownBytes base bs := by
  obtain ⟨x, hx, hu⟩ := h.block e he
  exact payload_not_own h.min hu (by omega) (by omega)

/-- The invariant at the start of a run. -/
theorem init (ha : PoolArgs base size) (hs : (poolSystem base size).init s) :
    ∃ bs L, PoolState base size s bs L := by
  obtain ⟨m, hadd, hlive⟩ := hs
  obtain ⟨t', m', hrun, hinv, hstart, hend, _⟩ := addPool_spec m ha
  rw [hrun] at hadd
  obtain ⟨rfl, rfl⟩ := Prod.mk.inj (Except.ok.inj hadd)
  refine ⟨_, _, hinv, hstart, hend, rfl, ?_, ?_, ?_, ?_⟩
  · simp [hlive]
  · intro x z hu
    simp [UsedAt] at hu
  · simp [hlive]
  · simp [hlive]

/-- The payloads that are live before and after keep their bytes. -/
def Keeps (s s' : State) : Prop :=
  ∀ e ∈ s.live, e ∈ s'.live → ∀ z, e.ptr ≤ z → z < e.ptr + e.usable → s'.mem z = s.mem z

/-- **`alloc` returns**, and either refuses or carves a block. -/
theorem alloc_returns (h : PoolState base size s bs L) {n : Nat} (hn : n ≤ usizeMax - 16) :
    Tlsf.alloc s.tlsf s.mem n = .ok (s.tlsf, s.mem, 0) ∨
      ∃ t' m' bs' L' p, Tlsf.alloc s.tlsf s.mem n = .ok (t', m', p) ∧
        Allocated s.tlsf s.mem bs L n t' m' bs' L' p := by
  rcases Nat.eq_zero_or_pos n with rfl | hpos
  · exact .inl rfl
  · rcases alloc_spec h.inv hpos hn with ⟨hrun, _⟩ | hrun
    · exact .inl hrun
    · exact .inr hrun

/-- **Step lemma, `alloc`.** -/
theorem step_alloc (h : PoolState base size s bs L) {n : Nat} (hn : n ≤ usizeMax - 16)
    {r : TlsfAllocator × Mem × Nat} (hr : Tlsf.alloc s.tlsf s.mem n = .ok r) :
    (∃ bs' L', PoolState base size (s.issue n r) bs' L') ∧ Keeps s (s.issue n r) := by
  rcases h.alloc_returns hn with hrun | ⟨t', m', bs', L', p, hrun, ha⟩
  · rw [hrun] at hr
    obtain rfl := Except.ok.inj hr
    exact ⟨⟨bs, L, h⟩, fun _ _ _ _ _ _ => rfl⟩
  · rw [hrun] at hr
    obtain rfl := Except.ok.inj hr
    obtain ⟨hcarve, _, hinv, hps, hpe, hframe⟩ := ha
    rw [h.start_eq] at hcarve hframe
    obtain ⟨x, z, rfl, hle, _, hnew, hused⟩ := hcarve.used
    have hissue : s.issue n (t', m', x + 16) =
        ⟨t', m', ⟨x + 16, n, usableSize m' (x + 16)⟩ :: s.live⟩ := by simp [State.issue]
    have hux : UsedAt base bs' x z := (hused x z).mpr (.inr ⟨rfl, rfl⟩)
    have hsize : usableSize m' (x + 16) = z := by
      have hcell := hux
      rw [← h.start_eq, ← hps] at hcell
      rw [usableSize, if_neg (by omega),
        show fromPayload (x + 16) = x from Nat.add_sub_cancel x 16]
      exact hinv.size_eq hcell
    have hmin' : ∀ c ∈ bs', 16 ≤ c.size := fun c hc => (hinv.layout.blk c hc).1
    rw [hissue, hsize]
    refine ⟨⟨bs', L', hinv, hps.trans h.start_eq, hpe.trans h.end_eq,
      hcarve.endAddr_eq.trans h.tiles, ?_, ?_, ?_, ?_⟩, ?_⟩
    · intro e he
      rcases List.mem_cons.mp he with rfl | he
      · exact ⟨x, rfl, hux⟩
      · obtain ⟨y, hy, hu⟩ := h.block e he
        exact ⟨y, hy, (hused y _).mpr (.inl hu)⟩
    · intro y w hu
      rcases (hused y w).mp hu with hu | ⟨rfl, rfl⟩
      · obtain ⟨e, he, h1, h2⟩ := h.live hu
        exact ⟨e, List.mem_cons_of_mem _ he, h1, h2⟩
      · exact ⟨_, List.mem_cons_self, rfl, rfl⟩
    · intro e he
      rcases List.mem_cons.mp he with rfl | he
      · exact le_trans (adjusted_spec hn).1 hle
      · exact h.req e he
    · refine List.nodup_cons.mpr ⟨fun hmem => ?_, h.nodup⟩
      obtain ⟨e, he, heq⟩ := List.mem_map.mp hmem
      obtain ⟨y, hy, hu⟩ := h.block e he
      have hyx : y = x := by simp only at heq; omega
      exact hnew _ (hyx ▸ hu)
    · intro e he _ w h1 h2
      refine hframe ?_
      rintro (hw | hw)
      · exact h.payload_disjoint he h1 h2 hw
      · obtain ⟨y, hy, hu⟩ := h.block e he
        exact payload_not_own hmin' ((hused y _).mpr (.inl hu)) (by omega) (by omega) hw

/-- **`free` of a live payload returns** and releases its block. -/
theorem free_returns (h : PoolState base size s bs L) (he : e ∈ s.live) :
    ∃ t' m' bs' L', Tlsf.free s.tlsf s.mem e.ptr = .ok (t', m') ∧
      Released s.tlsf s.mem bs L e.ptr t' m' bs' L' := by
  obtain ⟨x, hx, hu⟩ := h.block e he
  rw [← h.start_eq] at hu
  rw [hx]
  exact free_spec h.inv hu

/-- Two live payloads at one address are the same. -/
theorem eq_of_ptr (h : PoolState base size s bs L) {f : Payload} (he : e ∈ s.live) (hf : f ∈ s.live)
    (hptr : e.ptr = f.ptr) : e = f :=
  List.inj_on_of_nodup_map h.nodup he hf hptr

/-- **Step lemma, `free`.** -/
theorem step_free (h : PoolState base size s bs L) (he : e ∈ s.live) {r : TlsfAllocator × Mem}
    (hr : Tlsf.free s.tlsf s.mem e.ptr = .ok r) :
    (∃ bs' L', PoolState base size ⟨r.1, r.2, s.live.erase e⟩ bs' L') ∧
      Keeps s ⟨r.1, r.2, s.live.erase e⟩ := by
  obtain ⟨t', m', bs', L', hrun, hrel, hinv, hps, hpe, hframe⟩ := h.free_returns he
  rw [hrun] at hr
  obtain rfl := Except.ok.inj hr
  rw [h.start_eq] at hrel hframe
  obtain ⟨_, hused⟩ := hrel.used
  have hlive : s.live.Nodup := h.nodup.of_map
  have hmin' : ∀ c ∈ bs', 16 ≤ c.size := fun c hc => (hinv.layout.blk c hc).1
  have hstill : ∀ f ∈ s.live.erase e, ∃ y, f.ptr = y + 16 ∧ UsedAt base bs' y f.usable := by
    intro f hf
    obtain ⟨hne, hf⟩ := hlive.mem_erase_iff.mp hf
    obtain ⟨y, hy, hu⟩ := h.block f hf
    refine ⟨y, hy, (hused y _).mpr ⟨hu, fun heq => hne ?_⟩⟩
    exact h.eq_of_ptr hf he (hy.trans heq)
  refine ⟨⟨bs', L', hinv, hps.trans h.start_eq, hpe.trans h.end_eq,
    hrel.endAddr_eq.trans h.tiles, hstill, ?_, ?_, ?_⟩, ?_⟩
  · intro y w hu
    obtain ⟨hu, hne⟩ := (hused y w).mp hu
    obtain ⟨f, hf, h1, h2⟩ := h.live hu
    refine ⟨f, hlive.mem_erase_iff.mpr ⟨?_, hf⟩, h1, h2⟩
    rintro rfl
    exact hne h1.symm
  · exact fun f hf => h.req f (List.mem_of_mem_erase hf)
  · exact h.nodup.sublist (List.erase_sublist.map _)
  · intro f hf hf' w h1 h2
    refine hframe ?_
    rintro (hw | hw)
    · exact h.payload_disjoint hf h1 h2 hw
    · obtain ⟨y, hy, hu⟩ := hstill f hf'
      exact payload_not_own hmin' hu (by omega) (by omega) hw

/-- **Step lemma, client write.** -/
theorem step_write (h : PoolState base size s bs L) (he : e ∈ s.live) {a : Nat} {v : UInt8}
    (h1 : e.ptr ≤ a) (h2 : a < e.ptr + usableSize s.mem e.ptr) :
    PoolState base size { s with mem := Function.update s.mem a v } bs L := by
  rw [h.usableSize_eq he] at h2
  have hnot := h.payload_disjoint he h1 h2
  refine ⟨h.inv.frame fun z hz => ?_, h.start_eq, h.end_eq, h.tiles, h.block, h.live, h.req, h.nodup⟩
  rw [h.start_eq] at hz
  refine Function.update_of_ne ?_ v s.mem
  rintro rfl
  exact hnot hz

end PoolState

/-- **Run lemma.** Every reachable state satisfies the invariant. -/
theorem reachable_poolState {base size : Nat} (ha : PoolArgs base size) {s : State}
    (hr : (poolSystem base size).Reachable s) : ∃ bs L, PoolState base size s bs L := by
  refine System.Reachable.invariant (I := fun s => ∃ bs L, PoolState base size s bs L)
    (fun s hs => PoolState.init ha hs) ?_ hr
  rintro s e s' _ ⟨bs, L, h⟩ hstep
  cases hstep with
  | alloc hn hrun => exact (h.step_alloc hn hrun).1
  | free he hrun => exact (h.step_free he hrun).1
  | write he h1 h2 => exact ⟨bs, L, h.step_write he h1 h2⟩

/-! ## The heap structure in every reachable state -/

/-- **A well-formed heap**, as a reader of the memory finds it: `n` blocks tile the pool up to the
sentinel, boundary tags and free flags agree, no two neighbours are both free, the used blocks are
the live payloads, and the lists `L` and the bitmaps file exactly the free blocks. -/
structure WellFormed (t : TlsfAllocator) (m : Mem) (live : List Payload) (n : Nat)
    (L : Nat → Nat → List Nat) : Prop where
  blocks : ∀ i < n, 16 ≤ size m (walk m t.poolStart i) ∧ size m (walk m t.poolStart i) % 16 = 0 ∧
    walk m t.poolStart (i + 1) = walk m t.poolStart i + 16 + size m (walk m t.poolStart i)
  sentinel : size m (walk m t.poolStart n) = 0 ∧ isFree m (walk m t.poolStart n) = false
  tiles : walk m t.poolStart n + 16 ≤ t.poolEnd ∧ t.poolEnd < walk m t.poolStart n + 32
  tags : ∀ i < n, prevPhysSize m (walk m t.poolStart (i + 1)) = size m (walk m t.poolStart i) ∧
    prevIsFree m (walk m t.poolStart (i + 1)) = isFree m (walk m t.poolStart i)
  noAdjacent : ∀ i, i + 1 < n →
    ¬ (isFree m (walk m t.poolStart i) = true ∧ isFree m (walk m t.poolStart (i + 1)) = true)
  used : ∀ p, (∃ e ∈ live, e.ptr = p) ↔
    ∃ i < n, p = payload (walk m t.poolStart i) ∧ isFree m (walk m t.poolStart i) = false
  liveNodup : (live.map Payload.ptr).Nodup
  lists : ∀ fl < flCount, ∀ sl < slCount,
    DList (linkNext m) (linkPrev m) 0 (t.lists fl sl) (L fl sl)
  bins : ∀ i < n, isFree m (walk m t.poolStart i) = true →
    (mapping (size m (walk m t.poolStart i))).1 < flCount ∧
      (mapping (size m (walk m t.poolStart i))).2 < slCount
  filed : ∀ fl < flCount, ∀ sl < slCount, ∀ x, x ∈ L fl sl ↔
    ∃ i < n, x = walk m t.poolStart i ∧ isFree m x = true ∧ mapping (size m x) = (fl, sl)
  slBits : ∀ fl < flCount, ∀ sl, (t.slBitmaps fl).testBit sl = true ↔ sl < slCount ∧ L fl sl ≠ []
  flBits : ∀ fl, t.flBitmap.testBit fl = true ↔ fl < flCount ∧ ∃ sl < slCount, L fl sl ≠ []

theorem noAdjacentFree_get {l : List Blk} (h : NoAdjacentFree l) {i : Nat} (hi : i + 1 < l.length) :
    ¬ (l[i].free = true ∧ l[i + 1].free = true) :=
  List.isChain_iff_getElem.mp h i hi

section Walk

variable {base size : Nat} {s : State} {bs : List Blk} {L : Nat → Nat → List Nat}

/-- The block of step `i` of the walk, and the sentinel at its end. -/
theorem PoolState.walk_block (h : PoolState base size s bs L) {i : Nat} (hi : i < bs.length) :
    WalkAt s.mem s.tlsf.poolStart i (bs ++ [Tlsf.sentinel]) bs[i] := by
  have hwalk := h.inv.walkAt (i := i) (by rw [List.length_append]; omega)
  rwa [List.getElem_append_left hi] at hwalk

theorem PoolState.walk_sentinel (h : PoolState base size s bs L) :
    WalkAt s.mem s.tlsf.poolStart bs.length (bs ++ [Tlsf.sentinel]) Tlsf.sentinel := by
  have hwalk := h.inv.walkAt (i := bs.length) (by rw [List.length_append]; simp)
  rwa [List.getElem_concat_length rfl] at hwalk

/-- The walk visits the blocks of the layout. -/
theorem PoolState.mem_walk (h : PoolState base size s bs L) {x : Nat} {b : Blk} :
    (x, b) ∈ cells s.tlsf.poolStart bs ↔
      ∃ i, ∃ hi : i < bs.length, x = walk s.mem s.tlsf.poolStart i ∧ b = bs[i] := by
  have haddr : ∀ {i}, i < bs.length → walk s.mem s.tlsf.poolStart i = endAddr s.tlsf.poolStart (bs.take i) := by
    intro i hi
    rw [(h.walk_block hi).addr, List.take_append_of_le_length (le_of_lt hi)]
  rw [mem_cells_iff]
  constructor
  · rintro ⟨i, hi, rfl, rfl⟩
    exact ⟨i, hi, (haddr hi).symm, rfl⟩
  · rintro ⟨i, hi, rfl, rfl⟩
    exact ⟨i, hi, haddr hi, rfl⟩

/-- The boundary tag behind a block. -/
theorem PoolState.tag (h : PoolState base size s bs L) {i : Nat} (hi : i < bs.length) : ∃ b, b.Ok ∧
    HeaderAt s.mem (walk s.mem s.tlsf.poolStart (i + 1)) b bs[i].free bs[i].size := by
  have hi' : i + 1 < (bs ++ [Tlsf.sentinel]).length := by
    rw [List.length_append]
    exact Nat.succ_lt_succ hi
  have hhdr := (h.inv.walkAt hi').hdr
  rw [List.take_append_of_le_length hi, List.take_succ_eq_append_getElem hi, endFree_append,
    endSize_append] at hhdr
  exact ⟨_, h.inv.seg_ok _ (List.getElem_mem hi'), hhdr⟩

/-- The lists hold the free blocks of the walk. -/
theorem PoolState.mem_list (h : PoolState base size s bs L) (fl sl x : Nat) :
    x ∈ L fl sl ↔ ∃ i < bs.length, x = walk s.mem s.tlsf.poolStart i ∧
      isFree s.mem x = true ∧ mapping (Tlsf.size s.mem x) = (fl, sl) := by
  rw [h.inv.filed.mem]
  constructor
  · rintro ⟨z, hz, hmap⟩
    obtain ⟨i, hi, rfl, hb⟩ := h.mem_walk.mp hz
    refine ⟨i, hi, rfl, ?_, ?_⟩
    · rw [(h.walk_block hi).isFree, ← hb]
    · rw [(h.walk_block hi).size, ← hb]
      exact hmap
  · rintro ⟨i, hi, rfl, hf, hmap⟩
    rw [(h.walk_block hi).isFree] at hf
    rw [(h.walk_block hi).size] at hmap
    refine ⟨bs[i].size, h.mem_walk.mpr ⟨i, hi, rfl, ?_⟩, hmap⟩
    rw [← hf]

/-- The live payloads are those of the used blocks of the walk. -/
theorem PoolState.mem_live (h : PoolState base size s bs L) (p : Nat) :
    (∃ e ∈ s.live, e.ptr = p) ↔ ∃ i < bs.length, p = payload (walk s.mem s.tlsf.poolStart i) ∧
      isFree s.mem (walk s.mem s.tlsf.poolStart i) = false := by
  constructor
  · rintro ⟨e, he, rfl⟩
    obtain ⟨x, hx, hu⟩ := h.block e he
    rw [← h.start_eq] at hu
    obtain ⟨i, hi, rfl, hb⟩ := h.mem_walk.mp hu
    exact ⟨i, hi, hx, by rw [(h.walk_block hi).isFree, ← hb]⟩
  · rintro ⟨i, hi, rfl, hf⟩
    rw [(h.walk_block hi).isFree] at hf
    have hu : UsedAt base bs (walk s.mem s.tlsf.poolStart i) bs[i].size := by
      rw [← h.start_eq]
      refine h.mem_walk.mpr ⟨i, hi, rfl, ?_⟩
      rw [← hf]
    obtain ⟨e, he, hptr, _⟩ := h.live hu
    exact ⟨e, he, hptr⟩

/-- The invariant of runs gives a well-formed heap. -/
theorem PoolState.wellFormed (ha : PoolArgs base size) (h : PoolState base size s bs L) :
    WellFormed s.tlsf s.mem s.live bs.length L := by
  have hbin : ∀ {fl sl}, L fl sl ≠ [] → fl < flCount ∧ sl < slCount :=
    fun hne => h.inv.filed.bin_lt_of_ne_nil hne
  have hbits := h.inv.filed.bits
  refine ⟨fun i hi => ?_, ?_, ?_, fun i hi => ?_, fun i hi => ?_, h.mem_live, h.nodup,
    fun fl _ sl _ => h.inv.filed.dlist fl sl, fun i hi hf => ?_, fun fl _ sl _ => h.mem_list fl sl,
    fun fl hfl sl => ?_, fun fl => ?_⟩
  · have hblk := h.inv.layout.blk _ (List.getElem_mem hi)
    rw [(h.walk_block hi).size]
    exact ⟨hblk.1, hblk.2, by rw [walk, nextPhys, (h.walk_block hi).size]; rfl⟩
  · exact ⟨h.walk_sentinel.size, h.walk_sentinel.isFree⟩
  · have hend : walk s.mem s.tlsf.poolStart bs.length = base + 16 + poolPayload size := by
      rw [h.walk_sentinel.addr, List.take_left' rfl, h.start_eq, h.tiles]
    have hpay := poolPayload_eq (show size < 2 ^ 64 by have := ha.fits; omega)
    have hmin := ha.min
    rw [hend, h.end_eq]
    omega
  · obtain ⟨b, hb, hhdr⟩ := h.tag hi
    rw [(h.walk_block hi).size, (h.walk_block hi).isFree]
    exact ⟨hhdr.prevPhysSize_eq, hhdr.prevIsFree_eq hb⟩
  · rw [(h.walk_block (show i < bs.length by omega)).isFree, (h.walk_block hi).isFree]
    exact noAdjacentFree_get h.inv.layout.noAdj hi
  · have hmem := (h.mem_list _ _ _).mpr ⟨i, hi, rfl, hf, Prod.mk.eta.symm⟩
    exact hbin (List.ne_nil_of_mem hmem)
  · rw [hbits.slBit fl hfl]
    exact ⟨fun hne => ⟨(hbin hne).2, hne⟩, fun hne => hne.2⟩
  · rw [hbits.flBit]
    constructor
    · rintro ⟨sl, hne⟩
      exact ⟨(hbin hne).1, sl, (hbin hne).2, hne⟩
    · rintro ⟨_, sl, _, hne⟩
      exact ⟨sl, hne⟩

end Walk

/-- **The representation invariant holds in every run.** `add_pool` returns; in every state reached
the heap is well formed, and every further call returns. -/
theorem reachable_wellFormed {base size : Nat} (ha : PoolArgs base size) :
    (∀ m, ∃ r, addPool new m base size = .ok r) ∧
      ∀ s, (poolSystem base size).Reachable s →
        s.tlsf.poolStart = base ∧ s.tlsf.poolEnd = base + size ∧
        (∃ n L, WellFormed s.tlsf s.mem s.live n L) ∧
        (∀ n ≤ usizeMax - 16, ∃ r, Tlsf.alloc s.tlsf s.mem n = .ok r) ∧
        ∀ e ∈ s.live, ∃ r, Tlsf.free s.tlsf s.mem e.ptr = .ok r := by
  refine ⟨fun m => ?_, fun s hr => ?_⟩
  · obtain ⟨t', m', hrun, _⟩ := addPool_spec m ha
    exact ⟨_, hrun⟩
  · obtain ⟨bs, L, h⟩ := reachable_poolState ha hr
    refine ⟨h.start_eq, h.end_eq, ⟨_, _, h.wellFormed ha⟩, fun n hn => ?_, fun e he => ?_⟩
    · rcases h.alloc_returns hn with hrun | ⟨_, _, _, _, _, hrun, _⟩
      · exact ⟨_, hrun⟩
      · exact ⟨_, hrun⟩
    · obtain ⟨_, _, _, _, hrun, _⟩ := h.free_returns he
      exact ⟨_, hrun⟩

/-- A pool of one page at the first page address. -/
theorem reachable_wellFormed_page :
    PoolArgs 4096 4096 ∧
      ((∀ m, ∃ r, addPool new m 4096 4096 = .ok r) ∧
        ∀ s, (poolSystem 4096 4096).Reachable s →
          s.tlsf.poolStart = 4096 ∧ s.tlsf.poolEnd = 4096 + 4096 ∧
          (∃ n L, WellFormed s.tlsf s.mem s.live n L) ∧
          (∀ n ≤ usizeMax - 16, ∃ r, Tlsf.alloc s.tlsf s.mem n = .ok r) ∧
          ∀ e ∈ s.live, ∃ r, Tlsf.free s.tlsf s.mem e.ptr = .ok r) :=
  ⟨by decide, reachable_wellFormed (by decide)⟩

/-! ## What a client may rely on -/

/-- **A live payload** is aligned, large enough, keeps its usable size, and lies inside the pool clear
of every block header. -/
structure PayloadOk (s : State) (e : Payload) : Prop where
  al : e.ptr % 16 = 0
  size : e.req ≤ e.usable
  stable : usableSize s.mem e.ptr = e.usable
  inside : s.tlsf.poolStart ≤ e.ptr ∧ e.ptr + e.usable ≤ s.tlsf.poolEnd
  headers : ∀ x, BlockAt s.mem s.tlsf.poolStart x → x + 16 ≤ e.ptr ∨ e.ptr + e.usable ≤ x

/-- The ranges of two payloads do not meet. -/
def Payload.Disjoint (e f : Payload) : Prop := e.ptr + e.usable ≤ f.ptr ∨ f.ptr + f.usable ≤ e.ptr

namespace PoolState

variable {base size : Nat} {s : State} {bs : List Blk} {L : Nat → Nat → List Nat} {e f : Payload}

theorem payloadOk (h : PoolState base size s bs L) (he : e ∈ s.live) : PayloadOk s e := by
  obtain ⟨x, hx, hu⟩ := h.block e he
  rw [← h.start_eq] at hu
  have hal := h.inv.layout.al16 hu
  have hlo := cells_lo hu
  have hhi := cells_hi hu
  have hfits := h.inv.layout.fits
  simp only at hhi
  refine ⟨by omega, h.req e he, h.usableSize_eq he, ⟨by omega, by omega⟩, fun y hy => ?_⟩
  obtain ⟨b, hb⟩ := h.inv.blockAt_iff.mp hy
  rw [cells_append, List.mem_append] at hb
  rcases hb with hb | hb
  · by_cases hxy : y = x
    · omega
    · have hd := cells_disjoint hb hu hxy
      have hb16 := (h.inv.layout.blk b (cells_mem hb)).1
      simp only at hd
      omega
  · simp only [cells_cons, cells_nil, List.mem_singleton, Prod.mk.injEq] at hb
    omega

theorem payload_disjoint_payload (h : PoolState base size s bs L) (he : e ∈ s.live) (hf : f ∈ s.live)
    (hne : e ≠ f) : e.Disjoint f := by
  obtain ⟨x, hx, hu⟩ := h.block e he
  obtain ⟨y, hy, hv⟩ := h.block f hf
  have hxy : x ≠ y := by
    rintro rfl
    exact hne (h.eq_of_ptr he hf (by omega))
  have hd := cells_disjoint hu hv hxy
  simp only at hd
  rcases hd with hd | hd
  · exact .inl (by omega)
  · exact .inr (by omega)

end PoolState

/-- **The client guarantee holds in every run.** Every live payload is well placed, live payloads are
pairwise disjoint, and no call changes a byte of a payload that it does not free. -/
theorem reachable_guarantee {base size : Nat} (ha : PoolArgs base size) {s : State}
    (hr : (poolSystem base size).Reachable s) :
    (∀ e ∈ s.live, PayloadOk s e) ∧ s.live.Pairwise Payload.Disjoint ∧
      (∀ n s', Step s (.alloc n) s' → ∀ e ∈ s.live, ∀ z, e.ptr ≤ z → z < e.ptr + e.usable →
        s'.mem z = s.mem z) ∧
      ∀ p s', Step s (.free p) s' → ∀ e ∈ s.live, e.ptr ≠ p → ∀ z, e.ptr ≤ z →
        z < e.ptr + e.usable → s'.mem z = s.mem z := by
  obtain ⟨bs, L, h⟩ := reachable_poolState ha hr
  refine ⟨fun e he => h.payloadOk he, ?_, ?_, ?_⟩
  · refine h.nodup.of_map.imp_of_mem fun he hf hne => ?_
    exact h.payload_disjoint_payload he hf hne
  · rintro n s' hstep e he
    cases hstep with
    | alloc hn hrun =>
      refine (h.step_alloc hn hrun).2 e he ?_
      rw [State.issue]
      split
      · exact he
      · exact List.mem_cons_of_mem _ he
  · rintro p s' hstep e he hne
    cases hstep with
    | free hf hrun =>
      refine (h.step_free hf hrun).2 e he ?_
      refine (List.Nodup.mem_erase_iff h.nodup.of_map).mpr ⟨?_, he⟩
      rintro rfl
      exact hne rfl

/-! ### A page as the pool -/

theorem page_addPool : (addPool new (fun _ => 0) 4096 4096).isOk = true := by decide +kernel

private theorem page_alloc : (Tlsf.alloc (Exec.result _ page_addPool).1 (Exec.result _ page_addPool).2
    100).isOk = true := by decide +kernel

private theorem page_alloc_two : (Tlsf.alloc (Exec.result _ page_alloc).1 (Exec.result _ page_alloc).2.1
    200).isOk = true := by decide +kernel

/-- **A run on one page**: 100 bytes, and a call for 200 bytes that gets the bytes behind them. -/
theorem exists_page_call : ∃ (s : State) (r : TlsfAllocator × Mem × Nat), s.live = [⟨4112, 100, 112⟩] ∧
    (poolSystem 4096 4096).Reachable s ∧ Tlsf.alloc s.tlsf s.mem 200 = .ok r ∧ r.2.2 = 4240 ∧
    usableSize r.2.1 r.2.2 = 208 := by
  have hr : (poolSystem 4096 4096).Reachable (State.issue ⟨_, _, []⟩ 100 (Exec.result _ page_alloc)) :=
    .step (.init ⟨fun _ => 0, Exec.eq_ok_result _ page_addPool, rfl⟩)
      (Step.alloc (by decide) (Exec.eq_ok_result _ page_alloc))
  refine ⟨_, Exec.result _ page_alloc_two, ?_, hr, Exec.eq_ok_result _ page_alloc_two, ?_, ?_⟩
  · decide +kernel
  · decide +kernel
  · decide +kernel

/-- The same page before and after the call. -/
theorem exists_page : (∃ s : State, s.live = [⟨4112, 100, 112⟩] ∧ (poolSystem 4096 4096).Reachable s) ∧
    ∃ s : State, s.live = [⟨4240, 200, 208⟩, ⟨4112, 100, 112⟩] ∧ (poolSystem 4096 4096).Reachable s := by
  obtain ⟨s, r, hlive, hr, hrun, hptr, hsize⟩ := exists_page_call
  refine ⟨⟨s, hlive, hr⟩, s.issue 200 r, ?_, hr.step (Step.alloc (by decide) hrun)⟩
  unfold State.issue
  rw [hsize, hptr, hlive]
  rfl

/-- One page as the pool, and one payload of 100 bytes handed out. -/
theorem reachable_guarantee_page : ∃ s : State, s.live = [⟨4112, 100, 112⟩] ∧
    (poolSystem 4096 4096).Reachable s ∧
    ((∀ e ∈ s.live, PayloadOk s e) ∧ s.live.Pairwise Payload.Disjoint ∧
      (∀ n s', Step s (.alloc n) s' → ∀ e ∈ s.live, ∀ z, e.ptr ≤ z → z < e.ptr + e.usable →
        s'.mem z = s.mem z) ∧
      ∀ p s', Step s (.free p) s' → ∀ e ∈ s.live, e.ptr ≠ p → ∀ z, e.ptr ≤ z →
        z < e.ptr + e.usable → s'.mem z = s.mem z) := by
  obtain ⟨⟨s, hlive, hr⟩, _⟩ := exists_page
  exact ⟨s, hlive, hr, reachable_guarantee (by decide) hr⟩

end FerrumAlloc.Tlsf
