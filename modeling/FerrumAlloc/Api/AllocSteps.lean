/-
# FerrumAlloc.Api.AllocSteps -- `ferrum_malloc` among other threads

A drain takes the whole stack in one exchange. From then on its nodes are blocks in the hands of the thread
(`Detached`), so nobody else writes into their links while they go to the slab one by one; pushes go on
meanwhile. So the drain comes to its end: every round leaves one node less (`drainNode_triple`).

The result of an allocation is a block in the hands of the thread (`Got`), apart from the blocks that it had
before, whose bytes have not changed (`Result`).
-/
import FerrumAlloc.Api.Locking

namespace FerrumAlloc

open Lib World Discipline
open Tlsf (TlsfAllocator)

variable {t p q n c head : Nat} {S : Set Block} {m m' : Mem} {locked : Bool} {x y : World} {a : Arena}
  {b : Block} {h : Heap} {v : View} {l : List Block} {ns : List Block} {fin : Prop} {k : Nat}

/-! ## New blocks -/

/-- Thread `t` has got the block `b`, and still has those of `S`, with the bytes `m` in them. -/
def Got (t : Nat) (S : Set Block) (m : Mem) (b : Block) (locked : Bool) (x : World) : Prop :=
  b ∉ S ∧ ∃ m', (∀ b' ∈ S, Set.EqOn m' m b'.extent) ∧ At t (insert b S) m' locked x

theorem Got.stable : world.Stable (some t) (Got t S m b locked) :=
  (Stable.const _).and (.exists_ fun _ => (Stable.const _).and At.stable)

/-- **The result of an allocation** of `n` bytes: null, or a block for `n` bytes. -/
def Result (t : Nat) (S : Set Block) (m : Mem) (n : Nat) (r : Nat × Backend) (x : World) : Prop :=
  (r.1 = 0 ∧ At t S m false x) ∨ (r.1 ≠ 0 ∧ ∃ cap, Got t S m ⟨r.1, n, r.2, cap⟩ false x)

theorem Result.stable (r : Nat × Backend) : world.Stable (some t) (Result t S m n r) :=
  ((Stable.const _).and At.stable).or ((Stable.const _).and (.exists_ fun _ => Got.stable))

/-- Releasing the lock with a block in hand. -/
theorem spinUnlock_got : world.Triple fin (some t) (Got t S m b true) Proc.spinUnlock fun _ => Got t S m b false := by
  refine Triple.pure fun hb => Triple.exists_ fun m' => Triple.pure fun hm => ?_
  exact spinUnlock_triple.conseq (fun _ _ hat => hat) fun _ _ _ hat => ⟨hb, m', hm, hat⟩

/-- An act that makes a block. -/
theorem Shift.got {h' : Heap} {v' : View} (hx : x.Inv) (hat : At t S m locked x)
    (hs : Shift t x.conf ⟨h', v', b :: x.live⟩) (hinit : h'.arenaInit = x.heap.arenaInit)
    (hguard : locked = false → Guarded x.conf ⟨h', v', b :: x.live⟩) :
    world.Moves (some t) x (x.take t h' v' b) ∧ Got t S m b locked (x.take t h' v' b) := by
  obtain ⟨hmoves, hat', hbytes, hb⟩ := hs.take hx hat hinit hguard
  exact ⟨hmoves, hb, h'.os.bytes, hbytes, hat'⟩

/-! ## Draining a stack -/

/-- The nodes `ns` of a stack in the hands of a thread, linked from `head`, beside the blocks of `S`. -/
structure Detached (S : Set Block) (m : Mem) (head : Nat) (ns : List Block) (m' : Mem) : Prop where
  chain : Chain (read64 m') 0 head (ns.map Block.ptr)
  nodup : ns.Nodup
  out : ∀ b ∈ ns, b ∉ S
  slab : ∀ b ∈ ns, 8 ≤ b.cap ∧ ∃ c, b.via = .slab c
  bytes : ∀ b ∈ S, Set.EqOn m' m b.extent

/-- The blocks lie in pages of the cache of thread `t`. -/
def OwnSlots (t : Nat) (ns : List Block) (x : World) : Prop :=
  Cached t x ∧ ∀ b ∈ ns, InPageOf b.ptr (x.heap.caches (x.heap.tls t)).id x

theorem OwnSlots.stable {j : Option Nat} : world.Stable j (OwnSlots t ns) := by
  rintro x y hx hy hxy ⟨h0, hns⟩
  obtain ⟨htls, hid⟩ := hxy.caches t h0
  refine ⟨Cached.stable x y hx hy hxy h0, fun b hb => ?_⟩
  rw [htls, hid]
  exact InPageOf.stable x y hx hy hxy (hns b hb)

/-- A drain in progress: `head` is the next node of `k` that are left. -/
def Draining (t : Nat) (S : Set Block) (m : Mem) (k head : Nat) (x : World) : Prop :=
  ∃ ns m', (ns.length = k ∧ Detached S m head ns m') ∧ At t (S ∪ {b | b ∈ ns}) m' true x ∧ OwnSlots t ns x

theorem Draining.stable : world.Stable (some t) (Draining t S m k head) :=
  .exists_ fun _ => .exists_ fun _ => (Stable.const _).and (At.stable.and OwnSlots.stable)

/-- A slot has room for a link. -/
theorem Good.slab_cap (hg : Good h v l) (hb : b ∈ l) (hvia : b.via = .slab c) : 8 ≤ b.cap := by
  have ha := hg.arena (hg.init_of_via hb (by rw [hvia]; nofun))
  obtain ⟨i, j, hu, _, hcap, _⟩ := (hg.placed b hb).slabBlock hvia
  rw [hcap]
  exact (slots_of_lt (ha.slabs.inv.used_lt hu)).size_ge

/-- A link is read from the block's own bytes. -/
theorem link_eq (h8 : 8 ≤ b.cap) (hm : Set.EqOn m' m b.extent) : read64 m' b.ptr = read64 m b.ptr := by
  apply read64_eqOn
  apply hm.mono
  intro z hz
  exact ⟨hz.1, Nat.lt_of_lt_of_le hz.2 (Nat.add_le_add_left h8 _)⟩

theorem Heap.setCache_setCache (h : Heap) (p : Nat) (tc tc' : ThreadCache) :
    (h.setCache p tc).setCache p tc' = h.setCache p tc' := by
  unfold Heap.setCache
  simp only [Function.update_idem]

/-- **The swap**: node by node, the stack goes to the hands of the thread. -/
theorem unstack_all (k : Nat) : ∀ {x : World} {S : Set Block} {m : Mem}, x.Inv → At t S m true x →
    HasCache t p x → (x.view.stack p).length = k →
    ∃ z ns m', world.Moves (some t) x z ∧
      z.shared = x.shared.setCache p { x.heap.caches p with remoteFrees := 0 } ∧
      HasCache t p z ∧ z.heap.arenaInit = x.heap.arenaInit ∧ z.view.arena = x.view.arena ∧
      Detached S m (x.heap.remote p) ns m' ∧ At t (S ∪ {b | b ∈ ns}) m' true z ∧ OwnSlots t ns z := by
  induction k with
  | zero =>
    intro x S m hx hat hcache hlen
    have ha := hx.good.arena (hcache.init hx)
    have h0 : x.heap.remote p = 0 := by
      have hchain := (ha.slabs.stack p).chain
      rw [List.eq_nil_of_length_eq_zero hlen] at hchain
      exact hchain
    refine ⟨x, [], m, .refl hx, ?_, hcache, rfl, rfl,
      ⟨h0, .nil, nofun, nofun, fun _ _ => Set.eqOn_refl _ _⟩, ?_, hcache.cached, nofun⟩
    · have hsame : ({ x.heap.caches p with remoteFrees := 0 } : ThreadCache) = x.heap.caches p := by
        rw [← h0]
        rfl
      rw [hsame]
      show x.shared = { x.shared with caches := Function.update x.shared.caches p (x.shared.caches p) }
      rw [Function.update_eq_self]
    · have hempty : S ∪ {b | b ∈ ([] : List Block)} = S := by
        ext b
        simp
      rw [hempty]
      exact hat
  | succ k ih =>
    intro x S m hx hat hcache hlen
    have hinit := hcache.init hx
    have ha := hx.good.arena hinit
    have h0 : x.heap.remote p ≠ 0 := by
      intro h0
      have hnil := (ha.slabs.stack p).chain.eq_nil_iff.mpr h0
      rw [hnil] at hlen
      nomatch hlen
    -- the top node comes off, in a step that other threads cannot tell from none
    obtain ⟨rest, hstack, _, _⟩ := (ha.slabs.stack p).tail h0
    obtain ⟨b, c, hptr, hvia, hshift⟩ := hx.good.unstack (t := t) hinit (hcache.made hx) h0
    obtain ⟨hmoves, hat₁, hbytes, hb⟩ := hshift.take hx hat rfl nofun
    obtain ⟨z₁, hz₁⟩ : ∃ z, z = x.take t (x.heap.unstack p) (x.view.unstack p (x.heap.remote p)) b := ⟨_, rfl⟩
    rw [← hz₁] at hmoves hat₁
    have hlen₁ : (z₁.view.stack p).length = k := by
      rw [hz₁]
      show (Function.update x.view.stack p (x.view.stack p).tail p).length = k
      rw [Function.update_self, hstack]
      rw [hstack] at hlen
      exact Nat.succ.inj hlen
    have hcache₁ : HasCache t p z₁ := by
      rw [hz₁]
      exact hcache
    obtain ⟨z, ns, m', hmoves', hshared, hcache', hinit', harena', hdet, hat', hns⟩ :=
      ih hmoves.inv hat₁ hcache₁ hlen₁
    -- the node lies in a page of the cache, before and after
    have hpage : InPageOf b.ptr (x.heap.caches p).id x := by
      rw [hptr]
      exact ⟨hinit, hx.owned.top ha h0⟩
    have hown : OwnSlots t [b] x := by
      refine ⟨hcache.cached, fun b' hb' => ?_⟩
      rw [List.mem_singleton.mp hb', hcache.2]
      exact hpage
    have hown' := (lasting fun _ => OwnSlots.stable).own x z hx (hmoves.trans hmoves') hown
    -- its link is the next head
    have hremote : z₁.heap.remote p = read64 x.heap.os.bytes b.ptr := by
      rw [hz₁, hptr]
      show (Function.update x.heap.caches p _ p).remoteFrees = _
      rw [Function.update_self]
    have h8 : 8 ≤ b.cap := hshift.kept.good.slab_cap List.mem_cons_self hvia
    have hset : S ∪ {b' | b' ∈ b :: ns} = insert b S ∪ {b' | b' ∈ ns} := by
      ext b'
      simp only [Set.mem_union, Set.mem_ofPred_eq, List.mem_cons, Set.mem_insert_iff]
      tauto
    refine ⟨z, b :: ns, m', hmoves.trans hmoves', ?_, hcache', ?_, ?_, ⟨⟨?_, ?_, ?_⟩, ?_, ?_, ?_, ?_⟩, ?_, hns.1,
      List.forall_mem_cons.mpr ⟨hown'.2 b List.mem_cons_self, hns.2⟩⟩
    · rw [hshared, hz₁]
      have hcaches : (x.heap.unstack p).caches p =
          { x.heap.caches p with remoteFrees := read64 x.heap.os.bytes (x.heap.remote p) } :=
        Function.update_self ..
      show (x.shared.unstack p).setCache p { (x.heap.unstack p).caches p with remoteFrees := 0 } = _
      rw [hcaches]
      exact Heap.setCache_setCache _ _ _ _
    · rw [hinit', hz₁]
      rfl
    · rw [harena', hz₁]
      rfl
    · exact hptr.symm
    · rw [hptr]
      exact h0
    · have hlink : read64 m' b.ptr = read64 x.heap.os.bytes b.ptr :=
        link_eq h8 (hdet.bytes b (Set.mem_insert b S))
      have hchain := hdet.chain
      rw [hremote] at hchain
      rw [hlink]
      exact hchain
    · exact List.nodup_cons.mpr ⟨fun hmem => hdet.out b hmem (Set.mem_insert b S), hdet.nodup⟩
    · intro b' hb'
      rcases List.mem_cons.mp hb' with rfl | hb'
      · exact hb
      · exact fun hS => hdet.out b' hb' (Set.mem_insert_of_mem b hS)
    · intro b' hb'
      rcases List.mem_cons.mp hb' with rfl | hb'
      · exact ⟨h8, c, hvia⟩
      · exact hdet.slab b' hb'
    · exact fun b' hb' => (hdet.bytes b' (Set.mem_insert_of_mem b hb')).trans (hbytes b' hb')
    · rw [hset]
      exact hat'

/-- `swap`. -/
theorem swapRemote_triple :
    world.Triple fin (some t) (fun x => (At t S m true x ∧ HasCache t p x) ∧ ArenaIs a x) (Proc.swapRemote p)
      fun head x => ∃ k, (HasCache t p x ∧ ArenaIs a x) ∧ Draining t S m k head x := by
  refine Does.triple ((At.stable.and HasCache.stable).and ArenaIs.stable)
    (fun _ => .exists_ fun _ => (HasCache.stable.and ArenaIs.stable).and Draining.stable) ?_
  rintro x hx ⟨⟨hat, hcache⟩, hinit, rfl⟩
  obtain ⟨z, ns, m', hmoves, hshared, hcache', hinit', harena', hdet, hat', hns⟩ :=
    unstack_all _ hx hat hcache rfl
  refine .inr ⟨z, x.heap.remote p, ?_, hmoves, ns.length, ⟨hcache', hinit'.trans hinit, harena'⟩, ns, m',
    ⟨rfl, hdet⟩, hat', hns⟩
  rw [hshared]
  rfl

/-- **A slot of its own pages** goes back to the slab of the thread's cache. -/
theorem InPageOf.put (hx : x.Inv) (hcache : HasCache t p x) (hmem : b ∈ x.live) (hvia : b.via = .slab c)
    (hpage : InPageOf b.ptr (x.heap.caches p).id x) :
    ∃ i j s m₁, x.view.arena.ptrToPageIndex b.ptr = i ∧ b.ptr = x.view.arena.slotAddr i c j ∧
      (x.heap.caches p).slab.freeNoArena x.heap.os.bytes b.ptr (x.view.arena.metaPtr i) = .ok (s, m₁) ∧
      Puts x.heap x.view (some p) c i j s m₁ ∧
      Act t True Nowhere x.conf ⟨x.heap.setSlab (some p) s m₁, x.view.put (some p) c i j, x.live.erase b⟩ := by
  obtain ⟨hinit, _, howner⟩ := hpage
  have ha := hx.good.arena hinit
  obtain ⟨i, j, hu, hptr, _⟩ := (hx.good.placed b hmem).slabBlock hvia
  have hindex : x.view.arena.ptrToPageIndex b.ptr = i := by
    rw [hptr]
    exact (ha.slab_inPage hu).index
  rw [hindex] at howner
  obtain ⟨s, m₁, hrun, hinv, hbytes⟩ := ha.slabs.inv.freeNoArena_spec hu (some p)
  have hputs : Puts x.heap x.view (some p) c i j s m₁ :=
    ⟨hinit, fun q hq => Option.some.inj hq ▸ hcache.made hx, hu, hinv, hbytes⟩
  rw [← hptr] at hrun
  refine ⟨i, j, s, m₁, hindex, hptr, hrun, hputs, .put hputs hmem hvia hptr (fun q hq => ?_) nofun⟩
  obtain rfl := Option.some.inj hq
  exact ⟨hcache.2, howner⟩

/-- A node goes to the slab of the cache. -/
theorem drainFree_does (hdet : Detached S m head (b :: ns) m') :
    Does t (fun x => (HasCache t p x ∧ ArenaIs a x) ∧ At t (S ∪ {b' | b' ∈ b :: ns}) m' true x ∧ OwnSlots t (b :: ns) x)
      (fun h => do
        let r ← (h.caches p).slab.free h.os.bytes head a
        return (h.setCacheSlab p r.1 r.2, (Sum.inl (read64 m' b.ptr) : Nat ⊕ Unit)))
      fun r x => r = .inl (read64 m' b.ptr) ∧ (HasCache t p x ∧ ArenaIs a x) ∧
        Draining t S m ns.length (read64 m' b.ptr) x := by
  rintro x hx ⟨⟨hcache, hinit, rfl⟩, hat, hown⟩
  obtain ⟨hhead, _, hchain⟩ := hdet.chain
  obtain ⟨c, hvia⟩ := (hdet.slab b List.mem_cons_self).2
  have ha := hx.good.arena hinit
  have hb : b ∈ S ∪ {b' | b' ∈ b :: ns} := .inr List.mem_cons_self
  have hpage := hown.2 b List.mem_cons_self
  rw [hcache.2] at hpage
  obtain ⟨i, j, s, m₁, _, hptr, hrun, hputs, hact⟩ := hpage.put hx hcache (hat.mem hb) hvia
  -- on a slot of the arena `free` does what `free_no_arena` does
  have hfree : (x.heap.caches p).slab.free x.heap.os.bytes head x.view.arena = .ok (s, m₁) := by
    rw [hhead]
    show (x.heap.caches p).slab.free x.heap.os.bytes b.ptr x.view.arena = .ok (s, m₁)
    rw [hptr] at hrun ⊢
    exact (ha.slabs.inv.free_spec hputs.used (some p)).trans hrun
  have hshift := hact.shift hx.good
  obtain ⟨hmoves, hat'⟩ := hshift.give hx hat hb rfl nofun
  obtain ⟨hnot, hnd⟩ := List.nodup_cons.mp hdet.nodup
  have hset : (S ∪ {b' | b' ∈ b :: ns}) \ {b} = S ∪ {b' | b' ∈ ns} := by
    ext b'
    simp only [Set.mem_sdiff, Set.mem_union, Set.mem_ofPred_eq, List.mem_cons, Set.mem_singleton_iff]
    constructor
    · rintro ⟨hS | rfl | hns, hne⟩
      · exact .inl hS
      · exact absurd rfl hne
      · exact .inr hns
    · rintro (hS | hns)
      · exact ⟨.inl hS, fun heq => hdet.out b List.mem_cons_self (heq ▸ hS)⟩
      · exact ⟨.inr (.inr hns), fun heq => hnot (heq ▸ hns)⟩
  rw [hset] at hat'
  have hown' := (lasting fun _ => OwnSlots.stable).own _ _ hx hmoves hown
  refine .inr ⟨_, _, ?_, hmoves, rfl, ⟨hcache, hinit, rfl⟩, ns, m', ⟨rfl, hchain, hnd, ?_, ?_, hdet.bytes⟩, hat',
    hown'.1, fun b' hb' => hown'.2 b' (List.mem_cons_of_mem _ hb')⟩
  · have hfree' : (x.shared.caches p).slab.free x.shared.os.bytes head x.view.arena = .ok (s, m₁) := hfree
    simp only [hfree', Exec.bind_ok, Exec.pure_eq]
    rfl
  · exact fun b' hb' => hdet.out b' (List.mem_cons_of_mem _ hb')
  · exact fun b' hb' => hdet.slab b' (List.mem_cons_of_mem _ hb')

/-- **One round of the drain loop.** -/
theorem drainNode_triple (k head : Nat) :
    world.Triple fin (some t) (fun x => (HasCache t p x ∧ ArenaIs a x) ∧ Draining t S m k head x)
      (Proc.drainNode p a head)
      fun r x => Sum.elim (fun head => ∃ k' < k, (HasCache t p x ∧ ArenaIs a x) ∧ Draining t S m k' head x)
        (fun _ => At t S m true x ∧ HasCache t p x) r := by
  have hstable : ∀ k head, world.Stable (some t)
      fun x => (HasCache t p x ∧ ArenaIs a x) ∧ Draining t S m k head x :=
    fun _ _ => (HasCache.stable.and ArenaIs.stable).and Draining.stable
  unfold Proc.drainNode
  by_cases h0 : head = 0
  · rw [if_pos h0]
    refine ret_triple (hstable k head) ?_
    rintro x _ ⟨⟨hcache, _⟩, ns, m', ⟨_, hdet⟩, hat, _⟩
    -- no node is left
    obtain rfl : ns = [] := List.map_eq_nil_iff.mp (hdet.chain.eq_nil_iff.mpr h0)
    refine ⟨⟨fun b => (hat.mine b).trans ?_, fun b hb => ?_, hat.lock, hat.agree⟩, hcache⟩
    · simp
    · exact (hat.bytes b (.inl hb)).trans (hdet.bytes b hb)
  · rw [if_neg h0]
    have hready : world.Stable (some t) fun x : World => HasCache t p x ∧ ArenaIs a x :=
      HasCache.stable.and ArenaIs.stable
    -- the first node, from now on
    refine Triple.conseq (P := fun x => ∃ b ns m', (ns.length < k ∧ Detached S m head (b :: ns) m') ∧
      (HasCache t p x ∧ ArenaIs a x) ∧ At t (S ∪ {b' | b' ∈ b :: ns}) m' true x ∧ OwnSlots t (b :: ns) x)
      (.exists_ fun b => .exists_ fun ns => .exists_ fun m' => .pure fun hdet => ?_) ?_ fun _ _ _ h => h
    · obtain ⟨hlen, hdet⟩ := hdet
      have hnodes : world.Stable (some t) fun x : World => (HasCache t p x ∧ ArenaIs a x) ∧
          At t (S ∪ {b' | b' ∈ b :: ns}) m' true x ∧ OwnSlots t (b :: ns) x :=
        hready.and (At.stable.and OwnSlots.stable)
      refine (load_triple (Q := fun next x => next = read64 m' b.ptr ∧ (HasCache t p x ∧ ArenaIs a x) ∧
        At t (S ∪ {b' | b' ∈ b :: ns}) m' true x ∧ OwnSlots t (b :: ns) x) hnodes
        (fun _ => (Stable.const _).and hnodes) fun x _ hP => ⟨?_, hP⟩).bind fun next =>
          .pure fun hnext => ?_
      · -- nobody has written into the node since the swap
        obtain rfl : head = b.ptr := hdet.chain.1
        exact link_eq (hdet.slab b List.mem_cons_self).1 (hP.2.1.bytes b (.inr List.mem_cons_self))
      · subst hnext
        refine Triple.conseq (Does.triple hnodes
          (fun _ => (Stable.const _).and (hready.and Draining.stable)) (drainFree_does hdet))
          (fun _ _ hP => hP) fun r x _ hQ => ?_
        obtain ⟨rfl, hQ⟩ := hQ
        exact ⟨ns.length, hlen, hQ⟩
    · rintro x _ ⟨hP, ns, m', ⟨hlen, hdet⟩, hat, hown⟩
      cases ns with
      | nil => exact absurd (hdet.chain.eq_nil_iff.mp rfl) h0
      | cons b ns => exact ⟨b, ns, m', ⟨hlen ▸ Nat.lt_succ_self _, hdet⟩, hP, hat, hown⟩

/-- **The drain before an allocation**, while other threads push. -/
theorem drainCache_triple :
    world.Triple fin (some t) (fun x => At t S m false x ∧ HasCache t p x) (Proc.drainCache p)
      fun _ x => At t S m false x ∧ HasCache t p x := by
  have hstable : ∀ lk, world.Stable (some t) fun x => At t S m lk x ∧ HasCache t p x :=
    fun _ => At.stable.and HasCache.stable
  refine (load_triple (hstable false) (fun _ => hstable false) fun _ _ hP => hP).bind fun head => ?_
  by_cases h0 : head = 0
  · rw [if_pos h0]
    exact skip_triple (hstable false)
  · rw [if_neg h0]
    refine (spinLock_frame HasCache.stable fun _ _ h => h).bind fun _ => ?_
    refine (derefArena_triple (hstable true)).bind fun a => ?_
    refine Triple.bind ?_ fun _ => spinUnlock_frame HasCache.stable fun _ _ h => h
    refine swapRemote_triple.bind fun head => .exists_ fun k => ?_
    exact .count (J := fun k head x => (HasCache t p x ∧ ArenaIs a x) ∧ Draining t S m k head x) k head
      (fun _ _ => (HasCache.stable.and ArenaIs.stable).and Draining.stable) (fun _ => hstable true)
      drainNode_triple

/-! ## A slot from the cache -/

/-- The list of the cache has a page of class `c`. -/
def HasPage (t p c : Nat) (x : World) : Prop := HasCache t p x ∧ x.view.g.parts (some p, c) ≠ []

/-- Nobody else takes the pages of a cache away. -/
theorem HasPage.stable : world.Stable (some t) (HasPage t p c) := by
  rintro x y hx hy hxy ⟨⟨h0, rfl⟩, hl⟩
  refine ⟨HasCache.stable x y hx hy hxy ⟨h0, rfl⟩, ?_⟩
  rw [hxy.parts t c rfl h0]
  exact hl

/-- The result of the slab: null, or a slot for `n` bytes. -/
def Slot (t : Nat) (S : Set Block) (m : Mem) (n c : Nat) (locked : Bool) (q : Nat) (x : World) : Prop :=
  (q = 0 ∧ At t S m locked x) ∨ (q ≠ 0 ∧ Got t S m ⟨q, n, .slab c, slotSize c⟩ locked x)

theorem Slot.stable : world.Stable (some t) (Slot t S m n c locked q) :=
  ((Stable.const _).and At.stable).or ((Stable.const _).and Got.stable)

/-- A slot is served. -/
theorem Serves.slot {g : Ghost (Option Nat)} {i j : Nat} {s : SlabAllocator} (hx : x.Inv)
    (hat : At t S m locked x) (hcache : HasCache t p x) (hn : sizeToClass n = some c)
    (hs : Serves x.heap x.view p c i j s m' g)
    (hl : locked = false → x.view.g.parts (some p, c) ≠ []) :
    ∃ z, z.shared = x.shared.setCacheSlab p s m' ∧ world.Moves (some t) x z ∧
      Slot t S m n c locked (x.view.arena.slotAddr i c j) z := by
  have ha := hx.good.arena hs.init
  have hact : Act t True Nowhere x.conf _ := .serve hs hcache.2 hn
  obtain ⟨hmoves, hgot⟩ := (hact.shift hx.good).got hx hat rfl fun h => hs.guarded ha (hl h) _ _
  exact ⟨_, rfl, hmoves, .inr ⟨ha.slotAddr_ne i c j, hgot⟩⟩

/-- `alloc` of the slab, under the lock. -/
theorem slabAlloc_does (hn : sizeToClass n = some c) :
    Does t (fun x => (At t S m true x ∧ HasCache t p x) ∧ ArenaIs a x)
      (fun h => do
        let r ← (h.caches p).slab.alloc h.os.bytes c a (h.caches p).id
        return (h.setCacheSlab p r.1 r.2.1, r.2.2))
      fun q x => Slot t S m n c true q x := by
  rintro x hx ⟨⟨hat, hcache⟩, hinit, rfl⟩
  have ha := hx.good.arena hinit
  have hmade := hcache.made hx
  have hc := (sizeToClass_spec hn).1
  have hid := (hx.good.threads.id p hmade).2.1
  right
  rcases ha.slabs.inv.alloc_spec hc (o := (x.heap.caches p).id) (by unfold maxThreads at hid; omega) (some p)
    with ⟨_, _, hrun⟩ | ⟨s, m', g, i, j, hrun, hroom, hserved, hinv, hbytes⟩
  · have hrun' : (x.shared.caches p).slab.alloc x.shared.os.bytes c x.view.arena (x.shared.caches p).id =
        .ok ((x.heap.caches p).slab, x.heap.os.bytes, 0) := hrun
    have hsame : x.shared.setCacheSlab p (x.heap.caches p).slab x.heap.os.bytes = x.shared := by
      show { x.shared with caches := Function.update x.shared.caches p (x.shared.caches p) } = x.shared
      rw [Function.update_eq_self]
    refine ⟨x, 0, ?_, .refl hx, .inl ⟨rfl, hat⟩⟩
    simp only [hrun', Exec.bind_ok, Exec.pure_eq, hsame]
  · have hrun' : (x.shared.caches p).slab.alloc x.shared.os.bytes c x.view.arena (x.shared.caches p).id =
        .ok (s, m', x.view.arena.slotAddr i c j) := hrun
    obtain ⟨z, hz, hmoves, hslot⟩ := Serves.slot hx hat hcache hn
      ⟨hinit, hmade, hc, hroom, hserved, hinv, hbytes⟩ nofun
    refine ⟨z, _, ?_, hmoves, hslot⟩
    simp only [hrun', Exec.bind_ok, Exec.pure_eq, hz]

/-- `alloc_no_arena` of the slab, without the lock. -/
theorem slabAllocNoArena_does (hn : sizeToClass n = some c) :
    Does t (fun x => At t S m false x ∧ HasPage t p c x)
      (fun h => do
        let r ← (h.caches p).slab.allocNoArena h.os.bytes c
        return (h.setCacheSlab p r.1 r.2.1, r.2.2))
      fun q x => Slot t S m n c false q x := by
  rintro x hx ⟨hat, hcache, hl⟩
  have hinit := hcache.init hx
  have ha := hx.good.arena hinit
  have hc := (sizeToClass_spec hn).1
  right
  obtain ⟨s, m', g, i, j, hrun, hserved, hinv, hbytes⟩ :=
    ha.slabs.inv.allocNoArena_spec hc (some p) (x.heap.caches p).id hl
  have hrun' : (x.shared.caches p).slab.allocNoArena x.shared.os.bytes c =
      .ok (s, m', x.view.arena.slotAddr i c j) := hrun
  obtain ⟨z, hz, hmoves, hslot⟩ := Serves.slot hx hat hcache hn
    ⟨hinit, hcache.made hx, hc, .inr hl, hserved, hinv, hbytes⟩ fun _ => hl
  refine ⟨z, _, ?_, hmoves, hslot⟩
  simp only [hrun', Exec.bind_ok, Exec.pure_eq, hz]

/-- Releasing the lock behind the slab. -/
theorem spinUnlock_slot :
    world.Triple fin (some t) (Slot t S m n c true q) Proc.spinUnlock fun _ => Slot t S m n c false q := by
  refine Triple.or (.pure fun h0 => ?_) (.pure fun h0 => ?_)
  · exact spinUnlock_triple.conseq (fun _ _ h => h) fun _ _ _ hat => .inl ⟨h0, hat⟩
  · exact spinUnlock_got.conseq (fun _ _ h => h) fun _ _ _ hgot => .inr ⟨h0, hgot⟩

/-- **The slab allocation through a cache.** What was peeked without the lock still holds when the slot is
taken. -/
theorem cacheAlloc_triple (hn : sizeToClass n = some c) :
    world.Triple fin (some t) (fun x => At t S m false x ∧ HasCache t p x) (Proc.cacheAlloc p c)
      fun q x => Slot t S m n c false q x := by
  have hstable : ∀ lk, world.Stable (some t) fun x => At t S m lk x ∧ HasCache t p x :=
    fun _ => At.stable.and HasCache.stable
  have hpeek : Does t (fun x => At t S m false x ∧ HasCache t p x)
      (fun h => do
        let needsPage ← (h.caches p).slab.allocNeedsPage c
        return (h, needsPage))
      fun b x => (At t S m false x ∧ HasCache t p x) ∧ (b = false → HasPage t p c x) := by
    rintro x hx ⟨hat, hcache⟩
    have ha := hx.good.arena (hcache.init hx)
    have hneeds : (x.shared.caches p).slab.allocNeedsPage c =
        .ok (decide (x.view.g.parts (some p, c) = [])) :=
      ha.slabs.inv.allocNeedsPage_spec (sizeToClass_spec hn).1 (some p)
    refine .inr ⟨x, _, ?_, .refl hx, ⟨hat, hcache⟩, fun hb => ⟨hcache, of_decide_eq_false hb⟩⟩
    simp only [hneeds, Exec.bind_ok, Exec.pure_eq]
  refine (hpeek.triple (hstable false) fun b => (hstable false).and HasPage.stable.imp).bind fun b => ?_
  cases b with
  | true =>
    refine (spinLock_frame HasCache.stable fun _ _ h => h).conseq (fun _ _ hP => hP.1) (fun _ _ _ h => h)
      |>.bind fun _ => ?_
    refine (derefArena_triple (hstable true)).bind fun a => ?_
    refine ((slabAlloc_does hn).triple ((hstable true).and ArenaIs.stable) fun _ => Slot.stable).bind
      fun q => ?_
    exact spinUnlock_slot.bind fun _ => ret_triple Slot.stable fun _ _ hslot => hslot
  | false =>
    exact ((slabAllocNoArena_does hn).triple (At.stable.and HasPage.stable) fun _ => Slot.stable).conseq
      (fun _ _ hP => ⟨hP.1.1, hP.2 rfl⟩) fun _ _ _ h => h

/-- **Small requests.** -/
theorem mallocSmall_triple (hn : n ≤ slabMaxSize) (answer : Option Nat) :
    world.Triple fin (some t) (At t S m false) (Proc.mallocSmall t n answer) (Result t S m n) := by
  have hc := sizeToClass_of_le hn
  unfold Proc.mallocSmall
  rw [hc]
  refine (getOrCreate_triple answer).bind fun o => ?_
  cases o with
  | none => exact ret_triple (CacheOf.stable _) fun _ _ hP => .inl ⟨rfl, hP.1⟩
  | some p =>
    refine Triple.bind (drainCache_triple.conseq (fun _ _ hP => ⟨hP.1, hP.2 p rfl⟩) fun _ _ _ h => h)
      fun _ => (cacheAlloc_triple hc).bind fun q => ret_triple Slot.stable fun _ _ hslot => ?_
    exact hslot.imp id fun h => ⟨h.1, _, h.2⟩

/-! ## The slow path -/

/-- The pool refuses, or gives a block. -/
theorem tlsfAlloc_does (hpos : 0 < n) (hlt : n < hugeAllocThreshold) :
    Does t (fun x => At t S m true x ∧ ArenaIs a x) (fun h => tlsfAlloc h n)
      fun q x => (q = 0 ∧ At t S m true x ∧ ArenaIs a x) ∨
        (q ≠ 0 ∧ ∃ cap, Got t S m ⟨q, n, .tlsf, cap⟩ true x) := by
  rintro x hx ⟨hat, hinit, rfl⟩
  have ha := hx.good.arena hinit
  have hlt' : n < 262144 := hlt
  have hn : n ≤ usizeMax - 16 := by
    unfold usizeMax
    omega
  have htlsf : x.shared.globalTlsf = some x.view.tlsf := ha.tlsf
  right
  unfold tlsfAlloc
  simp only [htlsf]
  rcases Tlsf.alloc_spec ha.pool.inv hpos hn with ⟨hrun, _⟩ | ⟨tlsf, m', bs, L, q, hrun, hal⟩
  · have hrun' : Tlsf.alloc x.view.tlsf x.shared.os.bytes n = .ok (x.view.tlsf, x.heap.os.bytes, 0) := hrun
    have hsame : { x.shared.setBytes x.heap.os.bytes with globalTlsf := some x.view.tlsf } = x.shared := by
      rw [← htlsf]
      rfl
    refine ⟨x, 0, ?_, .refl hx, .inl ⟨rfl, hat, hinit, rfl⟩⟩
    simp only [hrun', Exec.bind_ok, Exec.pure_eq, hsame]
  · have hrun' : Tlsf.alloc x.view.tlsf x.shared.os.bytes n = .ok (tlsf, m', q) := hrun
    have hq : q ≠ 0 := by
      obtain ⟨w, _, hqw, _⟩ := hal.carve.used
      omega
    have hact : Act t True Nowhere x.conf _ := .carve hinit hn hal
    obtain ⟨hmoves, hgot⟩ := (hact.shift hx.good).got hx hat rfl nofun
    refine ⟨_, q, ?_, hmoves, .inr ⟨hq, _, hgot⟩⟩
    simp only [hrun', Exec.bind_ok, Exec.pure_eq]
    rfl

/-- The page counter refuses, or issues pages. -/
theorem arenaAlloc_does (hpos : 0 < n) (hlt : n < hugeAllocThreshold) :
    Does t (fun x => At t S m true x ∧ ArenaIs a x)
      (fun h => .ok (h.setBytes (a.alloc h.os.bytes n).1, (a.alloc h.os.bytes n).2))
      fun q x => (q = 0 ∧ At t S m true x) ∨ (q ≠ 0 ∧ ∃ cap, Got t S m ⟨q, n, .bump, cap⟩ true x) := by
  rintro x hx ⟨hat, hinit, rfl⟩
  have ha := hx.good.arena hinit
  have hlt' : n < 262144 := hlt
  have hneeded := Arena.pagesNeeded_eq hpos (by unfold pageSize; omega)
  right
  rcases Arena.alloc_spec x.view.arena x.heap.os.bytes n with
    ⟨hnull, _⟩ | ⟨m', _, hroom, hissue, hnext, _, hout⟩
  · have hnull' : x.view.arena.alloc x.shared.os.bytes n = (x.heap.os.bytes, 0) := hnull
    refine ⟨x, 0, ?_, .refl hx, .inl ⟨rfl, hat⟩⟩
    simp only [hnull']
    rfl
  · have hissue' : x.view.arena.alloc x.shared.os.bytes n =
        (m', x.view.arena.pageAddr (x.view.arena.nextFreePage x.heap.os.bytes)) := hissue
    rw [hneeded] at hroom hnext
    have hact : Act t True Nowhere x.conf _ := .issue ⟨hinit, hpos, hlt, hissue, hroom, hnext, hout⟩
    obtain ⟨hmoves, hgot⟩ := (hact.shift hx.good).got hx hat rfl nofun
    have hbase := ha.slabs.inv.arena.pos
    have hpage := Arena.pageAddr_eq x.view.arena (x.view.arena.nextFreePage x.heap.os.bytes)
    refine ⟨_, _, ?_, hmoves, .inr ⟨by omega, _, hgot⟩⟩
    simp only [hissue']
    rfl

/-- Releasing the lock behind the pool or the page counter. -/
theorem spinUnlock_result {via : Backend} :
    world.Triple fin (some t) (fun x => ∃ cap, Got t S m ⟨q, n, via, cap⟩ true x) Proc.spinUnlock
      fun _ x => ∃ cap, Got t S m ⟨q, n, via, cap⟩ false x :=
  Triple.exists_ fun cap => spinUnlock_got.conseq (fun _ _ h => h) fun _ _ _ hgot => ⟨cap, hgot⟩

/-- **The slow path.** -/
theorem mallocSlow_triple (hpos : 0 < n) (hlt : n < hugeAllocThreshold) :
    world.Triple fin (some t) (At t S m false) (Proc.mallocSlow n) (Result t S m n) := by
  have hgot : ∀ (q : Nat) (via : Backend), world.Stable (some t)
      fun x => ∃ cap, Got t S m ⟨q, n, via, cap⟩ true x := fun _ _ => .exists_ fun _ => Got.stable
  refine spinLock_triple.bind fun _ => (derefArena_triple At.stable).bind fun a => ?_
  refine ((tlsfAlloc_does hpos hlt).triple (At.stable.and ArenaIs.stable) fun q =>
    ((Stable.const _).and (At.stable.and ArenaIs.stable)).or ((Stable.const _).and (hgot q .tlsf))).bind
    fun q => Triple.or (.pure fun h0 => ?_) (.pure fun h0 => ?_)
  · -- the pool has no block
    rw [if_neg (not_not.mpr h0)]
    refine ((arenaAlloc_does hpos hlt).triple (At.stable.and ArenaIs.stable) fun q =>
      ((Stable.const _).and At.stable).or ((Stable.const _).and (hgot q .bump))).bind
      fun q => Triple.or (.pure fun h0 => ?_) (.pure fun h0 => ?_)
    · exact spinUnlock_triple.bind fun _ => ret_triple At.stable fun _ _ hat => .inl ⟨h0, hat⟩
    · exact spinUnlock_result.bind fun _ => ret_triple (.exists_ fun _ => Got.stable) fun _ _ h => .inr ⟨h0, h⟩
  · rw [if_pos h0]
    exact spinUnlock_result.bind fun _ => ret_triple (.exists_ fun _ => Got.stable) fun _ _ h => .inr ⟨h0, h⟩

/-! ## `ferrum_malloc` -/

/-- **`huge_alloc`.** -/
theorem hugeAlloc_triple (n : Nat) (answer : Option Nat) :
    world.Triple fin (some t) (At t S m false) (Proc.hugeAlloc n answer) (Result t S m n) := by
  refine Does.triple At.stable Result.stable fun x hx hat => .inr ?_
  have hsame : heapHugeAlloc x.shared n answer =
      ({ (heapHugeAlloc x.heap n answer).1 with arenaLock := x.owner.isSome, arenaInit := x.init },
        (heapHugeAlloc x.heap n answer).2) := rfl
  rw [hsame]
  rcases heapHugeAlloc_spec x.heap n answer with ⟨hrun, _⟩ | ⟨base, os, _, hmap, hrun⟩
  · rw [hrun]
    exact ⟨x, (0, .huge), rfl, .refl hx, .inl ⟨rfl, hat⟩⟩
  · rw [hrun]
    have hact : Act t True Nowhere x.conf _ := .map hmap
    obtain ⟨hmoves, hgot⟩ := (hact.shift hx.good).got hx hat rfl fun _ => hx.good.guarded_map hmap _
    exact ⟨_, (base + 4096, .huge), rfl, hmoves, .inr ⟨Nat.succ_ne_zero _, _, hgot⟩⟩

/-- **`ferrum_malloc`**, whatever other threads do meanwhile. -/
theorem ferrumMalloc_triple (n : Nat) (ans : Answers) :
    world.Triple fin (some t) (At t S m false) (Proc.ferrumMalloc t n ans) (Result t S m n) := by
  unfold Proc.ferrumMalloc
  by_cases h0 : n = 0
  · rw [if_pos h0]
    exact ret_triple At.stable fun _ _ hat => .inl ⟨rfl, hat⟩
  · rw [if_neg h0]
    have hpos : 0 < n := Nat.pos_of_ne_zero h0
    refine (ensureInit_triple ans.arena).bind fun _ => ?_
    by_cases hhuge : n ≥ hugeAllocThreshold
    · rw [if_pos hhuge]
      exact hugeAlloc_triple n ans.huge
    · rw [if_neg hhuge]
      have hsmall : world.Triple fin (some t) (At t S m false)
          (Proc.trySmall t n ans.cache) (Result t S m n) := by
        unfold Proc.trySmall
        by_cases hle : n ≤ slabMaxSize
        · rw [if_pos hle]
          exact mallocSmall_triple hle ans.cache
        · rw [if_neg hle]
          exact ret_triple At.stable fun _ _ hat => .inl ⟨rfl, hat⟩
      refine hsmall.bind fun r => Triple.or (.pure fun hr => ?_) (.pure fun hr => ?_)
      · rw [if_neg (not_not.mpr hr)]
        exact mallocSlow_triple hpos (Nat.lt_of_not_le hhuge)
      · rw [if_pos hr]
        exact ret_triple (.exists_ fun _ => Got.stable) fun _ _ h => .inr ⟨hr, h⟩

end FerrumAlloc
