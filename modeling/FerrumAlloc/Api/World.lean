/-
# FerrumAlloc.Api.World -- the heap while calls are in progress

Between two steps of a call the heap is almost as it is between calls: the lock may be held, and `ARENA_INIT`
may lag behind the globals. A `World` is such a heap, with its view, the live blocks, and two facts that no
program sees: which thread holds the lock, and which thread's call works on which block. A block freed is
live until the step that frees it, and a block allocated is live from the step that has reserved it.

`Rely j` is what `j` can count on, whatever the other threads do: its own blocks stay with their bytes, its
cache keeps its page lists, and while it holds the lock, nothing that the lock guards changes. As long as no two
caches have one identifier, nobody touches the pages of its cache. Here `j` is a thread, or `none` for the
clients together. `world` is the discipline made of these; `Shift.moves` shows that an act keeps it.
-/
import FerrumAlloc.Api.Shift
import FerrumAlloc.Api.Programs

namespace FerrumAlloc

open Lib
open Tlsf (TlsfAllocator Blk ownBytes)

/-- **What the lock guards** is the same: the arena and its page counter, the global slab, the pool. -/
structure Guarded (c c' : Conf) : Prop where
  init : c'.heap.arenaInit = c.heap.arenaInit
  slab : c'.heap.globalSlab = c.heap.globalSlab
  tlsf : c'.heap.globalTlsf = c.heap.globalTlsf
  arena : c'.view.arena = c.view.arena
  start : c'.view.tlsf.poolStart = c.view.tlsf.poolStart
  blocks : c'.view.bs = c.view.bs
  lists : c'.view.L = c.view.L
  next : c.heap.arenaInit = true →
    c.view.arena.nextFreePage c'.heap.os.bytes = c.view.arena.nextFreePage c.heap.os.bytes
  pool : c.heap.arenaInit = true →
    Set.EqOn c'.heap.os.bytes c.heap.os.bytes (ownBytes c.view.tlsf.poolStart c.view.bs)

namespace Guarded

variable {c c' c'' : Conf}

theorem refl (c : Conf) : Guarded c c :=
  ⟨rfl, rfl, rfl, rfl, rfl, rfl, rfl, fun _ => rfl, fun _ => Set.eqOn_refl _ _⟩

theorem trans (h : Guarded c c') (h' : Guarded c' c'') : Guarded c c'' := by
  have hnext := h'.next
  have hpool := h'.pool
  rw [h.arena, h.init] at hnext
  rw [h.start, h.blocks, h.init] at hpool
  exact ⟨h'.init.trans h.init, h'.slab.trans h.slab, h'.tlsf.trans h.tlsf, h'.arena.trans h.arena,
    h'.start.trans h.start, h'.blocks.trans h.blocks, h'.lists.trans h.lists,
    fun hi => (hnext hi).trans (h.next hi), fun hi => (hpool hi).trans (h.pool hi)⟩

end Guarded

/-- The logical state of the process. -/
structure World where
  /-- The heap with the lock free, and `ARENA_INIT` set as soon as the globals are. -/
  heap : Heap
  view : View
  live : List Block
  /-- `ARENA_INIT`. -/
  init : Bool
  /-- The thread that holds the lock. -/
  owner : Option Nat
  /-- The thread whose call works on the block at an address; `none` for a block of a client. -/
  holder : Nat → Option Nat

namespace World

def conf (x : World) : Conf := ⟨x.heap, x.view, x.live⟩

/-- The heap as the threads see it. -/
def shared (x : World) : Heap := { x.heap with arenaLock := x.owner.isSome, arenaInit := x.init }

/-- The live block `b` is in the hands of `j`. -/
def Mine (x : World) (j : Option Nat) (b : Block) : Prop := b ∈ x.live ∧ x.holder b.ptr = j

/-- The invariant. While the lock is free, `ARENA_INIT` tells whether the globals are set. -/
structure Inv (x : World) : Prop where
  good : Good x.heap x.view x.live
  owned : Owned x.heap x.view
  init : x.init = true → x.heap.arenaInit = true
  agree : x.owner = none → x.init = x.heap.arenaInit

/-- **What `j` relies on**: the changes that others make. -/
structure Rely (j : Option Nat) (x y : World) : Prop where
  arena : x.heap.arenaInit = true → y.heap.arenaInit = true ∧ y.view.arena = x.view.arena
  init : x.init = true → y.init = true
  made : ∀ p ∈ x.view.made, p ∈ y.view.made
  registry : ∀ k, x.heap.registry k ≠ 0 → y.heap.registry k ≠ 0
  mine : ∀ b, y.Mine j b ↔ x.Mine j b
  bytes : ∀ b, x.Mine j b → Set.EqOn y.heap.os.bytes x.heap.os.bytes b.extent
  caches : SameCaches x.heap y.heap
  tls : ∀ t, j = some t → y.heap.tls t = x.heap.tls t
  parts : ∀ t k, j = some t → x.heap.tls t ≠ 0 →
    y.view.g.parts (some (x.heap.tls t), k) = x.view.g.parts (some (x.heap.tls t), k)
  owner : ∀ t, j = some t → (y.owner = some t ↔ x.owner = some t)
  guarded : ∀ t, j = some t → x.owner = some t → y.init = x.init ∧ Guarded x.conf y.conf
  pages : SamePages x.view y.view
  own : y.heap.Distinct → ∀ t, j = some t → x.heap.tls t ≠ 0 → OwnKept t x.conf y.conf

namespace Rely

variable {j : Option Nat} {x y z : World}

/-- Heap and view stay: the lock, the flag and the holders of other blocks are the concern of others. -/
theorem of_conf {init : Bool} {owner : Option Nat} {holder : Nat → Option Nat}
    (hinit : x.init = true → init = true) (howner : ∀ t, j = some t → (owner = some t ↔ x.owner = some t))
    (hkeep : ∀ t, j = some t → x.owner = some t → init = x.init)
    (hmine : ∀ b ∈ x.live, holder b.ptr = j ↔ x.holder b.ptr = j) :
    Rely j x ⟨x.heap, x.view, x.live, init, owner, holder⟩ :=
  ⟨fun h => ⟨h, rfl⟩, hinit, fun _ => id, fun _ => id, fun b => and_congr_right fun hb => hmine b hb,
    fun _ _ => Set.eqOn_refl _ _, .refl _, fun _ _ => rfl, fun _ _ _ _ => rfl, howner,
    fun t ht hown => ⟨hkeep t ht hown, .refl _⟩, .refl _, fun _ t _ _ => .refl t x.conf⟩

theorem refl (j : Option Nat) (x : World) : Rely j x x :=
  .of_conf id (fun _ _ => Iff.rfl) (fun _ _ _ => rfl) fun _ _ => Iff.rfl

theorem trans (h : Rely j x y) (h' : Rely j y z) : Rely j x z := by
  refine ⟨fun hinit => ?_, h'.init ∘ h.init, fun p hp => h'.made p (h.made p hp),
    fun k hk => h'.registry k (h.registry k hk), fun b => (h'.mine b).trans (h.mine b), fun b hb => ?_,
    h.caches.trans h'.caches, fun t ht => (h'.tls t ht).trans (h.tls t ht), fun t k ht h0 => ?_,
    fun t ht => (h'.owner t ht).trans (h.owner t ht), fun t ht hown => ?_, h.pages.trans h'.pages,
    fun hd t ht h0 => ?_⟩
  · obtain ⟨hinit', ha⟩ := h.arena hinit
    obtain ⟨hinit'', ha'⟩ := h'.arena hinit'
    exact ⟨hinit'', ha'.trans ha⟩
  · exact (h'.bytes b ((h.mine b).mpr hb)).trans (h.bytes b hb)
  · -- the thread has the same cache in the middle
    have htls := h.tls t ht
    have hparts := h'.parts t k ht (by rw [htls]; exact h0)
    rw [htls] at hparts
    exact hparts.trans (h.parts t k ht h0)
  · obtain ⟨hi, hg⟩ := h.guarded t ht hown
    obtain ⟨hi', hg'⟩ := h'.guarded t ht ((h.owner t ht).mpr hown)
    exact ⟨hi'.trans hi, hg.trans hg'⟩
  · -- identifiers that are different in the end were different in the middle
    have h0' : y.heap.tls t ≠ 0 := by
      rw [(h.caches t h0).1]
      exact h0
    have hfirst : OwnKept t x.conf y.conf := h.own (h'.caches.distinct hd) t ht h0
    exact hfirst.trans h.caches h0 (h'.own hd t ht h0')

end Rely

end World

open World

/-- **The discipline of the process.** The only fault excused is to use the arena where there is none, and a
thread waits only while another one holds the lock. -/
def world : Discipline (Option Nat) Fault Heap World where
  shared := World.shared
  inv := World.Inv
  rely := World.Rely
  excused x e := e = .nullDeref ∧ x.heap.globalArena = none
  waits j x := ∃ t, x.owner = some t ∧ j ≠ some t
  refl := Rely.refl
  trans _ _ _ _ := Rely.trans

section

variable {x y : World} {h : Heap} {v : View} {l : List Block} {b : Block} {t p : Nat} {m : Mem} {c' : Conf}

/-! ## Moves of a thread -/

/-- **An act of thread `t` keeps the discipline.** New blocks are in its hands, and so are the blocks that
go; without the lock it leaves alone what the lock guards. -/
theorem Shift.moves (hx : x.Inv) (hs : Shift t x.conf c') (holder : Nat → Option Nat)
    (hnew : ∀ b ∈ c'.live, b ∉ x.live → holder b.ptr = some t)
    (hgone : ∀ b ∈ x.live, b ∉ c'.live → x.holder b.ptr = some t)
    (hsame : ∀ b ∈ x.live, b ∈ c'.live → holder b.ptr = x.holder b.ptr)
    (hguard : x.owner ≠ some t → Guarded x.conf c') :
    world.Moves (some t) x ⟨c'.heap, c'.view, c'.live, x.init, x.owner, holder⟩ := by
  refine ⟨⟨hs.kept.good, hs.owned hx.owned, fun hi => (hs.arena (hx.init hi)).1, fun hfree => ?_⟩, fun j hj => ?_⟩
  · exact (hx.agree hfree).trans (hguard (by rw [hfree]; nofun)).init.symm
  · -- what is in other hands neither comes nor goes
    have hstay : ∀ b, x.Mine j b → b ∈ c'.live := by
      intro b hb
      by_contra hno
      exact hj (hb.2.symm.trans (hgone b hb.1 hno))
    refine ⟨hs.arena, id, hs.made, hs.registry, fun b => ⟨fun hb => ?_, fun hb => ?_⟩, fun b hb => ?_, hs.caches,
      fun t' ht' => ?_, fun t' k ht' h0 => ?_, fun _ _ => Iff.rfl, fun t' ht' hown => ⟨rfl, hguard ?_⟩, hs.pages,
      fun hd t' ht' => hs.own hx.owned (hs.caches.distinct hd) t' fun heq => hj (ht'.trans (congrArg some heq))⟩
    · have hold : b ∈ x.live := by
        by_contra hno
        exact hj (hb.2.symm.trans (hnew b hb.1 hno))
      exact ⟨hold, (hsame b hold hb.1).symm.trans hb.2⟩
    · exact ⟨hstay b hb, (hsame b hb.1 (hstay b hb)).trans hb.2⟩
    · exact hs.kept.keeps b hb.1 (hstay b hb)
    · exact hs.tls t' fun heq => hj (ht'.trans (congrArg some heq))
    · exact hs.parts t' k (fun heq => hj (ht'.trans (congrArg some heq))) h0
    · intro hmine
      exact hj (ht'.trans (hown.symm.trans hmine))

/-! ## Acts that leave alone what the lock guards -/

/-- It is enough to write nothing that the allocator relies on. -/
theorem Guarded.of_own {h' : Heap} {v' : View} {l' : List Block} (hinit : h'.arenaInit = h.arenaInit)
    (hslab : h'.globalSlab = h.globalSlab) (htlsf : h'.globalTlsf = h.globalTlsf)
    (harena : v'.arena = v.arena) (hpool : v'.tlsf = v.tlsf ∧ v'.bs = v.bs ∧ v'.L = v.L)
    (hm : h.arenaInit = true → Set.EqOn h'.os.bytes h.os.bytes v.own) : Guarded ⟨h, v, l⟩ ⟨h', v', l'⟩ :=
  ⟨hinit, hslab, htlsf, harena, congrArg TlsfAllocator.poolStart hpool.1, hpool.2.1, hpool.2.2,
    fun hi => ArenaSide.next_eq (hm hi), fun hi => (hm hi).mono Set.subset_union_right⟩

/-- A store into a live block. -/
theorem Good.guarded_store (hg : Good h v l) (hb : b ∈ l) (hm : Set.EqOn m h.os.bytes b.extentᶜ) :
    Guarded ⟨h, v, l⟩ ⟨h.setBytes m, v, l⟩ := by
  refine .of_own rfl rfl rfl rfl ⟨rfl, rfl, rfl⟩ fun hinit z hz => hm fun hz' => ?_
  exact (hg.placed b hb).not_own (hg.arena hinit) hg.maps hz' hz

/-- An identifier used up. -/
theorem guarded_attempt (h : Heap) (v : View) (l : List Block) : Guarded ⟨h, v, l⟩ ⟨h.attempt, v, l⟩ :=
  .of_own rfl rfl rfl rfl ⟨rfl, rfl, rfl⟩ fun _ => Set.eqOn_refl _ _

/-- A cache. -/
theorem Good.guarded_enroll (hg : Good h v l) {id : Nat} (hgrant : Grantable h.os.maps 4096 p)
    (hm : Set.EqOn m h.os.bytes (Region.bytes ⟨p, 4096⟩)ᶜ) :
    Guarded ⟨h, v, l⟩ ⟨h.enroll t id p m, { v with made := p :: v.made }, l⟩ := by
  refine .of_own rfl rfl rfl rfl ⟨rfl, rfl, rfl⟩ fun hinit z hz => hm fun hz' => ?_
  exact hg.fresh_not_own (r := ⟨p, 4096⟩) hinit hgrant hz' hz

/-- A mapping for a huge block. -/
theorem Good.guarded_map (hg : Good h v l) {n base : Nat} {os : Os} (hmap : Maps h n base os)
    (l' : List Block) : Guarded ⟨h, v, l⟩ ⟨h.setOs os, v, l'⟩ := by
  refine .of_own rfl rfl rfl rfl ⟨rfl, rfl, rfl⟩ fun hinit z hz => hmap.bytes fun hz' => ?_
  exact hg.fresh_not_own (r := ⟨base, hugeTotal n⟩) hinit hmap.grant hz' hz

/-- A slot of a page that is listed already. -/
theorem Serves.guarded {c i j : Nat} {s : SlabAllocator} {g : Ghost (Option Nat)}
    (hs : Serves h v p c i j s m g) (ha : ArenaSide h v) (hl : v.g.parts (some p, c) ≠ []) (x : Nat)
    (l' : List Block) : Guarded ⟨h, v, l⟩ ⟨h.setSlab (some p) s m, v.serve g p i x, l'⟩ := by
  refine ⟨rfl, rfl, rfl, rfl, rfl, rfl, rfl, fun _ => ha.slabs.inv.nextFreePage_listed hl hs.bytes,
    fun _ z hz => hs.bytes fun hz' => ?_⟩
  have hzone := ha.pool.zone_own hz
  rcases ha.zone_allocBytes hs.room hz' with hz' | hz' <;> exact Zone.noConfusion (hzone.symm.trans hz')

/-- A slot that goes back to the slab of a cache. -/
theorem Puts.guarded {c i j : Nat} {s : SlabAllocator} (hp : Puts h v (some p) c i j s m)
    (ha : ArenaSide h v) (l' : List Block) :
    Guarded ⟨h, v, l⟩ ⟨h.setSlab (some p) s m, v.put (some p) c i j, l'⟩ := by
  refine ⟨rfl, rfl, rfl, rfl, rfl, rfl, rfl, fun _ => hp.next_eq ha, fun _ z hz => hp.bytes fun hz' => ?_⟩
  have hzone := ha.pool.zone_own hz
  rcases ha.zone_freeBytes hp.used hz' with hz' | hz' <;> exact Zone.noConfusion (hzone.symm.trans hz')

/-- A push. -/
theorem Good.guarded_push {c i j : Nat} (hg : Good h v l) (hinit : h.arenaInit = true)
    (hu : v.g.Used i c j) (hb : b ∈ l) (hvia : b.via = .slab c) (l' : List Block) :
    Guarded ⟨h, v, l⟩ ⟨h.push p b.ptr, v.push p b.ptr, l'⟩ :=
  .of_own rfl rfl rfl rfl ⟨rfl, rfl, rfl⟩ fun _ => hg.link_own hinit hu hb hvia (h.remote p)

/-! ## What a thread knows -/

/-- **The hands of thread `t`**: the blocks it works on, with the bytes `m` in them, and whether it holds the
lock. The holder of the lock sees `ARENA_INIT` in step with the globals. -/
structure At (t : Nat) (S : Set Block) (m : Mem) (locked : Bool) (x : World) : Prop where
  mine : ∀ b, x.Mine (some t) b ↔ b ∈ S
  bytes : ∀ b ∈ S, Set.EqOn x.heap.os.bytes m b.extent
  lock : x.owner = some t ↔ locked = true
  agree : locked = true → x.init = x.heap.arenaInit

variable {S : Set Block} {locked : Bool} {h' : Heap} {v' : View}

theorem At.stable : world.Stable (some t) (At t S m locked) := by
  intro x y _ _ hxy hat
  refine ⟨fun b => (hxy.mine b).trans (hat.mine b), fun b hb => ?_, (hxy.owner t rfl).trans hat.lock,
    fun hl => ?_⟩
  · exact (hxy.bytes b ((hat.mine b).mpr hb)).trans (hat.bytes b hb)
  · obtain ⟨hi, hguard⟩ := hxy.guarded t rfl (hat.lock.mpr hl)
    exact (hi.trans (hat.agree hl)).trans hguard.init.symm

theorem At.mem (hat : At t S m locked x) (hb : b ∈ S) : b ∈ x.live := ((hat.mine b).mpr hb).1

theorem At.unlocked (hat : At t S m locked x) (hne : x.owner ≠ some t) : locked = false := by
  cases locked with
  | false => rfl
  | true => exact absurd (hat.lock.mpr rfl) hne

/-- **An act** that leaves the live blocks as they are. -/
theorem Shift.same (hx : x.Inv) (hat : At t S m locked x) (hs : Shift t x.conf ⟨h', v', x.live⟩)
    (hinit : h'.arenaInit = x.heap.arenaInit) (hguard : locked = false → Guarded x.conf ⟨h', v', x.live⟩) :
    world.Moves (some t) x { x with heap := h', view := v' } ∧
      At t S m locked { x with heap := h', view := v' } := by
  refine ⟨hs.moves hx x.holder (fun _ hb hno => absurd hb hno) (fun _ hb hno => absurd hb hno)
    (fun _ _ _ => rfl) fun hne => hguard (hat.unlocked hne), hat.mine, fun b hb => ?_, hat.lock,
    fun hl => (hat.agree hl).trans hinit.symm⟩
  exact (hs.kept.keeps b (hat.mem hb) (hat.mem hb)).trans (hat.bytes b hb)

/-- The world with a new block in the hands of thread `t`. -/
def World.take (x : World) (t : Nat) (h : Heap) (v : View) (b : Block) : World where
  heap := h
  view := v
  live := b :: x.live
  init := x.init
  owner := x.owner
  holder := Function.update x.holder b.ptr (some t)

/-- **An act that makes a block**: it is in the thread's hands. -/
theorem Shift.take (hx : x.Inv) (hat : At t S m locked x) (hs : Shift t x.conf ⟨h', v', b :: x.live⟩)
    (hinit : h'.arenaInit = x.heap.arenaInit)
    (hguard : locked = false → Guarded x.conf ⟨h', v', b :: x.live⟩) :
    world.Moves (some t) x (x.take t h' v' b) ∧
      At t (insert b S) h'.os.bytes locked (x.take t h' v' b) ∧
      (∀ b' ∈ S, Set.EqOn h'.os.bytes m b'.extent) ∧ b ∉ S := by
  -- no live block has the address of the new one
  obtain ⟨hnew, _⟩ := List.pairwise_cons.mp hs.kept.good.apart
  have hptr : ∀ b' ∈ x.live, b'.ptr ≠ b.ptr := fun b' hb' heq => (hnew b' hb').1 heq.symm
  have hbytes : ∀ b' ∈ S, Set.EqOn h'.os.bytes m b'.extent := fun b' hb' =>
    (hs.kept.keeps b' (hat.mem hb') (List.mem_cons_of_mem _ (hat.mem hb'))).trans (hat.bytes b' hb')
  refine ⟨hs.moves hx _ (fun b' hb' hno => ?_)
      (fun b' hb' hno => absurd (List.mem_cons_of_mem _ hb') hno)
      (fun b' hb' _ => Function.update_of_ne (hptr b' hb') ..) fun hne => hguard (hat.unlocked hne),
    ⟨fun b' => ⟨fun hb' => ?_, fun hb' => ?_⟩, fun _ _ => Set.eqOn_refl _ _, hat.lock,
      fun hl => (hat.agree hl).trans hinit.symm⟩, hbytes, fun hb => hptr b (hat.mem hb) rfl⟩
  · rcases List.mem_cons.mp hb' with rfl | hb'
    · exact Function.update_self ..
    · exact absurd hb' hno
  · obtain ⟨hmem, hholder⟩ := hb'
    rcases List.mem_cons.mp hmem with rfl | hmem
    · exact .inl rfl
    · have hold : x.holder b'.ptr = some t := (Function.update_of_ne (hptr b' hmem) ..).symm.trans hholder
      exact .inr ((hat.mine b').mp ⟨hmem, hold⟩)
  · rcases hb' with rfl | hb'
    · exact ⟨List.mem_cons_self, Function.update_self ..⟩
    · obtain ⟨hmem, hold⟩ := (hat.mine b').mpr hb'
      exact ⟨List.mem_cons_of_mem _ hmem, (Function.update_of_ne (hptr b' hmem) ..).trans hold⟩

/-- **An act that takes a block away**: it was in the thread's hands. -/
theorem Shift.give (hx : x.Inv) (hat : At t S m locked x) (hb : b ∈ S)
    (hs : Shift t x.conf ⟨h', v', x.live.erase b⟩) (hinit : h'.arenaInit = x.heap.arenaInit)
    (hguard : locked = false → Guarded x.conf ⟨h', v', x.live.erase b⟩) :
    world.Moves (some t) x { x with heap := h', view := v', live := x.live.erase b } ∧
      At t (S \ {b}) m locked { x with heap := h', view := v', live := x.live.erase b } := by
  have hmem : ∀ b', b' ∈ x.live.erase b ↔ b' ∈ x.live ∧ b' ≠ b := fun b' =>
    hx.good.nodup.mem_erase_iff.trans and_comm
  refine ⟨hs.moves hx x.holder (fun b' hb' hno => absurd (List.mem_of_mem_erase hb') hno)
    (fun b' hb' hno => ?_) (fun _ _ _ => rfl) fun hne => hguard (hat.unlocked hne),
    fun b' => ⟨fun hb' => ?_, fun hb' => ?_⟩, fun b' hb' => ?_, hat.lock,
    fun hl => (hat.agree hl).trans hinit.symm⟩
  · obtain rfl : b' = b := by
      by_contra hne
      exact hno ((hmem b').mpr ⟨hb', hne⟩)
    exact ((hat.mine b').mpr hb).2
  · obtain ⟨hb', hholder⟩ := hb'
    obtain ⟨hlive, hne⟩ := (hmem b').mp hb'
    exact ⟨(hat.mine b').mp ⟨hlive, hholder⟩, hne⟩
  · obtain ⟨hlive, hholder⟩ := (hat.mine b').mpr hb'.1
    exact ⟨(hmem b').mpr ⟨hlive, hb'.2⟩, hholder⟩
  · have hlive := hat.mem hb'.1
    exact (hs.kept.keeps b' hlive ((hmem b').mpr ⟨hlive, hb'.2⟩)).trans (hat.bytes b' hb'.1)

/-- **A store** by the holder of a block. -/
theorem World.Mine.store {j : Option Nat} (hx : x.Inv) (hb : x.Mine j b) {m' : Mem}
    (hm : Set.EqOn m' x.heap.os.bytes b.extentᶜ) :
    world.Moves j x { x with heap := x.heap.setBytes m' } := by
  have hstore : Store b x.conf ⟨x.heap.setBytes m', x.view, x.live⟩ := .mk hb.1 hm
  refine ⟨⟨hx.good.store hb.1 hm, hstore.owned hx.owned, hx.init, hx.agree⟩, fun j' hj => ⟨fun hi => ⟨hi, rfl⟩, id,
    fun _ => id, fun _ => id, fun _ => Iff.rfl, fun b' hb' => ?_, .refl _, fun _ _ => rfl, fun _ _ _ _ => rfl,
    fun _ _ => Iff.rfl, fun _ _ _ => ⟨rfl, hx.good.guarded_store hb.1 hm⟩, .refl _,
    fun _ t _ _ => ⟨rfl, fun i k hc _ => hstore.pageKept hx.good (.refl hc)⟩⟩⟩
  refine hx.good.store_keeps hb.1 hm hb'.1 ?_
  rintro rfl
  exact hj (hb'.2.symm.trans hb.2)

/-- **A store** into a block in the thread's hands. -/
theorem At.store (hx : x.Inv) (hat : At t S m locked x) (hb : b ∈ S) {m' : Mem}
    (hm : Set.EqOn m' x.heap.os.bytes b.extentᶜ) :
    world.Moves (some t) x { x with heap := x.heap.setBytes m' } ∧
      At t S m' locked { x with heap := x.heap.setBytes m' } ∧
      ∀ b' ∈ S, b' ≠ b → Set.EqOn m' m b'.extent := by
  refine ⟨World.Mine.store hx ((hat.mine b).mpr hb) hm,
    ⟨hat.mine, fun _ _ => Set.eqOn_refl _ _, hat.lock, hat.agree⟩, fun b' hb' hne => ?_⟩
  exact (hx.good.store_keeps (hat.mem hb) hm (hat.mem hb') hne).trans (hat.bytes b' hb')

end

end FerrumAlloc
