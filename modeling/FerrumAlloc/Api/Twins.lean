/-
# FerrumAlloc.Api.Twins -- two heaps that the allocator cannot tell apart

Two heaps are twins when both are good under one view, with the same live blocks, the same threads and
mappings, and the same `ArenaMeta`. The bytes of live blocks may differ, and so may everything that was
once a client's and has been left behind in free memory.

A call reads words that the view determines, so it does the same to both: each stage of the entry points
takes the same branch, hands out the same address and leaves twins. The words themselves are compared in
`Api.Noninterference`.

One part of the view is not shared. The TLSF allocator of the second heap may differ in bitmap rows that
lie outside the array of the source; the view of the second heap is `v.setTlsf tlsf`.
-/
import FerrumAlloc.Api.Threads
import FerrumAlloc.Tlsf.Determined

namespace FerrumAlloc

open Lib
open Tlsf (TlsfAllocator Blk)

/-- The view with another TLSF allocator. -/
def View.setTlsf (v : View) (tlsf : TlsfAllocator) : View := { v with tlsf := tlsf }

/-- **Two heaps that the allocator cannot tell apart.** -/
structure Twins (h₁ h₂ : Heap) (v : View) (tlsf : TlsfAllocator) (l : List Block) : Prop where
  left : Good h₁ v l
  right : Good h₂ (v.setTlsf tlsf) l
  init : h₁.arenaInit = true
  threads : SameThreads h₁ h₂
  arenaId : h₂.nextArenaId = h₁.nextArenaId
  header : Set.EqOn h₂.os.bytes h₁.os.bytes v.arena.arenaMetaBytes

variable {h h₁ h₂ : Heap} {v : View} {tlsf : TlsfAllocator} {l : List Block} {t n p c i j : Nat} {b : Block}
  {m m₁ m₂ : Mem}

/-! ## Threads of changed heaps -/

namespace SameThreads

theorem symm (hs : SameThreads h₁ h₂) : SameThreads h₂ h₁ :=
  ⟨hs.init.symm, hs.tls.symm, hs.registry.symm, hs.next.symm, fun p => (hs.id p).symm, hs.maps.symm⟩

theorem setSlab (h : Heap) (k : Option Nat) (s : SlabAllocator) (m : Mem) :
    SameThreads h (h.setSlab k s m) := by
  have hid := setSlab_id h k s m
  cases k <;> exact ⟨rfl, rfl, rfl, rfl, hid, rfl⟩

theorem pop (h : Heap) (p : Nat) (s : SlabAllocator) (m : Mem) : SameThreads h (h.pop p s m) :=
  ⟨rfl, rfl, rfl, rfl, setCache_id h p (c := { h.caches p with
    slab := s, remoteFrees := read64 h.os.bytes (h.remote p) }) rfl, rfl⟩

theorem push (h : Heap) (p x : Nat) : SameThreads h (h.push p x) :=
  ⟨rfl, rfl, rfl, rfl, setCache_id (h.setBytes (write64 h.os.bytes x (h.remote p))) p
    (c := { h.caches p with remoteFrees := x }) rfl, rfl⟩

theorem setBytes (h : Heap) (m : Mem) : SameThreads h (h.setBytes m) :=
  ⟨rfl, rfl, rfl, rfl, fun _ => rfl, rfl⟩

theorem setTlsf (h : Heap) (tlsf : TlsfAllocator) (m : Mem) : SameThreads h (h.setTlsf tlsf m) :=
  ⟨rfl, rfl, rfl, rfl, fun _ => rfl, rfl⟩

/-- Changes on both sides that no thread sees. -/
theorem both {h₁' h₂' : Heap} (hs : SameThreads h₁ h₂) (hs₁ : SameThreads h₁ h₁') (hs₂ : SameThreads h₂ h₂') :
    SameThreads h₁' h₂' := (hs₁.symm.trans hs).trans hs₂

end SameThreads

/-! ## `ArenaMeta` after a slab allocation -/

/-- **The slab allocation through a cache** leaves `ArenaMeta` alone, or as `alloc_page` leaves it. -/
theorem cacheAlloc_header {r : Heap × Nat} (hg : Good h v l) (hinit : h.arenaInit = true) (htls : h.tls t = p)
    (hp : p ≠ 0) (hc : c < numSizeClasses) (hrun : cacheAlloc h p c = .ok r) :
    Set.EqOn r.1.os.bytes
      (if v.g.parts (some p, c) = [] then (v.arena.allocPage h.os.bytes).1 else h.os.bytes)
      v.arena.arenaMetaBytes := by
  have ha := hg.arena hinit
  by_cases hl : v.g.parts (some p, c) = []
  · rw [if_pos hl]
    have hmade : p ∈ v.made := by
      rw [← htls]
      exact hg.threads.tls t (by rw [htls]; exact hp)
    have hid : (h.caches p).id < 2 ^ 16 := Nat.lt_trans (hg.threads.id p hmade).2.1 (by decide)
    have hneeds : (h.caches p).slab.allocNeedsPage c = .ok (decide (v.g.parts (some p, c) = [])) :=
      ha.slabs.inv.allocNeedsPage_spec hc (some p)
    have harena : h.locked.globalArena = some v.arena := ha.arena
    unfold cacheAlloc at hrun
    simp only [hneeds, decide_eq_true hl, Heap.spinLock_eq hg.lock, harena, derefGlobal, Exec.bind_ok,
      if_true] at hrun
    obtain ⟨⟨s, m, x⟩, halloc, hret⟩ := Exec.bind_eq_ok.mp hrun
    obtain rfl := Except.ok.inj hret
    have halloc' : (h.slabs (some p)).alloc h.os.bytes c v.arena (h.caches p).id = .ok (s, m, x) := halloc
    show Set.EqOn m _ _
    rcases Arena.allocPage_spec v.arena h.os.bytes with ⟨hfull, hpage⟩ | ⟨_, hlt, _⟩
    · -- no page left: nothing is written
      rcases ha.slabs.inv.alloc_spec hc hid (some p) with ⟨_, _, hrun'⟩ | ⟨_, _, _, _, _, _, hroom, _⟩
      · obtain ⟨-, rfl, -⟩ : _ ∧ m = h.os.bytes ∧ _ := by
          simpa only [Except.ok.injEq, Prod.mk.injEq] using halloc'.symm.trans hrun'
        rw [hpage]
        exact Set.eqOn_refl _ _
      · exact absurd (hroom.resolve_right (not_not.mpr hl)) (Nat.not_lt_of_le hfull)
    · obtain ⟨s', m', hrun', _, _, hhead⟩ := ha.slabs.inv.allocFresh_spec hc hid hl rfl hlt
      obtain ⟨-, rfl, -⟩ : _ ∧ m = m' ∧ _ := by
        simpa only [Except.ok.injEq, Prod.mk.injEq] using halloc'.symm.trans hrun'
      exact hhead
  · rw [if_neg hl]
    rcases cacheAlloc_spec hg hinit htls hp hc with ⟨_, hnil, _⟩ | ⟨s, m, g, i, j, hs, hrun'⟩
    · exact absurd hnil hl
    · obtain rfl := Except.ok.inj (hrun.symm.trans hrun')
      intro z hz
      apply hs.bytes
      unfold allocBytes
      rw [if_neg hl]
      exact fun hz' => ha.slabs.inv.listBytes_arenaMeta _ hz' hz

namespace Twins

/-- A heap is its own twin. -/
theorem refl (hg : Good h v l) (hinit : h.arenaInit = true) : Twins h h v v.tlsf l :=
  ⟨hg, hg, hinit, .refl h, rfl, Set.eqOn_refl _ _⟩

section

variable (ht : Twins h₁ h₂ v tlsf l)
include ht

theorem init_right : h₂.arenaInit = true := ht.threads.init.trans ht.init

theorem arena_left : ArenaSide h₁ v := ht.left.arena ht.init

theorem arena_right : ArenaSide h₂ (v.setTlsf tlsf) := ht.right.arena ht.init_right

theorem next_eq : v.arena.nextFreePage h₂.os.bytes = v.arena.nextFreePage h₁.os.bytes :=
  Arena.nextFreePage_of_eqOn ht.header

theorem start_eq : tlsf.poolStart = v.tlsf.poolStart :=
  ht.arena_right.pool.start_eq.trans ht.arena_left.pool.start_eq.symm

theorem stop_eq : tlsf.poolEnd = v.tlsf.poolEnd :=
  ht.arena_right.pool.stop_eq.trans ht.arena_left.pool.stop_eq.symm

/-- The stacks of remote frees have the same tops. -/
theorem remote_eq (p : Nat) : h₂.remote p = h₁.remote p :=
  ((ht.arena_left.slabs.stack p).chain.same (ht.arena_right.slabs.stack p).chain).1

/-- `ArenaMeta` after changes elsewhere. -/
theorem header_frame (hm₁ : Set.EqOn m₁ h₁.os.bytes v.arena.arenaMetaBytes)
    (hm₂ : Set.EqOn m₂ h₂.os.bytes v.arena.arenaMetaBytes) : Set.EqOn m₂ m₁ v.arena.arenaMetaBytes :=
  (hm₂.trans ht.header).trans hm₁.symm

end

/-! ## Client writes -/

/-- `ArenaMeta` is no client's. -/
theorem header_extent (hg : Good h v l) (hinit : h.arenaInit = true) (hb : b ∈ l)
    (hm : Set.EqOn m h.os.bytes b.extentᶜ) : Set.EqOn m h.os.bytes v.arena.arenaMetaBytes := by
  intro z hz
  apply hm
  intro hz'
  exact (hg.placed b hb).not_own (hg.arena hinit) hg.maps hz'
    (.inl (.inl (.inl (Arena.arenaMetaBytes_subset hz))))

/-- **A client writes into a live block** of the first run. -/
theorem write_left (ht : Twins h₁ h₂ v tlsf l) (hb : b ∈ l) (hm : Set.EqOn m h₁.os.bytes b.extentᶜ) :
    Twins (h₁.setBytes m) h₂ v tlsf l :=
  ⟨ht.left.store hb hm, ht.right, ht.init, ht.threads.both (.setBytes h₁ m) (.refl h₂), ht.arenaId,
    ht.header_frame (header_extent ht.left ht.init hb hm) (Set.eqOn_refl _ _)⟩

/-- And of the second run. -/
theorem write_right (ht : Twins h₁ h₂ v tlsf l) (hb : b ∈ l) (hm : Set.EqOn m h₂.os.bytes b.extentᶜ) :
    Twins h₁ (h₂.setBytes m) v tlsf l :=
  ⟨ht.left, ht.right.store hb hm, ht.init, ht.threads.both (.refl h₁) (.setBytes h₂ m), ht.arenaId,
    ht.header_frame (Set.eqOn_refl _ _) (header_extent (v := v.setTlsf tlsf) ht.right ht.init_right hb hm)⟩

/-! ## The cache of the thread -/

/-- **A step of a drain** takes the same slot off both stacks. -/
theorem pop (ht : Twins h₁ h₂ v tlsf l) {i' c' j' : Nat} {s₁ s₂ : SlabAllocator}
    (hp₁ : Puts h₁ v (some p) c i j s₁ m₁) (htop₁ : h₁.remote p = v.arena.slotAddr i c j)
    (hp₂ : Puts h₂ (v.setTlsf tlsf) (some p) c' i' j' s₂ m₂)
    (htop₂ : h₂.remote p = v.arena.slotAddr i' c' j') :
    i' = i ∧ c' = c ∧ j' = j ∧ Twins (h₁.pop p s₁ m₁) (h₂.pop p s₂ m₂) (v.pop p c i j) tlsf l := by
  have hside := ht.arena_left.slabs
  obtain ⟨rfl, rfl, rfl⟩ := hside.slot_eq hp₁.used hp₂.used
    (htop₁.symm.trans ((ht.remote_eq p).symm.trans htop₂))
  exact ⟨rfl, rfl, rfl, (ht.left.pop hp₁ htop₁).good, (ht.right.pop hp₂ htop₂).good, ht.init,
    ht.threads.both (.pop ..) (.pop ..), ht.arenaId,
    ht.header_frame (hp₁.header_eq ht.arena_left) (hp₂.header_eq ht.arena_right)⟩

/-- **Draining twins.** Induction on the first drain; the second one has a step to take exactly when the
stack is not empty. -/
theorem drain {c₁ c₁' c₂' : Conf} (hd₁ : Drains p c₁ c₁') :
    ∀ {h₂ : Heap}, Twins c₁.heap h₂ c₁.view tlsf c₁.live →
      Drains p ⟨h₂, c₁.view.setTlsf tlsf, c₁.live⟩ c₂' →
      Twins c₁'.heap c₂'.heap c₁'.view tlsf c₁'.live := by
  induction hd₁ with
  | done h0 =>
    intro h₂ ht hd₂
    cases hd₂ with
    | done _ => exact ht
    | pop _ htop _ =>
      have hnull := (ht.remote_eq p).trans h0
      exact absurd (htop.symm.trans hnull) (ht.arena_right.slotAddr_ne _ _ _)
  | pop hputs htop _ ih =>
    intro h₂ ht hd₂
    cases hd₂ with
    | done h0 =>
      have hnull := (ht.remote_eq p).symm.trans h0
      exact absurd (htop.symm.trans hnull) (ht.arena_left.slotAddr_ne _ _ _)
    | pop hputs' htop' hd₂ =>
      obtain ⟨rfl, rfl, rfl, ht'⟩ := ht.pop hputs htop hputs' htop'
      exact ih ht' hd₂

/-- A thread gets no cache from both heaps. -/
theorem attempt (ht : Twins h₁ h₂ v tlsf l) : Twins h₁.attempt h₂.attempt v tlsf l := by
  refine ⟨(ht.left.attempt ht.init).good, (ht.right.attempt ht.init_right).good, ht.init, ?_, ht.arenaId,
    ht.header⟩
  have hnext := congrArg (fun n => (n + 1) % 2 ^ 16) ht.threads.next
  exact ⟨ht.threads.init, ht.threads.tls, ht.threads.registry, hnext, ht.threads.id, ht.threads.maps⟩

/-- `ArenaMeta` is not in a mapping just granted. -/
theorem header_fresh {r : Region} (hg : Good h v l) (hinit : h.arenaInit = true)
    (hgrant : Grantable h.os.maps r.size r.base) (hm : Set.EqOn m h.os.bytes r.bytesᶜ) :
    Set.EqOn m h.os.bytes v.arena.arenaMetaBytes := by
  intro z hz
  apply hm
  intro hz'
  exact hg.fresh_not_own hinit hgrant hz' (.inl (.inl (.inl (Arena.arenaMetaBytes_subset hz))))

/-- Or it gets a cache of one address. -/
theorem create (ht : Twins h₁ h₂ v tlsf l) (hc₁ : Creates h₁ t p m₁) (hc₂ : Creates h₂ t p m₂) :
    Twins (h₁.create t p m₁) (h₂.create t p m₂) { v with made := p :: v.made } tlsf l := by
  have hs := ht.threads
  refine ⟨(ht.left.create hc₁).good, (ht.right.create hc₂).good, ht.init, ?_, ht.arenaId, ?_⟩
  · refine ⟨hs.init, ?_, ?_, congrArg (fun n => (n + 1) % 2 ^ 16) hs.next, fun q => ?_,
      congrArg (List.cons _) hs.maps⟩
    · show Function.update h₂.tls t p = Function.update h₁.tls t p
      rw [hs.tls]
    · show Function.update h₂.registry h₂.nextThreadId p = Function.update h₁.registry h₁.nextThreadId p
      rw [hs.registry, hs.next]
    · show (Function.update h₂.caches p (.new h₂.nextThreadId) q).id =
        (Function.update h₁.caches p (.new h₁.nextThreadId) q).id
      by_cases hq : q = p
      · rw [hq, Function.update_self, Function.update_self]
        exact hs.next
      · rw [Function.update_of_ne hq, Function.update_of_ne hq]
        exact hs.id q
  · exact ht.header_frame (header_fresh (r := ⟨p, 4096⟩) ht.left ht.init hc₁.grant hc₁.bytes)
      (header_fresh (v := v.setTlsf tlsf) (r := ⟨p, 4096⟩) ht.right ht.init_right hc₂.grant hc₂.bytes)

/-- The threads and the operating system decide who can have a cache. -/
theorem cacheless_iff (hs : SameThreads h₁ h₂) (t : Nat) (answer : Option Nat) :
    Cacheless h₂ t answer ↔ Cacheless h₁ t answer := by
  unfold Cacheless CanCreate
  rw [hs.tls, hs.next, hs.maps]

/-- A thread that can be given a cache is not without one. -/
theorem not_cacheless (hc : Creates h t p m) : ¬ Cacheless h t (some p) :=
  fun hno => hno.2 ⟨hc.id, p, rfl, hc.grant⟩

/-- **Twins find or make the same cache.** -/
theorem lookup (ht : Twins h₁ h₂ v tlsf l) (t : Nat) (answer : Option Nat) :
    ∃ h₁' h₂' v' o, getOrCreate h₁ t answer = (h₁', o) ∧ getOrCreate h₂ t answer = (h₂', o) ∧
      Twins h₁' h₂' v' tlsf l ∧ ∀ p, o = some p → p ≠ 0 ∧ h₁'.tls t = p := by
  have htls : h₂.tls t = h₁.tls t := congrFun ht.threads.tls t
  have hready₁ := ht.arena_left.ready
  have hready₂ := ht.arena_right.ready
  rcases getOrCreate_spec ht.init hready₁ t answer with ⟨hne, hrun⟩ | ⟨hless, hrun⟩ | ⟨p, m, hans, hc, hrun⟩
  · rcases getOrCreate_spec ht.init_right hready₂ t answer with
      ⟨_, hrun'⟩ | ⟨hless', _⟩ | ⟨p', m', _, hc', _⟩
    · rw [htls] at hrun'
      refine ⟨_, _, v, _, hrun, hrun', ht, fun p hp => ?_⟩
      obtain rfl := Option.some.inj hp
      exact ⟨hne, rfl⟩
    · exact absurd (htls.symm.trans hless'.1) hne
    · exact absurd (htls.symm.trans hc'.none) hne
  · rcases getOrCreate_spec ht.init_right hready₂ t answer with ⟨hne', _⟩ | ⟨_, hrun'⟩ | ⟨p', m', rfl, hc', _⟩
    · exact absurd (htls.trans hless.1) hne'
    · exact ⟨_, _, v, none, hrun, hrun', ht.attempt, nofun⟩
    · exact absurd ((cacheless_iff ht.threads t _).mpr hless) (not_cacheless hc')
  · rcases getOrCreate_spec ht.init_right hready₂ t answer with
      ⟨hne', _⟩ | ⟨hless', _⟩ | ⟨p', m', hans', hc', hrun'⟩
    · exact absurd (htls.trans hc.none) hne'
    · subst hans
      exact absurd ((cacheless_iff ht.threads t _).mp hless') (not_cacheless hc)
    · obtain rfl := Option.some.inj (hans.symm.trans hans')
      refine ⟨_, _, _, some p, hrun, hrun', ht.create hc hc', fun q hq => ?_⟩
      obtain rfl := Option.some.inj hq
      exact ⟨Nat.ne_of_gt hc.grant.1, Function.update_self ..⟩

/-- **And get it ready**: the stacks drained are the same. -/
theorem ready (ht : Twins h₁ h₂ v tlsf l) (t : Nat) (answer : Option Nat) :
    ∃ h₁' h₂' v' o, readyCache h₁ t answer = .ok (h₁', o) ∧ readyCache h₂ t answer = .ok (h₂', o) ∧
      Twins h₁' h₂' v' tlsf l ∧ ∀ p, o = some p → p ≠ 0 ∧ h₁'.tls t = p := by
  obtain ⟨h₁', h₂', v', o, hrun, hrun', ht', hsome⟩ := ht.lookup t answer
  unfold readyCache
  rw [hrun, hrun']
  cases o with
  | none => exact ⟨_, _, v', none, rfl, rfl, ht', nofun⟩
  | some p =>
    obtain ⟨hp, htls⟩ := hsome p rfl
    have hmade : p ∈ v'.made := by
      rw [← htls]
      exact ht'.left.threads.tls t (by rw [htls]; exact hp)
    obtain ⟨s, m, v₁, hdrain, hd⟩ := drainCache_drains ht'.left ht'.init hmade
    obtain ⟨s', m', v₂, hdrain', hd'⟩ := drainCache_drains ht'.right ht'.init_right hmade
    simp only [hdrain, hdrain', Exec.bind_ok, Exec.pure_eq]
    exact ⟨_, _, v₁, some p, rfl, rfl, drain hd ht' hd', fun q hq => Option.some.inj hq ▸ ⟨hp, htls⟩⟩

/-! ## Slots -/

/-- **Twins serve the same slot**, or none. -/
theorem serve (ht : Twins h₁ h₂ v tlsf l) (htls : h₁.tls t = p) (hp : p ≠ 0) (hn : sizeToClass n = some c) :
    (cacheAlloc h₁ p c = .ok (h₁, 0) ∧ cacheAlloc h₂ p c = .ok (h₂, 0)) ∨
    ∃ h₁' h₂' v' x, cacheAlloc h₁ p c = .ok (h₁', x) ∧ cacheAlloc h₂ p c = .ok (h₂', x) ∧ x ≠ 0 ∧
      Twins h₁' h₂' v' tlsf (⟨x, n, .slab c, slotSize c⟩ :: l) := by
  have hc := (sizeToClass_spec hn).1
  have htls₂ : h₂.tls t = p := (congrFun ht.threads.tls t).trans htls
  have hnext : (v.setTlsf tlsf).arena.nextFreePage h₂.os.bytes = v.arena.nextFreePage h₁.os.bytes := ht.next_eq
  rcases cacheAlloc_spec ht.left ht.init htls hp hc with ⟨hrun, hnil, hfull⟩ | ⟨s, m, g, i, j, hs, hrun⟩
  · rcases cacheAlloc_spec ht.right ht.init_right htls₂ hp hc with ⟨hrun', _⟩ | ⟨_, _, _, _, _, hs', _⟩
    · exact .inl ⟨hrun, hrun'⟩
    · have hroom := hs'.room.resolve_right (not_not.mpr hnil)
      rw [hnext] at hroom
      exact absurd hroom (Nat.not_lt_of_le hfull)
  · rcases cacheAlloc_spec ht.right ht.init_right htls₂ hp hc with
      ⟨_, hnil, hfull⟩ | ⟨s', m', g', i', j', hs', hrun'⟩
    · have hroom := hs.room.resolve_right (not_not.mpr hnil)
      rw [hnext] at hfull
      exact absurd hroom (Nat.not_lt_of_le hfull)
    · right
      have hserved := hs'.served
      rw [hnext, ht.threads.id p] at hserved
      obtain ⟨rfl, rfl, rfl⟩ := hs.served.unique hserved
      have hhead : Set.EqOn m' m v.arena.arenaMetaBytes := by
        have h₁ := cacheAlloc_header ht.left ht.init htls hp hc hrun
        have h₂ := cacheAlloc_header ht.right ht.init_right htls₂ hp hc hrun'
        refine (h₂.trans ?_).trans h₁.symm
        show Set.EqOn (if v.g.parts (some p, c) = [] then _ else _) _ _
        split
        · exact Arena.allocPage_congr ht.header
        · exact ht.header
      exact ⟨_, _, _, _, hrun, hrun', ht.arena_left.slotAddr_ne _ _ _, (ht.left.serve hs hn).good,
        (ht.right.serve hs' hn).good, ht.init, ht.threads.both (.setSlab ..) (.setSlab ..), ht.arenaId, hhead⟩

end Twins

/-! ## Allocating calls -/

/-- **Two runs of an allocating call** that return the same block, or null, and leave twins. -/
def Agree (n : Nat) (l : List Block) (x₁ x₂ : Exec (Heap × Nat × Backend)) : Prop :=
  ∃ r₁ r₂ v tlsf, x₁ = .ok r₁ ∧ x₂ = .ok r₂ ∧ r₂.2 = r₁.2 ∧
    ((r₁.2.1 = 0 ∧ Twins r₁.1 r₂.1 v tlsf l) ∨
      (r₁.2.1 ≠ 0 ∧ ∃ cap, Twins r₁.1 r₂.1 v tlsf (⟨r₁.2.1, n, r₁.2.2, cap⟩ :: l)))

namespace Twins

/-- `ArenaMeta` is not in the pool. -/
theorem header_pool {S : Set Nat} (ha : ArenaSide h v) (hm : Set.EqOn m h.os.bytes Sᶜ)
    (hS : ∀ z ∈ S, v.arena.zone z = .pool) : Set.EqOn m h.os.bytes v.arena.arenaMetaBytes :=
  (ha.pool_frame hm hS).mono fun _ hz => .inl (.inl (Arena.arenaMetaBytes_subset hz))

/-- **Twins carve the same block** out of their pools. -/
theorem carve (ht : Twins h₁ h₂ v tlsf l) (hn : n ≤ usizeMax - 16) {t₁ t₂ : TlsfAllocator} {bs₁ bs₂ : List Blk}
    {L₁ L₂ : Nat → Nat → List Nat} {p₁ p₂ : Nat}
    (hal₁ : Tlsf.Allocated v.tlsf h₁.os.bytes v.bs v.L n t₁ m₁ bs₁ L₁ p₁)
    (hal₂ : Tlsf.Allocated tlsf h₂.os.bytes v.bs v.L n t₂ m₂ bs₂ L₂ p₂) :
    p₂ = p₁ ∧ ∃ cap, Twins (h₁.setTlsf t₁ m₁) (h₂.setTlsf t₂ m₂) (v.setPool t₁ bs₁ L₁) t₂
      (⟨p₁, n, .tlsf, cap⟩ :: l) := by
  obtain ⟨rfl, rfl, rfl⟩ := hal₁.unique hal₂ ht.start_eq
  have hg₁ := (ht.left.carve ht.init hn hal₁).good
  have hg₂ := (ht.right.carve ht.init_right hn hal₂).good
  have hstart : t₂.poolStart = t₁.poolStart := hal₂.start_eq.trans (ht.start_eq.trans hal₁.start_eq.symm)
  -- the size read back is that of the block in the view
  have hcap : Tlsf.usableSize m₂ p₂ = Tlsf.usableSize m₁ p₂ := by
    obtain ⟨x₁, hx₁, hu₁⟩ := (hg₁.placed _ List.mem_cons_self).poolBlock rfl
    obtain ⟨x₂, hx₂, hu₂⟩ := (hg₂.placed _ List.mem_cons_self).poolBlock rfl
    obtain rfl : x₂ = x₁ := Nat.add_right_cancel (hx₂.symm.trans hx₁)
    have hu₂' : (x₂, (⟨Tlsf.usableSize m₂ p₂, false⟩ : Blk)) ∈ Tlsf.cells t₂.poolStart bs₂ := hu₂
    rw [hstart] at hu₂'
    exact congrArg Blk.size (Tlsf.cells_unique hu₂' hu₁)
  rw [hcap] at hg₂
  refine ⟨rfl, Tlsf.usableSize m₁ p₂, hg₁, hg₂, ht.init, ht.threads.both (.setTlsf ..) (.setTlsf ..), ht.arenaId,
    ?_⟩
  have ha₁ := ht.arena_left
  have ha₂ := ht.arena_right
  exact ht.header_frame
    (header_pool ha₁ hal₁.frame fun z hz => ha₁.pool.zone_both (ha₁.carved hal₁) hal₁.start_eq hz)
    (header_pool (v := v.setTlsf tlsf) ha₂ hal₂.frame fun z hz =>
      ha₂.pool.zone_both (ha₂.carved hal₂) hal₂.start_eq hz)

/-- **Twins issue the same pages.** -/
theorem issue (ht : Twins h₁ h₂ v tlsf l) (hi₁ : Issues h₁ v n m₁) (hi₂ : Issues h₂ (v.setTlsf tlsf) n m₂) :
    Twins (h₁.setBytes m₁) (h₂.setBytes m₂) v tlsf
      (⟨v.arena.pageAddr (v.arena.nextFreePage h₁.os.bytes), n, .bump, (n + 4095) / 4096 * 4096⟩ :: l) := by
  have hg₂ := (ht.right.issue hi₂).good
  have hnext : (v.setTlsf tlsf).arena.nextFreePage h₂.os.bytes = v.arena.nextFreePage h₁.os.bytes := ht.next_eq
  rw [hnext] at hg₂
  refine ⟨(ht.left.issue hi₁).good, hg₂, ht.init, ht.threads.both (.setBytes ..) (.setBytes ..), ht.arenaId, ?_⟩
  have hhead := Arena.alloc_congr ht.header n
  have hrun₂ : v.arena.alloc h₂.os.bytes n = _ := hi₂.run
  rw [hi₁.run, hrun₂] at hhead
  exact hhead

/-- **The slow path** of `ferrum_malloc`: pool, pages or null, the same from both. -/
theorem slow (ht : Twins h₁ h₂ v tlsf l) (hpos : 0 < n) (hlt : n < hugeAllocThreshold) :
    Agree n l (mallocSlow h₁ n) (mallocSlow h₂ n) := by
  have hn : n ≤ usizeMax - 16 := Nat.le_trans (Nat.le_of_lt hlt) (by decide)
  have hnext : (v.setTlsf tlsf).arena.nextFreePage h₂.os.bytes = v.arena.nextFreePage h₁.os.bytes := ht.next_eq
  rcases mallocSlow_spec ht.left ht.init hpos hlt with
    ⟨hrun, hno, hfull⟩ | ⟨m, hi, hno, hrun⟩ | ⟨t₁, m, bs, L, p, hal, hp, hrun⟩
  · rcases mallocSlow_spec ht.right ht.init_right hpos hlt with
      ⟨hrun', _⟩ | ⟨m', hi', _⟩ | ⟨_, _, _, _, _, hal', _⟩
    · exact ⟨_, _, v, tlsf, hrun, hrun', rfl, .inl ⟨rfl, ht⟩⟩
    · have hroom := hi'.room
      rw [hnext] at hroom
      exact absurd hroom (Nat.not_le_of_lt hfull)
    · obtain ⟨_, _, hchosen⟩ := hal'.chosen
      exact absurd hno hchosen.not_noFit
  · rcases mallocSlow_spec ht.right ht.init_right hpos hlt with
      ⟨_, _, hfull⟩ | ⟨m', hi', _, hrun'⟩ | ⟨_, _, _, _, _, hal', _⟩
    · rw [hnext] at hfull
      exact absurd hi.room (Nat.not_le_of_lt hfull)
    · rw [hnext] at hrun'
      refine ⟨_, _, v, tlsf, hrun, hrun', rfl, .inr ⟨?_, _, ht.issue hi hi'⟩⟩
      have hbase := ht.arena_left.slabs.inv.arena.pos
      have hpage := Arena.pageAddr_eq v.arena (v.arena.nextFreePage h₁.os.bytes)
      simp only
      omega
    · obtain ⟨_, _, hchosen⟩ := hal'.chosen
      exact absurd hno hchosen.not_noFit
  · rcases mallocSlow_spec ht.right ht.init_right hpos hlt with
      ⟨_, hno, _⟩ | ⟨_, _, hno, _⟩ | ⟨t₂, m', bs', L', p', hal', _, hrun'⟩
    · obtain ⟨_, _, hchosen⟩ := hal.chosen
      exact absurd hno hchosen.not_noFit
    · obtain ⟨_, _, hchosen⟩ := hal.chosen
      exact absurd hno hchosen.not_noFit
    · obtain ⟨rfl, cap, ht'⟩ := ht.carve hn hal hal'
      exact ⟨_, _, _, t₂, hrun, hrun', rfl, .inr ⟨hp, cap, ht'⟩⟩

/-- **A huge request** is granted to both or to none. -/
theorem huge (ht : Twins h₁ h₂ v tlsf l) (n : Nat) (answer : Option Nat) :
    Agree n l (.ok (heapHugeAlloc h₁ n answer)) (.ok (heapHugeAlloc h₂ n answer)) := by
  have hmaps := ht.threads.maps
  rcases heapHugeAlloc_spec h₁ n answer with ⟨hrun, hno⟩ | ⟨base, os, hans, hm, hrun⟩
  · rcases heapHugeAlloc_spec h₂ n answer with ⟨hrun', _⟩ | ⟨base, _, hans, hm', _⟩
    · rw [hrun, hrun']
      exact ⟨_, _, v, tlsf, rfl, rfl, rfl, .inl ⟨rfl, ht⟩⟩
    · have hgrant := hm'.grant
      rw [hmaps] at hgrant
      exact absurd hgrant (hno base hans)
  · rcases heapHugeAlloc_spec h₂ n answer with ⟨_, hno⟩ | ⟨base', os', hans', hm', hrun'⟩
    · rw [hmaps] at hno
      exact absurd hm.grant (hno base hans)
    · obtain rfl := Option.some.inj (hans.symm.trans hans')
      rw [hrun, hrun']
      have hs := ht.threads
      have hmaps' : os'.maps = os.maps := by rw [hm'.maps, hm.maps, hmaps]
      refine ⟨_, _, v, tlsf, rfl, rfl, rfl, .inr ⟨Nat.succ_ne_zero _, _, (ht.left.map hm).good,
        (ht.right.map hm').good, ht.init, ⟨hs.init, hs.tls, hs.registry, hs.next, hs.id, hmaps'⟩, ht.arenaId,
        ?_⟩⟩
      exact ht.header_frame (header_fresh (r := ⟨base, hugeTotal n⟩) ht.left ht.init hm.grant hm.bytes)
        (header_fresh (v := v.setTlsf tlsf) (r := ⟨base, hugeTotal n⟩) ht.right ht.init_right hm'.grant hm'.bytes)

/-- **`ferrum_malloc`** gives twins the same block. -/
theorem malloc (ht : Twins h₁ h₂ v tlsf l) (t n : Nat) (ans : Answers) :
    Agree n l (ferrumMalloc h₁ t n ans) (ferrumMalloc h₂ t n ans) := by
  by_cases h0 : n = 0
  · have hnull : ∀ h : Heap, ferrumMalloc h t n ans = .ok (h, 0, .null) := fun _ => if_pos h0
    rw [hnull, hnull]
    exact ⟨_, _, v, tlsf, rfl, rfl, rfl, .inl ⟨rfl, ht⟩⟩
  have hpos := Nat.pos_of_ne_zero h0
  rw [ferrumMalloc_eq ht.init hpos, ferrumMalloc_eq ht.init_right hpos]
  by_cases hhuge : n ≥ hugeAllocThreshold
  · rw [if_pos hhuge, if_pos hhuge]
    exact ht.huge n ans.huge
  rw [if_neg hhuge, if_neg hhuge]
  have hlt := Nat.lt_of_not_le hhuge
  by_cases hsmall : n ≤ slabMaxSize
  · rw [if_pos hsmall, if_pos hsmall]
    obtain ⟨h₁', h₂', v', o, hrun, hrun', ht', hsome⟩ := ht.ready t ans.cache
    rw [hrun, hrun']
    cases o with
    | none => exact ht'.slow hpos hlt
    | some p =>
      obtain ⟨hp, htls⟩ := hsome p rfl
      simp only [Exec.bind_ok]
      rcases ht'.serve htls hp (sizeToClass_of_le hsmall) with
        ⟨hnull, hnull'⟩ | ⟨h₁'', h₂'', v'', x, hserved, hserved', hx, ht''⟩
      · -- no slot: the slow path is next
        simp only [hnull, hnull', Exec.bind_ok, ne_eq, not_true_eq_false, if_false]
        exact ht'.slow hpos hlt
      · simp only [hserved, hserved', Exec.bind_ok, if_pos hx, Exec.pure_eq]
        exact ⟨_, _, v'', tlsf, rfl, rfl, rfl, .inr ⟨hx, _, ht''⟩⟩
  · rw [if_neg hsmall, if_neg hsmall]
    exact ht.slow hpos hlt

/-! ## Freeing calls -/

/-- **Twins take a block back in the same way.** -/
theorem freed {h₁' h₂' : Heap} {v₁ v₂ : View} {cache : Option Nat} (ht : Twins h₁ h₂ v tlsf l) (hb : b ∈ l)
    (hf₁ : Freed h₁ v b cache h₁' v₁) (hf₂ : Freed h₂ (v.setTlsf tlsf) b cache h₂' v₂) :
    ∃ tlsf', Twins h₁' h₂' v₁ tlsf' (l.erase b) := by
  have hslots := ht.arena_left.slabs
  cases hf₁ with
  | put hvia hptr hp hown =>
    cases hf₂ with
    | put hvia' hptr' hp' hown' =>
      obtain ⟨rfl, rfl, rfl⟩ := hslots.slot_eq hp.used hp'.used (hptr.symm.trans hptr')
      have hheader := ht.header_frame (hp.header_eq ht.arena_left) (hp'.header_eq ht.arena_right)
      have hg₁ := (ht.left.put hp hb hvia hptr).good
      have hg₂ := (ht.right.put hp' hb hvia' hptr').good
      rename_i s₁ m₁ s₂ m₂
      have hs := ht.threads.both (.setSlab h₁ cache s₁ m₁) (.setSlab h₂ cache s₂ m₂)
      cases cache <;> exact ⟨tlsf, hg₁, hg₂, ht.init, hs, ht.arenaId, hheader⟩
    | push hvia' hptr' hinit hu hcache hother =>
      -- the owner of the page is one and the same
      obtain ⟨rfl, rfl, rfl⟩ := hslots.slot_eq hp.used hu (hptr.symm.trans hptr')
      exact absurd ((hown _ hcache).trans (ht.threads.id _).symm) hother
    | release hvia' | bump hvia' | unmap hvia' | leak hvia' => nomatch hvia.symm.trans hvia'
  | push hvia hptr hinit hu hcache hother =>
    rename_i p c i j
    cases hf₂ with
    | put hvia' hptr' hp' hown' =>
      obtain ⟨rfl, rfl, rfl⟩ := hslots.slot_eq hu hp'.used (hptr.symm.trans hptr')
      exact absurd ((hown' _ hcache).trans (ht.threads.id _)) hother
    | push hvia' hptr' hinit' hu' _ _ =>
      obtain ⟨rfl, rfl, rfl⟩ := hslots.slot_eq hu hu' (hptr.symm.trans hptr')
      have hg₂ := (ht.right.push hinit' hu' hb hvia' hptr').good
      have hreg : h₂.registry ((v.setTlsf tlsf).g.owner i) = h₁.registry (v.g.owner i) :=
        congrFun ht.threads.registry _
      rw [hreg] at hg₂ ⊢
      refine ⟨tlsf, (ht.left.push hinit hu hb hvia hptr).good, hg₂, ht.init,
        ht.threads.both (.push ..) (.push ..), ht.arenaId, ht.header_frame ?_ ?_⟩
      · exact header_extent ht.left ht.init hb (ht.left.link_extent hinit hu hb hvia _)
      · exact header_extent (v := v.setTlsf tlsf) ht.right ht.init_right hb
          (ht.right.link_extent hinit' hu' hb hvia' _)
    | release hvia' | bump hvia' | unmap hvia' | leak hvia' => nomatch hvia.symm.trans hvia'
  | release hvia hinit hr =>
    cases hf₂ with
    | release hvia' hinit' hr' =>
      rename_i t₁ m₁ bs₁ L₁ t₂ m₂ bs₂ L₂
      have hr₂ : Tlsf.Released tlsf h₂.os.bytes v.bs v.L b.ptr t₂ m₂ bs₂ L₂ := hr'
      obtain ⟨rfl, rfl⟩ := hr.unique hr₂ ht.start_eq
      have ha₁ := ht.arena_left
      have ha₂ := ht.arena_right
      exact ⟨t₂, (ht.left.release hinit hb hr).good, (ht.right.release hinit' hb hr').good, ht.init,
        ht.threads.both (.setTlsf ..) (.setTlsf ..), ht.arenaId, ht.header_frame
          (header_pool ha₁ hr.frame fun z hz => ha₁.pool.zone_both (ha₁.released hr) hr.start_eq hz)
          (header_pool (v := v.setTlsf tlsf) ha₂ hr'.frame fun z hz =>
            ha₂.pool.zone_both (ha₂.released hr') hr'.start_eq hz)⟩
    | put hvia' | push hvia' | bump hvia' | unmap hvia' | leak hvia' => nomatch hvia.symm.trans hvia'
  | bump hvia =>
    cases hf₂ with
    | bump _ => exact ⟨tlsf, (ht.left.leak b).good, (ht.right.leak b).good, ht.init, ht.threads, ht.arenaId, ht.header⟩
    | put hvia' | push hvia' | release hvia' | unmap hvia' | leak hvia' => nomatch hvia.symm.trans hvia'
  | unmap hvia hne =>
    cases hf₂ with
    | unmap hvia' _ =>
      have hs := ht.threads
      exact ⟨tlsf, (ht.left.unmap hb hvia).good, (ht.right.unmap hb hvia').good, ht.init,
        ⟨hs.init, hs.tls, hs.registry, hs.next, hs.id, congrArg (fun maps => maps.erase b.region) hs.maps⟩,
        ht.arenaId, ht.header⟩
    | leak _ hbase _ => exact absurd hbase hne
    | put hvia' | push hvia' | release hvia' | bump hvia' => nomatch hvia.symm.trans hvia'
  | leak hvia hbase _ =>
    cases hf₂ with
    | leak _ _ _ =>
      exact ⟨tlsf, (ht.left.leak b).good, (ht.right.leak b).good, ht.init, ht.threads, ht.arenaId, ht.header⟩
    | unmap _ hne => exact absurd hbase hne
    | put hvia' | push hvia' | release hvia' | bump hvia' => nomatch hvia.symm.trans hvia'

/-- **`ferrum_free`** of a live block does the same to twins. -/
theorem free (ht : Twins h₁ h₂ v tlsf l) (hb : b ∈ l) (t : Nat) (ans : Answers) :
    ∃ h₁' h₂' v' tlsf', ferrumFree h₁ t b.ptr ans = .ok h₁' ∧ ferrumFree h₂ t b.ptr ans = .ok h₂' ∧
      Twins h₁' h₂' v' tlsf' (l.erase b) := by
  have hptr := ht.left.ptr_ne hb
  obtain ⟨h₁', h₂', v', o, hget, hget', ht', hsome⟩ := ht.lookup t ans.cache
  have hsome' : ∀ p, o = some p → p ≠ 0 ∧ h₂'.tls t = p := fun p hp =>
    ⟨(hsome p hp).1, (congrFun ht'.threads.tls t).trans (hsome p hp).2⟩
  rw [ferrumFree_eq ht.init hptr hget, ferrumFree_eq ht.init_right hptr hget']
  obtain ⟨h₁'', v₁, hrun, hf₁⟩ := freeBlock_spec ht'.left ht'.init hb o hsome
  obtain ⟨h₂'', v₂, hrun', hf₂⟩ := freeBlock_spec ht'.right ht'.init_right hb o hsome'
  obtain ⟨tlsf', ht''⟩ := ht'.freed hb hf₁ hf₂
  exact ⟨h₁'', h₂'', v₁, tlsf', hrun, hrun', ht''⟩

end Twins

/-- **Zeroing** writes into the new block of both. -/
theorem Agree.zero {x₁ x₂ : Exec (Heap × Nat × Backend)} (ha : Agree n l x₁ x₂) (hn : n ≤ 2 ^ 64 - 8192) :
    Agree n l (do let r ← x₁; return zeroBlock r n) (do let r ← x₂; return zeroBlock r n) := by
  obtain ⟨r₁, r₂, v, tlsf, rfl, rfl, heq, hcase⟩ := ha
  rcases hcase with ⟨h0, ht⟩ | ⟨hne, cap, ht⟩
  · have h0' : r₂.2.1 = 0 := (congrArg Prod.fst heq).trans h0
    refine ⟨r₁, r₂, v, tlsf, ?_, ?_, heq, .inl ⟨h0, ht⟩⟩
    · exact congrArg Except.ok (if_neg (not_not.mpr h0))
    · exact congrArg Except.ok (if_neg (not_not.mpr h0'))
  · have hp : r₂.2.1 = r₁.2.1 := congrArg Prod.fst heq
    refine ⟨(r₁.1.setBytes (fill r₁.1.os.bytes r₁.2.1 n 0), r₁.2),
      (r₂.1.setBytes (fill r₂.1.os.bytes r₁.2.1 n 0), r₂.2), v, tlsf, ?_, ?_, heq, .inr ⟨hne, cap, ?_⟩⟩
    · exact congrArg Except.ok (if_pos hne)
    · rw [← hp] at hne ⊢
      exact congrArg Except.ok (if_pos hne)
    · have hleft := ht.write_left List.mem_cons_self (ht.left.fill_eqOn List.mem_cons_self hn 0)
      exact hleft.write_right List.mem_cons_self (hleft.right.fill_eqOn List.mem_cons_self hn 0)

end FerrumAlloc
