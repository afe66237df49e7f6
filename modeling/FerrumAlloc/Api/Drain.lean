/-
# FerrumAlloc.Api.Drain -- draining a stack of remote frees

The drain before an allocation hands every node of the stack to the slab of the cache, top first. `Drains`
is that sequence of steps, one act each. The loop of the source is shown to be such a sequence once, by
induction on the stack (`drainLoop_drains`); what a drain changes, and what not, follows by induction on
`Drains`.
-/
import FerrumAlloc.Api.Start

namespace FerrumAlloc

open Lib

variable {h : Heap} {v : View} {l : List Block} {t p : Nat} {D : Prop} {E : View → Nat → Prop} {m : Mem}
  {c c' : Conf}

/-! ## The steps of a drain -/

/-- **A drain** of the stack of the cache at `p`: the slab takes the top, until there is none. -/
inductive Drains (p : Nat) : Conf → Conf → Prop
  | done {c : Conf} : c.heap.remote p = 0 → Drains p c c
  | pop {h : Heap} {v : View} {l : List Block} {c i j : Nat} {s : SlabAllocator} {m : Mem} {c' : Conf} :
      Puts h v (some p) c i j s m → h.remote p = v.arena.slotAddr i c j →
      Drains p ⟨h.pop p s m, v.pop p c i j, l⟩ c' → Drains p ⟨h, v, l⟩ c'

/-- The stacks are shorter than the arena. -/
theorem SlabSide.stack_length {slabs : Option Nat → SlabAllocator} {remote : Nat → Nat}
    (hs : SlabSide m slabs remote v) (p : Nat) : (v.stack p).length ≤ defaultArenaSize := by
  have hsub : v.stack p ⊆ List.range' v.arena.base 2097152 := by
    intro x hx
    obtain ⟨i, c, j, hu, rfl⟩ := hs.stacked_used ((hs.stack p).role x hx)
    have hend := hs.inv.used_end_le hu
    have h8 := (slots_of_lt (hs.inv.used_lt hu)).size_ge
    rw [List.mem_range'_1]
    omega
  have hle := (List.subperm_of_subset (hs.stack p).nodup hsub).length_le
  rw [List.length_range'] at hle
  exact hle

/-- One step of the drain loop: the slab takes the top of the stack. -/
theorem Good.pop_run (hg : Good h v l) (hinit : h.arenaInit = true) (hp : p ∈ v.made)
    (hne : h.remote p ≠ 0) :
    ∃ s m c i j, (h.caches p).slab.free h.os.bytes (h.remote p) v.arena = .ok (s, m) ∧
      Puts h v (some p) c i j s m ∧ h.remote p = v.arena.slotAddr i c j ∧
      ((v.pop p c i j).stack p).length + 1 = (v.stack p).length := by
  have ha := hg.arena hinit
  obtain ⟨rest, hstack, _⟩ := (ha.slabs.stack p).tail hne
  obtain ⟨i, c, j, hu, htop⟩ := ha.slabs.stacked_used ((ha.slabs.stack p).head_role hne)
  obtain ⟨s, m, hrun, hinv, hbytes⟩ := ha.slabs.inv.freeNoArena_spec hu (some p)
  refine ⟨s, m, c, i, j, ?_, ⟨hinit, fun q hq => Option.some.inj hq ▸ hp, hu, hinv, hbytes⟩, htop, ?_⟩
  · have hfree := ha.slabs.inv.free_spec hu (some p)
    rw [htop]
    exact hfree.trans hrun
  · show (Function.update v.stack p (v.stack p).tail p).length + 1 = _
    rw [Function.update_self, hstack]
    rfl

namespace Heap

/-- Storing back a cache that has been drained. -/
def drained (h : Heap) (p : Nat) (s : SlabAllocator) (m : Mem) : Heap :=
  (h.setCache p { h.caches p with slab := s, remoteFrees := 0 }).setBytes m

theorem unlock_drained (hl : h.arenaLock = false) (p : Nat) (s : SlabAllocator) (m : Mem) :
    spinUnlock ((h.locked.setCache p { h.caches p with slab := s, remoteFrees := 0 }).setBytes m) =
      h.drained p s m := by
  cases h
  simp only at hl
  subst hl
  rfl

theorem drained_self (h0 : h.remote p = 0) : h.drained p (h.caches p).slab h.os.bytes = h := by
  have hcache : ({ h.caches p with remoteFrees := 0 } : ThreadCache) = h.caches p := by
    rw [← h0]
    rfl
  unfold drained setCache
  rw [hcache, Function.update_eq_self]
  rfl

theorem drained_pop (s s' : SlabAllocator) (m m' : Mem) :
    (h.pop p s m).drained p s' m' = h.drained p s' m' := by
  unfold drained pop setCache setBytes
  simp only [Function.update_self, Function.update_idem]

end Heap

/-- **The drain loop** is a drain. -/
theorem drainLoop_drains (n : Nat) : ∀ {h : Heap} {v : View}, Good h v l → h.arenaInit = true →
    p ∈ v.made → (v.stack p).length ≤ n →
    ∃ s m v', drainLoop v.arena n (h.remote p) (h.caches p).slab h.os.bytes = .ok (s, m) ∧
      Drains p ⟨h, v, l⟩ ⟨h.drained p s m, v', l⟩ := by
  induction n with
  | zero =>
    intro h v hg hinit hp hlen
    have h0 : h.remote p = 0 := by
      have hchain := ((hg.arena hinit).slabs.stack p).chain
      rw [List.eq_nil_of_length_eq_zero (Nat.eq_zero_of_le_zero hlen)] at hchain
      exact hchain
    refine ⟨(h.caches p).slab, h.os.bytes, v, ?_, ?_⟩
    · unfold drainLoop
      rw [if_pos h0]
    · rw [Heap.drained_self h0]
      exact .done h0
  | succ n ih =>
    intro h v hg hinit hp hlen
    by_cases h0 : h.remote p = 0
    · refine ⟨(h.caches p).slab, h.os.bytes, v, ?_, ?_⟩
      · unfold drainLoop
        rw [if_pos h0]
      · rw [Heap.drained_self h0]
        exact .done h0
    · obtain ⟨s₁, m₁, c, i, j, hrun, hputs, htop, hlen₁⟩ := hg.pop_run hinit hp h0
      have hg₁ : Good (h.pop p s₁ m₁) (v.pop p c i j) l := (hg.pop hputs htop).good
      obtain ⟨s, m, v', hloop, hdrains⟩ := ih hg₁ hinit hp (by omega)
      refine ⟨s, m, v', ?_, ?_⟩
      · have hslab : ((h.pop p s₁ m₁).caches p).slab = s₁ := by
          have hfam := congrFun (Heap.slabs_pop h p s₁ m₁) (some p)
          rw [Function.update_self] at hfam
          exact hfam
        have hremote : (h.pop p s₁ m₁).remote p = read64 h.os.bytes (h.remote p) := by
          rw [Heap.remote_pop, Function.update_self]
        rw [hslab, hremote] at hloop
        unfold drainLoop
        rw [if_neg h0]
        simp only [hrun, Exec.bind_ok]
        exact hloop
      · rw [Heap.drained_pop] at hdrains
        exact .pop hputs htop hdrains

/-- **The drain before an allocation** is a drain. -/
theorem drainCache_drains (hg : Good h v l) (hinit : h.arenaInit = true) (hp : p ∈ v.made) :
    ∃ s m v', drainCache h p = .ok (h.drained p s m) ∧ Drains p ⟨h, v, l⟩ ⟨h.drained p s m, v', l⟩ := by
  have ha := hg.arena hinit
  unfold drainCache
  by_cases h0 : (h.caches p).remoteFrees = 0
  · have hsame : h.drained p (h.caches p).slab h.os.bytes = h := Heap.drained_self h0
    rw [if_pos h0]
    refine ⟨(h.caches p).slab, h.os.bytes, v, ?_, ?_⟩
    · rw [hsame]
    · rw [hsame]
      exact .done h0
  · rw [if_neg h0]
    obtain ⟨s, m, v', hloop, hdrains⟩ := drainLoop_drains defaultArenaSize hg hinit hp
      (ha.slabs.stack_length p)
    refine ⟨s, m, v', ?_, hdrains⟩
    rw [Heap.spinLock_eq hg.lock]
    have harena : h.locked.globalArena = some v.arena := ha.arena
    have hdrain : (h.locked.caches p).drainRemoteFrees h.locked.os.bytes v.arena =
        .ok ({ h.caches p with slab := s, remoteFrees := 0 }, m) := by
      have hloop' : drainLoop v.arena defaultArenaSize (h.locked.caches p).remoteFrees
        (h.locked.caches p).slab h.locked.os.bytes = .ok (s, m) := hloop
      unfold ThreadCache.drainRemoteFrees
      simp only [hloop']
      rfl
    simp only [Exec.bind_ok, harena, derefGlobal, hdrain, Exec.pure_eq]
    exact congrArg Except.ok (Heap.unlock_drained hg.lock p s m)

/-! ## What a drain changes -/

namespace Drains

theorem live_eq (hd : Drains p c c') : c'.live = c.live := by
  induction hd with
  | done _ => rfl
  | pop _ _ _ ih => exact ih

/-- The page counter does not move. -/
theorem next_eq (hd : Drains p c c') (hg : Good c.heap c.view c.live) :
    c.view.arena.nextFreePage c'.heap.os.bytes = c.view.arena.nextFreePage c.heap.os.bytes := by
  induction hd with
  | done _ => rfl
  | pop hputs htop _ ih =>
    have hg' := (hg.pop hputs htop).good
    exact (ih hg').trans (hputs.next_eq (hg.arena hputs.init))

/-- Nothing is written in the pool, nor outside the arena. -/
theorem bytes_eq (hd : Drains p c c') (hg : Good c.heap c.view c.live) {z : Nat}
    (hz : c.view.arena.zone z = .pool ∨ c.view.arena.zone z = .outside) :
    c'.heap.os.bytes z = c.heap.os.bytes z := by
  induction hd with
  | done _ => rfl
  | pop hputs htop _ ih =>
    have ha := hg.arena hputs.init
    refine (ih (hg.pop hputs htop).good hz).trans (hputs.bytes fun hz' => ?_)
    rcases ha.zone_freeBytes hputs.used hz' with hzone | hzone <;> rw [hzone] at hz <;> simp at hz

/-- A drain is a sequence of acts of the thread whose cache is drained. -/
theorem leads (hd : Drains p c c') (hg : Good c.heap c.view c.live) (htls : c.heap.tls t = p) :
    Leads t D E c c' := by
  induction hd with
  | done _ => exact .refl _
  | @pop h v l k i j s m c' hputs htop hd ih =>
    have hact : Act t D E ⟨h, v, l⟩ ⟨h.pop p s m, v.pop p k i j, l⟩ := .pop hputs htls htop
    refine (Leads.act hg hact).trans (ih (hact.kept hg).good htls) fun b _ hb => ?_
    rw [hd.live_eq] at hb
    exact hb

end Drains

/-! ## The cache of the thread -/

/-- What `ferrum_malloc` does before it looks for a slot: `get_or_create`, and the drain of the cache. -/
def readyCache (h : Heap) (t : Nat) (answer : Option Nat) : Exec (Heap × Option Nat) :=
  match getOrCreate h t answer with
  | (h, none) => .ok (h, none)
  | (h, some tc) => do
    let h ← drainCache h tc
    return (h, some tc)

/-- The small requests of `ferrum_malloc`, behind it. -/
theorem mallocSmall_eq (h : Heap) (t n : Nat) (answer : Option Nat) {k : Nat}
    (hk : sizeToClass n = some k) :
    mallocSmall h t n answer = (do
      let (h, o) ← readyCache h t answer
      match o with
      | none => .ok (h, 0, .null)
      | some tc => do
        let (h, p) ← cacheAlloc h tc k
        return (h, p, .slab k)) := by
  unfold mallocSmall readyCache
  rw [hk]
  rcases getOrCreate h t answer with ⟨h', _ | tc⟩
  · rfl
  · simp only
    cases drainCache h' tc <;> rfl

/-- **The three ways to a cache**: the thread gets none, it has one, which is drained, or it gets a new
one, which has nothing to drain. -/
theorem readyCache_spec (hg : Good h v l) (hinit : h.arenaInit = true) (t : Nat) (answer : Option Nat) :
    (Cacheless h t answer ∧ readyCache h t answer = .ok (h.attempt, none)) ∨
    (h.tls t ≠ 0 ∧ ∃ s m v', readyCache h t answer = .ok (h.drained (h.tls t) s m, some (h.tls t)) ∧
      Drains (h.tls t) ⟨h, v, l⟩ ⟨h.drained (h.tls t) s m, v', l⟩) ∨
    ∃ p m, answer = some p ∧ Creates h t p m ∧ readyCache h t answer = .ok (h.create t p m, some p) := by
  unfold readyCache
  rcases getOrCreate_spec hinit (hg.arena hinit).ready t answer with
    ⟨hne, hrun⟩ | ⟨hless, hrun⟩ | ⟨p, m, hans, hc, hrun⟩
  · right
    left
    obtain ⟨s, m, v', hdrain, hd⟩ := drainCache_drains hg hinit (hg.threads.tls t hne)
    refine ⟨hne, s, m, v', ?_, hd⟩
    simp only [hrun, hdrain, Exec.bind_ok, Exec.pure_eq]
  · left
    rw [hrun]
    exact ⟨hless, rfl⟩
  · right
    right
    refine ⟨p, m, hans, hc, ?_⟩
    have hempty : ((h.create t p m).caches p).remoteFrees = 0 := by
      show (Function.update h.caches p (ThreadCache.new h.nextThreadId) p).remoteFrees = 0
      rw [Function.update_self]
      rfl
    have hdrain : drainCache (h.create t p m) p = .ok (h.create t p m) := if_pos hempty
    simp only [hrun, hdrain, Exec.bind_ok, Exec.pure_eq]

/-- The same as acts. -/
theorem readyCache_leads (hg : Good h v l) (hinit : h.arenaInit = true) (t : Nat) (answer : Option Nat)
    (hdup : TakesId h t answer → D) :
    ∃ h' v' o, readyCache h t answer = .ok (h', o) ∧ Leads t D E ⟨h, v, l⟩ ⟨h', v', l⟩ ∧
      h'.arenaInit = true ∧ ∀ p, o = some p → p ≠ 0 ∧ h'.tls t = p := by
  rcases readyCache_spec hg hinit t answer with
    ⟨hless, hrun⟩ | ⟨hne, s, m, v', hrun, hd⟩ | ⟨p, m, hans, hc, hrun⟩
  · exact ⟨h.attempt, v, none, hrun, .act hg (.attempt hinit hless.1), hinit, nofun⟩
  · refine ⟨_, v', _, hrun, hd.leads hg rfl, hinit, fun p hp => ?_⟩
    obtain rfl := Option.some.inj hp
    exact ⟨hne, rfl⟩
  · refine ⟨_, { v with made := p :: v.made }, _, hrun, .act hg (.create hc fun hne => ?_), hinit,
      fun q hq => ?_⟩
    · exact hdup ⟨hc.none, ⟨hc.id, p, hans, hc.grant⟩, hne⟩
    · obtain rfl := Option.some.inj hq
      exact ⟨Nat.ne_of_gt hc.grant.1, Function.update_self ..⟩

end FerrumAlloc
