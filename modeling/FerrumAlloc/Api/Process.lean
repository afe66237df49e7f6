/-
# FerrumAlloc.Api.Process -- threads in the middle of their calls

A process is a heap, the blocks in the hands of clients, and for each thread the call that it is in, if any:
the steps that are left of its program. A thread starts a call on blocks of clients, takes one step, or
finishes; in between clients write into the blocks they hold. All interleavings of these are runs.

The runs that count are `Orderly`: in those the slab operations, which are single steps here, work on pages that
no other thread works on.

`Covered` is the invariant of the system: behind every state stands a `World` from which the program of every
thread is safe (`reachable_covered`).
-/
import FerrumAlloc.Api.CallSteps

namespace FerrumAlloc

open Lib World Discipline

/-! ## The system -/

/-- A call in progress. -/
structure Running where
  call : Call
  /-- The steps that are left. -/
  prog : Proc (Nat × Backend)
  /-- The bytes of the process when the call began; no program sees them. -/
  before : Mem

/-- The state of the process. -/
structure Process where
  heap : Heap
  /-- The blocks in the hands of clients. -/
  live : List Block
  calls : Nat → Option Running
  /-- The thread that took the lock, until it is released; no program sees it. -/
  owner : Option Nat

namespace Process

/-- Who holds the lock, after a step of thread `t` that leads from the heap `h` to `h'`. -/
def nextOwner (t : Nat) (h h' : Heap) (owner : Option Nat) : Option Nat :=
  if h'.arenaLock = h.arenaLock then owner else if h'.arenaLock = true then some t else none

/-- The blocks that clients keep when a call begins. -/
def keep (c : Call) (live : List Block) : List Block :=
  match c.arg with
  | none => live
  | some b => live.erase b

/-- The state behind the start of a call. -/
def enter (s : Process) (t : Nat) (c : Call) (ans : Nat → Answers) (weak : Nat → Bool) : Process :=
  ⟨s.heap, keep c s.live, Function.update s.calls t (some ⟨c, c.proc t ans weak, s.heap.os.bytes⟩), s.owner⟩

theorem enter_calls (s : Process) (t : Nat) (c : Call) (ans : Nat → Answers) (weak : Nat → Bool) :
    (s.enter t c ans weak).calls t = some ⟨c, c.proc t ans weak, s.heap.os.bytes⟩ := Function.update_self ..

inductive Event
  | start (t : Nat) (c : Call) (ans : Nat → Answers) (weak : Nat → Bool)
  | tick (t : Nat)
  | finish (t : Nat)
  | write (b : Block) (m : Mem)

/-- One step of the process. -/
inductive Step : Process → Event → Process → Prop
  | start {s : Process} {t : Nat} {c : Call} {ans : Nat → Answers} {weak : Nat → Bool} :
      s.calls t = none → (∀ b, c.arg = some b → b ∈ s.live) →
      Step s (.start t c ans weak) (s.enter t c ans weak)
  | tick {s : Process} {t : Nat} {r : Running} {h : Heap} {p : Proc (Nat × Backend)} :
      s.calls t = some r → r.prog.tick s.heap = .done h p →
      Step s (.tick t) { s with
        heap := h
        calls := Function.update s.calls t (some { r with prog := p })
        owner := nextOwner t s.heap h s.owner }
  | finish {s : Process} {t : Nat} {r : Running} {v : Nat × Backend} :
      s.calls t = some r → r.prog.value = some v →
      Step s (.finish t) { s with
        live := r.call.after r.call.arg.toList (s.heap, v) ++ s.live
        calls := Function.update s.calls t none }
  | write {s : Process} {b : Block} {m : Mem} : b ∈ s.live →
      Set.EqOn m s.heap.os.bytes b.extentᶜ → Step s (.write b m) { s with heap := s.heap.setBytes m }

/-- No call zeroes or copies past its block. -/
def inBounds (_ : Process) : Event → Prop
  | .start _ c _ _ => c.InBounds
  | _ => True

/-- A thread has a cache before it frees a slot. -/
def cached (s : Process) : Event → Prop
  | .start t c _ _ => c.FreesSlot → s.heap.tls t ≠ 0
  | _ => True

/-- **The event is in order**: it keeps within the bounds of blocks, no slot is freed by a thread without a cache,
and no two caches have one identifier. -/
structure Orderly (s : Process) (e : Event) : Prop where
  bounds : inBounds s e
  cached : Process.cached s e
  distinct : s.heap.Distinct

/-- A process in which nothing has happened yet. -/
def boot (bytes : Mem) : Process := ⟨Heap.boot bytes, [], fun _ => none, none⟩

/-- What the threads are to run. -/
def progs (s : Process) (j : Option Nat) : Option (Proc (Nat × Backend)) :=
  j.bind fun t => (s.calls t).map Running.prog

/-- What their calls are to come to. -/
def results (s : Process) (j : Option Nat) (v : Nat × Backend) (x : World) : Prop :=
  ∀ t r, j = some t → s.calls t = some r → r.call.Served t r.before v x

end Process

open Process

/-- The process, from its start, with all interleavings. -/
def process : System Process Process.Event where
  init s := ∃ bytes, s = Process.boot bytes
  step := Process.Step

namespace Process

variable {s : Process} {t : Nat} {r : Running} {o : Option Running} {j : Option Nat}

theorem progs_update (s : Process) (h : Heap) (l : List Block) (t : Nat) (o : Option Running)
    (owner : Option Nat) :
    progs ⟨h, l, Function.update s.calls t o, owner⟩ = Function.update s.progs (some t) (o.map Running.prog) := by
  funext j
  by_cases hj : j = some t
  · subst hj
    rw [Function.update_self]
    exact congrArg (Option.map Running.prog) (Function.update_self ..)
  · rw [Function.update_of_ne hj]
    cases j with
    | none => rfl
    | some t' =>
      exact congrArg (Option.map Running.prog) (Function.update_of_ne (fun heq => hj (congrArg some heq)) ..)

theorem results_some (hr : s.calls t = some r) : s.results (some t) = r.call.Served t r.before := by
  funext v x
  refine propext ⟨fun h => h t r rfl hr, fun h t' r' ht hr' => ?_⟩
  obtain rfl := Option.some.inj ht
  obtain rfl := Option.some.inj (hr.symm.trans hr')
  exact h

theorem results_of_ne (s : Process) (h : Heap) (l : List Block) (o : Option Running) (owner : Option Nat)
    (hj : j ≠ some t) : results ⟨h, l, Function.update s.calls t o, owner⟩ j = s.results j := by
  funext v x
  refine propext (forall_congr' fun t' => forall_congr' fun r' => forall_congr' fun ht => ?_)
  have hne : t' ≠ t := fun heq => hj (ht.trans (congrArg some heq))
  show (Function.update s.calls t o t' = _ → _) ↔ _
  rw [Function.update_of_ne hne]

end Process

/-! ## Handing blocks over -/

section

variable {x : World} {b b' : Block} {i j : Option Nat} {t : Nat} {m : Mem}

/-- The block at `p` goes from its holder to `j`. -/
def World.pass (x : World) (p : Nat) (j : Option Nat) : World := { x with holder := Function.update x.holder p j }

/-- The blocks of thread `t` go to the clients. -/
def World.release (x : World) (t : Nat) : World :=
  { x with holder := fun p => if x.holder p = some t then none else x.holder p }

/-- New holders, for all who neither gain nor lose a block. -/
theorem World.Rely.hold {holder : Nat → Option Nat}
    (h : ∀ b ∈ x.live, holder b.ptr = j ↔ x.holder b.ptr = j) : x.Rely j { x with holder := holder } :=
  .of_conf id (fun _ _ => Iff.rfl) (fun _ _ _ => rfl) h

theorem World.pass_mine (hx : x.Inv) (hb : b ∈ x.live) :
    (x.pass b.ptr j).Mine i b' ↔ (b' = b ∧ i = j) ∨ (b' ≠ b ∧ x.Mine i b') := by
  by_cases heq : b' = b
  · subst heq
    have hholder : (x.pass b'.ptr j).holder b'.ptr = j := Function.update_self ..
    exact ⟨fun h => .inl ⟨rfl, h.2.symm.trans hholder⟩,
      fun h => h.elim (fun h => ⟨hb, hholder.trans h.2.symm⟩) fun h => absurd rfl h.1⟩
  · have hiff : (x.pass b.ptr j).Mine i b' ↔ x.Mine i b' := and_congr_right fun hb' => by
      have hne : b'.ptr ≠ b.ptr := (hx.good.apart_of_ne hb' hb heq).1
      have hholder : (x.pass b.ptr j).holder b'.ptr = x.holder b'.ptr := Function.update_of_ne hne ..
      rw [hholder]
    exact hiff.trans ⟨fun h => .inr ⟨heq, h⟩, fun h => h.elim (fun h => absurd h.1 heq) And.right⟩

theorem World.pass_rely (hb : x.Mine i b) (hi : j ≠ i) (hj : j ≠ some t) :
    x.Rely j (x.pass b.ptr (some t)) := by
  refine .hold fun b' _ => ?_
  by_cases heq : b'.ptr = b.ptr
  · rw [heq, Function.update_self, hb.2]
    exact iff_of_false hj.symm hi.symm
  · rw [Function.update_of_ne heq]

theorem World.release_mine : (x.release t).Mine none b ↔ x.Mine none b ∨ x.Mine (some t) b := by
  unfold release Mine
  by_cases h : x.holder b.ptr = some t
  · simp [h]
  · simp [h]

theorem World.release_rely (hj : j ≠ none) (hjt : j ≠ some t) : x.Rely j (x.release t) := by
  refine .hold fun b' _ => ?_
  split
  · rename_i h
    rw [h]
    exact iff_of_false hj.symm hjt.symm
  · exact Iff.rfl

end

/-! ## The invariant -/

/-- **What stands behind a state of the process.** -/
structure Covered (s : Process) (x : World) : Prop where
  threads : world.Covers s.progs s.results s.heap x
  clients : ∀ b, x.Mine none b ↔ b ∈ s.live
  nodup : s.live.Nodup
  idle : ∀ t, s.calls t = none → ∀ b, ¬ x.Mine (some t) b
  owner : x.owner = s.owner
  locked : ∀ t, s.owner = some t → s.calls t ≠ none

namespace Covered

variable {s s' : Process} {x : World} {t : Nat} {r : Running} {v : Nat × Backend} {b : Block} {e : Process.Event}

theorem inv (hs : Covered s x) : x.Inv := hs.threads.inv

theorem shared (hs : Covered s x) : x.shared = s.heap := hs.threads.shared

theorem bytes (hs : Covered s x) : x.heap.os.bytes = s.heap.os.bytes :=
  congrArg (·.os.bytes) hs.shared

theorem mem (hs : Covered s x) (hb : b ∈ s.live) : b ∈ x.live := ((hs.clients b).mpr hb).1

/-- Before anything has happened. -/
theorem boot (bytes : Mem) : Covered (Process.boot bytes) ⟨Heap.boot bytes, .start, [], false, none, fun _ => none⟩ where
  threads := ⟨rfl, ⟨Good.boot bytes, ⟨nofun, fun _ _ _ _ hu => (by nomatch hu.1), nofun, nofun⟩, nofun,
      fun _ => rfl⟩, fun j p hj => by
    obtain ⟨t, _, hp⟩ := Option.bind_eq_some_iff.mp hj
    nomatch hp⟩
  clients b := ⟨And.left, fun hb => ⟨hb, rfl⟩⟩
  nodup := List.nodup_nil
  idle _ _ _ hb := nomatch hb.1
  owner := rfl
  locked _ h := nomatch h

/-- A thread in the middle of a call. -/
theorem safe (hs : Covered s x) (hr : s.calls t = some r) :
    world.Safe (some t) (r.call.Served t r.before) r.prog x :=
  (hs.threads.safe (some t) r.prog (congrArg (Option.map Running.prog) hr)).mono fun _ _ _ hv =>
    hv t r rfl hr

/-- What a thread that is in no call has in its hands. -/
theorem at_idle (hs : Covered s x) (ht : s.calls t = none) (m : Mem) : At t ∅ m false x := by
  refine ⟨fun b => iff_of_false (hs.idle t ht b) (Set.notMem_empty b), fun b hb => hb.elim,
    iff_of_false (fun hown => ?_) nofun, nofun⟩
  exact hs.locked t (hs.owner.symm.trans hown) ht

/-! ### Steps -/

/-- A call begins: its block goes into the hands of the thread. -/
theorem given (hs : Covered s x) (c : Call) (ht : s.calls t = none) (harg : ∀ b, c.arg = some b → b ∈ s.live) :
    ∃ holder : Nat → Option Nat, At t c.given s.heap.os.bytes false { x with holder := holder } ∧
      (∀ b, World.Mine { x with holder := holder } none b ↔ b ∈ keep c s.live) ∧
      ∀ t' ≠ t, x.Rely (some t') { x with holder := holder } := by
  have hat := hs.at_idle ht s.heap.os.bytes
  cases hc : c.arg with
  | none =>
    have hgiven : c.given = ∅ := by
      unfold Call.given
      rw [hc]
      exact Set.eq_empty_of_forall_notMem fun _ => nofun
    have hkeep : keep c s.live = s.live := by
      unfold keep
      rw [hc]
    rw [hgiven, hkeep]
    exact ⟨x.holder, hat, hs.clients, fun _ _ => .refl _ x⟩
  | some b =>
    have hb : x.Mine none b := (hs.clients b).mpr (harg b hc)
    have hkeep : keep c s.live = s.live.erase b := by
      unfold keep
      rw [hc]
    rw [Call.given_some hc, hkeep]
    refine ⟨(x.pass b.ptr (some t)).holder, ⟨fun b' => ?_, fun b' _ => ?_, hat.lock, nofun⟩, fun b' => ?_,
      fun t' ht' => World.pass_rely hb nofun fun heq => ht' (Option.some.inj heq)⟩
    · refine (World.pass_mine hs.inv hb.1).trans ⟨fun h => ?_, fun h => .inl ⟨h, rfl⟩⟩
      exact h.elim And.left fun h => absurd h.2 (hs.idle t ht b')
    · rw [← hs.bytes]
      exact Set.eqOn_refl _ _
    · refine (World.pass_mine hs.inv hb.1).trans (Iff.trans ?_ hs.nodup.mem_erase_iff.symm)
      exact ⟨fun h => h.elim (fun h => nomatch h.2) fun h => ⟨h.1, (hs.clients b').mp h.2⟩,
        fun h => .inr ⟨h.1, (hs.clients b').mpr h.2⟩⟩

theorem start (hs : Covered s x) {c : Call} (hc : c.InBounds) (hcached : c.FreesSlot → s.heap.tls t ≠ 0)
    (ans : Nat → Answers) (weak : Nat → Bool) (ht : s.calls t = none) (harg : ∀ b, c.arg = some b → b ∈ s.live) :
    ∃ x', Covered (s.enter t c ans weak) x' ∧ (∀ t' ≠ t, x.Rely (some t') x') ∧
      (c.FreesNone → world.Ends (some t) (c.Served t s.heap.os.bytes) (c.proc t ans weak) x') := by
  unfold enter
  obtain ⟨holder, hat, hclients, hrely⟩ := hs.given c ht harg
  have hother : ∀ t' ≠ t, Function.update s.calls t (some ⟨c, c.proc t ans weak, s.heap.os.bytes⟩) t' =
      s.calls t' := fun t' hne => Function.update_of_ne hne ..
  have hinv : World.Inv { x with holder := holder } := ⟨hs.inv.good, hs.inv.owned, hs.inv.init, hs.inv.agree⟩
  have hcached' : c.FreesSlot → Cached t { x with holder := holder } := by
    rw [← hs.shared] at hcached
    exact hcached
  have hptr : ∀ b, c.arg = some b → b.ptr ≠ 0 := fun b hb => hs.inv.good.ptr_ne (hs.mem (harg b hb))
  refine ⟨{ x with holder := holder },
    ⟨?_, hclients, ?_, fun t' ht' b hb => ?_, hs.owner, fun t' ht' => ?_⟩, hrely,
    fun hnone => (Call.proc_triple c hc hptr ans (fun _ => hnone) _ hinv ⟨hat, hcached'⟩).2 trivial⟩
  · -- the others go on, and the program of the call is safe
    have hcov := hs.threads.outside hinv fun j hj => ?_
    · have hshared : world.shared { x with holder := holder } = s.heap := hs.shared
      rw [hshared] at hcov
      rw [progs_update]
      refine hcov.spawn (fun j hj => results_of_ne s _ _ _ _ hj) ?_
      rw [results_some (Function.update_self ..)]
      exact (Call.proc_triple c hc hptr ans False.elim _ hinv ⟨hat, hcached'⟩).1
    · cases j with
      | none => exact absurd rfl hj
      | some t' =>
        refine hrely t' fun heq => hj ?_
        show (s.calls t').map _ = none
        rw [heq, ht]
        rfl
  · show (keep c s.live).Nodup
    unfold keep
    cases c.arg with
    | none => exact hs.nodup
    | some b => exact hs.nodup.erase b
  · have hne : t' ≠ t := by
      rintro rfl
      nomatch (Function.update_self ..).symm.trans ht'
    exact hs.idle t' ((hother t' hne).symm.trans ht') b (((hrely t' hne).mine b).mp hb)
  · show Function.update s.calls t _ t' ≠ none
    by_cases hne : t' = t
    · rw [hne, Function.update_self]
      nofun
    · rw [hother t' hne]
      exact hs.locked t' ht'

/-- The lock of the shared heap shows whether it is held. -/
theorem lock_eq (hs : Covered s x) : s.heap.arenaLock = s.owner.isSome := by
  rw [← hs.owner, ← hs.shared]
  rfl

/-- Who holds the lock after a step is known from the flag. -/
theorem nextOwner_eq {h : Heap} {z : World} (hs : Covered s x) (hz : z.shared = h)
    (hrely : ∀ j, j ≠ some t → x.Rely j z) : z.owner = nextOwner t s.heap h s.owner := by
  have hflag : h.arenaLock = z.owner.isSome := by
    rw [← hz]
    rfl
  have hother : ∀ t', t' ≠ t → (z.owner = some t' ↔ s.owner = some t') := fun t' ht' => by
    rw [← hs.owner]
    exact (hrely (some t') fun heq => ht' (Option.some.inj heq)).owner t' rfl
  unfold nextOwner
  rw [hflag, hs.lock_eq]
  cases hzo : z.owner with
  | none =>
    cases hso : s.owner with
    | none => rfl
    | some t' => rfl
  | some t' =>
    cases hso : s.owner with
    | none =>
      by_cases ht' : t' = t
      · rw [ht']
        rfl
      · nomatch hso.symm.trans ((hother t' ht').mp hzo)
    | some t'' =>
      have hsame : (some t').isSome = (some t'').isSome := rfl
      rw [if_pos hsame]
      by_cases ht' : t' = t
      · by_cases ht'' : t'' = t
        · rw [ht', ht'']
        · exact hzo.symm.trans ((hother t'' ht'').mpr hso)
      · exact ((hother t' ht').mp hzo).symm.trans hso

/-- **A move of a thread**, to a world from which what is left of its call is safe. -/
theorem advance (hs : Covered s x) (hr : s.calls t = some r) {z : World} {p : Proc (Nat × Backend)}
    (hz : world.Moves (some t) x z) (hsafe : world.Safe (some t) (r.call.Served t r.before) p z) :
    Covered ⟨z.shared, s.live, Function.update s.calls t (some ⟨r.call, p, r.before⟩),
      nextOwner t s.heap z.shared s.owner⟩ z := by
  have hsafe' : world.Safe (some t) (s.results (some t)) p z := by
    rw [results_some hr]
    exact hsafe
  have hcov := hs.threads.advance hz hsafe'
  have howner := hs.nextOwner_eq rfl hz.others
  have hother : ∀ t' ≠ t, Function.update s.calls t (some ⟨r.call, p, r.before⟩) t' = s.calls t' :=
    fun t' hne => Function.update_of_ne hne ..
  have hrely : ∀ t' ≠ t, x.Rely (some t') z := fun t' hne =>
    hz.others (some t') fun heq => hne (Option.some.inj heq)
  refine ⟨?_, fun b => ?_, hs.nodup, fun t' ht' b hb => ?_, howner, fun t' ht' => ?_⟩
  · have hresults : results ⟨z.shared, s.live, Function.update s.calls t (some ⟨r.call, p, r.before⟩),
        nextOwner t s.heap z.shared s.owner⟩ = s.results := by
      funext j
      by_cases hj : j = some t
      · rw [hj, results_some hr]
        exact results_some (r := ⟨r.call, p, r.before⟩) (Function.update_self ..)
      · exact results_of_ne s _ _ _ _ hj
    rw [progs_update, hresults]
    exact hcov
  · exact ((hz.others none nofun).mine b).trans (hs.clients b)
  · have hne : t' ≠ t := by
      rintro rfl
      nomatch (Function.update_self ..).symm.trans ht'
    exact hs.idle t' ((hother t' hne).symm.trans ht') b (((hrely t' hne).mine b).mp hb)
  · show Function.update s.calls t _ t' ≠ none
    by_cases hne : t' = t
    · rw [hne, Function.update_self]
      nofun
    · rw [hother t' hne]
      refine hs.locked t' ?_
      rw [← hs.owner]
      exact ((hrely t' hne).owner t' rfl).mp (howner.trans ht')

/-- **A thread takes a step.** -/
theorem tick (hs : Covered s x) (hr : s.calls t = some r) {h : Heap} {p : Proc (Nat × Backend)}
    (hp : r.prog.tick s.heap = .done h p) :
    ∃ z, Covered ⟨h, s.live, Function.update s.calls t (some ⟨r.call, p, r.before⟩),
      nextOwner t s.heap h s.owner⟩ z ∧ ∀ j, j ≠ some t → x.Rely j z := by
  have hprog := (Safe.fixed world (some t) (r.call.Served t r.before)).here (hs.safe hr) hs.inv
  rw [← hs.shared] at hp
  obtain ⟨z, rfl, hz, hsafe⟩ := hprog.done h p hp
  exact ⟨z, hs.advance hr hz hsafe, hz.others⟩

/-- What a step leaves to the other threads, as all threads see it. -/
theorem tick_caches {z : World} (hs : Covered s x) (hz : Covered s' z) (hrely : ∀ j, j ≠ some t → x.Rely j z) :
    SameCaches s.heap s'.heap ∧ ∀ t', t' ≠ t → s'.heap.tls t' = s.heap.tls t' := by
  rw [← hs.shared, ← hz.shared]
  exact ⟨(hrely none nofun).caches, fun t' hne =>
    (hrely (some t') fun heq => hne (Option.some.inj heq)).tls t' rfl⟩

/-- The result of a call that has returned. -/
theorem served (hs : Covered s x) (hr : s.calls t = some r) (hv : r.prog.value = some v) :
    r.call.Served t r.before v x := by
  have hprog : s.progs (some t) = some r.prog := congrArg (Option.map Running.prog) hr
  exact hs.threads.value hprog hv t r rfl hr

/-- The blocks that a call has handed back, as the shared heap shows them. -/
theorem after_eq (hs : Covered s x) (c : Call) (l : List Block) (v : Nat × Backend) :
    c.after l (x.heap, v) = c.after l (s.heap, v) := by
  unfold Call.after newBlock
  rw [hs.bytes]

/-- **A call returns**: its blocks go to the clients. -/
theorem finish (hs : Covered s x) (hr : s.calls t = some r) (hv : r.prog.value = some v) :
    Covered ⟨s.heap, r.call.after r.call.arg.toList (s.heap, v) ++ s.live, Function.update s.calls t none,
      s.owner⟩ (x.release t) := by
  obtain ⟨hnodup, _, _, hat⟩ := hs.served hr hv
  have hback : ∀ b, x.Mine (some t) b ↔ b ∈ r.call.after r.call.arg.toList (s.heap, v) := by
    intro b
    rw [← hs.after_eq]
    exact hat.mine b
  have hother : ∀ t' ≠ t, Function.update s.calls t none t' = s.calls t' :=
    fun t' hne => Function.update_of_ne hne ..
  rw [hs.after_eq] at hnodup
  refine ⟨?_, fun b => ?_, ?_, fun t' ht' b hb => ?_, hs.owner, fun t' ht' => ?_⟩
  · have hcov := (hs.threads.retire (i := some t) fun j hj => results_of_ne s s.heap
      (r.call.after r.call.arg.toList (s.heap, v) ++ s.live) none s.owner hj).outside
      (z := x.release t) ⟨hs.inv.good, hs.inv.owned, hs.inv.init, hs.inv.agree⟩ fun j hj => ?_
    · have hshared : world.shared (x.release t) = s.heap := hs.shared
      rw [hshared] at hcov
      rw [progs_update]
      exact hcov
    · refine World.release_rely (fun hnone => hj ?_) fun heq => hj ?_
      · have hne : (none : Option Nat) ≠ some t := nofun
        rw [hnone, Function.update_of_ne hne]
        rfl
      · rw [heq, Function.update_self]
  · rw [World.release_mine, hback b, hs.clients b, List.mem_append]
    exact or_comm
  · refine List.nodup_append.mpr ⟨hnodup, hs.nodup, fun b hb b' hb' heq => ?_⟩
    subst heq
    exact nomatch ((hback b).mpr hb).2.symm.trans ((hs.clients b).mpr hb').2
  · by_cases hne : t' = t
    · subst hne
      have hheld : (if x.holder b.ptr = some t' then none else x.holder b.ptr) = some t' := hb.2
      split at hheld
      · nomatch hheld
      · rename_i hno
        exact hno hheld
    · exact hs.idle t' ((hother t' hne).symm.trans ht') b
        (((World.release_rely (j := some t') nofun fun heq => hne (Option.some.inj heq)).mine b).mp hb)
  · have hne : t' ≠ t := by
      rintro rfl
      exact nomatch hat.lock.mp (hs.owner.trans ht')
    show Function.update s.calls t none t' ≠ none
    rw [hother t' hne]
    exact hs.locked t' ht'

/-- **A client writes** into its block. -/
theorem write (hs : Covered s x) (hb : b ∈ s.live) {m : Mem} (hm : Set.EqOn m s.heap.os.bytes b.extentᶜ) :
    Covered ⟨s.heap.setBytes m, s.live, s.calls, s.owner⟩ { x with heap := x.heap.setBytes m } := by
  have hmine : x.Mine none b := (hs.clients b).mpr hb
  rw [← hs.bytes] at hm
  have hmoves := hmine.store hs.inv hm
  have hcov := hs.threads.outside hmoves.inv fun j hj => hmoves.others j fun hnone => hj ?_
  · have hshared : world.shared { x with heap := x.heap.setBytes m } = s.heap.setBytes m :=
      congrArg (·.setBytes m) hs.shared
    rw [hshared] at hcov
    exact ⟨hcov, hs.clients, hs.nodup, hs.idle, hs.owner, hs.locked⟩
  · rw [hnone]
    rfl

/-- **Step lemma.** -/
theorem step (hs : Covered s x) (he : Process.Step s e s') (hc : Process.Orderly s e) : ∃ x', Covered s' x' := by
  cases he with
  | start ht harg =>
    obtain ⟨x', hx', _⟩ := hs.start hc.bounds hc.cached _ _ ht harg
    exact ⟨x', hx'⟩
  | tick hr hp =>
    obtain ⟨z, hz, _⟩ := hs.tick hr hp
    exact ⟨z, hz⟩
  | finish hr hv => exact ⟨_, hs.finish hr hv⟩
  | write hb hm => exact ⟨_, hs.write hb hm⟩

end Covered

/-- **Run lemma.** Behind every state that is reached, in all interleavings, stands a world. -/
theorem reachable_covered {s : Process} (hr : (process.restrict Process.Orderly).Reachable s) : ∃ x, Covered s x := by
  refine System.Reachable.invariant (I := fun s => ∃ x, Covered s x) ?_ ?_ hr
  · rintro _ ⟨bytes, rfl⟩
    exact ⟨_, .boot bytes⟩
  · rintro s e s' _ ⟨x, hx⟩ ⟨hstep, hc⟩
    exact hx.step hstep hc

end FerrumAlloc
