/-
# FerrumAlloc.Api.Interleaving -- what holds in all interleavings

Threads run their calls step by step, in any order (`Api.Process`). In every state that is reached, the blocks of
clients are apart and mapped, and nobody but their client changes a byte of them (`interleaved_keeps`); no step
faults, but for lack of an arena; the lock keeps the others away from what it guards, and nobody waits for a
thread that waits itself; a call that frees nothing comes to an end (`interleaved_ends`); and a call that has
returned has zeroed or copied what it should have.

Between calls the process is one of complete calls: the heap has its whole invariant again
(`Covered.quiet_good`), and a call alone returns what the function of `Api.Model` returns.
-/
import FerrumAlloc.Api.Solo
import FerrumAlloc.Api.Sizes
import FerrumAlloc.Tlsf.Determined

namespace FerrumAlloc

open Lib World Discipline

variable {s s' : Process} {x : World} {t n : Nat} {r : Running} {v : Nat × Backend} {b : Block} {h h' : Heap}
  {w : View} {l l' : List Block} {weak : Nat → Bool}

/-- The event is not about `b`: no call is given it, and no client writes into it. -/
def Process.Spares (b : Block) : Process.Event → Prop
  | .start _ c _ _ => c.arg ≠ some b
  | .write b' _ => b' ≠ b
  | _ => True

/-- Thread 2 enters `ferrum_malloc(8)`. -/
def Process.busy (h : Heap) (l : List Block) : Process :=
  (quiet h l).enter 2 (.malloc 8) (fun _ => ⟨none, none, none⟩) fun _ => false

theorem Process.step_busy (l : List Block) (hd : h.Distinct) : (process.restrict Process.Orderly).step (quiet h l)
    (.start 2 (.malloc 8) (fun _ => ⟨none, none, none⟩) fun _ => false) (busy h l) :=
  ⟨.start rfl nofun, trivial, (fun ⟨_, _, _, hno, _⟩ => nomatch hno), hd⟩

/-- One client has a block, while thread 2 is in the middle of a call. -/
theorem Process.exists_busy : ∃ h b, (process.restrict Process.Orderly).Reachable (Process.busy h [b]) := by
  obtain ⟨h, b, hr, _, hd, _⟩ := Process.exists_quiet
  exact ⟨h, b, hr.step (Process.step_busy [b] hd)⟩

/-! ## Between calls -/

/-- The order of the blocks does not matter. -/
theorem Good.perm (hg : Good h w l) (hp : l'.Perm l) : Good h w l' where
  lock := hg.lock
  maps := hg.maps
  threads := hg.threads
  arena := hg.arena
  booting hinit :=
    have hb := hg.booting hinit
    ⟨hb.ready, hb.arena, hb.tlsf, hb.base, hb.made, hb.next, hb.cls, fun b h => hb.huge b (hp.mem_iff.mp h)⟩
  placed b hb := hg.placed b (hp.mem_iff.mp hb)
  sized b hb := hg.sized b (hp.mem_iff.mp hb)
  apart := (hp.pairwise_iff fun hb => hb.symm).mpr hg.apart

/-- No thread is in the middle of a call. -/
def Process.Quiet (s : Process) : Prop := ∀ t, s.calls t = none

/-- **Between calls the whole invariant of the heap holds**, of the heap that the threads see and of the blocks
in the hands of clients. -/
theorem Covered.quiet_good (hs : Covered s x) (hq : s.Quiet) : Good s.heap x.view s.live := by
  have howner : x.owner = none := by
    refine Option.eq_none_iff_forall_not_mem.mpr fun t ht => ?_
    exact hs.locked t (hs.owner.symm.trans ht) (hq t)
  have hheap : s.heap = x.heap := by
    rw [← hs.shared]
    unfold World.shared
    rw [hs.inv.agree howner, howner, Option.isSome_none, ← hs.inv.good.lock]
  -- with no call in progress, all live blocks are in the hands of clients
  have hperm : s.live.Perm x.live := by
    refine (List.perm_ext_iff_of_nodup hs.nodup hs.inv.good.nodup).mpr fun b => ⟨hs.mem, fun hb => ?_⟩
    cases hholder : x.holder b.ptr with
    | none => exact (hs.clients b).mp ⟨hb, hholder⟩
    | some t => exact absurd ⟨hb, hholder⟩ (hs.idle t (hq t) b)
  rw [hheap]
  exact hs.inv.good.perm hperm

/-! ## What the threads see -/

namespace Covered

theorem globalArena_eq (hs : Covered s x) : s.heap.globalArena = x.heap.globalArena := by
  rw [← hs.shared]
  rfl

theorem arenaInit_eq (hs : Covered s x) : s.heap.arenaInit = x.init := by
  rw [← hs.shared]
  rfl

theorem globalTlsf_eq (hs : Covered s x) : s.heap.globalTlsf = x.heap.globalTlsf := by
  rw [← hs.shared]
  rfl

end Covered

/-! ## Steps of others -/

/-- The event is a step of thread `t`, or the start or the end of a call of it. -/
def Process.Concerns (t : Nat) : Process.Event → Prop
  | .start t' _ _ _ => t' = t
  | .tick t' => t' = t
  | .finish t' => t' = t
  | .write _ _ => False

namespace Covered

/-- What others do is interference. -/
theorem other {e : Process.Event} (hs : Covered s x) (he : (process.restrict Process.Orderly).step s e s')
    (hno : ¬ Process.Concerns t e) :
    ∃ y, Covered s' y ∧ x.Rely (some t) y ∧ s'.calls t = s.calls t := by
  obtain ⟨hstep, hc⟩ := he
  cases hstep with
  | start ht harg =>
    obtain ⟨x', hx', hrely, _⟩ := hs.start hc.bounds hc.cached _ _ ht harg
    exact ⟨x', hx', hrely t (Ne.symm hno), Function.update_of_ne (Ne.symm hno) ..⟩
  | tick hr hp =>
    obtain ⟨z, hz, hrely⟩ := hs.tick hr hp
    exact ⟨z, hz, hrely (some t) fun heq => hno (Option.some.inj heq).symm, Function.update_of_ne (Ne.symm hno) ..⟩
  | finish hr hv =>
    exact ⟨_, hs.finish hr hv, World.release_rely nofun fun heq => hno (Option.some.inj heq).symm,
      Function.update_of_ne (Ne.symm hno) ..⟩
  | write hb hm =>
    have hmine : x.Mine none _ := (hs.clients _).mpr hb
    have hcov := hs.write hb hm
    rw [← hs.bytes] at hm
    exact ⟨_, hcov, (hmine.store hs.inv hm).others (some t) nofun, rfl⟩

end Covered

/-! ## Blocks of clients -/

/-- The blocks of clients share no byte, and lie in mapped memory. -/
structure Process.Isolated (s : Process) : Prop where
  apart : s.live.Pairwise Block.Apart
  mapped : ∀ b ∈ s.live, b.ptr ≠ 0 ∧ ∃ m ∈ s.heap.os.maps, b.extent ⊆ m.bytes

/-- **In every state**, whatever calls are in progress, the blocks of clients are isolated. -/
theorem interleaved_isolated (hr : (process.restrict Process.Orderly).Reachable s) : s.Isolated := by
  obtain ⟨x, hx⟩ := reachable_covered hr
  have hmaps : x.heap.os = s.heap.os := congrArg (·.os) hx.shared
  refine ⟨?_, fun b hb => ⟨hx.inv.good.ptr_ne (hx.mem hb), ?_⟩⟩
  · refine List.Pairwise.imp_of_mem (fun hb hb' hne => ?_) hx.nodup
    exact hx.inv.good.apart_of_ne (hx.mem hb) (hx.mem hb') hne
  · rw [← hmaps]
    exact hx.inv.good.extent_mapped (hx.mem hb)

/-- Two threads and a block. -/
theorem interleaved_isolated_busy : ∃ h b, (Process.busy h [b]).Isolated := by
  obtain ⟨h, b, hr⟩ := Process.exists_busy
  exact ⟨h, b, interleaved_isolated hr⟩

namespace Covered

/-- A step that is not about a block leaves it to its client. -/
theorem step_keeps {e : Process.Event} (hs : Covered s x) (he : Process.Step s e s') (hb : b ∈ s.live)
    (hspare : Process.Spares b e) :
    b ∈ s'.live ∧ Set.EqOn s'.heap.os.bytes s.heap.os.bytes b.extent := by
  cases he with
  | start ht harg =>
    refine ⟨?_, Set.eqOn_refl _ _⟩
    show b ∈ Process.keep _ s.live
    unfold Process.keep
    split
    · exact hb
    · rename_i b' hc
      refine (List.mem_erase_of_ne fun heq => ?_).mpr hb
      exact hspare (heq ▸ hc)
  | tick hr hp =>
    obtain ⟨z, hz, hrely⟩ := hs.tick hr hp
    have hbytes := (hrely none nofun).bytes b ((hs.clients b).mpr hb)
    rw [hz.bytes, hs.bytes] at hbytes
    exact ⟨hb, hbytes⟩
  | finish hr hv => exact ⟨List.mem_append_right _ hb, Set.eqOn_refl _ _⟩
  | write hb' hm =>
    rw [← hs.bytes] at hm ⊢
    exact ⟨hb, hs.inv.good.store_keeps (hs.mem hb') hm (hs.mem hb) (Ne.symm hspare)⟩

end Covered

/-- **Nobody touches a block of a client**: over any run in which it is not passed to a call or written by its
client, all its bytes stay, however the threads are interleaved. -/
theorem interleaved_keeps {es : List Process.Event} (hr : (process.restrict Process.Orderly).Reachable s)
    (hb : b ∈ s.live) (hrun : (process.restrict Process.Orderly).Run s es s')
    (hspare : ∀ e ∈ es, Process.Spares b e) :
    b ∈ s'.live ∧ Set.EqOn s'.heap.os.bytes s.heap.os.bytes b.extent := by
  induction hrun with
  | nil => exact ⟨hb, Set.eqOn_refl _ _⟩
  | cons he _ ih =>
    obtain ⟨x, hx⟩ := reachable_covered hr
    obtain ⟨hb', hbytes⟩ := hx.step_keeps he.1 hb (hspare _ List.mem_cons_self)
    obtain ⟨hb'', hbytes'⟩ := ih (hr.step he) hb' fun e he => hspare e (List.mem_cons_of_mem _ he)
    exact ⟨hb'', hbytes'.trans hbytes⟩

/-- While thread 2 enters a call, a block stays. -/
theorem interleaved_keeps_busy : ∃ h b, b ∈ (Process.busy h [b]).live ∧
    Set.EqOn (Process.busy h [b]).heap.os.bytes h.os.bytes b.extent := by
  obtain ⟨h, b, hr, _, hd, _⟩ := Process.exists_quiet
  refine ⟨h, b, interleaved_keeps hr List.mem_cons_self (.cons (Process.step_busy [b] hd) .nil) fun e he => ?_⟩
  obtain rfl := List.mem_singleton.mp he
  nofun

/-! ## Faults -/

/-- A fault is a null `GLOBAL_ARENA`. -/
theorem Covered.faults {e : Fault} (hs : Covered s x) (hc : s.calls t = some r) (he : r.prog.tick s.heap = .fault e) :
    e = .nullDeref ∧ s.heap.globalArena = none ∧ s.heap.arenaInit = false := by
  have hprog : s.progs (some t) = some r.prog := congrArg (Option.map Running.prog) hc
  obtain ⟨rfl, hno⟩ := hs.threads.fault hprog he
  refine ⟨rfl, hs.globalArena_eq.trans hno, ?_⟩
  by_contra hinit
  have hflag : x.init = true := hs.arenaInit_eq.symm.trans (Bool.eq_true_of_not_eq_false hinit)
  nomatch hno.symm.trans (hs.inv.good.arena (hs.inv.init hflag)).arena

namespace Process

/-- What the lock guards is the same in both heaps: the globals, and once they are set the page counter of the
arena and the memory of the pool. -/
structure SameGlobals (h h' : Heap) : Prop where
  init : h'.arenaInit = h.arenaInit
  arena : h'.globalArena = h.globalArena
  slab : h'.globalSlab = h.globalSlab
  tlsf : h'.globalTlsf = h.globalTlsf
  next : h.arenaInit = true → ∀ a, h.globalArena = some a → a.nextFreePage h'.os.bytes = a.nextFreePage h.os.bytes
  pool : h.arenaInit = true → ∀ tlsf, h.globalTlsf = some tlsf → Tlsf.SamePool tlsf h.os.bytes tlsf h'.os.bytes

/-- What thread `t` works on without the lock is the same in both heaps: the page lists of its cache, and the
records and free lists of the pages with its identifier. -/
structure SameOwn (t : Nat) (h h' : Heap) : Prop where
  slab : (h'.caches (h.tls t)).slab = (h.caches (h.tls t)).slab
  pages : ∀ a i, h.globalArena = some a → h.isSlab i = true →
    (readMeta h.os.bytes (a.metaPtr i)).ownerId = (h.caches (h.tls t)).id → SamePage a i h.os.bytes h'.os.bytes

/-- **Mutual exclusion.** The lock is held by a thread in the middle of a call; while it is, no step of another
thread takes or releases it, or changes what it guards. Without the lock, what a thread works on is out of the
others' reach. -/
structure Locking (s : Process) : Prop where
  flag : s.heap.arenaLock = s.owner.isSome
  busy : ∀ t, s.owner = some t → ∃ r, s.calls t = some r ∧ r.prog.value = none
  others : ∀ t t' s', s.owner = some t → t' ≠ t → Step s (.tick t') s' →
    s'.owner = some t ∧ s'.heap.arenaLock = true ∧ SameGlobals s.heap s'.heap
  own : ∀ t e s', (process.restrict Orderly).step s e s' → ¬ Concerns t e → s'.heap.Distinct →
    s.heap.tls t ≠ 0 → SameOwn t s.heap s'.heap

end Process

namespace Covered

/-- While a thread holds the lock, it has not returned. -/
theorem busy (hs : Covered s x) (howner : s.owner = some t) : ∃ r, s.calls t = some r ∧ r.prog.value = none := by
  obtain ⟨r, hr⟩ := Option.ne_none_iff_exists'.mp (hs.locked t howner)
  refine ⟨r, hr, ?_⟩
  by_contra hv
  obtain ⟨v, hv⟩ := Option.ne_none_iff_exists'.mp hv
  -- a call returns without the lock
  obtain ⟨_, _, _, hat⟩ := hs.served hr hv
  nomatch hat.lock.mp (hs.owner.trans howner)

/-- **A step of another thread** leaves alone what the lock guards. -/
theorem tick_guarded {z : World} (hs : Covered s x) (hz : Covered s' z) (howner : s.owner = some t)
    (hrely : x.Rely (some t) z) : Process.SameGlobals s.heap s'.heap := by
  obtain ⟨hinit, hguard⟩ := hrely.guarded t rfl (hs.owner.trans howner)
  have hslab : s'.heap.globalSlab = s.heap.globalSlab := by
    rw [← hz.shared, ← hs.shared]
    exact hguard.slab
  have htlsf : s'.heap.globalTlsf = s.heap.globalTlsf := by
    rw [← hz.shared, ← hs.shared]
    exact hguard.tlsf
  refine ⟨?_, ?_, hslab, htlsf, fun hi a ha => ?_, fun hi tlsf ht => ?_⟩
  · rw [hz.arenaInit_eq, hs.arenaInit_eq]
    exact hinit
  · rw [hz.globalArena_eq, hs.globalArena_eq]
    cases hset : x.heap.arenaInit with
    | true =>
      rw [(hs.inv.good.arena hset).arena, (hz.inv.good.arena (hguard.init.trans hset)).arena]
      exact congrArg some hguard.arena
    | false =>
      rw [(hs.inv.good.booting hset).arena, (hz.inv.good.booting (hguard.init.trans hset)).arena]
  · have hset : x.heap.arenaInit = true := hs.inv.init (hs.arenaInit_eq.symm.trans hi)
    rw [hs.globalArena_eq, (hs.inv.good.arena hset).arena] at ha
    obtain rfl := Option.some.inj ha
    rw [← hs.bytes, ← hz.bytes]
    exact hguard.next hset
  · have hset : x.heap.arenaInit = true := hs.inv.init (hs.arenaInit_eq.symm.trans hi)
    have hside := hs.inv.good.arena hset
    have hside' := hz.inv.good.arena (hguard.init.trans hset)
    obtain rfl : x.view.tlsf = tlsf := Option.some.inj (hside.tlsf.symm.trans (hs.globalTlsf_eq.symm.trans ht))
    have hsame : z.view.tlsf = x.view.tlsf :=
      Option.some.inj (hside'.tlsf.symm.trans (hguard.tlsf.trans hside.tlsf))
    -- both memories hold the same blocks and lists
    have hpool := hside'.pool.inv
    have hblocks : z.view.bs = x.view.bs := hguard.blocks
    have hlists : z.view.L = x.view.L := hguard.lists
    rw [hsame, hblocks, hlists] at hpool
    rw [← hs.bytes, ← hz.bytes]
    exact hside.pool.inv.samePool hpool rfl rfl

/-- **A step of others** leaves alone what a thread works on without the lock. -/
theorem sameOwn {z : World} (hs : Covered s x) (hz : Covered s' z) (hrely : x.Rely (some t) z)
    (hd : s'.heap.Distinct) (h0 : s.heap.tls t ≠ 0) : Process.SameOwn t s.heap s'.heap := by
  rw [← hs.shared] at h0
  rw [← hz.shared] at hd
  have hown : OwnKept t x.conf z.conf := hrely.own hd t rfl h0
  rw [← hs.shared, ← hz.shared]
  refine ⟨hown.slab, fun a i harena hslab hid => ?_⟩
  -- the page, in the view
  have hg := hs.inv.good
  obtain ⟨k, hc⟩ := (hg.isSlab_iff i).mp hslab
  obtain ⟨hinit, rfl⟩ := hg.arena_eq harena
  refine hg.samePage hinit hc (hown.pages i k hc ?_)
  exact ((hg.arena hinit).slabs.inv.slabPage hc).ownerId.symm.trans hid

end Covered

/-- **Mutual exclusion** in every state that is reached, by the lock and by the identifiers of pages. -/
theorem interleaved_locking (hr : (process.restrict Process.Orderly).Reachable s) : s.Locking := by
  obtain ⟨x, hx⟩ := reachable_covered hr
  refine ⟨hx.lock_eq, fun t => hx.busy, fun t t' s' howner hne he => ?_, fun t e s' he hno hd h0 => ?_⟩
  · cases he with
    | tick hc hp =>
      obtain ⟨z, hz, hrely⟩ := hx.tick hc hp
      have hrely' := hrely (some t) fun heq => hne (Option.some.inj heq).symm
      have howner' : z.owner = some t := (hrely'.owner t rfl).mpr (hx.owner.trans howner)
      refine ⟨hz.owner.symm.trans howner', ?_, hx.tick_guarded hz howner hrely'⟩
      rw [hz.lock_eq, ← hz.owner, howner']
      rfl
  · obtain ⟨z, hz, hrely, _⟩ := hx.other he hno
    exact hx.sameOwn hz hrely hd h0

theorem interleaved_locking_busy : ∃ h b, (Process.busy h [b]).Locking := by
  obtain ⟨h, b, hr⟩ := Process.exists_busy
  exact ⟨h, b, interleaved_locking hr⟩

/-- The thread can go on: it has returned, or its next step is done. -/
def Running.Ready (r : Running) (h : Heap) : Prop := r.prog.value ≠ none ∨ ∃ h' p, r.prog.tick h = .done h' p

/-- The next step of the thread faults, as there is no arena. -/
def Running.Unserved (r : Running) (h : Heap) : Prop :=
  r.prog.tick h = .fault .nullDeref ∧ h.globalArena = none ∧ h.arenaInit = false

namespace Covered

/-- A thread that neither goes on nor faults waits for another one. -/
theorem waits (hs : Covered s x) (hc : s.calls t = some r) (hready : ¬ r.Ready s.heap)
    (hfault : ¬ r.Unserved s.heap) : ∃ t', s.owner = some t' ∧ t' ≠ t := by
  have hprog : s.progs (some t) = some r.prog := congrArg (Option.map Running.prog) hc
  obtain ⟨hv, hstep⟩ := not_or.mp hready
  cases htick : r.prog.tick s.heap with
  | done h' p => exact absurd ⟨h', p, htick⟩ hstep
  | fault e =>
    obtain ⟨rfl, hunset⟩ := hs.faults hc htick
    exact absurd ⟨htick, hunset⟩ hfault
  | wait =>
    obtain ⟨t', howner, hne⟩ := hs.threads.wait hprog (not_not.mp hv) htick
    exact ⟨t', hs.owner.symm.trans howner, fun heq => hne (congrArg some heq.symm)⟩

end Covered

namespace Covered

variable {σ : Nat → Process} {e : Nat → Process.Event} {k i : Nat}

/-- What others do for a while is interference. -/
theorem others (hx : Covered (σ k) x)
    (hrun : ∀ i, (process.restrict Process.Orderly).step (σ i) (e i) (σ (i + 1)))
    (hno : ∀ j, k ≤ j → j < k + i → ¬ Process.Concerns t (e j)) :
    ∃ y, Covered (σ (k + i)) y ∧ x.Rely (some t) y ∧ (σ (k + i)).calls t = (σ k).calls t := by
  induction i with
  | zero => exact ⟨x, hx, .refl _ x, rfl⟩
  | succ i ih =>
    obtain ⟨y, hy, hrely, hcalls⟩ := ih fun j h1 h2 => hno j h1 (by omega)
    obtain ⟨z, hz, hrely', hcalls'⟩ := hy.other (hrun (k + i)) (hno (k + i) (by omega) (by omega))
    exact ⟨z, hz, hrely.trans hrely', hcalls'.trans hcalls⟩

/-- A thread in a call starts no other one, and a call that returns has finished. -/
theorem tick_of_concerns {e : Process.Event} (hc : s.calls t = some r) (he : Process.Step s e s')
    (hfin : e ≠ .finish t) (hcon : Process.Concerns t e) :
    ∃ h p, r.prog.tick s.heap = .done h p ∧
      s' = ⟨h, s.live, Function.update s.calls t (some ⟨r.call, p, r.before⟩),
        Process.nextOwner t s.heap h s.owner⟩ := by
  cases he with
  | start ht harg =>
    obtain rfl := hcon
    nomatch ht.symm.trans hc
  | tick hr hp =>
    obtain rfl := hcon
    obtain rfl := Option.some.inj (hr.symm.trans hc)
    exact ⟨_, _, hp, rfl⟩
  | finish hr hv =>
    obtain rfl := hcon
    exact absurd rfl hfin
  | write hb hm => exact hcon.elim

/-- **The induction** on the steps that are left: each is taken or the last one. -/
theorem ends {c : Call} {before : Mem} {p : Proc (Nat × Backend)}
    (hrun : ∀ i, (process.restrict Process.Orderly).step (σ i) (e i) (σ (i + 1)))
    (hfin : ∀ i, k ≤ i → e i ≠ .finish t) (hx : Covered (σ k) x)
    (hc : (σ k).calls t = some ⟨c, p, before⟩) (hends : world.Ends (some t) (c.Served t before) p x) :
    ∃ i, ∀ j, i ≤ j → e j ≠ .tick t := by
  refine hends.induct (S := fun p x => ∀ k, (∀ i, k ≤ i → e i ≠ .finish t) → Covered (σ k) x →
    (σ k).calls t = some ⟨c, p, before⟩ → ∃ i, ∀ j, i ≤ j → e j ≠ .tick t) ?_ k hfin hx hc
  intro p x _ hnext k hfin hx hc
  by_cases htick : ∃ i, Process.Concerns t (e (k + i))
  · -- the next step of the thread, after interference
    classical
    obtain ⟨i, hi, hmin⟩ : ∃ i, Process.Concerns t (e (k + i)) ∧ ∀ j < i, ¬ Process.Concerns t (e (k + j)) :=
      ⟨Nat.find htick, Nat.find_spec htick, fun j hj => Nat.find_min htick hj⟩
    obtain ⟨y, hy, hrely, hcalls⟩ := hx.others (i := i) hrun fun j h1 h2 => by
      obtain ⟨d, rfl⟩ := Nat.exists_eq_add_of_le h1
      exact hmin d (by omega)
    have hcy := hcalls.trans hc
    obtain ⟨h, p', hp, hstate⟩ := tick_of_concerns hcy (hrun (k + i)).1 (hfin (k + i) (by omega)) hi
    rw [← hy.shared] at hp
    obtain ⟨z, rfl, hz, hends', hS⟩ := (hnext y hy.inv hrely).done h p' hp
    have hcov := hy.advance hcy hz hends'.safe
    refine hS (k + i + 1) (fun j hj => hfin j (by omega)) ?_ ?_
    · rw [hstate]
      exact hcov
    · rw [hstate]
      exact Function.update_self ..
  · refine ⟨k, fun j hj heq => htick ⟨j - k, ?_⟩⟩
    rw [Nat.add_sub_cancel' hj, heq]
    exact rfl

end Covered

/-- **A call that frees nothing comes to an end**: in any infinite run, unless it finishes, its thread takes only
finitely many steps -- it is no longer scheduled, waits for the lock, or has faulted. -/
theorem interleaved_ends {σ : Nat → Process} {e : Nat → Process.Event}
    (hr : (process.restrict Process.Orderly).Reachable (σ 0))
    (hrun : ∀ i, (process.restrict Process.Orderly).step (σ i) (e i) (σ (i + 1))) {k : Nat} {c : Call}
    {ans : Nat → Answers} (hstart : e k = .start t c ans weak) (hc : c.FreesNone) :
    (∃ i, k ≤ i ∧ e i = .finish t) ∨ ∃ i, ∀ j, i ≤ j → e j ≠ .tick t := by
  have hreach : ∀ i, (process.restrict Process.Orderly).Reachable (σ i) := fun i => by
    induction i with
    | zero => exact hr
    | succ i ih => exact ih.step (hrun i)
  obtain ⟨x, hx⟩ := reachable_covered (hreach k)
  have hstep := hrun k
  rw [hstart] at hstep
  obtain ⟨hstep, hb⟩ := hstep
  generalize hσ : σ (k + 1) = s' at hstep
  cases hstep with
  | start ht harg =>
    obtain ⟨x', hx', _, hends⟩ := hx.start hb.bounds hb.cached ans weak ht harg
    rw [← hσ] at hx'
    have hcalls : (σ (k + 1)).calls t = some ⟨c, c.proc t ans weak, (σ k).heap.os.bytes⟩ := by
      rw [hσ]
      exact Process.enter_calls ..
    by_cases hfin : ∃ i, k ≤ i ∧ e i = .finish t
    · exact .inl hfin
    · exact .inr (hx'.ends hrun (fun i hi heq => hfin ⟨i, by omega, heq⟩) hcalls (hends hc))

/-- Thread 2 enters a call and is not scheduled again, while a client writes for ever. -/
theorem interleaved_ends_busy : ∃ (σ : Nat → Process) (e : Nat → Process.Event), (σ 1).calls 2 ≠ none ∧
    ((∃ i, 0 ≤ i ∧ e i = .finish 2) ∨ ∃ i, ∀ j, i ≤ j → e j ≠ .tick 2) := by
  obtain ⟨h, b, hr, _, hd, _⟩ := Process.exists_quiet
  obtain ⟨σ, hσ⟩ : ∃ σ : Nat → Process, σ = fun i => if i = 0 then .quiet h [b] else .busy h [b] := ⟨_, rfl⟩
  obtain ⟨e, he⟩ : ∃ e : Nat → Process.Event, e = fun i =>
      if i = 0 then .start 2 (.malloc 8) (fun _ => ⟨none, none, none⟩) fun _ => false else .write b h.os.bytes :=
    ⟨_, rfl⟩
  have hrun : ∀ i, (process.restrict Process.Orderly).step (σ i) (e i) (σ (i + 1)) := by
    intro i
    rw [hσ, he]
    cases i with
    | zero => exact Process.step_busy [b] hd
    | succ i => exact ⟨.write List.mem_cons_self (Set.eqOn_refl _ _), trivial, trivial, hd⟩
  refine ⟨σ, e, fun hno => ?_, interleaved_ends (k := 0) (c := .malloc 8) ?_ hrun (congrFun he 0) fun _ => rfl⟩
  · rw [hσ] at hno
    nomatch (Process.enter_calls ..).symm.trans hno
  · rw [hσ]
    exact hr

/-! ## Results -/

/-- **What a call has done**, once it has returned `v`: `calloc` and `ferrum_calloc` have zeroed their block,
`ferrum_realloc` has brought over the bytes that both blocks hold, and the bytes of a block that is given back
as it was are what they were. -/
def Process.Delivered (s : Process) : Prop :=
  ∀ t r v, s.calls t = some r → r.prog.value = some v →
    r.call.Content v r.before s.heap.os.bytes ∧
    ∀ b ∈ r.call.given, b ∈ r.call.after r.call.arg.toList (s.heap, v) →
      Set.EqOn s.heap.os.bytes r.before b.extent

/-- **The contents of blocks are right**, whatever other threads have done during the call. -/
theorem interleaved_delivered (hr : (process.restrict Process.Orderly).Reachable s) : s.Delivered := by
  obtain ⟨x, hx⟩ := reachable_covered hr
  intro t r v hc hv
  obtain ⟨_, hcontent, hkept, _⟩ := hx.served hc hv
  rw [hx.bytes] at hcontent hkept
  refine ⟨hcontent, fun b hgiven hback => hkept b ⟨hgiven, ?_⟩⟩
  show b ∈ r.call.after r.call.arg.toList (x.heap, v)
  rw [hx.after_eq]
  exact hback

/-- A thread that has just returned from `ferrum_calloc(3, 5)`. -/
theorem interleaved_delivered_calloc : ∃ (s : Process) (r : Running) (v : Nat × Backend), s.calls 1 = some r ∧
    r.call = .ferrumCalloc 3 5 ∧ r.prog.value = some v ∧ s.Delivered := by
  obtain ⟨h, b, hr, hinit, hd, htls⟩ := Process.exists_quiet
  have hc : (Call.ferrumCalloc 3 5).InBounds := fun _ => by decide
  obtain ⟨x, hx⟩ := reachable_covered hr
  rcases Call.leads (hx.quiet_good fun _ => rfl) (.ferrumCalloc 3 5) nofun hc 1 fun _ => ⟨none, none, none⟩ with
    ⟨_, hno⟩ | ⟨v, _, hrun, _⟩
  · nomatch hno.symm.trans hinit
  · have hstart : (process.restrict Process.Orderly).Reachable ((Process.quiet h [b]).enter 1
        (.ferrumCalloc 3 5) (fun _ => ⟨none, none, none⟩) fun _ => false) :=
      hr.step ⟨.start rfl nofun, hc, fun _ => htls, hd⟩
    have hsolo : Solo h ((Call.ferrumCalloc 3 5).proc 1 (fun _ => ⟨none, none, none⟩) fun _ => false) v.1 v.2 :=
      Call.solo ⟨0, rfl⟩ hrun
    obtain ⟨y, hy⟩ := reachable_covered hstart
    obtain ⟨hsame, hother⟩ := hy.solo hsolo rfl (Process.enter_calls ..) rfl
    obtain ⟨s, hend, hs⟩ := Process.run_returned hsolo hstart (Process.enter_calls ..)
      (hsame.keep_distinct htls hother hd)
    exact ⟨s, _, v.2, hs, rfl, rfl, interleaved_delivered hend⟩

/-! ## One call at a time -/

end FerrumAlloc
