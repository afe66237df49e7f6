/-
# FerrumAlloc.Api.Locking -- the lock, initialisation and thread caches, among other threads

Specifications of the first programs of `Api.Programs`, as triples of the discipline `world`: what a thread
knows before and after, while the others do what they like. `Does` is the obligation of a single step. The
lock is a spec of its own, so `ensure_init` and everything that locks are put together by the rules.

`ensure_init` holds the lock between its second check and the store of `ARENA_INIT`, and in between the flag
lags behind the globals (`Publishing`).
-/
import FerrumAlloc.Api.World

namespace FerrumAlloc

open Lib World Discipline
open Tlsf (TlsfAllocator)

variable {α : Type} {t p : Nat} {S : Set Block} {m : Mem} {locked : Bool} {x y : World} {a : Arena}
  {P : World → Prop} {Q : α → World → Prop} {fin : Prop}

/-! ## Single steps -/

/-- **The obligation of a step** of thread `t`. -/
def Does (t : Nat) (P : World → Prop) (f : Heap → Exec (Heap × α)) (Q : α → World → Prop) : Prop :=
  ∀ x, x.Inv → P x → (f x.shared = .error .nullDeref ∧ x.heap.globalArena = none) ∨
    ∃ z a, f x.shared = .ok (z.shared, a) ∧ world.Moves (some t) x z ∧ Q a z

theorem Does.triple {f : Heap → Exec (Heap × α)} (hP : world.Stable (some t) P)
    (hQ : ∀ a, world.Stable (some t) (Q a)) (h : Does t P f Q) :
    world.Triple fin (some t) P (Proc.atomically f) Q := by
  refine .atom hP hQ fun x hx hPx => ?_
  have hshared : world.shared x = x.shared := rfl
  rw [hshared]
  rcases h x hx hPx with ⟨hrun, hno⟩ | ⟨z, a, hrun, hz, hQz⟩
  · rw [hrun]
    refine ⟨fun e he => ?_, nofun, nofun⟩
    cases he
    exact ⟨rfl, hno⟩
  · rw [hrun]
    refine ⟨nofun, nofun, fun s b hs => ?_⟩
    cases hs
    exact ⟨z, rfl, hz, hQz⟩

/-- **Loads.** What is learned must survive the others. -/
theorem load_triple {f : Heap → α} (hP : world.Stable (some t) P) (hQ : ∀ a, world.Stable (some t) (Q a))
    (h : ∀ x, x.Inv → P x → Q (f x.shared) x) : world.Triple fin (some t) P (Proc.load f) Q :=
  Does.triple hP hQ fun x hx hPx => .inr ⟨x, f x.shared, rfl, .refl hx, h x hx hPx⟩

theorem ret_triple {b : α} (hP : world.Stable (some t) P) (h : ∀ x, x.Inv → P x → Q b x) :
    world.Triple fin (some t) P (pure b) Q := .ret hP h

/-- A program that changes nothing the thread knows. -/
theorem skip_triple {b : α} (hP : world.Stable (some t) P) :
    world.Triple fin (some t) P (pure b) fun _ => P := ret_triple hP fun _ _ hPx => hPx

/-! ## What threads know -/

/-- `a` is the arena, and it is set up. -/
def ArenaIs (a : Arena) (x : World) : Prop := x.heap.arenaInit = true ∧ x.view.arena = a

theorem ArenaIs.stable : world.Stable (some t) (ArenaIs a) := by
  rintro x y _ _ hxy ⟨hinit, rfl⟩
  exact hxy.arena hinit

/-- The cache of thread `t` is at `p`. -/
def HasCache (t p : Nat) (x : World) : Prop := p ≠ 0 ∧ x.heap.tls t = p

theorem HasCache.stable {j : Option Nat} : world.Stable j (HasCache t p) := by
  rintro x y _ _ hxy ⟨h0, rfl⟩
  exact ⟨h0, (hxy.caches t h0).1⟩

theorem HasCache.made (h : HasCache t p x) (hx : x.Inv) : p ∈ x.view.made := by
  obtain ⟨h0, rfl⟩ := h
  exact hx.good.threads.tls t h0

/-- Caches come after the arena. -/
theorem World.Inv.init_of_made (hx : x.Inv) (hp : p ∈ x.view.made) : x.heap.arenaInit = true := by
  cases hinit : x.heap.arenaInit with
  | true => rfl
  | false =>
    rw [(hx.good.booting hinit).made] at hp
    nomatch hp

theorem HasCache.init (h : HasCache t p x) (hx : x.Inv) : x.heap.arenaInit = true :=
  hx.init_of_made (h.made hx)

/-- Thread `t` has a cache. -/
def Cached (t : Nat) (x : World) : Prop := x.heap.tls t ≠ 0

theorem Cached.stable {j : Option Nat} : world.Stable j (Cached t) := by
  intro x y _ _ hxy h0
  unfold Cached
  rw [(hxy.caches t h0).1]
  exact h0

theorem HasCache.cached (h : HasCache t p x) : Cached t x := by
  obtain ⟨h0, rfl⟩ := h
  exact h0

/-- The address `q` lies in a slab page that belongs to the identifier `o`. -/
def InPageOf (q o : Nat) (x : World) : Prop :=
  x.heap.arenaInit = true ∧ (∃ k, x.view.g.cls (x.view.arena.ptrToPageIndex q) = some k) ∧
    x.view.g.owner (x.view.arena.ptrToPageIndex q) = o

theorem InPageOf.stable {q o : Nat} {j : Option Nat} : world.Stable j (InPageOf q o) := by
  rintro x y _ _ hxy ⟨hinit, ⟨k, hc⟩, howner⟩
  obtain ⟨hinit', harena⟩ := hxy.arena hinit
  obtain ⟨hc', howner'⟩ := hxy.pages _ k hc
  unfold InPageOf
  rw [harena]
  exact ⟨hinit', ⟨k, hc'⟩, howner'.trans howner⟩

/-- These facts last: not even the thread itself takes them away. -/
theorem lasting {F : World → Prop} (h : ∀ j, world.Stable j F) : world.Lasting (some t) F :=
  .of_stable (j := none) nofun h

/-- While a thread holds the lock, it sees the heap as `Api.Model` does under the lock. -/
theorem At.shared (hat : At t S m true x) : x.shared = x.heap.locked := by
  have howner : x.owner = some t := hat.lock.mpr rfl
  unfold World.shared Heap.locked
  rw [howner, hat.agree rfl]
  rfl

/-! ## The lock -/

/-- **`spin_lock`.** What does not depend on the lock is known behind it. -/
theorem spinLock_frame {F : World → Prop} (hF : world.Stable (some t) F)
    (hlock : ∀ x o, F x → F { x with owner := o }) :
    world.Triple fin (some t) (fun x => At t S m false x ∧ F x) Proc.spinLock
      fun _ x => At t S m true x ∧ F x := by
  refine .atom (At.stable.and hF) (fun _ => At.stable.and hF) ?_
  rintro x hx ⟨hat, hFx⟩
  have hflag : (world.shared x).arenaLock = x.owner.isSome := rfl
  simp only [hflag]
  cases howner : x.owner with
  | some t' =>
    -- the thread waits, for another one
    refine ⟨nofun, fun _ => ⟨t', howner, fun heq => ?_⟩, nofun⟩
    obtain rfl := Option.some.inj heq
    exact nomatch hat.lock.mp howner
  | none =>
    refine ⟨nofun, nofun, fun s u hs => ?_⟩
    cases hs
    refine ⟨{ x with owner := some t }, rfl, ⟨⟨hx.good, hx.owned, hx.init, nofun⟩, fun j hj => ?_⟩,
      ⟨hat.mine, hat.bytes, iff_of_true rfl rfl, fun _ => hx.agree howner⟩, hlock x _ hFx⟩
    refine .of_conf id (fun t' ht' => ?_) (fun _ _ _ => rfl) fun _ _ => Iff.rfl
    rw [howner]
    exact iff_of_false (fun heq => hj (ht'.trans heq.symm)) nofun

theorem spinLock_triple :
    world.Triple fin (some t) (At t S m false) Proc.spinLock fun _ => At t S m true :=
  (spinLock_frame (F := fun _ => True) (Stable.const True) fun _ _ h => h).conseq
    (fun _ _ hat => ⟨hat, trivial⟩) fun _ _ _ h => h.1

/-- **`spin_unlock`** by the thread that holds the lock. -/
theorem spinUnlock_frame {F : World → Prop} (hF : world.Stable (some t) F)
    (hlock : ∀ x o, F x → F { x with owner := o }) :
    world.Triple fin (some t) (fun x => At t S m true x ∧ F x) Proc.spinUnlock
      fun _ x => At t S m false x ∧ F x := by
  have hdoes : Does t (fun x => At t S m true x ∧ F x) (fun h => .ok (FerrumAlloc.spinUnlock h, ()))
      fun _ x => At t S m false x ∧ F x := by
    rintro x hx ⟨hat, hFx⟩
    have howner : x.owner = some t := hat.lock.mpr rfl
    refine .inr ⟨{ x with owner := none }, (), rfl, ⟨⟨hx.good, hx.owned, hx.init, fun _ => hat.agree rfl⟩,
      fun j hj => ?_⟩, ⟨hat.mine, hat.bytes, iff_of_false nofun nofun, nofun⟩, hlock x _ hFx⟩
    have hother : ∀ t', j = some t' → x.owner ≠ some t' := fun t' ht' hmine =>
      hj (ht'.trans (hmine.symm.trans howner))
    exact .of_conf id (fun t' ht' => iff_of_false nofun (hother t' ht')) (fun _ _ _ => rfl) fun _ _ => Iff.rfl
  exact hdoes.triple (At.stable.and hF) fun _ => At.stable.and hF

theorem spinUnlock_triple :
    world.Triple fin (some t) (At t S m true) Proc.spinUnlock fun _ => At t S m false :=
  (spinUnlock_frame (F := fun _ => True) (Stable.const True) fun _ _ h => h).conseq
    (fun _ _ hat => ⟨hat, trivial⟩) fun _ _ _ h => h.1

/-- **`*GLOBAL_ARENA`**: a null pointer is excused. -/
theorem derefArena_triple (hP : world.Stable (some t) P) :
    world.Triple fin (some t) P Proc.derefArena fun a x => P x ∧ ArenaIs a x := by
  refine Does.triple hP (fun _ => hP.and ArenaIs.stable) fun x hx hPx => ?_
  have hsame : x.shared.globalArena = x.heap.globalArena := rfl
  simp only [hsame]
  cases hinit : x.heap.arenaInit with
  | false =>
    have hnone := (hx.good.booting hinit).arena
    rw [hnone]
    exact .inl ⟨rfl, rfl⟩
  | true =>
    rw [(hx.good.arena hinit).arena]
    exact .inr ⟨x, x.view.arena, rfl, .refl hx, hPx, hinit, rfl⟩

/-! ## `ensure_init` -/

/-- The globals are set, and `ARENA_INIT` is about to be. -/
structure Publishing (t : Nat) (S : Set Block) (m : Mem) (x : World) : Prop where
  mine : ∀ b, x.Mine (some t) b ↔ b ∈ S
  bytes : ∀ b ∈ S, Set.EqOn x.heap.os.bytes m b.extent
  lock : x.owner = some t
  set : x.heap.arenaInit = true

theorem Publishing.stable : world.Stable (some t) (Publishing t S m) := by
  intro x y _ _ hxy hp
  exact ⟨fun b => (hxy.mine b).trans (hp.mine b),
    fun b hb => (hxy.bytes b ((hp.mine b).mpr hb)).trans (hp.bytes b hb), (hxy.owner t rfl).mpr hp.lock,
    (hxy.arena hp.set).1⟩

/-- The globals before `ARENA_INIT`: refused, or as after `ensure_init`. -/
theorem initStorage_spec (h : Heap) (answer : Option Nat) (hinit : h.arenaInit = false) :
    initStorage h answer = .ok (h, false) ∨
    ∃ a tlsf m, Sets h a tlsf m ∧
      initStorage h answer = .ok ({ h.setup a tlsf m with arenaInit := h.arenaInit }, true) := by
  unfold initStorage
  rcases Arena.new_spec answer h.nextArenaId h.os with ⟨hno, hnew⟩ | ⟨base, m, hans, hgrant, hm, hnew⟩
  · left
    rw [hnew]
  · right
    obtain ⟨a, ha⟩ : ∃ a : Arena, a = ⟨base, defaultArenaSize⟩ := ⟨_, rfl⟩
    obtain rfl : a.base = base := by rw [ha]
    have hok : a.Ok := ⟨hgrant.1, hgrant.2.1, by rw [ha], hgrant.2.2.2.1⟩
    obtain ⟨m', tlsf, m'', halloc, hadd, hslabs, hpool, hnext, hout⟩ := fresh_pool hok m h.nextArenaId
    have hne : a.base + 20480 ≠ 0 := by omega
    refine ⟨a, tlsf, m'', ⟨hinit, hgrant, hslabs, hpool, hnext, hout.trans hm⟩, ?_⟩
    rw [hnew, ← ha]
    unfold initTlsf
    simp only [initTls, halloc, if_pos hne, Heap.setBytes, hadd, Exec.bind_ok, Exec.pure_eq]
    rfl

/-- Writing the globals under the lock. -/
theorem initStorage_does (answer : Option Nat) :
    Does t (fun x => At t S m true x ∧ x.init = false) (fun h => initStorage h answer)
      fun ok x => if ok = true then Publishing t S m x else At t S m true x := by
  rintro x hx ⟨hat, hno⟩
  -- under the lock the flag tells the truth
  have hboot : x.heap.arenaInit = false := (hat.agree rfl).symm.trans hno
  right
  rcases initStorage_spec x.shared answer hno with hrun | ⟨a, tlsf, m', hs, hrun⟩
  · exact ⟨x, false, hrun, .refl hx, hat⟩
  · have hs' : Sets x.heap a tlsf m' := ⟨hboot, hs.grant, hs.slabs, hs.pool, hs.next, hs.bytes⟩
    have hact : Act t True Nowhere x.conf ⟨x.heap.setup a tlsf m', .fresh a tlsf, x.live⟩ := .setup hs'
    have hshift := hact.shift hx.good
    have howner : x.owner = some t := hat.lock.mpr rfl
    refine ⟨{ x with heap := x.heap.setup a tlsf m', view := .fresh a tlsf }, true, hrun,
      hshift.moves hx x.holder (fun _ hb hnew => absurd hb hnew) (fun _ hb hgone => absurd hb hgone)
        (fun _ _ _ => rfl) fun hne => absurd howner hne, ?_⟩
    refine ⟨hat.mine, fun b hb => ?_, howner, rfl⟩
    exact (hshift.kept.keeps b (hat.mem hb) (hat.mem hb)).trans (hat.bytes b hb)

/-- The store of `ARENA_INIT`. -/
theorem publish_does :
    Does t (Publishing t S m) (fun h => .ok ({ h with arenaInit := true }, ())) fun _ => At t S m true := by
  intro x hx hp
  have hother : ∀ j, j ≠ some t → ∀ t', j = some t' → x.owner ≠ some t' := fun j hj t' ht' hmine =>
    hj (ht'.trans (hmine.symm.trans hp.lock))
  refine .inr ⟨{ x with init := true }, (), rfl, ⟨⟨hx.good, hx.owned, fun _ => hp.set, fun hfree => ?_⟩,
    fun j hj => ?_⟩, hp.mine, hp.bytes, iff_of_true hp.lock rfl, fun _ => hp.set.symm⟩
  · exact absurd (hp.lock.symm.trans hfree) nofun
  · exact .of_conf (fun _ => rfl) (fun _ _ => Iff.rfl) (fun t' ht' hmine => absurd hmine (hother j hj t' ht'))
      fun _ _ => Iff.rfl

theorem init_false_stable : world.Stable (some t) fun x => At t S m true x ∧ x.init = false := by
  rintro x y hx hy hxy ⟨hat, hno⟩
  refine ⟨At.stable x y hx hy hxy hat, ?_⟩
  exact (hxy.guarded t rfl (hat.lock.mpr rfl)).1.trans hno

/-- **The second check**, under the lock. -/
theorem initOnce_triple (answer : Option Nat) :
    world.Triple fin (some t) (At t S m true) (Proc.initOnce answer) fun _ => At t S m true := by
  refine (load_triple (Q := fun b x => At t S m true x ∧ (b = false → At t S m true x ∧ x.init = false))
    At.stable (fun _ => At.stable.and init_false_stable.imp) fun x _ hat => ⟨hat, fun hb => ⟨hat, hb⟩⟩).bind
    fun b => ?_
  cases b with
  | true => exact ret_triple (At.stable.and init_false_stable.imp) fun _ _ hP => hP.1
  | false =>
    have hstable : ∀ ok : Bool, world.Stable (some t)
        fun x => if ok = true then Publishing t S m x else At t S m true x := fun ok => by
      cases ok
      · exact At.stable
      · exact Publishing.stable
    refine Triple.conseq (Triple.bind (Does.triple init_false_stable hstable (initStorage_does answer))
      fun ok => ?_) (fun x _ hP => hP.2 rfl) fun _ _ _ h => h
    cases ok with
    | true => exact Does.triple Publishing.stable (fun _ => At.stable) publish_does
    | false => exact skip_triple At.stable

/-- **`ensure_init`**, by any number of threads at once. -/
theorem ensureInit_triple (answer : Option Nat) :
    world.Triple fin (some t) (At t S m false) (Proc.ensureInit answer) fun _ => At t S m false := by
  refine (load_triple At.stable (fun _ => At.stable) fun x _ hat => hat).bind fun b => ?_
  cases b with
  | true => exact skip_triple At.stable
  | false => exact spinLock_triple.bind fun _ => (initOnce_triple answer).bind fun _ => spinUnlock_triple

/-! ## `get_or_create` -/

/-- The thread has no cache. -/
def NoCache (t : Nat) (x : World) : Prop := x.heap.arenaInit = true ∧ x.heap.tls t = 0

theorem NoCache.stable : world.Stable (some t) (NoCache t) := by
  rintro x y _ _ hxy ⟨hinit, htls⟩
  exact ⟨(hxy.arena hinit).1, (hxy.tls t rfl).trans htls⟩

/-- `fetch_add`. -/
theorem takeId_triple : world.Triple fin (some t) (fun x => At t S m false x ∧ NoCache t x) Proc.takeId
    fun _ x => At t S m false x ∧ NoCache t x := by
  refine Does.triple (At.stable.and NoCache.stable) (fun _ => At.stable.and NoCache.stable) ?_
  rintro x hx ⟨hat, hinit, htls⟩
  have hact : Act t True Nowhere x.conf ⟨x.heap.attempt, x.view, x.live⟩ := .attempt hinit htls
  obtain ⟨hmoves, hat'⟩ := (hact.shift hx.good).same hx hat rfl fun _ => guarded_attempt _ _ _
  exact .inr ⟨_, x.heap.nextThreadId, rfl, hmoves, hat', hinit, htls⟩

/-- The operating system refuses the page, or the thread gets its cache. -/
theorem register_does {id : Nat} (hid : id < maxThreads) (answer : Option Nat) :
    Does t (fun x => At t S m false x ∧ NoCache t x) (fun h => .ok (register h t id answer))
      fun q x => At t S m false x ∧ (q ≠ 0 → HasCache t q x) := by
  rintro x hx ⟨hat, hinit, htls⟩
  right
  have hsize : alignUp pageSize pageSize = 4096 := by decide
  have hos : x.shared.os = x.heap.os := rfl
  rcases osAlloc_cases answer pageSize x.heap.os with ⟨hrun, _⟩ | ⟨q, hans, hgrant, hrun⟩
  · refine ⟨x, 0, ?_, .refl hx, hat, fun h0 => absurd rfl h0⟩
    simp only [register, hos, hrun]
    rfl
  · rw [hsize] at hgrant hrun
    obtain ⟨m', hm'⟩ : ∃ m', m' = fill x.heap.os.bytes q 4096 0 := ⟨_, rfl⟩
    have hbytes : Set.EqOn m' x.heap.os.bytes (Region.bytes ⟨q, 4096⟩)ᶜ := by
      rw [hm']
      exact fill_eqOn _ _ _ _
    have hshift := hx.good.enroll (t := t) hinit htls hid hgrant hbytes
    obtain ⟨hmoves, hat'⟩ := hshift.same hx hat rfl fun _ => hx.good.guarded_enroll hgrant hbytes
    have hq : q ≠ 0 := Nat.ne_of_gt hgrant.1
    refine ⟨_, q, ?_, hmoves, hat', fun h0 => ⟨h0, Function.update_self ..⟩⟩
    simp only [register, hos, hrun, if_neg hq]
    rw [hm']
    rfl

/-- What `get_or_create` returns. -/
def CacheOf (t : Nat) (S : Set Block) (m : Mem) (o : Option Nat) (x : World) : Prop :=
  At t S m false x ∧ ∀ p, o = some p → HasCache t p x

theorem CacheOf.stable (o : Option Nat) : world.Stable (some t) (CacheOf t S m o) := by
  rintro x y hx hy hxy ⟨hat, hcache⟩
  exact ⟨At.stable x y hx hy hxy hat, fun p hp => HasCache.stable x y hx hy hxy (hcache p hp)⟩

/-- A cache for a thread that has none. -/
theorem createCache_triple (answer : Option Nat) :
    world.Triple fin (some t) (fun x => At t S m false x ∧ NoCache t x) (Proc.createCache t answer)
      (CacheOf t S m) := by
  refine takeId_triple.bind fun id => ?_
  by_cases hid : id ≥ maxThreads
  · rw [if_pos hid]
    exact ret_triple (At.stable.and NoCache.stable) fun _ _ hP => ⟨hP.1, nofun⟩
  · rw [if_neg hid]
    have hstable : ∀ q, world.Stable (some t) fun x => At t S m false x ∧ (q ≠ 0 → HasCache t q x) :=
      fun q => At.stable.and HasCache.stable.imp
    refine (Does.triple (At.stable.and NoCache.stable) hstable
      (register_does (Nat.lt_of_not_le hid) answer)).bind fun q => ?_
    refine ret_triple (hstable q) fun x _ hP => ⟨hP.1, fun p hp => ?_⟩
    by_cases hq : q = 0
    · rw [if_pos hq] at hp
      nomatch hp
    · rw [if_neg hq] at hp
      obtain rfl := Option.some.inj hp
      exact hP.2 hq

/-- **`get_or_create`.** -/
theorem getOrCreate_triple (answer : Option Nat) :
    world.Triple fin (some t) (At t S m false) (Proc.getOrCreate t answer) (CacheOf t S m) := by
  have hset : ∀ b : Bool, world.Stable (some t) fun x : World => b = true → x.heap.arenaInit = true :=
    fun b x y _ _ hxy h hb => (hxy.arena (h hb)).1
  refine (load_triple (Q := fun b x => At t S m false x ∧ (b = true → x.heap.arenaInit = true)) At.stable
    (fun b => At.stable.and (hset b)) fun x hx hat => ⟨hat, fun hready => ?_⟩).bind fun b => ?_
  · -- `TLS_KEY` is set along with the globals
    cases hinit : x.heap.arenaInit with
    | true => rfl
    | false => exact absurd ((hx.good.booting hinit).ready.symm.trans hready) nofun
  · cases b with
    | false => exact ret_triple (At.stable.and (hset false)) fun _ _ hP => ⟨hP.1, nofun⟩
    | true =>
      have htls : ∀ q, world.Stable (some t) fun x : World =>
          At t S m false x ∧ x.heap.arenaInit = true ∧ x.heap.tls t = q := by
        rintro q x y hx hy hxy ⟨hat, hinit, htls⟩
        exact ⟨At.stable x y hx hy hxy hat, (hxy.arena hinit).1, (hxy.tls t rfl).trans htls⟩
      refine (load_triple (Q := fun q x => At t S m false x ∧ x.heap.arenaInit = true ∧ x.heap.tls t = q)
        (At.stable.and (hset true)) htls fun x _ hP => ⟨hP.1, hP.2 rfl, rfl⟩).bind fun q => ?_
      by_cases hq : q = 0
      · rw [if_neg (not_not.mpr hq)]
        exact (createCache_triple answer).conseq (fun x _ hP => ⟨hP.1, hP.2.1, hP.2.2.trans hq⟩)
          fun _ _ _ h => h
      · rw [if_pos hq]
        refine ret_triple (htls q) fun x _ hP => ⟨hP.1, fun p hp => ?_⟩
        obtain rfl := Option.some.inj hp
        exact ⟨hq, hP.2.2⟩

/-- **A thread that has a cache** gets it. -/
theorem getOrCreate_cached (answer : Option Nat) :
    world.Triple fin (some t) (fun x => At t S m false x ∧ Cached t x) (Proc.getOrCreate t answer)
      fun o x => (∃ p, o = some p) ∧ CacheOf t S m o x := by
  have hcached : world.Stable (some t) fun x => At t S m false x ∧ Cached t x := At.stable.and Cached.stable
  have hcache : ∀ q, world.Stable (some t) fun x => q ≠ 0 ∧ At t S m false x ∧ HasCache t q x :=
    fun _ => (Stable.const _).and (At.stable.and HasCache.stable)
  refine (load_triple (Q := fun b x => b = true ∧ At t S m false x ∧ Cached t x) hcached
    (fun _ => (Stable.const _).and hcached) fun x hx hP => ⟨?_, hP⟩).bind fun b => .pure fun hb => ?_
  · have hmade : x.heap.tls t ∈ x.view.made := hx.good.threads.tls t hP.2
    exact (hx.good.arena (hx.init_of_made hmade)).ready
  · subst hb
    refine (load_triple (f := fun h => h.tls t) (Q := fun q x => q ≠ 0 ∧ At t S m false x ∧ HasCache t q x)
      hcached hcache fun x _ hP => ⟨hP.2, hP.1, hP.2, rfl⟩).bind fun q => .pure fun hq => ?_
    rw [if_pos hq]
    refine ret_triple (At.stable.and HasCache.stable) fun x _ hP => ⟨⟨q, rfl⟩, hP.1, fun p hp => ?_⟩
    obtain rfl := Option.some.inj hp
    exact hP.2

end FerrumAlloc
