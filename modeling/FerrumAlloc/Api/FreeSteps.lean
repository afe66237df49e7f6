/-
# FerrumAlloc.Api.FreeSteps -- `ferrum_free` and the calls built on it, among other threads

A block freed stays in the hands of the thread until the one step that gives it away: the slab's, the
compare-exchange of a push that succeeds, or the step under the lock. The owner that the fast path reads from
the page's record is registered, and entries of the registry stay, so a push never loses its block.
-/
import FerrumAlloc.Api.AllocSteps

namespace FerrumAlloc

open Lib World Discipline

variable {t p q k n head : Nat} {S : Set Block} {m m' : Mem} {locked : Bool} {x y : World} {a : Arena}
  {b : Block} {h h' : Heap} {v v' : View} {l : List Block} {weak : Nat → Bool} {fin : Prop}

/-! ## The step under the lock -/

/-- The step leaves the lock alone. -/
theorem freeLocked_lock {ptr : Nat} (hrun : freeLocked h a ptr = .ok h') : h'.arenaLock = h.arenaLock := by
  unfold freeLocked freeInArena at hrun
  split at hrun
  · simp only at hrun
    split at hrun
    · split at hrun
      · obtain ⟨s, _, hrun⟩ := Exec.bind_eq_ok.mp hrun
        obtain ⟨r, _, hrun⟩ := Exec.bind_eq_ok.mp hrun
        cases hrun
        rfl
      · split at hrun
        · cases hrun
          rfl
        · split at hrun
          · obtain ⟨r, _, hrun⟩ := Exec.bind_eq_ok.mp hrun
            cases hrun
            rfl
          · cases hrun
            rfl
    · cases hrun
      rfl
  · cases hrun
    rfl

/-- **The step under the lock** takes every block. -/
theorem freeLocked_spec (hg : Good h v l) (hinit : h.arenaInit = true) (hb : b ∈ l) :
    ∃ h' v', freeLocked h.locked v.arena b.ptr = .ok h'.locked ∧ Freed h v b none h' v' := by
  obtain ⟨h', v', hrun, hfreed⟩ := freeSlow_spec hg hinit hb none fun _ _ => rfl
  refine ⟨h', v', ?_, hfreed⟩
  have harena : h.locked.globalArena = some v.arena := (hg.arena hinit).arena
  -- the sequential slow path is this step between `spin_lock` and `spin_unlock`
  have hbody : freeSlow h b.ptr = (do
      let h ← freeLocked h.locked v.arena b.ptr
      return spinUnlock h) := by
    unfold freeSlow freeLocked
    rw [Heap.spinLock_eq hg.lock]
    simp only [Exec.bind_ok, harena, derefGlobal, Exec.pure_eq]
    by_cases hin : v.arena.contains b.ptr = true
    · simp only [if_pos hin]
    · simp only [if_neg hin, Exec.bind_ok]
  rw [hbody] at hrun
  obtain ⟨h'', hlocked, hret⟩ := Exec.bind_eq_ok.mp hrun
  have hlock : h''.arenaLock = true := freeLocked_lock hlocked
  obtain rfl : spinUnlock h'' = h' := Except.ok.inj hret
  rw [hlocked]
  unfold Heap.locked spinUnlock
  rw [← hlock]

/-- **The slow path**, of any block but a slot. -/
theorem freeSlow_triple (hb : b ∈ S) (hvia : ∀ c, b.via ≠ .slab c) :
    world.Triple fin (some t) (At t S m false) (Proc.freeSlow b.ptr) fun _ => At t (S \ {b}) m false := by
  refine spinLock_triple.bind fun _ => (derefArena_triple At.stable).bind fun a => ?_
  refine Triple.bind (Does.triple (Q := fun _ => At t (S \ {b}) m true) (At.stable.and ArenaIs.stable)
    (fun _ => At.stable) ?_) fun _ => spinUnlock_triple
  rintro x hx ⟨hat, hinit, rfl⟩
  obtain ⟨h', v', hrun, hfreed⟩ := freeLocked_spec hx.good hinit (hat.mem hb)
  have hact : Act t True Nowhere x.conf ⟨h', v', x.live.erase b⟩ :=
    hfreed.act (hat.mem hb) nofun fun _ c hc => absurd hc (hvia c)
  obtain ⟨hmoves, hat'⟩ := (hact.shift hx.good).give hx hat hb hfreed.init_eq nofun
  refine .inr ⟨_, (), ?_, hmoves, hat'⟩
  simp only [hat.shared, hrun, Exec.bind_ok, Exec.pure_eq]
  rw [hat'.shared]

/-! ## A push -/

/-- There is a cache at `q`, with the identifier of the page that the address `z` lies in. -/
def OwnerAt (q z : Nat) (x : World) : Prop := q ∈ x.view.made ∧ InPageOf z (x.heap.caches q).id x

theorem OwnerAt.stable {z : Nat} : world.Stable (some t) (OwnerAt q z) := by
  rintro x y hx hy hxy ⟨hq, hpage⟩
  -- the cache is that of some thread
  obtain ⟨t', rfl⟩ := hx.owned.user q hq
  obtain ⟨_, hid⟩ := hxy.caches t' (hx.good.threads.id _ hq).1
  refine ⟨hxy.made _ hq, ?_⟩
  rw [hid]
  exact InPageOf.stable x y hx hy hxy hpage

/-- Writing a word twice. -/
theorem write64_write64 (m : Mem) (a v : Nat) : write64 (write64 m a v) a v = write64 m a v := by
  funext z
  simp only [write64, writeLE]
  split <;> rfl

/-- A word that is there already. -/
theorem write64_of_eqOn {w : Nat} (h8 : 8 ≤ b.cap) (hm : Set.EqOn m' m b.extent)
    (hw : write64 m b.ptr w = m) : write64 m' b.ptr w = m' := by
  funext z
  by_cases hz : z ∈ Set.Ico b.ptr (b.ptr + 8)
  · have hin : z ∈ b.extent := ⟨hz.1, Nat.lt_of_lt_of_le hz.2 (Nat.add_le_add_left h8 _)⟩
    have hsame : write64 m' b.ptr w z = write64 m b.ptr w z := writeLE_congr hm b.ptr 8 w hin
    rw [hsame, hw, hm hin]
  · exact write64_eqOn m' b.ptr w hz

/-- The block to be pushed is in hand; all others are as they were. -/
def Pushing (t : Nat) (S : Set Block) (m : Mem) (b : Block) (q : Nat) (P : Mem → Prop) (x : World) : Prop :=
  ∃ m', (P m' ∧ ∀ b' ∈ S, b' ≠ b → Set.EqOn m' m b'.extent) ∧ At t S m' false x ∧ OwnerAt q b.ptr x

theorem Pushing.stable {P : Mem → Prop} : world.Stable (some t) (Pushing t S m b q P) :=
  .exists_ fun _ => (Stable.const _).and (At.stable.and OwnerAt.stable)

/-- The block given away, the others are as they were. -/
theorem At.others (hat : At t (S \ {b}) m' locked x) (hm : ∀ b' ∈ S, b' ≠ b → Set.EqOn m' m b'.extent) :
    At t (S \ {b}) m locked x :=
  ⟨hat.mine, fun b' hb' => (hat.bytes b' hb').trans (hm b' hb'.1 hb'.2), hat.lock, hat.agree⟩

/-- The link is written into the block. -/
theorem pushLink_does {c : Nat} (hb : b ∈ S) (hvia : b.via = .slab c) (head : Nat) :
    Does t (Pushing t S m b q fun _ => True)
      (fun h => .ok (h.setBytes (write64 h.os.bytes b.ptr head), ()))
      fun _ => Pushing t S m b q fun m' => write64 m' b.ptr head = m' := by
  rintro x hx ⟨m', ⟨_, hm'⟩, hat, hq⟩
  have hmem := hat.mem hb
  have hinit := hx.good.init_of_via hmem (by rw [hvia]; nofun)
  obtain ⟨i, j, hu, _⟩ := (hx.good.placed b hmem).slabBlock hvia
  have hlink := hx.good.link_extent hinit hu hmem hvia head
  obtain ⟨hmoves, hat', hothers⟩ := hat.store hx hb hlink
  exact .inr ⟨_, (), rfl, hmoves, _, ⟨write64_write64 _ _ _, fun b' hb' hne =>
    (hothers b' hb' hne).trans (hm' b' hb' hne)⟩, hat', hq⟩

/-- The compare-exchange. -/
theorem pushCas_does {c : Nat} (hb : b ∈ S) (hvia : b.via = .slab c) (s : Nat × Nat) :
    Does t (Pushing t S m b q fun m' => write64 m' b.ptr s.2 = m')
      (fun h =>
        let head := (h.caches q).remoteFrees
        if head = s.2 ∧ weak s.1 = false then
          .ok (h.setCache q { h.caches q with remoteFrees := b.ptr }, (Sum.inr () : (Nat × Nat) ⊕ Unit))
        else .ok (h, .inl (s.1 + 1, head)))
      fun r x => Sum.elim (fun _ => Pushing t S m b q (fun _ => True) x)
        (fun _ => At t (S \ {b}) m false x) r := by
  rintro x hx ⟨m', ⟨hw, hm'⟩, hat, hq⟩
  have hmem := hat.mem hb
  have hinit := hx.good.init_of_via hmem (by rw [hvia]; nofun)
  right
  by_cases hcas : (x.shared.caches q).remoteFrees = s.2 ∧ weak s.1 = false
  · obtain ⟨i, j, hu, hptr, _⟩ := (hx.good.placed b hmem).slabBlock hvia
    obtain ⟨hmade, _, _, howner⟩ := hq
    rw [hptr, ((hx.good.arena hinit).slab_inPage hu).index] at howner
    have hshift := hx.good.pushTo_shift (t := t) hinit hu hmem hvia hptr hmade howner
    obtain ⟨hmoves, hat'⟩ := hshift.give hx hat hb rfl fun _ =>
      hx.good.guarded_push hinit hu hmem hvia _
    -- the link in the block is the head that the exchange has found
    have hsame : write64 x.heap.os.bytes b.ptr s.2 = x.heap.os.bytes :=
      write64_of_eqOn (hx.good.slab_cap hmem hvia) (hat.bytes b hb) hw
    have hremote : x.heap.remote q = s.2 := hcas.1
    have hpush : x.heap.push q b.ptr = x.heap.setCache q { x.heap.caches q with remoteFrees := b.ptr } := by
      unfold Heap.push
      rw [hremote, hsame]
      rfl
    refine ⟨_, .inr (), ?_, hmoves, hat'.others hm'⟩
    simp only [if_pos hcas]
    rw [hpush]
    rfl
  · refine ⟨x, .inl (s.1 + 1, (x.shared.caches q).remoteFrees), ?_, .refl hx, m', ⟨trivial, hm'⟩, hat, hq⟩
    simp only [if_neg hcas]

/-- **`remote_free_push`** of a slot, to the owner of its page, which is registered. -/
theorem remoteFreePush_triple {c : Nat} (hb : b ∈ S) (hvia : b.via = .slab c) (hk : k < maxThreads) :
    world.Triple False (some t) (fun x => At t S m false x ∧ x.heap.registry k ≠ 0 ∧ InPageOf b.ptr k x)
      (Proc.remoteFreePush weak k b.ptr) fun _ => At t (S \ {b}) m false := by
  have hreg : world.Stable (some t) fun x : World =>
      At t S m false x ∧ x.heap.registry k ≠ 0 ∧ InPageOf b.ptr k x :=
    At.stable.and (.and (fun _ _ _ _ hxy h => hxy.registry k h) InPageOf.stable)
  unfold Proc.remoteFreePush
  rw [if_neg (Nat.not_le_of_lt hk)]
  refine (load_triple (Q := fun q x => q ≠ 0 ∧ At t S m false x ∧ OwnerAt q b.ptr x) hreg
    (fun _ => (Stable.const _).and (At.stable.and OwnerAt.stable)) ?_).bind fun q => .pure fun h0 => ?_
  · -- the entry found is the cache with identifier `k`
    rintro x hx ⟨hat, hset, hpage⟩
    obtain ⟨hmade, hid⟩ := hx.good.threads.registry k hset
    rw [← hid] at hpage
    exact ⟨hset, hat, hmade, hpage⟩
  · rw [if_neg h0]
    refine (load_triple (Q := fun _ => Pushing t S m b q fun _ => True) (At.stable.and OwnerAt.stable)
      (fun _ => Pushing.stable) fun x _ hP => ?_).bind fun head => ?_
    · exact ⟨m, ⟨trivial, fun _ _ _ => Set.eqOn_refl _ _⟩, hP.1, hP.2⟩
    · -- no bound on the rounds: others may win the exchange for ever
      refine .repeat (J := fun _ => Pushing t S m b q fun _ => True) (0, head) (fun _ => Pushing.stable)
        (fun _ => At.stable) fun s => ?_
      refine ((pushLink_does hb hvia s.2).triple Pushing.stable fun _ => Pushing.stable).bind fun _ => ?_
      refine (pushCas_does hb hvia s).triple Pushing.stable fun r => ?_
      cases r with
      | inl s => exact Pushing.stable
      | inr u => exact At.stable

/-! ## The fast path -/

/-- A slot goes back to the slab of the thread's cache. -/
theorem freeLocal_triple {c : Nat} (hb : b ∈ S) (hvia : b.via = .slab c) :
    world.Triple fin (some t) (fun x => ((At t S m false x ∧ HasCache t p x) ∧ ArenaIs a x) ∧ OwnerAt p b.ptr x)
      (Proc.freeLocal p a b.ptr) fun _ => At t (S \ {b}) m false := by
  refine Does.triple (((At.stable.and HasCache.stable).and ArenaIs.stable).and OwnerAt.stable)
    (fun _ => At.stable) ?_
  rintro x hx ⟨⟨⟨hat, hcache⟩, hinit, rfl⟩, _, hpage⟩
  obtain ⟨i, j, s, m₁, hindex, _, hrun, hputs, hact⟩ := hpage.put hx hcache (hat.mem hb) hvia
  have hrun' : (x.shared.caches p).slab.freeNoArena x.shared.os.bytes b.ptr
      (x.view.arena.metaPtr (x.view.arena.ptrToPageIndex b.ptr)) = .ok (s, m₁) := by
    rw [hindex]
    exact hrun
  obtain ⟨hmoves, hat'⟩ := (hact.shift hx.good).give hx hat hb rfl fun _ =>
    hputs.guarded (hx.good.arena hinit) _
  refine .inr ⟨_, (), ?_, hmoves, hat'⟩
  simp only [hrun', Exec.bind_ok, Exec.pure_eq]
  rfl

/-- What the record of its page says about a slot: the owner, which is registered. -/
def SlotMeta (b : Block) (pm : PageMeta) (x : World) : Prop :=
  pm.ownerId < maxThreads ∧ x.heap.registry pm.ownerId ≠ 0 ∧ InPageOf b.ptr pm.ownerId x

theorem SlotMeta.stable {pm : PageMeta} : world.Stable (some t) (SlotMeta b pm) :=
  (Stable.const _).and (.and (fun _ _ _ _ hxy h => hxy.registry _ h) InPageOf.stable)

/-- The tests of the fast path hold of every slot, and the record of its page is right. -/
theorem Good.slotMeta {c : Nat} (hx : x.Inv) (ha : ArenaIs a x) (hb : b ∈ x.live) (hvia : b.via = .slab c) :
    (a.contains b.ptr = true ∧ a.ptrToPageIndex b.ptr > 0) ∧
      (readMeta x.heap.os.bytes (a.metaPtr (a.ptrToPageIndex b.ptr))).sizeClass ≠ noClass ∧
      SlotMeta b (readMeta x.heap.os.bytes (a.metaPtr (a.ptrToPageIndex b.ptr))) x := by
  obtain ⟨hinit, rfl⟩ := ha
  have ha := hx.good.arena hinit
  obtain ⟨i, j, hu, hptr, _⟩ := (hx.good.placed b hb).slabBlock hvia
  have hin := ha.slab_inPage hu
  rw [← hptr] at hin
  obtain ⟨howner, hreg⟩ := hx.good.threads.pages i c hu.1
  unfold SlotMeta InPageOf
  rw [hin.index, (ha.slabs.inv.slabPage hu.1).ownerId]
  exact ⟨⟨hin.contains, hin.pos⟩, ha.slabs.inv.sizeClass_ne hu.1, howner, hreg, hinit, ⟨c, hu.1⟩, rfl⟩

/-- **A slot** goes to the thread's own cache or to the stack of another one. -/
theorem freeSlot_triple {pm : PageMeta} {c : Nat} (hb : b ∈ S) (hvia : b.via = .slab c) :
    world.Triple False (some t) (fun x => ((At t S m false x ∧ HasCache t p x) ∧ ArenaIs a x) ∧ SlotMeta b pm x)
      (Proc.freeSlot weak p a b.ptr pm) fun done x => done = true ∧ At t (S \ {b}) m false x := by
  have hready : world.Stable (some t) fun x : World => (At t S m false x ∧ HasCache t p x) ∧ ArenaIs a x :=
    (At.stable.and HasCache.stable).and ArenaIs.stable
  have hdone : world.Triple False (some t) (At t (S \ {b}) m false) (pure true)
      fun done x => done = true ∧ At t (S \ {b}) m false x := ret_triple At.stable fun _ _ hat => ⟨rfl, hat⟩
  refine (load_triple (Q := fun id x => (((At t S m false x ∧ HasCache t p x) ∧ ArenaIs a x) ∧ SlotMeta b pm x) ∧
    (pm.ownerId = id → OwnerAt p b.ptr x)) (hready.and SlotMeta.stable)
    (fun _ => (hready.and SlotMeta.stable).and OwnerAt.stable.imp) fun x hx hP => ⟨hP, fun hown => ?_⟩).bind
    fun id => ?_
  · -- a page with the identifier of the cache
    have hpage := hP.2.2.2
    rw [hown] at hpage
    exact ⟨hP.1.1.2.made hx, hpage⟩
  by_cases hown : pm.ownerId = id
  · rw [if_pos hown]
    exact Triple.bind ((freeLocal_triple hb hvia).conseq (fun _ _ hP => ⟨hP.1.1, hP.2 hown⟩) fun _ _ _ h => h)
      fun _ => hdone
  · rw [if_neg hown]
    -- the owner's number does not change
    refine Triple.conseq (P := fun x => pm.ownerId < maxThreads ∧ At t S m false x ∧
      x.heap.registry pm.ownerId ≠ 0 ∧ InPageOf b.ptr pm.ownerId x) (.pure fun howner => ?_)
      (fun x _ hP => ⟨hP.1.2.1, hP.1.1.1.1, hP.1.2.2⟩) fun _ _ _ h => h
    have hne : pm.ownerId ≠ noOwner := by
      unfold maxThreads at howner
      unfold noOwner
      omega
    rw [if_pos hne]
    exact (remoteFreePush_triple hb hvia howner).bind fun _ => hdone

/-- **The fast path takes every slot**, of a thread that has a cache. -/
theorem freeFast_slot {c : Nat} (hb : b ∈ S) (hvia : b.via = .slab c) :
    world.Triple False (some t) (fun x => At t S m false x ∧ HasCache t p x) (Proc.freeFast weak (some p) b.ptr)
      fun done x => done = true ∧ At t (S \ {b}) m false x := by
  have hready : ∀ a, world.Stable (some t) fun x => (At t S m false x ∧ HasCache t p x) ∧ ArenaIs a x :=
    fun _ => (At.stable.and HasCache.stable).and ArenaIs.stable
  refine (derefArena_triple (At.stable.and HasCache.stable)).bind fun a => ?_
  -- the tests speak of the arena and the pointer only, so they come out before the record is read
  refine Triple.conseq (P := fun x => (a.contains b.ptr = true ∧ a.ptrToPageIndex b.ptr > 0) ∧
    (At t S m false x ∧ HasCache t p x) ∧ ArenaIs a x) (.pure fun hin => ?_)
    (fun x hx hP => ⟨(Good.slotMeta hx hP.2 (hP.1.1.mem hb) hvia).1, hP⟩) fun _ _ _ h => h
  rw [if_pos hin]
  refine (load_triple (Q := fun pm x => pm.sizeClass ≠ noClass ∧
    ((At t S m false x ∧ HasCache t p x) ∧ ArenaIs a x) ∧ SlotMeta b pm x) (hready a)
    (fun _ => (Stable.const _).and ((hready a).and SlotMeta.stable)) fun x hx hP => ?_).bind
    fun pm => .pure fun hcls => ?_
  · obtain ⟨_, hcls, hmeta⟩ := Good.slotMeta hx hP.2 (hP.1.1.mem hb) hvia
    exact ⟨hcls, hP, hmeta⟩
  · rw [if_pos hcls]
    exact freeSlot_triple hb hvia

/-- A record with a class is that of a slot. -/
theorem Good.noClass_of_via (hx : x.Inv) (ha : ArenaIs a x) (hb : b ∈ x.live) (hvia : ∀ c, b.via ≠ .slab c)
    (hcont : a.contains b.ptr = true) (hpos : a.ptrToPageIndex b.ptr > 0) :
    (readMeta x.heap.os.bytes (a.metaPtr (a.ptrToPageIndex b.ptr))).sizeClass = noClass := by
  obtain ⟨hinit, rfl⟩ := ha
  by_contra hcls
  have hbase : b.ptr ≠ x.view.arena.base := by
    intro heq
    rw [heq, Arena.ptrToPageIndex_base] at hpos
    exact Nat.lt_irrefl 0 hpos
  have hclass := (hx.good.placed b hb).classify (hx.good.arena hinit) hx.good.maps hbase
  unfold Heap.classify at hclass
  rw [if_pos hcont] at hclass
  simp only [if_pos hpos] at hclass
  rw [if_pos hcls] at hclass
  exact hvia _ hclass.symm

/-- **The fast path leaves all other blocks** to the slow path. -/
theorem freeFast_other (hb : b ∈ S) (hvia : ∀ c, b.via ≠ .slab c) (o : Option Nat) :
    world.Triple fin (some t) (CacheOf t S m o) (Proc.freeFast weak o b.ptr)
      fun done x => done = false ∧ At t S m false x := by
  cases o with
  | none => exact ret_triple (CacheOf.stable _) fun _ _ hP => ⟨rfl, hP.1⟩
  | some p =>
    have hready : ∀ a, world.Stable (some t) fun x => At t S m false x ∧ ArenaIs a x :=
      fun _ => At.stable.and ArenaIs.stable
    refine Triple.bind ((derefArena_triple At.stable).conseq (fun _ _ hP => hP.1) fun _ _ _ h => h) fun a => ?_
    by_cases hin : a.contains b.ptr = true ∧ a.ptrToPageIndex b.ptr > 0
    · rw [if_pos hin]
      refine (load_triple (Q := fun pm x => pm.sizeClass = noClass ∧ At t S m false x) (hready a)
        (fun _ => (Stable.const _).and At.stable) fun x hx hP => ?_).bind fun pm => .pure fun hcls => ?_
      · exact ⟨Good.noClass_of_via hx hP.2 (hP.1.mem hb) hvia hin.1 hin.2, hP.1⟩
      · rw [if_neg (not_not.mpr hcls)]
        exact ret_triple At.stable fun _ _ hat => ⟨rfl, hat⟩
    · rw [if_neg hin]
      exact ret_triple (hready a) fun _ _ hP => ⟨rfl, hP.1⟩

/-! ## `ferrum_free` -/

/-- The thread has a cache, if the block is a slot. -/
def CachedFor (t : Nat) (b : Block) (x : World) : Prop := (∃ c, b.via = .slab c) → Cached t x

theorem CachedFor.stable {j : Option Nat} : world.Stable j (CachedFor t b) := Cached.stable.imp

/-- **`ferrum_free`**, whatever other threads do meanwhile. -/
theorem ferrumFree_triple (hb : b ∈ S) (ans : Answers) :
    world.Triple False (some t) (fun x => At t S m false x ∧ CachedFor t b x) (Proc.ferrumFree weak t b.ptr ans)
      fun _ => At t (S \ {b}) m false := by
  unfold Proc.ferrumFree
  by_cases h0 : b.ptr = 0
  · exact fun x hx hP => absurd h0 (hx.good.ptr_ne (hP.1.mem hb))
  rw [if_neg h0]
  refine ((ensureInit_triple ans.arena).frame (F := CachedFor t b) (lasting fun _ => CachedFor.stable)).bind
    fun _ => ?_
  by_cases hvia : ∃ c, b.via = .slab c
  · -- a slot: the thread has a cache, and the fast path applies
    obtain ⟨c, hvia⟩ := hvia
    refine Triple.bind ((getOrCreate_cached ans.cache).conseq (fun _ _ hP => ⟨hP.1, hP.2 ⟨c, hvia⟩⟩)
      fun _ _ _ h => h) fun o => .pure fun ho => ?_
    obtain ⟨p, rfl⟩ := ho
    refine Triple.bind ((freeFast_slot hb hvia).conseq (fun _ _ hP => ⟨hP.1, hP.2 p rfl⟩) fun _ _ _ h => h)
      fun done => .pure fun hdone => ?_
    subst hdone
    exact skip_triple At.stable
  · have hno : ∀ c, b.via ≠ .slab c := fun c hc => hvia ⟨c, hc⟩
    refine Triple.bind ((getOrCreate_triple ans.cache).conseq (fun _ _ hP => hP.1) fun _ _ _ h => h) fun o => ?_
    refine (freeFast_other hb hno o).bind fun done => .pure fun hdone => ?_
    subst hdone
    exact freeSlow_triple hb hno

end FerrumAlloc
