/-
# FerrumAlloc.ThreadCache.RemoteSystem -- no cross-thread free is lost or duplicated

The steps of an owner: the swap and the loop of a drain, and the slab calls in between. With the steps of
a push they keep `RemoteInv`, so that every interleaving does (`reachable_remoteInv`). The result is
`reachable_remote_exact`: stacks hold what was pushed and not yet taken, drains free what they took, node
by node and once, and every drain ends.
-/
import FerrumAlloc.ThreadCache.RemoteInv

namespace FerrumAlloc.Remote

open Lib
open Slab (Slot)

/-- The nodes that a running drain of cache `k` has still to free. -/
def State.left {ι : Type} (s : State ι) (k : ι) : Nat :=
  match s.drain k with
  | none => 0
  | some _ => (s.taken k).length - (s.freed k).length

/-- A step that does not touch the drain of cache `k`. -/
theorem left_congr {ι : Type} {s s' : State ι} {k : ι} (hd : s'.drain k = s.drain k) (ht : s'.taken k = s.taken k)
    (hf : s'.freed k = s.freed k) : s'.left k = s.left k := by
  unfold State.left
  rw [hd, ht, hf]

section

variable {ι : Type} [DecidableEq ι] {a : Arena} {s s' : State ι} {g g' : Ghost ι}
  {role role' : Nat → Role ι} {m' : Mem} {i c j o p q head : Nat} {k : ι} {e : Slot}
  {slab : SlabAllocator}

/-! ## Storing a slab back into its cache -/

@[simp] theorem setSlab_remoteFrees (k' : ι) :
    (s.setSlab k slab k').remoteFrees = (s.caches k').remoteFrees := by
  unfold State.setSlab
  by_cases hk : k' = k
  · subst hk
    rw [Function.update_self]
  · rw [Function.update_of_ne hk]

theorem setSlab_slab : (fun k' => (s.setSlab k slab k').slab) =
    Function.update (fun k' => (s.caches k').slab) k slab := by
  funext k'
  unfold State.setSlab
  by_cases hk : k' = k
  · subst hk
    rw [Function.update_self, Function.update_self]
  · rw [Function.update_of_ne hk, Function.update_of_ne hk]

namespace RemoteInv

/-! ## Freeing a used slot -/

/-- What is left in use after slot `j` of page `i` is freed. -/
theorem used_free (hi : RemoteInv a s g role) (hu : g.Used i c j) (k : ι) (p : Nat) :
    Function.update role (a.slotAddr i c j) .free p ≠ .free ↔
      ∃ i' c' j', (g.put a k c i j).Used i' c' j' ∧ p = a.slotAddr i' c' j' := by
  constructor
  · intro hp
    have hne : p ≠ a.slotAddr i c j := by
      rintro rfl
      exact hp (Function.update_self ..)
    rw [Function.update_of_ne hne] at hp
    obtain ⟨i', c', j', hu', rfl⟩ := hi.slot hp
    refine ⟨i', c', j', (Ghost.used_put hu).mpr ⟨hu', ?_⟩, rfl⟩
    rintro ⟨rfl, rfl⟩
    exact hne (by rw [Option.some.inj (hu'.1.symm.trans hu.1)])
  · rintro ⟨i', c', j', hput, rfl⟩
    obtain ⟨hu', hne⟩ := (Ghost.used_put hu).mp hput
    have hne' : a.slotAddr i' c' j' ≠ a.slotAddr i c j := by
      intro heq
      obtain ⟨h1, _, h2⟩ := hi.inv.slotAddr_inj hu' hu heq
      exact hne ⟨h1, h2⟩
    rw [Function.update_of_ne hne']
    exact (hi.used _).mpr ⟨i', c', j', hu', rfl⟩

/-- A live slot elsewhere stays in use. -/
theorem live_free (hi : RemoteInv a s g role) (hu : g.Used i c j) (k : ι) (he : e ∈ s.live)
    (hne : e.ptr ≠ a.slotAddr i c j) :
    Function.update role (a.slotAddr i c j) .free e.ptr = .live ∧
      ∃ i' j', (g.put a k c i j).Used i' e.cls j' ∧ e.ptr = a.slotAddr i' e.cls j' := by
  obtain ⟨hlive, i', j', hu', hp⟩ := hi.live e he
  refine ⟨by rw [Function.update_of_ne hne]; exact hlive, i', j', (Ghost.used_put hu).mpr ⟨hu', ?_⟩, hp⟩
  rintro ⟨rfl, rfl⟩
  rw [hp, Option.some.inj (hu'.1.symm.trans hu.1)] at hne
  exact hne rfl

/-! ## Steps of a drain -/

/-- **`swap`.** The drain holds what the stack held. -/
theorem step_swap (hi : RemoteInv a s g role) :
    RemoteInv a { s with
        caches := s.setHead k 0
        drain := Function.update s.drain k (some (s.caches k).remoteFrees)
        pending := Function.update s.pending k []
        taken := Function.update s.taken k (s.pending k)
        freed := Function.update s.freed k [] } g
      (fun p => if role p = .stacked k then .draining k else role p) := by
  have hother : ∀ {r p}, role p = r → r ≠ .stacked k →
      (if role p = .stacked k then .draining k else role p) = r := by
    rintro r p rfl hr
    exact if_neg hr
  refine ⟨hi.inv_setHead k 0, fun p => ?_, fun f hf => ?_, hi.nodup,
    fun t p hp => hother (hi.node t p hp) nofun, hi.head, hi.linked, fun k' => ?_, fun k' p hp => ?_⟩
  · rw [← hi.used p]
    by_cases hp : role p = .stacked k
    · rw [if_pos hp, hp]
      simp
    · rw [if_neg hp]
  · obtain ⟨h1, h2⟩ := hi.live f hf
    exact ⟨hother h1 nofun, h2⟩
  · unfold State.setHead
    by_cases hk : k' = k
    · subst hk
      simp only [Function.update_self]
      exact .nil
    · simp only [Function.update_of_ne hk]
      refine (hi.stack k').keep fun p hp => ⟨hother hp fun heq => hk ?_, rfl⟩
      exact Role.stacked.inj heq
  · by_cases hk : k' = k
    · subst hk
      simp only [Function.update_self, Option.some.injEq] at hp ⊢
      obtain ⟨hchain, hnd, hrole⟩ := hi.stack k'
      rw [hp] at hchain
      exact ⟨s.pending k', ⟨hchain, hnd, fun q hq => if_pos (hrole q hq)⟩, rfl, hnd⟩
    · simp only [Function.update_of_ne hk] at hp ⊢
      exact hi.drain_keep (fun k' q hq => ⟨hother hq nofun, rfl⟩) k' p hp

/-- **`drain`.** The slab free of the next node returns, and the drain moves on. -/
theorem step_drain (hi : RemoteInv a s g role) (hd : s.drain k = some head) (h0 : head ≠ 0) :
    ∃ r, (s.caches k).slab.free s.mem head a = .ok r ∧ ∃ g' role', RemoteInv a { s with
        caches := s.setSlab k r.1
        mem := r.2
        drain := Function.update s.drain k (some (read64 s.mem head))
        freed := Function.update s.freed k (s.freed k ++ [head]) } g' role' := by
  obtain ⟨l, hs, htaken, hnd⟩ := hi.drain k head hd
  have hrole := hs.head_role h0
  obtain ⟨rest, rfl, hnot, htail⟩ := hs.tail h0
  obtain ⟨i, c, j, hu, rfl⟩ := hi.slot (p := head) (by rw [hrole]; nofun)
  obtain ⟨s', m', hrun, hinv, hm⟩ := hi.inv.freeNoArena_spec hu k
  have hother : ∀ {r p}, role p = r → r ≠ .draining k →
      Function.update role (a.slotAddr i c j) .free p = r :=
    fun hp hr => update_role_of_ne (by rw [hrole]; exact hr.symm) hp
  have hlink : ∀ {r p}, role p = r → r ≠ .free → r ≠ .draining k →
      read64 m' p = read64 s.mem p := by
    intro r p hp hfree hr
    refine hi.link_free hu hm (by rw [hp]; exact hfree) ?_
    rintro rfl
    exact hr (hp.symm.trans hrole)
  refine ⟨(s', m'), (hi.inv.free_spec hu k).trans hrun, g.put a k c i j,
    Function.update role (a.slotAddr i c j) .free, ⟨?_, hi.used_free hu k, fun f hf => ?_, hi.nodup,
    fun t p hp => hother (hi.node t p hp) nofun, hi.head, fun t k' p q hp => ?_, fun k' => ?_,
    fun k' p hp => ?_⟩⟩
  · rw [setSlab_slab]
    exact hinv
  · refine hi.live_free hu k hf ?_
    intro heq
    have hlive := (hi.live f hf).1
    rw [heq, hrole] at hlive
    exact nomatch hlive
  · have hpush := hi.node t p (by rw [hp]; rfl)
    exact (hlink hpush nofun nofun).trans (hi.linked t k' p q hp)
  · simp only [setSlab_remoteFrees]
    exact (hi.stack k').keep fun p hp => ⟨hother hp nofun, hlink hp nofun nofun⟩
  · by_cases hk : k' = k
    · subst hk
      simp only [Function.update_self, Option.some.injEq] at hp ⊢
      have hself : ∀ q ∈ rest, q ≠ a.slotAddr i c j := by
        rintro q hq rfl
        exact hnot hq
      refine ⟨rest, ⟨?_, htail.nodup, fun q hq => ?_⟩, ?_, hnd⟩
      · rw [← hp]
        refine htail.chain.congr fun q hq => hi.link_free hu hm ?_ (hself q hq)
        rw [htail.role q hq]
        nofun
      · rw [Function.update_of_ne (hself q hq)]
        exact htail.role q hq
      · rw [htaken, List.append_assoc]
        rfl
    · simp only [Function.update_of_ne hk] at hp ⊢
      obtain ⟨rest', hs', htaken'⟩ := hi.drain k' p hp
      refine ⟨rest', hs'.keep fun q hq => ?_, htaken'⟩
      have hne : Role.draining k' ≠ .draining k := fun heq => hk (Role.draining.inj heq)
      exact ⟨hother hq hne, hlink hq nofun hne⟩

/-- **`drainEnd`.** -/
theorem step_drainEnd (hi : RemoteInv a s g role) :
    RemoteInv a { s with drain := Function.update s.drain k none } g role := by
  refine ⟨hi.inv, hi.used, hi.live, hi.nodup, hi.node, hi.head, hi.linked, hi.stack,
    fun k' p hp => ?_⟩
  by_cases hk : k' = k
  · subst hk
    simp only [Function.update_self] at hp
    exact nomatch hp
  · simp only [Function.update_of_ne hk] at hp
    exact hi.drain k' p hp

/-! ## Slab calls of an owner -/

/-- A served allocation: the slot returned was in no role and becomes live. -/
theorem step_served (hi : RemoteInv a s g role) (hc : c < numSizeClasses)
    (hok : a.nextFreePage s.mem < pagesPerArena ∨ g.parts (k, c) ≠ [])
    (hs : Served a g (a.nextFreePage s.mem) k c o g' i j)
    (hinv : SlabInv a m' (Function.update (fun k' => (s.caches k').slab) k slab) g')
    (hm : Set.EqOn m' s.mem (allocBytes a g (a.nextFreePage s.mem) k c)ᶜ) :
    RemoteInv a (s.issue k c (slab, m', a.slotAddr i c j)) g'
      (Function.update role (a.slotAddr i c j) .live) := by
  have hused : ∀ {i' c' j'}, g'.Used i' c' j' ↔ g.Used i' c' j' ∨ i' = i ∧ c' = c ∧ j' = j :=
    hs.used_iff hi.inv hc
  have hnew : g'.Used i c j := hused.mpr (.inr ⟨rfl, rfl, rfl⟩)
  have hfree : role (a.slotAddr i c j) = .free := by
    by_contra hne
    obtain ⟨i', c', j', hu, hp⟩ := hi.slot hne
    obtain ⟨rfl, rfl, rfl⟩ := hinv.slotAddr_inj hnew (hused.mpr (.inl hu)) hp
    exact hs.not_used hi.inv hu
  have hother : ∀ {r p}, role p = r → r ≠ .free →
      Function.update role (a.slotAddr i c j) .live p = r :=
    fun hp hr => update_role_of_ne (by rw [hfree]; exact hr.symm) hp
  have hlink : ∀ {r p}, role p = r → r ≠ .free → read64 m' p = read64 s.mem p := by
    intro r p hp hr
    refine hi.link_keep (by rw [hp]; exact hr) fun i' c' j' hu' _ => hm.mono fun z hz => ?_
    exact hi.inv.allocBytes_not_used hok hu' hz
  have hlive : (s.issue k c (slab, m', a.slotAddr i c j)).live = ⟨a.slotAddr i c j, c⟩ :: s.live :=
    if_neg (Slab.slotAddr_ne_zero hi.inv.arena)
  refine ⟨?_, fun p => ?_, fun f hf => ?_, ?_, fun t p hp => hother (hi.node t p hp) nofun, hi.head,
    fun t k' p q hp => ?_, fun k' => ?_,
    hi.drain_keep fun k' p hp => ⟨hother hp nofun, hlink hp nofun⟩⟩
  · unfold State.issue
    simp only [setSlab_slab]
    exact hinv
  · by_cases hp : p = a.slotAddr i c j
    · rw [hp, Function.update_self]
      exact ⟨fun _ => ⟨i, c, j, hnew, rfl⟩, fun _ => nofun⟩
    · rw [Function.update_of_ne hp, hi.used]
      constructor
      · rintro ⟨i', c', j', hu, hpa⟩
        exact ⟨i', c', j', hused.mpr (.inl hu), hpa⟩
      · rintro ⟨i', c', j', hu, hpa⟩
        rcases hused.mp hu with hu | ⟨rfl, rfl, rfl⟩
        · exact ⟨i', c', j', hu, hpa⟩
        · exact absurd hpa hp
  · rw [hlive] at hf
    rcases List.mem_cons.mp hf with rfl | hf
    · exact ⟨Function.update_self .., i, j, hnew, rfl⟩
    · obtain ⟨h1, i', j', hu, hp⟩ := hi.live f hf
      exact ⟨hother h1 nofun, i', j', hused.mpr (.inl hu), hp⟩
  · rw [hlive, List.map_cons]
    refine List.nodup_cons.mpr ⟨fun hmem => ?_, hi.nodup⟩
    obtain ⟨f, hf, hp⟩ := List.mem_map.mp hmem
    have hrole := (hi.live f hf).1
    rw [hp, hfree] at hrole
    exact nomatch hrole
  · have hpush := hi.node t p (by rw [show s.push t = _ from hp]; rfl)
    exact (hlink hpush nofun).trans (hi.linked t k' p q hp)
  · unfold State.issue
    simp only [setSlab_remoteFrees]
    exact (hi.stack k').keep fun p hp => ⟨hother hp nofun, hlink hp nofun⟩

/-- **`alloc` returns** and keeps the invariant. -/
theorem step_alloc (hi : RemoteInv a s g role) (hc : c < numSizeClasses) (ho : o < 2 ^ 16) :
    ∃ r, (s.caches k).slab.alloc s.mem c a o = .ok r ∧
      ∃ g' role', RemoteInv a (s.issue k c r) g' role' := by
  rcases hi.inv.alloc_spec hc ho k with ⟨_, _, hrun⟩ | ⟨s', m', g', i, j, hrun, hok, hs, hinv, hm⟩
  · have hsame : s.issue k c ((s.caches k).slab, s.mem, 0) = s := by
      unfold State.issue State.setSlab
      simp
    exact ⟨_, hrun, g, role, by rw [hsame]; exact hi⟩
  · exact ⟨_, hrun, g', _, hi.step_served hc hok hs hinv hm⟩

/-- **`alloc_no_arena` returns** when a page is listed, and keeps the invariant. -/
theorem step_allocNoArena (hi : RemoteInv a s g role) (hc : c < numSizeClasses)
    (hneeds : (s.caches k).slab.allocNeedsPage c = .ok false) :
    ∃ r, (s.caches k).slab.allocNoArena s.mem c = .ok r ∧
      ∃ g' role', RemoteInv a (s.issue k c r) g' role' := by
  have hl : g.parts (k, c) ≠ [] := by
    have hspec := hi.inv.allocNeedsPage_spec hc k
    rw [hneeds] at hspec
    exact of_decide_eq_false (Except.ok.inj hspec).symm
  obtain ⟨s', m', g', i, j, hrun, hs, hinv, hm⟩ := hi.inv.allocNoArena_spec hc k 0 hl
  exact ⟨_, hrun, g', _, hi.step_served hc (.inr hl) hs hinv hm⟩

/-- **A free of a live slot returns** and keeps the invariant, in both variants. -/
theorem step_free (hi : RemoteInv a s g role) (he : e ∈ s.live) :
    ∃ r, (s.caches k).slab.free s.mem e.ptr a = .ok r ∧
      (s.caches k).slab.freeNoArena s.mem e.ptr (a.metaPtr (a.ptrToPageIndex e.ptr)) = .ok r ∧
      ∃ g' role', RemoteInv a (s.release k e r) g' role' := by
  obtain ⟨hlive, i, j, hu, hp⟩ := hi.live e he
  obtain ⟨s', m', hrun, hinv, hm⟩ := hi.inv.freeNoArena_spec hu k
  rw [hp] at hlive
  have hother : ∀ {r p}, role p = r → r ≠ .live →
      Function.update role (a.slotAddr i e.cls j) .free p = r :=
    fun hp hr => update_role_of_ne (by rw [hlive]; exact hr.symm) hp
  have hlink : ∀ {r p}, role p = r → r ≠ .free → r ≠ .live →
      read64 m' p = read64 s.mem p := by
    intro r p hp hfree hr
    refine hi.link_free hu hm (by rw [hp]; exact hfree) ?_
    rintro rfl
    exact hr (hp.symm.trans hlive)
  refine ⟨(s', m'), ?_, ?_, g.put a k e.cls i j, Function.update role (a.slotAddr i e.cls j) .free,
    ⟨?_, hi.used_free hu k, fun f hf => ?_, hi.nodup.sublist (List.erase_sublist.map _),
    fun t p hp => hother (hi.node t p hp) nofun, hi.head, fun t k' p q hp => ?_, fun k' => ?_,
    hi.drain_keep fun k' p hp => ⟨hother hp nofun, hlink hp nofun nofun⟩⟩⟩
  · rw [hp, hi.inv.free_spec hu k]
    exact hrun
  · rw [hp, hi.inv.ptrToPageIndex_slot hu]
    exact hrun
  · unfold State.release
    simp only [setSlab_slab]
    exact hinv
  · obtain ⟨hf, hfe⟩ := mem_erase_ptr hi.nodup he hf
    exact hi.live_free hu k hf (hp ▸ hfe)
  · have hpush := hi.node t p (by rw [show s.push t = _ from hp]; rfl)
    exact (hlink hpush nofun nofun).trans (hi.linked t k' p q hp)
  · unfold State.release
    simp only [setSlab_remoteFrees]
    exact (hi.stack k').keep fun p hp => ⟨hother hp nofun, hlink hp nofun nofun⟩

end RemoteInv

/-! ## Runs -/

theorem RemoteInv.init (ha : a.Ok) (k : ι) (hs : (remoteSystem ι a).init s) :
    ∃ g role, RemoteInv a s g role := by
  obtain ⟨⟨m, id, hmem⟩, hcaches, hpush, hdrain, hlive, hpending⟩ := hs
  have hslab : (fun k => (s.caches k).slab) = fun _ => .new := by
    funext k
    obtain ⟨_, hk⟩ := hcaches k
    rw [hk]
    rfl
  refine ⟨.empty k, fun _ => .free, ?_, fun p => ?_, ?_, ?_, fun t p hp => ?_, fun t p hp => ?_,
    fun t k p q hp => ?_, fun k => ?_, fun k p hp => ?_⟩
  · rw [hmem, hslab]
    exact SlabInv.init ha m id k
  · refine ⟨fun h => absurd rfl h, ?_⟩
    rintro ⟨_, c, _, hu, _⟩
    exact absurd hu.1 (Option.some_ne_none c).symm
  · simp [hlive]
  · simp [hlive]
  · rw [hpush] at hp
    exact nomatch hp
  · rw [hpush] at hp
    exact nomatch hp
  · rw [hpush] at hp
    exact nomatch hp
  · obtain ⟨_, hk⟩ := hcaches k
    rw [hk, hpending]
    exact .nil
  · rw [hdrain] at hp
    exact nomatch hp

/-- **Step lemma.** -/
theorem RemoteInv.step (hi : RemoteInv a s g role) {ev : Event ι} (hstep : Step a s ev s') :
    ∃ g' role', RemoteInv a s' g' role' := by
  cases hstep with
  | load _ he => exact ⟨g, _, hi.step_load he⟩
  | link hpush => exact ⟨g, role, hi.step_link hpush⟩
  | casOk hpush hhead => exact ⟨g, _, hi.step_casOk hpush hhead⟩
  | casFail hpush => exact ⟨g, role, hi.step_casFail hpush⟩
  | swap _ => exact ⟨g, _, hi.step_swap⟩
  | drain hd h0 hrun =>
    obtain ⟨r, hrun', hnext⟩ := hi.step_drain hd h0
    obtain rfl := Except.ok.inj (hrun'.symm.trans hrun)
    exact hnext
  | drainEnd _ => exact ⟨g, role, hi.step_drainEnd⟩
  | alloc _ hc ho hrun =>
    obtain ⟨r, hrun', hnext⟩ := hi.step_alloc hc ho
    obtain rfl := Except.ok.inj (hrun'.symm.trans hrun)
    exact hnext
  | allocNoArena _ hc hneeds hrun =>
    obtain ⟨r, hrun', hnext⟩ := hi.step_allocNoArena hc hneeds
    obtain rfl := Except.ok.inj (hrun'.symm.trans hrun)
    exact hnext
  | free _ he hrun =>
    obtain ⟨r, hrun', _, hnext⟩ := hi.step_free he
    obtain rfl := Except.ok.inj (hrun'.symm.trans hrun)
    exact hnext
  | freeNoArena _ he hrun =>
    obtain ⟨r, _, hrun', hnext⟩ := hi.step_free he
    obtain rfl := Except.ok.inj (hrun'.symm.trans hrun)
    exact hnext
  | write he h1 h2 => exact ⟨g, role, hi.step_write he h1 h2⟩

/-- **Run lemma.** Every interleaving keeps the invariant. -/
theorem reachable_remoteInv (ha : a.Ok) (k : ι) (hr : (remoteSystem ι a).Reachable s) :
    ∃ g role, RemoteInv a s g role := by
  refine System.Reachable.invariant (I := fun s => ∃ g role, RemoteInv a s g role)
    (fun s hs => RemoteInv.init ha k hs) ?_ hr
  rintro s ev s' _ ⟨g, role, hi⟩ hstep
  exact hi.step hstep

/-! ## Every drain ends -/

/-- The steps of the drain loop of cache `k`. -/
def Event.isDrain (k : ι) : Event ι → Bool
  | .drain k' => k' = k
  | _ => false

/-- Each step of a drain frees one of the nodes left; other steps add none. -/
theorem RemoteInv.left_step (hi : RemoteInv a s g role) {ev : Event ι} (hstep : Step a s ev s')
    (hev : ev ≠ .swap k) : (if ev.isDrain k then 1 else 0) + s'.left k ≤ s.left k := by
  have hother : ∀ {k' : ι}, k' ≠ k → ∀ {α : Type} (f : ι → α) (v : α),
      Function.update f k' v k = f k := fun hk _ f v => Function.update_of_ne hk.symm v f
  cases hstep with
  | @swap k' _ =>
    have hk : k' ≠ k := fun heq => hev (by rw [heq])
    refine Nat.le_of_eq ((Nat.zero_add _).trans ?_)
    exact left_congr (hother hk _ _) (hother hk _ _) (hother hk _ _)
  | @drain k' head r hd h0 hrun =>
    by_cases hk : k' = k
    · subst hk
      obtain ⟨l, hs, htaken, _⟩ := hi.drain k' head hd
      obtain ⟨rest, rfl, _⟩ := hs.tail h0
      unfold State.left Event.isDrain
      simp only [Function.update_self, hd, decide_true, if_true, htaken, List.length_append,
        List.length_cons, List.length_nil]
      omega
    · have hfalse : (Event.drain k').isDrain k = false := decide_eq_false hk
      rw [hfalse]
      refine Nat.le_of_eq ((Nat.zero_add _).trans ?_)
      exact left_congr (hother hk _ _) rfl (hother hk _ _)
  | @drainEnd k' hd =>
    refine Nat.le_trans (Nat.le_of_eq (Nat.zero_add _)) ?_
    by_cases hk : k' = k
    · subst hk
      unfold State.left
      simp only [Function.update_self]
      exact Nat.zero_le _
    · exact Nat.le_of_eq (left_congr (hother hk _ _) rfl rfl)
  | _ => exact Nat.le_of_eq (Nat.zero_add _)

/-- A run without a new swap makes at most as many steps of the drain as there are nodes left. -/
theorem left_run (ha : a.Ok) (k : ι) (hr : (remoteSystem ι a).Reachable s) {es : List (Event ι)}
    (hrun : (remoteSystem ι a).Run s es s') (hes : .swap k ∉ es) :
    es.countP (Event.isDrain k) ≤ s.left k := by
  induction hrun with
  | nil => exact Nat.zero_le _
  | @cons s s₁ s' ev es hstep _ ih =>
    obtain ⟨g, role, hi⟩ := reachable_remoteInv ha k hr
    have hone := hi.left_step hstep fun heq => hes (by rw [heq]; exact List.mem_cons_self)
    have hrest := ih (hr.step hstep) fun hmem => hes (List.mem_cons_of_mem _ hmem)
    rw [List.countP_cons]
    omega

/-- **No cross-thread free is lost or duplicated.** In every state of every interleaving, for every
cache: the stack is a null-terminated chain of exactly the nodes pushed and not yet taken, each once; a
running drain has freed a first part of the nodes it took, each once, and its chain is the rest, so that
it has freed them all when it comes to its end; it can always go on; and it makes no more steps than there
are nodes left. -/
theorem reachable_remote_exact (ha : a.Ok) (hr : (remoteSystem ι a).Reachable s) (k : ι) :
    Chain (read64 s.mem) 0 (s.caches k).remoteFrees (s.pending k) ∧ (s.pending k).Nodup ∧
      (∀ head, s.drain k = some head →
        (∃ rest, Chain (read64 s.mem) 0 head rest ∧ s.taken k = s.freed k ++ rest) ∧
        (s.taken k).Nodup ∧ (head = 0 → s.freed k = s.taken k) ∧
        ∃ s', Step a s (.drain k) s' ∨ Step a s (.drainEnd k) s') ∧
      ∀ es s', (remoteSystem ι a).Run s es s' → .swap k ∉ es →
        es.countP (Event.isDrain k) ≤ s.left k := by
  obtain ⟨g, role, hi⟩ := reachable_remoteInv ha k hr
  refine ⟨(hi.stack k).chain, (hi.stack k).nodup, fun head hd => ?_,
    fun es s' hrun hes => left_run ha k hr hrun hes⟩
  obtain ⟨rest, hs, htaken, hnd⟩ := hi.drain k head hd
  refine ⟨⟨rest, hs.chain, htaken⟩, hnd, fun h0 => ?_, ?_⟩
  · have hnil : rest = [] := hs.chain.eq_nil_iff.mpr h0
    rw [htaken, hnil, List.append_nil]
  · by_cases h0 : head = 0
    · exact ⟨_, .inr (.drainEnd (h0 ▸ hd))⟩
    · obtain ⟨r, hrun, _⟩ := hi.step_drain hd h0
      exact ⟨_, .inl (.drain hd h0 hrun)⟩

end

/-- One slot is allocated and pushed on the stack of its owner. -/
theorem exists_pending {a : Arena} (ha : a.Ok) :
    ∃ (s : State Unit) (p : Nat), s.pending () = [p] ∧ (remoteSystem Unit a).Reachable s := by
  obtain ⟨m, hm⟩ : ∃ m, m = a.init (fun _ => 0) 0 := ⟨_, rfl⟩
  obtain ⟨s₀, hs₀⟩ : ∃ s₀ : State Unit, s₀ = ⟨fun _ => .new 0, m, fun _ => .idle, fun _ => none, [],
    fun _ => [], fun _ => [], fun _ => []⟩ := ⟨_, rfl⟩
  have hinit : (remoteSystem Unit a).init s₀ := by
    rw [hs₀]
    exact ⟨⟨_, _, hm⟩, fun _ => ⟨0, rfl⟩, fun _ => rfl, fun _ => rfl, rfl, fun _ => rfl⟩
  obtain ⟨g, role, hi⟩ := RemoteInv.init ha () hinit
  have hc : 0 < numSizeClasses := by decide
  have hnext : a.nextFreePage s₀.mem < pagesPerArena := by
    rw [hs₀]
    simp only [hm, (Arena.init_spec a (fun _ => 0) 0).1]
    decide
  rcases hi.inv.alloc_spec hc (o := 0) (by decide) () with
    ⟨_, hfull, _⟩ | ⟨s', m', g', i, j, hrun, _⟩
  · exact absurd hfull (Nat.not_le_of_lt hnext)
  · have hdrain : s₀.drain () = none := by rw [hs₀]
    have hpush : s₀.push 0 = .idle := by rw [hs₀]
    have hp : a.slotAddr i 0 j ≠ 0 := Slab.slotAddr_ne_zero ha
    have h₁ := System.Reachable.step (.init hinit) (Step.alloc hdrain hc (by decide) hrun)
    have hlive : (⟨a.slotAddr i 0 j, 0⟩ : Slot) ∈
        (s₀.issue () 0 (s', m', a.slotAddr i 0 j)).live := by
      unfold State.issue
      rw [if_neg hp]
      exact List.mem_cons_self
    have h₂ := h₁.step (Step.load (t := 0) (k := ()) hpush hlive)
    have h₃ := h₂.step (Step.link (Function.update_self ..))
    have h₄ := h₃.step (Step.casOk (Function.update_self ..) rfl)
    refine ⟨_, a.slotAddr i 0 j, ?_, h₄⟩
    simp [State.issue, hs₀]

/-- The arena at 2 MB, with one push completed. -/
theorem reachable_remote_exact_push : ∃ (a : Arena) (s : State Unit) (p : Nat),
    a = ⟨2097152, 2097152⟩ ∧ s.pending () = [p] ∧ (remoteSystem Unit a).Reachable s ∧
    (Chain (read64 s.mem) 0 (s.caches ()).remoteFrees (s.pending ()) ∧ (s.pending ()).Nodup ∧
      (∀ head, s.drain () = some head →
        (∃ rest, Chain (read64 s.mem) 0 head rest ∧ s.taken () = s.freed () ++ rest) ∧
        (s.taken ()).Nodup ∧ (head = 0 → s.freed () = s.taken ()) ∧
        ∃ s', Step a s (.drain ()) s' ∨ Step a s (.drainEnd ()) s') ∧
      ∀ es s', (remoteSystem Unit a).Run s es s' → .swap () ∉ es →
        es.countP (Event.isDrain ()) ≤ s.left ()) := by
  have ha : Arena.Ok ⟨2097152, 2097152⟩ := ⟨by decide, by decide, rfl, by decide⟩
  obtain ⟨s, p, hp, hr⟩ := exists_pending ha
  exact ⟨_, s, p, rfl, hp, hr, reachable_remote_exact ha hr ()⟩

end FerrumAlloc.Remote
