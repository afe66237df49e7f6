/-
# FerrumAlloc.Slab.System -- runs of one slab allocator over one arena

A run starts with an empty slab over a fresh arena and continues with calls of the four functions and
with writes of the client into live slots, in any order. The state carries two ghost lists: the live
slots with their class, and the pages the slab has initialised with theirs.

`SlabState` ties both to the view. `SlabState.step_alloc`, `SlabState.step_free` and
`SlabState.step_write` are the step lemmas, `reachable_slabState` the run lemma, and
`reachable_slabWellFormed` says what a reader of the memory finds.
-/
import FerrumAlloc.Slab.Calls
import FerrumAlloc.Lib.Transition

namespace FerrumAlloc.Slab

open Lib

/-- A live slot: its address and its class. -/
structure Slot where
  ptr : Nat
  cls : Nat
  deriving DecidableEq, Repr

/-- The allocator, the memory, and the ghost lists of live slots and of initialised pages. -/
structure State where
  slab : SlabAllocator
  mem : Mem
  live : List Slot
  pages : List (Nat × Nat)

/-- A call of the allocator, or the client storing one byte. -/
inductive Event
  | alloc (c owner : Nat)
  | allocNoArena (c : Nat)
  | free (ptr : Nat)
  | freeNoArena (ptr : Nat)
  | write (addr : Nat) (byte : UInt8)

/-- Recording what an allocation of class `c` returned. When it has advanced the page counter of the
arena, it has initialised the page the counter stood at. -/
def State.issue (a : Arena) (s : State) (c : Nat) (r : SlabAllocator × Mem × Nat) : State where
  slab := r.1
  mem := r.2.1
  live := if r.2.2 = 0 then s.live else ⟨r.2.2, c⟩ :: s.live
  pages := if a.nextFreePage r.2.1 = a.nextFreePage s.mem then s.pages
    else (a.nextFreePage s.mem, c) :: s.pages

/-- One step: a call that returns, or a client write inside a live slot. `free_no_arena` gets the
record of the page that `ptr` lies in. -/
inductive Step (a : Arena) : State → Event → State → Prop
  | alloc {s : State} {c o : Nat} {r : SlabAllocator × Mem × Nat} : c < numSizeClasses → o < 2 ^ 16 →
      s.slab.alloc s.mem c a o = .ok r → Step a s (.alloc c o) (s.issue a c r)
  | allocNoArena {s : State} {c : Nat} {r : SlabAllocator × Mem × Nat} : c < numSizeClasses →
      s.slab.allocNeedsPage c = .ok false → s.slab.allocNoArena s.mem c = .ok r →
      Step a s (.allocNoArena c) (s.issue a c r)
  | free {s : State} {e : Slot} {r : SlabAllocator × Mem} : e ∈ s.live →
      s.slab.free s.mem e.ptr a = .ok r →
      Step a s (.free e.ptr) { s with slab := r.1, mem := r.2, live := s.live.erase e }
  | freeNoArena {s : State} {e : Slot} {r : SlabAllocator × Mem} : e ∈ s.live →
      s.slab.freeNoArena s.mem e.ptr (a.metaPtr (a.ptrToPageIndex e.ptr)) = .ok r →
      Step a s (.freeNoArena e.ptr) { s with slab := r.1, mem := r.2, live := s.live.erase e }
  | write {s : State} {e : Slot} {x : Nat} {v : UInt8} : e ∈ s.live → e.ptr ≤ x →
      x < e.ptr + slotSize e.cls → Step a s (.write x v) { s with mem := Function.update s.mem x v }

/-- Runs over an arena just set up in any initial memory. -/
def slabSystem (a : Arena) : System State Event where
  init s := s.slab = .new ∧ (∃ m id, s.mem = a.init m id) ∧ s.live = [] ∧ s.pages = []
  step := Step a

/-! ## Live slots -/

/-- The live slots are the used slots of the view. -/
structure LiveSlots {ι : Type} (a : Arena) (g : Ghost ι) (l : List Slot) : Prop where
  live : ∀ e, e ∈ l ↔ ∃ i j, g.Used i e.cls j ∧ e.ptr = a.slotAddr i e.cls j
  nodup : l.Nodup

/-- In the beginning there are none. -/
theorem LiveSlots.nil {ι : Type} (a : Arena) (k : ι) : LiveSlots a (.empty k) [] := by
  refine ⟨fun e => ⟨fun h => absurd h List.not_mem_nil, ?_⟩, List.nodup_nil⟩
  rintro ⟨i, j, hu, _⟩
  exact absurd hu.1 (Option.some_ne_none e.cls).symm

namespace LiveSlots

variable {ι : Type} [DecidableEq ι] {a : Arena} {m m' : Mem} {slabs slabs' : ι → SlabAllocator}
  {g g' : Ghost ι} {k : ι} {l : List Slot} {c o i j : Nat} {e : Slot}

/-- A slot is handed out. -/
theorem served (h : LiveSlots a g l) (hinv : SlabInv a m slabs g) (hinv' : SlabInv a m' slabs' g')
    (hc : c < numSizeClasses) (hs : Served a g (a.nextFreePage m) k c o g' i j) :
    LiveSlots a g' (⟨a.slotAddr i c j, c⟩ :: l) := by
  refine ⟨fun e => ?_, ?_⟩
  · rw [List.mem_cons, h.live]
    constructor
    · rintro (rfl | ⟨i', j', hu, hp⟩)
      · exact ⟨i, j, (hs.used_iff hinv hc).mpr (.inr ⟨rfl, rfl, rfl⟩), rfl⟩
      · exact ⟨i', j', (hs.used_iff hinv hc).mpr (.inl hu), hp⟩
    · rintro ⟨i', j', hu, hp⟩
      rcases (hs.used_iff hinv hc).mp hu with hu | ⟨rfl, hcls, rfl⟩
      · exact .inr ⟨i', j', hu, hp⟩
      · left
        rw [hcls] at hp
        cases e with
        | mk p q => exact congrArg₂ Slot.mk hp hcls
  · refine List.nodup_cons.mpr ⟨fun hmem => ?_, h.nodup⟩
    obtain ⟨i', j', hu, hp⟩ := (h.live _).mp hmem
    have hnew := (hs.used_iff hinv hc).mpr (.inr ⟨rfl, rfl, rfl⟩)
    have hold := (hs.used_iff hinv hc).mpr (.inl hu)
    obtain ⟨rfl, _, rfl⟩ := hinv'.slotAddr_inj hnew hold hp
    exact hs.not_used hinv hu

/-- A slot comes back. -/
theorem put (h : LiveSlots a g l) (hinv : SlabInv a m slabs g) (hu : g.Used i e.cls j)
    (hp : e.ptr = a.slotAddr i e.cls j) : LiveSlots a (g.put a k e.cls i j) (l.erase e) := by
  refine ⟨fun f => ?_, h.nodup.erase e⟩
  rw [h.nodup.mem_erase_iff, h.live]
  constructor
  · rintro ⟨hne, i', j', hu', hp'⟩
    refine ⟨i', j', (Ghost.used_put hu).mpr ⟨hu', ?_⟩, hp'⟩
    rintro ⟨rfl, rfl⟩
    apply hne
    have hcls : f.cls = e.cls := Option.some.inj (hu'.1.symm.trans hu.1)
    cases e with
    | mk p q =>
      cases f with
      | mk p' q' =>
        simp only at hcls hp hp' ⊢
        rw [hp, hp', hcls]
  · rintro ⟨i', j', hput, hp'⟩
    obtain ⟨hu', hne⟩ := (Ghost.used_put hu).mp hput
    refine ⟨?_, i', j', hu', hp'⟩
    rintro rfl
    obtain ⟨h1, _, h2⟩ := hinv.slotAddr_inj hu' hu (hp'.symm.trans hp)
    exact hne ⟨h1, h2⟩

end LiveSlots

/-- A used slot is not at the null pointer. -/
theorem slotAddr_ne_zero {a : Arena} (ha : a.Ok) {i c j : Nat} : a.slotAddr i c j ≠ 0 := by
  have h1 := ha.pos
  have h2 := Arena.pageAddr_eq a i
  unfold Arena.slotAddr
  omega

/-! ## The invariant of runs -/

/-- The live slots are the used slots of the view, the initialised pages its slab pages. -/
structure SlabState (a : Arena) (s : State) (g : Ghost Unit) : Prop where
  inv : SlabInv a s.mem (fun _ => s.slab) g
  pages : ∀ i c, (i, c) ∈ s.pages ↔ g.cls i = some c
  live : ∀ e, e ∈ s.live ↔ ∃ i j, g.Used i e.cls j ∧ e.ptr = a.slotAddr i e.cls j
  nodup : s.live.Nodup

namespace SlabState

variable {a : Arena} {s : State} {g g' : Ghost Unit} {c i j o : Nat} {e : Slot}

theorem init (ha : a.Ok) (hs : (slabSystem a).init s) : ∃ g, SlabState a s g := by
  obtain ⟨hslab, ⟨m, id, hmem⟩, hlive, hpages⟩ := hs
  have hslots : LiveSlots a (.empty ()) s.live := hlive ▸ .nil a ()
  refine ⟨.empty (), ?_, fun i c => ?_, hslots.live, hslots.nodup⟩
  · rw [hmem, hslab]
    exact SlabInv.init ha m id ()
  · rw [hpages]
    exact ⟨fun h => absurd h List.not_mem_nil, fun h => absurd h (Option.some_ne_none c).symm⟩

theorem liveSlots (h : SlabState a s g) : LiveSlots a g s.live := ⟨h.live, h.nodup⟩

/-- The page counter moves exactly when a page is initialised. -/
theorem pages_served (h : SlabState a s g) {m' : Mem} {s' : SlabAllocator}
    (hs : Served a g (a.nextFreePage s.mem) () c o g' i j)
    (hinv : SlabInv a m' (fun _ => s') g')
    (heq : Set.EqOn m' s.mem (allocBytes a g (a.nextFreePage s.mem) () c)ᶜ) (i' c' : Nat) :
    (i', c') ∈ (s.issue a c (s', m', a.slotAddr i c j)).pages ↔ g'.cls i' = some c' := by
  unfold State.issue
  cases hs with
  | listed hci hfree hl =>
    have hkeep := h.inv.nextFreePage_listed (by rw [hl]; exact List.cons_ne_nil _ _) heq
    simp only [if_pos hkeep]
    exact h.pages i' c'
  | fresh hl hlt =>
    have hcls : ((g.addPage a () c o (a.nextFreePage s.mem)).take () c (a.nextFreePage s.mem)).cls =
        Function.update g.cls (a.nextFreePage s.mem) (some c) := rfl
    have hmove : a.nextFreePage m' ≠ a.nextFreePage s.mem := by
      have := (hinv.range (a.nextFreePage s.mem) c (by rw [hcls, Function.update_self])).2
      omega
    have hnone := h.inv.cls_next (Nat.le_refl _)
    rw [hcls]
    simp only [if_neg hmove, List.mem_cons, h.pages]
    by_cases hii : i' = a.nextFreePage s.mem
    · subst hii
      rw [Function.update_self, hnone]
      simp [eq_comm]
    · rw [Function.update_of_ne hii]
      simp [hii]

/-- **Step lemma, allocation.** The effect of a served allocation. -/
theorem step_served (h : SlabState a s g) {m' : Mem} {s' : SlabAllocator} (hc : c < numSizeClasses)
    (hs : Served a g (a.nextFreePage s.mem) () c o g' i j)
    (hinv : SlabInv a m' (Function.update (fun _ => s.slab) () s') g')
    (heq : Set.EqOn m' s.mem (allocBytes a g (a.nextFreePage s.mem) () c)ᶜ) :
    SlabState a (s.issue a c (s', m', a.slotAddr i c j)) g' := by
  have hfun : Function.update (fun _ : Unit => s.slab) () s' = fun _ => s' := by
    funext u
    exact Function.update_self ..
  rw [hfun] at hinv
  have hlive : (s.issue a c (s', m', a.slotAddr i c j)).live = ⟨a.slotAddr i c j, c⟩ :: s.live := by
    unfold State.issue
    exact if_neg (slotAddr_ne_zero h.inv.arena)
  have hslots := h.liveSlots.served h.inv hinv hc hs
  rw [← hlive] at hslots
  exact ⟨hinv, h.pages_served hs hinv heq, hslots.live, hslots.nodup⟩

/-- **`alloc` returns**, and keeps the invariant. -/
theorem step_alloc (h : SlabState a s g) (hc : c < numSizeClasses) (ho : o < 2 ^ 16) :
    ∃ r, s.slab.alloc s.mem c a o = .ok r ∧ ∃ g', SlabState a (s.issue a c r) g' := by
  rcases h.inv.alloc_spec hc ho () with ⟨_, _, hrun⟩ | ⟨s', m', g', i, j, hrun, _, hs, hinv, heq⟩
  · refine ⟨_, hrun, g, h.inv, ?_, ?_, ?_⟩
    · unfold State.issue
      simpa using h.pages
    · unfold State.issue
      simpa using h.live
    · unfold State.issue
      simpa using h.nodup
  · exact ⟨_, hrun, g', h.step_served hc hs hinv heq⟩

/-- A class that needs no page has one listed. -/
theorem parts_ne_nil (h : SlabState a s g) (hc : c < numSizeClasses)
    (hneeds : s.slab.allocNeedsPage c = .ok false) : g.parts ((), c) ≠ [] := by
  have hspec := h.inv.allocNeedsPage_spec hc ()
  rw [hneeds] at hspec
  exact of_decide_eq_false (Except.ok.inj hspec).symm

/-- **`alloc_no_arena` returns** when a page is listed, and keeps the invariant. -/
theorem step_allocNoArena (h : SlabState a s g) (hc : c < numSizeClasses)
    (hneeds : s.slab.allocNeedsPage c = .ok false) :
    ∃ r, s.slab.allocNoArena s.mem c = .ok r ∧ ∃ g', SlabState a (s.issue a c r) g' := by
  obtain ⟨s', m', g', i, j, hrun, hs, hinv, heq⟩ :=
    h.inv.allocNoArena_spec hc () 0 (h.parts_ne_nil hc hneeds)
  exact ⟨_, hrun, g', h.step_served hc hs hinv heq⟩

/-- **Step lemma, free.** Both functions return, do the same, and keep the invariant. -/
theorem step_free (h : SlabState a s g) (he : e ∈ s.live) :
    ∃ r, s.slab.free s.mem e.ptr a = .ok r ∧
      s.slab.freeNoArena s.mem e.ptr (a.metaPtr (a.ptrToPageIndex e.ptr)) = .ok r ∧
      ∃ g', SlabState a { s with slab := r.1, mem := r.2, live := s.live.erase e } g' := by
  obtain ⟨i, j, hu, hp⟩ := (h.live e).mp he
  obtain ⟨s', m', hrun, hinv, _⟩ := h.inv.freeNoArena_spec hu ()
  have hfun : Function.update (fun _ : Unit => s.slab) () s' = fun _ => s' := by
    funext u
    exact Function.update_self ..
  rw [hfun] at hinv
  have hslots := h.liveSlots.put (k := ()) h.inv hu hp
  refine ⟨(s', m'), ?_, ?_, g.put a () e.cls i j, hinv, h.pages, hslots.live, hslots.nodup⟩
  · rw [hp, h.inv.free_spec hu ()]
    exact hrun
  · rw [hp, h.inv.ptrToPageIndex_slot hu]
    exact hrun

/-- **Step lemma, client write.** -/
theorem step_write (h : SlabState a s g) (he : e ∈ s.live) {x : Nat} {v : UInt8} (h1 : e.ptr ≤ x)
    (h2 : x < e.ptr + slotSize e.cls) :
    SlabState a { s with mem := Function.update s.mem x v } g := by
  obtain ⟨i, j, hu, hp⟩ := (h.live e).mp he
  rw [hp] at h1 h2
  have hnot := h.inv.used_not_own hu ⟨h1, h2⟩
  refine ⟨h.inv.frame fun z hz => ?_, h.pages, h.live, h.nodup⟩
  refine Function.update_of_ne ?_ v s.mem
  rintro rfl
  exact hnot hz

end SlabState

/-- **Run lemma.** Every reachable state satisfies the invariant. -/
theorem reachable_slabState {a : Arena} (ha : a.Ok) {s : State} (hr : (slabSystem a).Reachable s) :
    ∃ g, SlabState a s g := by
  refine System.Reachable.invariant (I := fun s => ∃ g, SlabState a s g)
    (fun s hs => SlabState.init ha hs) ?_ hr
  rintro s e s' _ ⟨g, h⟩ hstep
  cases hstep with
  | alloc hc ho hrun =>
    obtain ⟨r, hrun', hnext⟩ := h.step_alloc hc ho
    obtain rfl := Except.ok.inj (hrun'.symm.trans hrun)
    exact hnext
  | allocNoArena hc hneeds hrun =>
    obtain ⟨r, hrun', hnext⟩ := h.step_allocNoArena hc hneeds
    obtain rfl := Except.ok.inj (hrun'.symm.trans hrun)
    exact hnext
  | free he hrun =>
    obtain ⟨r, hrun', _, hnext⟩ := h.step_free he
    obtain rfl := Except.ok.inj (hrun'.symm.trans hrun)
    exact hnext
  | freeNoArena he hrun =>
    obtain ⟨r, _, hrun', hnext⟩ := h.step_free he
    obtain rfl := Except.ok.inj (hrun'.symm.trans hrun)
    exact hnext
  | write he h1 h2 => exact ⟨g, h.step_write he h1 h2⟩

/-! ## The slab structure in every reachable state -/

/-- **A well-formed slab**, as a reader of the memory finds it. `F i` is the free list of page `i` and
`P c` the page list of class `c`. -/
structure WellFormed (a : Arena) (s : State) (F : Nat → List Nat) (P : Nat → List Nat) : Prop where
  pages : ∀ i c, (i, c) ∈ s.pages → c < numSizeClasses ∧ metaPages ≤ i ∧ i < pagesPerArena ∧
    (readMeta s.mem (a.metaPtr i)).sizeClass = c
  chain : ∀ i c, (i, c) ∈ s.pages →
    Chain (slotLink a s.mem i c) nullSlot (readMeta s.mem (a.metaPtr i)).freeListHead (F i)
  distinct : ∀ i c, (i, c) ∈ s.pages → (F i).Nodup ∧ ∀ j ∈ F i, j < slotsPerPage c pageSize
  count : ∀ i c, (i, c) ∈ s.pages →
    (F i).length + (readMeta s.mem (a.metaPtr i)).usedSlots = slotsPerPage c pageSize
  free : ∀ i c, (i, c) ∈ s.pages → ∀ j < slotsPerPage c pageSize,
    (j ∈ F i ↔ ∀ e ∈ s.live, e.ptr ≠ a.slotAddr i c j)
  live : ∀ e ∈ s.live, ∃ i j, (i, e.cls) ∈ s.pages ∧ j < slotsPerPage e.cls pageSize ∧
    e.ptr = a.slotAddr i e.cls j
  liveNodup : (s.live.map Slot.ptr).Nodup
  pageAddr : ∀ i c, (i, c) ∈ s.pages →
    (readMeta s.mem (a.metaPtr i)).pageAddr = a.pageAddr (a.metaIndex (a.metaPtr i))
  partials : ∀ c < numSizeClasses,
    DList (nextOf s.mem) (prevOf s.mem) 0 (s.slab.partialPages c) (P c)
  listed : ∀ c < numSizeClasses, ∀ p, p ∈ P c ↔ ∃ i, (i, c) ∈ s.pages ∧ p = a.metaPtr i ∧ F i ≠ []

namespace SlabState

variable {a : Arena} {s : State} {g : Ghost Unit}

/-- The invariant of runs gives a well-formed slab. -/
theorem wellFormed (h : SlabState a s g) : WellFormed a s g.free (fun c => g.parts ((), c)) := by
  have hsp : ∀ {i c}, (i, c) ∈ s.pages → SlabPage a s.mem i c (g.owner i) (g.free i) :=
    fun hmem => h.inv.slabPage ((h.pages _ _).mp hmem)
  refine ⟨fun i c hmem => ?_, fun i c hmem => (hsp hmem).chain,
    fun i c hmem => ⟨(hsp hmem).nodup, (hsp hmem).lt⟩, fun i c hmem => ?_, fun i c hmem j hj => ?_,
    fun e he => ?_, ?_, fun i c hmem => ?_, fun c _ => h.inv.lists.list ((), c), fun c _ p => ?_⟩
  · have hcls := (h.pages i c).mp hmem
    exact ⟨(hsp hmem).cls_lt, (h.inv.range i c hcls).1, h.inv.index_lt hcls, (hsp hmem).sizeClass⟩
  · rw [Nat.add_comm]
    exact (hsp hmem).used
  · have hcls := (h.pages i c).mp hmem
    constructor
    · intro hfree e he heq
      obtain ⟨i', j', hu, hp⟩ := (h.live e).mp he
      have hmem' : a.slotAddr i c j ∈ slotBytes a i' e.cls j' := by
        have h8 := (slots_of_lt (h.inv.used_lt hu)).size_ge
        rw [← heq, hp]
        exact ⟨Nat.le_refl _, by omega⟩
      refine h.inv.used_not_own hu hmem' (.inr ⟨i, c, j, hcls, hfree, Nat.le_refl _, ?_⟩)
      omega
    · intro hlive
      by_contra hnot
      exact hlive ⟨a.slotAddr i c j, c⟩ ((h.live _).mpr ⟨i, j, ⟨hcls, hj, hnot⟩, rfl⟩) rfl
  · obtain ⟨i, j, hu, hp⟩ := (h.live e).mp he
    exact ⟨i, j, (h.pages _ _).mpr hu.1, hu.2.1, hp⟩
  · refine h.nodup.map_on fun e he f hf heq => ?_
    obtain ⟨i, j, hu, hp⟩ := (h.live e).mp he
    obtain ⟨i', j', hu', hp'⟩ := (h.live f).mp hf
    obtain ⟨_, hcls, _⟩ := h.inv.slotAddr_inj hu hu' (hp.symm.trans (heq.trans hp'))
    cases e with
    | mk p q => exact congrArg₂ Slot.mk heq hcls
  · have hcls := (h.pages i c).mp hmem
    rw [Arena.metaIndex_metaPtr h.inv.arena (h.inv.index_lt hcls)]
    exact (hsp hmem).pageAddr
  · rw [h.inv.mem]
    constructor
    · rintro ⟨i, hp, hc, hne, _⟩
      exact ⟨i, (h.pages i c).mpr hc, hp, hne⟩
    · rintro ⟨i, hmem, hp, hne⟩
      exact ⟨i, hp, (h.pages i c).mp hmem, hne, rfl⟩

end SlabState

/-- **The slab representation invariant holds in every run**, and every further call returns. -/
theorem reachable_slabWellFormed {a : Arena} (ha : a.Ok) {s : State} (hr : (slabSystem a).Reachable s) :
    (∃ F P, WellFormed a s F P) ∧
      (∀ c < numSizeClasses, ∀ o < 2 ^ 16, ∃ r, s.slab.alloc s.mem c a o = .ok r) ∧
      (∀ c < numSizeClasses, s.slab.allocNeedsPage c = .ok false →
        ∃ r, s.slab.allocNoArena s.mem c = .ok r) ∧
      ∀ e ∈ s.live, ∃ r, s.slab.free s.mem e.ptr a = .ok r ∧
        s.slab.freeNoArena s.mem e.ptr (a.metaPtr (a.ptrToPageIndex e.ptr)) = .ok r := by
  obtain ⟨g, h⟩ := reachable_slabState ha hr
  refine ⟨⟨_, _, h.wellFormed⟩, fun c hc o ho => ?_, fun c hc hneeds => ?_, fun e he => ?_⟩
  · obtain ⟨r, hrun, _⟩ := h.step_alloc hc ho
    exact ⟨r, hrun⟩
  · obtain ⟨r, hrun, _⟩ := h.step_allocNoArena hc hneeds
    exact ⟨r, hrun⟩
  · obtain ⟨r, hrun, hrun', _⟩ := h.step_free he
    exact ⟨r, hrun, hrun'⟩

/-- A fresh arena serves a first slot, and the page of that slot stays listed. -/
theorem exists_live {a : Arena} (ha : a.Ok) :
    ∃ s e, s.live = [e] ∧ s.slab.allocNeedsPage 0 = .ok false ∧ (slabSystem a).Reachable s := by
  obtain ⟨m, hm⟩ : ∃ m, m = a.init (fun _ => 0) 0 := ⟨_, rfl⟩
  have hinit : (slabSystem a).init ⟨.new, m, [], []⟩ := ⟨rfl, ⟨_, _, hm⟩, rfl, rfl⟩
  have hinv : SlabInv a m (fun _ => .new) (.empty ()) := by
    rw [hm]
    exact SlabInv.init ha _ 0 ()
  have hnext : a.nextFreePage m = metaPages := by
    rw [hm]
    exact (Arena.init_spec a _ 0).1
  have hc : 0 < numSizeClasses := by decide
  obtain ⟨s', m', hrun, hinv', _⟩ :=
    hinv.allocFresh_spec (k := ()) (o := 0) hc (by decide) rfl hnext (by decide)
  have hneeds := hinv'.allocNeedsPage_spec hc ()
  rw [Function.update_self] at hneeds
  refine ⟨_, ⟨a.slotAddr metaPages 0 0, 0⟩, ?_, hneeds.trans (congrArg Except.ok ?_),
    .step (.init hinit) (Step.alloc hc (by decide) hrun)⟩
  · unfold State.issue
    rw [if_neg (slotAddr_ne_zero ha)]
  · rw [Ghost.parts_take_addPage hc]
    rfl

/-- The arena at 2 MB, with one slot of the smallest class handed out. -/
theorem reachable_slabWellFormed_slot : ∃ a s e, a = ⟨2097152, 2097152⟩ ∧ s.live = [e] ∧
    (slabSystem a).Reachable s ∧ ((∃ F P, WellFormed a s F P) ∧
      (∀ c < numSizeClasses, ∀ o < 2 ^ 16, ∃ r, s.slab.alloc s.mem c a o = .ok r) ∧
      (∀ c < numSizeClasses, s.slab.allocNeedsPage c = .ok false →
        ∃ r, s.slab.allocNoArena s.mem c = .ok r) ∧
      ∀ e ∈ s.live, ∃ r, s.slab.free s.mem e.ptr a = .ok r ∧
        s.slab.freeNoArena s.mem e.ptr (a.metaPtr (a.ptrToPageIndex e.ptr)) = .ok r) := by
  have ha : Arena.Ok ⟨2097152, 2097152⟩ := ⟨by decide, by decide, rfl, by decide⟩
  obtain ⟨s, e, hlive, _, hr⟩ := exists_live ha
  exact ⟨_, s, e, rfl, hlive, hr, reachable_slabWellFormed ha hr⟩

end FerrumAlloc.Slab
