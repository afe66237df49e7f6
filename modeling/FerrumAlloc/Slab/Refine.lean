/-
# FerrumAlloc.Slab.Refine -- the lock-free slab paths refine the arena paths

`alloc_no_arena` and `free_no_arena` work without the arena: they trust the address of the data page that
is cached in the page's record, and the record handed in by the caller. `alloc` and `free` compute both
from the arena. In every state reached by any number of slabs over one arena, with pages issued to others
in between, the two variants return the same and leave the same state.

`SharedState.step` is the step lemma, `reachable_sharedState` the run lemma. `Event.arena` replaces a call
by its arena variant, and `Step.arena` is the simulation of one step.
-/
import FerrumAlloc.Slab.System

namespace FerrumAlloc.Slab.Shared

open Lib

/-- The slabs, the memory, and ghost lists of the live slots and of the page runs issued to others. -/
structure State (ι : Type) where
  slabs : ι → SlabAllocator
  mem : Mem
  live : List Slot
  runs : List Region

/-- A call through slab `k`, with the address it returns; pages issued by `Arena::alloc`; or a byte stored
in a live slot or in an issued page. -/
inductive Event (ι : Type)
  | alloc (k : ι) (c owner p : Nat)
  | allocNoArena (k : ι) (c p : Nat)
  | free (k : ι) (ptr : Nat)
  | freeNoArena (k : ι) (ptr : Nat)
  | issue (n p : Nat)
  | write (addr : Nat) (byte : UInt8)

section

variable {ι : Type} [DecidableEq ι] {a : Arena}

namespace State

/-- Recording what an allocation has returned. -/
def serve (s : State ι) (k : ι) (c : Nat) (r : SlabAllocator × Mem × Nat) : State ι :=
  { s with
    slabs := Function.update s.slabs k r.1
    mem := r.2.1
    live := if r.2.2 = 0 then s.live else ⟨r.2.2, c⟩ :: s.live }

/-- Recording what a free has done. -/
def put (s : State ι) (k : ι) (e : Slot) (r : SlabAllocator × Mem) : State ι :=
  { s with
    slabs := Function.update s.slabs k r.1
    mem := r.2
    live := s.live.erase e }

/-- Recording the pages issued for `n` bytes. -/
def issue (s : State ι) (n : Nat) (r : Mem × Nat) : State ι :=
  { s with
    mem := r.1
    runs := if r.2 = 0 then s.runs else ⟨r.2, (n + 4095) / 4096 * 4096⟩ :: s.runs }

end State

/-- One step. `free_no_arena` gets the record of the page that `ptr` lies in. -/
inductive Step (a : Arena) : State ι → Event ι → State ι → Prop
  | alloc {s : State ι} {k : ι} {c o : Nat} {r : SlabAllocator × Mem × Nat} : c < numSizeClasses →
      o < 2 ^ 16 → (s.slabs k).alloc s.mem c a o = .ok r →
      Step a s (.alloc k c o r.2.2) (s.serve k c r)
  | allocNoArena {s : State ι} {k : ι} {c : Nat} {r : SlabAllocator × Mem × Nat} :
      (s.slabs k).allocNeedsPage c = .ok false → (s.slabs k).allocNoArena s.mem c = .ok r →
      Step a s (.allocNoArena k c r.2.2) (s.serve k c r)
  | free {s : State ι} {k : ι} {e : Slot} {r : SlabAllocator × Mem} : e ∈ s.live →
      (s.slabs k).free s.mem e.ptr a = .ok r → Step a s (.free k e.ptr) (s.put k e r)
  | freeNoArena {s : State ι} {k : ι} {e : Slot} {r : SlabAllocator × Mem} : e ∈ s.live →
      (s.slabs k).freeNoArena s.mem e.ptr (a.metaPtr (a.ptrToPageIndex e.ptr)) = .ok r →
      Step a s (.freeNoArena k e.ptr) (s.put k e r)
  | issue {s : State ι} {n : Nat} : 0 < n → n + pageSize < 2 ^ 64 →
      Step a s (.issue n (a.alloc s.mem n).2) (s.issue n (a.alloc s.mem n))
  | write {s : State ι} {x : Nat} {v : UInt8} :
      ((∃ e ∈ s.live, e.ptr ≤ x ∧ x < e.ptr + slotSize e.cls) ∨ ∃ r ∈ s.runs, x ∈ r.bytes) →
      Step a s (.write x v) { s with mem := Function.update s.mem x v }

/-- Runs over an arena just set up, in any initial memory. -/
def sharedSystem (ι : Type) [DecidableEq ι] (a : Arena) : System (State ι) (Event ι) where
  init s := s.slabs = (fun _ => .new) ∧ (∃ m id, s.mem = a.init m id) ∧ s.live = [] ∧ s.runs = []
  step := Step a

/-! ## The invariant of runs -/

/-- The bytes of a run lie in issued pages that are no slab pages. -/
def RunOk (a : Arena) (next : Nat) (g : Ghost ι) (r : Region) : Prop :=
  ∀ x ∈ r.bytes, ∃ i, metaPages ≤ i ∧ i < next ∧ g.cls i = none ∧ x ∈ a.pageBytes i

/-- The live slots are the used slots of the view, and the runs are apart from the slab pages. -/
structure SharedState (a : Arena) (s : State ι) (g : Ghost ι) : Prop where
  inv : SlabInv a s.mem s.slabs g
  slots : LiveSlots a g s.live
  runs : ∀ r ∈ s.runs, RunOk a (a.nextFreePage s.mem) g r

namespace SharedState

variable {s s' : State ι} {g g' : Ghost ι} {k : ι} {c i j o n x : Nat} {e : Slot} {m : Mem}
  {slab : SlabAllocator}

theorem init [Nonempty ι] (ha : a.Ok) (hs : (sharedSystem ι a).init s) : ∃ g, SharedState a s g := by
  obtain ⟨hslabs, ⟨m, id, hmem⟩, hlive, hruns⟩ := hs
  obtain ⟨k⟩ := ‹Nonempty ι›
  refine ⟨.empty k, ?_, hlive ▸ .nil a k, ?_⟩
  · rw [hmem, hslabs]
    exact SlabInv.init ha m id k
  · rw [hruns]
    exact fun r hr => absurd hr List.not_mem_nil

/-- **Step lemma, allocation.** -/
theorem served (h : SharedState a s g) (hc : c < numSizeClasses)
    (hs : Served a g (a.nextFreePage s.mem) k c o g' i j)
    (hinv : SlabInv a m (Function.update s.slabs k slab) g')
    (heq : Set.EqOn m s.mem (allocBytes a g (a.nextFreePage s.mem) k c)ᶜ) :
    SharedState a (s.serve k c (slab, m, a.slotAddr i c j)) g' := by
  have hlive : (s.serve k c (slab, m, a.slotAddr i c j)).live = ⟨a.slotAddr i c j, c⟩ :: s.live :=
    if_neg (slotAddr_ne_zero h.inv.arena)
  refine ⟨hinv, ?_, fun r hr x hx => ?_⟩
  · rw [hlive]
    exact h.slots.served h.inv hinv hc hs
  · obtain ⟨i', hlo, hlt, hcls, hx⟩ := h.runs r hr x hx
    refine ⟨i', hlo, Nat.lt_of_lt_of_le hlt (hs.next_le h.inv hinv heq), ?_, hx⟩
    rw [hs.cls_of_lt hlt]
    exact hcls

/-- **Step lemma, free**: both functions return the same. -/
theorem put (h : SharedState a s g) (he : e ∈ s.live) (k : ι) :
    ∃ r, (s.slabs k).free s.mem e.ptr a = .ok r ∧
      (s.slabs k).freeNoArena s.mem e.ptr (a.metaPtr (a.ptrToPageIndex e.ptr)) = .ok r ∧
      ∃ g', SharedState a (s.put k e r) g' := by
  obtain ⟨i, j, hu, hp⟩ := (h.slots.live e).mp he
  obtain ⟨slab, m, hrun, hinv, heq⟩ := h.inv.freeNoArena_spec hu k
  have hnext : a.nextFreePage m = a.nextFreePage s.mem := by
    apply Arena.nextFreePage_of_eqOn
    exact fun z hz => heq fun hz' => h.inv.freeBytes_arenaMeta hu hz' hz
  refine ⟨(slab, m), ?_, ?_, g.put a k e.cls i j, hinv, h.slots.put h.inv hu hp, fun r hr x hx => ?_⟩
  · rw [hp, h.inv.free_spec hu k]
    exact hrun
  · rw [hp, h.inv.ptrToPageIndex_slot hu]
    exact hrun
  · obtain ⟨i', hlo, hlt, hcls, hx⟩ := h.runs r hr x hx
    exact ⟨i', hlo, Nat.lt_of_lt_of_eq hlt hnext.symm, hcls, hx⟩

omit [DecidableEq ι] in
/-- **Step lemma, pages for others.** -/
theorem issue (h : SharedState a s g) (hn : 0 < n) (hlt : n + pageSize < 2 ^ 64) :
    SharedState a (s.issue n (a.alloc s.mem n)) g := by
  have hinv := h.inv.bump n
  have hneeded := Arena.pagesNeeded_eq hn hlt
  rcases Arena.alloc_spec a s.mem n with ⟨hrun, _⟩ | ⟨m, _, hle, hrun, hnext, _, _⟩
  · rw [hrun]
    exact h
  · rw [hrun] at hinv ⊢
    rw [hneeded] at hnext
    refine ⟨hinv, h.slots, fun r hr x hx => ?_⟩
    have hnext' : a.nextFreePage (s.issue n (m, a.pageAddr (a.nextFreePage s.mem))).mem = _ := hnext
    rw [hnext']
    have hbase := h.inv.arena.pos
    have hpage := Arena.pageAddr_eq a (a.nextFreePage s.mem)
    have hne : a.pageAddr (a.nextFreePage s.mem) ≠ 0 := by omega
    have hmem : r ∈ (⟨a.pageAddr (a.nextFreePage s.mem), (n + 4095) / 4096 * 4096⟩ :: s.runs : List Region) := by
      have hruns : (s.issue n (m, a.pageAddr (a.nextFreePage s.mem))).runs = _ := if_neg hne
      rw [← hruns]
      exact hr
    rcases List.mem_cons.mp hmem with rfl | hold
    · -- the page of `x` is one of those just issued
      rw [Region.mem_bytes] at hx
      simp only [hpage] at hx
      obtain ⟨i, hi⟩ : ∃ i, i = (x - a.base) / 4096 := ⟨_, rfl⟩
      have hge := h.inv.next_ge
      have hpage' := Arena.pageAddr_eq a i
      have hle : a.nextFreePage s.mem ≤ i := by omega
      exact ⟨i, hge.trans hle, by omega, h.inv.cls_next hle, ⟨by omega, by omega⟩⟩
    · obtain ⟨i, hlo, hlt, hcls, hx⟩ := h.runs r hold x hx
      exact ⟨i, hlo, Nat.lt_of_lt_of_le hlt (Nat.le_add_right _ _), hcls, hx⟩

omit [DecidableEq ι] in
/-- **Step lemma, stores.** -/
theorem write (h : SharedState a s g) {v : UInt8}
    (hx : (∃ e ∈ s.live, e.ptr ≤ x ∧ x < e.ptr + slotSize e.cls) ∨ ∃ r ∈ s.runs, x ∈ r.bytes) :
    SharedState a { s with mem := Function.update s.mem x v } g := by
  have hnot : x ∉ slabOwn a g := by
    rcases hx with ⟨e, he, h1, h2⟩ | ⟨r, hr, hx⟩
    · obtain ⟨i, j, hu, hp⟩ := (h.slots.live e).mp he
      rw [hp] at h1 h2
      exact h.inv.used_not_own hu ⟨h1, h2⟩
    · obtain ⟨i, hlo, _, hcls, hx⟩ := h.runs r hr x hx
      rintro (hmeta | ⟨i', c', j', hc', hj', hlink⟩)
      · exact pageBytes_not_meta hlo hx hmeta
      · have hsp := h.inv.slabPage hc'
        have hne : i ≠ i' := by
          rintro rfl
          exact absurd (hcls.symm.trans hc') (Option.some_ne_none c').symm
        exact pageBytes_disjoint hne hx (linkSpan_in_page hsp.cls_lt (hsp.lt j' hj') hlink)
  have hm : Set.EqOn (Function.update s.mem x v) s.mem (slabOwn a g) := by
    intro z hz
    apply Function.update_of_ne
    rintro rfl
    exact hnot hz
  have hnext : a.nextFreePage (Function.update s.mem x v) = a.nextFreePage s.mem :=
    Arena.nextFreePage_of_eqOn (hm.mono fun z hz => .inl (Arena.arenaMetaBytes_subset hz))
  refine ⟨h.inv.frame hm, h.slots, fun r hr z hz => ?_⟩
  obtain ⟨i, hlo, hlt, hcls, hz⟩ := h.runs r hr z hz
  exact ⟨i, hlo, Nat.lt_of_lt_of_eq hlt hnext.symm, hcls, hz⟩

/-! ## The variants agree -/

omit [DecidableEq ι] in
/-- A class that needs no page has one listed. -/
theorem listed (h : SharedState a s g) (hneeds : (s.slabs k).allocNeedsPage c = .ok false) :
    c < numSizeClasses ∧ g.parts (k, c) ≠ [] := by
  have hc : c < numSizeClasses := by
    by_contra hge
    unfold SlabAllocator.allocNeedsPage checkIndex at hneeds
    rw [if_neg hge] at hneeds
    nomatch hneeds
  have hspec := h.inv.allocNeedsPage_spec hc k
  rw [hneeds] at hspec
  exact ⟨hc, of_decide_eq_false (Except.ok.inj hspec).symm⟩

omit [DecidableEq ι] in
/-- **`alloc` is `alloc_no_arena`** when a page is listed, whatever the owner. -/
theorem alloc_eq (h : SharedState a s g) (hneeds : (s.slabs k).allocNeedsPage c = .ok false) (o : Nat) :
    (s.slabs k).alloc s.mem c a o = (s.slabs k).allocNoArena s.mem c := by
  obtain ⟨hc, hl⟩ := h.listed hneeds
  obtain ⟨p, rest, hlist⟩ := List.exists_cons_of_ne_nil hl
  obtain ⟨i, j, l, rfl, hci, _⟩ := h.inv.head_page hlist
  -- both pop a slot of the same record; the cached page address is the computed one
  unfold SlabAllocator.alloc SlabAllocator.allocNoArena
  rw [checkIndex_of_lt hc, h.inv.partialPages_cons hlist]
  simp only [Exec.bind_ok, if_neg (Arena.metaPtr_ne_zero h.inv.arena), deref_metaPtr h.inv.arena,
    Arena.metaIndex_metaPtr h.inv.arena (h.inv.index_lt hci), (h.inv.slabPage hci).pageAddr]

/-- `alloc_no_arena` returns and keeps the invariant. -/
theorem noArena (h : SharedState a s g) (hneeds : (s.slabs k).allocNeedsPage c = .ok false) :
    ∃ r, (s.slabs k).allocNoArena s.mem c = .ok r ∧ ∃ g', SharedState a (s.serve k c r) g' := by
  obtain ⟨hc, hl⟩ := h.listed hneeds
  obtain ⟨slab, m, g', i, j, hrun, hs, hinv, heq⟩ := h.inv.allocNoArena_spec hc k 0 hl
  exact ⟨_, hrun, g', h.served hc hs hinv heq⟩

/-- **Step lemma.** -/
theorem step {e : Event ι} (h : SharedState a s g) (hs : Step a s e s') : ∃ g', SharedState a s' g' := by
  cases hs with
  | @alloc k c o r hc ho hrun =>
    rcases h.inv.alloc_spec hc ho k with ⟨_, _, hnull⟩ | ⟨slab, m, g', i, j, hrun', _, hs, hinv, heq⟩
    · -- no page left: nothing has changed
      obtain rfl := Except.ok.inj (hnull.symm.trans hrun)
      have hsame : s.serve k c (s.slabs k, s.mem, 0) = s := by
        unfold State.serve
        rw [Function.update_eq_self]
        rfl
      rw [hsame]
      exact ⟨g, h⟩
    · obtain rfl := Except.ok.inj (hrun'.symm.trans hrun)
      exact ⟨g', h.served hc hs hinv heq⟩
  | allocNoArena hneeds hrun =>
    obtain ⟨r, hrun', hnext⟩ := h.noArena hneeds
    obtain rfl := Except.ok.inj (hrun'.symm.trans hrun)
    exact hnext
  | @free k e r he hrun =>
    obtain ⟨r, hrun', _, hnext⟩ := h.put he k
    obtain rfl := Except.ok.inj (hrun'.symm.trans hrun)
    exact hnext
  | @freeNoArena k e r he hrun =>
    obtain ⟨r, _, hrun', hnext⟩ := h.put he k
    obtain rfl := Except.ok.inj (hrun'.symm.trans hrun)
    exact hnext
  | issue hn hlt => exact ⟨g, h.issue hn hlt⟩
  | write hx => exact ⟨g, h.write hx⟩

end SharedState

/-- **Run lemma.** -/
theorem reachable_sharedState [Nonempty ι] (ha : a.Ok) {s : State ι}
    (hr : (sharedSystem ι a).Reachable s) : ∃ g, SharedState a s g := by
  refine System.Reachable.invariant (I := fun s => ∃ g, SharedState a s g)
    (fun s hs => SharedState.init ha hs) ?_ hr
  intro s e s' _ hg hstep
  obtain ⟨g, h⟩ := hg
  exact h.step hstep

/-! ## Runs with the arena variants only -/

/-- The same call through the arena variant; slab `k` allocates for owner `own k`. -/
def Event.arena (own : ι → Nat) : Event ι → Event ι
  | .allocNoArena k c p => .alloc k c (own k) p
  | .freeNoArena k ptr => .free k ptr
  | e => e

/-- **One step, with the arena variant.** Same result, same state. -/
theorem SharedState.arena_step {s s' : State ι} {g : Ghost ι} {e : Event ι} (h : SharedState a s g)
    {own : ι → Nat} (hown : ∀ k, own k < 2 ^ 16) (hs : Step a s e s') : Step a s (e.arena own) s' := by
  cases hs with
  | alloc hc ho hrun => exact .alloc hc ho hrun
  | @allocNoArena k c r hneeds hrun =>
    have hrun' := (h.alloc_eq hneeds (own k)).trans hrun
    exact .alloc (h.listed hneeds).1 (hown k) hrun'
  | free he hrun => exact .free he hrun
  | @freeNoArena k e r he hrun =>
    obtain ⟨r', hfree, hrun', _⟩ := h.put he k
    obtain rfl := Except.ok.inj (hrun'.symm.trans hrun)
    exact .free he hfree
  | issue hn hlt => exact .issue hn hlt
  | write hx => exact .write hx

/-- A run and the same run with the arena variants. -/
theorem SharedState.arena_run {s s' : State ι} {es : List (Event ι)} {own : ι → Nat}
    (hown : ∀ k, own k < 2 ^ 16) (hrun : (sharedSystem ι a).Run s es s') (hg : ∃ g, SharedState a s g) :
    (sharedSystem ι a).Run s (es.map (Event.arena own)) s' := by
  induction hrun with
  | nil => exact .nil
  | cons hs _ ih =>
    obtain ⟨g, h⟩ := hg
    exact .cons (h.arena_step hown hs) (ih (h.step hs))

/-- **The lock-free paths refine the arena paths.** In every state reached by any number of slabs over one
arena, the two allocations return the same and leave the same state whenever no page is needed, so do the
two frees of a live slot, and every further run leads to the same state, with the same results, when only
the arena variants are called. -/
theorem reachable_refines [Nonempty ι] (ha : a.Ok) {s : State ι} (hr : (sharedSystem ι a).Reachable s) :
    (∀ k c, (s.slabs k).allocNeedsPage c = .ok false → ∃ r,
      (s.slabs k).allocNoArena s.mem c = .ok r ∧ ∀ o, (s.slabs k).alloc s.mem c a o = .ok r) ∧
    (∀ k, ∀ e ∈ s.live, ∃ r,
      (s.slabs k).freeNoArena s.mem e.ptr (a.metaPtr (a.ptrToPageIndex e.ptr)) = .ok r ∧
        (s.slabs k).free s.mem e.ptr a = .ok r) ∧
    ∀ own : ι → Nat, (∀ k, own k < 2 ^ 16) → ∀ es s', (sharedSystem ι a).Run s es s' →
      (sharedSystem ι a).Run s (es.map (Event.arena own)) s' := by
  obtain ⟨g, h⟩ := reachable_sharedState ha hr
  refine ⟨fun k c hneeds => ?_, fun k e he => ?_, fun own hown es s' hrun => ?_⟩
  · obtain ⟨r, hrun, _⟩ := h.noArena hneeds
    exact ⟨r, hrun, fun o => (h.alloc_eq hneeds o).trans hrun⟩
  · obtain ⟨r, hfree, hrun, _⟩ := h.put he k
    exact ⟨r, hrun, hfree⟩
  · exact SharedState.arena_run hown hrun ⟨g, h⟩

/-- A fresh arena serves a first slot to slab `k`. -/
theorem exists_live [Nonempty ι] (ha : a.Ok) (k : ι) :
    ∃ s : State ι, ∃ e, s.live = [e] ∧ (sharedSystem ι a).Reachable s := by
  obtain ⟨m, hm⟩ : ∃ m, m = a.init (fun _ => 0) 0 := ⟨_, rfl⟩
  have hinit : (sharedSystem ι a).init ⟨fun _ => .new, m, [], []⟩ := ⟨rfl, ⟨_, _, hm⟩, rfl, rfl⟩
  obtain ⟨g, h⟩ := SharedState.init ha hinit
  have hc : 0 < numSizeClasses := by decide
  have hnext : a.nextFreePage m < pagesPerArena := by
    rw [hm, (Arena.init_spec a (fun _ => 0) 0).1]
    decide
  rcases h.inv.alloc_spec hc (o := 0) (by decide) k with ⟨_, hfull, _⟩ | ⟨slab, m', g', i, j, hrun, _⟩
  · exact absurd hfull (Nat.not_le_of_lt hnext)
  · refine ⟨_, ⟨a.slotAddr i 0 j, 0⟩, ?_, .step (.init hinit) (Step.alloc hc (by decide) hrun)⟩
    unfold State.serve
    exact if_neg (slotAddr_ne_zero ha)

end

/-- The arena at 2 MB, shared by slabs numbered by their owners, with one slot of slab 3 live. -/
theorem reachable_refines_slot : ∃ (a : Arena) (s : State Nat) (e : Slot), a = ⟨2097152, 2097152⟩ ∧
    s.live = [e] ∧ (sharedSystem Nat a).Reachable s ∧ ∃ r,
      (s.slabs 3).freeNoArena s.mem e.ptr (a.metaPtr (a.ptrToPageIndex e.ptr)) = .ok r ∧
        (s.slabs 3).free s.mem e.ptr a = .ok r := by
  have ha : Arena.Ok ⟨2097152, 2097152⟩ := ⟨by decide, by decide, rfl, by decide⟩
  obtain ⟨s, e, hlive, hr⟩ := exists_live (ι := Nat) ha 3
  obtain ⟨_, hfree, _⟩ := reachable_refines ha hr
  exact ⟨_, s, e, rfl, hlive, hr, hfree 3 e (by rw [hlive]; exact List.mem_singleton_self e)⟩

end FerrumAlloc.Slab.Shared
