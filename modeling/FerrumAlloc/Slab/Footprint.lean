/-
# FerrumAlloc.Slab.Footprint -- how many pages a slab takes

A slab never gives a page back. It takes one for a class only when all pages of the class are full, so that
after it more slots of the class are live than ever before. Therefore the number of its pages is the least
that could hold the slots of the busiest moment of the run: for each class, the peak of live slots divided by
the slots of a page, rounded up (`reachable_footprint`).
-/
import FerrumAlloc.Slab.Exhaustion
import FerrumAlloc.Lib.Counting

namespace FerrumAlloc.Slab

open Lib

variable {a : Arena} {s s' : State} {g : Ghost Unit} {c i j : Nat} {e : Event} {p : Nat → Nat}

/-- The live slots of a class. -/
def State.liveOf (c : Nat) (s : State) : Nat := s.live.countP fun e => e.cls = c

/-- The pages of a class. -/
def State.pagesOf (c : Nat) (s : State) : Nat := s.pages.countP fun q => q.2 = c

/-! ## Live slots page by page -/

/-- The slots of page `i` that are in use. -/
def takenOf (g : Ghost Unit) (c i : Nat) : List Nat := (List.range (slots c)).filter fun j => j ∉ g.free i

theorem mem_takenOf (hc : g.cls i = some c) : j ∈ takenOf g c i ↔ g.Used i c j := by
  unfold takenOf Ghost.Used
  simp [hc]

namespace SlabState

/-- **The live slots of a class are the taken slots of its pages.** -/
theorem live_perm (h : SlabState a s g) (hnd : s.pages.Nodup) (c : Nat) :
    (s.live.filter fun e => e.cls = c).Perm
      ((s.pages.filter fun q => q.2 = c).flatMap fun q =>
        (takenOf g c q.1).map fun j => ⟨a.slotAddr q.1 c j, c⟩) := by
  have hpage : ∀ {q : Nat × Nat}, q ∈ s.pages.filter (fun q => q.2 = c) → g.cls q.1 = some c := by
    intro q hq
    obtain ⟨hq, hcls⟩ := List.mem_filter.mp hq
    rw [(h.pages q.1 q.2).mp hq, of_decide_eq_true hcls]
  refine (List.perm_ext_iff_of_nodup (h.nodup.filter _) ?_).mpr fun e => ?_
  · refine List.nodup_flatMap.mpr ⟨fun q hq => ?_, ?_⟩
    · -- within one page
      refine (List.nodup_map_iff_inj_on (List.nodup_range.filter _)).mpr fun j hj j' hj' heq => ?_
      have hu := (mem_takenOf (hpage hq)).mp hj
      have hu' := (mem_takenOf (hpage hq)).mp hj'
      exact (h.inv.slotAddr_inj hu hu' (congrArg Slot.ptr heq)).2.2
    · -- between pages
      refine ((hnd.filter _).pairwise_of_forall_ne fun q hq q' hq' hne => ?_)
      refine List.disjoint_left.mpr fun e he he' => hne ?_
      obtain ⟨j, hj, rfl⟩ := List.mem_map.mp he
      obtain ⟨j', hj', heq⟩ := List.mem_map.mp he'
      have hu := (mem_takenOf (hpage hq)).mp hj
      have hu' := (mem_takenOf (hpage hq')).mp hj'
      have hidx := (h.inv.slotAddr_inj hu' hu (congrArg Slot.ptr heq)).1
      have hcls := of_decide_eq_true (List.mem_filter.mp hq).2
      have hcls' := of_decide_eq_true (List.mem_filter.mp hq').2
      exact Prod.ext hidx.symm (hcls.trans hcls'.symm)
  · rw [List.mem_filter, List.mem_flatMap, h.live, decide_eq_true_iff]
    constructor
    · rintro ⟨⟨i, j, hu, hp⟩, rfl⟩
      refine ⟨(i, e.cls), List.mem_filter.mpr ⟨(h.pages _ _).mpr hu.1, decide_eq_true rfl⟩, ?_⟩
      exact List.mem_map.mpr ⟨j, (mem_takenOf hu.1).mpr hu, congrArg₂ Slot.mk hp.symm rfl⟩
    · rintro ⟨q, hq, he⟩
      obtain ⟨j, hj, rfl⟩ := List.mem_map.mp he
      exact ⟨⟨q.1, j, (mem_takenOf (hpage hq)).mp hj, rfl⟩, rfl⟩

/-- **The counters of the pages add up** to the number of live slots. -/
theorem liveOf_eq (h : SlabState a s g) (hnd : s.pages.Nodup) (c : Nat) :
    s.liveOf c = ((s.pages.filter fun q => q.2 = c).map fun q =>
      (readMeta s.mem (a.metaPtr q.1)).usedSlots).sum := by
  have hlen := (h.live_perm hnd c).length_eq
  rw [List.length_flatMap] at hlen
  unfold State.liveOf
  rw [List.countP_eq_length_filter, hlen]
  refine congrArg List.sum (List.map_congr_left fun q hq => ?_)
  obtain ⟨hq, hcls⟩ := List.mem_filter.mp hq
  have hpage := h.inv.slabPage ((h.pages q.1 q.2).mp hq)
  rw [of_decide_eq_true hcls] at hpage
  have hleft := length_range_diff hpage.nodup hpage.lt
  have hused := hpage.used
  rw [List.length_map]
  unfold takenOf
  omega

/-- The slots of a page bound the live ones. -/
theorem liveOf_le (h : SlabState a s g) (hnd : s.pages.Nodup) (c : Nat) : s.liveOf c ≤ s.pagesOf c * slots c := by
  rw [h.liveOf_eq hnd, State.pagesOf, List.countP_eq_length_filter]
  have hle := List.sum_le_card_nsmul ((s.pages.filter fun q => q.2 = c).map fun q =>
    (readMeta s.mem (a.metaPtr q.1)).usedSlots) (slots c) fun n hn => ?_
  · rwa [List.length_map, Nat.nsmul_eq_mul] at hle
  obtain ⟨q, hq, rfl⟩ := List.mem_map.mp hn
  obtain ⟨hq, hcls⟩ := List.mem_filter.mp hq
  have hused := (h.inv.slabPage ((h.pages q.1 q.2).mp hq)).used
  rw [of_decide_eq_true hcls] at hused
  omega

/-- When all pages of the class are full, all their slots are live. -/
theorem liveOf_full (h : SlabState a s g) (hnd : s.pages.Nodup) (hfull : AllFull a s c) :
    s.liveOf c = s.pagesOf c * slots c := by
  rw [h.liveOf_eq hnd, State.pagesOf, List.countP_eq_length_filter]
  have heq := List.sum_eq_card_nsmul ((s.pages.filter fun q => q.2 = c).map fun q =>
    (readMeta s.mem (a.metaPtr q.1)).usedSlots) (slots c) fun n hn => ?_
  · rwa [List.length_map, Nat.nsmul_eq_mul] at heq
  obtain ⟨q, hq, rfl⟩ := List.mem_map.mp hn
  obtain ⟨hq, hcls⟩ := List.mem_filter.mp hq
  exact hfull q.1 (of_decide_eq_true hcls ▸ hq)

end SlabState

/-! ## What a step does to the pages -/

/-- A step leaves pages and page counter, or all pages of one class are full and the step takes one more, of
which it hands out a slot. -/
inductive Takes (a : Arena) (s s' : State) : Prop
  | none : s'.pages = s.pages → a.nextFreePage s'.mem = a.nextFreePage s.mem → Takes a s s'
  | page (c ptr : Nat) : c < numSizeClasses → AllFull a s c →
      s'.pages = (a.nextFreePage s.mem, c) :: s.pages →
      a.nextFreePage s'.mem = a.nextFreePage s.mem + 1 → s'.live = ⟨ptr, c⟩ :: s.live → Takes a s s'

namespace SlabState

/-- An allocation from a listed page takes no other one. -/
theorem takes_listed (h : SlabState a s g) {r : SlabAllocator × Mem × Nat} (hl : g.parts ((), c) ≠ [])
    (heq : Set.EqOn r.2.1 s.mem (allocBytes a g (a.nextFreePage s.mem) () c)ᶜ) : Takes a s (s.issue a c r) := by
  have hnext := h.inv.nextFreePage_listed hl heq
  refine .none ?_ hnext
  unfold State.issue
  exact if_pos hnext

theorem takes_alloc (h : SlabState a s g) {o : Nat} (hc : c < numSizeClasses) (ho : o < 2 ^ 16)
    {r : SlabAllocator × Mem × Nat} (hrun : s.slab.alloc s.mem c a o = .ok r) : Takes a s (s.issue a c r) := by
  by_cases hl : g.parts ((), c) = []
  · by_cases hlt : a.nextFreePage s.mem < pagesPerArena
    · -- a new page
      obtain ⟨s', m', hrun', _, _, hhead⟩ := h.inv.allocFresh_spec hc ho hl rfl hlt
      obtain rfl := Except.ok.inj (hrun'.symm.trans hrun)
      have hnext : a.nextFreePage m' = a.nextFreePage s.mem + 1 := by
        rcases Arena.allocPage_spec a s.mem with ⟨hfull, _⟩ | ⟨m₁, _, hpage, hnext, _⟩
        · exact absurd hlt (Nat.not_lt_of_le hfull)
        · rw [hpage] at hhead
          exact (Arena.nextFreePage_of_eqOn hhead).trans hnext
      refine .page c (a.slotAddr (a.nextFreePage s.mem) c 0) hc (h.parts_nil_iff.mp hl) ?_ hnext ?_
      · unfold State.issue
        refine if_neg ?_
        show a.nextFreePage m' ≠ _
        omega
      · unfold State.issue
        exact if_neg (slotAddr_ne_zero h.inv.arena)
    · -- the arena has none
      rcases h.inv.alloc_spec hc ho () with ⟨_, _, hrun'⟩ | ⟨_, _, _, _, _, _, hroom, _⟩
      · obtain rfl := Except.ok.inj (hrun'.symm.trans hrun)
        refine .none ?_ rfl
        unfold State.issue
        exact if_pos rfl
      · exact absurd hl (hroom.resolve_left hlt)
  · rcases h.inv.alloc_spec hc ho () with ⟨hnil, _⟩ | ⟨_, _, _, _, _, hrun', _, _, _, heq⟩
    · exact absurd hnil hl
    · obtain rfl := Except.ok.inj (hrun'.symm.trans hrun)
      exact h.takes_listed hl heq

theorem takes_free (h : SlabState a s g) {e : Slot} (he : e ∈ s.live) {r : SlabAllocator × Mem}
    (hrun : s.slab.freeNoArena s.mem e.ptr (a.metaPtr (a.ptrToPageIndex e.ptr)) = .ok r) :
    a.nextFreePage r.2 = a.nextFreePage s.mem := by
  obtain ⟨i, j, hu, hp⟩ := (h.live e).mp he
  obtain ⟨s', m', hrun', _, heq⟩ := h.inv.freeNoArena_spec hu ()
  rw [hp, h.inv.ptrToPageIndex_slot hu] at hrun
  obtain rfl := Except.ok.inj (hrun'.symm.trans hrun)
  exact Arena.nextFreePage_of_eqOn fun z hz => heq fun hz' => h.inv.freeBytes_arenaMeta hu hz' hz

/-- **What a step does to the pages.** -/
theorem takes (h : SlabState a s g) (hs : Step a s e s') : Takes a s s' := by
  cases hs with
  | alloc hc ho hrun => exact h.takes_alloc hc ho hrun
  | allocNoArena hc hneeds hrun =>
    have hl := h.parts_ne_nil hc hneeds
    obtain ⟨_, _, _, _, _, hrun', _, _, heq⟩ := h.inv.allocNoArena_spec hc () 0 hl
    obtain rfl := Except.ok.inj (hrun'.symm.trans hrun)
    exact h.takes_listed hl heq
  | free he hrun =>
    obtain ⟨r, hrun', hboth, _⟩ := h.step_free he
    obtain rfl := Except.ok.inj (hrun'.symm.trans hrun)
    exact .none rfl (h.takes_free he hboth)
  | freeNoArena he hrun => exact .none rfl (h.takes_free he hrun)
  | @write e x v he h1 h2 =>
    obtain ⟨i, j, hu, hp⟩ := (h.live e).mp he
    rw [hp] at h1 h2
    refine .none rfl (Arena.nextFreePage_of_eqOn fun z hz => Function.update_of_ne ?_ v s.mem)
    rintro rfl
    exact h.inv.meta_not_used hu ⟨h1, h2⟩ (Arena.arenaMetaBytes_subset hz)

end SlabState

/-! ## The invariant -/

/-- The pages are distinct, the page counter counts them, and for each class they are as many as the peak of
live slots needs. -/
structure Footprint (a : Arena) (s : State) (p : Nat → Nat) : Prop where
  nodup : s.pages.Nodup
  next : a.nextFreePage s.mem = metaPages + s.pages.length
  enough : ∀ c, p c ≤ s.pagesOf c * slots c
  needed : ∀ c < numSizeClasses, s.pagesOf c * slots c < p c + slots c

namespace Footprint

theorem init (hs : (slabSystem a).init s) : Footprint a s fun c => s.liveOf c := by
  obtain ⟨_, ⟨m, id, hmem⟩, hlive, hpages⟩ := hs
  refine ⟨hpages ▸ List.nodup_nil, ?_, fun c => ?_, fun c hc => ?_⟩
  · rw [hpages, hmem]
    exact (Arena.init_spec a m id).1
  · unfold State.liveOf
    rw [hlive]
    exact Nat.zero_le _
  · have hcount := (slots_of_lt hc).count_ge
    unfold State.pagesOf
    rw [hpages, List.countP_nil]
    omega

/-- **Step lemma.** -/
theorem step (hf : Footprint a s p) (h : SlabState a s g) {g' : Ghost Unit} (h' : SlabState a s' g')
    (ht : Takes a s s') : Footprint a s' fun c => max (p c) (s'.liveOf c) := by
  cases ht with
  | none hpages hnext =>
    have hnd : s'.pages.Nodup := hpages ▸ hf.nodup
    have hof : ∀ c, s'.pagesOf c = s.pagesOf c := fun c => by
      unfold State.pagesOf
      rw [hpages]
    refine ⟨hnd, ?_, fun c => ?_, fun c hc => ?_⟩
    · rw [hnext, hpages]
      exact hf.next
    · have hle := h'.liveOf_le hnd c
      rw [hof] at hle ⊢
      exact max_le (hf.enough c) hle
    · rw [hof]
      exact (hf.needed c hc).trans_le (Nat.add_le_add_right (le_max_left ..) _)
  | page c₀ ptr hc hfull hpages hnext hlive =>
    have hnew : (a.nextFreePage s.mem, c₀) ∉ s.pages := fun hmem =>
      absurd (h.inv.range _ _ ((h.pages _ _).mp hmem)).2 (Nat.lt_irrefl _)
    have hnd : s'.pages.Nodup := by
      rw [hpages]
      exact List.nodup_cons.mpr ⟨hnew, hf.nodup⟩
    refine ⟨hnd, ?_, fun c => ?_, fun c hc => ?_⟩
    · rw [hnext, hpages, hf.next]
      rfl
    · have hle := h'.liveOf_le hnd c
      have hmono : s.pagesOf c ≤ s'.pagesOf c := by
        unfold State.pagesOf
        rw [hpages, List.countP_cons]
        exact Nat.le_add_right ..
      exact max_le ((hf.enough c).trans (Nat.mul_le_mul_right _ hmono)) hle
    · by_cases heq : c₀ = c
      · -- more slots are live now than the full pages had
        subst heq
        have hall := h.liveOf_full hf.nodup hfull
        have hpages' : s'.pagesOf c₀ = s.pagesOf c₀ + 1 := by
          unfold State.pagesOf
          rw [hpages, List.countP_cons, if_pos (decide_eq_true rfl)]
        have hlive' : s'.liveOf c₀ = s.liveOf c₀ + 1 := by
          unfold State.liveOf
          rw [hlive, List.countP_cons, if_pos (decide_eq_true rfl)]
        rw [hpages', hlive', hall, Nat.succ_mul]
        exact Nat.add_lt_add_right (Nat.lt_of_lt_of_le (Nat.lt_succ_self _) (le_max_right ..)) _
      · have hof : s'.pagesOf c = s.pagesOf c := by
          unfold State.pagesOf
          rw [hpages, List.countP_cons, if_neg (by simpa using heq)]
          rfl
        rw [hof]
        exact (hf.needed c hc).trans_le (Nat.add_le_add_right (le_max_left ..) _)

end Footprint

/-- Run lemma. -/
theorem reachable_footprint_inv (ha : a.Ok) (hr : (slabSystem a).Peak State.liveOf s p) : Footprint a s p := by
  induction hr with
  | init h0 => exact .init h0
  | step hr hs ih =>
    obtain ⟨g, h⟩ := reachable_slabState ha hr.reachable
    obtain ⟨g', h'⟩ := reachable_slabState ha (hr.reachable.step hs)
    exact ih.step h h' (h.takes hs)

/-- The pages that `n` live slots of class `c` need. -/
def pagesFor (c n : Nat) : Nat := (n + slotsPerPage c pageSize - 1) / slotsPerPage c pageSize

theorem Footprint.pagesOf_eq (h : Footprint a s p) (hc : c < numSizeClasses) : s.pagesOf c = pagesFor c (p c) := by
  have hcount : 0 < slots c := Nat.lt_of_lt_of_le (by decide) (slots_of_lt hc).count_ge
  have henough := h.enough c
  have hneeded := h.needed c hc
  refine (Nat.div_eq_of_lt_le (k := s.pagesOf c) ?_ ?_).symm
  · show s.pagesOf c * slots c ≤ p c + slots c - 1
    omega
  · show p c + slots c - 1 < (s.pagesOf c + 1) * slots c
    rw [Nat.succ_mul]
    omega

/-- **A slab takes as few pages as it can.** In every run, with `p` the peaks of live slots of each class so far:
the slab has initialised for each class exactly the pages that the peak needs, and the page counter of the
arena stands behind them all. -/
theorem reachable_footprint (ha : a.Ok) (hr : (slabSystem a).Peak State.liveOf s p) :
    (∀ c < numSizeClasses, s.pagesOf c = pagesFor c (p c)) ∧
      a.nextFreePage s.mem = metaPages + ((List.range numSizeClasses).map fun c => pagesFor c (p c)).sum := by
  have hf := reachable_footprint_inv ha hr
  obtain ⟨g, h⟩ := reachable_slabState ha hr.reachable
  refine ⟨fun c hc => hf.pagesOf_eq hc, ?_⟩
  have hcls : ∀ q ∈ s.pages, q.2 < numSizeClasses := fun q hq =>
    (h.inv.slabPage ((h.pages q.1 q.2).mp hq)).cls_lt
  rw [hf.next, ← sum_countP_eq Prod.snd hcls]
  refine congrArg (metaPages + ·) (congrArg List.sum (List.map_congr_left fun c hc => ?_))
  exact hf.pagesOf_eq (List.mem_range.mp hc)

/-- One slot of the smallest class was handed out: one page. -/
theorem reachable_footprint_slot : ∃ (a : Arena) (s : State) (p : Nat → Nat), a = ⟨2097152, 2097152⟩ ∧
    s.live ≠ [] ∧ s.pagesOf 0 = pagesFor 0 (p 0) := by
  have ha : Arena.Ok ⟨2097152, 2097152⟩ := ⟨by decide, by decide, rfl, by decide⟩
  obtain ⟨s, e, hlive, _, hr⟩ := exists_live ha
  obtain ⟨p, hp⟩ := hr.peak State.liveOf
  exact ⟨_, s, p, rfl, hlive ▸ List.cons_ne_nil _ _, (reachable_footprint ha hp).1 0 (by decide)⟩

end FerrumAlloc.Slab
