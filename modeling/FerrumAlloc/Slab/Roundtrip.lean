/-
# FerrumAlloc.Slab.Roundtrip -- freeing what was just allocated

`alloc_no_arena` takes the first free slot of the first listed page, and unlinks the page when that was its
last free slot. `free_no_arena` finds the slot index by division, puts the slot in front again, and links
the page in front if it was full. On the view the second undoes the first (`Ghost.put_take`).

The view determines the rest. Two memories with one view have the same list heads, the same records of
listed pages and the same slot links; the records of all other pages are not written at all. So every
record, every free list and every page list is back, whatever the client has stored in the slot.
-/
import FerrumAlloc.Slab.System

namespace FerrumAlloc

open Lib

variable {ι : Type} {a : Arena} {m m' m'' m₁ : Mem} {slabs slabs' : ι → SlabAllocator} {g : Ghost ι}
  {i i' j c : Nat} {k : ι} {l rest : List Nat}

/-! ## On the view -/

/-- **Putting back the slot just taken** gives the old view, also when the page was unlinked. -/
theorem Ghost.put_take [DecidableEq ι] (hfree : g.free i = j :: l) (hl : g.parts (k, c) = a.metaPtr i :: rest)
    (hk : g.home i = k) : (g.take k c i).put a k c i j = g := by
  obtain ⟨cls, owner, free, home, parts⟩ := g
  simp only at hfree hl hk
  have hslots : Function.update (Function.update free i l) i (j :: l) = free := by
    rw [Function.update_idem, ← hfree, Function.update_eq_self]
  unfold Ghost.put Ghost.take
  simp only [hfree, List.tail_cons, Function.update_self, hslots]
  by_cases hnil : l = []
  · have hhome : Function.update home i k = home := by rw [← hk, Function.update_eq_self]
    have hparts : Function.update (Function.update parts (k, c) rest) (k, c) (a.metaPtr i :: rest) = parts := by
      rw [Function.update_idem, ← hl, Function.update_eq_self]
    simp only [if_pos hnil, hl, List.tail_cons, Function.update_self, hhome, hparts]
  · simp only [if_neg hnil]

/-- The bytes that the free writes are those of the page list before, or of the slot. -/
theorem freeBytes_take [DecidableEq ι] (hc : c < numSizeClasses) (hl : g.parts (k, c) = a.metaPtr i :: rest) :
    SlabInv.freeBytes a (g.take k c i) k i c j ⊆ listBytes (g.parts (k, c)) ∪ slotBytes a i c j := by
  have hparts : ∀ p ∈ (g.take k c i).parts (k, c), p ∈ g.parts (k, c) := by
    intro p hp
    unfold Ghost.take at hp
    split_ifs at hp
    · simp only [Function.update_self] at hp
      exact List.mem_of_mem_tail hp
    · exact hp
  rintro z (⟨p, hp, hz⟩ | hz)
  · refine .inl ⟨p, ?_, hz⟩
    rcases List.mem_cons.mp hp with rfl | hp
    · rw [hl]
      exact List.mem_cons_self
    · split at hp
      · exact hparts p hp
      · nomatch hp
  · exact .inr (linkSpan_subset_slotBytes hc hz)

/-! ## One view, one slab -/

/-- A record is its core and its two links. -/
theorem PageMeta.eq_of_core {pm pm' : PageMeta} (hcore : pm'.core = pm.core) (hnext : pm'.nextPage = pm.nextPage)
    (hprev : pm'.prevPage = pm.prevPage) : pm' = pm := by
  have hfield : ∀ f : PageMeta → Nat, f pm'.core = f pm.core := fun f => congrArg f hcore
  exact PageMeta.ext (hfield PageMeta.sizeClass) (hfield PageMeta.ownerId) (hfield PageMeta.usedSlots)
    (hfield PageMeta.freeListHead) hnext hprev (hfield PageMeta.pageAddr)

namespace SlabInv

/-- The list heads are determined by the view. -/
theorem slab_eq (h : SlabInv a m slabs g) (h' : SlabInv a m' slabs' g) (k : ι) : slabs' k = slabs k := by
  have hheads : ∀ c, (slabs' k).partialPages c = (slabs k).partialPages c :=
    fun c => ((h.lists.list (k, c)).same (h'.lists.list (k, c))).1
  exact congrArg SlabAllocator.mk (funext hheads)

/-- The record of a listed page is determined by the view. -/
theorem record_eq (h : SlabInv a m slabs g) (h' : SlabInv a m' slabs' g)
    (hmem : a.metaPtr i ∈ g.parts (k, c)) : readMeta m' (a.metaPtr i) = readMeta m (a.metaPtr i) := by
  obtain ⟨i', hi, hc, _⟩ := (h.mem k c _).mp hmem
  obtain rfl := Arena.metaPtr_inj hi
  obtain ⟨hnext, hprev⟩ := ((h.lists.list (k, c)).same (h'.lists.list (k, c))).2 _ hmem
  exact PageMeta.eq_of_core ((h.slabPage hc).core_eq (h'.slabPage hc)) hnext hprev

/-- The record of a page that is not listed is not among the records of the list. -/
theorem metaBytes_not_listed (h : SlabInv a m slabs g) (hmem : a.metaPtr i ∉ g.parts (k, c)) {z : Nat}
    (hz : z ∈ metaBytes (a.metaPtr i)) : z ∉ listBytes (g.parts (k, c)) := by
  rintro ⟨p, hp, hz'⟩
  obtain ⟨i', rfl, _⟩ := (h.mem k c p).mp hp
  refine Arena.metaBytes_disjoint (fun heq => hmem ?_) hz hz'
  rw [heq]
  exact hp

/-- **One view, one set of records**, when only listed records and a slot have been written. -/
theorem readMeta_eq (h : SlabInv a m slabs g) (h' : SlabInv a m' slabs' g) (hlo : metaPages ≤ i)
    (hc : c < numSizeClasses) (hj : j < slots c)
    (heq : Set.EqOn m' m (listBytes (g.parts (k, c)) ∪ slotBytes a i c j)ᶜ) (hi : i' < pagesPerArena) :
    readMeta m' (a.metaPtr i') = readMeta m (a.metaPtr i') := by
  by_cases hmem : a.metaPtr i' ∈ g.parts (k, c)
  · exact h.record_eq h' hmem
  · refine readMeta_eqOn fun z hz => heq ?_
    rintro (hz' | hz')
    · exact h.metaBytes_not_listed hmem hz hz'
    · exact pageBytes_not_meta hlo (slotBytes_in_page hc hj hz') (Arena.metaBytes_subset hi hz)

/-! ## The calls -/

/-- **`free_no_arena` undoes `alloc_no_arena`**: the view and the list heads are back, and only records of the
list and the slot have been written in between. The next call takes the same slot. -/
theorem alloc_free [DecidableEq ι] (h : SlabInv a m slabs g) (hc : c < numSizeClasses) (hl : g.parts (k, c) ≠ []) :
    ∃ t m' i j, (slabs k).allocNoArena m c = .ok (t, m', a.slotAddr i c j) ∧
      metaPages ≤ i ∧ j < slots c ∧ ∀ m'', Set.EqOn m'' m' (slotBytes a i c j)ᶜ →
        ∃ m₁, t.freeNoArena m'' (a.slotAddr i c j) (a.metaPtr (a.ptrToPageIndex (a.slotAddr i c j))) =
            .ok (slabs k, m₁) ∧ SlabInv a m₁ slabs g ∧
          Set.EqOn m₁ m (listBytes (g.parts (k, c)) ∪ slotBytes a i c j)ᶜ ∧
          ∃ t₂ m₂, (slabs k).allocNoArena m₁ c = .ok (t₂, m₂, a.slotAddr i c j) := by
  obtain ⟨t, m', g', i, j, hrun, hs, hinv, heq⟩ := h.allocNoArena_spec hc k 0 hl
  have hu : g'.Used i c j := (hs.used_iff h hc).mpr (.inr ⟨rfl, rfl, rfl⟩)
  have hlo := (hinv.range i c hu.1).1
  refine ⟨t, m', i, j, hrun, hlo, hu.2.1, fun m'' hw => ?_⟩
  have hinv'' : SlabInv a m'' (Function.update slabs k t) g' :=
    hinv.frame fun z hz => hw fun hz' => hinv.used_not_own hu hz' hz
  obtain ⟨t₁, m₁, hfree, hinv₁, heq₁⟩ := hinv''.freeNoArena_spec hu k
  cases hs with
  | fresh hnil _ => exact absurd hnil hl
  | @listed i j l rest hci hslots hlist =>
    obtain ⟨i', _, _, hhead, _, _, hhome⟩ := h.head_page hlist
    obtain rfl := Arena.metaPtr_inj hhead
    rw [Function.update_self] at hfree
    rw [Function.update_idem, Ghost.put_take hslots hlist hhome] at hinv₁
    -- the slab is the old one
    have ht₁ : t₁ = slabs k := by
      have hsame := h.slab_eq hinv₁ k
      rwa [Function.update_self] at hsame
    rw [ht₁] at hfree hinv₁
    rw [Function.update_eq_self] at hinv₁
    refine ⟨m₁, ?_, hinv₁, fun z hz => ?_, ?_⟩
    · rw [hinv.ptrToPageIndex_slot hu]
      exact hfree
    · have hz₁ : z ∉ allocBytes a g (a.nextFreePage m) k c := by
        unfold allocBytes
        rw [if_neg hl]
        exact fun hz' => hz (.inl hz')
      rw [heq₁ fun hz' => hz (freeBytes_take hc hlist hz'), hw fun hz' => hz (.inr hz'), heq hz₁]
    · obtain ⟨t₂, m₂, g₂, i₂, j₂, hrun₂, hs₂, _⟩ := hinv₁.allocNoArena_spec hc k 0 hl
      cases hs₂ with
      | fresh hnil _ => exact absurd hnil hl
      | listed hci₂ hslots₂ hlist₂ =>
        obtain rfl := Arena.metaPtr_inj (List.cons.inj (hlist₂.symm.trans hlist)).1
        obtain rfl := (List.cons.inj (hslots₂.symm.trans hslots)).1
        exact ⟨t₂, m₂, hrun₂⟩

end SlabInv

/-! ## In every run -/

namespace Slab

/-- **The same slab**, as a reader of the memory finds it: every record of the arena, the page counter, the
free list of every page and the page list of every class. -/
structure SameSlab (a : Arena) (s : State) (t : SlabAllocator) (m : Mem) : Prop where
  heads : t = s.slab
  records : ∀ i < pagesPerArena, readMeta m (a.metaPtr i) = readMeta s.mem (a.metaPtr i)
  counter : a.nextFreePage m = a.nextFreePage s.mem
  freeLists : ∀ i c, (i, c) ∈ s.pages → ∃ F,
    Chain (slotLink a s.mem i c) nullSlot (readMeta s.mem (a.metaPtr i)).freeListHead F ∧
      Chain (slotLink a m i c) nullSlot (readMeta m (a.metaPtr i)).freeListHead F
  pageLists : ∀ c < numSizeClasses, ∃ P,
    DList (nextOf s.mem) (prevOf s.mem) 0 (s.slab.partialPages c) P ∧
      DList (nextOf m) (prevOf m) 0 (t.partialPages c) P

variable {s : State}

/-- **Slab `alloc` followed by `free` is the identity.** In every reachable state and for every class with a
page listed: when `alloc_no_arena` returns `p` and `free_no_arena` takes it back, with any bytes written to
the slot in between, the slab is the same as before, and the next `alloc_no_arena` returns `p` again. -/
theorem reachable_alloc_free_slot (ha : a.Ok) (hr : (slabSystem a).Reachable s) (hc : c < numSizeClasses)
    (hneeds : s.slab.allocNeedsPage c = .ok false) :
    ∃ t m p, s.slab.allocNoArena s.mem c = .ok (t, m, p) ∧
      ∀ m', Set.EqOn m' m (Set.Ico p (p + slotSize c))ᶜ →
        ∃ t₁ m₁, t.freeNoArena m' p (a.metaPtr (a.ptrToPageIndex p)) = .ok (t₁, m₁) ∧ SameSlab a s t₁ m₁ ∧
          ∃ t₂ m₂, t₁.allocNoArena m₁ c = .ok (t₂, m₂, p) := by
  obtain ⟨g, h⟩ := reachable_slabState ha hr
  obtain ⟨t, m, i, j, hrun, hlo, hj, hback⟩ := h.inv.alloc_free hc (h.parts_ne_nil hc hneeds)
  refine ⟨t, m, _, hrun, fun m' hw => ?_⟩
  obtain ⟨m₁, hfree, hinv, heq, hagain⟩ := hback m' hw
  have hrecords : ∀ i' < pagesPerArena, readMeta m₁ (a.metaPtr i') = readMeta s.mem (a.metaPtr i') :=
    fun i' hi => h.inv.readMeta_eq hinv hlo hc hj heq hi
  refine ⟨s.slab, m₁, hfree, ⟨rfl, hrecords, ?_, fun i' c' hmem => ?_, fun c' _ => ?_⟩, hagain⟩
  · apply Arena.nextFreePage_of_eqOn
    refine fun z hz => heq ?_
    rintro (hz' | hz')
    · exact h.inv.listBytes_arenaMeta _ hz' hz
    · exact pageBytes_not_meta hlo (slotBytes_in_page hc hj hz') (Arena.arenaMetaBytes_subset hz)
  · have hcls := (h.pages i' c').mp hmem
    exact ⟨g.free i', (h.inv.slabPage hcls).chain, (hinv.slabPage hcls).chain⟩
  · exact ⟨g.parts ((), c'), h.inv.lists.list ((), c'), hinv.lists.list ((), c')⟩

/-- The arena at 2 MB with one slot of the smallest class handed out: a second one is taken, overwritten with
ones and put back. -/
theorem reachable_alloc_free_slot_second : ∃ (a : Arena) (s : State) (e : Slot) (t : SlabAllocator) (m : Mem)
    (p : Nat), a = ⟨2097152, 2097152⟩ ∧ s.live = [e] ∧ s.slab.allocNoArena s.mem 0 = .ok (t, m, p) ∧
    ∃ t₁ m₁, t.freeNoArena (fill m p (slotSize 0) 255) p (a.metaPtr (a.ptrToPageIndex p)) = .ok (t₁, m₁) ∧
      SameSlab a s t₁ m₁ ∧ ∃ t₂ m₂, t₁.allocNoArena m₁ 0 = .ok (t₂, m₂, p) := by
  have ha : Arena.Ok ⟨2097152, 2097152⟩ := ⟨by decide, by decide, rfl, by decide⟩
  obtain ⟨s, e, hlive, hneeds, hr⟩ := exists_live ha
  obtain ⟨t, m, p, hrun, hback⟩ := reachable_alloc_free_slot ha hr (by decide) hneeds
  exact ⟨_, s, e, t, m, p, rfl, hlive, hrun, hback _ (fill_eqOn _ _ _ _)⟩

end Slab

end FerrumAlloc
