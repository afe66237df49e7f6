/-
# FerrumAlloc.Slab.Calls -- the functions of the slab allocator

`alloc`, `alloc_no_arena`, `free` and `free_no_arena` find a page in their own way and then take or put
a slot. Their effect on the view is `Served` and `Ghost.put`; what clients see of it is the set of used
slots (`Ghost.Used`), which grows by one slot and shrinks by one slot.
-/
import FerrumAlloc.Slab.NewPage

namespace FerrumAlloc

open Lib

variable {ι : Type} {a : Arena} {m m' : Mem} {slabs : ι → SlabAllocator} {g g' : Ghost ι}
  {i i' j j' c c' o next : Nat} {k : ι} {l : List Nat}

/-! ## Used slots -/

/-- Slot `j` of page `i`, of class `c`, is not free. -/
def Ghost.Used (g : Ghost ι) (i c j : Nat) : Prop := g.cls i = some c ∧ j < slots c ∧ j ∉ g.free i

/-- The bytes of a slot. -/
def slotBytes (a : Arena) (i c j : Nat) : Set Nat :=
  Set.Ico (a.slotAddr i c j) (a.slotAddr i c j + slotSize c)

theorem slotBytes_in_page (hc : c < numSizeClasses) (hj : j < slots c) :
    slotBytes a i c j ⊆ a.pageBytes i := by
  rintro z ⟨h1, h2⟩
  obtain ⟨h3, h4⟩ := slot_in_page (a := a) (i := i) hc hj
  exact ⟨by omega, by omega⟩

theorem linkSpan_subset_slotBytes (hc : c < numSizeClasses) :
    linkSpan a i c j ⊆ slotBytes a i c j := by
  rintro z ⟨h1, h2⟩
  have h8 := (slots_of_lt hc).size_ge
  exact ⟨h1, by omega⟩

/-- Distinct slots of one page are disjoint. -/
theorem slotBytes_disjoint (hne : j ≠ j') {z : Nat} (hz : z ∈ slotBytes a i c j) :
    z ∉ slotBytes a i c j' := by
  intro hz'
  have hap := slot_apart (c := c) hne
  unfold slotBytes Arena.slotAddr at hz hz'
  rw [Set.mem_Ico] at hz hz'
  omega

namespace SlabInv

theorem used_lt (h : SlabInv a m slabs g) (hu : g.Used i c j) : c < numSizeClasses :=
  (h.slabPage hu.1).cls_lt

/-- **Used slots are disjoint.** A byte belongs to one used slot at most. -/
theorem used_unique (h : SlabInv a m slabs g) (hu : g.Used i c j) (hu' : g.Used i' c' j') {z : Nat}
    (hz : z ∈ slotBytes a i c j) (hz' : z ∈ slotBytes a i' c' j') : i = i' ∧ c = c' ∧ j = j' := by
  have hp := slotBytes_in_page (h.used_lt hu) hu.2.1 hz
  have hp' := slotBytes_in_page (h.used_lt hu') hu'.2.1 hz'
  have hi : i = i' := by
    by_contra hne
    exact pageBytes_disjoint hne hp hp'
  subst hi
  have hc : c = c' := Option.some.inj (hu.1.symm.trans hu'.1)
  subst hc
  refine ⟨rfl, rfl, ?_⟩
  by_contra hne
  exact slotBytes_disjoint hne hz hz'

/-- **Used slots are client memory.** The slabs rely on no byte of theirs. -/
theorem used_not_own (h : SlabInv a m slabs g) (hu : g.Used i c j) {z : Nat}
    (hz : z ∈ slotBytes a i c j) : z ∉ slabOwn a g := by
  have hp := slotBytes_in_page (h.used_lt hu) hu.2.1 hz
  rintro (hz' | ⟨i', c', j', hc', hj', hz'⟩)
  · exact pageBytes_not_meta (h.range i c hu.1).1 hp hz'
  · have hsp := h.slabPage hc'
    have hp' := linkSpan_in_page hsp.cls_lt (hsp.lt j' hj') hz'
    have hi : i = i' := by
      by_contra hne
      exact pageBytes_disjoint hne hp hp'
    subst hi
    have hc : c = c' := Option.some.inj (hu.1.symm.trans hc')
    subst hc
    have hj : j ≠ j' := by
      rintro rfl
      exact hu.2.2 hj'
    exact slotBytes_disjoint hj hz (linkSpan_subset_slotBytes hsp.cls_lt hz')

/-- The start of a used slot determines it. -/
theorem slotAddr_inj (h : SlabInv a m slabs g) (hu : g.Used i c j) (hu' : g.Used i' c' j')
    (heq : a.slotAddr i c j = a.slotAddr i' c' j') : i = i' ∧ c = c' ∧ j = j' := by
  have hmem : ∀ {i c j}, g.Used i c j → a.slotAddr i c j ∈ slotBytes a i c j := by
    intro i c j hu
    have h8 := (slots_of_lt (h.used_lt hu)).size_ge
    exact ⟨Nat.le_refl _, by omega⟩
  refine h.used_unique hu hu' (hmem hu) ?_
  rw [heq]
  exact hmem hu'

/-- A used slot lies inside the arena. -/
theorem used_end_le (h : SlabInv a m slabs g) (hu : g.Used i c j) :
    a.base + 20480 ≤ a.slotAddr i c j ∧ a.slotAddr i c j + slotSize c ≤ a.base + 2097152 := by
  obtain ⟨h1, h2⟩ := slot_in_page (a := a) (i := i) (h.used_lt hu) hu.2.1
  have h3 := Arena.pageAddr_end_le (a := a) (h.index_lt hu.1)
  have h4 : 5 ≤ i := (h.range i c hu.1).1
  have h5 := Arena.pageAddr_eq a i
  omega

theorem meta_not_used (h : SlabInv a m slabs g) (hu : g.Used i c j) {z : Nat}
    (hz : z ∈ slotBytes a i c j) : z ∉ a.metaRegion :=
  fun hz' => h.used_not_own hu hz (.inl hz')

theorem partialPages_nil (h : SlabInv a m slabs g) (hl : g.parts (k, c) = []) :
    (slabs k).partialPages c = 0 := (h.lists.list (k, c)).head.trans (by rw [hl]; rfl)

theorem partialPages_cons (h : SlabInv a m slabs g) {p : Nat} {rest : List Nat}
    (hl : g.parts (k, c) = p :: rest) : (slabs k).partialPages c = p :=
  (h.lists.list (k, c)).head.trans (by rw [hl]; rfl)

theorem ptrToPageIndex_slot (h : SlabInv a m slabs g) (hu : g.Used i c j) :
    a.ptrToPageIndex (a.slotAddr i c j) = i :=
  slot_ptrToPageIndex h.arena (h.range i c hu.1).1 (h.index_lt hu.1) (h.used_lt hu) hu.2.1

theorem index_ne_zero (h : SlabInv a m slabs g) (hc : g.cls i = some c) : i ≠ 0 := by
  have h5 : 5 ≤ i := (h.range i c hc).1
  omega

theorem sizeClass_ne (h : SlabInv a m slabs g) (hc : g.cls i = some c) :
    (readMeta m (a.metaPtr i)).sizeClass ≠ noClass := by
  have hlt := (h.slabPage hc).cls_lt
  rw [(h.slabPage hc).sizeClass]
  unfold numSizeClasses at hlt
  unfold noClass
  omega

end SlabInv

/-! ## Allocation -/

/-- What a successful allocation of class `c` by slab `k` does to the view: it takes the first free slot
of the first listed page, or of a new page when none is listed. -/
inductive Served [DecidableEq ι] (a : Arena) (g : Ghost ι) (next : Nat) (k : ι) (c o : Nat) :
    Ghost ι → Nat → Nat → Prop
  | listed {i j : Nat} {l rest : List Nat} (hc : g.cls i = some c) (hfree : g.free i = j :: l)
      (hl : g.parts (k, c) = a.metaPtr i :: rest) : Served a g next k c o (g.take k c i) i j
  | fresh (hl : g.parts (k, c) = []) (hlt : next < pagesPerArena) :
      Served a g next k c o ((g.addPage a k c o next).take k c next) next 0

/-- The bytes an allocation may change: the records of the page list, or the new page. -/
def allocBytes (a : Arena) (g : Ghost ι) (next : Nat) (k : ι) (c : Nat) : Set Nat :=
  if g.parts (k, c) = [] then a.arenaMetaBytes ∪ a.pageBytes next ∪ metaBytes (a.metaPtr next)
  else listBytes (g.parts (k, c))

/-- A new page stays listed after its first slot is taken. -/
theorem Ghost.parts_take_addPage [DecidableEq ι] (hc : c < numSizeClasses) :
    ((g.addPage a k c o i).take k c i).parts (k, c) = a.metaPtr i :: g.parts (k, c) := by
  have hfree : (g.addPage a k c o i).free i = List.range (slots c) := Function.update_self ..
  have hparts : (g.addPage a k c o i).parts (k, c) = a.metaPtr i :: g.parts (k, c) := Function.update_self ..
  have hcount := (slots_of_lt hc).count_ge
  have hrest : ((g.addPage a k c o i).free i).tail ≠ [] := by
    rw [hfree, ← List.length_pos_iff, List.length_tail, List.length_range]
    omega
  unfold Ghost.take
  rw [if_neg hrest]
  exact hparts

namespace Served

/-- The slot was not used before. -/
theorem not_used [DecidableEq ι] (h : SlabInv a m slabs g)
    (hs : Served a g (a.nextFreePage m) k c o g' i j) : ¬ g.Used i c j := by
  rintro ⟨hc', _, hfree'⟩
  cases hs with
  | listed hc hfree hl =>
    apply hfree'
    rw [hfree]
    exact List.mem_cons_self
  | fresh hl hlt =>
    rw [h.cls_next (Nat.le_refl _)] at hc'
    exact Option.some_ne_none _ hc'.symm

/-- **The used slots grow by the slot returned.** -/
theorem used_iff [DecidableEq ι] (h : SlabInv a m slabs g) (hc : c < numSizeClasses)
    (hs : Served a g (a.nextFreePage m) k c o g' i j) :
    g'.Used i' c' j' ↔ g.Used i' c' j' ∨ i' = i ∧ c' = c ∧ j' = j := by
  cases hs with
  | @listed i j l rest hci hfree hl =>
    have hsp := h.slabPage hci
    rw [hfree] at hsp
    have hnd := List.nodup_cons.mp hsp.nodup
    have hjlt := hsp.lt j List.mem_cons_self
    unfold Ghost.Used Ghost.take
    by_cases hii : i' = i
    · subst hii
      simp only [Function.update_self, hfree, List.tail_cons, List.mem_cons, true_and]
      constructor
      · rintro ⟨hc', hj', hnot⟩
        by_cases hjj : j' = j
        · rw [hci] at hc'
          exact .inr ⟨(Option.some.inj hc').symm, hjj⟩
        · exact .inl ⟨hc', hj', fun hor => hor.elim hjj hnot⟩
      · rintro (⟨hc', hj', hnot⟩ | ⟨rfl, rfl⟩)
        · exact ⟨hc', hj', fun hmem => hnot (.inr hmem)⟩
        · exact ⟨hci, hjlt, hnd.1⟩
    · simp only [Function.update_of_ne hii]
      constructor
      · exact fun hu => .inl hu
      · rintro (hu | ⟨heq, _⟩)
        · exact hu
        · exact absurd heq hii
  | fresh hl hlt =>
    have hnone := h.cls_next (Nat.le_refl _)
    have hpos := (slots_of_lt hc).count_ge
    unfold Ghost.Used Ghost.take Ghost.addPage
    by_cases hii : i' = a.nextFreePage m
    · subst hii
      simp only [Function.update_self, hnone, true_and]
      constructor
      · rintro ⟨hc', hj', hnot⟩
        obtain rfl := Option.some.inj hc'
        refine .inr ⟨rfl, ?_⟩
        by_contra hne
        apply hnot
        rw [List.range_eq_range', show slots c = slots c - 1 + 1 by omega, List.range'_succ,
          List.tail_cons, List.mem_range'_1]
        omega
      · rintro (⟨hc', _⟩ | ⟨rfl, rfl⟩)
        · exact absurd hc'.symm (Option.some_ne_none c')
        · refine ⟨rfl, by omega, ?_⟩
          rw [List.range_eq_range', show slots c' = slots c' - 1 + 1 by omega, List.range'_succ,
            List.tail_cons, List.mem_range'_1]
          omega
    · simp only [Function.update_of_ne hii]
      constructor
      · exact fun hu => .inl hu
      · rintro (hu | ⟨heq, _⟩)
        · exact hu
        · exact absurd heq hii

/-- **The view decides what is served.** -/
theorem unique [DecidableEq ι] {g₁ g₂ : Ghost ι} {i₁ j₁ i₂ j₂ : Nat} (hs : Served a g next k c o g₁ i₁ j₁)
    (hs' : Served a g next k c o g₂ i₂ j₂) : g₂ = g₁ ∧ i₂ = i₁ ∧ j₂ = j₁ := by
  cases hs with
  | listed hc hfree hl =>
    cases hs' with
    | listed hc' hfree' hl' =>
      obtain rfl := Arena.metaPtr_inj (List.cons.inj (hl'.symm.trans hl)).1
      exact ⟨rfl, rfl, (List.cons.inj (hfree'.symm.trans hfree)).1⟩
    | fresh hl' _ => exact absurd (hl'.symm.trans hl) (List.cons_ne_nil _ _).symm
  | fresh hl _ =>
    cases hs' with
    | listed _ _ hl' => exact absurd (hl.symm.trans hl') (List.cons_ne_nil _ _).symm
    | fresh _ _ => exact ⟨rfl, rfl, rfl⟩

/-- Pages issued before keep their class. -/
theorem cls_of_lt [DecidableEq ι] (hs : Served a g next k c o g' i j) (hlt : i' < next) :
    g'.cls i' = g.cls i' := by
  cases hs with
  | listed => rfl
  | fresh => exact Function.update_of_ne (Nat.ne_of_lt hlt) _ _

/-- A page with a free slot after the allocation: the new page, or one that had a free slot before and stands
on the same list. -/
theorem listed_cases [DecidableEq ι] (hs : Served a g next k c o g' i j) (hc : g'.cls i' = some c')
    (hf : g'.free i' ≠ []) :
    (g'.home i' = k ∧ g'.owner i' = o) ∨
      (g.cls i' = some c' ∧ g.free i' ≠ [] ∧ g'.home i' = g.home i' ∧ g'.owner i' = g.owner i') := by
  cases hs with
  | listed _ hfree hl =>
    refine .inr ⟨hc, fun h0 => hf ?_, rfl, rfl⟩
    show Function.update g.free i (g.free i).tail i' = []
    by_cases hii : i' = i
    · rw [hii, Function.update_self, ← hii, h0]
      rfl
    · rw [Function.update_of_ne hii]
      exact h0
  | fresh hl hlt =>
    by_cases hii : i' = i
    · rw [hii]
      exact .inl ⟨Function.update_self .., Function.update_self ..⟩
    · refine .inr ⟨(Function.update_of_ne hii ..).symm.trans hc, fun h0 => hf ?_, Function.update_of_ne hii ..,
        Function.update_of_ne hii ..⟩
      refine (Function.update_of_ne hii ..).trans ?_
      exact (Function.update_of_ne hii ..).trans h0

/-- A slab page was one before, with the same owner, or is the page just issued. -/
theorem cls_some [DecidableEq ι] (hs : Served a g next k c o g' i j) (hc : g'.cls i' = some c') :
    (g.cls i' = some c' ∧ g'.owner i' = g.owner i') ∨
      (i' = next ∧ i' = i ∧ c' = c ∧ g'.owner i' = o) := by
  cases hs with
  | listed => exact .inl ⟨hc, rfl⟩
  | fresh hl hlt =>
    have hcls : ((g.addPage a k c o i).take k c i).cls = Function.update g.cls i (some c) := rfl
    have howner : ((g.addPage a k c o i).take k c i).owner = Function.update g.owner i o := rfl
    rw [hcls] at hc
    rw [howner]
    by_cases hii : i' = i
    · rw [hii, Function.update_self] at hc
      rw [hii, Function.update_self]
      exact .inr ⟨rfl, rfl, (Option.some.inj hc).symm, rfl⟩
    · rw [Function.update_of_ne hii] at hc ⊢
      exact .inl ⟨hc, rfl⟩

end Served

/-- **The used slots shrink by the slot put back.** -/
theorem Ghost.used_put [DecidableEq ι] (hu : g.Used i c j) :
    (g.put a k c i j).Used i' c' j' ↔ g.Used i' c' j' ∧ ¬ (i' = i ∧ j' = j) := by
  unfold Ghost.Used Ghost.put
  by_cases hii : i' = i
  · subst hii
    simp only [Function.update_self, List.mem_cons, not_or, true_and]
    constructor
    · rintro ⟨hc', hj', hne, hnot⟩
      exact ⟨⟨hc', hj', hnot⟩, hne⟩
    · rintro ⟨⟨hc', hj', hnot⟩, hne⟩
      exact ⟨hc', hj', hne, hnot⟩
  · simp only [Function.update_of_ne hii]
    constructor
    · exact fun hu => ⟨hu, fun heq => hii heq.1⟩
    · exact fun hu => hu.1

/-! ## Footprints seen from the used slots -/

namespace SlabInv

theorem allocBytes_not_used (h : SlabInv a m slabs g) (hlt : a.nextFreePage m < pagesPerArena ∨
    g.parts (k, c') ≠ []) (hu : g.Used i c j) {z : Nat} (hz : z ∈ slotBytes a i c j) :
    z ∉ allocBytes a g (a.nextFreePage m) k c' := by
  have hmeta := h.meta_not_used hu hz
  unfold allocBytes
  split
  · rename_i hnil
    have hnext := hlt.resolve_right (not_not.mpr hnil)
    rintro ((hz' | hz') | hz')
    · exact hmeta (Arena.arenaMetaBytes_subset hz')
    · refine pageBytes_disjoint ?_ (slotBytes_in_page (h.used_lt hu) hu.2.1 hz) hz'
      exact Nat.ne_of_lt (h.range i c hu.1).2
    · exact hmeta (Arena.metaBytes_subset hnext hz')
  · exact fun hz' => hmeta (h.listBytes_subset _ hz')

end SlabInv

/-- Taking a slot of a listed page leaves the page counter alone. -/
theorem SlabInv.nextFreePage_listed (h : SlabInv a m slabs g) (hl : g.parts (k, c) ≠ [])
    (heq : Set.EqOn m' m (allocBytes a g next k c)ᶜ) : a.nextFreePage m' = a.nextFreePage m := by
  apply Arena.nextFreePage_of_eqOn
  refine fun z hz => heq ?_
  unfold allocBytes
  rw [if_neg hl]
  exact fun hz' => h.listBytes_arenaMeta _ hz' hz

/-- Serving a slot does not move the page counter back. -/
theorem Served.next_le [DecidableEq ι] {slabs' : ι → SlabAllocator} (h : SlabInv a m slabs g)
    (hs : Served a g (a.nextFreePage m) k c o g' i j) (hinv : SlabInv a m' slabs' g')
    (heq : Set.EqOn m' m (allocBytes a g (a.nextFreePage m) k c)ᶜ) : a.nextFreePage m ≤ a.nextFreePage m' := by
  cases hs with
  | listed hc hfree hl => exact Nat.le_of_eq (h.nextFreePage_listed (by rw [hl]; exact List.cons_ne_nil _ _) heq).symm
  | fresh hl hlt =>
    -- the page just issued is a slab page of the new view
    have hcls : ((g.addPage a k c o (a.nextFreePage m)).take k c (a.nextFreePage m)).cls (a.nextFreePage m) =
        some c := Function.update_self ..
    exact Nat.le_of_lt (hinv.range _ c hcls).2

/-! ## The calls -/

theorem deref_metaPtr (ha : a.Ok) : deref (a.metaPtr i) = .ok () :=
  deref_of_ne (Arena.metaPtr_ne_zero ha)

namespace SlabInv

/-- **`alloc_needs_page`** tells whether the list of the class is empty. -/
theorem allocNeedsPage_spec (h : SlabInv a m slabs g) (hc : c < numSizeClasses) (k : ι) :
    (slabs k).allocNeedsPage c = .ok (decide (g.parts (k, c) = [])) := by
  unfold SlabAllocator.allocNeedsPage
  rw [checkIndex_of_lt hc]
  cases hl : g.parts (k, c) with
  | nil =>
    rw [h.partialPages_nil hl]
    rfl
  | cons p rest =>
    have hp : p ≠ 0 := h.lists.ne_nul (k := (k, c)) (by rw [hl]; exact List.mem_cons_self)
    rw [h.partialPages_cons hl]
    simp [hp]

/-- **`alloc_no_arena`**, when a page is listed. -/
theorem allocNoArena_spec [DecidableEq ι] (h : SlabInv a m slabs g) (hc : c < numSizeClasses) (k : ι) (o : Nat)
    (hl : g.parts (k, c) ≠ []) :
    ∃ s' m' g' i j, (slabs k).allocNoArena m c = .ok (s', m', a.slotAddr i c j) ∧
      Served a g (a.nextFreePage m) k c o g' i j ∧ SlabInv a m' (Function.update slabs k s') g' ∧
      Set.EqOn m' m (allocBytes a g (a.nextFreePage m) k c)ᶜ := by
  obtain ⟨p, rest, hlist⟩ := List.exists_cons_of_ne_nil hl
  obtain ⟨i, j, l, rfl, hci, hfree, _⟩ := h.head_page hlist
  obtain ⟨s', m', hrun, hinv, heq⟩ := h.takeSlot_spec hci hfree hlist
  refine ⟨s', m', _, i, j, ?_, .listed hci hfree hlist, hinv, ?_⟩
  · unfold SlabAllocator.allocNoArena
    rw [checkIndex_of_lt hc, h.partialPages_cons hlist]
    simp only [Exec.bind_ok, deref_metaPtr h.arena, (h.slabPage hci).pageAddr]
    exact hrun
  · unfold allocBytes
    rw [if_neg hl]
    exact heq

/-- **`alloc` from a new page**: its first slot. Of `ArenaMeta` only what `alloc_page` writes changes. -/
theorem allocFresh_spec [DecidableEq ι] (h : SlabInv a m slabs g) (hc : c < numSizeClasses) (ho : o < 2 ^ 16)
    (hl : g.parts (k, c) = []) (hi : a.nextFreePage m = i) (hlt : i < pagesPerArena) :
    ∃ s' m', (slabs k).alloc m c a o = .ok (s', m', a.slotAddr i c 0) ∧
      SlabInv a m' (Function.update slabs k s') ((g.addPage a k c o i).take k c i) ∧
      Set.EqOn m' m (allocBytes a g i k c)ᶜ ∧ Set.EqOn m' (a.allocPage m).1 a.arenaMetaBytes := by
  have hp := h.partialPages_nil hl
  rcases Arena.allocPage_spec a m with ⟨hfull, _⟩ | ⟨m₁, _, hpage, hnext, heq₁⟩
  · omega
  rw [hi] at hpage hnext
  obtain ⟨m₂, s₂, m₃, hinit, hpush, hinv, heq₃, hhead₃⟩ := h.addPage hi hlt hc ho k hnext heq₁
  have hcls : (g.addPage a k c o i).cls i = some c := Function.update_self ..
  have hpos := (slots_of_lt hc).count_ge
  have hfree : (g.addPage a k c o i).free i = 0 :: List.range' 1 (slots c - 1) := by
    refine (Function.update_self ..).trans ?_
    rw [List.range_eq_range', show slots c = slots c - 1 + 1 by omega, List.range'_succ]
    rfl
  have hparts : (g.addPage a k c o i).parts (k, c) = [a.metaPtr i] := by
    refine (Function.update_self ..).trans ?_
    rw [hl]
  obtain ⟨s', m', hrun, hinv', heq'⟩ := hinv.takeSlot_spec hcls hfree hparts
  rw [Function.update_self] at hrun
  rw [Function.update_idem] at hinv'
  refine ⟨s', m', ?_, hinv', ?_, fun z hz => ?_⟩
  · unfold SlabAllocator.alloc
    rw [checkIndex_of_lt hc]
    simp only [hp, if_true, hpage, Exec.bind_ok, hinit, hpush, Arena.metaIndex_metaPtr h.arena hlt]
    exact hrun
  · unfold allocBytes
    rw [if_pos hl]
    intro z hz
    have hz' : z ∉ listBytes [a.metaPtr i] := by
      rintro ⟨p, hmem, hz'⟩
      rw [List.mem_singleton] at hmem
      exact hz (.inr (hmem ▸ hz'))
    rw [hparts] at heq'
    rw [hl] at heq₃
    rw [heq' hz', heq₃]
    rintro (hz'' | hz'')
    · exact hz (.inl hz'')
    · exact hz' hz''
  · rw [heq' fun hz' => hinv.listBytes_arenaMeta _ hz' hz, hhead₃ hz, hpage]

/-- **`alloc`** serves a slot, or returns null when no page is listed and the arena has none left. -/
theorem alloc_spec [DecidableEq ι] (h : SlabInv a m slabs g) (hc : c < numSizeClasses) (ho : o < 2 ^ 16) (k : ι) :
    (g.parts (k, c) = [] ∧ pagesPerArena ≤ a.nextFreePage m ∧
      (slabs k).alloc m c a o = .ok (slabs k, m, 0)) ∨
    ∃ s' m' g' i j, (slabs k).alloc m c a o = .ok (s', m', a.slotAddr i c j) ∧
      (a.nextFreePage m < pagesPerArena ∨ g.parts (k, c) ≠ []) ∧
      Served a g (a.nextFreePage m) k c o g' i j ∧ SlabInv a m' (Function.update slabs k s') g' ∧
      Set.EqOn m' m (allocBytes a g (a.nextFreePage m) k c)ᶜ := by
  by_cases hl : g.parts (k, c) = []
  · rcases Arena.allocPage_spec a m with ⟨hfull, hpage⟩ | ⟨_, hlt, _⟩
    · refine .inl ⟨hl, hfull, ?_⟩
      unfold SlabAllocator.alloc
      rw [checkIndex_of_lt hc]
      simp only [h.partialPages_nil hl, if_true, hpage]
      rfl
    · right
      obtain ⟨s', m', hrun, hinv, heq, _⟩ := h.allocFresh_spec hc ho hl rfl hlt
      exact ⟨s', m', _, _, 0, hrun, .inl hlt, .fresh hl hlt, hinv, heq⟩
  · right
    obtain ⟨p, rest, hlist⟩ := List.exists_cons_of_ne_nil hl
    obtain ⟨i, j, l, rfl, hci, hfree, _⟩ := h.head_page hlist
    obtain ⟨s', m', hrun, hinv, heq⟩ := h.takeSlot_spec hci hfree hlist
    refine ⟨s', m', _, i, j, ?_, .inr hl, .listed hci hfree hlist, hinv, ?_⟩
    · unfold SlabAllocator.alloc
      rw [checkIndex_of_lt hc, h.partialPages_cons hlist]
      simp only [Exec.bind_ok, if_neg (Arena.metaPtr_ne_zero h.arena),
        Arena.metaIndex_metaPtr h.arena (h.index_lt hci)]
      exact hrun
    · unfold allocBytes
      rw [if_neg hl]
      exact heq

/-- The bytes a free of slot `j` of page `i` through slab `k` may change. -/
def freeBytes (a : Arena) (g : Ghost ι) (k : ι) (i c j : Nat) : Set Nat :=
  listBytes (a.metaPtr i :: if g.free i = [] then g.parts (k, c) else []) ∪ linkSpan a i c j

/-- **`free_no_arena`** of a used slot, with the page's own record. -/
theorem freeNoArena_spec [DecidableEq ι] (h : SlabInv a m slabs g) (hu : g.Used i c j) (k : ι) :
    ∃ s' m', (slabs k).freeNoArena m (a.slotAddr i c j) (a.metaPtr i) = .ok (s', m') ∧
      SlabInv a m' (Function.update slabs k s') (g.put a k c i j) ∧
      Set.EqOn m' m (freeBytes a g k i c j)ᶜ := by
  obtain ⟨s', m', hrun, hinv, heq⟩ := h.putSlot_spec hu.1 hu.2.1 hu.2.2 k
  refine ⟨s', m', ?_, hinv, heq⟩
  unfold SlabAllocator.freeNoArena
  rw [(h.slabPage hu.1).pageAddr]
  exact hrun

/-- **`free`** of a used slot finds its page and does the same. -/
theorem free_spec (h : SlabInv a m slabs g) (hu : g.Used i c j) (k : ι) :
    (slabs k).free m (a.slotAddr i c j) a =
      (slabs k).freeNoArena m (a.slotAddr i c j) (a.metaPtr i) := by
  unfold SlabAllocator.free SlabAllocator.freeNoArena
  simp only [h.ptrToPageIndex_slot hu, if_neg (h.index_ne_zero hu.1), if_neg (h.sizeClass_ne hu.1),
    (h.slabPage hu.1).pageAddr]

/-- A free does not touch the page counter. -/
theorem freeBytes_arenaMeta (h : SlabInv a m slabs g) (hu : g.Used i c j) {z : Nat}
    (hz : z ∈ freeBytes a g k i c j) : z ∉ a.arenaMetaBytes := by
  rcases hz with hz | hz
  · exact listBytes_not_header (h.put_node (h.index_lt hu.1) (k, c)) hz
  · intro hz'
    have hp := linkSpan_in_page (h.used_lt hu) hu.2.1 hz
    exact pageBytes_not_meta (h.range i c hu.1).1 hp (Arena.arenaMetaBytes_subset hz')

theorem freeBytes_not_used (h : SlabInv a m slabs g) (hu : g.Used i c j) (hu' : g.Used i' c' j')
    (hne : ¬ (i' = i ∧ j' = j)) {z : Nat} (hz : z ∈ slotBytes a i' c' j') :
    z ∉ freeBytes a g k i c j := by
  have hmeta := h.meta_not_used hu' hz
  rintro (hz' | hz')
  · exact hmeta (listBytes_metaRegion (h.put_node (h.index_lt hu.1) (k, c)) hz')
  · have hz'' := linkSpan_subset_slotBytes (h.used_lt hu) hz'
    obtain ⟨h1, _, h2⟩ := h.used_unique hu' hu hz hz''
    exact hne ⟨h1, h2⟩

end SlabInv

end FerrumAlloc
