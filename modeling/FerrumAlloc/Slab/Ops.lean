/-
# FerrumAlloc.Slab.Ops -- what the slab operations do

Every operation changes the slot list of one page and, when that page turns full or stops being full,
one page list. `SlabInv.updatePage` states this once: it rebuilds the invariant from the new state of
the page and of the lists. `takeSlot_spec`, `putSlot_spec` and `initPage_spec` supply these, and the
functions of the source follow.
-/
import FerrumAlloc.Slab.PageList

namespace FerrumAlloc

open Lib

variable {ι : Type} {a : Arena} {m m' m'' : Mem} {slabs : ι → SlabAllocator} {g : Ghost ι}
  {i i' j c o v w : Nat} {k : ι} {l : List Nat}

/-! ## Footprints -/

theorem linkSpan_not_meta (hlo : metaPages ≤ i) (hc : c < numSizeClasses) (hj : j < slots c) {z : Nat}
    (hz : z ∈ linkSpan a i c j) : z ∉ a.metaRegion :=
  pageBytes_not_meta hlo (linkSpan_in_page hc hj hz)

/-- A write inside the metadata changes no slot link. -/
theorem slotLink_of_metaWrite (hm : Set.EqOn m' m a.metaRegionᶜ) (hlo : metaPages ≤ i)
    (hc : c < numSizeClasses) (hj : j < slots c) : slotLink a m' i c j = slotLink a m i c j :=
  slotLink_eqOn (hm.mono fun _ hz => linkSpan_not_meta hlo hc hj hz)

theorem nextFreePage_of_metaBytes (hm : Set.EqOn m' m (a.arenaMetaBytes)) :
    a.nextFreePage m' = a.nextFreePage m := Arena.nextFreePage_of_eqOn hm

/-- Page records lie in the metadata, behind the header of the arena. -/
theorem listBytes_metaRegion (hl : ∀ p ∈ l, ∃ i < pagesPerArena, p = a.metaPtr i) :
    listBytes l ⊆ a.metaRegion := by
  rintro z ⟨p, hp, hz⟩
  obtain ⟨i, hi, rfl⟩ := hl p hp
  exact Arena.metaBytes_subset hi hz

theorem listBytes_not_header (hl : ∀ p ∈ l, ∃ i < pagesPerArena, p = a.metaPtr i) {z : Nat}
    (hz : z ∈ listBytes l) : z ∉ a.arenaMetaBytes := by
  obtain ⟨p, hp, hz⟩ := hz
  obtain ⟨i, _, rfl⟩ := hl p hp
  exact Arena.metaBytes_subset_compl hz

namespace SlabInv

theorem node (h : SlabInv a m slabs g) :
    ∀ key, ∀ p ∈ g.parts key, ∃ i < pagesPerArena, p = a.metaPtr i := by
  intro key p hp
  obtain ⟨i, rfl, hc, _⟩ := (h.mem key.1 key.2 p).mp hp
  exact ⟨i, h.index_lt hc, rfl⟩

/-- The records written when page `i` goes to the head of a list, and when it goes nowhere. -/
theorem cons_node (h : SlabInv a m slabs g) (hi : i < pagesPerArena) (key : ι × Nat) :
    ∀ p ∈ a.metaPtr i :: g.parts key, ∃ i < pagesPerArena, p = a.metaPtr i :=
  List.forall_mem_cons.mpr ⟨⟨i, hi, rfl⟩, h.node key⟩

theorem put_node (h : SlabInv a m slabs g) (hi : i < pagesPerArena) (key : ι × Nat) :
    ∀ p ∈ a.metaPtr i :: if g.free i = [] then g.parts key else [], ∃ i < pagesPerArena, p = a.metaPtr i := by
  split
  · exact h.cons_node hi key
  · exact List.forall_mem_singleton.mpr ⟨i, hi, rfl⟩

theorem listBytes_subset (h : SlabInv a m slabs g) (key : ι × Nat) : listBytes (g.parts key) ⊆ a.metaRegion :=
  listBytes_metaRegion (h.node key)

theorem listBytes_arenaMeta (h : SlabInv a m slabs g) (key : ι × Nat) {z : Nat}
    (hz : z ∈ listBytes (g.parts key)) : z ∉ a.arenaMetaBytes :=
  listBytes_not_header (h.node key) hz

/-- A page outside all lists. -/
theorem not_mem_parts (h : SlabInv a m slabs g) (hi : g.cls i = none ∨ g.free i = []) :
    ∀ key, a.metaPtr i ∉ g.parts key := by
  intro key hp
  obtain ⟨i', heq, hc, hne, _⟩ := (h.mem key.1 key.2 _).mp hp
  obtain rfl := Arena.metaPtr_inj heq
  rcases hi with hi | hi
  · rw [hi] at hc
    exact Option.some_ne_none _ hc.symm
  · exact hne hi

/-- A page with a free slot is listed. -/
theorem mem_parts (h : SlabInv a m slabs g) (hc : g.cls i = some c) (hne : g.free i ≠ []) :
    a.metaPtr i ∈ g.parts (g.home i, c) := (h.mem _ _ _).mpr ⟨i, rfl, hc, hne, rfl⟩

/-- The head of a page list is a page of its class with a free slot. -/
theorem head_page (h : SlabInv a m slabs g) {p : Nat} {rest : List Nat}
    (hl : g.parts (k, c) = p :: rest) :
    ∃ i j l, p = a.metaPtr i ∧ g.cls i = some c ∧ g.free i = j :: l ∧ g.home i = k := by
  obtain ⟨i, hp, hc, hne, hk⟩ := (h.mem k c p).mp (by rw [hl]; exact List.mem_cons_self)
  obtain ⟨j, l, hfree⟩ := List.exists_cons_of_ne_nil hne
  exact ⟨i, j, l, hp, hc, hfree, hk⟩

/-- The page lists do not see the slot fields of a record. -/
theorem lists_setSlots (h : SlabInv a m slabs g) {i v w : Nat}
    (hrec : ∀ i' < pagesPerArena, readMeta m' (a.metaPtr i') = if i' = i then
      { readMeta m (a.metaPtr i') with freeListHead := v, usedSlots := w }
      else readMeta m (a.metaPtr i')) : DLists (nextOf m') (prevOf m') 0 (heads slabs) g.parts := by
  refine h.lists.congr (fun key p hp => ?_) fun key p hp => ?_
  · obtain ⟨i', hi', rfl⟩ := h.node key p hp
    unfold nextOf
    rw [hrec i' hi', PageMeta.nextPage_ite_slots]
  · obtain ⟨i', hi', rfl⟩ := h.node key p hp
    unfold prevOf
    rw [hrec i' hi', PageMeta.prevPage_ite_slots]

/-- **One page changed.** The invariant of the new state, from the page, the lists and a frame. -/
theorem updatePage [DecidableEq ι] (h : SlabInv a m slabs g) {slabs' : ι → SlabAllocator}
    {g' : Ghost ι} (hc : g.cls i = some c) (hcls : g'.cls = g.cls) (howner : g'.owner = g.owner)
    (hfree : g'.free = Function.update g.free i l)
    (hpage : SlabPage a m' i c (g.owner i) l)
    (hnext : Set.EqOn m' m a.arenaMetaBytes)
    (hcore : ∀ i' < pagesPerArena, i' ≠ i →
      (readMeta m' (a.metaPtr i')).core = (readMeta m (a.metaPtr i')).core)
    (hpages : ∀ i', metaPages ≤ i' → i' ≠ i → Set.EqOn m' m (a.pageBytes i'))
    (hlists : DLists (nextOf m') (prevOf m') 0 (heads slabs') g'.parts)
    (hmem : ∀ k' c' p, p ∈ g'.parts (k', c') ↔
      ∃ i', p = a.metaPtr i' ∧ g.cls i' = some c' ∧ g'.free i' ≠ [] ∧ g'.home i' = k') :
    SlabInv a m' slabs' g' := by
  have hnext' := nextFreePage_of_metaBytes hnext
  refine ⟨h.arena, by rw [hnext']; exact h.next_ge, by rw [hnext']; exact h.next_le, fun i' hi' => ?_,
    fun i' c' hc' => ?_, hlists, fun k' c' p => ?_⟩
  · rw [hcls, howner, hfree]
    by_cases hii : i' = i
    · subst hii
      rw [Function.update_self, hc]
      exact hpage
    · rw [Function.update_of_ne hii]
      refine (h.page i' hi').frame (hcore i' hi' hii) fun c' hc' j hj => ?_
      have hsp := h.slabPage hc'
      have hlo := (h.range i' c' hc').1
      exact slotLink_eqOn ((hpages i' hlo hii).mono (linkSpan_in_page hsp.cls_lt (hsp.lt j hj)))
  · rw [hcls] at hc'
    rw [hnext']
    exact h.range i' c' hc'
  · rw [hcls]
    exact hmem k' c' p

end SlabInv

/-! ## The slot list of a page -/

/-- The two fields of a record that describe its free list. -/
theorem readMeta_setSlots (hv : v < 2 ^ 16) (i : Nat) :
    readMeta (setUsedSlots (setFreeListHead m (a.metaPtr j) v) (a.metaPtr j) w) (a.metaPtr i) =
      if i = j then { readMeta m (a.metaPtr i) with freeListHead := v, usedSlots := w % 2 ^ 16 }
      else readMeta m (a.metaPtr i) := by
  rw [Arena.readMeta_update (f := fun pm => { pm with usedSlots := w % 2 ^ 16 }) setUsedSlots_eqOn
      readMeta_setUsedSlots_mod,
    Arena.readMeta_update (f := fun pm => { pm with freeListHead := v }) setFreeListHead_eqOn
      (readMeta_setFreeListHead hv)]
  by_cases hij : i = j
  · simp only [if_pos hij]
  · simp only [if_neg hij]

theorem setSlots_eqOn {p : Nat} :
    Set.EqOn (setUsedSlots (setFreeListHead m p v) p w) m (metaBytes p)ᶜ :=
  setUsedSlots_eqOn.trans setFreeListHead_eqOn

namespace SlabPage

/-- The counters of a slab page are small. -/
theorem used_le (h : SlabPage a m i c o l) : (readMeta m (a.metaPtr i)).usedSlots ≤ 512 := by
  have h1 := h.used
  have h2 := (slots_of_lt h.cls_lt).count_le
  omega

/-- A page counts as full exactly when its free list is empty. -/
theorem full_iff (h : SlabPage a m i c o l) : (readMeta m (a.metaPtr i)).usedSlots = slots c ↔ l = [] := by
  have hcount := h.used
  rw [← List.length_eq_zero_iff]
  omega

theorem ne_nullSlot (hc : c < numSizeClasses) (hj : j < slots c) : j ≠ nullSlot := by
  have h2 := (slots_of_lt hc).count_le
  unfold nullSlot
  omega

/-- A free list that misses a slot is not full. -/
theorem length_lt (h : SlabPage a m i c o l) (hj : j < slots c) (hnot : j ∉ l) :
    l.length < slots c := by
  have hnd : (j :: l).Nodup := List.nodup_cons.mpr ⟨hnot, h.nodup⟩
  have hsub : (j :: l) ⊆ List.range (slots c) := by
    intro x hx
    rw [List.mem_range]
    rcases List.mem_cons.mp hx with rfl | hx
    · exact hj
    · exact h.lt x hx
  have hlen := (hnd.subperm hsub).length_le
  rw [List.length_range, List.length_cons] at hlen
  exact hlen

/-- The record after the first slot of the page is taken. -/
theorem take (h : SlabPage a m i c o (j :: l)) (hlo : metaPages ≤ i)
    (hm : Set.EqOn m' m a.metaRegionᶜ)
    (hrec : (readMeta m' (a.metaPtr i)).core = { readMeta m (a.metaPtr i) with
      freeListHead := slotLink a m i c j
      usedSlots := ((readMeta m (a.metaPtr i)).usedSlots + 1) % 2 ^ 16 }.core) :
    SlabPage a m' i c o l := by
  obtain ⟨_, _, hchain⟩ := h.chain
  have hfield : ∀ {α : Type} (f : PageMeta → α), f (readMeta m' (a.metaPtr i)).core = _ :=
    fun f => congrArg f hrec
  have hhead : (readMeta m' (a.metaPtr i)).freeListHead = slotLink a m i c j :=
    hfield PageMeta.freeListHead
  have hlt : ∀ x ∈ l, x < slots c := fun x hx => h.lt x (List.mem_cons_of_mem _ hx)
  refine ⟨h.cls_lt, (hfield PageMeta.sizeClass).trans h.sizeClass,
    (hfield PageMeta.ownerId).trans h.ownerId, (hfield PageMeta.pageAddr).trans h.pageAddr, ?_,
    (List.nodup_cons.mp h.nodup).2, hlt, ?_⟩
  · rw [hhead]
    exact hchain.congr fun x hx => slotLink_of_metaWrite hm hlo h.cls_lt (hlt x hx)
  · have hused : (readMeta m' (a.metaPtr i)).usedSlots =
        ((readMeta m (a.metaPtr i)).usedSlots + 1) % 2 ^ 16 := hfield PageMeta.usedSlots
    have h1 := h.used
    have h2 := h.used_le
    rw [List.length_cons] at h1
    rw [hused, Nat.mod_eq_of_lt (by omega)]
    omega

/-- The record after slot `j` is put back. -/
theorem put (h : SlabPage a m i c o l) (hlo : metaPages ≤ i) (hj : j < slots c) (hnot : j ∉ l)
    (hm : Set.EqOn m' m (a.metaRegion ∪ linkSpan a i c j)ᶜ)
    (hlink : slotLink a m' i c j = (readMeta m (a.metaPtr i)).freeListHead)
    (hrec : (readMeta m' (a.metaPtr i)).core = { readMeta m (a.metaPtr i) with
      freeListHead := j
      usedSlots := ((readMeta m (a.metaPtr i)).usedSlots + (2 ^ 16 - 1)) % 2 ^ 16 }.core) :
    SlabPage a m' i c o (j :: l) := by
  have hfield : ∀ {α : Type} (f : PageMeta → α), f (readMeta m' (a.metaPtr i)).core = _ :=
    fun f => congrArg f hrec
  have hhead : (readMeta m' (a.metaPtr i)).freeListHead = j := hfield PageMeta.freeListHead
  have hlt : ∀ x ∈ j :: l, x < slots c := by
    intro x hx
    rcases List.mem_cons.mp hx with rfl | hx
    · exact hj
    · exact h.lt x hx
  refine ⟨h.cls_lt, (hfield PageMeta.sizeClass).trans h.sizeClass,
    (hfield PageMeta.ownerId).trans h.ownerId, (hfield PageMeta.pageAddr).trans h.pageAddr, ?_,
    List.nodup_cons.mpr ⟨hnot, h.nodup⟩, hlt, ?_⟩
  · rw [hhead]
    refine h.chain.push (ne_nullSlot h.cls_lt hj) hlink fun x hx => slotLink_eqOn (hm.mono ?_)
    intro z hz hz'
    rcases hz' with hz' | hz'
    · exact linkSpan_not_meta hlo h.cls_lt (h.lt x hx) hz hz'
    · exact linkSpan_disjoint h.cls_lt (fun heq : j = x => hnot (heq ▸ hx)) hz' hz
  · have hused : (readMeta m' (a.metaPtr i)).usedSlots =
        ((readMeta m (a.metaPtr i)).usedSlots + (2 ^ 16 - 1)) % 2 ^ 16 := hfield PageMeta.usedSlots
    have h1 := h.used
    have h2 := h.used_le
    have h3 := h.length_lt hj hnot
    have hsub : (readMeta m (a.metaPtr i)).usedSlots + (2 ^ 16 - 1) =
        (readMeta m (a.metaPtr i)).usedSlots - 1 + 2 ^ 16 := by omega
    rw [hused, hsub, Nat.add_mod_right, Nat.mod_eq_of_lt (by omega), List.length_cons]
    omega

end SlabPage

/-! ## Taking a slot -/

section

variable [DecidableEq ι]

/-- The page lists after a slot of page `i` is taken. -/
theorem SlabInv.mem_take (h : SlabInv a m slabs g) {rest : List Nat} (hfree : g.free i = j :: l)
    (hl : g.parts (k, c) = a.metaPtr i :: rest) (k' : ι) (c' p : Nat) :
    p ∈ (g.take k c i).parts (k', c') ↔ ∃ i', p = a.metaPtr i' ∧ g.cls i' = some c' ∧
      (g.take k c i).free i' ≠ [] ∧ (g.take k c i).home i' = k' := by
  have hfree' : ∀ i', (g.take k c i).free i' ≠ [] ↔ g.free i' ≠ [] ∧ (i' = i → l ≠ []) := by
    intro i'
    unfold Ghost.take
    by_cases hii : i' = i
    · subst hii
      simp [hfree]
    · simp [hii]
  unfold Ghost.take at hfree' ⊢
  by_cases hnil : l = []
  · have htail : (g.free i).tail = [] := by rw [hfree]; exact hnil
    simp only [if_pos htail, hl, List.tail_cons] at hfree' ⊢
    rw [h.lists.mem_pop hl, h.mem k' c' p]
    constructor
    · rintro ⟨⟨i', rfl, hc', hne, hk⟩, hpi⟩
      exact ⟨i', rfl, hc', (hfree' i').mpr ⟨hne, fun heq => absurd (congrArg a.metaPtr heq) hpi⟩, hk⟩
    · rintro ⟨i', rfl, hc', hne, hk⟩
      obtain ⟨hne, hii⟩ := (hfree' i').mp hne
      exact ⟨⟨i', rfl, hc', hne, hk⟩, fun heq => hii (Arena.metaPtr_inj heq) hnil⟩
  · have htail : (g.free i).tail ≠ [] := by rw [hfree]; exact hnil
    simp only [if_neg htail] at hfree' ⊢
    rw [h.mem k' c' p]
    constructor
    · rintro ⟨i', rfl, hc', hne, hk⟩
      exact ⟨i', rfl, hc', (hfree' i').mpr ⟨hne, fun _ => hnil⟩, hk⟩
    · rintro ⟨i', rfl, hc', hne, hk⟩
      exact ⟨i', rfl, hc', ((hfree' i').mp hne).1, hk⟩

/-- The page leaves its list when its last free slot goes. -/
theorem SlabInv.leave_spec (h : SlabInv a m slabs g) {rest : List Nat} {next : Nat} (hc : c < numSizeClasses)
    (hlists : DLists (nextOf m') (prevOf m') 0 (heads slabs) g.parts) (hl : g.parts (k, c) = a.metaPtr i :: rest)
    (hnext : next = nullSlot ↔ (g.free i).tail = []) :
    ∃ s' m'', (if next = nullSlot then (slabs k).removePartialPage m' c (a.metaPtr i)
        else .ok (slabs k, m')) = .ok (s', m'') ∧
      DLists (nextOf m'') (prevOf m'') 0 (heads (Function.update slabs k s')) (g.take k c i).parts ∧
      (∀ i', (readMeta m'' (a.metaPtr i')).core = (readMeta m' (a.metaPtr i')).core) ∧
      Set.EqOn m'' m' (listBytes (g.parts (k, c)))ᶜ := by
  unfold Ghost.take
  by_cases hnil : next = nullSlot
  · obtain ⟨s', m'', hrun, hrest⟩ := removePartialPage_spec h.arena hlists h.node hc hl
    refine ⟨s', m'', by rw [if_pos hnil]; exact hrun, ?_⟩
    simp only [if_pos (hnext.mp hnil), hl, List.tail_cons]
    rw [hl] at hrest
    exact hrest
  · refine ⟨slabs k, m', if_neg hnil, ?_, fun _ => rfl, Set.eqOn_refl _ _⟩
    simp only [if_neg fun htail => hnil (hnext.mpr htail), Function.update_eq_self]
    exact hlists

/-- **Taking the first slot** of the page at the head of a list. -/
theorem SlabInv.takeSlot_spec (h : SlabInv a m slabs g) {rest : List Nat} (hc : g.cls i = some c)
    (hfree : g.free i = j :: l) (hl : g.parts (k, c) = a.metaPtr i :: rest) :
    ∃ s' m', (slabs k).takeSlot m c (a.metaPtr i) (a.pageAddr i) = .ok (s', m', a.slotAddr i c j) ∧
      SlabInv a m' (Function.update slabs k s') (g.take k c i) ∧
      Set.EqOn m' m (listBytes (g.parts (k, c)))ᶜ := by
  have hp := h.slabPage hc
  rw [hfree] at hp
  have hlo := (h.range i c hc).1
  obtain ⟨hhead, _, hchain⟩ := hp.chain
  obtain ⟨next, hnext⟩ : ∃ x, x = slotLink a m i c j := ⟨_, rfl⟩
  rw [← hnext] at hchain
  have hnext16 : next < 2 ^ 16 := by
    rw [hnext]
    exact read16_lt _ _
  obtain ⟨m₁, hm₁⟩ : ∃ x, x = setUsedSlots (setFreeListHead m (a.metaPtr i) next) (a.metaPtr i)
    ((readMeta (setFreeListHead m (a.metaPtr i) next) (a.metaPtr i)).usedSlots + 1) := ⟨_, rfl⟩
  have hused : (readMeta (setFreeListHead m (a.metaPtr i) next) (a.metaPtr i)).usedSlots =
      (readMeta m (a.metaPtr i)).usedSlots := by rw [readMeta_setFreeListHead hnext16]
  rw [hused] at hm₁
  have hrec₁ : ∀ i', readMeta m₁ (a.metaPtr i') = if i' = i then { readMeta m (a.metaPtr i') with
      freeListHead := next
      usedSlots := ((readMeta m (a.metaPtr i)).usedSlots + 1) % 2 ^ 16 }
      else readMeta m (a.metaPtr i') := by
    intro i'
    rw [hm₁, readMeta_setSlots hnext16]
  have hself := hrec₁ i
  rw [if_pos rfl] at hself
  have heq₁ : Set.EqOn m₁ m (metaBytes (a.metaPtr i))ᶜ := by
    rw [hm₁]
    exact setSlots_eqOn
  have hlists₁ := h.lists_setSlots fun i' _ => hrec₁ i'
  have hmemhead : a.metaPtr i ∈ g.parts (k, c) := by
    rw [hl]
    exact List.mem_cons_self
  have hpage : ∀ m', Set.EqOn m' m₁ (listBytes (g.parts (k, c)))ᶜ →
      (readMeta m' (a.metaPtr i)).core = (readMeta m₁ (a.metaPtr i)).core →
      SlabPage a m' i c (g.owner i) l := by
    intro m' heq hcore
    refine hp.take hlo (fun z hz => ?_) ?_
    · rw [heq fun hz' => hz (h.listBytes_subset _ hz')]
      exact heq₁ fun hz' => hz (Arena.metaBytes_subset (h.index_lt hc) hz')
    · rw [hcore, hself, hnext]
  have hlast : next = nullSlot ↔ (g.free i).tail = [] := by
    rw [hfree]
    exact hchain.eq_nil_iff.symm
  obtain ⟨s', m', hrun, hlists', hcore', heq'⟩ := h.leave_spec hp.cls_lt hlists₁ hl hlast
  have heq : Set.EqOn m' m (listBytes (g.parts (k, c)))ᶜ := by
    intro z hz
    rw [heq' hz]
    exact heq₁ fun hz' => hz ⟨_, hmemhead, hz'⟩
  have hmeta : Set.EqOn m' m a.metaRegionᶜ := eqOn_compl_mono heq (h.listBytes_subset _)
  refine ⟨s', m', ?_, ?_, heq⟩
  · unfold SlabAllocator.takeSlot
    rw [classToSize_of_lt hp.cls_lt, hhead]
    simp only [Exec.bind_ok]
    have hhead₁ : (readMeta m₁ (a.metaPtr i)).freeListHead = next := by rw [hself]
    rw [show read16 m (a.pageAddr i + j * slotSize c) = next from hnext.symm, hused, ← hm₁, hhead₁]
    by_cases hnil : next = nullSlot
    · rw [if_pos hnil] at hrun ⊢
      rw [hrun]
      rfl
    · rw [if_neg hnil] at hrun ⊢
      obtain ⟨rfl, rfl⟩ := Prod.mk.inj (Except.ok.inj hrun)
      rfl
  · refine h.updatePage hc rfl rfl ?_ (hpage m' heq' (hcore' i)) ?_ ?_ ?_ hlists' (h.mem_take hfree hl)
    · unfold Ghost.take
      rw [hfree, List.tail_cons]
    · exact heq.mono fun z hz hz' => h.listBytes_arenaMeta _ hz' hz
    · intro i' _ hii
      rw [hcore' i', hrec₁ i', if_neg hii]
    · intro i' hlo' _
      exact hmeta.mono fun z hz => pageBytes_not_meta hlo' hz

/-! ## Putting a slot back -/

/-- The page lists after a slot of page `i` is put back. -/
theorem SlabInv.mem_put (h : SlabInv a m slabs g) (hc : g.cls i = some c) (k k' : ι) (j c' p : Nat) :
    p ∈ (g.put a k c i j).parts (k', c') ↔ ∃ i', p = a.metaPtr i' ∧ g.cls i' = some c' ∧
      (g.put a k c i j).free i' ≠ [] ∧ (g.put a k c i j).home i' = k' := by
  unfold Ghost.put
  by_cases hfull : g.free i = []
  · simp only [if_pos hfull]
    rw [DLists.mem_push, h.mem k' c' p]
    constructor
    · rintro (⟨i', rfl, hc', hne, hk⟩ | ⟨rfl, heq⟩)
      · have hii : i' ≠ i := by
          rintro rfl
          exact hne hfull
        refine ⟨i', rfl, hc', ?_, ?_⟩
        · rwa [Function.update_of_ne hii]
        · rwa [Function.update_of_ne hii]
      · obtain ⟨rfl, rfl⟩ := Prod.mk.inj heq
        refine ⟨i, rfl, hc, ?_, ?_⟩
        · rw [Function.update_self]
          exact List.cons_ne_nil _ _
        · rw [Function.update_self]
    · rintro ⟨i', rfl, hc', hne, hk⟩
      by_cases hii : i' = i
      · right
        subst hii
        rw [Function.update_self] at hk
        rw [hc] at hc'
        exact ⟨rfl, Prod.ext hk.symm (Option.some.inj hc').symm⟩
      · left
        rw [Function.update_of_ne hii] at hne hk
        exact ⟨i', rfl, hc', hne, hk⟩
  · simp only [if_neg hfull]
    have hfree' : ∀ i', Function.update g.free i (j :: g.free i) i' ≠ [] ↔ g.free i' ≠ [] := by
      intro i'
      by_cases hii : i' = i
      · subst hii
        simp [hfull]
      · rw [Function.update_of_ne hii]
    simp only [hfree']
    exact h.mem k' c' p

/-- A page that was full goes to the list of slab `k`. -/
theorem SlabInv.join_spec (h : SlabInv a m slabs g) {head : Nat} (hi : i < pagesPerArena) (hc : c < numSizeClasses)
    (hlists : DLists (nextOf m') (prevOf m') 0 (heads slabs) g.parts)
    (hhead : head = nullSlot ↔ g.free i = []) (k : ι) (j : Nat) :
    ∃ s' m'', (if head == nullSlot then (slabs k).pushPartialPage m' c (a.metaPtr i)
        else .ok (slabs k, m')) = .ok (s', m'') ∧
      DLists (nextOf m'') (prevOf m'') 0 (heads (Function.update slabs k s')) (g.put a k c i j).parts ∧
      (∀ i', (readMeta m'' (a.metaPtr i')).core = (readMeta m' (a.metaPtr i')).core) ∧
      Set.EqOn m'' m' (listBytes (a.metaPtr i :: if g.free i = [] then g.parts (k, c) else []))ᶜ := by
  unfold Ghost.put
  by_cases hfull : g.free i = []
  · have hbeq : (head == nullSlot) = true := by
      rw [hhead.mpr hfull]
      rfl
    obtain ⟨m'', hrun, hrest⟩ := pushPartialPage_spec h.arena hlists h.node hi
      (h.not_mem_parts (.inr hfull)) hc k
    refine ⟨_, m'', by rw [if_pos hbeq]; exact hrun, ?_⟩
    simp only [if_pos hfull]
    exact hrest
  · have hbeq : ¬ (head == nullSlot) = true := fun heq => hfull (hhead.mp (eq_of_beq heq))
    refine ⟨slabs k, m', if_neg hbeq, ?_, fun _ => rfl, Set.eqOn_refl _ _⟩
    simp only [if_neg hfull, Function.update_eq_self]
    exact hlists

/-- **Putting a slot back** on the free list of its page, through any slab of the family. -/
theorem SlabInv.putSlot_spec (h : SlabInv a m slabs g) (hc : g.cls i = some c) (hj : j < slots c)
    (hnot : j ∉ g.free i) (k : ι) :
    ∃ s' m', (slabs k).putSlot m (a.slotAddr i c j) (a.metaPtr i) (a.pageAddr i) = .ok (s', m') ∧
      SlabInv a m' (Function.update slabs k s') (g.put a k c i j) ∧
      Set.EqOn m' m (listBytes (a.metaPtr i :: if g.free i = [] then g.parts (k, c) else []) ∪
        linkSpan a i c j)ᶜ := by
  have hp := h.slabPage hc
  have hi := h.index_lt hc
  have hlo := (h.range i c hc).1
  obtain ⟨head, hhead⟩ : ∃ x, x = (readMeta m (a.metaPtr i)).freeListHead := ⟨_, rfl⟩
  obtain ⟨used, hused⟩ : ∃ x, x = (readMeta m (a.metaPtr i)).usedSlots := ⟨_, rfl⟩
  have hj16 : j < 2 ^ 16 := by
    have := (slots_of_lt hp.cls_lt).count_le
    omega
  -- the link is written into the slot, then the record is updated
  obtain ⟨m₁, hm₁⟩ : ∃ x, x = write16 m (a.slotAddr i c j) head := ⟨_, rfl⟩
  have heq₁ : Set.EqOn m₁ m (linkSpan a i c j)ᶜ := by
    rw [hm₁]
    exact write16_eqOn _ _ _
  have hmeta₁ : Set.EqOn m₁ m a.metaRegion := heq₁.mono fun z hz hz' =>
    linkSpan_not_meta hlo hp.cls_lt hj hz' hz
  have hsame₁ : ∀ i' < pagesPerArena, readMeta m₁ (a.metaPtr i') = readMeta m (a.metaPtr i') :=
    fun i' hi' => readMeta_eqOn (hmeta₁.mono (Arena.metaBytes_subset hi'))
  obtain ⟨m₂, hm₂⟩ : ∃ x, x = setUsedSlots (setFreeListHead m₁ (a.metaPtr i) j) (a.metaPtr i)
    (used + (2 ^ 16 - 1)) := ⟨_, rfl⟩
  have hrec₂ : ∀ i' < pagesPerArena, readMeta m₂ (a.metaPtr i') = if i' = i then
      { readMeta m (a.metaPtr i') with
        freeListHead := j
        usedSlots := (used + (2 ^ 16 - 1)) % 2 ^ 16 }
      else readMeta m (a.metaPtr i') := by
    intro i' hi'
    rw [hm₂, readMeta_setSlots hj16, hsame₁ i' hi']
  have heq₂ : Set.EqOn m₂ m₁ (metaBytes (a.metaPtr i))ᶜ := by
    rw [hm₂]
    exact setSlots_eqOn
  have hlists₂ := h.lists_setSlots hrec₂
  have hnull : head = nullSlot ↔ g.free i = [] := by
    rw [hhead]
    exact hp.chain.eq_nil_iff.symm
  obtain ⟨s', m', hrun, hlists', hcore', heq'⟩ := h.join_spec hi hp.cls_lt hlists₂ hnull k j
  have hsub := listBytes_metaRegion (h.put_node hi (k, c))
  have heq : Set.EqOn m' m (listBytes (a.metaPtr i :: if g.free i = [] then g.parts (k, c) else []) ∪
      linkSpan a i c j)ᶜ := by
    intro z hz
    rw [heq' fun hz' => hz (.inl hz'), heq₂ fun hz' => hz (.inl ⟨_, List.mem_cons_self, hz'⟩)]
    exact heq₁ fun hz' => hz (.inr hz')
  have hmeta : Set.EqOn m' m (a.metaRegion ∪ linkSpan a i c j)ᶜ :=
    eqOn_compl_mono heq (Set.union_subset_union_left _ hsub)
  have hlink : slotLink a m' i c j = head := by
    have hkeep : slotLink a m' i c j = slotLink a m₁ i c j := by
      apply slotLink_eqOn
      intro z hz
      have hz' := linkSpan_not_meta hlo hp.cls_lt hj hz
      rw [heq' fun hz'' => hz' (hsub hz''), heq₂ fun hz'' => hz' (Arena.metaBytes_subset hi hz'')]
    rw [hkeep, hm₁]
    apply read16_write16_same
    rw [hhead]
    exact readLE_lt _ 2 _
  have hself := hrec₂ i hi
  rw [if_pos rfl] at hself
  refine ⟨s', m', ?_, ?_, heq⟩
  · have hused₁ : (readMeta (setFreeListHead m₁ (a.metaPtr i) j) (a.metaPtr i)).usedSlots = used := by
      rw [readMeta_setFreeListHead hj16, hsame₁ i hi, hused]
    unfold SlabAllocator.putSlot
    simp only [hp.sizeClass, classToSize_of_lt hp.cls_lt, ← hhead, Exec.bind_ok]
    rw [slot_index h.arena hi hp.cls_lt hj, ← hm₁, hused₁, ← hm₂]
    exact hrun
  · refine h.updatePage hc rfl rfl rfl (hp.put hlo hj hnot hmeta (hlink.trans hhead) ?_) ?_ ?_ ?_
      hlists' (h.mem_put hc k · j)
    · rw [hcore' i, hself, hused]
    · intro z hz
      apply heq
      rintro (hz' | hz')
      · exact listBytes_not_header (h.put_node hi (k, c)) hz' hz
      · exact linkSpan_not_meta hlo hp.cls_lt hj hz' (Arena.arenaMetaBytes_subset hz)
    · intro i' hi' hii
      rw [hcore' i', hrec₂ i' hi', if_neg hii]
    · intro i' hlo' hii z hz
      apply hmeta
      rintro (hz' | hz')
      · exact pageBytes_not_meta hlo' hz hz'
      · exact pageBytes_disjoint hii hz (linkSpan_in_page hp.cls_lt hj hz')

end

end FerrumAlloc
