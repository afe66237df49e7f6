/-
# FerrumAlloc.Slab.NewPage -- pages enter the slab view

Three operations change which pages are slab pages. Initialising the arena makes none; `init_page`
turns the page just handed out by `alloc_page` into a slab page with all slots free; the bump allocator
`Arena::alloc` takes pages that stay outside the view.
-/
import FerrumAlloc.Slab.Ops

namespace FerrumAlloc

open Lib

variable {ι : Type} {a : Arena} {m m' : Mem} {slabs : ι → SlabAllocator} {g : Ghost ι}
  {i j c o : Nat} {k : ι}

/-! ## The slots of a fresh page -/

/-- The link bytes of slots `i, .., i + n - 1` of a page at `base`. -/
def linkRange (base size i n : Nat) : Set Nat :=
  {z | ∃ j, i ≤ j ∧ j < i + n ∧ base + j * size ≤ z ∧ z < base + j * size + 2}

theorem slot_mul_le {size i j : Nat} (h : i < j) : i * size + size ≤ j * size := by
  rw [← Nat.succ_mul]
  exact Nat.mul_le_mul_right _ h

theorem linkSlots_spec (base : Nat) {size : Nat} (hsize : 2 ≤ size) (n : Nat) : ∀ i m, i + n < 2 ^ 16 →
    (∀ j, i ≤ j → j < i + n →
      read16 (SlabAllocator.linkSlots base size i n m) (base + j * size) = j + 1) ∧
    Set.EqOn (SlabAllocator.linkSlots base size i n m) m (linkRange base size i n)ᶜ := by
  induction n with
  | zero =>
    intro i m _
    exact ⟨fun j h1 h2 => absurd h2 (by omega), Set.eqOn_refl _ _⟩
  | succ n ih =>
    intro i m hlt
    obtain ⟨hlink, hout⟩ := ih (i + 1) (write16 m (base + i * size) (i + 1)) (by omega)
    refine ⟨fun j h1 h2 => ?_, fun z hz => ?_⟩
    · unfold SlabAllocator.linkSlots
      by_cases hj : j = i
      · rw [hj, read16_eqOn (m := write16 m (base + i * size) (i + 1))]
        · exact read16_write16_same _ (by omega)
        · refine hout.mono ?_
          rintro z ⟨hz1, hz2⟩ ⟨j', h3, _, h4, _⟩
          have : i * size + size ≤ j' * size := slot_mul_le (by omega)
          omega
      · exact hlink j (by omega) (by omega)
    · unfold SlabAllocator.linkSlots
      have hz' : z ∉ Set.Ico (base + i * size) (base + i * size + 2) := by
        rintro ⟨h1, h2⟩
        exact hz ⟨i, Nat.le_refl i, by omega, h1, h2⟩
      rw [hout fun ⟨j', h1, h2, h3, h4⟩ => hz ⟨j', by omega, by omega, h3, h4⟩]
      exact write16_eqOn _ _ _ hz'

/-- The record written by `init_page`. -/
def freshMeta (c o pageAddr : Nat) : PageMeta where
  sizeClass := c
  ownerId := o
  usedSlots := 0
  freeListHead := 0
  nextPage := 0
  prevPage := 0
  pageAddr := pageAddr

/-- **`init_page`** makes a slab page with all slots free, in order. -/
theorem initPage_spec (ha : a.Ok) (hlo : metaPages ≤ i) (hi : i < pagesPerArena)
    (hc : c < numSizeClasses) (ho : o < 2 ^ 16) :
    ∃ m', SlabAllocator.initPage m (a.metaPtr i) (a.pageAddr i) c o = .ok m' ∧
      SlabPage a m' i c o (List.range (slots c)) ∧
      Set.EqOn m' m (metaBytes (a.metaPtr i) ∪ a.pageBytes i)ᶜ := by
  have hsl := slots_of_lt hc
  have h8 := hsl.size_ge
  have hn4 := hsl.count_ge
  have hn512 := hsl.count_le
  obtain ⟨n, hn⟩ : ∃ n, slots c = n + 1 := ⟨slots c - 1, by omega⟩
  have haddr := Arena.pageAddr_lt ha hi
  obtain ⟨m₁, hm₁⟩ : ∃ x, x = writeMeta m (a.metaPtr i) (freshMeta c o (a.pageAddr i)) := ⟨_, rfl⟩
  obtain ⟨m₂, hm₂⟩ : ∃ x, x = SlabAllocator.linkSlots (a.pageAddr i) (slotSize c) 0 n m₁ := ⟨_, rfl⟩
  obtain ⟨m₃, hm₃⟩ : ∃ x, x = write16 m₂ (a.pageAddr i + n * slotSize c) nullSlot := ⟨_, rfl⟩
  have hsize : 2 ≤ slotSize c := by omega
  obtain ⟨hlink, hout₂⟩ := linkSlots_spec (a.pageAddr i) hsize n 0 m₁ (by omega)
  rw [← hm₂] at hlink hout₂
  have hout₃ : Set.EqOn m₃ m₂ (linkSpan a i c n)ᶜ := by
    rw [hm₃]
    exact write16_eqOn _ _ _
  have hin : ∀ z, z ∈ linkRange (a.pageAddr i) (slotSize c) 0 n → z ∈ a.pageBytes i := by
    rintro z ⟨j, _, hj, h1, h2⟩
    exact linkSpan_in_page hc (by omega) ⟨h1, h2⟩
  have hpage : Set.EqOn m₃ m₁ (a.pageBytes i)ᶜ := by
    intro z hz
    rw [hout₃ fun hz' => hz (linkSpan_in_page hc (by omega) hz')]
    exact hout₂ fun hz' => hz (hin z hz')
  have hrec : readMeta m₃ (a.metaPtr i) = freshMeta c o (a.pageAddr i) := by
    have hkeep : readMeta m₃ (a.metaPtr i) = readMeta m₁ (a.metaPtr i) := by
      apply readMeta_eqOn
      intro z hz
      apply hpage
      exact fun hz' => pageBytes_not_meta hlo hz' (Arena.metaBytes_subset hi hz)
    have hc8 : c < 2 ^ 8 := by
      unfold numSizeClasses at hc
      omega
    rw [hkeep, hm₁]
    exact readMeta_writeMeta hc8 ho (Nat.two_pow_pos 16) (Nat.two_pow_pos 16) (Nat.two_pow_pos 64)
      (Nat.two_pow_pos 64) haddr
  have hslot : ∀ j, j ≤ n → slotLink a m₃ i c j = if j = n then nullSlot else j + 1 := by
    intro j hj
    by_cases hjn : j = n
    · rw [if_pos hjn, hjn, slotLink, hm₃]
      exact read16_write16_same _ (by decide)
    · rw [if_neg hjn, ← hlink j (Nat.zero_le j) (by omega)]
      apply slotLink_eqOn
      exact hout₃.mono fun z hz hz' => linkSpan_disjoint hc hjn hz hz'
  refine ⟨m₃, ?_, ⟨hc, ?_, ?_, ?_, ?_, List.nodup_range, ?_, ?_⟩, ?_⟩
  · have hn1 : slotsPerPage c pageSize - 1 = n := by
      rw [show slotsPerPage c pageSize = n + 1 from hn, Nat.add_sub_cancel]
    unfold SlabAllocator.initPage
    simp only [classToSize_of_lt hc, Exec.bind_ok, hn1]
    rw [hm₃, hm₂, hm₁]
    rfl
  · rw [hrec]
    rfl
  · rw [hrec]
    rfl
  · rw [hrec]
    rfl
  · have hhead : (readMeta m₃ (a.metaPtr i)).freeListHead = 0 := by
      rw [hrec]
      rfl
    rw [hhead, hn, List.range_eq_range']
    refine Chain.range' n fun j _ hj => ⟨?_, ?_⟩
    · exact SlabPage.ne_nullSlot hc (by omega)
    · rw [Nat.zero_add, hslot j (by omega)]
  · exact fun j hj => List.mem_range.mp hj
  · rw [hrec, List.length_range]
    exact Nat.zero_add _
  · intro z hz
    rw [hpage fun hz' => hz (.inr hz'), hm₁]
    exact writeMeta_eqOn _ fun hz' => hz (.inl hz')

/-! ## The view of the arena -/

namespace SlabInv

/-- **A fresh arena** has no slab page. -/
theorem init (ha : a.Ok) (m : Mem) (id : Nat) (k : ι) :
    SlabInv a (a.init m id) (fun _ => .new) (.empty k) := by
  obtain ⟨hnext, hrec, _⟩ := Arena.init_spec a m id
  refine ⟨ha, hnext.ge, by rw [hnext]; decide, fun i hi => ?_, fun i c hc => ?_, ⟨fun _ => .nil, ?_⟩,
    fun k' c' p => ?_⟩
  · exact congrArg PageMeta.sizeClass (hrec i hi)
  · exact absurd hc (Option.some_ne_none c).symm
  · intro key key' x hx
    exact absurd hx List.not_mem_nil
  · refine ⟨fun hp => absurd hp List.not_mem_nil, ?_⟩
    rintro ⟨i, _, hc, _⟩
    exact absurd hc (Option.some_ne_none c').symm

theorem cls_next (h : SlabInv a m slabs g) (hi : a.nextFreePage m ≤ i) : g.cls i = none := by
  cases hc : g.cls i with
  | none => rfl
  | some c =>
    have := (h.range i c hc).2
    omega

/-- **The bump allocator** leaves the slab view as it is. -/
theorem bump (h : SlabInv a m slabs g) (size : Nat) :
    SlabInv a (a.alloc m size).1 slabs g := by
  rcases Arena.alloc_spec a m size with ⟨heq, _⟩ | ⟨m', _, hle, heq, hnext, hrec, hout⟩
  · rw [heq]
    exact h
  rw [heq]
  have hkeep : ∀ i c, g.cls i = some c → readMeta m' (a.metaPtr i) = readMeta m (a.metaPtr i) := by
    intro i c hc
    have := (h.range i c hc).2
    rw [hrec i (h.index_lt hc), if_neg (by omega)]
  have hnode : ∀ key, ∀ p ∈ g.parts key, readMeta m' p = readMeta m p := by
    intro key p hp
    obtain ⟨i, rfl, hc, _⟩ := (h.mem key.1 key.2 p).mp hp
    exact hkeep i key.2 hc
  refine ⟨h.arena, ?_, ?_, fun i hi => ?_, fun i c hc => ?_, ?_, h.mem⟩
  · have := h.next_ge
    rw [hnext]
    omega
  · rw [hnext]
    exact hle
  · have hp := h.page i hi
    cases hc : g.cls i with
    | none =>
      rw [hc] at hp
      show (readMeta m' (a.metaPtr i)).sizeClass = noClass
      rw [hrec i hi]
      split
      · rfl
      · exact hp
    | some c =>
      rw [hc] at hp
      refine PageOk.frame hp (congrArg PageMeta.core (hkeep i c hc)) fun c' hc' j hj => ?_
      obtain rfl := Option.some.inj hc'
      have hsp := h.slabPage hc
      exact slotLink_of_metaWrite hout (h.range i c hc).1 hsp.cls_lt (hsp.lt j hj)
  · have := h.range i c hc
    rw [hnext]
    omega
  · exact h.lists.congr (fun key p hp => congrArg PageMeta.nextPage (hnode key p hp))
      fun key p hp => congrArg PageMeta.prevPage (hnode key p hp)

variable [DecidableEq ι]

/-- The page lists after page `i` is added. -/
theorem mem_addPage (h : SlabInv a m slabs g) (hnone : g.cls i = none) (hc : c < numSizeClasses)
    (k k' : ι) (o c' p : Nat) :
    p ∈ (g.addPage a k c o i).parts (k', c') ↔ ∃ i', p = a.metaPtr i' ∧
      (g.addPage a k c o i).cls i' = some c' ∧ (g.addPage a k c o i).free i' ≠ [] ∧
        (g.addPage a k c o i).home i' = k' := by
  unfold Ghost.addPage
  simp only
  rw [DLists.mem_push, h.mem k' c' p]
  constructor
  · rintro (⟨i', rfl, hc', hne, hk⟩ | ⟨rfl, heq⟩)
    · have hii : i' ≠ i := by
        rintro rfl
        rw [hnone] at hc'
        exact Option.some_ne_none _ hc'.symm
      refine ⟨i', rfl, ?_, ?_, ?_⟩
      · rwa [Function.update_of_ne hii]
      · rwa [Function.update_of_ne hii]
      · rwa [Function.update_of_ne hii]
    · obtain ⟨rfl, rfl⟩ := Prod.mk.inj heq
      have hpos := (slots_of_lt hc).count_ge
      refine ⟨i, rfl, ?_, ?_, ?_⟩
      · rw [Function.update_self]
      · rw [Function.update_self]
        intro hnil
        rw [List.range_eq_nil] at hnil
        omega
      · rw [Function.update_self]
  · rintro ⟨i', rfl, hc', hne, hk⟩
    by_cases hii : i' = i
    · right
      subst hii
      rw [Function.update_self] at hc' hk
      exact ⟨rfl, Prod.ext hk.symm (Option.some.inj hc').symm⟩
    · left
      rw [Function.update_of_ne hii] at hc' hne hk
      exact ⟨i', rfl, hc', hne, hk⟩

/-- **A new slab page.** `m₁` is the memory after `alloc_page` has handed out page `i`. -/
theorem addPage (h : SlabInv a m slabs g) {m₁ : Mem} (hi : a.nextFreePage m = i)
    (hlt : i < pagesPerArena) (hc : c < numSizeClasses) (ho : o < 2 ^ 16) (k : ι)
    (hnext₁ : a.nextFreePage m₁ = i + 1) (heq₁ : Set.EqOn m₁ m a.arenaMetaBytesᶜ) :
    ∃ m₂ s' m₃, SlabAllocator.initPage m₁ (a.metaPtr i) (a.pageAddr i) c o = .ok m₂ ∧
      (slabs k).pushPartialPage m₂ c (a.metaPtr i) = .ok (s', m₃) ∧
      SlabInv a m₃ (Function.update slabs k s') (g.addPage a k c o i) ∧
      Set.EqOn m₃ m (a.arenaMetaBytes ∪ a.pageBytes i ∪
        listBytes (a.metaPtr i :: g.parts (k, c)))ᶜ ∧ Set.EqOn m₃ m₁ a.arenaMetaBytes := by
  have hlo : metaPages ≤ i := hi ▸ h.next_ge
  have hnone := h.cls_next hi.le
  obtain ⟨m₂, hinit, hpage, heq₂⟩ := initPage_spec (m := m₁) h.arena hlo hlt hc ho
  have hrec₂ : ∀ i' < pagesPerArena, i' ≠ i → readMeta m₂ (a.metaPtr i') = readMeta m (a.metaPtr i') := by
    intro i' hi' hii
    apply readMeta_eqOn
    intro z hz
    rw [heq₂, heq₁]
    · exact Arena.metaBytes_subset_compl hz
    · rintro (hz' | hz')
      · exact Arena.metaBytes_disjoint hii hz hz'
      · exact pageBytes_not_meta hlo hz' (Arena.metaBytes_subset hi' hz)
  have hnode₂ : ∀ key, ∀ p ∈ g.parts key, readMeta m₂ p = readMeta m p := by
    intro key p hp
    obtain ⟨i', rfl, hc', _⟩ := (h.mem key.1 key.2 p).mp hp
    refine hrec₂ i' (h.index_lt hc') ?_
    rintro rfl
    rw [hnone] at hc'
    exact Option.some_ne_none _ hc'.symm
  have hlists₂ : DLists (nextOf m₂) (prevOf m₂) 0 (heads slabs) g.parts :=
    h.lists.congr (fun key p hp => congrArg PageMeta.nextPage (hnode₂ key p hp))
      fun key p hp => congrArg PageMeta.prevPage (hnode₂ key p hp)
  obtain ⟨m₃, hpush, hlists₃, hcore₃, heq₃⟩ := pushPartialPage_spec h.arena hlists₂ h.node hlt
    (h.not_mem_parts (.inl hnone)) hc k
  have hsub := listBytes_metaRegion (h.cons_node hlt (k, c))
  have heq : Set.EqOn m₃ m (a.arenaMetaBytes ∪ a.pageBytes i ∪
      listBytes (a.metaPtr i :: g.parts (k, c)))ᶜ := by
    intro z hz
    rw [heq₃ fun hz' => hz (.inr hz'), heq₂, heq₁ fun hz' => hz (.inl (.inl hz'))]
    rintro (hz' | hz')
    · exact hz (.inr ⟨_, List.mem_cons_self, hz'⟩)
    · exact hz (.inl (.inr hz'))
  have hlink₃ : ∀ i' c' j, metaPages ≤ i' → c' < numSizeClasses → j < slots c' →
      slotLink a m₃ i' c' j = slotLink a m₂ i' c' j := by
    intro i' c' j hlo' hc' hj
    exact slotLink_of_metaWrite (eqOn_compl_mono heq₃ hsub) hlo' hc' hj
  have hhead₃ : Set.EqOn m₃ m₁ a.arenaMetaBytes := by
    intro z hz
    rw [heq₃, heq₂]
    · rintro (hz' | hz')
      · exact Arena.metaBytes_subset_compl hz' hz
      · exact pageBytes_not_meta hlo hz' (Arena.arenaMetaBytes_subset hz)
    · exact fun hz' => listBytes_not_header (h.cons_node hlt (k, c)) hz' hz
  have hnext₃ : a.nextFreePage m₃ = i + 1 := (Arena.nextFreePage_of_eqOn hhead₃).trans hnext₁
  refine ⟨m₂, _, m₃, hinit, hpush, ⟨h.arena, ?_, ?_, fun i' hi' => ?_, fun i' c' hc' => ?_, hlists₃,
    fun k' c' p => h.mem_addPage hnone hc k k' o c' p⟩, heq, hhead₃⟩
  · rw [hnext₃]
    omega
  · rw [hnext₃]
    exact hlt
  · unfold Ghost.addPage
    by_cases hii : i' = i
    · subst hii
      simp only [Function.update_self]
      exact hpage.frame (hcore₃ i') fun j hj => hlink₃ i' c j hlo hc (List.mem_range.mp hj)
    · simp only [Function.update_of_ne hii]
      refine (h.page i' hi').frame ?_ fun c' hc' j hj => ?_
      · rw [hcore₃ i', hrec₂ i' hi' hii]
      · have hsp := h.slabPage hc'
        have hlo' := (h.range i' c' hc').1
        rw [hlink₃ i' c' j hlo' hsp.cls_lt (hsp.lt j hj)]
        apply slotLink_eqOn
        intro z hz
        have hz' := linkSpan_in_page hsp.cls_lt (hsp.lt j hj) hz
        have hz'' := pageBytes_not_meta hlo' hz'
        rw [heq₂, heq₁ fun hm => hz'' (Arena.arenaMetaBytes_subset hm)]
        rintro (hm | hm)
        · exact hz'' (Arena.metaBytes_subset hlt hm)
        · exact pageBytes_disjoint hii hz' hm
  · unfold Ghost.addPage at hc'
    rw [hnext₃]
    by_cases hii : i' = i
    · omega
    · simp only [Function.update_of_ne hii] at hc'
      have := h.range i' c' hc'
      omega

end SlabInv

end FerrumAlloc
