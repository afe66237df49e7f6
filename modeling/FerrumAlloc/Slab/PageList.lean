/-
# FerrumAlloc.Slab.PageList -- linking and unlinking a page

`push_partial_page` and `remove_partial_page` change the links of at most three records and nothing
else of them. `pushPartialPage_spec` and `removePartialPage_spec` lift them to the family of page
lists: a page that is on no list becomes the head of one, and the head of a list leaves it.
-/
import FerrumAlloc.Slab.Invariant

namespace FerrumAlloc

open Lib

variable {ι : Type} {a : Arena} {m : Mem} {slabs : ι → SlabAllocator} {parts : ι × Nat → List Nat}
  {i j c v : Nat} {k : ι}

/-- The bytes of the records on a page list. -/
def listBytes (l : List Nat) : Set Nat := {z | ∃ p ∈ l, z ∈ metaBytes p}

/-! ## Link writes, seen from all records -/

theorem readMeta_setPrevPage_at (hv : v < 2 ^ 64) (i : Nat) :
    readMeta (setPrevPage m (a.metaPtr j) v) (a.metaPtr i) =
      if i = j then { readMeta m (a.metaPtr i) with prevPage := v } else readMeta m (a.metaPtr i) :=
  Arena.readMeta_update (f := fun pm => { pm with prevPage := v }) setPrevPage_eqOn
    (readMeta_setPrevPage hv) i

theorem readMeta_setNextPage_at (hv : v < 2 ^ 64) (i : Nat) :
    readMeta (setNextPage m (a.metaPtr j) v) (a.metaPtr i) =
      if i = j then { readMeta m (a.metaPtr i) with nextPage := v } else readMeta m (a.metaPtr i) :=
  Arena.readMeta_update (f := fun pm => { pm with nextPage := v }) setNextPage_eqOn
    (readMeta_setNextPage hv) i

/-- Both links of one record rewritten. -/
theorem readMeta_setLinks {v w : Nat} (hv : v < 2 ^ 64) (hw : w < 2 ^ 64) (i : Nat) :
    readMeta (setNextPage (setPrevPage m (a.metaPtr j) v) (a.metaPtr j) w) (a.metaPtr i) =
      if i = j then { readMeta m (a.metaPtr i) with prevPage := v, nextPage := w }
      else readMeta m (a.metaPtr i) := by
  rw [readMeta_setNextPage_at hw, readMeta_setPrevPage_at hv]
  by_cases hij : i = j
  · simp only [if_pos hij]
  · simp only [if_neg hij]

theorem setLinks_eqOn {p v w : Nat} :
    Set.EqOn (setNextPage (setPrevPage m p v) p w) m (metaBytes p)ᶜ :=
  setNextPage_eqOn.trans setPrevPage_eqOn

/-- The conditional back link of the neighbour: `if (!p.is_null()) (*p).prev_page = v`. -/
theorem readMeta_backLink (ha : a.Ok) (hv : v < 2 ^ 64) {p : Nat}
    (hp : p ≠ 0 → ∃ j < pagesPerArena, p = a.metaPtr j) (i : Nat) :
    readMeta (if p ≠ 0 then setPrevPage m p v else m) (a.metaPtr i) =
      if a.metaPtr i = p then { readMeta m (a.metaPtr i) with prevPage := v }
      else readMeta m (a.metaPtr i) := by
  by_cases h0 : p = 0
  · have hne : a.metaPtr i ≠ p := by
      rw [h0]
      exact Arena.metaPtr_ne_zero ha
    rw [if_neg (not_not.mpr h0), if_neg hne]
  · obtain ⟨j, _, rfl⟩ := hp h0
    rw [if_pos h0, readMeta_setPrevPage_at hv]
    by_cases hij : i = j
    · rw [if_pos hij, if_pos (congrArg a.metaPtr hij)]
    · rw [if_neg hij, if_neg fun h => hij (Arena.metaPtr_inj h)]

theorem backLink_eqOn {p v : Nat} :
    Set.EqOn (if p ≠ 0 then setPrevPage m p v else m) m {z | p ≠ 0 ∧ z ∈ metaBytes p}ᶜ := by
  by_cases h0 : p = 0
  · rw [if_neg (not_not.mpr h0)]
    exact Set.eqOn_refl _ _
  · rw [if_pos h0]
    exact eqOn_compl_mono setPrevPage_eqOn fun z hz => ⟨h0, hz⟩

theorem heads_update [DecidableEq ι] (k : ι) (c p : Nat) :
    heads (Function.update slabs k ((slabs k).setPartial c p)) =
      Function.update (heads slabs) (k, c) p := by
  funext ⟨k', c'⟩
  by_cases hk : k' = k
  · subst hk
    by_cases hc : c' = c
    · subst hc
      simp [heads, SlabAllocator.setPartial]
    · simp [heads, SlabAllocator.setPartial, hc]
  · simp [heads, hk]

/-! ## The two operations -/

section

variable [DecidableEq ι]

/-- **`push_partial_page`** makes a page of no list the head of a list. -/
theorem pushPartialPage_spec (ha : a.Ok)
    (h : DLists (nextOf m) (prevOf m) 0 (heads slabs) parts)
    (hnode : ∀ k, ∀ p ∈ parts k, ∃ i < pagesPerArena, p = a.metaPtr i) (hi : i < pagesPerArena)
    (hfresh : ∀ k, a.metaPtr i ∉ parts k) (hc : c < numSizeClasses) (k : ι) :
    ∃ m', (slabs k).pushPartialPage m c (a.metaPtr i) =
        .ok ((slabs k).setPartial c (a.metaPtr i), m') ∧
      DLists (nextOf m') (prevOf m') 0
        (heads (Function.update slabs k ((slabs k).setPartial c (a.metaPtr i))))
        (Function.update parts (k, c) (a.metaPtr i :: parts (k, c))) ∧
      (∀ j, (readMeta m' (a.metaPtr j)).core = (readMeta m (a.metaPtr j)).core) ∧
      Set.EqOn m' m (listBytes (a.metaPtr i :: parts (k, c)))ᶜ := by
  obtain ⟨head, hhead⟩ : ∃ x, x = (slabs k).partialPages c := ⟨_, rfl⟩
  have hheadmem : head ≠ 0 → head ∈ parts (k, c) := by
    intro hne
    rw [hhead] at hne ⊢
    exact h.head_mem (k := (k, c)) hne
  have hheadnode : head ≠ 0 → ∃ j < pagesPerArena, head = a.metaPtr j :=
    fun hne => hnode _ _ (hheadmem hne)
  have hi64 : a.metaPtr i < 2 ^ 64 := Arena.metaPtr_lt ha hi
  have hhead64 : head < 2 ^ 64 := by
    by_cases h0 : head = 0
    · rw [h0]
      decide
    · obtain ⟨j, hj, hp⟩ := hheadnode h0
      rw [hp]
      exact Arena.metaPtr_lt ha hj
  have hihead : a.metaPtr i ≠ head := by
    intro heq
    apply hfresh (k, c)
    rw [heq]
    apply hheadmem
    rw [← heq]
    exact Arena.metaPtr_ne_zero ha
  obtain ⟨m₁, hm₁⟩ : ∃ x, x = setNextPage (setPrevPage m (a.metaPtr i) 0) (a.metaPtr i) head :=
    ⟨_, rfl⟩
  obtain ⟨m', hm'⟩ : ∃ x, x = if head ≠ 0 then setPrevPage m₁ head (a.metaPtr i) else m₁ := ⟨_, rfl⟩
  have hrec : ∀ j, readMeta m' (a.metaPtr j) =
      if a.metaPtr j = head then { readMeta m (a.metaPtr j) with prevPage := a.metaPtr i }
      else if j = i then { readMeta m (a.metaPtr j) with prevPage := 0, nextPage := head }
      else readMeta m (a.metaPtr j) := by
    intro j
    rw [hm', readMeta_backLink ha hi64 hheadnode, hm₁, readMeta_setLinks (by decide) hhead64]
    by_cases hjh : a.metaPtr j = head
    · have hji : j ≠ i := by
        rintro rfl
        exact hihead hjh
      rw [if_pos hjh, if_pos hjh, if_neg hji]
    · rw [if_neg hjh, if_neg hjh]
  have hself := hrec i
  rw [if_neg hihead, if_pos rfl] at hself
  have hother : ∀ k', ∀ p ∈ parts k', readMeta m' p =
      if p = head then { readMeta m p with prevPage := a.metaPtr i } else readMeta m p := by
    intro k' p hp
    obtain ⟨j, _, rfl⟩ := hnode k' p hp
    have hji : j ≠ i := by
      rintro rfl
      exact hfresh k' hp
    rw [hrec j, if_neg hji]
  refine ⟨m', ?_, ?_, fun j => ?_, ?_⟩
  · unfold SlabAllocator.pushPartialPage
    rw [checkIndex_of_lt hc, hm', hm₁, hhead]
    rfl
  · rw [heads_update]
    refine h.push (Arena.metaPtr_ne_zero ha) hfresh ?_ ?_ ?_ ?_
    · exact (congrArg PageMeta.nextPage hself).trans hhead
    · exact congrArg PageMeta.prevPage hself
    · intro k' p hp
      unfold nextOf
      rw [hother k' p hp, PageMeta.nextPage_ite_prevPage]
    · intro k' p hp
      unfold prevOf
      rw [hother k' p hp, PageMeta.prevPage_ite_prevPage, hhead]
      rfl
  · rw [hm', readMeta_backLink ha hi64 hheadnode, PageMeta.core_ite_prevPage, hm₁,
      readMeta_setLinks (by decide) hhead64]
    by_cases hji : j = i
    · rw [if_pos hji, PageMeta.core_links]
    · rw [if_neg hji]
  · rw [hm', hm₁]
    have hset := eqOn_compl_trans (setLinks_eqOn (m := m) (p := a.metaPtr i) (v := 0) (w := head))
      (backLink_eqOn (m := setNextPage (setPrevPage m (a.metaPtr i) 0) (a.metaPtr i) head)
        (p := head) (v := a.metaPtr i))
    apply eqOn_compl_mono hset
    rintro z (hz | ⟨h0, hz⟩)
    · exact ⟨_, List.mem_cons_self, hz⟩
    · exact ⟨_, List.mem_cons_of_mem _ (hheadmem h0), hz⟩

/-- **`remove_partial_page`** unlinks the head of a list. -/
theorem removePartialPage_spec {rest : List Nat} (ha : a.Ok)
    (h : DLists (nextOf m) (prevOf m) 0 (heads slabs) parts)
    (hnode : ∀ k, ∀ p ∈ parts k, ∃ i < pagesPerArena, p = a.metaPtr i)
    (hc : c < numSizeClasses) (hl : parts (k, c) = a.metaPtr i :: rest) :
    ∃ s' m', (slabs k).removePartialPage m c (a.metaPtr i) = .ok (s', m') ∧
      DLists (nextOf m') (prevOf m') 0 (heads (Function.update slabs k s'))
        (Function.update parts (k, c) rest) ∧
      (∀ j, (readMeta m' (a.metaPtr j)).core = (readMeta m (a.metaPtr j)).core) ∧
      Set.EqOn m' m (listBytes (parts (k, c)))ᶜ := by
  have hlist := h.list (k, c)
  rw [hl] at hlist
  have hprev : (readMeta m (a.metaPtr i)).prevPage = 0 := hlist.linked.1
  obtain ⟨next, hnext⟩ : ∃ x, x = (readMeta m (a.metaPtr i)).nextPage := ⟨_, rfl⟩
  have hnextmem : next ≠ 0 → next ∈ rest := by
    intro h0
    have hh : next = rest.headD 0 := hnext.trans hlist.linked.2.1
    cases rest with
    | nil => exact absurd hh h0
    | cons z zs =>
      rw [hh]
      exact List.mem_cons_self
  have hmemrest : ∀ p ∈ rest, p ∈ parts (k, c) := by
    intro p hp
    rw [hl]
    exact List.mem_cons_of_mem _ hp
  have hnextnode : next ≠ 0 → ∃ j < pagesPerArena, next = a.metaPtr j :=
    fun h0 => hnode _ _ (hmemrest _ (hnextmem h0))
  obtain ⟨m₁, hm₁⟩ : ∃ x, x = if next ≠ 0 then setPrevPage m next 0 else m := ⟨_, rfl⟩
  obtain ⟨m', hm'⟩ : ∃ x, x = setNextPage (setPrevPage m₁ (a.metaPtr i) 0) (a.metaPtr i) 0 :=
    ⟨_, rfl⟩
  have hrec : ∀ j, readMeta m' (a.metaPtr j) =
      if j = i then { readMeta m₁ (a.metaPtr j) with prevPage := 0, nextPage := 0 }
      else if a.metaPtr j = next then { readMeta m (a.metaPtr j) with prevPage := 0 }
      else readMeta m (a.metaPtr j) := by
    intro j
    rw [hm', readMeta_setLinks (by decide) (by decide)]
    by_cases hji : j = i
    · rw [if_pos hji, if_pos hji]
    · rw [if_neg hji, if_neg hji, hm₁, readMeta_backLink ha (by decide) hnextnode]
  have hother : ∀ k', ∀ p ∈ parts k', p ≠ a.metaPtr i → readMeta m' p =
      if p = next then { readMeta m p with prevPage := 0 } else readMeta m p := by
    intro k' p hp hne
    obtain ⟨j, _, rfl⟩ := hnode k' p hp
    have hji : j ≠ i := by
      rintro rfl
      exact hne rfl
    rw [hrec j, if_neg hji]
  refine ⟨(slabs k).setPartial c next, m', ?_, ?_, fun j => ?_, ?_⟩
  · unfold SlabAllocator.removePartialPage
    rw [hprev, if_neg (by decide), checkIndex_of_lt hc, ← hnext, hm', hm₁]
    rfl
  · rw [heads_update, hnext]
    refine h.pop hl ?_ ?_
    · intro k' p hp hne
      unfold nextOf
      rw [hother k' p hp hne, PageMeta.nextPage_ite_prevPage]
    · intro k' p hp hne
      unfold prevOf
      rw [hother k' p hp hne, PageMeta.prevPage_ite_prevPage, hnext]
      rfl
  · have hcore₁ : (readMeta m₁ (a.metaPtr j)).core = (readMeta m (a.metaPtr j)).core := by
      rw [hm₁, readMeta_backLink ha (by decide) hnextnode, PageMeta.core_ite_prevPage]
    rw [hm', readMeta_setLinks (by decide) (by decide)]
    by_cases hji : j = i
    · rw [if_pos hji, PageMeta.core_links]
      exact hcore₁
    · rw [if_neg hji]
      exact hcore₁
  · rw [hm', hm₁]
    have hset := eqOn_compl_trans (backLink_eqOn (m := m) (p := next) (v := 0))
      (setLinks_eqOn (m := if next ≠ 0 then setPrevPage m next 0 else m) (p := a.metaPtr i) (v := 0)
        (w := 0))
    apply eqOn_compl_mono hset
    rintro z (⟨h0, hz⟩ | hz)
    · exact ⟨_, hmemrest _ (hnextmem h0), hz⟩
    · exact ⟨_, by rw [hl]; exact List.mem_cons_self, hz⟩

end

end FerrumAlloc
