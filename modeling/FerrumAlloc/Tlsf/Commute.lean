/-
# FerrumAlloc.Tlsf.Commute -- the order of frees does not matter

Two frees merge with different neighbours depending on which one comes first, so the intermediate pools
of two orders differ everywhere. The end states agree because a pool without adjacent free blocks has no
choice: its used blocks and its end determine every block in between (`layout_unique`). A pool invariant
over the same block list then fixes every header, both bitmaps and the members of every list
(`PoolInv.sameHeap`).
-/
import FerrumAlloc.Tlsf.System

namespace FerrumAlloc.Tlsf

open Lib

/-! ## Layouts without adjacent free blocks -/

section

variable {a x s : Nat} {l l' : List Blk} {b c : Blk}

/-- The used blocks behind the first block. -/
theorem usedAt_tail (hx : a + 16 + b.size ≤ x) : UsedAt a (b :: l) x s ↔ UsedAt (a + 16 + b.size) l x s := by
  rw [usedAt_cons]
  constructor
  · rintro (⟨rfl, _⟩ | hu)
    · omega
    · exact hu
  · exact .inr

/-- A used block at the very start is the first block. -/
theorem usedAt_head (hu : UsedAt a (b :: l) a s) : b = ⟨s, false⟩ := by
  rcases usedAt_cons.mp hu with ⟨_, hb⟩ | hu
  · exact hb
  · have hlo := (usedAt_bounds hu).1
    omega

/-- A free block is not longer than the first block of another layout with the same used blocks: the used
block behind it would lie inside that block. -/
theorem free_size_le {l₁ l₂ : List Blk} (hadj : NoAdjacentFree (b :: l₁)) (hb : b.free = true)
    (hend : endAddr a (b :: l₁) = endAddr a (c :: l₂))
    (hused : ∀ x s, UsedAt a (b :: l₁) x s → UsedAt a (c :: l₂) x s) : c.size ≤ b.size := by
  cases l₁ with
  | nil =>
    have hle := le_endAddr (a + 16 + c.size) l₂
    simp only [endAddr_cons, endAddr_nil] at hend
    omega
  | cons d l₁ =>
    -- two free blocks are not neighbours, so the next block is used
    have hd : d = ⟨d.size, false⟩ := by
      have hfree := (noAdjacentFree_cons.mp hadj).2 d rfl hb
      rw [← hfree]
    have hu : UsedAt a (b :: d :: l₁) (a + 16 + b.size) d.size :=
      usedAt_cons.mpr (.inr (usedAt_cons.mpr (.inl ⟨rfl, hd⟩)))
    rcases usedAt_cons.mp (hused _ _ hu) with ⟨heq, _⟩ | hu'
    · omega
    · have hlo := (usedAt_bounds hu').1
      omega

/-- **Used blocks and end determine the layout.** -/
theorem layout_unique (hl : NoAdjacentFree l) (hl' : NoAdjacentFree l') (hend : endAddr a l = endAddr a l')
    (hused : ∀ x s, UsedAt a l x s ↔ UsedAt a l' x s) : l = l' := by
  induction l generalizing a l' with
  | nil =>
    cases l' with
    | nil => rfl
    | cons c l' =>
      have hle := le_endAddr (a + 16 + c.size) l'
      simp only [endAddr_cons, endAddr_nil] at hend
      omega
  | cons b l ih =>
    cases l' with
    | nil =>
      have hle := le_endAddr (a + 16 + b.size) l
      simp only [endAddr_cons, endAddr_nil] at hend
      omega
    | cons c l' =>
      have hbc : b = c := by
        by_cases hb : b.free = true
        · by_cases hc : c.free = true
          · have h1 := free_size_le hl hb hend fun x s => (hused x s).mp
            have h2 := free_size_le hl' hc hend.symm fun x s => (hused x s).mpr
            rw [Blk.mk.injEq]
            exact ⟨Nat.le_antisymm h2 h1, hb.trans hc.symm⟩
          · have hu : UsedAt a (c :: l') a c.size :=
              usedAt_cons.mpr (.inl ⟨rfl, by rw [← Bool.eq_false_iff.mpr hc]⟩)
            rw [usedAt_head ((hused _ _).mpr hu), ← Bool.eq_false_iff.mpr hc]
        · have hu : UsedAt a (b :: l) a b.size :=
            usedAt_cons.mpr (.inl ⟨rfl, by rw [← Bool.eq_false_iff.mpr hb]⟩)
          rw [usedAt_head ((hused _ _).mp hu), ← Bool.eq_false_iff.mpr hb]
      subst hbc
      have htail : l = l' := by
        refine ih (noAdjacentFree_cons.mp hl).1 (noAdjacentFree_cons.mp hl').1 hend fun x s => ?_
        constructor
        · intro hu
          have hlo := (usedAt_bounds hu).1
          exact (usedAt_tail hlo).mp ((hused x s).mp ((usedAt_tail hlo).mpr hu))
        · intro hu
          have hlo := (usedAt_bounds hu).1
          exact (usedAt_tail hlo).mp ((hused x s).mpr ((usedAt_tail hlo).mpr hu))
      rw [htail]

end

/-! ## Equal heaps -/

/-- **The same heap**, as far as addresses, headers, bitmaps and the members of the lists go. The order
inside a list is left open. -/
structure SameHeap (t : TlsfAllocator) (m : Mem) (t' : TlsfAllocator) (m' : Mem) : Prop where
  bounds : t'.poolStart = t.poolStart ∧ t'.poolEnd = t.poolEnd
  blocks : ∀ x, BlockAt m' t.poolStart x ↔ BlockAt m t.poolStart x
  headers : ∀ x, BlockAt m t.poolStart x → size m' x = size m x ∧ isFree m' x = isFree m x ∧
    prevIsFree m' x = prevIsFree m x ∧ prevPhysSize m' x = prevPhysSize m x
  flBitmap : t'.flBitmap = t.flBitmap
  slBitmaps : ∀ fl < flCount, t'.slBitmaps fl = t.slBitmaps fl
  lists : ∀ fl sl x, OnChain (linkNext m') 0 (t'.lists fl sl) x ↔ OnChain (linkNext m) 0 (t.lists fl sl) x

section

variable {t t' : TlsfAllocator} {m m' : Mem} {bs : List Blk} {L L' : Nat → Nat → List Nat}

/-- A list of the allocator holds the free blocks of its bin. -/
theorem PoolInv.onList_iff (h : PoolInv t m bs L) (fl sl x : Nat) :
    OnChain (linkNext m) 0 (t.lists fl sl) x ↔
      ∃ s, freeCells t.poolStart bs x s ∧ mapping s = (fl, sl) := by
  rw [(h.filed.dlist fl sl).chain.onChain_iff]
  exact h.filed.mem fl sl x

/-- **One block list, one heap.** -/
theorem PoolInv.sameHeap (h : PoolInv t m bs L) (h' : PoolInv t' m' bs L')
    (hstart : t'.poolStart = t.poolStart) (hend : t'.poolEnd = t.poolEnd) : SameHeap t m t' m' := by
  have hmem : ∀ fl sl x, x ∈ L' fl sl ↔ x ∈ L fl sl := by
    intro fl sl x
    rw [h'.filed.mem, h.filed.mem, hstart]
  have hnil : ∀ fl sl, L' fl sl ≠ [] ↔ L fl sl ≠ [] := by
    intro fl sl
    simp only [ne_eq, List.eq_nil_iff_forall_not_mem, hmem fl sl]
  refine ⟨⟨hstart, hend⟩, fun x => ?_, fun x hx => ?_, ?_, fun fl hfl => ?_, fun fl sl x => ?_⟩
  · rw [h.blockAt_iff, ← hstart, h'.blockAt_iff]
  · obtain ⟨b, hb⟩ := h.blockAt_iff.mp hx
    have hok := h.seg_ok b (cells_mem hb)
    obtain ⟨i, hi, hxi, hbi⟩ := mem_cells_iff.mp hb
    have hw := h.walkAt hi
    have hw' := h'.walkAt hi
    have haddr : walk m t.poolStart i = x := hw.addr.trans hxi.symm
    have haddr' : walk m' t'.poolStart i = x := hw'.addr.trans (by rw [hstart]; exact hxi.symm)
    have hh := hw.hdr
    have hh' := hw'.hdr
    rw [haddr, ← hbi] at hh
    rw [haddr', ← hbi] at hh'
    -- both headers describe block `b` behind the same block
    exact ⟨(hh'.size_eq hok).trans (hh.size_eq hok).symm, (hh'.isFree_eq hok).trans (hh.isFree_eq hok).symm,
      (hh'.prevIsFree_eq hok).trans (hh.prevIsFree_eq hok).symm,
      hh'.prevPhysSize_eq.trans hh.prevPhysSize_eq.symm⟩
  · apply Nat.eq_of_testBit_eq
    intro fl
    rw [Bool.eq_iff_iff, h'.filed.bits.flBit, h.filed.bits.flBit]
    exact exists_congr fun sl => hnil fl sl
  · apply Nat.eq_of_testBit_eq
    intro sl
    rw [Bool.eq_iff_iff, h'.filed.bits.slBit fl hfl, h.filed.bits.slBit fl hfl]
    exact hnil fl sl
  · rw [h'.onList_iff, h.onList_iff, hstart]

end

/-! ## Many frees -/

/-- `free`, one pointer after the other. -/
def freeAll (t : TlsfAllocator) (m : Mem) : List Nat → Exec (TlsfAllocator × Mem)
  | [] => .ok (t, m)
  | p :: ps => do
    let (t, m) ← free t m p
    freeAll t m ps

variable {base size : Nat} {s : State} {bs : List Blk} {L : Nat → Nat → List Nat}

/-- **Run lemma.** Freeing distinct live payloads one after the other returns and keeps the invariant. -/
theorem PoolState.freeAll_spec {es : List Payload} (h : PoolState base size s bs L) (hes : es.Nodup)
    (hsub : es ⊆ s.live) :
    ∃ t m bs' L', freeAll s.tlsf s.mem (es.map Payload.ptr) = .ok (t, m) ∧
      PoolState base size ⟨t, m, s.live.diff es⟩ bs' L' := by
  induction es generalizing s bs L with
  | nil => exact ⟨s.tlsf, s.mem, bs, L, rfl, h⟩
  | cons e es ih =>
    obtain ⟨hnot, hes⟩ := List.nodup_cons.mp hes
    have he : e ∈ s.live := hsub List.mem_cons_self
    obtain ⟨t₁, m₁, _, _, hrun, _⟩ := h.free_returns he
    obtain ⟨bs₁, L₁, h₁⟩ := (h.step_free he hrun).1
    have hsub₁ : es ⊆ s.live.erase e := by
      intro f hf
      apply (List.mem_erase_of_ne ?_).mpr (hsub (List.mem_cons_of_mem _ hf))
      rintro rfl
      exact hnot hf
    obtain ⟨t, m, bs', L', hall, h'⟩ := ih h₁ hes hsub₁
    refine ⟨t, m, bs', L', ?_, ?_⟩
    · rw [List.map_cons, freeAll, hrun]
      exact hall
    · rw [List.diff_cons]
      exact h'

/-- Two pools with the same live payloads have the same blocks. -/
theorem PoolState.layout_eq {s' : State} {bs' : List Blk} {L' : Nat → Nat → List Nat}
    (h : PoolState base size s bs L) (h' : PoolState base size s' bs' L')
    (hlive : ∀ e, e ∈ s.live ↔ e ∈ s'.live) : bs = bs' := by
  refine layout_unique (a := base) h.inv.layout.noAdj h'.inv.layout.noAdj (h.tiles.trans h'.tiles.symm)
    fun x z => ?_
  constructor
  · intro hu
    obtain ⟨e, he, hptr, rfl⟩ := h.live hu
    obtain ⟨y, hy, hu'⟩ := h'.block e ((hlive e).mp he)
    obtain rfl : x = y := by omega
    exact hu'
  · intro hu
    obtain ⟨e, he, hptr, rfl⟩ := h'.live hu
    obtain ⟨y, hy, hu'⟩ := h.block e ((hlive e).mpr he)
    obtain rfl : x = y := by omega
    exact hu'

/-- A pool without live payloads is one free block. -/
theorem PoolState.layout_nil (h : PoolState base size s bs L) (hlive : s.live = []) :
    bs = [⟨poolPayload size, true⟩] := by
  refine layout_unique (a := base) h.inv.layout.noAdj ?_ h.tiles fun x z => ?_
  · exact List.isChain_singleton _
  · constructor
    · intro hu
      obtain ⟨e, he, _⟩ := h.live hu
      rw [hlive] at he
      nomatch he
    · intro hu
      rcases usedAt_cons.mp hu with ⟨_, heq⟩ | hu
      · exact absurd (Blk.mk.inj heq).2 nofun
      · nomatch hu

/-- **Frees commute.** In every reachable state, freeing the same live payloads in two orders gives the same
heap. Freeing all of them, in any order, gives the heap that `add_pool` has made: one free block, alone in
its list. -/
theorem reachable_freeAll (ha : PoolArgs base size) (hr : (poolSystem base size).Reachable s) {es : List Payload}
    (hes : es.Nodup) (hsub : es ⊆ s.live) :
    ∃ t m, freeAll s.tlsf s.mem (es.map Payload.ptr) = .ok (t, m) ∧
      (∀ fs : List Payload, fs.Perm es →
        ∃ t' m', freeAll s.tlsf s.mem (fs.map Payload.ptr) = .ok (t', m') ∧ SameHeap t m t' m') ∧
      (es.Perm s.live →
        (∀ m₀ t₁ m₁, addPool new m₀ base size = .ok (t₁, m₁) → SameHeap t₁ m₁ t m) ∧
        (∀ x, BlockAt m base x ↔ x = base ∨ x = base + 16 + poolPayload size) ∧
        Tlsf.size m base = poolPayload size ∧ isFree m base = true ∧
        ∀ fl sl x, OnChain (linkNext m) 0 (t.lists fl sl) x ↔
          x = base ∧ mapping (poolPayload size) = (fl, sl)) := by
  obtain ⟨bs, L, h⟩ := reachable_poolState ha hr
  obtain ⟨t, m, bs₁, L₁, hrun, h₁⟩ := h.freeAll_spec hes hsub
  have hstart : t.poolStart = base := h₁.start_eq
  have hend : t.poolEnd = base + size := h₁.end_eq
  refine ⟨t, m, hrun, fun fs hperm => ?_, fun hall => ?_⟩
  · obtain ⟨t', m', bs₂, L₂, hrun', h₂⟩ := h.freeAll_spec (hperm.nodup_iff.mpr hes)
      fun e he => hsub (hperm.subset he)
    have hsame : bs₁ = bs₂ := by
      apply h₁.layout_eq h₂
      intro e
      show e ∈ s.live.diff es ↔ e ∈ s.live.diff fs
      rw [hperm.diff_left s.live]
    subst hsame
    have hstart' : t'.poolStart = base := h₂.start_eq
    have hend' : t'.poolEnd = base + size := h₂.end_eq
    exact ⟨t', m', hrun', h₁.inv.sameHeap h₂.inv (hstart'.trans hstart.symm) (hend'.trans hend.symm)⟩
  · have hnil : s.live.diff es = [] := by
      rw [List.eq_nil_iff_forall_not_mem]
      intro e he
      rw [h.nodup.of_map.mem_sdiff_iff] at he
      exact he.2 (hall.mem_iff.mpr he.1)
    obtain rfl := h₁.layout_nil hnil
    have hcell : (base, (⟨poolPayload size, true⟩ : Blk)) ∈ cells t.poolStart [⟨poolPayload size, true⟩] := by
      rw [hstart]
      exact List.mem_cons_self
    have hblocks : ∀ x, BlockAt m base x ↔ x = base ∨ x = base + 16 + poolPayload size := by
      intro x
      have hiff := h₁.inv.blockAt_iff (x := x)
      rw [hstart] at hiff
      rw [hiff]
      simp [eq_comm, exists_or]
    refine ⟨fun m₀ t₁ m₁ hadd => ?_, hblocks, h₁.inv.size_eq hcell, ?_, fun fl sl x => ?_⟩
    · obtain ⟨t', m', hrun', hinv, hstart', hend', _⟩ := addPool_spec m₀ ha
      obtain ⟨rfl, rfl⟩ := Prod.mk.inj (Except.ok.inj (hadd.symm.trans hrun'))
      exact hinv.sameHeap h₁.inv (hstart.trans hstart'.symm) (hend.trans hend'.symm)
    · have hw := (h₁.inv.walkAt (i := 0) (by simp)).isFree
      rw [show walk _ _ 0 = base from hstart] at hw
      exact hw
    · have hiff := h₁.inv.onList_iff fl sl x
      rw [hstart] at hiff
      rw [hiff]
      constructor
      · rintro ⟨z, hz, hmap⟩
        rcases freeCells_cons.mp hz with ⟨rfl, hb⟩ | hz
        · exact ⟨rfl, by rw [(Blk.mk.inj hb).1]; exact hmap⟩
        · nomatch hz
      · rintro ⟨rfl, hmap⟩
        exact ⟨_, freeCells_cons.mpr (.inl ⟨rfl, rfl⟩), hmap⟩

/-- Two payloads on one page, freed in both orders. -/
theorem reachable_freeAll_page : ∃ (s : State) (t t' : TlsfAllocator) (m m' : Mem),
    s.live = [⟨4240, 200, 208⟩, ⟨4112, 100, 112⟩] ∧ freeAll s.tlsf s.mem [4240, 4112] = .ok (t, m) ∧
    freeAll s.tlsf s.mem [4112, 4240] = .ok (t', m') ∧ SameHeap t m t' m' ∧
    ∀ x, BlockAt m 4096 x ↔ x = 4096 ∨ x = 4096 + 16 + poolPayload 4096 := by
  obtain ⟨_, s, hlive, hr⟩ := exists_page
  obtain ⟨t, m, hrun, hperm, hall⟩ := reachable_freeAll (by decide) hr
    (show List.Nodup [⟨4240, 200, 208⟩, ⟨4112, 100, 112⟩] by decide) (by rw [hlive]; exact List.Subset.refl _)
  obtain ⟨t', m', hrun', hsame⟩ := hperm [⟨4112, 100, 112⟩, ⟨4240, 200, 208⟩] (.swap ..)
  exact ⟨s, t, t', m, m', hlive, hrun, hrun', hsame, (hall (by rw [hlive])).2.1⟩

end FerrumAlloc.Tlsf
