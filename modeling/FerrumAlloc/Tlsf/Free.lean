/-
# FerrumAlloc.Tlsf.Free -- `free` refines `Release`

`free` marks the block free, lets it absorb a free successor, lets a free predecessor absorb it, tags
the block behind the result and files the result. Between these steps the pool is an `Opened` pool
around the block in flight, and the free lists hold every free block but that one: this is `Freeing`.
Each merge takes one `Freeing` pool to another.
-/
import FerrumAlloc.Tlsf.Alloc

namespace FerrumAlloc.Tlsf

open Lib

/-! ## A pool with one block in flight -/

section

variable {t : TlsfAllocator} {m : Mem} {L : Nat → Nat → List Nat} {pre post rest : List Blk} {c : Blk}
  {s s₁ s₂ : Nat} {pf : Bool}

/-- A pool in which the block after `pre` is marked free but not filed. -/
structure Freeing (t : TlsfAllocator) (m : Mem) (L : Nat → Nat → List Nat) (pre : List Blk) (s : Nat)
    (post : List Blk) (pf : Bool) (c : Blk) (rest : List Blk) : Prop where
  layout : PoolLayout t.poolStart t.poolEnd (pre ++ ⟨s, false⟩ :: post)
  next : post ++ [sentinel] = c :: rest
  opened : Opened m t.poolStart pre ⟨s, true⟩ pf c rest
  filed : Filed t m L (freeCells t.poolStart (pre ++ ⟨s, false⟩ :: post))

/-- A used block in the middle of a layout takes over the free block behind it. -/
theorem PoolLayout.absorbNext {start stop : Nat}
    (h : PoolLayout start stop (pre ++ ⟨s, false⟩ :: ⟨s₂, true⟩ :: post)) :
    PoolLayout start stop (pre ++ ⟨s + 16 + s₂, false⟩ :: post) := by
  obtain ⟨h1, h2, _, _⟩ := noAdjacentFree_mid.mp h.noAdj
  obtain ⟨h4, _⟩ := noAdjacentFree_cons.mp h2
  have hs := h.blk ⟨s, false⟩ (by simp)
  have hs₂ := h.blk ⟨s₂, true⟩ (by simp)
  simp only at hs hs₂
  refine h.retile_mid [⟨s, false⟩, ⟨s₂, true⟩] [⟨s + 16 + s₂, false⟩] (fun a => ?_) ?_ ?_
  · simp only [endAddr_cons, endAddr_nil]
    omega
  · intro b hb
    rw [List.mem_singleton.mp hb]
    simp only
    omega
  · exact noAdjacentFree_mid.mpr ⟨h1, h4, fun _ _ _ => rfl, fun _ _ hf => by simp at hf⟩

/-- The free block in front of a used block takes the used block over. -/
theorem PoolLayout.absorbPrev {start stop : Nat}
    (h : PoolLayout start stop ((pre ++ [⟨s₁, true⟩]) ++ ⟨s, false⟩ :: post)) :
    PoolLayout start stop (pre ++ ⟨s₁ + 16 + s, false⟩ :: post) := by
  obtain ⟨h1, h2, _, _⟩ := noAdjacentFree_mid.mp h.noAdj
  obtain ⟨h3, _⟩ := noAdjacentFree_concat.mp h1
  have hs := h.blk ⟨s, false⟩ (by simp)
  have hs₁ := h.blk ⟨s₁, true⟩ (by simp)
  simp only at hs hs₁
  rw [List.append_assoc] at h
  refine h.retile_mid [⟨s₁, true⟩, ⟨s, false⟩] [⟨s₁ + 16 + s, false⟩] (fun a => ?_) ?_ ?_
  · simp only [endAddr_cons, endAddr_nil]
    omega
  · intro b hb
    rw [List.mem_singleton.mp hb]
    simp only
    omega
  · exact noAdjacentFree_mid.mpr ⟨h3, h2, fun _ _ _ => rfl, fun _ _ hf => by simp at hf⟩

/-- Merging two neighbours into a used block: the free blocks are those outside the two. -/
theorem freeCells_absorbNext {a x s' : Nat} :
    (freeCells a (pre ++ ⟨s, false⟩ :: ⟨s₂, true⟩ :: post)).erase (endAddr a pre + 16 + s) x s' ↔
      freeCells a (pre ++ ⟨s + 16 + s₂, false⟩ :: post) x s' := by
  have hlist : ∀ f, pre ++ ⟨s, false⟩ :: ⟨s₂, f⟩ :: post = (pre ++ [⟨s, false⟩]) ++ ⟨s₂, f⟩ :: post := by
    simp
  have haddr : endAddr a pre + 16 + s = endAddr a (pre ++ [⟨s, false⟩]) := by simp
  have hend : endAddr a pre + 16 + s + 16 + s₂ = endAddr a pre + 16 + (s + 16 + s₂) := by omega
  rw [hlist, haddr, freeCells_erase_mid, ← hlist, freeCells_mid, freeCells_mid, freeCells_cons]
  simp only [hend, Blk.mk.injEq, Bool.false_eq_true, and_false, false_or]

theorem freeCells_absorbPrev {a x s' : Nat} :
    (freeCells a ((pre ++ [⟨s₁, true⟩]) ++ ⟨s, false⟩ :: post)).erase (endAddr a pre) x s' ↔
      freeCells a (pre ++ ⟨s₁ + 16 + s, false⟩ :: post) x s' := by
  have hend : endAddr a pre + 16 + s₁ + 16 + s = endAddr a pre + 16 + (s₁ + 16 + s) := by omega
  rw [List.append_assoc, List.singleton_append, freeCells_erase_mid, freeCells_mid, freeCells_mid,
    freeCells_cons]
  simp only [hend, Blk.mk.injEq, Bool.false_eq_true, and_false, false_or]

/-- Merging leaves fewer bytes to the allocator. -/
theorem ownBytes_absorbNext {a : Nat} :
    ownBytes a (pre ++ ⟨s + 16 + s₂, false⟩ :: post) ⊆
      ownBytes a (pre ++ ⟨s, false⟩ :: ⟨s₂, true⟩ :: post) := by
  refine ownBytes_mono (fun x b hx => ?_) fun x s' hx => (freeCells_absorbNext.mpr hx).1
  have hend : endAddr a pre + 16 + s + 16 + s₂ = endAddr a pre + 16 + (s + 16 + s₂) := by omega
  simp only [cells_append, cells_cons, List.append_assoc, List.cons_append, List.mem_append,
    List.mem_cons, Prod.mk.injEq, hend] at hx ⊢
  rcases hx with hx | ⟨hx, _⟩ | hx
  · exact ⟨b, .inl hx⟩
  · exact ⟨⟨s, false⟩, .inr (.inl ⟨hx, rfl⟩)⟩
  · exact ⟨b, .inr (.inr (.inr hx))⟩

theorem ownBytes_absorbPrev {a : Nat} :
    ownBytes a (pre ++ ⟨s₁ + 16 + s, false⟩ :: post) ⊆
      ownBytes a ((pre ++ [⟨s₁, true⟩]) ++ ⟨s, false⟩ :: post) := by
  refine ownBytes_mono (fun x b hx => ?_) fun x s' hx => (freeCells_absorbPrev.mpr hx).1
  have hend : endAddr a pre + 16 + s₁ + 16 + s = endAddr a pre + 16 + (s₁ + 16 + s) := by omega
  simp only [cells_append, cells_cons, cells_nil, List.append_assoc, List.cons_append,
    List.nil_append, List.mem_append, List.mem_cons, Prod.mk.injEq, hend] at hx ⊢
  rcases hx with hx | ⟨hx, _⟩ | hx
  · exact ⟨b, .inl hx⟩
  · exact ⟨⟨s₁, true⟩, .inr (.inl ⟨hx, rfl⟩)⟩
  · exact ⟨b, .inr (.inr (.inr hx))⟩

/-! ## The two merges -/

/-- The header writes of a merge: a new size for the block at `x`, and its copy behind the block. -/
theorem grow_spec {b : Blk} {x ps pc ns : Nat} {pfc : Bool} (hb : HeaderAt m x b pf ps) (hbok : b.Ok)
    (hns : (⟨ns, b.free⟩ : Blk).Ok) (hc : HeaderAt m (x + 16 + ns) c pfc pc) :
    let m' := setPrevPhysSize (setSize m x ns) (x + 16 + ns) ns
    nextPhys (setSize m x ns) x = x + 16 + ns ∧ HeaderAt m' x ⟨ns, b.free⟩ pf ps ∧
      HeaderAt m' (x + 16 + ns) c pfc ns ∧
      Set.EqOn m' m (headerBytes x ∪ headerBytes (x + 16 + ns))ᶜ := by
  intro m'
  have e₁ : Set.EqOn (setSize m x ns) m (headerBytes x)ᶜ := setSizeAndFlags_eqOn m x _
  have e₂ : Set.EqOn m' (setSize m x ns) (headerBytes (x + 16 + ns))ᶜ := setPrevPhysSize_eqOn _ _ _
  have hx : HeaderAt (setSize m x ns) x ⟨ns, b.free⟩ pf ps := hb.setSize hbok hns
  have hc' : HeaderAt (setSize m x ns) (x + 16 + ns) c pfc pc := hc.frame fun z hz => e₁ (by
    rw [mem_headerBytes] at hz
    rw [Set.mem_compl_iff, mem_headerBytes]; omega)
  refine ⟨hx.nextPhys_eq hns, hx.frame fun z hz => e₂ ?_, ?_, eqOn_compl_trans e₁ e₂⟩
  · rw [mem_headerBytes] at hz
    rw [Set.mem_compl_iff, mem_headerBytes]; omega
  · exact hc'.setPrevPhysSize (lt_trans hns.lt (by norm_num))

namespace Freeing

/-- The end of a merge: the header of the joint block and the tag behind it are written. -/
theorem of_grow {m' : Mem} (hl : PoolLayout t.poolStart t.poolEnd (pre ++ ⟨s, false⟩ :: post))
    (hnext : post ++ [sentinel] = c :: rest) (ho : Opened m' t.poolStart pre ⟨s, true⟩ pf c rest)
    (hf : Filed t m L (freeCells t.poolStart (pre ++ ⟨s, false⟩ :: post)))
    (hm : Set.EqOn m' m (headerBytes (endAddr t.poolStart pre) ∪ headerBytes (endAddr t.poolStart pre + 16 + s))ᶜ) :
    Freeing t m' L pre s post pf c rest ∧
      Set.EqOn m' m (ownBytes t.poolStart (pre ++ ⟨s, false⟩ :: post))ᶜ := by
  have hmin : ∀ d ∈ pre ++ ⟨s, false⟩ :: post, 16 ≤ d.size := fun d hd => (hl.blk d hd).1
  refine ⟨⟨hl, hnext, ho, hf.frame ?_⟩, eqOn_compl_mono hm ?_⟩
  · rintro z ⟨y, s', hy, hz⟩
    refine hm ?_
    rintro (hz' | hz')
    · exact header_link_disjoint hmin cell_mid hy hz' hz
    · exact header_link_disjoint hmin (cell_next hnext) hy hz' hz
  · exact Set.union_subset (header_own cell_mid) (header_own (cell_next hnext))

/-- Changes to the allocator's own headers keep the free lists. -/
theorem hmin (h : Freeing t m L pre s post pf c rest) :
    ∀ d ∈ pre ++ ⟨s, false⟩ :: post, 16 ≤ d.size := fun d hd => (h.layout.blk d hd).1

theorem block_ok (h : Freeing t m L pre s post pf c rest) (f : Bool) : (⟨s, f⟩ : Blk).Ok :=
  ⟨h.layout.mid_ok.al, h.layout.mid_ok.lt⟩

/-- **`merge_next`**. -/
theorem mergeNext_spec (h : Freeing t m L pre s post false c rest) :
    ∃ t' m' L' s' post' pf' c' rest',
      mergeNext t m (endAddr t.poolStart pre) = .ok (t', m', endAddr t.poolStart pre) ∧
      AbsorbNext L (endAddr t.poolStart pre + 16 + s) s post s' post' L' ∧
      Freeing t' m' L' pre s' post' pf' c' rest' ∧
      (∀ d ∈ post'.head?, d.free = false) ∧
      t'.poolStart = t.poolStart ∧ t'.poolEnd = t.poolEnd ∧
      ownBytes t.poolStart (pre ++ ⟨s', false⟩ :: post') ⊆
        ownBytes t.poolStart (pre ++ ⟨s, false⟩ :: post) ∧
      Set.EqOn m' m (ownBytes t.poolStart (pre ++ ⟨s, false⟩ :: post))ᶜ := by
  obtain ⟨b, hb⟩ : ∃ x, x = endAddr t.poolStart pre := ⟨_, rfl⟩
  rw [← hb]
  have hcok : c.Ok := h.layout.next_ok h.next
  have hbok := h.block_ok true
  have ho := h.opened
  have hnext : nextPhys m b = b + 16 + s := hb ▸ ho.hdr.nextPhys_eq hbok
  have hcfree : isFree m (b + 16 + s) = c.free := hb ▸ ho.next.isFree_eq hcok
  by_cases hc : c.free = true
  · -- the next block is a free block of the pool: unlink it and take it over
    obtain ⟨post, rfl⟩ : ∃ post', post = c :: post' := by
      cases post with
      | nil =>
        obtain ⟨rfl, _⟩ := List.cons.inj h.next
        exact absurd hc (by decide)
      | cons d post =>
        obtain ⟨rfl, _⟩ := List.cons.inj h.next
        exact ⟨post, rfl⟩
    obtain ⟨s₂, f⟩ := c
    simp only at hc
    subst hc
    have hrest : post ++ [sentinel] = rest := (List.cons.inj h.next).2
    obtain ⟨c', rest', hnext'⟩ := exists_next post
    have hrest' : rest = c' :: rest' := hrest.symm.trans hnext'
    subst hrest'
    have hfc : freeCells t.poolStart (pre ++ ⟨s, false⟩ :: ⟨s₂, true⟩ :: post) (b + 16 + s) s₂ := by
      rw [freeCells, cells_append, hb]
      exact List.mem_append_right _ (List.mem_cons_of_mem _ List.mem_cons_self)
    have hsize : size m (b + 16 + s) = s₂ := hb ▸ ho.next.size_eq hcok
    obtain ⟨t', hrem, hfiled, hps, hpe⟩ := removeFree_spec h.filed hfc hsize Prod.mk.eta.symm
    obtain ⟨m₁, hm₁⟩ : ∃ x, x = unlinkMem m (b + 16 + s) := ⟨_, rfl⟩
    have e₁ : Set.EqOn m₁ m (freeCells t.poolStart
        (pre ++ ⟨s, false⟩ :: ⟨s₂, true⟩ :: post)).linksᶜ := hm₁ ▸ unlinkMem_eqOn h.filed hfc
    have ho₁ : Opened m₁ t.poolStart pre ⟨s, true⟩ false ⟨s₂, true⟩ (c' :: rest') :=
      ho.frame_links h.next h.hmin (fun _ _ hx => hx) e₁
    -- the joint size goes into the header and behind the block
    have hlay := h.layout.absorbNext
    obtain ⟨ns, hns⟩ : ∃ x, x = s + 16 + s₂ := ⟨_, rfl⟩
    have hnsok : (⟨ns, true⟩ : Blk).Ok := by
      have := hlay.mid_ok
      exact ⟨hns ▸ this.al, hns ▸ this.lt⟩
    have hhdr := ho₁.hdr
    have hafter := ho₁.after.1
    have haddr : endAddr t.poolStart pre + 16 + s + 16 + s₂ = endAddr t.poolStart pre + 16 + ns := by
      omega
    simp only [haddr] at hafter
    obtain ⟨hn₂, hx₂, hc₂, e₂⟩ := grow_spec hhdr hbok hnsok hafter
    obtain ⟨m₂, hm₂⟩ : ∃ x, x = setPrevPhysSize (setSize m₁ (endAddr t.poolStart pre) ns)
      (endAddr t.poolStart pre + 16 + ns) ns := ⟨_, rfl⟩
    rw [← hm₂] at hx₂ hc₂ e₂
    have ho₂ : Opened m₂ t.poolStart pre ⟨ns, true⟩ true c' rest' := by
      rw [hns] at hx₂ hc₂ e₂ ⊢
      exact ho₁.absorbNext e₂ hx₂ hc₂
    have hfiled₁ : Filed t' m₁ (unfile L (b + 16 + s) s₂)
        (freeCells t'.poolStart (pre ++ ⟨ns, false⟩ :: post)) := by
      rw [hps, hm₁, hns, hb]
      rw [hb] at hfiled
      exact hfiled.congr_set fun x s' => freeCells_absorbNext
    obtain ⟨hf₂, hown₂⟩ := of_grow (by rw [hps, hpe, hns]; exact hlay) hnext' (by rw [hps]; exact ho₂) hfiled₁
      (by rw [hps]; exact e₂)
    rw [hps, hns] at hown₂
    refine ⟨t', m₂, unfile L (b + 16 + s) s₂, ns, post, true, c', rest', ?_, ?_, hf₂, ?_, hps, hpe, ?_, ?_⟩
    · have hsz₁ : size m₁ b = s := hb ▸ ho₁.hdr.size_eq hbok
      have hsz₂ : size m₁ (b + 16 + s) = s₂ := hb ▸ ho₁.next.size_eq hcok
      have hsum : s + headerSize + s₂ = ns := hns.symm
      rw [← hm₁] at hrem
      rw [← hb] at hn₂ hm₂
      simp only [mergeNext, hnext, hcfree, if_true, hrem, Exec.bind_ok, hsz₁, hsz₂, hsum, hn₂,
        ← hm₂, Exec.pure_eq]
    · rw [hns]; exact .free
    · have hadj := (noAdjacentFree_mid.mp h.layout.noAdj).2.1
      exact fun d hd => (noAdjacentFree_cons.mp hadj).2 d hd rfl
    · rw [hns]; exact ownBytes_absorbNext
    · refine eqOn_compl_mono (eqOn_compl_trans e₁ hown₂) ?_
      exact Set.union_subset links_own ownBytes_absorbNext
  · refine ⟨t, m, L, s, post, false, c, rest, ?_, .used ?_, h, ?_, rfl, rfl, subset_rfl,
      Set.eqOn_refl _ _⟩
    · simp only [mergeNext, hnext, hcfree, if_neg hc, Exec.pure_eq]
    all_goals
      intro d hd
      cases post with
      | nil => simp at hd
      | cons d' post =>
        obtain ⟨rfl, _⟩ := List.cons.inj h.next
        simp only [List.head?_cons, Option.mem_def, Option.some.injEq] at hd
        rw [← hd]
        simpa using hc

/-- **`merge_prev`**. -/
theorem mergePrev_spec (h : Freeing t m L pre s post pf c rest) :
    ∃ t' m' L' s' pre',
      mergePrev t m (endAddr t.poolStart pre) = .ok (t', m', endAddr t.poolStart pre') ∧
      AbsorbPrev t.poolStart L s pre pre' s' L' ∧
      Freeing t' m' L' pre' s' post pf c rest ∧
      (∀ d ∈ pre'.getLast?, d.free = false) ∧
      t'.poolStart = t.poolStart ∧ t'.poolEnd = t.poolEnd ∧
      ownBytes t.poolStart (pre' ++ ⟨s', false⟩ :: post) ⊆
        ownBytes t.poolStart (pre ++ ⟨s, false⟩ :: post) ∧
      Set.EqOn m' m (ownBytes t.poolStart (pre ++ ⟨s, false⟩ :: post))ᶜ := by
  have hbok := h.block_ok true
  have ho := h.opened
  have hflag : prevIsFree m (endAddr t.poolStart pre) = endFree false pre :=
    ho.hdr.prevIsFree_eq hbok
  by_cases hp : endFree false pre = true
  · -- the previous block is free: unlink it and let it take this one over
    obtain ⟨_, hp'⟩ | ⟨pre, ⟨s₁, f⟩, rfl, hf⟩ := endFree_eq_true hp
    · simp at hp'
    simp only at hf
    subst hf
    obtain ⟨a, ha⟩ : ∃ x, x = endAddr t.poolStart pre := ⟨_, rfl⟩
    have hend : endAddr t.poolStart (pre ++ [⟨s₁, true⟩]) = a + 16 + s₁ := by
      rw [endAddr_append, ← ha]; rfl
    have hprevAt : HeaderAt m a ⟨s₁, true⟩ (endFree false pre) (endSize 0 pre) := by
      rw [ha]; exact (seg_append.mp ho.before).2.1
    have hs₁ok : (⟨s₁, true⟩ : Blk).Ok := by
      have hl := h.layout
      rw [List.append_assoc, List.singleton_append] at hl
      exact hl.mid_ok
    have hprev : prevPhys m (a + 16 + s₁) = a := by
      rw [prevPhys, ← hend, ho.hdr.prevPhysSize_eq, endSize_append, endSize_cons, endSize_nil, hend,
        headerSize]
      simp only
      omega
    have hfp : freeCells t.poolStart ((pre ++ [⟨s₁, true⟩]) ++ ⟨s, false⟩ :: post) a s₁ := by
      rw [freeCells, ha, List.append_assoc, cells_append]
      exact List.mem_append_right _ List.mem_cons_self
    obtain ⟨t', hrem, hfiled, hps, hpe⟩ :=
      removeFree_spec h.filed hfp (hprevAt.size_eq hs₁ok) Prod.mk.eta.symm
    obtain ⟨m₁, hm₁⟩ : ∃ x, x = unlinkMem m a := ⟨_, rfl⟩
    have e₁ : Set.EqOn m₁ m (freeCells t.poolStart
        ((pre ++ [⟨s₁, true⟩]) ++ ⟨s, false⟩ :: post)).linksᶜ := hm₁ ▸ unlinkMem_eqOn h.filed hfp
    rw [← hm₁] at hrem hfiled
    have ho₁ : Opened m₁ t.poolStart (pre ++ [⟨s₁, true⟩]) ⟨s, true⟩ pf c rest :=
      ho.frame_links h.next h.hmin (fun _ _ hx => hx) e₁
    have hprevAt₁ : HeaderAt m₁ a ⟨s₁, true⟩ (endFree false pre) (endSize 0 pre) := by
      rw [ha]; exact (seg_append.mp ho₁.before).2.1
    -- the joint size goes into the header and behind the block
    have hlay := h.layout.absorbPrev
    obtain ⟨ns, hns⟩ : ∃ x, x = s₁ + 16 + s := ⟨_, rfl⟩
    have hnsok : (⟨ns, true⟩ : Blk).Ok := by
      have := hlay.mid_ok
      exact ⟨hns ▸ this.al, hns ▸ this.lt⟩
    have haddr : a + 16 + s₁ + 16 + s = a + 16 + ns := by omega
    have hnextAt := ho₁.next
    simp only [hend, haddr] at hnextAt
    obtain ⟨hn₂, hx₂, hc₂, e₂⟩ := grow_spec hprevAt₁ hs₁ok hnsok hnextAt
    obtain ⟨m₂, hm₂⟩ : ∃ x, x = setPrevPhysSize (setSize m₁ a ns) (a + 16 + ns) ns := ⟨_, rfl⟩
    rw [← hm₂] at hx₂ hc₂ e₂
    have ho₂ : Opened m₂ t.poolStart pre ⟨ns, true⟩ pf c rest := by
      rw [hns, ha] at hx₂ hc₂ e₂
      rw [hns]
      exact ho₁.absorbPrev e₂ hx₂ hc₂
    have hfiled₁ : Filed t' m₁ (unfile L a s₁) (freeCells t'.poolStart (pre ++ ⟨ns, false⟩ :: post)) := by
      rw [hps, hns, ha]
      rw [ha] at hfiled
      exact hfiled.congr_set fun x s' => freeCells_absorbPrev
    obtain ⟨hf₂, hown₂⟩ := of_grow (by rw [hps, hpe, hns]; exact hlay) h.next (by rw [hps]; exact ho₂) hfiled₁
      (by rw [hps, ← ha]; exact e₂)
    rw [hps, hns] at hown₂
    refine ⟨t', m₂, unfile L a s₁, ns, pre, ?_, ?_, hf₂, ?_, hps, hpe, ?_, ?_⟩
    · have hsz₁ : size m₁ a = s₁ := hprevAt₁.size_eq hs₁ok
      have hsz₂ : size m₁ (a + 16 + s₁) = s := hend ▸ ho₁.hdr.size_eq hbok
      have hsum : s₁ + headerSize + s = ns := hns.symm
      rw [hend] at hflag ⊢
      rw [hp] at hflag
      rw [← ha]
      simp only [mergePrev, hflag, if_true, hprev, hrem, Exec.bind_ok, hsz₁, hsz₂, hsum, hn₂,
        ← hm₂, Exec.pure_eq]
    · rw [hns, ha]; exact .free
    · have hadj := (noAdjacentFree_mid.mp h.layout.noAdj).1
      intro d hd
      by_contra hdf
      have := (noAdjacentFree_concat.mp hadj).2 d hd (by simpa using hdf)
      simp at this
    · rw [hns]; exact ownBytes_absorbPrev
    · refine eqOn_compl_mono (eqOn_compl_trans e₁ hown₂) ?_
      exact Set.union_subset links_own ownBytes_absorbPrev
  · refine ⟨t, m, L, s, pre, ?_, .used (by simpa using hp), h, ?_, rfl, rfl, subset_rfl,
      Set.eqOn_refl _ _⟩
    · simp only [mergePrev, hflag, if_neg hp, Exec.pure_eq]
    · intro d hd
      rcases List.eq_nil_or_concat pre with rfl | ⟨l, e, rfl⟩
      · simp at hd
      · rw [List.concat_eq_append] at hp hd
        simp only [List.getLast?_append, List.getLast?_singleton, Option.some_or, Option.mem_def,
          Option.some.injEq] at hd
        rw [← hd]
        simpa using hp

end Freeing

end

/-! ## `free` -/

section

variable {t : TlsfAllocator} {m : Mem} {bs : List Blk} {L : Nat → Nat → List Nat} {x s : Nat}

/-- What `free` of a used block does: one `Release`, with the invariant kept and no byte changed that
is not the allocator's own. -/
structure Released (t : TlsfAllocator) (m : Mem) (bs : List Blk) (L : Nat → Nat → List Nat) (p : Nat)
    (t' : TlsfAllocator) (m' : Mem) (bs' : List Blk) (L' : Nat → Nat → List Nat) : Prop where
  release : Release t.poolStart L bs p bs' L'
  inv : PoolInv t' m' bs' L'
  start_eq : t'.poolStart = t.poolStart
  end_eq : t'.poolEnd = t.poolEnd
  frame : Set.EqOn m' m (ownBytes t.poolStart bs ∪ ownBytes t.poolStart bs')ᶜ

/-- The end of `free`: the block in flight is tagged and filed. -/
theorem Freeing.finish {pre post rest : List Blk} {pf : Bool} {c : Blk}
    (h : Freeing t m L pre s post pf c rest) (hnext : ∀ d ∈ post.head?, d.free = false)
    (hprev : ∀ d ∈ pre.getLast?, d.free = false) :
    let b := endAddr t.poolStart pre
    let m₁ := markPrevFree m (nextPhys m b)
    let m₂ := setPrevPhysSize m₁ (nextPhys m b) (size m₁ b)
    ∃ t' m', insertFree t m₂ b = .ok (t', m') ∧
      PoolInv t' m' (pre ++ ⟨s, true⟩ :: post) (file L b s) ∧
      t'.poolStart = t.poolStart ∧ t'.poolEnd = t.poolEnd ∧
      Set.EqOn m' m (ownBytes t.poolStart (pre ++ ⟨s, true⟩ :: post))ᶜ := by
  intro b m₁ m₂
  have hbok := h.block_ok true
  have hcok : c.Ok := h.layout.next_ok h.next
  have hn : nextPhys m b = b + 16 + s := h.opened.hdr.nextPhys_eq hbok
  have e₁ : Set.EqOn m₁ m (headerBytes (b + 16 + s))ᶜ := hn ▸ setSizeAndFlags_eqOn m _ _
  have ho₁ : Opened m₁ t.poolStart pre ⟨s, true⟩ true c rest := by
    refine h.opened.setNext e₁ ?_
    simp only [m₁, hn]
    exact h.opened.next.markPrevFree hcok
  have hsz₁ : size m₁ b = s := ho₁.hdr.size_eq hbok
  have e₂ : Set.EqOn m₂ m₁ (headerBytes (b + 16 + s))ᶜ := hn ▸ setPrevPhysSize_eqOn m₁ _ _
  have ho₂ : Opened m₂ t.poolStart pre ⟨s, true⟩ true c rest := by
    refine ho₁.setNext e₂ ?_
    simp only [m₂, hn, hsz₁]
    exact ho₁.next.setPrevPhysSize (lt_trans hbok.lt (by norm_num))
  -- the layout with the block free
  obtain ⟨h1, h2, _, _⟩ := noAdjacentFree_mid.mp h.layout.noAdj
  have hlay : PoolLayout t.poolStart t.poolEnd (pre ++ ⟨s, true⟩ :: post) := by
    refine h.layout.retile_mid [⟨s, false⟩] [⟨s, true⟩] (fun a => rfl) ?_ (noAdjacentFree_mid.mpr ⟨h1, h2, ?_, ?_⟩)
    · intro d hd
      rw [List.mem_singleton.mp hd]
      exact h.layout.blk ⟨s, false⟩ (by simp)
    · intro d hd hf
      rw [hprev d hd] at hf
      exact absurd hf Bool.false_ne_true
    · exact fun d hd _ => hnext d hd
  have hmin : ∀ d ∈ pre ++ ⟨s, true⟩ :: post, 16 ≤ d.size := fun d hd => (hlay.blk d hd).1
  have hlist : (pre ++ ⟨s, true⟩ :: post) ++ [sentinel] = pre ++ ⟨s, true⟩ :: c :: rest := by
    simp [h.next]
  have hcellc : (b + 16 + s, c) ∈ cells t.poolStart ((pre ++ ⟨s, true⟩ :: post) ++ [sentinel]) :=
    cell_next h.next
  -- filing it
  have hfiled₂ : Filed t m₂ L (freeCells t.poolStart (pre ++ ⟨s, false⟩ :: post)) := by
    refine h.filed.frame fun z hlink => ?_
    obtain ⟨y, s', hy, hz⟩ := hlink
    apply eqOn_compl_trans e₁ e₂
    rw [Set.union_self]
    have hy' := ((freeCells_insert_mid y s').mp (.inl hy))
    exact fun hz' => header_link_disjoint hmin hcellc hy' hz' hz
  obtain ⟨t', m₃, hins, hfiled₃, hps, hpe, e₃⟩ := hfiled₂.insert_mid hlay (ho₂.hdr.size_eq hbok)
  have ho₃ := ho₂.frame_links h.next hmin (fun _ _ hy => hy) e₃
  refine ⟨t', m₃, hins, ⟨?_, ?_, ?_⟩, hps, hpe, ?_⟩
  · rw [hps, hpe]; exact hlay
  · rw [hps, hlist]; exact ho₃.close
  · rw [hps]; exact hfiled₃
  · refine eqOn_compl_mono (eqOn_compl_trans (eqOn_compl_trans e₁ e₂) e₃) ?_
    exact Set.union_subset (Set.union_subset (header_own hcellc) (header_own hcellc)) links_own

/-- **`free`** of a used block releases it. -/
theorem free_spec (h : PoolInv t m bs L) (hu : UsedAt t.poolStart bs x s) :
    ∃ t' m' bs' L', free t m (x + 16) = .ok (t', m') ∧
      Released t m bs L (x + 16) t' m' bs' L' := by
  obtain ⟨pre, post, rfl, rfl⟩ := cells_split hu
  obtain ⟨c, rest, hnext⟩ := exists_next post
  obtain ⟨m₁, hm₁⟩ : ∃ z, z = setFree m (endAddr t.poolStart pre) := ⟨_, rfl⟩
  have e₁ : Set.EqOn m₁ m (headerBytes (endAddr t.poolStart pre))ᶜ :=
    hm₁ ▸ setSizeAndFlags_eqOn m _ _
  have hseg := h.seg
  rw [List.append_assoc, List.cons_append, hnext] at hseg
  have hmin : ∀ d ∈ pre ++ ⟨s, false⟩ :: post, 16 ≤ d.size := fun d hd => (h.layout.blk d hd).1
  -- the block in flight
  have hf₁ : Freeing t m₁ L pre s post false c rest :=
    ⟨h.layout, hnext, hseg.open.setHdr e₁ rfl (hm₁ ▸ hseg.open.hdr.setFree h.layout.mid_ok),
      h.filed.frame_header hmin cell_mid e₁⟩
  -- the two merges
  obtain ⟨t₂, m₂, L₂, s₂, post₂, pf₂, c₂, rest₂, hrun₂, habs₂, hf₂, hnu, hps₂, hpe₂, hown₂, e₂⟩ :=
    hf₁.mergeNext_spec
  obtain ⟨t₃, m₃, L₃, s₃, pre₃, hrun₃, habs₃, hf₃, hpu, hps₃, hpe₃, hown₃, e₃⟩ := hf₂.mergePrev_spec
  rw [hps₂] at hrun₃ habs₃ hown₃ e₃
  obtain ⟨t₄, m₄, hrun₄, hinv, hps₄, hpe₄, e₄⟩ := hf₃.finish hnu hpu
  have hstart : t₃.poolStart = t.poolStart := hps₃.trans hps₂
  rw [hstart] at hrun₄ hinv e₄
  refine ⟨t₄, m₄, _, _, ?_, ⟨.mk habs₂ habs₃, hinv, hps₄.trans hstart,
    hpe₄.trans (hpe₃.trans hpe₂), ?_⟩⟩
  · have hne : endAddr t.poolStart pre + 16 ≠ 0 := by omega
    have hfrom : fromPayload (endAddr t.poolStart pre + 16) = endAddr t.poolStart pre :=
      Nat.add_sub_cancel _ 16
    simp only [free, if_neg hne, hfrom, ← hm₁, hrun₂, hrun₃, hrun₄, Exec.bind_ok]
  · refine eqOn_compl_mono (eqOn_compl_trans (eqOn_compl_trans (eqOn_compl_trans e₁ e₂) e₃) e₄) ?_
    refine Set.union_subset_union (Set.union_subset (Set.union_subset ?_ subset_rfl) hown₂) subset_rfl
    exact header_own cell_mid

end

end FerrumAlloc.Tlsf
