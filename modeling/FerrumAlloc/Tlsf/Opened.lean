/-
# FerrumAlloc.Tlsf.Opened -- a pool taken apart around one block

While a block is being split, merged or freed, the boundary tag of the block after it is stale, so the
pool is not a segment. `Opened m start pre b pf c rest` is the intermediate shape: the blocks before
`b`, the header of `b`, the header of the next block `c` whose recorded `F_PREV_FREE` bit is `pf`, and
the blocks after it. The header updates of the source move from one opened pool to another; when the
tag of `c` is right again, `Opened.close` gives back a segment.
-/
import FerrumAlloc.Tlsf.Pool

namespace FerrumAlloc.Tlsf

open Lib

/-- The pool around block `b`, whose successor `c` records `pf` as its previous-free bit. -/
structure Opened (m : Mem) (start : Nat) (pre : List Blk) (b : Blk) (pf : Bool) (c : Blk)
    (rest : List Blk) : Prop where
  before : Seg m start false 0 pre
  hdr : HeaderAt m (endAddr start pre) b (endFree false pre) (endSize 0 pre)
  next : HeaderAt m (endAddr start pre + 16 + b.size) c pf b.size
  after : Seg m (endAddr start pre + 16 + b.size + 16 + c.size) c.free c.size rest

/-- Segments see their own range only. -/
theorem Seg.frame_below {m m' : Mem} {a : Nat} {pf : Bool} {ps : Nat} {l : List Blk}
    (h : Seg m a pf ps l) (hm : ∀ z, z < endAddr a l → m' z = m z) : Seg m' a pf ps l :=
  h.frame fun x b hx z hz => hm z (by
    have := cells_hi hx
    rw [mem_headerBytes] at hz
    omega)

theorem Seg.frame_above {m m' : Mem} {a : Nat} {pf : Bool} {ps : Nat} {l : List Blk}
    (h : Seg m a pf ps l) (hm : ∀ z, a ≤ z → m' z = m z) : Seg m' a pf ps l :=
  h.frame fun x b hx z hz => hm z (by
    have := cells_lo hx
    rw [mem_headerBytes] at hz
    omega)

/-- The block list behind `b`, sentinel included, is never empty. -/
theorem exists_next (post : List Blk) : ∃ c rest, post ++ [sentinel] = c :: rest := by
  cases post with
  | nil => exact ⟨sentinel, [], rfl⟩
  | cons c post => exact ⟨c, post ++ [sentinel], rfl⟩

/-- A block of a pool and the block behind it, possibly the sentinel. -/
theorem cell_mid {a : Nat} {pre post : List Blk} {b : Blk} :
    (endAddr a pre, b) ∈ cells a ((pre ++ b :: post) ++ [sentinel]) := by
  simp

theorem cell_next {a : Nat} {pre post rest : List Blk} {b c : Blk} (hnext : post ++ [sentinel] = c :: rest) :
    (endAddr a pre + 16 + b.size, c) ∈ cells a ((pre ++ b :: post) ++ [sentinel]) := by
  rw [List.append_assoc, List.cons_append, hnext]
  simp

/-- A pool may be opened at any of its blocks. -/
theorem Seg.open {m : Mem} {start : Nat} {pre : List Blk} {b c : Blk} {rest : List Blk}
    (h : Seg m start false 0 (pre ++ b :: c :: rest)) : Opened m start pre b b.free c rest := by
  obtain ⟨h1, h2, h3, h4⟩ := seg_append.mp h
  exact ⟨h1, h2, h3, h4⟩

namespace Opened

variable {m m' : Mem} {start : Nat} {pre : List Blk} {b b' c c' : Blk} {pf pf' : Bool}
  {rest post : List Blk}

/-- An opened pool whose tag is right is a segment. -/
theorem close (h : Opened m start pre b b.free c rest) :
    Seg m start false 0 (pre ++ b :: c :: rest) :=
  seg_append.mpr ⟨h.before, h.hdr, h.next, h.after⟩

/-- Rewriting the header of `b` with the same size. -/
theorem setHdr (h : Opened m start pre b pf c rest)
    (hm : Set.EqOn m' m (headerBytes (endAddr start pre))ᶜ) (hs : b'.size = b.size)
    (hh : HeaderAt m' (endAddr start pre) b' (endFree false pre) (endSize 0 pre)) :
    Opened m' start pre b' pf c rest where
  before := h.before.frame_below fun z hz => hm (by
    rw [Set.mem_compl_iff, mem_headerBytes]; omega)
  hdr := hh
  next := by
    rw [hs]
    exact h.next.frame fun z hz => hm (by
      rw [mem_headerBytes] at hz
      rw [Set.mem_compl_iff, mem_headerBytes]; omega)
  after := by
    rw [hs]
    exact h.after.frame_above fun z hz => hm (by
      rw [Set.mem_compl_iff, mem_headerBytes]; omega)

/-- Rewriting the tag of the block after `b`. -/
theorem setNext (h : Opened m start pre b pf c rest)
    (hm : Set.EqOn m' m (headerBytes (endAddr start pre + 16 + b.size))ᶜ)
    (hh : HeaderAt m' (endAddr start pre + 16 + b.size) c pf' b.size) :
    Opened m' start pre b pf' c rest where
  before := h.before.frame_below fun z hz => hm (by
    rw [Set.mem_compl_iff, mem_headerBytes]; omega)
  hdr := h.hdr.frame fun z hz => hm (by
    rw [mem_headerBytes] at hz
    rw [Set.mem_compl_iff, mem_headerBytes]; omega)
  next := hh
  after := h.after.frame_above fun z hz => hm (by
    rw [Set.mem_compl_iff, mem_headerBytes]; omega)

/-- Writes to the links of free blocks do not show in an opened pool, whatever flag its block has. -/
theorem frame_links {F : FreeSet} {f : Bool} (h : Opened m start pre b pf c rest)
    (hpost : post ++ [sentinel] = c :: rest) (hmin : ∀ d ∈ pre ++ ⟨b.size, f⟩ :: post, 16 ≤ d.size)
    (hF : ∀ x s, F x s → freeCells start (pre ++ ⟨b.size, f⟩ :: post) x s)
    (hm : Set.EqOn m' m F.linksᶜ) : Opened m' start pre b pf c rest := by
  have hcell : ∀ x d, (x, d) ∈ cells start (pre ++ ⟨b.size, f⟩ :: c :: rest) →
      Set.EqOn m' m (headerBytes x) := by
    intro x d hx z hz
    refine hm ?_
    rintro ⟨y, s, hy, hzy⟩
    have hx' : (x, d) ∈ cells start ((pre ++ ⟨b.size, f⟩ :: post) ++ [sentinel]) := by
      rw [List.append_assoc, List.cons_append, hpost]; exact hx
    exact header_link_disjoint hmin hx' (hF y s hy) hz hzy
  simp only [cells_append, cells_cons, List.mem_append, List.mem_cons] at hcell
  exact ⟨h.before.frame fun x d hx => hcell x d (.inl hx),
    h.hdr.frame (hcell _ ⟨b.size, f⟩ (.inr (.inl rfl))),
    h.next.frame (hcell _ c (.inr (.inr (.inl rfl)))),
    h.after.frame fun x d hx => hcell x d (.inr (.inr (.inr hx)))⟩

/-- `b` has absorbed the free block after it: its header has the joint size, and the block that now
follows records that size. -/
theorem absorbNext {s₂ : Nat} (h : Opened m start pre b pf ⟨s₂, true⟩ (c :: rest))
    (hm : Set.EqOn m' m (headerBytes (endAddr start pre) ∪
      headerBytes (endAddr start pre + 16 + (b.size + 16 + s₂)))ᶜ)
    (hb : HeaderAt m' (endAddr start pre) ⟨b.size + 16 + s₂, b.free⟩ (endFree false pre)
      (endSize 0 pre))
    (hc : HeaderAt m' (endAddr start pre + 16 + (b.size + 16 + s₂)) c true (b.size + 16 + s₂)) :
    Opened m' start pre ⟨b.size + 16 + s₂, b.free⟩ true c rest where
  before := h.before.frame_below fun z hz => hm (by
    rw [Set.mem_compl_iff, Set.mem_union, mem_headerBytes, mem_headerBytes]; omega)
  hdr := hb
  next := hc
  after := by
    have hrest := h.after.2
    simp only at hrest
    rw [show endAddr start pre + 16 + b.size + 16 + s₂ + 16 + c.size
      = endAddr start pre + 16 + (b.size + 16 + s₂) + 16 + c.size by omega] at hrest
    exact hrest.frame_above fun z hz => hm (by
      rw [Set.mem_compl_iff, Set.mem_union, mem_headerBytes, mem_headerBytes]; omega)

/-- `b` has been absorbed by the free block before it. -/
theorem absorbPrev {s₁ : Nat} (h : Opened m start (pre ++ [⟨s₁, true⟩]) b pf c rest)
    (hm : Set.EqOn m' m (headerBytes (endAddr start pre) ∪
      headerBytes (endAddr start pre + 16 + (s₁ + 16 + b.size)))ᶜ)
    (hb : HeaderAt m' (endAddr start pre) ⟨s₁ + 16 + b.size, true⟩ (endFree false pre)
      (endSize 0 pre))
    (hc : HeaderAt m' (endAddr start pre + 16 + (s₁ + 16 + b.size)) c pf (s₁ + 16 + b.size)) :
    Opened m' start pre ⟨s₁ + 16 + b.size, true⟩ pf c rest where
  before := (seg_append.mp h.before).1.frame_below fun z hz => hm (by
    rw [Set.mem_compl_iff, Set.mem_union, mem_headerBytes, mem_headerBytes]; omega)
  hdr := hb
  next := hc
  after := by
    have hrest := h.after
    simp only [endAddr_append, endAddr_cons, endAddr_nil] at hrest
    rw [show endAddr start pre + 16 + s₁ + 16 + b.size + 16 + c.size
      = endAddr start pre + 16 + (s₁ + 16 + b.size) + 16 + c.size by omega] at hrest
    exact hrest.frame_above fun z hz => hm (by
      rw [Set.mem_compl_iff, Set.mem_union, mem_headerBytes, mem_headerBytes]; omega)

end Opened

end FerrumAlloc.Tlsf
