/-
# FerrumAlloc.Tlsf.Pool -- the pool invariant and its abstract operations

`PoolInv t m bs L` is the representation invariant: the memory holds the block list `bs` from
`pool_start` up to the sentinel, and the allocator files exactly the free blocks of `bs`, in the order
`L`. The abstract operations work on the pair `(bs, L)`:

* `Carve` takes a large enough free block, whole or split;
* `AbsorbNext` and `AbsorbPrev` are the two merges of a block being freed.

The bytes that the allocator owns (`ownBytes`) are the headers and the links of the free blocks; the
invariant depends on them only (`PoolInv.frame`), so it survives any write into a live payload.
-/
import FerrumAlloc.Tlsf.Search
import Mathlib.Data.List.Chain

namespace FerrumAlloc.Tlsf

open Lib

/-- The free blocks of a layout. -/
def freeCells (a : Nat) (l : List Blk) : FreeSet := fun x s => (x, ⟨s, true⟩) ∈ cells a l

/-- The used blocks of a layout. -/
def UsedAt (a : Nat) (l : List Blk) (x s : Nat) : Prop := (x, ⟨s, false⟩) ∈ cells a l

/-- The bytes that belong to the allocator: all headers, and the links of free blocks. -/
def ownBytes (a : Nat) (l : List Blk) : Set Nat :=
  {z | ∃ x b, (x, b) ∈ cells a (l ++ [sentinel]) ∧ z ∈ headerBytes x} ∪ (freeCells a l).links

/-- The free blocks of a layout, seen around one of its blocks. -/
theorem freeCells_mid {a x s : Nat} {pre post : List Blk} {b : Blk} :
    freeCells a (pre ++ b :: post) x s ↔
      freeCells a pre x s ∨ (x = endAddr a pre ∧ b = ⟨s, true⟩) ∨
        freeCells (endAddr a pre + 16 + b.size) post x s := by
  simp only [freeCells, cells_append, cells_cons, List.mem_append, List.mem_cons, Prod.mk.injEq]
  rw [eq_comm (a := b)]

theorem freeCells_cons {a x s : Nat} {post : List Blk} {b : Blk} :
    freeCells a (b :: post) x s ↔
      (x = a ∧ b = ⟨s, true⟩) ∨ freeCells (a + 16 + b.size) post x s := by
  simp only [freeCells, cells_cons, List.mem_cons, Prod.mk.injEq]
  rw [eq_comm (a := b)]

/-- Free blocks lie inside the layout. -/
theorem freeCells_bounds {a x s : Nat} {l : List Blk} (h : freeCells a l x s) :
    a ≤ x ∧ x + 16 + s ≤ endAddr a l := ⟨cells_lo h, cells_hi h⟩

/-- Taking the free block in the middle out of the set of free blocks. -/
theorem freeCells_erase_mid {a s : Nat} {pre post : List Blk} (x s' : Nat) :
    (freeCells a (pre ++ ⟨s, true⟩ :: post)).erase (endAddr a pre) x s' ↔
      freeCells a (pre ++ ⟨s, false⟩ :: post) x s' := by
  simp only [FreeSet.erase, freeCells_mid]
  constructor
  · rintro ⟨h | ⟨h, _⟩ | h, hne⟩
    · exact .inl h
    · exact absurd h hne
    · exact .inr (.inr h)
  · rintro (h | ⟨_, h⟩ | h)
    · have := (freeCells_bounds h).2
      exact ⟨.inl h, by omega⟩
    · simp at h
    · have := (freeCells_bounds h).1
      exact ⟨.inr (.inr h), by omega⟩

/-- Putting it in. -/
theorem freeCells_insert_mid {a s : Nat} {pre post : List Blk} (x s' : Nat) :
    (freeCells a (pre ++ ⟨s, false⟩ :: post)).insert (endAddr a pre) s x s' ↔
      freeCells a (pre ++ ⟨s, true⟩ :: post) x s' := by
  simp only [FreeSet.insert, freeCells_mid, Blk.mk.injEq, Bool.false_eq_true, and_false, and_true, false_or]
  rw [eq_comm (a := s)]
  tauto

/-- Cutting a used block in two does not show in the free blocks. -/
theorem freeCells_cut {a s s₁ s₂ x s' : Nat} {pre post : List Blk} (hs : s = s₁ + 16 + s₂) :
    freeCells a (pre ++ ⟨s, false⟩ :: post) x s' ↔
      freeCells a ((pre ++ [⟨s₁, false⟩]) ++ ⟨s₂, false⟩ :: post) x s' := by
  have hend : endAddr a pre + 16 + s₁ + 16 + s₂ = endAddr a pre + 16 + s := by omega
  rw [List.append_assoc, List.singleton_append, freeCells_mid, freeCells_mid, freeCells_cons]
  simp only [hend, Blk.mk.injEq, Bool.false_eq_true, and_false, false_or]

/-- No two physically adjacent blocks are both free. -/
def NoAdjacentFree (l : List Blk) : Prop := l.IsChain fun b c => ¬ (b.free = true ∧ c.free = true)

theorem noAdjacentFree_mid {pre post : List Blk} {b : Blk} :
    NoAdjacentFree (pre ++ b :: post) ↔
      NoAdjacentFree pre ∧ NoAdjacentFree post ∧
        (∀ c ∈ pre.getLast?, c.free = true → b.free = false) ∧
        (∀ c ∈ post.head?, b.free = true → c.free = false) := by
  simp only [NoAdjacentFree, List.isChain_append, List.isChain_cons, List.head?_cons,
    Option.mem_def, Option.some.injEq, forall_eq', not_and, Bool.not_eq_true]
  tauto

theorem noAdjacentFree_cons {post : List Blk} {b : Blk} :
    NoAdjacentFree (b :: post) ↔
      NoAdjacentFree post ∧ ∀ c ∈ post.head?, b.free = true → c.free = false := by
  simp only [NoAdjacentFree, List.isChain_cons, Option.mem_def, not_and, Bool.not_eq_true]
  tauto

theorem noAdjacentFree_concat {pre : List Blk} {b : Blk} :
    NoAdjacentFree (pre ++ [b]) ↔
      NoAdjacentFree pre ∧ ∀ c ∈ pre.getLast?, c.free = true → b.free = false := by
  rw [noAdjacentFree_mid]
  simp [NoAdjacentFree]

/-- A block list that tiles a pool `[start, stop)` with a sentinel at its end. -/
structure PoolLayout (start stop : Nat) (l : List Blk) : Prop where
  pos : 0 < start
  al : start % 16 = 0
  blk : ∀ b ∈ l, 16 ≤ b.size ∧ b.size % 16 = 0
  fits : endAddr start l + 16 ≤ stop
  stop_lt : stop < 2 ^ 64
  small : endAddr start l < start + 16 + 2 ^ 22
  noAdj : NoAdjacentFree l

namespace PoolLayout

variable {start stop x y s : Nat} {l : List Blk} {b c : Blk}

theorem size_lt (h : PoolLayout start stop l) (hx : (x, b) ∈ cells start l) : b.size < 2 ^ 22 := by
  have h1 := cells_lo hx
  have h2 := cells_hi hx
  have h3 := h.small
  omega

theorem ok (h : PoolLayout start stop l) (hx : (x, b) ∈ cells start l) : b.Ok :=
  ⟨(h.blk b (cells_mem hx)).2, lt_trans (h.size_lt hx) (by norm_num)⟩

theorem freeCells_ok (h : PoolLayout start stop l) : (freeCells start l).Ok where
  uniq h1 h2 := by
    have := cells_unique h1 h2
    simpa using this
  apart h1 h2 hne := by
    have hs1 := (h.blk _ (cells_mem h1)).1
    have hs2 := (h.blk _ (cells_mem h2)).1
    have hd := cells_disjoint h1 h2 hne
    simp only at hs1 hs2 hd
    exact hd.imp (fun h => by omega) (fun h => by omega)
  pos h1 := lt_of_lt_of_le h.pos (cells_lo h1)
  lt h1 := by
    have h2 := cells_hi h1
    have h3 := h.fits
    have h4 := h.stop_lt
    omega
  min h1 := (h.blk _ (cells_mem h1)).1
  max h1 := h.size_lt h1

/-- The block after a given prefix has a well-formed size. -/
theorem mid_ok {pre post : List Blk} (h : PoolLayout start stop (pre ++ b :: post)) : b.Ok :=
  h.ok (x := endAddr start pre) (by
    rw [cells_append]
    exact List.mem_append_right _ List.mem_cons_self)

/-- The block behind one of the blocks of a pool, possibly the sentinel. -/
theorem next_ok {pre post rest : List Blk} (h : PoolLayout start stop (pre ++ b :: post))
    (hnext : post ++ [sentinel] = c :: rest) : c.Ok := by
  cases post with
  | nil =>
    obtain ⟨rfl, _⟩ := List.cons.inj hnext
    exact sentinel_ok
  | cons d post =>
    obtain ⟨rfl, _⟩ := List.cons.inj hnext
    rw [show pre ++ b :: d :: post = (pre ++ [b]) ++ d :: post by simp] at h
    exact h.mid_ok

/-- A layout that ends at the same address tiles the same pool. -/
theorem retile {l' : List Blk} (h : PoolLayout start stop l)
    (hend : endAddr start l' = endAddr start l) (hblk : ∀ b ∈ l', 16 ≤ b.size ∧ b.size % 16 = 0)
    (hadj : NoAdjacentFree l') : PoolLayout start stop l' where
  pos := h.pos
  al := h.al
  blk := hblk
  fits := hend ▸ h.fits
  stop_lt := h.stop_lt
  small := hend ▸ h.small
  noAdj := hadj

/-- Other blocks in the middle of a layout, over the same addresses. -/
theorem retile_mid (mid mid' : List Blk) {pre post : List Blk} (h : PoolLayout start stop (pre ++ (mid ++ post)))
    (hend : ∀ a, endAddr a mid' = endAddr a mid) (hblk : ∀ b ∈ mid', 16 ≤ b.size ∧ b.size % 16 = 0)
    (hadj : NoAdjacentFree (pre ++ (mid' ++ post))) : PoolLayout start stop (pre ++ (mid' ++ post)) := by
  refine h.retile ?_ (fun b hb => ?_) hadj
  · simp only [endAddr_append, hend]
  · rcases List.mem_append.mp hb with hb | hb
    · exact h.blk b (List.mem_append_left _ hb)
    rcases List.mem_append.mp hb with hb | hb
    · exact hblk b hb
    · exact h.blk b (List.mem_append_right _ (List.mem_append_right _ hb))

/-- Addresses of blocks are aligned. -/
theorem al16 (h : PoolLayout start stop l) (hx : (x, b) ∈ cells start l) : x % 16 = 0 := by
  obtain ⟨l₁, l₂, rfl, rfl⟩ := cells_split hx
  have haux : ∀ (l : List Blk) (a : Nat), a % 16 = 0 → (∀ b ∈ l, b.size % 16 = 0) →
      endAddr a l % 16 = 0 := by
    intro l
    induction l with
    | nil => intro a ha _; exact ha
    | cons c l ih =>
      intro a ha hl
      refine ih _ ?_ fun b hb => hl b (List.mem_cons_of_mem _ hb)
      have := hl c List.mem_cons_self
      omega
  exact haux l₁ start h.al fun b hb => (h.blk b (List.mem_append_left _ hb)).2

end PoolLayout

/-- A header does not meet the links of a free block, its own included. -/
theorem header_link_disjoint {a x y s : Nat} {l : List Blk} {b : Blk}
    (hmin : ∀ c ∈ l, 16 ≤ c.size) (hx : (x, b) ∈ cells a (l ++ [sentinel]))
    (hy : freeCells a l y s) {z : Nat} (hz : z ∈ headerBytes x) : z ∉ linkBytes y := by
  have hs : 16 ≤ s := hmin _ (cells_mem hy)
  have hhi := cells_hi hy
  rw [mem_headerBytes] at hz
  rw [mem_linkBytes]
  rw [cells_append, List.mem_append] at hx
  rcases hx with hx | hx
  · by_cases hxy : x = y
    · omega
    · have hb : 16 ≤ b.size := hmin _ (cells_mem hx)
      have hd := cells_disjoint hx hy hxy
      simp only at hd hhi
      omega
  · simp only [cells_cons, cells_nil, List.mem_singleton, Prod.mk.injEq] at hx
    simp only at hhi
    omega

theorem header_own {a x : Nat} {l : List Blk} {b : Blk} (h : (x, b) ∈ cells a (l ++ [sentinel])) :
    headerBytes x ⊆ ownBytes a l := fun _ hz => .inl ⟨x, b, h, hz⟩

theorem links_own {a : Nat} {l : List Blk} : (freeCells a l).links ⊆ ownBytes a l :=
  fun _ hz => .inr hz

/-- Fewer headers and fewer free blocks are fewer bytes. -/
theorem ownBytes_mono {a : Nat} {l l' : List Blk}
    (hc : ∀ x b, (x, b) ∈ cells a (l ++ [sentinel]) → ∃ b', (x, b') ∈ cells a (l' ++ [sentinel]))
    (hf : ∀ x s, freeCells a l x s → freeCells a l' x s) : ownBytes a l ⊆ ownBytes a l' := by
  rintro z (⟨x, b, hx, hz⟩ | ⟨x, s, hx, hz⟩)
  · obtain ⟨b', hx'⟩ := hc x b hx
    exact header_own hx' hz
  · exact links_own ⟨x, s, hf x s hx, hz⟩

/-- Changes to headers do not show in the free lists. -/
theorem Filed.frame_header {t : TlsfAllocator} {m m' : Mem} {L : Nat → Nat → List Nat} {a x : Nat}
    {l : List Blk} {b : Blk} (h : Filed t m L (freeCells a l)) (hmin : ∀ c ∈ l, 16 ≤ c.size)
    (hx : (x, b) ∈ cells a (l ++ [sentinel])) (hm : Set.EqOn m' m (headerBytes x)ᶜ) :
    Filed t m' L (freeCells a l) :=
  h.frame fun _ ⟨_, _, hy, hz⟩ => hm fun hxz => header_link_disjoint hmin hx hy hxz hz

/-- **Filing a block of a layout.** -/
theorem Filed.insert_mid {t : TlsfAllocator} {m : Mem} {L : Nat → Nat → List Nat} {pre post : List Blk} {s : Nat}
    (h : Filed t m L (freeCells t.poolStart (pre ++ ⟨s, false⟩ :: post)))
    (hlayout : PoolLayout t.poolStart t.poolEnd (pre ++ ⟨s, true⟩ :: post))
    (hsize : size m (endAddr t.poolStart pre) = s) :
    ∃ t' m', insertFree t m (endAddr t.poolStart pre) = .ok (t', m') ∧
      Filed t' m' (file L (endAddr t.poolStart pre) s) (freeCells t.poolStart (pre ++ ⟨s, true⟩ :: post)) ∧
      t'.poolStart = t.poolStart ∧ t'.poolEnd = t.poolEnd ∧
      Set.EqOn m' m (freeCells t.poolStart (pre ++ ⟨s, true⟩ :: post)).linksᶜ := by
  have hset : (freeCells t.poolStart (pre ++ ⟨s, false⟩ :: post)).insert (endAddr t.poolStart pre) s =
      freeCells t.poolStart (pre ++ ⟨s, true⟩ :: post) := by
    funext x s'
    exact propext (freeCells_insert_mid x s')
  have hfresh : ∀ s', ¬ freeCells t.poolStart (pre ++ ⟨s, false⟩ :: post) (endAddr t.poolStart pre) s' :=
    fun s' hb => ((freeCells_erase_mid _ s').mpr hb).2 rfl
  obtain ⟨fl, sl, hmap⟩ : ∃ fl sl, mapping s = (fl, sl) := ⟨_, _, rfl⟩
  obtain ⟨t', hins, hfiled, hps, hpe⟩ := insertFree_spec h (hset ▸ hlayout.freeCells_ok) hfresh hsize hmap
  have hm := h.linkMem_eqOn (endAddr t.poolStart pre) s fl sl
  rw [hset] at hfiled hm
  rw [file, hmap]
  exact ⟨t', _, hins, hfiled, hps, hpe, hm⟩

/-- **The TLSF representation invariant.** -/
structure PoolInv (t : TlsfAllocator) (m : Mem) (bs : List Blk) (L : Nat → Nat → List Nat) :
    Prop where
  layout : PoolLayout t.poolStart t.poolEnd bs
  seg : Seg m t.poolStart false 0 (bs ++ [sentinel])
  filed : Filed t m L (freeCells t.poolStart bs)

namespace PoolInv

variable {t : TlsfAllocator} {m m' : Mem} {bs : List Blk} {L : Nat → Nat → List Nat} {x s : Nat}

/-- **Frame.** The invariant depends on the allocator's own bytes only. -/
theorem frame (h : PoolInv t m bs L) (hm : Set.EqOn m' m (ownBytes t.poolStart bs)) :
    PoolInv t m' bs L where
  layout := h.layout
  seg := h.seg.frame fun x b hx _ hz => hm (.inl ⟨x, b, hx, hz⟩)
  filed := h.filed.frame fun _ hz => hm (.inr hz)

/-- The header of a block of the pool, as read by the accessors. -/
theorem size_eq (h : PoolInv t m bs L) {b : Blk} (hx : (x, b) ∈ cells t.poolStart bs) :
    size m x = b.size := by
  obtain ⟨pf, ps, hh⟩ := h.seg.headerAt (by
    rw [cells_append]; exact List.mem_append_left _ hx)
  exact hh.size_eq (h.layout.ok hx)

end PoolInv

/-- The payload of a used block is disjoint from the allocator's bytes. -/
theorem payload_not_own {a x s z : Nat} {l : List Blk} (hmin : ∀ c ∈ l, 16 ≤ c.size)
    (hx : UsedAt a l x s) (h1 : x + 16 ≤ z) (h2 : z < x + 16 + s) : z ∉ ownBytes a l := by
  have hhi := cells_hi hx
  rintro (⟨y, b, hy, hz⟩ | ⟨y, s', hy, hz⟩)
  · rw [mem_headerBytes] at hz
    rw [cells_append, List.mem_append] at hy
    rcases hy with hy | hy
    · by_cases hxy : x = y
      · omega
      · have hd := cells_disjoint hx hy hxy
        simp only at hd
        omega
    · simp only [cells_cons, cells_nil, List.mem_singleton, Prod.mk.injEq] at hy
      simp only at hhi
      omega
  · rw [mem_linkBytes] at hz
    have hs' : 16 ≤ s' := hmin _ (cells_mem hy)
    by_cases hxy : x = y
    · subst hxy
      have := cells_unique hx hy
      simp at this
    · have hd := cells_disjoint hx hy hxy
      simp only at hd
      omega

/-- Headers and links lie between the start of the pool and the end of the sentinel. -/
theorem ownBytes_bounds {a z : Nat} {l : List Blk} (hmin : ∀ c ∈ l, 16 ≤ c.size)
    (hz : z ∈ ownBytes a l) : a ≤ z ∧ z < endAddr a l + 16 := by
  rcases hz with ⟨x, b, hx, hz⟩ | ⟨x, s, hx, hz⟩
  · have hlo := cells_lo hx
    have hhi := cells_hi hx
    rw [mem_headerBytes] at hz
    simp only [endAddr_append, endAddr_cons, endAddr_nil, sentinel] at hlo hhi
    omega
  · obtain ⟨hlo, hhi⟩ := freeCells_bounds hx
    have hs := hmin _ (cells_mem hx)
    rw [mem_linkBytes] at hz
    simp only at hs
    omega

/-! ## The abstract operations -/

/-- Taking `sz` bytes from a free block: the whole block, or its front when what is left over can
hold a block of its own. The result is the new block list, the new free lists and the payload. -/
inductive Carve (start : Nat) (L : Nat → Nat → List Nat) (sz : Nat) :
    List Blk → List Blk → (Nat → Nat → List Nat) → Nat → Prop
  | whole {pre post : List Blk} {s : Nat} : sz ≤ s → s < sz + 32 →
      Carve start L sz (pre ++ ⟨s, true⟩ :: post) (pre ++ ⟨s, false⟩ :: post)
        (unfile L (endAddr start pre) s) (endAddr start pre + 16)
  | split {pre post : List Blk} {s : Nat} : sz + 32 ≤ s →
      Carve start L sz (pre ++ ⟨s, true⟩ :: post)
        (pre ++ ⟨sz, false⟩ :: ⟨s - sz - 16, true⟩ :: post)
        (file (unfile L (endAddr start pre) s) (endAddr start pre + 16 + sz) (s - sz - 16))
        (endAddr start pre + 16)

/-- A block of size `s` that ends at `n` absorbs the block at `n` if that one is free. -/
inductive AbsorbNext (L : Nat → Nat → List Nat) (n s : Nat) :
    List Blk → Nat → List Blk → (Nat → Nat → List Nat) → Prop
  | used {post : List Blk} : (∀ c ∈ post.head?, c.free = false) → AbsorbNext L n s post s post L
  | free {s₂ : Nat} {post : List Blk} :
      AbsorbNext L n s (⟨s₂, true⟩ :: post) (s + 16 + s₂) post (unfile L n s₂)

/-- A block of size `s` that starts after `pre` is absorbed by the last block of `pre` if that one is
free. -/
inductive AbsorbPrev (start : Nat) (L : Nat → Nat → List Nat) (s : Nat) :
    List Blk → List Blk → Nat → (Nat → Nat → List Nat) → Prop
  | used {pre : List Blk} : endFree false pre = false → AbsorbPrev start L s pre pre s L
  | free {s₁ : Nat} {pre : List Blk} :
      AbsorbPrev start L s (pre ++ [⟨s₁, true⟩]) pre (s₁ + 16 + s) (unfile L (endAddr start pre) s₁)

/-- Freeing the used block at `ptr - 16`: absorb the next block, be absorbed by the previous one,
file the result. -/
inductive Release (start : Nat) (L : Nat → Nat → List Nat) :
    List Blk → Nat → List Blk → (Nat → Nat → List Nat) → Prop
  | mk {pre post pre' post' : List Blk} {s s₁ s₂ : Nat} {L₁ L₂ : Nat → Nat → List Nat} :
      AbsorbNext L (endAddr start pre + 16 + s) s post s₁ post' L₁ →
      AbsorbPrev start L₁ s₁ pre pre' s₂ L₂ →
      Release start L (pre ++ ⟨s, false⟩ :: post) (endAddr start pre + 16)
        (pre' ++ ⟨s₂, true⟩ :: post') (file L₂ (endAddr start pre') s₂)

/-! ## What the abstract operations do to the used blocks -/

/-- The used blocks of a layout, seen around one of its blocks. -/
theorem usedAt_mid {a x s : Nat} {pre post : List Blk} {b : Blk} :
    UsedAt a (pre ++ b :: post) x s ↔
      UsedAt a pre x s ∨ (x = endAddr a pre ∧ b = ⟨s, false⟩) ∨
        UsedAt (endAddr a pre + 16 + b.size) post x s := by
  simp only [UsedAt, cells_append, cells_cons, List.mem_append, List.mem_cons, Prod.mk.injEq]
  rw [eq_comm (a := b)]

theorem usedAt_cons {a x s : Nat} {post : List Blk} {b : Blk} :
    UsedAt a (b :: post) x s ↔ (x = a ∧ b = ⟨s, false⟩) ∨ UsedAt (a + 16 + b.size) post x s := by
  simp only [UsedAt, cells_cons, List.mem_cons, Prod.mk.injEq]
  rw [eq_comm (a := b)]

theorem usedAt_bounds {a x s : Nat} {l : List Blk} (h : UsedAt a l x s) :
    a ≤ x ∧ x + 16 + s ≤ endAddr a l := ⟨cells_lo h, cells_hi h⟩

/-- A free block is not used. -/
theorem not_usedAt_mid {a s z : Nat} {pre post : List Blk} :
    ¬ UsedAt a (pre ++ ⟨s, true⟩ :: post) (endAddr a pre) z := by
  intro hu
  have heq : (⟨z, false⟩ : Blk) = ⟨s, true⟩ := cells_unique hu (by simp)
  exact Bool.false_ne_true (congrArg Blk.free heq)

section

variable {start sz p n s s' : Nat} {bs bs' pre post pre' post' : List Blk}
  {L L' : Nat → Nat → List Nat}

/-- **`Carve` uses one more block**, of the size asked for or up to 16 bytes more. -/
theorem Carve.used (h : Carve start L sz bs bs' L' p) :
    ∃ x s, p = x + 16 ∧ sz ≤ s ∧ s < sz + 32 ∧ (∀ z, ¬ UsedAt start bs x z) ∧
      ∀ y z, UsedAt start bs' y z ↔ UsedAt start bs y z ∨ (y = x ∧ z = s) := by
  cases h with
  | @whole pre post s hle hlt =>
    refine ⟨endAddr start pre, s, rfl, hle, hlt, fun z => not_usedAt_mid, fun y z => ?_⟩
    rw [usedAt_mid, usedAt_mid]
    simp only [Blk.mk.injEq, and_true, Bool.true_eq_false, and_false, false_or]
    rw [eq_comm (a := s)]
    tauto
  | @split pre post s hle =>
    refine ⟨endAddr start pre, sz, rfl, le_refl _, by omega, fun z => not_usedAt_mid, fun y z => ?_⟩
    have hend : endAddr start pre + 16 + sz + 16 + (s - sz - 16) = endAddr start pre + 16 + s := by
      omega
    rw [usedAt_mid, usedAt_mid]
    simp only [usedAt_cons, hend, Blk.mk.injEq, and_true, Bool.true_eq_false, and_false, false_or]
    rw [eq_comm (a := sz)]
    tauto

theorem Carve.endAddr_eq (h : Carve start L sz bs bs' L' p) :
    endAddr start bs' = endAddr start bs := by
  cases h with
  | whole => simp
  | split hle =>
    simp only [endAddr_append, endAddr_cons]
    congr 1
    omega

/-- A block that absorbs its successor leaves the used blocks behind it as they were. -/
theorem absorbNext_used {e : Nat} (h : AbsorbNext L (e + 16 + s) s post s' post' L') (y z : Nat) :
    (UsedAt (e + 16 + s) post y z ↔ UsedAt (e + 16 + s') post' y z) ∧
      endAddr (e + 16 + s) post = endAddr (e + 16 + s') post' := by
  cases h with
  | used => exact ⟨Iff.rfl, rfl⟩
  | @free s₂ =>
    have haddr : e + 16 + s + 16 + s₂ = e + 16 + (s + 16 + s₂) := by omega
    simp only [usedAt_cons, endAddr_cons, haddr, Blk.mk.injEq, Bool.true_eq_false, and_false,
      false_or, and_self]

/-- A block that is absorbed by its predecessor leaves the used blocks before it as they were. -/
theorem absorbPrev_used (h : AbsorbPrev start L s pre pre' s' L') (y z : Nat) :
    (UsedAt start pre y z ↔ UsedAt start pre' y z) ∧
      endAddr start pre + 16 + s = endAddr start pre' + 16 + s' := by
  cases h with
  | used => exact ⟨Iff.rfl, rfl⟩
  | @free s₁ =>
    have hnil : ∀ a, ¬ UsedAt a [] y z := by simp [UsedAt]
    simp only [usedAt_mid, hnil, Blk.mk.injEq, Bool.true_eq_false, and_false, or_false,
      endAddr_append, endAddr_cons, endAddr_nil, true_and]
    omega

/-- **`Release` frees exactly one used block.** -/
theorem Release.used (h : Release start L bs p bs' L') :
    (∃ x s, p = x + 16 ∧ UsedAt start bs x s) ∧
      ∀ y z, UsedAt start bs' y z ↔ UsedAt start bs y z ∧ y + 16 ≠ p := by
  obtain @⟨pre, post, pre', post', s, s₁, s₂, L₁, L₂, hnext, hprev⟩ := h
  refine ⟨⟨endAddr start pre, s, rfl, usedAt_mid.mpr (.inr (.inl ⟨rfl, rfl⟩))⟩, fun y z => ?_⟩
  obtain ⟨hpost, _⟩ := absorbNext_used hnext y z
  obtain ⟨hpre, haddr⟩ := absorbPrev_used hprev y z
  rw [usedAt_mid, usedAt_mid, ← hpre, ← haddr, ← hpost]
  constructor
  · rintro (h | ⟨_, h⟩ | h)
    · have := (usedAt_bounds h).2
      exact ⟨.inl h, by omega⟩
    · simp at h
    · have := (usedAt_bounds h).1
      exact ⟨.inr (.inr h), by omega⟩
  · rintro ⟨h | ⟨h, _⟩ | h, hne⟩
    · exact .inl h
    · exact absurd (by rw [h]) hne
    · exact .inr (.inr h)

theorem Release.endAddr_eq (h : Release start L bs p bs' L') :
    endAddr start bs' = endAddr start bs := by
  obtain @⟨pre, post, pre', post', s, s₁, s₂, L₁, L₂, hnext, hprev⟩ := h
  have hpost := (absorbNext_used (e := endAddr start pre) hnext 0 0).2
  have hpre := (absorbPrev_used hprev 0 0).2
  rw [endAddr_append, endAddr_cons, endAddr_append, endAddr_cons, hpost, hpre]

end

end FerrumAlloc.Tlsf
