/-
# FerrumAlloc.Tlsf.Alloc -- `add_pool` and `alloc` refine the abstract operations

`addPool_spec` establishes the invariant with one free block. `alloc_spec` says that `alloc` either
returns null and changes nothing, or performs one `Carve` on the abstract pool; in both cases it
keeps the invariant, and it writes the allocator's own bytes only (those before or after the call).
-/
import FerrumAlloc.Tlsf.Opened

namespace FerrumAlloc.Tlsf

open Lib

/-! ## The adjusted request size -/

/-- The payload size that `alloc` looks for. -/
def adjusted (n : Nat) : Nat := max (alignUpSize n) minPayload

theorem alignUpSize_eq {n : Nat} (h : n ≤ usizeMax - 16) : alignUpSize n = (n + 15) / 16 * 16 :=
  alignUp_of_le (k := 4) (v := n) (by simp only [usizeMax] at h; omega)

theorem adjusted_spec {n : Nat} (h : n ≤ usizeMax - 16) :
    n ≤ adjusted n ∧ adjusted n % 16 = 0 ∧ 16 ≤ adjusted n ∧ adjusted n < 2 ^ 64 := by
  rw [adjusted, alignUpSize_eq h, minPayload]
  simp only [usizeMax] at h
  omega

/-! ## Marking a block used -/

/-- The end of `prepare_used`: a block that is filed nowhere becomes used, and the block after it learns so. -/
theorem finishUsed {t : TlsfAllocator} {m : Mem} {L : Nat → Nat → List Nat} {sz : Nat} {pre post rest : List Blk}
    {c : Blk} {pf : Bool} (h : Opened m t.poolStart pre ⟨sz, true⟩ pf c rest) (hnext : post ++ [sentinel] = c :: rest)
    (hl : PoolLayout t.poolStart t.poolEnd (pre ++ ⟨sz, false⟩ :: post))
    (hf : Filed t m L (freeCells t.poolStart (pre ++ ⟨sz, false⟩ :: post))) :
    let b := endAddr t.poolStart pre
    let m₁ := markUsed m b
    let m₂ := markPrevUsed m₁ (nextPhys m₁ b)
    PoolInv t m₂ (pre ++ ⟨sz, false⟩ :: post) L ∧
      Set.EqOn m₂ m (ownBytes t.poolStart (pre ++ ⟨sz, false⟩ :: post))ᶜ := by
  intro b m₁ m₂
  have hb : (⟨sz, false⟩ : Blk).Ok := hl.mid_ok
  have hc : c.Ok := hl.next_ok hnext
  have e₁ : Set.EqOn m₁ m (headerBytes b)ᶜ := setSizeAndFlags_eqOn m b _
  have h₁ : Opened m₁ t.poolStart pre ⟨sz, false⟩ pf c rest := h.setHdr e₁ rfl (h.hdr.markUsed ⟨hb.al, hb.lt⟩)
  have hn : nextPhys m₁ b = b + 16 + sz := h₁.hdr.nextPhys_eq hb
  have e₂ : Set.EqOn m₂ m₁ (headerBytes (b + 16 + sz))ᶜ := hn ▸ setSizeAndFlags_eqOn m₁ _ _
  have h₂ : Opened m₂ t.poolStart pre ⟨sz, false⟩ false c rest := by
    refine h₁.setNext e₂ ?_
    have htag := h₁.next.markPrevUsed hc
    rw [← hn] at htag ⊢
    exact htag
  have hlist : (pre ++ ⟨sz, false⟩ :: post) ++ [sentinel] = pre ++ ⟨sz, false⟩ :: c :: rest := by
    rw [List.append_assoc, List.cons_append, hnext]
  have hmin : ∀ d ∈ pre ++ ⟨sz, false⟩ :: post, 16 ≤ d.size := fun d hd => (hl.blk d hd).1
  refine ⟨⟨hl, hlist ▸ h₂.close, (hf.frame_header hmin cell_mid e₁).frame_header hmin (cell_next hnext) e₂⟩, ?_⟩
  exact eqOn_compl_mono (eqOn_compl_trans e₁ e₂)
    (Set.union_subset (header_own cell_mid) (header_own (cell_next hnext)))

/-! ## Splitting -/

/-- Telling a block the size of its predecessor, and that the predecessor is free. -/
theorem retag_eqOn (m : Mem) (x s : Nat) :
    Set.EqOn (markPrevFree (setPrevPhysSize m x s) x) m (headerBytes x)ᶜ := by
  have h := eqOn_compl_trans (setPrevPhysSize_eqOn m x s)
    (setSizeAndFlags_eqOn (setPrevPhysSize m x s) x
      (sizeAndFlags (setPrevPhysSize m x s) x ||| fPrevFree))
  rwa [Set.union_self] at h

/-- The memory after the header writes of a split, before the remainder is filed. -/
def splitMem (m : Mem) (b q n sz sp : Nat) : Mem :=
  let m := setSize m b sz
  let m := writeHeader m q sz (sp ||| fFree)
  let m := setLinkPrev m q 0
  let m := setLinkNext m q 0
  let m := setPrevPhysSize m n sp
  markPrevFree m n

section

variable {t : TlsfAllocator} {m : Mem} {start sz s : Nat} {pre rest post : List Blk} {c : Blk}

/-- **Split.** The remainder gets a header of its own, and the block after it a new tag. -/
theorem splitMem_spec (h : Opened m start pre ⟨s, true⟩ true c rest) (hs : sz + 32 ≤ s)
    (hb : (⟨s, true⟩ : Blk).Ok) (hc : c.Ok) (hal : sz % 16 = 0) :
    let b := endAddr start pre
    let q := b + 16 + sz
    let sp := s - sz - 16
    let m' := splitMem m b q (b + 16 + s) sz sp
    nextPhys (setSize m b sz) b = q ∧
      nextPhys (setLinkNext (setLinkPrev (writeHeader (setSize m b sz) q sz (sp ||| fFree)) q 0) q 0)
        q = b + 16 + s ∧
      Opened m' start pre ⟨sz, true⟩ false ⟨sp, true⟩ (c :: rest) ∧
      Set.EqOn m' m (headerBytes b ∪ (headerBytes q ∪ linkBytes q) ∪ headerBytes (b + 16 + s))ᶜ := by
  intro b q sp m'
  have hbal := hb.al
  have hblt := hb.lt
  simp only at hbal hblt
  have hsz : (⟨sz, true⟩ : Blk).Ok := ⟨hal, lt_trans (by simp only; omega) hb.lt⟩
  have hsp : (⟨sp, true⟩ : Blk).Ok := ⟨by simp only [sp]; omega, by simp only [sp]; omega⟩
  -- the header of `b` shrinks
  obtain ⟨m₁, hm₁⟩ : ∃ x, x = setSize m b sz := ⟨_, rfl⟩
  have e₁ : Set.EqOn m₁ m (headerBytes b)ᶜ := hm₁ ▸ setSizeAndFlags_eqOn m b _
  have hb₁ : HeaderAt m₁ b ⟨sz, true⟩ (endFree false pre) (endSize 0 pre) :=
    hm₁ ▸ h.hdr.setSize hb hsz
  -- the remainder gets its header and empty links
  obtain ⟨m₂, hm₂⟩ : ∃ x, x = writeHeader m₁ q sz (sp ||| fFree) := ⟨_, rfl⟩
  have e₂ : Set.EqOn m₂ m₁ (headerBytes q)ᶜ := hm₂ ▸ writeHeader_eqOn m₁ q _ _
  have hq₂ : HeaderAt m₂ q ⟨sp, true⟩ false sz :=
    hm₂ ▸ HeaderAt.writeHeader m₁ q (headerWord_free sp).symm hsp (lt_trans hsz.lt (by norm_num))
  obtain ⟨m₃, hm₃⟩ : ∃ x, x = setLinkNext (setLinkPrev m₂ q 0) q 0 := ⟨_, rfl⟩
  have e₃ : Set.EqOn m₃ m₂ (linkBytes q)ᶜ := by
    have := eqOn_compl_trans (setLinkPrev_eqOn m₂ q 0) (setLinkNext_eqOn (setLinkPrev m₂ q 0) q 0)
    rwa [Set.union_self, ← hm₃] at this
  have hq₃ : HeaderAt m₃ q ⟨sp, true⟩ false sz := hq₂.frame fun z hz => e₃ (by
    rw [mem_headerBytes] at hz
    rw [Set.mem_compl_iff, mem_linkBytes]; omega)
  have hn : nextPhys m₃ q = b + 16 + s := by
    rw [hq₃.nextPhys_eq hsp]; simp only [q, sp]; omega
  -- the block after it learns the size and the flag of the remainder
  have e₁₃ : Set.EqOn m₃ m (headerBytes b ∪ (headerBytes q ∪ linkBytes q))ᶜ := by
    have := eqOn_compl_trans (eqOn_compl_trans e₁ e₂) e₃
    rwa [Set.union_assoc] at this
  have hc₃ : HeaderAt m₃ (b + 16 + s) c true s := h.next.frame fun z hz => e₁₃ (by
    simp only [b, q, mem_headerBytes] at hz ⊢
    simp only [Set.mem_compl_iff, Set.mem_union, mem_headerBytes, mem_linkBytes]
    omega)
  have hsp64 : sp < 2 ^ 64 := lt_trans hsp.lt (by norm_num)
  obtain ⟨m₄, hm₄⟩ : ∃ x, x = markPrevFree (setPrevPhysSize m₃ (b + 16 + s) sp) (b + 16 + s) :=
    ⟨_, rfl⟩
  have e₄ : Set.EqOn m₄ m₃ (headerBytes (b + 16 + s))ᶜ :=
    hm₄ ▸ retag_eqOn m₃ (b + 16 + s) sp
  have hc₄ : HeaderAt m₄ (b + 16 + s) c true sp :=
    hm₄ ▸ (hc₃.setPrevPhysSize hsp64).markPrevFree hc
  have hall := eqOn_compl_trans e₁₃ e₄
  have hm' : m' = m₄ := by
    simp only [m', splitMem, hm₄, hm₃, hm₂, hm₁]
  rw [hm']
  refine ⟨?_, ?_, ⟨?_, ?_, ?_, ?_⟩, hall⟩
  · rw [← hm₁]; exact hb₁.nextPhys_eq hsz
  · rw [← hm₁, ← hm₂, ← hm₃]; exact hn
  · exact h.before.frame_below fun z hz => hall (by
      simp only [Set.mem_compl_iff, Set.mem_union, mem_headerBytes, mem_linkBytes, b, q]
      omega)
  · exact hb₁.frame fun z hz => by
      rw [mem_headerBytes] at hz
      rw [e₄ (by simp only [Set.mem_compl_iff, mem_headerBytes]; omega),
        e₃ (by simp only [Set.mem_compl_iff, mem_linkBytes, q]; omega),
        e₂ (by simp only [Set.mem_compl_iff, mem_headerBytes, q]; omega)]
  · exact hq₃.frame fun z hz => e₄ (by
      simp only [mem_headerBytes] at hz
      simp only [Set.mem_compl_iff, mem_headerBytes, b]
      omega)
  · have hafter : Seg m₄ (b + 16 + s + 16 + c.size) c.free c.size rest :=
      h.after.frame_above fun z hz => hall (by
        simp only [Set.mem_compl_iff, Set.mem_union, mem_headerBytes, mem_linkBytes, q]
        simp only [b] at hz ⊢
        omega)
    have hqn : endAddr start pre + 16 + sz + 16 + sp = b + 16 + s := by
      simp only [b, sp]; omega
    simp only [seg_cons]
    rw [hqn]
    exact ⟨hc₄, hafter⟩

/-- The split of `prepare_used` runs `splitMem` and files the remainder. -/
theorem splitBlock_eq (h : Opened m start pre ⟨s, true⟩ true c rest) (hs : sz + 32 ≤ s)
    (hb : (⟨s, true⟩ : Blk).Ok) (hc : c.Ok) (hal : sz % 16 = 0) :
    splitBlock t m (endAddr start pre) sz (s - sz) =
      insertFree t (splitMem m (endAddr start pre) (endAddr start pre + 16 + sz)
        (endAddr start pre + 16 + s) sz (s - sz - 16)) (endAddr start pre + 16 + sz) := by
  obtain ⟨hq, hn, _, _⟩ := splitMem_spec h hs hb hc hal
  simp only [splitBlock, headerSize, hq, hn, splitMem]

end

/-! ## Handing out a block -/

section

variable {t : TlsfAllocator} {m : Mem} {L : Nat → Nat → List Nat} {pre post rest : List Blk} {c : Blk}
  {sz s : Nat}

/-- What is left of a pool once a free block has been taken off its list: the block is still marked
free, and everything else is in order. -/
structure Taken (t : TlsfAllocator) (m : Mem) (L : Nat → Nat → List Nat) (pre : List Blk) (s : Nat)
    (post : List Blk) (c : Blk) (rest : List Blk) : Prop where
  layout : PoolLayout t.poolStart t.poolEnd (pre ++ ⟨s, true⟩ :: post)
  next : post ++ [sentinel] = c :: rest
  opened : Opened m t.poolStart pre ⟨s, true⟩ true c rest
  filed : Filed t m L (freeCells t.poolStart (pre ++ ⟨s, false⟩ :: post))

namespace Taken

theorem block_ok (h : Taken t m L pre s post c rest) : (⟨s, true⟩ : Blk).Ok := h.layout.mid_ok

theorem next_ok (h : Taken t m L pre s post c rest) : c.Ok := h.layout.next_ok h.next

/-- The block after the taken one is not free. -/
theorem next_used (h : Taken t m L pre s post c rest) : ∀ d ∈ post.head?, d.free = false :=
  fun d hd => (noAdjacentFree_mid.mp h.layout.noAdj).2.2.2 d hd rfl

/-- The layout with the block marked used. -/
theorem used_layout (h : Taken t m L pre s post c rest) :
    PoolLayout t.poolStart t.poolEnd (pre ++ ⟨s, false⟩ :: post) := by
  obtain ⟨h1, h2, _, _⟩ := noAdjacentFree_mid.mp h.layout.noAdj
  refine h.layout.retile_mid [⟨s, true⟩] [⟨s, false⟩] (fun a => rfl) ?_ ?_
  · intro b hb
    rw [List.mem_singleton.mp hb]
    exact h.layout.blk ⟨s, true⟩ (by simp)
  · exact noAdjacentFree_mid.mpr ⟨h1, h2, fun _ _ _ => rfl, fun _ _ hf => by simp at hf⟩

/-- The layout with the block cut in two. -/
theorem split_layout (h : Taken t m L pre s post c rest) (h16 : 16 ≤ sz) (hal : sz % 16 = 0)
    (hs : sz + 32 ≤ s) :
    PoolLayout t.poolStart t.poolEnd (pre ++ ⟨sz, false⟩ :: ⟨s - sz - 16, true⟩ :: post) := by
  obtain ⟨h1, h2, _, _⟩ := noAdjacentFree_mid.mp h.layout.noAdj
  have hsal : s % 16 = 0 := (h.layout.blk ⟨s, true⟩ (by simp)).2
  refine h.layout.retile_mid [⟨s, true⟩] [⟨sz, false⟩, ⟨s - sz - 16, true⟩] (fun a => ?_) ?_ ?_
  · simp only [endAddr_cons, endAddr_nil]
    omega
  · intro b hb
    rcases List.mem_cons.mp hb with rfl | hb
    · exact ⟨h16, hal⟩
    · rw [List.mem_singleton.mp hb]
      simp only
      omega
  · refine noAdjacentFree_mid.mpr ⟨h1, ?_, fun _ _ _ => rfl, fun _ _ hf => by simp at hf⟩
    exact noAdjacentFree_cons.mpr ⟨h2, fun d hd _ => h.next_used d hd⟩

/-- The header writes of a split keep the links of the filed blocks. -/
theorem filed_split (h : Taken t m L pre s post c rest) {m' : Mem} {b q : Nat} (hb : b = endAddr t.poolStart pre)
    (hq : q = b + 16 + sz) (hs : sz + 32 ≤ s)
    (hm : Set.EqOn m' m (headerBytes b ∪ (headerBytes q ∪ linkBytes q) ∪ headerBytes (b + 16 + s))ᶜ) :
    Filed t m' L (freeCells t.poolStart ((pre ++ [⟨sz, false⟩]) ++ ⟨s - sz - 16, false⟩ :: post)) := by
  refine Filed.congr_set ?_ fun _ _ => freeCells_cut (s := s) (by omega)
  refine h.filed.frame fun z hlink => ?_
  obtain ⟨y, s', hy, hz⟩ := hlink
  apply hm
  have hy16 : 16 ≤ s' := (h.used_layout.blk _ (cells_mem hy)).1
  rw [freeCells_mid] at hy
  simp only [Set.mem_compl_iff, Set.mem_union, mem_headerBytes, mem_linkBytes] at hz ⊢
  rcases hy with hy | ⟨_, hy⟩ | hy
  · have := (freeCells_bounds hy).2
    omega
  · simp at hy
  · have : endAddr t.poolStart pre + 16 + s ≤ y := (freeCells_bounds hy).1
    omega

/-- They touch the allocator's own bytes after the split. -/
theorem split_own (h : Taken t m L pre s post c rest) {b q : Nat} (hb : b = endAddr t.poolStart pre)
    (hq : q = b + 16 + sz) (hs : sz + 32 ≤ s) :
    headerBytes b ∪ (headerBytes q ∪ linkBytes q) ∪ headerBytes (b + 16 + s) ⊆
      ownBytes t.poolStart (pre ++ ⟨sz, false⟩ :: ⟨s - sz - 16, true⟩ :: post) := by
  have hend : q + 16 + (s - sz - 16) = b + 16 + s := by omega
  have hcells : cells t.poolStart ((pre ++ ⟨sz, false⟩ :: ⟨s - sz - 16, true⟩ :: post) ++ [sentinel]) =
      cells t.poolStart pre ++ (b, ⟨sz, false⟩) :: (q, ⟨s - sz - 16, true⟩) :: (b + 16 + s, c) ::
        cells (b + 16 + s + 16 + c.size) rest := by
    rw [List.append_assoc, List.cons_append, List.cons_append, h.next, cells_append, cells_cons, cells_cons, cells_cons]
    simp only [← hb, ← hq, hend]
  have hfree : freeCells t.poolStart (pre ++ ⟨sz, false⟩ :: ⟨s - sz - 16, true⟩ :: post) q (s - sz - 16) := by
    rw [freeCells_mid, freeCells_cons, ← hb, ← hq]
    exact .inr (.inr (.inl ⟨rfl, rfl⟩))
  refine Set.union_subset (Set.union_subset ?_ (Set.union_subset ?_ ?_)) ?_
  · exact header_own (b := ⟨sz, false⟩) (by rw [hcells]; simp)
  · exact header_own (b := ⟨s - sz - 16, true⟩) (by rw [hcells]; simp)
  · exact fun z hz => links_own ⟨q, s - sz - 16, hfree, hz⟩
  · exact header_own (b := c) (by rw [hcells]; simp)

end Taken

/-- **`prepare_used` without a split.** -/
theorem prepareUsed_whole (h : Taken t m L pre s post c rest) (hle : sz ≤ s) (hlt : s < sz + 32) :
    ∃ m', prepareUsed t m (endAddr t.poolStart pre) sz =
        .ok (t, m', endAddr t.poolStart pre + 16) ∧
      PoolInv t m' (pre ++ ⟨s, false⟩ :: post) L ∧
      Set.EqOn m' m (ownBytes t.poolStart (pre ++ ⟨s, false⟩ :: post))ᶜ := by
  have hb := h.block_ok
  have hsize : size m (endAddr t.poolStart pre) = s := h.opened.hdr.size_eq hb
  obtain ⟨hinv, hm⟩ := finishUsed h.opened h.next h.used_layout h.filed
  refine ⟨_, ?_, hinv, hm⟩
  have hrem : ¬ usizeSub s sz ≥ headerSize + minPayload := by
    have hlt64 : s < 2 ^ 64 := lt_trans hb.lt (by norm_num)
    rw [usizeSub_of_le hle hlt64, headerSize, minPayload]
    omega
  simp only [prepareUsed, hsize, if_neg hrem, Exec.bind_ok, Exec.pure_eq]
  rfl

/-- **`prepare_used` with a split.** -/
theorem prepareUsed_split (h : Taken t m L pre s post c rest) (h16 : 16 ≤ sz) (hal : sz % 16 = 0)
    (hs : sz + 32 ≤ s) :
    ∃ t' m', prepareUsed t m (endAddr t.poolStart pre) sz =
        .ok (t', m', endAddr t.poolStart pre + 16) ∧
      PoolInv t' m' (pre ++ ⟨sz, false⟩ :: ⟨s - sz - 16, true⟩ :: post)
        (file L (endAddr t.poolStart pre + 16 + sz) (s - sz - 16)) ∧
      t'.poolStart = t.poolStart ∧ t'.poolEnd = t.poolEnd ∧
      Set.EqOn m' m
        (ownBytes t.poolStart (pre ++ ⟨sz, false⟩ :: ⟨s - sz - 16, true⟩ :: post))ᶜ := by
  have hb := h.block_ok
  have hsize : size m (endAddr t.poolStart pre) = s := h.opened.hdr.size_eq hb
  have hl := h.split_layout h16 hal hs
  obtain ⟨_, _, ho₁, e₁⟩ := splitMem_spec h.opened hs hb h.next_ok hal
  have hrun := splitBlock_eq (t := t) h.opened hs hb h.next_ok hal
  obtain ⟨b, hbdef⟩ : ∃ x, x = endAddr t.poolStart pre := ⟨_, rfl⟩
  obtain ⟨q, hq⟩ : ∃ x, x = b + 16 + sz := ⟨_, rfl⟩
  obtain ⟨sp, hsp⟩ : ∃ x, x = s - sz - 16 := ⟨_, rfl⟩
  obtain ⟨m₁, hm₁⟩ : ∃ x, x = splitMem m b q (b + 16 + s) sz sp := ⟨_, rfl⟩
  rw [← hbdef, ← hq, ← hsp, ← hm₁] at e₁ hrun ho₁
  rw [← hsp] at hl
  rw [← hbdef, ← hq, ← hsp]
  have hqend : endAddr t.poolStart (pre ++ [⟨sz, false⟩]) = q := by
    rw [endAddr_append, ← hbdef, hq]
    rfl
  have hlist : ∀ f, pre ++ ⟨sz, false⟩ :: ⟨sp, f⟩ :: post = (pre ++ [⟨sz, false⟩]) ++ ⟨sp, f⟩ :: post := by
    simp
  have hmin : ∀ d ∈ pre ++ ⟨sz, false⟩ :: ⟨sp, true⟩ :: post, 16 ≤ d.size := fun d hd => (hl.blk d hd).1
  have hown := h.split_own hbdef hq hs
  have hfiled₁ := h.filed_split hbdef hq hs e₁
  rw [← hsp] at hown hfiled₁
  -- filing the remainder
  have hqsize : size m₁ (endAddr t.poolStart (pre ++ [⟨sz, false⟩])) = sp := by
    have hqok : (⟨sp, true⟩ : Blk).Ok := (hlist true ▸ hl).mid_ok
    have hhdr := ho₁.next
    rw [← hbdef] at hhdr
    simp only [← hq] at hhdr
    rw [hqend]
    exact hhdr.size_eq hqok
  obtain ⟨t', m₂, hins, hfiled₂, hps, hpe, e₂⟩ := hfiled₁.insert_mid (hlist true ▸ hl) hqsize
  rw [hqend] at hins hfiled₂
  rw [← hlist] at hfiled₂ e₂
  have ho₂ : Opened m₂ t.poolStart pre ⟨sz, true⟩ false ⟨sp, true⟩ (c :: rest) :=
    ho₁.frame_links (show ⟨sp, true⟩ :: post ++ [sentinel] = _ by rw [List.cons_append, h.next])
      hmin (fun _ _ hx => hx) e₂
  -- marking the front used
  rw [← hps] at ho₂ hfiled₂
  obtain ⟨hinv, e₃⟩ := finishUsed ho₂ (by rw [List.cons_append, h.next]) (by rw [hps, hpe]; exact hl) hfiled₂
  rw [hps, ← hbdef] at e₃ hinv
  refine ⟨t', _, ?_, hinv, hps, hpe, ?_⟩
  · have hrem : usizeSub s sz = s - sz :=
      usizeSub_of_le (by omega) (lt_trans hb.lt (by norm_num))
    have hge : s - sz ≥ headerSize + minPayload := by
      rw [headerSize, minPayload]
      omega
    rw [hins] at hrun
    rw [← hbdef] at hsize
    simp only [prepareUsed, hsize, hrem, if_pos hge, hrun, Exec.bind_ok, Exec.pure_eq]
    rfl
  · refine eqOn_compl_mono (eqOn_compl_trans (eqOn_compl_trans e₁ e₂) e₃) ?_
    exact Set.union_subset (Set.union_subset hown links_own) subset_rfl

end

/-! ## `alloc` -/

section

variable {t : TlsfAllocator} {m : Mem} {bs : List Blk} {L : Nat → Nat → List Nat} {n : Nat}

/-- What a successful `alloc` of `n` bytes does: one `Carve` of the block that good-fit search
chooses, with the invariant kept and no byte changed that is not the allocator's own. -/
structure Allocated (t : TlsfAllocator) (m : Mem) (bs : List Blk) (L : Nat → Nat → List Nat)
    (n : Nat) (t' : TlsfAllocator) (m' : Mem) (bs' : List Blk) (L' : Nat → Nat → List Nat)
    (p : Nat) : Prop where
  carve : Carve t.poolStart L (adjusted n) bs bs' L' p
  chosen : ∃ s, freeCells t.poolStart bs (fromPayload p) s ∧ Chosen L (adjusted n) (fromPayload p) s
  inv : PoolInv t' m' bs' L'
  start_eq : t'.poolStart = t.poolStart
  end_eq : t'.poolEnd = t.poolEnd
  frame : Set.EqOn m' m (ownBytes t.poolStart bs ∪ ownBytes t.poolStart bs')ᶜ

/-- The pool after `find_suitable` has taken a block. -/
theorem PoolInv.taken (h : PoolInv t m bs L) {b s : Nat} {t₁ : TlsfAllocator}
    {L₁ : Nat → Nat → List Nat} (hb : freeCells t.poolStart bs b s)
    (hfiled : Filed t₁ (unlinkMem m b) L₁ ((freeCells t.poolStart bs).erase b))
    (hps : t₁.poolStart = t.poolStart) (hpe : t₁.poolEnd = t.poolEnd) :
    ∃ pre post c rest, bs = pre ++ ⟨s, true⟩ :: post ∧ b = endAddr t.poolStart pre ∧
      Taken t₁ (unlinkMem m b) L₁ pre s post c rest := by
  obtain ⟨pre, post, rfl, rfl⟩ := cells_split hb
  obtain ⟨c, rest, hnext⟩ := exists_next post
  refine ⟨pre, post, c, rest, rfl, rfl, ⟨?_, hnext, ?_, ?_⟩⟩
  · rw [hps, hpe]; exact h.layout
  · rw [hps]
    have hseg := h.seg
    rw [List.append_assoc, List.cons_append, hnext] at hseg
    refine hseg.open.frame_links hnext (fun d hd => (h.layout.blk d hd).1) (fun _ _ hx => hx) ?_
    exact unlinkMem_eqOn h.filed hb
  · rw [hps]
    exact hfiled.congr_set freeCells_erase_mid

/-- **`alloc`** refuses and changes nothing when no bin has a fit, and carves otherwise. -/
theorem alloc_spec (h : PoolInv t m bs L) (h0 : 0 < n) (hn : n ≤ usizeMax - 16) :
    (alloc t m n = .ok (t, m, 0) ∧ NoFit L (adjusted n)) ∨
      ∃ t' m' bs' L' p, alloc t m n = .ok (t', m', p) ∧ Allocated t m bs L n t' m' bs' L' p := by
  obtain ⟨_, hal, h16, h64⟩ := adjusted_spec hn
  have hn0 : n ≠ 0 := by omega
  have hadj : max (alignUpSize n) minPayload = adjusted n := rfl
  rcases findSuitable_spec h.filed (fun x s hx => h.size_eq hx) h16 h64 with
    ⟨hnone, hfit⟩ | ⟨b, s, t₁, hb, hle, hchosen, hfind, hfiled, hps, hpe⟩
  · refine .inl ⟨?_, hfit⟩
    simp only [alloc, if_neg hn0, hadj, hnone, Exec.bind_ok, if_true, Exec.pure_eq]
  · right
    have hb0 : b ≠ 0 := (h.filed.ok.pos hb).ne'
    have hunlink := unlinkMem_eqOn h.filed hb
    have hrun : ∀ {t' m' p}, prepareUsed t₁ (unlinkMem m b) b (adjusted n) = .ok (t', m', p) →
        alloc t m n = .ok (t', m', p) := by
      intro t' m' p hprep
      simp only [alloc, if_neg hn0, hadj, hfind, Exec.bind_ok, if_neg hb0, hprep]
    have hfrom : fromPayload (b + 16) = b := Nat.add_sub_cancel b 16
    obtain ⟨pre, post, c, rest, rfl, rfl, htaken⟩ := h.taken hb hfiled hps hpe
    by_cases hs : adjusted n + 32 ≤ s
    · obtain ⟨t', m', hprep, hinv, hps', hpe', hm⟩ := prepareUsed_split htaken h16 hal hs
      rw [hps] at hprep hm
      rw [hps] at hinv
      refine ⟨t', m', _, _, _, hrun hprep, ⟨.split hs, ?_, hinv, hps'.trans hps, hpe'.trans hpe, ?_⟩⟩
      · rw [hfrom]; exact ⟨s, hb, hchosen⟩
      · exact eqOn_compl_trans (eqOn_compl_mono hunlink links_own) hm
    · obtain ⟨m', hprep, hinv, hm⟩ := prepareUsed_whole htaken hle (by omega)
      rw [hps] at hprep hm
      refine ⟨t₁, m', _, _, _, hrun hprep, ⟨.whole hle (by omega), ?_, hinv, hps, hpe, ?_⟩⟩
      · rw [hfrom]; exact ⟨s, hb, hchosen⟩
      · exact eqOn_compl_trans (eqOn_compl_mono hunlink links_own) hm

end

/-! ## `add_pool` -/

/-- The payload of the first block of a pool of `size` bytes. -/
def poolPayload (size : Nat) : Nat := (size - 2 * headerSize) &&& complement 64 (align - 1)

theorem poolPayload_eq {size : Nat} (h : size < 2 ^ 64) :
    poolPayload size = (size - 32) - (size - 32) % 16 :=
  and_complement_pow (k := 4) (by simp only [headerSize]; omega)

/-- The regions that `add_pool` accepts, with a payload that has a bin. -/
structure PoolArgs (base size : Nat) : Prop where
  pos : 0 < base
  al : base % 16 = 0
  fits : base + size < 2 ^ 64
  min : 48 ≤ size
  max : poolPayload size < 2 ^ 22

instance (base size : Nat) : Decidable (PoolArgs base size) :=
  decidable_of_iff (0 < base ∧ base % 16 = 0 ∧ base + size < 2 ^ 64 ∧ 48 ≤ size ∧
      poolPayload size < 2 ^ 22)
    ⟨fun ⟨h1, h2, h3, h4, h5⟩ => ⟨h1, h2, h3, h4, h5⟩,
      fun h => ⟨h.pos, h.al, h.fits, h.min, h.max⟩⟩

/-- An empty allocator files nothing. -/
theorem filed_empty {t : TlsfAllocator} (m : Mem) (hl : ∀ fl sl, t.lists fl sl = 0)
    (hfb : t.flBitmap = 0) (hsb : ∀ fl, t.slBitmaps fl = 0) :
    Filed t m (fun _ _ => []) fun _ _ => False where
  dlist fl sl := by rw [hl]; exact DList.nil
  mem fl sl x := by simp
  bits := ⟨by simp [hsb], by simp [hsb], by simp [hfb], by simp [hfb]⟩
  ok := ⟨False.elim, False.elim, False.elim, False.elim, False.elim, False.elim⟩

/-- **`add_pool`** establishes the invariant: one free block and the sentinel. -/
theorem addPool_spec (m : Mem) {base size : Nat} (h : PoolArgs base size) :
    ∃ t' m', addPool new m base size = .ok (t', m') ∧
      PoolInv t' m' [⟨poolPayload size, true⟩]
        (file (fun _ _ => []) base (poolPayload size)) ∧
      t'.poolStart = base ∧ t'.poolEnd = base + size ∧
      Set.EqOn m' m (Set.Ico base (base + size))ᶜ := by
  obtain ⟨ps, hps⟩ : ∃ x, x = poolPayload size := ⟨_, rfl⟩
  have hfits := h.fits
  have hmin := h.min
  have hpos := h.pos
  have hmax : ps < 2 ^ 22 := hps ▸ h.max
  have hpseq : ps = (size - 32) - (size - 32) % 16 := by rw [hps, poolPayload_eq (by omega)]
  rw [← hps]
  have hbok : (⟨ps, true⟩ : Blk).Ok := ⟨by simp only; omega, by simp only; omega⟩
  -- the header and the links of the free block
  obtain ⟨m₁, hm₁⟩ : ∃ x, x = writeHeader m base 0 (ps ||| fFree) := ⟨_, rfl⟩
  have e₁ : Set.EqOn m₁ m (headerBytes base)ᶜ := hm₁ ▸ writeHeader_eqOn m base _ _
  have hb₁ : HeaderAt m₁ base ⟨ps, true⟩ false 0 :=
    hm₁ ▸ HeaderAt.writeHeader m base (headerWord_free ps).symm hbok (by norm_num)
  obtain ⟨m₂, hm₂⟩ : ∃ x, x = setLinkNext (setLinkPrev m₁ base 0) base 0 := ⟨_, rfl⟩
  have e₂ : Set.EqOn m₂ m₁ (linkBytes base)ᶜ := by
    have := eqOn_compl_trans (setLinkPrev_eqOn m₁ base 0)
      (setLinkNext_eqOn (setLinkPrev m₁ base 0) base 0)
    rwa [Set.union_self, ← hm₂] at this
  have hb₂ : HeaderAt m₂ base ⟨ps, true⟩ false 0 := hb₁.frame fun z hz => e₂ (by
    rw [mem_headerBytes] at hz
    rw [Set.mem_compl_iff, mem_linkBytes]; omega)
  -- the sentinel
  have hn : nextPhys m₂ base = base + 16 + ps := hb₂.nextPhys_eq hbok
  obtain ⟨m₃, hm₃⟩ : ∃ x, x = writeHeader m₂ (base + 16 + ps) ps fPrevFree := ⟨_, rfl⟩
  have e₃ : Set.EqOn m₃ m₂ (headerBytes (base + 16 + ps))ᶜ := hm₃ ▸ writeHeader_eqOn m₂ _ _ _
  have hs₃ : HeaderAt m₃ (base + 16 + ps) sentinel true ps :=
    hm₃ ▸ HeaderAt.writeHeader m₂ _ rfl sentinel_ok (by omega)
  have hb₃ : HeaderAt m₃ base ⟨ps, true⟩ false 0 := hb₂.frame fun z hz => e₃ (by
    rw [mem_headerBytes] at hz
    rw [Set.mem_compl_iff, mem_headerBytes]; omega)
  have hlayout : PoolLayout base (base + size) [⟨ps, true⟩] :=
    ⟨hpos, h.al, fun b hb => by rw [List.mem_singleton.mp hb]; simp only; omega,
      by simp only [endAddr_cons, endAddr_nil]; omega, hfits,
      by simp only [endAddr_cons, endAddr_nil]; omega, by simp [NoAdjacentFree]⟩
  -- filing the block
  obtain ⟨t₀, ht₀⟩ : ∃ x, x = { new with poolStart := base, poolEnd := base + size } := ⟨_, rfl⟩
  have hps₀ : t₀.poolStart = base := by rw [ht₀]
  have hpe₀ : t₀.poolEnd = base + size := by rw [ht₀]
  have hempty : Filed t₀ m₃ (fun _ _ => []) (freeCells t₀.poolStart ([] ++ ⟨ps, false⟩ :: [])) := by
    refine Filed.congr_set ?_ fun x s => (?_ : False ↔ _)
    · exact filed_empty m₃ (by simp [ht₀, new]) (by simp [ht₀, new]) (by simp [ht₀, new])
    · simp [freeCells]
  obtain ⟨t', m', hins, hfiled, hps', hpe', e₄⟩ := hempty.insert_mid (by rw [hps₀, hpe₀]; exact hlayout)
    (by rw [hps₀]; exact hb₃.size_eq hbok)
  have hstart : t'.poolStart = base := hps'.trans hps₀
  have hend : t'.poolEnd = base + size := hpe'.trans hpe₀
  rw [hps₀] at hins hfiled e₄
  refine ⟨t', m', ?_, ⟨?_, ?_, ?_⟩, hstart, hend, ?_⟩
  · have hmin' : ¬ size < 2 * headerSize + minPayload := by rw [headerSize, minPayload]; omega
    have hpay : (size - 2 * headerSize) &&& complement 64 (align - 1) = ps := hps.symm
    simp only [addPool, if_neg hmin', hpay, ← hm₁, ← hm₂, hn, ← hm₃, ← ht₀]
    exact hins
  · rw [hstart, hend]; exact hlayout
  · rw [hstart]
    have hseg : Seg m₃ base false 0 ([⟨ps, true⟩] ++ [sentinel]) := ⟨hb₃, hs₃, trivial⟩
    refine hseg.frame fun x b hx z hz => e₄ ?_
    rintro ⟨y, s, hy, hz'⟩
    exact header_link_disjoint (fun c hc => (hlayout.blk c hc).1) hx hy hz hz'
  · rw [hstart]
    exact hfiled
  · refine eqOn_compl_mono (eqOn_compl_trans (eqOn_compl_trans (eqOn_compl_trans e₁ e₂) e₃) e₄) ?_
    rintro z (((hz | hz) | hz) | ⟨y, s, hy, hz⟩)
    · rw [mem_headerBytes] at hz
      exact ⟨by omega, by omega⟩
    · rw [mem_linkBytes] at hz
      exact ⟨by omega, by omega⟩
    · rw [mem_headerBytes] at hz
      exact ⟨by omega, by omega⟩
    · obtain ⟨rfl, _⟩ := Prod.mk.inj (List.mem_singleton.mp hy)
      rw [mem_linkBytes] at hz
      exact ⟨by omega, by omega⟩

end FerrumAlloc.Tlsf
