/-
# FerrumAlloc.Tlsf.Layout -- the pool as a sequence of physical blocks

The abstract view of a pool is a list of blocks, each with a payload size and a free flag. `cells`
gives every block its address by laying the list out from a start address, sixteen header bytes and
the payload for each block. `Seg m a pf ps l` says that the memory holds the headers of the blocks of
`l` laid out from `a`, where `pf` and `ps` describe the block just before: boundary tags are part of
what a segment says about its first header.

Segments compose (`seg_append`), and a segment depends on the header bytes of its own blocks only
(`Seg.frame`). The header updates of the source are lifted to single headers (`HeaderAt.setFree`,
`HeaderAt.setSize`, ...), so a split or a merge is: take the segment apart around the blocks involved,
update their headers, put it together again.
-/
import FerrumAlloc.Tlsf.Header

namespace FerrumAlloc.Tlsf

open Lib

/-- A physical block, without its address. -/
structure Blk where
  size : Nat
  free : Bool
  deriving DecidableEq, Repr

/-- The zero-size used block that marks the end of the pool. -/
def sentinel : Blk := ⟨0, false⟩

/-- Sizes that fit the header word: multiples of 16 that leave the flag bits free. -/
structure Blk.Ok (b : Blk) : Prop where
  al : b.size % 16 = 0
  lt : b.size < 2 ^ 63

theorem sentinel_ok : sentinel.Ok := ⟨rfl, by decide⟩

/-! ## Laying out a list of blocks -/

/-- The address after the blocks of `l` laid out from `a`. -/
def endAddr : Nat → List Blk → Nat
  | a, [] => a
  | a, b :: l => endAddr (a + 16 + b.size) l

/-- The free flag of the last block of `l`, or of the block before `l`. -/
def endFree : Bool → List Blk → Bool
  | pf, [] => pf
  | _, b :: l => endFree b.free l

/-- The payload size of the last block of `l`, or of the block before `l`. -/
def endSize : Nat → List Blk → Nat
  | ps, [] => ps
  | _, b :: l => endSize b.size l

/-- The blocks of `l` with their addresses. -/
def cells : Nat → List Blk → List (Nat × Blk)
  | _, [] => []
  | a, b :: l => (a, b) :: cells (a + 16 + b.size) l

@[simp] theorem endAddr_append (a : Nat) (l₁ l₂ : List Blk) :
    endAddr a (l₁ ++ l₂) = endAddr (endAddr a l₁) l₂ := by
  induction l₁ generalizing a with
  | nil => rfl
  | cons b l ih => exact ih _

@[simp] theorem endFree_append (pf : Bool) (l₁ l₂ : List Blk) :
    endFree pf (l₁ ++ l₂) = endFree (endFree pf l₁) l₂ := by
  induction l₁ generalizing pf with
  | nil => rfl
  | cons b l ih => exact ih _

@[simp] theorem endSize_append (ps : Nat) (l₁ l₂ : List Blk) :
    endSize ps (l₁ ++ l₂) = endSize (endSize ps l₁) l₂ := by
  induction l₁ generalizing ps with
  | nil => rfl
  | cons b l ih => exact ih _

@[simp] theorem cells_append (a : Nat) (l₁ l₂ : List Blk) :
    cells a (l₁ ++ l₂) = cells a l₁ ++ cells (endAddr a l₁) l₂ := by
  induction l₁ generalizing a with
  | nil => rfl
  | cons b l ih => simp [cells, endAddr, ih]

@[simp] theorem endAddr_nil (a : Nat) : endAddr a [] = a := rfl
@[simp] theorem endAddr_cons (a : Nat) (b : Blk) (l : List Blk) :
    endAddr a (b :: l) = endAddr (a + 16 + b.size) l := rfl
@[simp] theorem endFree_nil (pf : Bool) : endFree pf [] = pf := rfl
@[simp] theorem endFree_cons (pf : Bool) (b : Blk) (l : List Blk) :
    endFree pf (b :: l) = endFree b.free l := rfl
@[simp] theorem endSize_nil (ps : Nat) : endSize ps [] = ps := rfl
@[simp] theorem endSize_cons (ps : Nat) (b : Blk) (l : List Blk) :
    endSize ps (b :: l) = endSize b.size l := rfl
@[simp] theorem cells_nil (a : Nat) : cells a [] = [] := rfl
@[simp] theorem cells_cons (a : Nat) (b : Blk) (l : List Blk) :
    cells a (b :: l) = (a, b) :: cells (a + 16 + b.size) l := rfl

/-- The free flag before a block says whether the last block before it is free. -/
theorem endFree_eq_true {pf : Bool} {l : List Blk} (h : endFree pf l = true) :
    (l = [] ∧ pf = true) ∨ ∃ l' b, l = l' ++ [b] ∧ b.free = true := by
  rcases List.eq_nil_or_concat l with rfl | ⟨l', b, rfl⟩
  · exact .inl ⟨rfl, h⟩
  · rw [List.concat_eq_append] at h ⊢
    exact .inr ⟨l', b, rfl, by simpa using h⟩

theorem le_endAddr (a : Nat) (l : List Blk) : a ≤ endAddr a l := by
  induction l generalizing a with
  | nil => exact Nat.le_refl a
  | cons b l ih => exact le_trans (by omega) (ih _)

/-- Blocks start at or after the start of the layout. -/
theorem cells_lo {a : Nat} {l : List Blk} {x : Nat} {b : Blk} (h : (x, b) ∈ cells a l) : a ≤ x := by
  induction l generalizing a with
  | nil => simp at h
  | cons c l ih =>
    rcases List.mem_cons.mp h with heq | h
    · rw [Prod.mk.injEq] at heq; omega
    · have := ih h; omega

/-- Blocks end at or before the end of the layout. -/
theorem cells_hi {a : Nat} {l : List Blk} {x : Nat} {b : Blk} (h : (x, b) ∈ cells a l) :
    x + 16 + b.size ≤ endAddr a l := by
  induction l generalizing a with
  | nil => simp at h
  | cons c l ih =>
    rcases List.mem_cons.mp h with heq | h
    · obtain ⟨rfl, rfl⟩ := Prod.mk.inj heq
      exact le_endAddr _ l
    · exact ih h

/-- Blocks tile the space between the first and the last. -/
theorem exists_cell {z : Nat} : ∀ {a : Nat} {l : List Blk}, a ≤ z → z < endAddr a l →
    ∃ x b, (x, b) ∈ cells a l ∧ x ≤ z ∧ z < x + 16 + b.size := by
  intro a l
  induction l generalizing a with
  | nil => exact fun h1 h2 => absurd h2 (Nat.not_lt_of_le h1)
  | cons b l ih =>
    intro h1 h2
    by_cases hz : z < a + 16 + b.size
    · exact ⟨a, b, .head _, h1, hz⟩
    · obtain ⟨x, c, hx, h3, h4⟩ := ih (Nat.le_of_not_lt hz) h2
      exact ⟨x, c, .tail _ hx, h3, h4⟩

theorem cells_mem {a : Nat} {l : List Blk} {x : Nat} {b : Blk} (h : (x, b) ∈ cells a l) :
    b ∈ l := by
  induction l generalizing a with
  | nil => simp at h
  | cons c l ih =>
    rcases List.mem_cons.mp h with heq | h
    · rw [(Prod.mk.inj heq).2]; exact List.mem_cons_self
    · exact List.mem_cons_of_mem _ (ih h)

/-- A block of the layout splits the list around it. -/
theorem cells_split {a : Nat} {l : List Blk} {x : Nat} {b : Blk} (h : (x, b) ∈ cells a l) :
    ∃ l₁ l₂, l = l₁ ++ b :: l₂ ∧ x = endAddr a l₁ := by
  induction l generalizing a with
  | nil => simp at h
  | cons c l ih =>
    rcases List.mem_cons.mp h with heq | h
    · obtain ⟨rfl, rfl⟩ := Prod.mk.inj heq
      exact ⟨[], l, rfl, rfl⟩
    · obtain ⟨l₁, l₂, rfl, rfl⟩ := ih h
      exact ⟨c :: l₁, l₂, rfl, rfl⟩

/-- Distinct blocks of a layout do not overlap. -/
theorem cells_disjoint {a : Nat} {l : List Blk} {x y : Nat} {b c : Blk} (hx : (x, b) ∈ cells a l)
    (hy : (y, c) ∈ cells a l) (hne : x ≠ y) :
    x + 16 + b.size ≤ y ∨ y + 16 + c.size ≤ x := by
  obtain ⟨l₁, l₂, rfl, rfl⟩ := cells_split hx
  simp only [cells_append, cells_cons, List.mem_append, List.mem_cons, Prod.mk.injEq] at hy
  rcases hy with hy | ⟨rfl, _⟩ | hy
  · exact .inr (cells_hi hy)
  · exact absurd rfl hne
  · exact .inl (cells_lo hy)

/-- An address carries one block at most. -/
theorem cells_unique {a : Nat} {l : List Blk} {x : Nat} {b c : Blk} (hx : (x, b) ∈ cells a l)
    (hy : (x, c) ∈ cells a l) : b = c := by
  obtain ⟨l₁, l₂, rfl, rfl⟩ := cells_split hx
  simp only [cells_append, cells_cons, List.mem_append, List.mem_cons, Prod.mk.injEq] at hy
  rcases hy with hy | ⟨_, rfl⟩ | hy
  · have := cells_hi hy; omega
  · rfl
  · have := cells_lo hy; omega

/-! ## Headers in memory -/

/-- The bytes of a header, and of the links behind it. -/
def headerBytes (x : Nat) : Set Nat := Set.Ico x (x + 16)
def linkBytes (x : Nat) : Set Nat := Set.Ico (x + 16) (x + 32)

@[simp] theorem mem_headerBytes {x z : Nat} : z ∈ headerBytes x ↔ x ≤ z ∧ z < x + 16 := Iff.rfl
@[simp] theorem mem_linkBytes {x z : Nat} : z ∈ linkBytes x ↔ x + 16 ≤ z ∧ z < x + 32 := Iff.rfl

/-- The header at `x` describes `b`, after a block with free flag `pf` and size `ps`. -/
structure HeaderAt (m : Mem) (x : Nat) (b : Blk) (pf : Bool) (ps : Nat) : Prop where
  prevSize : word m x 0 = ps
  sizeFlags : word m x 1 = headerWord b.size b.free pf

namespace HeaderAt

variable {m m' : Mem} {x : Nat} {b : Blk} {pf : Bool} {ps s : Nat}

theorem frame (h : HeaderAt m x b pf ps) (hm : Set.EqOn m' m (headerBytes x)) :
    HeaderAt m' x b pf ps := by
  refine ⟨(word_eqOn fun z hz => ?_).trans h.prevSize, (word_eqOn fun z hz => ?_).trans h.sizeFlags⟩
  all_goals
    rw [Set.mem_Ico] at hz
    exact hm (mem_headerBytes.mpr (by omega))

theorem size_eq (h : HeaderAt m x b pf ps) (hb : b.Ok) : size m x = b.size := by
  rw [size, sizeAndFlags_eq, h.sizeFlags]
  exact headerWord_size _ _ (by have := hb.al; omega) (by have := hb.lt; omega)

theorem isFree_eq (h : HeaderAt m x b pf ps) (hb : b.Ok) : isFree m x = b.free := by
  rw [isFree, sizeAndFlags_eq, h.sizeFlags]
  exact headerWord_isFree _ _ (by have := hb.al; omega)

theorem prevIsFree_eq (h : HeaderAt m x b pf ps) (hb : b.Ok) : prevIsFree m x = pf := by
  rw [prevIsFree, sizeAndFlags_eq, h.sizeFlags]
  exact headerWord_prevIsFree _ _ (by have := hb.al; omega)

theorem prevPhysSize_eq (h : HeaderAt m x b pf ps) : prevPhysSize m x = ps := h.prevSize

theorem nextPhys_eq (h : HeaderAt m x b pf ps) (hb : b.Ok) : nextPhys m x = x + 16 + b.size := by
  rw [nextPhys, h.size_eq hb]; rfl

/-- Writing the flags word keeps the size of the previous block. -/
private theorem of_setSizeFlags {w : Nat} {b' : Blk} {pf' : Bool} (h : HeaderAt m x b pf ps)
    (hw : w = headerWord b'.size b'.free pf') (hb' : b'.Ok) :
    HeaderAt (setSizeAndFlags m x w) x b' pf' ps := by
  have hlt : w < 2 ^ 64 := hw ▸ headerWord_lt _ _ (by have := hb'.lt; omega)
  rw [setSizeAndFlags_eq]
  exact ⟨(word_setWord_ne (by decide)).trans h.prevSize, (word_setWord_same hlt).trans hw⟩

theorem setFree (h : HeaderAt m x b pf ps) (hb : b.Ok) :
    HeaderAt (Tlsf.setFree m x) x ⟨b.size, true⟩ pf ps :=
  h.of_setSizeFlags (by rw [sizeAndFlags_eq, h.sizeFlags, headerWord_setFree]) ⟨hb.al, hb.lt⟩

theorem markUsed (h : HeaderAt m x b pf ps) (hb : b.Ok) :
    HeaderAt (Tlsf.markUsed m x) x ⟨b.size, false⟩ pf ps :=
  h.of_setSizeFlags (by
    rw [sizeAndFlags_eq, h.sizeFlags]
    exact headerWord_markUsed _ _ (by have := hb.al; omega) (by have := hb.lt; omega))
    ⟨hb.al, hb.lt⟩

theorem markPrevFree (h : HeaderAt m x b pf ps) (hb : b.Ok) :
    HeaderAt (Tlsf.markPrevFree m x) x b true ps :=
  h.of_setSizeFlags (by rw [sizeAndFlags_eq, h.sizeFlags, headerWord_markPrevFree]) hb

theorem markPrevUsed (h : HeaderAt m x b pf ps) (hb : b.Ok) :
    HeaderAt (Tlsf.markPrevUsed m x) x b false ps :=
  h.of_setSizeFlags (by
    rw [sizeAndFlags_eq, h.sizeFlags]
    exact headerWord_markPrevUsed _ _ (by have := hb.al; omega) (by have := hb.lt; omega)) hb

theorem setSize (h : HeaderAt m x b pf ps) (hb : b.Ok) (hs : (⟨s, b.free⟩ : Blk).Ok) :
    HeaderAt (Tlsf.setSize m x s) x ⟨s, b.free⟩ pf ps :=
  h.of_setSizeFlags (by
    rw [sizeAndFlags_eq, h.sizeFlags]
    exact headerWord_setSize _ _ _ (by have := hb.al; omega)) hs

theorem setPrevPhysSize (h : HeaderAt m x b pf ps) (hs : s < 2 ^ 64) :
    HeaderAt (Tlsf.setPrevPhysSize m x s) x b pf s := by
  rw [setPrevPhysSize_eq]
  exact ⟨word_setWord_same hs, (word_setWord_ne (by decide)).trans h.sizeFlags⟩

theorem writeHeader {w : Nat} (m : Mem) (x : Nat) (hw : w = headerWord b.size b.free pf) (hb : b.Ok)
    (hs : s < 2 ^ 64) : HeaderAt (Tlsf.writeHeader m x s w) x b pf s := by
  have hlt : w < 2 ^ 64 := hw ▸ headerWord_lt _ _ (by have := hb.lt; omega)
  rw [Tlsf.writeHeader, setSizeAndFlags_eq, setPrevPhysSize_eq]
  exact ⟨(word_setWord_ne (by decide)).trans (word_setWord_same hs),
    (word_setWord_same hlt).trans hw⟩

end HeaderAt

/-! ## What the header writes touch -/

theorem setSizeAndFlags_eqOn (m : Mem) (x w : Nat) :
    Set.EqOn (setSizeAndFlags m x w) m (headerBytes x)ᶜ := by
  refine eqOn_compl_mono (write64_eqOn m _ w) fun z hz => ?_
  rw [Set.mem_Ico] at hz
  exact mem_headerBytes.mpr (by omega)

theorem setPrevPhysSize_eqOn (m : Mem) (x s : Nat) :
    Set.EqOn (setPrevPhysSize m x s) m (headerBytes x)ᶜ := by
  refine eqOn_compl_mono (write64_eqOn m _ s) fun z hz => ?_
  rw [Set.mem_Ico] at hz
  exact mem_headerBytes.mpr (by omega)

theorem writeHeader_eqOn (m : Mem) (x s w : Nat) :
    Set.EqOn (writeHeader m x s w) m (headerBytes x)ᶜ := by
  have h := eqOn_compl_trans (setPrevPhysSize_eqOn m x s)
    (setSizeAndFlags_eqOn (setPrevPhysSize m x s) x w)
  rwa [Set.union_self] at h

/-! ## Segments -/

/-- The headers of the blocks of `l` laid out from `a`, after a block described by `pf`, `ps`. -/
def Seg (m : Mem) : Nat → Bool → Nat → List Blk → Prop
  | _, _, _, [] => True
  | a, pf, ps, b :: l => HeaderAt m a b pf ps ∧ Seg m (a + 16 + b.size) b.free b.size l

@[simp] theorem seg_nil (m : Mem) (a : Nat) (pf : Bool) (ps : Nat) : Seg m a pf ps [] := trivial

@[simp] theorem seg_cons (m : Mem) (a : Nat) (pf : Bool) (ps : Nat) (b : Blk) (l : List Blk) :
    Seg m a pf ps (b :: l) ↔
      HeaderAt m a b pf ps ∧ Seg m (a + 16 + b.size) b.free b.size l := Iff.rfl

theorem seg_append {m : Mem} {a : Nat} {pf : Bool} {ps : Nat} {l₁ l₂ : List Blk} :
    Seg m a pf ps (l₁ ++ l₂) ↔
      Seg m a pf ps l₁ ∧ Seg m (endAddr a l₁) (endFree pf l₁) (endSize ps l₁) l₂ := by
  induction l₁ generalizing a pf ps with
  | nil => simp
  | cons b l ih => simp only [List.cons_append, seg_cons, ih, and_assoc, endAddr_cons,
      endFree_cons, endSize_cons]

/-- **Frame.** A segment depends on the headers of its own blocks only. -/
theorem Seg.frame {m m' : Mem} {a : Nat} {pf : Bool} {ps : Nat} {l : List Blk}
    (h : Seg m a pf ps l) (hm : ∀ x b, (x, b) ∈ cells a l → Set.EqOn m' m (headerBytes x)) :
    Seg m' a pf ps l := by
  induction l generalizing a pf ps with
  | nil => trivial
  | cons b l ih =>
    obtain ⟨hhead, htail⟩ := h
    refine ⟨hhead.frame (hm a b List.mem_cons_self), ih htail fun x c hc => ?_⟩
    exact hm x c (List.mem_cons_of_mem _ hc)

/-- The header of a block inside a segment. -/
theorem Seg.headerAt {m : Mem} {a : Nat} {pf : Bool} {ps : Nat} {l : List Blk}
    (h : Seg m a pf ps l) {x : Nat} {b : Blk} (hx : (x, b) ∈ cells a l) :
    ∃ pf' ps', HeaderAt m x b pf' ps' := by
  obtain ⟨l₁, l₂, rfl, rfl⟩ := cells_split hx
  exact ⟨_, _, (seg_append.mp h).2.1⟩

end FerrumAlloc.Tlsf
