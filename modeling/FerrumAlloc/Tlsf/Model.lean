/-
# FerrumAlloc.Tlsf.Model -- the two-level segregated fit allocator

`TlsfAllocator` over a pool of byte memory. A block is a 16-byte header followed by its payload:

    [ prev_phys_size : usize | size_and_flags : usize | ... payload ... ]

with `F_FREE` and `F_PREV_FREE` in the two low bits of `size_and_flags`. The links of a free block
(`FreeLinks { prev, next }`) overlay the first sixteen bytes of its payload, so the same bytes hold
client data while the block is used. Headers and links are therefore words of the byte memory, and
every accessor below is a read or a write of one such word.

Array accesses are checked (`checkIndex`): an index out of range is a panic.
-/
import FerrumAlloc.Platform
import Mathlib.Logic.Function.Basic

namespace FerrumAlloc.Tlsf

open Lib

/-! ## Constants -/

/-- `ALIGN`: block alignment. -/
def align : Nat := 16
/-- `HEADER_SIZE`: size of `BlockHeader`. -/
def headerSize : Nat := 16
/-- `MIN_PAYLOAD`: two free-list links. -/
def minPayload : Nat := 16
/-- `FL_SHIFT`: log₂ of the smallest managed size. -/
def flShift : Nat := 4
/-- `FL_MAX`: log₂ of the largest managed power of two. -/
def flMax : Nat := 21
/-- `FL_COUNT`: number of first-level bins. -/
def flCount : Nat := flMax - flShift + 1
/-- `SL_COUNT`: number of second-level bins in each first-level bin. -/
def slCount : Nat := 16
/-- `SL_LOG2`. -/
def slLog2 : Nat := 4
/-- `F_FREE`: the block is free. -/
def fFree : Nat := 1
/-- `F_PREV_FREE`: the previous physical block is free. -/
def fPrevFree : Nat := 2
/-- `SIZE_MASK`: the payload size without the flags. -/
def sizeMask : Nat := complement 64 (fFree ||| fPrevFree)

/-! ## Block headers (`BlockHeader`) -/

def prevPhysSize (m : Mem) (b : Nat) : Nat := read64 m b
def setPrevPhysSize (m : Mem) (b : Nat) (s : Nat) : Mem := write64 m b s
def sizeAndFlags (m : Mem) (b : Nat) : Nat := read64 m (b + 8)
def setSizeAndFlags (m : Mem) (b : Nat) (w : Nat) : Mem := write64 m (b + 8) w

def size (m : Mem) (b : Nat) : Nat := sizeAndFlags m b &&& sizeMask
def setSize (m : Mem) (b : Nat) (s : Nat) : Mem :=
  setSizeAndFlags m b (s ||| (sizeAndFlags m b &&& complement 64 sizeMask))
def isFree (m : Mem) (b : Nat) : Bool := sizeAndFlags m b &&& fFree != 0
def prevIsFree (m : Mem) (b : Nat) : Bool := sizeAndFlags m b &&& fPrevFree != 0
def setFree (m : Mem) (b : Nat) : Mem := setSizeAndFlags m b (sizeAndFlags m b ||| fFree)
def markUsed (m : Mem) (b : Nat) : Mem :=
  setSizeAndFlags m b (sizeAndFlags m b &&& complement 64 fFree)
def markPrevFree (m : Mem) (b : Nat) : Mem :=
  setSizeAndFlags m b (sizeAndFlags m b ||| fPrevFree)
def markPrevUsed (m : Mem) (b : Nat) : Mem :=
  setSizeAndFlags m b (sizeAndFlags m b &&& complement 64 fPrevFree)

/-- `ptr::write(block, BlockHeader { .. })`. -/
def writeHeader (m : Mem) (b : Nat) (prevPhys sizeFlags : Nat) : Mem :=
  setSizeAndFlags (setPrevPhysSize m b prevPhys) b sizeFlags

def payload (b : Nat) : Nat := b + headerSize
def fromPayload (p : Nat) : Nat := p - headerSize
def nextPhys (m : Mem) (b : Nat) : Nat := payload b + size m b
def prevPhys (m : Mem) (b : Nat) : Nat := b - (prevPhysSize m b + headerSize)

/-! ## Free-list links (`FreeLinks`, overlaid on the payload) -/

def linkPrev (m : Mem) (b : Nat) : Nat := read64 m (payload b)
def linkNext (m : Mem) (b : Nat) : Nat := read64 m (payload b + 8)
def setLinkPrev (m : Mem) (b p : Nat) : Mem := write64 m (payload b) p
def setLinkNext (m : Mem) (b n : Nat) : Mem := write64 m (payload b + 8) n

/-! ## Size to bin -/

/-- `mapping`: the bin that holds blocks of this size. -/
def mapping (size : Nat) : Nat × Nat :=
  let fl := 64 - 1 - leadingZeros 64 size
  let sl := (size >>> (fl - slLog2)) ^^^ slCount
  (fl - flShift, sl)

/-- `mapping_search`: the first bin all of whose blocks are large enough, or `(FL_COUNT, 0)`. -/
def mappingSearch (size : Nat) : Nat × Nat :=
  let fl := 64 - 1 - leadingZeros 64 size
  let round := 1 <<< (fl - slLog2) - 1
  let size2 := min (size + round) usizeMax
  let fl2 := 64 - 1 - leadingZeros 64 size2
  if fl2 > flMax then (flCount, 0)
  else
    let sl := (size2 >>> (fl2 - slLog2)) ^^^ slCount
    (fl2 - flShift, sl)

/-- `align_up_size`. -/
def alignUpSize (size : Nat) : Nat := usizeSub (usizeAdd size align) 1 &&& complement 64 (align - 1)

/-! ## The allocator -/

/-- `TlsfAllocator`. The arrays are functions of the index; accesses are range checked. -/
structure TlsfAllocator where
  flBitmap : Nat
  slBitmaps : Nat → Nat
  lists : Nat → Nat → Nat
  poolStart : Nat
  poolEnd : Nat

/-- `TlsfAllocator::new`. -/
def new : TlsfAllocator where
  flBitmap := 0
  slBitmaps := fun _ => 0
  lists := fun _ _ => 0
  poolStart := 0
  poolEnd := 0

/-- `contains`. -/
def contains (t : TlsfAllocator) (ptr : Nat) : Bool := t.poolStart ≤ ptr ∧ ptr < t.poolEnd

/-- Assignment to an element of a two-dimensional array. -/
def updBin {α : Type} (g : Nat → Nat → α) (fl sl : Nat) (v : α) : Nat → Nat → α :=
  Function.update g fl (Function.update (g fl) sl v)

@[simp] theorem updBin_apply {α : Type} (g : Nat → Nat → α) (fl sl fl' sl' : Nat) (v : α) :
    updBin g fl sl v fl' sl' = if fl' = fl ∧ sl' = sl then v else g fl' sl' := by
  by_cases h1 : fl' = fl
  · subst h1
    by_cases h2 : sl' = sl <;> simp [updBin, h2]
  · simp [updBin, h1]

/-- `self.lists[fl][sl] = block`. -/
def setList (t : TlsfAllocator) (fl sl : Nat) (block : Nat) : TlsfAllocator :=
  { t with lists := updBin t.lists fl sl block }

/-- `insert_free`: put a free block at the head of its list. -/
def insertFree (t : TlsfAllocator) (m : Mem) (block : Nat) : Exec (TlsfAllocator × Mem) := do
  let (fl, sl) := mapping (size m block)
  checkIndex fl flCount
  checkIndex sl slCount
  let head := t.lists fl sl
  let m := setLinkPrev m block 0
  let m := setLinkNext m block head
  let m := if head ≠ 0 then setLinkPrev m head block else m
  let t := setList t fl sl block
  return ({ t with
    flBitmap := t.flBitmap ||| 1 <<< fl
    slBitmaps := Function.update t.slBitmaps fl (t.slBitmaps fl ||| 1 <<< sl) }, m)

/-- The end of `remove_free`: clear the bitmap bits of a list that became empty. -/
def clearIfEmpty (t : TlsfAllocator) (fl sl : Nat) : TlsfAllocator :=
  if t.lists fl sl = 0 then
    let slMap := t.slBitmaps fl &&& complement 32 (1 <<< sl)
    { t with
      slBitmaps := Function.update t.slBitmaps fl slMap
      flBitmap := if slMap = 0 then t.flBitmap &&& complement 32 (1 <<< fl) else t.flBitmap }
  else t

/-- `remove_free`: unlink a block from its list. -/
def removeFree (t : TlsfAllocator) (m : Mem) (block : Nat) : Exec (TlsfAllocator × Mem) := do
  let (fl, sl) := mapping (size m block)
  checkIndex fl flCount
  checkIndex sl slCount
  let prev := linkPrev m block
  let next := linkNext m block
  let t := if prev ≠ 0 then t else setList t fl sl next
  let m := if prev ≠ 0 then setLinkNext m prev next else m
  let m := if next ≠ 0 then setLinkPrev m next prev else m
  return (clearIfEmpty t fl sl, m)

/-- `add_pool`: one free block spanning the pool, then the zero-size sentinel. -/
def addPool (t : TlsfAllocator) (m : Mem) (base : Nat) (poolSize : Nat) :
    Exec (TlsfAllocator × Mem) :=
  let minPool := 2 * headerSize + minPayload
  if poolSize < minPool then .ok (t, m)
  else
    let t := { t with poolStart := base, poolEnd := base + poolSize }
    let payloadSize := (poolSize - 2 * headerSize) &&& complement 64 (align - 1)
    let m := writeHeader m base 0 (payloadSize ||| fFree)
    let m := setLinkPrev m base 0
    let m := setLinkNext m base 0
    let m := writeHeader m (nextPhys m base) payloadSize fPrevFree
    insertFree t m base

/-- The bitmap search of `find_suitable`: the bin to take a block from, if any. -/
def findBin (t : TlsfAllocator) (fl sl : Nat) : Option (Nat × Nat) :=
  let slMap := t.slBitmaps fl &&& shlW 32 (2 ^ 32 - 1) sl
  if slMap ≠ 0 then some (fl, trailingZeros 32 slMap)
  else
    let flMap := t.flBitmap &&& shlW 32 (2 ^ 32 - 1) (fl + 1)
    if flMap = 0 then none
    else
      let fl := trailingZeros 32 flMap
      some (fl, trailingZeros 32 (t.slBitmaps fl))

/-- `find_suitable`: find a block of at least `size` bytes and take it off its list. -/
def findSuitable (t : TlsfAllocator) (m : Mem) (size : Nat) :
    Exec (TlsfAllocator × Mem × Nat) := do
  let (fl, sl) := mappingSearch size
  if fl ≥ flCount then return (t, m, 0)
  match findBin t fl sl with
  | none => return (t, m, 0)
  | some (fl, sl) =>
    checkIndex fl flCount
    checkIndex sl slCount
    let block := t.lists fl sl
    let (t, m) ← removeFree t m block
    return (t, m, block)

/-- The split of `prepare_used`: cut the block to `size` and free the remainder. -/
def splitBlock (t : TlsfAllocator) (m : Mem) (block size remaining : Nat) :
    Exec (TlsfAllocator × Mem) :=
  let m := setSize m block size
  let split := nextPhys m block
  let splitPayload := remaining - headerSize
  let m := writeHeader m split size (splitPayload ||| fFree)
  let m := setLinkPrev m split 0
  let m := setLinkNext m split 0
  let afterSplit := nextPhys m split
  let m := setPrevPhysSize m afterSplit splitPayload
  let m := markPrevFree m afterSplit
  insertFree t m split

/-- `prepare_used`: mark a block used, splitting off what is left over. -/
def prepareUsed (t : TlsfAllocator) (m : Mem) (block : Nat) (sz : Nat) :
    Exec (TlsfAllocator × Mem × Nat) := do
  let blockSize := size m block
  let remaining := usizeSub blockSize sz
  let (t, m) ← if remaining ≥ headerSize + minPayload then splitBlock t m block sz remaining
    else .ok (t, m)
  let m := markUsed m block
  let next := nextPhys m block
  let m := markPrevUsed m next
  return (t, m, payload block)

/-- `alloc`: null on failure. -/
def alloc (t : TlsfAllocator) (m : Mem) (size : Nat) : Exec (TlsfAllocator × Mem × Nat) := do
  if size = 0 then return (t, m, 0)
  let adjusted := max (alignUpSize size) minPayload
  let (t, m, block) ← findSuitable t m adjusted
  if block = 0 then return (t, m, 0)
  prepareUsed t m block adjusted

/-- `merge_next`: absorb the next physical block if it is free. -/
def mergeNext (t : TlsfAllocator) (m : Mem) (block : Nat) : Exec (TlsfAllocator × Mem × Nat) := do
  let next := nextPhys m block
  if isFree m next then
    let (t, m) ← removeFree t m next
    let newSize := size m block + headerSize + size m next
    let m := setSize m block newSize
    let after := nextPhys m block
    let m := setPrevPhysSize m after newSize
    return (t, m, block)
  else return (t, m, block)

/-- `merge_prev`: let the previous physical block absorb this one if it is free. -/
def mergePrev (t : TlsfAllocator) (m : Mem) (block : Nat) : Exec (TlsfAllocator × Mem × Nat) := do
  if prevIsFree m block then
    let prev := prevPhys m block
    let (t, m) ← removeFree t m prev
    let newSize := size m prev + headerSize + size m block
    let m := setSize m prev newSize
    let after := nextPhys m prev
    let m := setPrevPhysSize m after newSize
    return (t, m, prev)
  else return (t, m, block)

/-- `free`: coalesce with both neighbours and file the result. -/
def free (t : TlsfAllocator) (m : Mem) (ptr : Nat) : Exec (TlsfAllocator × Mem) := do
  if ptr = 0 then return (t, m)
  let block := fromPayload ptr
  let m := setFree m block
  let (t, m, block) ← mergeNext t m block
  let (t, m, block) ← mergePrev t m block
  let next := nextPhys m block
  let m := markPrevFree m next
  let m := setPrevPhysSize m next (size m block)
  insertFree t m block

/-- `usable_size`. -/
def usableSize (m : Mem) (ptr : Nat) : Nat := if ptr = 0 then 0 else size m (fromPayload ptr)

end FerrumAlloc.Tlsf
