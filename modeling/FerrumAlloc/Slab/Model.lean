/-
# FerrumAlloc.Slab.Model -- the slab allocator

`SlabAllocator` keeps, for each size class, a doubly linked list of the pages that have a free slot.
The free slots of a page form a list of their own: the page's record holds the index of the first one,
and the first two bytes of a free slot hold the index of the next.

`alloc_no_arena` and `alloc` end in the same code (pop a slot, unlink the page if it is now full), and
so do `free` and `free_no_arena` (push a slot, link the page if it was full). That code is `takeSlot`
and `putSlot` here; each function of the source is written with its own way of finding the page.
-/
import FerrumAlloc.Arena
import Mathlib.Logic.Function.Basic

namespace FerrumAlloc

open Lib

/-- Dereferencing a raw pointer. -/
def deref (p : Nat) : Exec Unit := if p = 0 then .error .nullDeref else .ok ()

theorem deref_of_ne {p : Nat} (h : p ≠ 0) : deref p = .ok () := if_neg h

/-- `SlabAllocator`: `partial_pages`, the head of the page list of each class. -/
structure SlabAllocator where
  partialPages : Nat → Nat

namespace SlabAllocator

/-- `SlabAllocator::new`. -/
def new : SlabAllocator := ⟨fun _ => 0⟩

/-- `self.partial_pages[class_idx] = p`. -/
def setPartial (s : SlabAllocator) (c p : Nat) : SlabAllocator :=
  ⟨Function.update s.partialPages c p⟩

/-- `alloc_needs_page`. -/
def allocNeedsPage (s : SlabAllocator) (c : Nat) : Exec Bool := do
  checkIndex c numSizeClasses
  return s.partialPages c == 0

/-- `push_partial_page`: link a page at the head of the list of its class. -/
def pushPartialPage (s : SlabAllocator) (m : Mem) (c p : Nat) : Exec (SlabAllocator × Mem) := do
  checkIndex c numSizeClasses
  let head := s.partialPages c
  let m := setPrevPage m p 0
  let m := setNextPage m p head
  let m := if head ≠ 0 then setPrevPage m head p else m
  return (s.setPartial c p, m)

/-- `remove_partial_page`: unlink a page. -/
def removePartialPage (s : SlabAllocator) (m : Mem) (c p : Nat) : Exec (SlabAllocator × Mem) := do
  let prev := (readMeta m p).prevPage
  let next := (readMeta m p).nextPage
  let (s, m) ←
    if prev ≠ 0 then pure (s, setNextPage m prev next)
    else
      checkIndex c numSizeClasses
      pure (s.setPartial c next, m)
  let m := if next ≠ 0 then setPrevPage m next prev else m
  let m := setPrevPage m p 0
  let m := setNextPage m p 0
  return (s, m)

/-- Pop the first free slot of page `p`, whose data starts at `pageBase`. -/
def takeSlot (s : SlabAllocator) (m : Mem) (c p pageBase : Nat) : Exec (SlabAllocator × Mem × Nat) := do
  let slotIdx := (readMeta m p).freeListHead
  let slotSize ← classToSize c
  let slotAddr := pageBase + slotIdx * slotSize
  let nextIdx := read16 m slotAddr
  let m := setFreeListHead m p nextIdx
  let m := setUsedSlots m p ((readMeta m p).usedSlots + 1)
  let (s, m) ← if (readMeta m p).freeListHead = nullSlot then s.removePartialPage m c p else .ok (s, m)
  return (s, m, slotAddr)

/-- `alloc_no_arena`. -/
def allocNoArena (s : SlabAllocator) (m : Mem) (c : Nat) : Exec (SlabAllocator × Mem × Nat) := do
  checkIndex c numSizeClasses
  let p := s.partialPages c
  deref p
  s.takeSlot m c p (readMeta m p).pageAddr

/-- The loop of `init_page`: slots `i, i + 1, ..` link to their successors. -/
def linkSlots (pageBase slotSize : Nat) : Nat → Nat → Mem → Mem
  | _, 0, m => m
  | i, n + 1, m => linkSlots pageBase slotSize (i + 1) n (write16 m (pageBase + i * slotSize) (i + 1))

/-- `init_page`. -/
def initPage (m : Mem) (p pageBase c owner : Nat) : Exec Mem := do
  let m := setSizeClass m p c
  let m := setOwnerId m p owner
  let m := setUsedSlots m p 0
  let m := setFreeListHead m p 0
  let m := setNextPage m p 0
  let m := setPrevPage m p 0
  let m := setPageAddr m p pageBase
  let slotSize ← classToSize c
  let slots := slotsPerPage c pageSize
  let m := linkSlots pageBase slotSize 0 (slots - 1) m
  return write16 m (pageBase + (slots - 1) * slotSize) nullSlot

/-- `alloc`: null when the arena has no page left. -/
def alloc (s : SlabAllocator) (m : Mem) (c : Nat) (a : Arena) (owner : Nat) :
    Exec (SlabAllocator × Mem × Nat) := do
  checkIndex c numSizeClasses
  let p := s.partialPages c
  if p = 0 then
    match a.allocPage m with
    | (m, none) => return (s, m, 0)
    | (m, some (p, pageAddr)) =>
      let m ← initPage m p pageAddr c owner
      let (s, m) ← s.pushPartialPage m c p
      s.takeSlot m c p (a.pageAddr (a.metaIndex p))
  else s.takeSlot m c p (a.pageAddr (a.metaIndex p))

/-- Push the slot at `ptr` on the free list of page `p`, whose data starts at `pageBase`. -/
def putSlot (s : SlabAllocator) (m : Mem) (ptr p pageBase : Nat) : Exec (SlabAllocator × Mem) := do
  let c := (readMeta m p).sizeClass
  let slotSize ← classToSize c
  let offset := usizeSub ptr pageBase
  let slotIdx := offset / slotSize % 2 ^ 16
  let wasFull := (readMeta m p).freeListHead == nullSlot
  let m := write16 m ptr (readMeta m p).freeListHead
  let m := setFreeListHead m p slotIdx
  let m := setUsedSlots m p ((readMeta m p).usedSlots + (2 ^ 16 - 1))
  if wasFull then s.pushPartialPage m c p else return (s, m)

/-- `free`: nothing happens for pointers outside the slab pages of the arena. -/
def free (s : SlabAllocator) (m : Mem) (ptr : Nat) (a : Arena) : Exec (SlabAllocator × Mem) := do
  let pageIndex := a.ptrToPageIndex ptr
  if pageIndex = 0 then return (s, m)
  let p := a.metaPtr pageIndex
  if (readMeta m p).sizeClass = noClass then return (s, m)
  s.putSlot m ptr p (a.pageAddr pageIndex)

/-- `free_no_arena`: the caller has found the page already. -/
def freeNoArena (s : SlabAllocator) (m : Mem) (ptr p : Nat) : Exec (SlabAllocator × Mem) :=
  s.putSlot m ptr p (readMeta m p).pageAddr

end SlabAllocator

end FerrumAlloc
