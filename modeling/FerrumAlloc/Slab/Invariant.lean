/-
# FerrumAlloc.Slab.Invariant -- slabs that share an arena

Several slab allocators take pages from one arena, so the invariant is about a family `slabs : ι → _`.
Beside the memory stands an abstract view (`Ghost`): the class and owner of every slab page, its free
list as a list of slot indices, the slab on whose page list it stands while it has a free slot, and the
page lists themselves.

`SlabInv` says that memory and view agree. It depends on the metadata of the arena and on the link
bytes of the free slots only (`SlabInv.frame`). The two changes of view are `Ghost.take` and
`Ghost.put`; `Ghost.addPage` adds a page.
-/
import FerrumAlloc.Slab.Model
import FerrumAlloc.Lib.LinkedList

namespace FerrumAlloc

open Lib

/-- The abstract view of the slab pages of an arena. -/
structure Ghost (ι : Type) where
  /-- Class of a slab page; `none` for all other pages. -/
  cls : Nat → Option Nat
  /-- `owner_id` of a slab page. -/
  owner : Nat → Nat
  /-- Free slots of a page, first one first. -/
  free : Nat → List Nat
  /-- The slab that lists a page while the page has a free slot. -/
  home : Nat → ι
  /-- Page lists: metadata pointers, for each slab and class. -/
  parts : ι × Nat → List Nat

/-- The address of slot `j` of page `i`. -/
def Arena.slotAddr (a : Arena) (i c j : Nat) : Nat := a.pageAddr i + j * slotSize c

/-- The index stored in a free slot. -/
def slotLink (a : Arena) (m : Mem) (i c j : Nat) : Nat := read16 m (a.slotAddr i c j)

/-- A slab page of class `c` with owner `o` and free list `l`. -/
structure SlabPage (a : Arena) (m : Mem) (i c o : Nat) (l : List Nat) : Prop where
  cls_lt : c < numSizeClasses
  sizeClass : (readMeta m (a.metaPtr i)).sizeClass = c
  ownerId : (readMeta m (a.metaPtr i)).ownerId = o
  pageAddr : (readMeta m (a.metaPtr i)).pageAddr = a.pageAddr i
  chain : Chain (slotLink a m i c) nullSlot (readMeta m (a.metaPtr i)).freeListHead l
  nodup : l.Nodup
  lt : ∀ j ∈ l, j < slots c
  used : (readMeta m (a.metaPtr i)).usedSlots + l.length = slots c

/-- What the metadata of page `i` says, for a slab page and for any other page. -/
def PageOk (a : Arena) (m : Mem) (i : Nat) (cls : Option Nat) (o : Nat) (l : List Nat) : Prop :=
  match cls with
  | none => (readMeta m (a.metaPtr i)).sizeClass = noClass
  | some c => SlabPage a m i c o l

/-- The bytes that link free slot `j` to the next one. -/
def linkSpan (a : Arena) (i c j : Nat) : Set Nat := Set.Ico (a.slotAddr i c j) (a.slotAddr i c j + 2)

/-- The bytes that the slabs rely on: the arena's metadata and the links of the free slots. -/
def slabOwn {ι : Type} (a : Arena) (g : Ghost ι) : Set Nat :=
  a.metaRegion ∪ {z | ∃ i c j, g.cls i = some c ∧ j ∈ g.free i ∧ z ∈ linkSpan a i c j}

/-- The heads of the page lists of a family of slabs. -/
def heads {ι : Type} (slabs : ι → SlabAllocator) : ι × Nat → Nat :=
  fun k => (slabs k.1).partialPages k.2

/-- Forward and backward links of the page lists. -/
def nextOf (m : Mem) (p : Nat) : Nat := (readMeta m p).nextPage
def prevOf (m : Mem) (p : Nat) : Nat := (readMeta m p).prevPage

/-- **The slab representation invariant.** -/
structure SlabInv {ι : Type} (a : Arena) (m : Mem) (slabs : ι → SlabAllocator) (g : Ghost ι) :
    Prop where
  arena : a.Ok
  next_ge : metaPages ≤ a.nextFreePage m
  next_le : a.nextFreePage m ≤ pagesPerArena
  page : ∀ i < pagesPerArena, PageOk a m i (g.cls i) (g.owner i) (g.free i)
  range : ∀ i c, g.cls i = some c → metaPages ≤ i ∧ i < a.nextFreePage m
  lists : DLists (nextOf m) (prevOf m) 0 (heads slabs) g.parts
  mem : ∀ k c p, p ∈ g.parts (k, c) ↔
    ∃ i, p = a.metaPtr i ∧ g.cls i = some c ∧ g.free i ≠ [] ∧ g.home i = k

/-! ## Slot addresses -/

section Slots

variable {a : Arena} {m m' : Mem} {i i' c c' j j' o : Nat} {l : List Nat}

theorem slot_in_page (hc : c < numSizeClasses) (hj : j < slots c) :
    a.pageAddr i ≤ a.slotAddr i c j ∧ a.slotAddr i c j + slotSize c ≤ a.pageAddr i + 4096 := by
  have hend := slot_end_le hc hj
  unfold pageSize at hend
  unfold Arena.slotAddr
  omega

theorem linkSpan_in_page (hc : c < numSizeClasses) (hj : j < slots c) :
    linkSpan a i c j ⊆ a.pageBytes i := by
  intro z hz
  obtain ⟨h1, h2⟩ := slot_in_page (a := a) (i := i) hc hj
  have h8 := (slots_of_lt hc).size_ge
  unfold linkSpan at hz
  rw [Set.mem_Ico] at hz
  exact ⟨by omega, by omega⟩

theorem pageBytes_disjoint (hne : i ≠ i') {z : Nat} (hz : z ∈ a.pageBytes i) : z ∉ a.pageBytes i' := by
  intro hz'
  obtain ⟨h1, h2⟩ := hz
  obtain ⟨h3, h4⟩ := hz'
  rw [Arena.pageAddr_eq] at h1 h2 h3 h4
  omega

theorem pageBytes_not_meta (hi : metaPages ≤ i) {z : Nat} (hz : z ∈ a.pageBytes i) :
    z ∉ a.metaRegion := by
  intro hz'
  obtain ⟨h1, _⟩ := hz
  obtain ⟨_, h4⟩ := hz'
  have h5 : 5 ≤ i := hi
  rw [Arena.pageAddr_eq] at h1
  omega

/-- The slot of an address is determined by page and index. -/
theorem slot_ptrToPageIndex (h : a.Ok) (hlo : metaPages ≤ i) (hi : i < pagesPerArena)
    (hc : c < numSizeClasses) (hj : j < slots c) : a.ptrToPageIndex (a.slotAddr i c j) = i := by
  obtain ⟨h1, h2⟩ := slot_in_page (a := a) (i := i) hc hj
  have h8 := (slots_of_lt hc).size_ge
  exact Arena.ptrToPageIndex_of_mem h hlo hi ⟨h1, by omega⟩

/-- The slot index computed by `free`. -/
theorem slot_index (h : a.Ok) (hi : i < pagesPerArena) (hc : c < numSizeClasses) (hj : j < slots c) :
    usizeSub (a.slotAddr i c j) (a.pageAddr i) / slotSize c % 2 ^ 16 = j := by
  obtain ⟨h1, h2⟩ := slot_in_page (a := a) (i := i) hc hj
  have hfits := h.fits
  have h512 : i < 512 := hi
  have hcount := (slots_of_lt hc).count_le
  have h8 := (slots_of_lt hc).size_ge
  have hlt : a.slotAddr i c j < 2 ^ 64 := by
    rw [Arena.pageAddr_eq] at h2
    simp only [defaultArenaSize] at hfits
    omega
  rw [usizeSub_of_le h1 hlt, Arena.slotAddr, Nat.add_sub_cancel_left]
  have hdiv := slot_div (c := c) (j := j) (o := 0) hc (by omega)
  rw [Nat.add_zero] at hdiv
  rw [hdiv]
  exact Nat.mod_eq_of_lt (by omega)

/-- Slots of one page have disjoint links. -/
theorem linkSpan_disjoint (hc : c < numSizeClasses) (hne : j ≠ j') {z : Nat}
    (hz : z ∈ linkSpan a i c j) : z ∉ linkSpan a i c j' := by
  intro hz'
  have hap := slot_apart (c := c) hne
  have h8 := (slots_of_lt hc).size_ge
  unfold linkSpan Arena.slotAddr at hz hz'
  rw [Set.mem_Ico] at hz hz'
  omega

theorem slotLink_eqOn (h : Set.EqOn m' m (linkSpan a i c j)) :
    slotLink a m' i c j = slotLink a m i c j := read16_eqOn h

/-- **Frame.** A slab page depends on its record, page links apart, and on the links of its free
slots. -/
theorem SlabPage.frame (h : SlabPage a m i c o l) (hrec : (readMeta m' (a.metaPtr i)).core =
    (readMeta m (a.metaPtr i)).core) (hlink : ∀ j ∈ l, slotLink a m' i c j = slotLink a m i c j) :
    SlabPage a m' i c o l := by
  have hfield : ∀ {α : Type} (f : PageMeta → α), f (readMeta m' (a.metaPtr i)).core =
      f (readMeta m (a.metaPtr i)).core := fun f => congrArg f hrec
  have hhead : (readMeta m' (a.metaPtr i)).freeListHead = (readMeta m (a.metaPtr i)).freeListHead :=
    hfield PageMeta.freeListHead
  refine ⟨h.cls_lt, (hfield PageMeta.sizeClass).trans h.sizeClass,
    (hfield PageMeta.ownerId).trans h.ownerId, (hfield PageMeta.pageAddr).trans h.pageAddr, ?_,
    h.nodup, h.lt, ?_⟩
  · rw [hhead]
    exact h.chain.congr hlink
  · have hused : (readMeta m' (a.metaPtr i)).usedSlots = (readMeta m (a.metaPtr i)).usedSlots :=
      hfield PageMeta.usedSlots
    rw [hused]
    exact h.used

/-- The record of a slab page, its place in a page list apart, is determined by the view. -/
theorem SlabPage.core_eq (hp : SlabPage a m i c o l) (hp' : SlabPage a m' i c o l) :
    (readMeta m' (a.metaPtr i)).core = (readMeta m (a.metaPtr i)).core := by
  have hhead := (hp.chain.same hp'.chain).1
  have hused : (readMeta m' (a.metaPtr i)).usedSlots = (readMeta m (a.metaPtr i)).usedSlots :=
    Nat.add_right_cancel (hp'.used.trans hp.used.symm)
  unfold PageMeta.core
  rw [hp'.sizeClass, hp.sizeClass, hp'.ownerId, hp.ownerId, hp'.pageAddr, hp.pageAddr, hhead, hused]

theorem PageOk.frame {cls : Option Nat} (h : PageOk a m i cls o l)
    (hrec : (readMeta m' (a.metaPtr i)).core = (readMeta m (a.metaPtr i)).core)
    (hlink : ∀ c, cls = some c → ∀ j ∈ l, slotLink a m' i c j = slotLink a m i c j) :
    PageOk a m' i cls o l := by
  cases cls with
  | none => exact (congrArg PageMeta.sizeClass hrec).trans h
  | some c => exact SlabPage.frame h hrec (hlink c rfl)

end Slots

namespace SlabInv

variable {ι : Type} {a : Arena} {m m' : Mem} {slabs : ι → SlabAllocator} {g : Ghost ι}

theorem slabPage (h : SlabInv a m slabs g) {i c : Nat} (hc : g.cls i = some c) :
    SlabPage a m i c (g.owner i) (g.free i) := by
  have hi := h.range i c hc
  have hp := h.page i (lt_of_lt_of_le hi.2 h.next_le)
  rw [hc] at hp
  exact hp

theorem index_lt (h : SlabInv a m slabs g) {i c : Nat} (hc : g.cls i = some c) :
    i < pagesPerArena := lt_of_lt_of_le (h.range i c hc).2 h.next_le

/-- **Frame.** The invariant depends on the bytes of `slabOwn` only. -/
theorem frame (h : SlabInv a m slabs g) (hm : Set.EqOn m' m (slabOwn a g)) :
    SlabInv a m' slabs g := by
  have hmeta : Set.EqOn m' m a.metaRegion := hm.mono Set.subset_union_left
  have hnext : a.nextFreePage m' = a.nextFreePage m :=
    Arena.nextFreePage_of_eqOn (hmeta.mono Arena.arenaMetaBytes_subset)
  have hrec : ∀ i < pagesPerArena, readMeta m' (a.metaPtr i) = readMeta m (a.metaPtr i) :=
    fun i hi => readMeta_eqOn (hmeta.mono (Arena.metaBytes_subset hi))
  have hnode : ∀ k, ∀ p ∈ g.parts k, readMeta m' p = readMeta m p := by
    intro k p hp
    obtain ⟨i, rfl, hc, _⟩ := (h.mem k.1 k.2 p).mp hp
    exact hrec i (h.index_lt hc)
  refine ⟨h.arena, by rw [hnext]; exact h.next_ge, by rw [hnext]; exact h.next_le, fun i hi => ?_,
    fun i c hc => by rw [hnext]; exact h.range i c hc, ?_, h.mem⟩
  · refine (h.page i hi).frame (congrArg PageMeta.core (hrec i hi)) fun c hc j hj => ?_
    exact slotLink_eqOn (hm.mono fun z hz => .inr ⟨i, c, j, hc, hj, hz⟩)
  · exact h.lists.congr (fun k p hp => congrArg PageMeta.nextPage (hnode k p hp))
      fun k p hp => congrArg PageMeta.prevPage (hnode k p hp)

end SlabInv

/-! ## The changes of view -/

namespace Ghost

/-- No slab pages. -/
def empty {ι : Type} (k : ι) : Ghost ι where
  cls := fun _ => none
  owner := fun _ => 0
  free := fun _ => []
  home := fun _ => k
  parts := fun _ => []

variable {ι : Type} [DecidableEq ι]

/-- The first free slot of page `i`, of class `c`, is taken; the page leaves its list when it was the
last one. -/
def take (g : Ghost ι) (k : ι) (c i : Nat) : Ghost ι :=
  { g with
    free := Function.update g.free i (g.free i).tail
    parts := if (g.free i).tail = [] then Function.update g.parts (k, c) (g.parts (k, c)).tail
      else g.parts }

/-- Slot `j` of page `i`, of class `c`, is put back through slab `k`; a page that was full goes to the
list of `k`. -/
def put (g : Ghost ι) (a : Arena) (k : ι) (c i j : Nat) : Ghost ι :=
  { g with
    free := Function.update g.free i (j :: g.free i)
    home := if g.free i = [] then Function.update g.home i k else g.home
    parts := if g.free i = [] then
        Function.update g.parts (k, c) (a.metaPtr i :: g.parts (k, c))
      else g.parts }

/-- Page `i` becomes a slab page of class `c` of slab `k` with owner `o`, all slots free. -/
def addPage (g : Ghost ι) (a : Arena) (k : ι) (c o i : Nat) : Ghost ι where
  cls := Function.update g.cls i (some c)
  owner := Function.update g.owner i o
  free := Function.update g.free i (List.range (slots c))
  home := Function.update g.home i k
  parts := Function.update g.parts (k, c) (a.metaPtr i :: g.parts (k, c))

end Ghost

end FerrumAlloc
