/-
# FerrumAlloc.PageMeta -- the metadata record of an arena page, as bytes

`PageMeta` is `repr(C)`: 32 bytes, with the size class in byte 0, three `u16` fields at offsets 2, 4
and 6, and three pointers at 8, 16 and 24. `readMeta` decodes a record; each assignment to a field is
a write of that field's bytes. The lemmas say that on the decoded record a field write is a record
update, and that it touches the record's own 32 bytes only; nothing later looks at the bytes again.
-/
import FerrumAlloc.SizeClass

namespace FerrumAlloc

open Lib

/-- `NULL_SLOT`: the end of a free list of slots. -/
def nullSlot : Nat := 0xFFFF

/-- The size class of a page that is not a slab page. -/
def noClass : Nat := 0xFF

/-- `size_of::<PageMeta>()`. -/
def pageMetaSize : Nat := 32

/-- `PageMeta`. Null page pointers are `0`. -/
@[ext] structure PageMeta where
  sizeClass : Nat
  ownerId : Nat
  usedSlots : Nat
  freeListHead : Nat
  nextPage : Nat
  prevPage : Nat
  pageAddr : Nat
  deriving DecidableEq, Repr

/-- `PageMeta::empty`. -/
def PageMeta.empty : PageMeta where
  sizeClass := noClass
  ownerId := 0xFFFF
  usedSlots := 0
  freeListHead := nullSlot
  nextPage := 0
  prevPage := 0
  pageAddr := 0

/-- The record without its place in a page list. -/
def PageMeta.core (pm : PageMeta) : PageMeta := { pm with nextPage := 0, prevPage := 0 }

namespace PageMeta

variable (pm : PageMeta) (v w : Nat) (P : Prop) [Decidable P]

@[simp] theorem core_links : { pm with prevPage := v, nextPage := w }.core = pm.core := rfl

@[simp] theorem core_ite_prevPage : (if P then { pm with prevPage := v } else pm).core = pm.core := by
  split <;> rfl

@[simp] theorem nextPage_ite_prevPage :
    (if P then { pm with prevPage := v } else pm).nextPage = pm.nextPage := by
  split <;> rfl

@[simp] theorem prevPage_ite_prevPage :
    (if P then { pm with prevPage := v } else pm).prevPage = if P then v else pm.prevPage := by
  split <;> rfl

@[simp] theorem nextPage_ite_slots :
    (if P then { pm with freeListHead := v, usedSlots := w } else pm).nextPage = pm.nextPage := by
  split <;> rfl

@[simp] theorem prevPage_ite_slots :
    (if P then { pm with freeListHead := v, usedSlots := w } else pm).prevPage = pm.prevPage := by
  split <;> rfl

end PageMeta

/-- The record at `a`. -/
def readMeta (m : Mem) (a : Nat) : PageMeta where
  sizeClass := readLE m a 1
  ownerId := readLE m (a + 2) 2
  usedSlots := readLE m (a + 4) 2
  freeListHead := readLE m (a + 6) 2
  nextPage := readLE m (a + 8) 8
  prevPage := readLE m (a + 16) 8
  pageAddr := readLE m (a + 24) 8

def setSizeClass (m : Mem) (a v : Nat) : Mem := writeLE m a 1 v
def setOwnerId (m : Mem) (a v : Nat) : Mem := writeLE m (a + 2) 2 v
def setUsedSlots (m : Mem) (a v : Nat) : Mem := writeLE m (a + 4) 2 v
def setFreeListHead (m : Mem) (a v : Nat) : Mem := writeLE m (a + 6) 2 v
def setNextPage (m : Mem) (a v : Nat) : Mem := writeLE m (a + 8) 8 v
def setPrevPage (m : Mem) (a v : Nat) : Mem := writeLE m (a + 16) 8 v
def setPageAddr (m : Mem) (a v : Nat) : Mem := writeLE m (a + 24) 8 v

/-- `ptr::write` of a whole record. -/
def writeMeta (m : Mem) (a : Nat) (pm : PageMeta) : Mem :=
  let m := setSizeClass m a pm.sizeClass
  let m := setOwnerId m a pm.ownerId
  let m := setUsedSlots m a pm.usedSlots
  let m := setFreeListHead m a pm.freeListHead
  let m := setNextPage m a pm.nextPage
  let m := setPrevPage m a pm.prevPage
  setPageAddr m a pm.pageAddr

/-- The bytes of the record at `a`. -/
def metaBytes (a : Nat) : Set Nat := Set.Ico a (a + 32)

@[simp] theorem mem_metaBytes {a z : Nat} : z ∈ metaBytes a ↔ a ≤ z ∧ z < a + 32 := Iff.rfl

section

variable {m m' : Mem} {a v : Nat}

/-- **Frame.** A record is determined by its own bytes. -/
theorem readMeta_eqOn (h : Set.EqOn m' m (metaBytes a)) : readMeta m' a = readMeta m a := by
  have hfield : ∀ o n, o + n ≤ 32 → readLE m' (a + o) n = readLE m (a + o) n := by
    intro o n hon
    apply readLE_congr
    intro x h1 h2
    exact h (mem_metaBytes.mpr (by omega))
  unfold readMeta
  rw [hfield 2 2 (by decide), hfield 4 2 (by decide), hfield 6 2 (by decide), hfield 8 8 (by decide),
    hfield 16 8 (by decide), hfield 24 8 (by decide)]
  rw [show readLE m' a 1 = readLE m a 1 from hfield 0 1 (by decide)]

/-- A field write stays inside its record. -/
private theorem setField_eqOn {o n : Nat} (hon : o + n ≤ 32) :
    Set.EqOn (writeLE m (a + o) n v) m (metaBytes a)ᶜ := by
  apply eqOn_compl_mono (writeLE_eqOn m (a + o) n v)
  intro z hz
  rw [Set.mem_Ico] at hz
  exact mem_metaBytes.mpr (by omega)

theorem setSizeClass_eqOn : Set.EqOn (setSizeClass m a v) m (metaBytes a)ᶜ :=
  setField_eqOn (o := 0) (n := 1) (by decide)
theorem setOwnerId_eqOn : Set.EqOn (setOwnerId m a v) m (metaBytes a)ᶜ := setField_eqOn (by decide)
theorem setUsedSlots_eqOn : Set.EqOn (setUsedSlots m a v) m (metaBytes a)ᶜ :=
  setField_eqOn (by decide)
theorem setFreeListHead_eqOn : Set.EqOn (setFreeListHead m a v) m (metaBytes a)ᶜ :=
  setField_eqOn (by decide)
theorem setNextPage_eqOn : Set.EqOn (setNextPage m a v) m (metaBytes a)ᶜ := setField_eqOn (by decide)
theorem setPrevPage_eqOn : Set.EqOn (setPrevPage m a v) m (metaBytes a)ᶜ := setField_eqOn (by decide)
theorem setPageAddr_eqOn : Set.EqOn (setPageAddr m a v) m (metaBytes a)ᶜ := setField_eqOn (by decide)

/-! ## Field writes as record updates -/

theorem readMeta_setSizeClass (hv : v < 2 ^ 8) :
    readMeta (setSizeClass m a v) a = { readMeta m a with sizeClass := v } := by
  have hmod : v % 256 ^ 1 = v := Nat.mod_eq_of_lt hv
  simp (disch := omega) only [readMeta, setSizeClass, readLE_writeLE_disj, readLE_writeLE_same, hmod]

theorem readMeta_setOwnerId (hv : v < 2 ^ 16) :
    readMeta (setOwnerId m a v) a = { readMeta m a with ownerId := v } := by
  have hmod : v % 256 ^ 2 = v := Nat.mod_eq_of_lt hv
  simp (disch := omega) only [readMeta, setOwnerId, readLE_writeLE_disj, readLE_writeLE_same, hmod]

/-- The counter wraps. -/
theorem readMeta_setUsedSlots_mod :
    readMeta (setUsedSlots m a v) a = { readMeta m a with usedSlots := v % 2 ^ 16 } := by
  have hmod : v % 256 ^ 2 = v % 2 ^ 16 := rfl
  simp (disch := omega) only [readMeta, setUsedSlots, readLE_writeLE_disj, readLE_writeLE_same, hmod]

theorem readMeta_setUsedSlots (hv : v < 2 ^ 16) :
    readMeta (setUsedSlots m a v) a = { readMeta m a with usedSlots := v } := by
  rw [readMeta_setUsedSlots_mod, Nat.mod_eq_of_lt hv]

theorem readMeta_setFreeListHead (hv : v < 2 ^ 16) :
    readMeta (setFreeListHead m a v) a = { readMeta m a with freeListHead := v } := by
  have hmod : v % 256 ^ 2 = v := Nat.mod_eq_of_lt hv
  simp (disch := omega) only [readMeta, setFreeListHead, readLE_writeLE_disj, readLE_writeLE_same,
    hmod]

theorem readMeta_setNextPage (hv : v < 2 ^ 64) :
    readMeta (setNextPage m a v) a = { readMeta m a with nextPage := v } := by
  have hmod : v % 256 ^ 8 = v := Nat.mod_eq_of_lt hv
  simp (disch := omega) only [readMeta, setNextPage, readLE_writeLE_disj, readLE_writeLE_same, hmod]

theorem readMeta_setPrevPage (hv : v < 2 ^ 64) :
    readMeta (setPrevPage m a v) a = { readMeta m a with prevPage := v } := by
  have hmod : v % 256 ^ 8 = v := Nat.mod_eq_of_lt hv
  simp (disch := omega) only [readMeta, setPrevPage, readLE_writeLE_disj, readLE_writeLE_same, hmod]

theorem readMeta_setPageAddr (hv : v < 2 ^ 64) :
    readMeta (setPageAddr m a v) a = { readMeta m a with pageAddr := v } := by
  have hmod : v % 256 ^ 8 = v := Nat.mod_eq_of_lt hv
  simp (disch := omega) only [readMeta, setPageAddr, readLE_writeLE_disj, readLE_writeLE_same, hmod]

/-- **Round trip.** A record whose fields fit is read back as it was written. -/
theorem readMeta_writeMeta {pm : PageMeta} (h0 : pm.sizeClass < 2 ^ 8) (h1 : pm.ownerId < 2 ^ 16)
    (h2 : pm.usedSlots < 2 ^ 16) (h3 : pm.freeListHead < 2 ^ 16) (h4 : pm.nextPage < 2 ^ 64)
    (h5 : pm.prevPage < 2 ^ 64) (h6 : pm.pageAddr < 2 ^ 64) :
    readMeta (writeMeta m a pm) a = pm := by
  unfold writeMeta
  rw [readMeta_setPageAddr h6, readMeta_setPrevPage h5, readMeta_setNextPage h4,
    readMeta_setFreeListHead h3, readMeta_setUsedSlots h2, readMeta_setOwnerId h1,
    readMeta_setSizeClass h0]

theorem readMeta_writeMeta_empty : readMeta (writeMeta m a .empty) a = .empty := by
  apply readMeta_writeMeta <;> decide

theorem writeMeta_eqOn (pm : PageMeta) : Set.EqOn (writeMeta m a pm) m (metaBytes a)ᶜ := by
  intro z hz
  unfold writeMeta
  rw [setPageAddr_eqOn hz, setPrevPage_eqOn hz, setNextPage_eqOn hz, setFreeListHead_eqOn hz,
    setUsedSlots_eqOn hz, setOwnerId_eqOn hz, setSizeClass_eqOn hz]

end

end FerrumAlloc
