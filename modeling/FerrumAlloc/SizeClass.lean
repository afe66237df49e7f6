/-
# FerrumAlloc.SizeClass -- the twenty-two slot sizes of the slab allocator

A request of at most `SLAB_MAX_SIZE` bytes is served from a slot of the smallest class that holds it.
A slab page carries slots of one class only, as many as fit. `Slots` collects the arithmetic of one
class; it is the only thing later modules use about the table.
-/
import FerrumAlloc.Platform

namespace FerrumAlloc

open Lib

/-- `SLAB_MAX_SIZE`: larger requests go to TLSF. -/
def slabMaxSize : Nat := 1024

/-- `SIZE_CLASSES`: the slot size of each class. -/
def sizeClasses : List Nat :=
  [8, 16, 24, 32, 48, 64,
   80, 96, 112, 128,
   160, 192, 224, 256,
   320, 384, 448, 512,
   640, 768, 896, 1024]

/-- `NUM_SIZE_CLASSES`. -/
def numSizeClasses : Nat := 22

/-- An entry of `SIZE_CLASS_LUT`: the smallest class whose slots hold `size` bytes. -/
def sizeClassLut (size : Nat) : Nat := sizeClasses.findIdx fun s => size ≤ s

/-- `size_to_class`. -/
def sizeToClass (size : Nat) : Option Nat :=
  if size > slabMaxSize then none else some (sizeClassLut size)

/-- `SIZE_CLASSES[class]`. -/
def slotSize (c : Nat) : Nat := sizeClasses.getD c 0

/-- `class_to_size`, with the bounds check of the array access. -/
def classToSize (c : Nat) : Exec Nat := do
  checkIndex c numSizeClasses
  return slotSize c

/-- `slots_per_page`. -/
def slotsPerPage (c : Nat) (pageSize : Nat) : Nat :=
  if slotSize c = 0 then 0 else pageSize / slotSize c

/-- The slots of a page of the given class. -/
def slots (c : Nat) : Nat := slotsPerPage c pageSize

/-- The arithmetic of a size class. -/
structure Slots (c : Nat) : Prop where
  size_ge : 8 ≤ slotSize c
  size_le : slotSize c ≤ slabMaxSize
  size_al : slotSize c % 8 = 0
  count_ge : 4 ≤ slots c
  count_le : slots c ≤ 512
  fit : slots c * slotSize c ≤ pageSize

theorem slots_of_lt {c : Nat} (hc : c < numSizeClasses) : Slots c := by
  unfold numSizeClasses at hc
  interval_cases c <;> exact ⟨by decide, by decide, by decide, by decide, by decide, by decide⟩

theorem classToSize_of_lt {c : Nat} (hc : c < numSizeClasses) : classToSize c = .ok (slotSize c) := by
  unfold classToSize
  rw [checkIndex_of_lt hc, Exec.bind_ok, Exec.pure_eq]

/-- The class of a small request has slots that hold it. -/
theorem sizeToClass_spec {size c : Nat} (h : sizeToClass size = some c) :
    c < numSizeClasses ∧ size ≤ slotSize c ∧ size ≤ slabMaxSize := by
  unfold sizeToClass at h
  split at h
  · exact absurd h (Option.some_ne_none c).symm
  · rename_i hle
    have hle' : size ≤ 1024 := by simpa [slabMaxSize] using hle
    obtain rfl : sizeClassLut size = c := Option.some.inj h
    have hlt : sizeClassLut size < sizeClasses.length := by
      apply List.findIdx_lt_length_of_exists
      exact ⟨1024, by decide, by simpa using hle'⟩
    have hval : size ≤ sizeClasses[sizeClassLut size] := by
      have h := List.findIdx_getElem (w := hlt)
      exact of_decide_eq_true h
    refine ⟨hlt, ?_, by simpa using hle⟩
    rwa [slotSize, List.getD_eq_getElem _ _ hlt]

/-- It is the first such class. -/
theorem sizeToClass_least {size c c' : Nat} (h : sizeToClass size = some c) (hlt : c' < c) :
    slotSize c' < size := by
  have hc := (sizeToClass_spec h).1
  unfold sizeToClass at h
  split at h
  · exact absurd h (Option.some_ne_none c).symm
  · obtain rfl : sizeClassLut size = c := Option.some.inj h
    have hlen : c' < sizeClasses.length := Nat.lt_trans hlt hc
    have hnot : ¬ size ≤ sizeClasses[c'] := by
      have hfind := List.not_of_lt_findIdx hlt
      simpa using hfind
    rw [slotSize, List.getD_eq_getElem _ _ hlen]
    exact Nat.lt_of_not_le hnot

theorem sizeToClass_of_le {size : Nat} (h : size ≤ slabMaxSize) :
    sizeToClass size = some (sizeClassLut size) := if_neg (by omega)

/-- Byte offset of a slot, inside its page. -/
theorem slot_end_le {c j : Nat} (hc : c < numSizeClasses) (hj : j < slots c) :
    j * slotSize c + slotSize c ≤ pageSize := by
  have hfit := (slots_of_lt hc).fit
  have hmul : (j + 1) * slotSize c ≤ slots c * slotSize c := Nat.mul_le_mul_right _ hj
  rw [Nat.succ_mul] at hmul
  omega

/-- The slot index is recovered from an address inside the slot by division. -/
theorem slot_div {c j o : Nat} (hc : c < numSizeClasses) (ho : o < slotSize c) :
    (j * slotSize c + o) / slotSize c = j := by
  have hpos : 0 < slotSize c := lt_of_lt_of_le (by norm_num) (slots_of_lt hc).size_ge
  rw [Nat.add_comm, Nat.add_mul_div_right _ _ hpos, Nat.div_eq_of_lt ho, Nat.zero_add]

/-- Distinct slots of a page do not overlap. -/
theorem slot_apart {c j j' : Nat} (hne : j ≠ j') :
    j * slotSize c + slotSize c ≤ j' * slotSize c ∨ j' * slotSize c + slotSize c ≤ j * slotSize c := by
  rcases Nat.lt_or_gt_of_ne hne with hlt | hlt
  · left
    rw [← Nat.succ_mul]
    exact Nat.mul_le_mul_right _ hlt
  · right
    rw [← Nat.succ_mul]
    exact Nat.mul_le_mul_right _ hlt

end FerrumAlloc
