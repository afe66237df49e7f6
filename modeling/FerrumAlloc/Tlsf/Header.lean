/-
# FerrumAlloc.Tlsf.Header -- block headers as four words

A block at `x` owns four words: `prev_phys_size`, `size_and_flags` and, while it is free, the two
links in its payload. `word m x i` is the `i`-th of them. Blocks that lie at least 32 bytes apart own
disjoint words, so a write to one word of one block is invisible to every word of another
(`word_setWord_apart`); this is the only fact about memory that the layout proofs use.

`headerWord s f pf` is the packed `size_and_flags` of a block of payload size `s`. The bit tricks of
the source (`|= F_FREE`, `&= !F_PREV_FREE`, `s | (w & !SIZE_MASK)`) are record updates on it.
-/
import FerrumAlloc.Tlsf.Model

namespace FerrumAlloc.Tlsf

open Lib

/-! ## The words of a block -/

/-- The `i`-th word of the block at `x`. -/
def word (m : Mem) (x : Nat) (i : Nat) : Nat := read64 m (x + 8 * i)

/-- Overwrite the `i`-th word of the block at `x`. -/
def setWord (m : Mem) (x : Nat) (i v : Nat) : Mem := write64 m (x + 8 * i) v

/-- Two blocks whose words do not overlap. -/
def Apart (x y : Nat) : Prop := x + 32 ≤ y ∨ y + 32 ≤ x

theorem Apart.symm {x y : Nat} (h : Apart x y) : Apart y x := Or.symm h

theorem Apart.ne {x y : Nat} (h : Apart x y) : x ≠ y := by
  rintro rfl
  rcases h with h | h <;> omega

section WordRules

variable {m : Mem} {x y : Nat} {i j v : Nat}

theorem word_setWord_same (hv : v < 2 ^ 64) : word (setWord m x i v) x i = v :=
  read64_write64_same m hv

theorem word_setWord_ne (hij : i ≠ j) : word (setWord m x j v) x i = word m x i :=
  read64_write64_disj m v (by omega)

theorem word_setWord_apart (h : Apart x y) (hi : i < 4) (hj : j < 4) :
    word (setWord m y j v) x i = word m x i := by
  refine read64_write64_disj m v ?_
  rcases h with h | h <;> omega

/-- A word is determined by its bytes. -/
theorem word_eqOn {m' : Mem} (h : Set.EqOn m' m (Set.Ico (x + 8 * i) (x + 8 * i + 8))) :
    word m' x i = word m x i := read64_eqOn h

end WordRules

/-- The accessors of `BlockHeader` and `FreeLinks` are the four words. -/
theorem prevPhysSize_eq (m : Mem) (b : Nat) : prevPhysSize m b = word m b 0 := rfl
theorem sizeAndFlags_eq (m : Mem) (b : Nat) : sizeAndFlags m b = word m b 1 := rfl
theorem linkPrev_eq (m : Mem) (b : Nat) : linkPrev m b = word m b 2 := rfl
theorem linkNext_eq (m : Mem) (b : Nat) : linkNext m b = word m b 3 := rfl
theorem setPrevPhysSize_eq (m : Mem) (b s : Nat) : setPrevPhysSize m b s = setWord m b 0 s := rfl
theorem setSizeAndFlags_eq (m : Mem) (b w : Nat) : setSizeAndFlags m b w = setWord m b 1 w := rfl
theorem setLinkPrev_eq (m : Mem) (b p : Nat) : setLinkPrev m b p = setWord m b 2 p := rfl
theorem setLinkNext_eq (m : Mem) (b n : Nat) : setLinkNext m b n = setWord m b 3 n := rfl

/-! ## The packed size and flags -/

/-- The flag bits: `F_FREE` and `F_PREV_FREE`. -/
def flagBits (f pf : Bool) : Nat := (if f then fFree else 0) ||| (if pf then fPrevFree else 0)

/-- `size_and_flags` of a block with payload size `s`. -/
def headerWord (s : Nat) (f pf : Bool) : Nat := s ||| flagBits f pf

theorem flagBits_lt (f pf : Bool) : flagBits f pf < 2 ^ 2 := by
  cases f <;> cases pf <;> decide

/-- The word of a fresh free block whose predecessor is used. -/
theorem headerWord_free (s : Nat) : headerWord s true false = s ||| fFree := rfl

section HeaderWord

variable {s : Nat} (f pf : Bool)

theorem headerWord_lt (hs : s < 2 ^ 64) : headerWord s f pf < 2 ^ 64 :=
  Nat.or_lt_two_pow hs (lt_of_lt_of_le (flagBits_lt f pf) (by norm_num))

theorem headerWord_size (h4 : s % 2 ^ 2 = 0) (hs : s < 2 ^ 64) :
    headerWord s f pf &&& sizeMask = s := by
  rw [headerWord, sizeMask, or_and_complement_low h4 hs (by decide)]
  cases f <;> cases pf <;> exact Nat.or_zero s

theorem headerWord_isFree (h4 : s % 2 ^ 2 = 0) : (headerWord s f pf &&& fFree != 0) = f := by
  rw [headerWord, or_and_low h4 (by decide)]
  cases f <;> cases pf <;> rfl

theorem headerWord_prevIsFree (h4 : s % 2 ^ 2 = 0) :
    (headerWord s f pf &&& fPrevFree != 0) = pf := by
  rw [headerWord, or_and_low h4 (by decide)]
  cases f <;> cases pf <;> rfl

theorem headerWord_setFree : headerWord s f pf ||| fFree = headerWord s true pf := by
  rw [headerWord, headerWord, Nat.or_assoc]
  cases f <;> cases pf <;> rfl

theorem headerWord_markPrevFree : headerWord s f pf ||| fPrevFree = headerWord s f true := by
  rw [headerWord, headerWord, Nat.or_assoc]
  cases f <;> cases pf <;> rfl

theorem headerWord_markUsed (h4 : s % 2 ^ 2 = 0) (hs : s < 2 ^ 64) :
    headerWord s f pf &&& complement 64 fFree = headerWord s false pf := by
  rw [headerWord, headerWord, or_and_complement_low h4 hs (by decide)]
  cases f <;> cases pf <;> rfl

theorem headerWord_markPrevUsed (h4 : s % 2 ^ 2 = 0) (hs : s < 2 ^ 64) :
    headerWord s f pf &&& complement 64 fPrevFree = headerWord s f false := by
  rw [headerWord, headerWord, or_and_complement_low h4 hs (by decide)]
  cases f <;> cases pf <;> rfl

theorem headerWord_setSize (s' : Nat) (h4 : s % 2 ^ 2 = 0) :
    s' ||| (headerWord s f pf &&& complement 64 sizeMask) = headerWord s' f pf := by
  have hmask : complement 64 sizeMask = 3 := by decide
  rw [headerWord, hmask, or_and_low h4 (by decide)]
  cases f <;> cases pf <;> rfl

end HeaderWord

end FerrumAlloc.Tlsf
