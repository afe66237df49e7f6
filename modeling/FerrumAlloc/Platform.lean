/-
# FerrumAlloc.Platform -- machine words, page constants and the operating system

`usize` is 64 bits wide; its values, addresses included, are natural numbers below `2 ^ 64`, and
arithmetic that may wrap in a release build is written with an explicit reduction. `0` is the null
pointer. `Exec` is the result of running code that
may fault: a null global dereferenced, an array indexed out of range, a lock never released.

The operating system is under no control of the allocator: every `os_alloc` receives an answer from
outside. `osAlloc` accepts an answer only if it is one the system can give (page aligned, non-null,
not wrapping, disjoint from every current mapping); any other answer counts as a refusal. A granted
mapping is zero filled, as anonymous `mmap` and `VirtualAlloc` document. A request for zero bytes is
refused (`EINVAL`).
-/
import FerrumAlloc.Lib.Memory
import FerrumAlloc.Lib.Bits

namespace FerrumAlloc

open Lib

/-- `usize::MAX`. -/
def usizeMax : Nat := 2 ^ 64 - 1

/-- Wrapping `usize` addition, as compiled without overflow checks. -/
def usizeAdd (a b : Nat) : Nat := (a + b) % 2 ^ 64

/-- Wrapping `usize` subtraction. -/
def usizeSub (a b : Nat) : Nat := (a + (2 ^ 64 - b)) % 2 ^ 64

theorem usizeAdd_of_lt {a b : Nat} (h : a + b < 2 ^ 64) : usizeAdd a b = a + b :=
  Nat.mod_eq_of_lt h

theorem usizeSub_of_le {a b : Nat} (h : b ≤ a) (ha : a < 2 ^ 64) : usizeSub a b = a - b := by
  rw [usizeSub, show a + (2 ^ 64 - b) = a - b + 2 ^ 64 by omega, Nat.add_mod_right]
  exact Nat.mod_eq_of_lt (by omega)

/-! ## Faults -/

/-- The ways in which a call can fail to return. -/
inductive Fault
  /-- A null pointer was dereferenced. -/
  | nullDeref
  /-- An array index was out of range (a panic; panics abort). -/
  | indexOutOfBounds
  /-- The spin lock was already held: the caller spins for ever. -/
  | spinForever
  /-- A loop over a linked structure did not come to its end. -/
  | endlessLoop
  deriving DecidableEq, Repr

/-- Code that returns a value or faults. -/
abbrev Exec := Except Fault

namespace Exec

variable {α β : Type}

@[simp] theorem bind_ok (a : α) (f : α → Exec β) : (Except.ok a >>= f : Exec β) = f a := rfl

@[simp] theorem bind_error (e : Fault) (f : α → Exec β) :
    (Except.error e >>= f : Exec β) = Except.error e := rfl

@[simp] theorem pure_eq (a : α) : (pure a : Exec α) = Except.ok a := rfl

/-- Taking a sequential composition apart. -/
theorem bind_eq_ok {x : Exec α} {f : α → Exec β} {b : β} :
    (x >>= f) = .ok b ↔ ∃ a, x = .ok a ∧ f a = .ok b := by
  cases x with
  | error e => simp
  | ok a => simp

/-- The value of code that is known to return. -/
def result (x : Exec α) (h : x.isOk = true) : α :=
  match x, h with
  | .ok a, _ => a

theorem eq_ok_result (x : Exec α) (h : x.isOk = true) : x = .ok (x.result h) := by
  cases x with
  | error e => exact absurd h Bool.false_ne_true
  | ok a => rfl

end Exec

/-- The bounds check of an array access. -/
def checkIndex (i n : Nat) : Exec Unit := if i < n then .ok () else .error .indexOutOfBounds

theorem checkIndex_of_lt {i n : Nat} (h : i < n) : checkIndex i n = .ok () := if_pos h

/-! ## Pages and rounding -/

/-- `DEFAULT_ARENA_SIZE`: 2 MB. -/
def defaultArenaSize : Nat := 2 * 1024 * 1024

/-- `PAGE_SIZE`: 4 KB. -/
def pageSize : Nat := 4096

/-- `align_up`; `align` must be a power of two. -/
def alignUp (value align : Nat) : Nat :=
  usizeSub (usizeAdd value align) 1 &&& complement 64 (align - 1)

/-- The sum of `align_up` may reach `2 ^ 64`: the subtraction wraps it back. -/
theorem usizeSub_usizeAdd_one {v a : Nat} (h : v + a ≤ 2 ^ 64) (ha : 0 < a) :
    usizeSub (usizeAdd v a) 1 = v + a - 1 := by
  unfold usizeSub usizeAdd
  omega

/-- Rounding up without wrapping, for `align = 2 ^ k`. -/
theorem alignUp_of_le {v k : Nat} (h : v + 2 ^ k ≤ 2 ^ 64) :
    alignUp v (2 ^ k) = (v + 2 ^ k - 1) / 2 ^ k * 2 ^ k := by
  have hpos : 0 < 2 ^ k := Nat.two_pow_pos k
  rw [alignUp, usizeSub_usizeAdd_one h hpos, and_complement_pow (by omega)]
  have := Nat.div_add_mod (v + 2 ^ k - 1) (2 ^ k)
  rw [Nat.mul_comm] at this
  omega

/-- Rounding up to whole pages. -/
theorem alignUp_page {v : Nat} (h : v + 4096 ≤ 2 ^ 64) :
    alignUp v pageSize = (v + 4095) / 4096 * 4096 := alignUp_of_le (k := 12) h

/-- `align_up` gives whole pages, also where it wraps. -/
theorem alignUp_page_mod (v : Nat) : alignUp v pageSize % 4096 = 0 ∧ alignUp v pageSize < 2 ^ 64 := by
  have hlt : usizeSub (usizeAdd v pageSize) 1 < 2 ^ 64 := Nat.mod_lt _ (by decide)
  have heq : alignUp v pageSize = _ := and_complement_pow (k := 12) hlt
  rw [heq]
  omega

/-! ## The operating system -/

/-- A range of addresses: `size` bytes from `base`. -/
structure Region where
  base : Nat
  size : Nat
  deriving DecidableEq, Repr

namespace Region

/-- The addresses of a region. -/
def bytes (r : Region) : Set Nat := Set.Ico r.base (r.base + r.size)

theorem mem_bytes {r : Region} {z : Nat} : z ∈ r.bytes ↔ r.base ≤ z ∧ z < r.base + r.size := Iff.rfl

/-- Two regions share no address. -/
def Disjoint (r r' : Region) : Prop := r.base + r.size ≤ r'.base ∨ r'.base + r'.size ≤ r.base

instance (r r' : Region) : Decidable (r.Disjoint r') :=
  inferInstanceAs (Decidable (_ ∨ _))

theorem Disjoint.symm {r r' : Region} (h : r.Disjoint r') : r'.Disjoint r := Or.symm h

end Region

/-- The mappings the operating system may grant for `size` bytes. -/
def Grantable (maps : List Region) (size : Nat) (a : Nat) : Prop :=
  0 < a ∧ a % pageSize = 0 ∧ 0 < size ∧ a + size < 2 ^ 64 ∧
    ∀ r ∈ maps, r.Disjoint ⟨a, size⟩

instance (maps : List Region) (size : Nat) (a : Nat) : Decidable (Grantable maps size a) :=
  inferInstanceAs (Decidable (_ ∧ _))

/-- The memory of the process: its bytes and the mappings it owns. -/
structure Os where
  bytes : Mem
  maps : List Region

/-- `os_alloc(size)`, with the operating system's answer. -/
def osAlloc (answer : Option Nat) (size : Nat) (os : Os) : Nat × Os :=
  let alignedSize := alignUp size pageSize
  match answer with
  | none => (0, os)
  | some a =>
    if Grantable os.maps alignedSize a then
      (a, { bytes := fill os.bytes a alignedSize 0, maps := ⟨a, alignedSize⟩ :: os.maps })
    else (0, os)

/-- `os_free(ptr, size)`: the mapping is given back; its bytes are no longer ours. -/
def osFree (ptr : Nat) (size : Nat) (os : Os) : Os :=
  if ptr = 0 then os
  else { os with maps := os.maps.erase ⟨ptr, alignUp size pageSize⟩ }

/-- The operating system refuses a mapping of `size` bytes. -/
def Refuses (maps : List Region) (size : Nat) (answer : Option Nat) : Prop :=
  ∀ a, answer = some a → ¬ Grantable maps size a

/-- **What `os_alloc` does.** It refuses and changes nothing, or grants a fresh mapping. -/
theorem osAlloc_cases (answer : Option Nat) (size : Nat) (os : Os) :
    (osAlloc answer size os = (0, os) ∧ Refuses os.maps (alignUp size pageSize) answer) ∨
      ∃ a, answer = some a ∧ Grantable os.maps (alignUp size pageSize) a ∧
        osAlloc answer size os =
          (a, { bytes := fill os.bytes a (alignUp size pageSize) 0,
                maps := ⟨a, alignUp size pageSize⟩ :: os.maps }) := by
  cases answer with
  | none => exact .inl ⟨rfl, nofun⟩
  | some a =>
    by_cases h : Grantable os.maps (alignUp size pageSize) a
    · exact .inr ⟨a, rfl, h, by simp [osAlloc, h]⟩
    · refine .inl ⟨by simp [osAlloc, h], fun b hb => ?_⟩
      obtain rfl := Option.some.inj hb
      exact h

end FerrumAlloc
