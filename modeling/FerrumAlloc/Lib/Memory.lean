/-
# FerrumAlloc.Lib.Memory -- byte-addressed memory and little-endian words

A memory is a total function from addresses to bytes. Multi-byte words are read and written in
little-endian order by `readLE` / `writeLE`; the fixed widths used by programs are `read16`,
`read32`, `read64` and their writers.

Two kinds of rules carry every later proof:

* round trip: reading back exactly the word just written gives its value modulo the word size
  (`readLE_writeLE_same`);
* frame: a read depends on its own bytes only (`readLE_congr`), and a write changes no byte outside
  its own range (`writeLE_eqOn`), stated with Mathlib's `Set.EqOn` so that frames compose with the
  lemmas that are already there.

The bulk writers `fill` (memset) and `copyRange` (memcpy) come with the same frame rule.
-/
import Mathlib.Data.Set.Function
import Mathlib.Order.Interval.Set.Basic
import Mathlib.Tactic.Ring

namespace FerrumAlloc.Lib

/-- A memory: one byte at every address. -/
abbrev Mem := Nat → UInt8

/-! ## Little-endian words -/

/-- The `n`-byte little-endian word at `a`. -/
def readLE (m : Mem) (a : Nat) : Nat → Nat
  | 0 => 0
  | n + 1 => (m a).toNat + 256 * readLE m (a + 1) n

/-- Store the low `n` bytes of `v` at `a`, least significant byte first. -/
def writeLE (m : Mem) (a n v : Nat) : Mem := fun x =>
  if a ≤ x ∧ x < a + n then UInt8.ofNat (v / 256 ^ (x - a)) else m x

/-- A read sees its own bytes only. -/
theorem readLE_congr {m m' : Mem} {n : Nat} :
    ∀ {a : Nat}, (∀ x, a ≤ x → x < a + n → m' x = m x) → readLE m' a n = readLE m a n := by
  induction n with
  | zero => intro a _; rfl
  | succ n ih =>
    intro a h
    have hhead : m' a = m a := h a (Nat.le_refl a) (by omega)
    have htail : readLE m' (a + 1) n = readLE m (a + 1) n :=
      ih fun x h1 h2 => h x (by omega) (by omega)
    simp only [readLE, hhead, htail]

theorem readLE_lt (m : Mem) (n : Nat) : ∀ a : Nat, readLE m a n < 256 ^ n := by
  induction n with
  | zero => intro a; simp [readLE]
  | succ n ih =>
    intro a
    have hb : (m a).toNat < 256 := (m a).toNat_lt
    have ht := ih (a + 1)
    simp only [readLE, Nat.pow_succ]
    omega

/-- The bytes of a stored word are its base-256 digits, read from any offset inside it. -/
theorem readLE_writeLE_from (m : Mem) (a n v : Nat) :
    ∀ j k : Nat, k + j ≤ n → readLE (writeLE m a n v) (a + k) j = v / 256 ^ k % 256 ^ j := by
  intro j
  induction j with
  | zero => intro k _; simp [readLE, Nat.mod_one]
  | succ j ih =>
    intro k hk
    have hbyte : writeLE m a n v (a + k) = UInt8.ofNat (v / 256 ^ k) := by
      have hin : a ≤ a + k ∧ a + k < a + n := by omega
      simp only [writeLE, if_pos hin, Nat.add_sub_cancel_left]
    have hrest := ih (k + 1) (by omega)
    have hdiv : v / 256 ^ (k + 1) = v / 256 ^ k / 256 := by
      rw [Nat.pow_succ, Nat.div_div_eq_div_mul]
    have hsplit := Nat.mod_mul (x := v / 256 ^ k) (a := 256) (b := 256 ^ j)
    simp only [readLE, hbyte, UInt8.toNat_ofNat', Nat.add_assoc, hrest, hdiv]
    rw [pow_succ' 256 j, hsplit]

/-- **Round trip.** Reading back the word just written. -/
theorem readLE_writeLE_same (m : Mem) (a n v : Nat) :
    readLE (writeLE m a n v) a n = v % 256 ^ n := by
  have h := readLE_writeLE_from m a n v n 0 (by omega)
  simpa using h

/-- A write changes only the bytes it covers. -/
theorem writeLE_eqOn (m : Mem) (a n v : Nat) :
    Set.EqOn (writeLE m a n v) m (Set.Ico a (a + n))ᶜ := by
  intro x hx
  simp only [Set.mem_compl_iff, Set.mem_Ico] at hx
  simp only [writeLE, if_neg hx]

/-- One store into two memories keeps what they agree on. -/
theorem writeLE_congr {m m' : Mem} {S : Set Nat} (h : Set.EqOn m' m S) (a n v : Nat) :
    Set.EqOn (writeLE m' a n v) (writeLE m a n v) S := by
  intro x hx
  simp only [writeLE, h hx]

/-- **Frame.** A read disjoint from a write does not see it. -/
theorem readLE_writeLE_disj (m : Mem) {a n b k : Nat} (v : Nat) (h : a + n ≤ b ∨ b + k ≤ a) :
    readLE (writeLE m a n v) b k = readLE m b k :=
  readLE_congr fun x h1 h2 => writeLE_eqOn m a n v (by
    simp only [Set.mem_compl_iff, Set.mem_Ico]; omega)

/-! ## Fixed widths -/

def read16 (m : Mem) (a : Nat) : Nat := readLE m a 2
def read32 (m : Mem) (a : Nat) : Nat := readLE m a 4
def read64 (m : Mem) (a : Nat) : Nat := readLE m a 8
def write16 (m : Mem) (a v : Nat) : Mem := writeLE m a 2 v
def write32 (m : Mem) (a v : Nat) : Mem := writeLE m a 4 v
def write64 (m : Mem) (a v : Nat) : Mem := writeLE m a 8 v

theorem read16_write16_same (m : Mem) {a v : Nat} (hv : v < 2 ^ 16) :
    read16 (write16 m a v) a = v := by
  rw [read16, write16, readLE_writeLE_same]
  exact Nat.mod_eq_of_lt hv

theorem read32_write32_same (m : Mem) {a v : Nat} (hv : v < 2 ^ 32) :
    read32 (write32 m a v) a = v := by
  rw [read32, write32, readLE_writeLE_same]
  exact Nat.mod_eq_of_lt hv

theorem read64_write64_same (m : Mem) {a v : Nat} (hv : v < 2 ^ 64) :
    read64 (write64 m a v) a = v := by
  rw [read64, write64, readLE_writeLE_same]
  exact Nat.mod_eq_of_lt hv

theorem read64_write64_disj (m : Mem) {a b : Nat} (v : Nat) (h : a + 8 ≤ b ∨ b + 8 ≤ a) :
    read64 (write64 m a v) b = read64 m b := readLE_writeLE_disj m v h

theorem read32_write64_disj (m : Mem) {a b : Nat} (v : Nat) (h : a + 8 ≤ b ∨ b + 4 ≤ a) :
    read32 (write64 m a v) b = read32 m b := readLE_writeLE_disj m v h

theorem read64_lt (m : Mem) (a : Nat) : read64 m a < 2 ^ 64 := readLE_lt m 8 a

theorem read16_lt (m : Mem) (a : Nat) : read16 m a < 2 ^ 16 := readLE_lt m 2 a

/-- A word read is determined by the bytes of its range. -/
theorem read64_eqOn {m m' : Mem} {a : Nat} (h : Set.EqOn m' m (Set.Ico a (a + 8))) :
    read64 m' a = read64 m a := readLE_congr fun _ h1 h2 => h ⟨h1, h2⟩

theorem read32_eqOn {m m' : Mem} {a : Nat} (h : Set.EqOn m' m (Set.Ico a (a + 4))) :
    read32 m' a = read32 m a := readLE_congr fun _ h1 h2 => h ⟨h1, h2⟩

theorem read16_eqOn {m m' : Mem} {a : Nat} (h : Set.EqOn m' m (Set.Ico a (a + 2))) :
    read16 m' a = read16 m a := readLE_congr fun _ h1 h2 => h ⟨h1, h2⟩

theorem write16_eqOn (m : Mem) (a v : Nat) :
    Set.EqOn (write16 m a v) m (Set.Ico a (a + 2))ᶜ := writeLE_eqOn m a 2 v

theorem write32_eqOn (m : Mem) (a v : Nat) :
    Set.EqOn (write32 m a v) m (Set.Ico a (a + 4))ᶜ := writeLE_eqOn m a 4 v

theorem write64_eqOn (m : Mem) (a v : Nat) :
    Set.EqOn (write64 m a v) m (Set.Ico a (a + 8))ᶜ := writeLE_eqOn m a 8 v

/-! ## Bulk writes -/

/-- `memset`: `n` bytes from `a` become `v`. -/
def fill (m : Mem) (a n : Nat) (v : UInt8) : Mem := fun x =>
  if a ≤ x ∧ x < a + n then v else m x

/-- `memcpy`: `n` bytes from `src` are copied to `dst`. -/
def copyRange (m : Mem) (src dst n : Nat) : Mem := fun x =>
  if dst ≤ x ∧ x < dst + n then m (src + (x - dst)) else m x

theorem fill_eqOn (m : Mem) (a n : Nat) (v : UInt8) :
    Set.EqOn (fill m a n v) m (Set.Ico a (a + n))ᶜ := by
  intro x hx
  simp only [Set.mem_compl_iff, Set.mem_Ico] at hx
  simp only [fill, if_neg hx]

theorem copyRange_eqOn (m : Mem) (src dst n : Nat) :
    Set.EqOn (copyRange m src dst n) m (Set.Ico dst (dst + n))ᶜ := by
  intro x hx
  simp only [Set.mem_compl_iff, Set.mem_Ico] at hx
  simp only [copyRange, if_neg hx]

/-- Frames compose: what neither of two changes touches is untouched by both. -/
theorem eqOn_compl_trans {m m' m'' : Mem} {S T : Set Nat} (h : Set.EqOn m' m Sᶜ)
    (h' : Set.EqOn m'' m' Tᶜ) : Set.EqOn m'' m (S ∪ T)ᶜ := by
  intro x hx
  simp only [Set.mem_compl_iff, Set.mem_union, not_or] at hx
  rw [h' hx.2, h hx.1]

/-- A frame may be weakened to any larger footprint. -/
theorem eqOn_compl_mono {m m' : Mem} {S T : Set Nat} (h : Set.EqOn m' m Sᶜ) (hST : S ⊆ T) :
    Set.EqOn m' m Tᶜ := h.mono (Set.compl_subset_compl.mpr hST)

end FerrumAlloc.Lib
