/-
# FerrumAlloc.Huge -- large blocks straight from the operating system

A huge block is a mapping of its own. Its first page holds the `HugeHeader` (a magic number in the first
four bytes, the total size in the second eight) and the block starts at the second page.
-/
import FerrumAlloc.Platform

namespace FerrumAlloc

open Lib

/-- `HUGE_ALLOC_THRESHOLD`. -/
def hugeAllocThreshold : Nat := 256 * 1024

/-- `HUGE_MAGIC`. -/
def hugeMagic : Nat := 0x48554745

/-- The `total_size` computed by `huge_alloc`. -/
def hugeTotal (size : Nat) : Nat := alignUp (usizeAdd size pageSize) pageSize

/-- `(*header).magic`, `(*header).total_size`. -/
def readMagic (m : Mem) (base : Nat) : Nat := read32 m base
def readTotalSize (m : Mem) (base : Nat) : Nat := read64 m (base + 8)
def setMagic (m : Mem) (base v : Nat) : Mem := write32 m base v
def setTotalSize (m : Mem) (base v : Nat) : Mem := write64 m (base + 8) v

/-- `huge_alloc`, with the operating system's answer. -/
def hugeAlloc (answer : Option Nat) (size : Nat) (os : Os) : Nat × Os :=
  let totalSize := hugeTotal size
  let (base, os) := osAlloc answer totalSize os
  if base = 0 then (0, os)
  else
    let m := setMagic os.bytes base hugeMagic
    let m := setTotalSize m base totalSize
    (usizeAdd base pageSize, { os with bytes := m })

/-- `huge_free`. -/
def hugeFree (ptr : Nat) (os : Os) : Os :=
  if ptr = 0 then os
  else
    let base := usizeSub ptr pageSize
    if readMagic os.bytes base = hugeMagic then osFree base (readTotalSize os.bytes base) os else os

/-- `huge_usable_size`. -/
def hugeUsableSize (ptr : Nat) (m : Mem) : Nat :=
  if ptr = 0 then 0
  else
    let base := usizeSub ptr pageSize
    if readMagic m base = hugeMagic then usizeSub (readTotalSize m base) pageSize else 0

/-! ## The total size -/

/-- The total size of a request that does not wrap. -/
theorem hugeTotal_eq {size : Nat} (h : size ≤ 2 ^ 64 - 8192) :
    hugeTotal size = (size + 4095) / 4096 * 4096 + 4096 := by
  unfold hugeTotal
  rw [usizeAdd_of_lt (by rw [pageSize]; omega), alignUp_page (by rw [pageSize]; omega), pageSize]
  omega

/-- The total size of a request that wraps. -/
theorem hugeTotal_wraps {size : Nat} (h : 2 ^ 64 - 8192 < size) (hlt : size < 2 ^ 64) :
    hugeTotal size ≤ 4096 := by
  unfold hugeTotal
  by_cases hsum : size + pageSize < 2 ^ 64
  · have hv := alignUp_page_mod (usizeAdd size pageSize)
    rw [usizeAdd_of_lt hsum] at hv ⊢
    have hsub : usizeSub (usizeAdd (size + pageSize) pageSize) 1 < 4096 := by
      unfold usizeSub usizeAdd pageSize
      unfold pageSize at hsum
      omega
    unfold alignUp
    exact Nat.le_trans Nat.and_le_left (Nat.le_of_lt hsub)
  · have hv : usizeAdd size pageSize < 4096 := by
      unfold usizeAdd pageSize
      unfold pageSize at hsum
      omega
    rw [alignUp_page (by omega)]
    omega

/-- **The total size holds the request and the header page** exactly when nothing wraps. -/
theorem le_hugeTotal_iff {size : Nat} (hlt : size < 2 ^ 64) :
    size + pageSize ≤ hugeTotal size ↔ size ≤ 2 ^ 64 - 8192 := by
  constructor
  · intro h
    by_contra hwrap
    have := hugeTotal_wraps (Nat.lt_of_not_le hwrap) hlt
    unfold pageSize at h
    omega
  · intro h
    rw [hugeTotal_eq h, pageSize]
    omega

theorem hugeTotal_mod (size : Nat) : hugeTotal size % 4096 = 0 ∧ hugeTotal size < 2 ^ 64 :=
  alignUp_page_mod _

/-- `os_alloc` and `os_free` do not round a total size again. -/
theorem alignUp_hugeTotal (size : Nat) : alignUp (hugeTotal size) pageSize = hugeTotal size := by
  obtain ⟨h1, h2⟩ := hugeTotal_mod size
  rw [alignUp_page (by omega)]
  omega

/-! ## The header -/

/-- The bytes of the header page. -/
def headerPage (base : Nat) : Set Nat := Set.Ico base (base + 4096)

theorem mem_headerPage {base z : Nat} : z ∈ headerPage base ↔ base ≤ z ∧ z < base + 4096 := Iff.rfl

/-- A huge block at `ptr`: its mapping and its header. -/
structure HugeAt (os : Os) (ptr total : Nat) : Prop where
  map : ⟨ptr - 4096, total⟩ ∈ os.maps
  ge : 4096 < ptr
  lt : ptr < 2 ^ 64
  magic : readMagic os.bytes (ptr - 4096) = hugeMagic
  size : readTotalSize os.bytes (ptr - 4096) = total
  al : total % 4096 = 0
  pos : 4096 ≤ total

/-- **Frame.** A huge block depends on its mapping and on its header page. -/
theorem HugeAt.frame {os os' : Os} {ptr total : Nat} (h : HugeAt os ptr total)
    (hmap : ⟨ptr - 4096, total⟩ ∈ os'.maps)
    (hm : Set.EqOn os'.bytes os.bytes (headerPage (ptr - 4096))) : HugeAt os' ptr total := by
  refine ⟨hmap, h.ge, h.lt, ?_, ?_, h.al, h.pos⟩
  · rw [← h.magic]
    apply read32_eqOn
    refine hm.mono ?_
    rintro z ⟨h1, h2⟩
    exact ⟨h1, by omega⟩
  · rw [← h.size]
    apply read64_eqOn
    refine hm.mono ?_
    rintro z ⟨h1, h2⟩
    exact ⟨by omega, by omega⟩

/-- **`huge_alloc`** refuses and changes nothing, or returns the second page of a fresh mapping; outside
the mapping no byte changes. -/
theorem hugeAlloc_spec (answer : Option Nat) (size : Nat) (os : Os) :
    (hugeAlloc answer size os = (0, os) ∧ Refuses os.maps (hugeTotal size) answer) ∨
      ∃ base os', answer = some base ∧ Grantable os.maps (hugeTotal size) base ∧
        hugeAlloc answer size os = (base + 4096, os') ∧
        os'.maps = ⟨base, hugeTotal size⟩ :: os.maps ∧ HugeAt os' (base + 4096) (hugeTotal size) ∧
        Set.EqOn os'.bytes os.bytes (Region.bytes ⟨base, hugeTotal size⟩)ᶜ := by
  obtain ⟨hmod, htot⟩ := hugeTotal_mod size
  rcases osAlloc_cases answer (hugeTotal size) os with ⟨hrun, hno⟩ | ⟨base, hans, hgrant, hrun⟩
  · left
    rw [alignUp_hugeTotal] at hno
    refine ⟨?_, hno⟩
    unfold hugeAlloc
    simp only [hrun, if_true]
  · right
    rw [alignUp_hugeTotal] at hgrant hrun
    obtain ⟨hpos, hal, hsize, hfits, hdisj⟩ := hgrant
    have h4096 : 4096 ≤ hugeTotal size := by omega
    obtain ⟨m, hm⟩ : ∃ m, m = fill os.bytes base (hugeTotal size) 0 := ⟨_, rfl⟩
    have hbytes : Set.EqOn (setTotalSize (setMagic m base hugeMagic) base (hugeTotal size)) os.bytes
        (Region.bytes ⟨base, hugeTotal size⟩)ᶜ := by
      intro z hz
      have hout : ¬ (base ≤ z ∧ z < base + hugeTotal size) := hz
      unfold setTotalSize setMagic
      rw [write64_eqOn _ _ _ (by rw [Set.mem_compl_iff, Set.mem_Ico]; omega),
        write32_eqOn _ _ _ (by rw [Set.mem_compl_iff, Set.mem_Ico]; omega), hm]
      exact fill_eqOn _ _ _ _ hz
    refine ⟨base, ⟨setTotalSize (setMagic m base hugeMagic) base (hugeTotal size),
      ⟨base, hugeTotal size⟩ :: os.maps⟩, hans, ⟨hpos, hal, hsize, hfits, hdisj⟩, ?_, rfl,
      ⟨?_, ?_, ?_, ?_, ?_, hmod, h4096⟩, hbytes⟩
    · unfold hugeAlloc
      simp only [hrun, if_neg (show base ≠ 0 by omega)]
      rw [usizeAdd_of_lt (by rw [pageSize]; omega), pageSize, ← hm]
    · rw [Nat.add_sub_cancel]
      exact List.mem_cons_self
    · omega
    · omega
    · rw [Nat.add_sub_cancel]
      unfold readMagic setTotalSize
      rw [read32_write64_disj _ _ (by omega)]
      exact read32_write32_same _ (by decide)
    · rw [Nat.add_sub_cancel]
      exact read64_write64_same _ htot

section

variable {os : Os} {ptr total : Nat}

theorem HugeAt.total_lt (h : HugeAt os ptr total) : total < 2 ^ 64 := by
  rw [← h.size]
  exact read64_lt _ _

theorem HugeAt.base_eq (h : HugeAt os ptr total) : usizeSub ptr pageSize = ptr - 4096 := by
  have hge := h.ge
  exact usizeSub_of_le (by rw [pageSize]; omega) h.lt

/-- **`huge_free`** of a huge block gives its mapping back. -/
theorem hugeFree_spec (h : HugeAt os ptr total) :
    hugeFree ptr os = { os with maps := os.maps.erase ⟨ptr - 4096, total⟩ } := by
  have hge := h.ge
  have hlt := h.total_lt
  have hal := h.al
  unfold hugeFree osFree
  simp only [if_neg (show ptr ≠ 0 by omega), h.base_eq, h.magic, h.size, if_true,
    if_neg (show ptr - 4096 ≠ 0 by omega)]
  rw [alignUp_page (by omega), show (total + 4095) / 4096 * 4096 = total by omega]

/-- **`huge_usable_size`** of a huge block: all of its mapping but the header page. -/
theorem hugeUsableSize_spec (h : HugeAt os ptr total) :
    hugeUsableSize ptr os.bytes = total - 4096 := by
  have hge := h.ge
  unfold hugeUsableSize
  simp only [if_neg (show ptr ≠ 0 by omega), h.base_eq, h.magic, h.size, if_true]
  exact usizeSub_of_le h.pos h.total_lt

end

end FerrumAlloc
