/-
# FerrumAlloc.Arena -- a 2 MB region cut into pages

Page 0 of an arena holds `ArenaMeta`, pages 1 to 4 the array of 512 `PageMeta` records, and the pages
from `META_PAGES` on hold data. Pages are handed out in ascending order and never taken back:
`next_free_page` is a `u16` counter in `ArenaMeta`, and both `alloc_page` and `alloc` advance it.

The model works on the bytes of memory. The lemmas describe each operation by what it does to the
counter and to the decoded records, and by the bytes it may touch.
-/
import FerrumAlloc.PageMeta

namespace FerrumAlloc

open Lib

/-! ## Constants -/

/-- `PAGES_PER_ARENA`. -/
def pagesPerArena : Nat := defaultArenaSize / pageSize
/-- `META_PAGES`: pages reserved for metadata. -/
def metaPages : Nat := 5
/-- `DATA_START_OFFSET`. -/
def dataStartOffset : Nat := metaPages * pageSize

/-- `Arena`. -/
structure Arena where
  base : Nat
  totalSize : Nat
  deriving DecidableEq, Repr

namespace Arena

/-! ## `ArenaMeta`, at the base of the arena -/

def nextFreePage (a : Arena) (m : Mem) : Nat := readLE m (a.base + 8) 2
def setNextFreePage (a : Arena) (m : Mem) (v : Nat) : Mem := writeLE m (a.base + 8) 2 v
def allocCount (a : Arena) (m : Mem) : Nat := readLE m (a.base + 12) 4
def setAllocCount (a : Arena) (m : Mem) (v : Nat) : Mem := writeLE m (a.base + 12) 4 v

/-- `ptr::write(meta, ArenaMeta { .. })`. -/
def writeArenaMeta (a : Arena) (m : Mem) (id : Nat) : Mem :=
  let m := writeLE m a.base 4 id
  let m := writeLE m (a.base + 4) 4 a.totalSize
  let m := a.setNextFreePage m metaPages
  let m := a.setAllocCount m 0
  writeLE m (a.base + 16) 12 0

/-! ## Pages and addresses -/

/-- `contains`. -/
def contains (a : Arena) (ptr : Nat) : Bool := a.base ≤ ptr ∧ ptr < a.base + a.totalSize

/-- `ptr_to_page_index`: `0` outside the data pages. -/
def ptrToPageIndex (a : Arena) (ptr : Nat) : Nat :=
  if ptr < a.base + dataStartOffset ∨ ptr ≥ a.base + a.totalSize then 0
  else (ptr - a.base) / pageSize

/-- `meta_ptr`. -/
def metaPtr (a : Arena) (i : Nat) : Nat := a.base + pageSize + pageMetaSize * i

/-- `meta_index`. -/
def metaIndex (a : Arena) (p : Nat) : Nat := usizeSub p (a.base + pageSize) / pageMetaSize

/-- `page_addr`. -/
def pageAddr (a : Arena) (i : Nat) : Nat := a.base + i * pageSize

/-- `bytes_used`. -/
def bytesUsed (a : Arena) (m : Mem) : Nat := (a.nextFreePage m - metaPages) * pageSize

/-- `bytes_remaining`. -/
def bytesRemaining (a : Arena) (m : Mem) : Nat := (pagesPerArena - a.nextFreePage m) * pageSize

/-- `capacity`. -/
def capacity : Nat := (pagesPerArena - metaPages) * pageSize

/-! ## Operations -/

/-- The loops over page records: `f` at each of `n` records from page `i` on. -/
def forPages (f : Mem → Nat → Mem) (a : Arena) : Nat → Nat → Mem → Mem
  | _, 0, m => m
  | i, n + 1, m => forPages f a (i + 1) n (f m (a.metaPtr i))

/-- The initialisation of a fresh arena, after `os_alloc`. -/
def init (a : Arena) (m : Mem) (id : Nat) : Mem :=
  forPages (fun m p => writeMeta m p .empty) a 0 pagesPerArena (a.writeArenaMeta m id)

/-- `Arena::new`, with the operating system's answer and the next arena identifier. -/
def new (answer : Option Nat) (id : Nat) (os : Os) : Option Arena × Os :=
  let totalSize := defaultArenaSize
  let (base, os) := osAlloc answer totalSize os
  if base = 0 then (none, os)
  else
    let a : Arena := ⟨base, totalSize⟩
    (some a, { os with bytes := a.init os.bytes id })

/-- `alloc_page`: the metadata pointer and the address of a fresh page. -/
def allocPage (a : Arena) (m : Mem) : Mem × Option (Nat × Nat) :=
  let pageIdx := a.nextFreePage m
  if pageIdx ≥ pagesPerArena then (m, none)
  else
    let m := a.setNextFreePage m (pageIdx + 1)
    let m := a.setAllocCount m (a.allocCount m + 1)
    (m, some (a.metaPtr pageIdx, a.pageAddr pageIdx))

/-- The page count of `alloc`. -/
def pagesNeeded (size : Nat) : Nat := usizeSub (usizeAdd size pageSize) 1 / pageSize

/-- `alloc`: whole pages, or null. -/
def alloc (a : Arena) (m : Mem) (size : Nat) : Mem × Nat :=
  if size = 0 then (m, 0)
  else
    let startPage := a.nextFreePage m
    let endPage := startPage + pagesNeeded size
    if endPage > pagesPerArena then (m, 0)
    else
      let m := a.setNextFreePage m endPage
      let m := a.setAllocCount m (a.allocCount m + 1)
      let m := forPages (fun m p => setSizeClass m p noClass) a startPage (endPage - startPage) m
      (m, a.pageAddr startPage)

/-! ## Address arithmetic -/

/-- An arena as `Arena::new` makes it: on a page boundary, of the default size, not wrapping. -/
structure Ok (a : Arena) : Prop where
  pos : 0 < a.base
  al : a.base % pageSize = 0
  size : a.totalSize = defaultArenaSize
  fits : a.base + defaultArenaSize < 2 ^ 64

/-- The metadata of an arena: everything below the first data page. -/
def metaRegion (a : Arena) : Set Nat := Set.Ico a.base (a.base + 20480)

/-- The bytes of a page. -/
def pageBytes (a : Arena) (i : Nat) : Set Nat := Set.Ico (a.pageAddr i) (a.pageAddr i + 4096)

variable {a : Arena} {m m' : Mem} {i j n v : Nat}

theorem metaPtr_eq (a : Arena) (i : Nat) : a.metaPtr i = a.base + 4096 + 32 * i := rfl

theorem pageAddr_eq (a : Arena) (i : Nat) : a.pageAddr i = a.base + i * 4096 := rfl

theorem metaPtr_inj (h : a.metaPtr i = a.metaPtr j) : i = j := by
  rw [metaPtr_eq, metaPtr_eq] at h
  omega

theorem metaPtr_ne_zero (h : a.Ok) : a.metaPtr i ≠ 0 := by
  have := h.pos
  rw [metaPtr_eq]
  omega

theorem metaPtr_lt (h : a.Ok) (hi : i < pagesPerArena) : a.metaPtr i < 2 ^ 64 := by
  have h1 := h.fits
  have h2 : i < 512 := hi
  rw [metaPtr_eq]
  simp only [defaultArenaSize] at h1
  omega

/-- Pages lie inside the arena. -/
theorem pageAddr_end_le (hi : i < pagesPerArena) : a.pageAddr i + 4096 ≤ a.base + 2097152 := by
  have h2 : i < 512 := hi
  have heq := pageAddr_eq a i
  omega

theorem fits_lt (h : a.Ok) : a.base + 2097152 < 2 ^ 64 := h.fits

theorem pageAddr_lt (h : a.Ok) (hi : i < pagesPerArena) : a.pageAddr i < 2 ^ 64 := by
  have h1 := fits_lt h
  have h2 := pageAddr_end_le (a := a) hi
  omega

theorem metaBytes_subset (hi : i < pagesPerArena) : metaBytes (a.metaPtr i) ⊆ a.metaRegion := by
  intro z hz
  have h2 : i < 512 := hi
  rw [mem_metaBytes, metaPtr_eq] at hz
  exact ⟨by omega, by omega⟩

theorem metaBytes_disjoint (hij : i ≠ j) : metaBytes (a.metaPtr i) ⊆ (metaBytes (a.metaPtr j))ᶜ := by
  intro z hz hz'
  rw [mem_metaBytes, metaPtr_eq] at hz hz'
  omega

/-- **`meta_index` inverts `meta_ptr`.** -/
theorem metaIndex_metaPtr (h : a.Ok) (hi : i < pagesPerArena) : a.metaIndex (a.metaPtr i) = i := by
  have h1 := metaPtr_lt h hi
  rw [metaPtr_eq] at h1
  rw [metaIndex, metaPtr_eq, usizeSub_of_le (by rw [pageSize]; omega) h1]
  rw [pageSize, pageMetaSize]
  omega

/-- **`ptr_to_page_index`** finds the page of any address in a data page. -/
theorem ptrToPageIndex_of_mem (h : a.Ok) (hlo : metaPages ≤ i) (hi : i < pagesPerArena) {x : Nat}
    (hx : x ∈ a.pageBytes i) : a.ptrToPageIndex x = i := by
  obtain ⟨h1, h2⟩ := hx
  have h3 : 5 ≤ i := hlo
  have h4 : i < 512 := hi
  rw [pageAddr_eq] at h1 h2
  rw [ptrToPageIndex, if_neg, pageSize]
  · omega
  · rw [h.size, dataStartOffset, metaPages, pageSize, defaultArenaSize]
    omega

/-! ## Effects of the primitive writes -/

/-- A record is not affected by writes elsewhere. -/
theorem readMeta_of_eqOn {S : Set Nat} (hm : Set.EqOn m' m Sᶜ) (hS : metaBytes (a.metaPtr i) ⊆ Sᶜ) :
    readMeta m' (a.metaPtr i) = readMeta m (a.metaPtr i) := readMeta_eqOn (hm.mono hS)

/-- A field write to one record, seen from all records of the arena. -/
theorem readMeta_update {f : PageMeta → PageMeta} (he : Set.EqOn m' m (metaBytes (a.metaPtr j))ᶜ)
    (hf : readMeta m' (a.metaPtr j) = f (readMeta m (a.metaPtr j))) (i : Nat) :
    readMeta m' (a.metaPtr i) =
      if i = j then f (readMeta m (a.metaPtr i)) else readMeta m (a.metaPtr i) := by
  by_cases hij : i = j
  · rw [if_pos hij, hij]
    exact hf
  · rw [if_neg hij]
    exact readMeta_of_eqOn he (metaBytes_disjoint hij)

theorem nextFreePage_of_eqOn (h : Set.EqOn m' m (Set.Ico a.base (a.base + 32))) :
    a.nextFreePage m' = a.nextFreePage m := by
  apply readLE_congr
  intro x h1 h2
  exact h ⟨by omega, by omega⟩

theorem nextFreePage_setNextFreePage (hv : v < 2 ^ 16) :
    a.nextFreePage (a.setNextFreePage m v) = v := by
  unfold nextFreePage setNextFreePage
  rw [readLE_writeLE_same]
  exact Nat.mod_eq_of_lt hv

theorem nextFreePage_setAllocCount : a.nextFreePage (a.setAllocCount m v) = a.nextFreePage m := by
  unfold nextFreePage setAllocCount
  exact readLE_writeLE_disj m v (by omega)

/-- The bytes of `ArenaMeta`. -/
def arenaMetaBytes (a : Arena) : Set Nat := Set.Ico a.base (a.base + 32)

theorem arenaMetaBytes_subset : a.arenaMetaBytes ⊆ a.metaRegion := by
  intro z hz
  exact ⟨hz.1, by have := hz.2; omega⟩

theorem metaBytes_subset_compl : metaBytes (a.metaPtr i) ⊆ (a.arenaMetaBytes)ᶜ := by
  intro z hz hz'
  obtain ⟨_, h2⟩ := hz'
  rw [mem_metaBytes, metaPtr_eq] at hz
  omega

theorem setNextFreePage_eqOn : Set.EqOn (a.setNextFreePage m v) m (a.arenaMetaBytes)ᶜ := by
  apply eqOn_compl_mono (writeLE_eqOn m _ 2 v)
  intro z hz
  rw [Set.mem_Ico] at hz
  exact ⟨by omega, by omega⟩

theorem setAllocCount_eqOn : Set.EqOn (a.setAllocCount m v) m (a.arenaMetaBytes)ᶜ := by
  apply eqOn_compl_mono (writeLE_eqOn m _ 4 v)
  intro z hz
  rw [Set.mem_Ico] at hz
  exact ⟨by omega, by omega⟩

/-- A loop over records changes each record of its range by `f` and no other. -/
theorem forPages_spec {f : Mem → Nat → Mem} (g : PageMeta → PageMeta)
    (hf : ∀ m p, readMeta (f m p) p = g (readMeta m p)) (he : ∀ m p, Set.EqOn (f m p) m (metaBytes p)ᶜ) :
    ∀ n i m, i + n ≤ pagesPerArena →
      (∀ j < pagesPerArena, readMeta (forPages f a i n m) (a.metaPtr j) =
        if i ≤ j ∧ j < i + n then g (readMeta m (a.metaPtr j)) else readMeta m (a.metaPtr j)) ∧
      Set.EqOn (forPages f a i n m) m (a.metaRegion)ᶜ ∧
      Set.EqOn (forPages f a i n m) m (a.arenaMetaBytes) := by
  intro n
  induction n with
  | zero =>
    intro i m _
    refine ⟨fun j _ => ?_, Set.eqOn_refl _ _, Set.eqOn_refl _ _⟩
    rw [if_neg (by omega)]
    rfl
  | succ n ih =>
    intro i m hn
    have hi : i < pagesPerArena := by omega
    obtain ⟨hrec, hout, hhead⟩ := ih (i + 1) (f m (a.metaPtr i)) (by omega)
    have hstep := he m (a.metaPtr i)
    refine ⟨fun j hj => ?_, ?_, ?_⟩
    · rw [forPages, hrec j hj]
      by_cases hij : j = i
      · rw [hij, if_neg (by omega), if_pos (by omega), hf]
      · have hsame : readMeta (f m (a.metaPtr i)) (a.metaPtr j) = readMeta m (a.metaPtr j) :=
          readMeta_eqOn (hstep.mono (metaBytes_disjoint hij))
        rw [hsame]
        by_cases hin : i + 1 ≤ j ∧ j < i + 1 + n
        · rw [if_pos hin, if_pos (by omega)]
        · rw [if_neg hin, if_neg (by omega)]
    · intro z hz
      rw [forPages, hout hz]
      exact hstep fun hz' => hz (metaBytes_subset hi hz')
    · intro z hz
      rw [forPages, hhead hz]
      exact hstep fun hz' => metaBytes_subset_compl hz' hz

/-! ## The operations -/

/-- **A fresh arena** has every record empty and the counter at the first data page. -/
theorem init_spec (a : Arena) (m : Mem) (id : Nat) :
    a.nextFreePage (a.init m id) = metaPages ∧
      (∀ j < pagesPerArena, readMeta (a.init m id) (a.metaPtr j) = .empty) ∧
      Set.EqOn (a.init m id) m (a.metaRegion)ᶜ := by
  obtain ⟨m₁, hm₁⟩ : ∃ x, x = a.writeArenaMeta m id := ⟨_, rfl⟩
  have hhead : Set.EqOn m₁ m (a.arenaMetaBytes)ᶜ := by
    have hfield : ∀ (m : Mem) o n v, o + n ≤ 32 →
        Set.EqOn (writeLE m (a.base + o) n v) m (a.arenaMetaBytes)ᶜ := by
      intro m o n v hon
      apply eqOn_compl_mono (writeLE_eqOn m _ n v)
      intro z hz
      rw [Set.mem_Ico] at hz
      exact ⟨by omega, by omega⟩
    intro z hz
    rw [hm₁, writeArenaMeta, hfield _ 16 12 _ (by decide) hz, setAllocCount_eqOn hz,
      setNextFreePage_eqOn hz, hfield _ 4 4 _ (by decide) hz]
    exact hfield m 0 4 id (by decide) hz
  have hnext : a.nextFreePage m₁ = metaPages := by
    rw [hm₁, writeArenaMeta]
    unfold nextFreePage
    rw [readLE_writeLE_disj _ _ (by omega)]
    exact nextFreePage_setAllocCount.trans (nextFreePage_setNextFreePage (by decide))
  obtain ⟨hrec, hout, hsame⟩ := forPages_spec (a := a) (f := fun m p => writeMeta m p .empty)
    (fun _ => .empty) (fun _ _ => readMeta_writeMeta_empty) (fun _ _ => writeMeta_eqOn .empty)
    pagesPerArena 0 m₁ (by omega)
  unfold init
  rw [← hm₁]
  refine ⟨(nextFreePage_of_eqOn hsame).trans hnext, fun j hj => ?_, fun z hz => ?_⟩
  · rw [hrec j hj, if_pos (by omega)]
  · rw [hout hz]
    exact hhead fun hz' => hz (arenaMetaBytes_subset hz')

/-- The counter update shared by `alloc_page` and `alloc`. -/
private theorem advance_spec (hv : v < 2 ^ 16) :
    let m' := a.setAllocCount (a.setNextFreePage m v) n
    a.nextFreePage m' = v ∧ Set.EqOn m' m (a.arenaMetaBytes)ᶜ := by
  intro m'
  refine ⟨nextFreePage_setAllocCount.trans (nextFreePage_setNextFreePage hv), ?_⟩
  have h := eqOn_compl_trans (setNextFreePage_eqOn (a := a) (m := m) (v := v))
    (setAllocCount_eqOn (a := a) (m := a.setNextFreePage m v) (v := n))
  rwa [Set.union_self] at h

/-- **`alloc_page`** takes the next page, if there is one; it changes `ArenaMeta` only. -/
theorem allocPage_spec (a : Arena) (m : Mem) :
    (pagesPerArena ≤ a.nextFreePage m ∧ a.allocPage m = (m, none)) ∨
      ∃ m', a.nextFreePage m < pagesPerArena ∧
        a.allocPage m = (m', some (a.metaPtr (a.nextFreePage m), a.pageAddr (a.nextFreePage m))) ∧
        a.nextFreePage m' = a.nextFreePage m + 1 ∧ Set.EqOn m' m (a.arenaMetaBytes)ᶜ := by
  by_cases h : pagesPerArena ≤ a.nextFreePage m
  · left
    refine ⟨h, ?_⟩
    unfold allocPage
    rw [if_pos h]
  · right
    have hlt : a.nextFreePage m < pagesPerArena := Nat.lt_of_not_le h
    have h512 : a.nextFreePage m < 512 := hlt
    obtain ⟨hnext, hout⟩ := advance_spec (a := a) (m := m) (v := a.nextFreePage m + 1)
      (n := a.allocCount (a.setNextFreePage m (a.nextFreePage m + 1)) + 1) (by omega)
    refine ⟨_, hlt, ?_, hnext, hout⟩
    unfold allocPage
    rw [if_neg h]

/-- **`alloc`** takes a run of pages, if there are enough; it changes `ArenaMeta` and the size class
of the records of the run only. -/
theorem alloc_spec (a : Arena) (m : Mem) (size : Nat) :
    (a.alloc m size = (m, 0) ∧ (size = 0 ∨ pagesPerArena < a.nextFreePage m + pagesNeeded size)) ∨
      ∃ m', size ≠ 0 ∧ a.nextFreePage m + pagesNeeded size ≤ pagesPerArena ∧
        a.alloc m size = (m', a.pageAddr (a.nextFreePage m)) ∧
        a.nextFreePage m' = a.nextFreePage m + pagesNeeded size ∧
        (∀ j < pagesPerArena, readMeta m' (a.metaPtr j) =
          if a.nextFreePage m ≤ j ∧ j < a.nextFreePage m + pagesNeeded size then
            { readMeta m (a.metaPtr j) with sizeClass := noClass }
          else readMeta m (a.metaPtr j)) ∧
        Set.EqOn m' m (a.metaRegion)ᶜ := by
  by_cases h0 : size = 0
  · left
    refine ⟨?_, .inl h0⟩
    unfold alloc
    rw [if_pos h0]
  by_cases hfull : a.nextFreePage m + pagesNeeded size > pagesPerArena
  · left
    refine ⟨?_, .inr hfull⟩
    unfold alloc
    rw [if_neg h0, if_pos hfull]
  · right
    obtain ⟨s, hs⟩ : ∃ s, s = a.nextFreePage m := ⟨_, rfl⟩
    obtain ⟨k, hk⟩ : ∃ k, k = pagesNeeded size := ⟨_, rfl⟩
    rw [← hs, ← hk] at hfull ⊢
    have hle : s + k ≤ pagesPerArena := Nat.le_of_not_lt hfull
    have h512 : s + k ≤ 512 := hle
    obtain ⟨m₁, hm₁⟩ : ∃ x, x = a.setAllocCount (a.setNextFreePage m (s + k))
      (a.allocCount (a.setNextFreePage m (s + k)) + 1) := ⟨_, rfl⟩
    have hadv := advance_spec (a := a) (m := m) (v := s + k)
      (n := a.allocCount (a.setNextFreePage m (s + k)) + 1) (by omega)
    obtain ⟨hnext, hout₁⟩ := hadv
    rw [← hm₁] at hnext hout₁
    obtain ⟨hrec, hout, hsame⟩ := forPages_spec (a := a) (f := fun m p => setSizeClass m p noClass)
      (fun pm => { pm with sizeClass := noClass }) (fun _ _ => readMeta_setSizeClass (by decide))
      (fun _ _ => setSizeClass_eqOn) k s m₁ hle
    refine ⟨forPages (fun m p => setSizeClass m p noClass) a s k m₁, h0, hle, ?_, ?_, fun j hj => ?_,
      fun z hz => ?_⟩
    · unfold alloc
      rw [if_neg h0, ← hs, ← hk, if_neg hfull, Nat.add_sub_cancel_left, hm₁]
    · exact (nextFreePage_of_eqOn hsame).trans hnext
    · have hold : readMeta m₁ (a.metaPtr j) = readMeta m (a.metaPtr j) :=
        readMeta_of_eqOn hout₁ metaBytes_subset_compl
      rw [hrec j hj, hold]
    · rw [hout hz]
      exact hout₁ fun hz' => hz (arenaMetaBytes_subset hz')

/-- The counters advance alike in two memories with the same `ArenaMeta`. -/
private theorem advance_congr (h : Set.EqOn m' m a.arenaMetaBytes) (v : Nat) :
    Set.EqOn (a.setAllocCount (a.setNextFreePage m' v) (a.allocCount (a.setNextFreePage m' v) + 1))
      (a.setAllocCount (a.setNextFreePage m v) (a.allocCount (a.setNextFreePage m v) + 1))
      a.arenaMetaBytes := by
  have hnext : Set.EqOn (a.setNextFreePage m' v) (a.setNextFreePage m v) a.arenaMetaBytes :=
    writeLE_congr h _ _ _
  have hcount : a.allocCount (a.setNextFreePage m' v) = a.allocCount (a.setNextFreePage m v) := by
    apply readLE_congr
    intro x h1 h2
    exact hnext ⟨by omega, by omega⟩
  rw [hcount]
  exact writeLE_congr hnext _ _ _

/-- **`alloc_page` reads and writes `ArenaMeta` only**: equal bytes there stay equal. -/
theorem allocPage_congr (h : Set.EqOn m' m a.arenaMetaBytes) :
    Set.EqOn (a.allocPage m').1 (a.allocPage m).1 a.arenaMetaBytes := by
  unfold allocPage
  rw [nextFreePage_of_eqOn h]
  by_cases hfull : a.nextFreePage m ≥ pagesPerArena
  · rw [if_pos hfull, if_pos hfull]
    exact h
  · rw [if_neg hfull, if_neg hfull]
    exact advance_congr h _

/-- **`alloc`** decides by `ArenaMeta`, and writes the rest of the metadata without reading it. -/
theorem alloc_congr (h : Set.EqOn m' m a.arenaMetaBytes) (size : Nat) :
    Set.EqOn (a.alloc m' size).1 (a.alloc m size).1 a.arenaMetaBytes := by
  unfold alloc
  rw [nextFreePage_of_eqOn h]
  by_cases h0 : size = 0
  · rw [if_pos h0, if_pos h0]
    exact h
  rw [if_neg h0, if_neg h0]
  by_cases hfull : a.nextFreePage m + pagesNeeded size > pagesPerArena
  · simp only [if_pos hfull]
    exact h
  · simp only [if_neg hfull, Nat.add_sub_cancel_left]
    -- the loop over the records stays behind `ArenaMeta`
    have hloop : ∀ m, Set.EqOn (forPages (fun m p => setSizeClass m p noClass) a (a.nextFreePage m')
        (pagesNeeded size) m) m a.arenaMetaBytes := by
      intro m₀
      refine (forPages_spec (fun pm => { pm with sizeClass := noClass })
        (fun _ _ => readMeta_setSizeClass (by decide)) (fun _ _ => setSizeClass_eqOn) _ _ m₀ ?_).2.2
      rw [nextFreePage_of_eqOn h]
      exact Nat.le_of_not_lt hfull
    rw [nextFreePage_of_eqOn h] at hloop
    exact ((hloop _).trans (advance_congr h _)).trans (hloop _).symm

/-- The page count of a request that does not wrap. -/
theorem pagesNeeded_eq {size : Nat} (h0 : 0 < size) (h : size + pageSize < 2 ^ 64) :
    pagesNeeded size = (size + 4095) / 4096 := by
  unfold pagesNeeded
  rw [usizeAdd_of_lt h, usizeSub_of_le (by rw [pageSize]; omega) h, pageSize]
  congr 1

/-- **`Arena::new`** sets up an arena in a fresh mapping, or is refused and changes nothing. -/
theorem new_spec (answer : Option Nat) (id : Nat) (os : Os) :
    ((∀ base, answer = some base → ¬ Grantable os.maps 2097152 base) ∧
      Arena.new answer id os = (none, os)) ∨
    ∃ base m, answer = some base ∧ Grantable os.maps 2097152 base ∧
      Set.EqOn m os.bytes (Region.bytes ⟨base, 2097152⟩)ᶜ ∧
      Arena.new answer id os = (some ⟨base, defaultArenaSize⟩,
        ⟨Arena.init ⟨base, defaultArenaSize⟩ m id, ⟨base, 2097152⟩ :: os.maps⟩) := by
  have hsize : alignUp defaultArenaSize pageSize = 2097152 := by decide
  cases answer with
  | none => exact .inl ⟨nofun, rfl⟩
  | some base =>
    by_cases hg : Grantable os.maps 2097152 base
    · right
      obtain ⟨m, hm⟩ : ∃ m, m = fill os.bytes base 2097152 0 := ⟨_, rfl⟩
      refine ⟨base, m, rfl, hg, ?_, ?_⟩
      · rw [hm]
        exact fill_eqOn _ _ _ _
      · unfold Arena.new osAlloc
        simp only [hsize, if_pos hg, if_neg (Nat.ne_of_gt hg.1), ← hm]
    · left
      refine ⟨fun b hb => Option.some.inj hb ▸ hg, ?_⟩
      unfold Arena.new osAlloc
      simp only [hsize, if_neg hg, if_true]

end Arena

end FerrumAlloc
