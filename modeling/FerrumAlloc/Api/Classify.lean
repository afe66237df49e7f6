/-
# FerrumAlloc.Api.Classify -- what an address says about its block

`ferrum_free` and `ferrum_usable_size` know a block by its address alone. They test whether the arena
contains it, look up the size class of its page, and ask the TLSF allocator. `Heap.classify` is this
sequence of tests. It finds the backend that has served the block, with one exception: a huge block whose
pointer is the base of the arena. Such a pointer is the end of the block's own mapping, so the block is
empty (`MapBlock.cap_eq_zero`).
-/
import FerrumAlloc.Api.Alloc

namespace FerrumAlloc

open Lib
open Tlsf (UsedAt)

/-- The backend that the tests find for an address; `null` for the metadata pages. -/
def Heap.classify (h : Heap) (arena : Arena) (ptr : Nat) : Backend :=
  if arena.contains ptr then
    let pageIdx := arena.ptrToPageIndex ptr
    if pageIdx > 0 then
      let c := (readMeta h.os.bytes (arena.metaPtr pageIdx)).sizeClass
      if c ≠ noClass then .slab c
      else
        match h.globalTlsf with
        | none => .bump
        | some tlsf => if Tlsf.contains tlsf ptr then .tlsf else .bump
    else .null
  else .huge

/-- `x` is an address of data page `i`. -/
structure InPage (a : Arena) (x i : Nat) : Prop where
  contains : a.contains x = true
  index : a.ptrToPageIndex x = i
  pos : 0 < i

section

variable {h : Heap} {v : View} {b : Block} {a : Arena} {x i c j s next : Nat}

/-! ## The tests, one by one -/

theorem contains_iff (ha : a.Ok) : a.contains x = true ↔ a.base ≤ x ∧ x < a.base + 2097152 := by
  unfold Arena.contains
  rw [decide_eq_true_iff, ha.size]
  rfl

theorem InPage.of_mem (ha : a.Ok) (hlo : metaPages ≤ i) (hi : i < pagesPerArena)
    (hx : x ∈ a.pageBytes i) : InPage a x i := by
  have h5 : 5 ≤ i := hlo
  refine ⟨?_, Arena.ptrToPageIndex_of_mem ha hlo hi hx, by omega⟩
  obtain ⟨h1, h2⟩ := hx
  have hpage := Arena.pageAddr_eq a i
  have hend := Arena.pageAddr_end_le (a := a) hi
  rw [contains_iff ha]
  omega

/-- Every address behind the metadata is in a data page. -/
theorem exists_inPage (ha : a.Ok) (h1 : a.base + 20480 ≤ x) (h2 : x < a.base + 2097152) :
    ∃ i, metaPages ≤ i ∧ i < pagesPerArena ∧ x ∈ a.pageBytes i ∧ InPage a x i := by
  obtain ⟨i, hi⟩ : ∃ i, i = (x - a.base) / 4096 := ⟨_, rfl⟩
  have hpage := Arena.pageAddr_eq a i
  have hlo : metaPages ≤ i := by
    show 5 ≤ i
    omega
  have hhi : i < pagesPerArena := by
    show i < 512
    omega
  have hx : x ∈ a.pageBytes i := ⟨by omega, by omega⟩
  exact ⟨i, hlo, hhi, hx, .of_mem ha hlo hhi hx⟩

/-- A page that is no slab page says so. -/
theorem ArenaSide.class_none (ha : ArenaSide h v) (hi : i < pagesPerArena) (hc : v.g.cls i = none) :
    (readMeta h.os.bytes (v.arena.metaPtr i)).sizeClass = noClass := by
  have hp := ha.slabs.inv.page i hi
  rw [hc] at hp
  exact hp

/-- The range test of the pool. -/
theorem PoolSide.contains_iff {m : Mem} (hp : PoolSide m v) : Tlsf.contains v.tlsf x = true ↔
    v.arena.base + 20480 ≤ x ∧ x < v.arena.base + 544768 := by
  unfold Tlsf.contains
  rw [decide_eq_true_iff, hp.start_eq, hp.stop_eq]

/-! ## The tests, by backend -/

theorem ArenaSide.slab_inPage (ha : ArenaSide h v) (hu : v.g.Used i c j) :
    InPage v.arena (v.arena.slotAddr i c j) i := by
  have hinv := ha.slabs.inv
  obtain ⟨h1, h2⟩ := slot_in_page (a := v.arena) (i := i) (hinv.used_lt hu) hu.2.1
  have h8 := (slots_of_lt (hinv.used_lt hu)).size_ge
  exact .of_mem hinv.arena (hinv.range i c hu.1).1 (hinv.index_lt hu.1) ⟨h1, by omega⟩

theorem ArenaSide.pool_inPage (ha : ArenaSide h v) (hu : UsedAt v.tlsf.poolStart v.bs x s) :
    ∃ i, InPage v.arena (x + 16) i ∧
      (readMeta h.os.bytes (v.arena.metaPtr i)).sizeClass = noClass ∧
      Tlsf.contains v.tlsf (x + 16) = true := by
  have hmin := (ha.pool.inv.layout.blk _ (Tlsf.cells_mem hu)).1
  have hbounds := Tlsf.usedAt_bounds hu
  have hend := ha.pool.end_le
  have hstart := ha.pool.start_eq
  have hlo : v.arena.base + 20480 ≤ x + 16 := by omega
  have hhi : x + 16 < v.arena.base + 544768 := by omega
  obtain ⟨i, _, hi, ⟨h1, h2⟩, hin⟩ := exists_inPage ha.slabs.inv.arena hlo (by omega)
  refine ⟨i, hin, ha.class_none hi ?_, ha.pool.contains_iff.mpr ⟨hlo, hhi⟩⟩
  cases hc : v.g.cls i with
  | none => rfl
  | some c =>
    -- slab pages lie behind the pool
    have hlow : 133 ≤ i := ha.slabs.low i c hc
    have hpage := Arena.pageAddr_eq v.arena i
    omega

theorem ArenaSide.page_inPage (ha : ArenaSide h v)
    (hb : PageBlock v (v.arena.nextFreePage h.os.bytes) b) :
    ∃ i, InPage v.arena b.ptr i ∧
      (readMeta h.os.bytes (v.arena.metaPtr i)).sizeClass = noClass ∧
      Tlsf.contains v.tlsf b.ptr = false := by
  obtain ⟨i, k, hp, _, hk, hlo, hhi, hcls⟩ := hb
  have hpage := Arena.pageAddr_eq v.arena i
  have h133 : 133 ≤ i := hlo
  have hi : i < pagesPerArena := by
    have := ha.slabs.inv.next_le
    omega
  refine ⟨i, .of_mem ha.slabs.inv.arena ?_ hi ⟨by omega, by omega⟩, ha.class_none hi ?_, ?_⟩
  · show 5 ≤ i
    omega
  · exact hcls i (Nat.le_refl i) (by omega)
  · rw [← Bool.not_eq_true, ha.pool.contains_iff]
    omega

/-- A huge block is outside the arena, or it is empty and its pointer is the base of the arena. -/
theorem ArenaSide.map_outside (ha : ArenaSide h v) (hm : Mappings h.os.maps)
    (hb : MapBlock h.os v b) :
    v.arena.contains b.ptr = false ∨ (b.ptr = v.arena.base ∧ b.cap = 0) := by
  by_cases hin : v.arena.contains b.ptr = true
  · right
    rw [contains_iff ha.slabs.inv.arena] at hin
    have hge := hb.1.ge
    -- the mapping and the arena are disjoint, and the pointer is at most one page into the mapping
    have hdisj := ha.region_disjoint hm hb
    unfold Region.Disjoint Block.region at hdisj
    simp only at hdisj
    omega
  · left
    exact Bool.not_eq_true _ ▸ hin

theorem Arena.ptrToPageIndex_base (a : Arena) : a.ptrToPageIndex a.base = 0 := by
  unfold Arena.ptrToPageIndex
  apply if_pos
  left
  show a.base < a.base + 20480
  omega

/-! ## Classification -/

/-- **The tests find the backend of every block**, if its pointer is not the base of the arena. -/
theorem Placed.classify (ha : ArenaSide h v) (hm : Mappings h.os.maps) (hb : Placed h v b)
    (hne : b.ptr ≠ v.arena.base) : h.classify v.arena b.ptr = b.via := by
  unfold Placed at hb
  unfold Heap.classify
  cases hvia : b.via with
  | null =>
    rw [hvia] at hb
    exact hb.elim
  | slab c =>
    rw [hvia] at hb
    obtain ⟨i, j, hu, hp, _⟩ := hb
    have hin := ha.slab_inPage hu
    have hcls := (ha.slabs.inv.slabPage hu.1).sizeClass
    have hne' := ha.slabs.inv.sizeClass_ne hu.1
    rw [hp, if_pos hin.contains]
    simp only [hin.index, hin.pos, if_true]
    rw [if_pos hne', hcls]
  | tlsf =>
    rw [hvia] at hb
    obtain ⟨x, hp, hu⟩ := hb
    obtain ⟨i, hin, hcls, hcont⟩ := ha.pool_inPage hu
    rw [hp, if_pos hin.contains]
    simp only [hin.index, hin.pos, if_true, hcls, ne_eq, not_true_eq_false, if_false, ha.tlsf, hcont]
  | bump =>
    rw [hvia] at hb
    obtain ⟨i, hin, hcls, hcont⟩ := ha.page_inPage hb
    rw [if_pos hin.contains]
    simp only [hin.index, hin.pos, if_true, hcls, ne_eq, not_true_eq_false, if_false, ha.tlsf, hcont,
      Bool.false_eq_true]
  | huge =>
    rw [hvia] at hb
    rcases ha.map_outside hm hb with hout | ⟨heq, _⟩
    · rw [hout]
      rfl
    · exact absurd heq hne

/-- The base of the arena is seen as metadata. -/
theorem ArenaSide.classify_base (ha : ArenaSide h v) :
    h.classify v.arena v.arena.base = .null := by
  unfold Heap.classify
  rw [if_pos ((contains_iff ha.slabs.inv.arena).mpr ⟨Nat.le_refl _, by omega⟩)]
  simp only [Arena.ptrToPageIndex_base, gt_iff_lt, Nat.lt_irrefl, if_false]

end

end FerrumAlloc
