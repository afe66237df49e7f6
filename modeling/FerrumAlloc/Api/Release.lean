/-
# FerrumAlloc.Api.Release -- `ferrum_free` and `ferrum_realloc`, as acts

A free ends in one of six ways: in the slab of the thread's cache or in the global slab, on the stack of
the owner's cache, in the pool, nowhere (pages of the bump allocator are not taken back), or with an unmap.
`Freed` lists them; `freeFast_slab` and `freeSlow_spec` follow the two halves of `ferrum_free`. A thread that
has a cache never takes a slot to the global slab.
-/
import FerrumAlloc.Api.Classify

namespace FerrumAlloc

open Lib
open Tlsf (TlsfAllocator Blk UsedAt)

variable {h : Heap} {v : View} {l : List Block} {t p c : Nat} {D : Prop} {E : View → Nat → Prop} {b : Block}

/-! ## The fast path -/

/-- The fast path does nothing about blocks that are in no slab page. -/
theorem freeFast_none (ha : ArenaSide h v) (cache : Option Nat) {x : Nat}
    (hno : ∀ c, h.classify v.arena x ≠ .slab c) : freeFast h cache x = .ok none := by
  unfold freeFast
  cases cache with
  | none => rfl
  | some tc =>
    simp only [ha.arena, derefGlobal, Exec.bind_ok]
    rw [if_neg]
    · rfl
    · rintro ⟨hcont, hpos, hne⟩
      apply hno (readMeta h.os.bytes (v.arena.metaPtr (v.arena.ptrToPageIndex x))).sizeClass
      unfold Heap.classify
      rw [if_pos hcont]
      simp only [if_pos hpos, if_pos hne]

/-- **What a free does** behind `get_or_create`, with the heap and the view it leaves. -/
inductive Freed (h : Heap) (v : View) (b : Block) (cache : Option Nat) : Heap → View → Prop
  /-- A slot goes to the slab of the thread's cache, which owns the page, or to the global slab. -/
  | put {c i j : Nat} {s : SlabAllocator} {m : Mem} : b.via = .slab c →
      b.ptr = v.arena.slotAddr i c j → Puts h v cache c i j s m →
      (∀ p, cache = some p → v.g.owner i = (h.caches p).id) →
      Freed h v b cache (h.setSlab cache s m) (v.put cache c i j)
  /-- A slot goes to the stack of another cache. -/
  | push {p c i j : Nat} : b.via = .slab c → b.ptr = v.arena.slotAddr i c j → h.arenaInit = true →
      v.g.Used i c j → cache = some p → v.g.owner i ≠ (h.caches p).id →
      Freed h v b cache (h.push (h.registry (v.g.owner i)) b.ptr)
        (v.push (h.registry (v.g.owner i)) b.ptr)
  /-- The pool takes its block back. -/
  | release {tlsf : TlsfAllocator} {m : Mem} {bs : List Blk} {L : Nat → Nat → List Nat} :
      b.via = .tlsf → h.arenaInit = true →
      Tlsf.Released v.tlsf h.os.bytes v.bs v.L b.ptr tlsf m bs L →
      Freed h v b cache (h.setTlsf tlsf m) (v.setPool tlsf bs L)
  /-- Pages of the bump allocator stay issued. -/
  | bump : b.via = .bump → Freed h v b cache h v
  /-- A huge block is unmapped. -/
  | unmap : b.via = .huge → b.ptr ≠ v.arena.base →
      Freed h v b cache (h.setOs { h.os with maps := h.os.maps.erase b.region }) v
  /-- An empty block that ends at the arena is taken for metadata, and its mapping is leaked. -/
  | leak : b.via = .huge → b.ptr = v.arena.base → b.cap = 0 → Freed h v b cache h v

/-- The condition for a free of `b` through the global slab. -/
def View.Lone (v : View) (b : Block) (E : View → Nat → Prop) : Prop :=
  ∀ c, b.via = .slab c → ∀ i j, v.g.Used i c j → b.ptr = v.arena.slotAddr i c j → E v i

/-- A free is an act. -/
theorem Freed.act {cache : Option Nat} {h' : Heap} {v' : View} (hf : Freed h v b cache h' v')
    (hb : b ∈ l) (hcache : ∀ p, cache = some p → h.tls t = p) (hlone : cache = none → v.Lone b E) :
    Act t D E ⟨h, v, l⟩ ⟨h', v', l.erase b⟩ := by
  cases hf with
  | put hvia hptr hp hown =>
    exact .put hp hb hvia hptr (fun p hp => ⟨hcache p hp, hown p hp⟩)
      fun hnone => hlone hnone _ hvia _ _ hp.used hptr
  | push hvia hptr hinit hu _ _ => exact .push hinit hu hb hvia hptr
  | release hvia hinit hr => exact .release hinit hb hvia hr
  | bump hvia => exact .leak hb (.inl hvia)
  | unmap hvia _ => exact .unmap hb hvia
  | leak hvia _ hcap => exact .leak hb (.inr ⟨hvia, hcap⟩)

theorem Freed.init_eq {cache : Option Nat} {h' : Heap} {v' : View} (hf : Freed h v b cache h' v') :
    h'.arenaInit = h.arenaInit := by
  cases hf with
  | put => cases cache <;> rfl
  | push | release | bump | unmap | leak => rfl

/-- **A slot freed by a thread that has a cache** goes back to its slab, or to the owner's stack. -/
theorem freeFast_slab (hg : Good h v l) (hinit : h.arenaInit = true) (hb : b ∈ l)
    (hvia : b.via = .slab c) (hp : p ≠ 0) (htls : h.tls t = p) :
    ∃ h' v', freeFast h (some p) b.ptr = .ok (some h') ∧ Freed h v b (some p) h' v' := by
  have ha := hg.arena hinit
  obtain ⟨i, j, hu, hptr, _⟩ := (hg.placed b hb).slabBlock hvia
  have hmade : p ∈ v.made := by
    rw [← htls]
    exact hg.threads.tls t (by rw [htls]; exact hp)
  have hin := ha.slab_inPage hu
  have hsp := ha.slabs.inv.slabPage hu.1
  have hcls : (readMeta h.os.bytes (v.arena.metaPtr i)).sizeClass ≠ noClass :=
    ha.slabs.inv.sizeClass_ne hu.1
  obtain ⟨howner, hreg⟩ := hg.threads.pages i c hu.1
  unfold freeFast
  simp only [ha.arena, derefGlobal, Exec.bind_ok, hptr, hin.index]
  rw [if_pos ⟨hin.contains, hin.pos, hcls⟩, hsp.ownerId]
  by_cases hown : v.g.owner i = (h.caches p).id
  · rw [if_pos hown]
    obtain ⟨s, m, hrun, hinv, hbytes⟩ := ha.slabs.inv.freeNoArena_spec hu (some p)
    have hrun' : (h.caches p).slab.freeNoArena h.os.bytes (v.arena.slotAddr i c j)
        (v.arena.metaPtr i) = .ok (s, m) := hrun
    simp only [hrun', Exec.bind_ok, Exec.pure_eq]
    refine ⟨h.setSlab (some p) s m, v.put (some p) c i j, rfl, .put hvia hptr ?_ ?_⟩
    · exact ⟨hinit, fun q hq => Option.some.inj hq ▸ hmade, hu, hinv, hbytes⟩
    · intro q hq
      exact Option.some.inj hq ▸ hown
  · rw [if_neg hown, if_pos]
    · refine ⟨h.push (h.registry (v.g.owner i)) b.ptr, v.push (h.registry (v.g.owner i)) b.ptr, ?_,
        .push hvia hptr hinit hu rfl hown⟩
      unfold remoteFreePush
      rw [if_neg (Nat.not_le_of_lt howner)]
      simp only [if_neg hreg, Exec.pure_eq, hptr]
      rfl
    · unfold maxThreads at howner
      unfold noOwner
      omega

/-! ## The slow path -/

/-- A slot freed by a thread that has no cache goes to the global slab. -/
theorem freeInArena_slab (hg : Good h v l) (hinit : h.arenaInit = true) (hb : b ∈ l)
    (hvia : b.via = .slab c) :
    ∃ s m v', freeInArena h.locked v.arena b.ptr = .ok (h.locked.setSlab none s m) ∧
      Freed h v b none (h.setSlab none s m) v' := by
  have ha := hg.arena hinit
  obtain ⟨i, j, hu, hptr, _⟩ := (hg.placed b hb).slabBlock hvia
  have hin := ha.slab_inPage hu
  have hcls : (readMeta h.locked.os.bytes (v.arena.metaPtr i)).sizeClass ≠ noClass :=
    ha.slabs.inv.sizeClass_ne hu.1
  obtain ⟨s₀, hs₀⟩ := Option.isSome_iff_exists.mp ha.slab
  have hs₀' : h.locked.globalSlab = some s₀ := hs₀
  obtain ⟨s, m, hrun, hinv, hbytes⟩ := ha.slabs.inv.freeNoArena_spec hu none
  have hfree := ha.slabs.inv.free_spec hu none
  have hslab : h.slabs none = s₀ := by
    show h.globalSlab.getD .new = s₀
    rw [hs₀]
    rfl
  rw [hslab] at hrun hfree
  have hrun' : s₀.free h.locked.os.bytes (v.arena.slotAddr i c j) v.arena = .ok (s, m) := hfree.trans hrun
  refine ⟨s, m, v.put none c i j, ?_, .put hvia hptr ⟨hinit, nofun, hu, hinv, hbytes⟩ nofun⟩
  unfold freeInArena
  rw [hptr]
  simp only [hin.index]
  rw [if_pos hin.pos, if_pos hcls, hs₀']
  simp only [derefGlobal, Exec.bind_ok, hrun', Exec.pure_eq]
  rfl

/-- A block of the pool goes back to the pool. -/
theorem freeInArena_tlsf (hg : Good h v l) (hinit : h.arenaInit = true) (hb : b ∈ l)
    (hvia : b.via = .tlsf) (cache : Option Nat) :
    ∃ tlsf m v', freeInArena h.locked v.arena b.ptr = .ok (h.locked.setTlsf tlsf m) ∧
      Freed h v b cache (h.setTlsf tlsf m) v' := by
  have ha := hg.arena hinit
  obtain ⟨x, hptr, hu⟩ := (hg.placed b hb).poolBlock hvia
  obtain ⟨i, hin, hcls, hcont⟩ := ha.pool_inPage hu
  obtain ⟨tlsf, m, bs, L, hrun, hr⟩ := Tlsf.free_spec ha.pool.inv hu
  rw [← hptr] at hrun hr hin hcont
  have hrun' : Tlsf.free v.tlsf h.locked.os.bytes b.ptr = .ok (tlsf, m) := hrun
  have htlsf : h.locked.globalTlsf = some v.tlsf := ha.tlsf
  have hcls' : (readMeta h.locked.os.bytes (v.arena.metaPtr i)).sizeClass = noClass := hcls
  refine ⟨tlsf, m, v.setPool tlsf bs L, ?_, .release hvia hinit hr⟩
  unfold freeInArena
  simp only [hin.index]
  rw [if_pos hin.pos, if_neg (not_not.mpr hcls'), htlsf]
  simp only [hcont, if_true, hrun', Exec.bind_ok, Exec.pure_eq]
  rfl

/-- Pages of the bump allocator stay issued. -/
theorem freeInArena_bump (ha : ArenaSide h v) (hb : PageBlock v (v.arena.nextFreePage h.os.bytes) b) :
    freeInArena h.locked v.arena b.ptr = .ok h.locked := by
  obtain ⟨i, hin, hcls, hcont⟩ := ha.page_inPage hb
  have htlsf : h.locked.globalTlsf = some v.tlsf := ha.tlsf
  have hcls' : (readMeta h.locked.os.bytes (v.arena.metaPtr i)).sizeClass = noClass := hcls
  unfold freeInArena
  simp only [hin.index]
  rw [if_pos hin.pos, if_neg (not_not.mpr hcls'), htlsf]
  simp only [hcont, Bool.false_eq_true, if_false]

/-- **The slow path** takes every block, slots only from threads without a cache. -/
theorem freeSlow_spec (hg : Good h v l) (hinit : h.arenaInit = true) (hb : b ∈ l) (cache : Option Nat)
    (hnone : ∀ c, b.via = .slab c → cache = none) :
    ∃ h' v', freeSlow h b.ptr = .ok h' ∧ Freed h v b cache h' v' := by
  have ha := hg.arena hinit
  have harena : h.locked.globalArena = some v.arena := ha.arena
  have hplaced := hg.placed b hb
  unfold Placed at hplaced
  unfold freeSlow
  rw [Heap.spinLock_eq hg.lock]
  simp only [Exec.bind_ok, harena, derefGlobal]
  cases hvia : b.via with
  | null =>
    rw [hvia] at hplaced
    exact hplaced.elim
  | slab c =>
    rw [hvia] at hplaced
    obtain ⟨i, j, hu, hptr, _⟩ := hplaced
    have hcont : v.arena.contains b.ptr = true := by
      rw [hptr]
      exact (ha.slab_inPage hu).contains
    obtain rfl := hnone c hvia
    obtain ⟨s, m, v', hrun, hfreed⟩ := freeInArena_slab hg hinit hb hvia
    refine ⟨h.setSlab none s m, v', ?_, hfreed⟩
    simp only [hcont, if_true, hrun, Exec.bind_ok, Exec.pure_eq]
    exact congrArg Except.ok (Heap.unlock_setSlab hg.lock none s m)
  | tlsf =>
    rw [hvia] at hplaced
    obtain ⟨x, hptr, hu⟩ := hplaced
    obtain ⟨i, hin, _⟩ := ha.pool_inPage hu
    rw [← hptr] at hin
    obtain ⟨tlsf, m, v', hrun, hfreed⟩ := freeInArena_tlsf hg hinit hb hvia cache
    refine ⟨h.setTlsf tlsf m, v', ?_, hfreed⟩
    simp only [hin.contains, if_true, hrun, Exec.bind_ok, Exec.pure_eq]
    exact congrArg Except.ok (Heap.unlock_setTlsf hg.lock tlsf m)
  | bump =>
    rw [hvia] at hplaced
    obtain ⟨i, hin, _⟩ := ha.page_inPage hplaced
    refine ⟨h, v, ?_, .bump hvia⟩
    simp only [hin.contains, if_true, freeInArena_bump ha hplaced, Exec.bind_ok, Exec.pure_eq]
    exact congrArg Except.ok (Heap.unlock_locked hg.lock)
  | huge =>
    rw [hvia] at hplaced
    have hbase : b.ptr = v.arena.base → v.arena.contains b.ptr = true := by
      intro hbase
      rw [hbase]
      exact (contains_iff ha.slabs.inv.arena).mpr ⟨Nat.le_refl _, by omega⟩
    rcases ha.map_outside hg.maps hplaced with hout | ⟨hptr, hcap⟩
    · refine ⟨h.setOs { h.os with maps := h.os.maps.erase b.region }, v, ?_,
        .unmap hvia fun heq => Bool.false_ne_true (hout.symm.trans (hbase heq))⟩
      have hfree : hugeFree b.ptr h.locked.os = { h.os with maps := h.os.maps.erase b.region } :=
        hugeFree_spec hplaced.1
      simp only [hout, Bool.false_eq_true, if_false, hfree, Exec.bind_ok, Exec.pure_eq]
      rw [← harena]
      exact congrArg Except.ok (Heap.unlock_setOs hg.lock _)
    · -- an empty block that ends at the arena: taken for metadata, and its mapping is leaked
      have hrun : freeInArena h.locked v.arena b.ptr = .ok h.locked := by
        unfold freeInArena
        rw [hptr]
        simp only [Arena.ptrToPageIndex_base, gt_iff_lt, Nat.lt_irrefl, if_false]
      refine ⟨h, v, ?_, .leak hvia hptr hcap⟩
      simp only [hbase hptr, if_true, hrun, Exec.bind_ok, Exec.pure_eq]
      exact congrArg Except.ok (Heap.unlock_locked hg.lock)

/-! ## `ferrum_free` -/

/-- The body of `ferrum_free` behind `get_or_create`. -/
def freeBlock (h : Heap) (cache : Option Nat) (ptr : Nat) : Exec Heap := do
  match ← freeFast h cache ptr with
  | some h => return h
  | none => freeSlow h ptr

/-- **The ways of a freed block.** -/
theorem freeBlock_spec (hg : Good h v l) (hinit : h.arenaInit = true) (hb : b ∈ l)
    (cache : Option Nat) (hcache : ∀ p, cache = some p → p ≠ 0 ∧ h.tls t = p) :
    ∃ h' v', freeBlock h cache b.ptr = .ok h' ∧ Freed h v b cache h' v' := by
  have ha := hg.arena hinit
  unfold freeBlock
  by_cases hslab : ∃ c, b.via = .slab c
  · obtain ⟨c, hvia⟩ := hslab
    cases cache with
    | none =>
      obtain ⟨h', v', hrun, hfreed⟩ := freeSlow_spec hg hinit hb none fun _ _ => rfl
      exact ⟨h', v', hrun, hfreed⟩
    | some p =>
      obtain ⟨hp, htls⟩ := hcache p rfl
      obtain ⟨h', v', hrun, hfreed⟩ := freeFast_slab hg hinit hb hvia hp htls
      refine ⟨h', v', ?_, hfreed⟩
      simp only [hrun, Exec.bind_ok, Exec.pure_eq]
  · have hfast : freeFast h cache b.ptr = .ok none := by
      apply freeFast_none ha
      intro c hcls
      by_cases hbase : b.ptr = v.arena.base
      · rw [hbase, ha.classify_base] at hcls
        nomatch hcls
      · rw [(hg.placed b hb).classify ha hg.maps hbase] at hcls
        exact hslab ⟨c, hcls⟩
    obtain ⟨h', v', hrun, hfreed⟩ := freeSlow_spec hg hinit hb cache fun c hvia => absurd ⟨c, hvia⟩ hslab
    refine ⟨h', v', ?_, hfreed⟩
    simp only [hfast, Exec.bind_ok]
    exact hrun

/-- The same as acts. -/
theorem freeBlock_leads (hg : Good h v l) (hinit : h.arenaInit = true) (hb : b ∈ l)
    (cache : Option Nat) (hcache : ∀ p, cache = some p → p ≠ 0 ∧ h.tls t = p)
    (hlone : cache = none → v.Lone b E) :
    ∃ h' v', freeBlock h cache b.ptr = .ok h' ∧
      Leads t D E ⟨h, v, l⟩ ⟨h', v', l.erase b⟩ ∧ h'.arenaInit = true := by
  obtain ⟨h', v', hrun, hfreed⟩ := freeBlock_spec hg hinit hb cache hcache
  exact ⟨h', v', hrun, .act hg (hfreed.act hb (fun p hp => (hcache p hp).2) hlone),
    hfreed.init_eq.trans hinit⟩

/-- `ferrum_free` of a block, once the arena is there. -/
theorem ferrumFree_eq {x : Nat} {ans : Answers} {h₁ : Heap} {o : Option Nat} (hinit : h.arenaInit = true)
    (hx : x ≠ 0) (hget : getOrCreate h t ans.cache = (h₁, o)) :
    ferrumFree h t x ans = freeBlock h₁ o x := by
  have hens : ensureInit h ans.arena = .ok h := if_pos hinit
  unfold ferrumFree
  rw [if_neg hx]
  simp only [hens, Exec.bind_ok, hget]
  rfl

/-- A live block is not null. -/
theorem Good.ptr_ne (hg : Good h v l) (hb : b ∈ l) : b.ptr ≠ 0 := by
  have hplaced := hg.placed b hb
  have hinit := hg.init_of_via hb
  unfold Placed at hplaced
  cases hvia : b.via with
  | null =>
    rw [hvia] at hplaced
    exact hplaced.elim
  | slab c =>
    rw [hvia] at hplaced
    obtain ⟨i, j, _, hptr, _⟩ := hplaced
    rw [hptr]
    exact (hg.arena (hinit (by rw [hvia]; nofun))).slotAddr_ne i c j
  | tlsf =>
    rw [hvia] at hplaced
    obtain ⟨x, hptr, _⟩ := hplaced
    omega
  | bump =>
    rw [hvia] at hplaced
    obtain ⟨i, k, hptr, _⟩ := hplaced
    have hpos := (hg.arena (hinit (by rw [hvia]; nofun))).slabs.inv.arena.pos
    have hpage := Arena.pageAddr_eq v.arena i
    omega
  | huge =>
    rw [hvia] at hplaced
    have hge := hplaced.1.ge
    omega

/-- A freeing call faults for want of an arena, or takes the block away. -/
def Frees (t : Nat) (D : Prop) (E : View → Nat → Prop) (c : Conf) (b : Block) (ans : Answers) (run : Exec Heap) : Prop :=
  (run = .error .nullDeref ∧ Refused c.heap ans) ∨
    ∃ h' v', run = .ok h' ∧ (c.heap.arenaInit = true → h'.arenaInit = true) ∧
      Leads t D E c ⟨h', v', c.live.erase b⟩

/-- **`ferrum_free`** of a live block. -/
theorem ferrumFree_leads (hg : Good h v l) (hb : b ∈ l) (ans : Answers)
    (hdup : TakesId h t ans.cache → D)
    (hlone : Cacheless h t ans.cache → v.Lone b E) :
    Frees t D E ⟨h, v, l⟩ b ans (ferrumFree h t b.ptr ans) := by
  unfold ferrumFree
  rw [if_neg (hg.ptr_ne hb)]
  rcases ensureInit_leads (D := D) (E := E) hg t ans.arena with
    ⟨hinit, hno, hrun⟩ | ⟨h₁, v₁, hrun, hleads, hinit₁, hid, hsame⟩
  · left
    refine ⟨?_, hinit, hno⟩
    have hbt := hg.booting hinit
    have hnone : getOrCreate h t ans.cache = (h, none) := by
      unfold getOrCreate
      rw [if_pos (by rw [hbt.ready]; exact Bool.false_ne_true)]
    have harena : h.locked.globalArena = none := hbt.arena
    simp only [hrun, Exec.bind_ok, hnone, freeFast, freeSlow, Heap.spinLock_eq hg.lock, harena, derefGlobal,
      Exec.bind_error]
  · right
    have hg₁ : Good h₁ v₁ l := hleads.good hg
    obtain ⟨h₂, v₂, o, hget, hleads₂, hinit₂, hnone, hsome⟩ :=
      getOrCreate_leads (D := D) (E := E) hg₁ hinit₁ t ans.cache fun htakes =>
        hdup (hid _ htakes)
    have hg₂ : Good h₂ v₂ l := hleads₂.good hg₁
    have hlone' : o = none → v₂.Lone b E := by
      intro ho c hvia
      -- slots are live only once the arena is there, and then `ensure_init` changes nothing
      have hinit : h.arenaInit = true := hg.init_of_via hb (by rw [hvia]; rintro ⟨⟩)
      obtain ⟨rfl, rfl⟩ := hsame hinit
      obtain ⟨hless, rfl⟩ := hnone ho
      exact hlone hless c hvia
    obtain ⟨h', v', hfree, hleads₃, hinit'⟩ :=
      freeBlock_leads (t := t) (D := D) (E := E) hg₂ hinit₂ hb o hsome hlone'
    refine ⟨h', v', ?_, fun _ => hinit', ?_⟩
    · simp only [hrun, Exec.bind_ok, hget]
      exact hfree
    · exact (hleads.trans hleads₂ fun _ hb' _ => hb').trans hleads₃ fun _ hb' _ => hb'

/-! ## `ferrum_usable_size` -/

/-- What `ferrum_usable_size` says of a block: nothing about pages of the bump allocator, nor about a block
that it takes for metadata. -/
def Block.usable (b : Block) (a : Arena) : Nat := if b.via = .bump ∨ b.ptr = a.base then 0 else b.cap

/-- The size that goes with what the tests find. -/
theorem usableSizeLocked_eq (h : Heap) (a : Arena) (x : Nat) : usableSizeLocked h a x =
    match h.classify a x with
    | .null => .ok 0
    | .slab c => classToSize c
    | .tlsf => .ok (Tlsf.usableSize h.os.bytes x)
    | .bump => .ok 0
    | .huge => .ok (hugeUsableSize x h.os.bytes) := by
  unfold usableSizeLocked Heap.classify
  by_cases hcont : a.contains x = true
  · rw [if_pos hcont, if_pos hcont]
    by_cases hpos : a.ptrToPageIndex x > 0
    · simp only [if_pos hpos]
      by_cases hcls : (readMeta h.os.bytes (a.metaPtr (a.ptrToPageIndex x))).sizeClass ≠ noClass
      · rw [if_pos hcls, if_pos hcls]
      · rw [if_neg hcls, if_neg hcls]
        cases h.globalTlsf with
        | none => rfl
        | some tlsf => cases hin : Tlsf.contains tlsf x <;> simp [hin]
    · simp only [if_neg hpos]
  · rw [if_neg hcont, if_neg hcont]

/-- The size found by address. -/
theorem usableSizeLocked_spec (ha : ArenaSide h v) (hm : Mappings h.os.maps) (hb : Placed h v b)
    (hs : b.Sized) : usableSizeLocked h v.arena b.ptr = .ok (b.usable v.arena) := by
  rw [usableSizeLocked_eq]
  unfold Block.usable
  by_cases hbase : b.ptr = v.arena.base
  · rw [if_pos (.inr hbase), hbase, ha.classify_base]
  · rw [hb.classify ha hm hbase]
    unfold Placed at hb
    unfold Block.Sized at hs
    cases hvia : b.via with
    | null =>
      rw [hvia] at hb
      exact hb.elim
    | slab c =>
      rw [hvia] at hs
      simp only [reduceCtorEq, hbase, or_false, if_false, hs.2]
      exact classToSize_of_lt (sizeToClass_spec hs.1).1
    | tlsf =>
      rw [hvia] at hb
      obtain ⟨x, hptr, hu⟩ := hb
      simp only [reduceCtorEq, hbase, or_false, if_false, Except.ok.injEq]
      rw [hptr]
      unfold Tlsf.usableSize Tlsf.fromPayload
      rw [if_neg (Nat.succ_ne_zero _)]
      exact ha.pool.inv.size_eq hu
    | bump => simp only [true_or, if_true]
    | huge =>
      rw [hvia] at hb
      simp only [reduceCtorEq, hbase, or_false, if_false, Except.ok.injEq]
      exact (hugeUsableSize_spec hb.1).trans (Nat.add_sub_cancel ..)

/-- **`ferrum_usable_size`** of a live block. -/
theorem ferrumUsableSize_leads (hg : Good h v l) (hb : b ∈ l) (t : Nat) (ans : Answers) :
    (ferrumUsableSize h b.ptr ans = .error .nullDeref ∧ Refused h ans) ∨
    ∃ h' v', ferrumUsableSize h b.ptr ans = .ok (h', b.usable v'.arena) ∧ h'.arenaInit = true ∧
      Leads t D E ⟨h, v, l⟩ ⟨h', v', l⟩ := by
  unfold ferrumUsableSize
  rw [if_neg (hg.ptr_ne hb)]
  rcases ensureInit_leads (D := D) (E := E) hg t ans.arena with
    ⟨hinit, hno, hrun⟩ | ⟨h₁, v₁, hrun, hleads, hinit₁, _, _⟩
  · left
    have harena : h.locked.globalArena = none := (hg.booting hinit).arena
    refine ⟨?_, hinit, hno⟩
    simp only [hrun, Exec.bind_ok, Heap.spinLock_eq hg.lock, harena, derefGlobal, Exec.bind_error]
  · right
    have hg₁ : Good h₁ v₁ l := hleads.good hg
    have harena : h₁.locked.globalArena = some v₁.arena := (hg₁.arena hinit₁).arena
    have hsize : usableSizeLocked h₁.locked v₁.arena b.ptr = .ok (b.usable v₁.arena) :=
      usableSizeLocked_spec (h := h₁) (hg₁.arena hinit₁) hg₁.maps (hg₁.placed b hb) (hg₁.sized b hb)
    refine ⟨h₁, v₁, ?_, hinit₁, hleads⟩
    simp only [hrun, Exec.bind_ok, Heap.spinLock_eq hg₁.lock, harena, derefGlobal, hsize, Exec.pure_eq,
      Heap.unlock_locked hg₁.lock]

/-! ## `ferrum_realloc` -/

/-- The result of moving a live block to `n` bytes: it is freed, it stays, or a new block replaces it. -/
def Moved (t : Nat) (D : Prop) (E : View → Nat → Prop) (c : Conf) (b : Block) (n : Nat) (r : Heap × Nat × Backend) :
    Prop :=
  ∃ v', (r.2.1 = 0 ∧ n = 0 ∧ Leads t D E c ⟨r.1, v', c.live.erase b⟩) ∨
    (r.2.1 = 0 ∧ n ≠ 0 ∧ Leads t D E c ⟨r.1, v', c.live⟩) ∨
    (r.2.1 ≠ 0 ∧ n ≠ 0 ∧ ∃ cap, Leads t D E c ⟨r.1, v', ⟨r.2.1, n, r.2.2, cap⟩ :: c.live.erase b⟩)

/-- Copying to a new block and freeing the old one. -/
theorem moveBlock_leads {c : Conf} {nb : Block} {n : Nat} (hleads : Leads t True Anywhere c ⟨h, v, nb :: l⟩)
    (hlive : c.live = l) (hgc : Good c.heap c.view c.live) (hinit : h.arenaInit = true) (hb : b ∈ l)
    (hn : n ≤ nb.cap) (ans : Answers) :
    ∃ h' v', moveBlock h t b.ptr nb.ptr n ans = .ok h' ∧ h'.arenaInit = true ∧
      Leads t True Anywhere c ⟨h', v', nb :: l.erase b⟩ := by
  have hg : Good h v (nb :: l) := hleads.good hgc
  have hnew : nb ∉ l := fun hmem => ((List.pairwise_cons.mp hg.apart).1 nb hmem).1 rfl
  have hcopy : Set.EqOn (copyRange h.os.bytes b.ptr nb.ptr n) h.os.bytes nb.extentᶜ := by
    refine eqOn_compl_mono (copyRange_eqOn _ _ _ _) fun z hz => ?_
    rw [Block.mem_extent]
    exact ⟨hz.1, Nat.lt_of_lt_of_le hz.2 (Nat.add_le_add_left hn _)⟩
  have hstore := hleads.store hg List.mem_cons_self (by rw [hlive]; exact hnew) hcopy
  have hg' : Good (h.setBytes (copyRange h.os.bytes b.ptr nb.ptr n)) v (nb :: l) := hstore.good hgc
  unfold moveBlock
  rcases ferrumFree_leads (t := t) (D := True) (E := Anywhere) hg' (.tail _ hb) ans (fun _ => trivial)
    fun _ _ _ _ _ _ _ => trivial with ⟨_, hno, _⟩ | ⟨h', v', hrun, hinit', hfree⟩
  · exact absurd (hinit.symm.trans hno) nofun
  · refine ⟨h', v', hrun, hinit' hinit, ?_⟩
    have herase : (nb :: l).erase b = nb :: l.erase b := by
      rw [List.erase_cons, if_neg]
      intro heq
      exact hnew (by rw [beq_iff_eq.mp heq]; exact hb)
    simp only [herase] at hfree
    refine hstore.trans hfree fun b' hb' _ => ?_
    rw [hlive] at hb'
    exact .tail _ hb'

/-- **`ferrum_realloc`** of a live block. -/
theorem ferrumRealloc_leads (hg : Good h v l) (hb : b ∈ l) {n : Nat} (hn : n ≤ 2 ^ 64 - 8192)
    (ans₁ ans₂ ans₃ : Answers) :
    (ferrumRealloc h t b.ptr n ans₁ ans₂ ans₃ = .error .nullDeref ∧ h.arenaInit = false) ∨
    ∃ r, ferrumRealloc h t b.ptr n ans₁ ans₂ ans₃ = .ok r ∧
      (h.arenaInit = true → r.1.arenaInit = true) ∧ Moved t True Anywhere ⟨h, v, l⟩ b n r := by
  unfold ferrumRealloc
  rw [if_neg (hg.ptr_ne hb)]
  by_cases h0 : n = 0
  · rw [if_pos h0]
    rcases ferrumFree_leads (t := t) (D := True) (E := Anywhere) hg hb ans₃ (fun _ => trivial)
      fun _ _ _ _ _ _ _ => trivial with ⟨hrun, hno, _⟩ | ⟨h', v', hrun, hinit', hfree⟩
    · left
      refine ⟨?_, hno⟩
      simp only [hrun, Exec.bind_error]
    · right
      refine ⟨(h', 0, .null), ?_, hinit', v', .inl ⟨rfl, h0, hfree⟩⟩
      simp only [hrun, Exec.bind_ok, Exec.pure_eq]
  · rw [if_neg h0]
    rcases ferrumUsableSize_leads (D := True) (E := Anywhere) hg hb t ans₁ with
      ⟨hrun, hno, _⟩ | ⟨h₁, v₁, hrun, hinit₁, hleads⟩
    · left
      refine ⟨?_, hno⟩
      simp only [hrun, Exec.bind_error]
    · right
      have hg₁ : Good h₁ v₁ l := hleads.good hg
      simp only [hrun, Exec.bind_ok]
      rcases ferrumMalloc_leads (t := t) (D := True) (E := Anywhere) hg₁ n ans₂ (fun _ _ _ => trivial) with
        ⟨_, hno, _⟩ | ⟨⟨h₂, p, via⟩, hmalloc, hinit₂, v₂, hout⟩
      · exact absurd (hinit₁.symm.trans hno) nofun
      simp only [hmalloc, Exec.bind_ok]
      have hkeep : h₂.arenaInit = true := hinit₂ hinit₁
      rcases hout with ⟨hp, hleads₂⟩ | ⟨hp, cap, hleads₂⟩
      · -- no memory: the old block stays
        have hp' : p = 0 := hp
        simp only [hp', ne_eq, not_true_eq_false, if_false, Exec.pure_eq]
        exact ⟨_, rfl, fun _ => hkeep, v₂, .inr (.inl ⟨rfl, h0,
          hleads.trans hleads₂ fun _ hb' _ => hb'⟩)⟩
      · have hp' : p ≠ 0 := hp
        have hleads' : Leads t True Anywhere ⟨h, v, l⟩ ⟨h₂, v₂, ⟨p, n, via, cap⟩ :: l⟩ :=
          hleads.trans hleads₂ fun _ hb' _ => hb'
        have hg₂ : Good h₂ v₂ (⟨p, n, via, cap⟩ :: l) := hleads'.good hg
        have hfits : n ≤ cap := (hg₂.sized _ List.mem_cons_self).req_le fun _ => hn
        obtain ⟨k, hk⟩ : ∃ k, k = if b.usable v₁.arena > 0 then min (b.usable v₁.arena) n else n :=
          ⟨_, rfl⟩
        have hkn : k ≤ n := by
          rw [hk]
          split
          · exact Nat.min_le_right _ _
          · exact Nat.le_refl _
        obtain ⟨h₃, v₃, hmove, hinit₃, hleads₃⟩ := moveBlock_leads hleads' rfl hg hkeep hb
          (Nat.le_trans hkn hfits) ans₃
        simp only [if_pos hp', ← hk]
        refine ⟨(h₃, p, via), ?_, fun _ => hinit₃, v₃, .inr (.inr ⟨hp, h0, cap, hleads₃⟩)⟩
        have hmove' : moveBlock h₂ t b.ptr p k ans₃ = .ok h₃ := hmove
        simp only [hmove', Exec.bind_ok, Exec.pure_eq]

end FerrumAlloc
