/-
# FerrumAlloc.Api.Backends -- the free side knows the allocating side

`ferrum_free` and `ferrum_usable_size` find out from the address which backend has served a block. In
every state that the process reaches they are right about every live block, except about one at the base of
the arena. Only an empty huge block can be there: `posix_memalign` passes a size of 0 on to `huge_alloc`,
and the pointer it stores is the end of the new mapping.

The usable size reported for a block covers the request, and no other block, for all backends but the bump
allocator, whose blocks are reported as empty.
-/
import FerrumAlloc.Api.First
import Mathlib.Order.CompletePartialOrder

namespace FerrumAlloc

open Lib

/-- The pointer is in the data region of the arena. -/
def InData (a : Arena) (x : Nat) : Prop := a.contains x = true ∧ 0 < a.ptrToPageIndex x

/-- The size class of the page of an address. -/
def pageClass (h : Heap) (a : Arena) (x : Nat) : Nat :=
  (readMeta h.os.bytes (a.metaPtr (a.ptrToPageIndex x))).sizeClass

/-- `GLOBAL_TLSF` contains the address. -/
def InPool (h : Heap) (x : Nat) : Prop := ∃ tlsf, h.globalTlsf = some tlsf ∧ Tlsf.contains tlsf x = true

/-- **The tests on a pointer agree with the backend that has served its block.** -/
structure Classified (h : Heap) (a : Arena) (b : Block) : Prop where
  slab : ∀ c, (InData a b.ptr ∧ pageClass h a b.ptr = c ∧ c ≠ noClass) ↔ b.via = .slab c
  slab_req : ∀ c, b.via = .slab c → sizeToClass b.req = some c
  tlsf : (InData a b.ptr ∧ pageClass h a b.ptr = noClass ∧ InPool h b.ptr) ↔ b.via = .tlsf
  bump : (InData a b.ptr ∧ pageClass h a b.ptr = noClass ∧ ¬ InPool h b.ptr) ↔ b.via = .bump
  huge : a.contains b.ptr = false ↔ b.via = .huge

section

variable {h : Heap} {v : View} {l : List Block} {b : Block} {a : Arena} {x t n : Nat} {s : State}

/-! ## The tests and `Heap.classify` -/

/-- Each outcome of the sequence of tests, test by test. -/
theorem classify_iff (h : Heap) (a : Arena) (x : Nat) :
    (∀ c, h.classify a x = .slab c ↔ InData a x ∧ pageClass h a x = c ∧ c ≠ noClass) ∧
    (h.classify a x = .tlsf ↔ InData a x ∧ pageClass h a x = noClass ∧ InPool h x) ∧
    (h.classify a x = .bump ↔ InData a x ∧ pageClass h a x = noClass ∧ ¬ InPool h x) ∧
    (h.classify a x = .huge ↔ a.contains x = false) := by
  unfold Heap.classify InData pageClass InPool
  by_cases hcont : a.contains x = true
  · by_cases hpos : 0 < a.ptrToPageIndex x
    · by_cases hcls : (readMeta h.os.bytes (a.metaPtr (a.ptrToPageIndex x))).sizeClass = noClass
      · cases htlsf : h.globalTlsf with
        | none => simp [hcont, hpos, hcls]
        | some tlsf => cases hin : Tlsf.contains tlsf x <;> simp [hcont, hpos, hcls, hin]
      · simp [hcont, hpos, hcls]
    · simp [hcont, hpos]
  · simp [hcont]

/-- **A live block is classified right exactly when its pointer is not the base of the arena.** -/
theorem Good.classified_iff (hg : Good h v l) (hinit : h.arenaInit = true) (hb : b ∈ l) :
    Classified h v.arena b ↔ b.ptr ≠ v.arena.base := by
  have ha := hg.arena hinit
  have hplaced := hg.placed b hb
  constructor
  · intro hc hbase
    -- only huge blocks can be there, and the arena contains its base
    have hvia : b.via = .huge := by
      by_contra hvia
      have hpos := hplaced.cap_pos ha hvia
      have hin := hplaced.inside ha hg.maps hvia (z := b.ptr) ⟨Nat.le_refl _, by omega⟩
      omega
    have hout := hc.huge.mpr hvia
    rw [hbase, ← Bool.not_eq_true, contains_iff ha.slabs.inv.arena] at hout
    exact hout ⟨Nat.le_refl _, by omega⟩
  · intro hne
    have hcls := hplaced.classify ha hg.maps hne
    obtain ⟨hslab, htlsf, hbump, hhuge⟩ := classify_iff h v.arena b.ptr
    rw [hcls] at hslab htlsf hbump hhuge
    refine ⟨fun c => (hslab c).symm, fun c hvia => ?_, htlsf.symm, hbump.symm, hhuge.symm⟩
    have hsized := hg.sized b hb
    unfold Block.Sized at hsized
    rw [hvia] at hsized
    exact hsized.1

/-- The arena of an initialised heap is that of its view. -/
theorem Good.arena_eq (hg : Good h v l) (harena : h.globalArena = some a) :
    h.arenaInit = true ∧ v.arena = a := by
  cases hinit : h.arenaInit with
  | true => exact ⟨rfl, Option.some.inj ((hg.arena hinit).arena.symm.trans harena)⟩
  | false => exact absurd ((hg.booting hinit).arena.symm.trans harena) (Option.some_ne_none a).symm

/-- A block that has bytes is not at the base of the arena. -/
theorem Good.ptr_ne_base (hg : Good h v l) (hinit : h.arenaInit = true) (hb : b ∈ l)
    (hpos : 0 < b.cap) : b.ptr ≠ v.arena.base := by
  intro hbase
  have ha := hg.arena hinit
  have hplaced := hg.placed b hb
  by_cases hvia : b.via = .huge
  · rcases ha.map_outside hg.maps (hplaced.mapBlock hvia) with hout | ⟨_, hcap⟩
    · rw [hbase, ← Bool.not_eq_true, contains_iff ha.slabs.inv.arena] at hout
      exact hout ⟨Nat.le_refl _, by omega⟩
    · omega
  · have hin := hplaced.inside ha hg.maps hvia (z := b.ptr) ⟨Nat.le_refl _, by omega⟩
    omega

/-! ## Empty blocks -/

theorem ferrumMalloc_zero (h : Heap) (t : Nat) (ans : Answers) :
    ferrumMalloc h t 0 ans = .ok (h, 0, .null) := if_pos rfl

namespace Call

/-- An aligned request that goes straight to `huge_alloc` is not empty. -/
def Filled : Call → Prop
  | posixMemalign alignment n => alignment.isPowerOfTwo → 16 < alignment → alignment ≤ 4096 → 0 < n
  | _ => True

/-- **Blocks are not empty**, but for aligned requests: `ferrum_malloc` refuses a size of 0. -/
theorem req_pos {c : Call} {ans : Nat → Answers} {r : Heap × Nat × Backend} (hf : c.Filled)
    (hrun : c.run h t ans = .ok r) (hp : r.2.1 ≠ 0) : 0 < c.req := by
  have hnull : ∀ {h' : Heap} {via : Backend}, (.ok (h', 0, via) : Exec (Heap × Nat × Backend)) ≠ .ok r := by
    intro h' via heq
    exact hp (congrArg (fun r => r.2.1) (Except.ok.inj heq)).symm
  apply Nat.pos_of_ne_zero
  intro h0
  cases c with
  | malloc k =>
    obtain rfl : k = 0 := h0
    exact hnull hrun
  | calloc nmemb size =>
    have hmul : checkedMul nmemb size = some 0 := by
      unfold checkedMul
      rw [show nmemb * size = 0 from h0]
      rfl
    unfold run FerrumAlloc.calloc at hrun
    simp only [hmul, Option.getD_some, if_true] at hrun
    exact hnull hrun
  | ferrumCalloc count size =>
    have hmul : checkedMul count size = some 0 := by
      unfold checkedMul
      rw [show count * size = 0 from h0]
      rfl
    unfold run FerrumAlloc.ferrumCalloc at hrun
    simp only [hmul, ferrumMalloc_zero] at hrun
    exact hnull hrun
  | posixMemalign alignment k =>
    obtain rfl : k = 0 := h0
    have hrun' : memalignBlock h t alignment 0 (ans 0) = .ok r :=
      (posixMemalign_run h t alignment 0 (ans 0)).symm.trans hrun
    unfold memalignBlock at hrun'
    by_cases hbad : alignment % 8 ≠ 0 ∨ ¬ alignment.isPowerOfTwo
    · rw [if_pos hbad] at hrun'
      exact hnull hrun'
    rw [if_neg hbad] at hrun'
    by_cases hlow : alignment ≤ 16
    · rw [if_pos hlow, ferrumMalloc_zero] at hrun'
      exact hnull hrun'
    rw [if_neg hlow] at hrun'
    by_cases hhigh : alignment ≤ 4096
    · -- the one way to `huge_alloc`
      have hpow : alignment.isPowerOfTwo := by
        by_contra hno
        exact hbad (.inr hno)
      exact Nat.lt_irrefl 0 (hf hpow (Nat.lt_of_not_le hlow) hhigh)
    · rw [if_neg hhigh] at hrun'
      exact hnull hrun'
  | realloc b k =>
    obtain rfl : k = 0 := h0
    have hrun' : ferrumRealloc h t (ptrOf b) 0 (ans 0) (ans 1) (ans 2) = .ok r := hrun
    unfold ferrumRealloc at hrun'
    by_cases hb : ptrOf b = 0
    · rw [if_pos hb] at hrun'
      exact hnull hrun'
    · rw [if_neg hb, if_pos rfl] at hrun'
      obtain ⟨h', _, hret⟩ := Exec.bind_eq_ok.mp hrun'
      exact hnull hret
  | free b =>
    obtain ⟨h', _, hret⟩ := Exec.bind_eq_ok.mp
      (show (do let h ← ferrumFree h t (ptrOf b) (ans 0); return (h, 0, Backend.null)) = .ok r from hrun)
    exact hnull hret
  | usableSize b =>
    obtain ⟨res, _, hret⟩ := Exec.bind_eq_ok.mp
      (show (do let r ← ferrumUsableSize h (ptrOf b) (ans 0); return (r.1, 0, Backend.null)) = .ok r
        from hrun)
    exact hnull hret

end Call

/-! ## Runs -/

/-- Requests of modest size, and no empty aligned ones. -/
def filled : State → Event → Prop :=
  onCalls fun _ _ c _ => c.req ≤ usizeMax - 2 * pageSize ∧ c.Filled

theorem filled_modest {s : State} {e : Event} (he : filled s e) : modest s e := by
  cases e with
  | call t c ans => exact he.1
  | write b m => trivial

/-- Without empty aligned requests, every live block has been asked for. -/
theorem reachable_req_pos (hr : (system.restrict filled).Reachable s) : ∀ b ∈ s.live, 0 < b.req := by
  refine hr.invariant (I := fun s => ∀ b ∈ s.live, 0 < b.req) ?_ ?_
  · rintro s ⟨bytes, rfl⟩ b hb
    nomatch hb
  · rintro s e s' _ hpos ⟨hs, hf⟩ b hb
    cases hs with
    | call harg hrun =>
      rcases Call.mem_after hb with hold | ⟨hp, rfl⟩
      · exact hpos b hold
      · exact Call.req_pos hf.2 hrun hp
    | write _ _ => exact hpos b hb

/-- **The free side knows the allocating side.** In every state reached without empty aligned requests the
tests are right about every live block. In every state reached at all they are right about a live block
exactly when its pointer is not the base of the arena. -/
theorem reachable_classified {a : Arena} (harena : s.heap.globalArena = some a) :
    ((system.restrict filled).Reachable s → ∀ b ∈ s.live, Classified s.heap a b) ∧
    ((system.restrict modest).Reachable s → ∀ b ∈ s.live, (Classified s.heap a b ↔ b.ptr ≠ a.base)) := by
  constructor
  · intro hr b hb
    have hr' := reachable_noWrap (hr.mono fun _ _ => filled_modest)
    obtain ⟨v, hg⟩ := reachable_good hr'
    obtain ⟨hinit, rfl⟩ := hg.arena_eq harena
    have hfits := reachable_fits hr' b hb
    have hpos := reachable_req_pos hr b hb
    exact (hg.classified_iff hinit hb).mpr (hg.ptr_ne_base hinit hb (Nat.lt_of_lt_of_le hpos hfits))
  · intro hr b hb
    obtain ⟨v, hg⟩ := reachable_good (reachable_noWrap hr)
    obtain ⟨hinit, rfl⟩ := hg.arena_eq harena
    exact hg.classified_iff hinit hb

/-- A slot for 100 bytes is known by its page. -/
theorem reachable_classified_first : ∃ (s : State) (a : Arena) (b : Block), s.heap.globalArena = some a ∧ b ∈ s.live ∧
    b.via = .slab 8 ∧ Classified s.heap a b ∧ b.ptr ≠ a.base := by
  have hfilled : ∀ s t n ans, n ≤ hugeAllocThreshold → filled s (.call t (.malloc n) ans) :=
    fun s t n ans hn => ⟨modest_of_le s t n ans hn, trivial⟩
  obtain ⟨a, tlsf, m, m', slab, m'', hbase, hs, hr, hg⟩ := exists_first (C := filled) (n := 100) (c := 8)
    (p := 4096) (A := 2097152) (fun s t n ans hn _ => hfilled s t n ans hn) (fun _ => 0) 1 (by decide) (by decide)
    (by decide) (by decide)
  have hc := (reachable_classified (a := a) rfl).1 hr _ List.mem_cons_self
  exact ⟨_, a, _, rfl, List.mem_cons_self, rfl, hc, ((reachable_classified (a := a) rfl).2
    (hr.mono fun _ _ => filled_modest) _ List.mem_cons_self).mp hc⟩

/-- **An empty aligned block at the base of the arena** is taken for metadata. The huge mapping of
`posix_memalign(_, 32, 0)` is one page, its pointer is the end of that page, and the arena is mapped there. -/
theorem not_classified_empty : ∃ s a b, (system.restrict modest).Reachable s ∧
    s.heap.globalArena = some a ∧ b ∈ s.live ∧ ¬ Classified s.heap a b := by
  have hgood := Good.boot fun _ => 0
  have hpow : Nat.isPowerOfTwo 32 := ⟨5, rfl⟩
  have htotal : hugeTotal 0 = 4096 := by decide
  obtain ⟨h₀, hh₀⟩ : ∃ h, h = Heap.boot fun _ => 0 := ⟨_, rfl⟩
  rw [← hh₀] at hgood
  have hmaps : h₀.os.maps = [] := by rw [hh₀]; rfl
  have hr₀ : (system.restrict modest).Reachable ⟨h₀, []⟩ := .init ⟨fun _ => 0, by rw [hh₀]⟩
  -- the empty block, at the end of the page at 4096
  have hrun : (Call.posixMemalign 32 0).run h₀ 1 (fun _ => ⟨none, none, some 4096⟩) =
      .ok (heapHugeAlloc h₀ 0 (some 4096)) := by
    refine (posixMemalign_run h₀ 1 32 0 ⟨none, none, some 4096⟩).trans ?_
    unfold memalignBlock
    rw [if_neg (by simp [hpow]), if_neg (by decide), if_pos (by decide)]
  rcases heapHugeAlloc_spec h₀ 0 (some 4096) with ⟨_, hno⟩ | ⟨base, os, hans, hm, hhuge⟩
  · exact absurd (by rw [hmaps, htotal]; decide) (hno 4096 rfl)
  obtain rfl : 4096 = base := Option.some.inj hans
  rw [hhuge] at hrun
  have hmaps₁ : os.maps = [⟨4096, 4096⟩] := by rw [hm.maps, hmaps, htotal]
  obtain ⟨b, hb⟩ : ∃ b, b = newBlock (h₀.setOs os, 4096 + 4096, .huge) 0 := ⟨_, rfl⟩
  have hr₁ : (system.restrict modest).Reachable ⟨h₀.setOs os, [b]⟩ := by
    have hstep := Step.fresh (s := ⟨h₀, []⟩) rfl hrun
    rw [hb]
    exact hr₀.step ⟨hstep, Nat.zero_le _⟩
  -- the arena, behind that page
  obtain ⟨a, tlsf, m, hbase, _, hmalloc⟩ := ferrumMalloc_setup (h := h₀.setOs os) (n := 262144) (A := 8192)
    (by rw [hh₀]; rfl) (by rw [hh₀]; rfl) (by
      show Grantable os.maps 2097152 8192
      rw [hmaps₁]
      decide) 1 (Nat.le_refl _)
  have hcall : (Call.malloc 262144).run (h₀.setOs os) 1 (fun _ => ⟨some 8192, none, none⟩) =
    .ok ((h₀.setOs os).setup a tlsf m, 0, .huge) := hmalloc
  have hr₂ : (system.restrict modest).Reachable ⟨(h₀.setOs os).setup a tlsf m, [b]⟩ :=
    hr₁.step ⟨Step.fresh (s := ⟨h₀.setOs os, [b]⟩) rfl hcall, modest_of_le _ _ _ _ (Nat.le_refl _)⟩
  obtain ⟨v, hg⟩ := reachable_good (reachable_noWrap hr₂)
  obtain ⟨hinit, rfl⟩ := hg.arena_eq (a := a) rfl
  refine ⟨_, v.arena, b, hr₂, rfl, List.mem_cons_self, fun hc => ?_⟩
  apply (hg.classified_iff hinit List.mem_cons_self).mp hc
  rw [hbase, hb]
  rfl

/-! ## The usable size -/

/-- Once the arena is there, `ferrum_usable_size` changes nothing. -/
theorem Good.usableSize_run (hg : Good h v l) (hinit : h.arenaInit = true) (hb : b ∈ l) (ans : Answers) :
    ferrumUsableSize h b.ptr ans = .ok (h, b.usable v.arena) := by
  have ha := hg.arena hinit
  have harena : h.locked.globalArena = some v.arena := ha.arena
  have hsize : usableSizeLocked h.locked v.arena b.ptr = .ok (b.usable v.arena) :=
    usableSizeLocked_spec (h := h) ha hg.maps (hg.placed b hb) (hg.sized b hb)
  have hens : ensureInit h ans.arena = .ok h := if_pos hinit
  unfold ferrumUsableSize
  rw [if_neg (hg.ptr_ne hb)]
  simp only [hens, Exec.bind_ok, Heap.spinLock_eq hg.lock, harena, derefGlobal, hsize, Exec.pure_eq,
    Heap.unlock_locked hg.lock]

/-- The first `u` bytes of a block hold its request, are its own, and reach into no other block. -/
structure UsableOk (s : State) (b : Block) (u : Nat) : Prop where
  enough : b.req ≤ u
  inside : Set.Ico b.ptr (b.ptr + u) ⊆ b.extent
  others : ∀ b' ∈ s.live, b' ≠ b → Disjoint (Set.Ico b.ptr (b.ptr + u)) b'.extent

/-- **The usable size of a live block** is right exactly when the bump allocator has not served it. -/
theorem reachable_usable (hr : (system.restrict inBounds).Reachable s) (hinit : s.heap.arenaInit = true)
    (hb : b ∈ s.live) (hreq : 1 ≤ b.req) (hreq' : b.req ≤ usizeMax - 2 * pageSize) (ans : Answers) :
    ∃ u, ferrumUsableSize s.heap b.ptr ans = .ok (s.heap, u) ∧ (UsableOk s b u ↔ b.via ≠ .bump) := by
  obtain ⟨v, hg⟩ := reachable_inBounds_good hr
  have hfits := (hg.sized b hb).req_le fun _ => Nat.le_trans hreq' (by decide)
  have hne := hg.ptr_ne_base hinit hb (Nat.lt_of_lt_of_le hreq hfits)
  refine ⟨b.usable v.arena, hg.usableSize_run hinit hb ans, fun hok hvia => ?_, fun hvia => ?_⟩
  · -- pages of the bump allocator are reported as empty
    have henough := hok.enough
    unfold Block.usable at henough
    rw [if_pos (.inl hvia)] at henough
    omega
  · have husable : b.usable v.arena = b.cap := if_neg (by
      rintro (hbump | hbase)
      · exact hvia hbump
      · exact hne hbase)
    rw [husable]
    refine ⟨hfits, Set.Subset.refl _, fun b' hb' hne' => ?_⟩
    rw [Set.disjoint_left]
    exact (hg.apart_of_ne hb hb' (Ne.symm hne')).2

/-- The slot for 100 bytes. -/
theorem reachable_usable_first : ∃ (s : State) (b : Block) (u : Nat), b ∈ s.live ∧ b.req = 100 ∧
    ferrumUsableSize s.heap b.ptr ⟨none, none, none⟩ = .ok (s.heap, u) ∧ UsableOk s b u := by
  obtain ⟨a, tlsf, m, m', slab, m'', hbase, hs, hr, hg⟩ := exists_first (C := inBounds) (n := 100) (c := 8)
    (p := 4096) (A := 2097152) (fun _ _ _ _ _ _ => trivial) (fun _ => 0) 1 (by decide) (by decide) (by decide)
    (by decide)
  obtain ⟨u, hrun, hok⟩ := reachable_usable hr rfl List.mem_cons_self (show 1 ≤ 100 by decide)
    (show 100 ≤ usizeMax - 2 * pageSize by decide) ⟨none, none, none⟩
  exact ⟨_, _, u, List.mem_cons_self, rfl, hrun, hok.mpr nofun⟩

/-- **Pages of the bump allocator are reported as empty**: two requests for 262143 bytes, of which one finds
no room in the pool. -/
theorem not_usable_bump : ∃ (s : State) (b : Block), (system.restrict inBounds).Reachable s ∧
    s.heap.arenaInit = true ∧ b ∈ s.live ∧ b.req = 262143 ∧
    ferrumUsableSize s.heap b.ptr ⟨none, none, none⟩ = .ok (s.heap, 0) ∧ ¬ UsableOk s b 0 := by
  obtain ⟨s, b, hr, hinit, _, hb, hvia, hreq⟩ := exists_bump (C := inBounds) (A := 2097152)
    (fun _ _ _ _ _ => trivial) (fun _ => 0) 1 (by decide)
  obtain ⟨v, hg⟩ := reachable_inBounds_good hr
  have hrun := hg.usableSize_run hinit hb ⟨none, none, none⟩
  have h0 : b.usable v.arena = 0 := if_pos (.inl hvia)
  rw [h0] at hrun
  refine ⟨s, b, hr, hinit, hb, hreq, hrun, fun hok => ?_⟩
  have henough := hok.enough
  omega

end

end FerrumAlloc
