/-
# FerrumAlloc.Rounding -- where the backends' rounding wraps

`TlsfAllocator::alloc` rounds a request up to sixteen bytes and `Arena::alloc` up to pages, each before it
looks at the space that is left, and each with an addition that wraps in a build without overflow checks.
`mapping_search`, in the same file, saturates instead. So the last requests of the range are taken for
small ones. The pool hands out sixteen bytes for them, if it has a free block at all. The arena counts
zero pages: it answers the next page address, leaves the counter where it is, and hands the page out again.

For all other requests the answer is null or a region that is large enough, inside the pool or the data
pages, and not handed out again while it is in use. `allocServes_iff` has both directions.
-/
import FerrumAlloc.Arena.System
import FerrumAlloc.Tlsf.Fit
import FerrumAlloc.Tlsf.Indices

namespace FerrumAlloc

open Lib

/-! ## The pool -/

namespace Tlsf

section

variable {base size n : Nat} {s : State} {bs : List Blk} {L : Nat → Nat → List Nat} {e f : Payload}

/-- **A region of the pool that serves a request** for `n` bytes: inside the pool, covered by the block, and
clear of every other payload for as long as it is in use. -/
structure Reserved (base size : Nat) (s : State) (n : Nat) (r : TlsfAllocator × Mem × Nat) : Prop where
  inside : base ≤ r.2.2 ∧ r.2.2 + n ≤ base + size
  usable : n ≤ usableSize r.2.1 r.2.2
  kept : ∀ es s', (anySystem base size).Run (s.issue n r) es s' →
    ⟨r.2.2, n, usableSize r.2.1 r.2.2⟩ ∈ s'.live → ∀ f ∈ s'.live, f.ptr ≠ r.2.2 →
      f.ptr + f.usable ≤ r.2.2 ∨ r.2.2 + n ≤ f.ptr

/-- What is asked of a call: null or a region that serves, and null for more than the pool. -/
def AllocServes (base size : Nat) (s : State) (n : Nat) : Prop :=
  ∃ r, Tlsf.alloc s.tlsf s.mem n = .ok r ∧ (r.2.2 = 0 ∨ Reserved base size s n r) ∧ (size < n → r.2.2 = 0)

/-- Live payloads lie in the pool. -/
theorem AnyState.inside (h : AnyState base size s bs L) (he : e ∈ s.live) :
    base ≤ e.ptr ∧ e.ptr + e.usable ≤ base + size := by
  have hin := (h.clamped.payloadOk (AnyState.clamp_mem he)).inside
  rw [h.clamped.start_eq, h.clamped.end_eq] at hin
  exact hin

/-- Live payloads at different addresses do not meet. -/
theorem AnyState.disjoint (h : AnyState base size s bs L) (he : e ∈ s.live) (hf : f ∈ s.live)
    (hptr : e.ptr ≠ f.ptr) : e.Disjoint f := by
  refine h.clamped.payload_disjoint_payload (e := e.clamp) (f := f.clamp) (AnyState.clamp_mem he)
    (AnyState.clamp_mem hf) fun heq => ?_
  have hsame : e.clamp.ptr = f.clamp.ptr := congrArg Payload.ptr heq
  exact hptr hsame

/-- Without wrapping, the rounded request is at least the request. -/
theorem le_adjusted (hn : n ≤ usizeMax - 15) : n ≤ adjusted n := by
  have hround := alignUpSize_of_le hn
  unfold adjusted
  omega

/-- **A request that does not wrap is served.** -/
theorem AnyState.reserved (ha : PoolArgs base size) (hr : (anySystem base size).Reachable s)
    (hn : n ≤ usizeMax - 15) {r : TlsfAllocator × Mem × Nat} (hrun : Tlsf.alloc s.tlsf s.mem n = .ok r)
    (hp : r.2.2 ≠ 0) : Reserved base size s n r := by
  have hmax : n ≤ usizeMax := le_trans hn (Nat.sub_le _ _)
  have hr' : (anySystem base size).Reachable (s.issue n r) := hr.step (AnyStep.alloc hmax hrun)
  have hmem : ⟨r.2.2, n, usableSize r.2.1 r.2.2⟩ ∈ (s.issue n r).live := by
    unfold State.issue
    rw [if_neg hp]
    exact List.mem_cons_self
  obtain ⟨bs, L, h⟩ := reachable_anyState ha hr'
  have hround := h.adjusted_le hmem
  have hfits : n ≤ usableSize r.2.1 r.2.2 := le_trans (le_adjusted hn) hround
  obtain ⟨hlo, hhi⟩ := h.inside hmem
  refine ⟨⟨hlo, ?_⟩, hfits, ?_⟩
  · exact (Nat.add_le_add_left hfits _).trans hhi
  · intro es s' hes hlive f hf hptr
    obtain ⟨bs', L', h'⟩ := reachable_anyState ha (hr'.run hes)
    rcases h'.disjoint hf hlive hptr with hbefore | hbehind
    · exact .inl hbefore
    · exact .inr ((Nat.add_le_add_left hfits _).trans hbehind)

/-- Without free blocks every request is refused. -/
theorem AnyState.alloc_empty (h : AnyState base size s bs L) (hn : n ≤ usizeMax) (hfree : s.tlsf.flBitmap = 0) :
    Tlsf.alloc s.tlsf s.mem n = .ok (s.tlsf, s.mem, 0) := by
  rcases Nat.eq_zero_or_pos n with rfl | hpos
  · rfl
  · rcases h.inv.alloc_any hpos hn with ⟨hrun, _⟩ | ⟨t', m', bs', L', p, _, hall⟩
    · exact hrun
    · obtain ⟨z, _, hchosen⟩ := hall.chosen
      refine absurd (fun fl sl _ => ?_) hchosen.not_noFit
      by_contra hne
      have hbit := (h.inv.filed.bits.flBit fl).mpr ⟨sl, hne⟩
      rw [hfree, Nat.zero_testBit] at hbit
      nomatch hbit

/-- With a free block every request that wraps is granted: it is taken for sixteen bytes. -/
theorem AnyState.alloc_wrap (h : AnyState base size s bs L) (hbig : usizeMax - 15 < n) (hn : n ≤ usizeMax)
    (hfree : s.tlsf.flBitmap ≠ 0) : ∃ r, Tlsf.alloc s.tlsf s.mem n = .ok r ∧ r.2.2 ≠ 0 := by
  have hadj : adjusted n = 16 := by
    unfold adjusted
    rw [alignUpSize_wrap hbig hn]
    rfl
  obtain ⟨fl, hbit⟩ := Nat.exists_testBit_of_ne_zero hfree
  obtain ⟨sl, hne⟩ := (h.inv.filed.bits.flBit fl).mp hbit
  obtain ⟨hfl, hsl⟩ := h.inv.filed.bin_lt_of_ne_nil hne
  rcases h.inv.alloc_any (Nat.zero_lt_of_lt hbig) hn with ⟨_, hno⟩ | ⟨t', m', bs', L', p, hrun, hall⟩
  · rw [hadj] at hno
    refine absurd (hno fl sl ?_) hne
    exact (binLe_mappingSearch_iff (by decide) (by decide) hfl hsl).mpr sixteen_le_binLo
  · obtain ⟨x, _, hp, _⟩ := hall.carve.used
    exact ⟨_, hrun, hp ▸ Nat.succ_ne_zero _⟩

/-! ### Pools that are ignored -/

/-- An allocator without a pool refuses every request. -/
theorem alloc_new (m : Mem) (n : Nat) : Tlsf.alloc new m n = .ok (new, m, 0) := by
  have hbin : ∀ fl sl, findBin new fl sl = none := by
    intro fl sl
    unfold findBin new
    simp only [Nat.zero_and, ne_eq, not_true_eq_false, if_false, if_true]
  have hsearch : ∀ a, findSuitable new m a = .ok (new, m, 0) := by
    intro a
    unfold findSuitable
    simp only [hbin]
    split <;> rfl
  unfold Tlsf.alloc
  split
  · rfl
  · simp only [hsearch]
    rfl

/-- `add_pool` ignores a region without room for a block: step and run. -/
theorem reachable_ignored (hmin : size < 48) (hr : (anySystem base size).Reachable s) :
    s.tlsf = new ∧ s.live = [] := by
  refine System.Reachable.invariant (I := fun s => s.tlsf = new ∧ s.live = []) ?_ ?_ hr
  · rintro s ⟨m, hadd, hlive⟩
    have hskip : addPool new m base size = .ok (new, m) := if_pos hmin
    exact ⟨(congrArg Prod.fst (Except.ok.inj (hskip.symm.trans hadd))).symm, hlive⟩
  · rintro s e s' _ ⟨htlsf, hlive⟩ hs
    cases hs with
    | @alloc n r hn hrun =>
      rw [htlsf, alloc_new] at hrun
      obtain rfl := Except.ok.inj hrun
      exact ⟨rfl, hlive⟩
    | free he hrun =>
      rw [hlive] at he
      nomatch he
    | write he h1 h2 =>
      rw [hlive] at he
      nomatch he

/-- **Any aligned region**: either it was ignored, or it is a pool of a size that can be filed. -/
theorem reachable_args (hpos : 0 < base) (hal : base % 16 = 0) (hfits : base + size < 2 ^ 64)
    (hr : (anySystem base size).Reachable s) : (s.tlsf = new ∧ s.live = []) ∨ PoolArgs base size := by
  rcases Nat.lt_or_ge size 48 with hmin | hmin
  · exact .inl (reachable_ignored hmin hr)
  · right
    refine ⟨hpos, hal, hfits, hmin, ?_⟩
    by_contra hbig
    -- no run starts on a larger pool
    refine System.Reachable.invariant (I := fun _ => False) ?_ (fun _ _ _ _ hno _ => hno) hr
    rintro s ⟨m, hadd, _⟩
    exact absurd (hadd.symm.trans (addPool_large m ⟨hpos, hal, hfits, hmin⟩ (Nat.le_of_not_lt hbig))) nofun

/-- **The pool serves a request exactly when its rounding does not wrap, or no block is free.** -/
theorem allocServes_pool (hpos : 0 < base) (hal : base % 16 = 0) (hfits : base + size < 2 ^ 64)
    (hr : (anySystem base size).Reachable s) (hn : n ≤ usizeMax) :
    AllocServes base size s n ↔ n ≤ usizeMax - 15 ∨ s.tlsf.flBitmap = 0 := by
  rcases reachable_args hpos hal hfits hr with ⟨hnew, _⟩ | ha
  · have hrun : Tlsf.alloc s.tlsf s.mem n = .ok (s.tlsf, s.mem, 0) := by
      rw [hnew]
      exact alloc_new s.mem n
    have hzero : s.tlsf.flBitmap = 0 := by rw [hnew]; rfl
    exact ⟨fun _ => .inr hzero, fun _ => ⟨_, hrun, .inl rfl, fun _ => rfl⟩⟩
  obtain ⟨bs, L, h⟩ := reachable_anyState ha hr
  constructor
  · rintro ⟨r, hrun, _, hlarge⟩
    by_contra hno
    obtain ⟨hbig, hfree⟩ := not_or.mp hno
    obtain ⟨r', hrun', hne⟩ := h.alloc_wrap (Nat.lt_of_not_le hbig) hn hfree
    obtain rfl := Except.ok.inj (hrun.symm.trans hrun')
    -- the request is larger than any pool
    refine hne (hlarge ?_)
    have hmax : usizeMax = 2 ^ 64 - 1 := rfl
    omega
  · rintro (hsmall | hfree)
    · obtain ⟨r, hrun⟩ := h.alloc_returns hn
      rcases Nat.eq_zero_or_pos r.2.2 with hnull | hp
      · exact ⟨r, hrun, .inl hnull, fun _ => hnull⟩
      · have hres := AnyState.reserved ha hr hsmall hrun (Nat.ne_of_gt hp)
        have hin := hres.inside
        refine ⟨r, hrun, .inr hres, fun hlarge => ?_⟩
        omega
    · exact ⟨_, h.alloc_empty hn hfree, .inl rfl, fun _ => rfl⟩

end

end Tlsf

/-! ## The arena -/

namespace Arena

section

variable {a : Arena} {s s' : State} {n : Nat} {e : Event} {es : List Event}

/-- The page count is exact up to the last multiple of the page size. -/
theorem pagesNeeded_of_le (h : n ≤ usizeMax - 4095) : pagesNeeded n = (n + 4095) / 4096 := by
  unfold usizeMax at h
  unfold pagesNeeded pageSize
  rw [usizeSub_usizeAdd_one (by omega) (by decide)]
  rfl

/-- **Behind it, the count wraps to zero.** -/
theorem pagesNeeded_wrap (h : usizeMax - 4095 < n) (hn : n ≤ usizeMax) : pagesNeeded n = 0 := by
  unfold usizeMax at h hn
  have hwrap : usizeSub (usizeAdd n 4096) 1 = n + 4095 - 2 ^ 64 := by
    unfold usizeSub usizeAdd
    omega
  show usizeSub (usizeAdd n 4096) 1 / 4096 = 0
  omega

/-- **Pages that serve a request** for `n` bytes: data pages, behind all pages handed out before and in
front of all pages handed out later. -/
structure Reserved (a : Arena) (s : State) (n : Nat) (r : Mem × Nat) : Prop where
  inside : a.pageAddr metaPages ≤ r.2 ∧ r.2 + n ≤ a.pageAddr pagesPerArena
  older : ∀ q ∈ s.runs, q.ptr + q.pages * pageSize ≤ r.2
  newer : ∀ es s', (arenaSystem a).Run (s.hand a r.1 r.2 n) es s' →
    ∃ l, s'.runs = l ++ (s.hand a r.1 r.2 n).runs ∧ ∀ q ∈ l, r.2 + n ≤ q.ptr

/-- What is asked of a call: null or pages that serve. -/
def AllocServes (a : Arena) (s : State) (n : Nat) : Prop :=
  (a.alloc s.mem n).2 = 0 ∨ Reserved a s n (a.alloc s.mem n)

/-- What was handed out stays recorded: step. -/
theorem runs_step (hs : Step a s e s') : ∃ l, s'.runs = l ++ s.runs := by
  have hhand : ∀ m ptr req, ∃ l, (s.hand a m ptr req).runs = l ++ s.runs := by
    intro m ptr req
    unfold State.hand
    split
    · exact ⟨[], rfl⟩
    · exact ⟨[_], rfl⟩
  cases hs with
  | allocPage => exact hhand _ _ _
  | alloc hn => exact hhand _ _ _
  | write hx => exact ⟨[], rfl⟩

/-- What was handed out stays recorded: run. -/
theorem runs_run (hrun : (arenaSystem a).Run s es s') : ∃ l, s'.runs = l ++ s.runs := by
  induction hrun with
  | nil => exact ⟨[], rfl⟩
  | cons hs _ ih =>
    obtain ⟨l, hl⟩ := runs_step hs
    obtain ⟨l', hl'⟩ := ih
    exact ⟨l' ++ l, by rw [hl', hl, List.append_assoc]⟩

/-- **A request that does not wrap is served.** -/
theorem reserved (hr : (arenaSystem a).Reachable s) (hn : n ≤ usizeMax - 4095) {m : Mem}
    (hrun : a.alloc s.mem n = (m, a.pageAddr (a.nextFreePage s.mem)))
    (hnext : a.nextFreePage m = a.nextFreePage s.mem + pagesNeeded n)
    (hle : a.nextFreePage s.mem + pagesNeeded n ≤ pagesPerArena) :
    Reserved a s n (m, a.pageAddr (a.nextFreePage s.mem)) := by
  have h := reachable_arenaState hr
  have hmax : n ≤ usizeMax := le_trans hn (Nat.sub_le _ _)
  have hr' : (arenaSystem a).Reachable (s.hand a m (a.pageAddr (a.nextFreePage s.mem)) n) := by
    have hstep : Step a s (.alloc n 16) _ := Step.alloc hmax
    rw [hrun] at hstep
    exact hr.step hstep
  have hend : a.pageAddr (a.nextFreePage s.mem) + n ≤ a.pageAddr (a.nextFreePage m) := by
    have hcount := pagesNeeded_of_le hn
    rw [hnext, pageAddr_add]
    unfold pageSize
    omega
  refine ⟨⟨?_, ?_⟩, fun q hq => ?_, fun es s' hes => ?_⟩
  · exact h.tiled.lo_le
  · refine hend.trans ?_
    rw [hnext, pageAddr_eq, pageAddr_eq]
    omega
  · exact (h.tiled.bounds (List.mem_map_of_mem hq)).2
  · obtain ⟨l, hl⟩ := runs_run hes
    have htiled := (reachable_arenaState (hr'.run hes)).tiled
    rw [hl, List.map_append] at htiled
    refine ⟨l, hl, fun q hq => hend.trans ?_⟩
    exact (htiled.newer (h.hand hnext hle).2.tiled).2 _ (List.mem_map_of_mem hq)

/-- **The arena serves a request exactly when its page count does not wrap.** -/
theorem allocServes_arena (hr : (arenaSystem a).Reachable s) (hn : n ≤ usizeMax) :
    AllocServes a s n ↔ n ≤ usizeMax - 4095 := by
  have h := reachable_arenaState hr
  have hmax : usizeMax = 2 ^ 64 - 1 := rfl
  rcases alloc_spec a s.mem n with ⟨hrun, hwhy⟩ | ⟨m, hne, hle, hrun, hnext, _, _⟩
  · refine ⟨fun _ => ?_, fun _ => .inl (congrArg Prod.snd hrun)⟩
    -- a request that wraps is for something, and for no page
    by_contra hbig
    rw [pagesNeeded_wrap (by omega) hn] at hwhy
    have hle := h.le
    omega
  · unfold AllocServes
    rw [hrun]
    constructor
    · rintro (hnull | hres)
      · exact absurd hnull (pageAddr_ne_zero h.ok)
      · have hin := hres.inside.2
        have hfits := fits_lt h.ok
        have hpages : a.pageAddr pagesPerArena = a.base + 2097152 := rfl
        have hpos : 4096 ≤ a.base := by
          have hal : a.base % 4096 = 0 := h.ok.al
          have hbase := h.ok.pos
          omega
        have hptr : a.base ≤ a.pageAddr (a.nextFreePage s.mem) := Nat.le_add_right _ _
        simp only at hin
        omega
    · intro hsmall
      exact .inr (reserved hr hsmall hrun hnext hle)

end

end Arena

/-! ## Both backends -/

/-- **Where the backends' rounding is harmless.** In every reachable state of a pool and of an arena, and
for every request: the pool answers null or a region reserved for the call, and null for more than the
pool, exactly when sixteen-byte rounding does not wrap or no block is free; the arena answers null or pages
reserved for the call exactly when the page count does not wrap. -/
theorem allocServes_iff {base size n : Nat} {s : Tlsf.State} {a : Arena} {s' : Arena.State} (hpos : 0 < base)
    (hal : base % 16 = 0) (hfits : base + size < 2 ^ 64) (hr : (Tlsf.anySystem base size).Reachable s)
    (hr' : (Arena.arenaSystem a).Reachable s') (hn : n ≤ usizeMax) :
    (Tlsf.AllocServes base size s n ↔ n ≤ usizeMax - 15 ∨ s.tlsf.flBitmap = 0) ∧
      (Arena.AllocServes a s' n ↔ n ≤ usizeMax - 4095) :=
  ⟨Tlsf.allocServes_pool hpos hal hfits hr hn, Arena.allocServes_arena hr' hn⟩

/-- The largest request of all, on one page with 100 bytes taken and in a new arena. -/
theorem allocServes_iff_max : ∃ (s : Tlsf.State) (s' : Arena.State), s.live = [⟨4112, 100, 112⟩] ∧
    (Tlsf.AllocServes 4096 4096 s usizeMax ↔ usizeMax ≤ usizeMax - 15 ∨ s.tlsf.flBitmap = 0) ∧
      (Arena.AllocServes ⟨2097152, defaultArenaSize⟩ s' usizeMax ↔ usizeMax ≤ usizeMax - 4095) := by
  obtain ⟨⟨s, hlive, hr⟩, _⟩ := Tlsf.exists_page
  obtain ⟨s', hinit⟩ := Arena.exists_init
  exact ⟨s, s', hlive, allocServes_iff (by decide) (by decide) (by decide) (Tlsf.reachable_any hr) (.init hinit)
    (Nat.le_refl _)⟩

private theorem wrap_alloc : (Tlsf.alloc (Exec.result _ Tlsf.page_addPool).1 (Exec.result _ Tlsf.page_addPool).2
    usizeMax).isOk = true := by decide +kernel

/-- **The pool grants `usize::MAX` bytes**: sixteen of them. -/
theorem exists_alloc_max_pool : ∃ s, (Tlsf.anySystem 4096 4096).Reachable s ∧
    (∃ t m, Tlsf.alloc s.tlsf s.mem usizeMax = .ok (t, m, 4112) ∧ Tlsf.usableSize m 4112 = 16) ∧
    ¬ Tlsf.AllocServes 4096 4096 s usizeMax := by
  obtain ⟨r, hr⟩ : ∃ r, r = Exec.result _ wrap_alloc := ⟨_, rfl⟩
  have hptr : r.2.2 = 4112 := by rw [hr]; decide +kernel
  have hsize : Tlsf.usableSize r.2.1 4112 = 16 := by rw [hr]; decide +kernel
  obtain ⟨s, hs⟩ : ∃ s : Tlsf.State,
    s = ⟨(Exec.result _ Tlsf.page_addPool).1, (Exec.result _ Tlsf.page_addPool).2, []⟩ := ⟨_, rfl⟩
  have hrun : Tlsf.alloc s.tlsf s.mem usizeMax = .ok (r.1, r.2.1, 4112) := by
    rw [← hptr, hs, hr]
    exact Exec.eq_ok_result _ wrap_alloc
  refine ⟨s, .init ⟨fun _ => 0, by rw [hs]; exact Exec.eq_ok_result _ Tlsf.page_addPool, by rw [hs]⟩,
    ⟨r.1, r.2.1, hrun, hsize⟩, ?_⟩
  rintro ⟨r', hrun', _, hlarge⟩
  obtain rfl := Except.ok.inj (hrun.symm.trans hrun')
  have hnull : 4112 = 0 := hlarge (by decide)
  nomatch hnull

/-- **The arena grants `usize::MAX` bytes**: a page that it hands out again to the next caller. -/
theorem exists_alloc_max_arena : ∃ s, (Arena.arenaSystem ⟨2097152, defaultArenaSize⟩).Reachable s ∧
    (∃ m m' p, Arena.alloc ⟨2097152, defaultArenaSize⟩ s.mem usizeMax = (m, 2117632) ∧
      Arena.allocPage ⟨2097152, defaultArenaSize⟩ m = (m', some (p, 2117632))) ∧
    ¬ Arena.AllocServes ⟨2097152, defaultArenaSize⟩ s usizeMax := by
  obtain ⟨s, hinit⟩ := Arena.exists_init
  have hfirst := Arena.init_next hinit
  have hcount : Arena.pagesNeeded usizeMax = 0 := by decide
  refine ⟨s, .init hinit, ?_, fun hserves => ?_⟩
  · rcases Arena.alloc_spec _ s.mem usizeMax with ⟨_, hwhy⟩ | ⟨m, _, _, hrun, hnext, _, _⟩
    · rw [hfirst, hcount] at hwhy
      exact absurd hwhy (by decide)
    · rw [hfirst] at hrun
      rw [hfirst, hcount] at hnext
      rcases Arena.allocPage_spec ⟨2097152, defaultArenaSize⟩ m with ⟨hfull, _⟩ | ⟨m', _, hpage, _, _⟩
      · rw [hnext] at hfull
        exact absurd hfull (by decide)
      · rw [hnext] at hpage
        exact ⟨m, m', _, hrun, hpage⟩
  · exact absurd ((Arena.allocServes_arena (.init hinit) (Nat.le_refl _)).mp hserves) (by decide)

/-- **Both backends grant a request that no memory can hold.** -/
theorem exists_alloc_max :
    (∃ s, (Tlsf.anySystem 4096 4096).Reachable s ∧ ¬ Tlsf.AllocServes 4096 4096 s usizeMax ∧
      ∃ t m, Tlsf.alloc s.tlsf s.mem usizeMax = .ok (t, m, 4112) ∧ Tlsf.usableSize m 4112 = 16) ∧
    ∃ s, (Arena.arenaSystem ⟨2097152, defaultArenaSize⟩).Reachable s ∧
      ¬ Arena.AllocServes ⟨2097152, defaultArenaSize⟩ s usizeMax ∧
      ∃ m m' p, Arena.alloc ⟨2097152, defaultArenaSize⟩ s.mem usizeMax = (m, 2117632) ∧
        Arena.allocPage ⟨2097152, defaultArenaSize⟩ m = (m', some (p, 2117632)) := by
  obtain ⟨s, hr, hgrant, hnot⟩ := exists_alloc_max_pool
  obtain ⟨s', hr', hgrant', hnot'⟩ := exists_alloc_max_arena
  exact ⟨⟨s, hr, hnot, hgrant⟩, s', hr', hnot', hgrant'⟩

end FerrumAlloc
