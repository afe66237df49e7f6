/-
# FerrumAlloc.Arena.System -- runs of one arena

A run starts with `Arena::new` and continues with calls of `alloc_page` and `alloc`, for any size, and
with stores by the callers anywhere but in `ArenaMeta`. The ghost list records what was handed out: the
pointer, the bytes asked for, and the number of pages by which the call advanced the counter.

The pages handed out tile the data region up to the counter (`ArenaState`), so they are in order,
disjoint, and never handed out again. That every run of pages is as large as the request is true of the
requests whose rounding does not wrap (`Event.Fits`), and a second invariant of the runs with such
requests only.
-/
import FerrumAlloc.Arena
import FerrumAlloc.Lib.Bump
import FerrumAlloc.Lib.Transition

namespace FerrumAlloc.Arena

open Lib

/-- Pages handed out: the pointer, the bytes asked for, and the pages that the counter moved by. -/
structure PageRun where
  ptr : Nat
  req : Nat
  pages : Nat
  deriving DecidableEq, Repr

/-- Start and length in bytes. -/
def PageRun.span (r : PageRun) : Nat × Nat := (r.ptr, r.pages * pageSize)

/-- The memory and the ghost list of what was handed out, the newest first. -/
structure State where
  mem : Mem
  runs : List PageRun

/-- A call, or a store by a caller. -/
inductive Event
  | allocPage
  | alloc (size align : Nat)
  | write (addr : Nat) (byte : UInt8)

/-- Recording a call that left memory `m` and returned `ptr` for `req` bytes. -/
def State.hand (a : Arena) (s : State) (m : Mem) (ptr req : Nat) : State where
  mem := m
  runs := if ptr = 0 then s.runs else ⟨ptr, req, a.nextFreePage m - a.nextFreePage s.mem⟩ :: s.runs

/-- The data page that `alloc_page` returns. -/
def pageOf (r : Option (Nat × Nat)) : Nat := (r.map Prod.snd).getD 0

/-- One step. -/
inductive Step (a : Arena) : State → Event → State → Prop
  | allocPage {s : State} :
      Step a s .allocPage (s.hand a (a.allocPage s.mem).1 (pageOf (a.allocPage s.mem).2) pageSize)
  | alloc {s : State} {n align : Nat} : n ≤ usizeMax →
      Step a s (.alloc n align) (s.hand a (a.alloc s.mem n).1 (a.alloc s.mem n).2 n)
  | write {s : State} {x : Nat} {v : UInt8} : x ∉ a.arenaMetaBytes →
      Step a s (.write x v) { s with mem := Function.update s.mem x v }

/-- Runs over an arena that `Arena::new` has set up, in any process. -/
def arenaSystem (a : Arena) : System State Event where
  init s := (∃ answer id os os', Arena.new answer id os = (some a, os') ∧ s.mem = os'.bytes) ∧ s.runs = []
  step := Step a

/-- A request for at least one byte whose rounding to pages does not wrap. -/
def Event.Fits : Event → Prop
  | .alloc n _ => 0 < n ∧ n ≤ usizeMax - pageSize
  | _ => True

/-! ## The invariant -/

/-- The pages handed out tile the data region up to the counter. -/
structure ArenaState (a : Arena) (s : State) : Prop where
  ok : a.Ok
  le : a.nextFreePage s.mem ≤ pagesPerArena
  tiled : Tiled (a.pageAddr metaPages) (a.pageAddr (a.nextFreePage s.mem)) (s.runs.map PageRun.span)
  aligned : ∀ r ∈ s.runs, r.ptr % pageSize = 0

section

variable {a : Arena} {s s' : State} {m : Mem} {k n x req : Nat} {e : Event}

theorem pageAddr_ne_zero (h : a.Ok) : a.pageAddr k ≠ 0 := by
  have hpos := h.pos
  rw [pageAddr_eq]
  omega

theorem pageAddr_add : a.pageAddr (n + k) = a.pageAddr n + k * pageSize := by
  rw [pageAddr_eq, pageAddr_eq]
  show a.base + (n + k) * 4096 = a.base + n * 4096 + k * 4096
  omega

theorem pageAddr_aligned (h : a.Ok) : a.pageAddr k % pageSize = 0 := by
  have hal : a.base % 4096 = 0 := h.al
  rw [pageAddr_eq]
  show (a.base + k * 4096) % 4096 = 0
  omega

/-! ### The calls -/

theorem hand_null : s.hand a s.mem 0 req = s := rfl

/-- `alloc_page` hands out one page, or changes nothing. -/
theorem allocPage_cases (a : Arena) (s : State) :
    s.hand a (a.allocPage s.mem).1 (pageOf (a.allocPage s.mem).2) pageSize = s ∨
      ∃ m, s.hand a (a.allocPage s.mem).1 (pageOf (a.allocPage s.mem).2) pageSize =
          s.hand a m (a.pageAddr (a.nextFreePage s.mem)) pageSize ∧
        a.nextFreePage m = a.nextFreePage s.mem + 1 ∧ a.nextFreePage s.mem + 1 ≤ pagesPerArena := by
  rcases allocPage_spec a s.mem with ⟨_, hrun⟩ | ⟨m, hlt, hrun, hnext, _⟩
  · left
    rw [hrun]
    exact hand_null
  · right
    refine ⟨m, ?_, hnext, hlt⟩
    rw [hrun]
    rfl

/-- `alloc` hands out the pages it has counted, or changes nothing. -/
theorem alloc_cases (a : Arena) (s : State) (n : Nat) :
    s.hand a (a.alloc s.mem n).1 (a.alloc s.mem n).2 n = s ∨
      ∃ m, a.alloc s.mem n = (m, a.pageAddr (a.nextFreePage s.mem)) ∧ n ≠ 0 ∧
        a.nextFreePage m = a.nextFreePage s.mem + pagesNeeded n ∧
        a.nextFreePage s.mem + pagesNeeded n ≤ pagesPerArena := by
  rcases alloc_spec a s.mem n with ⟨hrun, _⟩ | ⟨m, hne, hle, hrun, hnext, _, _⟩
  · left
    rw [hrun]
    exact hand_null
  · exact .inr ⟨m, hrun, hne, hnext, hle⟩

namespace ArenaState

/-- `Arena::new` establishes the invariant. -/
theorem init (hs : (arenaSystem a).init s) : ArenaState a s := by
  obtain ⟨⟨answer, id, os, os', hnew, hmem⟩, hruns⟩ := hs
  rcases new_spec answer id os with ⟨_, hnone⟩ | ⟨base, m, _, hg, _, hsome⟩
  · exact absurd (congrArg Prod.fst (hnone.symm.trans hnew)) nofun
  · obtain ⟨ha, rfl⟩ := Prod.mk.inj (hsome.symm.trans hnew)
    obtain rfl := Option.some.inj ha
    have hnext := (init_spec ⟨base, defaultArenaSize⟩ m id).1
    refine ⟨⟨hg.1, hg.2.1, rfl, hg.2.2.2.1⟩, ?_, ?_, ?_⟩
    · rw [hmem, hnext]
      decide
    · rw [hmem, hnext, hruns]
      rfl
    · rw [hruns]
      exact fun r hr => nomatch hr

/-- The counter stands behind the metadata. -/
theorem next_ge (h : ArenaState a s) : metaPages ≤ a.nextFreePage s.mem := by
  have hle := h.tiled.lo_le
  rw [pageAddr_eq, pageAddr_eq] at hle
  exact Nat.le_of_mul_le_mul_right (Nat.le_of_add_le_add_left hle) (by decide)

/-- **Step lemma**: handing out the next `k` pages. -/
theorem hand (h : ArenaState a s) (hnext : a.nextFreePage m = a.nextFreePage s.mem + k)
    (hle : a.nextFreePage s.mem + k ≤ pagesPerArena) :
    (s.hand a m (a.pageAddr (a.nextFreePage s.mem)) req).runs =
        ⟨a.pageAddr (a.nextFreePage s.mem), req, k⟩ :: s.runs ∧
      ArenaState a (s.hand a m (a.pageAddr (a.nextFreePage s.mem)) req) := by
  have hruns : (s.hand a m (a.pageAddr (a.nextFreePage s.mem)) req).runs =
      ⟨a.pageAddr (a.nextFreePage s.mem), req, k⟩ :: s.runs := by
    unfold State.hand
    simp only [if_neg (pageAddr_ne_zero h.ok), hnext, Nat.add_sub_cancel_left]
  refine ⟨hruns, h.ok, ?_, ?_, fun r hr => ?_⟩
  · show a.nextFreePage m ≤ pagesPerArena
    rw [hnext]
    exact hle
  · rw [hruns]
    show Tiled _ (a.pageAddr (a.nextFreePage m)) _
    rw [hnext, pageAddr_add]
    exact h.tiled.push (k * pageSize)
  · rw [hruns] at hr
    rcases List.mem_cons.mp hr with rfl | hr
    · exact pageAddr_aligned h.ok
    · exact h.aligned r hr

/-- **Step lemma.** -/
theorem step (h : ArenaState a s) (hs : Step a s e s') : ArenaState a s' := by
  cases hs with
  | allocPage =>
    rcases allocPage_cases a s with hsame | ⟨m, heq, hnext, hle⟩
    · rw [hsame]
      exact h
    · rw [heq]
      exact (h.hand hnext hle).2
  | @alloc n align hn =>
    rcases alloc_cases a s n with hsame | ⟨m, hrun, _, hnext, hle⟩
    · rw [hsame]
      exact h
    · rw [hrun]
      exact (h.hand hnext hle).2
  | @write x v hx =>
    have hnext : a.nextFreePage (Function.update s.mem x v) = a.nextFreePage s.mem := by
      apply nextFreePage_of_eqOn
      intro z hz
      apply Function.update_of_ne
      rintro rfl
      exact hx hz
    have htiled := h.tiled
    have hle := h.le
    rw [← hnext] at htiled hle
    exact ⟨h.ok, hle, htiled, h.aligned⟩

/-- A run of pages handed out lies in the data pages. -/
theorem run_bounds (h : ArenaState a s) {r : PageRun} (hr : r ∈ s.runs) :
    a.pageAddr metaPages ≤ r.ptr ∧ r.ptr + r.pages * pageSize ≤ a.pageAddr pagesPerArena := by
  obtain ⟨hlo, hhi⟩ := h.tiled.bounds (List.mem_map_of_mem hr)
  refine ⟨hlo, le_trans hhi ?_⟩
  have hle := h.le
  rw [pageAddr_eq, pageAddr_eq]
  omega

end ArenaState

/-- **Run lemma.** -/
theorem reachable_arenaState (hr : (arenaSystem a).Reachable s) : ArenaState a s :=
  System.Reachable.invariant (I := ArenaState a) (fun _ hs => ArenaState.init hs)
    (fun _ _ _ _ h hs => h.step hs) hr

/-! ## Runs with requests that fit -/

/-- As many bytes as were asked for. -/
def PageRun.Serves (r : PageRun) : Prop := 0 < r.req ∧ r.req ≤ r.pages * pageSize

/-- **Step lemma**: a request that fits gets enough pages. -/
theorem serves_step (h : ArenaState a s) (hall : ∀ r ∈ s.runs, r.Serves) (hs : Step a s e s') (hfits : e.Fits) :
    ∀ r ∈ s'.runs, r.Serves := by
  cases hs with
  | allocPage =>
    rcases allocPage_cases a s with hsame | ⟨m, heq, hnext, hle⟩
    · rw [hsame]
      exact hall
    · intro r hr
      rw [heq, (h.hand hnext hle).1] at hr
      rcases List.mem_cons.mp hr with rfl | hr
      · exact ⟨show 0 < pageSize by decide, show pageSize ≤ 1 * pageSize by decide⟩
      · exact hall r hr
  | @alloc n align hn =>
    rcases alloc_cases a s n with hsame | ⟨m, hrun, _, hnext, hle⟩
    · rw [hsame]
      exact hall
    · intro r hr
      rw [hrun, (h.hand hnext hle).1] at hr
      rcases List.mem_cons.mp hr with rfl | hr
      · obtain ⟨hpos, hmax⟩ := hfits
        have hlt : n + pageSize < 2 ^ 64 := by
          unfold usizeMax pageSize at hmax
          unfold pageSize
          omega
        refine ⟨hpos, ?_⟩
        show n ≤ pagesNeeded n * 4096
        rw [pagesNeeded_eq hpos hlt]
        omega
      · exact hall r hr
  | write hx => exact hall

/-- **Run lemma.** -/
theorem reachable_serves (hr : ((arenaSystem a).restrict fun _ e => e.Fits).Reachable s) :
    ∀ r ∈ s.runs, r.Serves := by
  refine System.Reachable.invariant (I := fun s => ∀ r ∈ s.runs, r.Serves) ?_ ?_ hr
  · intro s hs r hr
    have hruns : s.runs = [] := hs.2
    rw [hruns] at hr
    nomatch hr
  · intro s e s' hr' h hs
    exact serves_step (reachable_arenaState hr'.of_restrict) h hs.1 hs.2

/-! ## Page arithmetic -/

/-- **`ptr_to_page_index` finds the one page of an address** in the data region, and answers zero for any
other address. -/
theorem ptrToPageIndex_exact (h : a.Ok) (x : Nat) :
    (a.base + dataStartOffset ≤ x ∧ x < a.base + a.totalSize →
      a.ptrToPageIndex x < pagesPerArena ∧
        ∀ i, a.pageAddr i ≤ x ∧ x < a.pageAddr i + pageSize ↔ i = a.ptrToPageIndex x) ∧
    (¬ (a.base + dataStartOffset ≤ x ∧ x < a.base + a.totalSize) → a.ptrToPageIndex x = 0) := by
  have hsize : a.totalSize = 2097152 := h.size
  have hdata : dataStartOffset = 20480 := rfl
  have hpage : pageSize = 4096 := rfl
  have hcount : pagesPerArena = 512 := rfl
  unfold ptrToPageIndex
  rw [hsize, hdata, hpage, hcount]
  constructor
  · rintro ⟨hlo, hhi⟩
    rw [if_neg (by omega)]
    refine ⟨by omega, fun i => ?_⟩
    rw [pageAddr_eq]
    omega
  · intro hout
    exact if_pos (by omega)

/-! ## What callers rely on -/

/-- **A run of pages in the hands of a caller**: page-aligned, large enough, inside the data pages, and
clear of `ArenaMeta` and of every `PageMeta` record. -/
structure PagesOk (a : Arena) (r : PageRun) : Prop where
  aligned : r.ptr % pageSize = 0
  size : 0 < r.req ∧ r.req ≤ r.pages * pageSize
  pages : ∃ i, r.ptr = a.pageAddr i ∧ metaPages ≤ i ∧ i + r.pages ≤ pagesPerArena
  clear : ∀ x, r.ptr ≤ x → x < r.ptr + r.pages * pageSize →
    x ∉ a.arenaMetaBytes ∧ ∀ i < pagesPerArena, x ∉ metaBytes (a.metaPtr i)

theorem ArenaState.pagesOk (h : ArenaState a s) {r : PageRun} (hr : r ∈ s.runs) (hserves : r.Serves) :
    PagesOk a r := by
  have hlo : a.base + 20480 ≤ r.ptr := (h.run_bounds hr).1
  have hhi : r.ptr + r.pages * 4096 ≤ a.base + 2097152 := (h.run_bounds hr).2
  have hbase : a.base % 4096 = 0 := h.ok.al
  refine ⟨h.aligned r hr, hserves, ⟨(r.ptr - a.base) / 4096, ?_, ?_, ?_⟩, fun x hx _ => ⟨?_, fun i hi hmem => ?_⟩⟩
  · have hal : r.ptr % 4096 = 0 := h.aligned r hr
    rw [pageAddr_eq]
    omega
  · show 5 ≤ (r.ptr - a.base) / 4096
    omega
  · show (r.ptr - a.base) / 4096 + r.pages ≤ 512
    omega
  · rintro ⟨_, hhead⟩
    omega
  · -- the records end where the data pages start
    have hi' : i < 512 := hi
    rw [mem_metaBytes, metaPtr_eq] at hmem
    omega

/-- **Bump allocation and page arithmetic.** In every run with requests of at least one byte whose rounding
does not wrap: the page runs handed out are well placed, in ascending order and disjoint; used and
remaining bytes add up to the capacity; a refused request changes nothing; and the three address
functions are exact. -/
theorem reachable_pages (hr : ((arenaSystem a).restrict fun _ e => e.Fits).Reachable s) :
    (∀ r ∈ s.runs, PagesOk a r) ∧
    (s.runs.Pairwise fun newer older => older.ptr + older.pages * pageSize ≤ newer.ptr) ∧
    a.bytesUsed s.mem + a.bytesRemaining s.mem = capacity ∧
    (∀ n, (a.alloc s.mem n).2 = 0 → (a.alloc s.mem n).1 = s.mem) ∧
    ((a.allocPage s.mem).2 = none → (a.allocPage s.mem).1 = s.mem) ∧
    (∀ x, (a.base + dataStartOffset ≤ x ∧ x < a.base + a.totalSize →
        a.ptrToPageIndex x < pagesPerArena ∧
          ∀ i, a.pageAddr i ≤ x ∧ x < a.pageAddr i + pageSize ↔ i = a.ptrToPageIndex x) ∧
      (¬ (a.base + dataStartOffset ≤ x ∧ x < a.base + a.totalSize) → a.ptrToPageIndex x = 0)) ∧
    ∀ i < pagesPerArena, a.metaIndex (a.metaPtr i) = i := by
  have h := reachable_arenaState hr.of_restrict
  refine ⟨fun r hmem => h.pagesOk hmem (reachable_serves hr r hmem), ?_, ?_, fun n hnull => ?_, fun hnone => ?_,
    ptrToPageIndex_exact h.ok, fun i hi => metaIndex_metaPtr h.ok hi⟩
  · exact List.pairwise_map.mp h.tiled.pairwise
  · have hge : 5 ≤ a.nextFreePage s.mem := h.next_ge
    have hle : a.nextFreePage s.mem ≤ 512 := h.le
    show (a.nextFreePage s.mem - 5) * 4096 + (512 - a.nextFreePage s.mem) * 4096 = (512 - 5) * 4096
    omega
  · rcases alloc_spec a s.mem n with ⟨hrun, _⟩ | ⟨m, _, _, hrun, _⟩
    · rw [hrun]
    · rw [hrun] at hnull
      exact absurd hnull (pageAddr_ne_zero h.ok)
  · rcases allocPage_spec a s.mem with ⟨_, hrun⟩ | ⟨m, _, hrun, _⟩
    · rw [hrun]
    · rw [hrun] at hnone
      exact absurd hnone nofun

end

/-- In a new arena the counter stands at the first data page. -/
theorem init_next {a : Arena} {s : State} (hinit : (arenaSystem a).init s) :
    a.nextFreePage s.mem = metaPages := by
  have hnil := (ArenaState.init hinit).tiled
  rw [show s.runs = [] from hinit.2] at hnil
  have heq : a.base + a.nextFreePage s.mem * 4096 = a.base + metaPages * 4096 := hnil
  exact Nat.eq_of_mul_eq_mul_right (by decide) (Nat.add_left_cancel heq)

/-- A new arena has a page to hand out. -/
theorem exists_first {a : Arena} {s : State} (hinit : (arenaSystem a).init s) :
    ∃ s', s'.runs = [⟨a.pageAddr metaPages, pageSize, 1⟩] ∧
      ((arenaSystem a).restrict fun _ e => e.Fits).Reachable s' := by
  have h := ArenaState.init hinit
  have hruns : s.runs = [] := hinit.2
  have hfirst := init_next hinit
  refine ⟨_, ?_, .step (.init hinit) ⟨.allocPage, trivial⟩⟩
  rcases allocPage_spec a s.mem with ⟨hfull, _⟩ | ⟨m, _, hrun, hnext, _⟩
  · rw [hfirst] at hfull
    exact absurd hfull (by decide)
  · have hone : (s.hand a m (a.pageAddr (a.nextFreePage s.mem)) pageSize).runs = _ :=
      (h.hand hnext (by rw [hfirst]; decide)).1
    rw [hruns, hfirst] at hone
    rw [hrun, ← hone, hfirst]
    rfl

/-- The system grants an arena at 2 MB to a process without mappings. -/
theorem exists_init : ∃ s, (arenaSystem ⟨2097152, defaultArenaSize⟩).init s := by
  have hgrant : Grantable [] 2097152 2097152 := ⟨by decide, by decide, by decide, by decide, nofun⟩
  rcases new_spec (some 2097152) 0 ⟨fun _ => 0, []⟩ with ⟨hno, _⟩ | ⟨base, m, hbase, _, _, hnew⟩
  · exact absurd hgrant (hno _ rfl)
  · obtain rfl := Option.some.inj hbase
    exact ⟨⟨_, []⟩, ⟨_, _, _, _, hnew, rfl⟩, rfl⟩

/-- An arena at 2 MB with one page handed out. -/
theorem reachable_pages_first : ∃ s : State, s.runs = [⟨2117632, 4096, 1⟩] ∧
    (∀ r ∈ s.runs, PagesOk ⟨2097152, defaultArenaSize⟩ r) ∧
    bytesUsed ⟨2097152, defaultArenaSize⟩ s.mem + bytesRemaining ⟨2097152, defaultArenaSize⟩ s.mem = capacity := by
  obtain ⟨s₀, hinit⟩ := exists_init
  obtain ⟨s, hruns, hr⟩ := exists_first hinit
  obtain ⟨hpages, _, hcap, _⟩ := reachable_pages hr
  exact ⟨s, hruns, hpages, hcap⟩

end FerrumAlloc.Arena
