/-
# FerrumAlloc.Api.First -- the first calls of a process and of a thread

How a run gets started: `ferrum_malloc` sets up the arena, the first small request of a thread makes its
cache and takes slot 0 of a new page, and later requests of the same class take the slots of that page in
order. The lemmas say exactly which slot is returned, in any state that meets their conditions.
-/
import FerrumAlloc.Api.System

namespace FerrumAlloc

open Lib
open Tlsf (TlsfAllocator)

variable {h : Heap} {v : View} {l : List Block} {t p c i j n : Nat} {D : Prop} {E : View → Nat → Prop}

/-! ## The arena -/

/-- A huge request that is refused sets up the arena and nothing else. -/
theorem ferrumMalloc_setup (hlock : h.arenaLock = false) (hinit : h.arenaInit = false) {A : Nat}
    (hA : Grantable h.os.maps 2097152 A) (t : Nat) (hn : hugeAllocThreshold ≤ n) :
    ∃ a tlsf m, a.base = A ∧ Sets h a tlsf m ∧
      ferrumMalloc h t n ⟨some A, none, none⟩ = .ok (h.setup a tlsf m, 0, .huge) := by
  have hn' : 262144 ≤ n := hn
  rcases ensureInit_spec hlock (some A) with ⟨hyes, _⟩ | ⟨_, hno, _⟩ | ⟨a, tlsf, m, hans, hs, hrun⟩
  · rw [hinit] at hyes
    nomatch hyes
  · exact absurd hA (hno A rfl)
  · refine ⟨a, tlsf, m, (Option.some.inj hans).symm, hs, ?_⟩
    unfold ferrumMalloc
    rw [if_neg (by omega)]
    simp only [hrun, Exec.bind_ok, if_pos hn, Exec.pure_eq]
    rfl

/-- The first call of a process can be such a request. -/
theorem ferrumMalloc_start (bytes : Mem) {A : Nat} (hA : Grantable [] 2097152 A) (t : Nat)
    (hn : hugeAllocThreshold ≤ n) :
    ∃ a tlsf m, a.base = A ∧ Sets (Heap.boot bytes) a tlsf m ∧
      ferrumMalloc (Heap.boot bytes) t n ⟨some A, none, none⟩ =
        .ok ((Heap.boot bytes).setup a tlsf m, 0, .huge) :=
  ferrumMalloc_setup (h := Heap.boot bytes) rfl rfl hA t hn

/-- The state right after the arena is set up. -/
def Heap.started (bytes : Mem) (a : Arena) (tlsf : TlsfAllocator) (m : Mem) : State :=
  ⟨(Heap.boot bytes).setup a tlsf m, []⟩

theorem started_good {bytes m : Mem} {a : Arena} {tlsf : TlsfAllocator}
    (hs : Sets (Heap.boot bytes) a tlsf m) :
    Good (Heap.started bytes a tlsf m).heap (.fresh a tlsf) [] := ((Good.boot bytes).setup hs).good

/-- A call without a pointer argument. -/
theorem Step.fresh {s : State} {c : Call} {ans : Nat → Answers} {r : Heap × Nat × Backend}
    (harg : c.arg = none) (hrun : c.run s.heap t ans = .ok r) :
    Step s (.call t c ans) ⟨r.1, c.after s.live r⟩ := by
  refine .call (fun b hb => ?_) hrun
  rw [harg] at hb
  nomatch hb

/-- The step to that state. -/
theorem started_step (bytes : Mem) {A : Nat} (hA : Grantable [] 2097152 A) (t : Nat) :
    ∃ a tlsf m, a.base = A ∧ Sets (Heap.boot bytes) a tlsf m ∧
      Step ⟨Heap.boot bytes, []⟩ (.call t (.malloc 262144) fun _ => ⟨some A, none, none⟩)
        (Heap.started bytes a tlsf m) := by
  obtain ⟨a, tlsf, m, hbase, hs, hrun⟩ := ferrumMalloc_start (n := 262144) bytes hA t (Nat.le_refl _)
  have hcall : (Call.malloc 262144).run (Heap.boot bytes) t (fun _ => ⟨some A, none, none⟩) =
      .ok ((Heap.boot bytes).setup a tlsf m, 0, .huge) := hrun
  exact ⟨a, tlsf, m, hbase, hs, Step.fresh (s := ⟨Heap.boot bytes, []⟩) rfl hcall⟩

/-! ## Middle requests -/

/-- A request between the slabs and the huge blocks takes the slow path. -/
theorem ferrumMalloc_slow (hinit : h.arenaInit = true) (hlo : slabMaxSize < n)
    (hhi : n < hugeAllocThreshold) (ans : Answers) : ferrumMalloc h t n ans = mallocSlow h n := by
  have hens : ensureInit h ans.arena = .ok h := by
    unfold ensureInit
    rw [hinit]
    rfl
  unfold ferrumMalloc
  rw [if_neg (Nat.ne_of_gt (Nat.lt_of_le_of_lt (Nat.zero_le _) hlo))]
  simp only [hens, Exec.bind_ok, if_neg (Nat.not_le_of_lt hhi), if_neg (Nat.not_le_of_lt hlo), Exec.pure_eq,
    ne_eq, not_true_eq_false, if_false]

/-- **A huge request that is granted.** -/
theorem ferrumMalloc_huge (hinit : h.arenaInit = true) (hn : hugeAllocThreshold ≤ n) (base : Nat)
    (hgrant : Grantable h.os.maps (hugeTotal n) base) (arena cache : Option Nat) :
    ∃ os, Maps h n base os ∧
      ferrumMalloc h t n ⟨arena, cache, some base⟩ = .ok (h.setOs os, base + 4096, .huge) := by
  have hens : ensureInit h arena = .ok h := if_pos hinit
  have hn' : 262144 ≤ n := hn
  rcases heapHugeAlloc_spec h n (some base) with ⟨_, hno⟩ | ⟨base', os, hans, hm, hrun⟩
  · exact absurd hgrant (hno base rfl)
  · obtain rfl := Option.some.inj hans
    refine ⟨os, hm, ?_⟩
    unfold ferrumMalloc
    rw [if_neg (by omega)]
    simp only [hens, Exec.bind_ok, if_pos hn, hrun, Exec.pure_eq]

/-- A request that is served. -/
theorem Step.malloc {s : State} {h' : Heap} {p cap : Nat} {via : Backend} {v' : View} (ans : Nat → Answers)
    (hrun : ferrumMalloc s.heap t n (ans 0) = .ok (h', p, via)) (hg' : Good h' v' (⟨p, n, via, cap⟩ :: s.live)) :
    Step s (.call t (.malloc n) ans) ⟨h', ⟨p, n, via, cap⟩ :: s.live⟩ := by
  have hcall : (Call.malloc n).run s.heap t ans = .ok (h', p, via) := hrun
  have hnew : newBlock (h', p, via) n = ⟨p, n, via, cap⟩ := hg'.newBlock_eq
  have hafter : (Call.malloc n).after s.live (h', p, via) = ⟨p, n, via, cap⟩ :: s.live := by
    rw [← hnew]
    exact if_neg (hg'.ptr_ne List.mem_cons_self)
  have hs := Step.fresh rfl hcall
  rw [hafter] at hs
  exact hs

/-- **One middle request**: null, pages, or a block of the pool. -/
theorem malloc_middle {s : State} (hg : Good s.heap v s.live) (hinit : s.heap.arenaInit = true)
    (hlo : slabMaxSize < n) (hhi : n < hugeAllocThreshold) (t : Nat) (ans : Nat → Answers) :
    (ferrumMalloc s.heap t n (ans 0) = .ok (s.heap, 0, .bump) ∧
      pagesPerArena < v.arena.nextFreePage s.heap.os.bytes + (n + 4095) / 4096) ∨
    ∃ s' v' b, Step s (.call t (.malloc n) ans) s' ∧ s'.live = b :: s.live ∧
      Good s'.heap v' s'.live ∧ s'.heap.arenaInit = true ∧ s'.heap.os.maps = s.heap.os.maps ∧ b.req = n ∧
      (b.via = .bump ∧ v'.arena.nextFreePage s'.heap.os.bytes =
          v.arena.nextFreePage s.heap.os.bytes + (n + 4095) / 4096 ∨
        b.via = .tlsf ∧ v'.arena.nextFreePage s'.heap.os.bytes = v.arena.nextFreePage s.heap.os.bytes) := by
  have hlt : n < 262144 := hhi
  have hpos : 0 < n := Nat.lt_of_le_of_lt (Nat.zero_le _) hlo
  have hslow := ferrumMalloc_slow (t := t) hinit hlo hhi (ans 0)
  rcases mallocSlow_spec hg hinit hpos hhi with
    ⟨hrun, _, hfull⟩ | ⟨m, hi, _, hrun⟩ | ⟨tlsf, m, bs, L, p, hal, _, hrun⟩
  · exact .inl ⟨hslow.trans hrun, hfull⟩
  · have hg' := ((Act.kept (D := True) (E := Anywhere) (t := t) (.issue hi) hg)).good
    exact .inr ⟨_, v, _, .malloc _ (hslow.trans hrun) hg', rfl, hg', hinit, rfl, rfl,
      .inl ⟨rfl, hi.next⟩⟩
  · have hn : n ≤ usizeMax - 16 := by
      unfold usizeMax
      omega
    have hg' := ((Act.kept (D := True) (E := Anywhere) (t := t) (.carve hinit hn hal) hg)).good
    have ha := hg.arena hinit
    refine .inr ⟨_, _, _, .malloc _ (hslow.trans hrun) hg', rfl, hg', hinit, rfl, rfl, .inr ⟨rfl, ?_⟩⟩
    -- the pool writes inside the pool
    apply Arena.nextFreePage_of_eqOn
    refine (ha.pool_frame hal.frame fun z hz => ha.pool.zone_both (ha.carved hal) hal.start_eq hz).mono ?_
    exact fun z hz => .inl (.inl (Arena.arenaMetaBytes_subset hz))

/-! ## Requests of half a pool -/

/-- The pool has no room for two of them. -/
theorem Good.one_of_pool (hg : Good h v l) (hinit : h.arenaInit = true) {b b' : Block} (hb : b ∈ l) (hb' : b' ∈ l)
    (hvia : b.via = .tlsf) (hvia' : b'.via = .tlsf) (hreq : b.req = 262143) (hreq' : b'.req = 262143) : b = b' := by
  by_contra hne
  -- two cells of 262143 bytes and more, apart, in a pool of 524288
  have ha := hg.arena hinit
  obtain ⟨x, hx, hu⟩ := (hg.placed b hb).poolBlock hvia
  obtain ⟨x', hx', hu'⟩ := (hg.placed b' hb').poolBlock hvia'
  have hcap : b.req ≤ b.cap := (hg.sized b hb).req_le (by rw [hvia]; nofun)
  have hcap' : b'.req ≤ b'.cap := (hg.sized b' hb').req_le (by rw [hvia']; nofun)
  obtain ⟨h1, h2⟩ := Tlsf.usedAt_bounds hu
  obtain ⟨h3, h4⟩ := Tlsf.usedAt_bounds hu'
  have hend := ha.pool.end_le
  have hstart := ha.pool.start_eq
  have hd := Tlsf.cells_disjoint hu hu' fun heq => (hg.apart_of_ne hb hb' hne).1 (by rw [hx, hx', heq])
  simp only at hd
  omega

/-- A second one goes to the bump allocator. -/
theorem Good.new_of_pool {s : State} {b b' : Block} (hg : Good h v s.live) (hinit : h.arenaInit = true)
    (hlive : s.live = b' :: l) (hb : b ∈ l) (hvia : b.via = .tlsf) (hreq : b.req = 262143)
    (hreq' : b'.req = 262143) : b'.via ≠ .tlsf := by
  intro hvia'
  rw [hlive] at hg
  obtain rfl := hg.one_of_pool hinit (.tail _ hb) List.mem_cons_self hvia hvia' hreq hreq'
  exact (List.nodup_cons.mp hg.nodup).1 hb

section

variable {C : State → Event → Prop} {s : State} (hC : ∀ s t n ans, n ≤ hugeAllocThreshold → C s (.call t (.malloc n) ans))
include hC

/-- **A process with pages of the bump allocator**: two requests that are too big for one pool. -/
theorem exists_bump (bytes : Mem) (t : Nat) {A : Nat} (hA : Grantable [] 2097152 A) :
    ∃ s b, (system.restrict C).Reachable s ∧ s.heap.arenaInit = true ∧ s.heap.os.maps = [⟨A, 2097152⟩] ∧
      b ∈ s.live ∧ b.via = .bump ∧ b.req = 262143 := by
  obtain ⟨a, tlsf, m, rfl, hs, hstep⟩ := started_step bytes hA t
  have hg := started_good hs
  have hnext : (View.fresh a tlsf).arena.nextFreePage (Heap.started bytes a tlsf m).heap.os.bytes = 133 :=
    hs.next
  have hlo : slabMaxSize < 262143 := by decide
  have hhi : 262143 < hugeAllocThreshold := by decide
  have hr₀ : (system.restrict C).Reachable ⟨Heap.boot bytes, []⟩ := .init ⟨bytes, rfl⟩
  have hr₁ := hr₀.step ⟨hstep, hC _ _ _ _ (Nat.le_refl _)⟩
  rcases malloc_middle hg rfl hlo hhi t fun _ => ⟨none, none, none⟩ with
    ⟨_, hfull⟩ | ⟨s₂, v₂, b, hstep₂, hlive₂, hg₂, hinit₂, hmaps₂, hreq, hvia⟩
  · exact absurd hfull (by rw [hnext]; decide)
  have hr₂ := hr₁.step ⟨hstep₂, hC _ _ _ _ (by decide)⟩
  have hb : b ∈ s₂.live := by
    rw [hlive₂]
    exact List.mem_cons_self
  rcases hvia with ⟨hvia, _⟩ | ⟨hvia, hnext₂⟩
  · exact ⟨s₂, b, hr₂, hinit₂, hmaps₂, hb, hvia, hreq⟩
  rw [hnext] at hnext₂
  rcases malloc_middle hg₂ hinit₂ hlo hhi t fun _ => ⟨none, none, none⟩ with
    ⟨_, hfull⟩ | ⟨s₃, v₃, b', hstep₃, hlive₃, hg₃, hinit₃, hmaps₃, hreq', hvia'⟩
  · exact absurd hfull (by rw [hnext₂]; decide)
  have hr₃ := hr₂.step ⟨hstep₃, hC _ _ _ _ (by decide)⟩
  have hb' : b' ∈ s₃.live := by
    rw [hlive₃]
    exact List.mem_cons_self
  rcases hvia' with ⟨hvia', _⟩ | ⟨hvia', _⟩
  · exact ⟨s₃, b', hr₃, hinit₃, hmaps₃.trans hmaps₂, hb', hvia', hreq'⟩
  · exact absurd hvia' (hg₃.new_of_pool hinit₃ hlive₃ hb hvia hreq hreq')

/-- From any state such requests use up the arena. The induction is on the pages that are left, and one more if
the pool may still serve a request. -/
theorem fails_after (t k : Nat) (hr : (system.restrict C).Reachable s) (hg : Good s.heap v s.live)
    (hinit : s.heap.arenaInit = true) (hk : pagesPerArena - v.arena.nextFreePage s.heap.os.bytes + 1 < k ∨
      pagesPerArena - v.arena.nextFreePage s.heap.os.bytes < k ∧ ∃ b ∈ s.live, b.via = .tlsf ∧ b.req = 262143) :
    ∃ s', (system.restrict C).Reachable s' ∧ s'.heap.arenaInit = true ∧
      ferrumMalloc s'.heap t 262143 ⟨none, none, none⟩ = .ok (s'.heap, 0, .bump) := by
  induction k generalizing s v with
  | zero => obtain hk | ⟨hk, _⟩ := hk <;> omega
  | succ k ih =>
    rcases malloc_middle hg hinit (n := 262143) (by decide) (by decide) t fun _ => ⟨none, none, none⟩ with
      ⟨hrun, _⟩ | ⟨s', v', b', hstep, hlive, hg', hinit', _, hreq', hvia'⟩
    · exact ⟨s, hr, hinit, hrun⟩
    have hr' := hr.step ⟨hstep, hC _ _ _ _ (by decide)⟩
    have hle := (hg'.arena hinit').slabs.inv.next_le
    obtain ⟨_, hnext⟩ | ⟨hvia', hnext⟩ := hvia'
    · exact ih hr' hg' hinit' (.inl (by omega))
    · obtain hk | ⟨_, b, hb, hvia, hreq⟩ := hk
      · refine ih hr' hg' hinit' (.inr ⟨by omega, b', ?_, hvia', hreq'⟩)
        rw [hlive]
        exact List.mem_cons_self
      · exact absurd hvia' (hg'.new_of_pool hinit' hlive hb hvia hreq hreq')

/-- **A process whose arena is used up** for requests of this size. -/
theorem exists_full (bytes : Mem) (t : Nat) {A : Nat} (hA : Grantable [] 2097152 A) :
    ∃ s, (system.restrict C).Reachable s ∧ s.heap.arenaInit = true ∧
      ferrumMalloc s.heap t 262143 ⟨none, none, none⟩ = .ok (s.heap, 0, .bump) := by
  obtain ⟨a, tlsf, m, rfl, hs, hstep⟩ := started_step bytes hA t
  have hr₀ : (system.restrict C).Reachable ⟨Heap.boot bytes, []⟩ := .init ⟨bytes, rfl⟩
  have hr₁ := hr₀.step ⟨hstep, hC _ _ _ _ (Nat.le_refl _)⟩
  exact fails_after hC t (pagesPerArena + 2) hr₁ (started_good hs) rfl (.inl (by omega))

end

/-! ## Small requests -/

/-- Behind `get_or_create` and an empty stack, a small request goes to the slab of the cache. -/
theorem ferrumMalloc_small (hinit : h.arenaInit = true) (hn : 0 < n) (hc : sizeToClass n = some c)
    {h₁ : Heap} {ans : Answers} (hget : getOrCreate h t ans.cache = (h₁, some p))
    (hempty : (h₁.caches p).remoteFrees = 0) {h₂ : Heap} {x : Nat}
    (halloc : cacheAlloc h₁ p c = .ok (h₂, x)) (hx : x ≠ 0) :
    ferrumMalloc h t n ans = .ok (h₂, x, .slab c) := by
  have hle : n ≤ 1024 := (sizeToClass_spec hc).2.2
  have hle' : n ≤ slabMaxSize := hle
  have hlt : ¬ n ≥ hugeAllocThreshold := by
    show ¬ 262144 ≤ n
    omega
  have hens : ensureInit h ans.arena = .ok h := by
    unfold ensureInit
    rw [hinit]
    rfl
  have hdrain : drainCache h₁ p = .ok h₁ := if_pos hempty
  unfold ferrumMalloc
  rw [if_neg (Nat.ne_of_gt hn)]
  simp only [hens, Exec.bind_ok, if_neg hlt, if_pos hle']
  unfold mallocSmall
  simp only [hc, hget, hdrain, halloc, Exec.bind_ok, Exec.pure_eq, if_pos hx]

/-- **The first free slot of the first listed page** is returned. -/
theorem ferrumMalloc_listed (hg : Good h v l) (hinit : h.arenaInit = true) (htls : h.tls t = p)
    (hp : p ≠ 0) (hempty : h.remote p = 0) (hn : 0 < n) (hc : sizeToClass n = some c)
    {rest js : List Nat} (hl : v.g.parts (some p, c) = v.arena.metaPtr i :: rest)
    (hfree : v.g.free i = j :: js) (ans : Answers) :
    ∃ s m, ferrumMalloc h t n ans =
        .ok (h.setSlab (some p) s m, v.arena.slotAddr i c j, .slab c) ∧
      Act t D E ⟨h, v, l⟩ ⟨h.setSlab (some p) s m,
        v.serve (v.g.take (some p) c i) p i (v.arena.slotAddr i c j),
        ⟨v.arena.slotAddr i c j, n, .slab c, slotSize c⟩ :: l⟩ := by
  have ha := hg.arena hinit
  have hget : getOrCreate h t ans.cache = (h, some p) := by
    unfold getOrCreate
    rw [if_neg (by rw [ha.ready]; nofun), htls]
    exact if_pos hp
  rcases cacheAlloc_spec hg hinit htls hp (sizeToClass_spec hc).1 with
    ⟨_, hnil, _⟩ | ⟨s, m, g, i', j', hs, halloc⟩
  · rw [hnil] at hl
    nomatch hl
  · have hserved := hs.served
    generalize hmeta : v.arena.nextFreePage h.os.bytes = next at hserved
    cases hserved with
    | listed hcls' hfree' hl' =>
      obtain rfl : i = i' := by
        have hptr : v.arena.metaPtr i = v.arena.metaPtr i' := (List.cons.inj (hl.symm.trans hl')).1
        rw [Arena.metaPtr_eq, Arena.metaPtr_eq] at hptr
        omega
      obtain rfl : j = j' := (List.cons.inj (hfree.symm.trans hfree')).1
      exact ⟨s, m, ferrumMalloc_small hinit hn hc hget hempty halloc (ha.slotAddr_ne i c j),
        .serve hs htls hc⟩
    | fresh hnil _ =>
      rw [hnil] at hl
      nomatch hl

/-- A thread that gets its cache finds no page in it. -/
theorem Good.parts_new (hg : Good h v l) (hinit : h.arenaInit = true) (hp : p ∉ v.made) (c : Nat) :
    v.g.parts (some p, c) = [] := by
  have ha := hg.arena hinit
  have hlist := ha.slabs.inv.lists.list (some p, c)
  have hhead : heads h.slabs (some p, c) = 0 := by
    show (h.caches p).slab.partialPages c = 0
    rw [(hg.threads.blank p hp).1]
    rfl
  rw [hhead] at hlist
  cases hparts : v.g.parts (some p, c) with
  | nil => rfl
  | cons q rest =>
    rw [hparts] at hlist
    exact absurd hlist.head.symm (hlist.ne_nul q List.mem_cons_self)

/-- The view after the first small request of a thread. -/
def View.first (v : View) (h : Heap) (p c : Nat) : View :=
  View.serve { v with made := p :: v.made }
    ((v.g.addPage v.arena (some p) c h.nextThreadId (v.arena.nextFreePage h.os.bytes)).take (some p) c
      (v.arena.nextFreePage h.os.bytes)) p (v.arena.nextFreePage h.os.bytes)
    (v.arena.slotAddr (v.arena.nextFreePage h.os.bytes) c 0)

/-- **The first small request of a thread** makes its cache and takes slot 0 of a new page. -/
theorem ferrumMalloc_first (hg : Good h v l) (hinit : h.arenaInit = true) (htls : h.tls t = 0)
    (hid : h.nextThreadId < maxThreads) (hgrant : Grantable h.os.maps 4096 p)
    (hdup : h.registry h.nextThreadId ≠ 0 → D) (hn : 0 < n) (hc : sizeToClass n = some c)
    (hroom : v.arena.nextFreePage h.os.bytes < pagesPerArena) (arena huge : Option Nat) :
    ∃ m s m', ferrumMalloc h t n ⟨arena, some p, huge⟩ =
        .ok ((h.create t p m).setSlab (some p) s m',
          v.arena.slotAddr (v.arena.nextFreePage h.os.bytes) c 0, .slab c) ∧
      Leads t D E ⟨h, v, l⟩ ⟨(h.create t p m).setSlab (some p) s m', v.first h p c,
        ⟨v.arena.slotAddr (v.arena.nextFreePage h.os.bytes) c 0, n, .slab c, slotSize c⟩ :: l⟩ := by
  have ha := hg.arena hinit
  have hlt := (sizeToClass_spec hc).1
  rcases getOrCreate_spec hinit ha.ready t (some p) with ⟨hne, _⟩ | ⟨hless, _⟩ | ⟨q, m, hq, hcr, hget⟩
  · exact absurd htls hne
  · exact absurd ⟨hid, p, rfl, hgrant⟩ hless.2
  obtain rfl := Option.some.inj hq
  have hact : Act t D E ⟨h, v, l⟩ ⟨h.create t p m, { v with made := p :: v.made }, l⟩ :=
    .create hcr hdup
  have hg₁ : Good (h.create t p m) { v with made := p :: v.made } l := (hact.kept hg).good
  have hp : p ≠ 0 := Nat.ne_of_gt hgrant.1
  have htls₁ : (h.create t p m).tls t = p := Function.update_self ..
  have hfresh : p ∉ v.made := fun hmem => hg.maps.base_ne hgrant (hg.threads.map p hmem) rfl
  have hnil := hg.parts_new hinit hfresh c
  have hcache : (h.create t p m).caches p = .new h.nextThreadId := Function.update_self ..
  have hempty : ((h.create t p m).caches p).remoteFrees = 0 := by
    rw [hcache]
    rfl
  -- the new mapping is no part of the arena, so the page counter stands where it stood
  have hnext : v.arena.nextFreePage (h.create t p m).os.bytes = v.arena.nextFreePage h.os.bytes := by
    refine ArenaSide.next_eq fun z hz => hcr.bytes fun hz' => ?_
    exact hg.fresh_not_own (r := ⟨p, 4096⟩) hinit hgrant hz' hz
  rcases cacheAlloc_spec hg₁ hinit htls₁ hp hlt with ⟨_, _, hfull⟩ | ⟨s, m', g, i, j, hs, halloc⟩
  · exact absurd hfull (by rw [hnext]; exact Nat.not_le_of_lt hroom)
  · have hserved := hs.served
    rw [hnext, hcache] at hserved
    generalize hmeta : v.arena.nextFreePage h.os.bytes = next at hserved
    cases hserved with
    | listed _ _ hl =>
      rw [hnil] at hl
      nomatch hl
    | fresh _ _ =>
      subst hmeta
      refine ⟨m, s, m', ferrumMalloc_small hinit hn hc hget hempty halloc
        ((hg₁.arena hinit).slotAddr_ne _ c 0), ?_⟩
      exact (Leads.act hg hact).trans (.act hg₁ (.serve hs htls₁ hc)) fun _ hb _ => hb

/-- After that request the page is listed, and slot 1 is its first free one. -/
theorem View.first_listed (hc : c < numSizeClasses) (hnil : v.g.parts (some p, c) = []) :
    (v.first h p c).g.parts (some p, c) = [v.arena.metaPtr (v.arena.nextFreePage h.os.bytes)] ∧
      ∃ js, (v.first h p c).g.free (v.arena.nextFreePage h.os.bytes) = 1 :: js := by
  obtain ⟨i, hi⟩ : ∃ i, i = v.arena.nextFreePage h.os.bytes := ⟨_, rfl⟩
  obtain ⟨g, hg⟩ : ∃ g, g = v.g.addPage v.arena (some p) c h.nextThreadId i := ⟨_, rfl⟩
  have hfirst : (v.first h p c).g = g.take (some p) c i := by rw [hg, hi]; rfl
  have hcount := (slots_of_lt hc).count_ge
  have hfree : g.free i = 0 :: 1 :: List.range' 2 (slots c - 2) := by
    rw [hg]
    refine (Function.update_self ..).trans ?_
    rw [List.range_eq_range', show slots c = slots c - 2 + 1 + 1 by omega, List.range'_succ,
      List.range'_succ]
    rfl
  have hparts : g.parts (some p, c) = [v.arena.metaPtr i] := by
    rw [hg]
    refine (Function.update_self ..).trans ?_
    rw [hnil]
  rw [hfirst, ← hi]
  unfold Ghost.take
  simp only [hfree, List.tail_cons, Function.update_self, reduceCtorEq, if_false, hparts, true_and]
  exact ⟨_, rfl⟩

/-- **A process after its first small request**: one thread has a cache and one slot of class `c`. -/
theorem exists_first {C : State → Event → Prop}
    (hC : ∀ s t n ans, n ≤ hugeAllocThreshold → (∀ k, s.heap.registry k = 0) →
      C s (.call t (.malloc n) ans)) (bytes : Mem) (t : Nat)
    {A : Nat} (hA : Grantable [] 2097152 A) (hp : Grantable [⟨A, 2097152⟩] 4096 p) (hn : 0 < n)
    (hc : sizeToClass n = some c) :
    ∃ a tlsf m m' s m'', a.base = A ∧ Sets (Heap.boot bytes) a tlsf m ∧
      (system.restrict C).Reachable ⟨(((Heap.boot bytes).setup a tlsf m).create t p m').setSlab (some p) s m'',
        [⟨a.slotAddr firstPage c 0, n, .slab c, slotSize c⟩]⟩ ∧
      Good ((((Heap.boot bytes).setup a tlsf m).create t p m').setSlab (some p) s m'')
        ((View.fresh a tlsf).first ((Heap.boot bytes).setup a tlsf m) p c)
        [⟨a.slotAddr firstPage c 0, n, .slab c, slotSize c⟩] := by
  obtain ⟨a, tlsf, m, rfl, hs, hstep⟩ := started_step _ hA t
  have hg : Good ((Heap.boot bytes).setup a tlsf m) (View.fresh a tlsf) [] := started_good hs
  have hid : ((Heap.boot bytes).setup a tlsf m).nextThreadId < maxThreads := Nat.zero_lt_succ 127
  have hnext : (View.fresh a tlsf).arena.nextFreePage ((Heap.boot bytes).setup a tlsf m).os.bytes =
    firstPage := hs.next
  have hle : n ≤ 1024 := (sizeToClass_spec hc).2.2
  obtain ⟨m', s, m'', hrun, hleads⟩ := ferrumMalloc_first (D := True) (E := Anywhere) (t := t) hg rfl rfl
    hid hp (fun _ => trivial) hn hc (by rw [hnext]; decide) none none
  rw [hnext] at hrun hleads
  have hg' := hleads.good hg
  refine ⟨a, tlsf, m, m', s, m'', rfl, hs, ?_, hg'⟩
  have hr₀ : (system.restrict C).Reachable ⟨Heap.boot bytes, []⟩ := .init ⟨bytes, rfl⟩
  have hr₁ := hr₀.step ⟨hstep, hC _ _ _ _ (Nat.le_refl _) fun _ => rfl⟩
  have hle' : n ≤ hugeAllocThreshold := Nat.le_trans hle (by decide)
  exact hr₁.step ⟨.malloc (s := Heap.started bytes a tlsf m) (fun _ => ⟨none, some p, none⟩) hrun hg',
    hC _ _ _ _ hle' fun _ => rfl⟩

/-- **A process after its second small request**: slot 1 comes after slot 0, and nothing is on a stack. -/
theorem exists_pair {C : State → Event → Prop}
    (hC : ∀ s t n ans, n ≤ hugeAllocThreshold → C s (.call t (.malloc n) ans)) (bytes : Mem) (hn : 0 < n)
    (hc : sizeToClass n = some c) :
    ∃ a h h', a.base = 2097152 ∧ (system.restrict C).Reachable ⟨h, [⟨a.slotAddr firstPage c 0, n, .slab c, slotSize c⟩]⟩ ∧
      (Call.malloc n).run h 1 (fun _ => ⟨none, none, none⟩) = .ok (h', a.slotAddr firstPage c 1, .slab c) ∧
      (system.restrict C).Reachable ⟨h', [⟨a.slotAddr firstPage c 1, n, .slab c, slotSize c⟩,
        ⟨a.slotAddr firstPage c 0, n, .slab c, slotSize c⟩]⟩ ∧
      h'.globalArena = some a ∧ h'.registry = Function.update (fun _ => 0) 0 4096 ∧ h'.remote 4096 = 0 := by
  obtain ⟨a, tlsf, m, m', slab, m'', hbase, hs, hr, hg⟩ := exists_first (C := C) (n := n) (c := c)
    (p := 4096) (A := 2097152) (fun s t n ans hn _ => hC s t n ans hn) bytes 1 (by decide) (by decide) hn hc
  obtain ⟨h₀, hh₀⟩ : ∃ h, h = (Heap.boot bytes).setup a tlsf m := ⟨_, rfl⟩
  rw [← hh₀] at hg hr
  have hnext : (View.fresh a tlsf).arena.nextFreePage h₀.os.bytes = firstPage := by
    rw [hh₀]
    exact hs.next
  obtain ⟨hparts, js, hfree⟩ := View.first_listed (v := View.fresh a tlsf) (h := h₀) (p := 4096)
    (sizeToClass_spec hc).1 rfl
  rw [hnext] at hparts hfree
  have htls : ((h₀.create 1 4096 m').setSlab (some 4096) slab m'').tls 1 = 4096 := by
    show Function.update h₀.tls 1 4096 1 = 4096
    rw [Function.update_self]
  have hempty : ((h₀.create 1 4096 m').setSlab (some 4096) slab m'').remote 4096 = 0 := by
    rw [Heap.remote_setSlab]
    show (Function.update h₀.caches 4096 (ThreadCache.new h₀.nextThreadId) 4096).remoteFrees = 0
    rw [Function.update_self]
    rfl
  obtain ⟨s', m₂, hrun, hact⟩ := ferrumMalloc_listed (t := 1) (D := True) (E := Anywhere) hg (by rw [hh₀]; rfl) htls
    (by decide) hempty hn hc hparts hfree ⟨none, none, none⟩
  have hle : n ≤ hugeAllocThreshold := Nat.le_trans (sizeToClass_spec hc).2.2 (by decide)
  have hr' := hr.step ⟨.malloc (fun _ => ⟨none, none, none⟩) hrun (hact.kept hg).good, hC _ _ _ _ hle⟩
  refine ⟨a, _, _, hbase, hr, hrun, hr', ?_, ?_, ?_⟩
  · rw [hh₀]
    rfl
  · rw [hh₀]
    rfl
  · exact (congrFun (Heap.remote_setSlab ..) 4096).trans hempty

theorem modest_of_le (s : State) (t n : Nat) (ans : Nat → Answers) (hn : n ≤ hugeAllocThreshold) :
    modest s (.call t (.malloc n) ans) := Nat.le_trans hn (by decide)

end FerrumAlloc
