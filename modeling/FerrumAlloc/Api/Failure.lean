/-
# FerrumAlloc.Api.Failure -- when `ferrum_malloc` returns null

Below the huge sizes a request passes three backends: the slab of the thread's cache, the pool, the page
counter. Each has its own notion of full, and null means that all three are. A backend that refuses leaves
no trace for the next one, so after a failed request the heap is the one that `get_or_create` and the
drain have left (`Quiet` says how little that changes).
-/
import FerrumAlloc.Api.First

namespace FerrumAlloc

open Lib

variable {h h₁ : Heap} {v : View} {l : List Block} {t n p : Nat} {o : Option Nat} {s : State}

/-! ## The three notions of full -/

/-- **No slot**: the thread has no cache, or the page list of its cache is empty and the arena has no page
left. -/
def NoSlot (h : Heap) (n : Nat) (o : Option Nat) : Prop :=
  ∀ tc, o = some tc → ∀ c a, sizeToClass n = some c → h.globalArena = some a →
    (h.caches tc).slab.partialPages c = 0 ∧ pagesPerArena - a.nextFreePage h.os.bytes = 0

/-- **No block**: every bin at or above the searched one is empty. -/
def NoBlock (h : Heap) (n : Nat) : Prop :=
  ∀ tlsf, h.globalTlsf = some tlsf → ∀ fl sl, Tlsf.BinLe (Tlsf.mappingSearch (Tlsf.adjusted n)).1
    (Tlsf.mappingSearch (Tlsf.adjusted n)).2 fl sl → tlsf.lists fl sl = 0

/-- **No pages**: fewer unissued pages than the request needs. -/
def NoPages (h : Heap) (n : Nat) : Prop :=
  ∀ a, h.globalArena = some a → pagesPerArena - a.nextFreePage h.os.bytes < (n + 4095) / 4096

/-- What `ferrum_malloc` of `n` bytes finds when it fails; `h₁` and `o` are the heap and the cache once the
cache is ready. -/
def MallocFails (h h₁ : Heap) (o : Option Nat) (n : Nat) (ans : Answers) : Prop :=
  (hugeAllocThreshold ≤ n ∧ Refuses h.os.maps (hugeTotal n) ans.huge) ∨
    (n < hugeAllocThreshold ∧ (slabMaxSize < n ∨ NoSlot h₁ n o) ∧ NoBlock h n ∧ NoPages h n)

/-- Slabs, pool and page counter are as they were, but for the cache `o`. -/
structure Quiet (h h' : Heap) (o : Option Nat) : Prop where
  arena : h'.globalArena = h.globalArena
  next : ∀ a, h.globalArena = some a → a.nextFreePage h'.os.bytes = a.nextFreePage h.os.bytes
  slab : h'.globalSlab = h.globalSlab
  tlsf : h'.globalTlsf = h.globalTlsf
  pool : ∀ tlsf, h.globalTlsf = some tlsf → Set.EqOn h'.os.bytes h.os.bytes (Set.Ico tlsf.poolStart tlsf.poolEnd)
  caches : ∀ q, o ≠ some q → h'.caches q = h.caches q

theorem Quiet.noBlock (hq : Quiet h h₁ o) : NoBlock h₁ n ↔ NoBlock h n := by
  unfold NoBlock
  rw [hq.tlsf]

theorem Quiet.noPages (hq : Quiet h h₁ o) : NoPages h₁ n ↔ NoPages h n := by
  unfold NoPages
  rw [hq.arena]
  refine forall_congr' fun a => forall_congr' fun ha => ?_
  rw [hq.next a ha]

/-! ## The cache of the thread -/

/-- The pool is the zone between its bounds. -/
theorem PoolSide.zone_pool {m : Mem} (hp : PoolSide m v) {z : Nat}
    (hz : z ∈ Set.Ico v.tlsf.poolStart v.tlsf.poolEnd) : v.arena.zone z = .pool := by
  rw [hp.start_eq, hp.stop_eq] at hz
  exact FerrumAlloc.zone_pool hz.1 hz.2

/-- A step that writes neither metadata nor pool, and changes nothing else but one cache. -/
theorem Good.quiet (hg : Good h v l) (hinit : h.arenaInit = true) (harena : h₁.globalArena = h.globalArena)
    (hslab : h₁.globalSlab = h.globalSlab) (htlsf : h₁.globalTlsf = h.globalTlsf)
    (hnext : v.arena.nextFreePage h₁.os.bytes = v.arena.nextFreePage h.os.bytes)
    (hpool : ∀ z, v.arena.zone z = .pool → h₁.os.bytes z = h.os.bytes z)
    (hcaches : ∀ q, o ≠ some q → h₁.caches q = h.caches q) : Quiet h h₁ o := by
  have ha := hg.arena hinit
  refine ⟨harena, fun a heq => ?_, hslab, htlsf, fun tlsf heq z hz => ?_, hcaches⟩
  · obtain rfl := Option.some.inj (ha.arena.symm.trans heq)
    exact hnext
  · obtain rfl := Option.some.inj (ha.tlsf.symm.trans heq)
    exact hpool z (ha.pool.zone_pool hz)

/-- **Getting the cache ready** is quiet. -/
theorem Good.readyCache_quiet (hg : Good h v l) (hinit : h.arenaInit = true) (t : Nat)
    (answer : Option Nat) :
    ∃ h₁ v₁ o, readyCache h t answer = .ok (h₁, o) ∧ Good h₁ v₁ l ∧ h₁.arenaInit = true ∧
      (o = none ↔ Cacheless h t answer) ∧ (∀ p, o = some p → p ≠ 0 ∧ h₁.tls t = p) ∧ Quiet h h₁ o := by
  have ha := hg.arena hinit
  rcases readyCache_spec hg hinit t answer with
    ⟨hless, hrun⟩ | ⟨hne, s, m, v', hrun, hd⟩ | ⟨p, m, hans, hc, hrun⟩
  · -- an identifier is used up
    refine ⟨h.attempt, v, none, hrun, (hg.attempt hinit).good, hinit, ⟨fun _ => hless, fun _ => rfl⟩, nofun,
      hg.quiet hinit rfl rfl rfl rfl (fun _ _ => rfl) fun _ _ => rfl⟩
  · -- the drain writes in the metadata and in slab pages
    have hg' := (hd.leads (D := True) (E := Anywhere) (t := t) hg rfl).good hg
    refine ⟨_, v', _, hrun, hg', hinit, ⟨nofun, fun hless => absurd hless.1 hne⟩, fun p hp => ?_,
      hg.quiet hinit rfl rfl rfl (hd.next_eq hg) (fun z hz => hd.bytes_eq hg (.inl hz)) fun q hq => ?_⟩
    · obtain rfl := Option.some.inj hp
      exact ⟨hne, rfl⟩
    · exact Function.update_of_ne (fun heq => hq (by rw [heq])) ..
  · -- the page of a new cache lies outside the arena
    have hout : ∀ z, v.arena.zone z ≠ .outside → m z = h.os.bytes z := by
      intro z hz
      apply hc.bytes
      intro hz'
      apply hz
      rw [zone_outside_iff]
      have hdisj := hc.grant.2.2.2.2 _ ha.map
      exact Region.Disjoint.not_mem hdisj.symm hz'
    refine ⟨_, _, _, hrun, (hg.create hc).good, hinit, ⟨nofun, fun hless => ?_⟩, fun q hq => ?_,
      hg.quiet hinit rfl rfl rfl ?_ (fun z hz => hout z (by rw [hz]; nofun)) fun q hq => ?_⟩
    · exact absurd ⟨hc.id, p, hans, hc.grant⟩ hless.2
    · obtain rfl := Option.some.inj hq
      exact ⟨Nat.ne_of_gt hc.grant.1, Function.update_self ..⟩
    · apply Arena.nextFreePage_of_eqOn
      intro z hz
      exact hout z (by rw [zone_header (Arena.arenaMetaBytes_subset hz)]; nofun)
    · exact Function.update_of_ne (fun heq => hq (by rw [heq])) ..

/-! ## The backends -/

/-- The slab refuses exactly when there is no slot, and then changes nothing. -/
theorem Good.cacheAlloc_null (hg : Good h v l) (hinit : h.arenaInit = true) (htls : h.tls t = p) (hp : p ≠ 0)
    {c : Nat} (hc : sizeToClass n = some c) :
    ∃ h' x, cacheAlloc h p c = .ok (h', x) ∧ (x = 0 ↔ NoSlot h n (some p)) ∧ (x = 0 → h' = h) := by
  have ha := hg.arena hinit
  have hle := ha.slabs.inv.next_le
  have hhead : (h.caches p).slab.partialPages c = 0 ↔ v.g.parts (some p, c) = [] :=
    ((ha.slabs.inv.lists.list (some p, c)).eq_nil_iff).symm
  rcases cacheAlloc_spec hg hinit htls hp (sizeToClass_spec hc).1 with
    ⟨hrun, hnil, hfull⟩ | ⟨s, m, g, i, j, hs, hrun⟩
  · refine ⟨h, 0, hrun, ⟨fun _ => ?_, fun _ => rfl⟩, fun _ => rfl⟩
    intro tc htc c' a hc' harena
    obtain rfl := Option.some.inj htc
    obtain rfl := Option.some.inj (hc.symm.trans hc')
    obtain rfl := Option.some.inj (ha.arena.symm.trans harena)
    exact ⟨hhead.mpr hnil, by omega⟩
  · have hne := ha.slotAddr_ne i c j
    refine ⟨_, _, hrun, ⟨fun h0 => absurd h0 hne, fun hno => ?_⟩, fun h0 => absurd h0 hne⟩
    obtain ⟨hnil, hfull⟩ := hno p rfl c v.arena hc ha.arena
    rcases hs.room with hroom | hroom
    · omega
    · exact absurd (hhead.mp hnil) hroom

/-- The slow path refuses exactly when there is no block and there are no pages. -/
theorem Good.mallocSlow_null (hg : Good h v l) (hinit : h.arenaInit = true) (hpos : 0 < n)
    (hlt : n < hugeAllocThreshold) :
    ∃ h' x via, mallocSlow h n = .ok (h', x, via) ∧ (x = 0 ↔ NoBlock h n ∧ NoPages h n) ∧
      (x = 0 → h' = h) := by
  have ha := hg.arena hinit
  have hle := ha.slabs.inv.next_le
  have hfit : NoBlock h n ↔ Tlsf.NoFit v.L (Tlsf.adjusted n) := by
    have hnil : ∀ fl sl, v.tlsf.lists fl sl = 0 ↔ v.L fl sl = [] :=
      fun fl sl => (ha.pool.inv.filed.dlist fl sl).eq_nil_iff.symm
    constructor
    · exact fun hno fl sl hbin => (hnil fl sl).mp (hno v.tlsf ha.tlsf fl sl hbin)
    · intro hno tlsf heq fl sl hbin
      obtain rfl := Option.some.inj (ha.tlsf.symm.trans heq)
      exact (hnil fl sl).mpr (hno fl sl hbin)
  have hpages : NoPages h n ↔ pagesPerArena < v.arena.nextFreePage h.os.bytes + (n + 4095) / 4096 := by
    constructor
    · intro hno
      have hlt := hno v.arena ha.arena
      omega
    · intro hlt a heq
      obtain rfl := Option.some.inj (ha.arena.symm.trans heq)
      omega
  rcases mallocSlow_spec hg hinit hpos hlt with
    ⟨hrun, hnofit, hfull⟩ | ⟨m, hi, hnofit, hrun⟩ | ⟨tlsf, m, bs, L, x, hal, hx, hrun⟩
  · exact ⟨h, 0, _, hrun, ⟨fun _ => ⟨hfit.mpr hnofit, hpages.mpr hfull⟩, fun _ => rfl⟩, fun _ => rfl⟩
  · have hne : v.arena.pageAddr (v.arena.nextFreePage h.os.bytes) ≠ 0 := by
      have hbase := ha.slabs.inv.arena.pos
      have hpage := Arena.pageAddr_eq v.arena (v.arena.nextFreePage h.os.bytes)
      omega
    refine ⟨_, _, _, hrun, ⟨fun h0 => absurd h0 hne, fun hno => ?_⟩, fun h0 => absurd h0 hne⟩
    exact absurd hi.room (Nat.not_le_of_lt (hpages.mp hno.2))
  · refine ⟨_, _, _, hrun, ⟨fun h0 => absurd h0 hx, fun hno => ?_⟩, fun h0 => absurd h0 hx⟩
    -- the block chosen lies in one of the bins that are empty
    obtain ⟨z, _, hchosen⟩ := hal.chosen
    have hhead := hchosen.head
    rw [hfit.mp hno.1 _ _ hchosen.le] at hhead
    nomatch hhead

/-! ## `ferrum_malloc` -/

/-- Below the huge sizes. -/
theorem Good.mallocBelow_null (hg : Good h v l) (hinit : h.arenaInit = true) (hpos : 0 < n)
    (hlt : n < hugeAllocThreshold) {answer : Option Nat} {v₁ : View} (hg₁ : Good h₁ v₁ l)
    (hinit₁ : h₁.arenaInit = true) (hready : readyCache h t answer = .ok (h₁, o)) (hq : Quiet h h₁ o)
    (hsome : ∀ p, o = some p → p ≠ 0 ∧ h₁.tls t = p) :
    ∃ h' x via, (do
        let (h, p, via) ← if n ≤ slabMaxSize then mallocSmall h t n answer else pure (h, 0, .null)
        if p ≠ 0 then return (h, p, via)
        else mallocSlow h n : Exec (Heap × Nat × Backend)) = .ok (h', x, via) ∧
      (x = 0 ↔ (slabMaxSize < n ∨ NoSlot h₁ n o) ∧ NoBlock h n ∧ NoPages h n) ∧
      (x = 0 → h' = if n ≤ slabMaxSize then h₁ else h) := by
  obtain ⟨h', x, via, hslow, hnull, hsame⟩ := hg₁.mallocSlow_null hinit₁ hpos hlt
  rw [hq.noBlock, hq.noPages] at hnull
  by_cases hsmall : n ≤ slabMaxSize
  · have hc := sizeToClass_of_le hsmall
    rw [if_pos hsmall, if_pos hsmall, mallocSmall_eq h t n answer hc, hready]
    have hnot : ¬ slabMaxSize < n := Nat.not_lt_of_le hsmall
    simp only [Exec.bind_ok, hnot, false_or]
    cases o with
    | none =>
      have hno : NoSlot h₁ n none := nofun
      simp only [Exec.bind_ok, ne_eq, not_true_eq_false, if_false]
      refine ⟨h', x, via, hslow, ?_, hsame⟩
      rw [hnull]
      exact ⟨fun hb => ⟨hno, hb⟩, fun hb => hb.2⟩
    | some q =>
      obtain ⟨hne, htls⟩ := hsome q rfl
      obtain ⟨h₂, y, halloc, hslot, hkeep⟩ := hg₁.cacheAlloc_null hinit₁ htls hne hc
      simp only [halloc, Exec.bind_ok, Exec.pure_eq]
      by_cases hy : y = 0
      · -- no slot: the slow path is next, on the same heap
        obtain rfl := hkeep hy
        simp only [hy, ne_eq, not_true_eq_false, if_false]
        refine ⟨h', x, via, hslow, ?_, hsame⟩
        rw [hnull]
        exact ⟨fun hb => ⟨hslot.mp hy, hb⟩, fun hb => hb.2⟩
      · simp only [if_pos (show y ≠ 0 from hy)]
        exact ⟨h₂, y, _, rfl, ⟨fun h0 => absurd h0 hy, fun hb => absurd (hslot.mpr hb.1) hy⟩,
          fun h0 => absurd h0 hy⟩
  · obtain ⟨h', x, via, hslow, hnull, hsame⟩ := hg.mallocSlow_null hinit hpos hlt
    rw [if_neg hsmall, if_neg hsmall]
    simp only [Exec.pure_eq, Exec.bind_ok, ne_eq, not_true_eq_false, if_false]
    refine ⟨h', x, via, hslow, ?_, hsame⟩
    rw [hnull]
    exact ⟨fun hb => ⟨.inl (Nat.lt_of_not_le hsmall), hb⟩, fun hb => hb.2⟩

/-- **`ferrum_malloc` fails exactly when every backend is full**, and a request that fails leaves slabs,
pool and page counter alone and the lock free. -/
theorem reachable_malloc_null (hr : (system.restrict inBounds).Reachable s) (hinit : s.heap.arenaInit = true)
    (hn : 1 ≤ n) (t : Nat) (ans : Answers) :
    ∃ h₁ o h' x via, readyCache s.heap t ans.cache = .ok (h₁, o) ∧
      (o = none ↔ Cacheless s.heap t ans.cache) ∧ Quiet s.heap h₁ o ∧
      ferrumMalloc s.heap t n ans = .ok (h', x, via) ∧ (x = 0 ↔ MallocFails s.heap h₁ o n ans) ∧
      (x = 0 → h' = (if n ≤ slabMaxSize then h₁ else s.heap) ∧ h'.arenaLock = false) := by
  obtain ⟨v, hg⟩ := reachable_inBounds_good hr
  obtain ⟨h₁, v₁, o, hready, hg₁, hinit₁, hnone, hsome, hq⟩ := hg.readyCache_quiet hinit t ans.cache
  have hens : ensureInit s.heap ans.arena = .ok s.heap := if_pos hinit
  refine ⟨h₁, o, ?_⟩
  unfold ferrumMalloc MallocFails
  rw [if_neg (by omega)]
  simp only [hens, Exec.bind_ok]
  by_cases hhuge : hugeAllocThreshold ≤ n
  · rw [if_pos hhuge]
    have hlarge : ¬ n ≤ slabMaxSize := Nat.not_le_of_lt (Nat.lt_of_lt_of_le (by decide) hhuge)
    have hnot : ¬ n < hugeAllocThreshold := Nat.not_lt_of_le hhuge
    rw [if_neg hlarge]
    simp only [hhuge, hnot, true_and, false_and, or_false, Exec.pure_eq]
    rcases heapHugeAlloc_spec s.heap n ans.huge with ⟨hrun, hno⟩ | ⟨base, os, hans, hm, hrun⟩
    · refine ⟨s.heap, 0, .huge, hready, hnone, hq, by rw [hrun], ⟨fun _ => hno, fun _ => rfl⟩,
        fun _ => ⟨rfl, hg.lock⟩⟩
    · have hne : base + 4096 ≠ 0 := Nat.succ_ne_zero _
      exact ⟨s.heap.setOs os, base + 4096, .huge, hready, hnone, hq, by rw [hrun],
        ⟨fun h0 => absurd h0 hne, fun hno => absurd hm.grant (hno base hans)⟩, fun h0 => absurd h0 hne⟩
  · have hlt : n < hugeAllocThreshold := Nat.lt_of_not_le hhuge
    rw [if_neg hhuge]
    obtain ⟨h', x, via, hrun, hnull, hsame⟩ :=
      hg.mallocBelow_null hinit hn hlt hg₁ hinit₁ hready hq hsome
    simp only [hhuge, hlt, true_and, false_and, false_or]
    refine ⟨h', x, via, hready, hnone, hq, hrun, hnull, fun h0 => ⟨hsame h0, ?_⟩⟩
    rw [hsame h0]
    split
    · exact hg₁.lock
    · exact hg.lock

/-- A request of half a pool fails once the pool and the pages are used up, and nothing has changed. -/
theorem reachable_malloc_null_full : ∃ (s : State) (h₁ h' : Heap) (o : Option Nat) (via : Backend),
    (system.restrict inBounds).Reachable s ∧ s.heap.arenaInit = true ∧
    ferrumMalloc s.heap 1 262143 ⟨none, none, none⟩ = .ok (h', 0, via) ∧
    MallocFails s.heap h₁ o 262143 ⟨none, none, none⟩ ∧ NoBlock s.heap 262143 ∧ NoPages s.heap 262143 ∧ h' = s.heap := by
  obtain ⟨s, hr, hinit, hfail⟩ := exists_full (C := inBounds) (fun _ _ _ _ _ => trivial) (fun _ => 0) 1 (A := 4096)
    (by decide)
  obtain ⟨h₁, o, h', x, via, _, _, _, hrun, hnull, hsame⟩ :=
    reachable_malloc_null (n := 262143) hr hinit (by decide) 1 ⟨none, none, none⟩
  obtain ⟨rfl, rfl, rfl⟩ : s.heap = h' ∧ 0 = x ∧ .bump = via := by
    simpa only [Except.ok.injEq, Prod.mk.injEq] using hfail.symm.trans hrun
  obtain ⟨hhuge, _⟩ | ⟨_, _, hblock, hpages⟩ := hnull.mp rfl
  · exact absurd hhuge (by decide)
  · exact ⟨s, h₁, s.heap, o, .bump, hr, hinit, hfail, hnull.mp rfl, hblock, hpages, rfl⟩

end FerrumAlloc
