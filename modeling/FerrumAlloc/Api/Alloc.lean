/-
# FerrumAlloc.Api.Alloc -- the allocating entry points, as acts

Each function returns and is a sequence of acts. The steps of `ferrum_malloc` come first: behind the drain
the slab, the pool, the page counter, the operating system. Every lemma has the shape "the run is `.ok`,
and it leads from the state before to the state after".
-/
import FerrumAlloc.Api.Drain

namespace FerrumAlloc

open Lib

variable {h : Heap} {v : View} {l : List Block} {t p c n : Nat} {D : Prop} {E : View → Nat → Prop} {m : Mem}

/-! ## The slab of a cache -/

/-- **The slab allocation through a cache** returns: a slot, or null when its list is empty and the arena
has no page left. -/
theorem cacheAlloc_spec (hg : Good h v l) (hinit : h.arenaInit = true) (htls : h.tls t = p) (hp : p ≠ 0)
    (hc : c < numSizeClasses) :
    (cacheAlloc h p c = .ok (h, 0) ∧ v.g.parts (some p, c) = [] ∧
      pagesPerArena ≤ v.arena.nextFreePage h.os.bytes) ∨
    ∃ s m g i j, Serves h v p c i j s m g ∧
      cacheAlloc h p c = .ok (h.setSlab (some p) s m, v.arena.slotAddr i c j) := by
  have ha := hg.arena hinit
  have hmade : p ∈ v.made := by
    rw [← htls]
    exact hg.threads.tls t (by rw [htls]; exact hp)
  have hid := (hg.threads.id p hmade).2.1
  have hneeds : (h.caches p).slab.allocNeedsPage c = .ok (decide (v.g.parts (some p, c) = [])) :=
    ha.slabs.inv.allocNeedsPage_spec hc (some p)
  unfold cacheAlloc
  rw [hneeds]
  by_cases hl : v.g.parts (some p, c) = []
  · rw [decide_eq_true hl, Heap.spinLock_eq hg.lock]
    have harena : h.locked.globalArena = some v.arena := ha.arena
    simp only [Exec.bind_ok, if_true, harena, derefGlobal]
    have hcases := ha.slabs.inv.alloc_spec hc (o := (h.caches p).id)
      (by unfold maxThreads at hid; omega) (some p)
    rcases hcases with ⟨_, hfull, hrun⟩ | ⟨s, m, g, i, j, hrun, hroom, hserved, hinv, hbytes⟩
    · left
      have hrun' : (h.locked.caches p).slab.alloc h.locked.os.bytes c v.arena (h.locked.caches p).id =
          .ok ((h.caches p).slab, h.os.bytes, 0) := hrun
      refine ⟨?_, hl, hfull⟩
      simp only [hrun', Exec.bind_ok, Exec.pure_eq]
      have hsame : h.setSlab (some p) (h.caches p).slab h.os.bytes = h := by
        show (h.setCache p (h.caches p)).setBytes h.os.bytes = h
        unfold Heap.setCache
        rw [Function.update_eq_self]
        rfl
      have hunlock := Heap.unlock_setSlab hg.lock (some p) (h.caches p).slab h.os.bytes
      rw [hsame] at hunlock
      exact congrArg (fun h' => Except.ok (h', 0)) hunlock
    · right
      have hrun' : (h.locked.caches p).slab.alloc h.locked.os.bytes c v.arena (h.locked.caches p).id =
          .ok (s, m, v.arena.slotAddr i c j) := hrun
      refine ⟨s, m, g, i, j, ⟨hinit, hmade, hc, hroom, hserved, hinv, hbytes⟩, ?_⟩
      simp only [hrun', Exec.bind_ok, Exec.pure_eq]
      exact congrArg (fun h' => Except.ok (h', v.arena.slotAddr i c j))
        (Heap.unlock_setSlab hg.lock (some p) s m)
  · right
    rw [decide_eq_false hl]
    obtain ⟨s, m, g, i, j, hrun, hserved, hinv, hbytes⟩ :=
      ha.slabs.inv.allocNoArena_spec hc (some p) (h.caches p).id hl
    have hrun' : (h.caches p).slab.allocNoArena h.os.bytes c = .ok (s, m, v.arena.slotAddr i c j) := hrun
    refine ⟨s, m, g, i, j, ⟨hinit, hmade, hc, .inr hl, hserved, hinv, hbytes⟩, ?_⟩
    simp only [Exec.bind_ok, Bool.false_eq_true, if_false, hrun', Exec.pure_eq]
    rfl

/-! ## Outcomes -/

/-- The result of an allocating call for `n` bytes: null and no new block, or a new live block. -/
def Outcome (t : Nat) (D : Prop) (E : View → Nat → Prop) (c : Conf) (n : Nat) (r : Heap × Nat × Backend) : Prop :=
  ∃ v', (r.2.1 = 0 ∧ Leads t D E c ⟨r.1, v', c.live⟩) ∨
    (r.2.1 ≠ 0 ∧ ∃ cap, Leads t D E c ⟨r.1, v', ⟨r.2.1, n, r.2.2, cap⟩ :: c.live⟩)

/-- Acts before the call that decides the outcome. -/
theorem Outcome.after {c c' : Conf} {r : Heap × Nat × Backend} (hl : Leads t D E c c')
    (hlive : c'.live = c.live) (ho : Outcome t D E c' n r) : Outcome t D E c n r := by
  obtain ⟨v', ⟨h0, hleads⟩ | ⟨hne, cap, hleads⟩⟩ := ho
  · rw [hlive] at hleads
    exact ⟨v', .inl ⟨h0, hl.trans hleads fun b hb _ => hlive ▸ hb⟩⟩
  · rw [hlive] at hleads
    exact ⟨v', .inr ⟨hne, cap, hl.trans hleads fun b hb _ => hlive ▸ hb⟩⟩

/-- An address inside the arena is not null. -/
theorem ArenaSide.slotAddr_ne (ha : ArenaSide h v) (i c j : Nat) : v.arena.slotAddr i c j ≠ 0 := by
  have hpos := ha.slabs.inv.arena.pos
  have hpage := Arena.pageAddr_eq v.arena i
  unfold Arena.slotAddr
  omega

/-! ## The steps of `ferrum_malloc` -/

/-- **Small requests.** Null here means that the slow path is next. -/
theorem mallocSmall_leads (hg : Good h v l) (hinit : h.arenaInit = true) (hn : n ≤ slabMaxSize)
    (answer : Option Nat) (hdup : TakesId h t answer → D) :
    ∃ r, mallocSmall h t n answer = .ok r ∧ r.1.arenaInit = true ∧ Outcome t D E ⟨h, v, l⟩ n r := by
  have hc := sizeToClass_of_le hn
  obtain ⟨c, hcdef⟩ : ∃ c, c = sizeClassLut n := ⟨_, rfl⟩
  rw [← hcdef] at hc
  obtain ⟨h₁, v₁, o, hrun, hleads, hinit₁, hsome⟩ :=
    readyCache_leads (D := D) (E := E) hg hinit t answer hdup
  rw [mallocSmall_eq h t n answer hc, hrun]
  simp only [Exec.bind_ok]
  cases o with
  | none => exact ⟨_, rfl, hinit₁, v₁, .inl ⟨rfl, hleads⟩⟩
  | some p =>
    obtain ⟨hp, htls⟩ := hsome p rfl
    have hg₁ : Good h₁ v₁ l := hleads.good hg
    rcases cacheAlloc_spec hg₁ hinit₁ htls hp (sizeToClass_spec hc).1 with
      ⟨halloc, _⟩ | ⟨s, m, g, i, j, hs, halloc⟩
    · simp only [halloc, Exec.bind_ok, Exec.pure_eq]
      exact ⟨_, rfl, hinit₁, v₁, .inl ⟨rfl, hleads⟩⟩
    · simp only [halloc, Exec.bind_ok, Exec.pure_eq]
      refine ⟨_, rfl, hinit₁, v₁.serve g p i (v₁.arena.slotAddr i c j),
        .inr ⟨(hg₁.arena hinit₁).slotAddr_ne i c j, slotSize c, ?_⟩⟩
      exact hleads.trans (.act hg₁ (.serve hs htls hc)) fun _ hb _ => hb

/-- **The slow path** is refused by the pool and by the page counter and changes nothing, or is served by
one of them. -/
theorem mallocSlow_spec (hg : Good h v l) (hinit : h.arenaInit = true) (hpos : 0 < n)
    (hlt : n < hugeAllocThreshold) :
    (mallocSlow h n = .ok (h, 0, .bump) ∧ Tlsf.NoFit v.L (Tlsf.adjusted n) ∧
      pagesPerArena < v.arena.nextFreePage h.os.bytes + (n + 4095) / 4096) ∨
    (∃ m, Issues h v n m ∧ Tlsf.NoFit v.L (Tlsf.adjusted n) ∧
      mallocSlow h n = .ok (h.setBytes m, v.arena.pageAddr (v.arena.nextFreePage h.os.bytes), .bump)) ∨
    ∃ tlsf m bs L p, Tlsf.Allocated v.tlsf h.os.bytes v.bs v.L n tlsf m bs L p ∧ p ≠ 0 ∧
      mallocSlow h n = .ok (h.setTlsf tlsf m, p, .tlsf) := by
  have ha := hg.arena hinit
  have hlt' : n < 262144 := hlt
  have hn : n ≤ usizeMax - 16 := by
    unfold usizeMax
    omega
  have harena : h.locked.globalArena = some v.arena := ha.arena
  unfold mallocSlow
  rw [Heap.spinLock_eq hg.lock]
  simp only [Exec.bind_ok, harena, derefGlobal]
  have htlsf : h.locked.globalTlsf = some v.tlsf := ha.tlsf
  unfold tlsfAlloc
  rw [htlsf]
  rcases Tlsf.alloc_spec ha.pool.inv hpos hn with ⟨hrun, hnofit⟩ | ⟨tlsf, m, bs, L, p, hrun, hal⟩
  · -- the pool has no block for the request
    have hrun' : Tlsf.alloc v.tlsf h.locked.os.bytes n = .ok (v.tlsf, h.os.bytes, 0) := hrun
    have hsame : { h.locked.setBytes h.os.bytes with globalTlsf := some v.tlsf } = h.locked := by
      rw [← htlsf]
      rfl
    have hneeded := Arena.pagesNeeded_eq hpos (by unfold pageSize; omega)
    simp only [hrun', Exec.bind_ok, Exec.pure_eq, hsame, ne_eq, not_true_eq_false, if_false]
    rcases Arena.alloc_spec v.arena h.os.bytes n with
      ⟨hnull, hfull⟩ | ⟨m, _, hroom, hissue, hnext, _, hout⟩
    · left
      have hnull' : v.arena.alloc h.locked.os.bytes n = (h.os.bytes, 0) := hnull
      have hunlock : spinUnlock (h.locked.setBytes h.os.bytes) = h :=
        Heap.unlock_setBytes hg.lock h.os.bytes
      rw [hneeded] at hfull
      refine ⟨?_, hnofit, hfull.resolve_left (Nat.ne_of_gt hpos)⟩
      rw [hnull']
      simp only [hunlock]
    · right
      left
      have hissue' : v.arena.alloc h.locked.os.bytes n =
          (m, v.arena.pageAddr (v.arena.nextFreePage h.os.bytes)) := hissue
      have hunlock : spinUnlock (h.locked.setBytes m) = h.setBytes m := Heap.unlock_setBytes hg.lock m
      rw [hneeded] at hroom hnext
      refine ⟨m, ⟨hinit, hpos, hlt, hissue, hroom, hnext, hout⟩, hnofit, ?_⟩
      rw [hissue']
      simp only [hunlock]
  · right
    right
    have hrun' : Tlsf.alloc v.tlsf h.locked.os.bytes n = .ok (tlsf, m, p) := hrun
    have hp : p ≠ 0 := by
      obtain ⟨x, _, hpx, _⟩ := hal.carve.used
      omega
    have hunlock : spinUnlock { h.locked.setBytes m with globalTlsf := some tlsf } = h.setTlsf tlsf m :=
      Heap.unlock_setTlsf hg.lock tlsf m
    refine ⟨tlsf, m, bs, L, p, hal, hp, ?_⟩
    simp only [hrun', Exec.bind_ok, Exec.pure_eq, hp, ne_eq, not_false_eq_true, if_true, hunlock]

/-- The slow path as acts. -/
theorem mallocSlow_leads (hg : Good h v l) (hinit : h.arenaInit = true) (hpos : 0 < n)
    (hlt : n < hugeAllocThreshold) :
    ∃ r, mallocSlow h n = .ok r ∧ r.1.arenaInit = true ∧ Outcome t D E ⟨h, v, l⟩ n r := by
  have hlt' : n < 262144 := hlt
  have hn : n ≤ usizeMax - 16 := by
    unfold usizeMax
    omega
  rcases mallocSlow_spec hg hinit hpos hlt with
    ⟨hrun, _⟩ | ⟨m, hi, _, hrun⟩ | ⟨tlsf, m, bs, L, p, hal, hp, hrun⟩
  · exact ⟨_, hrun, hinit, v, .inl ⟨rfl, .refl _⟩⟩
  · refine ⟨_, hrun, hinit, v, .inr ⟨?_, (n + 4095) / 4096 * 4096, .act hg (.issue hi)⟩⟩
    have hbase := (hg.arena hinit).slabs.inv.arena.pos
    have hpage := Arena.pageAddr_eq v.arena (v.arena.nextFreePage h.os.bytes)
    simp only
    omega
  · exact ⟨_, hrun, hinit, v.setPool tlsf bs L, .inr ⟨hp, Tlsf.usableSize m p,
      .act hg (.carve hinit hn hal)⟩⟩

/-- A huge request is refused and changes nothing, or is mapped. -/
theorem heapHugeAlloc_spec (h : Heap) (n : Nat) (answer : Option Nat) :
    (heapHugeAlloc h n answer = (h, 0, .huge) ∧ Refuses h.os.maps (hugeTotal n) answer) ∨
    ∃ base os, answer = some base ∧ Maps h n base os ∧
      heapHugeAlloc h n answer = (h.setOs os, base + 4096, .huge) := by
  unfold heapHugeAlloc
  rcases hugeAlloc_spec answer n h.os with
    ⟨hrun, hno⟩ | ⟨base, os, hans, hgrant, hrun, hmaps, hhuge, hbytes⟩
  · left
    rw [hrun]
    exact ⟨rfl, hno⟩
  · right
    rw [hrun]
    exact ⟨base, os, hans, ⟨hgrant, hmaps, hhuge, hbytes⟩, rfl⟩

/-- **A huge request** as acts. -/
theorem heapHugeAlloc_leads (hg : Good h v l) (n : Nat) (answer : Option Nat) :
    Outcome t D E ⟨h, v, l⟩ n (heapHugeAlloc h n answer) := by
  rcases heapHugeAlloc_spec h n answer with ⟨hrun, _⟩ | ⟨base, os, _, hm, hrun⟩
  · rw [hrun]
    exact ⟨v, .inl ⟨rfl, .refl _⟩⟩
  · rw [hrun]
    exact ⟨v, .inr ⟨Nat.succ_ne_zero _, hugeTotal n - 4096, .act hg (.map hm)⟩⟩

/-! ## `ferrum_malloc` -/

/-- There is no arena, and none is granted. -/
def Refused (h : Heap) (ans : Answers) : Prop := h.arenaInit = false ∧ ArenaRefused h ans.arena

/-- An allocating call faults for want of an arena, or returns null or a new block. -/
def Allocates (t : Nat) (D : Prop) (E : View → Nat → Prop) (c : Conf) (n : Nat) (ans : Answers)
    (run : Exec (Heap × Nat × Backend)) : Prop :=
  (run = .error .nullDeref ∧ Refused c.heap ans) ∨
    ∃ r, run = .ok r ∧ (c.heap.arenaInit = true → r.1.arenaInit = true) ∧ Outcome t D E c n r

/-- `ferrum_malloc` of a small or middle size, once the arena is there. -/
theorem mallocBelow_leads (hg : Good h v l) (hinit : h.arenaInit = true) (hpos : 0 < n)
    (hlt : n < hugeAllocThreshold) (answer : Option Nat)
    (hdup : n ≤ slabMaxSize → TakesId h t answer → D) :
    ∃ r, (do
        let (h, p, via) ← if n ≤ slabMaxSize then mallocSmall h t n answer else pure (h, 0, .null)
        if p ≠ 0 then return (h, p, via)
        else mallocSlow h n : Exec (Heap × Nat × Backend)) = .ok r ∧
      r.1.arenaInit = true ∧ Outcome t D E ⟨h, v, l⟩ n r := by
  by_cases hsmall : n ≤ slabMaxSize
  · rw [if_pos hsmall]
    obtain ⟨⟨h₁, p, via⟩, hrun, hinit₁, v₁, ho⟩ :=
      mallocSmall_leads (D := D) (E := E) hg hinit hsmall answer (hdup hsmall)
    simp only [hrun, Exec.bind_ok]
    rcases ho with ⟨h0, hleads⟩ | ⟨hne, cap, hleads⟩
    · -- no slot: the slow path is next
      have h0' : p = 0 := h0
      have hg₁ : Good h₁ v₁ l := hleads.good hg
      obtain ⟨r, hslow, hinit', ho⟩ := mallocSlow_leads (t := t) (D := D) (E := E) hg₁ hinit₁
        hpos hlt
      simp only [h0', ne_eq, not_true_eq_false, if_false]
      exact ⟨r, hslow, hinit', ho.after hleads rfl⟩
    · have hne' : p ≠ 0 := hne
      simp only [if_pos hne', Exec.pure_eq]
      exact ⟨_, rfl, hinit₁, v₁, .inr ⟨hne, cap, hleads⟩⟩
  · rw [if_neg hsmall]
    simp only [Exec.pure_eq, Exec.bind_ok, ne_eq, not_true_eq_false, if_false]
    exact mallocSlow_leads hg hinit hpos hlt

/-- Without an arena, the slow path dereferences a null pointer. -/
theorem mallocBelow_refused (hg : Good h v l) (hinit : h.arenaInit = false) (answer : Option Nat) :
    (do let (h, p, via) ← if n ≤ slabMaxSize then mallocSmall h t n answer else pure (h, 0, .null)
        if p ≠ 0 then return (h, p, via)
        else mallocSlow h n : Exec (Heap × Nat × Backend)) = .error .nullDeref := by
  have hb := hg.booting hinit
  have hslow : mallocSlow h n = .error .nullDeref := by
    unfold mallocSlow
    rw [Heap.spinLock_eq hg.lock]
    have harena : h.locked.globalArena = none := hb.arena
    simp only [Exec.bind_ok, harena, derefGlobal, Exec.bind_error]
  have hsmall : mallocSmall h t n answer = .ok (h, 0, .null) := by
    unfold mallocSmall getOrCreate
    cases sizeToClass n with
    | none => rfl
    | some c => rw [if_pos (by rw [hb.ready]; exact Bool.false_ne_true)]
  rw [hsmall, Exec.pure_eq, ite_self]
  simp only [Exec.bind_ok, ne_eq, not_true_eq_false, if_false]
  exact hslow

/-- **`ferrum_malloc`.** -/
theorem ferrumMalloc_leads (hg : Good h v l) (n : Nat) (ans : Answers)
    (hdup : 0 < n → n ≤ slabMaxSize → TakesId h t ans.cache → D) :
    Allocates t D E ⟨h, v, l⟩ n ans (ferrumMalloc h t n ans) := by
  unfold ferrumMalloc
  by_cases h0 : n = 0
  · rw [if_pos h0]
    exact .inr ⟨_, rfl, id, v, .inl ⟨rfl, .refl _⟩⟩
  · rw [if_neg h0]
    have hpos : 0 < n := Nat.pos_of_ne_zero h0
    rcases ensureInit_leads (D := D) (E := E) hg t ans.arena with
      ⟨hinit, hno, hrun⟩ | ⟨h₁, v₁, hrun, hleads, hinit₁, hid, _⟩
    · simp only [hrun, Exec.bind_ok]
      by_cases hhuge : n ≥ hugeAllocThreshold
      · rw [if_pos hhuge]
        exact .inr ⟨_, rfl, fun hinit' => absurd (hinit.symm.trans hinit') nofun,
          heapHugeAlloc_leads hg n ans.huge⟩
      · rw [if_neg hhuge]
        exact .inl ⟨mallocBelow_refused hg hinit ans.cache, hinit, hno⟩
    · have hg₁ : Good h₁ v₁ l := hleads.good hg
      simp only [hrun, Exec.bind_ok]
      by_cases hhuge : n ≥ hugeAllocThreshold
      · rw [if_pos hhuge]
        exact .inr ⟨_, rfl, fun _ => hinit₁, (heapHugeAlloc_leads hg₁ n ans.huge).after hleads rfl⟩
      · rw [if_neg hhuge]
        obtain ⟨r, hbelow, hinit', ho⟩ := mallocBelow_leads (E := E) hg₁ hinit₁ hpos
          (Nat.lt_of_not_le hhuge) ans.cache fun hle htakes => hdup hpos hle (hid _ htakes)
        exact .inr ⟨r, hbelow, fun _ => hinit', ho.after hleads rfl⟩

/-- **`ferrum_malloc` once the arena is there**, stage by stage. -/
theorem ferrumMalloc_eq (hinit : h.arenaInit = true) (hn : 0 < n) (ans : Answers) : ferrumMalloc h t n ans =
    if n ≥ hugeAllocThreshold then .ok (heapHugeAlloc h n ans.huge)
    else if n ≤ slabMaxSize then do
      let (h, o) ← readyCache h t ans.cache
      match o with
      | none => mallocSlow h n
      | some tc => do
        let (h, p) ← cacheAlloc h tc (sizeClassLut n)
        if p ≠ 0 then return (h, p, .slab (sizeClassLut n)) else mallocSlow h n
    else mallocSlow h n := by
  have hens : ensureInit h ans.arena = .ok h := if_pos hinit
  unfold ferrumMalloc
  rw [if_neg (Nat.ne_of_gt hn)]
  simp only [hens, Exec.bind_ok]
  by_cases hhuge : n ≥ hugeAllocThreshold
  · rw [if_pos hhuge, if_pos hhuge]
    rfl
  rw [if_neg hhuge, if_neg hhuge]
  by_cases hsmall : n ≤ slabMaxSize
  · rw [if_pos hsmall, if_pos hsmall, mallocSmall_eq h t n ans.cache (sizeToClass_of_le hsmall)]
    cases readyCache h t ans.cache with
    | error e => rfl
    | ok r =>
      obtain ⟨h', _ | tc⟩ := r
      · rfl
      · simp only [Exec.bind_ok]
        cases cacheAlloc h' tc (sizeClassLut n) with
        | error e => rfl
        | ok r => rfl
  · rw [if_neg hsmall, if_neg hsmall]
    simp only [Exec.pure_eq, Exec.bind_ok, ne_eq, not_true_eq_false, if_false]

/-! ## The other allocating calls -/

/-- Filling the bytes requested of a block stays inside of it. -/
theorem Good.fill_eqOn {b : Block} (hg : Good h v l) (hb : b ∈ l) (hreq : b.req ≤ 2 ^ 64 - 8192) (x : UInt8) :
    Set.EqOn (fill h.os.bytes b.ptr b.req x) h.os.bytes b.extentᶜ := by
  have hle : b.req ≤ b.cap := (hg.sized b hb).req_le fun _ => hreq
  refine eqOn_compl_mono (Lib.fill_eqOn _ _ _ _) fun z hz => ?_
  rw [Block.mem_extent]
  exact ⟨hz.1, Nat.lt_of_lt_of_le hz.2 (Nat.add_le_add_left hle _)⟩

/-- Zeroing the bytes requested. -/
theorem Outcome.zero {r : Heap × Nat × Backend} (hg : Good h v l)
    (ho : Outcome t D E ⟨h, v, l⟩ n r) (hn : n ≤ 2 ^ 64 - 8192) :
    Outcome t D E ⟨h, v, l⟩ n (zeroBlock r n) := by
  obtain ⟨v', ⟨h0, hleads⟩ | ⟨hne, cap, hleads⟩⟩ := ho
  · unfold zeroBlock
    rw [if_neg (not_not.mpr h0)]
    exact ⟨v', .inl ⟨h0, hleads⟩⟩
  · unfold zeroBlock
    rw [if_pos hne]
    have hg' : Good r.1 v' (⟨r.2.1, n, r.2.2, cap⟩ :: l) := hleads.good hg
    refine ⟨v', .inr ⟨hne, cap, hleads.store hg' List.mem_cons_self ?_ (hg'.fill_eqOn List.mem_cons_self hn 0)⟩⟩
    intro hmem
    exact ((List.pairwise_cons.mp hg'.apart).1 _ hmem).1 rfl

/-- Zeroing after `ferrum_malloc`. -/
theorem Allocates.zero {ans : Answers} {run : Exec (Heap × Nat × Backend)} (hg : Good h v l)
    (ha : Allocates t D E ⟨h, v, l⟩ n ans run) (hn : n ≤ 2 ^ 64 - 8192) :
    Allocates t D E ⟨h, v, l⟩ n ans (do let r ← run; return zeroBlock r n) := by
  rcases ha with ⟨hrun, hno⟩ | ⟨r, hrun, hinit, ho⟩
  · left
    rw [hrun]
    exact ⟨rfl, hno⟩
  · right
    rw [hrun]
    refine ⟨_, rfl, fun h' => ?_, ho.zero hg hn⟩
    have hkeep : (zeroBlock r n).1.arenaInit = r.1.arenaInit := by
      unfold zeroBlock
      split <;> rfl
    exact hkeep.trans (hinit h')

/-- Null, at no cost. -/
theorem Allocates.null (ans : Answers) : Allocates t D E ⟨h, v, l⟩ n ans (.ok (h, 0, .null)) :=
  .inr ⟨_, rfl, id, v, .inl ⟨rfl, .refl _⟩⟩

theorem checkedMul_cases (a b : Nat) :
    (2 ^ 64 ≤ a * b ∧ checkedMul a b = none) ∨ (a * b < 2 ^ 64 ∧ checkedMul a b = some (a * b)) := by
  unfold checkedMul
  by_cases hlt : a * b < 2 ^ 64
  · exact .inr ⟨hlt, if_pos hlt⟩
  · exact .inl ⟨Nat.le_of_not_lt hlt, if_neg hlt⟩

/-- **`calloc`.** A product that is not a `usize` gives null. -/
theorem calloc_leads (hg : Good h v l) (nmemb size : Nat) (ans : Answers)
    (hdup : TakesId h t ans.cache → D)
    (hn : nmemb * size < 2 ^ 64 → nmemb * size ≤ 2 ^ 64 - 8192) :
    Allocates t D E ⟨h, v, l⟩ (nmemb * size) ans (calloc h t nmemb size ans) := by
  unfold calloc
  rcases checkedMul_cases nmemb size with ⟨_, hmul⟩ | ⟨hlt, hmul⟩
  · rw [hmul]
    exact .null ans
  · simp only [hmul, Option.getD_some]
    by_cases h0 : nmemb * size = 0
    · rw [if_pos h0]
      exact .null ans
    · rw [if_neg h0]
      exact (ferrumMalloc_leads hg _ ans fun _ _ => hdup).zero hg (hn hlt)

/-- **`ferrum_calloc`.** -/
theorem ferrumCalloc_leads (hg : Good h v l) (count size : Nat) (ans : Answers)
    (hdup : TakesId h t ans.cache → D)
    (hn : count * size < 2 ^ 64 → count * size ≤ 2 ^ 64 - 8192) :
    Allocates t D E ⟨h, v, l⟩ (count * size) ans (ferrumCalloc h t count size ans) := by
  unfold ferrumCalloc
  rcases checkedMul_cases count size with ⟨_, hmul⟩ | ⟨hlt, hmul⟩
  · rw [hmul]
    exact .null ans
  · rw [hmul]
    exact (ferrumMalloc_leads hg _ ans fun _ _ => hdup).zero hg (hn hlt)

/-- The backend and the pointer of `posix_memalign`, without its return code. -/
def memalignBlock (h : Heap) (t alignment n : Nat) (ans : Answers) : Exec (Heap × Nat × Backend) :=
  if alignment % 8 ≠ 0 ∨ ¬ alignment.isPowerOfTwo then .ok (h, 0, .null)
  else if alignment ≤ 16 then ferrumMalloc h t n ans
  else if alignment ≤ 4096 then .ok (heapHugeAlloc h n ans.huge)
  else .ok (h, 0, .null)

/-- **`posix_memalign`.** -/
theorem memalignBlock_leads (hg : Good h v l) (alignment n : Nat) (ans : Answers)
    (hdup : TakesId h t ans.cache → D) :
    Allocates t D E ⟨h, v, l⟩ n ans (memalignBlock h t alignment n ans) := by
  unfold memalignBlock
  by_cases hbad : alignment % 8 ≠ 0 ∨ ¬ alignment.isPowerOfTwo
  · rw [if_pos hbad]
    exact .null ans
  · rw [if_neg hbad]
    by_cases h16 : alignment ≤ 16
    · rw [if_pos h16]
      exact ferrumMalloc_leads hg n ans fun _ _ => hdup
    · rw [if_neg h16]
      by_cases h4096 : alignment ≤ 4096
      · rw [if_pos h4096]
        exact .inr ⟨_, rfl, id, heapHugeAlloc_leads hg n ans.huge⟩
      · rw [if_neg h4096]
        exact .null ans

end FerrumAlloc
