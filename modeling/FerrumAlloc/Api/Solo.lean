/-
# FerrumAlloc.Api.Solo -- a call alone does what the function does

The functions of `Api.Model` and the programs of `Api.Programs` model the same code twice. Run without
interference, each program ends where the function ends, with the same result (`Call.solo`): the loop of
the drain goes round once for every call of `drainLoop`, and the compare-exchange of a push succeeds as soon as
it does not fail for no reason.

So complete calls in any order are one way to interleave threads (`Process.of_reachable`).
-/
import FerrumAlloc.Api.Process
import FerrumAlloc.Api.First

namespace FerrumAlloc

open Lib

variable {α : Type} {h h' : Heap} {t p n : Nat} {a : Arena} {r : Nat × Backend} {ans : Answers}
  {weak : Nat → Bool} {l l' : List Block}

namespace Proc

/-! ## Steps -/

theorem atomically_solo {k : Heap} {f : Heap → Exec (Heap × α)} {x : α} (hf : f h = .ok (k, x)) :
    Solo h (atomically f) k x := by
  refine .atom ?_
  simp only [hf]

theorem load_solo {f : Heap → α} {x : α} (hf : f h = x) : Solo h (load f) h x := by
  obtain rfl := hf
  exact atomically_solo rfl

theorem store_solo (f : Heap → Heap) : Solo h (store f) (f h) () := atomically_solo rfl

theorem ret_solo (x : α) : Solo h (pure x : Proc α) h x := .ret

theorem spinLock_solo (hrun : FerrumAlloc.spinLock h = .ok h') : Solo h spinLock h' () := by
  unfold FerrumAlloc.spinLock at hrun
  refine .atom ?_
  cases hlock : h.arenaLock with
  | true =>
    rw [hlock] at hrun
    nomatch hrun
  | false =>
    rw [hlock] at hrun
    obtain rfl := Except.ok.inj hrun
    rfl

theorem derefArena_solo (ha : derefGlobal h.globalArena = .ok a) : Solo h derefArena h a := by
  refine atomically_solo ?_
  rw [ha]
  rfl

/-! ## Initialisation -/

theorem initOnce_solo {answer : Option Nat} (hinit : h.arenaInit = false)
    (hrun : initGlobals h answer = .ok h') : Solo h (initOnce answer) h' () := by
  refine (load_solo hinit).bind ?_
  unfold initGlobals at hrun
  split at hrun
  · rename_i os harena
    obtain rfl := Except.ok.inj hrun
    refine (atomically_solo (x := false) ?_).bind (ret_solo ())
    unfold initStorage
    rw [harena]
  · rename_i arena os harena
    obtain ⟨h₁, htlsf, hrun⟩ := Exec.bind_eq_ok.mp hrun
    obtain rfl := Except.ok.inj hrun
    refine (atomically_solo (x := true) (k := h₁) ?_).bind (store_solo _)
    unfold initStorage
    rw [harena]
    simp only [htlsf, Exec.bind_ok, Exec.pure_eq]

/-- `ensure_init`. -/
theorem ensureInit_solo {answer : Option Nat} (hrun : FerrumAlloc.ensureInit h answer = .ok h') :
    Solo h (ensureInit answer) h' () := by
  unfold FerrumAlloc.ensureInit at hrun
  cases hinit : h.arenaInit with
  | true =>
    rw [hinit] at hrun
    obtain rfl := Except.ok.inj hrun
    exact (load_solo hinit).bind (ret_solo ())
  | false =>
    rw [hinit] at hrun
    obtain ⟨h₁, hlock, hrun⟩ := Exec.bind_eq_ok.mp hrun
    obtain ⟨h₂, hglobals, hrun⟩ := Exec.bind_eq_ok.mp hrun
    obtain rfl := Except.ok.inj hrun
    have hinit₁ : h₁.arenaInit = false := by
      unfold FerrumAlloc.spinLock at hlock
      split at hlock
      · nomatch hlock
      · obtain rfl := Except.ok.inj hlock
        exact hinit
    exact (load_solo hinit).bind ((spinLock_solo hlock).bind ((initOnce_solo hinit₁ hglobals).bind (store_solo _)))

/-- A thread without a cache takes an identifier, and registers a cache if it may have one. -/
theorem getOrCreate_fresh (hready : h.tlsReady = true) (h0 : h.tls t = 0) (answer : Option Nat) :
    FerrumAlloc.getOrCreate h t answer =
      if h.nextThreadId ≥ maxThreads then (h.attempt, none)
      else ((register h.attempt t h.nextThreadId answer).1,
        if (register h.attempt t h.nextThreadId answer).2 = 0 then none
        else some (register h.attempt t h.nextThreadId answer).2) := by
  unfold FerrumAlloc.getOrCreate
  rw [if_neg (not_not.mpr hready)]
  simp only [h0, ne_eq, not_true_eq_false, if_false]
  refine if_congr Iff.rfl rfl ?_
  unfold register
  simp only
  by_cases hq : (osAlloc answer pageSize h.os).1 = 0
  · have hq' : (osAlloc answer pageSize h.attempt.os).1 = 0 := hq
    simp only [if_pos hq, if_pos hq', if_true]
    rfl
  · have hq' : ¬ (osAlloc answer pageSize h.attempt.os).1 = 0 := hq
    simp only [if_neg hq, if_neg hq']
    rfl

theorem createCache_solo (hready : h.tlsReady = true) (h0 : h.tls t = 0) (answer : Option Nat) :
    Solo h (createCache t answer) (FerrumAlloc.getOrCreate h t answer).1
      (FerrumAlloc.getOrCreate h t answer).2 := by
  rw [getOrCreate_fresh hready h0]
  have hid : Solo h takeId h.attempt h.nextThreadId := atomically_solo rfl
  refine hid.bind ?_
  by_cases hmax : h.nextThreadId ≥ maxThreads
  · rw [if_pos hmax, if_pos hmax]
    exact ret_solo none
  · rw [if_neg hmax, if_neg hmax]
    exact (atomically_solo rfl).bind (ret_solo _)

/-- `get_or_create`. -/
theorem getOrCreate_solo (h : Heap) (t : Nat) (answer : Option Nat) :
    Solo h (getOrCreate t answer) (FerrumAlloc.getOrCreate h t answer).1
      (FerrumAlloc.getOrCreate h t answer).2 := by
  cases hready : h.tlsReady with
  | false =>
    have hnone : FerrumAlloc.getOrCreate h t answer = (h, none) := by
      unfold FerrumAlloc.getOrCreate
      rw [hready]
      rfl
    rw [hnone]
    exact (load_solo hready).bind (ret_solo none)
  | true =>
    refine (load_solo hready).bind ((load_solo rfl).bind ?_)
    by_cases h0 : h.tls t = 0
    · rw [if_neg (not_not.mpr h0)]
      exact createCache_solo hready h0 answer
    · have hsome : FerrumAlloc.getOrCreate h t answer = (h, some (h.tls t)) := by
        unfold FerrumAlloc.getOrCreate
        rw [if_neg (not_not.mpr hready)]
        exact if_pos h0
      rw [if_pos h0, hsome]
      exact ret_solo _

/-! ## The stack of a cache -/

/-- Attempts that fail for no reason, and the one that succeeds: the induction is on the number of attempts
before it. -/
theorem pushOnce_solo {k : Nat} (hweak : weak k = false) (q ptr : Nat) (h : Heap) (i d : Nat) (hk : i + d = k) :
    Solo h (.repeat (pushOnce weak q ptr) (i, (h.caches q).remoteFrees))
      ((h.setBytes (write64 h.os.bytes ptr (h.caches q).remoteFrees)).setCache q
        { h.caches q with remoteFrees := ptr }) () := by
  induction d generalizing h i with
  | zero =>
    obtain rfl : i = k := hk
    refine .last ((store_solo _).bind (atomically_solo ?_))
    exact if_pos ⟨rfl, hweak⟩
  | succ d ih =>
    cases hi : weak i with
    | false =>
      refine .last ((store_solo _).bind (atomically_solo ?_))
      exact if_pos ⟨rfl, hi⟩
    | true =>
      -- the link is written again, and is there already
      obtain ⟨h₁, hh₁⟩ : ∃ h₁, h₁ = h.setBytes (write64 h.os.bytes ptr (h.caches q).remoteFrees) := ⟨_, rfl⟩
      have hcaches : h₁.caches = h.caches := by rw [hh₁]; rfl
      have hsame : h₁.setBytes (write64 h₁.os.bytes ptr (h₁.caches q).remoteFrees) = h₁ := by
        rw [hcaches, hh₁]
        unfold Heap.setBytes
        simp only [write64_write64]
      have hagain := ih h₁ (i + 1) (by omega)
      rw [hsame, hcaches] at hagain
      rw [← hh₁]
      refine .round ((store_solo _).bind (atomically_solo ?_)) hagain
      rw [← hh₁, hcaches]
      refine if_neg fun hcas => ?_
      nomatch hi.symm.trans hcas.2

/-- `remote_free_push`. -/
theorem remoteFreePush_solo (hweak : ∃ k, weak k = false) (h : Heap) (id ptr : Nat) :
    Solo h (remoteFreePush weak id ptr) (FerrumAlloc.remoteFreePush h id ptr) () := by
  unfold remoteFreePush FerrumAlloc.remoteFreePush
  by_cases hid : id ≥ maxThreads
  · rw [if_pos hid, if_pos hid]
    exact ret_solo ()
  · rw [if_neg hid, if_neg hid]
    refine (load_solo rfl).bind ?_
    by_cases h0 : h.registry id = 0
    · simp only [if_pos h0]
      exact ret_solo ()
    · simp only [if_neg h0]
      obtain ⟨k, hk⟩ := hweak
      exact (load_solo rfl).bind (pushOnce_solo hk _ ptr h 0 k (Nat.zero_add k))

/-- Storing back what is there. -/
theorem setCacheSlab_self (h : Heap) (q : Nat) : h.setCacheSlab q (h.caches q).slab h.os.bytes = h := by
  unfold Heap.setCacheSlab Heap.setCache
  rw [Function.update_eq_self]
  rfl

theorem setCacheSlab_caches (h : Heap) (q : Nat) (s : SlabAllocator) (m : Mem) :
    (h.setCacheSlab q s m).caches q = { h.caches q with slab := s } := Function.update_self ..

theorem setCacheSlab_twice (h : Heap) (q : Nat) (s s' : SlabAllocator) (m m' : Mem) :
    (h.setCacheSlab q s m).setCacheSlab q s' m' = h.setCacheSlab q s' m' := by
  have hcache := setCacheSlab_caches h q s m
  unfold Heap.setCacheSlab Heap.setCache at hcache ⊢
  simp only [hcache]
  unfold Heap.setBytes
  simp only [Function.update_idem]

/-- The loop goes round as often as `drainLoop` calls itself. -/
theorem drainLoop_solo (q : Nat) (fuel : Nat) {head : Nat} {s : SlabAllocator} {m : Mem}
    (hrun : drainLoop a fuel head (h.caches q).slab h.os.bytes = .ok (s, m)) :
    Solo h (.repeat (drainNode q a) head) (h.setCacheSlab q s m) () := by
  have hlast : head = 0 → Solo h (.repeat (drainNode q a) head) h () := by
    rintro rfl
    exact .last (ret_solo _)
  induction fuel generalizing h head with
  | zero =>
    unfold drainLoop at hrun
    split at hrun
    · rename_i h0
      cases hrun
      rw [setCacheSlab_self]
      exact hlast h0
    · cases hrun
  | succ fuel ih =>
    unfold drainLoop at hrun
    by_cases h0 : head = 0
    · rw [if_pos h0] at hrun
      cases hrun
      rw [setCacheSlab_self]
      exact hlast h0
    · rw [if_neg h0] at hrun
      obtain ⟨⟨s₁, m₁⟩, hfree, hrun⟩ := Exec.bind_eq_ok.mp hrun
      have hcache := setCacheSlab_caches h q s₁ m₁
      have hrest : drainLoop a fuel (read64 h.os.bytes head) ((h.setCacheSlab q s₁ m₁).caches q).slab
          (h.setCacheSlab q s₁ m₁).os.bytes = .ok (s, m) := by
        rw [hcache]
        exact hrun
      have hnext := ih hrest fun h0' => by
        rw [h0']
        exact .last (ret_solo _)
      rw [setCacheSlab_twice] at hnext
      refine .round (c := read64 h.os.bytes head) ?_ hnext
      unfold drainNode
      rw [if_neg h0]
      refine (load_solo rfl).bind (atomically_solo ?_)
      simp only [hfree, Exec.bind_ok, Exec.pure_eq]

/-- The drain before an allocation. -/
theorem drainCache_solo {q : Nat} (hrun : FerrumAlloc.drainCache h q = .ok h') : Solo h (drainCache q) h' () := by
  unfold FerrumAlloc.drainCache at hrun
  refine (load_solo rfl).bind ?_
  by_cases h0 : (h.caches q).remoteFrees = 0
  · rw [if_pos h0] at hrun
    obtain rfl := Except.ok.inj hrun
    rw [if_pos h0]
    exact ret_solo ()
  · rw [if_neg h0] at hrun
    obtain ⟨h₁, hlock, hrun⟩ := Exec.bind_eq_ok.mp hrun
    obtain ⟨a, ha, hrun⟩ := Exec.bind_eq_ok.mp hrun
    obtain ⟨⟨tc, m⟩, hdrain, hrun⟩ := Exec.bind_eq_ok.mp hrun
    obtain rfl := Except.ok.inj hrun
    rw [if_neg h0]
    refine (spinLock_solo hlock).bind ((derefArena_solo ha).bind (Solo.bind (a := ()) ?_ (store_solo _)))
    unfold ThreadCache.drainRemoteFrees at hdrain
    obtain ⟨⟨s, m'⟩, hloop, hret⟩ := Exec.bind_eq_ok.mp hdrain
    cases hret
    -- the stack is taken down first
    obtain ⟨h₂, hh₂⟩ : ∃ h₂, h₂ = h₁.setCache q { h₁.caches q with remoteFrees := 0 } := ⟨_, rfl⟩
    have hcache : h₂.caches q = { h₁.caches q with remoteFrees := 0 } := by
      rw [hh₂]
      exact Function.update_self ..
    have hloop' : drainLoop a defaultArenaSize (h₁.caches q).remoteFrees (h₂.caches q).slab h₂.os.bytes =
        .ok (s, m) := by
      rw [hcache, hh₂]
      exact hloop
    have hsolo := drainLoop_solo q defaultArenaSize hloop'
    have hend : h₂.setCacheSlab q s m =
        (h₁.setCache q { h₁.caches q with slab := s, remoteFrees := 0 }).setBytes m := by
      unfold Heap.setCacheSlab
      rw [hcache, hh₂]
      unfold Heap.setCache
      simp only [Function.update_idem]
    rw [hend] at hsolo
    exact (atomically_solo (by rw [hh₂])).bind hsolo

/-! ## `ferrum_malloc` -/

/-- The slab allocation through a cache. -/
theorem cacheAlloc_solo {q c : Nat} (hrun : FerrumAlloc.cacheAlloc h q c = .ok (h', p)) :
    Solo h (cacheAlloc q c) h' p := by
  unfold FerrumAlloc.cacheAlloc at hrun
  obtain ⟨needsPage, hneeds, hrun⟩ := Exec.bind_eq_ok.mp hrun
  refine (atomically_solo (x := needsPage) (k := h) ?_).bind ?_
  · simp only [hneeds, Exec.bind_ok, Exec.pure_eq]
  · cases needsPage with
    | true =>
      obtain ⟨h₁, hlock, hrun⟩ := Exec.bind_eq_ok.mp hrun
      obtain ⟨a, ha, hrun⟩ := Exec.bind_eq_ok.mp hrun
      obtain ⟨⟨s, m, p'⟩, halloc, hret⟩ := Exec.bind_eq_ok.mp hrun
      cases hret
      refine (spinLock_solo hlock).bind ((derefArena_solo ha).bind
        ((atomically_solo (x := p) (k := h₁.setCacheSlab q s m) ?_).bind
          ((store_solo _).bind (ret_solo p))))
      simp only [halloc, Exec.bind_ok, Exec.pure_eq]
    | false =>
      obtain ⟨⟨s, m, p'⟩, halloc, hret⟩ := Exec.bind_eq_ok.mp hrun
      cases hret
      refine atomically_solo ?_
      simp only [halloc, Exec.bind_ok, Exec.pure_eq]

theorem mallocSmall_solo {answer : Option Nat} (hrun : FerrumAlloc.mallocSmall h t n answer = .ok (h', r)) :
    Solo h (mallocSmall t n answer) h' r := by
  unfold FerrumAlloc.mallocSmall at hrun
  unfold mallocSmall
  cases hc : sizeToClass n with
  | none =>
    rw [hc] at hrun
    cases hrun
    exact ret_solo _
  | some c =>
    rw [hc] at hrun
    have hcache := getOrCreate_solo h t answer
    obtain ⟨⟨h₁, o⟩, hget⟩ : ∃ r, r = FerrumAlloc.getOrCreate h t answer := ⟨_, rfl⟩
    rw [← hget] at hcache
    simp only [← hget] at hrun
    refine hcache.bind ?_
    cases o with
    | none =>
      cases hrun
      exact ret_solo _
    | some q =>
      obtain ⟨h₂, hdrain, hrun⟩ := Exec.bind_eq_ok.mp hrun
      obtain ⟨⟨h₃, p⟩, halloc, hret⟩ := Exec.bind_eq_ok.mp hrun
      cases hret
      exact (drainCache_solo hdrain).bind ((cacheAlloc_solo halloc).bind (ret_solo _))

/-- The slow path. -/
theorem mallocSlow_solo (hrun : FerrumAlloc.mallocSlow h n = .ok (h', r)) :
    Solo h (mallocSlow n) h' r := by
  unfold FerrumAlloc.mallocSlow at hrun
  obtain ⟨h₁, hlock, hrun⟩ := Exec.bind_eq_ok.mp hrun
  obtain ⟨a, ha, hrun⟩ := Exec.bind_eq_ok.mp hrun
  obtain ⟨⟨h₂, p⟩, htlsf, hrun⟩ := Exec.bind_eq_ok.mp hrun
  refine (spinLock_solo hlock).bind ((derefArena_solo ha).bind ((atomically_solo htlsf).bind ?_))
  simp only at hrun
  by_cases h0 : p = 0
  · rw [if_neg (not_not.mpr h0)] at hrun ⊢
    cases hrun
    exact (atomically_solo rfl).bind ((store_solo _).bind (ret_solo _))
  · rw [if_pos h0] at hrun ⊢
    cases hrun
    exact (store_solo _).bind (ret_solo _)

/-- `ferrum_malloc`. -/
theorem ferrumMalloc_solo (hrun : FerrumAlloc.ferrumMalloc h t n ans = .ok (h', r)) :
    Solo h (ferrumMalloc t n ans) h' r := by
  unfold FerrumAlloc.ferrumMalloc at hrun
  unfold ferrumMalloc
  by_cases h0 : n = 0
  · rw [if_pos h0] at hrun ⊢
    cases hrun
    exact ret_solo _
  · rw [if_neg h0] at hrun ⊢
    obtain ⟨h₁, hinit, hrun⟩ := Exec.bind_eq_ok.mp hrun
    refine (ensureInit_solo hinit).bind ?_
    by_cases hhuge : n ≥ hugeAllocThreshold
    · rw [if_pos hhuge] at hrun ⊢
      cases hrun
      exact atomically_solo rfl
    · rw [if_neg hhuge] at hrun ⊢
      have hrest : ∀ (h₂ : Heap) (r' : Nat × Backend), Solo h₁ (trySmall t n ans.cache) h₂ r' →
          (if r'.1 ≠ 0 then pure (h₂, r') else FerrumAlloc.mallocSlow h₂ n) = .ok (h', r) →
          Solo h₁ (trySmall t n ans.cache >>= fun r => if r.1 ≠ 0 then pure r else mallocSlow n) h' r := by
        intro h₂ r' hsmall hrun
        refine hsmall.bind ?_
        by_cases hr : r'.1 ≠ 0
        · rw [if_pos hr] at hrun ⊢
          cases hrun
          exact ret_solo _
        · rw [if_neg hr] at hrun ⊢
          exact mallocSlow_solo hrun
      by_cases hle : n ≤ slabMaxSize
      · simp only [if_pos hle] at hrun
        obtain ⟨⟨h₂, r'⟩, hsmall, hrun⟩ := Exec.bind_eq_ok.mp hrun
        refine hrest h₂ r' ?_ hrun
        unfold trySmall
        rw [if_pos hle]
        exact mallocSmall_solo hsmall
      · simp only [if_neg hle, Exec.pure_eq, Exec.bind_ok] at hrun
        refine hrest h₁ (0, .null) ?_ hrun
        unfold trySmall
        rw [if_neg hle]
        exact ret_solo _

/-! ## `ferrum_free` -/

/-- The slow path. -/
theorem freeSlow_solo (hrun : FerrumAlloc.freeSlow h p = .ok h') : Solo h (freeSlow p) h' () := by
  unfold FerrumAlloc.freeSlow at hrun
  obtain ⟨h₁, hlock, hrun⟩ := Exec.bind_eq_ok.mp hrun
  obtain ⟨a, ha, hrun⟩ := Exec.bind_eq_ok.mp hrun
  refine (spinLock_solo hlock).bind ((derefArena_solo ha).bind ?_)
  have hbody : ∃ h₂, freeLocked h₁ a p = .ok h₂ ∧ FerrumAlloc.spinUnlock h₂ = h' := by
    unfold freeLocked
    by_cases hin : a.contains p = true
    · simp only [if_pos hin] at hrun ⊢
      obtain ⟨h₂, hfree, hret⟩ := Exec.bind_eq_ok.mp hrun
      exact ⟨h₂, hfree, Except.ok.inj hret⟩
    · simp only [if_neg hin] at hrun ⊢
      exact ⟨_, rfl, Except.ok.inj hrun⟩
  obtain ⟨h₂, hfree, rfl⟩ := hbody
  refine (atomically_solo (x := ()) (k := h₂) ?_).bind (store_solo _)
  simp only [hfree, Exec.bind_ok, Exec.pure_eq]

/-- The fast path. -/
theorem freeFast_solo (hweak : ∃ k, weak k = false) {o : Option Nat} {o' : Option Heap}
    (hrun : FerrumAlloc.freeFast h o p = .ok o') :
    Solo h (freeFast weak o p) (o'.getD h) o'.isSome := by
  unfold FerrumAlloc.freeFast at hrun
  unfold freeFast
  cases o with
  | none =>
    cases hrun
    exact ret_solo false
  | some q =>
    obtain ⟨a, ha, hrun⟩ := Exec.bind_eq_ok.mp hrun
    refine (derefArena_solo ha).bind ?_
    simp only at hrun
    by_cases hin : a.contains p = true ∧ a.ptrToPageIndex p > 0
    · rw [if_pos hin]
      refine (load_solo rfl).bind ?_
      by_cases hcls : (readMeta h.os.bytes (a.metaPtr (a.ptrToPageIndex p))).sizeClass ≠ noClass
      · rw [if_pos ⟨hin.1, hin.2, hcls⟩] at hrun
        rw [if_pos hcls]
        refine (load_solo rfl).bind ?_
        split at hrun
        · rename_i hown
          obtain ⟨⟨s, m⟩, hfree, hret⟩ := Exec.bind_eq_ok.mp hrun
          cases hret
          rw [if_pos hown]
          refine (atomically_solo (x := ()) (k := h.setCacheSlab q s m) ?_).bind (ret_solo true)
          simp only [hfree, Exec.bind_ok, Exec.pure_eq]
        · rename_i hown
          rw [if_neg hown]
          split at hrun
          · rename_i hid
            cases hrun
            rw [if_pos hid]
            exact (remoteFreePush_solo hweak h _ p).bind (ret_solo true)
          · rename_i hid
            cases hrun
            rw [if_neg hid]
            exact ret_solo false
      · rw [if_neg fun hall => hcls hall.2.2] at hrun
        cases hrun
        rw [if_neg hcls]
        exact ret_solo false
    · rw [if_neg fun hall => hin ⟨hall.1, hall.2.1⟩] at hrun
      cases hrun
      rw [if_neg hin]
      exact ret_solo false

/-- `ferrum_free`. -/
theorem ferrumFree_solo (hweak : ∃ k, weak k = false) (hrun : FerrumAlloc.ferrumFree h t p ans = .ok h') :
    Solo h (ferrumFree weak t p ans) h' () := by
  unfold FerrumAlloc.ferrumFree at hrun
  unfold ferrumFree
  by_cases h0 : p = 0
  · rw [if_pos h0] at hrun ⊢
    cases hrun
    exact ret_solo ()
  · rw [if_neg h0] at hrun ⊢
    obtain ⟨h₁, hinit, hrun⟩ := Exec.bind_eq_ok.mp hrun
    simp only at hrun
    obtain ⟨o, hfast, hrun⟩ := Exec.bind_eq_ok.mp hrun
    refine (ensureInit_solo hinit).bind ((getOrCreate_solo h₁ t ans.cache).bind
      ((freeFast_solo hweak hfast).bind ?_))
    cases o with
    | none => exact freeSlow_solo hrun
    | some h₂ =>
      cases hrun
      exact ret_solo ()

/-! ## The other entry points -/

theorem zeroBlock_solo (h : Heap) (r : Nat × Backend) (n : Nat) :
    Solo h (zeroBlock n r) (FerrumAlloc.zeroBlock (h, r) n).1 (FerrumAlloc.zeroBlock (h, r) n).2 := by
  unfold FerrumAlloc.zeroBlock zeroBlock
  by_cases h0 : r.1 ≠ 0
  · simp only [if_pos h0]
    exact (store_solo _).bind (ret_solo r)
  · simp only [if_neg h0]
    exact ret_solo r

/-- An allocation that is zeroed. -/
theorem zeroed_solo {run : Exec (Heap × Nat × Backend)} {prog : Proc (Nat × Backend)}
    (hsolo : ∀ h₁ r₁, run = .ok (h₁, r₁) → Solo h prog h₁ r₁)
    (hrun : (do let r ← run; return FerrumAlloc.zeroBlock r n) = .ok (h', r)) :
    Solo h (prog >>= zeroBlock n) h' r := by
  obtain ⟨⟨h₁, r₁⟩, hmalloc, hret⟩ := Exec.bind_eq_ok.mp hrun
  have hzero := zeroBlock_solo h₁ r₁ n
  rw [Except.ok.inj hret] at hzero
  exact (hsolo h₁ r₁ hmalloc).bind hzero

/-- `calloc`. -/
theorem calloc_solo {nmemb size : Nat} (hrun : FerrumAlloc.calloc h t nmemb size ans = .ok (h', r)) :
    Solo h (calloc t nmemb size ans) h' r := by
  unfold FerrumAlloc.calloc at hrun
  unfold calloc
  simp only at hrun ⊢
  by_cases h0 : (checkedMul nmemb size).getD 0 = 0
  · rw [if_pos h0] at hrun ⊢
    cases hrun
    exact ret_solo _
  · rw [if_neg h0] at hrun ⊢
    exact zeroed_solo (fun _ _ => ferrumMalloc_solo) hrun

/-- `ferrum_calloc`. -/
theorem ferrumCalloc_solo {count size : Nat} (hrun : FerrumAlloc.ferrumCalloc h t count size ans = .ok (h', r)) :
    Solo h (ferrumCalloc t count size ans) h' r := by
  unfold FerrumAlloc.ferrumCalloc at hrun
  unfold ferrumCalloc
  cases hmul : checkedMul count size with
  | none =>
    rw [hmul] at hrun
    cases hrun
    exact ret_solo _
  | some total =>
    rw [hmul] at hrun
    exact zeroed_solo (fun _ _ => ferrumMalloc_solo) hrun

/-- `posix_memalign`. -/
theorem posixMemalign_solo {alignment : Nat} (hrun : memalignBlock h t alignment n ans = .ok (h', r)) :
    Solo h (posixMemalign t alignment n ans) h' r := by
  unfold memalignBlock at hrun
  unfold posixMemalign
  by_cases hbad : alignment % 8 ≠ 0 ∨ ¬ alignment.isPowerOfTwo
  · rw [if_pos hbad] at hrun ⊢
    cases hrun
    exact ret_solo _
  · rw [if_neg hbad] at hrun ⊢
    by_cases h16 : alignment ≤ 16
    · rw [if_pos h16] at hrun ⊢
      exact ferrumMalloc_solo hrun
    · rw [if_neg h16] at hrun ⊢
      by_cases hpage : alignment ≤ 4096
      · rw [if_pos hpage] at hrun ⊢
        exact atomically_solo hrun
      · rw [if_neg hpage] at hrun ⊢
        cases hrun
        exact ret_solo _

/-- `ferrum_usable_size`. -/
theorem ferrumUsableSize_solo (hrun : FerrumAlloc.ferrumUsableSize h p ans = .ok (h', n)) :
    Solo h (ferrumUsableSize p ans) h' n := by
  unfold FerrumAlloc.ferrumUsableSize at hrun
  unfold ferrumUsableSize
  by_cases h0 : p = 0
  · rw [if_pos h0] at hrun ⊢
    cases hrun
    exact ret_solo 0
  · rw [if_neg h0] at hrun ⊢
    obtain ⟨h₁, hinit, hrun⟩ := Exec.bind_eq_ok.mp hrun
    obtain ⟨h₂, hlock, hrun⟩ := Exec.bind_eq_ok.mp hrun
    obtain ⟨a, ha, hrun⟩ := Exec.bind_eq_ok.mp hrun
    obtain ⟨size, hsize, hret⟩ := Exec.bind_eq_ok.mp hrun
    cases hret
    refine (ensureInit_solo hinit).bind ((spinLock_solo hlock).bind ((derefArena_solo ha).bind
      ((atomically_solo (x := n) (k := h₂) ?_).bind ((store_solo _).bind (ret_solo n)))))
    simp only [hsize, Exec.bind_ok, Exec.pure_eq]

/-- `ferrum_realloc`. -/
theorem ferrumRealloc_solo (hweak : ∃ k, weak k = false) {ans₁ ans₂ ans₃ : Answers}
    (hrun : FerrumAlloc.ferrumRealloc h t p n ans₁ ans₂ ans₃ = .ok (h', r)) :
    Solo h (ferrumRealloc weak t p n ans₁ ans₂ ans₃) h' r := by
  unfold FerrumAlloc.ferrumRealloc at hrun
  unfold ferrumRealloc
  by_cases hp : p = 0
  · rw [if_pos hp] at hrun ⊢
    exact ferrumMalloc_solo hrun
  · rw [if_neg hp] at hrun ⊢
    by_cases hn : n = 0
    · rw [if_pos hn] at hrun ⊢
      obtain ⟨h₁, hfree, hret⟩ := Exec.bind_eq_ok.mp hrun
      cases hret
      exact (ferrumFree_solo hweak hfree).bind (ret_solo _)
    · rw [if_neg hn] at hrun ⊢
      obtain ⟨⟨h₁, u⟩, husable, hrun⟩ := Exec.bind_eq_ok.mp hrun
      obtain ⟨⟨h₂, r'⟩, hmalloc, hrun⟩ := Exec.bind_eq_ok.mp hrun
      refine (ferrumUsableSize_solo husable).bind ((ferrumMalloc_solo hmalloc).bind ?_)
      unfold moveBlock
      simp only at hrun
      by_cases h0 : r'.1 ≠ 0
      · rw [if_pos h0] at hrun ⊢
        obtain ⟨h₃, hmove, hret⟩ := Exec.bind_eq_ok.mp hrun
        cases hret
        exact (store_solo _).bind ((ferrumFree_solo hweak hmove).bind (ret_solo _))
      · rw [if_neg h0] at hrun ⊢
        cases hrun
        exact ret_solo _

end Proc

open Proc

/-- **A call alone does what the function does**, when the operating system answers the same, and however
often the compare-exchange fails for no reason. -/
theorem Call.solo {c : Call} {ans : Nat → Answers} (hweak : ∃ k, weak k = false)
    (hrun : c.run h t ans = .ok (h', r)) : Solo h (c.proc t ans weak) h' r := by
  cases c with
  | malloc n => exact ferrumMalloc_solo hrun
  | calloc nmemb size => exact calloc_solo hrun
  | ferrumCalloc count size => exact ferrumCalloc_solo hrun
  | posixMemalign alignment n => exact posixMemalign_solo ((posixMemalign_run h t alignment n (ans 0)).symm.trans hrun)
  | realloc b n => exact ferrumRealloc_solo hweak hrun
  | free b =>
    obtain ⟨h₁, hfree, hret⟩ := Exec.bind_eq_ok.mp hrun
    cases hret
    exact (ferrumFree_solo hweak hfree).bind (ret_solo _)
  | usableSize b =>
    obtain ⟨⟨h₁, u⟩, husable, hret⟩ := Exec.bind_eq_ok.mp hrun
    cases hret
    exact (ferrumUsableSize_solo husable).bind (ret_solo _)

/-! ## Complete calls are one way to interleave -/

/-- The process between calls. -/
def Process.quiet (h : Heap) (l : List Block) : Process := ⟨h, l, fun _ => none, none⟩

/-- What a call that runs on its own leaves to the other threads. -/
theorem Covered.solo {s : Process} {x : World} {r : Running} {p : Proc (Nat × Backend)} {v : Nat × Backend}
    (hsolo : Solo h p h' v) (hx : Covered s x) (hh : s.heap = h) (hc : s.calls t = some r) (hp : r.prog = p) :
    SameCaches h h' ∧ ∀ t', t' ≠ t → h'.tls t' = h.tls t' := by
  induction hsolo generalizing s x r with
  | ret => exact ⟨.refl _, fun _ _ => rfl⟩
  | tick htick _ ih =>
    subst hh hp
    obtain ⟨z, hz, hrely⟩ := hx.tick hc htick
    obtain ⟨hrest, hother⟩ := ih hz rfl (Function.update_self ..) rfl
    obtain ⟨hcaches, htls⟩ := hx.tick_caches hz hrely
    exact ⟨hcaches.trans hrest, fun t' hne => (hother t' hne).trans (htls t' hne)⟩

/-- A call may run on its own to its end. -/
theorem Process.run_solo {s : Process} {r : Running} {p : Proc (Nat × Backend)} {v : Nat × Backend}
    (hsolo : Solo h p h' v) (hr : (process.restrict Process.Orderly).Reachable s) (hh : s.heap = h)
    (hc : s.calls t = some r) (hp : r.prog = p) (hd : h'.Distinct) :
    ∃ o, (process.restrict Process.Orderly).Reachable
      ⟨h', s.live, Function.update s.calls t (some ⟨r.call, .ret v, r.before⟩), o⟩ := by
  induction hsolo generalizing s r with
  | @ret h v =>
    have hsame : (⟨r.call, .ret v, r.before⟩ : Running) = r := by rw [← hp]
    rw [hsame, ← hc, Function.update_eq_self, ← hh]
    exact ⟨s.owner, hr⟩
  | tick htick hrest ih =>
    subst hh hp
    obtain ⟨x, hx⟩ := reachable_covered hr
    have hsame := (hx.solo (.tick htick hrest) rfl hc rfl).1
    have hstep := hr.step ⟨Process.Step.tick hc htick, trivial, trivial, hsame.distinct hd⟩
    obtain ⟨o, hend⟩ := ih hstep rfl (Function.update_self ..) rfl hd
    rw [Function.update_idem] at hend
    exact ⟨o, hend⟩

/-- The call has returned. -/
theorem Process.run_returned {s : Process} {r : Running} {v : Nat × Backend} (hsolo : Solo s.heap r.prog h' v)
    (hr : (process.restrict Process.Orderly).Reachable s) (hc : s.calls t = some r) (hd : h'.Distinct) :
    ∃ s', (process.restrict Process.Orderly).Reachable s' ∧ s'.calls t = some ⟨r.call, .ret v, r.before⟩ := by
  obtain ⟨o, hend⟩ := run_solo hsolo hr rfl hc rfl hd
  exact ⟨_, hend, Function.update_self ..⟩

/-- The argument of a call is all that it may free. -/
theorem Call.gone_cases (c : Call) (p : Nat) : c.gone p = none ∨ c.gone p = c.arg := by
  cases c with
  | free b => exact .inr rfl
  | realloc b n =>
    by_cases h : n = 0 ∨ p ≠ 0
    · exact .inr (if_pos h)
    · exact .inl (if_neg h)
  | _ => exact .inl rfl

/-- A call that is not given a block leaves it alive. -/
theorem Call.mem_after_of_ne {c : Call} {b : Block} {l : List Block} (hb : b ∈ l) (hne : c.arg ≠ some b)
    (y : Heap × Nat × Backend) : b ∈ c.after l y := by
  have hfront : ∀ {l' : List Block}, b ∈ l' → b ∈ if y.2.1 = 0 then l' else newBlock y c.req :: l' := by
    intro l' hb'
    split
    · exact hb'
    · exact List.mem_cons_of_mem _ hb'
  have hgone : c.gone y.2.1 ≠ some b := by
    rcases c.gone_cases y.2.1 with hgone | hgone
    · rw [hgone]
      nofun
    · rw [hgone]
      exact hne
  unfold Call.after
  cases hc : c.gone y.2.1 with
  | none => exact hfront hb
  | some b' =>
    refine hfront ((List.mem_erase_of_ne ?_).mpr hb)
    rintro rfl
    exact hgone hc

/-- The blocks after a call are those that it hands back and those that it has not been given. -/
theorem Call.after_perm (c : Call) (harg : ∀ b, c.arg = some b → b ∈ l) (hp : l.Perm l')
    (r : Heap × Nat × Backend) : (c.after c.arg.toList r ++ Process.keep c l).Perm (c.after l' r) := by
  -- a new block stands in front on both sides
  have hfront : ∀ {rest rest' k : List Block}, (rest ++ k).Perm rest' →
      ((if r.2.1 = 0 then rest else newBlock r c.req :: rest) ++ k).Perm
        (if r.2.1 = 0 then rest' else newBlock r c.req :: rest') := by
    intro rest rest' k hrest
    by_cases h0 : r.2.1 = 0
    · rw [if_pos h0, if_pos h0]
      exact hrest
    · rw [if_neg h0, if_neg h0]
      exact hrest.cons _
  unfold after Process.keep
  refine hfront ?_
  cases hc : c.arg with
  | none =>
    have hgone : c.gone r.2.1 = none := (c.gone_cases r.2.1).elim id fun h => h.trans hc
    rw [hgone]
    exact hp
  | some b =>
    rcases c.gone_cases r.2.1 with hgone | hgone
    · rw [hgone]
      exact (List.perm_cons_erase (harg b hc)).symm.trans hp
    · rw [hgone, hc]
      show ([b].erase b ++ l.erase b).Perm (l'.erase b)
      rw [List.erase_cons_head]
      exact hp.erase b

/-- The start of a call is in order. -/
def Call.Orderly (c : Call) (h : Heap) (t : Nat) : Prop := c.InBounds ∧ (c.FreesSlot → h.tls t ≠ 0)

/-- One complete call, in the process of single steps. -/
theorem Process.quiet_call (hr : (process.restrict Process.Orderly).Reachable (Process.quiet h l)) {c : Call}
    (harg : ∀ b, c.arg = some b → b ∈ l) (hc : c.Orderly h t) {ans : Nat → Answers}
    (hrun : c.run h t ans = .ok (h', r)) (hlock : h'.arenaLock = false) (hd : h.Distinct) (hd' : h'.Distinct) :
    (process.restrict Process.Orderly).Reachable
      (Process.quiet h' (c.after c.arg.toList (h', r) ++ Process.keep c l)) := by
  have hstart : (process.restrict Process.Orderly).Reachable
      ((Process.quiet h l).enter t c ans fun _ => false) := hr.step ⟨.start rfl harg, hc.1, hc.2, hd⟩
  obtain ⟨o, hend⟩ := Process.run_solo (Call.solo ⟨0, rfl⟩ hrun) hstart rfl (Process.enter_calls ..) rfl hd'
  have hfinish := hend.step ⟨Process.Step.finish (Function.update_self ..) rfl, trivial, trivial, hd'⟩
  obtain ⟨x, hx⟩ := reachable_covered hfinish
  have ho : o = none := Option.isSome_eq_false_iff.mp (hx.lock_eq.symm.trans hlock) |> Option.isNone_iff_eq_none.mp
  subst ho
  have hcalls : ∀ r r' : Option Running, Function.update (Function.update (Function.update
      (fun _ => none : Nat → Option Running) t r) t r') t none = fun _ => none := fun r r' => by
    rw [Function.update_idem, Function.update_idem]
    exact Function.update_eq_self t _
  have hend := hcalls (some ⟨c, c.proc t ans fun _ => false, h.os.bytes⟩) (some ⟨c, .ret r, h.os.bytes⟩)
  unfold Process.quiet at hfinish ⊢
  rw [← hend]
  exact hfinish

/-- The calls of complete runs that are in order. -/
def orderlyCalls : State → Event → Prop := onCalls fun s t c _ => c.Orderly s.heap t

/-- Complete calls take no thread's cache away. -/
theorem Step.sameCaches {s s' : State} {e : Event} (hs : Step s e s') (he : inBounds s e) {w : View}
    (hg : Good s.heap w s.live) : SameCaches s.heap s'.heap := by
  cases hs with
  | call harg hrun =>
    rename_i t k ans r
    obtain ⟨v', hleads⟩ := (Call.leads hg k harg he t ans).of_run hrun
    refine hleads.path.invariant (I := fun c => SameCaches s.heap c.heap) (fun c c' hg hI ha => ?_)
      (fun c c' b _ hI hb => ?_) hg (.refl _)
    · exact hI.trans (ha.sameCaches hg)
    · cases hb
      exact hI
  | write hb hm => exact .of_ids (fun _ => rfl) rfl

/-- **Every run of complete calls is an interleaving**: what `system` reaches, `process` reaches too. -/
theorem Process.of_reachable {s : State} (hr : (system.restrict orderlyCalls).Reachable s) (hd : s.heap.Distinct) :
    ∃ l, l.Perm s.live ∧ (process.restrict Process.Orderly).Reachable (Process.quiet s.heap l) := by
  have hbounds : ∀ {s e}, orderlyCalls s e → FerrumAlloc.inBounds s e := fun {s e} he => by
    cases e with
    | call t c ans => exact he.1
    | write b m => trivial
  induction hr with
  | init h0 =>
    obtain ⟨bytes, rfl⟩ := h0
    exact ⟨[], .refl _, .init ⟨bytes, rfl⟩⟩
  | step hr he ih =>
    obtain ⟨w, hg⟩ := reachable_inBounds_good (hr.mono fun _ _ => hbounds)
    obtain ⟨w', hg'⟩ := reachable_inBounds_good ((hr.step he).mono fun _ _ => hbounds)
    obtain ⟨hstep, hc⟩ := he
    have hd₀ := (hstep.sameCaches (hbounds hc) hg).distinct hd
    obtain ⟨l, hperm, hl⟩ := ih hd₀
    cases hstep with
    | call harg hrun =>
      have harg' : ∀ b, _ = some b → b ∈ l := fun b hb => hperm.mem_iff.mpr (harg b hb)
      exact ⟨_, Call.after_perm _ harg' hperm _, Process.quiet_call hl harg' hc hrun hg'.lock hd₀ hd⟩
    | write hb hm =>
      exact ⟨l, hperm, hl.step ⟨Process.Step.write (hperm.mem_iff.mpr hb) hm, trivial, trivial, hd₀⟩⟩

/-- A process with one slot for 100 bytes, in the hands of a client; thread 1 alone has a cache. -/
theorem Process.exists_quiet : ∃ h b, (process.restrict Process.Orderly).Reachable (Process.quiet h [b]) ∧
    h.arenaInit = true ∧ h.Distinct ∧ h.tls 1 ≠ 0 := by
  obtain ⟨a, tlsf, m, m', slab, m'', _, _, hr, _⟩ := exists_first (C := orderlyCalls) (n := 100) (c := 8)
    (p := 4096) (A := 2097152) (fun _ _ _ _ _ _ => ⟨trivial, fun ⟨_, _, _, hno, _⟩ => nomatch hno⟩)
    (fun _ => 0) 1 (by decide) (by decide) (by decide) (by decide)
  have hd : ((((Heap.boot fun _ => 0).setup a tlsf m).create 1 4096 m').setSlab (some 4096) slab m'').Distinct := by
    have htls : ∀ t, t ≠ 1 →
        ((((Heap.boot fun _ => 0).setup a tlsf m).create 1 4096 m').setSlab (some 4096) slab m'').tls t = 0 :=
      fun t hne => Function.update_of_ne hne ..
    have hone : ∀ t, ((((Heap.boot fun _ => 0).setup a tlsf m).create 1 4096 m').setSlab (some 4096) slab m'').tls t ≠ 0 →
        t = 1 := fun t h0 => by
      by_contra hne
      exact h0 (htls t hne)
    exact fun t t' h0 h0' _ => (hone t h0).trans (hone t' h0').symm
  obtain ⟨l, hperm, hl⟩ := Process.of_reachable hr hd
  obtain rfl := List.perm_singleton.mp hperm
  exact ⟨_, _, hl, rfl, hd, nofun⟩

end FerrumAlloc
