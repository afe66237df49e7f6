/-
# FerrumAlloc.Api.Survival -- when initialisation fails

`ensure_init` returns nothing, so a caller cannot see that the operating system has refused the arena. What
happens next depends on the entry point: the huge path needs no arena, every other path takes the lock and
dereferences `GLOBAL_ARENA`. `reachable_survives` draws the line: a call survives unless it is one of
those, the arena is not there yet, and the mapping is refused once more.

A call that survives leaves the globals alone or completes them, and completes them once.
-/
import FerrumAlloc.Api.Sizes

namespace FerrumAlloc

open Lib

variable {h h' : Heap} {v : View} {l : List Block} {b : Block} {t n k : Nat} {s : State} {c : Call}
  {ans : Nat → Answers} {a : Option Nat} {r : Heap × Nat × Backend}

/-! ## What a call needs -/

namespace Call

/-- The size with which the call runs `ferrum_malloc` before anything else, and the number of its answers. -/
def mallocs : Call → Option (Nat × Nat)
  | malloc n => some (n, 0)
  | calloc nmemb size => (checkedMul nmemb size).map fun n => (n, 0)
  | ferrumCalloc count size => (checkedMul count size).map fun n => (n, 0)
  | posixMemalign alignment n =>
    if alignment % 8 ≠ 0 ∨ ¬ alignment.isPowerOfTwo ∨ 16 < alignment then none else some (n, 0)
  | realloc none n => some (n, 1)
  | _ => none

/-- What is done to the block that `ferrum_malloc` has returned. -/
def finish (n : Nat) (r : Heap × Nat × Backend) : Call → Heap × Nat × Backend
  | calloc _ _ | ferrumCalloc _ _ => zeroBlock r n
  | _ => r

/-- The operating system's answer at the first `ensure_init` of the call, if it gets to one. -/
def starts (ans : Nat → Answers) : Call → Option (Option Nat)
  | realloc (some _) n => some (if n = 0 then (ans 2).arena else (ans 0).arena)
  | free b => b.map fun _ => (ans 0).arena
  | usableSize b => b.map fun _ => (ans 0).arena
  | c => c.mallocs.bind fun m => if m.1 = 0 then none else some (ans m.2).arena

/-- **The call uses the arena**: it passes a block, or asks for less than a huge block. -/
def Needs (c : Call) : Prop :=
  c.arg.isSome ∨ ∃ m, c.mallocs = some m ∧ 0 < m.1 ∧ m.1 < hugeAllocThreshold

/-- The answer to the huge allocation of a call that passes no block. -/
def hugeAnswer (ans : Nat → Answers) : Call → Option Nat
  | realloc _ _ => (ans 1).huge
  | _ => (ans 0).huge

end Call

/-- **The arena is missing, needed, and refused.** -/
def Unserved (h : Heap) (c : Call) (ans : Nat → Answers) : Prop :=
  h.arenaInit = false ∧ c.Needs ∧ ∃ a, c.starts ans = some a ∧ ArenaRefused h a

/-! ## The entry points behind `ensure_init` -/

theorem ferrumMalloc_ensured {ans : Answers} (hn : n ≠ 0) (hens : ensureInit h ans.arena = .ok h')
    (hinit : h'.arenaInit = true) : ferrumMalloc h t n ans = ferrumMalloc h' t n ans := by
  have hens' : ensureInit h' ans.arena = .ok h' := if_pos hinit
  unfold ferrumMalloc
  rw [if_neg hn, if_neg hn, hens, hens']

theorem ferrumFree_ensured {ans : Answers} {p : Nat} (hp : p ≠ 0)
    (hens : ensureInit h ans.arena = .ok h') (hinit : h'.arenaInit = true) :
    ferrumFree h t p ans = ferrumFree h' t p ans := by
  have hens' : ensureInit h' ans.arena = .ok h' := if_pos hinit
  unfold ferrumFree
  rw [if_neg hp, if_neg hp, hens, hens']

theorem ferrumUsableSize_ensured {ans : Answers} {p : Nat} (hp : p ≠ 0)
    (hens : ensureInit h ans.arena = .ok h') (hinit : h'.arenaInit = true) :
    ferrumUsableSize h p ans = ferrumUsableSize h' p ans := by
  have hens' : ensureInit h' ans.arena = .ok h' := if_pos hinit
  unfold ferrumUsableSize
  rw [if_neg hp, if_neg hp, hens, hens']

/-- Without an arena only huge requests are tried. -/
theorem ferrumMalloc_refused {ans : Answers} (hg : Good h v l) (hinit : h.arenaInit = false) (hn : n ≠ 0)
    (hens : ensureInit h ans.arena = .ok h) : ferrumMalloc h t n ans =
      if n ≥ hugeAllocThreshold then .ok (heapHugeAlloc h n ans.huge) else .error .nullDeref := by
  unfold ferrumMalloc
  rw [if_neg hn]
  simp only [hens, Exec.bind_ok]
  by_cases hhuge : n ≥ hugeAllocThreshold
  · rw [if_pos hhuge, if_pos hhuge]
    rfl
  · rw [if_neg hhuge, if_neg hhuge]
    exact mallocBelow_refused hg hinit ans.cache

theorem ferrumFree_refused {ans : Answers} (hg : Good h v l) (hinit : h.arenaInit = false) (hb : b ∈ l)
    (hens : ensureInit h ans.arena = .ok h) : ferrumFree h t b.ptr ans = .error .nullDeref := by
  have hbt := hg.booting hinit
  have hnone : getOrCreate h t ans.cache = (h, none) := by
    unfold getOrCreate
    rw [if_pos (by rw [hbt.ready]; nofun)]
  have harena : h.locked.globalArena = none := hbt.arena
  unfold ferrumFree
  rw [if_neg (hg.ptr_ne hb)]
  simp only [hens, Exec.bind_ok, hnone, freeFast, freeSlow, Heap.spinLock_eq hg.lock, harena, derefGlobal,
    Exec.bind_error]

theorem ferrumUsableSize_refused {ans : Answers} (hg : Good h v l) (hinit : h.arenaInit = false)
    (hb : b ∈ l) (hens : ensureInit h ans.arena = .ok h) :
    ferrumUsableSize h b.ptr ans = .error .nullDeref := by
  have harena : h.locked.globalArena = none := (hg.booting hinit).arena
  unfold ferrumUsableSize
  rw [if_neg (hg.ptr_ne hb)]
  simp only [hens, Exec.bind_ok, Heap.spinLock_eq hg.lock, harena, derefGlobal, Exec.bind_error]

/-! ## Calls -/

namespace Call

/-- Calls that begin with `ferrum_malloc`. -/
theorem run_mallocs (hm : c.mallocs = some (n, k)) (h : Heap) (t : Nat) (ans : Nat → Answers) :
    c.run h t ans = (do let r ← ferrumMalloc h t n (ans k); return c.finish n r) := by
  cases c with
  | malloc m =>
    obtain ⟨rfl, rfl⟩ := Prod.mk.inj (Option.some.inj hm)
    exact (bind_pure _).symm
  | calloc nmemb size =>
    rcases checkedMul_cases nmemb size with ⟨_, hmul⟩ | ⟨_, hmul⟩
    · simp only [mallocs, hmul, Option.map_none, reduceCtorEq] at hm
    · simp only [mallocs, hmul, Option.map_some, Option.some.injEq, Prod.mk.injEq] at hm
      obtain ⟨rfl, rfl⟩ := hm
      show FerrumAlloc.calloc h t nmemb size (ans 0) = _
      unfold FerrumAlloc.calloc
      simp only [hmul, Option.getD_some]
      by_cases h0 : nmemb * size = 0
      · rw [if_pos h0, h0]
        rfl
      · rw [if_neg h0]
        rfl
  | ferrumCalloc count size =>
    rcases checkedMul_cases count size with ⟨_, hmul⟩ | ⟨_, hmul⟩
    · simp only [mallocs, hmul, Option.map_none, reduceCtorEq] at hm
    · simp only [mallocs, hmul, Option.map_some, Option.some.injEq, Prod.mk.injEq] at hm
      obtain ⟨rfl, rfl⟩ := hm
      show FerrumAlloc.ferrumCalloc h t count size (ans 0) = _
      unfold FerrumAlloc.ferrumCalloc
      simp only [hmul]
      rfl
  | posixMemalign alignment m =>
    have hrun : (Call.posixMemalign alignment m).run h t ans = memalignBlock h t alignment m (ans 0) :=
      posixMemalign_run h t alignment m (ans 0)
    unfold mallocs at hm
    simp only [ite_eq_iff, reduceCtorEq, and_false, false_or, Option.some.injEq, Prod.mk.injEq] at hm
    obtain ⟨hbad, rfl, rfl⟩ := hm
    rw [hrun]
    unfold memalignBlock
    rw [if_neg fun h => hbad (h.elim .inl fun h => .inr (.inl h)),
      if_pos (Nat.le_of_not_lt fun h => hbad (.inr (.inr h)))]
    exact (bind_pure _).symm
  | realloc o m =>
    cases o with
    | none =>
      obtain ⟨rfl, rfl⟩ := Prod.mk.inj (Option.some.inj hm)
      exact (bind_pure _).symm
    | some b => nomatch hm
  | free o => nomatch hm
  | usableSize o => nomatch hm

/-- Calls that neither pass a block nor get to `ferrum_malloc`: at most a huge block is mapped. -/
theorem run_other (hm : c.mallocs = none) (harg : c.arg = none) (h : Heap) (t : Nat)
    (ans : Nat → Answers) : c.run h t ans = .ok (h, 0, .null) ∨
      c.run h t ans = .ok (heapHugeAlloc h c.req (c.hugeAnswer ans)) := by
  cases c with
  | malloc m => nomatch hm
  | calloc nmemb size =>
    rcases checkedMul_cases nmemb size with ⟨_, hmul⟩ | ⟨_, hmul⟩
    · left
      show FerrumAlloc.calloc h t nmemb size (ans 0) = _
      unfold FerrumAlloc.calloc
      rw [hmul]
      rfl
    · simp only [mallocs, hmul, Option.map_some, reduceCtorEq] at hm
  | ferrumCalloc count size =>
    rcases checkedMul_cases count size with ⟨_, hmul⟩ | ⟨_, hmul⟩
    · left
      show FerrumAlloc.ferrumCalloc h t count size (ans 0) = _
      unfold FerrumAlloc.ferrumCalloc
      rw [hmul]
    · simp only [mallocs, hmul, Option.map_some, reduceCtorEq] at hm
  | posixMemalign alignment m =>
    have hrun : (Call.posixMemalign alignment m).run h t ans = memalignBlock h t alignment m (ans 0) :=
      posixMemalign_run h t alignment m (ans 0)
    rw [hrun]
    unfold memalignBlock
    by_cases hbad : alignment % 8 ≠ 0 ∨ ¬ alignment.isPowerOfTwo
    · rw [if_pos hbad]
      exact .inl rfl
    · have h16 : ¬ alignment ≤ 16 := by
        intro hle
        have hgood : ¬ (alignment % 8 ≠ 0 ∨ ¬ alignment.isPowerOfTwo ∨ 16 < alignment) := by
          rintro (h1 | h1 | h1)
          · exact hbad (.inl h1)
          · exact hbad (.inr h1)
          · exact absurd hle (Nat.not_le_of_lt h1)
        exact Option.some_ne_none _ ((if_neg hgood).symm.trans hm)
      rw [if_neg hbad, if_neg h16]
      by_cases h4096 : alignment ≤ 4096
      · rw [if_pos h4096]
        exact .inr rfl
      · rw [if_neg h4096]
        exact .inl rfl
  | realloc o m =>
    cases o with
    | none => nomatch hm
    | some b => nomatch harg
  | free o =>
    cases o with
    | none => exact .inl rfl
    | some b => nomatch harg
  | usableSize o =>
    cases o with
    | none => exact .inl rfl
    | some b => nomatch harg

theorem starts_of_mallocs {m : Nat × Nat} (hm : c.mallocs = some m) :
    c.starts ans = if m.1 = 0 then none else some (ans m.2).arena := by
  cases c with
  | realloc o n =>
    cases o with
    | none =>
      obtain rfl := Option.some.inj hm
      rfl
    | some b => nomatch hm
  | free o => nomatch hm
  | usableSize o => nomatch hm
  | malloc | calloc | ferrumCalloc | posixMemalign => simp only [starts, hm, Option.bind_some]

/-- **Behind a successful `ensure_init`** the call runs as if it had found the arena set up. -/
theorem run_ensured (hg : Good h v l) (harg : ∀ b, c.arg = some b → b ∈ l) (hs : c.starts ans = some a)
    (hens : ensureInit h a = .ok h') (hinit : h'.arenaInit = true) : c.run h t ans = c.run h' t ans := by
  cases hm : c.mallocs with
  | some m =>
    obtain ⟨n, k⟩ := m
    rw [starts_of_mallocs hm] at hs
    by_cases h0 : n = 0
    · rw [if_pos h0] at hs
      exact absurd hs (Option.some_ne_none a).symm
    · rw [if_neg h0] at hs
      rw [← Option.some.inj hs] at hens
      rw [run_mallocs hm, run_mallocs hm, ferrumMalloc_ensured h0 hens hinit]
  | none =>
    cases c with
    | realloc o n =>
      cases o with
      | none => exact absurd hm (Option.some_ne_none _)
      | some b =>
        have hp := hg.ptr_ne (harg b rfl)
        rw [← Option.some.inj hs] at hens
        show ferrumRealloc h t b.ptr n _ _ _ = ferrumRealloc h' t b.ptr n _ _ _
        unfold ferrumRealloc
        by_cases h0 : n = 0
        · rw [if_pos h0] at hens
          simp only [if_neg hp, if_pos h0, ferrumFree_ensured hp hens hinit]
        · rw [if_neg h0] at hens
          simp only [if_neg hp, if_neg h0, ferrumUsableSize_ensured hp hens hinit]
    | free o =>
      cases o with
      | none => exact absurd hs (Option.some_ne_none a).symm
      | some b =>
        rw [← Option.some.inj hs] at hens
        show (do let h ← ferrumFree h t b.ptr (ans 0); return (h, 0, Backend.null) : Exec _) = _
        rw [ferrumFree_ensured (hg.ptr_ne (harg b rfl)) hens hinit]
        rfl
    | usableSize o =>
      cases o with
      | none => exact absurd hs (Option.some_ne_none a).symm
      | some b =>
        rw [← Option.some.inj hs] at hens
        show (do let r ← ferrumUsableSize h b.ptr (ans 0); return (r.1, 0, Backend.null) : Exec _) = _
        rw [ferrumUsableSize_ensured (hg.ptr_ne (harg b rfl)) hens hinit]
        rfl
    | malloc m => exact absurd hm (Option.some_ne_none _)
    | calloc nmemb size =>
      have hs' : (Option.bind (Call.calloc nmemb size).mallocs _) = some a := hs
      rw [hm] at hs'
      exact absurd hs' (Option.some_ne_none a).symm
    | ferrumCalloc count size =>
      have hs' : (Option.bind (Call.ferrumCalloc count size).mallocs _) = some a := hs
      rw [hm] at hs'
      exact absurd hs' (Option.some_ne_none a).symm
    | posixMemalign alignment n =>
      have hs' : (Option.bind (Call.posixMemalign alignment n).mallocs _) = some a := hs
      rw [hm] at hs'
      exact absurd hs' (Option.some_ne_none a).symm

/-- A call that needs the arena gets to `ensure_init`. -/
theorem Needs.starts (hn : c.Needs) (ans : Nat → Answers) : ∃ a, c.starts ans = some a := by
  rcases hn with hblock | ⟨⟨n, k⟩, hm, hpos, _⟩
  · cases c with
    | realloc o n =>
      cases o with
      | none => exact absurd hblock Bool.false_ne_true
      | some b => exact ⟨_, rfl⟩
    | free o | usableSize o =>
      cases o with
      | none => exact absurd hblock Bool.false_ne_true
      | some b => exact ⟨_, rfl⟩
    | malloc | calloc | ferrumCalloc | posixMemalign => exact absurd hblock Bool.false_ne_true
  · exact ⟨_, (starts_of_mallocs hm).trans (if_neg (Nat.ne_of_gt hpos))⟩

theorem req_of_mallocs (hm : c.mallocs = some (n, k)) :
    c.req = n ∧ c.hugeAnswer ans = (ans k).huge := by
  have hmul : ∀ {x y : Nat}, (checkedMul x y).map (fun n => (n, 0)) = some (n, k) → x * y = n ∧ 0 = k := by
    intro x y hm
    rcases checkedMul_cases x y with ⟨_, hmul⟩ | ⟨_, hmul⟩
    · simp only [hmul, Option.map_none, reduceCtorEq] at hm
    · rw [hmul] at hm
      exact Prod.mk.inj (Option.some.inj hm)
  cases c with
  | malloc m =>
    obtain ⟨rfl, rfl⟩ := Prod.mk.inj (Option.some.inj hm)
    exact ⟨rfl, rfl⟩
  | calloc nmemb size =>
    obtain ⟨rfl, rfl⟩ := hmul hm
    exact ⟨rfl, rfl⟩
  | ferrumCalloc count size =>
    obtain ⟨rfl, rfl⟩ := hmul hm
    exact ⟨rfl, rfl⟩
  | posixMemalign alignment m =>
    unfold mallocs at hm
    simp only [ite_eq_iff, reduceCtorEq, and_false, false_or, Option.some.injEq, Prod.mk.injEq] at hm
    obtain ⟨_, rfl, rfl⟩ := hm
    exact ⟨rfl, rfl⟩
  | realloc o m =>
    cases o with
    | none =>
      obtain ⟨rfl, rfl⟩ := Prod.mk.inj (Option.some.inj hm)
      exact ⟨rfl, rfl⟩
    | some b => nomatch hm
  | free o => nomatch hm
  | usableSize o => nomatch hm

end Call

/-! ## The globals -/

/-- `ARENA_INIT`, `GLOBAL_ARENA` and `NEXT_ARENA_ID` are as before. -/
structure SameGlobals (h h' : Heap) : Prop where
  init : h'.arenaInit = h.arenaInit
  arena : h'.globalArena = h.globalArena
  next : h'.nextArenaId = h.nextArenaId

theorem SameGlobals.refl (h : Heap) : SameGlobals h h := ⟨rfl, rfl, rfl⟩

theorem SameGlobals.trans {h₁ h₂ h₃ : Heap} (h12 : SameGlobals h₁ h₂) (h23 : SameGlobals h₂ h₃) :
    SameGlobals h₁ h₃ :=
  ⟨h23.init.trans h12.init, h23.arena.trans h12.arena, h23.next.trans h12.next⟩

theorem SameGlobals.setSlab (h : Heap) (k : Option Nat) (s : SlabAllocator) (m : Mem) :
    SameGlobals h (h.setSlab k s m) := by
  cases k <;> exact ⟨rfl, rfl, rfl⟩

/-- **Once the arena is there, no act sets up another.** -/
theorem Path.sameGlobals {D : Prop} {E : View → Nat → Prop} {c c' : Conf} (hp : Path t D E c c')
    (hg : Good c.heap c.view c.live) (hinit : c.heap.arenaInit = true) :
    SameGlobals c.heap c'.heap := by
  apply hp.invariant (I := fun c' => SameGlobals c.heap c'.heap) ?_ ?_ hg (.refl _)
  · intro c₁ c₂ _ hI ha
    cases ha with
    | setup hs => exact absurd ((hI.init.trans hinit).symm.trans hs.init) nofun
    | put _ _ _ _ _ _ => exact hI.trans (.setSlab _ _ _ _)
    | _ => exact ⟨hI.init, hI.arena, hI.next⟩
  · intro c₁ c₂ b _ hI hs
    cases hs
    exact ⟨hI.init, hI.arena, hI.next⟩

theorem heapHugeAlloc_globals (h : Heap) (n : Nat) (answer : Option Nat) :
    SameGlobals h (heapHugeAlloc h n answer).1 := ⟨rfl, rfl, rfl⟩

/-- Zeroing a block returns the same pointer, in the same heap but for bytes. -/
theorem Call.finish_globals (c : Call) (n : Nat) (r : Heap × Nat × Backend) :
    SameGlobals r.1 (c.finish n r).1 ∧ (c.finish n r).2 = r.2 := by
  have hzero : SameGlobals r.1 (zeroBlock r n).1 ∧ (zeroBlock r n).2 = r.2 := by
    unfold zeroBlock
    split <;> exact ⟨⟨rfl, rfl, rfl⟩, rfl⟩
  cases c with
  | calloc | ferrumCalloc => exact hzero
  | malloc | posixMemalign | realloc | free | usableSize => exact ⟨.refl _, rfl⟩

/-! ## The three ways of a call -/

/-- A refused arena changes nothing. -/
theorem ensureInit_refused (hg : Good h v l) (hno : ArenaRefused h a) : ensureInit h a = .ok h := by
  rcases ensureInit_spec hg.lock a with ⟨_, hrun⟩ | ⟨_, _, hrun⟩ | ⟨x, tlsf, m, hans, hs, _⟩
  · exact hrun
  · exact hrun
  · exact absurd hs.grant (hno _ hans)

/-- A granted one is set up. -/
theorem ensureInit_granted (hg : Good h v l) (hinit : h.arenaInit = false) (hyes : ¬ ArenaRefused h a) :
    ∃ x tlsf m, Sets h x tlsf m ∧ ensureInit h a = .ok (h.setup x tlsf m) := by
  rcases ensureInit_spec hg.lock a with ⟨hinit', _⟩ | ⟨_, hno, _⟩ | ⟨x, tlsf, m, _, hs, hrun⟩
  · exact absurd (hinit.symm.trans hinit') nofun
  · exact absurd hno hyes
  · exact ⟨x, tlsf, m, hs, hrun⟩

/-- **An unserved call dereferences a null pointer.** -/
theorem Unserved.run (hg : Good h v l) (harg : ∀ b, c.arg = some b → b ∈ l) (hu : Unserved h c ans)
    (t : Nat) : c.run h t ans = .error .nullDeref := by
  obtain ⟨hinit, hneeds, a, hs, hno⟩ := hu
  have hens := ensureInit_refused hg hno
  rcases hneeds with hblock | ⟨⟨n, k⟩, hm, hpos, hlt⟩
  · -- the call passes a block
    cases c with
    | realloc o n =>
      cases o with
      | none => exact absurd hblock Bool.false_ne_true
      | some b =>
        have hb := harg b rfl
        rw [← Option.some.inj hs] at hens
        show ferrumRealloc h t b.ptr n _ _ _ = _
        unfold ferrumRealloc
        rw [if_neg (hg.ptr_ne hb)]
        by_cases h0 : n = 0
        · rw [if_pos h0] at hens
          rw [if_pos h0, ferrumFree_refused hg hinit hb hens]
          rfl
        · rw [if_neg h0] at hens
          rw [if_neg h0, ferrumUsableSize_refused hg hinit hb hens]
          rfl
    | free o =>
      cases o with
      | none => exact absurd hblock Bool.false_ne_true
      | some b =>
        rw [← Option.some.inj hs] at hens
        show (do let h ← ferrumFree h t b.ptr (ans 0); return (h, 0, Backend.null) : Exec _) = _
        rw [ferrumFree_refused hg hinit (harg b rfl) hens]
        rfl
    | usableSize o =>
      cases o with
      | none => exact absurd hblock Bool.false_ne_true
      | some b =>
        rw [← Option.some.inj hs] at hens
        show (do let r ← ferrumUsableSize h b.ptr (ans 0); return (r.1, 0, Backend.null) : Exec _) = _
        rw [ferrumUsableSize_refused hg hinit (harg b rfl) hens]
        rfl
    | malloc | calloc | ferrumCalloc | posixMemalign => exact absurd hblock Bool.false_ne_true
  · have hn : n ≠ 0 := Nat.ne_of_gt hpos
    rw [Call.starts_of_mallocs hm, if_neg hn] at hs
    rw [← Option.some.inj hs] at hens
    rw [Call.run_mallocs hm, ferrumMalloc_refused hg hinit hn hens, if_neg (Nat.not_le_of_lt hlt)]
    rfl

/-- **A call that does not get the arena, and does not need it**, maps a huge block at most. -/
theorem Call.run_idle (hg : Good h v l) (hinit : h.arenaInit = false)
    (hs : ∀ a, c.starts ans = some a → ArenaRefused h a) (hneeds : ¬ c.Needs) (t : Nat) :
    ∃ r, c.run h t ans = .ok r ∧ SameGlobals h r.1 ∧
      (Refuses h.os.maps (hugeTotal c.req) (c.hugeAnswer ans) → r.2.1 = 0) := by
  have hnull : ∀ {n : Nat} {o : Option Nat}, Refuses h.os.maps (hugeTotal n) o →
      (heapHugeAlloc h n o).2.1 = 0 := by
    intro n o hno
    rcases heapHugeAlloc_spec h n o with ⟨hrun, _⟩ | ⟨base, os, ho, hmaps, _⟩
    · rw [hrun]
    · exact absurd hmaps.grant (hno base ho)
  cases hm : c.mallocs with
  | some m =>
    obtain ⟨n, k⟩ := m
    obtain ⟨hreq, hhuge⟩ : c.req = n ∧ c.hugeAnswer ans = (ans k).huge := req_of_mallocs hm
    rw [run_mallocs hm, hreq, hhuge]
    by_cases h0 : n = 0
    · have hrun : ferrumMalloc h t n (ans k) = .ok (h, 0, .null) := if_pos h0
      rw [hrun]
      refine ⟨_, rfl, (c.finish_globals n (h, 0, .null)).1, fun _ => ?_⟩
      rw [(c.finish_globals n (h, 0, .null)).2]
    · have hens : ensureInit h (ans k).arena = .ok h :=
        ensureInit_refused hg (hs _ ((starts_of_mallocs hm).trans (if_neg h0)))
      have hbig : n ≥ hugeAllocThreshold := by
        apply Nat.le_of_not_lt
        exact fun hlt => hneeds (.inr ⟨(n, k), hm, Nat.pos_of_ne_zero h0, hlt⟩)
      rw [ferrumMalloc_refused hg hinit h0 hens, if_pos hbig]
      refine ⟨_, rfl, (heapHugeAlloc_globals h n _).trans (c.finish_globals n _).1, fun hno => ?_⟩
      rw [(c.finish_globals n _).2]
      exact hnull hno
  | none =>
    have hnone : c.arg = none := by
      cases harg : c.arg with
      | none => rfl
      | some b => exact absurd (.inl (by rw [harg]; rfl)) hneeds
    rcases run_other hm hnone h t ans with hrun | hrun
    · exact ⟨_, hrun, .refl h, fun _ => rfl⟩
    · exact ⟨_, hrun, heapHugeAlloc_globals h _ _, fun hno => hnull hno⟩

/-! ## Runs -/

/-- `NEXT_ARENA_ID` starts at 1 and counts the arenas set up. -/
def Heap.Counted (h : Heap) : Prop := h.nextArenaId = if h.arenaInit then 2 else 1

theorem Path.counted {D : Prop} {E : View → Nat → Prop} {c c' : Conf} (hp : Path t D E c c')
    (hg : Good c.heap c.view c.live) (hc : c.heap.Counted) : c'.heap.Counted := by
  apply hp.invariant (I := fun c => c.heap.Counted) ?_ ?_ hg hc
  · intro c₁ c₂ _ hI ha
    have hsame : ∀ {h h' : Heap}, SameGlobals h h' → h.Counted → h'.Counted := by
      intro h h' hs hc
      unfold Heap.Counted
      rw [hs.init, hs.next]
      exact hc
    cases ha with
    | setup hs =>
      -- the only arena of the process
      unfold Heap.Counted at hI ⊢
      simp only [hs.init, Bool.false_eq_true, if_false] at hI
      simp only [Heap.setup, hI, if_true]
      decide
    | put _ _ _ _ _ _ => exact hsame (.setSlab _ _ _ _) hI
    | _ => exact hI
  · intro c₁ c₂ b _ hI hs
    cases hs
    exact hI

theorem reachable_counted (hr : (system.restrict inBounds).Reachable s) : s.heap.Counted := by
  refine hr.invariant (I := fun s => s.heap.Counted) ?_ ?_
  · rintro s ⟨bytes, rfl⟩
    rfl
  · intro s e s' hr hI hs
    obtain ⟨v, hg⟩ := reachable_inBounds_good hr
    obtain ⟨hstep, hn⟩ := hs
    cases hstep with
    | call harg hrun =>
      rename_i t c ans r
      obtain ⟨v', hleads⟩ := (Call.leads hg c harg hn t ans).of_run hrun
      exact hleads.path.counted hg hI
    | write hb hm => exact hI

/-- The code of `posix_memalign` for a valid alignment. -/
theorem posixMemalign_code {alignment : Nat} (hal : alignment % 8 = 0) (hpow : alignment.isPowerOfTwo)
    (hrun : (Call.posixMemalign alignment n).run h t ans = .ok r) :
    posixMemalign h t alignment n (ans 0) = .ok (r.1, if r.2.1 = 0 then enomem else 0, r.2) := by
  have hgood : ¬ (alignment % 8 ≠ 0 ∨ ¬ alignment.isPowerOfTwo) := by
    rintro (hne | hne)
    · exact hne hal
    · exact hne hpow
  obtain ⟨⟨h', code, p, via⟩, hcode, hret⟩ := Exec.bind_eq_ok.mp hrun
  obtain rfl := Except.ok.inj hret
  have hback : ∀ run : Exec (Heap × Nat × Backend), (do
      let r ← run
      if r.2.1 = 0 then return (r.1, enomem, 0, r.2.2)
      else return (r.1, 0, r.2.1, r.2.2) : Exec (Heap × Nat × Nat × Backend)) = .ok (h', code, p, via) →
      code = if p = 0 then enomem else 0 := by
    intro run heq
    obtain ⟨⟨h₁, p₁, via₁⟩, _, hback⟩ := Exec.bind_eq_ok.mp heq
    by_cases hp : p₁ = 0
    · simp only [if_pos hp, Exec.pure_eq, Except.ok.injEq, Prod.mk.injEq] at hback
      obtain ⟨_, rfl, rfl, _⟩ := hback
      rfl
    · simp only [if_neg hp, Exec.pure_eq, Except.ok.injEq, Prod.mk.injEq] at hback
      obtain ⟨_, rfl, rfl, _⟩ := hback
      exact (if_neg hp).symm
  rw [hcode]
  suffices hval : code = if p = 0 then enomem else 0 by rw [hval]
  unfold posixMemalign at hcode
  rw [if_neg hgood] at hcode
  by_cases h16 : alignment ≤ 16
  · rw [if_pos h16] at hcode
    exact hback _ hcode
  · rw [if_neg h16] at hcode
    by_cases h4096 : alignment ≤ 4096
    · rw [if_pos h4096] at hcode
      exact hback _ hcode
    · rw [if_neg h4096] at hcode
      exact hback _ hcode

/-- **The call survives.** -/
structure Survives (s : State) (t : Nat) (c : Call) (ans : Nat → Answers) (r : Heap × Nat × Backend) :
    Prop where
  /-- Nothing is dereferenced while it is null: the call returns. -/
  returns : c.run s.heap t ans = .ok r
  /-- It hands out null, or a block in memory of the process that is nobody else's. -/
  mapped : ∀ b ∈ c.after s.live r, ∃ m ∈ r.1.os.maps, b.extent ⊆ m.bytes
  apart : (c.after s.live r).Pairwise Block.Apart
  /-- It hands out null where there is neither an arena nor a huge mapping. -/
  null : r.1.arenaInit = false → Refuses s.heap.os.maps (hugeTotal c.req) (c.hugeAnswer ans) → r.2.1 = 0
  /-- `posix_memalign` returns `ENOMEM` with null. -/
  code : ∀ alignment n, c = .posixMemalign alignment n → alignment % 8 = 0 → alignment.isPowerOfTwo →
    posixMemalign s.heap t alignment n (ans 0) = .ok (r.1, if r.2.1 = 0 then enomem else 0, r.2)
  /-- Initialisation is complete as soon as the operating system has granted the arena. -/
  recovers : r.1.arenaInit = true ↔
    s.heap.arenaInit = true ∨ ∃ a, c.starts ans = some a ∧ ¬ ArenaRefused s.heap a
  globals : r.1.arenaInit = true →
    r.1.globalArena.isSome ∧ r.1.globalSlab.isSome ∧ r.1.globalTlsf.isSome
  /-- It happens once. -/
  once : r.1.nextArenaId = if r.1.arenaInit then 2 else 1
  same : s.heap.arenaInit = true → SameGlobals s.heap r.1

/-- What every call that returns has in common. -/
theorem Good.survives (hg : Good s.heap v s.live) (hcount : s.heap.Counted)
    (harg : ∀ b, c.arg = some b → b ∈ s.live) (hn : c.InBounds) (hrun : c.run s.heap t ans = .ok r)
    (hnull : r.1.arenaInit = false → Refuses s.heap.os.maps (hugeTotal c.req) (c.hugeAnswer ans) →
      r.2.1 = 0)
    (hrec : r.1.arenaInit = true ↔
      s.heap.arenaInit = true ∨ ∃ a, c.starts ans = some a ∧ ¬ ArenaRefused s.heap a) :
    Survives s t c ans r := by
  obtain ⟨v', hleads⟩ := (Call.leads hg c harg hn t ans).of_run hrun
  have hg' : Good r.1 v' (c.after s.live r) := hleads.good hg
  refine
    { returns := hrun
      mapped := fun b hb => hg'.extent_mapped hb
      apart := hg'.apart
      null := hnull
      code := fun alignment n hc hal hpow => ?_
      recovers := hrec
      globals := fun hinit => ?_
      once := hleads.path.counted hg hcount
      same := hleads.path.sameGlobals hg }
  · subst hc
    exact posixMemalign_code hal hpow hrun
  · have ha := hg'.arena hinit
    exact ⟨by rw [ha.arena]; rfl, ha.slab, by rw [ha.tlsf]; rfl⟩

/-- **A failed initialisation is survived by the calls that can do without, and by no others.** -/
theorem reachable_survives (hr : (system.restrict inBounds).Reachable s)
    (harg : ∀ b, c.arg = some b → b ∈ s.live) (hn : c.InBounds) (t : Nat) (ans : Nat → Answers) :
    (∃ r, Survives s t c ans r) ↔ ¬ Unserved s.heap c ans := by
  obtain ⟨v, hg⟩ := reachable_inBounds_good hr
  have hcount := reachable_counted hr
  constructor
  · rintro ⟨r, hsurv⟩ hu
    nomatch hsurv.returns.symm.trans (hu.run hg harg t)
  · intro hserved
    cases hinit : s.heap.arenaInit with
    | true =>
      -- the arena is there
      obtain ⟨r, v', hrun, hinit', _⟩ := Call.run_good hg hinit harg hn t ans
      refine ⟨r, hg.survives hcount harg hn hrun (fun hno => ?_) (iff_of_true hinit' (.inl hinit))⟩
      exact absurd (hinit'.symm.trans hno) nofun
    | false =>
      by_cases hgrant : ∃ a, c.starts ans = some a ∧ ¬ ArenaRefused s.heap a
      · -- it is set up now
        obtain ⟨a, hs, hyes⟩ := hgrant
        obtain ⟨x, tlsf, m, hsets, hens⟩ := ensureInit_granted hg hinit hyes
        have hg' : Good (s.heap.setup x tlsf m) (.fresh x tlsf) s.live := (hg.setup hsets).good
        obtain ⟨r, v', hrun, hinit', _⟩ := Call.run_good hg' rfl harg hn t ans
        rw [← Call.run_ensured hg harg hs hens rfl] at hrun
        refine ⟨r, hg.survives hcount harg hn hrun (fun hno => ?_)
          (iff_of_true hinit' (.inr ⟨a, hs, hyes⟩))⟩
        exact absurd (hinit'.symm.trans hno) nofun
      · -- it is neither there nor needed
        have hs : ∀ a, c.starts ans = some a → ArenaRefused s.heap a := fun a ha =>
          Classical.not_not.mp fun hno => hgrant ⟨a, ha, hno⟩
        have hneeds : ¬ c.Needs := by
          intro hneeds
          obtain ⟨a, ha⟩ := hneeds.starts ans
          exact hserved ⟨hinit, hneeds, a, ha, hs a ha⟩
        obtain ⟨r, hrun, hsame, hnull⟩ := Call.run_idle hg hinit hs hneeds t
        refine ⟨r, hg.survives hcount harg hn hrun (fun _ => hnull) (iff_of_false ?_ ?_)⟩
        · rw [hsame.init, hinit]
          nofun
        · rintro (hinit' | hyes)
          · exact absurd (hinit.symm.trans hinit') nofun
          · exact hgrant hyes

/-- The first call of a process, when the arena is granted. -/
theorem reachable_survives_boot : ∃ r, Survives ⟨Heap.boot fun _ => 0, []⟩ 1 (.malloc 100)
    (fun _ => ⟨some 4096, none, none⟩) r := by
  refine (reachable_survives (c := .malloc 100) (System.Reachable.init ⟨_, rfl⟩)
    (fun _ hb => nomatch hb) trivial 1 _).mpr ?_
  rintro ⟨_, _, a, ha, hno⟩
  obtain rfl := Option.some.inj ha
  exact hno 4096 rfl (by decide)

/-- The same call when it is refused. -/
theorem not_survives_boot : (system.restrict inBounds).Reachable ⟨Heap.boot fun _ => 0, []⟩ ∧
    (Call.malloc 1).run (Heap.boot fun _ => 0) 1 (fun _ => ⟨none, none, none⟩) = .error .nullDeref ∧
    ¬ ∃ r, Survives ⟨Heap.boot fun _ => 0, []⟩ 1 (.malloc 1) (fun _ => ⟨none, none, none⟩) r := by
  have hg := Good.boot fun _ => 0
  have hu : Unserved (Heap.boot fun _ => 0) (.malloc 1) fun _ => ⟨none, none, none⟩ :=
    ⟨rfl, .inr ⟨(1, 0), rfl, by decide, by decide⟩, none, rfl, fun _ heq => nomatch heq⟩
  have harg : ∀ b, (Call.malloc 1).arg = some b → b ∈ ([] : List Block) := by
    intro b hb
    nomatch hb
  have hrun := hu.run hg harg 1
  refine ⟨System.Reachable.init ⟨_, rfl⟩, hrun, ?_⟩
  rintro ⟨r, hsurv⟩
  nomatch hsurv.returns.symm.trans hrun

end FerrumAlloc
