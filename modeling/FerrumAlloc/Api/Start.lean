/-
# FerrumAlloc.Api.Start -- initialisation and thread caches, as acts

`ensure_init` either finds the arena set up, or sets it up in a fresh mapping, or is refused by the
operating system and changes nothing (`ensureInit_spec`). `get_or_create` returns the cache of the thread,
makes one, or uses up an identifier for nothing (`getOrCreate_spec`).
-/
import FerrumAlloc.Api.Paths

namespace FerrumAlloc

open Lib
open Tlsf (TlsfAllocator)

variable {h : Heap} {v : View} {l : List Block} {t p : Nat} {D : Prop} {E : View → Nat → Prop} {m : Mem}

/-! ## The lock -/

namespace Heap

/-- The heap while the lock is held. -/
def locked (h : Heap) : Heap := { h with arenaLock := true }

variable (hl : h.arenaLock = false)
include hl

theorem spinLock_eq : spinLock h = .ok h.locked := by
  unfold spinLock
  rw [hl]
  rfl

theorem unlock_locked : spinUnlock h.locked = h := by
  cases h
  simp only at hl
  subst hl
  rfl

theorem unlock_setBytes (m : Mem) : spinUnlock (h.locked.setBytes m) = h.setBytes m := by
  cases h
  simp only at hl
  subst hl
  rfl

theorem unlock_setSlab (k : Option Nat) (s : SlabAllocator) (m : Mem) :
    spinUnlock (h.locked.setSlab k s m) = h.setSlab k s m := by
  cases h
  simp only at hl
  subst hl
  cases k <;> rfl

theorem unlock_setTlsf (tlsf : TlsfAllocator) (m : Mem) :
    spinUnlock (h.locked.setTlsf tlsf m) = h.setTlsf tlsf m := by
  cases h
  simp only at hl
  subst hl
  rfl

theorem unlock_setOs (os : Os) : spinUnlock (h.locked.setOs os) = h.setOs os := by
  cases h
  simp only at hl
  subst hl
  rfl

theorem unlock_setup (a : Arena) (tlsf : TlsfAllocator) (m : Mem) :
    spinUnlock (h.locked.setup a tlsf m) = h.setup a tlsf m := by
  cases h
  simp only at hl
  subst hl
  rfl

end Heap

/-! ## `ensure_init` -/

/-- The pool is carved out of a fresh arena. -/
theorem fresh_pool {a : Arena} (ha : a.Ok) (m : Mem) (id : Nat) :
    ∃ m' tlsf m'', a.alloc (a.init m id) tlsfPoolSize = (m', a.base + 20480) ∧
      Tlsf.addPool Tlsf.new m' (a.base + 20480) tlsfPoolSize = .ok (tlsf, m'') ∧
      SlabSide m'' (fun _ => .new) (fun _ => 0) (View.fresh a tlsf) ∧ PoolSide m'' (View.fresh a tlsf) ∧
      a.nextFreePage m'' = firstPage ∧
      Set.EqOn m'' m (Region.bytes ⟨a.base, 2097152⟩)ᶜ := by
  have hfits := Arena.fits_lt ha
  obtain ⟨hnext, _, hinit⟩ := Arena.init_spec a m id
  have hinv := SlabInv.init ha m id (none : Option Nat)
  obtain ⟨m₁, hm₁⟩ : ∃ x, x = a.init m id := ⟨_, rfl⟩
  rw [← hm₁] at hnext hinit hinv ⊢
  have hneeded : Arena.pagesNeeded tlsfPoolSize = 128 := by decide
  have hpage : a.pageAddr metaPages = a.base + 20480 := rfl
  rcases Arena.alloc_spec a m₁ tlsfPoolSize with ⟨_, hfull⟩ | ⟨m₂, _, _, hrun, hnext₂, _, hout₂⟩
  · -- a fresh arena has room for the pool
    rw [hnext, hneeded] at hfull
    exact absurd hfull (by decide)
  · rw [hnext, hpage] at hrun
    rw [hnext, hneeded] at hnext₂
    have hargs : Tlsf.PoolArgs (a.base + 20480) tlsfPoolSize := by
      have hal : a.base % 4096 = 0 := ha.al
      refine ⟨by omega, by omega, ?_, by decide, by decide⟩
      show a.base + 20480 + 524288 < 2 ^ 64
      omega
    obtain ⟨tlsf, m₃, hadd, hpool, hstart, hstop, hout₃⟩ := Tlsf.addPool_spec m₂ hargs
    have hinv₂ : SlabInv a m₂ (fun _ : Option Nat => .new) (.empty none) := by
      have hbump := hinv.bump tlsfPoolSize
      rw [hrun] at hbump
      exact hbump
    have hmeta : Set.EqOn m₃ m₂ a.metaRegion := by
      intro z hz
      apply hout₃
      rw [Set.mem_compl_iff, Set.mem_Ico]
      have := hz.2
      omega
    have hnext₃ : a.nextFreePage m₃ = firstPage :=
      (Arena.nextFreePage_of_eqOn (hmeta.mono Arena.arenaMetaBytes_subset)).trans hnext₂
    refine ⟨m₂, tlsf, m₃, hrun, hadd, ⟨?_, hnext₃.ge, nofun, fun x => ?_, fun q => Stack.nil⟩,
      ⟨hpool, hstart, ?_⟩, hnext₃, fun z hz => ?_⟩
    · apply hinv₂.frame
      rintro z (hz | ⟨i, c, j, hc, _⟩)
      · exact hmeta hz
      · exact absurd hc (Option.some_ne_none c).symm
    · refine ⟨fun hne => absurd rfl hne, ?_⟩
      rintro ⟨i, c, j, hu, _⟩
      exact absurd hu.1 (Option.some_ne_none c).symm
    · show tlsf.poolEnd = a.base + 544768
      have hsize : tlsfPoolSize = 524288 := rfl
      omega
    · rw [Set.mem_compl_iff, Region.mem_bytes] at hz
      simp only at hz
      rw [hout₃ (by
          rw [Set.mem_compl_iff, Set.mem_Ico]
          show ¬ (a.base + 20480 ≤ z ∧ z < a.base + 20480 + 524288)
          omega),
        hout₂ (fun hz' => by have h1 := hz'.1; have h2 := hz'.2; omega)]
      exact hinit fun hz' => by have h1 := hz'.1; have h2 := hz'.2; omega

/-- The operating system refuses the mapping of an arena. -/
def ArenaRefused (h : Heap) (answer : Option Nat) : Prop := Refuses h.os.maps 2097152 answer

/-- **`ensure_init`** finds the arena set up, is refused, or sets it up. -/
theorem ensureInit_spec (hl : h.arenaLock = false) (answer : Option Nat) :
    (h.arenaInit = true ∧ ensureInit h answer = .ok h) ∨
    (h.arenaInit = false ∧ ArenaRefused h answer ∧ ensureInit h answer = .ok h) ∨
    ∃ a tlsf m, answer = some a.base ∧ Sets h a tlsf m ∧ ensureInit h answer = .ok (h.setup a tlsf m) := by
  cases hinit : h.arenaInit with
  | true =>
    left
    refine ⟨rfl, ?_⟩
    unfold ensureInit
    rw [hinit]
    rfl
  | false =>
    right
    have hrun : ensureInit h answer = (do
        let h' ← initGlobals h.locked answer
        return spinUnlock h') := by
      unfold ensureInit
      rw [hinit, Heap.spinLock_eq hl]
      rfl
    rcases Arena.new_spec answer h.nextArenaId h.os with ⟨hno, hnew⟩ | ⟨base, m, hans, hgrant, hm, hnew⟩
    · left
      refine ⟨rfl, hno, ?_⟩
      rw [hrun]
      unfold initGlobals
      rw [show h.locked.nextArenaId = h.nextArenaId from rfl, show h.locked.os = h.os from rfl, hnew]
      exact congrArg Except.ok (Heap.unlock_setOs hl h.os)
    · right
      obtain ⟨a, ha⟩ : ∃ a : Arena, a = ⟨base, defaultArenaSize⟩ := ⟨_, rfl⟩
      have hbase : a.base = base := by rw [ha]
      have hok : a.Ok := by
        refine ⟨?_, ?_, by rw [ha], ?_⟩
        · rw [hbase]
          exact hgrant.1
        · rw [hbase]
          exact hgrant.2.1
        · rw [hbase]
          exact hgrant.2.2.2.1
      obtain ⟨m', tlsf, m'', halloc, hadd, hslabs, hpool, hnext, hout⟩ := fresh_pool hok m h.nextArenaId
      have hne : a.base + 20480 ≠ 0 := by omega
      refine ⟨a, tlsf, m'', by rw [hbase]; exact hans, ⟨hinit, by rw [hbase]; exact hgrant, hslabs, hpool,
        hnext, fun z hz => ?_⟩, ?_⟩
      · rw [hout hz]
        rw [hbase] at hz
        exact hm hz
      · rw [hrun]
        unfold initGlobals
        rw [show h.locked.nextArenaId = h.nextArenaId from rfl, show h.locked.os = h.os from rfl, hnew,
          ← ha]
        unfold initTlsf
        simp only [initTls, halloc, if_pos hne, Heap.setBytes, hadd, Exec.bind_ok, Exec.pure_eq]
        rw [← hbase]
        exact congrArg Except.ok (Heap.unlock_setup hl a tlsf m'')

/-! ## `get_or_create` -/

/-- The next identifier is in range and the operating system grants a page for the cache. -/
def CanCreate (h : Heap) (answer : Option Nat) : Prop :=
  h.nextThreadId < maxThreads ∧ ∃ p, answer = some p ∧ Grantable h.os.maps 4096 p

/-- **A thread that has no cache and gets none.** -/
def Cacheless (h : Heap) (t : Nat) (answer : Option Nat) : Prop := h.tls t = 0 ∧ ¬ CanCreate h answer

/-- **A thread gets a cache under an identifier that is registered already.** -/
def TakesId (h : Heap) (t : Nat) (answer : Option Nat) : Prop :=
  h.tls t = 0 ∧ CanCreate h answer ∧ h.registry h.nextThreadId ≠ 0

/-- **`get_or_create`** returns the thread's cache, or none, or a new one. -/
theorem getOrCreate_spec (hinit : h.arenaInit = true) (hready : h.tlsReady = true) (t : Nat)
    (answer : Option Nat) :
    (h.tls t ≠ 0 ∧ getOrCreate h t answer = (h, some (h.tls t))) ∨
    (Cacheless h t answer ∧ getOrCreate h t answer = (h.attempt, none)) ∨
    ∃ p m, answer = some p ∧ Creates h t p m ∧ getOrCreate h t answer = (h.create t p m, some p) := by
  unfold getOrCreate
  rw [if_neg (by rw [hready]; nofun)]
  by_cases htls : h.tls t = 0
  · right
    simp only [if_neg (not_not.mpr htls)]
    by_cases hid : h.nextThreadId < maxThreads
    · rw [if_neg (Nat.not_le_of_lt hid)]
      have hsize : alignUp pageSize pageSize = 4096 := by decide
      rcases osAlloc_cases answer pageSize h.os with ⟨hrun, hno⟩ | ⟨p, hans, hgrant, hrun⟩
      · left
        rw [hsize] at hno
        refine ⟨⟨htls, ?_⟩, ?_⟩
        · rintro ⟨_, p, hans, hgrant⟩
          exact hno p hans hgrant
        · simp only [hrun, if_true]
          rfl
      · right
        rw [hsize] at hgrant hrun
        refine ⟨p, fill h.os.bytes p 4096 0, hans, ⟨hinit, htls, hid, hgrant, fill_eqOn _ _ _ _⟩, ?_⟩
        simp only [hrun, if_neg (Nat.ne_of_gt hgrant.1)]
        rfl
    · left
      refine ⟨⟨htls, fun hcan => hid hcan.1⟩, ?_⟩
      rw [if_pos (Nat.le_of_not_lt hid)]
      rfl
  · left
    refine ⟨htls, ?_⟩
    simp only [if_pos htls]

/-- `ensure_init` as acts. A thread cannot take a registered identifier right after it has set up the
arena: the registry is still empty. -/
theorem ensureInit_leads (hg : Good h v l) (t : Nat) (answer : Option Nat) :
    (h.arenaInit = false ∧ ArenaRefused h answer ∧ ensureInit h answer = .ok h) ∨
    ∃ h' v', ensureInit h answer = .ok h' ∧ Leads t D E ⟨h, v, l⟩ ⟨h', v', l⟩ ∧
      h'.arenaInit = true ∧ (∀ answer, TakesId h' t answer → TakesId h t answer) ∧
      (h.arenaInit = true → h' = h ∧ v' = v) := by
  rcases ensureInit_spec hg.lock answer with ⟨hinit, hrun⟩ | hno | ⟨a, tlsf, m, _, hs, hrun⟩
  · exact .inr ⟨h, v, hrun, .refl _, hinit, fun _ hid => hid, fun _ => ⟨rfl, rfl⟩⟩
  · exact .inl hno
  · right
    refine ⟨h.setup a tlsf m, .fresh a tlsf, hrun, .act hg (.setup hs), rfl, fun answer hid => ?_,
      fun hinit => absurd (hinit.symm.trans hs.init) nofun⟩
    exfalso
    have hmem := (hg.threads.registry _ hid.2.2).1
    rw [(hg.booting hs.init).made] at hmem
    exact List.not_mem_nil hmem

/-- `get_or_create` as acts. -/
theorem getOrCreate_leads (hg : Good h v l) (hinit : h.arenaInit = true) (t : Nat) (answer : Option Nat)
    (hdup : TakesId h t answer → D) :
    ∃ h' v' o, getOrCreate h t answer = (h', o) ∧ Leads t D E ⟨h, v, l⟩ ⟨h', v', l⟩ ∧
      h'.arenaInit = true ∧ (o = none → Cacheless h t answer ∧ v' = v) ∧
      ∀ p, o = some p → p ≠ 0 ∧ h'.tls t = p := by
  have ha := hg.arena hinit
  rcases getOrCreate_spec hinit ha.ready t answer with ⟨hne, hrun⟩ | ⟨hless, hrun⟩ | ⟨p, m, hans, hc, hrun⟩
  · refine ⟨h, v, _, hrun, .refl _, hinit, nofun, fun p hp => ?_⟩
    obtain rfl := Option.some.inj hp
    exact ⟨hne, rfl⟩
  · exact ⟨h.attempt, v, none, hrun, .act hg (.attempt hinit hless.1), hinit, fun _ => ⟨hless, rfl⟩, nofun⟩
  · refine ⟨h.create t p m, { v with made := p :: v.made }, some p, hrun, .act hg (.create hc ?_), hinit,
      nofun, fun q hq => ?_⟩
    · exact fun hne => hdup ⟨hc.none, ⟨hc.id, p, hans, hc.grant⟩, hne⟩
    · obtain rfl := Option.some.inj hq
      exact ⟨Nat.ne_of_gt hc.grant.1, Function.update_self ..⟩

end FerrumAlloc
