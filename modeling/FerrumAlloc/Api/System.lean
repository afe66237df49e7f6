/-
# FerrumAlloc.Api.System -- the process as a transition system

Threads make complete calls in any order, and clients write into their blocks. A state is the heap and the
list of live blocks. The run lemma is `reachable_inBounds_good`: as long as no call zeroes or copies past
its block, some view makes the invariant of the heap true. `Call.leads` is its step.
-/
import FerrumAlloc.Api.Release
import FerrumAlloc.Lib.Transition

namespace FerrumAlloc

open Lib

/-! ## Calls -/

/-- The pointer passed for a block; no block is the null pointer. -/
def ptrOf : Option Block → Nat
  | none => 0
  | some b => b.ptr

/-- A call of an entry point. -/
inductive Call
  | malloc (n : Nat)
  | calloc (nmemb size : Nat)
  | ferrumCalloc (count size : Nat)
  | posixMemalign (alignment n : Nat)
  | realloc (b : Option Block) (n : Nat)
  | free (b : Option Block)
  | usableSize (b : Option Block)

/-- The bytes that a backend reserves at `p` for a request of `n` bytes. -/
def reserved (m : Mem) (p n : Nat) : Backend → Nat
  | .null => 0
  | .slab c => slotSize c
  | .tlsf => Tlsf.usableSize m p
  | .bump => (n + 4095) / 4096 * 4096
  | .huge => hugeTotal n - 4096

/-- The block that a call for `n` bytes has returned. -/
def newBlock (r : Heap × Nat × Backend) (n : Nat) : Block where
  ptr := r.2.1
  req := n
  via := r.2.2
  cap := reserved r.1.os.bytes r.2.1 n r.2.2

namespace Call

/-- The block whose pointer is passed. -/
def arg : Call → Option Block
  | realloc b _ => b
  | free b => b
  | usableSize b => b
  | _ => none

/-- The number of bytes requested. -/
def req : Call → Nat
  | malloc n => n
  | calloc nmemb size => nmemb * size
  | ferrumCalloc count size => count * size
  | posixMemalign _ n => n
  | realloc _ n => n
  | _ => 0

/-- The size that reaches `ferrum_malloc` or `huge_alloc`, if the call gets so far. -/
def size : Call → Option Nat
  | malloc n => some n
  | calloc nmemb size => checkedMul nmemb size
  | ferrumCalloc count size => checkedMul count size
  | posixMemalign alignment n =>
    if alignment % 8 ≠ 0 ∨ ¬ alignment.isPowerOfTwo ∨ 4096 < alignment then none else some n
  | realloc _ n => some n
  | _ => none

/-- **No size wraps** on its way to a huge mapping. -/
def NoWrap (c : Call) : Prop := ∀ n, c.size = some n → n ≤ 2 ^ 64 - 8192

/-- **The call's own stores stay inside its block.** Zeroing and copying trust that the block returned
holds the request, which a huge request that wraps does not. -/
def InBounds : Call → Prop
  | calloc nmemb size => nmemb * size < 2 ^ 64 → nmemb * size ≤ 2 ^ 64 - 8192
  | ferrumCalloc count size => count * size < 2 ^ 64 → count * size ≤ 2 ^ 64 - 8192
  | realloc (some _) n => n ≤ 2 ^ 64 - 8192
  | _ => True

/-- The call by thread `t`, with the operating system's answers to each entry point that it runs: the new
heap, the pointer handed out (null when there is none) and its backend. -/
def run (h : Heap) (t : Nat) (ans : Nat → Answers) : Call → Exec (Heap × Nat × Backend)
  | malloc n => ferrumMalloc h t n (ans 0)
  | calloc nmemb size => FerrumAlloc.calloc h t nmemb size (ans 0)
  | ferrumCalloc count size => FerrumAlloc.ferrumCalloc h t count size (ans 0)
  | posixMemalign alignment n => do
    let (h, _, p, via) ← FerrumAlloc.posixMemalign h t alignment n (ans 0)
    return (h, p, via)
  | realloc b n => ferrumRealloc h t (ptrOf b) n (ans 0) (ans 1) (ans 2)
  | free b => do
    let h ← ferrumFree h t (ptrOf b) (ans 0)
    return (h, 0, .null)
  | usableSize b => do
    let (h, _) ← ferrumUsableSize h (ptrOf b) (ans 0)
    return (h, 0, .null)

/-- The block that dies in the call, which has returned `p`. -/
def gone (p : Nat) : Call → Option Block
  | free b => b
  | realloc b n => if n = 0 ∨ p ≠ 0 then b else none
  | _ => none

/-- The live blocks after the call. -/
def after (c : Call) (l : List Block) (r : Heap × Nat × Backend) : List Block :=
  let rest := match c.gone r.2.1 with
    | none => l
    | some b => l.erase b
  if r.2.1 = 0 then rest else newBlock r c.req :: rest

end Call

/-! ## The transition system -/

/-- The state of the process: the heap, and the blocks in the hands of clients. -/
structure State where
  heap : Heap
  live : List Block

inductive Event
  | call (t : Nat) (c : Call) (ans : Nat → Answers)
  | write (b : Block) (m : Mem)

/-- One step: a complete call on live pointers, or a client's write into a live block. -/
inductive Step : State → Event → State → Prop
  | call {s : State} {t : Nat} {c : Call} {ans : Nat → Answers} {r : Heap × Nat × Backend} :
      (∀ b, c.arg = some b → b ∈ s.live) → c.run s.heap t ans = .ok r →
      Step s (.call t c ans) ⟨r.1, c.after s.live r⟩
  | write {s : State} {b : Block} {m : Mem} : b ∈ s.live →
      Set.EqOn m s.heap.os.bytes b.extentᶜ → Step s (.write b m) ⟨s.heap.setBytes m, s.live⟩

/-- The process, from its start. -/
def system : System State Event where
  init s := ∃ bytes, s = ⟨Heap.boot bytes, []⟩
  step := Step

/-- A condition on calls, at the state before the call. -/
def onCalls (P : State → Nat → Call → (Nat → Answers) → Prop) (s : State) : Event → Prop
  | .call t c ans => P s t c ans
  | .write _ _ => True

/-! ## The step lemma -/

variable {h : Heap} {v : View} {l : List Block} {t n : Nat} {D : Prop} {E : View → Nat → Prop} {b : Block}
  {r : Heap × Nat × Backend}

/-- The bytes reserved for a live block, as its backend computes them. -/
theorem Good.reserved_eq (hg : Good h v l) (hb : b ∈ l) :
    reserved h.os.bytes b.ptr b.req b.via = b.cap := by
  have hplaced := hg.placed b hb
  have hsized := hg.sized b hb
  unfold Placed at hplaced
  unfold Block.Sized at hsized
  unfold reserved
  cases hvia : b.via with
  | null =>
    rw [hvia] at hplaced
    exact hplaced.elim
  | slab c =>
    rw [hvia] at hsized
    exact hsized.2.symm
  | tlsf =>
    rw [hvia] at hplaced
    obtain ⟨x, hptr, hu⟩ := hplaced
    have ha := hg.arena (hg.init_of_via hb (by rw [hvia]; nofun))
    show Tlsf.usableSize h.os.bytes b.ptr = b.cap
    rw [hptr]
    unfold Tlsf.usableSize Tlsf.fromPayload
    rw [if_neg (Nat.succ_ne_zero _)]
    exact ha.pool.inv.size_eq hu
  | bump =>
    rw [hvia] at hsized
    exact hsized.symm
  | huge =>
    rw [hvia] at hsized
    show hugeTotal b.req - 4096 = b.cap
    omega

/-- The block of a configuration is the block returned. -/
theorem Good.newBlock_eq {cap : Nat} (hg : Good r.1 v (⟨r.2.1, n, r.2.2, cap⟩ :: l)) :
    newBlock r n = ⟨r.2.1, n, r.2.2, cap⟩ := by
  have heq : reserved r.1.os.bytes r.2.1 n r.2.2 = cap := hg.reserved_eq List.mem_cons_self
  unfold newBlock
  rw [heq]

/-- What a call of any kind leads to. -/
def Returns (c : Call) (t : Nat) (ans : Nat → Answers) (D : Prop) (E : View → Nat → Prop) (h : Heap) (v : View)
    (l : List Block) : Prop :=
  (c.run h t ans = .error .nullDeref ∧ h.arenaInit = false) ∨
    ∃ r v', c.run h t ans = .ok r ∧ (h.arenaInit = true → r.1.arenaInit = true) ∧
      Leads t D E ⟨h, v, l⟩ ⟨r.1, v', c.after l r⟩

/-- A call that has returned. -/
theorem Returns.of_run {c : Call} {ans : Nat → Answers} (hr : Returns c t ans D E h v l)
    (hrun : c.run h t ans = .ok r) : ∃ v', Leads t D E ⟨h, v, l⟩ ⟨r.1, v', c.after l r⟩ := by
  rcases hr with ⟨hrun', _⟩ | ⟨r', v', hrun', _, hleads⟩
  · nomatch hrun.symm.trans hrun'
  · obtain rfl := Except.ok.inj (hrun.symm.trans hrun')
    exact ⟨v', hleads⟩

/-- Allocating calls. -/
theorem Allocates.returns {c : Call} {ans : Nat → Answers} {a : Answers} (hg : Good h v l)
    (ha : Allocates t D E ⟨h, v, l⟩ c.req a (c.run h t ans)) (hgone : ∀ p, c.gone p = none) :
    Returns c t ans D E h v l := by
  rcases ha with ⟨hrun, hno, _⟩ | ⟨r, hrun, hinit, v', ⟨h0, hleads⟩ | ⟨hne, cap, hleads⟩⟩
  · exact .inl ⟨hrun, hno⟩
  · refine .inr ⟨r, v', hrun, hinit, ?_⟩
    unfold Call.after
    rw [hgone, if_pos h0]
    exact hleads
  · have hg' : Good r.1 v' (⟨r.2.1, c.req, r.2.2, cap⟩ :: l) := hleads.good hg
    refine .inr ⟨r, v', hrun, hinit, ?_⟩
    unfold Call.after
    rw [hgone, if_neg hne, hg'.newBlock_eq]
    exact hleads

/-- `posix_memalign` returns what its backend returns. -/
theorem posixMemalign_run (h : Heap) (t alignment n : Nat) (ans : Answers) :
    (do let (h, _, p, via) ← posixMemalign h t alignment n ans
        return (h, p, via) : Exec (Heap × Nat × Backend)) = memalignBlock h t alignment n ans := by
  have hcode : ∀ run : Exec (Heap × Nat × Backend), (do
      let s ← (do
        let r ← run
        if r.2.1 = 0 then return (r.1, enomem, 0, r.2.2)
        else return (r.1, 0, r.2.1, r.2.2) : Exec (Heap × Nat × Nat × Backend))
      return (s.1, s.2.2)) = run := by
    intro run
    cases run with
    | error e => rfl
    | ok r =>
      obtain ⟨h, p, via⟩ := r
      by_cases hp : p = 0
      · subst hp
        rfl
      · simp only [Exec.bind_ok, if_neg hp, Exec.pure_eq]
  unfold posixMemalign memalignBlock
  by_cases hbad : alignment % 8 ≠ 0 ∨ ¬ alignment.isPowerOfTwo
  · rw [if_pos hbad, if_pos hbad]
    rfl
  · rw [if_neg hbad, if_neg hbad]
    by_cases h16 : alignment ≤ 16
    · rw [if_pos h16, if_pos h16]
      exact hcode _
    · rw [if_neg h16, if_neg h16]
      by_cases h4096 : alignment ≤ 4096
      · rw [if_pos h4096, if_pos h4096]
        exact hcode (.ok _)
      · rw [if_neg h4096, if_neg h4096]
        exact hcode (.ok _)

theorem Frees.returns {ans : Nat → Answers}
    (hfrees : Frees t D E ⟨h, v, l⟩ b (ans 0) (ferrumFree h t b.ptr (ans 0))) :
    Returns (.free (some b)) t ans D E h v l := by
  have hrun : (Call.free (some b)).run h t ans =
      (do let h ← ferrumFree h t b.ptr (ans 0); return (h, 0, .null)) := rfl
  unfold Returns
  rw [hrun]
  rcases hfrees with ⟨hfree, hno, _⟩ | ⟨h', v', hfree, hinit, hleads⟩
  · rw [hfree]
    exact .inl ⟨rfl, hno⟩
  · rw [hfree]
    exact .inr ⟨(h', 0, .null), v', rfl, hinit, hleads⟩

/-- Moving a block. -/
theorem Moved.returns {ans : Nat → Answers} (hg : Good h v l)
    (hrun : (Call.realloc (some b) n).run h t ans = .ok r)
    (hinit : h.arenaInit = true → r.1.arenaInit = true) (hm : Moved t D E ⟨h, v, l⟩ b n r) :
    Returns (.realloc (some b) n) t ans D E h v l := by
  obtain ⟨v', ⟨hp, h0, hleads⟩ | ⟨hp, h0, hleads⟩ | ⟨hp, h0, cap, hleads⟩⟩ := hm
  · refine .inr ⟨r, v', hrun, hinit, ?_⟩
    unfold Call.after Call.gone
    simp only [if_pos hp, if_pos (Or.inl h0 : n = 0 ∨ r.2.1 ≠ 0)]
    exact hleads
  · have hkept : ¬ (n = 0 ∨ r.2.1 ≠ 0) := fun h => h.elim h0 fun hne => hne hp
    refine .inr ⟨r, v', hrun, hinit, ?_⟩
    unfold Call.after Call.gone
    simp only [if_pos hp, if_neg hkept]
    exact hleads
  · have hg' : Good r.1 v' (⟨r.2.1, n, r.2.2, cap⟩ :: l.erase b) := hleads.good hg
    refine .inr ⟨r, v', hrun, hinit, ?_⟩
    unfold Call.after Call.gone
    simp only [if_neg hp, if_pos (Or.inr hp : n = 0 ∨ r.2.1 ≠ 0), Call.req, hg'.newBlock_eq]
    exact hleads

/-- **Every call, of any thread**, returns and leads to the state after it; before initialisation it may
fault instead. -/
theorem Call.leads (hg : Good h v l) (c : Call) (harg : ∀ b, c.arg = some b → b ∈ l) (hn : c.InBounds)
    (t : Nat) (ans : Nat → Answers) : Returns c t ans True Anywhere h v l := by
  cases c with
  | malloc n => exact (ferrumMalloc_leads hg n (ans 0) fun _ _ _ => trivial).returns hg fun _ => rfl
  | calloc nmemb size =>
    refine Allocates.returns (a := ans 0) hg ?_ fun _ => rfl
    exact calloc_leads hg nmemb size (ans 0) (fun _ => trivial) hn
  | ferrumCalloc count size =>
    refine Allocates.returns (a := ans 0) hg ?_ fun _ => rfl
    exact ferrumCalloc_leads hg count size (ans 0) (fun _ => trivial) hn
  | posixMemalign alignment n =>
    have hrun : (Call.posixMemalign alignment n).run h t ans = memalignBlock h t alignment n (ans 0) :=
      posixMemalign_run h t alignment n (ans 0)
    refine Allocates.returns (a := ans 0) hg ?_ fun _ => rfl
    rw [hrun]
    exact memalignBlock_leads hg alignment n (ans 0) fun _ => trivial
  | realloc b n =>
    cases b with
    | none =>
      -- `realloc` of the null pointer is `ferrum_malloc`
      have hrun : (Call.realloc none n).run h t ans = ferrumMalloc h t n (ans 1) := rfl
      refine Allocates.returns (a := ans 1) hg ?_ fun p => ite_self _
      rw [hrun]
      exact ferrumMalloc_leads hg n (ans 1) fun _ _ _ => trivial
    | some b =>
      have hb := harg b rfl
      have hrun : (Call.realloc (some b) n).run h t ans =
          ferrumRealloc h t b.ptr n (ans 0) (ans 1) (ans 2) := rfl
      rcases ferrumRealloc_leads (t := t) hg hb hn (ans 0) (ans 1) (ans 2) with
        hno | ⟨r, hrun, hinit, hmoved⟩
      · exact .inl hno
      · exact hmoved.returns hg hrun hinit
  | free b =>
    cases b with
    | none => exact .inr ⟨(h, 0, .null), v, rfl, fun hi => hi, .refl _⟩
    | some b =>
      have hb := harg b rfl
      exact (ferrumFree_leads hg hb (ans 0) (fun _ => trivial) fun _ _ _ _ _ _ _ => trivial).returns
  | usableSize b =>
    cases b with
    | none => exact .inr ⟨(h, 0, .null), v, rfl, fun hi => hi, .refl _⟩
    | some b =>
      have hb := harg b rfl
      have hrun : (Call.usableSize (some b)).run h t ans =
          (do let (h, _) ← ferrumUsableSize h b.ptr (ans 0); return (h, 0, .null)) := rfl
      unfold Returns
      rw [hrun]
      rcases ferrumUsableSize_leads (D := True) (E := Anywhere) hg hb t (ans 0) with
        ⟨hsize, hno, _⟩ | ⟨h', v', hsize, hinit, hleads⟩
      · rw [hsize]
        exact .inl ⟨rfl, hno⟩
      · rw [hsize]
        exact .inr ⟨(h', 0, .null), v', rfl, fun _ => hinit, hleads⟩

/-! ## The run lemma -/

/-- The view before anything has happened. -/
def View.start : View where
  arena := ⟨0, 0⟩
  tlsf := Tlsf.new
  made := []
  g := .empty none
  maker := fun _ => 0
  role := fun _ => .free
  stack := fun _ => []
  bs := []
  L := fun _ _ => []

theorem Good.boot (bytes : Mem) : Good (Heap.boot bytes) .start [] where
  lock := rfl
  maps := ⟨.nil, nofun⟩
  threads :=
    { tls := fun _ hne => absurd rfl hne
      owner := fun _ _ hne => absurd rfl hne
      registry := fun _ hne => absurd rfl hne
      id := nofun
      blank := fun _ _ => ⟨rfl, rfl⟩
      pages := nofun
      map := nofun }
  arena := nofun
  booting := fun _ => ⟨rfl, rfl, rfl, rfl, rfl, rfl, fun _ => rfl, nofun⟩
  placed := nofun
  sized := nofun
  apart := .nil

/-- No call stores outside its block. -/
def inBounds : State → Event → Prop := onCalls fun _ _ c _ => c.InBounds

/-- **Step lemma.** -/
theorem Step.good {s s' : State} {e : Event} (hs : Step s e s') (hn : inBounds s e)
    (hg : ∃ v, Good s.heap v s.live) : ∃ v, Good s'.heap v s'.live := by
  obtain ⟨v, hg⟩ := hg
  cases hs with
  | call harg hrun =>
    rename_i t c ans r
    obtain ⟨v', hleads⟩ := (Call.leads hg c harg hn t ans).of_run hrun
    exact ⟨v', hleads.good hg⟩
  | write hb hm => exact ⟨v, hg.store hb hm⟩

/-- **Run lemma.** Every state reached without stores out of bounds is good. -/
theorem reachable_inBounds_good {s : State} (hr : (system.restrict inBounds).Reachable s) :
    ∃ v, Good s.heap v s.live := by
  refine hr.invariant (I := fun s => ∃ v, Good s.heap v s.live) ?_ ?_
  · rintro s ⟨bytes, rfl⟩
    exact ⟨.start, .boot bytes⟩
  · intro s e s' _ hg hs
    exact hs.1.good hs.2 hg

/-- Every size of the call avoids wrapping. -/
def noWrap : State → Event → Prop := onCalls fun _ _ c _ => c.NoWrap

theorem Call.NoWrap.inBounds {c : Call} (hn : c.NoWrap) : c.InBounds := by
  cases c with
  | calloc nmemb size => exact fun hlt => hn _ (if_pos hlt)
  | ferrumCalloc count size => exact fun hlt => hn _ (if_pos hlt)
  | realloc b n =>
    cases b with
    | none => trivial
    | some b => exact hn n rfl
  | malloc | posixMemalign | free | usableSize => trivial

theorem reachable_inBounds {s : State} (hr : (system.restrict noWrap).Reachable s) :
    (system.restrict inBounds).Reachable s := by
  refine hr.mono fun s e he => ?_
  cases e with
  | call t c ans => exact Call.NoWrap.inBounds he
  | write b m => trivial

/-- Every state reached without a size that wraps is good. -/
theorem reachable_good {s : State} (hr : (system.restrict noWrap).Reachable s) :
    ∃ v, Good s.heap v s.live := reachable_inBounds_good (reachable_inBounds hr)

/-! ## Requests that fit -/

/-- The bytes a client has asked for. -/
def Block.range (b : Block) : Set Nat := Set.Ico b.ptr (b.ptr + b.req)

theorem Block.range_subset (hle : b.req ≤ b.cap) : b.range ⊆ b.extent := fun _ hz =>
  ⟨hz.1, Nat.lt_of_lt_of_le hz.2 (Nat.add_le_add_left hle _)⟩

namespace Call

/-- The size that reaches a backend is the number of bytes requested. -/
theorem req_of_size {c : Call} (hs : c.size = some n) : n = c.req := by
  have hmul : ∀ a b : Nat, checkedMul a b = some n → n = a * b := by
    intro a b hs
    unfold checkedMul at hs
    split at hs
    · exact (Option.some.inj hs).symm
    · nomatch hs
  cases c with
  | malloc k => exact (Option.some.inj hs).symm
  | calloc nmemb size => exact hmul _ _ hs
  | ferrumCalloc count size => exact hmul _ _ hs
  | posixMemalign alignment k =>
    unfold size at hs
    simp only at hs
    split at hs
    · nomatch hs
    · exact (Option.some.inj hs).symm
  | realloc b k => exact (Option.some.inj hs).symm
  | free b => nomatch hs
  | usableSize b => nomatch hs

/-- A call that hands out a block has passed a size to a backend. -/
theorem size_of_run {c : Call} {ans : Nat → Answers} (hrun : c.run h t ans = .ok r) (hp : r.2.1 ≠ 0) :
    c.size = some c.req := by
  have hnull : ∀ {h' : Heap} {via : Backend}, (.ok (h', 0, via) : Exec (Heap × Nat × Backend)) ≠ .ok r := by
    intro h' via heq
    exact hp (congrArg (fun r => r.2.1) (Except.ok.inj heq)).symm
  cases c with
  | malloc k => rfl
  | calloc nmemb size =>
    rcases checkedMul_cases nmemb size with ⟨_, hmul⟩ | ⟨_, hmul⟩
    · unfold run FerrumAlloc.calloc at hrun
      simp only [hmul] at hrun
      exact absurd hrun hnull
    · exact hmul
  | ferrumCalloc count size =>
    rcases checkedMul_cases count size with ⟨_, hmul⟩ | ⟨_, hmul⟩
    · unfold run FerrumAlloc.ferrumCalloc at hrun
      simp only [hmul] at hrun
      exact absurd hrun hnull
    · exact hmul
  | posixMemalign alignment k =>
    have hrun' : memalignBlock h t alignment k (ans 0) = .ok r :=
      (posixMemalign_run h t alignment k (ans 0)).symm.trans hrun
    unfold memalignBlock at hrun'
    unfold size
    apply if_neg
    rintro (hal | hpow | hbig)
    · rw [if_pos (.inl hal)] at hrun'
      exact hnull hrun'
    · rw [if_pos (.inr hpow)] at hrun'
      exact hnull hrun'
    · by_cases hbad : alignment % 8 ≠ 0 ∨ ¬ alignment.isPowerOfTwo
      · rw [if_pos hbad] at hrun'
        exact hnull hrun'
      · rw [if_neg hbad, if_neg (by omega), if_neg (by omega)] at hrun'
        exact hnull hrun'
  | realloc b k => rfl
  | free b =>
    obtain ⟨h', _, hret⟩ := Exec.bind_eq_ok.mp
      (show (do let h ← ferrumFree h t (ptrOf b) (ans 0); return (h, 0, Backend.null)) = .ok r from hrun)
    exact absurd hret hnull
  | usableSize b =>
    obtain ⟨res, _, hret⟩ := Exec.bind_eq_ok.mp
      (show (do let (h, _) ← ferrumUsableSize h (ptrOf b) (ans 0); return (h, 0, Backend.null)) = .ok r
        from hrun)
    exact absurd hret hnull

/-- Live blocks after a call: those from before, and perhaps one new block. -/
theorem mem_after {c : Call} (hb : b ∈ c.after l r) :
    b ∈ l ∨ (r.2.1 ≠ 0 ∧ b = newBlock r c.req) := by
  have hrest : ∀ x, x ∈ (match c.gone r.2.1 with | none => l | some b => l.erase b) → x ∈ l := by
    intro x hx
    cases hgone : c.gone r.2.1 with
    | none =>
      rw [hgone] at hx
      exact hx
    | some g =>
      rw [hgone] at hx
      exact List.mem_of_mem_erase hx
  unfold after at hb
  by_cases hp : r.2.1 = 0
  · simp only [if_pos hp] at hb
    exact .inl (hrest b hb)
  · simp only [if_neg hp] at hb
    rcases List.mem_cons.mp hb with heq | hb
    · exact .inr ⟨hp, heq⟩
    · exact .inl (hrest b hb)

end Call

/-- **Every live block holds its request**, as long as no size has wrapped. -/
theorem reachable_fits {s : State} (hr : (system.restrict noWrap).Reachable s) :
    ∀ b ∈ s.live, b.req ≤ b.cap := by
  have hreq : ∀ b ∈ s.live, b.req ≤ 2 ^ 64 - 8192 := by
    refine hr.invariant (I := fun s => ∀ b ∈ s.live, b.req ≤ 2 ^ 64 - 8192) ?_ ?_
    · rintro s ⟨bytes, rfl⟩ b hb
      nomatch hb
    · rintro s e s' _ hreq ⟨hs, hn⟩ b hb
      cases hs with
      | call harg hrun =>
        rcases Call.mem_after hb with hold | ⟨hp, rfl⟩
        · exact hreq b hold
        · exact hn _ (Call.size_of_run hrun hp)
      | write _ _ => exact hreq b hb
  obtain ⟨v, hg⟩ := reachable_good hr
  exact fun b hb => (hg.sized b hb).req_le fun _ => hreq b hb

/-- Every request is at most `usize::MAX - 2 * PAGE_SIZE` bytes. -/
def modest : State → Event → Prop := onCalls fun _ _ c _ => c.req ≤ usizeMax - 2 * pageSize

/-- Such requests do not wrap. -/
theorem Call.noWrap_of_modest {c : Call} (hc : c.req ≤ usizeMax - 2 * pageSize) : c.NoWrap := by
  intro n hn
  rw [← Call.req_of_size hn] at hc
  exact Nat.le_trans hc (by decide)

theorem reachable_noWrap {s : State} (hr : (system.restrict modest).Reachable s) :
    (system.restrict noWrap).Reachable s := by
  refine hr.mono fun s e he => ?_
  cases e with
  | call t c ans => exact Call.noWrap_of_modest he
  | write b m => trivial

end FerrumAlloc
