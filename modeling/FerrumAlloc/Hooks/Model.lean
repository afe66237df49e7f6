/-
# FerrumAlloc.Hooks.Model -- the hooks in front of another allocator

On Windows the library replaces `HeapAlloc`, `HeapFree`, `HeapReAlloc`, `HeapSize`, `malloc` and `free` of a
running process. Blocks that were handed out before, or by code that is not hooked, belong to the functions
replaced; a hook that is given a pointer asks `ferrum_usable_size` whose it is.

The functions replaced are parameters, missing where hooking has failed. They see the memory of the process and
what they keep to themselves (`F`). A hook returns the value that its caller gets, and beside it what the
allocator has handed out (`none` where the function replaced was to answer): the first is the code's, the second
is there to be reasoned about.
-/
import FerrumAlloc.Api.System

namespace FerrumAlloc

open Lib

/-- A function replaced, its arguments given: what it keeps, and the memory of the process. -/
abbrev Original (F : Type) := F × Os → (F × Os) × Nat

/-- `ORIGINAL_HEAP_ALLOC` and the others, as `DllMain` has set them. -/
structure Originals (F : Type) where
  heapAlloc : Option (Int → Nat → Nat → Original F)
  heapFree : Option (Int → Nat → Nat → Original F)
  heapReAlloc : Option (Int → Nat → Nat → Nat → Original F)
  heapSize : Option (Int → Nat → Nat → Original F)
  free : Option (Nat → Original F)

/-- A process with hooks. -/
structure Hooked (F : Type) where
  heap : Heap
  orig : F

/-- What a hook leads to. -/
abbrev Reply (F : Type) := Hooked F × Nat × Option (Nat × Backend)

variable {F : Type}

/-- The call goes on to the function replaced. -/
def forward (s : Hooked F) (f : Original F) : Reply F :=
  (⟨s.heap.setOs (f (s.orig, s.heap.os)).1.2, (f (s.orig, s.heap.os)).1.1⟩, (f (s.orig, s.heap.os)).2, none)

/-- What the hooks do with a pointer. With a size that `ferrum_usable_size` knows it is `ours`, else it goes to
the function replaced, if there is one; if not, `other` is returned. -/
def routed (s : Hooked F) (ptr : Nat) (ans : Answers) (ours : Hooked F → Nat → Exec (Reply F))
    (orig : Option (Original F)) (other : Nat) : Exec (Reply F) := do
  let (h, usable) ← ferrumUsableSize s.heap ptr ans
  if usable > 0 then ours ⟨h, s.orig⟩ usable
  else
    match orig with
    | some f => return forward ⟨h, s.orig⟩ f
    | none => return (⟨h, s.orig⟩, other, none)

/-- `ferrum_free`, and `TRUE`. -/
def freeOurs (t ptr : Nat) (ans : Answers) (s : Hooked F) (_ : Nat) : Exec (Reply F) := do
  let h ← ferrumFree s.heap t ptr ans
  return (⟨h, s.orig⟩, 1, some (0, .null))

/-- `ferrum_realloc`. -/
def reallocOurs (t ptr size : Nat) (ans : Nat → Answers) (s : Hooked F) (_ : Nat) : Exec (Reply F) := do
  let (h, p, via) ← ferrumRealloc s.heap t ptr size (ans 0) (ans 1) (ans 2)
  return (⟨h, s.orig⟩, p, some (p, via))

/-- The size is known already. -/
def sizeOurs (s : Hooked F) (usable : Nat) : Exec (Reply F) := .ok (s, usable, some (0, .null))

/-- `hooked_heap_alloc`. -/
def hookedHeapAlloc (o : Originals F) (s : Hooked F) (t : Nat) (hheap : Int) (dwflags dwbytes : Nat)
    (ans : Answers) : Exec (Reply F) := do
  let (h, ptr, via) ← ferrumMalloc s.heap t dwbytes ans
  match o.heapAlloc with
  | some orig =>
    if ptr = 0 then return forward ⟨h, s.orig⟩ (orig hheap dwflags dwbytes)
    else return (⟨h, s.orig⟩, ptr, some (ptr, via))
  | none => return (⟨h, s.orig⟩, ptr, some (ptr, via))

/-- `hooked_heap_free`. -/
def hookedHeapFree (o : Originals F) (s : Hooked F) (t : Nat) (hheap : Int) (dwflags lpmem : Nat)
    (ans : Nat → Answers) : Exec (Reply F) :=
  if lpmem = 0 then .ok (s, 1, some (0, .null))
  else routed s lpmem (ans 0) (freeOurs t lpmem (ans 1)) (o.heapFree.map fun orig => orig hheap dwflags lpmem) 1

/-- `hooked_heap_realloc`. -/
def hookedHeapRealloc (o : Originals F) (s : Hooked F) (t : Nat) (hheap : Int) (dwflags lpmem dwbytes : Nat)
    (ans : Nat → Answers) : Exec (Reply F) :=
  if lpmem = 0 then hookedHeapAlloc o s t hheap dwflags dwbytes (ans 0)
  else routed s lpmem (ans 0) (reallocOurs t lpmem dwbytes fun k => ans (k + 1))
    (o.heapReAlloc.map fun orig => orig hheap dwflags lpmem dwbytes) 0

/-- `hooked_heap_size`. -/
def hookedHeapSize (o : Originals F) (s : Hooked F) (hheap : Int) (dwflags lpmem : Nat) (ans : Nat → Answers) :
    Exec (Reply F) :=
  if lpmem = 0 then .ok (s, 0, some (0, .null))
  else routed s lpmem (ans 0) sizeOurs (o.heapSize.map fun orig => orig hheap dwflags lpmem) 0

/-- `hooked_malloc`: it does not fall back. -/
def hookedMalloc (s : Hooked F) (t size : Nat) (ans : Answers) : Exec (Reply F) := do
  let (h, ptr, via) ← ferrumMalloc s.heap t size ans
  return (⟨h, s.orig⟩, ptr, some (ptr, via))

/-- `hooked_free`; it has no value. -/
def hookedFree (o : Originals F) (s : Hooked F) (t ptr : Nat) (ans : Nat → Answers) : Exec (Reply F) :=
  if ptr = 0 then .ok (s, 0, some (0, .null))
  else routed s ptr (ans 0) (freeOurs t ptr (ans 1)) (o.free.map fun orig => orig ptr) 0

/-! ## Calls of hooks -/

/-- A pointer in the hands of a client of the process. -/
inductive Pointer
  | null
  /-- Of a live block of ours. -/
  | ours (b : Block)
  /-- From the functions replaced. -/
  | theirs (q : Nat)

namespace Pointer

def addr : Pointer → Nat
  | null => 0
  | ours b => b.ptr
  | theirs q => q

def block : Pointer → Option Block
  | ours b => some b
  | _ => none

end Pointer

/-- A call of a function that is hooked. -/
inductive HookCall
  | heapAlloc (hheap : Int) (dwflags dwbytes : Nat)
  | heapFree (hheap : Int) (dwflags : Nat) (p : Pointer)
  | heapReAlloc (hheap : Int) (dwflags : Nat) (p : Pointer) (dwbytes : Nat)
  | heapSize (hheap : Int) (dwflags : Nat) (p : Pointer)
  | malloc (size : Nat)
  | free (p : Pointer)

namespace HookCall

/-- The pointer that is passed. -/
def ptr : HookCall → Pointer
  | heapFree _ _ p => p
  | heapReAlloc _ _ p _ => p
  | heapSize _ _ p => p
  | free p => p
  | _ => .null

/-- The entry point that does the work when the allocator is to do it. -/
def call : HookCall → Call
  | heapAlloc _ _ n => .malloc n
  | heapFree _ _ p => .free p.block
  | heapReAlloc _ _ p n => .realloc p.block n
  | heapSize _ _ p => .usableSize p.block
  | malloc n => .malloc n
  | free p => .free p.block

/-- The call by thread `t`, with the operating system's answers to each entry point that it runs. -/
def run (o : Originals F) (s : Hooked F) (t : Nat) (ans : Nat → Answers) : HookCall → Exec (Reply F)
  | heapAlloc hheap dwflags dwbytes => hookedHeapAlloc o s t hheap dwflags dwbytes (ans 0)
  | heapFree hheap dwflags p => hookedHeapFree o s t hheap dwflags p.addr ans
  | heapReAlloc hheap dwflags p dwbytes => hookedHeapRealloc o s t hheap dwflags p.addr dwbytes ans
  | heapSize hheap dwflags p => hookedHeapSize o s hheap dwflags p.addr ans
  | malloc size => hookedMalloc s t size (ans 0)
  | free p => hookedFree o s t p.addr ans

/-- The live blocks after the call. -/
def after (c : HookCall) (l : List Block) (r : Reply F) : List Block :=
  match r.2.2 with
  | some v => c.call.after l (r.1.heap, v)
  | none => l

/-- What is left when the allocator takes the pointer, for each of the hooks that are given one. -/
def ours (t : Nat) (ans : Nat → Answers) : HookCall → Hooked F → Nat → Exec (Reply F)
  | heapFree _ _ p => freeOurs t p.addr (ans 1)
  | heapReAlloc _ _ p n => reallocOurs t p.addr n fun k => ans (k + 1)
  | heapSize _ _ _ => sizeOurs
  | free p => freeOurs t p.addr (ans 1)
  | _ => fun s _ => .ok (s, 0, none)

/-- The function replaced, with its arguments, and what is returned when it is missing. -/
def original (o : Originals F) : HookCall → Option (Original F) × Nat
  | heapAlloc hheap dwflags dwbytes => (o.heapAlloc.map fun orig => orig hheap dwflags dwbytes, 0)
  | heapFree hheap dwflags p => (o.heapFree.map fun orig => orig hheap dwflags p.addr, 1)
  | heapReAlloc hheap dwflags p dwbytes =>
    if p.addr = 0 then (o.heapAlloc.map fun orig => orig hheap dwflags dwbytes, 0)
    else (o.heapReAlloc.map fun orig => orig hheap dwflags p.addr dwbytes, 0)
  | heapSize hheap dwflags p => (o.heapSize.map fun orig => orig hheap dwflags p.addr, 0)
  | malloc _ => (none, 0)
  | free p => (o.free.map fun orig => orig p.addr, 0)

/-- **The test on the pointer is right**: there is a size for a block of ours, and none for one of theirs. -/
def Meant (s : Hooked F) (c : HookCall) (ans : Nat → Answers) : Prop :=
  (∀ b, c.ptr = .ours b → ∀ h u, ferrumUsableSize s.heap b.ptr (ans 0) = .ok (h, u) → 0 < u) ∧
    ∀ q, c.ptr = .theirs q → ∀ h u, ferrumUsableSize s.heap q (ans 0) = .ok (h, u) → u = 0

end HookCall

/-! ## What the hooks come to -/

/-- Only blocks of ours are passed on. -/
theorem HookCall.ptr_of_arg {c : HookCall} {b : Block} (h : c.call.arg = some b) : c.ptr = .ours b := by
  have hblock : ∀ {p : Pointer}, p.block = some b → p = .ours b := by
    intro p hp
    cases p with
    | null => nomatch hp
    | ours b' => exact congrArg _ (Option.some.inj hp)
    | theirs q => nomatch hp
  cases c with
  | heapAlloc _ _ _ => nomatch h
  | malloc _ => nomatch h
  | heapFree _ _ p | heapReAlloc _ _ p _ | heapSize _ _ p | free p => exact hblock h

section

variable {s : Hooked F} {p t : Nat} {ans : Answers} {ours : Hooked F → Nat → Exec (Reply F)}
  {orig : Option (Original F)} {other : Nat} {r : Reply F} {h : Heap} {u : Nat}

/-- The function replaced answers, or nobody. -/
def Passed (s : Hooked F) (orig : Option (Original F)) (other : Nat) (r : Reply F) : Prop :=
  (∃ f, orig = some f ∧ r = forward s f) ∨ (orig = none ∧ r = (s, other, none))

theorem Passed.none (h : Passed s orig other r) : r.2.2 = none := by
  rcases h with ⟨f, _, rfl⟩ | ⟨_, rfl⟩ <;> rfl

/-- **The test on the pointer decides.** -/
theorem routed_ok (hrun : routed s p ans ours orig other = .ok r) :
    ∃ h u, ferrumUsableSize s.heap p ans = .ok (h, u) ∧
      ((0 < u ∧ ours ⟨h, s.orig⟩ u = .ok r) ∨ (u = 0 ∧ Passed ⟨h, s.orig⟩ orig other r)) := by
  unfold routed at hrun
  obtain ⟨⟨h, u⟩, hsize, hrest⟩ := Exec.bind_eq_ok.mp hrun
  refine ⟨h, u, hsize, ?_⟩
  by_cases hu : 0 < u
  · exact .inl ⟨hu, by simpa only [hu, if_true] using hrest⟩
  · refine .inr ⟨Nat.eq_zero_of_not_pos hu, ?_⟩
    simp only [gt_iff_lt, hu, if_false] at hrest
    cases orig with
    | some f => exact .inl ⟨f, rfl, (Except.ok.inj hrest).symm⟩
    | none => exact .inr ⟨rfl, (Except.ok.inj hrest).symm⟩

/-- **The four hooks that are given a pointer are one.** -/
theorem HookCall.run_routed {c : HookCall} (o : Originals F) (s : Hooked F) (t : Nat) (ans : Nat → Answers)
    (hp : c.ptr.addr ≠ 0) :
    c.run o s t ans = routed s c.ptr.addr (ans 0) (c.ours t ans) (c.original o).1 (c.original o).2 := by
  cases c with
  | heapAlloc _ _ _ => exact absurd rfl hp
  | heapFree hheap dwflags p => exact if_neg hp
  | heapReAlloc hheap dwflags p n =>
    have hp' : p.addr ≠ 0 := hp
    have horig : HookCall.original o (.heapReAlloc hheap dwflags p n) =
        (o.heapReAlloc.map fun orig => orig hheap dwflags p.addr n, 0) := if_neg hp'
    rw [horig]
    exact if_neg hp
  | heapSize hheap dwflags p => exact if_neg hp
  | malloc _ => exact absurd rfl hp
  | free p => exact if_neg hp

/-- Freeing, reallocating or sizing a block of ours is a call of the entry point. -/
theorem HookCall.ours_run {c : HookCall} {b : Block} {ans : Nat → Answers} (hp : c.ptr = .ours b)
    (hrun : c.ours t ans s u = .ok r) : ∃ v, r.2.2 = some v ∧
      ((c.call = .usableSize (some b) ∧ r.1 = s ∧ v = (0, .null)) ∨
        ∃ h, c.call.run s.heap t (fun k => ans (k + 1)) = .ok (h, v) ∧ r.1 = ⟨h, s.orig⟩) := by
  have hfree : freeOurs t b.ptr (ans 1) s u = .ok r → ∃ v, r.2.2 = some v ∧
      ∃ h, (Call.free (some b)).run s.heap t (fun k => ans (k + 1)) = .ok (h, v) ∧ r.1 = ⟨h, s.orig⟩ := by
    intro hrun
    obtain ⟨h, hfree, hr⟩ := Exec.bind_eq_ok.mp hrun
    obtain rfl := Except.ok.inj hr
    refine ⟨(0, .null), rfl, h, ?_, rfl⟩
    exact Exec.bind_eq_ok.mpr ⟨h, hfree, rfl⟩
  cases c with
  | heapAlloc _ _ _ => nomatch hp
  | heapFree hheap dwflags p =>
    obtain rfl : p = .ours b := hp
    obtain ⟨v, hv, hcall⟩ := hfree hrun
    exact ⟨v, hv, .inr hcall⟩
  | heapReAlloc hheap dwflags p n =>
    obtain rfl : p = .ours b := hp
    obtain ⟨⟨h, q, via⟩, hrealloc, hr⟩ := Exec.bind_eq_ok.mp hrun
    obtain rfl := Except.ok.inj hr
    exact ⟨(q, via), rfl, .inr ⟨h, hrealloc, rfl⟩⟩
  | heapSize hheap dwflags p =>
    obtain rfl : p = .ours b := hp
    obtain rfl := Except.ok.inj hrun
    exact ⟨(0, .null), rfl, .inl ⟨rfl, rfl, rfl⟩⟩
  | malloc _ => nomatch hp
  | free p =>
    obtain rfl : p = .ours b := hp
    obtain ⟨v, hv, hcall⟩ := hfree hrun
    exact ⟨v, hv, .inr hcall⟩

/-- `ferrum_malloc`, and on failure the function replaced. -/
theorem hookedHeapAlloc_ok {o : Originals F} {hheap : Int} {dwflags n : Nat}
    (hrun : hookedHeapAlloc o s t hheap dwflags n ans = .ok r) :
    ∃ h v, ferrumMalloc s.heap t n ans = .ok (h, v) ∧
      ((r.2.2 = some v ∧ r.1 = ⟨h, s.orig⟩) ∨
        (v.1 = 0 ∧ ∃ g, (o.heapAlloc.map fun orig => orig hheap dwflags n) = some g ∧
          r = forward ⟨h, s.orig⟩ g)) := by
  obtain ⟨⟨h, p, via⟩, hmalloc, hrest⟩ := Exec.bind_eq_ok.mp hrun
  refine ⟨h, (p, via), hmalloc, ?_⟩
  cases horig : o.heapAlloc with
  | none =>
    simp only [horig] at hrest
    obtain rfl := Except.ok.inj hrest
    exact .inl ⟨rfl, rfl⟩
  | some orig =>
    simp only [horig] at hrest
    by_cases hp : p = 0
    · rw [if_pos hp] at hrest
      exact .inr ⟨hp, _, rfl, (Except.ok.inj hrest).symm⟩
    · rw [if_neg hp] at hrest
      obtain rfl := Except.ok.inj hrest
      exact .inl ⟨rfl, rfl⟩

/-- Without a pointer, a hook is an entry point of the same kind; allocation falls back. -/
theorem HookCall.null_run {c : HookCall} {o : Originals F} {ans : Nat → Answers} (hp : c.ptr = .null)
    (hrun : c.run o s t ans = .ok r) : ∃ h v, c.call.run s.heap t (fun _ => ans 0) = .ok (h, v) ∧
      ((r.2.2 = some v ∧ r.1 = ⟨h, s.orig⟩) ∨
        (v.1 = 0 ∧ ∃ g, (c.original o).1 = some g ∧ r = forward ⟨h, s.orig⟩ g)) := by
  cases c with
  | heapAlloc hheap dwflags n => exact hookedHeapAlloc_ok hrun
  | heapFree hheap dwflags p =>
    obtain rfl : p = .null := hp
    obtain rfl := Except.ok.inj hrun
    exact ⟨s.heap, (0, .null), rfl, .inl ⟨rfl, rfl⟩⟩
  | heapReAlloc hheap dwflags p n =>
    obtain rfl : p = .null := hp
    exact hookedHeapAlloc_ok hrun
  | heapSize hheap dwflags p =>
    obtain rfl : p = .null := hp
    obtain rfl := Except.ok.inj hrun
    exact ⟨s.heap, (0, .null), rfl, .inl ⟨rfl, rfl⟩⟩
  | malloc n =>
    obtain ⟨⟨h, p, via⟩, hmalloc, hr⟩ := Exec.bind_eq_ok.mp hrun
    obtain rfl := Except.ok.inj hr
    exact ⟨h, (p, via), hmalloc, .inl ⟨rfl, rfl⟩⟩
  | free p =>
    obtain rfl : p = .null := hp
    obtain rfl := Except.ok.inj hrun
    exact ⟨s.heap, (0, .null), rfl, .inl ⟨rfl, rfl⟩⟩

end

end FerrumAlloc
