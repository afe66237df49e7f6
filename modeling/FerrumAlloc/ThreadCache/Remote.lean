/-
# FerrumAlloc.ThreadCache.Remote -- cross-thread frees, step by step

A thread that frees a block of another thread's slab pushes it on the owner's Treiber stack,
`remote_frees`; the owner takes the whole stack with one swap and frees its nodes. The link of a node
lies in the first eight bytes of the freed slot itself.

Here both sides run in small steps, interleaved in any order. A push (`remote_free_push`) loads the
head, writes the link, and tries a compare-exchange, which may fail for no reason and then reloads the
head. A drain (`drain_remote_frees`) swaps the head with null and then, for one node in each step, reads
the link and calls `SlabAllocator::free`. Between these steps owners allocate and free in their own
slabs, so that a drained slot can be handed out and pushed again, and clients write into live slots.

There may be any number of caches (`ι`) and of pushing threads. A push may go to any cache; the code
picks the owner of the page. Three ghost lists belong to each cache: `pending`, the nodes whose push has
succeeded and that no swap has taken; `taken`, those of its last swap; and `freed`, the nodes its
drain has passed to `SlabAllocator::free` since.
-/
import FerrumAlloc.ThreadCache.Model

namespace FerrumAlloc

open Lib

namespace Remote

open Slab (Slot)

/-- Where a thread stands in `remote_free_push`. -/
inductive Push (ι : Type)
  | idle
  /-- `head` has been loaded; the link is to be written. -/
  | loaded (k : ι) (node head : Nat)
  /-- The link has been written; the compare-exchange is next. -/
  | linked (k : ι) (node head : Nat)

/-- The block a thread is pushing. -/
def Push.node? {ι : Type} : Push ι → Option Nat
  | .idle => none
  | .loaded _ node _ => some node
  | .linked _ node _ => some node

/-- The head a thread has loaded. -/
def Push.head? {ι : Type} : Push ι → Option Nat
  | .idle => none
  | .loaded _ _ head => some head
  | .linked _ _ head => some head

/-- Caches, memory, and the position of every thread. `drain k` is the local `head` of the drain loop
of cache `k`, while it runs. -/
structure State (ι : Type) where
  caches : ι → ThreadCache
  mem : Mem
  push : Nat → Push ι
  drain : ι → Option Nat
  live : List Slot
  pending : ι → List Nat
  taken : ι → List Nat
  freed : ι → List Nat

inductive Event (ι : Type)
  | load (t : Nat) (k : ι) (node : Nat)
  | link (t : Nat)
  | casOk (t : Nat)
  | casFail (t : Nat)
  | swap (k : ι)
  | drain (k : ι)
  | drainEnd (k : ι)
  | alloc (k : ι) (c owner : Nat)
  | allocNoArena (k : ι) (c : Nat)
  | free (k : ι) (ptr : Nat)
  | freeNoArena (k : ι) (ptr : Nat)
  | write (addr : Nat) (byte : UInt8)

section

variable {ι : Type} [DecidableEq ι]

/-- `cache.slab = slab`. -/
def State.setSlab (s : State ι) (k : ι) (slab : SlabAllocator) : ι → ThreadCache :=
  Function.update s.caches k { s.caches k with slab := slab }

/-- `cache.remote_frees = p`. -/
def State.setHead (s : State ι) (k : ι) (p : Nat) : ι → ThreadCache :=
  Function.update s.caches k { s.caches k with remoteFrees := p }

/-- Recording what an allocation through cache `k` returned. -/
def State.issue (s : State ι) (k : ι) (c : Nat) (r : SlabAllocator × Mem × Nat) : State ι :=
  { s with
    caches := s.setSlab k r.1
    mem := r.2.1
    live := if r.2.2 = 0 then s.live else ⟨r.2.2, c⟩ :: s.live }

/-- Recording a free of a live slot through cache `k`. -/
def State.release (s : State ι) (k : ι) (e : Slot) (r : SlabAllocator × Mem) : State ι :=
  { s with caches := s.setSlab k r.1, mem := r.2, live := s.live.erase e }

/-- One step of one thread. The owner of a cache does nothing else while its drain runs. -/
inductive Step (a : Arena) : State ι → Event ι → State ι → Prop
  | load {s : State ι} {t : Nat} {k : ι} {e : Slot} : s.push t = .idle → e ∈ s.live →
      Step a s (.load t k e.ptr) { s with
        push := Function.update s.push t (.loaded k e.ptr (s.caches k).remoteFrees)
        live := s.live.erase e }
  | link {s : State ι} {t : Nat} {k : ι} {node head : Nat} : s.push t = .loaded k node head →
      Step a s (.link t) { s with
        push := Function.update s.push t (.linked k node head)
        mem := write64 s.mem node head }
  | casOk {s : State ι} {t : Nat} {k : ι} {node head : Nat} : s.push t = .linked k node head →
      (s.caches k).remoteFrees = head →
      Step a s (.casOk t) { s with
        push := Function.update s.push t .idle
        caches := s.setHead k node
        pending := Function.update s.pending k (node :: s.pending k) }
  | casFail {s : State ι} {t : Nat} {k : ι} {node head : Nat} : s.push t = .linked k node head →
      Step a s (.casFail t) { s with
        push := Function.update s.push t (.loaded k node (s.caches k).remoteFrees) }
  | swap {s : State ι} {k : ι} : s.drain k = none →
      Step a s (.swap k) { s with
        caches := s.setHead k 0
        drain := Function.update s.drain k (some (s.caches k).remoteFrees)
        pending := Function.update s.pending k []
        taken := Function.update s.taken k (s.pending k)
        freed := Function.update s.freed k [] }
  | drain {s : State ι} {k : ι} {head : Nat} {r : SlabAllocator × Mem} : s.drain k = some head →
      head ≠ 0 → (s.caches k).slab.free s.mem head a = .ok r →
      Step a s (.drain k) { s with
        caches := s.setSlab k r.1
        mem := r.2
        drain := Function.update s.drain k (some (read64 s.mem head))
        freed := Function.update s.freed k (s.freed k ++ [head]) }
  | drainEnd {s : State ι} {k : ι} : s.drain k = some 0 →
      Step a s (.drainEnd k) { s with drain := Function.update s.drain k none }
  | alloc {s : State ι} {k : ι} {c o : Nat} {r : SlabAllocator × Mem × Nat} : s.drain k = none →
      c < numSizeClasses → o < 2 ^ 16 → (s.caches k).slab.alloc s.mem c a o = .ok r →
      Step a s (.alloc k c o) (s.issue k c r)
  | allocNoArena {s : State ι} {k : ι} {c : Nat} {r : SlabAllocator × Mem × Nat} :
      s.drain k = none → c < numSizeClasses → (s.caches k).slab.allocNeedsPage c = .ok false →
      (s.caches k).slab.allocNoArena s.mem c = .ok r → Step a s (.allocNoArena k c) (s.issue k c r)
  | free {s : State ι} {k : ι} {e : Slot} {r : SlabAllocator × Mem} : s.drain k = none →
      e ∈ s.live → (s.caches k).slab.free s.mem e.ptr a = .ok r →
      Step a s (.free k e.ptr) (s.release k e r)
  | freeNoArena {s : State ι} {k : ι} {e : Slot} {r : SlabAllocator × Mem} : s.drain k = none →
      e ∈ s.live →
      (s.caches k).slab.freeNoArena s.mem e.ptr (a.metaPtr (a.ptrToPageIndex e.ptr)) = .ok r →
      Step a s (.freeNoArena k e.ptr) (s.release k e r)
  | write {s : State ι} {e : Slot} {x : Nat} {v : UInt8} : e ∈ s.live → e.ptr ≤ x →
      x < e.ptr + slotSize e.cls → Step a s (.write x v) { s with mem := Function.update s.mem x v }

/-- Runs of caches with empty slabs and empty stacks over an arena just set up. -/
def remoteSystem (ι : Type) [DecidableEq ι] (a : Arena) : System (State ι) (Event ι) where
  init s := (∃ m id, s.mem = a.init m id) ∧ (∀ k, ∃ id, s.caches k = .new id) ∧
    (∀ t, s.push t = .idle) ∧ (∀ k, s.drain k = none) ∧ s.live = [] ∧ ∀ k, s.pending k = []
  step := Step a

end

end Remote

end FerrumAlloc
