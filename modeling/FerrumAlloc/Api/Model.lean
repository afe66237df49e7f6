/-
# FerrumAlloc.Api.Model -- the entry points and the global state

The process-wide state is one record, `Heap`: the memory, the globals of the API, the thread registry, the
thread-local pointers and the thread caches by address. Every entry point is a function of the state, of
the calling thread and of the operating system's answers, and runs without interruption. A null global is
`none`, and using it is `Fault.nullDeref`. A call that finds the spin lock held would wait for ever.

`Backend` is ghost data: the `return` statement through which an allocating call has left. No code depends
on it.
-/
import FerrumAlloc.ThreadCache.Model
import FerrumAlloc.Tlsf.Model
import FerrumAlloc.Huge

namespace FerrumAlloc

open Lib
open Tlsf (TlsfAllocator)

/-- `MAX_THREADS`. -/
def maxThreads : Nat := 128

/-- `owner_id` of a page that belongs to no thread cache. -/
def noOwner : Nat := 0xFFFF

/-- Where an allocation was served. -/
inductive Backend
  | null
  | slab (c : Nat)
  | tlsf
  | bump
  | huge
  deriving DecidableEq, Repr

/-- The operating system's answers during one call: for the arena, for a thread cache, for a huge block. -/
structure Answers where
  arena : Option Nat
  cache : Option Nat
  huge : Option Nat

/-- The state of the process. -/
structure Heap where
  os : Os
  /-- `NEXT_ARENA_ID`. -/
  nextArenaId : Nat
  /-- `ARENA_INIT`. -/
  arenaInit : Bool
  /-- `ARENA_LOCK`. -/
  arenaLock : Bool
  globalArena : Option Arena
  globalSlab : Option SlabAllocator
  globalTlsf : Option TlsfAllocator
  /-- Whether `TLS_KEY` holds a key. -/
  tlsReady : Bool
  /-- The thread-local value of each thread; `0` is null. -/
  tls : Nat → Nat
  /-- `NEXT_THREAD_ID`, a `u16`. -/
  nextThreadId : Nat
  /-- `CACHE_REGISTRY`. -/
  registry : Nat → Nat
  /-- The thread caches, by address. -/
  caches : Nat → ThreadCache

namespace Heap

/-- The state at program start. -/
def boot (bytes : Mem) : Heap where
  os := ⟨bytes, []⟩
  nextArenaId := 1
  arenaInit := false
  arenaLock := false
  globalArena := none
  globalSlab := none
  globalTlsf := none
  tlsReady := false
  tls := fun _ => 0
  nextThreadId := 0
  registry := fun _ => 0
  caches := fun _ => .new 0

def setBytes (h : Heap) (m : Mem) : Heap := { h with os := { h.os with bytes := m } }

def setCache (h : Heap) (p : Nat) (tc : ThreadCache) : Heap :=
  { h with caches := Function.update h.caches p tc }

/-- Storing back the slab of the cache at `p`, with the memory its operation has changed. -/
def setCacheSlab (h : Heap) (p : Nat) (slab : SlabAllocator) (m : Mem) : Heap :=
  (h.setCache p { h.caches p with slab := slab }).setBytes m

end Heap

/-- Dereferencing a global pointer. -/
def derefGlobal {α : Type} : Option α → Exec α
  | none => .error .nullDeref
  | some x => .ok x

/-! ## Locking and initialisation -/

/-- `spin_lock`. -/
def spinLock (h : Heap) : Exec Heap :=
  if h.arenaLock then .error .spinForever else .ok { h with arenaLock := true }

/-- `spin_unlock`. -/
def spinUnlock (h : Heap) : Heap := { h with arenaLock := false }

/-- `init_tls`: a fresh key, null in every thread. -/
def initTls (h : Heap) : Heap := { h with tlsReady := true, tls := fun _ => 0 }

/-- The size of the TLSF pool: 128 pages. -/
def tlsfPoolSize : Nat := 128 * pageSize

/-- The pool for the TLSF allocator, taken from the arena. -/
def initTlsf (h : Heap) (arena : Arena) : Exec Heap := do
  let (m, tlsfPool) := arena.alloc h.os.bytes tlsfPoolSize
  let h := h.setBytes m
  if tlsfPool ≠ 0 then
    let (tlsf, m) ← Tlsf.addPool Tlsf.new h.os.bytes tlsfPool tlsfPoolSize
    return { h.setBytes m with globalTlsf := some tlsf }
  else return h

/-- The body of `ensure_init`. -/
def initGlobals (h : Heap) (answer : Option Nat) : Exec Heap :=
  match Arena.new answer h.nextArenaId h.os with
  | (none, os) => .ok { h with os := os }
  | (some arena, os) => do
    let h := initTls { h with os := os, nextArenaId := (h.nextArenaId + 1) % 2 ^ 32 }
    let h := { h with globalArena := some arena, globalSlab := some .new }
    let h ← initTlsf h arena
    return { h with arenaInit := true }

/-- `ensure_init`. -/
def ensureInit (h : Heap) (answer : Option Nat) : Exec Heap :=
  if h.arenaInit then .ok h
  else do
    let h ← spinLock h
    let h ← initGlobals h answer
    return spinUnlock h

/-! ## Thread caches -/

/-- `ThreadCache::get_or_create`, called by thread `t`. -/
def getOrCreate (h : Heap) (t : Nat) (answer : Option Nat) : Heap × Option Nat :=
  if ¬ h.tlsReady then (h, none)
  else
    let tlsPtr := h.tls t
    if tlsPtr ≠ 0 then (h, some tlsPtr)
    else
      let id := h.nextThreadId
      let h := { h with nextThreadId := (id + 1) % 2 ^ 16 }
      if id ≥ maxThreads then (h, none)
      else
        let (cachePtr, os) := osAlloc answer pageSize h.os
        let h := { h with os := os }
        if cachePtr = 0 then (h, none)
        else
          let h := h.setCache cachePtr (.new id)
          let h := { h with
            registry := Function.update h.registry id cachePtr
            tls := Function.update h.tls t cachePtr }
          (h, some cachePtr)

/-- `remote_free_push`. Nothing runs in between, so the first compare-exchange that does not fail for no
reason succeeds, and one that fails leaves the same state. -/
def remoteFreePush (h : Heap) (targetId ptr : Nat) : Heap :=
  if targetId ≥ maxThreads then h
  else
    let cachePtr := h.registry targetId
    if cachePtr = 0 then h
    else
      let head := (h.caches cachePtr).remoteFrees
      let h := h.setBytes (write64 h.os.bytes ptr head)
      h.setCache cachePtr { h.caches cachePtr with remoteFrees := ptr }

/-! ## `ferrum_malloc` -/

/-- The drain before an allocation, when the stack of the cache is not empty. -/
def drainCache (h : Heap) (tc : Nat) : Exec Heap :=
  if (h.caches tc).remoteFrees = 0 then .ok h
  else do
    let h ← spinLock h
    let arena ← derefGlobal h.globalArena
    let (cache, m) ← (h.caches tc).drainRemoteFrees h.os.bytes arena
    return spinUnlock ((h.setCache tc cache).setBytes m)

/-- The slab allocation through a cache: under the lock when a page is needed. -/
def cacheAlloc (h : Heap) (tc c : Nat) : Exec (Heap × Nat) := do
  if ← (h.caches tc).slab.allocNeedsPage c then
    let h ← spinLock h
    let arena ← derefGlobal h.globalArena
    let (slab, m, p) ← (h.caches tc).slab.alloc h.os.bytes c arena (h.caches tc).id
    return (spinUnlock (h.setCacheSlab tc slab m), p)
  else
    let (slab, m, p) ← (h.caches tc).slab.allocNoArena h.os.bytes c
    return (h.setCacheSlab tc slab m, p)

/-- The part of `ferrum_malloc` for small requests; null when the thread has no cache or its slab has no
slot. -/
def mallocSmall (h : Heap) (t size : Nat) (answer : Option Nat) : Exec (Heap × Nat × Backend) :=
  match sizeToClass size with
  | none => .ok (h, 0, .null)
  | some c =>
    match getOrCreate h t answer with
    | (h, none) => .ok (h, 0, .null)
    | (h, some tc) => do
      let h ← drainCache h tc
      let (h, p) ← cacheAlloc h tc c
      return (h, p, .slab c)

/-- `GLOBAL_TLSF.alloc`, when there is a pool. -/
def tlsfAlloc (h : Heap) (size : Nat) : Exec (Heap × Nat) :=
  match h.globalTlsf with
  | none => .ok (h, 0)
  | some tlsf => do
    let (tlsf, m, p) ← Tlsf.alloc tlsf h.os.bytes size
    return ({ h.setBytes m with globalTlsf := some tlsf }, p)

/-- The slow path of `ferrum_malloc`: TLSF, then the bump allocator. -/
def mallocSlow (h : Heap) (size : Nat) : Exec (Heap × Nat × Backend) := do
  let h ← spinLock h
  let arena ← derefGlobal h.globalArena
  let (h, p) ← tlsfAlloc h size
  if p ≠ 0 then return (spinUnlock h, p, .tlsf)
  else
    let (m, p) := arena.alloc h.os.bytes size
    return (spinUnlock (h.setBytes m), p, .bump)

/-- A huge allocation on the heap. -/
def heapHugeAlloc (h : Heap) (size : Nat) (answer : Option Nat) : Heap × Nat × Backend :=
  let (p, os) := hugeAlloc answer size h.os
  ({ h with os := os }, p, .huge)

/-- `ferrum_malloc`. -/
def ferrumMalloc (h : Heap) (t size : Nat) (ans : Answers) : Exec (Heap × Nat × Backend) :=
  if size = 0 then .ok (h, 0, .null)
  else do
    let h ← ensureInit h ans.arena
    if size ≥ hugeAllocThreshold then return heapHugeAlloc h size ans.huge
    else
      let (h, p, via) ← if size ≤ slabMaxSize then mallocSmall h t size ans.cache else pure (h, 0, .null)
      if p ≠ 0 then return (h, p, via)
      else mallocSlow h size

/-! ## `ferrum_free` -/

/-- The fast path of `ferrum_free`, for slab slots of a thread cache; `none` when it does not apply. -/
def freeFast (h : Heap) (cache : Option Nat) (ptr : Nat) : Exec (Option Heap) :=
  match cache with
  | none => .ok none
  | some tc => do
    let arena ← derefGlobal h.globalArena
    let pageIdx := arena.ptrToPageIndex ptr
    let pm := readMeta h.os.bytes (arena.metaPtr pageIdx)
    if arena.contains ptr ∧ pageIdx > 0 ∧ pm.sizeClass ≠ noClass then
      if pm.ownerId = (h.caches tc).id then
        let (slab, m) ← (h.caches tc).slab.freeNoArena h.os.bytes ptr (arena.metaPtr pageIdx)
        return some (h.setCacheSlab tc slab m)
      else if pm.ownerId ≠ noOwner then return some (remoteFreePush h pm.ownerId ptr)
      else return none
    else return none

/-- A block inside the arena, on the slow path: the global slab, TLSF, or nothing. -/
def freeInArena (h : Heap) (arena : Arena) (ptr : Nat) : Exec Heap :=
  let pageIdx := arena.ptrToPageIndex ptr
  if pageIdx > 0 then
    if (readMeta h.os.bytes (arena.metaPtr pageIdx)).sizeClass ≠ noClass then do
      let slab ← derefGlobal h.globalSlab
      let (slab, m) ← slab.free h.os.bytes ptr arena
      return { h.setBytes m with globalSlab := some slab }
    else
      match h.globalTlsf with
      | none => .ok h
      | some tlsf =>
        if Tlsf.contains tlsf ptr then do
          let (tlsf, m) ← Tlsf.free tlsf h.os.bytes ptr
          return { h.setBytes m with globalTlsf := some tlsf }
        else .ok h
  else .ok h

/-- The slow path of `ferrum_free`. -/
def freeSlow (h : Heap) (ptr : Nat) : Exec Heap := do
  let h ← spinLock h
  let arena ← derefGlobal h.globalArena
  let h ← if arena.contains ptr then freeInArena h arena ptr
    else pure { h with os := hugeFree ptr h.os }
  return spinUnlock h

/-- `ferrum_free`. -/
def ferrumFree (h : Heap) (t ptr : Nat) (ans : Answers) : Exec Heap :=
  if ptr = 0 then .ok h
  else do
    let h ← ensureInit h ans.arena
    let (h, cache) := getOrCreate h t ans.cache
    match ← freeFast h cache ptr with
    | some h => return h
    | none => freeSlow h ptr

/-! ## The other entry points -/

/-- `checked_mul`. -/
def checkedMul (a b : Nat) : Option Nat := if a * b < 2 ^ 64 then some (a * b) else none

/-- `write_bytes(ptr, 0, n)` after an allocation that has not failed. -/
def zeroBlock (r : Heap × Nat × Backend) (n : Nat) : Heap × Nat × Backend :=
  if r.2.1 ≠ 0 then (r.1.setBytes (fill r.1.os.bytes r.2.1 n 0), r.2) else r

/-- `calloc` of the C ABI. -/
def calloc (h : Heap) (t nmemb size : Nat) (ans : Answers) : Exec (Heap × Nat × Backend) :=
  let totalSize := (checkedMul nmemb size).getD 0
  if totalSize = 0 then .ok (h, 0, .null)
  else do
    let r ← ferrumMalloc h t totalSize ans
    return zeroBlock r totalSize

/-- `ferrum_calloc`. -/
def ferrumCalloc (h : Heap) (t count size : Nat) (ans : Answers) : Exec (Heap × Nat × Backend) :=
  match checkedMul count size with
  | none => .ok (h, 0, .null)
  | some total => do
    let r ← ferrumMalloc h t total ans
    return zeroBlock r total

/-- `EINVAL` and `ENOMEM`, as `posix_memalign` returns them. -/
def einval : Nat := 22
def enomem : Nat := 12

/-- `posix_memalign`: the return code, and the pointer it stores when the code is 0. -/
def posixMemalign (h : Heap) (t alignment size : Nat) (ans : Answers) :
    Exec (Heap × Nat × Nat × Backend) :=
  if alignment % 8 ≠ 0 ∨ ¬ alignment.isPowerOfTwo then .ok (h, einval, 0, .null)
  else do
    let (h, p, via) ← if alignment ≤ 16 then ferrumMalloc h t size ans
      else if alignment ≤ 4096 then pure (heapHugeAlloc h size ans.huge)
      else pure (h, 0, .null)
    if p = 0 then return (h, enomem, 0, via)
    else return (h, 0, p, via)

/-- `ferrum_usable_size`, under the lock. -/
def usableSizeLocked (h : Heap) (arena : Arena) (ptr : Nat) : Exec Nat :=
  if arena.contains ptr then
    let pageIdx := arena.ptrToPageIndex ptr
    if pageIdx > 0 then
      let c := (readMeta h.os.bytes (arena.metaPtr pageIdx)).sizeClass
      if c ≠ noClass then classToSize c
      else
        match h.globalTlsf with
        | none => .ok 0
        | some tlsf =>
          if Tlsf.contains tlsf ptr then .ok (Tlsf.usableSize h.os.bytes ptr) else .ok 0
    else .ok 0
  else .ok (hugeUsableSize ptr h.os.bytes)

/-- `ferrum_usable_size`. -/
def ferrumUsableSize (h : Heap) (ptr : Nat) (ans : Answers) : Exec (Heap × Nat) :=
  if ptr = 0 then .ok (h, 0)
  else do
    let h ← ensureInit h ans.arena
    let h ← spinLock h
    let arena ← derefGlobal h.globalArena
    let size ← usableSizeLocked h arena ptr
    return (spinUnlock h, size)

/-- `copy_nonoverlapping(ptr, new_ptr, n)` and the free of the old block. -/
def moveBlock (h : Heap) (t ptr newPtr n : Nat) (ans : Answers) : Exec Heap :=
  ferrumFree (h.setBytes (copyRange h.os.bytes ptr newPtr n)) t ptr ans

/-- `ferrum_realloc`, with the answers during its `ferrum_usable_size`, `ferrum_malloc` and
`ferrum_free`. -/
def ferrumRealloc (h : Heap) (t ptr newSize : Nat) (ans₁ ans₂ ans₃ : Answers) :
    Exec (Heap × Nat × Backend) :=
  if ptr = 0 then ferrumMalloc h t newSize ans₂
  else if newSize = 0 then do
    let h ← ferrumFree h t ptr ans₃
    return (h, 0, .null)
  else do
    let (h, oldSize) ← ferrumUsableSize h ptr ans₁
    let (h, newPtr, via) ← ferrumMalloc h t newSize ans₂
    if newPtr ≠ 0 then
      let copySize := if oldSize > 0 then min oldSize newSize else newSize
      let h ← moveBlock h t ptr newPtr copySize ans₃
      return (h, newPtr, via)
    else return (h, newPtr, via)

end FerrumAlloc
