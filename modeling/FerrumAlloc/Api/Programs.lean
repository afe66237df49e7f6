/-
# FerrumAlloc.Api.Programs -- the entry points, step by step

The functions of `Api.Model` run without interruption. Here are the same functions as programs of one
thread among others: a step does at most one thing that another thread could see half done. Loads and stores
of atomics are steps of their own, and so is every attempt of a compare-exchange. What the lock guards, and
what belongs to one thread (its cache and the blocks in its hands), is read and written in one step. The
operating system maps and unmaps at once; a fresh page is written before anybody knows of it.

The operations of a slab are single steps too, though they take no lock, and read and write the records of its
pages. This is right as long as no other thread works on the same page: the cache has its identifier to itself,
and nobody frees a slot through the global slab for want of a cache (`Process.Orderly`). Then others leave the
lists, records and free lists alone (`Process.SameOwn`); they read no more of a record than its class and its
owner, which are settled before a slot of the page is handed out.

`ARENA_INIT` is set by a step of its own, behind the step that writes the globals. Without the lock only a thread
that was refused an arena looks at these earlier, and finds at worst that `GLOBAL_ARENA` is null still.

`spin_lock` waits until it finds the lock free. `compare_exchange_weak` may fail for no reason, as `weak` says for
each attempt.

`Call.solo` (`Api.Solo`) compares the two: alone, a program does what the function does.
-/
import FerrumAlloc.Api.System
import FerrumAlloc.Lib.Threads

namespace FerrumAlloc

open Lib

/-- A program on the heap. -/
abbrev Proc : Type → Type 1 := Prog Fault Heap

/-- The arena and the other globals are written, but not `ARENA_INIT`; `false` when the operating system
refuses the arena. -/
def initStorage (h : Heap) (answer : Option Nat) : Exec (Heap × Bool) :=
  match Arena.new answer h.nextArenaId h.os with
  | (none, os) => .ok ({ h with os := os }, false)
  | (some arena, os) => do
    let h := initTls { h with os := os, nextArenaId := (h.nextArenaId + 1) % 2 ^ 32 }
    let h := { h with globalArena := some arena, globalSlab := some .new }
    let h ← initTlsf h arena
    return (h, true)

/-- `os_alloc` of a page for the cache of thread `t`, and the stores of its address in the registry and in
the thread-local variable. -/
def register (h : Heap) (t id : Nat) (answer : Option Nat) : Heap × Nat :=
  let (cachePtr, os) := osAlloc answer pageSize h.os
  let h := { h with os := os }
  if cachePtr = 0 then (h, 0)
  else
    let h := h.setCache cachePtr (.new id)
    let h := { h with
      registry := Function.update h.registry id cachePtr
      tls := Function.update h.tls t cachePtr }
    (h, cachePtr)

/-- The block at `ptr` goes back under the lock: into the arena or to the operating system. -/
def freeLocked (h : Heap) (arena : Arena) (ptr : Nat) : Exec Heap :=
  if arena.contains ptr then freeInArena h arena ptr else .ok { h with os := hugeFree ptr h.os }

namespace Proc

variable {α : Type}

/-! ## Steps -/

/-- One step on the heap. -/
def atomically (f : Heap → Exec (Heap × α)) : Proc α :=
  .atom fun h =>
    match f h with
    | .ok r => .done r.1 r.2
    | .error e => .fault e

def load (f : Heap → α) : Proc α := atomically fun h => .ok (h, f h)

def store (f : Heap → Heap) : Proc Unit := atomically fun h => .ok (f h, ())

/-- `spin_lock`. -/
def spinLock : Proc Unit :=
  .atom fun h => if h.arenaLock then .wait else .done { h with arenaLock := true } ()

/-- `spin_unlock`. -/
def spinUnlock : Proc Unit := store FerrumAlloc.spinUnlock

/-- `*GLOBAL_ARENA`. -/
def derefArena : Proc Arena := atomically fun h => do
  let arena ← derefGlobal h.globalArena
  return (h, arena)

/-! ## Initialisation -/

/-- The second check of `ensure_init`, under the lock, and what follows from it. -/
def initOnce (answer : Option Nat) : Proc Unit := do
  if ← load (·.arenaInit) then return ()
  else
    if ← atomically fun h => initStorage h answer then
      store fun h => { h with arenaInit := true }
    else return ()

/-- `ensure_init`. -/
def ensureInit (answer : Option Nat) : Proc Unit := do
  if ← load (·.arenaInit) then return ()
  else
    spinLock
    initOnce answer
    spinUnlock

/-! ## Thread caches -/

/-- `NEXT_THREAD_ID.fetch_add(1)`. -/
def takeId : Proc Nat := atomically fun h =>
  .ok ({ h with nextThreadId := (h.nextThreadId + 1) % 2 ^ 16 }, h.nextThreadId)

/-- A cache for a thread that has none. -/
def createCache (t : Nat) (answer : Option Nat) : Proc (Option Nat) := do
  let id ← takeId
  if id ≥ maxThreads then return none
  else
    let cachePtr ← atomically fun h => .ok (register h t id answer)
    return if cachePtr = 0 then none else some cachePtr

/-- `ThreadCache::get_or_create`. -/
def getOrCreate (t : Nat) (answer : Option Nat) : Proc (Option Nat) := do
  if ← load (·.tlsReady) then
    let tlsPtr ← load (·.tls t)
    if tlsPtr ≠ 0 then return some tlsPtr else createCache t answer
  else return none

/-- One attempt to push `ptr` on the stack of the cache at `cachePtr`, which was seen with `head` on top:
the link is written, then the compare-exchange. -/
def pushOnce (weak : Nat → Bool) (cachePtr ptr : Nat) (s : Nat × Nat) : Proc ((Nat × Nat) ⊕ Unit) := do
  store fun h => h.setBytes (write64 h.os.bytes ptr s.2)
  atomically fun h =>
    let head := (h.caches cachePtr).remoteFrees
    if head = s.2 ∧ weak s.1 = false then
      .ok (h.setCache cachePtr { h.caches cachePtr with remoteFrees := ptr }, .inr ())
    else .ok (h, .inl (s.1 + 1, head))

/-- `remote_free_push`. -/
def remoteFreePush (weak : Nat → Bool) (targetId ptr : Nat) : Proc Unit := do
  if targetId ≥ maxThreads then return ()
  else
    let cachePtr ← load fun h => h.registry targetId
    if cachePtr = 0 then return ()
    else
      let head ← load fun h => (h.caches cachePtr).remoteFrees
      .repeat (pushOnce weak cachePtr ptr) (0, head)

/-- `remote_frees.swap(null)`. -/
def swapRemote (tc : Nat) : Proc Nat := atomically fun h =>
  .ok (h.setCache tc { h.caches tc with remoteFrees := 0 }, (h.caches tc).remoteFrees)

/-- One round of the loop of `drain_remote_frees`. -/
def drainNode (tc : Nat) (arena : Arena) (head : Nat) : Proc (Nat ⊕ Unit) := do
  if head = 0 then return .inr ()
  else
    let next ← load fun h => read64 h.os.bytes head
    atomically fun h => do
      let r ← (h.caches tc).slab.free h.os.bytes head arena
      return (h.setCacheSlab tc r.1 r.2, .inl next)

/-- `drain_remote_frees`. -/
def drainRemoteFrees (tc : Nat) (arena : Arena) : Proc Unit := do
  let head ← swapRemote tc
  .repeat (drainNode tc arena) head

/-! ## `ferrum_malloc` -/

/-- The drain before an allocation. -/
def drainCache (tc : Nat) : Proc Unit := do
  let head ← load fun h => (h.caches tc).remoteFrees
  if head = 0 then return ()
  else
    spinLock
    let arena ← derefArena
    drainRemoteFrees tc arena
    spinUnlock

/-- A slot of a new page, under the lock. -/
def allocLocked (tc c : Nat) : Proc Nat := do
  spinLock
  let arena ← derefArena
  let p ← atomically fun h => do
    let r ← (h.caches tc).slab.alloc h.os.bytes c arena (h.caches tc).id
    return (h.setCacheSlab tc r.1 r.2.1, r.2.2)
  spinUnlock
  return p

/-- The slab allocation through a cache. -/
def cacheAlloc (tc c : Nat) : Proc Nat := do
  let needsPage ← atomically fun h => do
    let needsPage ← (h.caches tc).slab.allocNeedsPage c
    return (h, needsPage)
  if needsPage then allocLocked tc c
  else
    -- one step without the lock: in orderly runs the page is out of the others' reach
    atomically fun h => do
      let r ← (h.caches tc).slab.allocNoArena h.os.bytes c
      return (h.setCacheSlab tc r.1 r.2.1, r.2.2)

/-- A slot from the cache of the thread, or null. -/
def allocThrough (cache : Option Nat) (c : Nat) : Proc (Nat × Backend) :=
  match cache with
  | none => return (0, .null)
  | some tc => do
    drainCache tc
    let p ← cacheAlloc tc c
    return (p, .slab c)

/-- The part of `ferrum_malloc` for small requests. -/
def mallocSmall (t size : Nat) (answer : Option Nat) : Proc (Nat × Backend) :=
  match sizeToClass size with
  | none => return (0, .null)
  | some c => do
    let cache ← getOrCreate t answer
    allocThrough cache c

/-- The bump allocator, when the pool has refused. -/
def allocPages (arena : Arena) (size : Nat) : Proc (Nat × Backend) := do
  let p ← atomically fun h =>
    let r := arena.alloc h.os.bytes size
    .ok (h.setBytes r.1, r.2)
  spinUnlock
  return (p, .bump)

/-- The slow path of `ferrum_malloc`. -/
def mallocSlow (size : Nat) : Proc (Nat × Backend) := do
  spinLock
  let arena ← derefArena
  let p ← atomically fun h => tlsfAlloc h size
  if p ≠ 0 then
    spinUnlock
    return (p, .tlsf)
  else allocPages arena size

/-- `huge_alloc`. -/
def hugeAlloc (size : Nat) (answer : Option Nat) : Proc (Nat × Backend) :=
  atomically fun h => .ok (heapHugeAlloc h size answer)

/-- The way through the cache, for requests that are small enough. -/
def trySmall (t size : Nat) (answer : Option Nat) : Proc (Nat × Backend) :=
  if size ≤ slabMaxSize then mallocSmall t size answer else return (0, .null)

/-- `ferrum_malloc`. -/
def ferrumMalloc (t size : Nat) (ans : Answers) : Proc (Nat × Backend) := do
  if size = 0 then return (0, .null)
  else
    ensureInit ans.arena
    if size ≥ hugeAllocThreshold then hugeAlloc size ans.huge
    else
      let r ← trySmall t size ans.cache
      if r.1 ≠ 0 then return r else mallocSlow size

/-! ## `ferrum_free` -/

/-- A slot goes back to the slab of the thread's cache. -/
def freeLocal (tc : Nat) (arena : Arena) (ptr : Nat) : Proc Unit := atomically fun h => do
  -- one step without the lock, for the same reason
  let r ← (h.caches tc).slab.freeNoArena h.os.bytes ptr (arena.metaPtr (arena.ptrToPageIndex ptr))
  return (h.setCacheSlab tc r.1 r.2, ())

/-- A slot of a slab page goes to the cache of the thread or to the stack of another one; `false` when
neither applies. -/
def freeSlot (weak : Nat → Bool) (tc : Nat) (arena : Arena) (ptr : Nat) (pm : PageMeta) : Proc Bool := do
  let id ← load fun h => (h.caches tc).id
  if pm.ownerId = id then
    freeLocal tc arena ptr
    return true
  else if pm.ownerId ≠ noOwner then
    remoteFreePush weak pm.ownerId ptr
    return true
  else return false

/-- The fast path of `ferrum_free`; `false` when it does not apply. -/
def freeFast (weak : Nat → Bool) (cache : Option Nat) (ptr : Nat) : Proc Bool :=
  match cache with
  | none => return false
  | some tc => do
    let arena ← derefArena
    if arena.contains ptr ∧ arena.ptrToPageIndex ptr > 0 then
      let pm ← load fun h => readMeta h.os.bytes (arena.metaPtr (arena.ptrToPageIndex ptr))
      if pm.sizeClass ≠ noClass then freeSlot weak tc arena ptr pm else return false
    else return false

/-- The slow path of `ferrum_free`. -/
def freeSlow (ptr : Nat) : Proc Unit := do
  spinLock
  let arena ← derefArena
  -- in orderly runs no slot comes here: the lock would not keep its owner out
  atomically fun h => do
    let h ← freeLocked h arena ptr
    return (h, ())
  spinUnlock

/-- `ferrum_free`. -/
def ferrumFree (weak : Nat → Bool) (t ptr : Nat) (ans : Answers) : Proc Unit := do
  if ptr = 0 then return ()
  else
    ensureInit ans.arena
    let cache ← getOrCreate t ans.cache
    let done ← freeFast weak cache ptr
    if done then return () else freeSlow ptr

/-! ## The other entry points -/

/-- `write_bytes(ptr, 0, n)` after an allocation that has not failed. -/
def zeroBlock (n : Nat) (r : Nat × Backend) : Proc (Nat × Backend) := do
  if r.1 ≠ 0 then
    store fun h => h.setBytes (fill h.os.bytes r.1 n 0)
    return r
  else return r

/-- `calloc` of the C ABI. -/
def calloc (t nmemb size : Nat) (ans : Answers) : Proc (Nat × Backend) := do
  let totalSize := (checkedMul nmemb size).getD 0
  if totalSize = 0 then return (0, .null)
  else
    let r ← ferrumMalloc t totalSize ans
    zeroBlock totalSize r

/-- `ferrum_calloc`. -/
def ferrumCalloc (t count size : Nat) (ans : Answers) : Proc (Nat × Backend) :=
  match checkedMul count size with
  | none => return (0, .null)
  | some total => do
    let r ← ferrumMalloc t total ans
    zeroBlock total r

/-- `posix_memalign`, without its return code. -/
def posixMemalign (t alignment size : Nat) (ans : Answers) : Proc (Nat × Backend) :=
  if alignment % 8 ≠ 0 ∨ ¬ alignment.isPowerOfTwo then return (0, .null)
  else if alignment ≤ 16 then ferrumMalloc t size ans
  else if alignment ≤ 4096 then hugeAlloc size ans.huge
  else return (0, .null)

/-- `ferrum_usable_size`. -/
def ferrumUsableSize (ptr : Nat) (ans : Answers) : Proc Nat := do
  if ptr = 0 then return 0
  else
    ensureInit ans.arena
    spinLock
    let arena ← derefArena
    let size ← atomically fun h => do
      let size ← usableSizeLocked h arena ptr
      return (h, size)
    spinUnlock
    return size

/-- The move of a block by `ferrum_realloc`, behind its allocation. -/
def moveBlock (weak : Nat → Bool) (t ptr n : Nat) (ans : Answers) (r : Nat × Backend) :
    Proc (Nat × Backend) := do
  if r.1 ≠ 0 then
    store fun h => h.setBytes (copyRange h.os.bytes ptr r.1 n)
    ferrumFree weak t ptr ans
    return r
  else return r

/-- `ferrum_realloc`. -/
def ferrumRealloc (weak : Nat → Bool) (t ptr newSize : Nat) (ans₁ ans₂ ans₃ : Answers) :
    Proc (Nat × Backend) := do
  if ptr = 0 then ferrumMalloc t newSize ans₂
  else if newSize = 0 then
    ferrumFree weak t ptr ans₃
    return (0, .null)
  else
    let oldSize ← ferrumUsableSize ptr ans₁
    let r ← ferrumMalloc t newSize ans₂
    moveBlock weak t ptr (if oldSize > 0 then min oldSize newSize else newSize) ans₃ r

end Proc

/-- **The call of thread `t` as a program.** It returns the pointer handed out and its backend. -/
def Call.proc (t : Nat) (ans : Nat → Answers) (weak : Nat → Bool) : Call → Proc (Nat × Backend)
  | malloc n => Proc.ferrumMalloc t n (ans 0)
  | calloc nmemb size => Proc.calloc t nmemb size (ans 0)
  | ferrumCalloc count size => Proc.ferrumCalloc t count size (ans 0)
  | posixMemalign alignment n => Proc.posixMemalign t alignment n (ans 0)
  | realloc b n => Proc.ferrumRealloc weak t (ptrOf b) n (ans 0) (ans 1) (ans 2)
  | free b => do
    Proc.ferrumFree weak t (ptrOf b) (ans 0)
    return (0, .null)
  | usableSize b => do
    let _ ← Proc.ferrumUsableSize (ptrOf b) (ans 0)
    return (0, .null)

end FerrumAlloc
