/-
# FerrumAlloc.Api.Acts -- what calls do to the heap, one act at a time

Every entry point is a sequence of a few elementary acts: a cache is made, a slot is served or put back,
a block is pushed on a stack or taken off it, the pool gives or takes a block, pages are issued, a mapping
comes or goes. `Act` lists them with their exact effect on heap, view and live blocks; the entry points
are compared with it in `Api.Calls`. An act is done by a thread `t`.

Two acts are not always harmless, so `Act` carries a condition for each: `dup` must hold where a cache is
made under an identifier that is in the registry already, and `lone` must hold of view and page where a
slot is put back through the global slab.
-/
import FerrumAlloc.Api.Blocks

namespace FerrumAlloc

open Lib
open Tlsf (TlsfAllocator Blk)

/-- A heap with its view and the live blocks. -/
structure Conf where
  heap : Heap
  view : View
  live : List Block

/-! ## Changes of the heap -/

namespace Heap

/-- The state after a successful `ensure_init`. -/
def setup (h : Heap) (a : Arena) (tlsf : TlsfAllocator) (m : Mem) : Heap :=
  { h with
    os := ⟨m, ⟨a.base, 2097152⟩ :: h.os.maps⟩
    nextArenaId := (h.nextArenaId + 1) % 2 ^ 32
    arenaInit := true
    globalArena := some a
    globalSlab := some .new
    globalTlsf := some tlsf
    tlsReady := true
    tls := fun _ => 0 }

/-- An identifier is used up. -/
def attempt (h : Heap) : Heap := { h with nextThreadId := (h.nextThreadId + 1) % 2 ^ 16 }

/-- Thread `t` gets the cache at `p`. -/
def create (h : Heap) (t p : Nat) (m : Mem) : Heap :=
  { h with
    os := ⟨m, ⟨p, 4096⟩ :: h.os.maps⟩
    nextThreadId := (h.nextThreadId + 1) % 2 ^ 16
    tls := Function.update h.tls t p
    registry := Function.update h.registry h.nextThreadId p
    caches := Function.update h.caches p (.new h.nextThreadId) }

/-- Storing back a slab of the family, with the memory its operation has changed. -/
def setSlab (h : Heap) (k : Option Nat) (s : SlabAllocator) (m : Mem) : Heap :=
  match k with
  | none => { h.setBytes m with globalSlab := some s }
  | some p => h.setCacheSlab p s m

/-- The block at the top of the stack of the cache at `p` has gone to its slab `s`. -/
def pop (h : Heap) (p : Nat) (s : SlabAllocator) (m : Mem) : Heap :=
  (h.setCache p { h.caches p with slab := s, remoteFrees := read64 h.os.bytes (h.remote p) }).setBytes m

/-- The block at `x` is pushed on the stack of the cache at `p`. -/
def push (h : Heap) (p x : Nat) : Heap :=
  (h.setBytes (write64 h.os.bytes x (h.remote p))).setCache p { h.caches p with remoteFrees := x }

/-- Storing back the TLSF allocator. -/
def setTlsf (h : Heap) (tlsf : TlsfAllocator) (m : Mem) : Heap :=
  { h.setBytes m with globalTlsf := some tlsf }

def setOs (h : Heap) (os : Os) : Heap := { h with os := os }

/-! The slabs and the heads of the stacks after each change. -/

variable (h : Heap) (p x : Nat) (tc : ThreadCache) (s : SlabAllocator) (m : Mem)

theorem slabs_setCache : (h.setCache p tc).slabs = Function.update h.slabs (some p) tc.slab := by
  funext k
  cases k with
  | none => simp [slabs, setCache]
  | some q =>
    by_cases hq : q = p
    · simp [slabs, setCache, hq]
    · simp [slabs, setCache, hq]

theorem remote_setCache : (h.setCache p tc).remote = Function.update h.remote p tc.remoteFrees := by
  funext q
  by_cases hq : q = p
  · simp [remote, setCache, hq]
  · simp [remote, setCache, hq]

theorem slabs_setSlab (k : Option Nat) : (h.setSlab k s m).slabs = Function.update h.slabs k s := by
  cases k with
  | none =>
    funext k
    cases k with
    | none => simp [slabs, setSlab]
    | some q => simp [slabs, setSlab, setBytes]
  | some p => exact slabs_setCache h p { h.caches p with slab := s }

theorem remote_setSlab (k : Option Nat) : (h.setSlab k s m).remote = h.remote := by
  cases k with
  | none => rfl
  | some p =>
    refine (remote_setCache h p { h.caches p with slab := s }).trans ?_
    exact Function.update_eq_self p h.remote

theorem slabs_pop : (h.pop p s m).slabs = Function.update h.slabs (some p) s :=
  slabs_setCache h p { h.caches p with slab := s, remoteFrees := read64 h.os.bytes (h.remote p) }

theorem remote_pop :
    (h.pop p s m).remote = Function.update h.remote p (read64 h.os.bytes (h.remote p)) :=
  remote_setCache h p { h.caches p with slab := s, remoteFrees := read64 h.os.bytes (h.remote p) }

theorem slabs_push : (h.push p x).slabs = h.slabs := by
  refine (slabs_setCache (h.setBytes (write64 h.os.bytes x (h.remote p))) p
    { h.caches p with remoteFrees := x }).trans ?_
  exact Function.update_eq_self (some p) h.slabs

theorem remote_push : (h.push p x).remote = Function.update h.remote p x :=
  remote_setCache (h.setBytes (write64 h.os.bytes x (h.remote p))) p
    { h.caches p with remoteFrees := x }

end Heap

/-! ## Changes of the view -/

namespace View

/-- The view of an arena just set up. -/
def fresh (a : Arena) (tlsf : TlsfAllocator) : View where
  arena := a
  tlsf := tlsf
  made := []
  g := .empty none
  maker := fun _ => 0
  role := fun _ => .free
  stack := fun _ => []
  bs := [⟨Tlsf.poolPayload tlsfPoolSize, true⟩]
  L := Tlsf.file (fun _ _ => []) (a.base + 20480) (Tlsf.poolPayload tlsfPoolSize)

/-- The slot at `x`, in page `i`, is served by the cache at `p`. -/
def serve (v : View) (g : Ghost (Option Nat)) (p i x : Nat) : View :=
  { v with
    g := g
    maker := if v.g.cls i = none then Function.update v.maker i p else v.maker
    role := Function.update v.role x .live }

/-- Slot `j` of page `i` is put back through slab `k`. -/
def put (v : View) (k : Option Nat) (c i j : Nat) : View :=
  { v with
    g := v.g.put v.arena k c i j
    role := Function.update v.role (v.arena.slotAddr i c j) .free }

/-- The slot at the top of the stack of the cache at `p` is put back. -/
def pop (v : View) (p c i j : Nat) : View :=
  { v.put (some p) c i j with stack := Function.update v.stack p (v.stack p).tail }

/-- The slot at `x` goes to the stack of the cache at `p`. -/
def push (v : View) (p x : Nat) : View :=
  { v with
    role := Function.update v.role x (.stacked p)
    stack := Function.update v.stack p (x :: v.stack p) }

/-- The pool has changed. -/
def setPool (v : View) (tlsf : TlsfAllocator) (bs : List Blk) (L : Nat → Nat → List Nat) : View :=
  { v with tlsf := tlsf, bs := bs, L := L }

end View

/-! ## The acts -/

/-- What a successful initialisation gives. -/
structure Sets (h : Heap) (a : Arena) (tlsf : TlsfAllocator) (m : Mem) : Prop where
  init : h.arenaInit = false
  grant : Grantable h.os.maps 2097152 a.base
  slabs : SlabSide m (fun _ => .new) (fun _ => 0) (View.fresh a tlsf)
  pool : PoolSide m (View.fresh a tlsf)
  next : a.nextFreePage m = firstPage
  bytes : Set.EqOn m h.os.bytes (Region.bytes ⟨a.base, 2097152⟩)ᶜ

/-- A cache is made for thread `t` at `p`. -/
structure Creates (h : Heap) (t p : Nat) (m : Mem) : Prop where
  init : h.arenaInit = true
  none : h.tls t = 0
  id : h.nextThreadId < maxThreads
  grant : Grantable h.os.maps 4096 p
  bytes : Set.EqOn m h.os.bytes (Region.bytes ⟨p, 4096⟩)ᶜ

/-- The slab of the cache at `p` serves slot `j` of page `i`. -/
structure Serves (h : Heap) (v : View) (p c i j : Nat) (s : SlabAllocator) (m : Mem)
    (g : Ghost (Option Nat)) : Prop where
  init : h.arenaInit = true
  cache : p ∈ v.made
  cls : c < numSizeClasses
  room : v.arena.nextFreePage h.os.bytes < pagesPerArena ∨ v.g.parts (some p, c) ≠ []
  served : Served v.arena v.g (v.arena.nextFreePage h.os.bytes) (some p) c (h.caches p).id g i j
  inv : SlabInv v.arena m (Function.update h.slabs (some p) s) g
  bytes : Set.EqOn m h.os.bytes
    (allocBytes v.arena v.g (v.arena.nextFreePage h.os.bytes) (some p) c)ᶜ

/-- Slot `j` of page `i` is put back through slab `k`. -/
structure Puts (h : Heap) (v : View) (k : Option Nat) (c i j : Nat) (s : SlabAllocator) (m : Mem) :
    Prop where
  init : h.arenaInit = true
  cache : ∀ p, k = some p → p ∈ v.made
  used : v.g.Used i c j
  inv : SlabInv v.arena m (Function.update h.slabs k s) (v.g.put v.arena k c i j)
  bytes : Set.EqOn m h.os.bytes (SlabInv.freeBytes v.arena v.g k i c j)ᶜ

/-- Pages are issued for a request of `n` bytes. -/
structure Issues (h : Heap) (v : View) (n : Nat) (m : Mem) : Prop where
  init : h.arenaInit = true
  pos : 0 < n
  lt : n < hugeAllocThreshold
  run : v.arena.alloc h.os.bytes n = (m, v.arena.pageAddr (v.arena.nextFreePage h.os.bytes))
  room : v.arena.nextFreePage h.os.bytes + (n + 4095) / 4096 ≤ pagesPerArena
  next : v.arena.nextFreePage m = v.arena.nextFreePage h.os.bytes + (n + 4095) / 4096
  bytes : Set.EqOn m h.os.bytes v.arena.metaRegionᶜ

/-- A mapping is granted for a huge request of `n` bytes. -/
structure Maps (h : Heap) (n base : Nat) (os : Os) : Prop where
  grant : Grantable h.os.maps (hugeTotal n) base
  maps : os.maps = ⟨base, hugeTotal n⟩ :: h.os.maps
  huge : HugeAt os (base + 4096) (hugeTotal n)
  bytes : Set.EqOn os.bytes h.os.bytes (Region.bytes ⟨base, hugeTotal n⟩)ᶜ

/-- No condition on view and page. -/
def Anywhere (_ : View) (_ : Nat) : Prop := True

/-- **The elementary acts** of a call by thread `t`. -/
inductive Act (t : Nat) (dup : Prop) (lone : View → Nat → Prop) : Conf → Conf → Prop
  /-- `ensure_init` succeeds. -/
  | setup {h : Heap} {v : View} {l : List Block} {a : Arena} {tlsf : TlsfAllocator} {m : Mem} :
      Sets h a tlsf m → Act t dup lone ⟨h, v, l⟩ ⟨h.setup a tlsf m, .fresh a tlsf, l⟩
  /-- `get_or_create` takes an identifier and returns `None`. -/
  | attempt {h : Heap} {v : View} {l : List Block} : h.arenaInit = true → h.tls t = 0 →
      Act t dup lone ⟨h, v, l⟩ ⟨h.attempt, v, l⟩
  /-- `get_or_create` makes a cache. -/
  | create {h : Heap} {v : View} {l : List Block} {p : Nat} {m : Mem} : Creates h t p m →
      (h.registry h.nextThreadId ≠ 0 → dup) →
      Act t dup lone ⟨h, v, l⟩ ⟨h.create t p m, { v with made := p :: v.made }, l⟩
  /-- One step of a drain. -/
  | pop {h : Heap} {v : View} {l : List Block} {p c i j : Nat} {s : SlabAllocator} {m : Mem} :
      Puts h v (some p) c i j s m → h.tls t = p → h.remote p = v.arena.slotAddr i c j →
      Act t dup lone ⟨h, v, l⟩ ⟨h.pop p s m, v.pop p c i j, l⟩
  /-- A slot is handed out. -/
  | serve {h : Heap} {v : View} {l : List Block} {p c i j n : Nat} {s : SlabAllocator} {m : Mem}
      {g : Ghost (Option Nat)} : Serves h v p c i j s m g → h.tls t = p → sizeToClass n = some c →
      Act t dup lone ⟨h, v, l⟩ ⟨h.setSlab (some p) s m, v.serve g p i (v.arena.slotAddr i c j),
        ⟨v.arena.slotAddr i c j, n, .slab c, slotSize c⟩ :: l⟩
  /-- A slot comes back through the slab of the thread's cache, or through the global slab. -/
  | put {h : Heap} {v : View} {l : List Block} {k : Option Nat} {c i j : Nat} {s : SlabAllocator}
      {m : Mem} {b : Block} : Puts h v k c i j s m → b ∈ l → b.via = .slab c →
      b.ptr = v.arena.slotAddr i c j →
      (∀ p, k = some p → h.tls t = p ∧ v.g.owner i = (h.caches p).id) → (k = none → lone v i) →
      Act t dup lone ⟨h, v, l⟩ ⟨h.setSlab k s m, v.put k c i j, l.erase b⟩
  /-- A slot goes to the stack of the cache that is registered for the owner of its page. -/
  | push {h : Heap} {v : View} {l : List Block} {c i j : Nat} {b : Block} : h.arenaInit = true →
      v.g.Used i c j → b ∈ l → b.via = .slab c → b.ptr = v.arena.slotAddr i c j →
      Act t dup lone ⟨h, v, l⟩ ⟨h.push (h.registry (v.g.owner i)) b.ptr,
        v.push (h.registry (v.g.owner i)) b.ptr, l.erase b⟩
  /-- The pool gives a block. -/
  | carve {h : Heap} {v : View} {l : List Block} {n p : Nat} {tlsf : TlsfAllocator} {m : Mem}
      {bs : List Blk} {L : Nat → Nat → List Nat} : h.arenaInit = true → n ≤ usizeMax - 16 →
      Tlsf.Allocated v.tlsf h.os.bytes v.bs v.L n tlsf m bs L p →
      Act t dup lone ⟨h, v, l⟩ ⟨h.setTlsf tlsf m, v.setPool tlsf bs L,
        ⟨p, n, .tlsf, Tlsf.usableSize m p⟩ :: l⟩
  /-- The pool takes a block back. -/
  | release {h : Heap} {v : View} {l : List Block} {b : Block} {tlsf : TlsfAllocator} {m : Mem}
      {bs : List Blk} {L : Nat → Nat → List Nat} : h.arenaInit = true → b ∈ l → b.via = .tlsf →
      Tlsf.Released v.tlsf h.os.bytes v.bs v.L b.ptr tlsf m bs L →
      Act t dup lone ⟨h, v, l⟩ ⟨h.setTlsf tlsf m, v.setPool tlsf bs L, l.erase b⟩
  /-- The arena issues pages. -/
  | issue {h : Heap} {v : View} {l : List Block} {n : Nat} {m : Mem} : Issues h v n m →
      Act t dup lone ⟨h, v, l⟩ ⟨h.setBytes m, v,
        ⟨v.arena.pageAddr (v.arena.nextFreePage h.os.bytes), n, .bump,
          (n + 4095) / 4096 * 4096⟩ :: l⟩
  /-- A huge block is mapped. -/
  | map {h : Heap} {v : View} {l : List Block} {n base : Nat} {os : Os} : Maps h n base os →
      Act t dup lone ⟨h, v, l⟩ ⟨h.setOs os, v, ⟨base + 4096, n, .huge, hugeTotal n - 4096⟩ :: l⟩
  /-- A huge block is unmapped. -/
  | unmap {h : Heap} {v : View} {l : List Block} {b : Block} : b ∈ l → b.via = .huge →
      Act t dup lone ⟨h, v, l⟩
        ⟨h.setOs { h.os with maps := h.os.maps.erase b.region }, v, l.erase b⟩
  /-- A free without effect: of pages of the bump allocator, or of an empty block at the end of its mapping. -/
  | leak {h : Heap} {v : View} {l : List Block} {b : Block} : b ∈ l →
      (b.via = .bump ∨ (b.via = .huge ∧ b.cap = 0)) →
      Act t dup lone ⟨h, v, l⟩ ⟨h, v, l.erase b⟩

/-- The bytes of one live block change. -/
inductive Store (b : Block) : Conf → Conf → Prop
  | mk {h : Heap} {v : View} {l : List Block} {m : Mem} : b ∈ l →
      Set.EqOn m h.os.bytes b.extentᶜ → Store b ⟨h, v, l⟩ ⟨h.setBytes m, v, l⟩

end FerrumAlloc
