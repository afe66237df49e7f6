/-
# FerrumAlloc.ThreadCache.Model -- thread caches and their stacks

A `ThreadCache` is a slab of its own and the head of a stack of blocks that other threads have freed.
The link of a node of the stack lies in the first eight bytes of the freed slot.

`drainRemoteFrees` is the drain as one uninterrupted run. Its loop follows links through memory, so the
model bounds it: when it has made as many steps as there are bytes in an arena and has not come to the
end, it reports `Fault.endlessLoop`. The module `Remote` has the same code in small steps.
-/
import FerrumAlloc.Slab.System

namespace FerrumAlloc

open Lib

/-- `ThreadCache`. -/
structure ThreadCache where
  id : Nat
  slab : SlabAllocator
  remoteFrees : Nat

/-- The cache written by `get_or_create`. -/
def ThreadCache.new (id : Nat) : ThreadCache where
  id := id
  slab := .new
  remoteFrees := 0

/-- The loop of `drain_remote_frees`. -/
def drainLoop (a : Arena) : Nat → Nat → SlabAllocator → Mem → Exec (SlabAllocator × Mem)
  | 0, head, s, m => if head = 0 then .ok (s, m) else .error .endlessLoop
  | n + 1, head, s, m =>
    if head = 0 then .ok (s, m)
    else do
      let next := read64 m head
      let (s, m) ← s.free m head a
      drainLoop a n next s m

/-- `drain_remote_frees`. -/
def ThreadCache.drainRemoteFrees (tc : ThreadCache) (m : Mem) (a : Arena) :
    Exec (ThreadCache × Mem) := do
  let head := tc.remoteFrees
  let (slab, m) ← drainLoop a defaultArenaSize head tc.slab m
  return ({ tc with slab := slab, remoteFrees := 0 }, m)

/-! ## Stacks -/

/-- A chain of nodes in role `r`, linked through their first eight bytes. -/
structure Stack {ρ : Type} (m : Mem) (role : Nat → ρ) (r : ρ) (head : Nat) (l : List Nat) : Prop where
  chain : Chain (read64 m) 0 head l
  nodup : l.Nodup
  role : ∀ p ∈ l, role p = r

section

variable {ρ : Type} {role role' : Nat → ρ} {m m' : Mem} {r : ρ} {h p : Nat} {l : List Nat}

namespace Stack

theorem nil : Stack m role r 0 [] := ⟨rfl, List.nodup_nil, fun _ hp => absurd hp List.not_mem_nil⟩

/-- **Frame.** A stack depends on the roles and links of its nodes. -/
theorem keepOn (hs : Stack m role r h l) (hk : ∀ p ∈ l, role' p = r ∧ read64 m' p = read64 m p) :
    Stack m' role' r h l :=
  ⟨hs.chain.congr fun p hp => (hk p hp).2, hs.nodup, fun p hp => (hk p hp).1⟩

theorem keep (hs : Stack m role r h l)
    (hk : ∀ p, role p = r → role' p = r ∧ read64 m' p = read64 m p) : Stack m' role' r h l :=
  hs.keepOn fun p hp => hk p (hs.role p hp)

/-- A node linked to the head is pushed. -/
theorem push (hs : Stack m role r h l) (hp : p ≠ 0) (hne : role p ≠ r) (hlink : read64 m p = h)
    (hself : role' p = r) (hk : ∀ q, role q = r → role' q = r) : Stack m role' r p (p :: l) := by
  refine ⟨hs.chain.push hp hlink fun _ _ => rfl, List.nodup_cons.mpr ⟨?_, hs.nodup⟩, fun q hq => ?_⟩
  · exact fun hmem => hne (hs.role p hmem)
  · rcases List.mem_cons.mp hq with rfl | hq
    · exact hself
    · exact hk q (hs.role q hq)

/-- The first node is taken off. -/
theorem tail (hs : Stack m role r h l) (h0 : h ≠ 0) :
    ∃ rest, l = h :: rest ∧ h ∉ rest ∧ Stack m role r (read64 m h) rest := by
  cases l with
  | nil => exact absurd hs.chain h0
  | cons x rest =>
    obtain ⟨rfl, _, hrest⟩ := hs.chain
    obtain ⟨hnot, hnd⟩ := List.nodup_cons.mp hs.nodup
    exact ⟨rest, rfl, hnot, hrest, hnd, fun p hp => hs.role p (List.mem_cons_of_mem _ hp)⟩

theorem head_role (hs : Stack m role r h l) (h0 : h ≠ 0) : role h = r := by
  obtain ⟨rest, hl, _⟩ := hs.tail h0
  exact hs.role h (by rw [hl]; exact List.mem_cons_self)

end Stack

end

end FerrumAlloc
