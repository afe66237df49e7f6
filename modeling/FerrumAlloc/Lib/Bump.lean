/-
# FerrumAlloc.Lib.Bump -- spans handed out from one end

A bump allocator keeps a position and hands out what lies behind it. The spans handed out so far tile the
range from the start to the position, the newest one last. `Tiled` says so, with the newest span at the
head of the list; everything that users of such an allocator rely on (bounds, order, disjointness, no
address twice) follows from it by induction on the list.
-/
import Mathlib.Algebra.GroupWithZero.Nat
import Mathlib.Algebra.Order.BigOperators.Group.List
import Mathlib.Data.List.Basic

namespace FerrumAlloc.Lib

/-- The spans `(start, length)` lie without gaps from `lo` to `next`, the newest one first. -/
def Tiled (lo : Nat) : Nat → List (Nat × Nat) → Prop
  | next, [] => next = lo
  | next, r :: l => r.1 + r.2 = next ∧ Tiled lo r.1 l

namespace Tiled

variable {lo next n : Nat} {r : Nat × Nat} {l l' : List (Nat × Nat)}

/-- The next span starts at the position. -/
theorem push (h : Tiled lo next l) (n : Nat) : Tiled lo (next + n) ((next, n) :: l) := ⟨rfl, h⟩

theorem lo_le (h : Tiled lo next l) : lo ≤ next := by
  induction l generalizing next with
  | nil => exact Nat.le_of_eq (show next = lo from h).symm
  | cons r l ih =>
    obtain ⟨heq, htail⟩ := h
    have hle := ih htail
    omega

/-- Spans lie between the start and the position. -/
theorem bounds (h : Tiled lo next l) (hr : r ∈ l) : lo ≤ r.1 ∧ r.1 + r.2 ≤ next := by
  induction l generalizing next with
  | nil => nomatch hr
  | cons r' l ih =>
    obtain ⟨heq, htail⟩ := h
    rcases List.mem_cons.mp hr with rfl | hmem
    · exact ⟨htail.lo_le, Nat.le_of_eq heq⟩
    · obtain ⟨h1, h2⟩ := ih htail hmem
      exact ⟨h1, by omega⟩

/-- Together they are as long as the way from the start to the position. -/
theorem sum (h : Tiled lo next l) : lo + (l.map Prod.snd).sum = next := by
  induction l generalizing next with
  | nil => exact (show next = lo from h).symm
  | cons r l ih =>
    obtain ⟨heq, htail⟩ := h
    have hsum := ih htail
    rw [List.map_cons, List.sum_cons]
    omega

/-- **Spans are in order and do not overlap**: each one ends before any newer one starts. -/
theorem pairwise (h : Tiled lo next l) : l.Pairwise fun newer older => older.1 + older.2 ≤ newer.1 := by
  induction l generalizing next with
  | nil => exact List.Pairwise.nil
  | cons r l ih =>
    obtain ⟨_, htail⟩ := h
    exact List.Pairwise.cons (fun older hmem => (htail.bounds hmem).2) (ih htail)

/-- The spans determine the position. -/
theorem unique {next' : Nat} (h : Tiled lo next l) (h' : Tiled lo next' l) : next = next' := by
  cases l with
  | nil => exact (show next = lo from h).trans (show next' = lo from h').symm
  | cons r l => exact h.1.symm.trans h'.1

/-- **No address is handed out twice**: newer spans start behind the position that the older ones had
reached. -/
theorem newer {mid : Nat} (h : Tiled lo next (l' ++ l)) (hmid : Tiled lo mid l) :
    mid ≤ next ∧ ∀ r ∈ l', mid ≤ r.1 := by
  induction l' generalizing next with
  | nil => exact ⟨Nat.le_of_eq (hmid.unique h), fun r hr => nomatch hr⟩
  | cons r l' ih =>
    obtain ⟨heq, htail⟩ := h
    obtain ⟨hle, hall⟩ := ih htail
    refine ⟨by omega, fun q hq => ?_⟩
    rcases List.mem_cons.mp hq with rfl | hmem
    · exact hle
    · exact hall q hmem

end Tiled

end FerrumAlloc.Lib
