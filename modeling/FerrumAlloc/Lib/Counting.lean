/-
# FerrumAlloc.Lib.Counting -- counting along lists

How often a condition can hold along a list, when it never holds of two neighbours; what is left of a range; and
counting class by class.
-/
import Mathlib.Algebra.GroupWithZero.Nat
import Mathlib.Algebra.Order.BigOperators.Group.List
import Mathlib.Data.List.Chain

namespace FerrumAlloc.Lib

variable {α : Type*} {p : α → Bool} {l : List α}

/-- The elements of which `p` holds are at most one more than the others, and not even that when it does not
hold of the first one. -/
theorem countP_le_of_isChain (h : l.IsChain fun a b => ¬ (p a = true ∧ p b = true)) :
    l.countP p ≤ l.countP (fun a => !p a) + (l.head?.any p).toNat := by
  induction l with
  | nil => exact Nat.zero_le _
  | cons a l ih =>
    obtain ⟨hhead, htail⟩ := List.isChain_cons.mp h
    have hrest := ih htail
    have hmax : (l.head?.any p).toNat ≤ 1 := Bool.toNat_le _
    cases ha : p a with
    | true =>
      -- the next one is another
      have hnext : l.head?.any p = false := by
        cases l with
        | nil => rfl
        | cons b l => exact Bool.eq_false_iff.mpr fun hb => hhead b rfl ⟨ha, hb⟩
      rw [hnext] at hrest
      simp [ha]
      exact hrest
    | false =>
      simp [ha]
      omega

/-- **What is left of a range** when distinct numbers of it are taken out. -/
theorem length_range_diff {n : Nat} {l : List Nat} (hnd : l.Nodup) (hlt : ∀ i ∈ l, i < n) :
    ((List.range n).filter fun i => i ∉ l).length + l.length = n := by
  have hperm : ((List.range n).filter fun i => i ∈ l).Perm l := by
    refine (List.perm_ext_iff_of_nodup (List.nodup_range.filter _) hnd).mpr fun i => ?_
    rw [List.mem_filter, List.mem_range, decide_eq_true_iff]
    exact ⟨And.right, fun hi => ⟨hlt i hi, hi⟩⟩
  have hsplit := (List.filter_append_perm (fun i => decide (i ∈ l)) (List.range n)).length_eq
  rw [List.length_append, hperm.length_eq, List.length_range] at hsplit
  simp only [decide_not]
  omega

/-- One class more. -/
theorem countP_lt_succ (g : α → Nat) (n : Nat) (l : List α) :
    l.countP (fun a => g a < n + 1) = l.countP (fun a => g a < n) + l.countP fun a => g a = n := by
  induction l with
  | nil => rfl
  | cons a l ih =>
    simp only [List.countP_cons, decide_eq_true_eq, ih]
    split_ifs <;> omega

/-- **Counting class by class** counts everything. -/
theorem sum_countP_eq (g : α → Nat) {n : Nat} (h : ∀ a ∈ l, g a < n) :
    ((List.range n).map fun c => l.countP fun a => g a = c).sum = l.length := by
  have hall : l.countP (fun a => g a < n) = l.length := List.countP_eq_length.mpr fun a ha => decide_eq_true (h a ha)
  rw [← hall]
  clear h hall
  induction n with
  | zero => exact (List.countP_eq_zero.mpr fun a _ => by simp).symm
  | succ n ih =>
    rw [List.range_succ, List.map_append, List.sum_append, ih, countP_lt_succ]
    rfl

end FerrumAlloc.Lib
