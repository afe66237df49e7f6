/-
# FerrumAlloc.Lib.Transition -- labelled transition systems and the invariant rule

A system is a set of initial states and a labelled step relation. `Reachable` is the closure of the
initial states under steps. `Reachable.invariant` is the induction every safety proof goes through:
it is enough that the predicate holds initially and survives one step.

`Reachable.map` is the rule of refinement mappings: a function that takes steps to steps takes runs to
runs.

`System.restrict` keeps only the steps that meet a condition on the state before the step and on the
label. "In every run whose steps all meet the condition" is reachability in the restricted system.

`Peak` is reachability with a memory: the largest values that some measures have had on the way.
-/
import Mathlib.Tactic.TypeStar

namespace FerrumAlloc.Lib

/-- A labelled transition system. -/
structure System (σ ε : Type*) where
  init : σ → Prop
  step : σ → ε → σ → Prop

namespace System

variable {σ ε : Type*} {S : System σ ε}

/-- States reached from an initial state by finitely many steps. -/
inductive Reachable (S : System σ ε) : σ → Prop
  | init {s : σ} : S.init s → Reachable S s
  | step {s s' : σ} {e : ε} : Reachable S s → S.step s e s' → Reachable S s'

/-- `s'` is reached from `s` by the steps labelled `es`, in this order. -/
inductive Run (S : System σ ε) : σ → List ε → σ → Prop
  | nil {s : σ} : Run S s [] s
  | cons {s s' s'' : σ} {e : ε} {es : List ε} :
      S.step s e s' → Run S s' es s'' → Run S s (e :: es) s''

/-- **The invariant rule.** The step case may also use that the state is reachable. -/
theorem Reachable.invariant {I : σ → Prop} (h0 : ∀ s, S.init s → I s)
    (hstep : ∀ s e s', Reachable S s → I s → S.step s e s' → I s') {s : σ}
    (hr : Reachable S s) : I s := by
  induction hr with
  | init h => exact h0 _ h
  | step hr hs ih => exact hstep _ _ _ hr ih hs

/-- **The refinement rule.** A function that takes initial states to initial states and steps of reachable
states to steps takes reachable states to reachable states. -/
theorem Reachable.map {σ' ε' : Type*} {S' : System σ' ε'} (f : σ → σ') (h0 : ∀ s, S.init s → S'.init (f s))
    (hstep : ∀ s e s', S'.Reachable (f s) → S.step s e s' → ∃ e', S'.step (f s) e' (f s')) {s : σ}
    (hr : Reachable S s) : Reachable S' (f s) := by
  induction hr with
  | init h => exact .init (h0 _ h)
  | step _ hs ih =>
    obtain ⟨e', hs'⟩ := hstep _ _ _ ih hs
    exact ih.step hs'

theorem Reachable.run {s s' : σ} {es : List ε} (hr : Reachable S s) (hrun : Run S s es s') :
    Reachable S s' := by
  induction hrun with
  | nil => exact hr
  | cons hs _ ih => exact ih (hr.step hs)

/-- Runs compose. -/
theorem Run.trans {s s' s'' : σ} {es es' : List ε} (h : Run S s es s') (h' : Run S s' es' s'') :
    Run S s (es ++ es') s'' := by
  induction h with
  | nil => exact h'
  | cons hs _ ih => exact .cons hs (ih h')

/-- The steps of `S` whose source and label meet `C`. -/
def restrict (S : System σ ε) (C : σ → ε → Prop) : System σ ε where
  init := S.init
  step s e s' := S.step s e s' ∧ C s e

/-- A weaker condition allows more runs. -/
theorem Reachable.mono {C C' : σ → ε → Prop} (h : ∀ s e, C s e → C' s e) {s : σ}
    (hr : Reachable (S.restrict C) s) : Reachable (S.restrict C') s := by
  induction hr with
  | init h0 => exact .init h0
  | step _ hs ih => exact ih.step ⟨hs.1, h _ _ hs.2⟩

theorem Reachable.of_restrict {C : σ → ε → Prop} {s : σ} (hr : Reachable (S.restrict C) s) :
    Reachable S s := by
  induction hr with
  | init h => exact .init h
  | step _ hs ih => exact ih.step hs.1

section

variable {κ : Type*} {μ : κ → σ → Nat} {s : σ} {p : κ → Nat}

/-- `s` is reached by a run on which the largest value of each measure was as `p` says. -/
inductive Peak (S : System σ ε) (μ : κ → σ → Nat) : σ → (κ → Nat) → Prop
  | init {s : σ} : S.init s → Peak S μ s fun k => μ k s
  | step {s s' : σ} {e : ε} {p : κ → Nat} : Peak S μ s p → S.step s e s' → Peak S μ s' fun k => max (p k) (μ k s')

theorem Peak.reachable (h : S.Peak μ s p) : S.Reachable s := by
  induction h with
  | init h0 => exact .init h0
  | step _ hs ih => exact ih.step hs

/-- Every run has its peaks. -/
theorem Reachable.peak (hr : S.Reachable s) (μ : κ → σ → Nat) : ∃ p, S.Peak μ s p := by
  induction hr with
  | init h0 => exact ⟨_, .init h0⟩
  | step _ hs ih =>
    obtain ⟨p, hp⟩ := ih
    exact ⟨_, hp.step hs⟩

end

end System

end FerrumAlloc.Lib
