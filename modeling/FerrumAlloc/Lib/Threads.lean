/-
# FerrumAlloc.Lib.Threads -- threads that share a state, and what each may rely on

A program of one thread is a tree of steps (`Prog`): a step reads and writes the shared state at once, and
between two steps every other thread may run. Programs compose with `do`; `Prog.repeat` is a loop without a
bound, such as the retries of a compare-exchange. A step may have to wait, and it may fault.

`Discipline` is a way to reason about all interleavings at once. Over the shared state stand logical
states, which may carry more than the program sees. A thread `i` relies on `rely i`: whatever the others
do is such a change. In return each step of `i` must be one for all the others. `Safe` is the largest
property of that kind, so it is proved by coinduction (`Safe.coinduct`); `Ends` is the smallest one, so a
program with it comes to an end, whatever the others do, unless it has to wait. `Triple` gives the rules for
steps, sequences and loops, for both at once. `Covers.advance` is the payoff: programs that are safe one by
one are safe together.

`Solo` is a run without any interference.
-/
import FerrumAlloc.Lib.Transition
import Mathlib.Logic.Function.Basic
import Mathlib.Data.Option.Basic

namespace FerrumAlloc.Lib

universe u v

/-- What comes of a thread's turn: its step is done, it cannot be done yet, or it faults. -/
inductive Turn (ε σ : Type) (β : Type u)
  | done (s : σ) (b : β)
  | wait
  | fault (e : ε)

/-- A program of one thread. -/
inductive Prog (ε σ : Type) : Type → Type 1
  | ret {α : Type} (a : α) : Prog ε σ α
  | step {α β : Type} (f : σ → Turn ε σ β) (k : β → Prog ε σ α) : Prog ε σ α
  | loop {α β γ : Type} (body : β → Prog ε σ (β ⊕ γ)) (b : β) (k : γ → Prog ε σ α) : Prog ε σ α

/-- What is done goes on with `g`. -/
def Turn.map {ε σ : Type} {β : Type u} {γ : Type v} (g : β → γ) : Turn ε σ β → Turn ε σ γ
  | .done s b => .done s (g b)
  | .wait => .wait
  | .fault e => .fault e

section

variable {ε σ : Type} {β : Type u} {γ : Type v} {g : β → γ} {o : Turn ε σ β} {e : ε} {s : σ} {c : γ}

theorem Turn.map_eq_fault : o.map g = .fault e ↔ o = .fault e := by
  cases o <;> simp [map]

theorem Turn.map_eq_wait : o.map g = .wait ↔ o = .wait := by
  cases o <;> simp [map]

theorem Turn.map_eq_done : o.map g = .done s c ↔ ∃ b, o = .done s b ∧ g b = c := by
  cases o <;> simp [map, and_assoc]

end

namespace Prog

variable {ε σ α β γ δ : Type}

def bind : Prog ε σ α → (α → Prog ε σ β) → Prog ε σ β
  | .ret a, f => f a
  | .step g k, f => .step g fun b => (k b).bind f
  | .loop body b k, f => .loop body b fun c => (k c).bind f

instance : Monad (Prog ε σ) where
  pure := .ret
  bind := bind

/-- One step. -/
def atom (f : σ → Turn ε σ α) : Prog ε σ α := .step f .ret

/-- The body is run with the value of its last run, until it gives a result. -/
def «repeat» (body : β → Prog ε σ (β ⊕ γ)) (b : β) : Prog ε σ γ := .loop body b .ret

/-- The next round of a loop, or what comes after it. -/
def again (body : β → Prog ε σ (β ⊕ γ)) (k : γ → Prog ε σ α) : β ⊕ γ → Prog ε σ α
  | .inl b => .loop body b k
  | .inr c => k c

/-- **One step of the thread.** A program that has returned waits. -/
def tick : Prog ε σ α → σ → Turn ε σ (Prog ε σ α)
  | .ret _, _ => .wait
  | .step f k, s => (f s).map k
  | .loop body b k, s => .done s ((body b).bind (again body k))

/-- The result of a program that has returned. -/
def value : Prog ε σ α → Option α
  | .ret a => some a
  | .step _ _ => none
  | .loop _ _ _ => none

theorem bind_eq (p : Prog ε σ α) (f : α → Prog ε σ β) : p >>= f = p.bind f := rfl

theorem pure_eq (a : α) : (pure a : Prog ε σ α) = .ret a := rfl

theorem bind_assoc (p : Prog ε σ α) (f : α → Prog ε σ β) (g : β → Prog ε σ γ) :
    (p.bind f).bind g = p.bind fun a => (f a).bind g := by
  induction p with
  | ret a => rfl
  | step h k ih => exact congrArg (Prog.step h) (funext fun b => ih b f)
  | loop body b k _ ih => exact congrArg (Prog.loop body b) (funext fun c => ih c f)

theorem again_bind (body : β → Prog ε σ (β ⊕ γ)) (k : γ → Prog ε σ α) (f : α → Prog ε σ δ) (r : β ⊕ γ) :
    (again body k r).bind f = again body (fun c => (k c).bind f) r := by
  cases r <;> rfl

theorem exists_ret {p : Prog ε σ α} (h : p.value ≠ none) : ∃ a, p = .ret a := by
  cases p with
  | ret a => exact ⟨a, rfl⟩
  | step f k => exact absurd rfl h
  | loop body b k => exact absurd rfl h

/-- A program that has not returned takes its steps in front of any other. -/
theorem tick_bind {p : Prog ε σ α} (h : p.value = none) (f : α → Prog ε σ β) (s : σ) :
    (p.bind f).tick s = (p.tick s).map fun q => q.bind f := by
  cases p with
  | ret a => nomatch h
  | step g k =>
    show (g s).map _ = ((g s).map k).map _
    cases g s <;> rfl
  | loop body b k =>
    have hagain : (again body fun c => (k c).bind f) = fun r => (again body k r).bind f :=
      funext fun r => (again_bind body k f r).symm
    show Turn.done s ((body b).bind (again body fun c => (k c).bind f)) =
      Turn.done s (((body b).bind (again body k)).bind f)
    rw [hagain, bind_assoc]

theorem value_bind {p : Prog ε σ α} (h : p.value = none) (f : α → Prog ε σ β) : (p.bind f).value = none := by
  cases p with
  | ret a => nomatch h
  | step g k => rfl
  | loop body b k => rfl

end Prog

open Prog

/-! ## Disciplines -/

/-- **What threads know and promise.** Logical states `X` over the shared state, their invariant, the
changes by others that thread `i` can live with, the faults that are excused, and where `i` may have to
wait. -/
structure Discipline (ι ε σ X : Type) where
  shared : X → σ
  inv : X → Prop
  rely : ι → X → X → Prop
  excused : X → ε → Prop
  waits : ι → X → Prop
  refl : ∀ i x, rely i x x
  trans : ∀ i x y z, rely i x y → rely i y z → rely i x z

namespace Discipline

variable {ι ε σ X α β γ : Type} {d : Discipline ι ε σ X} {i : ι} {p : Prog ε σ α} {x y z : X}
  {Q Q' : α → X → Prop} {S : Prog ε σ α → X → Prop} {P P' F : X → Prop}

/-- A step of thread `i` leads from `y` to `z`, by the promise to the others. -/
structure Moves (d : Discipline ι ε σ X) (i : ι) (y z : X) : Prop where
  inv : d.inv z
  others : ∀ j, j ≠ i → d.rely j y z

theorem Moves.refl (hx : d.inv x) : d.Moves i x x := ⟨hx, fun j _ => d.refl j x⟩

theorem Moves.trans (h : d.Moves i x y) (h' : d.Moves i y z) : d.Moves i x z :=
  ⟨h'.inv, fun j hj => d.trans j x y z (h.others j hj) (h'.others j hj)⟩

/-- After interference: the result is right, faults and waiting are excused, and a step keeps the promise and
goes on in `S`. -/
structure Progress (d : Discipline ι ε σ X) (i : ι) (Q : α → X → Prop) (S : Prog ε σ α → X → Prop)
    (p : Prog ε σ α) (y : X) : Prop where
  value : ∀ a, p.value = some a → Q a y
  fault : ∀ e, p.tick (d.shared y) = .fault e → d.excused y e
  wait : p.value = none → p.tick (d.shared y) = .wait → d.waits i y
  done : ∀ s p', p.tick (d.shared y) = .done s p' → ∃ z, d.shared z = s ∧ d.Moves i y z ∧ S p' z

/-- `S` is closed under interference and steps. -/
def Closed (d : Discipline ι ε σ X) (i : ι) (Q : α → X → Prop) (S : Prog ε σ α → X → Prop) : Prop :=
  ∀ p x, S p x → ∀ y, d.inv y → d.rely i x y → d.Progress i Q S p y

/-- `S` holds where it holds behind interference and steps. -/
def Founded (d : Discipline ι ε σ X) (i : ι) (Q : α → X → Prop) (S : Prog ε σ α → X → Prop) : Prop :=
  ∀ p x, (∀ y, d.inv y → d.rely i x y → d.Progress i Q S p y) → S p x

/-- **Safety** of a program of thread `i` from `x` on, with the result `Q`: the largest closed property. -/
def Safe (d : Discipline ι ε σ X) (i : ι) (Q : α → X → Prop) (p : Prog ε σ α) (x : X) : Prop :=
  ∃ S, d.Closed i Q S ∧ S p x

/-- **Safety and an end**, after finitely many steps of thread `i`: the smallest founded property. -/
def Ends (d : Discipline ι ε σ X) (i : ι) (Q : α → X → Prop) (p : Prog ε σ α) (x : X) : Prop :=
  ∀ S, d.Founded i Q S → S p x

theorem Progress.mono {S' : Prog ε σ α → X → Prop} (h : d.Progress i Q S p y)
    (hS : ∀ p x, S p x → S' p x) : d.Progress i Q S' p y := by
  refine ⟨h.value, h.fault, h.wait, fun s p' hp => ?_⟩
  obtain ⟨z, hs, hz, hS'⟩ := h.done s p' hp
  exact ⟨z, hs, hz, hS p' z hS'⟩

/-- Both are fixed points. -/
structure Fixed (d : Discipline ι ε σ X) (i : ι) (Q : α → X → Prop) (S : Prog ε σ α → X → Prop) : Prop where
  closed : d.Closed i Q S
  founded : d.Founded i Q S

namespace Fixed

/-- Interference does no harm. -/
theorem rely (h : d.Fixed i Q S) (hp : S p x) (hxy : d.rely i x y) : S p y :=
  h.founded p y fun z hz hyz => h.closed p x hp z hz (d.trans i x y z hxy hyz)

theorem here (h : d.Fixed i Q S) (hp : S p x) (hx : d.inv x) : d.Progress i Q S p x :=
  h.closed p x hp x hx (d.refl i x)

theorem ret (h : d.Fixed i Q S) {a : α} (ha : ∀ y, d.inv y → d.rely i x y → Q a y) : S (.ret a) x := by
  refine h.founded _ x fun y hy hxy => ⟨fun b hb => ?_, nofun, nofun, nofun⟩
  obtain rfl := Option.some.inj hb
  exact ha y hy hxy

theorem step (h : d.Fixed i Q S) {f : σ → Turn ε σ β} {k : β → Prog ε σ α}
    (hf : ∀ y, d.inv y → d.rely i x y → (∀ e, f (d.shared y) = .fault e → d.excused y e) ∧
      (f (d.shared y) = .wait → d.waits i y) ∧
      ∀ s b, f (d.shared y) = .done s b → ∃ z, d.shared z = s ∧ d.Moves i y z ∧ S (k b) z) :
    S (.step f k) x := by
  refine h.founded _ x fun y hy hxy => ?_
  obtain ⟨hfault, hwait, hdone⟩ := hf y hy hxy
  refine ⟨nofun, fun e he => hfault e (Turn.map_eq_fault.mp he), fun _ hw => hwait (Turn.map_eq_wait.mp hw),
    fun s p' hp => ?_⟩
  obtain ⟨b, hb, rfl⟩ := Turn.map_eq_done.mp hp
  exact hdone s b hb

/-- The next round of a loop. -/
theorem loop (h : d.Fixed i Q S) {body : β → Prog ε σ (β ⊕ γ)} {k : γ → Prog ε σ α} {b : β}
    (hb : ∀ y, d.inv y → d.rely i x y → S ((body b).bind (again body k)) y) : S (.loop body b k) x := by
  refine h.founded _ x fun y hy hxy => ⟨nofun, nofun, nofun, fun s p' hp' => ?_⟩
  cases hp'
  exact ⟨y, rfl, .refl hy, hb y hy hxy⟩

end Fixed

/-- The program `p` in front of others: its steps keep the promise, as long as it has not returned. -/
theorem Progress.bind {k : α → Prog ε σ β} {R : β → X → Prop} {T : Prog ε σ β → X → Prop}
    (h : d.Progress i Q S p x) (hv : p.value = none) (hT : ∀ q z, d.inv z → S q z → T (q.bind k) z) :
    d.Progress i R T (p.bind k) x := by
  refine ⟨fun b hb => ?_, fun e he => ?_, fun _ hw => ?_, fun s q hq => ?_⟩
  · nomatch (value_bind hv k).symm.trans hb
  · rw [tick_bind hv] at he
    exact h.fault e (Turn.map_eq_fault.mp he)
  · rw [tick_bind hv] at hw
    exact h.wait hv (Turn.map_eq_wait.mp hw)
  · rw [tick_bind hv] at hq
    obtain ⟨p', hp', rfl⟩ := Turn.map_eq_done.mp hq
    obtain ⟨z, hs, hz, hS⟩ := h.done s p' hp'
    exact ⟨z, hs, hz, hT p' z hz.inv hS⟩

namespace Safe

theorem closed (d : Discipline ι ε σ X) (i : ι) (Q : α → X → Prop) : d.Closed i Q (d.Safe i Q) := by
  rintro p x ⟨S, hS, hp⟩ y hy hxy
  exact (hS p x hp y hy hxy).mono fun p' z hz => ⟨S, hS, hz⟩

/-- **Coinduction.** -/
theorem coinduct (hS : ∀ p x, S p x → ∀ y, d.inv y → d.rely i x y →
    d.Progress i Q (fun p x => S p x ∨ d.Safe i Q p x) p y) (h : S p x) : d.Safe i Q p x := by
  refine ⟨fun p x => S p x ∨ d.Safe i Q p x, fun p x hp y hy hxy => ?_, .inl h⟩
  rcases hp with hp | hp
  · exact hS p x hp y hy hxy
  · exact (closed d i Q p x hp y hy hxy).mono fun _ _ => .inr

theorem fixed (d : Discipline ι ε σ X) (i : ι) (Q : α → X → Prop) : d.Fixed i Q (d.Safe i Q) := by
  refine ⟨closed d i Q, fun p x h => ?_⟩
  refine coinduct (S := fun q y => q = p ∧ d.rely i x y) ?_ ⟨rfl, d.refl i x⟩
  rintro q y ⟨rfl, hxy⟩ z hz hyz
  exact (h z hz (d.trans i x y z hxy hyz)).mono fun _ _ => .inr

/-- **Sequences.** -/
theorem bind {k : α → Prog ε σ β} {R : β → X → Prop} (h : d.Safe i Q p x)
    (hk : ∀ a y, d.inv y → Q a y → d.Safe i R (k a) y) : d.Safe i R (p.bind k) x := by
  refine coinduct (S := fun q x => ∃ p, q = p.bind k ∧ d.Safe i Q p x) ?_ ⟨p, rfl, h⟩
  rintro q x ⟨p, rfl, hp⟩ y hy hxy
  have hprog := closed d i Q p x hp y hy hxy
  by_cases hv : p.value = none
  · exact hprog.bind hv fun q z _ hq => .inl ⟨q, rfl, hq⟩
  · obtain ⟨a, rfl⟩ := exists_ret hv
    exact ((fixed d i R).here (hk a y hy (hprog.value a rfl)) hy).mono fun _ _ => .inr

theorem mono (h : d.Safe i Q p x) (hQ : ∀ a y, d.inv y → Q a y → Q' a y) : d.Safe i Q' p x := by
  refine coinduct (S := d.Safe i Q) (fun p x hp y hy hxy => ?_) h
  have hprog := closed d i Q p x hp y hy hxy
  refine ⟨fun a ha => hQ a y hy (hprog.value a ha), hprog.fault, hprog.wait, fun s p' hp' => ?_⟩
  obtain ⟨z, hs, hz, hS⟩ := hprog.done s p' hp'
  exact ⟨z, hs, hz, .inl hS⟩

/-- **A fact that nobody takes away**, neither the others nor the thread itself, stays. -/
theorem frame (hF : ∀ x y, d.inv x → d.inv y → d.rely i x y → F x → F y)
    (hF' : ∀ x y, d.inv x → d.Moves i x y → F x → F y) (h : d.Safe i Q p x) (hx : d.inv x) (hf : F x) :
    d.Safe i (fun a y => Q a y ∧ F y) p x := by
  refine coinduct (S := fun p x => d.inv x ∧ d.Safe i Q p x ∧ F x) ?_ ⟨hx, h, hf⟩
  rintro p x ⟨hx, hp, hf⟩ y hy hxy
  have hprog := closed d i Q p x hp y hy hxy
  have hfy := hF x y hx hy hxy hf
  refine ⟨fun a ha => ⟨hprog.value a ha, hfy⟩, hprog.fault, hprog.wait, fun s p' hp' => ?_⟩
  obtain ⟨z, hs, hz, hS⟩ := hprog.done s p' hp'
  exact ⟨z, hs, hz, .inl ⟨hz.inv, hS, hF' y z hy hz hfy⟩⟩

/-- **Loops**, with an invariant `J` and a result `K` of the last round. -/
theorem loop {body : β → Prog ε σ (β ⊕ γ)} {J : β → X → Prop} {K : γ → X → Prop}
    (hJ : ∀ b x y, d.inv x → d.inv y → d.rely i x y → J b x → J b y)
    (hK : ∀ c x y, d.inv x → d.inv y → d.rely i x y → K c x → K c y)
    (h : ∀ b x, d.inv x → J b x →
      d.Safe i (fun r x => Sum.elim (fun b => J b x) (fun c => K c x) r) (body b) x)
    {b : β} (hx : d.inv x) (hb : J b x) : d.Safe i K (.loop body b .ret) x := by
  refine coinduct (S := fun p x => d.inv x ∧ ((∃ b, p = .loop body b .ret ∧ J b x) ∨
    ∃ q, p = q.bind (again body .ret) ∧
      d.Safe i (fun r x => Sum.elim (fun b => J b x) (fun c => K c x) r) q x)) ?_ ⟨hx, .inl ⟨b, rfl, hb⟩⟩
  rintro p x ⟨hx, ⟨b, rfl, hb⟩ | ⟨q, rfl, hq⟩⟩ y hy hxy
  · refine ⟨nofun, nofun, nofun, fun s p' hp' => ?_⟩
    cases hp'
    exact ⟨y, rfl, .refl hy, .inl ⟨hy, .inr ⟨body b, rfl, h b y hy (hJ b x y hx hy hxy hb)⟩⟩⟩
  · have hprog := closed d i _ q x hq y hy hxy
    by_cases hv : q.value = none
    · exact hprog.bind hv fun q z hz hq => .inl ⟨hz, .inr ⟨q, rfl, hq⟩⟩
    · obtain ⟨r, rfl⟩ := exists_ret hv
      have hr := hprog.value r rfl
      cases r with
      | inl b =>
        refine ⟨nofun, nofun, nofun, fun s p' hp' => ?_⟩
        cases hp'
        exact ⟨y, rfl, .refl hy, .inl ⟨hy, .inr ⟨body b, rfl, h b y hy hr⟩⟩⟩
      | inr c =>
        have hret : d.Safe i K (.ret c) y := (fixed d i K).ret fun w hw hyw => hK c y w hy hw hyw hr
        exact ((fixed d i K).here hret hy).mono fun _ _ => .inr

end Safe

namespace Ends

theorem founded (d : Discipline ι ε σ X) (i : ι) (Q : α → X → Prop) : d.Founded i Q (d.Ends i Q) :=
  fun p x h S hS => hS p x fun y hy hxy => (h y hy hxy).mono fun _ _ hp => hp S hS

/-- **Induction** on the steps that are left. -/
theorem induct (h : d.Ends i Q p x) (hS : ∀ p x, d.Ends i Q p x →
    (∀ y, d.inv y → d.rely i x y → d.Progress i Q (fun p x => d.Ends i Q p x ∧ S p x) p y) → S p x) :
    S p x := by
  refine (h (fun p x => d.Ends i Q p x ∧ S p x) fun p x h => ?_).2
  have hp : d.Ends i Q p x := founded d i Q p x fun y hy hxy => (h y hy hxy).mono fun _ _ => And.left
  exact ⟨hp, hS p x hp h⟩

theorem fixed (d : Discipline ι ε σ X) (i : ι) (Q : α → X → Prop) : d.Fixed i Q (d.Ends i Q) := by
  refine ⟨fun p x h => ?_, founded d i Q⟩
  refine h.induct (S := fun p x => ∀ y, d.inv y → d.rely i x y → d.Progress i Q (d.Ends i Q) p y) ?_
  exact fun p x _ h y hy hxy => (h y hy hxy).mono fun _ _ => And.left

theorem safe (h : d.Ends i Q p x) : d.Safe i Q p x := ⟨d.Ends i Q, (fixed d i Q).closed, h⟩

/-- **Sequences.** -/
theorem bind {k : α → Prog ε σ β} {R : β → X → Prop} (h : d.Ends i Q p x)
    (hk : ∀ a y, d.inv y → Q a y → d.Ends i R (k a) y) : d.Ends i R (p.bind k) x := by
  refine h.induct (S := fun p x => d.Ends i R (p.bind k) x) fun p x _ h => ?_
  refine founded d i R _ x fun y hy hxy => ?_
  by_cases hv : p.value = none
  · exact (h y hy hxy).bind hv fun q z _ hq => hq.2
  · obtain ⟨a, rfl⟩ := exists_ret hv
    exact (fixed d i R).here (hk a y hy ((h y hy hxy).value a rfl)) hy

theorem mono (h : d.Ends i Q p x) (hQ : ∀ a y, d.inv y → Q a y → Q' a y) : d.Ends i Q' p x := by
  refine h.induct fun p x _ h => founded d i Q' p x fun y hy hxy => ?_
  have hprog := (h y hy hxy).mono fun _ _ => And.right
  exact ⟨fun a ha => hQ a y hy (hprog.value a ha), hprog.fault, hprog.wait, hprog.done⟩

/-- **A fact that nobody takes away** stays. -/
theorem frame (hF : ∀ x y, d.inv x → d.inv y → d.rely i x y → F x → F y)
    (hF' : ∀ x y, d.inv x → d.Moves i x y → F x → F y) (h : d.Ends i Q p x) (hx : d.inv x) (hf : F x) :
    d.Ends i (fun a y => Q a y ∧ F y) p x := by
  refine h.induct (S := fun p x => d.inv x → F x → d.Ends i (fun a y => Q a y ∧ F y) p x) ?_ hx hf
  refine fun p x _ h hx hf => founded d i _ p x fun y hy hxy => ?_
  have hprog := h y hy hxy
  have hfy := hF x y hx hy hxy hf
  refine ⟨fun a ha => ⟨hprog.value a ha, hfy⟩, hprog.fault, hprog.wait, fun s p' hp' => ?_⟩
  obtain ⟨z, hs, hz, _, hS⟩ := hprog.done s p' hp'
  exact ⟨z, hs, hz, hS hz.inv (hF' y z hy hz hfy)⟩

/-- **Loops** with a variant: at most `n` rounds are left. -/
theorem loop {body : β → Prog ε σ (β ⊕ γ)} {J : Nat → β → X → Prop} {K : γ → X → Prop}
    (hJ : ∀ n b x y, d.inv x → d.inv y → d.rely i x y → J n b x → J n b y)
    (hK : ∀ c x y, d.inv x → d.inv y → d.rely i x y → K c x → K c y)
    (h : ∀ n b x, d.inv x → J n b x →
      d.Ends i (fun r x => Sum.elim (fun b => ∃ m < n, J m b x) (fun c => K c x) r) (body b) x)
    {n : Nat} {b : β} (hx : d.inv x) (hb : J n b x) : d.Ends i K (.loop body b .ret) x := by
  induction n using Nat.strongRecOn generalizing b x with
  | _ n ih =>
    refine (fixed d i K).loop fun y hy hxy => (h n b y hy (hJ n b x y hx hy hxy hb)).bind fun r z hz hr => ?_
    cases r with
    | inl b' =>
      obtain ⟨m, hm, hb'⟩ := hr
      exact ih m hm hz hb'
    | inr c => exact (fixed d i K).ret fun w hw hzw => hK c z w hz hw hzw hr

end Ends

/-! ## Triples -/

/-- `P` survives what the others do. -/
def Stable (d : Discipline ι ε σ X) (i : ι) (P : X → Prop) : Prop :=
  ∀ x y, d.inv x → d.inv y → d.rely i x y → P x → P y

namespace Stable

theorem and (hP : d.Stable i P) (hP' : d.Stable i P') : d.Stable i fun x => P x ∧ P' x :=
  fun x y hx hy hxy h => ⟨hP x y hx hy hxy h.1, hP' x y hx hy hxy h.2⟩

theorem or (hP : d.Stable i P) (hP' : d.Stable i P') : d.Stable i fun x => P x ∨ P' x :=
  fun x y hx hy hxy h => h.imp (hP x y hx hy hxy) (hP' x y hx hy hxy)

theorem exists_ {F : β → X → Prop} (h : ∀ b, d.Stable i (F b)) : d.Stable i fun x => ∃ b, F b x :=
  fun x y hx hy hxy hF => hF.imp fun b hb => h b x y hx hy hxy hb

theorem imp {A : Prop} (hP : d.Stable i P) : d.Stable i fun x => A → P x :=
  fun x y hx hy hxy h ha => hP x y hx hy hxy (h ha)

theorem const (A : Prop) : d.Stable i fun _ => A := fun _ _ _ _ _ h => h

end Stable

/-- `F` survives what anybody does, thread `i` included. -/
structure Lasting (d : Discipline ι ε σ X) (i : ι) (F : X → Prop) : Prop where
  others : d.Stable i F
  own : ∀ x y, d.inv x → d.Moves i x y → F x → F y

namespace Lasting

/-- What survives the reliance of all threads lasts, if there is another one. -/
theorem of_stable {j : ι} (hj : j ≠ i) (h : ∀ j, d.Stable j F) : d.Lasting i F :=
  ⟨h i, fun x y hx hxy => h j x y hx hxy.inv (hxy.others j hj)⟩

theorem and {F' : X → Prop} (h : d.Lasting i F) (h' : d.Lasting i F') : d.Lasting i fun x => F x ∧ F' x :=
  ⟨h.others.and h'.others, fun x y hx hxy hf => ⟨h.own x y hx hxy hf.1, h'.own x y hx hxy hf.2⟩⟩

end Lasting

/-- From `P`, the program of thread `i` is safe and returns with `Q`; where `fin` is true, it comes to an end,
after finitely many steps of its own. -/
def Triple (d : Discipline ι ε σ X) (fin : Prop) (i : ι) (P : X → Prop) (p : Prog ε σ α)
    (Q : α → X → Prop) : Prop :=
  ∀ x, d.inv x → P x → d.Safe i Q p x ∧ (fin → d.Ends i Q p x)

/-- What one step of thread `i` must do where `P` holds. -/
def Steps (d : Discipline ι ε σ X) (i : ι) (P : X → Prop) (f : σ → Turn ε σ α) (Q : α → X → Prop) :
    Prop :=
  ∀ x, d.inv x → P x → (∀ e, f (d.shared x) = .fault e → d.excused x e) ∧
    (f (d.shared x) = .wait → d.waits i x) ∧
    ∀ s a, f (d.shared x) = .done s a → ∃ z, d.shared z = s ∧ d.Moves i x z ∧ Q a z

namespace Triple

variable {fin : Prop}

/-- What holds of both fixed points. -/
theorem of_fixed (h : ∀ S : Prog ε σ α → X → Prop, d.Fixed i Q S → ∀ x, d.inv x → P x → S p x) :
    d.Triple fin i P p Q :=
  fun x hx hP => ⟨h _ (Safe.fixed d i Q) x hx hP, fun _ => h _ (Ends.fixed d i Q) x hx hP⟩

theorem ret {a : α} (hs : d.Stable i P) (h : ∀ x, d.inv x → P x → Q a x) : d.Triple fin i P (.ret a) Q :=
  .of_fixed fun _ hS x hx hP => hS.ret fun y hy hxy => h y hy (hs x y hx hy hxy hP)

theorem atom {f : σ → Turn ε σ α} (hP : d.Stable i P) (hQ : ∀ a, d.Stable i (Q a))
    (h : d.Steps i P f Q) : d.Triple fin i P (.atom f) Q := by
  refine .of_fixed fun S hS x hx hPx => hS.step fun y hy hxy => ?_
  obtain ⟨hfault, hwait, hdone⟩ := h y hy (hP x y hx hy hxy hPx)
  refine ⟨hfault, hwait, fun s a hf => ?_⟩
  obtain ⟨z, hs, hz, hQz⟩ := hdone s a hf
  exact ⟨z, hs, hz, hS.ret fun w hw hzw => hQ a z w hz.inv hw hzw hQz⟩

theorem bind {k : α → Prog ε σ β} {R : β → X → Prop} (h : d.Triple fin i P p Q)
    (hk : ∀ a, d.Triple fin i (Q a) (k a) R) : d.Triple fin i P (p >>= k) R :=
  fun x hx hP => ⟨(h x hx hP).1.bind fun a y hy hQ => (hk a y hy hQ).1,
    fun hf => ((h x hx hP).2 hf).bind fun a y hy hQ => (hk a y hy hQ).2 hf⟩

theorem conseq (h : d.Triple fin i P p Q) (hP : ∀ x, d.inv x → P' x → P x)
    (hQ : ∀ a x, d.inv x → Q a x → Q' a x) : d.Triple fin i P' p Q' :=
  fun x hx hP' => ⟨(h x hx (hP x hx hP')).1.mono hQ, fun hf => ((h x hx (hP x hx hP')).2 hf).mono hQ⟩

theorem exists_ {F : β → X → Prop} (h : ∀ b, d.Triple fin i (F b) p Q) :
    d.Triple fin i (fun x => ∃ b, F b x) p Q :=
  fun x hx hF => hF.elim fun b hb => h b x hx hb

theorem or (h : d.Triple fin i P p Q) (h' : d.Triple fin i P' p Q) :
    d.Triple fin i (fun x => P x ∨ P' x) p Q :=
  fun x hx hP => hP.elim (h x hx) (h' x hx)

/-- Facts that do not depend on the state. -/
theorem pure {A : Prop} (h : A → d.Triple fin i P p Q) : d.Triple fin i (fun x => A ∧ P x) p Q :=
  fun x hx hP => h hP.1 x hx hP.2

/-- **What lasts** is known before and after. -/
theorem frame (hF : d.Lasting i F) (h : d.Triple fin i P p Q) :
    d.Triple fin i (fun x => P x ∧ F x) p fun a x => Q a x ∧ F x :=
  fun x hx hP => ⟨(h x hx hP.1).1.frame hF.others hF.own hx hP.2,
    fun hf => ((h x hx hP.1).2 hf).frame hF.others hF.own hx hP.2⟩

/-- Less is claimed. -/
theorem weaken {F : Prop} (h : d.Triple F i P p Q) (hf : fin → F) : d.Triple fin i P p Q :=
  fun x hx hP => ⟨(h x hx hP).1, fun hf' => (h x hx hP).2 (hf hf')⟩

/-- **Loops** that may go on for ever, with an invariant `J` and a result `K` of the last round. -/
theorem «repeat» {body : β → Prog ε σ (β ⊕ γ)} {J : β → X → Prop} {K : γ → X → Prop} (b : β)
    (hJ : ∀ b, d.Stable i (J b)) (hK : ∀ c, d.Stable i (K c))
    (h : ∀ b, d.Triple False i (J b) (body b) fun r x => Sum.elim (fun b => J b x) (fun c => K c x) r) :
    d.Triple False i (J b) (.repeat body b) K :=
  fun _ hx hb => ⟨.loop hJ hK (fun b x hx hb => (h b x hx hb).1) hx hb, False.elim⟩

/-- **Loops** with a variant `n`: no more than `n` rounds are left. -/
theorem count {body : β → Prog ε σ (β ⊕ γ)} {J : Nat → β → X → Prop} {K : γ → X → Prop} (n : Nat) (b : β)
    (hJ : ∀ n b, d.Stable i (J n b)) (hK : ∀ c, d.Stable i (K c))
    (h : ∀ n b, d.Triple fin i (J n b) (body b) fun r x =>
      Sum.elim (fun b => ∃ m < n, J m b x) (fun c => K c x) r) :
    d.Triple fin i (J n b) (.repeat body b) K := by
  intro x hx hb
  refine ⟨?_, fun hf => .loop hJ hK (fun n b x hx hb => (h n b x hx hb).2 hf) hx hb⟩
  refine Safe.loop (J := fun b x => ∃ n, J n b x) (fun b x y hx hy hxy => ?_) hK (fun b x hx => ?_) hx ⟨n, hb⟩
  · exact fun hn => hn.imp fun n hb => hJ n b x y hx hy hxy hb
  · rintro ⟨n, hb⟩
    refine (h n b x hx hb).1.mono fun r y _ hr => ?_
    cases r with
    | inl b => exact hr.imp fun m hm => hm.2
    | inr c => exact hr

end Triple

/-! ## Threads together -/

/-- The logical state `x` stands over the shared state, and every thread is safe from it. -/
structure Covers (d : Discipline ι ε σ X) (progs : ι → Option (Prog ε σ α)) (Q : ι → α → X → Prop) (s : σ)
    (x : X) : Prop where
  shared : d.shared x = s
  inv : d.inv x
  safe : ∀ i p, progs i = some p → d.Safe i (Q i) p x

namespace Covers

variable {progs : ι → Option (Prog ε σ α)} {R : ι → α → X → Prop} {s s' : σ} {p' : Prog ε σ α}

theorem progress (h : d.Covers progs R s x) (hi : progs i = some p) :
    d.Progress i (R i) (d.Safe i (R i)) p x := (Safe.fixed d i (R i)).here (h.safe i p hi) h.inv

/-- No thread faults without excuse. -/
theorem fault (h : d.Covers progs R s x) (hi : progs i = some p) {e : ε} (he : p.tick s = .fault e) :
    d.excused x e := by
  obtain rfl := h.shared
  exact (h.progress hi).fault e he

/-- A thread waits only where it may. -/
theorem wait (h : d.Covers progs R s x) (hi : progs i = some p) (hv : p.value = none) (hw : p.tick s = .wait) :
    d.waits i x := by
  obtain rfl := h.shared
  exact (h.progress hi).wait hv hw

/-- A thread that has returned has a right result. -/
theorem value (h : d.Covers progs R s x) (hi : progs i = some p) {a : α} (ha : p.value = some a) :
    R i a x := (h.progress hi).value a ha

/-- **Step lemma.** A move of one thread, to a state from which it is safe. -/
theorem advance [DecidableEq ι] (h : d.Covers progs R s x) (hz : d.Moves i x z)
    (hsafe : d.Safe i (R i) p' z) :
    d.Covers (Function.update progs i (some p')) R (d.shared z) z := by
  refine ⟨rfl, hz.inv, fun j q hj => ?_⟩
  by_cases hji : j = i
  · subst hji
    rw [Function.update_self] at hj
    obtain rfl := Option.some.inj hj
    exact hsafe
  · rw [Function.update_of_ne hji] at hj
    exact (Safe.fixed d j (R j)).rely (h.safe j q hj) (hz.others j hji)

/-- Something outside of all threads changes the state. -/
theorem outside (h : d.Covers progs R s x) {z : X} (hz : d.inv z)
    (hrely : ∀ j, progs j ≠ none → d.rely j x z) : d.Covers progs R (d.shared z) z :=
  ⟨rfl, hz, fun j p hj => (Safe.fixed d j (R j)).rely (h.safe j p hj) (hrely j fun hno =>
    nomatch hj.symm.trans hno)⟩

/-- A thread starts a program. -/
theorem spawn [DecidableEq ι] {R' : ι → α → X → Prop} (h : d.Covers progs R s x)
    (hR : ∀ j, j ≠ i → R' j = R j) (hp : d.Safe i (R' i) p x) :
    d.Covers (Function.update progs i (some p)) R' s x := by
  refine ⟨h.shared, h.inv, fun j q hj => ?_⟩
  by_cases hji : j = i
  · subst hji
    rw [Function.update_self] at hj
    obtain rfl := Option.some.inj hj
    exact hp
  · rw [Function.update_of_ne hji] at hj
    rw [hR j hji]
    exact h.safe j q hj

/-- A thread has done with its program. -/
theorem retire [DecidableEq ι] {R' : ι → α → X → Prop} (h : d.Covers progs R s x)
    (hR : ∀ j, j ≠ i → R' j = R j) : d.Covers (Function.update progs i none) R' s x := by
  refine ⟨h.shared, h.inv, fun j q hj => ?_⟩
  by_cases hji : j = i
  · subst hji
    rw [Function.update_self] at hj
    nomatch hj
  · rw [Function.update_of_ne hji] at hj
    rw [hR j hji]
    exact h.safe j q hj

end Covers

end Discipline

/-! ## A thread alone -/

/-- The program runs from `s` to `s'` without interference, and returns `a`. -/
inductive Solo {ε σ α : Type} : σ → Prog ε σ α → σ → α → Prop
  | ret {s : σ} {a : α} : Solo s (.ret a) s a
  | tick {s s' s'' : σ} {p p' : Prog ε σ α} {a : α} : p.tick s = .done s' p' → Solo s' p' s'' a →
      Solo s p s'' a

namespace Solo

variable {ε σ α β γ : Type} {s s' s'' : σ} {p : Prog ε σ α} {a a' : α}

/-- **A program alone has one result.** -/
theorem unique (h : Solo s p s' a) (h' : Solo s p s'' a') : s' = s'' ∧ a = a' := by
  induction h with
  | ret =>
    cases h' with
    | ret => exact ⟨rfl, rfl⟩
    | tick ht _ => cases ht
  | tick ht _ ih =>
    cases h' with
    | ret => cases ht
    | tick ht' h' =>
      rw [ht] at ht'
      cases ht'
      exact ih h'

theorem step {f : σ → Turn ε σ β} {k : β → Prog ε σ α} {b : β} (hf : f s = .done s' b)
    (h : Solo s' (k b) s'' a) : Solo s (.step f k) s'' a :=
  .tick (Turn.map_eq_done.mpr ⟨b, hf, rfl⟩) h

theorem atom {f : σ → Turn ε σ α} (hf : f s = .done s' a) : Solo s (.atom f) s' a := .step hf .ret

theorem bind {k : α → Prog ε σ β} {b : β} (h : Solo s p s' a) (hk : Solo s' (k a) s'' b) :
    Solo s (p >>= k) s'' b := by
  rw [bind_eq]
  induction h with
  | ret => exact hk
  | @tick s₁ s₂ s₃ p p' a ht _ ih =>
    have hv : p.value = none := by
      by_contra hv
      obtain ⟨a, rfl⟩ := exists_ret hv
      nomatch ht
    refine .tick ?_ (ih hk)
    rw [tick_bind hv, ht]
    rfl

/-- One more round. -/
theorem round {body : β → Prog ε σ (β ⊕ γ)} {b c : β} {r : γ} (h : Solo s (body b) s' (.inl c))
    (h' : Solo s' (.repeat body c) s'' r) : Solo s (.repeat body b) s'' r :=
  .tick rfl (h.bind h')

/-- The last round. -/
theorem last {body : β → Prog ε σ (β ⊕ γ)} {b : β} {c : γ} (h : Solo s (body b) s' (.inr c)) :
    Solo s (.repeat body b) s' c := .tick rfl (h.bind .ret)

end Solo

end FerrumAlloc.Lib
