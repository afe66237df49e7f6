/-
# FerrumAlloc.Api.Paths -- sequences of acts

A call is a sequence of acts and of stores into live blocks (`Path`). The invariant holds along it, one
case per act (`Act.kept`). `Leads` adds what the client sees: blocks that live at both ends keep their
bytes.
-/
import FerrumAlloc.Api.ActsSlab
import Mathlib.Logic.Relation

namespace FerrumAlloc

open Lib

variable {t : Nat} {D : Prop} {E : View → Nat → Prop} {c c' c'' : Conf} {b : Block}

/-- **Step lemma.** Every act keeps the invariant and the bytes of the blocks that live on. -/
theorem Act.kept (ha : Act t D E c c') (hg : Good c.heap c.view c.live) : Kept c c' := by
  cases ha with
  | setup hs => exact hg.setup hs
  | attempt hinit _ => exact hg.attempt hinit
  | create hc _ => exact hg.create hc
  | pop hp _ htop => exact hg.pop hp htop
  | serve hs _ hn => exact hg.serve hs hn
  | put hp hb hvia hptr _ _ => exact hg.put hp hb hvia hptr
  | push hinit hu hb hvia hptr => exact hg.push hinit hu hb hvia hptr
  | carve hinit hn hal => exact hg.carve hinit hn hal
  | release hinit hb _ hr => exact hg.release hinit hb hr
  | issue hi => exact hg.issue hi
  | map hm => exact hg.map hm
  | unmap hb hvia => exact hg.unmap hb hvia
  | leak _ _ => exact hg.leak _

/-- One act, or one store into a live block. -/
def Move (t : Nat) (D : Prop) (E : View → Nat → Prop) (c c' : Conf) : Prop := Act t D E c c' ∨ ∃ b, Store b c c'

/-- Acts and stores of one call. -/
def Path (t : Nat) (D : Prop) (E : View → Nat → Prop) : Conf → Conf → Prop := Relation.ReflTransGen (Move t D E)

theorem Move.good (hm : Move t D E c c') (hg : Good c.heap c.view c.live) :
    Good c'.heap c'.view c'.live := by
  rcases hm with ha | ⟨b, hs⟩
  · exact (ha.kept hg).good
  · obtain ⟨hb, hm⟩ := hs
    exact hg.store hb hm

/-- **Run lemma.** The invariant holds along every path. -/
theorem Path.good (hp : Path t D E c c') (hg : Good c.heap c.view c.live) :
    Good c'.heap c'.view c'.live := by
  induction hp with
  | refl => exact hg
  | tail _ hm ih => exact hm.good ih

/-- **The invariant rule for paths.** What acts and stores keep in good configurations holds at the end. -/
theorem Path.invariant {I : Conf → Prop}
    (hact : ∀ c c', Good c.heap c.view c.live → I c → Act t D E c c' → I c')
    (hstore : ∀ c c' b, Good c.heap c.view c.live → I c → Store b c c' → I c') (hp : Path t D E c c')
    (hg : Good c.heap c.view c.live) (hI : I c) : I c' := by
  induction hp with
  | refl => exact hI
  | tail hp hm ih =>
    have hg' := Path.good hp hg
    rcases hm with ha | ⟨b, hs⟩
    · exact hact _ _ hg' ih ha
    · exact hstore _ _ b hg' ih hs

/-- A path on which surviving blocks keep their bytes. -/
structure Leads (t : Nat) (D : Prop) (E : View → Nat → Prop) (c c' : Conf) : Prop where
  path : Path t D E c c'
  keeps : Keeps c c'

namespace Leads

theorem refl (c : Conf) : Leads t D E c c := ⟨.refl, fun _ _ _ => Set.eqOn_refl _ _⟩

theorem act (hg : Good c.heap c.view c.live) (ha : Act t D E c c') : Leads t D E c c' :=
  ⟨.single (.inl ha), (ha.kept hg).keeps⟩

theorem good (hl : Leads t D E c c') (hg : Good c.heap c.view c.live) :
    Good c'.heap c'.view c'.live := hl.path.good hg

/-- Blocks that live at both ends must live in between. -/
theorem trans (hl : Leads t D E c c') (hl' : Leads t D E c' c'')
    (hmid : ∀ b ∈ c.live, b ∈ c''.live → b ∈ c'.live) : Leads t D E c c'' :=
  ⟨hl.path.trans hl'.path, fun b hb hb' =>
    (hl'.keeps b (hmid b hb hb') hb').trans (hl.keeps b hb (hmid b hb hb'))⟩

/-- A store into a block that is new. -/
theorem store (hl : Leads t D E c c') (hg : Good c'.heap c'.view c'.live) (hb : b ∈ c'.live)
    (hnew : b ∉ c.live) {m : Mem} (hm : Set.EqOn m c'.heap.os.bytes b.extentᶜ) :
    Leads t D E c ⟨c'.heap.setBytes m, c'.view, c'.live⟩ := by
  refine ⟨hl.path.tail (.inr ⟨b, .mk hb hm⟩), fun b' hb' hb'' => ?_⟩
  have hne : b' ≠ b := by
    rintro rfl
    exact hnew hb'
  exact (hg.store_keeps hb hm hb'' hne).trans (hl.keeps b' hb' hb'')

end Leads

end FerrumAlloc
