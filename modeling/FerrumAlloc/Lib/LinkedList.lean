/-
# FerrumAlloc.Lib.LinkedList -- pointer chains and doubly linked lists as representation predicates

Two shapes of linked structure, each stated over arbitrary link *functions*, so that the same rules
serve links held in byte memory, in records, or in slot indices:

* `Chain next nul h l`: following `next` from `h` visits exactly `l` and then stops at `nul`;
* `DList next prev nul h l`: the same for a doubly linked list whose head pointer is `h`.

The update rules (`DList.push`, `DList.remove`, `Chain.push`, `Chain.pop`) are stated pointwise: they
say which links the new functions must have, not how a program stored them. `Chain.congr` and
`DList.congr` are the frame rules: a list depends on the links of its own nodes only.
-/
import Mathlib.Data.List.Nodup
import Mathlib.Data.Fintype.Card
import Mathlib.Logic.Function.Basic

namespace FerrumAlloc.Lib

variable {α : Type*}

/-! ## Null-terminated chains -/

/-- Following `next` from `h` visits exactly the nodes of `l`, none of them `nul`, and ends in
`nul`. -/
def Chain (next : α → α) (nul : α) : α → List α → Prop
  | h, [] => h = nul
  | h, x :: xs => h = x ∧ x ≠ nul ∧ Chain next nul (next x) xs

/-- The nodes met when following `next` from `h` until `nul`. -/
inductive OnChain (next : α → α) (nul : α) : α → α → Prop
  | head {h : α} : h ≠ nul → OnChain next nul h h
  | tail {h x : α} : h ≠ nul → OnChain next nul (next h) x → OnChain next nul h x

namespace Chain

variable {next next' : α → α} {nul h x : α} {l : List α}

@[simp] theorem nil_iff : Chain next nul h [] ↔ h = nul := Iff.rfl

theorem eq_nil_iff (hc : Chain next nul h l) : l = [] ↔ h = nul := by
  cases l with
  | nil => simpa using hc
  | cons x xs =>
    obtain ⟨rfl, hx, _⟩ := hc
    simp [hx]

/-- **Frame.** A chain depends on the links of its own nodes only. -/
theorem congr (hc : Chain next nul h l) (hl : ∀ x ∈ l, next' x = next x) :
    Chain next' nul h l := by
  induction l generalizing h with
  | nil => exact hc
  | cons y ys ih =>
    obtain ⟨rfl, hy, hrest⟩ := hc
    refine ⟨rfl, hy, ?_⟩
    rw [hl h (by simp)]
    exact ih hrest fun x hx => hl x (List.mem_cons_of_mem _ hx)

/-- Two chains over the same nodes have the same links, and start at the same node. -/
theorem same {h' : α} (hc : Chain next nul h l) (hc' : Chain next' nul h' l) :
    h' = h ∧ ∀ x ∈ l, next' x = next x := by
  induction l generalizing h h' with
  | nil => exact ⟨hc'.trans hc.symm, nofun⟩
  | cons y ys ih =>
    obtain ⟨rfl, _, hrest⟩ := hc
    obtain ⟨rfl, _, hrest'⟩ := hc'
    obtain ⟨hnext, hlinks⟩ := ih hrest hrest'
    refine ⟨rfl, fun x hx => ?_⟩
    rcases List.mem_cons.mp hx with rfl | hx
    · exact hnext
    · exact hlinks x hx

/-- Linking a new node in front. -/
theorem push (hc : Chain next nul h l) (hx : x ≠ nul) (hnew : next' x = h)
    (hold : ∀ y ∈ l, next' y = next y) : Chain next' nul x (x :: l) :=
  ⟨rfl, hx, hnew ▸ hc.congr hold⟩

/-- A run of consecutive numbers, each linked to the next one. -/
theorem range' {next : Nat → Nat} {nul : Nat} (n : Nat) : ∀ {i : Nat},
    (∀ j, i ≤ j → j ≤ i + n → j ≠ nul ∧ next j = if j = i + n then nul else j + 1) →
      Chain next nul i (List.range' i (n + 1)) := by
  induction n with
  | zero =>
    intro i h
    obtain ⟨hne, hnext⟩ := h i (Nat.le_refl i) (Nat.le_refl i)
    rw [if_pos (Nat.add_zero i).symm] at hnext
    exact ⟨rfl, hne, hnext⟩
  | succ n ih =>
    intro i h
    obtain ⟨hne, hnext⟩ := h i (Nat.le_refl i) (by omega)
    rw [if_neg (by omega)] at hnext
    refine ⟨rfl, hne, ?_⟩
    rw [hnext]
    refine ih fun j h1 h2 => ?_
    obtain ⟨hj, hjn⟩ := h j (by omega) (by omega)
    refine ⟨hj, ?_⟩
    rw [hjn, show i + (n + 1) = i + 1 + n by omega]

/-- The node set of a chain is what `OnChain` reaches. -/
theorem onChain_iff (hc : Chain next nul h l) : OnChain next nul h x ↔ x ∈ l := by
  constructor
  · intro ho
    induction ho generalizing l with
    | @head h hne =>
      cases l with
      | nil => exact absurd hc hne
      | cons y ys => simp [hc.1]
    | @tail h x hne _ ih =>
      cases l with
      | nil => exact absurd hc hne
      | cons y ys =>
        obtain ⟨rfl, _, hrest⟩ := hc
        exact List.mem_cons_of_mem _ (ih hrest)
  · intro hmem
    induction l generalizing h with
    | nil => simp at hmem
    | cons y ys ih =>
      obtain ⟨rfl, hne, hrest⟩ := hc
      rcases List.mem_cons.mp hmem with rfl | hmem
      · exact .head hne
      · exact .tail hne (ih hrest hmem)

end Chain

/-! ## Doubly linked lists -/

/-- The nodes of `l` are linked both ways, the first one backwards to `p`, the last one forwards to
`nul`. -/
def Linked (next prev : α → α) (nul : α) : α → List α → Prop
  | _, [] => True
  | p, x :: xs => prev x = p ∧ next x = xs.headD nul ∧ Linked next prev nul x xs

/-- A null-terminated, correctly back-linked list with head pointer `h` and nodes `l`. -/
structure DList (next prev : α → α) (nul h : α) (l : List α) : Prop where
  head : h = l.headD nul
  ne_nul : ∀ x ∈ l, x ≠ nul
  nodup : l.Nodup
  linked : Linked next prev nul nul l

namespace Linked

variable {next next' prev prev' : α → α} {nul p x : α} {l l₁ l₂ : List α}

theorem congr (hl : Linked next prev nul p l) (hn : ∀ x ∈ l, next' x = next x)
    (hp : ∀ x ∈ l, prev' x = prev x) : Linked next' prev' nul p l := by
  induction l generalizing p with
  | nil => trivial
  | cons y ys ih =>
    obtain ⟨h1, h2, h3⟩ := hl
    refine ⟨(hp y (by simp)).trans h1, (hn y (by simp)).trans h2, ih h3 ?_ ?_⟩
    · exact fun x hx => hn x (List.mem_cons_of_mem _ hx)
    · exact fun x hx => hp x (List.mem_cons_of_mem _ hx)

/-- The forward links alone form a chain. -/
theorem chain (hl : Linked next prev nul p l) (hne : ∀ x ∈ l, x ≠ nul) :
    Chain next nul (l.headD nul) l := by
  induction l generalizing p with
  | nil => rfl
  | cons y ys ih =>
    obtain ⟨_, h2, h3⟩ := hl
    refine ⟨rfl, hne y (by simp), ?_⟩
    rw [h2]
    exact ih h3 fun x hx => hne x (List.mem_cons_of_mem _ hx)

/-- Two linked lists over the same nodes have the same links. -/
theorem same (hl : Linked next prev nul p l) (hl' : Linked next' prev' nul p l) :
    ∀ x ∈ l, next' x = next x ∧ prev' x = prev x := by
  induction l generalizing p with
  | nil => exact nofun
  | cons y ys ih =>
    obtain ⟨h1, h2, h3⟩ := hl
    obtain ⟨h1', h2', h3'⟩ := hl'
    intro x hx
    rcases List.mem_cons.mp hx with rfl | hx
    · exact ⟨h2'.trans h2.symm, h1'.trans h1.symm⟩
    · exact ih h3 h3' x hx

/-- What the links of an inner node say: its predecessor is the last node before it (or `p`), its
successor the first one after it. -/
theorem at_mid (hl : Linked next prev nul p (l₁ ++ x :: l₂)) :
    prev x = l₁.getLastD p ∧ next x = l₂.headD nul := by
  induction l₁ generalizing p with
  | nil => exact ⟨hl.1, hl.2.1⟩
  | cons y ys ih => rw [List.getLastD_cons]; exact ih hl.2.2

end Linked

namespace DList

variable {next next' prev prev' : α → α} {nul h h' x : α} {l l₁ l₂ : List α}

theorem chain (hd : DList next prev nul h l) : Chain next nul h l :=
  hd.head ▸ hd.linked.chain hd.ne_nul

theorem nil : DList next prev nul nul [] :=
  ⟨rfl, by simp, List.nodup_nil, trivial⟩

theorem eq_nil_iff (hd : DList next prev nul h l) : l = [] ↔ h = nul := hd.chain.eq_nil_iff

/-- **One node list, one doubly linked list**: the head and the links are determined. -/
theorem same (hd : DList next prev nul h l) (hd' : DList next' prev' nul h' l) :
    h' = h ∧ ∀ x ∈ l, next' x = next x ∧ prev' x = prev x :=
  ⟨hd'.head.trans hd.head.symm, hd.linked.same hd'.linked⟩

/-- **Frame.** A list depends on the links of its own nodes only. -/
theorem congr (hd : DList next prev nul h l) (hn : ∀ x ∈ l, next' x = next x)
    (hp : ∀ x ∈ l, prev' x = prev x) : DList next' prev' nul h l :=
  ⟨hd.head, hd.ne_nul, hd.nodup, hd.linked.congr hn hp⟩

variable [DecidableEq α]

/-- **Push.** A fresh node `x` becomes the head: it points forward to the old head and back to
`nul`, and the old head points back to it. -/
theorem push (hd : DList next prev nul h l) (hx : x ≠ nul) (hfresh : x ∉ l)
    (hxn : next' x = h) (hxp : prev' x = nul) (hn : ∀ y ∈ l, next' y = next y)
    (hp : ∀ y ∈ l, prev' y = if y = h then x else prev y) :
    DList next' prev' nul x (x :: l) := by
  have hrest : Linked next' prev' nul x l := by
    cases l with
    | nil => trivial
    | cons y ys =>
      have hy : h = y := hd.head
      obtain ⟨_, h2, h3⟩ := hd.linked
      refine ⟨by rw [hp y (by simp), if_pos hy.symm], (hn y (by simp)).trans h2, h3.congr ?_ ?_⟩
      · exact fun z hz => hn z (List.mem_cons_of_mem _ hz)
      · intro z hz
        have hne : z ≠ h := by
          rintro rfl
          exact (List.nodup_cons.mp hd.nodup).1 (hy ▸ hz)
        rw [hp z (List.mem_cons_of_mem _ hz), if_neg hne]
  refine ⟨rfl, ?_, List.nodup_cons.mpr ⟨hfresh, hd.nodup⟩, hxp, hxn.trans hd.head, hrest⟩
  intro y hy
  rcases List.mem_cons.mp hy with rfl | hy
  · exact hx
  · exact hd.ne_nul y hy

/-- Unlinking `x` from the middle of a linked segment. -/
private theorem linked_remove {p : α} :
    ∀ {l₁ : List α}, (l₁ ++ x :: l₂).Nodup → p ∉ l₁ ++ x :: l₂ →
      (∀ y ∈ l₁ ++ x :: l₂, y ≠ nul) →
      Linked next prev nul p (l₁ ++ x :: l₂) →
      (∀ y ∈ l₁ ++ l₂, next' y = if y = prev x then next x else next y) →
      (∀ y ∈ l₁ ++ l₂, prev' y = if y = next x then prev x else prev y) →
      Linked next' prev' nul p (l₁ ++ l₂) := by
  intro l₁
  induction l₁ generalizing p with
  | nil =>
    intro hnd hp hnn hl hn hpr
    obtain ⟨hxp, hxn, hrest⟩ := hl
    cases l₂ with
    | nil => trivial
    | cons z zs =>
      have hnz : ∀ y ∈ z :: zs, y ≠ prev x := by
        rintro y hy rfl
        exact hp (by rw [← hxp]; exact List.mem_cons_of_mem _ hy)
      have hzn : next x = z := hxn
      refine ⟨?_, ?_, hrest.2.2.congr ?_ ?_⟩
      · rw [hpr z (by simp), if_pos hzn.symm, hxp]
      · rw [hn z (by simp), if_neg (hnz z (by simp)), hrest.2.1]
      · exact fun y hy => by
          rw [hn y (by simp [hy]), if_neg (hnz y (List.mem_cons_of_mem _ hy))]
      · intro y hy
        have hyz : y ≠ next x := by
          rw [hzn]; rintro rfl
          exact (List.nodup_cons.mp (List.nodup_cons.mp hnd).2).1 hy
        rw [hpr y (by simp [hy]), if_neg hyz]
  | cons w ws ih =>
    intro hnd hp hnn hl hn hpr
    obtain ⟨hwp, hwn, hrest⟩ := hl
    have hnd' := List.nodup_cons.mp hnd
    obtain ⟨hmid_p, hmid_n⟩ := hrest.at_mid
    have hw_ne_next : w ≠ next x := by
      rw [hmid_n]; rintro rfl
      cases l₂ with
      | nil => exact hnn nul (by simp) rfl
      | cons z zs => exact hnd'.1 (by simp)
    refine ⟨?_, ?_, ih hnd'.2 hnd'.1 ?_ hrest ?_ ?_⟩
    · rw [hpr w (by simp), if_neg hw_ne_next, hwp]
    · rw [hn w (by simp)]
      cases ws with
      | nil =>
        have : prev x = w := by simpa using hmid_p
        rw [if_pos this.symm, hmid_n]; rfl
      | cons u us =>
        have hne : w ≠ prev x := by
          rw [hmid_p]; intro heq
          have hmem : w ∈ u :: us := by
            rw [heq, List.getLastD_cons]
            exact List.getLastD_mem_cons
          exact hnd'.1 (List.mem_append_left _ hmem)
        rw [if_neg hne, hwn]; rfl
    · exact fun y hy => hnn y (List.mem_cons_of_mem _ hy)
    · exact fun y hy => hn y (List.mem_cons_of_mem _ hy)
    · exact fun y hy => hpr y (List.mem_cons_of_mem _ hy)

/-- **Remove.** Unlinking a node from anywhere in the list: its neighbours are linked to each other,
and the head moves on when the node was the head. -/
theorem remove (hd : DList next prev nul h (l₁ ++ x :: l₂))
    (hh : h' = if prev x = nul then next x else h)
    (hn : ∀ y ∈ l₁ ++ l₂, next' y = if y = prev x then next x else next y)
    (hp : ∀ y ∈ l₁ ++ l₂, prev' y = if y = next x then prev x else prev y) :
    DList next' prev' nul h' (l₁ ++ l₂) := by
  obtain ⟨hmid_p, hmid_n⟩ := hd.linked.at_mid
  have hsub : List.Sublist (l₁ ++ l₂) (l₁ ++ x :: l₂) :=
    List.Sublist.append_left (List.sublist_cons_self x l₂) l₁
  refine ⟨?_, fun y hy => hd.ne_nul y (hsub.subset hy), hd.nodup.sublist hsub, ?_⟩
  · cases l₁ with
    | nil =>
      have : prev x = nul := by simpa using hmid_p
      rw [hh, if_pos this, hmid_n]; rfl
    | cons w ws =>
      have hne : prev x ≠ nul := by
        rw [hmid_p, List.getLastD_cons]
        exact hd.ne_nul _ (List.mem_append_left _ List.getLastD_mem_cons)
      rw [hh, if_neg hne, hd.head]; rfl
  · exact linked_remove hd.nodup (fun hmem => hd.ne_nul nul hmem rfl) hd.ne_nul hd.linked hn hp

/-- **Pop.** Unlinking the head. -/
theorem pop (hd : DList next prev nul h (x :: l)) (hn : ∀ y ∈ l, next' y = next y)
    (hp : ∀ y ∈ l, prev' y = if y = next x then nul else prev y) :
    DList next' prev' nul (next x) l := by
  have hxp : prev x = nul := hd.linked.1
  have hd' : DList next prev nul h ([] ++ x :: l) := hd
  refine hd'.remove (by rw [if_pos hxp]) ?_ ?_
  · intro y hy
    have hy0 : y ≠ prev x := by
      rw [hxp]; exact hd.ne_nul y (List.mem_cons_of_mem _ hy)
    rw [if_neg hy0]; exact hn y hy
  · intro y hy
    rw [hxp]; exact hp y hy

end DList

/-! ## Families of doubly linked lists -/

/-- Disjoint doubly linked lists, one for each key, over one pair of link functions. -/
structure DLists {κ : Type*} (next prev : α → α) (nul : α) (head : κ → α) (l : κ → List α) :
    Prop where
  list : ∀ k, DList next prev nul (head k) (l k)
  disj : ∀ {k k' x}, x ∈ l k → x ∈ l k' → k = k'

namespace DLists

variable {κ : Type*} {next next' prev prev' : α → α} {nul x : α} {head : κ → α} {l : κ → List α}
  {k : κ}

/-- **Frame.** -/
theorem congr (h : DLists next prev nul head l) (hn : ∀ k, ∀ y ∈ l k, next' y = next y)
    (hp : ∀ k, ∀ y ∈ l k, prev' y = prev y) : DLists next' prev' nul head l :=
  ⟨fun k => (h.list k).congr (hn k) (hp k), h.disj⟩

theorem ne_nul (h : DLists next prev nul head l) (hx : x ∈ l k) : x ≠ nul := (h.list k).ne_nul x hx

/-- A head pointer that is not null is a node of its list. -/
theorem head_mem (h : DLists next prev nul head l) (hk : head k ≠ nul) : head k ∈ l k := by
  have hh := (h.list k).head
  cases hl : l k with
  | nil =>
    rw [hl] at hh
    exact absurd hh hk
  | cons y ys =>
    rw [hl] at hh
    rw [hh]
    exact List.mem_cons_self

variable [DecidableEq α] [DecidableEq κ]

/-- **Push.** A node of no list becomes the head of list `k`. -/
theorem push (h : DLists next prev nul head l) (hx : x ≠ nul) (hfresh : ∀ k, x ∉ l k)
    (hxn : next' x = head k) (hxp : prev' x = nul) (hn : ∀ k, ∀ y ∈ l k, next' y = next y)
    (hp : ∀ k', ∀ y ∈ l k', prev' y = if y = head k then x else prev y) :
    DLists next' prev' nul (Function.update head k x) (Function.update l k (x :: l k)) := by
  refine ⟨fun k' => ?_, fun {k₁ k₂ y} h₁ h₂ => ?_⟩
  · by_cases hk : k' = k
    · subst hk
      rw [Function.update_self, Function.update_self]
      exact (h.list k').push hx (hfresh k') hxn hxp (hn k') (hp k')
    · rw [Function.update_of_ne hk, Function.update_of_ne hk]
      refine (h.list k').congr (hn k') fun y hy => ?_
      rw [hp k' y hy, if_neg]
      rintro rfl
      exact hk (h.disj hy (h.head_mem (h.ne_nul hy)))
  · by_cases hk₁ : k₁ = k <;> by_cases hk₂ : k₂ = k
    · exact hk₁.trans hk₂.symm
    · rw [hk₁, Function.update_self] at h₁
      rw [Function.update_of_ne hk₂] at h₂
      rcases List.mem_cons.mp h₁ with rfl | h₁
      · exact absurd h₂ (hfresh k₂)
      · rw [hk₁]; exact h.disj h₁ h₂
    · rw [Function.update_of_ne hk₁] at h₁
      rw [hk₂, Function.update_self] at h₂
      rcases List.mem_cons.mp h₂ with rfl | h₂
      · exact absurd h₁ (hfresh k₁)
      · rw [hk₂]; exact h.disj h₁ h₂
    · rw [Function.update_of_ne hk₁] at h₁
      rw [Function.update_of_ne hk₂] at h₂
      exact h.disj h₁ h₂

omit [DecidableEq α] in
/-- Membership after a push. -/
theorem mem_push {k' : κ} {y : α} :
    y ∈ Function.update l k (x :: l k) k' ↔ y ∈ l k' ∨ y = x ∧ k' = k := by
  by_cases hk : k' = k
  · subst hk
    rw [Function.update_self, List.mem_cons, and_iff_left rfl, or_comm]
  · rw [Function.update_of_ne hk]
    simp [hk]

omit [DecidableEq α] in
/-- Membership after a pop. -/
theorem mem_pop {xs : List α} {k' : κ} {y : α} (h : DLists next prev nul head l)
    (hl : l k = x :: xs) : y ∈ Function.update l k xs k' ↔ y ∈ l k' ∧ y ≠ x := by
  have hnodup := (h.list k).nodup
  rw [hl] at hnodup
  have hnot : x ∉ xs := (List.nodup_cons.mp hnodup).1
  by_cases hk : k' = k
  · subst hk
    rw [Function.update_self, hl, List.mem_cons]
    constructor
    · intro hy
      exact ⟨.inr hy, fun heq => hnot (heq ▸ hy)⟩
    · rintro ⟨rfl | hy, hne⟩
      · exact absurd rfl hne
      · exact hy
  · rw [Function.update_of_ne hk]
    refine ⟨fun hy => ⟨hy, ?_⟩, fun hy => hy.1⟩
    rintro rfl
    exact hk (h.disj hy (hl ▸ List.mem_cons_self))

/-- **Pop.** The head of list `k` leaves it. -/
theorem pop {xs : List α} (h : DLists next prev nul head l) (hl : l k = x :: xs)
    (hn : ∀ k', ∀ y ∈ l k', y ≠ x → next' y = next y)
    (hp : ∀ k', ∀ y ∈ l k', y ≠ x → prev' y = if y = next x then nul else prev y) :
    DLists next' prev' nul (Function.update head k (next x)) (Function.update l k xs) := by
  have hlist := h.list k
  rw [hl] at hlist
  have hnot : x ∉ xs := (List.nodup_cons.mp hlist.nodup).1
  have hsub : ∀ {y k'}, y ∈ Function.update l k xs k' → y ∈ l k' ∧ y ≠ x := (h.mem_pop hl).mp
  have hxn : next x ≠ nul → next x ∈ l k := by
    intro hne
    have hnext := hlist.linked.2.1
    cases xs with
    | nil => exact absurd hnext hne
    | cons z zs =>
      rw [hl, show next x = z from hnext]
      simp
  refine ⟨fun k' => ?_, fun h₁ h₂ => h.disj (hsub h₁).1 (hsub h₂).1⟩
  by_cases hk : k' = k
  · subst hk
    rw [Function.update_self, Function.update_self]
    refine hlist.pop (fun y hy => ?_) fun y hy => ?_
    · have hy' : y ∈ l k' := by rw [hl]; exact List.mem_cons_of_mem _ hy
      exact hn k' y hy' fun heq => hnot (heq ▸ hy)
    · have hy' : y ∈ l k' := by rw [hl]; exact List.mem_cons_of_mem _ hy
      exact hp k' y hy' fun heq => hnot (heq ▸ hy)
  · rw [Function.update_of_ne hk, Function.update_of_ne hk]
    have hyx : ∀ y ∈ l k', y ≠ x := by
      rintro y hy rfl
      exact hk (h.disj hy (hl ▸ List.mem_cons_self))
    refine (h.list k').congr (fun y hy => hn k' y hy (hyx y hy)) fun y hy => ?_
    rw [hp k' y hy (hyx y hy), if_neg]
    rintro rfl
    exact hk (h.disj hy (hxn (h.ne_nul hy)))

end DLists

end FerrumAlloc.Lib
