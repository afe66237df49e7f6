/-
# FerrumAlloc.Tlsf.Determined -- the view of a pool decides what its operations do

Good-fit search looks at the free lists, the split at a size, the two merges at free flags. All of these
are in the view, so two pools with one view give the same block to the same request
(`Allocated.unique`) and merge a freed block with the same neighbours (`Released.unique`), whatever their
memories hold elsewhere.

The view in turn decides every word that the allocator reads: `SamePool` says that headers, bitmaps and
list heads, and the links of the listed blocks are equal.
-/
import FerrumAlloc.Tlsf.Commute
import FerrumAlloc.Tlsf.Free

namespace FerrumAlloc.Tlsf

open Lib

/-! ## One view, one result -/

section

variable {start sz a n s p : Nat} {L : Nat → Nat → List Nat} {bs : List Blk}

theorem BinLe.antisymm {fl sl fl' sl' : Nat} (h : BinLe fl sl fl' sl') (h' : BinLe fl' sl' fl sl) :
    fl = fl' ∧ sl = sl' := by
  unfold BinLe at h h'
  omega

namespace Chosen

variable {b b' s' : Nat}

/-- A chosen block is on a list that the search looks at. -/
theorem not_noFit (h : Chosen L sz b s) : ¬ NoFit L sz := by
  intro hno
  have hhead := h.head
  rw [hno _ _ h.le] at hhead
  nomatch hhead

/-- **Good fit chooses one block.** -/
theorem unique (h : Chosen L sz b s) (h' : Chosen L sz b' s') : b' = b := by
  have hne : ∀ {b s}, Chosen L sz b s → L (mapping s).1 (mapping s).2 ≠ [] := by
    intro b s h hnil
    have hhead := h.head
    rw [hnil] at hhead
    nomatch hhead
  obtain ⟨hfl, hsl⟩ := (h.first _ _ h'.le (hne h')).antisymm (h'.first _ _ h.le (hne h))
  have hhead := h'.head
  rw [← hfl, ← hsl, h.head] at hhead
  exact (Option.some.inj hhead).symm

end Chosen

/-- The address of a block says where the list splits. -/
theorem split_unique {b b' : Blk} {pre' post post' : List Blk} :
    ∀ {a : Nat} {pre : List Blk}, pre ++ b :: post = pre' ++ b' :: post' → endAddr a pre = endAddr a pre' →
      pre' = pre ∧ b' = b ∧ post' = post := by
  induction pre' with
  | nil =>
    intro a pre hl haddr
    cases pre with
    | nil => exact ⟨rfl, (List.cons.inj hl).1.symm, (List.cons.inj hl).2.symm⟩
    | cons c pre =>
      have hle := le_endAddr (a + 16 + c.size) pre
      simp only [endAddr_cons, endAddr_nil] at haddr
      omega
  | cons c' pre' ih =>
    intro a pre hl haddr
    cases pre with
    | nil =>
      have hle := le_endAddr (a + 16 + c'.size) pre'
      simp only [endAddr_cons, endAddr_nil] at haddr
      omega
    | cons c pre =>
      obtain ⟨rfl, htail⟩ := List.cons.inj hl
      rw [endAddr_cons, endAddr_cons] at haddr
      obtain ⟨rfl, hb, hpost⟩ := ih htail haddr
      exact ⟨rfl, hb, hpost⟩

/-- What a carve has done, with its block named. -/
theorem Carve.inv {bs' : List Blk} {L' : Nat → Nat → List Nat} (h : Carve start L sz bs bs' L' p) :
    ∃ pre s post, bs = pre ++ ⟨s, true⟩ :: post ∧ p = endAddr start pre + 16 ∧
      ((s < sz + 32 ∧ bs' = pre ++ ⟨s, false⟩ :: post ∧ L' = unfile L (endAddr start pre) s) ∨
        (sz + 32 ≤ s ∧ bs' = pre ++ ⟨sz, false⟩ :: ⟨s - sz - 16, true⟩ :: post ∧
          L' = file (unfile L (endAddr start pre) s) (endAddr start pre + 16 + sz) (s - sz - 16))) := by
  cases h with
  | whole _ hlt => exact ⟨_, _, _, rfl, rfl, .inl ⟨hlt, rfl, rfl⟩⟩
  | split hle => exact ⟨_, _, _, rfl, rfl, .inr ⟨hle, rfl, rfl⟩⟩

/-- A carve at one payload has one result. -/
theorem Carve.unique {bs₁ bs₂ : List Blk} {L₁ L₂ : Nat → Nat → List Nat} (h₁ : Carve start L sz bs bs₁ L₁ p)
    (h₂ : Carve start L sz bs bs₂ L₂ p) : bs₂ = bs₁ ∧ L₂ = L₁ := by
  obtain ⟨pre, s, post, hbs, hp, hcase⟩ := h₁.inv
  obtain ⟨pre', s', post', hbs', hp', hcase'⟩ := h₂.inv
  obtain ⟨rfl, hb, rfl⟩ := split_unique (hbs.symm.trans hbs') (Nat.add_right_cancel (hp.symm.trans hp'))
  obtain rfl : s' = s := congrArg Blk.size hb
  rcases hcase with ⟨hlt, rfl, rfl⟩ | ⟨hle, rfl, rfl⟩
  · rcases hcase' with ⟨_, rfl, rfl⟩ | ⟨hle, _⟩
    · exact ⟨rfl, rfl⟩
    · exact absurd hlt (Nat.not_lt_of_le hle)
  · rcases hcase' with ⟨hlt, _⟩ | ⟨_, rfl, rfl⟩
    · exact absurd hlt (Nat.not_lt_of_le hle)
    · exact ⟨rfl, rfl⟩

theorem AbsorbNext.unique {post post₁ post₂ : List Blk} {s₁ s₂ : Nat} {L₁ L₂ : Nat → Nat → List Nat}
    (h₁ : AbsorbNext L n s post s₁ post₁ L₁) (h₂ : AbsorbNext L n s post s₂ post₂ L₂) :
    s₂ = s₁ ∧ post₂ = post₁ ∧ L₂ = L₁ := by
  cases h₁ with
  | used hused =>
    cases h₂ with
    | used _ => exact ⟨rfl, rfl, rfl⟩
    | free => exact absurd (hused _ rfl) nofun
  | free =>
    cases h₂ with
    | used hused => exact absurd (hused _ rfl) nofun
    | free => exact ⟨rfl, rfl, rfl⟩

theorem AbsorbPrev.inv {pre pre' : List Blk} {s' : Nat} {L' : Nat → Nat → List Nat}
    (h : AbsorbPrev start L s pre pre' s' L') :
    (endFree false pre = false ∧ pre' = pre ∧ s' = s ∧ L' = L) ∨
      ∃ s₁, pre = pre' ++ [⟨s₁, true⟩] ∧ s' = s₁ + 16 + s ∧ L' = unfile L (endAddr start pre') s₁ := by
  cases h with
  | used hused => exact .inl ⟨hused, rfl, rfl, rfl⟩
  | free => exact .inr ⟨_, rfl, rfl, rfl⟩

theorem AbsorbPrev.unique {pre pre₁ pre₂ : List Blk} {s₁ s₂ : Nat} {L₁ L₂ : Nat → Nat → List Nat}
    (h₁ : AbsorbPrev start L s pre pre₁ s₁ L₁) (h₂ : AbsorbPrev start L s pre pre₂ s₂ L₂) :
    pre₂ = pre₁ ∧ s₂ = s₁ ∧ L₂ = L₁ := by
  -- the last block is free in the one case and used in the other
  have hend : ∀ {pre' : List Blk} {s' : Nat}, endFree false (pre' ++ [⟨s', true⟩]) = true := by
    intro pre' s'
    rw [endFree_append]
    rfl
  rcases h₁.inv with ⟨hused, rfl, rfl, rfl⟩ | ⟨s', hpre, rfl, rfl⟩
  · rcases h₂.inv with ⟨_, rfl, rfl, rfl⟩ | ⟨s', rfl, _⟩
    · exact ⟨rfl, rfl, rfl⟩
    · exact absurd (hend.symm.trans hused) nofun
  · rcases h₂.inv with ⟨hused, _⟩ | ⟨s'', hpre', rfl, rfl⟩
    · rw [hpre, hend] at hused
      nomatch hused
    · obtain ⟨rfl, hb⟩ := List.append_inj' (hpre.symm.trans hpre') rfl
      obtain rfl : s' = s'' := congrArg Blk.size (List.cons.inj hb).1
      exact ⟨rfl, rfl, rfl⟩

theorem Release.inv {bs' : List Blk} {L' : Nat → Nat → List Nat} (h : Release start L bs p bs' L') :
    ∃ pre s post pre' s₁ s₂ post' L₁ L₂, bs = pre ++ ⟨s, false⟩ :: post ∧ p = endAddr start pre + 16 ∧
      AbsorbNext L (endAddr start pre + 16 + s) s post s₁ post' L₁ ∧
      AbsorbPrev start L₁ s₁ pre pre' s₂ L₂ ∧
      bs' = pre' ++ ⟨s₂, true⟩ :: post' ∧ L' = file L₂ (endAddr start pre') s₂ := by
  cases h with
  | mk hnext hprev => exact ⟨_, _, _, _, _, _, _, _, _, rfl, rfl, hnext, hprev, rfl, rfl⟩

/-- A freed block merges in one way. -/
theorem Release.unique {bs₁ bs₂ : List Blk} {L₁ L₂ : Nat → Nat → List Nat} (h₁ : Release start L bs p bs₁ L₁)
    (h₂ : Release start L bs p bs₂ L₂) : bs₂ = bs₁ ∧ L₂ = L₁ := by
  obtain ⟨pre, s, post, _, _, _, _, _, _, hbs, hp, hnext, hprev, rfl, rfl⟩ := h₁.inv
  obtain ⟨pre', s', post', _, _, _, _, _, _, hbs', hp', hnext', hprev', rfl, rfl⟩ := h₂.inv
  obtain ⟨rfl, hb, rfl⟩ := split_unique (hbs.symm.trans hbs') (Nat.add_right_cancel (hp.symm.trans hp'))
  obtain rfl : s' = s := congrArg Blk.size hb
  obtain ⟨rfl, rfl, rfl⟩ := hnext.unique hnext'
  obtain ⟨rfl, rfl, rfl⟩ := hprev.unique hprev'
  exact ⟨rfl, rfl⟩

end

section

variable {t t' t₁ t₂ : TlsfAllocator} {m m' m₁ m₂ : Mem} {bs bs₁ bs₂ : List Blk}
  {L L₁ L₂ : Nat → Nat → List Nat} {n p p₁ p₂ : Nat}

/-- **Two pools with one view give the same block** to one request, and keep one view. -/
theorem Allocated.unique (h : Allocated t m bs L n t₁ m₁ bs₁ L₁ p₁)
    (h' : Allocated t' m' bs L n t₂ m₂ bs₂ L₂ p₂) (hstart : t'.poolStart = t.poolStart) :
    p₂ = p₁ ∧ bs₂ = bs₁ ∧ L₂ = L₁ := by
  obtain ⟨_, _, hchosen⟩ := h.chosen
  obtain ⟨_, _, hchosen'⟩ := h'.chosen
  have hpayload : ∀ {start p : Nat} {bs' : List Blk} {L' : Nat → Nat → List Nat},
      Carve start L (adjusted n) bs bs' L' p → fromPayload p + 16 = p := by
    intro start p bs' L' hc
    obtain ⟨pre, _, _, _, rfl, _⟩ := hc.inv
    exact Nat.sub_add_cancel (Nat.le_add_left 16 _)
  have hp : p₂ = p₁ := by
    rw [← hpayload h.carve, ← hpayload h'.carve, hchosen.unique hchosen']
  subst hp
  have hcarve' := h'.carve
  rw [hstart] at hcarve'
  exact ⟨rfl, h.carve.unique hcarve'⟩

/-- **Two pools with one view merge a freed block alike.** -/
theorem Released.unique (h : Released t m bs L p t₁ m₁ bs₁ L₁) (h' : Released t' m' bs L p t₂ m₂ bs₂ L₂)
    (hstart : t'.poolStart = t.poolStart) : bs₂ = bs₁ ∧ L₂ = L₁ := by
  have hrelease' := h'.release
  rw [hstart] at hrelease'
  exact h.release.unique hrelease'

/-! ## One view, one pool -/

/-- **The same pool**, for every reader: headers and bitmaps, the heads of the lists, and the links of the
blocks on them. -/
structure SamePool (t : TlsfAllocator) (m : Mem) (t' : TlsfAllocator) (m' : Mem) : Prop where
  heap : SameHeap t m t' m'
  heads : t'.lists = t.lists
  links : ∀ fl sl x, OnChain (linkNext m) 0 (t.lists fl sl) x →
    linkNext m' x = linkNext m x ∧ linkPrev m' x = linkPrev m x

theorem PoolInv.samePool (h : PoolInv t m bs L) (h' : PoolInv t' m' bs L)
    (hstart : t'.poolStart = t.poolStart) (hend : t'.poolEnd = t.poolEnd) : SamePool t m t' m' := by
  refine ⟨h.sameHeap h' hstart hend, ?_, fun fl sl x hx => ?_⟩
  · funext fl sl
    exact ((h.filed.dlist fl sl).same (h'.filed.dlist fl sl)).1
  · have hmem := (h.filed.dlist fl sl).chain.onChain_iff.mp hx
    exact ((h.filed.dlist fl sl).same (h'.filed.dlist fl sl)).2 x hmem

end

end FerrumAlloc.Tlsf
