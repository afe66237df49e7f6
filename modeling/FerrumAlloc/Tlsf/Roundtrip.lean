/-
# FerrumAlloc.Tlsf.Roundtrip -- alloc and free cancel

On the abstract pool, `Release` undoes `Carve`. A block that was cut is merged with its remainder again,
because the remainder is the free block behind it; a block that was taken whole finds no free neighbour,
because it was free itself before. In both cases the block of the old size goes to the head of the list
where it had been the head (`Carve.release`).

The invariant turns the equality of views into an equality of everything the allocator reads
(`PoolInv.samePool`), whatever the client has written to the payload in between.
-/
import FerrumAlloc.Tlsf.Fit

namespace FerrumAlloc.Tlsf

open Lib

section

variable {L : Nat → Nat → List Nat} {b s : Nat}

theorem updBin_updBin {α : Type} (g : Nat → Nat → α) (fl sl : Nat) (v w : α) :
    updBin (updBin g fl sl v) fl sl w = updBin g fl sl w := by
  funext fl' sl'
  simp only [updBin_apply]
  split <;> rfl

theorem updBin_self {α : Type} (g : Nat → Nat → α) (fl sl : Nat) : updBin g fl sl (g fl sl) = g := by
  unfold updBin
  rw [Function.update_eq_self, Function.update_eq_self]

/-- Filing the head of a list again puts it back at its head. -/
theorem file_unfile (h : (L (mapping s).1 (mapping s).2).head? = some b) : file (unfile L b s) b s = L := by
  obtain ⟨rest, hrest⟩ := List.head?_eq_some_iff.mp h
  unfold file unfile
  rw [updBin_updBin, updBin_apply, if_pos ⟨rfl, rfl⟩, hrest, List.erase_cons_head, ← hrest]
  exact updBin_self L _ _

/-- Unfiling the block just filed leaves the lists as they were. -/
theorem unfile_file : unfile (file L b s) b s = L := by
  unfold file unfile
  rw [updBin_updBin, updBin_apply, if_pos ⟨rfl, rfl⟩, List.erase_cons_head]
  exact updBin_self L _ _

end

/-! ## On the view -/

section

variable {start sz p s : Nat} {bs bs' bs'' pre post : List Blk} {L L' L'' : Nat → Nat → List Nat}

/-- A free block in the middle has used neighbours. -/
theorem NoAdjacentFree.neighbours (h : NoAdjacentFree (pre ++ ⟨s, true⟩ :: post)) :
    endFree false pre = false ∧ ∀ c ∈ post.head?, c.free = false := by
  obtain ⟨_, _, hprev, hnext⟩ := noAdjacentFree_mid.mp h
  refine ⟨?_, fun c hc => hnext c hc rfl⟩
  rw [← Bool.not_eq_true]
  intro hend
  obtain ⟨_, hfalse⟩ | ⟨pre', c, rfl, hc⟩ := endFree_eq_true hend
  · exact Bool.false_ne_true hfalse
  · have hlast : c ∈ (pre' ++ [c]).getLast? := by
      rw [List.getLast?_concat]
      rfl
    exact Bool.false_ne_true (hprev c hlast hc).symm

/-- **On the view, `Release` undoes `Carve`.** -/
theorem Carve.release (hc : Carve start L sz bs bs' L' p) (hadj : NoAdjacentFree bs) {b : Nat}
    (hb : freeCells start bs (fromPayload p) b) (hhead : (L (mapping b).1 (mapping b).2).head? = some (fromPayload p))
    (hr : Release start L' bs' p bs'' L'') : bs'' = bs ∧ L'' = L := by
  obtain ⟨pre, s, post, rfl, rfl, hcase⟩ := hc.inv
  have hfrom : fromPayload (endAddr start pre + 16) = endAddr start pre := Nat.add_sub_cancel _ 16
  rw [hfrom] at hb hhead
  obtain rfl : b = s := by
    have hcell : freeCells start (pre ++ ⟨s, true⟩ :: post) (endAddr start pre) s :=
      freeCells_mid.mpr (.inr (.inl ⟨rfl, rfl⟩))
    exact congrArg Blk.size (cells_unique hb hcell)
  obtain ⟨hprev, hnext⟩ := hadj.neighbours
  rcases hcase with ⟨_, rfl, rfl⟩ | ⟨hle, rfl, rfl⟩
  · -- the whole block: its neighbours are used, so nothing merges
    have hnext' : AbsorbNext (unfile L (endAddr start pre) b) (endAddr start pre + 16 + b) b post b post
        (unfile L (endAddr start pre) b) := .used hnext
    have hback := Release.mk hnext' (AbsorbPrev.used hprev)
    rw [file_unfile hhead] at hback
    exact hback.unique hr
  · -- the front of the block: the remainder behind it is free and comes back
    have hmerge : AbsorbNext (file (unfile L (endAddr start pre) b) (endAddr start pre + 16 + sz) (b - sz - 16))
        (endAddr start pre + 16 + sz) sz (⟨b - sz - 16, true⟩ :: post) (sz + 16 + (b - sz - 16)) post
        (unfile (file (unfile L (endAddr start pre) b) (endAddr start pre + 16 + sz) (b - sz - 16))
          (endAddr start pre + 16 + sz) (b - sz - 16)) := .free
    rw [unfile_file, show sz + 16 + (b - sz - 16) = b by omega] at hmerge
    have hback := Release.mk hmerge (AbsorbPrev.used hprev)
    rw [file_unfile hhead] at hback
    exact hback.unique hr

end

/-! ## On the memory -/

section

variable {t t' : TlsfAllocator} {m m' m'' : Mem} {bs bs' : List Blk} {L L' : Nat → Nat → List Nat} {n p : Nat}

/-- The payload just handed out: its block is used, and its bytes belong to the client. -/
theorem Allocated.payload_used (h : Allocated t m bs L n t' m' bs' L' p) :
    ∃ x, p = x + 16 ∧ UsedAt t'.poolStart bs' x (usableSize m' p) := by
  obtain ⟨x, z, hp, _, _, _, hused⟩ := h.carve.used
  have hux : UsedAt t'.poolStart bs' x z := by
    rw [h.start_eq]
    exact (hused x z).mpr (.inr ⟨rfl, rfl⟩)
  have hsize : usableSize m' p = z := by
    unfold usableSize
    rw [if_neg (by omega), hp]
    exact h.inv.size_eq hux
  exact ⟨x, hp, hsize ▸ hux⟩

/-- Writes to the payload just handed out keep the invariant. -/
theorem Allocated.client (h : Allocated t m bs L n t' m' bs' L' p)
    (hw : Set.EqOn m'' m' (Set.Ico p (p + usableSize m' p))ᶜ) : PoolInv t' m'' bs' L' := by
  obtain ⟨x, hp, hux⟩ := h.payload_used
  have hmin : ∀ b ∈ bs', 16 ≤ b.size := fun b hb => (h.inv.layout.blk b hb).1
  refine h.inv.frame fun z hz => hw fun hz' => ?_
  obtain ⟨h1, h2⟩ := hz'
  exact payload_not_own hmin hux (by omega) (by omega) hz

/-- **`free` undoes `alloc`**, and `alloc` then does the same again. -/
theorem Allocated.free (h : PoolInv t m bs L) (h0 : 0 < n) (hn : n ≤ usizeMax)
    (ha : Allocated t m bs L n t' m' bs' L' p) (hw : Set.EqOn m'' m' (Set.Ico p (p + usableSize m' p))ᶜ) :
    ∃ t₁ m₁, Tlsf.free t' m'' p = .ok (t₁, m₁) ∧ SamePool t m t₁ m₁ ∧
      ∃ t₂ m₂, Tlsf.alloc t₁ m₁ n = .ok (t₂, m₂, p) := by
  obtain ⟨x, hp, hux⟩ := ha.payload_used
  obtain ⟨b, hb, hchosen⟩ := ha.chosen
  obtain ⟨t₁, m₁, bs₁, L₁, hfree, hrel⟩ := free_spec (ha.client hw) hux
  rw [← hp] at hfree hrel
  have hstart : t₁.poolStart = t.poolStart := hrel.start_eq.trans ha.start_eq
  have hend : t₁.poolEnd = t.poolEnd := hrel.end_eq.trans ha.end_eq
  have hrelease := hrel.release
  rw [ha.start_eq] at hrelease
  obtain ⟨rfl, rfl⟩ := ha.carve.release h.layout.noAdj hb hchosen.head hrelease
  refine ⟨t₁, m₁, hfree, h.samePool hrel.inv hstart hend, ?_⟩
  rcases hrel.inv.alloc_any h0 hn with ⟨_, hno⟩ | ⟨t₂, m₂, bs₂, L₂, p₂, hrun, ha₂⟩
  · exact absurd hno hchosen.not_noFit
  · obtain ⟨rfl, _⟩ := ha.unique ha₂ hstart
    exact ⟨t₂, m₂, hrun⟩

end

/-- **`alloc` followed by `free` is the identity.** In every reachable state, when `alloc` returns a payload
and `free` takes it back, with any bytes written to it in between, the pool is the same as before: bitmaps,
list heads, the order and links of every list, and every block header. The next `alloc` of that size
returns the same payload. -/
theorem reachable_alloc_free {base size : Nat} (ha : PoolArgs base size) {s : State}
    (hr : (anySystem base size).Reachable s) {n : Nat} (hn : n ≤ usizeMax) {t' : TlsfAllocator} {m' : Mem}
    {p : Nat} (hrun : Tlsf.alloc s.tlsf s.mem n = .ok (t', m', p)) (hp : p ≠ 0) {m'' : Mem}
    (hw : Set.EqOn m'' m' (Set.Ico p (p + usableSize m' p))ᶜ) :
    ∃ t₁ m₁, Tlsf.free t' m'' p = .ok (t₁, m₁) ∧ SamePool s.tlsf s.mem t₁ m₁ ∧
      ∃ t₂ m₂, Tlsf.alloc t₁ m₁ n = .ok (t₂, m₂, p) := by
  obtain ⟨bs, L, h⟩ := reachable_anyState ha hr
  have hpos : 0 < n := by
    apply Nat.pos_of_ne_zero
    rintro rfl
    exact hp (congrArg (fun r => r.2.2) (Except.ok.inj hrun)).symm
  rcases h.inv.alloc_any hpos hn with ⟨hnull, _⟩ | ⟨t₁, m₁, bs', L', q, hrun', hall⟩
  · exact absurd (congrArg (fun r => r.2.2) (Except.ok.inj (hrun.symm.trans hnull))) hp
  · obtain ⟨rfl, heq⟩ := Prod.mk.inj (Except.ok.inj (hrun'.symm.trans hrun))
    obtain ⟨rfl, rfl⟩ := Prod.mk.inj heq
    exact hall.free h.inv hpos hn hw

/-- On a page with 100 bytes taken: 200 bytes are taken, written to and freed. -/
theorem reachable_alloc_free_page : ∃ (s : State) (t' : TlsfAllocator) (m' : Mem) (p : Nat),
    s.live = [⟨4112, 100, 112⟩] ∧ Tlsf.alloc s.tlsf s.mem 200 = .ok (t', m', p) ∧ p ≠ 0 ∧
    ∃ t₁ m₁, Tlsf.free t' (Function.update m' p 255) p = .ok (t₁, m₁) ∧ SamePool s.tlsf s.mem t₁ m₁ ∧
      ∃ t₂ m₂, Tlsf.alloc t₁ m₁ 200 = .ok (t₂, m₂, p) := by
  obtain ⟨s, r, hlive, hr, hrun, hptr, hsize⟩ := exists_page_call
  have hp : r.2.2 ≠ 0 := by rw [hptr]; decide
  refine ⟨s, r.1, r.2.1, r.2.2, hlive, hrun, hp, ?_⟩
  apply reachable_alloc_free (by decide) (reachable_any hr) (by decide) hrun hp
  intro z hz
  apply Function.update_of_ne
  rintro rfl
  exact hz ⟨Nat.le_refl _, Nat.lt_add_of_pos_right (by rw [hsize]; decide)⟩

end FerrumAlloc.Tlsf
