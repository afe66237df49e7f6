/-
# FerrumAlloc.Api.Resize -- `ferrum_realloc` moves a block

Once the arena is there, `ferrum_realloc` of a live block to at least one byte is `ferrum_malloc`, a copy
of `copySize` bytes and `ferrum_free` (`Good.realloc_run`). With a usable size the copy stays inside both
blocks, and the contents move over. The bump allocator reports a usable size of 0, which makes
`ferrum_realloc` copy as many bytes as the new block has.
-/
import FerrumAlloc.Api.Backends

namespace FerrumAlloc

open Lib

/-- The number of bytes that `ferrum_realloc` copies; an old size of 0 counts as unknown. -/
def copySize (oldSize newSize : Nat) : Nat := if oldSize > 0 then min oldSize newSize else newSize

section

variable {h h₂ : Heap} {v : View} {l : List Block} {b nb : Block} {t n k p u : Nat} {s : State}
  {via : Backend} {ans₁ ans₂ ans₃ : Answers}

theorem copySize_le (u n : Nat) : copySize u n ≤ n := by
  unfold copySize
  split
  · exact Nat.min_le_right _ _
  · exact Nat.le_refl _

theorem copySize_of_pos (hu : 0 < u) : copySize u n = min u n := if_pos hu

/-! ## The three steps -/

/-- **The steps of `ferrum_realloc`**, once the arena is there. -/
theorem Good.realloc_run (hg : Good h v l) (hinit : h.arenaInit = true) (hb : b ∈ l) (hn : 1 ≤ n)
    (ans₁ : Answers) (hmalloc : ferrumMalloc h t n ans₂ = .ok (h₂, p, via)) (ans₃ : Answers) :
    ferrumRealloc h t b.ptr n ans₁ ans₂ ans₃ =
      if p ≠ 0 then (do
        let h ← moveBlock h₂ t b.ptr p (copySize (b.usable v.arena) n) ans₃
        return (h, p, via))
      else .ok (h₂, p, via) := by
  unfold ferrumRealloc
  rw [if_neg (hg.ptr_ne hb), if_neg (by omega)]
  simp only [hg.usableSize_run hinit hb ans₁, Exec.bind_ok, hmalloc]
  rfl

/-- The bytes that a copy has written. -/
theorem copyRange_at {m : Mem} {src dst i : Nat} (hi : i < k) :
    copyRange m src dst k (dst + i) = m (src + i) := by
  unfold copyRange
  rw [if_pos ⟨Nat.le_add_right _ _, Nat.add_lt_add_left hi _⟩, Nat.add_sub_cancel_left]

/-- **Copying into a block just returned, and freeing the old one.** -/
theorem Good.moveBlock_run (hg : Good h v (nb :: l)) (hinit : h.arenaInit = true) (hb : b ∈ l)
    (hk : k ≤ nb.cap) (ans : Answers) :
    ∃ h' v', moveBlock h t b.ptr nb.ptr k ans = .ok h' ∧ Good h' v' (nb :: l.erase b) ∧
      Good (h.setBytes (copyRange h.os.bytes b.ptr nb.ptr k)) v (nb :: l) ∧
      (∀ i < k, h'.os.bytes (nb.ptr + i) = h.os.bytes (b.ptr + i)) ∧
      ∀ b' ∈ l, b' ≠ b → Set.EqOn h'.os.bytes h.os.bytes b'.extent := by
  have hnew : nb ∉ l := fun hmem => ((List.pairwise_cons.mp hg.apart).1 nb hmem).1 rfl
  have hcopy : Set.EqOn (copyRange h.os.bytes b.ptr nb.ptr k) h.os.bytes nb.extentᶜ := by
    refine eqOn_compl_mono (copyRange_eqOn _ _ _ _) fun z hz => ?_
    rw [Block.mem_extent]
    exact ⟨hz.1, Nat.lt_of_lt_of_le hz.2 (Nat.add_le_add_left hk _)⟩
  have hg' := hg.store List.mem_cons_self hcopy
  have herase : (nb :: l).erase b = nb :: l.erase b := by
    rw [List.erase_cons, if_neg]
    intro heq
    exact hnew (by rw [beq_iff_eq.mp heq]; exact hb)
  unfold moveBlock
  rcases ferrumFree_leads (t := t) (D := True) (E := Anywhere) hg' (.tail _ hb) ans (fun _ => trivial)
    fun _ _ _ _ _ _ _ => trivial with ⟨_, hno, _⟩ | ⟨h', v', hrun, _, hfree⟩
  · exact absurd (hinit.symm.trans hno) nofun
  · simp only [herase] at hfree
    refine ⟨h', v', hrun, hfree.good hg', hg', fun i hi => ?_, fun b' hb' hne => ?_⟩
    · -- the new block lives on, so the free keeps what has been copied
      have hkept := hfree.keeps nb List.mem_cons_self List.mem_cons_self
      have hmem : nb.ptr + i ∈ nb.extent := by
        rw [Block.mem_extent]
        exact ⟨Nat.le_add_right _ _, Nat.add_lt_add_left (Nat.lt_of_lt_of_le hi hk) _⟩
      exact (hkept hmem).trans (copyRange_at hi)
    · have hmem : b' ∈ l.erase b := (hg.nodup.of_cons.mem_erase_iff).mpr ⟨hne, hb'⟩
      have hkept := hfree.keeps b' (.tail _ hb') (.tail _ hmem)
      have hne' : b' ≠ nb := by
        rintro rfl
        exact hnew hb'
      exact hkept.trans (hg.store_keeps List.mem_cons_self hcopy (.tail _ hb') hne')

/-! ## The copy stays inside both blocks -/

/-- The usable size and the bytes reserved. -/
theorem Good.usable_cases (hg : Good h v l) (hinit : h.arenaInit = true) (hb : b ∈ l) :
    (b.usable v.arena = b.cap ∧ b.via ≠ .bump) ∨
      (b.usable v.arena = 0 ∧ (b.via = .bump ∨ b.cap = 0)) := by
  unfold Block.usable
  by_cases hzero : b.via = .bump ∨ b.ptr = v.arena.base
  · right
    rw [if_pos hzero]
    refine ⟨rfl, hzero.imp_right fun hbase => ?_⟩
    by_contra hcap
    exact hg.ptr_ne_base hinit hb (Nat.pos_of_ne_zero hcap) hbase
  · left
    rw [if_neg hzero]
    exact ⟨rfl, fun hvia => hzero (.inl hvia)⟩

/-- **The copy of `ferrum_realloc` stays inside the old and the new block** exactly when the request fits the
old block, or the old block is not empty and not one of the bump allocator. -/
theorem reachable_copy (hr : (system.restrict inBounds).Reachable s) (hinit : s.heap.arenaInit = true)
    (hb : b ∈ s.live) (hn : 1 ≤ n) (hn' : n ≤ usizeMax - 2 * pageSize)
    (hmalloc : ferrumMalloc s.heap t n ans₂ = .ok (h₂, p, via)) (hp : p ≠ 0) (ans₁ ans₃ : Answers) :
    ∃ u, ferrumUsableSize s.heap b.ptr ans₁ = .ok (s.heap, u) ∧
      ferrumRealloc s.heap t b.ptr n ans₁ ans₂ ans₃ = (do
        let h ← moveBlock h₂ t b.ptr p (copySize u n) ans₃
        return (h, p, via)) ∧
      ((copySize u n ≤ b.cap ∧ copySize u n ≤ (newBlock (h₂, p, via) n).cap) ↔
        n ≤ b.cap ∨ (b.via ≠ .bump ∧ 0 < b.cap)) := by
  obtain ⟨v, hg⟩ := reachable_inBounds_good hr
  have hn64 : n ≤ 2 ^ 64 - 8192 := by
    unfold usizeMax pageSize at hn'
    omega
  refine ⟨b.usable v.arena, hg.usableSize_run hinit hb ans₁, ?_, ?_⟩
  · rw [hg.realloc_run hinit hb hn ans₁ hmalloc ans₃, if_pos hp]
  · have hnew : copySize (b.usable v.arena) n ≤ (newBlock (h₂, p, via) n).cap := by
      have halloc := ferrumMalloc_leads (t := t) (D := True) (E := Anywhere) hg n ans₂ fun _ _ _ => trivial
      rcases halloc with ⟨hrun, _⟩ | ⟨r, hrun, _, v', ⟨h0, _⟩ | ⟨_, cap, hleads⟩⟩
      · exact absurd (hmalloc.symm.trans hrun) nofun
      · obtain rfl := Except.ok.inj (hmalloc.symm.trans hrun)
        exact absurd h0 hp
      · obtain rfl := Except.ok.inj (hmalloc.symm.trans hrun)
        have hg' : Good h₂ v' (⟨p, n, via, cap⟩ :: s.live) := hleads.good hg
        have heq : newBlock (h₂, p, via) n = ⟨p, n, via, cap⟩ := hg'.newBlock_eq
        rw [heq]
        exact (copySize_le _ _).trans ((hg'.sized _ List.mem_cons_self).req_le fun _ => hn64)
    rw [and_iff_left hnew]
    rcases hg.usable_cases hinit hb with ⟨hu, hvia⟩ | ⟨hu, hzero⟩
    · rw [hu]
      by_cases hcap : 0 < b.cap
      · rw [copySize_of_pos hcap]
        exact ⟨fun _ => .inr ⟨hvia, hcap⟩, fun _ => Nat.min_le_left _ _⟩
      · have hsize : copySize b.cap n = n := if_neg hcap
        rw [hsize]
        exact ⟨.inl, fun hor => hor.elim id fun hpos => absurd hpos.2 hcap⟩
    · -- an unknown size: all of the new block is filled
      have hsize : copySize (b.usable v.arena) n = n := if_neg (by rw [hu]; exact Nat.lt_irrefl 0)
      rw [hsize]
      refine ⟨.inl, fun hor => hor.elim id fun hpos => ?_⟩
      rcases hzero with hvia | hcap
      · exact absurd hvia hpos.1
      · exact absurd hpos.2 (by rw [hcap]; exact Nat.lt_irrefl 0)

/-- A slot for 100 bytes, and a huge block for it to move to. -/
theorem exists_moving : ∃ (s : State) (b : Block) (h₂ : Heap), (system.restrict inBounds).Reachable s ∧
    s.heap.arenaInit = true ∧ b ∈ s.live ∧ b.req = 100 ∧ b.via = .slab 8 ∧ 0 < b.cap ∧
    ferrumUsableSize s.heap b.ptr ⟨none, none, none⟩ = .ok (s.heap, b.cap) ∧
    ferrumMalloc s.heap 1 262144 ⟨none, none, some 4194304⟩ = .ok (h₂, 4198400, .huge) := by
  obtain ⟨a, tlsf, m, m', slab, m'', hbase, _, hr, hg⟩ := exists_first (C := inBounds) (n := 100) (c := 8)
    (p := 4096) (A := 2097152) (fun _ _ _ _ _ _ => trivial) (fun _ => 0) 1 (by decide) (by decide) (by decide)
    (by decide)
  have htotal : hugeTotal 262144 = 266240 := by decide
  obtain ⟨s, hs⟩ : ∃ s : State, s = ⟨((((Heap.boot fun _ => 0).setup a tlsf m).create 1 4096 m').setSlab
    (some 4096) slab m''), [⟨a.slotAddr firstPage 8 0, 100, .slab 8, slotSize 8⟩]⟩ := ⟨_, rfl⟩
  rw [← hs] at hr
  have hinit : s.heap.arenaInit = true := by rw [hs]; rfl
  have hmaps : s.heap.os.maps = [⟨4096, 4096⟩, ⟨2097152, 2097152⟩] := by
    have hlist : s.heap.os.maps = [⟨4096, 4096⟩, ⟨a.base, 2097152⟩] := by
      rw [hs]
      rfl
    rw [hlist, hbase]
  have hb : ⟨a.slotAddr firstPage 8 0, 100, .slab 8, slotSize 8⟩ ∈ s.live := by
    rw [hs]
    exact List.mem_cons_self
  have hcap : 0 < slotSize 8 := by decide
  obtain ⟨v, hg'⟩ := reachable_inBounds_good hr
  obtain ⟨os, _, hmalloc⟩ := ferrumMalloc_huge (n := 262144) (t := 1) hinit (by decide) 4194304
    (by rw [hmaps, htotal]; decide) none none
  refine ⟨s, _, _, hr, hinit, hb, rfl, rfl, hcap, ?_, hmalloc⟩
  rcases hg'.usable_cases hinit hb with ⟨hu, _⟩ | ⟨_, hvia | hzero⟩
  · rw [hg'.usableSize_run hinit hb ⟨none, none, none⟩, hu]
  · nomatch hvia
  · exact absurd hzero (Nat.ne_of_gt hcap)

/-- From a slot for 100 bytes to a huge block. -/
theorem reachable_copy_first : ∃ (s : State) (b : Block) (h₂ : Heap) (u : Nat), b ∈ s.live ∧ b.req = 100 ∧
    ferrumMalloc s.heap 1 262144 ⟨none, none, some 4194304⟩ = .ok (h₂, 4198400, .huge) ∧
    ferrumUsableSize s.heap b.ptr ⟨none, none, none⟩ = .ok (s.heap, u) ∧ copySize u 262144 ≤ b.cap ∧
    copySize u 262144 ≤ (newBlock (h₂, 4198400, .huge) 262144).cap := by
  obtain ⟨s, b, h₂, hr, hinit, hb, hreq, hvia, hcap, _, hmalloc⟩ := exists_moving
  obtain ⟨u, hsize, _, hiff⟩ := reachable_copy hr hinit hb (by decide) (by decide) hmalloc (by decide)
    ⟨none, none, none⟩ ⟨none, none, none⟩
  obtain ⟨h1, h2⟩ := hiff.mpr (.inr ⟨by rw [hvia]; nofun, hcap⟩)
  exact ⟨s, b, h₂, u, hb, hreq, hmalloc, hsize, h1, h2⟩

/-- **A block of the bump allocator grows by two bytes**: 262145 bytes are copied out of its 262144. -/
theorem not_copy_bump : ∃ (s : State) (b : Block) (h₂ : Heap) (p u : Nat) (via : Backend),
    (system.restrict inBounds).Reachable s ∧ s.heap.arenaInit = true ∧ b ∈ s.live ∧ b.req = 262143 ∧
    ferrumMalloc s.heap 1 262145 ⟨none, none, some 4194304⟩ = .ok (h₂, p, via) ∧ p ≠ 0 ∧
    ferrumUsableSize s.heap b.ptr ⟨none, none, none⟩ = .ok (s.heap, u) ∧
    ferrumRealloc s.heap 1 b.ptr 262145 ⟨none, none, none⟩ ⟨none, none, some 4194304⟩ ⟨none, none, none⟩ =
      (do let h ← moveBlock h₂ 1 b.ptr p (copySize u 262145) ⟨none, none, none⟩
          return (h, p, via)) ∧ ¬ copySize u 262145 ≤ b.cap := by
  obtain ⟨s, b, hr, hinit, hmaps, hb, hvia, hreq⟩ := exists_bump (C := inBounds) (A := 2097152)
    (fun _ _ _ _ _ => trivial) (fun _ => 0) 1 (by decide)
  obtain ⟨v, hg⟩ := reachable_inBounds_good hr
  have htotal : hugeTotal 262145 = 270336 := by decide
  obtain ⟨os, _, hmalloc⟩ := ferrumMalloc_huge (n := 262145) (t := 1) hinit (by decide) 4194304
    (by rw [hmaps, htotal]; decide) none none
  have husable : b.usable v.arena = 0 := if_pos (.inl hvia)
  have hcap : b.cap = 262144 := by
    have hsized := hg.sized b hb
    unfold Block.Sized at hsized
    rw [hvia] at hsized
    rw [show b.cap = (b.req + 4095) / 4096 * 4096 from hsized, hreq]
  refine ⟨s, b, _, _, 0, _, hr, hinit, hb, hreq, hmalloc, by decide, ?_, ?_, ?_⟩
  · rw [← husable]
    exact hg.usableSize_run hinit hb _
  · rw [hg.realloc_run hinit hb (by decide) _ hmalloc _, if_pos (by decide), husable]
  · rw [hcap]
    decide

/-! ## Contents are preserved -/

/-- What a successful `ferrum_realloc` of block `b` to `n` bytes has done, `u` being the usable size. -/
structure Replaced (s : State) (t : Nat) (b : Block) (u n : Nat) (ans : Answers)
    (r : Heap × Nat × Backend) : Prop where
  /-- The new block holds the request. -/
  fits : n ≤ (newBlock r n).cap
  /-- It is apart from every block that was live, the old one included. -/
  fresh : ∀ b' ∈ s.live, (newBlock r n).Apart b'
  copied : ∀ i < min u n, r.1.os.bytes (r.2.1 + i) = s.heap.os.bytes (b.ptr + i)
  /-- The old block was live until the one call of `ferrum_free` that ends the move. -/
  freed : ∃ h v, Good h v (newBlock r n :: s.live) ∧ ferrumFree h t b.ptr ans = .ok r.1
  gone : b ∉ (Call.realloc (some b) n).after s.live r
  others : ∀ b' ∈ s.live, b' ≠ b → b' ∈ (Call.realloc (some b) n).after s.live r ∧
    Set.EqOn r.1.os.bytes s.heap.os.bytes b'.extent

/-- What a failed `ferrum_realloc` has done: nothing to any live block. -/
structure Untouched (s : State) (b : Block) (n : Nat) (r : Heap × Nat × Backend) : Prop where
  live : (Call.realloc (some b) n).after s.live r = s.live
  contents : ∀ b' ∈ s.live, Set.EqOn r.1.os.bytes s.heap.os.bytes b'.extent

/-- **`ferrum_realloc` preserves contents and is atomic on failure.** -/
theorem reachable_realloc {h' : Heap} {ans₀ : Answers} (hr : (system.restrict inBounds).Reachable s)
    (hinit : s.heap.arenaInit = true) (hb : b ∈ s.live)
    (husable : ferrumUsableSize s.heap b.ptr ans₀ = .ok (h', u)) (hu : 0 < u) (hn : 1 ≤ n)
    (hn' : n ≤ usizeMax - 2 * pageSize) (t : Nat) (ans₁ ans₂ ans₃ : Answers) :
    ∃ r, ferrumRealloc s.heap t b.ptr n ans₁ ans₂ ans₃ = .ok r ∧
      (r.2.1 ≠ 0 → Replaced s t b u n ans₃ r) ∧ (r.2.1 = 0 → Untouched s b n r) := by
  obtain ⟨v, hg⟩ := reachable_inBounds_good hr
  have hn64 : n ≤ 2 ^ 64 - 8192 := by
    unfold usizeMax pageSize at hn'
    omega
  have hn0 : n ≠ 0 := by omega
  obtain rfl : b.usable v.arena = u :=
    congrArg Prod.snd (Except.ok.inj ((hg.usableSize_run hinit hb ans₀).symm.trans husable))
  have hcap : b.usable v.arena = b.cap := by
    rcases hg.usable_cases hinit hb with ⟨heq, _⟩ | ⟨heq, _⟩
    · exact heq
    · exact absurd hu (by rw [heq]; exact Nat.lt_irrefl 0)
  have halloc := ferrumMalloc_leads (t := t) (D := True) (E := Anywhere) hg n ans₂ fun _ _ _ => trivial
  rcases halloc with ⟨_, hno, _⟩ | ⟨⟨h₂, p, via⟩, hmalloc, hinit₂, v₂, hout⟩
  · exact absurd (hinit.symm.trans hno) nofun
  have hrun := hg.realloc_run hinit hb hn ans₁ hmalloc ans₃
  rcases hout with ⟨h0, hleads⟩ | ⟨hp, cap, hleads⟩
  · have h0' : p = 0 := h0
    refine ⟨(h₂, p, via), ?_, fun hne => absurd h0' hne, fun _ => ⟨?_, fun b' hb' => ?_⟩⟩
    · rw [hrun, if_neg (not_not.mpr h0')]
    · unfold Call.after Call.gone
      simp only [h0', hn0, ne_eq, not_true_eq_false, or_self, if_false, if_true]
    · exact hleads.keeps b' hb' hb'
  · have hp' : p ≠ 0 := hp
    have hg₂ : Good h₂ v₂ (⟨p, n, via, cap⟩ :: s.live) := hleads.good hg
    have hfits : n ≤ cap := (hg₂.sized _ List.mem_cons_self).req_le fun _ => hn64
    obtain ⟨h₃, v₃, hmove, hg₃, hcopied, hbytes, hothers⟩ := hg₂.moveBlock_run (t := t)
      (hinit₂ hinit) hb ((copySize_le (b.usable v.arena) n).trans hfits) ans₃
    have hold : ∀ b' ∈ s.live, Set.EqOn h₂.os.bytes s.heap.os.bytes b'.extent := fun b' hb' =>
      hleads.keeps b' hb' (.tail _ hb')
    have hnb : newBlock (h₃, p, via) n = ⟨p, n, via, cap⟩ := hg₃.newBlock_eq
    have hafter : (Call.realloc (some b) n).after s.live (h₃, p, via) =
        ⟨p, n, via, cap⟩ :: s.live.erase b := by
      rw [← hnb]
      unfold Call.after Call.gone
      simp only [hp', ne_eq, not_false_eq_true, or_true, if_true, if_false, Call.req]
    refine ⟨(h₃, p, via), ?_, fun _ => ?_, fun h0 => absurd h0 hp'⟩
    · rw [hrun, if_pos hp']
      have hmove' : moveBlock h₂ t b.ptr p (copySize (b.usable v.arena) n) ans₃ = .ok h₃ := hmove
      simp only [hmove', Exec.bind_ok, Exec.pure_eq]
    · have hb₃ : b ∉ (⟨p, n, via, cap⟩ :: s.live.erase b : List Block) := by
        have hnot := hg₂.nodup
        rw [List.mem_cons, not_or]
        refine ⟨?_, fun hmem => (hg.nodup.mem_erase_iff.mp hmem).1 rfl⟩
        rintro rfl
        exact (List.nodup_cons.mp hnot).1 hb
      refine ⟨?_, ?_, fun i hi => ?_, ?_, ?_, fun b' hb' hne => ⟨?_, ?_⟩⟩
      · rw [hnb]
        exact hfits
      · rw [hnb]
        exact (List.pairwise_cons.mp hg₂.apart).1
      · have hi' : i < copySize (b.usable v.arena) n := by
          rw [copySize_of_pos hu]
          exact hi
        refine (hbytes i hi').trans (hold b hb ?_)
        rw [Block.mem_extent, ← hcap]
        exact ⟨Nat.le_add_right _ _, Nat.add_lt_add_left (Nat.lt_of_lt_of_le hi (Nat.min_le_left _ _)) _⟩
      · rw [hnb]
        exact ⟨_, v₂, hcopied, hmove⟩
      · rw [hafter]
        exact hb₃
      · rw [hafter]
        exact .tail _ (hg.nodup.mem_erase_iff.mpr ⟨hne, hb'⟩)
      · exact (hothers b' hb' hne).trans (hold b' hb')

/-- The slot for 100 bytes moves to a huge block. -/
theorem reachable_realloc_first : ∃ (s : State) (b : Block) (u : Nat) (r : Heap × Nat × Backend),
    b ∈ s.live ∧ b.req = 100 ∧
    ferrumRealloc s.heap 1 b.ptr 262144 ⟨none, none, none⟩ ⟨none, none, some 4194304⟩ ⟨none, none, none⟩ =
      .ok r ∧ r.2.1 = 4198400 ∧ Replaced s 1 b u 262144 ⟨none, none, none⟩ r := by
  obtain ⟨s, b, h₂, hr, hinit, hb, hreq, hvia, hcap, hsize, hmalloc⟩ := exists_moving
  obtain ⟨r, hrun, hmoved, _⟩ := reachable_realloc (n := 262144) hr hinit hb hsize hcap (by decide) (by decide) 1
    ⟨none, none, none⟩ ⟨none, none, some 4194304⟩ ⟨none, none, none⟩
  obtain ⟨v, hg⟩ := reachable_inBounds_good hr
  have hptr : r.2.1 = 4198400 := by
    have hsteps := hg.realloc_run hinit hb (show 1 ≤ 262144 by decide)
      ⟨none, none, none⟩ hmalloc ⟨none, none, none⟩
    rw [hrun, if_pos (by decide)] at hsteps
    obtain ⟨h', _, hret⟩ := Exec.bind_eq_ok.mp hsteps.symm
    exact (congrArg (fun r => r.2.1) (Except.ok.inj hret)).symm
  exact ⟨s, b, b.cap, r, hb, hreq, hrun, hptr, hmoved (by rw [hptr]; decide)⟩

end

end FerrumAlloc
