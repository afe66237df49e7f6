/-
# FerrumAlloc.Tlsf.Lists -- the segregated free lists and their bitmaps

A `FreeSet` is a set of free blocks, as address/size pairs. `Filed t m L F` says that the allocator
files exactly the blocks of `F`: bin `(fl, sl)` is a correctly linked list with nodes `L fl sl`, a
block is on the list of the bin that `mapping` names for its size and on no other, and both bitmap
levels say exactly which lists are non-empty.

`removeFree_spec` and `insertFree_spec` are the two operations on it. They also say what the
operations touch: link words of filed blocks, nothing else.
-/
import FerrumAlloc.Tlsf.Layout
import FerrumAlloc.Tlsf.Mapping
import FerrumAlloc.Lib.LinkedList

namespace FerrumAlloc.Tlsf

open Lib

/-- A set of free blocks: address and payload size. -/
abbrev FreeSet := Nat → Nat → Prop

/-- The blocks of a set do not overlap, are not at the null address, and have a bin. -/
structure FreeSet.Ok (F : FreeSet) : Prop where
  uniq : ∀ {x s s'}, F x s → F x s' → s = s'
  apart : ∀ {x y s s'}, F x s → F y s' → x ≠ y → Apart x y
  pos : ∀ {x s}, F x s → 0 < x
  lt : ∀ {x s}, F x s → x < 2 ^ 64
  min : ∀ {x s}, F x s → 16 ≤ s
  max : ∀ {x s}, F x s → s < 2 ^ 22

/-- The bytes of the links of a set of blocks. -/
def FreeSet.links (F : FreeSet) : Set Nat := {z | ∃ x s, F x s ∧ z ∈ linkBytes x}

/-- The set without the block at `a`. -/
def FreeSet.erase (F : FreeSet) (a : Nat) : FreeSet := fun x s => F x s ∧ x ≠ a

/-- The set with one more block. -/
def FreeSet.insert (F : FreeSet) (a s : Nat) : FreeSet := fun x s' => F x s' ∨ (x = a ∧ s' = s)

theorem FreeSet.Ok.erase {F : FreeSet} (h : F.Ok) (a : Nat) : (F.erase a).Ok where
  uniq h1 h2 := h.uniq h1.1 h2.1
  apart h1 h2 := h.apart h1.1 h2.1
  pos h1 := h.pos h1.1
  lt h1 := h.lt h1.1
  min h1 := h.min h1.1
  max h1 := h.max h1.1

/-- Both bitmap levels say exactly which lists are non-empty. -/
structure Bitmaps (t : TlsfAllocator) (L : Nat → Nat → List Nat) : Prop where
  slBit : ∀ fl, fl < flCount → ∀ sl, (t.slBitmaps fl).testBit sl = true ↔ L fl sl ≠ []
  slLt : ∀ fl, fl < flCount → t.slBitmaps fl < 2 ^ 32
  flBit : ∀ fl, t.flBitmap.testBit fl = true ↔ ∃ sl, L fl sl ≠ []
  flLt : t.flBitmap < 2 ^ 32

/-- The allocator files exactly the blocks of `F`, in the order given by `L`. -/
structure Filed (t : TlsfAllocator) (m : Mem) (L : Nat → Nat → List Nat) (F : FreeSet) : Prop where
  dlist : ∀ fl sl, DList (linkNext m) (linkPrev m) 0 (t.lists fl sl) (L fl sl)
  mem : ∀ fl sl x, x ∈ L fl sl ↔ ∃ s, F x s ∧ mapping s = (fl, sl)
  bits : Bitmaps t L
  ok : F.Ok

namespace Filed

variable {t : TlsfAllocator} {m m' : Mem} {L : Nat → Nat → List Nat} {F : FreeSet}

/-- Every filed block has a bin with in-range indices. -/
theorem bin_lt (h : Filed t m L F) {fl sl x : Nat} (hx : x ∈ L fl sl) :
    fl < flCount ∧ sl < slCount := by
  obtain ⟨s, hs, hmap⟩ := (h.mem fl sl x).mp hx
  have h16 := h.ok.min hs
  have h22 := h.ok.max hs
  have h1 := mapping_fl_lt h16 h22
  have h2 := mapping_sl_lt h16 (by omega)
  rw [hmap] at h1 h2
  exact ⟨h1, h2⟩

theorem bin_lt_of_ne_nil (h : Filed t m L F) {fl sl : Nat} (hne : L fl sl ≠ []) :
    fl < flCount ∧ sl < slCount := by
  obtain ⟨x, hx⟩ := List.exists_mem_of_ne_nil _ hne
  exact h.bin_lt hx

theorem ne_nul (h : Filed t m L F) {fl sl x : Nat} (hx : x ∈ L fl sl) : x ≠ 0 := (h.dlist fl sl).ne_nul x hx

/-- A block is on one list only. -/
theorem bin_unique (h : Filed t m L F) {fl sl fl' sl' x : Nat} (hx : x ∈ L fl sl) (hx' : x ∈ L fl' sl') :
    fl' = fl ∧ sl' = sl := by
  obtain ⟨s, hs, hmap⟩ := (h.mem fl sl x).mp hx
  obtain ⟨s', hs', hmap'⟩ := (h.mem fl' sl' x).mp hx'
  rw [h.ok.uniq hs' hs, hmap, Prod.mk.injEq] at hmap'
  exact ⟨hmap'.1.symm, hmap'.2.symm⟩

/-- Two filed blocks are the same or apart. -/
theorem eq_or_apart (h : Filed t m L F) {fl sl fl' sl' x y : Nat} (hx : x ∈ L fl sl) (hy : y ∈ L fl' sl') :
    x = y ∨ Apart x y := by
  obtain ⟨sx, hx, _⟩ := (h.mem fl sl x).mp hx
  obtain ⟨sy, hy, _⟩ := (h.mem fl' sl' y).mp hy
  by_cases heq : x = y
  · exact .inl heq
  · exact .inr (h.ok.apart hx hy heq)

/-- The head of a list that is not empty is on it. -/
theorem head_mem (h : Filed t m L F) {fl sl : Nat} (hne : t.lists fl sl ≠ 0) : t.lists fl sl ∈ L fl sl := by
  have hh := (h.dlist fl sl).head
  cases hc : L fl sl with
  | nil => exact absurd (hh.trans (by rw [hc]; rfl)) hne
  | cons w ws =>
    rw [hc] at hh
    rw [hh]
    exact List.mem_cons_self

/-- **Frame.** The lists depend on the link bytes of the filed blocks only. -/
theorem frame (h : Filed t m L F) (hm : Set.EqOn m' m F.links) : Filed t m' L F := by
  have hword : ∀ {fl sl x}, x ∈ L fl sl → linkNext m' x = linkNext m x ∧
      linkPrev m' x = linkPrev m x := by
    intro fl sl x hx
    obtain ⟨s, hs, _⟩ := (h.mem fl sl x).mp hx
    simp only [linkNext_eq, linkPrev_eq]
    refine ⟨word_eqOn fun z hz => hm ⟨x, s, hs, ?_⟩, word_eqOn fun z hz => hm ⟨x, s, hs, ?_⟩⟩
    all_goals
      rw [Set.mem_Ico] at hz
      exact mem_linkBytes.mpr (by omega)
  exact ⟨fun fl sl => (h.dlist fl sl).congr (fun x hx => (hword hx).1) (fun x hx => (hword hx).2),
    h.mem, h.bits, h.ok⟩

theorem congr_set (h : Filed t m L F) {F' : FreeSet} (hF : ∀ x s, F x s ↔ F' x s) :
    Filed t m L F' := by
  have : F = F' := by
    funext x s
    exact propext (hF x s)
  exact this ▸ h

end Filed

/-! ## Unlinking a block -/

/-- Link `prev` forward to `next`, and `next` back to `prev`, as far as they exist. -/
def joinMem (m : Mem) (prev next : Nat) : Mem :=
  let m₁ := if prev ≠ 0 then setLinkNext m prev next else m
  if next ≠ 0 then setLinkPrev m₁ next prev else m₁

/-- The memory after `remove_free`: the neighbours of `b` linked to each other. -/
def unlinkMem (m : Mem) (b : Nat) : Mem := joinMem m (linkPrev m b) (linkNext m b)

/-- The allocator after `remove_free`, for a block of bin `(fl, sl)` with links `prev`, `next`. -/
def unlinkLists (t : TlsfAllocator) (fl sl prev next : Nat) : TlsfAllocator :=
  clearIfEmpty (if prev ≠ 0 then t else setList t fl sl next) fl sl

theorem removeFree_eq {t : TlsfAllocator} {m : Mem} {b fl sl : Nat}
    (hmap : mapping (size m b) = (fl, sl)) (hfl : fl < flCount) (hsl : sl < slCount) :
    removeFree t m b =
      .ok (unlinkLists t fl sl (linkPrev m b) (linkNext m b), unlinkMem m b) := by
  simp only [removeFree, hmap, checkIndex_of_lt hfl, checkIndex_of_lt hsl, Exec.bind_ok,
    Exec.pure_eq, unlinkLists, unlinkMem, joinMem]

/-- Words after joining, seen from a block that is one of the two or apart from both. -/
theorem joinMem_words {m : Mem} {p n y : Nat} (hpl : p < 2 ^ 64) (hnl : n < 2 ^ 64)
    (hp : p ≠ 0 → y = p ∨ Apart y p) (hn : n ≠ 0 → y = n ∨ Apart y n) (hy : y ≠ 0) :
    linkNext (joinMem m p n) y = (if y = p then n else linkNext m y) ∧
      linkPrev (joinMem m p n) y = (if y = n then p else linkPrev m y) := by
  simp only [joinMem, setLinkNext_eq, setLinkPrev_eq, linkNext_eq, linkPrev_eq]
  have step1 : ∀ i, i < 4 → word (if p ≠ 0 then setWord m p 3 n else m) y i =
      if y = p ∧ i = 3 then n else word m y i := by
    intro i hi
    by_cases hp0 : p = 0
    · simp [hp0, hy]
    · rw [if_pos hp0]
      rcases hp hp0 with rfl | hap
      · by_cases h3 : i = 3
        · subst h3; simp [word_setWord_same hnl]
        · simp [h3, word_setWord_ne h3]
      · have hne : y ≠ p := hap.ne
        simp [hne, word_setWord_apart hap hi (show 3 < 4 by decide)]
  by_cases hn0 : n = 0
  · simp only [hn0, ne_eq, not_true_eq_false, if_false, hy]
    rw [hn0] at step1
    exact ⟨by simpa using step1 3 (by decide), by simpa using step1 2 (by decide)⟩
  · rw [if_pos hn0]
    rcases hn hn0 with rfl | hap
    · refine ⟨?_, ?_⟩
      · rw [word_setWord_ne (by decide)]
        simpa using step1 3 (by decide)
      · simp [word_setWord_same hpl]
    · have hne : y ≠ n := hap.ne
      rw [word_setWord_apart hap (by decide) (by decide),
        word_setWord_apart hap (by decide) (by decide)]
      exact ⟨by simpa using step1 3 (by decide), by simpa [hne] using step1 2 (by decide)⟩

/-- Writing a link touches the link bytes of that block. -/
theorem setLinkPrev_eqOn (m : Mem) (x v : Nat) : Set.EqOn (setLinkPrev m x v) m (linkBytes x)ᶜ := by
  refine eqOn_compl_mono (write64_eqOn m _ v) fun z hz => ?_
  rw [Set.mem_Ico, payload, headerSize] at hz
  exact mem_linkBytes.mpr (by omega)

theorem setLinkNext_eqOn (m : Mem) (x v : Nat) : Set.EqOn (setLinkNext m x v) m (linkBytes x)ᶜ := by
  refine eqOn_compl_mono (write64_eqOn m _ v) fun z hz => ?_
  rw [Set.mem_Ico, payload, headerSize] at hz
  exact mem_linkBytes.mpr (by omega)

/-- Joining writes links of the two blocks only. -/
theorem joinMem_eqOn (m : Mem) {p n : Nat} {S : Set Nat} (hp : p ≠ 0 → linkBytes p ⊆ S)
    (hn : n ≠ 0 → linkBytes n ⊆ S) : Set.EqOn (joinMem m p n) m Sᶜ := by
  have h1 : Set.EqOn (if p ≠ 0 then setLinkNext m p n else m) m Sᶜ := by
    by_cases hp0 : p = 0
    · rw [if_neg (not_not.mpr hp0)]; exact Set.eqOn_refl _ _
    · rw [if_pos hp0]; exact eqOn_compl_mono (setLinkNext_eqOn m p n) (hp hp0)
  by_cases hn0 : n = 0
  · rw [joinMem, if_neg (not_not.mpr hn0)]; exact h1
  · rw [joinMem, if_pos hn0]
    have h2 := eqOn_compl_trans h1 (eqOn_compl_mono (setLinkPrev_eqOn _ n p) (hn hn0))
    rwa [Set.union_self] at h2

/-! ## Linking a block -/

/-- The memory after `insert_free`, for a list with head `head`. -/
def linkMem (m : Mem) (b head : Nat) : Mem :=
  let m₁ := setLinkNext (setLinkPrev m b 0) b head
  if head ≠ 0 then setLinkPrev m₁ head b else m₁

/-- The words of a block that has been linked in front of `head`. -/
theorem linkMem_self {m : Mem} {b head : Nat} (hlt : head < 2 ^ 64) (hap : head ≠ 0 → Apart b head) :
    linkPrev (linkMem m b head) b = 0 ∧ linkNext (linkMem m b head) b = head := by
  simp only [linkMem, linkPrev_eq, linkNext_eq, setLinkPrev_eq, setLinkNext_eq]
  split
  · rename_i hne
    rw [word_setWord_apart (hap hne) (by decide) (by decide),
      word_setWord_apart (hap hne) (by decide) (by decide), word_setWord_ne (by decide),
      word_setWord_same (by norm_num), word_setWord_same hlt]
    exact ⟨rfl, rfl⟩
  · rw [word_setWord_ne (by decide), word_setWord_same (by norm_num), word_setWord_same hlt]
    exact ⟨rfl, rfl⟩

/-- Words after linking `b` in front of `head`, seen from another block. -/
theorem linkMem_words {m : Mem} {b head x : Nat} (hlt : b < 2 ^ 64) (hx : x ≠ 0) (hap : Apart x b)
    (hhead : head ≠ 0 → x = head ∨ Apart x head) :
    linkNext (linkMem m b head) x = linkNext m x ∧
      linkPrev (linkMem m b head) x = if x = head then b else linkPrev m x := by
  have hword : ∀ i, i < 4 → word (setWord (setWord m b 2 0) b 3 head) x i = word m x i := by
    intro i hi
    rw [word_setWord_apart hap hi (by decide), word_setWord_apart hap hi (by decide)]
  simp only [linkMem, linkPrev_eq, linkNext_eq, setLinkPrev_eq, setLinkNext_eq]
  split
  · rename_i hne
    rcases hhead hne with rfl | hap'
    · rw [word_setWord_ne (by decide), word_setWord_same hlt, if_pos rfl]
      exact ⟨hword 3 (by decide), rfl⟩
    · rw [if_neg hap'.ne, word_setWord_apart hap' (by decide) (by decide),
        word_setWord_apart hap' (by decide) (by decide)]
      exact ⟨hword 3 (by decide), hword 2 (by decide)⟩
  · rename_i hnul
    rw [if_neg fun heq => hx (heq.trans (not_not.mp hnul))]
    exact ⟨hword 3 (by decide), hword 2 (by decide)⟩

/-! ## The bitmaps -/

namespace Bitmaps

variable {t t' : TlsfAllocator} {L L' : Nat → Nat → List Nat} {fl sl : Nat}

/-- The bit tests of `remove_free` keep the bitmaps exact when one list loses a block. -/
theorem clearIfEmpty (h : Bitmaps t L) (hsb : t'.slBitmaps = t.slBitmaps)
    (hfb : t'.flBitmap = t.flBitmap) (hfl : fl < flCount) (hold : L fl sl ≠ [])
    (hhead : t'.lists fl sl = 0 ↔ L' fl sl = [])
    (hother : ∀ fl' sl', ¬ (fl' = fl ∧ sl' = sl) → L' fl' sl' = L fl' sl') :
    Bitmaps (Tlsf.clearIfEmpty t' fl sl) L' := by
  have hfbit : t.flBitmap.testBit fl = true := (h.flBit fl).mpr ⟨sl, hold⟩
  by_cases hempty : t'.lists fl sl = 0
  · have hnil : L' fl sl = [] := hhead.mp hempty
    obtain ⟨slMap, hslMap⟩ : ∃ w, w = t.slBitmaps fl &&& complement 32 (1 <<< sl) := ⟨_, rfl⟩
    have hslEq : (Tlsf.clearIfEmpty t' fl sl).slBitmaps
        = Function.update t.slBitmaps fl slMap := by
      simp only [Tlsf.clearIfEmpty, hempty, if_true, hslMap, hsb]
    have hflEq : (Tlsf.clearIfEmpty t' fl sl).flBitmap
        = if slMap = 0 then t.flBitmap &&& complement 32 (1 <<< fl) else t.flBitmap := by
      simp only [Tlsf.clearIfEmpty, hempty, if_true, hslMap, hsb, hfb]
    have hmapBit : ∀ i, slMap.testBit i = true ↔ L' fl i ≠ [] := by
      intro i
      rw [hslMap, testBit_and_complement_one_shl _ i (h.slLt fl hfl)]
      by_cases hi : i = sl
      · simp [hi, hnil]
      · rw [hother fl i (fun h' => hi h'.2), ← h.slBit fl hfl i]
        simp [hi]
    have hzero : slMap = 0 ↔ ¬ ∃ sl', L' fl sl' ≠ [] := by
      constructor
      · rintro h0 ⟨i, hi⟩
        rw [← hmapBit i, h0, Nat.zero_testBit] at hi
        exact Bool.false_ne_true hi
      · intro hno
        refine Nat.zero_of_testBit_eq_false fun i => ?_
        by_contra hb
        exact hno ⟨i, (hmapBit i).mp (by simpa using hb)⟩
    refine ⟨fun fl' hfl' sl' => ?_, fun fl' hfl' => ?_, fun fl' => ?_, ?_⟩
    · rw [hslEq, Function.update_apply]
      split
      · rename_i heq; rw [heq]; exact hmapBit sl'
      · rename_i hne
        rw [hother fl' sl' (fun h' => hne h'.1)]
        exact h.slBit fl' hfl' sl'
    · rw [hslEq, Function.update_apply]
      split
      · exact hslMap ▸ lt_of_le_of_lt Nat.and_le_left (h.slLt fl hfl)
      · exact h.slLt fl' hfl'
    · rw [hflEq]
      by_cases hf : fl' = fl
      · subst hf
        by_cases hz : slMap = 0
        · rw [if_pos hz, testBit_and_complement_one_shl _ _ h.flLt]
          simpa using hzero.mp hz
        · rw [if_neg hz, hfbit]
          simpa using not_not.mp (fun hno => hz (hzero.mpr hno))
      · have hsame : (∃ sl', L' fl' sl' ≠ []) ↔ ∃ sl', L fl' sl' ≠ [] := by
          simp only [hother fl' _ (fun h' => hf h'.1)]
        rw [hsame, ← h.flBit fl']
        split
        · rw [testBit_and_complement_one_shl _ _ h.flLt]
          simp [hf]
        · rfl
    · rw [hflEq]
      split
      · exact lt_of_le_of_lt Nat.and_le_left h.flLt
      · exact h.flLt
  · have hne : L' fl sl ≠ [] := fun h' => hempty (hhead.mpr h')
    have hsame : ∀ fl' sl', L' fl' sl' ≠ [] ↔ L fl' sl' ≠ [] := by
      intro fl' sl'
      by_cases heq : fl' = fl ∧ sl' = sl
      · rw [heq.1, heq.2]; exact iff_of_true hne hold
      · rw [hother fl' sl' heq]
    have ht' : Tlsf.clearIfEmpty t' fl sl = t' := by
      simp only [Tlsf.clearIfEmpty, hempty, if_false]
    rw [ht']
    refine ⟨fun fl' hfl' sl' => ?_, hsb ▸ h.slLt, fun fl' => ?_, hfb ▸ h.flLt⟩
    · rw [hsb, hsame]; exact h.slBit fl' hfl' sl'
    · rw [hfb, h.flBit fl']
      simp only [hsame]

/-- Lighting both bits keeps the bitmaps exact when one list gains a block. -/
theorem light (h : Bitmaps t L) (hsb : t'.slBitmaps = Function.update t.slBitmaps fl
      (t.slBitmaps fl ||| 1 <<< sl)) (hfb : t'.flBitmap = t.flBitmap ||| 1 <<< fl)
    (hfl : fl < flCount) (hsl : sl < slCount) (hnew : L' fl sl ≠ [])
    (hother : ∀ fl' sl', ¬ (fl' = fl ∧ sl' = sl) → L' fl' sl' = L fl' sl') : Bitmaps t' L' := by
  have hbit32 : ∀ {i}, i < 32 → (1 : Nat) <<< i < 2 ^ 32 := by
    intro i hi
    rw [Nat.one_shiftLeft]
    exact Nat.pow_lt_pow_right (by norm_num) hi
  simp only [flCount, flMax, flShift, slCount] at hfl hsl
  refine ⟨fun fl' hfl' sl' => ?_, fun fl' hfl' => ?_, fun fl' => ?_, ?_⟩
  · rw [hsb, Function.update_apply]
    split
    · rename_i heq
      subst heq
      rw [testBit_or_one_shl]
      by_cases hs : sl' = sl
      · subst hs; simp [hnew]
      · rw [hother fl' sl' (fun h' => hs h'.2), ← h.slBit fl' hfl' sl']
        simp [hs]
    · rename_i hne
      rw [hother fl' sl' (fun h' => hne h'.1)]
      exact h.slBit fl' hfl' sl'
  · rw [hsb, Function.update_apply]
    split
    · rename_i heq
      exact Nat.or_lt_two_pow (h.slLt fl (heq ▸ hfl')) (hbit32 (by omega))
    · exact h.slLt fl' hfl'
  · rw [hfb, testBit_or_one_shl]
    by_cases hf : fl' = fl
    · subst hf
      simpa using ⟨sl, hnew⟩
    · have hsame : (∃ sl', L' fl' sl' ≠ []) ↔ ∃ sl', L fl' sl' ≠ [] := by
        simp only [hother fl' _ (fun h' => hf h'.1)]
      rw [hsame, ← h.flBit fl']
      simp [hf]
  · rw [hfb]
    exact Nat.or_lt_two_pow h.flLt (hbit32 (by omega))

end Bitmaps

/-! ## The two operations -/

section Operations

variable {t : TlsfAllocator} {m : Mem} {L : Nat → Nat → List Nat} {F : FreeSet} {b s fl sl : Nat}

/-- A link of a filed block is null or leads to a filed block of the same bin. -/
theorem Filed.links_mem (h : Filed t m L F) (hb : b ∈ L fl sl) :
    (linkPrev m b ≠ 0 → linkPrev m b ∈ L fl sl) ∧ (linkNext m b ≠ 0 → linkNext m b ∈ L fl sl) := by
  obtain ⟨l₁, l₂, hl⟩ := List.append_of_mem hb
  obtain ⟨hp, hn⟩ := (hl ▸ (h.dlist fl sl).linked).at_mid
  rw [hl]
  constructor
  · intro hne
    cases l₁ with
    | nil => exact absurd hp hne
    | cons w ws =>
      rw [hp, List.getLastD_cons]
      exact List.mem_append_left _ List.getLastD_mem_cons
  · intro hne
    cases l₂ with
    | nil => exact absurd hn hne
    | cons w ws => rw [hn]; simp

/-- The blocks on the lists after one has left its list. -/
theorem Filed.mem_erase (h : Filed t m L F) (hb : b ∈ L fl sl) (fl' sl' x : Nat) :
    x ∈ updBin L fl sl ((L fl sl).erase b) fl' sl' ↔ ∃ s', F.erase b x s' ∧ mapping s' = (fl', sl') := by
  have hmem : x ∈ updBin L fl sl ((L fl sl).erase b) fl' sl' ↔ x ∈ L fl' sl' ∧ x ≠ b := by
    rw [updBin_apply]
    split
    · rename_i heq
      rw [heq.1, heq.2, List.Nodup.mem_erase_iff (h.dlist fl sl).nodup, and_comm]
    · rename_i hne
      refine ⟨fun hx => ⟨hx, ?_⟩, And.left⟩
      rintro rfl
      exact hne (h.bin_unique hb hx)
  rw [hmem, h.mem fl' sl' x]
  constructor
  · rintro ⟨⟨s', hs, hm⟩, hne⟩
    exact ⟨s', ⟨hs, hne⟩, hm⟩
  · rintro ⟨s', hs, hm⟩
    exact ⟨⟨s', hs.1, hm⟩, hs.2⟩

/-- The blocks on the lists after one has been put in front of a list. -/
theorem Filed.mem_insert (h : Filed t m L F) (hmap : mapping s = (fl, sl)) (fl' sl' x : Nat) :
    x ∈ updBin L fl sl (b :: L fl sl) fl' sl' ↔ ∃ s', F.insert b s x s' ∧ mapping s' = (fl', sl') := by
  have hmem : x ∈ updBin L fl sl (b :: L fl sl) fl' sl' ↔ x ∈ L fl' sl' ∨ (x = b ∧ (fl, sl) = (fl', sl')) := by
    rw [updBin_apply, Prod.mk.injEq]
    split
    · rename_i heq
      rw [heq.1, heq.2, List.mem_cons, or_comm]
      simp only [and_self, and_true]
    · rename_i hne
      refine (or_iff_left ?_).symm
      rintro ⟨_, h1, h2⟩
      exact hne ⟨h1.symm, h2.symm⟩
  rw [hmem, h.mem fl' sl' x]
  constructor
  · rintro (⟨s', hs, hm⟩ | ⟨rfl, heq⟩)
    · exact ⟨s', .inl hs, hm⟩
    · exact ⟨s, .inr ⟨rfl, rfl⟩, hmap.trans heq⟩
  · rintro ⟨s', hs | ⟨rfl, rfl⟩, hm⟩
    · exact .inl ⟨s', hs, hm⟩
    · exact .inr ⟨rfl, hmap.symm.trans hm⟩

/-- **`remove_free`** takes a filed block off its list. -/
theorem removeFree_spec (h : Filed t m L F) (hb : F b s) (hsize : size m b = s)
    (hmap : mapping s = (fl, sl)) :
    ∃ t', removeFree t m b = .ok (t', unlinkMem m b) ∧
      Filed t' (unlinkMem m b) (updBin L fl sl ((L fl sl).erase b)) (F.erase b) ∧
      t'.poolStart = t.poolStart ∧ t'.poolEnd = t.poolEnd := by
  have hmem : b ∈ L fl sl := (h.mem fl sl b).mpr ⟨s, hb, hmap⟩
  obtain ⟨hfl, hsl⟩ := h.bin_lt hmem
  obtain ⟨l₁, l₂, hl⟩ := List.append_of_mem hmem
  have hnd : (l₁ ++ b :: l₂).Nodup := hl ▸ (h.dlist fl sl).nodup
  have hb₁ : b ∉ l₁ := fun hin => (List.disjoint_of_nodup_append hnd) hin List.mem_cons_self
  have herase : (L fl sl).erase b = l₁ ++ l₂ := by
    rw [hl, List.erase_append_right _ hb₁, List.erase_cons_head]
  obtain ⟨hpm, hnm⟩ := h.links_mem hmem
  have hwords : ∀ {x fl' sl'}, x ∈ L fl' sl' →
      linkNext (unlinkMem m b) x = (if x = linkPrev m b then linkNext m b else linkNext m x) ∧
      linkPrev (unlinkMem m b) x = (if x = linkNext m b then linkPrev m b else linkPrev m x) :=
    fun hx => joinMem_words (read64_lt m _) (read64_lt m _) (fun hp => h.eq_or_apart hx (hpm hp))
      (fun hn => h.eq_or_apart hx (hnm hn)) (h.ne_nul hx)
  have hsub : ∀ x ∈ l₁ ++ l₂, x ∈ L fl sl := by
    intro x hx
    rw [hl]
    rcases List.mem_append.mp hx with hx | hx
    · exact List.mem_append_left _ hx
    · exact List.mem_append_right _ (List.mem_cons_of_mem _ hx)
  -- the list that loses `b`
  have hlist : DList (linkNext (unlinkMem m b)) (linkPrev (unlinkMem m b)) 0
      (if linkPrev m b = 0 then linkNext m b else t.lists fl sl) (l₁ ++ l₂) :=
    (hl ▸ h.dlist fl sl).remove rfl (fun x hx => (hwords (hsub x hx)).1)
      (fun x hx => (hwords (hsub x hx)).2)
  -- the other lists contain neither neighbour
  have hother : ∀ fl' sl', ¬ (fl' = fl ∧ sl' = sl) →
      DList (linkNext (unlinkMem m b)) (linkPrev (unlinkMem m b)) 0 (t.lists fl' sl')
        (L fl' sl') := by
    intro fl' sl' hne
    refine (h.dlist fl' sl').congr ?_ ?_
    · intro x hx
      rw [(hwords hx).1]
      refine if_neg ?_
      intro heq
      exact hne (h.bin_unique (hpm fun h0 => h.ne_nul hx (heq.trans h0)) (heq ▸ hx))
    · intro x hx
      rw [(hwords hx).2]
      refine if_neg ?_
      intro heq
      exact hne (h.bin_unique (hnm fun h0 => h.ne_nul hx (heq.trans h0)) (heq ▸ hx))
  obtain ⟨t₁, ht₁⟩ : ∃ t₁, t₁ = if linkPrev m b ≠ 0 then t else setList t fl sl (linkNext m b) :=
    ⟨_, rfl⟩
  have ht₁lists : ∀ fl' sl', t₁.lists fl' sl' = if fl' = fl ∧ sl' = sl then
      (if linkPrev m b = 0 then linkNext m b else t.lists fl sl) else t.lists fl' sl' := by
    intro fl' sl'
    rw [ht₁]
    by_cases hp0 : linkPrev m b = 0
    · simp [hp0, setList]
    · by_cases heq : fl' = fl ∧ sl' = sl
      · simp [hp0, heq]
      · simp [hp0, heq]
  have ht₁same : t₁.slBitmaps = t.slBitmaps ∧ t₁.flBitmap = t.flBitmap ∧
      t₁.poolStart = t.poolStart ∧ t₁.poolEnd = t.poolEnd := by
    rw [ht₁]; split <;> exact ⟨rfl, rfl, rfl, rfl⟩
  have hclear : ∀ t'', (clearIfEmpty t'' fl sl).lists = t''.lists ∧
      (clearIfEmpty t'' fl sl).poolStart = t''.poolStart ∧
      (clearIfEmpty t'' fl sl).poolEnd = t''.poolEnd := by
    intro t''; unfold clearIfEmpty; split <;> exact ⟨rfl, rfl, rfl⟩
  refine ⟨clearIfEmpty t₁ fl sl, ?_, ⟨?_, ?_, ?_, h.ok.erase b⟩, ?_, ?_⟩
  · rw [removeFree_eq (hsize ▸ hmap) hfl hsl, unlinkLists, ht₁]
  · intro fl' sl'
    rw [(hclear t₁).1, ht₁lists, updBin_apply, herase]
    by_cases heq : fl' = fl ∧ sl' = sl
    · rw [if_pos heq, if_pos heq]; exact hlist
    · rw [if_neg heq, if_neg heq]; exact hother fl' sl' heq
  · exact h.mem_erase hmem
  · refine h.bits.clearIfEmpty ht₁same.1 ht₁same.2.1 hfl (List.ne_nil_of_mem hmem) ?_ ?_
    · simp only [ht₁lists, updBin_apply, and_self, if_true, herase]
      exact hlist.eq_nil_iff.symm
    · intro fl' sl' hne
      rw [updBin_apply, if_neg hne]
  · rw [(hclear t₁).2.1, ht₁same.2.2.1]
  · rw [(hclear t₁).2.2, ht₁same.2.2.2]

/-- `remove_free` writes links of filed blocks only. -/
theorem unlinkMem_eqOn (h : Filed t m L F) (hb : F b s) : Set.EqOn (unlinkMem m b) m F.linksᶜ := by
  obtain ⟨fl, sl, hmap⟩ : ∃ fl sl, mapping s = (fl, sl) := ⟨_, _, rfl⟩
  obtain ⟨hpm, hnm⟩ := h.links_mem ((h.mem fl sl b).mpr ⟨s, hb, hmap⟩)
  have hsub : ∀ {x}, x ∈ L fl sl → linkBytes x ⊆ F.links := by
    intro x hx z hz
    obtain ⟨sx, hx, _⟩ := (h.mem _ _ _).mp hx
    exact ⟨x, sx, hx, hz⟩
  exact joinMem_eqOn m (fun hp => hsub (hpm hp)) (fun hn => hsub (hnm hn))

/-- **`insert_free`** puts a block at the head of the list of its bin. -/
theorem insertFree_spec (h : Filed t m L F) (hok : (F.insert b s).Ok) (hfresh : ∀ s', ¬ F b s')
    (hsize : size m b = s) (hmap : mapping s = (fl, sl)) :
    ∃ t', insertFree t m b = .ok (t', linkMem m b (t.lists fl sl)) ∧
      Filed t' (linkMem m b (t.lists fl sl)) (updBin L fl sl (b :: L fl sl)) (F.insert b s) ∧
      t'.poolStart = t.poolStart ∧ t'.poolEnd = t.poolEnd := by
  have hbs : (F.insert b s) b s := .inr ⟨rfl, rfl⟩
  have hb0 : b ≠ 0 := (hok.pos hbs).ne'
  have hb64 : b < 2 ^ 64 := hok.lt hbs
  have hfl : fl < flCount := by
    have := mapping_fl_lt (hok.min hbs) (hok.max hbs)
    rwa [hmap] at this
  have hsl : sl < slCount := by
    have := mapping_sl_lt (hok.min hbs) (lt_trans (hok.max hbs) (by norm_num))
    rwa [hmap] at this
  have hbL : ∀ {fl' sl'}, b ∉ L fl' sl' := by
    intro fl' sl' hin
    obtain ⟨s', hs', _⟩ := (h.mem _ _ _).mp hin
    exact hfresh s' hs'
  have hapart : ∀ {x fl' sl'}, x ∈ L fl' sl' → Apart x b := by
    intro x fl' sl' hx
    have hxb : x ≠ b := fun heq => hbL (heq ▸ hx)
    obtain ⟨s', hs', _⟩ := (h.mem _ _ _).mp hx
    exact hok.apart (.inl hs') hbs hxb
  have hheadlt : t.lists fl sl < 2 ^ 64 := by
    by_cases h0 : t.lists fl sl = 0
    · omega
    · obtain ⟨s', hs', _⟩ := (h.mem _ _ _).mp (h.head_mem h0)
      exact h.ok.lt hs'
  obtain ⟨hprev, hnext⟩ := linkMem_self (m := m) hheadlt fun hne => (hapart (h.head_mem hne)).symm
  have hold : ∀ {x fl' sl'}, x ∈ L fl' sl' →
      linkNext (linkMem m b (t.lists fl sl)) x = linkNext m x ∧
      linkPrev (linkMem m b (t.lists fl sl)) x = if x = t.lists fl sl then b else linkPrev m x := fun hx =>
    linkMem_words hb64 (h.ne_nul hx) (hapart hx) fun hne => h.eq_or_apart hx (h.head_mem hne)
  refine ⟨{ setList t fl sl b with
    flBitmap := t.flBitmap ||| 1 <<< fl
    slBitmaps := Function.update t.slBitmaps fl (t.slBitmaps fl ||| 1 <<< sl) },
    ?_, ⟨?_, ?_, ?_, hok⟩, rfl, rfl⟩
  · simp only [insertFree, hsize, hmap, checkIndex_of_lt hfl, checkIndex_of_lt hsl, Exec.bind_ok,
      Exec.pure_eq, linkMem]
    rfl
  · intro fl' sl'
    simp only [setList, updBin_apply]
    by_cases heq : fl' = fl ∧ sl' = sl
    · rw [if_pos heq, if_pos heq]
      exact (h.dlist fl sl).push hb0 hbL hnext hprev (fun x hx => (hold hx).1) fun x hx => (hold hx).2
    · rw [if_neg heq, if_neg heq]
      refine (h.dlist fl' sl').congr (fun x hx => (hold hx).1) fun x hx => ?_
      rw [(hold hx).2]
      refine if_neg ?_
      intro hxh
      exact heq (h.bin_unique (h.head_mem fun h0 => h.ne_nul hx (hxh.trans h0)) (hxh ▸ hx))
  · exact h.mem_insert hmap
  · refine h.bits.light rfl rfl hfl hsl ?_ ?_
    · rw [updBin_apply, if_pos ⟨rfl, rfl⟩]; exact List.cons_ne_nil _ _
    · intro fl' sl' hne
      rw [updBin_apply, if_neg hne]

/-- `insert_free` writes links of filed blocks and of the new block only. -/
theorem Filed.linkMem_eqOn (h : Filed t m L F) (b s fl sl : Nat) :
    Set.EqOn (linkMem m b (t.lists fl sl)) m (F.insert b s).linksᶜ := by
  have hself : linkBytes b ⊆ (F.insert b s).links := fun z hz => ⟨b, s, .inr ⟨rfl, rfl⟩, hz⟩
  have h1 := eqOn_compl_trans (eqOn_compl_mono (setLinkPrev_eqOn m b 0) hself)
    (eqOn_compl_mono (setLinkNext_eqOn (setLinkPrev m b 0) b (t.lists fl sl)) hself)
  rw [Set.union_self] at h1
  unfold linkMem
  split
  · rename_i hne
    have hhead : linkBytes (t.lists fl sl) ⊆ (F.insert b s).links := by
      obtain ⟨s', hs', _⟩ := (h.mem fl sl _).mp (h.head_mem hne)
      exact fun z hz => ⟨_, s', .inl hs', hz⟩
    have h2 := eqOn_compl_trans h1 (eqOn_compl_mono (setLinkPrev_eqOn _ (t.lists fl sl) b) hhead)
    rwa [Set.union_self] at h2
  · exact h1

end Operations

end FerrumAlloc.Tlsf
