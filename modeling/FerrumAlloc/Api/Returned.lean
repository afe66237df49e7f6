/-
# FerrumAlloc.Api.Returned -- remote frees and local frees

A slot can come back in two ways: straight to the slab of the cache, or over the stack of remote frees. On
the way over the stack the slots are linked through their own bytes, come back in the opposite order, and
the pages leave the state "full" in another order too. What is left is the same: `Ghost.Returned` says what
is known of a view after a set of slots has come back, and that does not depend on an order.

`reachable_remote_local` compares the two ways, from any reachable state.
-/
import FerrumAlloc.Api.Owners
import FerrumAlloc.Api.Backends

namespace FerrumAlloc

open Lib

/-! ## Slots that have come back -/

section Ghost

variable {ι : Type} {a : Arena} {m m' : Mem} {slabs slabs' : ι → SlabAllocator} {g g₁ g₂ : Ghost ι}
  {k : ι} {i c j : Nat} {S S' : Set (Nat × Nat)}

/-- **The slots `S` have come back to slab `k`.** Pages that were full are listed by `k` now, all other
pages where they were. -/
structure Ghost.Returned (g g' : Ghost ι) (k : ι) (S : Set (Nat × Nat)) : Prop where
  cls : g'.cls = g.cls
  owner : g'.owner = g.owner
  free : ∀ i j, j ∈ g'.free i ↔ j ∈ g.free i ∨ (i, j) ∈ S
  home : ∀ i, g'.free i ≠ [] → (g.free i = [] → g'.home i = k) ∧ (g.free i ≠ [] → g'.home i = g.home i)

namespace Ghost.Returned

theorem refl (g : Ghost ι) (k : ι) : g.Returned g k ∅ :=
  ⟨rfl, rfl, fun _ _ => (or_iff_left (Set.notMem_empty _)).symm, fun _ hne => ⟨fun h0 => absurd h0 hne,
    fun _ => rfl⟩⟩

theorem free_nil (h : g.Returned g₁ k S) (h0 : g₁.free i = []) : g.free i = [] := by
  apply List.eq_nil_iff_forall_not_mem.mpr
  intro j hj
  have hmem := (h.free i j).mpr (.inl hj)
  rw [h0] at hmem
  exact List.not_mem_nil hmem

theorem trans (h : g.Returned g₁ k S) (h' : g₁.Returned g₂ k S') : g.Returned g₂ k (S ∪ S') := by
  refine ⟨h'.cls.trans h.cls, h'.owner.trans h.owner, fun i j => ?_, fun i hne => ?_⟩
  · rw [h'.free, h.free, Set.mem_union, or_assoc]
  · obtain ⟨hfull, hpart⟩ := h'.home i hne
    by_cases h1 : g₁.free i = []
    · exact ⟨fun _ => hfull h1, fun hg => absurd (h.free_nil h1) hg⟩
    · obtain ⟨hfull', hpart'⟩ := h.home i h1
      exact ⟨fun h0 => (hpart h1).trans (hfull' h0), fun h0 => (hpart h1).trans (hpart' h0)⟩

/-- One slot. -/
theorem put [DecidableEq ι] (g : Ghost ι) (a : Arena) (k : ι) (c i j : Nat) :
    g.Returned (g.put a k c i j) k {(i, j)} := by
  refine ⟨rfl, rfl, fun i' j' => ?_, fun i' hne => ?_⟩
  · rw [Set.mem_singleton_iff, Prod.mk.injEq]
    unfold Ghost.put
    by_cases hii : i' = i
    · simp only [hii, Function.update_self, List.mem_cons, true_and]
      exact or_comm
    · simp only [Function.update_of_ne hii, hii, false_and, or_false]
  · unfold Ghost.put at hne ⊢
    simp only at hne ⊢
    by_cases hii : i' = i
    · subst hii
      by_cases h0 : g.free i' = []
      · rw [if_pos h0, Function.update_self]
        exact ⟨fun _ => rfl, fun h => absurd h0 h⟩
      · rw [if_neg h0]
        exact ⟨fun h => absurd h h0, fun _ => rfl⟩
    · rw [Function.update_of_ne hii] at hne
      have hsame : (if g.free i = [] then Function.update g.home i k else g.home) i' = g.home i' := by
        split
        · exact Function.update_of_ne hii ..
        · rfl
      exact ⟨fun h => absurd h hne, fun _ => hsame⟩

end Ghost.Returned

namespace SlabInv

/-- **Order does not matter.** Two memories in which the same slots have come back agree on the free slots
and the counter of every page. -/
theorem same_slots (h₁ : SlabInv a m slabs g₁) (h₂ : SlabInv a m' slabs' g₂) (r₁ : g.Returned g₁ k S)
    (r₂ : g.Returned g₂ k S) (hc : g.cls i = some c) :
    (readMeta m (a.metaPtr i)).usedSlots = (readMeta m' (a.metaPtr i)).usedSlots ∧
    ∀ j, OnChain (slotLink a m i c) nullSlot (readMeta m (a.metaPtr i)).freeListHead j ↔
      OnChain (slotLink a m' i c) nullSlot (readMeta m' (a.metaPtr i)).freeListHead j := by
  have hp₁ := h₁.slabPage (i := i) (c := c) (by rw [r₁.cls]; exact hc)
  have hp₂ := h₂.slabPage (i := i) (c := c) (by rw [r₂.cls]; exact hc)
  have hmem : ∀ j, j ∈ g₁.free i ↔ j ∈ g₂.free i := fun j => (r₁.free i j).trans (r₂.free i j).symm
  have hlen : (g₁.free i).length = (g₂.free i).length :=
    ((List.perm_ext_iff_of_nodup hp₁.nodup hp₂.nodup).mpr hmem).length_eq
  have hu₁ := hp₁.used
  have hu₂ := hp₂.used
  refine ⟨by omega, fun j => ?_⟩
  rw [hp₁.chain.onChain_iff, hp₂.chain.onChain_iff]
  exact hmem j

/-- They agree on the pages of every list. -/
theorem same_lists (h₁ : SlabInv a m slabs g₁) (h₂ : SlabInv a m' slabs' g₂) (r₁ : g.Returned g₁ k S)
    (r₂ : g.Returned g₂ k S) (q : ι) (c x : Nat) :
    OnChain (nextOf m) 0 ((slabs q).partialPages c) x ↔
      OnChain (nextOf m') 0 ((slabs' q).partialPages c) x := by
  have hhome : ∀ i, g₁.free i ≠ [] ∧ g₁.home i = q ↔ g₂.free i ≠ [] ∧ g₂.home i = q := by
    intro i
    have hnil : g₁.free i = [] ↔ g₂.free i = [] := by
      simp only [List.eq_nil_iff_forall_not_mem, r₁.free, r₂.free]
    by_cases h0 : g₁.free i = []
    · exact iff_of_false (fun h => h.1 h0) fun h => h.1 (hnil.mp h0)
    · have h0' : g₂.free i ≠ [] := fun h => h0 (hnil.mpr h)
      have heq : g₁.home i = g₂.home i := by
        by_cases hg : g.free i = []
        · exact ((r₁.home i h0).1 hg).trans ((r₂.home i h0').1 hg).symm
        · exact ((r₁.home i h0).2 hg).trans ((r₂.home i h0').2 hg).symm
      rw [heq]
      exact and_congr_left fun _ => iff_of_true h0 h0'
  have hc₁ := (h₁.lists.list (q, c)).chain.onChain_iff (x := x)
  have hc₂ := (h₂.lists.list (q, c)).chain.onChain_iff (x := x)
  refine hc₁.trans (Iff.trans ?_ hc₂.symm)
  rw [h₁.mem, h₂.mem, r₁.cls, r₂.cls]
  apply exists_congr
  intro i
  rw [hhome i]

end SlabInv

end Ghost

/-! ## The pages of an identifier -/

variable {h h' : Heap} {v v' : View} {l : List Block} {b : Block} {t p c i j k : Nat} {m : Mem} {s : State}
  {xs : List Nat}

/-- The records and the bytes of the slab pages of identifier `k`. -/
def View.pagesOf (v : View) (k : Nat) : Set Nat :=
  {z | ∃ i c, v.g.cls i = some c ∧ v.g.owner i = k ∧
    (z ∈ metaBytes (v.arena.metaPtr i) ∨ z ∈ v.arena.pageBytes i)}

/-- The used slots at the addresses `xs`, as page and index. -/
def View.slotsAt (v : View) (xs : List Nat) : Set (Nat × Nat) :=
  {e | ∃ c, v.g.Used e.1 c e.2 ∧ v.arena.slotAddr e.1 c e.2 ∈ xs}

/-- A slot in a page of identifier `k`. -/
def View.SlotOf (v : View) (k : Nat) (b : Block) : Prop :=
  ∃ i c j, b.via = .slab c ∧ v.g.Used i c j ∧ b.ptr = v.arena.slotAddr i c j ∧ v.g.owner i = k

/-- One slot put back, then the others. -/
theorem ArenaSide.slotsAt_cons (ha : ArenaSide h v) (hu : v.g.Used i c j)
    (hnot : v.arena.slotAddr i c j ∉ xs) (harena : v'.arena = v.arena) {q : Option Nat}
    (hput : v'.g = v.g.put v.arena q c i j) :
    v.slotsAt (v.arena.slotAddr i c j :: xs) = {(i, j)} ∪ v'.slotsAt xs := by
  ext ⟨i', j'⟩
  simp only [View.slotsAt, Set.mem_ofPred_eq, Set.mem_union, Set.mem_singleton_iff, Prod.mk.injEq, harena,
    hput, List.mem_cons, Ghost.used_put hu]
  constructor
  · rintro ⟨c', hu', heq | hmem⟩
    · obtain ⟨h1, _, h2⟩ := ha.slabs.slot_eq hu' hu heq
      exact .inl ⟨h1, h2⟩
    · refine .inr ⟨c', ⟨hu', ?_⟩, hmem⟩
      rintro ⟨rfl, rfl⟩
      obtain rfl := Option.some.inj (hu'.1.symm.trans hu.1)
      exact hnot hmem
  · rintro (⟨rfl, rfl⟩ | ⟨c', ⟨hu', _⟩, hmem⟩)
    · exact ⟨c, hu, .inl rfl⟩
    · exact ⟨c', hu', .inr hmem⟩

/-- The bytes a free writes lie in pages of the identifier. -/
theorem Owned.freeBytes_subset (ho : Owned h v) (ha : ArenaSide h v) (hu : v.g.Used i c j)
    (hown : v.g.owner i = (h.caches p).id) :
    SlabInv.freeBytes v.arena v.g (some p) i c j ⊆ v.pagesOf (h.caches p).id := by
  rintro z (⟨q, hq, hz⟩ | hz)
  · rcases List.mem_cons.mp hq with rfl | hq
    · exact ⟨i, c, hu.1, hown, .inl hz⟩
    · split at hq
      · obtain ⟨i', rfl, hc', hf, hhome⟩ := (ha.slabs.inv.mem (some p) c q).mp hq
        exact ⟨i', c, hc', (ho.listed i' c p hc' hf hhome).2, .inl hz⟩
      · exact absurd hq List.not_mem_nil
  · exact ⟨i, c, hu.1, hown, .inr (linkSpan_in_page (ha.slabs.inv.used_lt hu) hu.2.1 hz)⟩

/-- **Between two configurations only pages of identifier `k` have changed.** -/
structure Within (k : Nat) (c c' : Conf) : Prop where
  good : Good c'.heap c'.view c'.live
  owned : Owned c'.heap c'.view
  init : c'.heap.arenaInit = c.heap.arenaInit
  registry : c'.heap.registry = c.heap.registry
  id : ∀ p, (c'.heap.caches p).id = (c.heap.caches p).id
  arena : c'.view.arena = c.view.arena
  made : c'.view.made = c.view.made
  cls : c'.view.g.cls = c.view.g.cls
  owner : c'.view.g.owner = c.view.g.owner
  bytes : Set.EqOn c'.heap.os.bytes c.heap.os.bytes (c.view.pagesOf k)ᶜ

namespace Within

theorem refl {c : Conf} (hg : Good c.heap c.view c.live) (ho : Owned c.heap c.view) : Within k c c :=
  ⟨hg, ho, rfl, rfl, fun _ => rfl, rfl, rfl, rfl, rfl, Set.eqOn_refl _ _⟩

theorem trans {c c' c'' : Conf} (h : Within k c c') (h' : Within k c' c'') : Within k c c'' := by
  have hpages : c'.view.pagesOf k = c.view.pagesOf k := by
    unfold View.pagesOf
    rw [h.arena, h.cls, h.owner]
  exact ⟨h'.good, h'.owned, h'.init.trans h.init, h'.registry.trans h.registry,
    fun p => (h'.id p).trans (h.id p), h'.arena.trans h.arena, h'.made.trans h.made, h'.cls.trans h.cls,
    h'.owner.trans h.owner, (hpages ▸ h'.bytes).trans h.bytes⟩

/-- A slot is pushed. -/
theorem push (hg : Good h v l) (ho : Owned h v) (hinit : h.arenaInit = true) (hu : v.g.Used i c j)
    (hb : b ∈ l) (hvia : b.via = .slab c) (hptr : b.ptr = v.arena.slotAddr i c j) :
    Within (v.g.owner i) ⟨h, v, l⟩ ⟨h.push (h.registry (v.g.owner i)) b.ptr,
      v.push (h.registry (v.g.owner i)) b.ptr, l.erase b⟩ := by
  have hact : Act 0 True Anywhere ⟨h, v, l⟩ ⟨h.push (h.registry (v.g.owner i)) b.ptr,
    v.push (h.registry (v.g.owner i)) b.ptr, l.erase b⟩ := .push hinit hu hb hvia hptr
  have hlt := (hg.arena hinit).slabs.inv.used_lt hu
  refine ⟨(hact.kept hg).good, hact.owned hg ho, rfl, rfl, setCache_id (h.setBytes _) _ rfl, rfl, rfl, rfl,
    rfl, eqOn_compl_mono (write64_eqOn ..) fun z hz => ?_⟩
  refine ⟨i, c, hu.1, rfl, .inr (slotBytes_in_page hlt hu.2.1 ?_)⟩
  exact SlabSide.node_subset_slot hlt hptr hz.1 hz.2

/-- A slot is put back through the slab of the cache at `p`. -/
theorem put (hg : Good h v l) (ho : Owned h v) {s : SlabAllocator} (hp : Puts h v (some p) c i j s m)
    (hb : b ∈ l) (hvia : b.via = .slab c) (hptr : b.ptr = v.arena.slotAddr i c j)
    (hown : v.g.owner i = (h.caches p).id) :
    Within (h.caches p).id ⟨h, v, l⟩ ⟨h.setSlab (some p) s m, v.put (some p) c i j, l.erase b⟩ := by
  obtain ⟨t, ht⟩ := ho.user p (hp.cache p rfl)
  have hact : Act t True Anywhere ⟨h, v, l⟩ ⟨h.setSlab (some p) s m, v.put (some p) c i j, l.erase b⟩ :=
    .put hp hb hvia hptr (fun q hq => Option.some.inj hq ▸ ⟨ht, hown⟩) nofun
  exact ⟨(hact.kept hg).good, hact.owned hg ho, rfl, rfl, setSlab_id h (some p) s m, rfl, rfl, rfl, rfl,
    eqOn_compl_mono hp.bytes (ho.freeBytes_subset (hg.arena hp.init) hp.used hown)⟩

/-- A slot is taken off the stack of the cache at `p`. -/
theorem pop (hg : Good h v l) (ho : Owned h v) {s : SlabAllocator} (hp : Puts h v (some p) c i j s m)
    (htop : h.remote p = v.arena.slotAddr i c j) :
    Within (h.caches p).id ⟨h, v, l⟩ ⟨h.pop p s m, v.pop p c i j, l⟩ := by
  obtain ⟨t, ht⟩ := ho.user p (hp.cache p rfl)
  have ha := hg.arena hp.init
  have hact : Act t True Anywhere ⟨h, v, l⟩ ⟨h.pop p s m, v.pop p c i j, l⟩ := .pop hp ht htop
  have hrole := (ha.slabs.stack p).head_role (by rw [htop]; exact ha.slotAddr_ne i c j)
  rw [htop] at hrole
  have hown := (ho.stacked i c j p hp.used hrole).2
  exact ⟨(hact.kept hg).good, hact.owned hg ho, rfl, rfl, setCache_id h p rfl, rfl, rfl, rfl, rfl,
    eqOn_compl_mono hp.bytes (ho.freeBytes_subset ha hp.used hown)⟩

end Within

/-! ## The local way -/

/-- `free_no_arena` on the slab of the cache at `p`, with the record that `ferrum_free` finds. -/
def freeLocal (h : Heap) (p x : Nat) : Exec Heap := do
  let arena ← derefGlobal h.globalArena
  let (slab, m) ← (h.caches p).slab.freeNoArena h.os.bytes x (arena.metaPtr (arena.ptrToPageIndex x))
  return h.setCacheSlab p slab m

/-- The same for several blocks, in this order. -/
def freeAllLocal (h : Heap) (p : Nat) (fs : List Block) : Exec Heap :=
  fs.foldlM (fun h b => freeLocal h p b.ptr) h

/-- One block. -/
theorem freeLocal_spec (hg : Good h v l) (ho : Owned h v) (hinit : h.arenaInit = true) (hp : p ∈ v.made)
    (hb : b ∈ l) (hs : v.SlotOf (h.caches p).id b) :
    ∃ h' i c j, freeLocal h p b.ptr = .ok h' ∧ v.g.Used i c j ∧ b.ptr = v.arena.slotAddr i c j ∧
      Within (h.caches p).id ⟨h, v, l⟩ ⟨h', v.put (some p) c i j, l.erase b⟩ := by
  obtain ⟨i, c, j, hvia, hu, hptr, hown⟩ := hs
  have ha := hg.arena hinit
  obtain ⟨s, m, hrun, hinv, hbytes⟩ := ha.slabs.inv.freeNoArena_spec hu (some p)
  have hrun' : (h.caches p).slab.freeNoArena h.os.bytes (v.arena.slotAddr i c j) (v.arena.metaPtr i) =
    .ok (s, m) := hrun
  refine ⟨h.setSlab (some p) s m, i, c, j, ?_, hu, hptr, .put hg ho
    ⟨hinit, fun q hq => Option.some.inj hq ▸ hp, hu, hinv, hbytes⟩ hb hvia hptr hown⟩
  unfold freeLocal
  simp only [ha.arena, derefGlobal, Exec.bind_ok, hptr, (ha.slab_inPage hu).index, hrun', Exec.pure_eq]
  rfl

/-- What stays true of the blocks still to be released. -/
theorem SlotOf.later {fs : List Block} {k' : Nat} (hg : Good h v l) (hnd : (b :: fs).Nodup)
    (hfs : ∀ b' ∈ b :: fs, b' ∈ l ∧ v.SlotOf k b') (harena : v'.arena = v.arena)
    (howner : v'.g.owner = v.g.owner) (hk : k' = k)
    (hused : ∀ i c j, v.g.Used i c j → v.arena.slotAddr i c j ≠ b.ptr → v'.g.Used i c j) :
    ∀ b' ∈ fs, b' ∈ l.erase b ∧ v'.SlotOf k' b' := by
  intro b' hb'
  have hne : b' ≠ b := fun heq => (List.nodup_cons.mp hnd).1 (heq ▸ hb')
  obtain ⟨hmem, i, c, j, hvia, hu, hptr, hown⟩ := hfs b' (.tail _ hb')
  refine ⟨(List.mem_erase_of_ne hne).mpr hmem, i, c, j, hvia, hused i c j hu ?_, by rw [harena]; exact hptr,
    by rw [howner, hk]; exact hown⟩
  rw [← hptr]
  exact (hg.apart_of_ne hmem (hfs b List.mem_cons_self).1 hne).1

/-- **The local way**, by induction on the list of blocks. -/
theorem freeAllLocal_spec (fs : List Block) : ∀ {h : Heap} {v : View} {l : List Block}, Good h v l →
    Owned h v → h.arenaInit = true → p ∈ v.made → fs.Nodup →
    (∀ b ∈ fs, b ∈ l ∧ v.SlotOf (h.caches p).id b) →
    ∃ h' v' l', freeAllLocal h p fs = .ok h' ∧ Within (h.caches p).id ⟨h, v, l⟩ ⟨h', v', l'⟩ ∧
      v.g.Returned v'.g (some p) (v.slotsAt (fs.map Block.ptr)) := by
  induction fs with
  | nil =>
    intro h v l hg ho _ _ _ _
    refine ⟨h, v, l, rfl, .refl hg ho, ?_⟩
    have hnone : v.slotsAt [] = ∅ := Set.eq_empty_of_forall_notMem fun _ ⟨_, _, hmem⟩ => nomatch hmem
    rw [List.map_nil, hnone]
    exact .refl _ _
  | cons b fs ih =>
    intro h v l hg ho hinit hp hnd hfs
    obtain ⟨hb, hslot⟩ := hfs b List.mem_cons_self
    obtain ⟨h₁, i, c, j, hrun, hu, hptr, hw⟩ := freeLocal_spec hg ho hinit hp hb hslot
    have hlater : ∀ b' ∈ fs, b' ∈ l.erase b ∧ (v.put (some p) c i j).SlotOf (h₁.caches p).id b' := by
      refine SlotOf.later hg hnd hfs rfl rfl (hw.id p) fun i' c' j' hu' hne => (Ghost.used_put hu).mpr ⟨hu', ?_⟩
      rintro ⟨rfl, rfl⟩
      obtain rfl := Option.some.inj (hu'.1.symm.trans hu.1)
      exact hne hptr.symm
    obtain ⟨h', v', l', hrun', hw', hret⟩ :=
      ih hw.good hw.owned (hw.init.trans hinit) hp (List.nodup_cons.mp hnd).2 hlater
    rw [hw.id p] at hw'
    have hnot : v.arena.slotAddr i c j ∉ fs.map Block.ptr := by
      intro hmem
      obtain ⟨b', hb', heq⟩ := List.mem_map.mp hmem
      have hne : b' ≠ b := fun h => (List.nodup_cons.mp hnd).1 (h ▸ hb')
      exact (hg.apart_of_ne (hfs b' (.tail _ hb')).1 hb hne).1 (heq.trans hptr.symm)
    refine ⟨h', v', l', ?_, hw.trans hw', ?_⟩
    · show (freeLocal h p b.ptr >>= fun h => freeAllLocal h p fs) = .ok h'
      rw [hrun]
      exact hrun'
    · have hslots : v.slotsAt (v.arena.slotAddr i c j :: fs.map Block.ptr) =
          {(i, j)} ∪ (v.put (some p) c i j).slotsAt (fs.map Block.ptr) :=
        (hg.arena hinit).slotsAt_cons hu hnot rfl rfl
      rw [List.map_cons, hptr, hslots]
      exact (Ghost.Returned.put v.g v.arena (some p) c i j).trans hret

/-! ## The remote way -/

/-- `remote_free_push` of several blocks, in this order. -/
def pushAll (h : Heap) (k : Nat) (es : List Block) : Heap :=
  es.foldl (fun h b => remoteFreePush h k b.ptr) h

/-- `drain_remote_frees` on the cache at `p`. -/
def drainRemote (h : Heap) (p : Nat) : Exec Heap := do
  let arena ← derefGlobal h.globalArena
  let (cache, m) ← (h.caches p).drainRemoteFrees h.os.bytes arena
  return (h.setCache p cache).setBytes m

/-- The stack after several pushes, by induction on the list of blocks. -/
theorem pushAll_spec (hk : k < maxThreads) (hp : p ≠ 0) (es : List Block) : ∀ {h : Heap} {v : View}
    {l : List Block}, Good h v l → Owned h v → h.arenaInit = true → h.registry k = p → es.Nodup →
    (∀ b ∈ es, b ∈ l ∧ v.SlotOf k b) →
    ∃ v' l', Within k ⟨h, v, l⟩ ⟨pushAll h k es, v', l'⟩ ∧ v'.g = v.g ∧
      v'.stack p = (es.map Block.ptr).reverse ++ v.stack p := by
  induction es with
  | nil => exact fun {h v l} hg ho _ _ _ _ => ⟨v, l, .refl hg ho, rfl, rfl⟩
  | cons b es ih =>
    intro h v l hg ho hinit hreg hnd hes
    obtain ⟨hb, i, c, j, hvia, hu, hptr, hown⟩ := hes b List.mem_cons_self
    have hw := Within.push hg ho hinit hu hb hvia hptr
    rw [hown, hreg] at hw
    have hrun : remoteFreePush h k b.ptr = h.push p b.ptr := by
      unfold remoteFreePush
      rw [if_neg (Nat.not_le_of_lt hk), hreg]
      simp only [if_neg hp]
      rfl
    obtain ⟨v', l', hw', hg', hstack⟩ := ih hw.good hw.owned (hw.init.trans hinit) (hw.registry ▸ hreg)
      (List.nodup_cons.mp hnd).2 (SlotOf.later hg hnd hes rfl rfl rfl fun i c j hu _ => hu)
    refine ⟨v', l', ?_, hg', ?_⟩
    · show Within k ⟨h, v, l⟩ ⟨pushAll (remoteFreePush h k b.ptr) k es, v', l'⟩
      rw [hrun]
      exact hw.trans hw'
    · rw [hstack]
      have hself : (v.push p b.ptr).stack p = b.ptr :: v.stack p := Function.update_self ..
      rw [hself, List.map_cons, List.reverse_cons, List.append_assoc]
      rfl

/-- **A drain** puts back the slots on the stack, by induction on its steps. -/
theorem Drains.returned {c c' : Conf} (hd : Drains p c c') (hg : Good c.heap c.view c.live)
    (ho : Owned c.heap c.view) (hinit : c.heap.arenaInit = true) : Within (c.heap.caches p).id c c' ∧
    c.view.g.Returned c'.view.g (some p) (c.view.slotsAt (c.view.stack p)) := by
  induction hd with
  | @done c h0 =>
    have hnil : c.view.stack p = [] := ((hg.arena hinit).slabs.stack p).chain.eq_nil_iff.mpr h0
    have hnone : c.view.slotsAt [] = ∅ := Set.eq_empty_of_forall_notMem fun _ ⟨_, _, hmem⟩ => nomatch hmem
    rw [hnil, hnone]
    exact ⟨.refl hg ho, .refl _ _⟩
  | @pop h v l c i j s m c' hputs htop hd ih =>
    have ha := hg.arena hputs.init
    have hw := Within.pop hg ho hputs htop
    obtain ⟨hw', hret⟩ := ih hw.good hw.owned (hw.init.trans hinit)
    obtain ⟨rest, hstack, hnot, _⟩ := (ha.slabs.stack p).tail (by rw [htop]; exact ha.slotAddr_ne i c j)
    have hrest : (v.pop p c i j).stack p = rest := by
      show Function.update v.stack p (v.stack p).tail p = rest
      rw [Function.update_self, hstack]
      rfl
    rw [hw.id p] at hw'
    refine ⟨hw.trans hw', ?_⟩
    simp only [hrest] at hret
    rw [htop] at hstack hnot
    have hslots : v.slotsAt (v.stack p) = {(i, j)} ∪ (v.pop p c i j).slotsAt rest := by
      have hstack' : v.stack p = v.arena.slotAddr i c j :: rest := hstack
      rw [hstack']
      exact ArenaSide.slotsAt_cons (h := h) ha hputs.used hnot rfl rfl
    simp only [hslots]
    exact (Ghost.Returned.put v.g v.arena (some p) c i j).trans hret

/-- `drain_remote_frees` returns, and is a drain. -/
theorem drainRemote_drains (hg : Good h v l) (hinit : h.arenaInit = true) (hp : p ∈ v.made) :
    ∃ h' v', drainRemote h p = .ok h' ∧ Drains p ⟨h, v, l⟩ ⟨h', v', l⟩ := by
  have ha := hg.arena hinit
  obtain ⟨s, m, v', hloop, hd⟩ := drainLoop_drains defaultArenaSize hg hinit hp (ha.slabs.stack_length p)
  refine ⟨h.drained p s m, v', ?_, hd⟩
  have hloop' : drainLoop v.arena defaultArenaSize (h.caches p).remoteFrees (h.caches p).slab h.os.bytes =
    .ok (s, m) := hloop
  unfold drainRemote ThreadCache.drainRemoteFrees
  simp only [ha.arena, derefGlobal, Exec.bind_ok, hloop', Exec.pure_eq]
  rfl

/-! ## The comparison -/

/-- A slab page of identifier `k`, by its record. -/
def PageOf (m : Mem) (a : Arena) (k i : Nat) : Prop :=
  (readMeta m (a.metaPtr i)).sizeClass ≠ noClass ∧ (readMeta m (a.metaPtr i)).ownerId = k

/-- **Two heaps that differ in the order of free slots and pages only**, as far as identifier `k` and the
cache at `p` go, and that agree with a third on everything else in the pages of the arena. -/
structure SameFrees (m : Mem) (a : Arena) (k p : Nat) (h₁ h₂ : Heap) : Prop where
  /-- The same number of used slots in every page of `k`. -/
  used : ∀ i, metaPages ≤ i → i < pagesPerArena → PageOf m a k i →
    (readMeta h₁.os.bytes (a.metaPtr i)).usedSlots = (readMeta h₂.os.bytes (a.metaPtr i)).usedSlots
  /-- The same free slots. -/
  free : ∀ i, metaPages ≤ i → i < pagesPerArena → PageOf m a k i → ∀ j,
    (OnChain (slotLink a h₁.os.bytes i (readMeta m (a.metaPtr i)).sizeClass) nullSlot
      (readMeta h₁.os.bytes (a.metaPtr i)).freeListHead j ↔
    OnChain (slotLink a h₂.os.bytes i (readMeta m (a.metaPtr i)).sizeClass) nullSlot
      (readMeta h₂.os.bytes (a.metaPtr i)).freeListHead j)
  /-- The same pages on every list of the cache. -/
  lists : ∀ c x, OnChain (nextOf h₁.os.bytes) 0 ((h₁.caches p).slab.partialPages c) x ↔
    OnChain (nextOf h₂.os.bytes) 0 ((h₂.caches p).slab.partialPages c) x
  /-- No other page is changed. -/
  others : ∀ i, metaPages ≤ i → i < pagesPerArena → ¬ PageOf m a k i →
    Set.EqOn h₁.os.bytes m (metaBytes (a.metaPtr i) ∪ a.pageBytes i) ∧
    Set.EqOn h₂.os.bytes m (metaBytes (a.metaPtr i) ∪ a.pageBytes i)

/-- A slab page by its record is one of the view. -/
theorem ArenaSide.pageOf_iff (ha : ArenaSide h v) (hi : i < pagesPerArena) :
    PageOf h.os.bytes v.arena k i ↔
      ∃ c, v.g.cls i = some c ∧ (readMeta h.os.bytes (v.arena.metaPtr i)).sizeClass = c ∧ v.g.owner i = k := by
  unfold PageOf
  cases hc : v.g.cls i with
  | none =>
    refine iff_of_false (fun hno => hno.1 (ha.class_none hi hc)) ?_
    rintro ⟨c, hsome, _⟩
    nomatch hsome
  | some c =>
    have hsp := ha.slabs.inv.slabPage hc
    rw [hsp.ownerId]
    constructor
    · exact fun hyes => ⟨c, rfl, hsp.sizeClass, hyes.2⟩
    · rintro ⟨_, _, _, howner⟩
      exact ⟨ha.slabs.inv.sizeClass_ne hc, howner⟩

/-- Pages of other identifiers are out of reach. -/
theorem ArenaSide.others_not_pagesOf (ha : ArenaSide h v) (hlo : metaPages ≤ i) (hi : i < pagesPerArena)
    (hno : ¬ PageOf h.os.bytes v.arena k i) {z : Nat}
    (hz : z ∈ metaBytes (v.arena.metaPtr i) ∪ v.arena.pageBytes i) : z ∈ (v.pagesOf k)ᶜ := by
  rintro ⟨i', c, hc, howner, hz'⟩
  have hi' := ha.slabs.inv.index_lt hc
  have hlo' := (ha.slabs.inv.range i' c hc).1
  have hne : i ≠ i' := by
    rintro rfl
    exact hno ((ha.pageOf_iff hi).mpr ⟨c, hc, (ha.slabs.inv.slabPage hc).sizeClass, howner⟩)
  rcases hz with hz | hz <;> rcases hz' with hz' | hz'
  · exact Arena.metaBytes_disjoint hne hz hz'
  · exact pageBytes_not_meta hlo' hz' (Arena.metaBytes_subset hi hz)
  · exact pageBytes_not_meta hlo hz (Arena.metaBytes_subset hi' hz')
  · exact pageBytes_disjoint hne hz hz'

/-- **Remote frees equal local frees.** -/
theorem reachable_remote_local {a : Arena} (hr : (system.restrict inBounds).Reachable s)
    (harena : s.heap.globalArena = some a) (hk : k < maxThreads) (hreg : s.heap.registry k = p)
    (hp : p ≠ 0) (hempty : (s.heap.caches p).remoteFrees = 0)
    {gs : List (List Block)} {fs : List Block} (hperm : gs.flatten.Perm fs) (hnd : fs.Nodup)
    (hfs : ∀ b ∈ fs, b ∈ s.live ∧ (∃ c, b.via = .slab c) ∧
      (readMeta s.heap.os.bytes (a.metaPtr (a.ptrToPageIndex b.ptr))).ownerId = k) :
    ∃ h₁ h₂, drainRemote (gs.foldl (fun h es => pushAll h k es) s.heap) p = .ok h₁ ∧
      freeAllLocal s.heap p fs = .ok h₂ ∧ SameFrees s.heap.os.bytes a k p h₁ h₂ := by
  obtain ⟨v, hg, ho⟩ := reachable_owned hr
  obtain ⟨hinit, rfl⟩ := hg.arena_eq harena
  have ha := hg.arena hinit
  obtain ⟨hmade, hid⟩ := hg.threads.registry k (by rw [hreg]; exact hp)
  rw [hreg] at hmade hid
  have hslots : ∀ b ∈ fs, b ∈ s.live ∧ v.SlotOf k b := by
    intro b hb
    obtain ⟨hlive, ⟨c, hvia⟩, howner⟩ := hfs b hb
    obtain ⟨i, j, hu, hptr, _⟩ := (hg.placed b hlive).slabBlock hvia
    rw [hptr, (ha.slab_inPage hu).index, (ha.slabs.inv.slabPage hu.1).ownerId] at howner
    exact ⟨hlive, i, c, j, hvia, hu, hptr, howner⟩
  -- over the stack
  have hgroups : gs.foldl (fun h es => pushAll h k es) s.heap = pushAll s.heap k gs.flatten := by
    unfold pushAll
    rw [List.foldl_flatten]
  obtain ⟨v', l', hw, hsame, hstack⟩ := pushAll_spec hk hp gs.flatten hg ho hinit hreg
    (hperm.nodup_iff.mpr hnd) fun b hb => hslots b (hperm.mem_iff.mp hb)
  obtain ⟨h₁, v₁, hrun₁, hd⟩ := drainRemote_drains (p := p) hw.good (hw.init.trans hinit)
    (hw.made ▸ hmade)
  obtain ⟨hw₁, hret₁⟩ := hd.returned hw.good hw.owned (hw.init.trans hinit)
  rw [hw.id p, hid] at hw₁
  have hw₁ := hw.trans hw₁
  -- and locally
  obtain ⟨h₂, v₂, l₂, hrun₂, hw₂, hret₂⟩ := freeAllLocal_spec (p := p) fs hg ho hinit hmade hnd
    fun b hb => hid.symm ▸ hslots b hb
  rw [hid] at hw₂
  -- the same slots come back
  have hstack₀ : v.stack p = [] := (ha.slabs.stack p).chain.eq_nil_iff.mpr hempty
  have harena' : v'.arena = v.arena := hw.arena
  have hS : v'.slotsAt (v'.stack p) = v.slotsAt (fs.map Block.ptr) := by
    ext ⟨i, j⟩
    rw [hstack, hstack₀, List.append_nil]
    simp only [View.slotsAt, Set.mem_ofPred_eq, hsame, harena', List.mem_reverse,
      (hperm.map Block.ptr).mem_iff]
  simp only [hS, hsame] at hret₁
  have ha₁ := hw₁.good.arena (hw₁.init.trans hinit)
  have ha₂ := hw₂.good.arena (hw₂.init.trans hinit)
  have hinv₁ : SlabInv v.arena h₁.os.bytes h₁.slabs v₁.g := hw₁.arena ▸ ha₁.slabs.inv
  have hinv₂ : SlabInv v.arena h₂.os.bytes h₂.slabs v₂.g := hw₂.arena ▸ ha₂.slabs.inv
  refine ⟨h₁, h₂, by rw [hgroups]; exact hrun₁, hrun₂, ⟨fun i _ hi hpage => ?_, fun i _ hi hpage => ?_,
    fun c x => hinv₁.same_lists hinv₂ hret₁ hret₂ (some p) c x, fun i hlo hi hno => ?_⟩⟩
  · obtain ⟨c, hc, _⟩ := (ha.pageOf_iff hi).mp hpage
    exact (hinv₁.same_slots hinv₂ hret₁ hret₂ hc).1
  · obtain ⟨c, hc, hcls, _⟩ := (ha.pageOf_iff hi).mp hpage
    rw [hcls]
    exact (hinv₁.same_slots hinv₂ hret₁ hret₂ hc).2
  · exact ⟨hw₁.bytes.mono fun z hz => ha.others_not_pagesOf hlo hi hno hz,
      hw₂.bytes.mono fun z hz => ha.others_not_pagesOf hlo hi hno hz⟩

/-- Two slots of one page, pushed one by one and put back in the opposite order. -/
theorem reachable_remote_local_pair : ∃ (s : State) (a : Arena) (b b' : Block) (p : Nat) (h₁ h₂ : Heap),
    b ∈ s.live ∧ b' ∈ s.live ∧ b ≠ b' ∧ s.heap.registry 0 = p ∧
    drainRemote ([[b], [b']].foldl (fun h es => pushAll h 0 es) s.heap) p = .ok h₁ ∧
    freeAllLocal s.heap p [b', b] = .ok h₂ ∧ SameFrees s.heap.os.bytes a 0 p h₁ h₂ := by
  obtain ⟨a, _, h, _, _, _, hr, harena, hregistry, hempty⟩ := exists_pair (C := inBounds) (n := 100) (c := 8)
    (fun _ _ _ _ _ => trivial) (fun _ => 0) (by decide) (by decide)
  obtain ⟨b, hb⟩ : ∃ b : Block, b = ⟨a.slotAddr firstPage 8 0, 100, .slab 8, slotSize 8⟩ := ⟨_, rfl⟩
  obtain ⟨b', hb'⟩ : ∃ b : Block, b = ⟨a.slotAddr firstPage 8 1, 100, .slab 8, slotSize 8⟩ := ⟨_, rfl⟩
  rw [← hb, ← hb'] at hr
  obtain ⟨v, hg⟩ := reachable_inBounds_good hr
  obtain ⟨hinit, rfl⟩ := hg.arena_eq harena
  have ha := hg.arena hinit
  have hfs : ∀ x ∈ [b', b], x ∈ [b', b] ∧ (∃ c, x.via = .slab c) ∧
      (readMeta h.os.bytes (v.arena.metaPtr (v.arena.ptrToPageIndex x.ptr))).ownerId = 0 := by
    intro x hx
    have hvia : x.via = .slab 8 := by
      rcases List.mem_pair.mp hx with rfl | rfl
      · rw [hb']
      · rw [hb]
    obtain ⟨i, j, hu, hptr, _⟩ := (hg.placed x hx).slabBlock hvia
    -- only identifier 0 is registered
    have hreg := (hg.threads.pages i 8 hu.1).2
    rw [show h.registry = _ from hregistry] at hreg
    have hzero : v.g.owner i = 0 := by
      by_contra hne
      exact hreg (Function.update_of_ne hne ..)
    refine ⟨hx, ⟨8, hvia⟩, ?_⟩
    rw [hptr, (ha.slab_inPage hu).index]
    exact (ha.slabs.inv.slabPage hu.1).ownerId.trans hzero
  have hreg : h.registry 0 = 4096 := by
    rw [hregistry]
    rfl
  obtain ⟨h₁, h₂, hrun₁, hrun₂, hsame⟩ := reachable_remote_local (s := ⟨h, [b', b]⟩) (k := 0) (p := 4096)
    hr harena (by decide) hreg (by decide) hempty (show List.Perm (List.flatten [[b], [b']]) [b', b] from .swap ..)
    hg.nodup hfs
  refine ⟨⟨h, [b', b]⟩, v.arena, b, b', 4096, h₁, h₂, .tail _ List.mem_cons_self, List.mem_cons_self, ?_, hreg, hrun₁,
    hrun₂, hsame⟩
  rintro rfl
  exact (List.nodup_cons.mp hg.nodup).1 List.mem_cons_self

end FerrumAlloc
