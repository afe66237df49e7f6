/-
# FerrumAlloc.Api.Discipline -- pages change in calls of their owner only

The fast paths of `ferrum_malloc` and `ferrum_free` take no lock: they are sound because a page belongs to
one cache, and a cache to one thread. This file says what that means for the memory. Every page with a free
slot stands on one list, of the slab of its owner (`ListedByOwner`), and the record and the free list of a
page change in calls of the owner only (`Respects`).

Both hold as long as no identifier is taken again and no slot is freed by a thread that has no cache
(`reachable_disciplined`). Such a free goes to the global slab, which puts the page on its own list and
writes into the record under a lock that the owner does not take (`not_respects_alone`).
-/
import FerrumAlloc.Api.Threads
import FerrumAlloc.Api.Returned

namespace FerrumAlloc

open Lib

variable {h : Heap} {v : View} {l : List Block} {b : Block} {t p i j k o q : Nat} {D : Prop}
  {E : View → Nat → Prop} {c c' : Conf} {m m' : Mem} {x x' : History} {e : Event}

/-! ## The lists -/

/-- The condition that no page and view meets. -/
def Nowhere (_ : View) (_ : Nat) : Prop := False

/-- **A page with a free slot stands on the list of its owner and class**, a full page on none. -/
theorem Good.listed_iff (hg : Good h v l) (hinit : h.arenaInit = true) (ho : Owned h v)
    (hr : Registered h v) (hh : Homed v) (hc : v.g.cls i = some k) (q : Option Nat) (n : Nat) :
    OnChain (nextOf h.os.bytes) 0 ((h.slabs q).partialPages n) (v.arena.metaPtr i) ↔
      q = some (h.registry (v.g.owner i)) ∧ n = k ∧ v.g.free i ≠ [] := by
  have ha := hg.arena hinit
  -- the owner's entry is the cache that lists the page
  have howner : ∀ p, v.g.free i ≠ [] → v.g.home i = some p → h.registry (v.g.owner i) = p := by
    intro p hf hp
    obtain ⟨hmade, hid⟩ := ho.listed i k p hc hf hp
    rw [hid]
    exact hr p hmade
  refine (ha.slabs.inv.lists.list (q, n)).chain.onChain_iff.trans ((ha.slabs.inv.mem q n _).trans ?_)
  constructor
  · rintro ⟨i', hptr, hc', hf, hhome⟩
    obtain rfl := Arena.metaPtr_inj hptr
    obtain ⟨p, hp⟩ := Option.ne_none_iff_exists'.mp (hh i k hc hf)
    refine ⟨?_, Option.some.inj (hc'.symm.trans hc), hf⟩
    rw [howner p hf hp, ← hhome, hp]
  · rintro ⟨rfl, rfl, hf⟩
    obtain ⟨p, hp⟩ := Option.ne_none_iff_exists'.mp (hh i n hc hf)
    refine ⟨i, rfl, hc, hf, ?_⟩
    rw [howner p hf hp, hp]

/-- **The pages with free slots are linked in the list of their owner and class, and in no other**; `q`
stands for the global slab or for a cache. -/
def ListedByOwner (h : Heap) : Prop :=
  ∀ a i, h.globalArena = some a → h.isSlab i = true → ∀ (q : Option Nat) (n : Nat),
    OnChain (nextOf h.os.bytes) 0 ((h.slabs q).partialPages n) (a.metaPtr i) ↔
      q = some (h.registry (readMeta h.os.bytes (a.metaPtr i)).ownerId) ∧
      n = (readMeta h.os.bytes (a.metaPtr i)).sizeClass ∧
      (readMeta h.os.bytes (a.metaPtr i)).freeListHead ≠ nullSlot

/-! ## What other threads leave alone -/

/-- The record of page `i`, and the links of its free slots. -/
def pageOwn (a : Arena) (g : Ghost (Option Nat)) (i k : Nat) : Set Nat :=
  metaBytes (a.metaPtr i) ∪ {z | ∃ j ∈ g.free i, z ∈ linkSpan a i k j}

theorem ArenaSide.pageOwn_subset (ha : ArenaSide h v) (hc : v.g.cls i = some k) :
    pageOwn v.arena v.g i k ⊆ slabOwn v.arena v.g := by
  rintro z (hz | ⟨j, hj, hz⟩)
  · exact .inl (Arena.metaBytes_subset (ha.slabs.inv.index_lt hc) hz)
  · exact .inr ⟨i, k, j, hc, hj, hz⟩

/-- The pages of other identifiers. -/
theorem ArenaSide.pageOwn_not_pagesOf (ha : ArenaSide h v) (hc : v.g.cls i = some k)
    (hne : v.g.owner i ≠ o) {z : Nat} (hz : z ∈ pageOwn v.arena v.g i k) : z ∉ v.pagesOf o := by
  have hsp := ha.slabs.inv.slabPage hc
  have hi := ha.slabs.inv.index_lt hc
  apply ha.others_not_pagesOf (ha.slabs.inv.range i k hc).1 hi
  · intro hpage
    obtain ⟨_, _, _, howner⟩ := (ha.pageOf_iff hi).mp hpage
    exact hne howner
  · rcases hz with hz | ⟨j, hj, hz⟩
    · exact .inl hz
    · exact .inr (linkSpan_in_page hsp.cls_lt (hsp.lt j hj) hz)

/-- **Page `i` is as it was** in view and memory, before `g` and `m`. -/
structure PageKept (a : Arena) (g : Ghost (Option Nat)) (m : Mem) (i k : Nat) (c : Conf) : Prop where
  arena : c.view.arena = a
  cls : c.view.g.cls i = some k
  owner : c.view.g.owner i = g.owner i
  free : c.view.g.free i = g.free i
  record : readMeta c.heap.os.bytes (a.metaPtr i) = readMeta m (a.metaPtr i)
  links : ∀ j ∈ g.free i, slotLink a c.heap.os.bytes i k j = slotLink a m i k j

/-- Only the bytes of the page count. -/
theorem PageKept.step {a : Arena} {g : Ghost (Option Nat)} (hu : PageKept a g m i k c)
    (harena : c'.view.arena = c.view.arena) (hcls : c'.view.g.cls i = c.view.g.cls i)
    (howner : c'.view.g.owner i = c.view.g.owner i) (hfree : c'.view.g.free i = c.view.g.free i)
    (hm : Set.EqOn c'.heap.os.bytes c.heap.os.bytes (pageOwn c.view.arena c.view.g i k)) :
    PageKept a g m i k c' := by
  unfold pageOwn at hm
  rw [hu.arena, hu.free] at hm
  refine ⟨harena.trans hu.arena, hcls.trans hu.cls, howner.trans hu.owner, hfree.trans hu.free, ?_, ?_⟩
  · exact (readMeta_eqOn (hm.mono Set.subset_union_left)).trans hu.record
  · intro j hj
    refine (slotLink_eqOn (hm.mono fun z hz => .inr ⟨j, hj, hz⟩)).trans (hu.links j hj)

/-- The bytes an allocation writes: records of the cache's pages, or a new page. -/
theorem Owned.alloc_not_pageOwn (ho : Owned h v) (ha : ArenaSide h v) (hc : v.g.cls i = some k)
    (hne : v.g.owner i ≠ (h.caches p).id) {n z : Nat}
    (hroom : v.arena.nextFreePage h.os.bytes < pagesPerArena ∨ v.g.parts (some p, n) ≠ [])
    (hz : z ∈ pageOwn v.arena v.g i k) :
    z ∉ allocBytes v.arena v.g (v.arena.nextFreePage h.os.bytes) (some p) n := by
  have hsp := ha.slabs.inv.slabPage hc
  obtain ⟨hlo, hlt⟩ := ha.slabs.inv.range i k hc
  unfold allocBytes
  by_cases hnil : v.g.parts (some p, n) = []
  · rw [if_pos hnil]
    -- a page that is issued now is not page `i`
    have hnext : i ≠ v.arena.nextFreePage h.os.bytes := Nat.ne_of_lt hlt
    have hge := ha.slabs.inv.next_ge
    have hroom' := hroom.resolve_right (not_not_intro hnil)
    rcases hz with hz | ⟨j, hj, hz⟩
    · rintro ((hz' | hz') | hz')
      · exact Arena.metaBytes_subset_compl hz hz'
      · exact pageBytes_not_meta hge hz' (Arena.metaBytes_subset (ha.slabs.inv.index_lt hc) hz)
      · exact Arena.metaBytes_disjoint hnext hz hz'
    · have hpage := linkSpan_in_page hsp.cls_lt (hsp.lt j hj) hz
      rintro ((hz' | hz') | hz')
      · exact pageBytes_not_meta hlo hpage (Arena.arenaMetaBytes_subset hz')
      · exact pageBytes_disjoint hnext hpage hz'
      · exact pageBytes_not_meta hlo hpage (Arena.metaBytes_subset hroom' hz')
  · rw [if_neg hnil]
    rintro ⟨y, hy, hz'⟩
    obtain ⟨i', rfl, hc', hf, hhome⟩ := (ha.slabs.inv.mem (some p) n y).mp hy
    exact ha.pageOwn_not_pagesOf hc hne hz ⟨i', n, hc', (ho.listed i' n p hc' hf hhome).2, .inl hz'⟩

/-- What a served slot changes in the view: not page `i`, if the cache is not its owner. -/
theorem Owned.served_same (ho : Owned h v) (ha : ArenaSide h v) (hc : v.g.cls i = some k)
    (hne : v.g.owner i ≠ (h.caches p).id) {n i' : Nat} {s : SlabAllocator} {g : Ghost (Option Nat)}
    (hs : Serves h v p n i' j s m g) :
    g.cls i = v.g.cls i ∧ g.owner i = v.g.owner i ∧ g.free i = v.g.free i := by
  have hserved := hs.served
  cases hserved with
  | listed hci hfree hl =>
    have hmem : v.arena.metaPtr i' ∈ v.g.parts (some p, n) := by
      rw [hl]
      exact .head _
    obtain ⟨i₂, hptr, hc₂, hf₂, hhome⟩ := (ha.slabs.inv.mem (some p) n _).mp hmem
    obtain rfl := Arena.metaPtr_inj hptr
    have hii : i ≠ i' := by
      rintro rfl
      exact hne (ho.listed i n p hc₂ hf₂ hhome).2
    exact ⟨rfl, rfl, Function.update_of_ne hii ..⟩
  | fresh hl hlt =>
    have hii : i ≠ v.arena.nextFreePage h.os.bytes := Nat.ne_of_lt (ha.slabs.inv.range i k hc).2
    refine ⟨Function.update_of_ne hii .., Function.update_of_ne hii .., ?_⟩
    exact (Function.update_of_ne hii ..).trans (Function.update_of_ne hii ..)

/-- The same for a slot that is put back. -/
theorem Owned.put_pageKept {a : Arena} {g : Ghost (Option Nat)} {n i' : Nat} {s : SlabAllocator}
    (ho : Owned h v) (ha : ArenaSide h v) (hp : Puts h v (some p) n i' j s m)
    (hown : v.g.owner i' = (h.caches p).id) (hne : v.g.owner i ≠ (h.caches p).id)
    (hu : PageKept a g m' i k ⟨h, v, l⟩) (hh : c'.heap.os.bytes = m) (hv : c'.view.arena = v.arena)
    (hg : c'.view.g = v.g.put v.arena (some p) n i' j) : PageKept a g m' i k c' := by
  have hii : i ≠ i' := by
    rintro rfl
    exact hne hown
  refine hu.step hv ?_ ?_ ?_ ?_
  · rw [hg]
    rfl
  · rw [hg]
    rfl
  · rw [hg]
    exact Function.update_of_ne hii ..
  · rw [hh]
    refine fun z hz => hp.bytes fun hz' => ?_
    exact ha.pageOwn_not_pagesOf hu.cls hne hz (ho.freeBytes_subset ha hp.used hown hz')

/-- **Step lemma.** Page `i` is untouched as long as a cache of the thread has another identifier. -/
theorem Act.pageKept_of_id {a : Arena} {g : Ghost (Option Nat)} (ha : Act t D Nowhere c c')
    (hg : Good c.heap c.view c.live) (ho : Owned c.heap c.view) (hu : PageKept a g m i k c)
    (hid : ∀ p ∈ c.view.made, c.heap.tls t = p → c.view.g.owner i ≠ (c.heap.caches p).id) :
    PageKept a g m i k c' := by
  have hown : ∀ {m'}, Set.EqOn m' c.heap.os.bytes (slabOwn c.view.arena c.view.g) →
      c.heap.arenaInit = true → Set.EqOn m' c.heap.os.bytes (pageOwn c.view.arena c.view.g i k) :=
    fun hm hinit => hm.mono ((hg.arena hinit).pageOwn_subset hu.cls)
  cases ha with
  | setup hs => exact absurd (((hg.booting hs.init).cls i).symm.trans hu.cls) (Option.some_ne_none k).symm
  | create hc hdup =>
    refine hu.step rfl rfl rfl rfl (hown (fun z hz => hc.bytes fun hz' => ?_) hc.init)
    exact hg.fresh_not_own (r := ⟨_, 4096⟩) hc.init hc.grant hz' (.inl (.inl hz))
  | pop hp htls htop =>
    rename_i h v l p k' i' j s m₁
    have hside := hg.arena hp.init
    have hrole := (hside.slabs.stack p).head_role (by rw [htop]; exact hside.slotAddr_ne i' k' j)
    rw [htop] at hrole
    exact ho.put_pageKept hside hp (ho.stacked i' k' j p hp.used hrole).2 (hid p (hp.cache p rfl) htls)
      hu rfl rfl rfl
  | serve hs htls hn =>
    have hside := hg.arena hs.init
    have hne' := hid _ hs.cache htls
    obtain ⟨hcls, howner, hfree⟩ := ho.served_same hside hu.cls hne' hs
    refine hu.step rfl hcls howner hfree fun z hz => hs.bytes fun hz' => ?_
    exact ho.alloc_not_pageOwn hside hu.cls hne' hs.room hz hz'
  | put hp hb hvia hptr hk hlone =>
    rename_i h v l q k' i' j s m₁ b
    cases q with
    | none => exact (hlone rfl).elim
    | some p =>
      obtain ⟨htls, hown'⟩ := hk p rfl
      exact ho.put_pageKept (hg.arena hp.init) hp hown' (hid p (hp.cache p rfl) htls) hu rfl rfl rfl
  | push hinit hu' hb hvia hptr =>
    rename_i h v l k' i' j b
    have hside := hg.arena hinit
    refine hu.step rfl rfl rfl rfl (hown (fun z hz => write64_eqOn _ _ _ fun hz' => ?_) hinit)
    have hslot := SlabSide.node_subset_slot (hside.slabs.inv.used_lt hu') hptr hz'.1 hz'.2
    exact hside.slabs.inv.used_not_own hu' hslot hz
  | carve hinit hn hal =>
    have hside := hg.arena hinit
    have hpool := hside.pool_frame hal.frame fun z hz =>
      hside.pool.zone_both (hside.carved hal) hal.start_eq hz
    exact hu.step rfl rfl rfl rfl (hown (hpool.mono Set.subset_union_left) hinit)
  | release hinit hb hvia hr =>
    have hside := hg.arena hinit
    have hpool := hside.pool_frame hr.frame fun z hz =>
      hside.pool.zone_both (hside.released hr) hr.start_eq hz
    exact hu.step rfl rfl rfl rfl (hown (hpool.mono Set.subset_union_left) hinit)
  | issue hi =>
    rename_i h v l n m₁
    have hinv := (hg.arena hi.init).slabs.inv
    have hcls : v.g.cls i = some k := hu.cls
    have hsp := hinv.slabPage hcls
    obtain ⟨hlo, hlt⟩ := hinv.range i k hcls
    refine ⟨hu.arena, hu.cls, hu.owner, hu.free, ?_, fun j hj => ?_⟩
    · rw [← hu.record, ← hu.arena]
      rcases v.arena.alloc_spec h.os.bytes n with ⟨hnull, _⟩ | ⟨m₂, _, _, hrun, _, hrec, _⟩
      · obtain ⟨rfl, _⟩ := Prod.mk.inj (hnull.symm.trans hi.run)
        rfl
      · obtain ⟨rfl, _⟩ := Prod.mk.inj (hrun.symm.trans hi.run)
        refine (hrec i (hinv.index_lt hcls)).trans (if_neg ?_)
        exact fun hnew => absurd hlt (Nat.not_lt_of_le hnew.1)
    · rw [← hu.links j hj, ← hu.arena]
      have hj' : j ∈ v.g.free i := by
        rw [hu.free]
        exact hj
      exact slotLink_of_metaWrite hi.bytes hlo hsp.cls_lt (hsp.lt j hj')
  | map hm =>
    rename_i h v l n base os
    by_cases hinit : h.arenaInit = true
    · refine hu.step rfl rfl rfl rfl (hown (fun z hz => hm.bytes fun hz' => ?_) hinit)
      exact hg.fresh_not_own (r := ⟨base, hugeTotal n⟩) hinit hm.grant hz' (.inl (.inl hz))
    · have hnone := (hg.booting (Bool.not_eq_true _ ▸ hinit)).cls i
      exact absurd (hnone.symm.trans hu.cls) (Option.some_ne_none k).symm
  | attempt | unmap | leak => exact hu.step rfl rfl rfl rfl (Set.eqOn_refl _ _)

/-- Page `i` is untouched as long as its owner is not the cache of the thread. -/
theorem Act.pageKept {a : Arena} {g : Ghost (Option Nat)} (ha : Act t False Nowhere c c')
    (hg : Good c.heap c.view c.live) (ho : Owned c.heap c.view) (hreg : Registered c.heap c.view)
    (hu : PageKept a g m i k c) (hne : c.heap.tls t = 0 ∨ c.heap.tls t ≠ c.heap.registry (g.owner i)) :
    PageKept a g m i k c' := by
  refine ha.pageKept_of_id hg ho hu fun p hp htls heq => ?_
  rcases hne with h0 | hne
  · exact (hg.threads.id p hp).1 (htls.symm.trans h0)
  · apply hne
    rw [← hu.owner, heq, hreg p hp, htls]

/-- Clients write into their blocks, and no page relies on these. -/
theorem Store.pageKept {a : Arena} {g : Ghost (Option Nat)} (hs : Store b c c')
    (hg : Good c.heap c.view c.live) (hu : PageKept a g m i k c) : PageKept a g m i k c' := by
  cases hs with
  | mk hb hm =>
    rename_i h v l m₁
    have hinit : h.arenaInit = true := by
      by_contra hno
      have hnone := (hg.booting (Bool.not_eq_true _ ▸ hno)).cls i
      exact Option.some_ne_none k (hu.cls.symm.trans hnone)
    have ha := hg.arena hinit
    refine hu.step rfl rfl rfl rfl fun z hz => hm fun hz' => ?_
    exact (hg.placed b hb).not_own ha hg.maps hz' (.inl (.inl (ha.pageOwn_subset hu.cls hz)))

/-- A thread stays the owner. -/
theorem Act.owner_stays (ha : Act t False E c c') (hg : Good c.heap c.view c.live)
    (hown : c.heap.tls t ≠ 0 ∧ c.heap.tls t = c.heap.registry o) :
    c'.heap.tls t ≠ 0 ∧ c'.heap.tls t = c'.heap.registry o := by
  cases ha with
  | setup hs =>
    have hmade := hg.threads.tls t hown.1
    rw [(hg.booting hs.init).made] at hmade
    nomatch hmade
  | create hc hdup => exact absurd hc.none hown.1
  | put hp hb hvia hptr hk hlone =>
    rw [(setSlab_threads _ _ _ _).1, (setSlab_threads _ _ _ _).2]
    exact hown
  | _ => exact hown

/-- **Run lemma.** A call changes the pages of its thread's cache only. -/
theorem Path.pageKept (hp : Path t False Nowhere c c') (hg : Good c.heap c.view c.live)
    (ho : Owned c.heap c.view) (hr : Registered c.heap c.view) (hc : c.view.g.cls i = some k) :
    (c'.heap.tls t ≠ 0 ∧ c'.heap.tls t = c'.heap.registry (c.view.g.owner i)) ∨
      PageKept c.view.arena c.view.g c.heap.os.bytes i k c' := by
  refine (hp.invariant (I := fun c' => Owned c'.heap c'.view ∧ Registered c'.heap c'.view ∧
    ((c'.heap.tls t ≠ 0 ∧ c'.heap.tls t = c'.heap.registry (c.view.g.owner i)) ∨
      PageKept c.view.arena c.view.g c.heap.os.bytes i k c')) ?_ ?_ hg
    ⟨ho, hr, .inr ⟨rfl, hc, rfl, rfl, rfl, fun _ _ => rfl⟩⟩).2.2
  · rintro c₁ c₂ hg₁ ⟨ho₁, hr₁, hI⟩ ha
    refine ⟨ha.owned hg₁ ho₁, ha.registered hg₁ hr₁, ?_⟩
    rcases hI with hown | hu
    · exact .inl (ha.owner_stays hg₁ hown)
    · by_cases hown : c₁.heap.tls t ≠ 0 ∧ c₁.heap.tls t = c₁.heap.registry (c.view.g.owner i)
      · exact .inl (ha.owner_stays hg₁ hown)
      · refine .inr (ha.pageKept hg₁ ho₁ hr₁ hu ?_)
        by_cases h0 : c₁.heap.tls t = 0
        · exact .inl h0
        · exact .inr fun heq => hown ⟨h0, heq⟩
  · rintro c₁ c₂ b hg₁ ⟨ho₁, hr₁, hI⟩ hs
    refine ⟨hs.owned ho₁, ?_, ?_⟩
    · cases hs
      exact hr₁
    · rcases hI with hown | hu
      · cases hs
        exact .inl hown
      · exact .inr (hs.pageKept hg₁ hu)

/-! ## Discipline -/

/-- The record of page `i` and its free list are as before. -/
structure SamePage (a : Arena) (i : Nat) (m m' : Mem) : Prop where
  record : readMeta m' (a.metaPtr i) = readMeta m (a.metaPtr i)
  links : ∀ j, OnChain (slotLink a m i (readMeta m (a.metaPtr i)).sizeClass) nullSlot
    (readMeta m (a.metaPtr i)).freeListHead j →
    slotLink a m' i (readMeta m (a.metaPtr i)).sizeClass j =
      slotLink a m i (readMeta m (a.metaPtr i)).sizeClass j

/-- The step is a call of the thread whose cache is the one registered for `k`. -/
def OwnerCall (h' : Heap) (k : Nat) : Event → Prop
  | .call t _ _ => h'.tls t ≠ 0 ∧ h'.tls t = h'.registry k
  | .write _ _ => False

/-- **The step respects the owners**: a slab page was one before and is unchanged, or the step is a call of
its owner. -/
def Respects (x : History) (e : Event) (x' : History) : Prop :=
  ∀ a i, x'.state.heap.globalArena = some a → x'.state.heap.isSlab i = true →
    (x.state.heap.isSlab i = true ∧ SamePage a i x.state.heap.os.bytes x'.state.heap.os.bytes) ∨
    OwnerCall x'.state.heap (readMeta x'.state.heap.os.bytes (a.metaPtr i)).ownerId e

/-- No call takes an identifier again, and no slot is freed by a thread without a cache. -/
def ownCalls (x : History) : Event → Prop :=
  onCalls (fun s t c ans => ¬ c.TakesAgain s.heap t ans ∧ ¬ c.FreesAlone s.heap t ans) x.state

/-- An untouched page, by its record. -/
theorem Good.samePage (hg : Good h v l) (hinit : h.arenaInit = true) (hc : v.g.cls i = some k)
    (hu : PageKept v.arena v.g h.os.bytes i k c) : SamePage v.arena i h.os.bytes c.heap.os.bytes := by
  have hsp := (hg.arena hinit).slabs.inv.slabPage hc
  refine ⟨hu.record, fun j hj => ?_⟩
  rw [hsp.sizeClass] at hj ⊢
  exact hu.links j (hsp.chain.onChain_iff.mp hj)

namespace Tracked

/-- The owner of a page, in the registry. -/
theorem registry_owner (hx : Tracked x v) (hc : v.g.cls i = some k) :
    x.state.heap.registry (v.g.owner i) = v.maker i := by
  obtain ⟨hmade, howner⟩ := hx.owned.maker i k hc
  rw [howner]
  exact hx.registered _ hmade

theorem listedByOwner (hx : Tracked x v) (hh : Homed v) : ListedByOwner x.state.heap := by
  intro a i harena hslab q n
  have hg := hx.good
  obtain ⟨k, hc⟩ := (hg.isSlab_iff i).mp hslab
  obtain ⟨hinit, rfl⟩ := hg.arena_eq harena
  have hsp := (hg.arena hinit).slabs.inv.slabPage hc
  have hfree : v.g.free i ≠ [] ↔ (readMeta x.state.heap.os.bytes (v.arena.metaPtr i)).freeListHead ≠ nullSlot :=
    not_congr hsp.chain.eq_nil_iff
  rw [hg.listed_iff hinit hx.owned hx.registered hh hc q n, hsp.ownerId, hsp.sizeClass, hfree]

/-- A path of acts respects the owners. -/
theorem respects {s' : State} {v' : View} {ans : Nat → Answers} {r : Call} (hx : Tracked x v)
    (hp : Path t False Nowhere ⟨x.state.heap, v, x.state.live⟩ ⟨s'.heap, v', s'.live⟩)
    (hx' : Tracked x' v') (hs' : x'.state = s') : Respects x (.call t r ans) x' := by
  subst hs'
  intro a i harena hslab
  have hg := hx.good
  have hg' := hx'.good
  obtain ⟨k', hc'⟩ := (hg'.isSlab_iff i).mp hslab
  obtain ⟨hinit', rfl⟩ := hg'.arena_eq harena
  rw [((hg'.arena hinit').slabs.inv.slabPage hc').ownerId]
  have hrec := hp.records hg
  cases hc : v.g.cls i with
  | none =>
    -- a page that has become one in this call
    obtain ⟨hmaker, hne⟩ := hrec.new i k' hc' hc
    refine .inr ⟨hne, ?_⟩
    rw [hx'.registry_owner hc']
    exact hmaker.symm
  | some k =>
    have hslab' : x.state.heap.isSlab i = true := (hg.isSlab_iff i).mpr ⟨k, hc⟩
    rcases hp.pageKept hg hx.owned hx.registered hc with ⟨hne, heq⟩ | hu
    · refine .inr ⟨hne, ?_⟩
      have hkeep := hp.registry_eq hg (hg.threads.pages i k hc).2
      have hold : v'.maker i = v.maker i := (hrec.old i k hc).2
      rw [hx'.registry_owner hc', hold, ← hx.registry_owner hc]
      exact heq.trans hkeep
    · have hinit : x.state.heap.arenaInit = true := by
        by_contra hno
        have hnone := (hg.booting (Bool.not_eq_true _ ▸ hno)).cls i
        nomatch hc.symm.trans hnone
      have harena' : v'.arena = v.arena := hu.arena
      refine .inl ⟨hslab', ?_⟩
      rw [harena']
      exact hg.samePage hinit hc hu

/-- **Step lemma.** -/
theorem disciplined (hx : Tracked x v) (hh : Homed v) (hs : ThreadStep x e x') (he : ownCalls x e) :
    ∃ v', Tracked x' v' ∧ Homed v' ∧ Respects x e x' := by
  cases hs with
  | call hq hs =>
    obtain ⟨v', hp⟩ := hx.call (D := False) (E := Nowhere) hq hs he.1
      fun b hfree hless k hvia i j hu hptr => he.2 ⟨b, k, hfree, hvia, hless⟩
    have hx' := hx.path hp
    refine ⟨v', hx', ?_, hx.respects hp hx' rfl⟩
    refine hp.invariant (I := fun c => Homed c.view) (fun _ _ _ hh ha => ha.homed (fun _ _ hno => hno.elim) hh)
      (fun _ _ _ _ hh hs => ?_) hx.good hh
    cases hs
    exact hh
  | write hs =>
    cases hs with
    | write hb hm =>
      rename_i b m
      have hx' : Tracked ⟨⟨x.state.heap.setBytes m, x.state.live⟩, x.maker⟩ v :=
        ⟨hx.good.store hb hm, hx.owned.of_ids (fun _ => rfl) rfl, hx.registered, hx.maker⟩
      refine ⟨v, hx', hh, fun a i harena hslab => .inl ?_⟩
      have hg := hx.good
      obtain ⟨k, hc⟩ := (hx'.good.isSlab_iff i).mp hslab
      obtain ⟨hinit, rfl⟩ := hg.arena_eq harena
      refine ⟨(hg.isSlab_iff i).mpr ⟨k, hc⟩, ?_⟩
      have hstore : Store b ⟨x.state.heap, v, x.state.live⟩ ⟨x.state.heap.setBytes m, v, x.state.live⟩ :=
        .mk hb hm
      exact hg.samePage hinit hc (hstore.pageKept hg ⟨rfl, hc, rfl, rfl, rfl, fun _ _ => rfl⟩)

end Tracked

/-- **Discipline**: as long as no identifier is taken again and no thread without a cache frees a slot,
every page with a free slot is linked in the list of its owner and in no other, and its record and its free
list change in calls of its owner only. -/
theorem reachable_disciplined (hr : (threadSystem.restrict ownCalls).Reachable x) :
    ListedByOwner x.state.heap ∧
      ∀ e x', (threadSystem.restrict ownCalls).step x e x' → Respects x e x' := by
  have hI : ∃ v, Tracked x v ∧ Homed v := by
    refine hr.invariant (I := fun x => ∃ v, Tracked x v ∧ Homed v) ?_ ?_
    · rintro x ⟨bytes, rfl⟩
      exact ⟨.start, .boot bytes, nofun⟩
    · rintro x e x' _ ⟨v, hx, hh⟩ ⟨hs, he⟩
      obtain ⟨v', hx', hh', _⟩ := hx.disciplined hh hs he
      exact ⟨v', hx', hh'⟩
  obtain ⟨v, hx, hh⟩ := hI
  refine ⟨hx.listedByOwner hh, fun e x' hs => ?_⟩
  obtain ⟨_, _, _, hresp⟩ := hx.disciplined hh hs.1 hs.2
  exact hresp

/-! ## A thread without a cache -/

/-- A free, once the arena is there, is a step. -/
theorem Good.free_step {s : State} {h₁ : Heap} {v₁ : View} {r : Option Nat} (hg : Good s.heap v s.live)
    (hinit : s.heap.arenaInit = true) (hb : b ∈ s.live) (ans : Nat → Answers)
    (hget : getOrCreate s.heap t (ans 0).cache = (h₁, r)) (hg₁ : Good h₁ v₁ s.live)
    (hinit₁ : h₁.arenaInit = true) (hcache : ∀ p, r = some p → p ≠ 0 ∧ h₁.tls t = p) :
    ∃ h' v', Freed h₁ v₁ b r h' v' ∧ Step s (.call t (.free (some b)) ans) ⟨h', s.live.erase b⟩ := by
  obtain ⟨h', v', hrun, hfreed⟩ := freeBlock_spec hg₁ hinit₁ hb r hcache
  refine ⟨h', v', hfreed, ?_⟩
  have hcall : (Call.free (some b)).run s.heap t ans = .ok (h', 0, .null) := by
    have hfree : ferrumFree s.heap t b.ptr (ans 0) = .ok h' :=
      (ferrumFree_eq hinit (hg.ptr_ne hb) hget).trans hrun
    show (do let h ← ferrumFree s.heap t b.ptr (ans 0); return (h, 0, Backend.null)) = _
    rw [hfree]
    rfl
  exact .call (fun b' hb' => Option.some.inj hb' ▸ hb) hcall

/-- A first request is disciplined. -/
theorem reachable_disciplined_first :
    ∃ x : History, (∃ i, x.state.heap.isSlab i = true) ∧ ListedByOwner x.state.heap := by
  obtain ⟨a, tlsf, m, m', slab, m'', _, _, hr, hg⟩ := exists_first (n := 100) (c := 8)
    (C := fun s e => onCalls (fun _ _ c _ => c.Simple) s e ∧
      onCalls (fun s t c ans => ¬ c.TakesAgain s.heap t ans ∧ ¬ c.FreesAlone s.heap t ans) s e)
    (fun s t n ans _ hreg => ⟨trivial, fun htakes => htakes.2.2.2 (hreg _), nofun⟩) (fun _ => 0) 1
    (A := 4096) (p := 4194304) (by decide) (by decide) (by decide) (by decide)
  obtain ⟨maker, hx⟩ := exists_history hr
  obtain ⟨i, j, hu, _⟩ := (hg.placed _ (.head _)).slabBlock rfl
  exact ⟨_, ⟨i, (hg.isSlab_iff i).mpr ⟨8, hu.1⟩⟩, (reachable_disciplined hx).1⟩

/-- **A free without a cache.** Thread 1 has a slot; thread 2, which gets no page for a cache, frees it, and
the record of thread 1's page changes. -/
theorem not_respects_alone : ∃ (x : History) (e : Event) (x' : History),
    (threadSystem.restrict freshIds).Reachable x ∧ (threadSystem.restrict freshIds).step x e x' ∧
      ¬ Respects x e x' := by
  obtain ⟨a, tlsf, m, m', slab, m'', _, _, hr, hg⟩ := exists_first (n := 100) (c := 8)
    (C := fun s e => onCalls (fun _ _ c _ => c.Simple) s e ∧
      onCalls (fun s t c ans => ¬ c.TakesAgain s.heap t ans) s e)
    (fun s t n ans _ hreg => ⟨trivial, fun htakes => htakes.2.2.2 (hreg _)⟩) (fun _ => 0) 1 (A := 4096)
    (p := 4194304) (by decide) (by decide) (by decide) (by decide)
  obtain ⟨h₁, hh₁⟩ : ∃ h, h = (((Heap.boot fun _ => 0).setup a tlsf m).create 1 4194304 m').setSlab
    (some 4194304) slab m'' := ⟨_, rfl⟩
  rw [← hh₁] at hr hg
  obtain ⟨b, hbdef⟩ : ∃ b : Block, b = ⟨a.slotAddr firstPage 8 0, 100, .slab 8, slotSize 8⟩ := ⟨_, rfl⟩
  obtain ⟨v, hv⟩ : ∃ v, v = (View.fresh a tlsf).first ((Heap.boot fun _ => 0).setup a tlsf m) 4194304 8 :=
    ⟨_, rfl⟩
  rw [← hbdef] at hr hg
  rw [← hv] at hg
  have hvia : b.via = .slab 8 := by rw [hbdef]
  have hinit : h₁.arenaInit = true := by
    rw [hh₁]
    rfl
  have hnone : h₁.tls 2 = 0 := by
    rw [hh₁]
    rfl
  have hless : Cacheless h₁ 2 none := by
    refine ⟨hnone, ?_⟩
    rintro ⟨_, p, hp, _⟩
    nomatch hp
  have hget : getOrCreate h₁ 2 none = (h₁.attempt, none) := by
    rcases getOrCreate_spec hinit (hg.arena hinit).ready 2 none with ⟨hne, _⟩ | ⟨_, hrun⟩ | ⟨p, m, hp, _⟩
    · exact absurd hnone hne
    · exact hrun
    · nomatch hp
  have hg₁ := (hg.attempt hinit).good
  obtain ⟨maker, hx⟩ := exists_history hr
  obtain ⟨h', v', hfreed, hstep⟩ := Good.free_step (s := ⟨h₁, [b]⟩) hg hinit (.head _)
    (fun _ => ⟨none, none, none⟩) hget hg₁ hinit nofun
  have hsimple : (Call.free (some b)).Simple := trivial
  have hact : Act 2 True Anywhere ⟨h₁.attempt, v, [b]⟩ ⟨h', v', [b].erase b⟩ :=
    hfreed.act (.head _) nofun fun _ _ _ _ _ _ _ => trivial
  have hg' : Good h' v' ([b].erase b) := (hact.kept hg₁).good
  refine ⟨⟨⟨h₁, [b]⟩, maker⟩, _, _, hx, ⟨.call (x := ⟨⟨h₁, [b]⟩, maker⟩) hsimple hstep,
    fun htakes => hless.2 htakes.2.2.1⟩, fun hresp => ?_⟩
  cases hfreed with
  | put hvia' hptr hp hown =>
    rename_i c i j s m₃
    have hinit' : ((h₁.attempt).setSlab none s m₃).arenaInit = true := hinit
    have ha := hg₁.arena hinit
    have ha' := hg'.arena hinit'
    have hsp := ha.slabs.inv.slabPage hp.used.1
    have hsp' := ha'.slabs.inv.slabPage (i := i) (c := c) hp.used.1
    rcases hresp _ i ha'.arena ((hg'.isSlab_iff i).mpr ⟨c, hp.used.1⟩) with ⟨_, hsame⟩ | ⟨hne, _⟩
    · -- the page has one more free slot, and the same record
      have hu : (readMeta h₁.os.bytes (v.arena.metaPtr i)).usedSlots + (v.g.free i).length = slots c := hsp.used
      have hu' : (readMeta m₃ (v.arena.metaPtr i)).usedSlots + ((v.put none c i j).g.free i).length =
        slots c := hsp'.used
      have hrec : (readMeta m₃ (v.arena.metaPtr i)).usedSlots =
        (readMeta h₁.os.bytes (v.arena.metaPtr i)).usedSlots := congrArg PageMeta.usedSlots hsame.record
      have hfree : (v.put none c i j).g.free i = j :: v.g.free i := Function.update_self ..
      rw [hfree, List.length_cons] at hu'
      omega
    · exact hne hnone
  | push hvia' hptr hinit' hu hcache hown => nomatch hcache
  | release hvia' => nomatch hvia.symm.trans hvia'
  | bump hvia' => nomatch hvia.symm.trans hvia'
  | unmap hvia' => nomatch hvia.symm.trans hvia'
  | leak hvia' => nomatch hvia.symm.trans hvia'

end FerrumAlloc
