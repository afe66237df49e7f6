/-
# FerrumAlloc.Api.Shift -- what an act leaves to the other threads

While a call of one thread is in progress, others work on the same heap. `Shift t c c'` is the part of an act
of thread `t` that the others must be able to live with: the invariant holds, blocks that live on keep their
bytes, the arena is the same, no cache disappears, nor from the registry, every thread keeps its cache and every
page its owner, and the page lists of the other caches stay as they are.

What a thread works on without the lock is out of the others' reach altogether (`OwnKept`), as long as all
caches have different identifiers.

All acts of `Api.Acts` are such shifts. Three more arise only between the steps of a call. `enroll` is the
second half of making a cache, under an identifier taken before. `pushTo` pushes a block on the stack of a
cache that was looked up before. `unstack` takes the top off a stack and leaves it to the thread: a whole
stack that is swapped out is taken off node by node.
-/
import FerrumAlloc.Api.Discipline

namespace FerrumAlloc

open Lib
open Tlsf (TlsfAllocator)

variable {h : Heap} {v v' : View} {l : List Block} {b b' : Block} {t p c i j n z : Nat} {m : Mem} {D : Prop}
  {k : Option Nat}

/-! ## Page lists of other slabs -/

section PageLists

variable {ι : Type} [DecidableEq ι] {a : Arena} {g g' : Ghost ι} {k k' : ι} {next o c' : Nat}

/-- Serving a slot changes the lists of one slab. -/
theorem Served.parts_of_ne (hs : Served a g next k c o g' i j) (hne : k' ≠ k) :
    g'.parts (k', c') = g.parts (k', c') := by
  have hkey : (k', c') ≠ (k, c) := fun heq => hne (congrArg Prod.fst heq)
  have htake : ∀ (g : Ghost ι) i, (g.take k c i).parts (k', c') = g.parts (k', c') := by
    intro g i
    unfold Ghost.take
    simp only
    split
    · exact Function.update_of_ne hkey ..
    · rfl
  cases hs with
  | listed => exact htake _ _
  | fresh => exact (htake _ _).trans (Function.update_of_ne hkey ..)

/-- So does putting one back. -/
theorem Ghost.parts_put_of_ne (hne : k' ≠ k) : (g.put a k c i j).parts (k', c') = g.parts (k', c') := by
  unfold Ghost.put
  simp only
  split
  · exact Function.update_of_ne (fun heq => hne (congrArg Prod.fst heq)) ..
  · rfl

/-- A page keeps its class and its owner. -/
theorem Served.page_kept {i' : Nat} (hs : Served a g next k c o g' i j) (hlt : i' < next) :
    g'.cls i' = g.cls i' ∧ g'.owner i' = g.owner i' := by
  cases hs with
  | listed => exact ⟨rfl, rfl⟩
  | fresh => exact ⟨Function.update_of_ne (Nat.ne_of_lt hlt) .., Function.update_of_ne (Nat.ne_of_lt hlt) ..⟩

end PageLists

/-! ## Identifiers -/

/-- The caches of any two threads have different identifiers. -/
def Heap.Distinct (h : Heap) : Prop :=
  ∀ t t', h.tls t ≠ 0 → h.tls t' ≠ 0 → (h.caches (h.tls t)).id = (h.caches (h.tls t')).id → t = t'

/-- Threads keep their caches, and caches their identifiers. -/
def SameCaches (h h' : Heap) : Prop :=
  ∀ t, h.tls t ≠ 0 → h'.tls t = h.tls t ∧ (h'.caches (h.tls t)).id = (h.caches (h.tls t)).id

namespace SameCaches

variable {h' h'' : Heap}

/-- Only identifiers and thread-local pointers count. -/
theorem of_ids (hid : ∀ p, (h'.caches p).id = (h.caches p).id) (htls : h'.tls = h.tls) : SameCaches h h' :=
  fun t _ => ⟨congrFun htls t, hid _⟩

theorem refl (h : Heap) : SameCaches h h := .of_ids (fun _ => rfl) rfl

theorem trans (hs : SameCaches h h') (hs' : SameCaches h' h'') : SameCaches h h'' := by
  intro t h0
  obtain ⟨htls, hid⟩ := hs t h0
  have hnext := hs' t (by rw [htls]; exact h0)
  rw [htls] at hnext
  exact ⟨hnext.1, hnext.2.trans hid⟩

/-- Caches that are different now were different before. -/
theorem distinct (hs : SameCaches h h') (hd : h'.Distinct) : h.Distinct := by
  intro t t' h0 h0' hid
  obtain ⟨htls, hsame⟩ := hs t h0
  obtain ⟨htls', hsame'⟩ := hs t' h0'
  rw [← htls] at h0
  rw [← htls'] at h0'
  rw [← hsame, ← hsame', ← htls, ← htls'] at hid
  exact hd t t' h0 h0' hid

/-- They stay so, if the only thread that may get a cache has one. -/
theorem keep_distinct (hs : SameCaches h h') (h0 : h.tls t ≠ 0) (hother : ∀ t', t' ≠ t → h'.tls t' = h.tls t')
    (hd : h.Distinct) : h'.Distinct := by
  have htls : h'.tls = h.tls := by
    funext t'
    by_cases hne : t' = t
    · rw [hne]
      exact (hs t h0).1
    · exact hother t' hne
  intro t₁ t₂ h₁ h₂ hid
  rw [htls] at h₁ h₂ hid
  rw [(hs t₁ h₁).2, (hs t₂ h₂).2] at hid
  exact hd t₁ t₂ h₁ h₂ hid

end SameCaches

/-! ## Pages of a thread -/

/-- Slab pages stay what they are, and belong to whom they belong. -/
def SamePages (v v' : View) : Prop :=
  ∀ i k, v.g.cls i = some k → v'.g.cls i = some k ∧ v'.g.owner i = v.g.owner i

namespace SamePages

variable {v'' : View}

theorem refl (v : View) : SamePages v v := fun _ _ hc => ⟨hc, rfl⟩

theorem trans (hs : SamePages v v') (hs' : SamePages v' v'') : SamePages v v'' := by
  intro i k hc
  obtain ⟨hc', howner⟩ := hs i k hc
  obtain ⟨hc'', howner'⟩ := hs' i k hc'
  exact ⟨hc'', howner'.trans howner⟩

end SamePages

theorem PageKept.refl {c : Conf} (hc : c.view.g.cls i = some n) :
    PageKept c.view.arena c.view.g c.heap.os.bytes i n c := ⟨rfl, hc, rfl, rfl, rfl, fun _ _ => rfl⟩

theorem PageKept.trans {a : Arena} {g : Ghost (Option Nat)} {c c' : Conf} (h : PageKept a g m i n c)
    (h' : PageKept c.view.arena c.view.g c.heap.os.bytes i n c') : PageKept a g m i n c' := by
  have hrecord := h'.record
  have hlinks := h'.links
  rw [h.arena] at hrecord hlinks
  rw [h.free] at hlinks
  exact ⟨h'.arena.trans h.arena, h'.cls, h'.owner.trans h.owner, h'.free.trans h.free, hrecord.trans h.record,
    fun j hj => (hlinks j hj).trans (h.links j hj)⟩

/-- **What thread `t` works on without the lock** is untouched: the lists of its cache, and the pages with its
identifier. -/
structure OwnKept (t : Nat) (c c' : Conf) : Prop where
  slab : (c'.heap.caches (c.heap.tls t)).slab = (c.heap.caches (c.heap.tls t)).slab
  pages : ∀ i k, c.view.g.cls i = some k → c.view.g.owner i = (c.heap.caches (c.heap.tls t)).id →
    PageKept c.view.arena c.view.g c.heap.os.bytes i k c'

namespace OwnKept

variable {c c' c'' : Conf}

theorem refl (t : Nat) (c : Conf) : OwnKept t c c := ⟨rfl, fun _ _ hc _ => .refl hc⟩

theorem trans (h : OwnKept t c c') (hs : SameCaches c.heap c'.heap) (h0 : c.heap.tls t ≠ 0)
    (h' : OwnKept t c' c'') : OwnKept t c c'' := by
  obtain ⟨htls, hid⟩ := hs t h0
  have hslab := h'.slab
  rw [htls] at hslab
  refine ⟨hslab.trans h.slab, fun i k hc howner => ?_⟩
  have hkept := h.pages i k hc howner
  refine hkept.trans (h'.pages i k hkept.cls ?_)
  rw [hkept.owner, htls, hid]
  exact howner

end OwnKept

/-! ## Shifts -/

/-- **What other threads see** of an act of thread `t`. -/
structure Shift (t : Nat) (c c' : Conf) : Prop where
  kept : Kept c c'
  arena : c.heap.arenaInit = true → c'.heap.arenaInit = true ∧ c'.view.arena = c.view.arena
  made : ∀ p ∈ c.view.made, p ∈ c'.view.made
  registry : ∀ k, c.heap.registry k ≠ 0 → c'.heap.registry k ≠ 0
  caches : SameCaches c.heap c'.heap
  tls : ∀ t', t' ≠ t → c'.heap.tls t' = c.heap.tls t'
  parts : ∀ t' n, t' ≠ t → c.heap.tls t' ≠ 0 →
    c'.view.g.parts (some (c.heap.tls t'), n) = c.view.g.parts (some (c.heap.tls t'), n)
  pages : SamePages c.view c'.view
  owned : Owned c.heap c.view → Owned c'.heap c'.view
  own : Owned c.heap c.view → c.heap.Distinct → ∀ t', t' ≠ t → c.heap.tls t' ≠ 0 → OwnKept t' c c'

/-- An entry of the registry is overwritten by another cache. -/
theorem registry_update {r : Nat → Nat} {id k : Nat} (hp : p ≠ 0) (hk : r k ≠ 0) :
    Function.update r id p k ≠ 0 := by
  by_cases heq : k = id
  · rw [heq, Function.update_self]
    exact hp
  · rw [Function.update_of_ne heq]
    exact hk

/-- The caches of two threads are two slabs. -/
theorem Good.tls_ne {t' : Nat} (hg : Good h v l) (hne : t' ≠ t) (h0 : h.tls t' ≠ 0) :
    some (h.tls t') ≠ some (h.tls t) := fun heq => hne (hg.threads.owner t' t h0 (Option.some.inj heq))

/-- A cache at an address that no thread knows yet. -/
theorem Good.caches_new (hg : Good h v l) {id : Nat} (htls : h.tls t = 0) (hnew : p ∉ v.made) :
    SameCaches h { h with
      tls := Function.update h.tls t p
      caches := Function.update h.caches p (.new id) } := by
  intro t' h0
  have hne : t' ≠ t := fun heq => h0 (heq ▸ htls)
  have hother : h.tls t' ≠ p := fun heq => hnew (heq ▸ hg.threads.tls t' h0)
  exact ⟨Function.update_of_ne hne .., congrArg ThreadCache.id (Function.update_of_ne hother ..)⟩

/-- No act takes a thread's cache away. -/
theorem Act.sameCaches {E : View → Nat → Prop} {c c' : Conf} (ha : Act t D E c c') (hg : Good c.heap c.view c.live) :
    SameCaches c.heap c'.heap := by
  cases ha with
  | setup hs =>
    -- nobody has a cache yet
    intro t' h0
    have hmem := hg.threads.tls t' h0
    rw [(hg.booting hs.init).made] at hmem
    nomatch hmem
  | create hc _ => exact hg.caches_new hc.none (hc.not_made hg.threads hg.maps)
  | pop => exact .of_ids (setCache_id _ _ rfl) rfl
  | serve => exact .of_ids (setSlab_id _ (some _) _ _) rfl
  | put hp hb hvia hptr hk hlone =>
    rename_i h v l k c i j s m b
    exact .of_ids (setSlab_id h k s m) (setSlab_threads h k s m).1
  | push => exact .of_ids (setCache_id (Heap.setBytes _ _) _ rfl) rfl
  | attempt | carve | release | issue | map | unmap | leak => exact .of_ids (fun _ => rfl) rfl

/-- Nor a page its owner. -/
theorem Act.samePages {c c' : Conf} (ha : Act t D Nowhere c c') (hg : Good c.heap c.view c.live) :
    SamePages c.view c'.view := by
  intro i k hc
  cases ha with
  | setup hs => exact absurd (((hg.booting hs.init).cls i).symm.trans hc) (Option.some_ne_none k).symm
  | serve hs htls hn =>
    obtain ⟨hcls, howner⟩ := hs.served.page_kept ((hg.arena hs.init).slabs.inv.range i k hc).2
    exact ⟨hcls.trans hc, howner⟩
  | attempt | create | pop | put | push | carve | release | issue | map | unmap | leak => exact ⟨hc, rfl⟩

/-- The slab of another cache stays. -/
theorem Heap.slab_setCache (h : Heap) {q : Nat} {tc : ThreadCache} (hne : q ≠ p) :
    ((h.setCache p tc).caches q).slab = (h.caches q).slab :=
  congrArg ThreadCache.slab (Function.update_of_ne hne ..)

/-- Nor does a change of a stack. -/
theorem Heap.slab_setCache_self (h : Heap) (p : Nat) {c : ThreadCache} (hs : c.slab = (h.caches p).slab) (q : Nat) :
    ((h.setCache p c).caches q).slab = (h.caches q).slab := by
  by_cases hq : q = p
  · rw [hq]
    exact (congrArg ThreadCache.slab (Function.update_self ..)).trans hs
  · exact h.slab_setCache hq

theorem Heap.slab_push (h : Heap) (p x q : Nat) : ((h.push p x).caches q).slab = (h.caches q).slab :=
  (h.setBytes (write64 h.os.bytes x (h.remote p))).slab_setCache_self p
    (c := { h.caches p with remoteFrees := x }) rfl q

/-- **An act of thread `t` leaves alone what the others work on**, as long as identifiers are different. -/
theorem Act.ownKept {c c' : Conf} (ha : Act t D Nowhere c c') (hg : Good c.heap c.view c.live)
    (ho : Owned c.heap c.view) (hd : c.heap.Distinct) {t' : Nat} (hne : t' ≠ t) (h0 : c.heap.tls t' ≠ 0) :
    OwnKept t' c c' := by
  refine ⟨?_, fun i k hc howner => ha.pageKept_of_id hg ho (.refl hc) fun p hp htls heq => ?_⟩
  · have hother : ∀ {p}, c.heap.tls t = p → c.heap.tls t' ≠ p := by
      rintro _ rfl heq
      exact hne (hg.threads.owner t' t h0 heq)
    cases ha with
    | setup hs =>
      have hmem := hg.threads.tls t' h0
      rw [(hg.booting hs.init).made] at hmem
      nomatch hmem
    | create hc _ =>
      have hnew := hc.not_made hg.threads hg.maps
      exact Heap.slab_setCache _ fun heq => hnew (heq ▸ hg.threads.tls t' h0)
    | pop hp htls htop => exact Heap.slab_setCache _ (hother htls)
    | serve hs htls hn => exact Heap.slab_setCache _ (hother htls)
    | put hp hb hvia hptr hk hlone =>
      rename_i h v l k c i j s m b
      cases k with
      | none => exact (hlone rfl).elim
      | some p => exact Heap.slab_setCache _ (hother (hk p rfl).1)
    | push => exact Heap.slab_push ..
    | attempt | carve | release | issue | map | unmap | leak => rfl
  · subst htls
    have h0' : c.heap.tls t ≠ 0 := (hg.threads.id _ hp).1
    exact hne (hd t' t h0 h0' (howner.symm.trans heq))

/-- **Every act is a shift.** -/
theorem Act.shift {c c' : Conf} (ha : Act t D Nowhere c c') (hg : Good c.heap c.view c.live) : Shift t c c' := by
  refine ⟨ha.kept hg, ?_, ?_, ?_, ha.sameCaches hg, ?_, ?_, ha.samePages hg, ha.owned hg,
    fun ho hd _ => ha.ownKept hg ho hd⟩
  · intro hinit
    cases ha with
    | setup hs => exact absurd (hinit.symm.trans hs.init) nofun
    | put => cases ‹Option Nat› <;> exact ⟨hinit, rfl⟩
    | attempt | create | pop | serve | push | carve | release | issue | map | unmap | leak => exact ⟨hinit, rfl⟩
  · intro q hq
    cases ha with
    | setup hs =>
      rw [(hg.booting hs.init).made] at hq
      nomatch hq
    | create => exact List.mem_cons_of_mem _ hq
    | attempt | pop | serve | put | push | carve | release | issue | map | unmap | leak => exact hq
  · intro k hk
    cases ha with
    | create hc _ => exact registry_update (Nat.ne_of_gt hc.grant.1) hk
    | put => cases ‹Option Nat› <;> exact hk
    | setup | attempt | pop | serve | push | carve | release | issue | map | unmap | leak => exact hk
  · intro t' hne
    cases ha with
    | setup hs =>
      -- nobody has a cache yet
      symm
      by_contra h0
      have hmem := hg.threads.tls t' h0
      rw [(hg.booting hs.init).made] at hmem
      nomatch hmem
    | create => exact Function.update_of_ne hne ..
    | put => cases ‹Option Nat› <;> rfl
    | attempt | pop | serve | push | carve | release | issue | map | unmap | leak => rfl
  · intro t' n hne h0
    cases ha with
    | setup hs =>
      have hmem := hg.threads.tls t' h0
      rw [(hg.booting hs.init).made] at hmem
      nomatch hmem
    | pop hp htls htop => exact Ghost.parts_put_of_ne (htls ▸ hg.tls_ne hne h0)
    | serve hs htls hn => exact hs.served.parts_of_ne (htls ▸ hg.tls_ne hne h0)
    | put hp hb hvia hptr hk hlone =>
      apply Ghost.parts_put_of_ne
      intro heq
      obtain ⟨htls, _⟩ := hk _ heq.symm
      exact hg.tls_ne hne h0 (congrArg some htls.symm)
    | attempt | create | push | carve | release | issue | map | unmap | leak => rfl

/-! ## A cache under an identifier taken before -/

/-- Thread `t` gets the cache at `p`, with the identifier `id`. -/
def Heap.enroll (h : Heap) (t id p : Nat) (m : Mem) : Heap :=
  { h with
    os := ⟨m, ⟨p, 4096⟩ :: h.os.maps⟩
    tls := Function.update h.tls t p
    registry := Function.update h.registry id p
    caches := Function.update h.caches p (.new id) }

/-- The counter of identifiers is nobody's business. -/
theorem Good.setNextId (hg : Good h v l) (hinit : h.arenaInit = true) (id : Nat) :
    Good { h with nextThreadId := id } v l := by
  have ha := hg.arena hinit
  have ht := hg.threads
  exact ⟨hg.lock, hg.maps, ⟨ht.tls, ht.owner, ht.registry, ht.id, ht.blank, ht.pages, ht.map⟩,
    fun _ => ⟨ha.arena, ha.slab, ha.tlsf, ha.ready, ha.map, ha.slabs, ha.pool⟩,
    fun hboot => absurd (hinit.symm.trans hboot) nofun, hg.placed, hg.sized, hg.apart⟩

/-- **Making a cache** under an identifier taken before. -/
theorem Good.enroll (hg : Good h v l) {id : Nat} (hinit : h.arenaInit = true) (htls : h.tls t = 0)
    (hid : id < maxThreads) (hgrant : Grantable h.os.maps 4096 p)
    (hm : Set.EqOn m h.os.bytes (Region.bytes ⟨p, 4096⟩)ᶜ) :
    Shift t ⟨h, v, l⟩ ⟨h.enroll t id p m, { v with made := p :: v.made }, l⟩ := by
  have hg₁ := hg.setNextId hinit id
  have hc : Creates { h with nextThreadId := id } t p m := ⟨hinit, htls, hid, hgrant, hm⟩
  have hact : Act t True Nowhere ⟨{ h with nextThreadId := id }, v, l⟩ _ := .create hc fun _ => trivial
  have hs := hact.shift hg₁
  have hsame : { ({ h with nextThreadId := id } : Heap).create t p m with nextThreadId := h.nextThreadId } =
      h.enroll t id p m := rfl
  -- the counter of identifiers is set back
  refine ⟨⟨?_, hs.kept.keeps⟩, hs.arena, hs.made, hs.registry, hs.caches, hs.tls, hs.parts, hs.pages,
    fun ho => (hs.owned (ho.of_ids (fun _ => rfl) rfl)).of_ids (fun _ => rfl) rfl, fun ho hd t' hne h0 => ?_⟩
  · rw [← hsame]
    exact hs.kept.good.setNextId hinit _
  · have hu := hs.own (ho.of_ids (fun _ => rfl) rfl) hd t' hne h0
    refine ⟨hu.slab, fun i k hc howner => ?_⟩
    have hk := hu.pages i k hc howner
    exact ⟨hk.arena, hk.cls, hk.owner, hk.free, hk.record, hk.links⟩

/-! ## A push -/

/-- **Pushing a block** on the stack of a cache with the identifier of its page. -/
theorem Good.pushTo_shift (hg : Good h v l) (hinit : h.arenaInit = true) (hu : v.g.Used i c j) (hb : b ∈ l)
    (hvia : b.via = .slab c) (hptr : b.ptr = v.arena.slotAddr i c j) (hmade : p ∈ v.made)
    (howner : v.g.owner i = (h.caches p).id) :
    Shift t ⟨h, v, l⟩ ⟨h.push p b.ptr, v.push p b.ptr, l.erase b⟩ := by
  have ha := hg.arena hinit
  refine ⟨hg.pushTo hinit hu hb hvia hptr hmade, fun hinit => ⟨hinit, rfl⟩, fun _ hq => hq, fun _ hk => hk,
    .of_ids (setCache_id (h.setBytes _) p rfl) rfl, fun _ _ => rfl, fun _ _ _ _ => rfl, .refl _, fun ho => ?_,
    fun _ _ t' _ _ => ⟨h.slab_push .., fun i' k hc _ => ?_⟩⟩
  · exact (ho.push ha hu hptr ⟨hmade, howner⟩).of_ids (setCache_id (h.setBytes _) p rfl) rfl
  · refine PageKept.step (.refl hc) rfl rfl rfl rfl fun z hz => write64_eqOn _ _ _ fun hz' => ?_
    have hslot := SlabSide.node_subset_slot (ha.slabs.inv.used_lt hu) hptr hz'.1 hz'.2
    exact ha.slabs.inv.used_not_own hu hslot (ha.pageOwn_subset hc hz)

/-! ## A stack swapped out -/

/-- The top of the stack of the cache at `p` is taken off. -/
def Heap.unstack (h : Heap) (p : Nat) : Heap :=
  h.setCache p { h.caches p with remoteFrees := read64 h.os.bytes (h.remote p) }

/-- It is in the hands of a thread. -/
def View.unstack (v : View) (p x : Nat) : View :=
  { v with
    role := Function.update v.role x .live
    stack := Function.update v.stack p (v.stack p).tail }

/-- A slot on a stack shares no byte with a live block. -/
theorem Good.stacked_not_extent (hg : Good h v l) (ha : ArenaSide h v) (hu : v.g.Used i c j)
    (hrole : v.role (v.arena.slotAddr i c j) = .stacked p) (hb : b ∈ l) (hz : z ∈ slotBytes v.arena i c j) :
    z ∉ b.extent := by
  intro hz'
  have hpage : v.arena.zone z = .page i := ha.slabs.zone_used hu hz
  have hpl := hg.placed b hb
  have hin := hpl.territory ha hg.maps hz'
  cases hv : b.via with
  | null => exact hpl.via_ne_null hv
  | slab c' =>
    obtain ⟨i', j', hu', hp', hcap, hlive⟩ := hpl.slabBlock hv
    rw [Block.mem_extent, hp', hcap] at hz'
    obtain ⟨rfl, rfl, rfl⟩ := ha.slabs.inv.used_unique hu hu' hz hz'
    rw [hp', hrole] at hlive
    nomatch hlive
  | tlsf =>
    rw [hv] at hin
    exact Zone.noConfusion (hpage.symm.trans hin)
  | bump =>
    rw [hv] at hin
    obtain ⟨i', _, hcls, hpage'⟩ := hin
    obtain rfl := Zone.page.inj (hpage.symm.trans hpage')
    exact Option.some_ne_none _ (hu.1.symm.trans hcls)
  | huge =>
    rw [hv] at hin
    exact Zone.noConfusion (hpage.symm.trans hin)

/-- The least request of the class of a slot is the slot. -/
theorem sizeToClass_slotSize (hc : c < numSizeClasses) : sizeToClass (slotSize c) = some c := by
  have hall : ∀ c < numSizeClasses, sizeToClass (slotSize c) = some c := by decide
  exact hall c hc

/-- The slab side after the top of a stack has been taken off. -/
theorem SlabSide.unstack {slabs : Option Nat → SlabAllocator} {remote : Nat → Nat}
    (hs : SlabSide m slabs remote v) (h0 : remote p ≠ 0) :
    SlabSide m slabs (Function.update remote p (read64 m (remote p))) (v.unstack p (remote p)) := by
  obtain ⟨rest, hstack, hnot, hrest⟩ := (hs.stack p).tail h0
  have hrole := (hs.stack p).head_role h0
  have hupd : ∀ x, x ≠ remote p → (v.unstack p (remote p)).role x = v.role x :=
    fun x hx => Function.update_of_ne hx ..
  have hself : (v.unstack p (remote p)).role (remote p) = .live := Function.update_self ..
  refine ⟨hs.inv, hs.next_ge, hs.low, fun x => ?_, fun q => ?_⟩
  · by_cases hx : x = remote p
    · rw [hx, hself]
      exact ⟨fun _ => hs.stacked_used hrole, fun _ => nofun⟩
    · rw [hupd x hx]
      exact hs.role x
  · show Stack m _ _ _ (Function.update v.stack p (v.stack p).tail q)
    by_cases hq : q = p
    · rw [hq, Function.update_self, Function.update_self, hstack]
      apply hrest.keepOn
      intro x hx
      rw [hupd x fun heq => hnot (heq ▸ hx)]
      exact ⟨hrest.role x hx, rfl⟩
    · rw [Function.update_of_ne hq, Function.update_of_ne hq]
      apply (hs.stack q).keep
      intro x hx
      rw [hupd x]
      · exact ⟨hx, rfl⟩
      · rintro rfl
        rw [hrole] at hx
        exact hq (SlotRole.stacked.inj hx).symm

theorem Heap.slab_unstack (h : Heap) (p q : Nat) : ((h.unstack p).caches q).slab = (h.caches q).slab :=
  h.slab_setCache_self p (c := { h.caches p with remoteFrees := read64 h.os.bytes (h.remote p) }) rfl q

/-- The pages of the other slots on stacks. -/
theorem Owned.unstack (ho : Owned h v) : Owned (h.unstack p) (v.unstack p z) := by
  have hun : Owned h (v.unstack p z) := ⟨ho.listed, fun i c j q hu hr => ?_, ho.maker, ho.user⟩
  · exact hun.of_ids (setCache_id h p rfl) rfl
  · unfold View.unstack at hr
    simp only at hr
    by_cases hx : v.arena.slotAddr i c j = z
    · rw [hx, Function.update_self] at hr
      nomatch hr
    · rw [Function.update_of_ne hx] at hr
      exact ho.stacked i c j q hu hr

/-- The slot on top of a stack lies in a page of its cache. -/
theorem Owned.top (ho : Owned h v) (ha : ArenaSide h v) (h0 : h.remote p ≠ 0) :
    (∃ k, v.g.cls (v.arena.ptrToPageIndex (h.remote p)) = some k) ∧
      v.g.owner (v.arena.ptrToPageIndex (h.remote p)) = (h.caches p).id := by
  have hrole := (ha.slabs.stack p).head_role h0
  obtain ⟨i, c, j, hu, hx⟩ := ha.slabs.stacked_used hrole
  rw [hx] at hrole ⊢
  rw [(ha.slab_inPage hu).index]
  exact ⟨⟨c, hu.1⟩, (ho.stacked i c j p hu hrole).2⟩

/-- **Taking the top off a stack**: it is a live block from then on. -/
theorem Good.unstack (hg : Good h v l) (hinit : h.arenaInit = true) (hp : p ∈ v.made) (h0 : h.remote p ≠ 0) :
    ∃ b c, b.ptr = h.remote p ∧ b.via = .slab c ∧
      Shift t ⟨h, v, l⟩ ⟨h.unstack p, v.unstack p (h.remote p), b :: l⟩ := by
  have ha := hg.arena hinit
  have hrole := (ha.slabs.stack p).head_role h0
  obtain ⟨i, c, j, hu, hx⟩ := ha.slabs.stacked_used hrole
  have hc := ha.slabs.inv.used_lt hu
  obtain ⟨b, hb⟩ : ∃ b : Block, b = ⟨h.remote p, slotSize c, .slab c, slotSize c⟩ := ⟨_, rfl⟩
  have hptr : b.ptr = h.remote p := by rw [hb]
  have hvia : b.via = .slab c := by rw [hb]
  have hcap : b.cap = slotSize c := by rw [hb]
  have hextent : ∀ z, z ∈ b.extent → z ∈ slotBytes v.arena i c j := by
    intro z hz
    rw [Block.mem_extent, hptr, hcap, hx] at hz
    exact hz
  have hrole' : v.role (v.arena.slotAddr i c j) = .stacked p := hx ▸ hrole
  have hslabs : (h.unstack p).slabs = h.slabs := by
    refine (Heap.slabs_setCache h p _).trans ?_
    exact Function.update_eq_self (some p) h.slabs
  have hremote : (h.unstack p).remote = Function.update h.remote p (read64 h.os.bytes (h.remote p)) :=
    Heap.remote_setCache h p _
  have hapart : ∀ b' ∈ l, b.Apart b' := by
    refine hg.apart_new ha ?_ (fun z hz => ?_) fun b' hb' _ z hz =>
      hg.stacked_not_extent ha hu hrole' hb' (hextent z hz)
    · rw [hcap]
      exact lt_of_lt_of_le (by norm_num) (slots_of_lt hc).size_ge
    · have hpage := ha.slabs.zone_used hu (hextent z hz)
      exact zone_bounds (by rw [hpage]; nofun) (by rw [hpage]; nofun)
  refine ⟨b, c, hptr, hvia, ⟨⟨hg.lock, hg.maps, ?_, fun _ => ⟨ha.arena, ha.slab, ha.tlsf, ha.ready, ha.map,
    ?_, ⟨ha.pool.inv, ha.pool.start_eq, ha.pool.stop_eq⟩⟩, fun hboot => absurd (hinit.symm.trans hboot) nofun,
    fun b' hb' => ?_, fun b' hb' => ?_, List.pairwise_cons.mpr ⟨hapart, hg.apart⟩⟩,
    fun _ _ _ => Set.eqOn_refl _ _⟩, fun hinit => ⟨hinit, rfl⟩, fun _ hq => hq, fun _ hk => hk,
    .of_ids (setCache_id h p rfl) rfl, fun _ _ => rfl, fun _ _ _ _ => rfl, .refl _, fun ho => ?_,
    fun _ _ t' _ _ => ⟨h.slab_unstack p _, fun i' k hc _ => PageKept.step (.refl hc) rfl rfl rfl rfl
      (Set.eqOn_refl _ _)⟩⟩
  · have ht := hg.threads.setCache hp { h.caches p with remoteFrees := read64 h.os.bytes (h.remote p) } rfl
    exact ht.view rfl fun i c hc => hg.threads.pages i c hc
  · rw [hslabs, hremote]
    exact ha.slabs.unstack h0
  · rcases List.mem_cons.mp hb' with rfl | hb'
    · refine (placed_slab hvia).mpr ⟨i, j, hu, hptr.trans hx, hcap, ?_⟩
      rw [hptr]
      exact Function.update_self ..
    · refine (hg.placed b' hb').keep ?_ (fun _ hb => hb) (fun _ hb => hb) (fun _ hb => hb)
      rintro c' _ ⟨i', j', hu', hp', hcap', hlive⟩
      refine ⟨i', j', hu', hp', hcap', ?_⟩
      show Function.update v.role (h.remote p) SlotRole.live b'.ptr = .live
      by_cases heq : b'.ptr = h.remote p
      · rw [heq, Function.update_self]
      · rw [Function.update_of_ne heq]
        exact hlive
  · rcases List.mem_cons.mp hb' with rfl | hb'
    · unfold Block.Sized
      rw [hvia, hb]
      exact ⟨sizeToClass_slotSize hc, rfl⟩
    · exact hg.sized b' hb'
  · exact ho.unstack

end FerrumAlloc
