/-
# FerrumAlloc.Api.Owners -- pages and the caches they belong to

Every slab page carries the identifier of the cache whose slab has initialised it. The pages on the lists
of a cache, and the slots on its stack, are pages of its identifier (`Owned`): a free goes to the lists of
the cache that has it, a remote free to the stack of the cache registered for it.

That the identifier also tells the cache takes more: no identifier may be given out twice (`Api.Threads`), and
nobody may free through the global slab (`Api.Discipline`).
-/
import FerrumAlloc.Api.System

namespace FerrumAlloc

open Lib

variable {h : Heap} {v : View} {l : List Block} {t : Nat} {D : Prop} {E : View → Nat → Prop}
  {c c' : Conf} {s : State}

/-! ## Invariants of paths, on runs -/

/-- **The invariant rule for runs.** What acts and stores keep holds in every reachable state, of the view
that makes the heap good. -/
theorem reachable_invariant {I : Conf → Prop} (h0 : ∀ bytes, I ⟨Heap.boot bytes, .start, []⟩)
    (hact : ∀ t c c', Good c.heap c.view c.live → I c → Act t True Anywhere c c' → I c')
    (hstore : ∀ c c' b, Good c.heap c.view c.live → I c → Store b c c' → I c')
    (hr : (system.restrict inBounds).Reachable s) :
    ∃ v, Good s.heap v s.live ∧ I ⟨s.heap, v, s.live⟩ := by
  refine hr.invariant (I := fun s => ∃ v, Good s.heap v s.live ∧ I ⟨s.heap, v, s.live⟩) ?_ ?_
  · rintro s ⟨bytes, rfl⟩
    exact ⟨.start, .boot bytes, h0 bytes⟩
  · rintro s e s' _ ⟨v, hg, hI⟩ ⟨hs, hn⟩
    cases hs with
    | call harg hrun =>
      rename_i t k ans r
      obtain ⟨v', hleads⟩ := (Call.leads hg k harg hn t ans).of_run hrun
      exact ⟨v', hleads.good hg, hleads.path.invariant (hact t) hstore hg hI⟩
    | write hb hm => exact ⟨v, hg.store hb hm, hstore _ _ _ hg hI (.mk hb hm)⟩

/-! ## Pages and identifiers -/

/-- **Pages belong to identifiers.** -/
structure Owned (h : Heap) (v : View) : Prop where
  /-- A page on a list of a cache. -/
  listed : ∀ i c p, v.g.cls i = some c → v.g.free i ≠ [] → v.g.home i = some p →
    p ∈ v.made ∧ v.g.owner i = (h.caches p).id
  /-- The page of a slot on a stack. -/
  stacked : ∀ i c j p, v.g.Used i c j → v.role (v.arena.slotAddr i c j) = .stacked p →
    p ∈ v.made ∧ v.g.owner i = (h.caches p).id
  /-- A page and the cache that has initialised it. -/
  maker : ∀ i c, v.g.cls i = some c → v.maker i ∈ v.made ∧ v.g.owner i = (h.caches (v.maker i)).id
  /-- Every cache is the cache of a thread. -/
  user : ∀ p ∈ v.made, ∃ t, h.tls t = p

namespace Owned

/-- Only identifiers and thread-local pointers count. -/
theorem of_ids {h' : Heap} (ho : Owned h v) (hid : ∀ p, (h'.caches p).id = (h.caches p).id)
    (htls : h'.tls = h.tls) : Owned h' v where
  listed i c p hc hf hp := by
    rw [hid]
    exact ho.listed i c p hc hf hp
  stacked i c j p hu hr := by
    rw [hid]
    exact ho.stacked i c j p hu hr
  maker i c hc := by
    rw [hid]
    exact ho.maker i c hc
  user := by
    rw [htls]
    exact ho.user

end Owned

/-- Changing a cache in all but its identifier. -/
theorem setCache_id (h : Heap) (p : Nat) {c : ThreadCache} (hid : c.id = (h.caches p).id) (q : Nat) :
    ((h.setCache p c).caches q).id = (h.caches q).id := by
  by_cases hq : q = p
  · rw [hq]
    exact (congrArg ThreadCache.id (Function.update_self ..)).trans hid
  · exact congrArg ThreadCache.id (Function.update_of_ne hq ..)

theorem setSlab_id (h : Heap) (k : Option Nat) (s : SlabAllocator) (m : Mem) (q : Nat) :
    ((h.setSlab k s m).caches q).id = (h.caches q).id := by
  cases k with
  | none => rfl
  | some p => exact setCache_id h p (c := { h.caches p with slab := s }) rfl q

theorem setSlab_threads (h : Heap) (k : Option Nat) (s : SlabAllocator) (m : Mem) :
    (h.setSlab k s m).tls = h.tls ∧ (h.setSlab k s m).registry = h.registry := by
  cases k <;> exact ⟨rfl, rfl⟩

/-- A cache that is made now is none of those made before. -/
theorem Creates.not_made {p : Nat} {m : Mem} (hc : Creates h t p m) (ht : ThreadSide h v)
    (hm : Mappings h.os.maps) : p ∉ v.made := fun hp => hm.base_ne hc.grant (ht.map p hp) rfl

/-- The view after a slot has been put back, by slab and by drain. -/
theorem Owned.put {p' c i j : Nat} {k : Option Nat} {s : SlabAllocator} {m : Mem} (ho : Owned h v)
    (hp : Puts h v k c i j s m) (hk : ∀ p, k = some p → v.g.owner i = (h.caches p).id)
    (stack : Nat → List Nat) (hp' : p' = v.arena.slotAddr i c j) :
    Owned h { v with
      g := v.g.put v.arena k c i j
      role := Function.update v.role p' .free
      stack := stack } where
  listed i' c' q hc hf hq := by
    have hhome : (v.g.put v.arena k c i j).home i' =
        if v.g.free i = [] then Function.update v.g.home i k i' else v.g.home i' := by
      unfold Ghost.put
      by_cases h0 : v.g.free i = []
      · simp only [if_pos h0]
      · simp only [if_neg h0]
    simp only [hhome] at hq
    by_cases hii : i' = i
    · subst hii
      by_cases h0 : v.g.free i' = []
      · rw [if_pos h0, Function.update_self] at hq
        exact ⟨hp.cache q hq, hk q hq⟩
      · rw [if_neg h0] at hq
        exact ho.listed i' c' q hc h0 hq
    · have hfree : (v.g.put v.arena k c i j).free i' = v.g.free i' := Function.update_of_ne hii ..
      simp only [hfree] at hf
      have hq' : v.g.home i' = some q := by
        by_cases h0 : v.g.free i = []
        · rw [if_pos h0, Function.update_of_ne hii] at hq
          exact hq
        · rw [if_neg h0] at hq
          exact hq
      exact ho.listed i' c' q hc hf hq'
  stacked i' c' j' q hu hr := by
    have hu' := ((Ghost.used_put hp.used).mp hu).1
    by_cases hx : v.arena.slotAddr i' c' j' = p'
    · simp only [hx, Function.update_self] at hr
      nomatch hr
    · simp only [Function.update_of_ne hx] at hr
      exact ho.stacked i' c' j' q hu' hr
  maker := ho.maker
  user := ho.user

/-- The view after a slot has been served. -/
theorem Owned.serve {p c i j : Nat} {s : SlabAllocator} {m : Mem} {g : Ghost (Option Nat)} (ho : Owned h v)
    (hs : Serves h v p c i j s m g) (ha : ArenaSide h v) :
    Owned h (v.serve g p i (v.arena.slotAddr i c j)) where
  listed i' c' q hc hf hq := by
    unfold View.serve at hc hf hq ⊢
    simp only at hc hf hq ⊢
    rcases hs.served.listed_cases hc hf with ⟨hhome, howner⟩ | ⟨hc', hf', hhome, howner⟩
    · obtain rfl := Option.some.inj (hhome.symm.trans hq)
      exact ⟨hs.cache, howner⟩
    · obtain ⟨hmade, howner'⟩ := ho.listed i' c' q hc' hf' (hhome.symm.trans hq)
      exact ⟨hmade, howner.trans howner'⟩
  stacked i' c' j' q hu hr := by
    have hu' : v.g.Used i' c' j' ∨ i' = i ∧ c' = c ∧ j' = j := (hs.served.used_iff ha.slabs.inv hs.cls).mp hu
    unfold View.serve at hr ⊢
    simp only at hr ⊢
    by_cases hx : v.arena.slotAddr i' c' j' = v.arena.slotAddr i c j
    · simp only [hx, Function.update_self] at hr
      nomatch hr
    · rcases hu' with hu' | ⟨rfl, rfl, rfl⟩
      · simp only [Function.update_of_ne hx] at hr
        obtain ⟨hmade, howner⟩ := ho.stacked i' c' j' q hu' hr
        refine ⟨hmade, ?_⟩
        rcases hs.served.cls_some hu.1 with ⟨_, hsame⟩ | ⟨hnext, _⟩
        · exact hsame.trans howner
        · have hlt := (ha.slabs.inv.range i' c' hu'.1).2
          omega
      · exact absurd rfl hx
  maker i' c' hc := by
    unfold View.serve at hc ⊢
    simp only at hc ⊢
    rcases hs.served.cls_some hc with ⟨hc', hsame⟩ | ⟨hnext, hii, hcc, howner⟩
    · have hne : i' = i → v.g.cls i ≠ none := by
        rintro rfl
        rw [hc']
        nofun
      have hsame' : (if v.g.cls i = none then Function.update v.maker i p else v.maker) i' = v.maker i' := by
        by_cases h0 : v.g.cls i = none
        · rw [if_pos h0]
          exact Function.update_of_ne (fun heq => hne heq h0) ..
        · rw [if_neg h0]
      rw [hsame', hsame]
      exact ho.maker i' c' hc'
    · have hnone : v.g.cls i = none := by
        rw [← hii, hnext]
        exact ha.slabs.inv.cls_next (Nat.le_refl _)
      rw [if_pos hnone, hii, Function.update_self, ← hii, howner]
      exact ⟨hs.cache, rfl⟩
  user := ho.user

/-- The view after a slot has gone to a stack. -/
theorem Owned.push {i j k p x : Nat} (ho : Owned h v) (ha : ArenaSide h v) (hu : v.g.Used i k j)
    (hx : x = v.arena.slotAddr i k j) (hp : p ∈ v.made ∧ v.g.owner i = (h.caches p).id) :
    Owned h (v.push p x) where
  listed := ho.listed
  stacked i' k' j' q hu' hr := by
    unfold View.push at hr ⊢
    simp only at hr ⊢
    by_cases heq : v.arena.slotAddr i' k' j' = x
    · simp only [heq, Function.update_self, SlotRole.stacked.injEq] at hr
      obtain ⟨rfl, _⟩ := ha.slabs.slot_eq hu' hu (heq.trans hx)
      rw [← hr]
      exact hp
    · simp only [Function.update_of_ne heq] at hr
      exact ho.stacked i' k' j' q hu' hr
  maker := ho.maker
  user := ho.user

/-- A cache that is made: no page refers to it yet. -/
theorem Owned.create {p : Nat} {m : Mem} (ho : Owned h v) (hc : Creates h t p m) (hg : Good h v l) :
    Owned (h.create t p m) { v with made := p :: v.made } := by
  have hnew : p ∉ v.made := hc.not_made hg.threads hg.maps
  have hsame : ∀ q ∈ v.made, ((h.create t p m).caches q).id = (h.caches q).id := by
    intro q hq
    have hne : q ≠ p := fun heq => hnew (heq ▸ hq)
    exact congrArg ThreadCache.id (Function.update_of_ne hne ..)
  have hkeep : ∀ {q o : Nat}, q ∈ v.made ∧ o = (h.caches q).id →
      q ∈ p :: v.made ∧ o = ((h.create t p m).caches q).id :=
    fun ⟨hq, howner⟩ => ⟨.tail _ hq, howner.trans (hsame _ hq).symm⟩
  refine ⟨fun i k q hk hf hq => hkeep (ho.listed i k q hk hf hq),
    fun i k j q hu hr => hkeep (ho.stacked i k j q hu hr), fun i k hk => hkeep (ho.maker i k hk),
    fun q hq => ?_⟩
  rcases List.mem_cons.mp hq with rfl | hq
  · exact ⟨t, Function.update_self ..⟩
  · obtain ⟨t', ht'⟩ := ho.user q hq
    refine ⟨t', (Function.update_of_ne ?_ ..).trans ht'⟩
    rintro rfl
    exact (hg.threads.id q hq).1 (ht'.symm.trans hc.none)

/-- **Step lemma.** -/
theorem Act.owned (ha : Act t D E c c') (hg : Good c.heap c.view c.live) (ho : Owned c.heap c.view) :
    Owned c'.heap c'.view := by
  cases ha with
  | setup hs => exact ⟨nofun, fun _ _ _ _ hu => (by nomatch hu.1), nofun, nofun⟩
  | create hc hdup => exact ho.create hc hg
  | pop hp htls htop =>
    rename_i h v l p k i j s m
    have hside := hg.arena hp.init
    have hne : h.remote p ≠ 0 := by
      rw [htop]
      exact hside.slotAddr_ne i k j
    -- the slot comes from the stack, so its page is one of the cache
    have hrole := (hside.slabs.stack p).head_role hne
    rw [htop] at hrole
    have howner := (ho.stacked i k j p hp.used hrole).2
    have hput := ho.put hp (fun q hq => Option.some.inj hq ▸ howner)
      (Function.update v.stack p (v.stack p).tail) rfl
    exact hput.of_ids (setCache_id h p (c := { h.caches p with
      slab := s, remoteFrees := read64 h.os.bytes (h.remote p) }) rfl) rfl
  | serve hs htls hn => exact (ho.serve hs (hg.arena hs.init)).of_ids (setSlab_id _ (some _) _ _) rfl
  | put hp hb hvia hptr hk hlone =>
    rename_i h v l k c i j s m b
    have hput := ho.put hp (fun q hq => (hk q hq).2) v.stack rfl
    exact hput.of_ids (setSlab_id h k s m) (setSlab_threads h k s m).1
  | push hinit hu hb hvia hptr =>
    rename_i h v l k i j b
    have hreg := hg.threads.registry _ (hg.threads.pages i k hu.1).2
    have hpush := ho.push (hg.arena hinit) hu hptr ⟨hreg.1, hreg.2.symm⟩
    exact hpush.of_ids (setCache_id (h.setBytes _) _ rfl) rfl
  | attempt hinit hnone => exact ho.of_ids (fun _ => rfl) rfl
  | carve hinit hn hal => exact ⟨ho.listed, ho.stacked, ho.maker, ho.user⟩
  | release hinit hb hvia hr => exact ⟨ho.listed, ho.stacked, ho.maker, ho.user⟩
  | issue hi => exact ho.of_ids (fun _ => rfl) rfl
  | map hm => exact ho.of_ids (fun _ => rfl) rfl
  | unmap hb hvia => exact ho.of_ids (fun _ => rfl) rfl
  | leak hb hvia => exact ho

theorem Store.owned {b : Block} (hs : Store b c c') (ho : Owned c.heap c.view) :
    Owned c'.heap c'.view := by
  cases hs
  exact ho.of_ids (fun _ => rfl) rfl

/-- **Run lemma.** -/
theorem reachable_owned (hr : (system.restrict inBounds).Reachable s) :
    ∃ v, Good s.heap v s.live ∧ Owned s.heap v :=
  reachable_invariant (I := fun c => Owned c.heap c.view)
    (fun _ => ⟨nofun, fun _ _ _ _ hu => (by nomatch hu.1), nofun, nofun⟩)
    (fun _ _ _ hg ho ha => ha.owned hg ho) (fun _ _ _ _ ho hs => hs.owned ho) hr

/-! ## No page of the global slab -/

/-- **The global slab lists no page.** -/
def Homed (v : View) : Prop := ∀ i k, v.g.cls i = some k → v.g.free i ≠ [] → v.g.home i ≠ none

/-- A slot is put back: a page that was full goes to a cache. -/
theorem Homed.put (hh : Homed v) {q : Option Nat} {k i j : Nat} (hq : q = none → v.g.free i ≠ []) {v' : View}
    (hv : v'.g = v.g.put v.arena q k i j) : Homed v' := by
  intro i' k' hc hf
  rw [hv] at hc hf ⊢
  have hfree : i' ≠ i → (v.g.put v.arena q k i j).free i' = v.g.free i' := fun hii => Function.update_of_ne hii ..
  by_cases hfull : v.g.free i = []
  · have hhome : (v.g.put v.arena q k i j).home = Function.update v.g.home i q := if_pos hfull
    rw [hhome]
    by_cases hii : i' = i
    · rw [hii, Function.update_self]
      exact fun hnone => hq hnone hfull
    · rw [Function.update_of_ne hii]
      exact hh i' k' hc (hfree hii ▸ hf)
  · have hhome : (v.g.put v.arena q k i j).home = v.g.home := if_neg hfull
    rw [hhome]
    by_cases hii : i' = i
    · rw [hii] at hc ⊢
      exact hh i k' hc hfull
    · exact hh i' k' hc (hfree hii ▸ hf)

/-- A slot is served. -/
theorem Homed.serve (hh : Homed v) {p k i j : Nat} {m : Mem} {s : SlabAllocator} {g : Ghost (Option Nat)} {n : Nat}
    (hs : Serves h v p k i j s m g) : Homed (v.serve g p i n) := by
  intro i' k' hc hf
  unfold View.serve at hc hf ⊢
  simp only at hc hf ⊢
  rcases hs.served.listed_cases hc hf with ⟨hhome, _⟩ | ⟨hc', hf', hhome, _⟩
  · exact fun hnone => Option.some_ne_none p (hhome.symm.trans hnone)
  · exact fun hnone => hh i' k' hc' hf' (hhome.symm.trans hnone)

/-- **Step lemma**: a page that goes to the global slab has a free slot already, and stays where it is. -/
theorem Act.homed (ha : Act t D E c c') (hE : ∀ v i, E v i → v.g.free i ≠ []) (hh : Homed c.view) :
    Homed c'.view := by
  cases ha with
  | setup hs => exact nofun
  | pop hp htls htop => exact hh.put (q := some _) nofun rfl
  | serve hs htls hn => exact hh.serve hs
  | put hp hb hvia hptr hk hlone =>
    rename_i h v l q k i j s m b
    exact hh.put (fun hnone => hE v i (hlone hnone)) rfl
  | _ => exact hh

end FerrumAlloc
