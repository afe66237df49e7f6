/-
# FerrumAlloc.Api.Ledger -- what is in use is in somebody's hands

The invariant of the heap says that the view holds something at every live block. Here is the converse:
every used slot that waits on no stack, and every used block of the pool, is a live block (`Ledger`), a slot
that waits is on its stack (`Waiting`), and every mapping of the process is the arena, the cache of a thread,
or a live huge block (`Mapped`).

The first two are kept by every act. The third is about the operating system, where an act is not enough to
know: an empty huge block at the end of its mapping can be taken for metadata. It is followed through the
entry points instead, for requests that do not wrap.
-/
import FerrumAlloc.Api.Owners
import FerrumAlloc.Api.Survival

namespace FerrumAlloc

open Lib
open Tlsf (TlsfAllocator Blk UsedAt)

variable {h h' : Heap} {v v' : View} {l : List Block} {b : Block} {t p n : Nat} {D : Prop}
  {E : View → Nat → Prop} {c c' : Conf} {m : Mem}

/-! ## Slots and blocks of the pool -/

/-- **What is in use is a live block.** -/
structure Ledger (v : View) (l : List Block) : Prop where
  slot : ∀ i k j, v.g.Used i k j → v.role (v.arena.slotAddr i k j) = .live →
    ∃ b ∈ l, b.via = .slab k ∧ b.ptr = v.arena.slotAddr i k j
  pool : ∀ x s, UsedAt v.tlsf.poolStart v.bs x s → ∃ b ∈ l, b.via = .tlsf ∧ b.ptr = x + 16

/-- A slot that is live after another role has been given to the slot at `x`. -/
theorem update_live {role : Nat → SlotRole} {x y : Nat} {r : SlotRole} (hr : r ≠ .live)
    (hy : Function.update role x r y = .live) : role y = .live ∧ y ≠ x := by
  by_cases hyx : y = x
  · rw [hyx, Function.update_self] at hy
    exact absurd hy hr
  · rw [Function.update_of_ne hyx] at hy
    exact ⟨hy, hyx⟩

namespace Ledger

/-- A new block. -/
theorem cons (hl : Ledger v l) (b : Block) : Ledger v (b :: l) where
  slot i k j hu hr := by
    obtain ⟨b', hb', hb''⟩ := hl.slot i k j hu hr
    exact ⟨b', .tail _ hb', hb''⟩
  pool x s hu := by
    obtain ⟨b', hb', hb''⟩ := hl.pool x s hu
    exact ⟨b', .tail _ hb', hb''⟩

/-- A block that is neither a slot nor of the pool is gone. -/
theorem erase (hl : Ledger v l) (hb : b.via = .bump ∨ b.via = .huge) : Ledger v (l.erase b) where
  slot i k j hu hr := by
    obtain ⟨b', hb', hvia, hptr⟩ := hl.slot i k j hu hr
    have hne : b' ≠ b := by
      rintro rfl
      rcases hb with hb | hb <;> nomatch hvia.symm.trans hb
    exact ⟨b', (List.mem_erase_of_ne hne).mpr hb', hvia, hptr⟩
  pool x s hu := by
    obtain ⟨b', hb', hvia, hptr⟩ := hl.pool x s hu
    have hne : b' ≠ b := by
      rintro rfl
      rcases hb with hb | hb <;> nomatch hvia.symm.trans hb
    exact ⟨b', (List.mem_erase_of_ne hne).mpr hb', hvia, hptr⟩

/-- A slot is no longer live: it is put back, or waits on a stack. -/
theorem slotGone {i k j : Nat} {g : Ghost (Option Nat)} {role : Nat → SlotRole} {stack : Nat → List Nat}
    (hl : Ledger v l) (hvia : b.via = .slab k) (hptr : b.ptr = v.arena.slotAddr i k j)
    (hused : ∀ i' k' j', g.Used i' k' j' → v.g.Used i' k' j')
    (hrole : ∀ y, role y = .live → v.role y = .live ∧ y ≠ v.arena.slotAddr i k j) :
    Ledger { v with g := g, role := role, stack := stack } (l.erase b) where
  slot i' k' j' hu hr := by
    obtain ⟨hr', hne⟩ := hrole _ hr
    obtain ⟨b', hb', hvia', hptr'⟩ := hl.slot i' k' j' (hused _ _ _ hu) hr'
    have hne' : b' ≠ b := by
      rintro rfl
      exact hne (hptr'.symm.trans hptr)
    exact ⟨b', (List.mem_erase_of_ne hne').mpr hb', hvia', hptr'⟩
  pool x s hu := by
    obtain ⟨b', hb', hvia', hptr'⟩ := hl.pool x s hu
    have hne' : b' ≠ b := by
      rintro rfl
      nomatch hvia.symm.trans hvia'
    exact ⟨b', (List.mem_erase_of_ne hne').mpr hb', hvia', hptr'⟩

/-- A slot is handed out. -/
theorem serve {k i j : Nat} {s : SlabAllocator} {g : Ghost (Option Nat)} (hl : Ledger v l)
    (hs : Serves h v p k i j s m g) (ha : ArenaSide h v) :
    Ledger (v.serve g p i (v.arena.slotAddr i k j))
      (⟨v.arena.slotAddr i k j, n, .slab k, slotSize k⟩ :: l) where
  slot i' k' j' hu hr := by
    unfold View.serve at hu hr ⊢
    simp only at hu hr ⊢
    have hu' : v.g.Used i' k' j' ∨ i' = i ∧ k' = k ∧ j' = j := (hs.served.used_iff ha.slabs.inv hs.cls).mp hu
    by_cases hx : v.arena.slotAddr i' k' j' = v.arena.slotAddr i k j
    · rcases hu' with hu' | ⟨rfl, rfl, rfl⟩
      · -- an old used slot at the same address would be the new one
        have hnew : g.Used i k j := (hs.served.used_iff ha.slabs.inv hs.cls).mpr (.inr ⟨rfl, rfl, rfl⟩)
        have hinv : SlabInv v.arena m _ g := hs.inv
        obtain ⟨rfl, rfl, rfl⟩ := hinv.slotAddr_inj hu hnew hx
        exact ⟨_, .head _, rfl, rfl⟩
      · exact ⟨_, .head _, rfl, rfl⟩
    · rcases hu' with hu' | ⟨rfl, rfl, rfl⟩
      · rw [Function.update_of_ne hx] at hr
        obtain ⟨b', hb', hb''⟩ := hl.slot i' k' j' hu' hr
        exact ⟨b', .tail _ hb', hb''⟩
      · exact absurd rfl hx
  pool x s hu := by
    obtain ⟨b', hb', hb''⟩ := hl.pool x s hu
    exact ⟨b', .tail _ hb', hb''⟩

end Ledger

/-- **Step lemma.** -/
theorem Act.ledger (ha : Act t D E c c') (hg : Good c.heap c.view c.live) (hl : Ledger c.view c.live) :
    Ledger c'.view c'.live := by
  cases ha with
  | setup hs =>
    refine ⟨fun _ _ _ hu => (by nomatch hu.1), fun x s hu => ?_⟩
    rcases Tlsf.usedAt_cons.mp hu with ⟨_, hb⟩ | hu
    · nomatch hb
    · nomatch hu
  | attempt | create => exact ⟨hl.slot, hl.pool⟩
  | pop hp htls htop =>
    rename_i h v l p k i j s m
    refine ⟨fun i' k' j' hu hr => ?_, hl.pool⟩
    unfold View.pop View.put at hu hr
    simp only at hu hr
    exact hl.slot i' k' j' ((Ghost.used_put hp.used).mp hu).1 (update_live (r := .free) nofun hr).1
  | serve hs htls hn => exact hl.serve hs (hg.arena hs.init)
  | put hp hb hvia hptr hk hlone =>
    exact hl.slotGone hvia hptr (fun i' k' j' hu => ((Ghost.used_put hp.used).mp hu).1)
      fun y hy => update_live (r := .free) nofun hy
  | push hinit hu hb hvia hptr =>
    refine hl.slotGone hvia hptr (fun _ _ _ hu => hu) fun y hy => ?_
    rw [← hptr]
    exact update_live (r := .stacked _) nofun hy
  | carve hinit hn hal =>
    rename_i h v l n p tlsf m bs L
    obtain ⟨x, s, hp, _, _, _, hused⟩ := hal.carve.used
    have hstart : tlsf.poolStart = v.tlsf.poolStart := hal.start_eq
    refine ⟨(hl.cons _).slot, fun y s' hu => ?_⟩
    have hu' : UsedAt v.tlsf.poolStart bs y s' := by
      rw [← hstart]
      exact hu
    rcases (hused y s').mp hu' with hold | ⟨rfl, rfl⟩
    · exact (hl.cons _).pool y s' hold
    · exact ⟨_, .head _, rfl, hp⟩
  | release hinit hb hvia hr =>
    rename_i h v l b tlsf m bs L
    obtain ⟨_, hused⟩ := hr.release.used
    have hstart : tlsf.poolStart = v.tlsf.poolStart := hr.start_eq
    refine ⟨fun i k j hu hrole => ?_, fun y s' hu => ?_⟩
    · obtain ⟨b', hb', hvia', hptr'⟩ := hl.slot i k j hu hrole
      have hne : b' ≠ b := by
        rintro rfl
        nomatch hvia.symm.trans hvia'
      exact ⟨b', (List.mem_erase_of_ne hne).mpr hb', hvia', hptr'⟩
    · have hu' : UsedAt v.tlsf.poolStart bs y s' := by
        rw [← hstart]
        exact hu
      obtain ⟨hold, hy⟩ := (hused y s').mp hu'
      obtain ⟨b', hb', hvia', hptr'⟩ := hl.pool y s' hold
      have hne : b' ≠ b := by
        rintro rfl
        exact hy hptr'.symm
      exact ⟨b', (List.mem_erase_of_ne hne).mpr hb', hvia', hptr'⟩
  | issue | map => exact hl.cons _
  | unmap hb hvia => exact hl.erase (.inr hvia)
  | leak hb hvia => exact hl.erase (hvia.imp_right And.left)

/-! ## Nodes -/

/-- **Every slot that waits is on its stack.** -/
def Waiting (v : View) : Prop := ∀ x p, v.role x = .stacked p → x ∈ v.stack p

/-- A slot that waits after another role has been given to the slot at `x`. -/
theorem Waiting.update {role : Nat → SlotRole} {x y : Nat} {r : SlotRole} (hr : ∀ p, r ≠ .stacked p)
    (hy : Function.update role x r y = .stacked p) : role y = .stacked p ∧ y ≠ x := by
  by_cases hyx : y = x
  · rw [hyx, Function.update_self] at hy
    exact absurd hy (hr p)
  · rw [Function.update_of_ne hyx] at hy
    exact ⟨hy, hyx⟩

/-- **Step lemma.** -/
theorem Act.waiting (ha : Act t D E c c') (hg : Good c.heap c.view c.live) (hw : Waiting c.view) :
    Waiting c'.view := by
  cases ha with
  | setup hs => exact nofun
  | serve hs htls hn => exact fun y q hy => hw y q (Waiting.update (r := .live) nofun hy).1
  | put hp hb hvia hptr hk hlone => exact fun y q hy => hw y q (Waiting.update (r := .free) nofun hy).1
  | push hinit hu hb hvia hptr =>
    rename_i h v l k i j b
    intro y q hy
    unfold View.push at hy ⊢
    simp only at hy ⊢
    by_cases hyx : y = b.ptr
    · rw [hyx, Function.update_self] at hy
      obtain rfl := SlotRole.stacked.inj hy
      rw [hyx, Function.update_self]
      exact .head _
    · rw [Function.update_of_ne hyx] at hy
      by_cases hq : q = h.registry (v.g.owner i)
      · rw [hq, Function.update_self]
        exact .tail _ (hq ▸ hw y q hy)
      · rw [Function.update_of_ne hq]
        exact hw y q hy
  | pop hp htls htop =>
    rename_i h v l p k i j s m
    have hside := hg.arena hp.init
    have hne : h.remote p ≠ 0 := by
      rw [htop]
      exact hside.slotAddr_ne i k j
    obtain ⟨rest, hstack, _⟩ := (hside.slabs.stack p).tail hne
    intro y q hy
    obtain ⟨hy', hyx⟩ := Waiting.update (r := .free) nofun hy
    have hmem : y ∈ v.stack q := hw y q hy'
    show y ∈ Function.update v.stack p (v.stack p).tail q
    by_cases hq : q = p
    · subst hq
      rw [Function.update_self, hstack, List.tail_cons]
      rw [hstack, htop] at hmem
      exact (List.mem_cons.mp hmem).resolve_left hyx
    · rw [Function.update_of_ne hq]
      exact hmem
  | _ => exact hw

/-! ## Mappings -/

/-- **Every mapping is accounted for**: the arena, the cache of a thread, or a live huge block. -/
def Mapped (h : Heap) (l : List Block) : Prop :=
  ∀ r ∈ h.os.maps, (∃ a, h.globalArena = some a ∧ r = ⟨a.base, 2097152⟩) ∨
    (∃ t, h.tls t ≠ 0 ∧ r = ⟨h.tls t, 4096⟩) ∨ ∃ b ∈ l, b.via = .huge ∧ r = b.region

/-- Between the two heaps arena and caches stay, and a new mapping is one of them. -/
structure Grows (h h' : Heap) : Prop where
  arena : ∀ a, h.globalArena = some a → h'.globalArena = some a
  tls : ∀ t, h.tls t ≠ 0 → h'.tls t = h.tls t
  maps : ∀ r ∈ h'.os.maps, r ∈ h.os.maps ∨ (∃ a, h'.globalArena = some a ∧ r = ⟨a.base, 2097152⟩) ∨
    ∃ t, h'.tls t ≠ 0 ∧ r = ⟨h'.tls t, 4096⟩

namespace Grows

theorem same (harena : h'.globalArena = h.globalArena) (htls : h'.tls = h.tls)
    (hmaps : h'.os.maps = h.os.maps) : Grows h h' :=
  ⟨fun _ ha => harena.trans ha, fun _ _ => by rw [htls], fun _ hr => .inl (hmaps ▸ hr)⟩

theorem refl (h : Heap) : Grows h h := same rfl rfl rfl

theorem trans {h₁ h₂ h₃ : Heap} (h12 : Grows h₁ h₂) (h23 : Grows h₂ h₃) : Grows h₁ h₃ where
  arena a ha := h23.arena a (h12.arena a ha)
  tls t ht := (h23.tls t (by rw [h12.tls t ht]; exact ht)).trans (h12.tls t ht)
  maps r hr := by
    rcases h23.maps r hr with hr | hr
    · rcases h12.maps r hr with hr | ⟨a, ha, hr⟩ | ⟨t, ht, hr⟩
      · exact .inl hr
      · exact .inr (.inl ⟨a, h23.arena a ha, hr⟩)
      · refine .inr (.inr ⟨t, ?_, ?_⟩)
        · rw [h23.tls t ht]
          exact ht
        · rw [h23.tls t ht]
          exact hr
    · exact .inr hr

theorem setSlab (h : Heap) (k : Option Nat) (s : SlabAllocator) (m : Mem) : Grows h (h.setSlab k s m) := by
  cases k <;> exact same rfl rfl rfl

/-- The arena is set up. -/
theorem setup {a : Arena} {tlsf : TlsfAllocator} (hs : Sets h a tlsf m) (hg : Good h v l) :
    Grows h (h.setup a tlsf m) where
  arena a' ha := by
    rw [(hg.booting hs.init).arena] at ha
    nomatch ha
  tls t ht := by
    have hmade := hg.threads.tls t ht
    rw [(hg.booting hs.init).made] at hmade
    nomatch hmade
  maps r hr := by
    rcases List.mem_cons.mp hr with rfl | hr
    · exact .inr (.inl ⟨a, rfl, rfl⟩)
    · exact .inl hr

/-- A cache is made. -/
theorem create (hc : Creates h t p m) : Grows h (h.create t p m) where
  arena _ ha := ha
  tls t' ht := by
    have hne : t' ≠ t := by
      rintro rfl
      exact ht hc.none
    exact Function.update_of_ne hne ..
  maps r hr := by
    rcases List.mem_cons.mp hr with rfl | hr
    · have htls : (h.create t p m).tls t = p := Function.update_self ..
      refine .inr (.inr ⟨t, ?_, ?_⟩)
      · rw [htls]
        exact Nat.ne_of_gt hc.grant.1
      · rw [htls]
    · exact .inl hr

end Grows

theorem ensureInit_grows {a : Option Nat} (hg : Good h v l) (hrun : ensureInit h a = .ok h') :
    Grows h h' := by
  rcases ensureInit_spec hg.lock a with ⟨_, hrun'⟩ | ⟨_, _, hrun'⟩ | ⟨x, tlsf, m, _, hs, hrun'⟩
  · obtain rfl := Except.ok.inj (hrun.symm.trans hrun')
    exact .refl h'
  · obtain rfl := Except.ok.inj (hrun.symm.trans hrun')
    exact .refl h'
  · obtain rfl := Except.ok.inj (hrun.symm.trans hrun')
    exact .setup hs hg

theorem getOrCreate_grows {a o : Option Nat} (hg : Good h v l) (hinit : h.arenaInit = true)
    (hrun : getOrCreate h t a = (h', o)) : Grows h h' := by
  rcases getOrCreate_spec hinit (hg.arena hinit).ready t a with ⟨_, hrun'⟩ | ⟨_, hrun'⟩ | ⟨p, m, _, hc, hrun'⟩
  · obtain ⟨rfl, _⟩ := Prod.mk.inj (hrun.symm.trans hrun')
    exact .refl _
  · obtain ⟨rfl, _⟩ := Prod.mk.inj (hrun.symm.trans hrun')
    exact .same rfl rfl rfl
  · obtain ⟨rfl, _⟩ := Prod.mk.inj (hrun.symm.trans hrun')
    exact .create hc

theorem readyCache_grows {a o : Option Nat} (hg : Good h v l) (hinit : h.arenaInit = true)
    (hrun : readyCache h t a = .ok (h', o)) : Grows h h' := by
  rcases readyCache_spec hg hinit t a with ⟨_, hrun'⟩ | ⟨_, s, m, v', hrun', _⟩ | ⟨p, m, _, hc, hrun'⟩
  · obtain ⟨rfl, _⟩ := Prod.mk.inj (Except.ok.inj (hrun.symm.trans hrun'))
    exact .same rfl rfl rfl
  · obtain ⟨rfl, _⟩ := Prod.mk.inj (Except.ok.inj (hrun.symm.trans hrun'))
    exact .same rfl rfl rfl
  · obtain ⟨rfl, _⟩ := Prod.mk.inj (Except.ok.inj (hrun.symm.trans hrun'))
    exact .create hc

theorem mallocSlow_grows {r : Heap × Nat × Backend} (hg : Good h v l) (hinit : h.arenaInit = true)
    (hpos : 0 < n) (hlt : n < hugeAllocThreshold) (hrun : mallocSlow h n = .ok r) : Grows h r.1 := by
  rcases mallocSlow_spec hg hinit hpos hlt with ⟨hrun', _⟩ | ⟨m, _, _, hrun'⟩ | ⟨tlsf, m, bs, L, p, _, _, hrun'⟩
  · obtain rfl := Except.ok.inj (hrun.symm.trans hrun')
    exact .refl h
  · obtain rfl := Except.ok.inj (hrun.symm.trans hrun')
    exact .same rfl rfl rfl
  · obtain rfl := Except.ok.inj (hrun.symm.trans hrun')
    exact .same rfl rfl rfl

/-- **`ferrum_malloc`** maps the arena and a cache, and one huge block if it returns one. -/
theorem ferrumMalloc_grows {ans : Answers} {r : Heap × Nat × Backend} (hg : Good h v l)
    (hrun : ferrumMalloc h t n ans = .ok r) :
    Grows h r.1 ∨ ∃ h₁ base os, Grows h h₁ ∧ Maps h₁ n base os ∧ r = (h₁.setOs os, base + 4096, .huge) := by
  by_cases h0 : n = 0
  · subst h0
    rw [ferrumMalloc_zero] at hrun
    obtain rfl := Except.ok.inj hrun
    exact .inl (.refl h)
  have hpos : 0 < n := Nat.pos_of_ne_zero h0
  have hhuge : ∀ {h₁}, Grows h h₁ → Except.ok (heapHugeAlloc h₁ n ans.huge) = Except.ok (ε := Fault) r →
      Grows h r.1 ∨ ∃ h₁ base os, Grows h h₁ ∧ Maps h₁ n base os ∧ r = (h₁.setOs os, base + 4096, .huge) := by
    intro h₁ hgr heq
    obtain rfl := Except.ok.inj heq
    rcases heapHugeAlloc_spec h₁ n ans.huge with ⟨hnull, _⟩ | ⟨base, os, _, hm, halloc⟩
    · rw [hnull]
      exact .inl hgr
    · exact .inr ⟨h₁, base, os, hgr, hm, halloc⟩
  rcases ensureInit_leads (D := True) (E := Anywhere) hg t ans.arena with
    ⟨hinit, _, hens⟩ | ⟨h₁, v₁, hens, hleads, hinit₁, _, _⟩
  · rw [ferrumMalloc_refused hg hinit h0 hens] at hrun
    split at hrun
    · exact hhuge (.refl h) hrun
    · nomatch hrun
  · have hg₁ : Good h₁ v₁ l := hleads.good hg
    have hgr := ensureInit_grows hg hens
    rw [ferrumMalloc_ensured h0 hens hinit₁, ferrumMalloc_eq hinit₁ hpos] at hrun
    by_cases hge : n ≥ hugeAllocThreshold
    · rw [if_pos hge] at hrun
      exact hhuge hgr hrun
    left
    have hlt : n < hugeAllocThreshold := Nat.lt_of_not_le hge
    rw [if_neg hge] at hrun
    by_cases hsmall : n ≤ slabMaxSize
    · rw [if_pos hsmall] at hrun
      obtain ⟨h₂, v₂, o, hready, hleads₂, hinit₂, hsome⟩ :=
        readyCache_leads (D := True) (E := Anywhere) hg₁ hinit₁ t ans.cache fun _ => trivial
      have hg₂ : Good h₂ v₂ l := hleads₂.good hg₁
      have hgr₂ := hgr.trans (readyCache_grows hg₁ hinit₁ hready)
      rw [hready] at hrun
      cases o with
      | none => exact hgr₂.trans (mallocSlow_grows hg₂ hinit₂ hpos hlt hrun)
      | some p =>
        obtain ⟨hp, htls⟩ := hsome p rfl
        have hc := (sizeToClass_spec (sizeToClass_of_le hsmall)).1
        rcases cacheAlloc_spec hg₂ hinit₂ htls hp hc with ⟨halloc, _⟩ | ⟨s, m, g, i, j, hs, halloc⟩
        · simp only [Exec.bind_ok, halloc, ne_eq, not_true_eq_false, if_false] at hrun
          exact hgr₂.trans (mallocSlow_grows hg₂ hinit₂ hpos hlt hrun)
        · simp only [Exec.bind_ok, halloc, ne_eq, (hg₂.arena hinit₂).slotAddr_ne _ _ _, not_false_eq_true,
            if_true, Exec.pure_eq] at hrun
          obtain rfl := Except.ok.inj hrun
          exact hgr₂.trans (Grows.setSlab h₂ (some p) s m)
    · rw [if_neg hsmall] at hrun
      exact hgr.trans (mallocSlow_grows hg₁ hinit₁ hpos hlt hrun)

/-- **`ferrum_free`** may set up the arena and make a cache first; then it takes the block. -/
theorem ferrumFree_freed {ans : Answers} (hg : Good h v l) (hb : b ∈ l)
    (hrun : ferrumFree h t b.ptr ans = .ok h') :
    ∃ h₁ v₁ o v', Path t True E ⟨h, v, l⟩ ⟨h₁, v₁, l⟩ ∧ Grows h h₁ ∧ h₁.arenaInit = true ∧
      (∀ p, o = some p → h₁.tls t = p) ∧
      (o = none → h.arenaInit = true → Cacheless h t ans.cache ∧ v₁ = v) ∧ Freed h₁ v₁ b o h' v' := by
  rcases ensureInit_leads (D := True) (E := E) hg t ans.arena with
    ⟨hinit, _, hens⟩ | ⟨h₁, v₁, hens, hleads, hinit₁, _, hsame⟩
  · rw [ferrumFree_refused hg hinit hb hens] at hrun
    nomatch hrun
  · have hg₁ : Good h₁ v₁ l := hleads.good hg
    obtain ⟨h₂, v₂, o, hget, hleads₂, hinit₂, hnone, hsome⟩ :=
      getOrCreate_leads (D := True) (E := E) hg₁ hinit₁ t ans.cache fun _ => trivial
    have hg₂ : Good h₂ v₂ l := hleads₂.good hg₁
    have hptr := hg.ptr_ne hb
    obtain ⟨h₃, v', hfree, hfreed⟩ := freeBlock_spec hg₂ hinit₂ hb o hsome
    rw [ferrumFree_ensured hptr hens hinit₁, ferrumFree_eq hinit₁ hptr hget, hfree] at hrun
    obtain rfl := Except.ok.inj hrun
    refine ⟨h₂, v₂, o, v', hleads.path.trans hleads₂.path,
      (ensureInit_grows hg hens).trans (getOrCreate_grows hg₁ hinit₁ hget), hinit₂,
      fun p hp => (hsome p hp).2, fun ho hinit => ?_, hfreed⟩
    obtain ⟨rfl, rfl⟩ := hsame hinit
    exact hnone ho

namespace Mapped

variable {l' : List Block}

theorem grows (hm : Mapped h l) (hgr : Grows h h') (hl : ∀ b ∈ l, b.via = .huge → b ∈ l') :
    Mapped h' l' := by
  intro r hr
  rcases hgr.maps r hr with hr | hr | hr
  · rcases hm r hr with ⟨a, ha, hr⟩ | ⟨t, ht, hr⟩ | ⟨b, hb, hvia, hr⟩
    · exact .inl ⟨a, hgr.arena a ha, hr⟩
    · refine .inr (.inl ⟨t, ?_, ?_⟩)
      · rw [hgr.tls t ht]
        exact ht
      · rw [hgr.tls t ht]
        exact hr
    · exact .inr (.inr ⟨b, hl b hb hvia, hvia, hr⟩)
  · exact .inl hr
  · exact .inr (.inl hr)

/-- A huge block is mapped. -/
theorem map {base : Nat} {os : Os} (hm : Mapped h l) (hmaps : Maps h n base os) (hb : b.via = .huge)
    (hreg : b.region = ⟨base, hugeTotal n⟩) : Mapped (h.setOs os) (b :: l) := by
  intro r hr
  have hr' : r ∈ os.maps := hr
  rw [hmaps.maps] at hr'
  rcases List.mem_cons.mp hr' with rfl | hr'
  · exact .inr (.inr ⟨b, .head _, hb, hreg.symm⟩)
  · exact (hm.grows (.refl h) fun _ hb _ => .tail _ hb) r hr'

/-- A block is freed, other than an empty one that is taken for metadata. -/
theorem freed {cache : Option Nat} (hm : Mapped h l) (hg : Good h v l) (hb : b ∈ l)
    (hcap : b.via = .huge → b.cap ≠ 0) (hf : Freed h v b cache h' v') : Mapped h' (l.erase b) := by
  have hkeep : b.via ≠ .huge → ∀ b' ∈ l, b'.via = .huge → b' ∈ l.erase b := by
    intro hvia b' hb' hvia'
    have hne : b' ≠ b := by
      rintro rfl
      exact hvia hvia'
    exact (List.mem_erase_of_ne hne).mpr hb'
  cases hf with
  | put hvia _ _ _ => exact hm.grows (.setSlab ..) (hkeep (by rw [hvia]; nofun))
  | push hvia _ _ _ _ _ => exact hm.grows (.same rfl rfl rfl) (hkeep (by rw [hvia]; nofun))
  | release hvia _ _ => exact hm.grows (.same rfl rfl rfl) (hkeep (by rw [hvia]; nofun))
  | bump hvia => exact hm.grows (.refl h) (hkeep (by rw [hvia]; nofun))
  | leak hvia _ h0 => exact absurd h0 (hcap hvia)
  | unmap hvia _ =>
    intro r hr
    have hr' : r ∈ h.os.maps.erase b.region := hr
    rcases hm r (List.mem_of_mem_erase hr') with hr | hr | ⟨b', hb', hvia', rfl⟩
    · exact .inl hr
    · exact .inr (.inl hr)
    · refine .inr (.inr ⟨b', ?_, hvia', rfl⟩)
      have hne : b' ≠ b := by
        rintro rfl
        exact hg.maps.not_mem_erase hr'
      exact (List.mem_erase_of_ne hne).mpr hb'

end Mapped

end FerrumAlloc
