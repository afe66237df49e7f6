/-
# FerrumAlloc.Api.Mapped -- who holds which mapping

The allocator holds the mapping of the arena, one page for each cache, and one mapping for each huge block
(`Conf.owned`). The process may have others: those of other allocators, and single pages that a freed empty
block has left behind. No act takes or gives back a mapping of others, and none writes into one: all that is
written lies in mappings of the allocator (`Act.writes`).

The run lemma is about a process without other allocators: every mapping larger than a page is in use
(`reachable_mappings`).
-/
import FerrumAlloc.Api.Resize

namespace FerrumAlloc

open Lib

/-- The mappings of the huge blocks. -/
def hugeMaps (l : List Block) : List Region := (l.filter fun b => b.via = .huge).map Block.region

namespace Conf

/-- The mappings the allocator holds. -/
def owned (c : Conf) : List Region :=
  (if c.heap.arenaInit then [⟨c.view.arena.base, 2097152⟩] else []) ++
    (c.view.made.map (fun p => ⟨p, 4096⟩) ++ hugeMaps c.live)

/-- The bytes of these. -/
def ground (c : Conf) : Set Nat := {z | ∃ r ∈ c.owned, z ∈ r.bytes}

/-- The mappings of the process are those of the allocator and `X`. -/
def Holds (c : Conf) (X : List Region) : Prop := c.heap.os.maps.Perm (c.owned ++ X)

end Conf

variable {h : Heap} {v : View} {l : List Block} {b : Block} {c c' : Conf} {X Y : List Region} {r r' : Region}
  {t z : Nat} {D : Prop} {E : View → Nat → Prop} {m : Mem} {S : Set Nat}

/-! ## Huge blocks -/

theorem hugeMaps_cons_huge (hvia : b.via = .huge) : hugeMaps (b :: l) = b.region :: hugeMaps l := by
  unfold hugeMaps
  have hcons := List.filter_cons_of_pos (p := fun b : Block => b.via = .huge) (l := l) (decide_eq_true hvia)
  rw [hcons, List.map_cons]

theorem hugeMaps_cons_of_ne (hvia : b.via ≠ .huge) : hugeMaps (b :: l) = hugeMaps l := by
  unfold hugeMaps
  have hcons := List.filter_cons_of_neg (p := fun b : Block => b.via = .huge) (l := l) (by simpa using hvia)
  rw [hcons]

theorem hugeMaps_perm {l' : List Block} (hp : l.Perm l') : (hugeMaps l).Perm (hugeMaps l') := (hp.filter _).map _

theorem hugeMaps_erase (hb : b ∈ l) (hvia : b.via = .huge) :
    (hugeMaps l).Perm (b.region :: hugeMaps (l.erase b)) := by
  rw [← hugeMaps_cons_huge hvia]
  exact hugeMaps_perm (List.perm_cons_erase hb)

theorem hugeMaps_erase_of_ne (hb : b ∈ l) (hvia : b.via ≠ .huge) :
    (hugeMaps (l.erase b)).Perm (hugeMaps l) := by
  rw [← hugeMaps_cons_of_ne (l := l.erase b) hvia]
  exact hugeMaps_perm (List.perm_cons_erase hb).symm

/-- The mapping of a block just mapped. -/
theorem Maps.region_eq {n base : Nat} {os : Os} (hm : Maps h n base os) :
    Block.region ⟨base + 4096, n, .huge, hugeTotal n - 4096⟩ = ⟨base, hugeTotal n⟩ := by
  have hpos := hm.huge.pos
  unfold Block.region
  rw [Nat.add_sub_cancel, Nat.sub_add_cancel hpos]

/-! ## What the allocator holds -/

namespace Conf

theorem mem_owned : r ∈ c.owned ↔ (c.heap.arenaInit = true ∧ r = ⟨c.view.arena.base, 2097152⟩) ∨
    (∃ p ∈ c.view.made, r = ⟨p, 4096⟩) ∨ ∃ b ∈ c.live, b.via = .huge ∧ r = b.region := by
  unfold owned hugeMaps
  rw [List.mem_append, List.mem_append, List.mem_map, List.mem_map]
  refine or_congr ?_ (or_congr ?_ ?_)
  · cases c.heap.arenaInit <;> simp
  · exact exists_congr fun p => and_congr_right fun _ => eq_comm
  · refine exists_congr fun b => ?_
    rw [List.mem_filter, decide_eq_true_iff, and_assoc]
    exact and_congr_right fun _ => and_congr_right fun _ => eq_comm

theorem arena_ground (hinit : c.heap.arenaInit = true) (hz : c.view.arena.zone z ≠ .outside) : z ∈ c.ground := by
  refine ⟨_, mem_owned.mpr (.inl ⟨hinit, rfl⟩), ?_⟩
  by_contra hout
  exact hz (zone_outside_iff.mpr hout)

theorem owned_ground (hr : r ∈ c.owned) : r.bytes ⊆ c.ground := fun _ hz => ⟨r, hr, hz⟩

namespace Holds

theorem owned_mem (hX : c.Holds X) (hr : r ∈ c.owned) : r ∈ c.heap.os.maps :=
  hX.mem_iff.mpr (List.mem_append_left X hr)

theorem other_mem (hX : c.Holds X) (hr : r ∈ X) : r ∈ c.heap.os.maps :=
  hX.mem_iff.mpr (List.mem_append_right c.owned hr)

/-- The mappings of others are apart from those of the allocator. -/
theorem disjoint (hX : c.Holds X) (hm : Mappings c.heap.os.maps) (hr : r ∈ X) (hr' : r' ∈ c.owned) :
    r.Disjoint r' := by
  have hpair := (hX.pairwise_iff fun hd => hd.symm).mp hm.apart
  exact ((List.pairwise_append.mp hpair).2.2 r' hr' r hr).symm

theorem other_ground (hX : c.Holds X) (hm : Mappings c.heap.os.maps) (hr : r ∈ X) (hz : z ∈ r.bytes) :
    z ∉ c.ground := by
  rintro ⟨r', hr', hz'⟩
  exact (hX.disjoint hm hr hr').not_mem hz hz'

end Holds

end Conf

open Conf

/-- Every block lies in one of the mappings that the allocator holds. -/
theorem Good.extent_owned (hg : Good h v l) (hb : b ∈ l) : ∃ r ∈ Conf.owned ⟨h, v, l⟩, b.extent ⊆ r.bytes := by
  have hplaced := hg.placed b hb
  by_cases hvia : b.via = .huge
  · exact ⟨b.region, mem_owned.mpr (.inr (.inr ⟨b, hb, hvia, rfl⟩)), fun z => (hplaced.mapBlock hvia).mem_region⟩
  · have hinit := hg.init_of_via hb hvia
    refine ⟨⟨v.arena.base, 2097152⟩, mem_owned.mpr (.inl ⟨hinit, rfl⟩), fun z hz => ?_⟩
    have hin := hplaced.inside (hg.arena hinit) hg.maps hvia hz
    rw [Region.mem_bytes]
    simp only
    omega

theorem Good.extent_ground (hg : Good h v l) (hb : b ∈ l) : b.extent ⊆ Conf.ground ⟨h, v, l⟩ := by
  obtain ⟨r, hr, hextent⟩ := hg.extent_owned hb
  exact hextent.trans (owned_ground hr)

/-! ## What an act does to mappings -/

/-- **What an act can do.** Nothing, or a mapping is granted or given back, or a page is forgotten. -/
inductive Exchange (c c' : Conf) : Prop
  | same : c'.heap.os.maps = c.heap.os.maps → c'.owned.Perm c.owned → Exchange c c'
  | grant {r : Region} : c'.heap.os.maps = r :: c.heap.os.maps → c'.owned.Perm (r :: c.owned) → Exchange c c'
  | give {r : Region} : c'.heap.os.maps = c.heap.os.maps.erase r → c.owned.Perm (r :: c'.owned) → Exchange c c'
  | lose {r : Region} : c'.heap.os.maps = c.heap.os.maps → c.owned.Perm (r :: c'.owned) → r.size = 4096 →
      Exchange c c'

/-- **Others keep their mappings**, and at most a page joins them. -/
theorem Exchange.holds (he : Exchange c c') (hX : c.Holds X) :
    ∃ Y, c'.Holds (Y ++ X) ∧ ∀ r ∈ Y, r.size = 4096 := by
  unfold Holds at hX ⊢
  cases he with
  | same hmaps howned =>
    rw [hmaps]
    exact ⟨[], hX.trans (howned.symm.append_right X), nofun⟩
  | grant hmaps howned =>
    rw [hmaps]
    exact ⟨[], (hX.cons _).trans (howned.symm.append_right X), nofun⟩
  | give hmaps howned =>
    rename_i r
    have hcons := hX.trans (howned.append_right X)
    have herase := hcons.erase r
    rw [List.cons_append, List.erase_cons_head] at herase
    rw [hmaps]
    exact ⟨[], herase, nofun⟩
  | lose hmaps howned hsize =>
    rename_i r
    rw [hmaps]
    refine ⟨[r], ?_, fun r' hr' => List.mem_singleton.mp hr' ▸ hsize⟩
    exact hX.trans ((howned.append_right X).trans List.perm_middle.symm)

/-- A change of the live blocks only. -/
theorem owned_same {h h' : Heap} {v v' : View} {l l' : List Block} (hinit : h'.arenaInit = h.arenaInit)
    (harena : v'.arena = v.arena) (hmade : v'.made = v.made) (hlive : (hugeMaps l').Perm (hugeMaps l)) :
    (Conf.owned ⟨h', v', l'⟩).Perm (Conf.owned ⟨h, v, l⟩) := by
  unfold Conf.owned
  simp only [hinit, harena, hmade]
  exact (hlive.append_left _).append_left _

/-- One huge block more. -/
theorem owned_huge {h h' : Heap} {v : View} {l l' : List Block} (hinit : h'.arenaInit = h.arenaInit)
    (hlive : (hugeMaps l').Perm (r :: hugeMaps l)) :
    (Conf.owned ⟨h', v, l'⟩).Perm (r :: Conf.owned ⟨h, v, l⟩) := by
  unfold Conf.owned
  simp only [hinit]
  have hmiddle := (hlive.append_left (v.made.map fun p => (⟨p, 4096⟩ : Region))).trans List.perm_middle
  exact (hmiddle.append_left _).trans List.perm_middle

/-- **Step lemma**, one case per act. -/
theorem Act.exchange (ha : Act t D E c c') (hg : Good c.heap c.view c.live) : Exchange c c' := by
  have hslab : ∀ {b : Block} {c : Nat}, b.via = .slab c → b.via ≠ .huge := fun hvia => by
    rw [hvia]
    nofun
  cases ha with
  | setup hs =>
    rename_i h v l a tlsf m
    refine .grant (r := ⟨a.base, 2097152⟩) rfl ?_
    unfold Conf.owned
    rw [hs.init, (hg.booting hs.init).made]
    exact .refl _
  | attempt _ _ => exact .same rfl (owned_same rfl rfl rfl (.refl _))
  | create hc _ =>
    refine .grant rfl ?_
    unfold Conf.owned
    exact List.perm_middle
  | pop _ _ _ => exact .same rfl (owned_same rfl rfl rfl (.refl _))
  | serve _ _ _ =>
    refine .same rfl (owned_same rfl rfl rfl ?_)
    rw [hugeMaps_cons_of_ne (by nofun)]
  | put hp hb hvia hptr hk hno =>
    rename_i h v l k c i j s m b
    have hmaps : (h.setSlab k s m).os.maps = h.os.maps := by cases k <;> rfl
    have hinit : (h.setSlab k s m).arenaInit = h.arenaInit := by cases k <;> rfl
    exact .same hmaps (owned_same hinit rfl rfl (hugeMaps_erase_of_ne hb (hslab hvia)))
  | push _ _ hb hvia _ => exact .same rfl (owned_same rfl rfl rfl (hugeMaps_erase_of_ne hb (hslab hvia)))
  | carve _ _ _ =>
    refine .same rfl (owned_same rfl rfl rfl ?_)
    rw [hugeMaps_cons_of_ne (by nofun)]
  | release _ hb hvia _ =>
    refine .same rfl (owned_same rfl rfl rfl (hugeMaps_erase_of_ne hb ?_))
    rw [hvia]
    nofun
  | issue _ =>
    refine .same rfl (owned_same rfl rfl rfl ?_)
    rw [hugeMaps_cons_of_ne (by nofun)]
  | map hm =>
    refine .grant hm.maps (owned_huge rfl ?_)
    rw [hugeMaps_cons_huge rfl, hm.region_eq]
  | unmap hb hvia => exact .give rfl (owned_huge rfl (hugeMaps_erase hb hvia))
  | leak hb hwhy =>
    rename_i h v l b
    rcases hwhy with hvia | ⟨hvia, hcap⟩
    · refine .same rfl (owned_same rfl rfl rfl (hugeMaps_erase_of_ne hb ?_))
      rw [hvia]
      nofun
    · refine .lose (r := b.region) rfl (owned_huge rfl (hugeMaps_erase hb hvia)) ?_
      show b.cap + 4096 = 4096
      rw [hcap]

/-! ## What an act writes -/

/-- A change inside the arena. -/
theorem eqOn_ground (hm : Set.EqOn m h.os.bytes Sᶜ) (hinit : h.arenaInit = true)
    (hS : ∀ z ∈ S, v.arena.zone z ≠ .outside) : Set.EqOn m h.os.bytes (Conf.ground ⟨h, v, l⟩)ᶜ :=
  eqOn_compl_mono hm fun z hz => arena_ground hinit (hS z hz)

theorem Puts.writes {k : Option Nat} {c i j : Nat} {s : SlabAllocator} (hp : Puts h v k c i j s m)
    (hg : Good h v l) : Set.EqOn m h.os.bytes (Conf.ground ⟨h, v, l⟩)ᶜ := by
  refine eqOn_ground hp.bytes hp.init fun z hz hout => ?_
  rcases (hg.arena hp.init).zone_freeBytes hp.used hz with hzone | hzone <;> nomatch hzone.symm.trans hout

/-- **All that an act writes** lies in mappings that the allocator holds, before or after it. -/
theorem Act.writes (ha : Act t D E c c') (hg : Good c.heap c.view c.live) :
    Set.EqOn c'.heap.os.bytes c.heap.os.bytes (c.ground ∪ c'.ground)ᶜ := by
  have hg' := (ha.kept hg).good
  have hbefore : ∀ {m : Mem}, Set.EqOn m c.heap.os.bytes c.groundᶜ →
      Set.EqOn m c.heap.os.bytes (c.ground ∪ c'.ground)ᶜ := fun hm =>
    eqOn_compl_mono hm Set.subset_union_left
  have hafter : ∀ {m : Mem} {r : Region}, r ∈ c'.owned → Set.EqOn m c.heap.os.bytes r.bytesᶜ →
      Set.EqOn m c.heap.os.bytes (c.ground ∪ c'.ground)ᶜ := fun hr hm =>
    eqOn_compl_mono hm ((owned_ground hr).trans Set.subset_union_right)
  cases ha with
  | setup hs => exact hafter (mem_owned.mpr (.inl ⟨rfl, rfl⟩)) hs.bytes
  | attempt _ _ => exact Set.eqOn_refl _ _
  | create hc _ => exact hafter (mem_owned.mpr (.inr (.inl ⟨_, List.mem_cons_self, rfl⟩))) hc.bytes
  | pop hp _ _ => exact hbefore (hp.writes hg)
  | serve hs _ _ =>
    refine hbefore (eqOn_ground hs.bytes hs.init fun z hz hout => ?_)
    rcases (hg.arena hs.init).zone_allocBytes hs.room hz with hzone | hzone <;> nomatch hzone.symm.trans hout
  | put hp hb hvia hptr hk hno =>
    rename_i h v l k c i j s m b
    have hbytes : (h.setSlab k s m).os.bytes = m := by cases k <;> rfl
    show Set.EqOn (h.setSlab k s m).os.bytes _ _
    rw [hbytes]
    exact hbefore (hp.writes hg)
  | push hinit hu _ _ hptr =>
    rename_i h v l c i j b
    have ha := hg.arena hinit
    refine hbefore (eqOn_ground (write64_eqOn _ _ _) hinit fun z hz => ?_)
    obtain ⟨h1, h2⟩ := hz
    have hzone := ha.slabs.zone_used hu (SlabSide.node_subset_slot (ha.slabs.inv.used_lt hu) hptr h1 h2)
    rw [hzone]
    nofun
  | carve hinit _ hal =>
    refine hbefore (eqOn_ground hal.frame hinit fun z hz hout => ?_)
    rcases hz with hz | hz
    · nomatch ((hg.arena hinit).pool.zone_own hz).symm.trans hout
    · rw [← hal.start_eq] at hz
      nomatch ((hg'.arena hinit).pool.zone_own hz).symm.trans hout
  | release hinit _ _ hrel =>
    refine hbefore (eqOn_ground hrel.frame hinit fun z hz hout => ?_)
    rcases hz with hz | hz
    · nomatch ((hg.arena hinit).pool.zone_own hz).symm.trans hout
    · rw [← hrel.start_eq] at hz
      nomatch ((hg'.arena hinit).pool.zone_own hz).symm.trans hout
  | issue hi =>
    refine hbefore (eqOn_ground hi.bytes hi.init fun z hz => ?_)
    rw [zone_header hz]
    nofun
  | map hm =>
    exact hafter (mem_owned.mpr (.inr (.inr ⟨_, List.mem_cons_self, rfl, hm.region_eq.symm⟩))) hm.bytes
  | unmap _ _ => exact Set.eqOn_refl _ _
  | leak _ _ => exact Set.eqOn_refl _ _

/-! ## Paths and runs -/

/-- What calls do to the mappings `X` of others: they stay, with their bytes. -/
structure Conf.Spares (c c' : Conf) (X : List Region) : Prop where
  holds : ∃ Y, c'.Holds (Y ++ X) ∧ ∀ r ∈ Y, r.size = 4096
  bytes : ∀ r ∈ X, Set.EqOn c'.heap.os.bytes c.heap.os.bytes r.bytes

/-- **Run lemma.** Along every path others keep their mappings and their bytes. -/
theorem Path.spares (hp : Path t D E c c') (hg : Good c.heap c.view c.live) (hX : c.Holds X) : c.Spares c' X := by
  refine hp.invariant (I := fun c' => c.Spares c' X) (fun d d' hd hI ha => ?_) (fun d d' b hd hI hs => ?_) hg
    ⟨⟨[], hX, nofun⟩, fun _ _ => Set.eqOn_refl _ _⟩
  · obtain ⟨⟨Y, hY, hpage⟩, hbytes⟩ := hI
    obtain ⟨Z, hZ, hpage'⟩ := (ha.exchange hd).holds hY
    rw [← List.append_assoc] at hZ
    have hd' := (ha.kept hd).good
    refine ⟨⟨Z ++ Y, hZ, fun r hr => (List.mem_append.mp hr).elim (hpage' r) (hpage r)⟩, fun r hr => ?_⟩
    refine Set.EqOn.trans (fun z hz => ha.writes hd ?_) (hbytes r hr)
    rintro (hz' | hz')
    · exact hY.other_ground hd.maps (List.mem_append_right Y hr) hz hz'
    · exact hZ.other_ground hd'.maps (List.mem_append_right _ hr) hz hz'
  · obtain ⟨⟨Y, hY, hpage⟩, hbytes⟩ := hI
    obtain ⟨hb, hm⟩ := hs
    refine ⟨⟨Y, hY, hpage⟩, fun r hr => Set.EqOn.trans (fun z hz => hm fun hz' => ?_) (hbytes r hr)⟩
    exact hY.other_ground hd.maps (List.mem_append_right Y hr) hz (hd.extent_ground hb hz')

/-- What slabs, stacks and pool rely on lies in the arena. -/
theorem ArenaSide.own_ground (ha : ArenaSide h v) (hinit : h.arenaInit = true) : v.own ⊆ Conf.ground ⟨h, v, l⟩ := by
  intro z hz
  refine arena_ground hinit fun hout => ?_
  rcases hz with (hz | hz) | hz
  · rcases ha.slabs.zone_own hz with hzone | ⟨_, _, _, hzone⟩ <;> nomatch hzone.symm.trans hout
  · obtain ⟨_, _, _, hzone⟩ := ha.slabs.zone_stack hz
    nomatch hzone.symm.trans hout
  · nomatch (ha.pool.zone_own hz).symm.trans hout

/-- **Others may do what they like** where the allocator holds nothing. -/
theorem Good.others {os : Os} (hg : Good h v l) (hm : Mappings os.maps)
    (howned : ∀ r ∈ Conf.owned ⟨h, v, l⟩, r ∈ os.maps)
    (hbytes : Set.EqOn os.bytes h.os.bytes (Conf.ground ⟨h, v, l⟩)) : Good (h.setOs os) v l := by
  have hown : h.arenaInit = true → Set.EqOn os.bytes h.os.bytes v.own := fun hinit =>
    hbytes.mono ((hg.arena hinit).own_ground hinit)
  have ht := hg.threads
  refine ⟨hg.lock, hm, ⟨ht.tls, ht.owner, ht.registry, ht.id, ht.blank, ht.pages, fun p hp => ?_⟩, fun hinit => ?_,
    fun hinit => ?_, fun b hb => ?_, hg.sized, hg.apart⟩
  · exact howned _ (mem_owned.mpr (.inr (.inl ⟨p, hp, rfl⟩)))
  · have hmap : ⟨v.arena.base, 2097152⟩ ∈ os.maps := howned _ (mem_owned.mpr (.inl ⟨hinit, rfl⟩))
    exact ArenaSide.frame (h.setOs os) v.made (hg.arena hinit) (hown hinit) rfl rfl rfl rfl hmap rfl rfl
  · have hboot := hg.booting hinit
    exact ⟨hboot.ready, hboot.arena, hboot.tlsf, hboot.base, hboot.made, hboot.next, hboot.cls, hboot.huge⟩
  · refine (hg.placed b hb).keep (fun _ _ hb => hb) (fun _ hb => hb) ?_ ?_
    · intro hvia hpage
      have hinit := hg.init_of_via hb (by rw [hvia]; nofun)
      have hnext : v.arena.nextFreePage os.bytes = _ := ArenaSide.next_eq (hown hinit)
      show PageBlock v (v.arena.nextFreePage os.bytes) b
      rw [hnext]
      exact hpage
    · intro hvia hmap
      have hregion : b.region ∈ Conf.owned ⟨h, v, l⟩ := mem_owned.mpr (.inr (.inr ⟨b, hb, hvia, rfl⟩))
      refine hmap.frame (howned _ hregion) ?_ hmap.2.1 hmap.2.2
      exact hbytes.mono fun z hz => owned_ground hregion (Block.header_region hz)

/-- The mapping of the arena. -/
def Heap.arenaMaps (h : Heap) : List Region := (h.globalArena.map fun a => (⟨a.base, a.totalSize⟩ : Region)).toList

theorem Good.arenaMaps_eq (hg : Good h v l) :
    h.arenaMaps = if h.arenaInit then [⟨v.arena.base, 2097152⟩] else [] := by
  unfold Heap.arenaMaps
  cases hinit : h.arenaInit with
  | true =>
    have ha := hg.arena hinit
    rw [ha.arena, Option.map_some, ha.slabs.inv.arena.size]
    rfl
  | false =>
    rw [(hg.booting hinit).arena]
    rfl

/-- The process without other allocators. -/
theorem reachable_holds {s : State} (hr : (system.restrict inBounds).Reachable s) :
    ∃ v Y, Good s.heap v s.live ∧ Conf.Holds ⟨s.heap, v, s.live⟩ Y ∧ ∀ r ∈ Y, r.size = 4096 := by
  refine hr.invariant (I := fun s => ∃ v Y, Good s.heap v s.live ∧ Conf.Holds ⟨s.heap, v, s.live⟩ Y ∧
    ∀ r ∈ Y, r.size = 4096) ?_ ?_
  · rintro s ⟨bytes, rfl⟩
    exact ⟨.start, [], .boot bytes, .refl _, nofun⟩
  · rintro s e s' _ ⟨v, Y, hg, hY, hpage⟩ ⟨hstep, hn⟩
    cases hstep with
    | call harg hrun =>
      rename_i t c ans r
      obtain ⟨v', hleads⟩ := (Call.leads hg c harg hn t ans).of_run hrun
      obtain ⟨⟨Z, hZ, hpage'⟩, _⟩ := hleads.path.spares hg hY
      exact ⟨v', Z ++ Y, hleads.good hg, hZ, fun r hr => (List.mem_append.mp hr).elim (hpage' r) (hpage r)⟩
    | write hb hm => exact ⟨v, Y, hg.store hb hm, hY, hpage⟩

/-- **No mapping is lost.** In every reachable state the mappings larger than a page are that of the arena and
those of the live huge blocks, one each. -/
theorem reachable_mappings {s : State} (hr : (system.restrict inBounds).Reachable s) :
    (s.heap.os.maps.filter fun r => 4096 < r.size).Perm
      (s.heap.arenaMaps ++ (s.live.filter fun b => b.via = .huge ∧ 0 < b.cap).map Block.region) := by
  obtain ⟨v, Y, hg, hY, hpage⟩ := reachable_holds hr
  have hcaches : (v.made.map fun p => (⟨p, 4096⟩ : Region)).filter (fun r => 4096 < r.size) = [] := by
    refine List.filter_eq_nil_iff.mpr fun r hr => ?_
    obtain ⟨p, _, rfl⟩ := List.mem_map.mp hr
    simp
  have hothers : Y.filter (fun r => 4096 < r.size) = [] := by
    refine List.filter_eq_nil_iff.mpr fun r hr => ?_
    rw [hpage r hr]
    simp
  have harena : s.heap.arenaMaps.filter (fun r => 4096 < r.size) = s.heap.arenaMaps := by
    rw [hg.arenaMaps_eq]
    split <;> rfl
  have hhuge : (hugeMaps s.live).filter (fun r => 4096 < r.size) =
      (s.live.filter fun b => b.via = .huge ∧ 0 < b.cap).map Block.region := by
    unfold hugeMaps
    rw [List.filter_map, List.filter_filter]
    refine congrArg _ (List.filter_congr fun b _ => ?_)
    have hsize : 4096 < b.region.size ↔ 0 < b.cap := Nat.lt_add_left_iff_pos
    simp only [Function.comp_apply, hsize, Bool.decide_and, Bool.and_comm]
  have hperm := hY.filter fun r => 4096 < r.size
  unfold Conf.owned at hperm
  rw [← hg.arenaMaps_eq] at hperm
  simp only [List.filter_append, hcaches, hothers, harena, hhuge, List.nil_append, List.append_nil] at hperm
  exact hperm

/-- The arena, and one block of 256 KB. -/
theorem reachable_mappings_huge : ∃ (s : State) (b : Block), b ∈ s.live ∧ b.via = .huge ∧ b.cap = 262144 ∧
    (s.heap.os.maps.filter fun r => 4096 < r.size).Perm
      (s.heap.arenaMaps ++ (s.live.filter fun b => b.via = .huge ∧ 0 < b.cap).map Block.region) := by
  obtain ⟨s, _, h₂, hr, _, _, _, _, _, _, hmalloc⟩ := exists_moving
  have hrun : (Call.malloc 262144).run s.heap 1 (fun _ => ⟨none, none, some 4194304⟩) = .ok (h₂, 4198400, .huge) :=
    hmalloc
  have hnone : ∀ b, (Call.malloc 262144).arg = some b → b ∈ s.live := nofun
  have hstep : (system.restrict inBounds).step s (.call 1 (.malloc 262144) fun _ => ⟨none, none, some 4194304⟩)
      ⟨h₂, newBlock (h₂, 4198400, .huge) 262144 :: s.live⟩ := ⟨.call hnone hrun, trivial⟩
  have hcap : (newBlock (h₂, 4198400, .huge) 262144).cap = 262144 := by
    show hugeTotal 262144 - 4096 = 262144
    decide
  exact ⟨_, _, List.mem_cons_self, rfl, hcap, reachable_mappings (hr.step hstep)⟩

end FerrumAlloc
