/-
# FerrumAlloc.ThreadCache.RemoteInv -- the invariant of pushes and drains

Every used slot has one role: it is live, a thread is pushing it, it stands on a stack, or a drain holds
it. Roles are a function of the address, so that slots in different roles differ without further
argument. `RemoteInv` says that each list of the state holds slots of its own role only, that stacks and
drains are chains through the first eight bytes of their nodes, and that a thread that has written its
link still finds there the head it loaded.

A compare-exchange that succeeds therefore links its node to the current head, whatever happened between
the load and the exchange: the head is compared by value, and the link has that value.
-/
import FerrumAlloc.ThreadCache.Remote

namespace FerrumAlloc.Remote

open Lib
open Slab (Slot)

/-- What a slot is doing. -/
inductive Role (ι : Type)
  | free
  | live
  | pushing (t : Nat)
  | stacked (k : ι)
  | draining (k : ι)
  deriving DecidableEq

/-- **The invariant.** -/
structure RemoteInv {ι : Type} (a : Arena) (s : State ι) (g : Ghost ι) (role : Nat → Role ι) :
    Prop where
  inv : SlabInv a s.mem (fun k => (s.caches k).slab) g
  used : ∀ p, role p ≠ .free ↔ ∃ i c j, g.Used i c j ∧ p = a.slotAddr i c j
  live : ∀ e ∈ s.live, role e.ptr = .live ∧ ∃ i j, g.Used i e.cls j ∧ e.ptr = a.slotAddr i e.cls j
  nodup : (s.live.map Slot.ptr).Nodup
  node : ∀ t p, (s.push t).node? = some p → role p = .pushing t
  head : ∀ t p, (s.push t).head? = some p → p < 2 ^ 64
  linked : ∀ t k p q, s.push t = .linked k p q → read64 s.mem p = q
  stack : ∀ k, Stack s.mem role (.stacked k) (s.caches k).remoteFrees (s.pending k)
  drain : ∀ k p, s.drain k = some p → ∃ rest, Stack s.mem role (.draining k) p rest ∧
    s.taken k = s.freed k ++ rest ∧ (s.taken k).Nodup

section

variable {ι : Type} {a : Arena} {s s' : State ι} {g g' : Ghost ι} {role role' : Nat → Role ι}
  {m' : Mem} {r : Role ι} {p q t : Nat} {k : ι}

/-! ## Used slots as nodes -/

namespace RemoteInv

theorem slot (hi : RemoteInv a s g role) (hp : role p ≠ .free) :
    ∃ i c j, g.Used i c j ∧ p = a.slotAddr i c j := (hi.used p).mp hp

theorem node_bytes (hi : RemoteInv a s g role) {i c j : Nat} (hu : g.Used i c j) :
    Set.Ico (a.slotAddr i c j) (a.slotAddr i c j + 8) ⊆ slotBytes a i c j := by
  have h8 := (slots_of_lt (hi.inv.used_lt hu)).size_ge
  rintro z ⟨h1, h2⟩
  exact ⟨h1, by omega⟩

/-- A change that spares a used slot spares its link. -/
theorem link_keep (hi : RemoteInv a s g role) (hp : role p ≠ .free)
    (hm : ∀ i c j, g.Used i c j → p = a.slotAddr i c j → Set.EqOn m' s.mem (slotBytes a i c j)) :
    read64 m' p = read64 s.mem p := by
  obtain ⟨i, c, j, hu, hpa⟩ := hi.slot hp
  apply read64_eqOn
  rw [hpa]
  exact (hm i c j hu hpa).mono (hi.node_bytes hu)

theorem node_ne_zero (hi : RemoteInv a s g role) (hp : role p ≠ .free) : p ≠ 0 := by
  obtain ⟨i, c, j, _, rfl⟩ := hi.slot hp
  exact Slab.slotAddr_ne_zero hi.inv.arena

theorem node_lt (hi : RemoteInv a s g role) (hp : role p ≠ .free) : p < 2 ^ 64 := by
  obtain ⟨i, c, j, hu, rfl⟩ := hi.slot hp
  have hend := (hi.inv.used_end_le hu).2
  have hfits := Arena.fits_lt hi.inv.arena
  have h8 := (slots_of_lt (hi.inv.used_lt hu)).size_ge
  omega

end RemoteInv

/-- Erasing a live slot leaves the slots at other addresses. -/
theorem mem_erase_ptr {live : List Slot} {e f : Slot} (hnd : (live.map Slot.ptr).Nodup)
    (he : e ∈ live) (hf : f ∈ live.erase e) : f ∈ live ∧ f.ptr ≠ e.ptr := by
  obtain ⟨hne, hf⟩ := hnd.of_map.mem_erase_iff.mp hf
  exact ⟨hf, fun heq => hne (List.inj_on_of_nodup_map hnd hf he heq)⟩

theorem update_role_of_ne {x : Nat} {y : Role ι} (hne : role x ≠ r) (hp : role p = r) :
    Function.update role x y p = r := by
  rw [Function.update_of_ne]
  · exact hp
  · rintro rfl
    exact hne hp

/-- Changing the role of one used slot to another role. -/
theorem RemoteInv.used_update (hi : RemoteInv a s g role) {x : Nat} {y : Role ι} (hx : role x ≠ .free)
    (hy : y ≠ .free) (p : Nat) :
    Function.update role x y p ≠ .free ↔ ∃ i c j, g.Used i c j ∧ p = a.slotAddr i c j := by
  rw [← hi.used p]
  by_cases hp : p = x
  · rw [hp, Function.update_self]
    exact ⟨fun _ => hx, fun _ => hy⟩
  · rw [Function.update_of_ne hp]

/-! ## The parts of the invariant after a step -/

namespace RemoteInv

theorem node_update (hi : RemoteInv a s g role) {x : Push ι}
    (hself : ∀ p, x.node? = some p → role' p = .pushing t)
    (hkeep : ∀ t' p, t' ≠ t → role p = .pushing t' → role' p = .pushing t') (t' p : Nat)
    (hp : (Function.update s.push t x t').node? = some p) : role' p = .pushing t' := by
  by_cases ht : t' = t
  · subst ht
    rw [Function.update_self] at hp
    exact hself p hp
  · rw [Function.update_of_ne ht] at hp
    exact hkeep t' p ht (hi.node t' p hp)

theorem head_update (hi : RemoteInv a s g role) {x : Push ι}
    (hself : ∀ p, x.head? = some p → p < 2 ^ 64) (t' p : Nat)
    (hp : (Function.update s.push t x t').head? = some p) : p < 2 ^ 64 := by
  by_cases ht : t' = t
  · subst ht
    rw [Function.update_self] at hp
    exact hself p hp
  · rw [Function.update_of_ne ht] at hp
    exact hi.head t' p hp

theorem linked_update (hi : RemoteInv a s g role) {x : Push ι}
    (hself : ∀ k p q, x = .linked k p q → read64 m' p = q)
    (hkeep : ∀ t' p, t' ≠ t → role p = .pushing t' → read64 m' p = read64 s.mem p) (t' : Nat) (k : ι)
    (p q : Nat) (hp : Function.update s.push t x t' = .linked k p q) : read64 m' p = q := by
  by_cases ht : t' = t
  · subst ht
    rw [Function.update_self] at hp
    exact hself k p q hp
  · rw [Function.update_of_ne ht] at hp
    have hrole := hi.node t' p (by rw [hp]; rfl)
    rw [hkeep t' p ht hrole]
    exact hi.linked t' k p q hp

theorem drain_keep (hi : RemoteInv a s g role)
    (hk : ∀ k p, role p = .draining k → role' p = .draining k ∧ read64 m' p = read64 s.mem p) (k : ι)
    (p : Nat) (hp : s.drain k = some p) : ∃ rest, Stack m' role' (.draining k) p rest ∧
      s.taken k = s.freed k ++ rest ∧ (s.taken k).Nodup := by
  obtain ⟨rest, hs, htaken⟩ := hi.drain k p hp
  exact ⟨rest, hs.keep (hk k), htaken⟩

theorem remoteFrees_lt (hi : RemoteInv a s g role) (k : ι) : (s.caches k).remoteFrees < 2 ^ 64 := by
  by_cases h0 : (s.caches k).remoteFrees = 0
  · rw [h0]
    exact Nat.two_pow_pos 64
  · apply hi.node_lt
    rw [(hi.stack k).head_role h0]
    exact nofun

/-- Two used slots at different addresses share no byte. -/
theorem slots_apart (hi : RemoteInv a s g role) {i c j i' c' j' : Nat} (hu : g.Used i c j)
    (hu' : g.Used i' c' j') (hne : a.slotAddr i c j ≠ a.slotAddr i' c' j') {z : Nat}
    (hz : z ∈ slotBytes a i c j) : z ∉ slotBytes a i' c' j' := by
  intro hz'
  obtain ⟨rfl, rfl, rfl⟩ := hi.inv.used_unique hu hu' hz hz'
  exact hne rfl

/-- A change inside one used slot leaves the links of the others. -/
theorem link_of_slotWrite (hi : RemoteInv a s g role) {i c j : Nat} (hu : g.Used i c j)
    (hm : Set.EqOn m' s.mem (slotBytes a i c j)ᶜ) (hq : role q ≠ .free) (hne : q ≠ a.slotAddr i c j) :
    read64 m' q = read64 s.mem q := by
  refine hi.link_keep hq fun i' c' j' hu' hqa => ?_
  rw [hqa] at hne
  exact hm.mono fun z hz => hi.slots_apart hu' hu hne hz

/-- The slabs do not see a change inside a used slot. -/
theorem inv_of_slotWrite (hi : RemoteInv a s g role) {i c j : Nat} (hu : g.Used i c j)
    (hm : Set.EqOn m' s.mem (slotBytes a i c j)ᶜ) :
    SlabInv a m' (fun k => (s.caches k).slab) g :=
  hi.inv.frame fun _ hz => hm fun hz' => hi.inv.used_not_own hu hz' hz

/-- A free leaves the links of the other used slots. -/
theorem link_free (hi : RemoteInv a s g role) {i c j : Nat} (hu : g.Used i c j)
    (hm : Set.EqOn m' s.mem (SlabInv.freeBytes a g k i c j)ᶜ) (hq : role q ≠ .free)
    (hne : q ≠ a.slotAddr i c j) : read64 m' q = read64 s.mem q := by
  refine hi.link_keep hq fun i' c' j' hu' hqa => hm.mono fun z hz => ?_
  refine hi.inv.freeBytes_not_used hu hu' ?_ hz
  rintro ⟨rfl, rfl⟩
  rw [hqa, Option.some.inj (hu'.1.symm.trans hu.1)] at hne
  exact hne rfl

end RemoteInv

/-! ## Client writes and the steps of a push -/

namespace RemoteInv

variable {e : Slot} {head node : Nat}

/-- **Client write.** -/
theorem step_write (hi : RemoteInv a s g role) (he : e ∈ s.live) {x : Nat} {v : UInt8}
    (h1 : e.ptr ≤ x) (h2 : x < e.ptr + slotSize e.cls) :
    RemoteInv a { s with mem := Function.update s.mem x v } g role := by
  obtain ⟨hlive, i, j, hu, hp⟩ := hi.live e he
  rw [hp] at h1 h2 hlive
  have hm : Set.EqOn (Function.update s.mem x v) s.mem (slotBytes a i e.cls j)ᶜ := by
    intro z hz
    refine Function.update_of_ne ?_ v s.mem
    rintro rfl
    exact hz ⟨h1, h2⟩
  have hlink : ∀ {r p}, role p = r → r ≠ .free → r ≠ .live →
      read64 (Function.update s.mem x v) p = read64 s.mem p := by
    intro r p hp hfree hr
    refine hi.link_of_slotWrite hu hm (by rw [hp]; exact hfree) ?_
    rintro rfl
    exact hr (hp.symm.trans hlive)
  refine ⟨hi.inv_of_slotWrite hu hm, hi.used, hi.live, hi.nodup, hi.node, hi.head,
    fun t k' p q hp => ?_, fun k' => (hi.stack k').keep fun p hp => ⟨hp, hlink hp nofun nofun⟩,
    hi.drain_keep fun k' p hp => ⟨hp, hlink hp nofun nofun⟩⟩
  have hpush := hi.node t p (by rw [show s.push t = _ from hp]; rfl)
  exact (hlink hpush nofun nofun).trans (hi.linked t k' p q hp)

/-- **`load`.** A live slot becomes the node of an idle thread. -/
theorem step_load (hi : RemoteInv a s g role) (he : e ∈ s.live) :
    RemoteInv a { s with
        push := Function.update s.push t (.loaded k e.ptr (s.caches k).remoteFrees)
        live := s.live.erase e } g (Function.update role e.ptr (.pushing t)) := by
  obtain ⟨hlive, _⟩ := hi.live e he
  have hother : ∀ {r p}, role p = r → r ≠ .live → Function.update role e.ptr (.pushing t) p = r :=
    fun hp hr => update_role_of_ne (by rw [hlive]; exact hr.symm) hp
  refine ⟨hi.inv, hi.used_update (by rw [hlive]; nofun) nofun, fun f hf => ?_,
    hi.nodup.sublist (List.erase_sublist.map _), hi.node_update ?_ ?_, hi.head_update ?_,
    hi.linked_update nofun fun _ _ _ _ => rfl,
    fun k' => (hi.stack k').keep fun p hp => ⟨hother hp nofun, rfl⟩,
    hi.drain_keep fun k' p hp => ⟨hother hp nofun, rfl⟩⟩
  · obtain ⟨hf, hfe⟩ := mem_erase_ptr hi.nodup he hf
    rw [Function.update_of_ne hfe]
    exact hi.live f hf
  · rintro p hp
    obtain rfl := Option.some.inj hp
    exact Function.update_self ..
  · exact fun t' p _ hp => hother hp nofun
  · rintro p hp
    obtain rfl := Option.some.inj hp
    exact hi.remoteFrees_lt k

/-- **`link`.** The link of the node is written. -/
theorem step_link (hi : RemoteInv a s g role) (hpush : s.push t = .loaded k node head) :
    RemoteInv a { s with
        push := Function.update s.push t (.linked k node head)
        mem := write64 s.mem node head } g role := by
  have hrole : role node = .pushing t := hi.node t node (by rw [hpush]; rfl)
  have hhead : head < 2 ^ 64 := hi.head t head (by rw [hpush]; rfl)
  obtain ⟨i, c, j, hu, hnode⟩ := hi.slot (p := node) (by rw [hrole]; nofun)
  have hm : Set.EqOn (write64 s.mem node head) s.mem (slotBytes a i c j)ᶜ := by
    rw [hnode]
    exact eqOn_compl_mono (write64_eqOn _ _ _) (hi.node_bytes hu)
  have hlink : ∀ {r p}, role p = r → r ≠ .free → r ≠ .pushing t →
      read64 (write64 s.mem node head) p = read64 s.mem p := by
    intro r p hp hfree hne
    refine hi.link_of_slotWrite hu hm (by rw [hp]; exact hfree) ?_
    rw [← hnode]
    rintro rfl
    exact hne (hp.symm.trans hrole)
  refine ⟨hi.inv_of_slotWrite hu hm, hi.used, hi.live, hi.nodup, hi.node_update ?_ fun _ _ _ h => h,
    hi.head_update ?_, hi.linked_update ?_ ?_,
    fun k' => (hi.stack k').keep fun p hp => ⟨hp, hlink hp nofun nofun⟩,
    hi.drain_keep fun k' p hp => ⟨hp, hlink hp nofun nofun⟩⟩
  · rintro p hp
    obtain rfl := Option.some.inj hp
    exact hrole
  · rintro p hp
    obtain rfl := Option.some.inj hp
    exact hhead
  · intro k' p q heq
    obtain ⟨_, rfl, rfl⟩ := Push.linked.inj heq
    exact read64_write64_same _ hhead
  · intro t' p ht hp
    refine hlink hp nofun fun heq => ht ?_
    exact Role.pushing.inj heq

/-- **`casFail`.** The head is loaded anew. -/
theorem step_casFail (hi : RemoteInv a s g role) (hpush : s.push t = .linked k node head) :
    RemoteInv a { s with
        push := Function.update s.push t (.loaded k node (s.caches k).remoteFrees) } g role := by
  refine ⟨hi.inv, hi.used, hi.live, hi.nodup, hi.node_update ?_ fun _ _ _ h => h, hi.head_update ?_,
    hi.linked_update nofun fun _ _ _ _ => rfl, hi.stack, hi.drain⟩
  · rintro p hp
    obtain rfl := Option.some.inj hp
    exact hi.node t node (by rw [hpush]; rfl)
  · rintro p hp
    obtain rfl := Option.some.inj hp
    exact hi.remoteFrees_lt k

variable [DecidableEq ι]

theorem setHead_slab (k : ι) (p : Nat) (k' : ι) :
    (s.setHead k p k').slab = (s.caches k').slab := by
  unfold State.setHead
  by_cases hk : k' = k
  · subst hk
    rw [Function.update_self]
  · rw [Function.update_of_ne hk]

theorem inv_setHead (hi : RemoteInv a s g role) (k : ι) (p : Nat) :
    SlabInv a s.mem (fun k' => (s.setHead k p k').slab) g := by
  simp only [setHead_slab]
  exact hi.inv

/-- **`casOk`.** The node goes on the stack. -/
theorem step_casOk (hi : RemoteInv a s g role) (hpush : s.push t = .linked k node head)
    (hhead : (s.caches k).remoteFrees = head) :
    RemoteInv a { s with
        push := Function.update s.push t .idle
        caches := s.setHead k node
        pending := Function.update s.pending k (node :: s.pending k) } g
      (Function.update role node (.stacked k)) := by
  have hrole : role node = .pushing t := hi.node t node (by rw [hpush]; rfl)
  have hne : role node ≠ .free := by
    rw [hrole]
    nofun
  have hother : ∀ {r p}, role p = r → r ≠ .pushing t →
      Function.update role node (.stacked k) p = r :=
    fun hp hr => update_role_of_ne (by rw [hrole]; exact hr.symm) hp
  refine ⟨hi.inv_setHead k node, hi.used_update hne nofun, fun f hf => ?_, hi.nodup,
    hi.node_update nofun ?_, hi.head_update nofun, hi.linked_update nofun fun _ _ _ _ => rfl,
    fun k' => ?_, hi.drain_keep fun k' p hp => ⟨hother hp nofun, rfl⟩⟩
  · obtain ⟨h1, h2⟩ := hi.live f hf
    exact ⟨hother h1 nofun, h2⟩
  · intro t' p ht hp
    exact hother hp fun heq => ht (Role.pushing.inj heq)
  · unfold State.setHead
    by_cases hk : k' = k
    · subst hk
      simp only [Function.update_self]
      refine (hi.stack k').push (hi.node_ne_zero hne) (by rw [hrole]; nofun) ?_
        (Function.update_self ..) fun q hq => hother hq nofun
      rw [hhead]
      exact hi.linked t k' node head hpush
    · simp only [Function.update_of_ne hk]
      exact (hi.stack k').keep fun p hp => ⟨hother hp nofun, rfl⟩

end RemoteInv

end

end FerrumAlloc.Remote
