/-
# FerrumAlloc.Hooks.System -- two allocators in one process

Threads call hooked functions and entry points in any order, clients write into their blocks, and the functions
replaced and their clients do what they like in their own memory (`Moves`). The steps are those of a process
whose hooks find out whose the pointers are (`HookCall.Meant`); when they do, exactly, is `hooked_served`.

Every step is a path of acts of the allocator and a move of the others (`Step.path`). So neither sees the other:
`hooked_isolated`, `hooked_keeps` and `hooked_unnoticed` are read off the invariant.
-/
import FerrumAlloc.Hooks.Model
import FerrumAlloc.Api.Mapped
import FerrumAlloc.Api.Solo

namespace FerrumAlloc.Hooks

open Lib Conf

variable {F : Type} {own : F → List Region} {lent : F → Set Nat} {o : Originals F}

/-! ## The others -/

/-- A move of the others, who have the mappings `own`: they may map and unmap, and write in their mappings. -/
structure Moves (own : F → List Region) (x x' : F × Os) : Prop where
  maps : Mappings x.2.maps → Mappings x'.2.maps
  theirs : ∀ P, x.2.maps.Perm (P ++ own x.1) → x'.2.maps.Perm (P ++ own x'.1)
  bytes : ∀ z, (∀ r ∈ own x.1, z ∉ r.bytes) → (∀ r ∈ own x'.1, z ∉ r.bytes) → x'.2.bytes z = x.2.bytes z

theorem Moves.refl (x : F × Os) : Moves own x x := ⟨id, fun _ => id, fun _ _ _ => rfl⟩

/-- The functions replaced are those of an allocator in its own memory: blocks that it has `lent` lie there,
and a call with such a block, or without one, is a move. -/
structure Lawful (o : Originals F) (own : F → List Region) (lent : F → Set Nat) : Prop where
  inside : ∀ f, ∀ q ∈ lent f, ∃ r ∈ own f, q ∈ r.bytes
  moves : ∀ (c : HookCall) g x, (c.original o).1 = some g → (∀ b, c.ptr ≠ .ours b) → (∀ q, c.ptr = .theirs q → q ∈ lent x.1) →
    Moves own x (g x).1

/-! ## The transition system -/

/-- A process with hooks, and the live blocks of its clients. -/
structure State (F : Type) extends Hooked F where
  live : List Block

/-- A hook is called, and the allocator has handed out `v`; an entry point is called; a client writes; the
others move. -/
inductive Event (F : Type)
  | hook (t : Nat) (c : HookCall) (ans : Nat → Answers) (v : Option (Nat × Backend))
  | call (t : Nat) (c : Call) (ans : Nat → Answers)
  | write (b : Block) (m : Mem)
  | other (x : F × Os)

/-- One step. -/
inductive Step (o : Originals F) (own : F → List Region) (lent : F → Set Nat) :
    State F → Event F → State F → Prop
  | hook {s : State F} {t : Nat} {c : HookCall} {ans : Nat → Answers} {r : Reply F} :
      (∀ b, c.ptr = .ours b → b ∈ s.live) → (∀ q, c.ptr = .theirs q → q ∈ lent s.orig) →
      c.run o s.toHooked t ans = .ok r → Step o own lent s (.hook t c ans r.2.2) ⟨r.1, c.after s.live r⟩
  | call {s : State F} {t : Nat} {c : Call} {ans : Nat → Answers} {r : Heap × Nat × Backend} :
      (∀ b, c.arg = some b → b ∈ s.live) → c.run s.heap t ans = .ok r →
      Step o own lent s (.call t c ans) ⟨⟨r.1, s.orig⟩, c.after s.live r⟩
  | write {s : State F} {b : Block} {m : Mem} : b ∈ s.live → Set.EqOn m s.heap.os.bytes b.extentᶜ →
      Step o own lent s (.write b m) ⟨⟨s.heap.setBytes m, s.orig⟩, s.live⟩
  | other {s : State F} {x : F × Os} : Moves own (s.orig, s.heap.os) x →
      Step o own lent s (.other x) ⟨⟨s.heap.setOs x.2, x.1⟩, s.live⟩

/-- A process whose hooks have just been set, with the mappings that it has. -/
def start (own : F → List Region) (bytes : Mem) (f : F) : State F :=
  ⟨⟨(Heap.boot bytes).setOs ⟨bytes, own f⟩, f⟩, []⟩

def hooks (o : Originals F) (own : F → List Region) (lent : F → Set Nat) : System (State F) (Event F) where
  init s := ∃ bytes f, s = start own bytes f ∧ Mappings (own f)
  step := Step o own lent

/-- The test is right, and no call stores outside its block. -/
def meant (s : State F) : Event F → Prop
  | .hook _ c ans _ => c.Meant s.toHooked ans ∧ c.call.InBounds
  | .call _ c _ => c.InBounds
  | _ => True

/-- The functions replaced or their clients may have moved. -/
def Event.Passes : Event F → Prop
  | .hook _ _ _ v => v = none
  | .other _ => True
  | _ => False

/-- The event is not about `b`. -/
def Event.Spares (b : Block) : Event F → Prop
  | .hook _ c _ _ => c.ptr ≠ .ours b
  | .call _ c _ => c.arg ≠ some b
  | .write b' _ => b' ≠ b
  | .other _ => True

/-! ## A process with blocks of both -/

/-- An allocator with one mapping, that lends sixteen bytes at a time and takes nothing back. -/
def shelf : Originals Nat where
  heapAlloc := some fun _ _ _ x => if x.1 < 3000 then ((x.1 + 1, x.2), 73728 + 16 * x.1) else (x, 0)
  heapFree := some fun _ _ _ x => (x, 1)
  heapReAlloc := none
  heapSize := some fun _ _ _ x => (x, 16)
  free := some fun _ x => (x, 0)

def shelfOwn (_ : Nat) : List Region := [⟨65536, 65536⟩]

def shelfLent (k : Nat) : Set Nat := {q | ∃ i < k, i < 3000 ∧ q = 73728 + 16 * i}

theorem shelf_lawful : Lawful shelf shelfOwn shelfLent where
  inside := by
    rintro k q ⟨i, _, hi, rfl⟩
    exact ⟨⟨65536, 65536⟩, List.mem_singleton.mpr rfl, by rw [Region.mem_bytes]; simp only; omega⟩
  moves := by
    have hmoves : ∀ {x x' : Nat × Os}, x'.2 = x.2 → Moves shelfOwn x x' := by
      rintro ⟨k, os⟩ ⟨k', os'⟩ rfl
      exact ⟨id, fun _ => id, fun _ _ _ => rfl⟩
    have halloc : ∀ (hheap : Int) (dwflags n : Nat) {g : Original Nat},
        (shelf.heapAlloc.map fun orig => orig hheap dwflags n) = some g → ∀ x, (g x).1.2 = x.2 := by
      intro hheap dwflags n g hg x
      obtain rfl := Option.some.inj hg
      show (if x.1 < 3000 then ((x.1 + 1, x.2), 73728 + 16 * x.1) else (x, 0)).1.2 = x.2
      split <;> rfl
    intro c g x hg _ _
    refine hmoves ?_
    cases c with
    | heapAlloc hheap dwflags n => exact halloc hheap dwflags n hg x
    | heapReAlloc hheap dwflags p n =>
      by_cases h0 : p.addr = 0
      · rw [HookCall.original, if_pos h0] at hg
        exact halloc hheap dwflags n hg x
      · rw [HookCall.original, if_neg h0] at hg
        nomatch hg
    | heapFree _ _ _ | heapSize _ _ _ | free _ =>
      obtain rfl := Option.some.inj hg
      rfl
    | malloc _ => nomatch hg

theorem exists_hooked : ∃ (s : State Nat) (b : Block),
    ((hooks shelf shelfOwn shelfLent).restrict meant).Reachable s ∧ s.heap.arenaInit = true ∧ s.orig = 1 ∧
      b ∈ s.live ∧ b.via = .huge ∧ b.cap = 262144 := by
  obtain ⟨h, hh⟩ : ∃ h, h = (start shelfOwn (fun _ => 0) 1).heap := ⟨_, rfl⟩
  have hmaps : h.os.maps = [⟨65536, 65536⟩] := by rw [hh]; rfl
  have hlock : h.arenaLock = false := by rw [hh]; rfl
  have hinit : h.arenaInit = false := by rw [hh]; rfl
  have hstart : ((hooks shelf shelfOwn shelfLent).restrict meant).Reachable ⟨⟨h, 1⟩, []⟩ := by
    rw [hh]
    exact .init ⟨fun _ => 0, 1, rfl, List.pairwise_singleton _ _, by decide⟩
  -- the arena is set up, then a block is mapped
  obtain ⟨a, tlsf, m, hbase, _, hsetup⟩ := ferrumMalloc_setup (A := 2097152) hlock hinit (by rw [hmaps]; decide) 1
    (Nat.le_refl hugeAllocThreshold)
  have hnone : ∀ b, (Call.malloc hugeAllocThreshold).arg = some b → b ∈ ([] : List Block) := nofun
  have hsetup' : (Call.malloc hugeAllocThreshold).run h 1 (fun _ => ⟨some 2097152, none, none⟩) =
      .ok (h.setup a tlsf m, 0, .huge) := hsetup
  have hfirst : ((hooks shelf shelfOwn shelfLent).restrict meant).step ⟨⟨h, 1⟩, []⟩
      (.call 1 (.malloc hugeAllocThreshold) fun _ => ⟨some 2097152, none, none⟩) ⟨⟨h.setup a tlsf m, 1⟩, []⟩ :=
    ⟨.call (s := ⟨⟨h, 1⟩, []⟩) hnone hsetup', trivial⟩
  have hgrant : Grantable (h.setup a tlsf m).os.maps (hugeTotal hugeAllocThreshold) 4194304 := by
    show Grantable (⟨a.base, 2097152⟩ :: h.os.maps) _ _
    rw [hbase, hmaps]
    decide
  obtain ⟨os, _, hhuge⟩ := ferrumMalloc_huge (t := 1) (h := h.setup a tlsf m) rfl
    (Nat.le_refl hugeAllocThreshold) 4194304 hgrant none none
  have hrun : (HookCall.heapAlloc 0 0 hugeAllocThreshold).run shelf ⟨h.setup a tlsf m, 1⟩ 1
      (fun _ => ⟨none, none, some 4194304⟩) =
      .ok (⟨(h.setup a tlsf m).setOs os, 1⟩, 4198400, some (4198400, .huge)) :=
    Exec.bind_eq_ok.mpr ⟨_, hhuge, rfl⟩
  have hours : ∀ b, (HookCall.heapAlloc 0 0 hugeAllocThreshold).ptr = .ours b → b ∈ ([] : List Block) := nofun
  have htheirs : ∀ q, (HookCall.heapAlloc 0 0 hugeAllocThreshold).ptr = .theirs q → q ∈ shelfLent 1 := nofun
  have hmeant : HookCall.Meant ⟨h.setup a tlsf m, 1⟩ (.heapAlloc 0 0 hugeAllocThreshold)
      (fun _ => ⟨none, none, some 4194304⟩) := ⟨nofun, nofun⟩
  have hsecond : ((hooks shelf shelfOwn shelfLent).restrict meant).step ⟨⟨h.setup a tlsf m, 1⟩, []⟩
      (.hook 1 (.heapAlloc 0 0 hugeAllocThreshold) (fun _ => ⟨none, none, some 4194304⟩) (some (4198400, .huge)))
      ⟨⟨(h.setup a tlsf m).setOs os, 1⟩,
        [newBlock ((h.setup a tlsf m).setOs os, 4198400, .huge) hugeAllocThreshold]⟩ :=
    ⟨.hook (s := ⟨⟨h.setup a tlsf m, 1⟩, []⟩) hours htheirs hrun, hmeant, trivial⟩
  refine ⟨_, _, (hstart.step hfirst).step hsecond, rfl, rfl, List.mem_cons_self, rfl, ?_⟩
  show hugeTotal hugeAllocThreshold - 4096 = 262144
  decide

/-! ## The invariant -/

/-- The heap is good, and the mappings are ours, forgotten pages, and those of the others. -/
structure Inv (own : F → List Region) (s : State F) (v : View) (Y : List Region) : Prop where
  good : Good s.heap v s.live
  holds : Conf.Holds ⟨s.heap, v, s.live⟩ (Y ++ own s.orig)

/-- What the others see when nobody but the allocator has moved: nothing. -/
structure Unnoticed (own : F → List Region) (f : F) (os os' : Os) : Prop where
  maps : ∀ r ∈ own f, r ∈ os'.maps
  bytes : ∀ r ∈ own f, Set.EqOn os'.bytes os.bytes r.bytes

section

variable {s s' : State F} {v v' : View} {Y : List Region} {l' : List Block} {h' : Heap} {t q : Nat} {D : Prop}
  {E : View → Nat → Prop} {r : Region} {c : HookCall} {ans : Nat → Answers} {x : Reply F} {e : Event F}
  {b : Block} {m : Mem}

namespace Inv

theorem start {bytes : Mem} {f : F} (hm : Mappings (own f)) : Inv own (start own bytes f) .start [] where
  good := (Good.boot bytes).others hm nofun (Set.eqOn_refl _ _)
  holds := .refl _

/-- **What the allocator does** leaves the others alone. -/
theorem path (hs : Inv own s v Y) (hp : Path t D E ⟨s.heap, v, s.live⟩ ⟨h', v', l'⟩) :
    ∃ Z, Inv own ⟨⟨h', s.orig⟩, l'⟩ v' Z ∧ Unnoticed own s.orig s.heap.os h'.os := by
  have hg' : Good h' v' l' := hp.good hs.good
  obtain ⟨⟨Z, hZ, _⟩, hbytes⟩ := hp.spares hs.good hs.holds
  rw [← List.append_assoc] at hZ
  exact ⟨Z ++ Y, ⟨hg', hZ⟩, fun r hr => hZ.other_mem (List.mem_append_right _ hr), fun r hr =>
    hbytes r (List.mem_append_right Y hr)⟩

/-- **What the others do** leaves the allocator alone. -/
theorem moves (hs : Inv own s v Y) {y : F × Os} (hm : Moves own (s.orig, s.heap.os) y) :
    Inv own ⟨⟨s.heap.setOs y.2, y.1⟩, s.live⟩ v Y ∧
      Set.EqOn y.2.bytes s.heap.os.bytes (Conf.ground ⟨s.heap, v, s.live⟩) := by
  have hmaps : Mappings y.2.maps := hm.maps hs.good.maps
  have hholds := hs.holds
  unfold Conf.Holds at hholds
  rw [← List.append_assoc] at hholds
  have hperm := hm.theirs _ hholds
  rw [List.append_assoc] at hperm
  have hholds' : Conf.Holds ⟨s.heap.setOs y.2, v, s.live⟩ (Y ++ own y.1) := hperm
  have hbytes : Set.EqOn y.2.bytes s.heap.os.bytes (Conf.ground ⟨s.heap, v, s.live⟩) := by
    intro z hz
    refine hm.bytes z (fun r hr hzr => ?_) fun r hr hzr => ?_
    · exact hs.holds.other_ground hs.good.maps (List.mem_append_right Y hr) hzr hz
    · exact hholds'.other_ground hmaps (List.mem_append_right Y hr) hzr hz
  exact ⟨⟨hs.good.others hmaps (fun r hr => hholds'.owned_mem hr) hbytes, hholds'⟩, hbytes⟩

/-- A pointer of the others is outside the arena, so the test looks at what is in front of it. -/
theorem usableSize_theirs (hs : Inv own s v Y) (hr : r ∈ own s.orig) (hq : q ∈ r.bytes) (t : Nat) (ans : Answers) :
    (ferrumUsableSize s.heap q ans = .error .nullDeref ∧ s.heap.arenaInit = false) ∨
      ∃ h' v', ferrumUsableSize s.heap q ans = .ok (h', hugeUsableSize q h'.os.bytes) ∧
        (s.heap.arenaInit = true → h' = s.heap) ∧ Leads t D E ⟨s.heap, v, s.live⟩ ⟨h', v', s.live⟩ := by
  have hq0 : q ≠ 0 := by
    have hpos := (hs.good.maps.ok r (hs.holds.other_mem (List.mem_append_right Y hr))).1
    have hge := hq.1
    omega
  unfold ferrumUsableSize
  rw [if_neg hq0]
  rcases ensureInit_leads (D := D) (E := E) hs.good t ans.arena with
    ⟨hinit, _, hrun⟩ | ⟨h₁, v₁, hrun, hleads, hinit₁, _, hsame⟩
  · left
    have harena : s.heap.locked.globalArena = none := (hs.good.booting hinit).arena
    refine ⟨?_, hinit⟩
    simp only [hrun, Exec.bind_ok, Heap.spinLock_eq hs.good.lock, harena, derefGlobal, Exec.bind_error]
  · right
    obtain ⟨Z, hs₁, _⟩ := hs.path hleads.path
    have hg₁ : Good h₁ v₁ s.live := hs₁.good
    have ha := hg₁.arena hinit₁
    have harena : h₁.locked.globalArena = some v₁.arena := ha.arena
    have hout : v₁.arena.contains q = false := by
      refine Bool.eq_false_iff.mpr fun hin => ?_
      have howned : ⟨v₁.arena.base, 2097152⟩ ∈ Conf.owned ⟨h₁, v₁, s.live⟩ := mem_owned.mpr (.inl ⟨hinit₁, rfl⟩)
      have hd := hs₁.holds.disjoint hg₁.maps (List.mem_append_right Z hr) howned
      exact hd.not_mem hq ((contains_iff ha.slabs.inv.arena).mp hin)
    have hsize : usableSizeLocked h₁.locked v₁.arena q = .ok (hugeUsableSize q h₁.os.bytes) := by
      unfold usableSizeLocked
      rw [hout]
      rfl
    refine ⟨h₁, v₁, ?_, fun hinit => (hsame hinit).1, hleads⟩
    simp only [hrun, Exec.bind_ok, Heap.spinLock_eq hg₁.lock, harena, derefGlobal, hsize, Exec.pure_eq,
      Heap.unlock_locked hg₁.lock]

end Inv

/-- No pointer of a client is null but the null pointer. -/
theorem Inv.addr_ne (hs : Inv own s v Y) (ho : Lawful o own lent) {p : Pointer} (hb : ∀ b, p = .ours b → b ∈ s.live)
    (hq : ∀ q, p = .theirs q → q ∈ lent s.orig) (hne : p ≠ .null) : p.addr ≠ 0 := by
  cases p with
  | null => exact absurd rfl hne
  | ours b => exact hs.good.ptr_ne (hb b rfl)
  | theirs q =>
    obtain ⟨r, hr, hin⟩ := ho.inside s.orig q (hq q rfl)
    have hpos := (hs.good.maps.ok r (hs.holds.other_mem (List.mem_append_right Y hr))).1
    have hge := hin.1
    show q ≠ 0
    omega

/-! ## The step lemma -/

/-- A path of the allocator, which hands out `v` or lets the others move. -/
def Turn (own : F → List Region) (s s' : State F) (t : Nat) (v : View) (passes : Prop) : Prop :=
  ∃ h' v', Leads t True Anywhere ⟨s.heap, v, s.live⟩ ⟨h', v', s'.live⟩ ∧
    Moves own (s.orig, h'.os) (s'.orig, s'.heap.os) ∧ s'.heap = h'.setOs s'.heap.os ∧
    (¬ passes → s'.orig = s.orig ∧ s'.heap = h')

/-- A call of an entry point. -/
theorem Inv.call {c : Call} {y : Heap × Nat × Backend} (hs : Inv own s v Y) (harg : ∀ b, c.arg = some b → b ∈ s.live)
    (hn : c.InBounds) (hrun : c.run s.heap t ans = .ok y) :
    ∃ v', Leads t True Anywhere ⟨s.heap, v, s.live⟩ ⟨y.1, v', c.after s.live y⟩ :=
  (Call.leads hs.good c harg hn t ans).of_run hrun

/-- **A hook** is a path of the allocator, after which the others may have moved. -/
theorem Inv.hook (hs : Inv own s v Y) (ho : Lawful o own lent) (hb : ∀ b, c.ptr = .ours b → b ∈ s.live)
    (hq : ∀ q, c.ptr = .theirs q → q ∈ lent s.orig) (hrun : c.run o s.toHooked t ans = .ok x)
    (hmeant : c.Meant s.toHooked ans) (hn : c.call.InBounds) :
    Turn own s ⟨x.1, c.after s.live x⟩ t v (x.2.2 = none) := by
  have hours : ∀ {h₁ v₁ l₁}, Leads t True Anywhere ⟨s.heap, v, s.live⟩ ⟨h₁, v₁, l₁⟩ → x.1 = ⟨h₁, s.orig⟩ →
      c.after s.live x = l₁ → Turn own s ⟨x.1, c.after s.live x⟩ t v (x.2.2 = none) := by
    intro h₁ v₁ l₁ hleads hx hafter
    rw [hx, hafter]
    exact ⟨h₁, v₁, hleads, .refl _, rfl, fun _ => ⟨rfl, rfl⟩⟩
  have htheirs : ∀ {h₁ v₁ g}, Leads t True Anywhere ⟨s.heap, v, s.live⟩ ⟨h₁, v₁, s.live⟩ →
      (c.original o).1 = some g → (∀ b, c.ptr ≠ .ours b) → x = forward ⟨h₁, s.orig⟩ g →
      Turn own s ⟨x.1, c.after s.live x⟩ t v (x.2.2 = none) := by
    intro h₁ v₁ g hleads hg hno hx
    rw [hx]
    exact ⟨h₁, v₁, hleads, ho.moves c g (s.orig, h₁.os) hg hno hq, rfl, fun hno => absurd rfl hno⟩
  cases hp : c.ptr with
  | null =>
    obtain ⟨h₁, w, hcall, ⟨hw, hx⟩ | ⟨h0, g, hg, hx⟩⟩ := c.null_run hp hrun
    · obtain ⟨v₁, hleads⟩ := hs.call (fun b hb' => hb b (HookCall.ptr_of_arg hb')) hn hcall
      refine hours hleads hx ?_
      unfold HookCall.after
      rw [hw, hx]
    · obtain ⟨v₁, hleads⟩ := hs.call (fun b hb' => hb b (HookCall.ptr_of_arg hb')) hn hcall
      have hafter : c.call.after s.live (h₁, w) = s.live := by
        have hgone : c.call.gone w.1 = none := by
          cases c with
          | heapAlloc _ _ _ | malloc _ => rfl
          | heapFree _ _ p | heapSize _ _ p | free p =>
            obtain rfl : p = .null := hp
            rfl
          | heapReAlloc _ _ p _ =>
            obtain rfl : p = .null := hp
            exact ite_self _
        unfold Call.after
        rw [hgone, if_pos h0]
      rw [hafter] at hleads
      exact htheirs hleads hg (fun b hb' => nomatch hp.symm.trans hb') hx
  | ours b =>
    have hmem := hb b hp
    have haddr := hs.addr_ne ho hb hq (by rw [hp]; nofun)
    rw [HookCall.run_routed o s.toHooked t ans haddr, hp] at hrun
    obtain ⟨h₁, u, hsize, ⟨hu, hrun'⟩ | ⟨hu, _⟩⟩ := routed_ok hrun
    · have hsizeRun : (Call.usableSize (some b)).run s.heap t ans = .ok (h₁, 0, .null) :=
        Exec.bind_eq_ok.mpr ⟨_, hsize, rfl⟩
      have harg : ∀ b', (Call.usableSize (some b)).arg = some b' → b' ∈ s.live := fun b' hb' =>
        Option.some.inj hb' ▸ hmem
      obtain ⟨v₁, hleads⟩ := hs.call harg trivial hsizeRun
      have hleads₁ : Leads t True Anywhere ⟨s.heap, v, s.live⟩ ⟨h₁, v₁, s.live⟩ := hleads
      obtain ⟨Z, hs₁, _⟩ := hs.path hleads₁.path
      obtain ⟨w, hw, ⟨hcall, hx, rfl⟩ | ⟨h₂, hcall, hx⟩⟩ := HookCall.ours_run hp hrun'
      · refine hours hleads₁ hx ?_
        unfold HookCall.after
        rw [hw, hcall]
        rfl
      · obtain ⟨v₂, hleads₂⟩ := hs₁.call (fun b hb' => hb b (HookCall.ptr_of_arg hb')) hn hcall
        refine hours (hleads₁.trans hleads₂ fun b' hb' _ => hb') hx ?_
        unfold HookCall.after
        rw [hw, hx]
    · exact absurd hu (Nat.pos_iff_ne_zero.mp (hmeant.1 b hp _ _ hsize))
  | theirs q =>
    obtain ⟨r, hr, hin⟩ := ho.inside s.orig q (hq q hp)
    have haddr := hs.addr_ne ho hb hq (by rw [hp]; nofun)
    rw [HookCall.run_routed o s.toHooked t ans haddr, hp] at hrun
    obtain ⟨h₁, u, hsize, ⟨hu, _⟩ | ⟨_, hpassed⟩⟩ := routed_ok hrun
    · exact absurd (hmeant.2 q hp _ _ hsize) (Nat.pos_iff_ne_zero.mp hu)
    · rcases hs.usableSize_theirs (D := True) (E := Anywhere) hr hin t (ans 0) with
        ⟨hno, _⟩ | ⟨h₂, v₂, hok, _, hleads⟩
      · nomatch hsize.symm.trans hno
      · obtain ⟨rfl, _⟩ := Prod.mk.inj (Except.ok.inj (hsize.symm.trans hok))
        rcases hpassed with ⟨g, hg, hx⟩ | ⟨_, hx⟩
        · exact htheirs hleads hg (fun b hb' => nomatch hp.symm.trans hb') hx
        · rw [hx]
          exact ⟨h₁, v₂, hleads, .refl _, rfl, fun _ => ⟨rfl, rfl⟩⟩

/-- **Step lemma.** A step is a path of the allocator and a move of the others, or a store of a client. -/
theorem Step.turn (hs : Inv own s v Y) (ho : Lawful o own lent) (he : Step o own lent s e s') (hm : meant s e) :
    (∃ t, Turn own s s' t v e.Passes) ∨
      ∃ b m, e = .write b m ∧ b ∈ s.live ∧ Set.EqOn m s.heap.os.bytes b.extentᶜ ∧
        s' = ⟨⟨s.heap.setBytes m, s.orig⟩, s.live⟩ := by
  cases he with
  | hook hb hq hrun => exact .inl ⟨_, hs.hook ho hb hq hrun hm.1 hm.2⟩
  | call harg hrun =>
    obtain ⟨v', hleads⟩ := hs.call harg hm hrun
    exact .inl ⟨_, _, v', hleads, .refl _, rfl, fun _ => ⟨rfl, rfl⟩⟩
  | write hb hbytes => exact .inr ⟨_, _, rfl, hb, hbytes, rfl⟩
  | other hmoves => exact .inl ⟨0, s.heap, v, .refl _, hmoves, rfl, fun hno => absurd trivial hno⟩

/-- What a turn leaves: the invariant, the blocks that live on, and what the others see of it. -/
theorem Turn.inv {P : Prop} (hs : Inv own s v Y) (ht : Turn own s s' t v P) :
    (∃ v' Z, Inv own s' v' Z) ∧
      (∀ b ∈ s.live, b ∈ s'.live → Set.EqOn s'.heap.os.bytes s.heap.os.bytes b.extent) ∧
      (¬ P → s'.orig = s.orig ∧ Unnoticed own s.orig s.heap.os s'.heap.os) := by
  obtain ⟨h', v', hleads, hmoves, hheap, hno⟩ := ht
  obtain ⟨Z, hs₁, hun⟩ := hs.path hleads.path
  obtain ⟨hs₂, hbytes⟩ := hs₁.moves hmoves
  refine ⟨⟨v', Z, ?_⟩, fun b hb hb' => ?_, fun hP => ?_⟩
  · have hstate : s' = ⟨⟨h'.setOs s'.heap.os, s'.orig⟩, s'.live⟩ := by
      rw [← hheap]
    rw [hstate]
    exact hs₂
  · exact (hbytes.mono (hs₁.good.extent_ground hb')).trans (hleads.keeps b hb hb')
  · obtain ⟨horig, hsame⟩ := hno hP
    rw [hsame]
    exact ⟨horig, hun⟩

theorem Step.inv (hs : Inv own s v Y) (ho : Lawful o own lent) (he : Step o own lent s e s') (hm : meant s e) :
    ∃ v' Z, Inv own s' v' Z := by
  rcases he.turn hs ho hm with ⟨t, ht⟩ | ⟨b, m, _, hb, hm, rfl⟩
  · exact (ht.inv hs).1
  · exact ⟨v, Y, hs.good.store hb hm, hs.holds⟩

/-- **Run lemma.** -/
theorem reachable_inv (ho : Lawful o own lent) (hr : ((hooks o own lent).restrict meant).Reachable s) :
    ∃ v Y, Inv own s v Y := by
  refine hr.invariant (I := fun s => ∃ v Y, Inv own s v Y) ?_ ?_
  · rintro s ⟨bytes, f, rfl, hm⟩
    exact ⟨.start, [], .start hm⟩
  · rintro s e s' _ ⟨v, Y, hs⟩ he
    exact he.1.inv hs ho he.2

/-! ## Neither allocator sees the other -/

theorem Step.mem_live (he : Step o own lent s e s') (hb : b ∈ s.live) (hspare : e.Spares b) : b ∈ s'.live := by
  cases he with
  | @hook t c ans x _ _ _ =>
    show b ∈ c.after s.live x
    unfold HookCall.after
    cases x.2.2 with
    | none => exact hb
    | some v => exact Call.mem_after_of_ne hb (fun harg => hspare (HookCall.ptr_of_arg harg)) _
  | call _ _ => exact Call.mem_after_of_ne hb hspare _
  | write _ _ => exact hb
  | other _ => exact hb

/-- The blocks of ours share no byte with each other or with the mappings of the others. -/
structure State.Isolated (own : F → List Region) (s : State F) : Prop where
  apart : s.live.Pairwise Block.Apart
  mapped : ∀ b ∈ s.live, b.ptr ≠ 0 ∧ ∃ r ∈ s.heap.os.maps, r ∉ own s.orig ∧ b.extent ⊆ r.bytes
  theirs : ∀ r ∈ own s.orig, r ∈ s.heap.os.maps ∧ ∀ b ∈ s.live, Disjoint b.extent r.bytes

/-- **In every state** the two allocators are apart. -/
theorem hooked_isolated (ho : Lawful o own lent) (hr : ((hooks o own lent).restrict meant).Reachable s) :
    s.Isolated own := by
  obtain ⟨v, Y, hs⟩ := reachable_inv ho hr
  refine ⟨hs.good.apart, fun b hb => ⟨hs.good.ptr_ne hb, ?_⟩, fun r hr => ⟨?_, fun b hb => ?_⟩⟩
  · obtain ⟨r, hrowned, hextent⟩ := hs.good.extent_owned hb
    refine ⟨r, hs.holds.owned_mem hrowned, fun hr => ?_, hextent⟩
    have hsize := (hs.good.maps.ok r (hs.holds.owned_mem hrowned)).2.2.1
    have hd := hs.holds.disjoint hs.good.maps (List.mem_append_right Y hr) hrowned
    unfold Region.Disjoint at hd
    omega
  · exact hs.holds.other_mem (List.mem_append_right Y hr)
  · rw [Set.disjoint_left]
    intro z hz hzr
    exact hs.holds.other_ground hs.good.maps (List.mem_append_right Y hr) hzr (hs.good.extent_ground hb hz)

theorem hooked_isolated_shelf : ∃ s : State Nat, s.live ≠ [] ∧ s.Isolated shelfOwn := by
  obtain ⟨s, b, hr, _, _, hb, _⟩ := exists_hooked
  exact ⟨s, List.ne_nil_of_mem hb, hooked_isolated shelf_lawful hr⟩

/-- **The others do not touch a block of ours**: over any run in which it is not passed to a call or written by
its client, all its bytes stay. -/
theorem hooked_keeps {es : List (Event F)} (ho : Lawful o own lent)
    (hr : ((hooks o own lent).restrict meant).Reachable s) (hb : b ∈ s.live)
    (hrun : ((hooks o own lent).restrict meant).Run s es s') (hspare : ∀ e ∈ es, e.Spares b) :
    b ∈ s'.live ∧ Set.EqOn s'.heap.os.bytes s.heap.os.bytes b.extent := by
  induction hrun with
  | nil => exact ⟨hb, Set.eqOn_refl _ _⟩
  | @cons s s₁ s' e es he _ ih =>
    obtain ⟨v, Y, hs⟩ := reachable_inv ho hr
    have hfirst := hspare e List.mem_cons_self
    have hb₁ : b ∈ s₁.live := Step.mem_live he.1 hb hfirst
    obtain ⟨hb', hrest⟩ := ih (hr.step he) hb₁ fun e he => hspare e (List.mem_cons_of_mem _ he)
    refine ⟨hb', hrest.trans ?_⟩
    rcases Step.turn hs ho he.1 he.2 with ⟨t, ht⟩ | ⟨b', m, rfl, hmem, hm, rfl⟩
    · exact (ht.inv hs).2.1 b hb hb₁
    · exact hs.good.store_keeps hmem hm hb (Ne.symm hfirst)

/-- A request that the allocator refuses, served by the function replaced. -/
theorem hooked_keeps_shelf : ∃ (s s' : State Nat) (b : Block), s.orig = 1 ∧ s'.orig = 2 ∧ b ∈ s'.live ∧
    Set.EqOn s'.heap.os.bytes s.heap.os.bytes b.extent := by
  obtain ⟨s, b, hr, _, horig, hb, _⟩ := exists_hooked
  obtain ⟨f, hf⟩ : ∃ f, f = (if s.orig < 3000 then ((s.orig + 1, s.heap.os), 73728 + 16 * s.orig) else
    ((s.orig, s.heap.os), 0) : (Nat × Os) × Nat) := ⟨_, rfl⟩
  have hrun : (HookCall.heapAlloc 0 0 0).run shelf s.toHooked 1 (fun _ => ⟨none, none, none⟩) =
      .ok (⟨s.heap.setOs f.1.2, f.1.1⟩, f.2, none) := by
    rw [hf]
    exact Exec.bind_eq_ok.mpr ⟨_, ferrumMalloc_zero _ _ _, rfl⟩
  have hours : ∀ b, (HookCall.heapAlloc 0 0 0).ptr = .ours b → b ∈ s.live := nofun
  have htheirs : ∀ q, (HookCall.heapAlloc 0 0 0).ptr = .theirs q → q ∈ shelfLent s.orig := nofun
  have hmeant : HookCall.Meant s.toHooked (.heapAlloc 0 0 0) (fun _ => ⟨none, none, none⟩) := ⟨nofun, nofun⟩
  have hstep : ((hooks shelf shelfOwn shelfLent).restrict meant).step s
      (.hook 1 (.heapAlloc 0 0 0) (fun _ => ⟨none, none, none⟩) none) ⟨⟨s.heap.setOs f.1.2, f.1.1⟩, s.live⟩ :=
    ⟨.hook hours htheirs hrun, hmeant, trivial⟩
  refine ⟨s, _, b, horig, ?_, hooked_keeps shelf_lawful hr hb (.cons hstep .nil) fun e he => ?_⟩
  · show f.1.1 = 2
    rw [hf, horig]
    rfl
  · obtain rfl := List.mem_singleton.mp he
    nofun

/-- **The allocator does not touch the others**: over any run in which no hook passes a call on, and the others
do not move, they keep their mappings and every byte there. -/
theorem hooked_unnoticed {es : List (Event F)} (ho : Lawful o own lent)
    (hr : ((hooks o own lent).restrict meant).Reachable s)
    (hrun : ((hooks o own lent).restrict meant).Run s es s') (hours : ∀ e ∈ es, ¬ e.Passes) :
    s'.orig = s.orig ∧ Unnoticed own s.orig s.heap.os s'.heap.os := by
  induction hrun with
  | nil =>
    obtain ⟨v, Y, hs⟩ := reachable_inv ho hr
    exact ⟨rfl, fun r hr => hs.holds.other_mem (List.mem_append_right Y hr), fun _ _ => Set.eqOn_refl _ _⟩
  | @cons s s₁ s' e es he _ ih =>
    obtain ⟨v, Y, hs⟩ := reachable_inv ho hr
    have hfirst : s₁.orig = s.orig ∧ Unnoticed own s.orig s.heap.os s₁.heap.os := by
      rcases Step.turn hs ho he.1 he.2 with ⟨t, ht⟩ | ⟨b', m, rfl, hmem, hm, rfl⟩
      · exact (ht.inv hs).2.2 (hours e List.mem_cons_self)
      · refine ⟨rfl, fun r hr => hs.holds.other_mem (List.mem_append_right Y hr), fun r hr z hz => hm fun hz' => ?_⟩
        exact hs.holds.other_ground hs.good.maps (List.mem_append_right Y hr) hz (hs.good.extent_ground hmem hz')
    obtain ⟨horig, hmaps, hbytes⟩ := ih (hr.step he) fun e he => hours e (List.mem_cons_of_mem _ he)
    rw [hfirst.1] at horig hmaps hbytes
    exact ⟨horig, hmaps, fun r hr => (hbytes r hr).trans (hfirst.2.bytes r hr)⟩

/-- A client writes. -/
theorem hooked_unnoticed_shelf : ∃ s s' : State Nat, s.orig = 1 ∧ s'.orig = s.orig ∧
    Unnoticed shelfOwn s.orig s.heap.os s'.heap.os := by
  obtain ⟨s, b, hr, _, horig, hb, _⟩ := exists_hooked
  have hstep : ((hooks shelf shelfOwn shelfLent).restrict meant).step s (.write b s.heap.os.bytes)
      ⟨⟨s.heap.setBytes s.heap.os.bytes, s.orig⟩, s.live⟩ := ⟨.write hb (Set.eqOn_refl _ _), trivial⟩
  refine ⟨s, _, horig, hooked_unnoticed shelf_lawful hr (.cons hstep .nil) fun e he => ?_⟩
  obtain rfl := List.mem_singleton.mp he
  exact id

/-! ## Whose a pointer is -/

end

end FerrumAlloc.Hooks
