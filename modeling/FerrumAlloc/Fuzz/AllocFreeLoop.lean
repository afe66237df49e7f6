/-
# FerrumAlloc.Fuzz.AllocFreeLoop -- the fuzz target `alloc_free_loop`

The target reads its input as a program: an operation byte, then the operands of the operation. It allocates,
stores one byte into each new block, frees blocks in any order, and frees what is left at the end. A panic of
the target itself (an index out of range) is a fault, as it is in the allocator.

`fuzz_returns` is about every input. Fuzzing samples inputs and looks for crashes; here each input is a run of
the process with valid calls only, at whose end the process holds the blocks it held before, with their bytes
and with no mapping more.
-/
import FerrumAlloc.Api.Mapped
import FerrumAlloc.Api.Solo
import FerrumAlloc.Api.Survival

namespace FerrumAlloc

open Lib

/-! ## What a run leaves alone -/

/-- `b` is not passed to the call, or not the block written. -/
def Event.Spares (b : Block) : Event → Prop
  | .call _ c _ => c.arg ≠ some b
  | .write b' _ => b' ≠ b

section

variable {s s' s'' : State} {b : Block} {e : Event} {es : List Event} {v : View}

/-- **Step lemma.** A block that is spared keeps its bytes. -/
theorem Step.spares (hs : Step s e s') (hn : inBounds s e) (hg : Good s.heap v s.live) (hb : b ∈ s.live)
    (hb' : b ∈ s'.live) (hspare : e.Spares b) : Set.EqOn s'.heap.os.bytes s.heap.os.bytes b.extent := by
  cases hs with
  | @call t c ans r harg hrun =>
    obtain ⟨v', hleads⟩ := (Call.leads hg c harg hn t ans).of_run hrun
    exact hleads.keeps b hb hb'
  | write hmem hm => exact hg.store_keeps hmem hm hb (Ne.symm hspare)

theorem Step.mem_live (hs : Step s e s') (hb : b ∈ s.live) (hspare : e.Spares b) : b ∈ s'.live := by
  cases hs with
  | call _ _ => exact Call.mem_after_of_ne hb hspare _
  | write _ _ => exact hb

/-- The arena that is there stays the only one. -/
theorem Step.sameGlobals (hs : Step s e s') (hn : inBounds s e) (hg : Good s.heap v s.live)
    (hinit : s.heap.arenaInit = true) : SameGlobals s.heap s'.heap := by
  cases hs with
  | @call t c ans r harg hrun =>
    obtain ⟨v', hleads⟩ := (Call.leads hg c harg hn t ans).of_run hrun
    exact hleads.path.sameGlobals hg hinit
  | write _ _ => exact ⟨rfl, rfl, rfl⟩

end

end FerrumAlloc

namespace FerrumAlloc.Fuzz

open Lib

/-! ## `Vec` -/

/-- `Vec::swap_remove`: the element at `i`, and the rest with the last element in its place. Out of range it
panics. -/
def swapRemove {α : Type*} (l : List α) (i : Nat) : Exec (α × List α) :=
  match l[i]?, l.getLast? with
  | some x, some y => .ok (x, (l.set i y).dropLast)
  | _, _ => .error .indexOutOfBounds

/-- **Nothing but the element goes.** -/
theorem swapRemove_spec {α : Type*} {l : List α} {i : Nat} (hi : i < l.length) :
    ∃ x rest, swapRemove l i = .ok (x, rest) ∧ l.Perm (x :: rest) := by
  obtain ⟨pre, x, post, rfl, rfl⟩ : ∃ pre x post, l = pre ++ x :: post ∧ pre.length = i :=
    ⟨l.take i, l[i], l.drop (i + 1), by rw [List.getElem_cons_drop, List.take_append_drop],
      List.length_take_of_le (Nat.le_of_lt hi)⟩
  have hat : (pre ++ x :: post)[pre.length]? = some x := by
    rw [List.getElem?_append_right (Nat.le_refl _), Nat.sub_self]
    rfl
  rcases List.eq_nil_or_concat post with rfl | ⟨mid, y, rfl⟩
  · -- the element is the last one
    refine ⟨x, pre, ?_, List.perm_append_singleton x pre⟩
    have hset : (pre ++ [x]).set pre.length x = pre ++ [x] := by simp
    simp only [swapRemove, hat, List.getLast?_concat, hset, List.dropLast_concat]
  · rw [List.concat_eq_append] at hat ⊢
    have hlast : (pre ++ x :: (mid ++ [y])).getLast? = some y := by
      rw [← List.cons_append, ← List.append_assoc, List.getLast?_concat]
    have hset : (pre ++ x :: (mid ++ [y])).set pre.length y = (pre ++ y :: mid) ++ [y] := by simp
    refine ⟨x, pre ++ y :: mid, ?_, List.perm_middle.trans (.cons x ?_)⟩
    · simp only [swapRemove, hat, hlast, hset, List.dropLast_concat]
    · exact (List.perm_append_singleton y mid).append_left pre

/-- Indexing the input. -/
def byteAt (data : List UInt8) (i : Nat) : Exec Nat :=
  match data[i]? with
  | some x => .ok x.toNat
  | none => .error .indexOutOfBounds

theorem byteAt_of_lt {data : List UInt8} {i : Nat} (hi : i < data.length) : byteAt data i = .ok data[i].toNat := by
  unfold byteAt
  rw [List.getElem?_eq_getElem hi]

/-! ## The target -/

/-- The variables of the target besides its position in the input, and, as ghost data, the number of calls made so
far: the operating system's answers are numbered by it. -/
structure Target where
  heap : Heap
  ptrs : List Nat
  calls : Nat

variable (data : List UInt8) (t : Nat) (ans : Nat → Answers)

/-- An allocation: the first byte of the block is written, and its pointer is kept. -/
def alloc (s : Target) (size : Nat) : Exec Target := do
  let (h, p, _) ← ferrumMalloc s.heap t size (ans s.calls)
  if p ≠ 0 then return ⟨h.setBytes (Function.update h.os.bytes p 0xFF), s.ptrs ++ [p], s.calls + 1⟩
  else return ⟨h, s.ptrs, s.calls + 1⟩

/-- A free. -/
def free (s : Target) (p : Nat) : Exec Target := do
  let h ← ferrumFree s.heap t p (ans s.calls)
  return { s with heap := h, calls := s.calls + 1 }

/-- `u32::from_le_bytes`. -/
def u32FromLeBytes (b0 b1 b2 b3 : Nat) : Nat := b0 + 2 ^ 8 * b1 + 2 ^ 16 * b2 + 2 ^ 24 * b3

/-- The `while` loop, from position `i` on. -/
def loop (i : Nat) (s : Target) : Exec Target :=
  if _ : i < data.length then do
    let op := (← byteAt data i) % 3
    let i := i + 1
    if op = 0 then
      let size := ((data[i]?.getD 0).toNat) + 1
      let s ← alloc t ans s size
      loop (i + 1) s
    else if op = 1 then
      if i + 3 ≤ data.length then
        let size := u32FromLeBytes (← byteAt data i) (← byteAt data (i + 1)) (← byteAt data (i + 2)) 0
        let size := size % (4 * 1024 * 1024) + 1
        let s ← alloc t ans s size
        loop (i + 3) s
      else loop i s
    else
      if s.ptrs ≠ [] then
        let idx := (data[i]?.getD 0).toNat % s.ptrs.length
        let (p, ptrs) ← swapRemove s.ptrs idx
        let s ← free t ans { s with ptrs := ptrs } p
        loop (i + 1) s
      else loop i s
  else .ok s
termination_by data.length - i

/-- Freeing what is left. -/
def cleanup : List Nat → Target → Exec Target
  | [], s => .ok s
  | p :: ptrs, s => do
    let s ← free t ans { s with ptrs := ptrs } p
    cleanup ptrs s

/-- What the target does: it allocates between one byte and 4 MB, and it frees and writes no block of others. -/
def Own (l₀ : List Block) : Event → Prop
  | .call t' c _ => t' = t ∧ ((∃ n, c = .malloc n ∧ 1 ≤ n ∧ n ≤ 4194304) ∨ ∃ b, c = .free (some b) ∧ b ∉ l₀)
  | .write b _ => b ∉ l₀

/-- The live blocks are those of others, `l₀`, and one for each pointer that the target keeps. -/
structure Drives (l₀ : List Block) (x : Target) (s : State) : Prop where
  reach : (system.restrict inBounds).Reachable s
  heap : s.heap = x.heap
  held : ∃ bs, s.live.Perm (bs ++ l₀) ∧ (bs.map Block.ptr).Perm x.ptrs

/-- A part of the target, run in the state `s`: it ends in a state that it drives, after a run of its own; or it
stops at a call that finds no arena and gets none. -/
def Outcome (l₀ : List Block) (s : State) (run : Exec Target) : Prop :=
  (run = .error .nullDeref ∧ s.heap.arenaInit = false) ∨
    ∃ x s' es, run = .ok x ∧ Drives l₀ x s' ∧ (system.restrict inBounds).Run s es s' ∧ (∀ e ∈ es, Own t l₀ e) ∧
      (s.heap.arenaInit = true → s'.heap.arenaInit = true)

variable {data t ans} {l₀ : List Block} {x : Target} {s : State} {run : Exec Target}

theorem Own.spares {e : Event} {b : Block} (he : Own t l₀ e) (hb : b ∈ l₀) : e.Spares b := by
  cases e with
  | call t' c ans =>
    obtain ⟨_, ⟨n, rfl, _⟩ | ⟨b', rfl, hb'⟩⟩ := he
    · nofun
    · rintro heq
      obtain rfl := Option.some.inj heq
      exact hb' hb
  | write b' m =>
    rintro rfl
    exact he hb

theorem Drives.outcome (hd : Drives l₀ x s) : Outcome t l₀ s (.ok x) :=
  .inr ⟨x, s, [], rfl, hd, .nil, nofun, id⟩

/-- **Outcomes compose.** -/
theorem Outcome.bind {f : Target → Exec Target} (ho : Outcome t l₀ s run)
    (hf : ∀ x s', run = .ok x → Drives l₀ x s' → Outcome t l₀ s' (f x)) : Outcome t l₀ s (run >>= f) := by
  rcases ho with ⟨rfl, hno⟩ | ⟨x, s', es, rfl, hd, hrun, hown, hinit⟩
  · exact .inl ⟨rfl, hno⟩
  rcases hf x s' rfl hd with ⟨herr, hno⟩ | ⟨x', s'', es', hok, hd', hrun', hown', hinit'⟩
  · refine .inl ⟨herr, Bool.eq_false_iff.mpr fun hyes => ?_⟩
    nomatch hno.symm.trans (hinit hyes)
  · refine .inr ⟨x', s'', es ++ es', hok, hd', hrun.trans hrun', fun e he => ?_, fun h => hinit' (hinit h)⟩
    exact (List.mem_append.mp he).elim (hown e) (hown' e)

theorem Outcome.of_ok (ho : Outcome t l₀ s run) (hok : run = .ok x) : ∃ s', Drives l₀ x s' := by
  rcases ho with ⟨herr, _⟩ | ⟨x', s', _, hok', hd, _⟩
  · nomatch hok.symm.trans herr
  · obtain rfl := Except.ok.inj (hok'.symm.trans hok)
    exact ⟨s', hd⟩

/-- Blocks are never the same twice. -/
theorem nodup_live {h : Heap} {v : View} {l : List Block} (hg : Good h v l) : l.Nodup :=
  hg.apart.imp fun hapart heq => hapart.1 (congrArg Block.ptr heq)

/-- An allocation. -/
theorem Drives.alloc {n : Nat} (hd : Drives l₀ x s) (h1 : 1 ≤ n) (hn : n ≤ 4194304) :
    Outcome t l₀ s (alloc t ans x n) := by
  obtain ⟨v, hg⟩ := reachable_inBounds_good hd.reach
  obtain ⟨bs, hlive, hptrs⟩ := hd.held
  have harg : ∀ b, (Call.malloc n).arg = some b → b ∈ s.live := nofun
  have hown : Own t l₀ (.call t (.malloc n) fun _ => ans x.calls) := ⟨rfl, .inl ⟨n, rfl, h1, hn⟩⟩
  unfold Fuzz.alloc
  rw [← hd.heap]
  rcases Call.leads hg (.malloc n) harg trivial t (fun _ => ans x.calls) with
    ⟨hrun, hno⟩ | ⟨⟨h', p, via⟩, v', hrun, hinit, hleads⟩
  · have hmalloc : ferrumMalloc s.heap t n (ans x.calls) = .error .nullDeref := hrun
    rw [hmalloc]
    exact .inl ⟨rfl, hno⟩
  have hmalloc : ferrumMalloc s.heap t n (ans x.calls) = .ok (h', p, via) := hrun
  have hstep : (system.restrict inBounds).step s (.call t (.malloc n) fun _ => ans x.calls)
      ⟨h', (Call.malloc n).after s.live (h', p, via)⟩ := ⟨.call harg hrun, trivial⟩
  rw [hmalloc, Exec.bind_ok]
  dsimp only
  by_cases hp : p = 0
  · have hafter : (Call.malloc n).after s.live (h', p, via) = s.live := if_pos hp
    rw [hafter] at hstep
    rw [if_neg (not_not_intro hp)]
    refine .inr ⟨_, _, [_], rfl, ⟨hd.reach.step hstep, rfl, bs, hlive, hptrs⟩, .cons hstep .nil, ?_, hinit⟩
    exact fun e he => List.mem_singleton.mp he ▸ hown
  · have hafter : (Call.malloc n).after s.live (h', p, via) = newBlock (h', p, via) n :: s.live := if_neg hp
    rw [hafter] at hstep hleads
    have hg' : Good h' v' (newBlock (h', p, via) n :: s.live) := hleads.good hg
    have hcap : n ≤ (newBlock (h', p, via) n).cap := (hg'.sized _ List.mem_cons_self).req_le fun _ => by
      show n ≤ 2 ^ 64 - 8192
      omega
    have hnew : newBlock (h', p, via) n ∉ l₀ := fun hmem =>
      (List.nodup_cons.mp (nodup_live hg')).1 (hlive.mem_iff.mpr (List.mem_append_right bs hmem))
    -- the byte written is the first of the block
    have hbyte : Set.EqOn (Function.update h'.os.bytes p 0xFF) h'.os.bytes (newBlock (h', p, via) n).extentᶜ := by
      intro z hz
      refine Function.update_of_ne ?_ _ _
      rintro rfl
      exact hz ⟨Nat.le_refl _, Nat.lt_add_of_pos_right (by omega)⟩
    have hwrite : (system.restrict inBounds).step ⟨h', newBlock (h', p, via) n :: s.live⟩
        (.write (newBlock (h', p, via) n) (Function.update h'.os.bytes p 0xFF)) _ :=
      ⟨.write List.mem_cons_self hbyte, trivial⟩
    rw [if_pos hp]
    refine .inr ⟨_, _, [_, _], rfl, ⟨(hd.reach.step hstep).step hwrite, rfl, newBlock (h', p, via) n :: bs, hlive.cons _, ?_⟩,
      .cons hstep (.cons hwrite .nil), fun e he => ?_, hinit⟩
    · exact (hptrs.cons _).trans (List.perm_append_singleton _ _).symm
    · rcases List.mem_cons.mp he with rfl | he
      · exact hown
      · exact List.mem_singleton.mp he ▸ hnew

/-- Taking the preimage of an element out of a list. -/
theorem exists_erase_of_perm_map {α β : Type*} [DecidableEq α] {f : α → β} {l : List α} {y : β} {ys : List β}
    (hp : (l.map f).Perm (y :: ys)) : ∃ a ∈ l, f a = y ∧ ((l.erase a).map f).Perm ys := by
  obtain ⟨a, ha, rfl⟩ := List.mem_map.mp (hp.mem_iff.mpr List.mem_cons_self)
  exact ⟨a, ha, rfl, (((List.perm_cons_erase ha).map f).symm.trans hp).cons_inv⟩

/-- A free of a pointer that the target has kept. -/
theorem Drives.free {p : Nat} {ptrs : List Nat} (hd : Drives l₀ x s) (hp : x.ptrs.Perm (p :: ptrs)) :
    Outcome t l₀ s (free t ans { x with ptrs := ptrs } p) := by
  obtain ⟨v, hg⟩ := reachable_inBounds_good hd.reach
  obtain ⟨bs, hlive, hptrs⟩ := hd.held
  obtain ⟨b, hb, rfl, hrest⟩ := exists_erase_of_perm_map (hptrs.trans hp)
  have hmem : b ∈ s.live := hlive.mem_iff.mpr (List.mem_append_left l₀ hb)
  have hothers : b ∉ l₀ := fun h => (List.disjoint_of_nodup_append (hlive.nodup_iff.mp (nodup_live hg))) hb h
  unfold Fuzz.free
  rw [← hd.heap]
  rcases ferrumFree_leads (D := True) (E := Anywhere) hg hmem (ans x.calls) (fun _ => trivial)
    (fun _ _ _ _ _ _ _ => trivial) with ⟨hfree, hno, _⟩ | ⟨h', v', hfree, hinit, _⟩
  · rw [hfree]
    exact .inl ⟨rfl, hno⟩
  have hrun : (Call.free (some b)).run s.heap t (fun _ => ans x.calls) = .ok (h', 0, .null) :=
    Exec.bind_eq_ok.mpr ⟨h', hfree, rfl⟩
  have harg : ∀ b', (Call.free (some b)).arg = some b' → b' ∈ s.live := fun b' hb' => Option.some.inj hb' ▸ hmem
  have hstep : (system.restrict inBounds).step s (.call t (.free (some b)) fun _ => ans x.calls)
      ⟨h', s.live.erase b⟩ := ⟨.call harg hrun, trivial⟩
  rw [hfree, Exec.bind_ok]
  refine .inr ⟨_, _, [_], rfl, ⟨hd.reach.step hstep, rfl, bs.erase b, ?_, hrest⟩, .cons hstep .nil, ?_, hinit⟩
  · rw [← List.erase_append_left _ hb]
    exact hlive.erase b
  · exact fun e he => List.mem_singleton.mp he ▸ ⟨rfl, .inr ⟨b, rfl, hothers⟩⟩

/-- **The loop**, by induction on what is left of the input. -/
theorem Drives.loop (hd : Drives l₀ x s) (i : Nat) : Outcome t l₀ s (loop data t ans i x) := by
  induction hk : data.length - i using Nat.strong_induction_on generalizing i x s with
  | _ k ih =>
    have hnext : ∀ {j x' s'}, Drives l₀ x' s' → i < j → i < data.length →
        Outcome t l₀ s' (Fuzz.loop data t ans j x') := fun {j _ _} hd' hj hi =>
      ih (data.length - j) (by omega) hd' j rfl
    rw [Fuzz.loop]
    by_cases hi : i < data.length
    · rw [dif_pos hi, byteAt_of_lt hi, Exec.bind_ok]
      by_cases h0 : data[i].toNat % 3 = 0
      · rw [if_pos h0]
        have hbyte := ((data[i + 1]?).getD 0).toNat_lt
        exact (hd.alloc (Nat.le_add_left 1 _) (by omega)).bind fun _ _ _ hd' => hnext hd' (by omega) hi
      · rw [if_neg h0]
        by_cases h1 : data[i].toNat % 3 = 1
        · rw [if_pos h1]
          by_cases h3 : i + 1 + 3 ≤ data.length
          · rw [if_pos h3, byteAt_of_lt (by omega), byteAt_of_lt (by omega), byteAt_of_lt (by omega)]
            have hsize := Nat.mod_lt (u32FromLeBytes data[i + 1].toNat data[i + 1 + 1].toNat
              data[i + 1 + 2].toNat 0) (show 0 < 4 * 1024 * 1024 by decide)
            exact (hd.alloc (Nat.le_add_left 1 _) (by omega)).bind fun _ _ _ hd' => hnext hd' (by omega) hi
          · rw [if_neg h3]
            exact hnext hd (by omega) hi
        · rw [if_neg h1]
          by_cases hne : x.ptrs ≠ []
          · rw [if_pos hne]
            obtain ⟨p, ptrs, hswap, hp⟩ := swapRemove_spec
              (Nat.mod_lt ((data[i + 1]?).getD 0).toNat (List.length_pos_of_ne_nil hne))
            dsimp only
            rw [hswap]
            exact (hd.free hp).bind fun _ _ _ hd' => hnext hd' (by omega) hi
          · rw [if_neg hne]
            exact hnext hd (by omega) hi
    · rw [dif_neg hi]
      exact hd.outcome

theorem free_ptrs {x' : Target} {p : Nat} (hfree : free t ans x p = .ok x') : x'.ptrs = x.ptrs := by
  obtain ⟨h, _, hret⟩ := Exec.bind_eq_ok.mp hfree
  rw [← Except.ok.inj hret]

/-- Freeing what is left, by induction on it; nothing is left then. -/
theorem Drives.cleanup {ptrs : List Nat} (hd : Drives l₀ x s) (hx : x.ptrs = ptrs) :
    Outcome t l₀ s (cleanup t ans ptrs x) ∧ ∀ x', cleanup t ans ptrs x = .ok x' → x'.ptrs = [] := by
  induction ptrs generalizing x s with
  | nil => exact ⟨hd.outcome, fun x' hret => Except.ok.inj hret ▸ hx⟩
  | cons p ptrs ih =>
    refine ⟨(hd.free (.of_eq hx)).bind fun x' s' hfree hd' => (ih hd' (free_ptrs hfree)).1, fun x' hret => ?_⟩
    obtain ⟨x₁, hfree, hret⟩ := Exec.bind_eq_ok.mp hret
    obtain ⟨s', hd'⟩ := (hd.free (.of_eq hx)).of_ok hfree
    exact (ih hd' (free_ptrs hfree)).2 x' hret

end FerrumAlloc.Fuzz
