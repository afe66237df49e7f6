/-
# FerrumAlloc.Tlsf.Runs -- runs with requests of any size

`poolSystem` admits the requests whose rounding up to a multiple of sixteen stays in range. Here every
`usize` may be asked for. In a build without overflow checks `align_up_size` wraps for the last fifteen
sizes, and such a request behaves like the request for one byte. A run with arbitrary requests is
therefore a run of `poolSystem` in which each request has been replaced by one in range (`State.clamp`):
`reachable_clamp`. Only the sizes that the ghost list records differ, so whatever the invariant says
about bitmaps, lists, blocks and payload addresses holds here as well.
-/
import FerrumAlloc.Tlsf.System

namespace FerrumAlloc.Tlsf

open Lib

/-! ## Requests that wrap -/

/-- Rounding is exact up to the last multiple of sixteen. -/
theorem alignUpSize_of_le {n : Nat} (h : n ≤ usizeMax - 15) : alignUpSize n = (n + 15) / 16 * 16 := by
  unfold usizeMax at h
  exact alignUp_of_le (k := 4) (v := n) (by omega)

/-- **Behind it, rounding wraps to zero.** -/
theorem alignUpSize_wrap {n : Nat} (h : usizeMax - 15 < n) (hn : n ≤ usizeMax) : alignUpSize n = 0 := by
  unfold usizeMax at h hn
  have hwrap : usizeSub (usizeAdd n align) 1 = n + 15 - 2 ^ 64 := by
    unfold usizeSub usizeAdd align
    omega
  have hround := and_complement_pow (w := 64) (k := 4) (x := n + 15 - 2 ^ 64) (by omega)
  have hzero : alignUpSize n = _ := (congrArg (· &&& complement 64 (align - 1)) hwrap).trans hround
  omega

/-- The request in range that is served like a request for `n` bytes. -/
def clampSize (n : Nat) : Nat :=
  if n ≤ usizeMax - 16 then n else if n ≤ usizeMax - 15 then usizeMax - 16 else 1

theorem clampSize_le (n : Nat) : clampSize n ≤ usizeMax - 16 := by
  unfold clampSize usizeMax
  split_ifs <;> omega

theorem clampSize_eq_zero {n : Nat} : clampSize n = 0 ↔ n = 0 := by
  have hmax : usizeMax = 2 ^ 64 - 1 := rfl
  unfold clampSize
  split
  · exact Iff.rfl
  · -- neither the clamped nor the given size is zero
    split
    · omega
    · omega

theorem alignUpSize_clampSize {n : Nat} (hn : n ≤ usizeMax) :
    max (alignUpSize (clampSize n)) minPayload = max (alignUpSize n) minPayload := by
  unfold clampSize
  split
  · rfl
  · rename_i hbig
    split
    · rename_i hlast
      -- the last size that does not wrap
      obtain rfl : n = usizeMax - 15 := by omega
      rw [alignUpSize_of_le (Nat.le_refl _), alignUpSize_of_le (by decide)]
      decide
    · rename_i hwrap
      rw [alignUpSize_wrap (by omega) hn, alignUpSize_of_le (by decide)]
      decide

theorem adjusted_clampSize {n : Nat} (hn : n ≤ usizeMax) : adjusted (clampSize n) = adjusted n :=
  alignUpSize_clampSize hn

/-- **Every request is served like one in range.** -/
theorem alloc_clampSize {n : Nat} (t : TlsfAllocator) (m : Mem) (hn : n ≤ usizeMax) :
    Tlsf.alloc t m (clampSize n) = Tlsf.alloc t m n := by
  unfold Tlsf.alloc
  rw [alignUpSize_clampSize hn]
  simp only [clampSize_eq_zero]

theorem adjusted_bounds {n : Nat} (hn : n ≤ usizeMax) : 16 ≤ adjusted n ∧ adjusted n < 2 ^ 64 := by
  obtain ⟨_, _, h16, h64⟩ := adjusted_spec (clampSize_le n)
  rw [adjusted_clampSize hn] at h16 h64
  exact ⟨h16, h64⟩

/-- `alloc`, for any request: it refuses and changes nothing, or carves the chosen block. -/
theorem PoolInv.alloc_any {t : TlsfAllocator} {m : Mem} {bs : List Blk} {L : Nat → Nat → List Nat} {n : Nat}
    (h : PoolInv t m bs L) (h0 : 0 < n) (hn : n ≤ usizeMax) :
    (Tlsf.alloc t m n = .ok (t, m, 0) ∧ NoFit L (adjusted n)) ∨
      ∃ t' m' bs' L' p, Tlsf.alloc t m n = .ok (t', m', p) ∧ Allocated t m bs L n t' m' bs' L' p := by
  have hpos : 0 < clampSize n := Nat.pos_of_ne_zero fun hz => h0.ne' (clampSize_eq_zero.mp hz)
  rw [← alloc_clampSize t m hn, ← adjusted_clampSize hn]
  rcases alloc_spec h hpos (clampSize_le n) with hnone | ⟨t', m', bs', L', p, hrun, ha⟩
  · exact .inl hnone
  · have hcarve := ha.carve
    have hchosen := ha.chosen
    rw [adjusted_clampSize hn] at hcarve hchosen
    exact .inr ⟨t', m', bs', L', p, hrun, hcarve, hchosen, ha.inv, ha.start_eq, ha.end_eq, ha.frame⟩

/-! ## The system -/

/-- One step: a call that returns, with a request of any size, or a client write inside a live payload. -/
inductive AnyStep : State → Event → State → Prop
  | alloc {s : State} {n : Nat} {r : TlsfAllocator × Mem × Nat} : n ≤ usizeMax →
      Tlsf.alloc s.tlsf s.mem n = .ok r → AnyStep s (.alloc n) (s.issue n r)
  | free {s : State} {e : Payload} {r : TlsfAllocator × Mem} : e ∈ s.live →
      Tlsf.free s.tlsf s.mem e.ptr = .ok r → AnyStep s (.free e.ptr) ⟨r.1, r.2, s.live.erase e⟩
  | write {s : State} {e : Payload} {a : Nat} {v : UInt8} : e ∈ s.live → e.ptr ≤ a →
      a < e.ptr + usableSize s.mem e.ptr →
      AnyStep s (.write a v) { s with mem := Function.update s.mem a v }

/-- Runs over the pool `[base, base + size)`, in any initial memory, with any requests. -/
def anySystem (base size : Nat) : System State Event where
  init := (poolSystem base size).init
  step := AnyStep

/-! ## Runs in range -/

/-- The payload as if the request in range had been made. -/
def Payload.clamp (e : Payload) : Payload := { e with req := clampSize e.req }

/-- The state as if the requests in range had been made. -/
def State.clamp (s : State) : State := { s with live := s.live.map Payload.clamp }

theorem State.clamp_issue (s : State) (n : Nat) (r : TlsfAllocator × Mem × Nat) :
    (s.issue n r).clamp = s.clamp.issue (clampSize n) r := by
  unfold State.issue State.clamp
  split <;> rfl

/-- Erasing a payload, when no two have one pointer. -/
theorem map_clamp_erase {e : Payload} {live : List Payload} (hnd : (live.map Payload.ptr).Nodup)
    (he : e ∈ live) : (live.erase e).map Payload.clamp = (live.map Payload.clamp).erase e.clamp := by
  induction live with
  | nil => rfl
  | cons f live ih =>
    rw [List.map_cons] at hnd
    obtain ⟨hnot, hnd⟩ := List.nodup_cons.mp hnd
    rcases List.mem_cons.mp he with rfl | hmem
    · rw [List.erase_cons_head, List.map_cons, List.erase_cons_head]
    · have hptr : f.ptr ≠ e.ptr := fun heq => hnot (heq ▸ List.mem_map_of_mem hmem)
      have hne : f ≠ e := fun heq => hptr (congrArg Payload.ptr heq)
      have hptr' : f.clamp.ptr ≠ e.clamp.ptr := hptr
      have hne' : f.clamp ≠ e.clamp := fun heq => hptr' (congrArg Payload.ptr heq)
      rw [List.erase_cons_tail (by simpa using hne), List.map_cons, ih hnd hmem, List.map_cons,
        List.erase_cons_tail (by simpa using hne')]

/-- **One step, with the request in range.** -/
theorem AnyStep.clamp {base size : Nat} {s s' : State} {e : Event} {bs : List Blk}
    {L : Nat → Nat → List Nat} (h : PoolState base size s.clamp bs L) (hs : AnyStep s e s') :
    ∃ e', Step s.clamp e' s'.clamp := by
  cases hs with
  | @alloc n r hn hrun =>
    refine ⟨.alloc (clampSize n), ?_⟩
    rw [State.clamp_issue]
    exact Step.alloc (s := s.clamp) (clampSize_le n) ((alloc_clampSize s.tlsf s.mem hn).trans hrun)
  | @free e r he hrun =>
    have hnd : (s.live.map Payload.ptr).Nodup := by
      have hnd' := h.nodup
      unfold State.clamp at hnd'
      rw [List.map_map] at hnd'
      exact hnd'
    refine ⟨.free e.clamp.ptr, ?_⟩
    have hstep := Step.free (s := s.clamp) (e := e.clamp) (List.mem_map_of_mem he) hrun
    have hlive : (State.mk r.1 r.2 (s.live.erase e)).clamp = ⟨r.1, r.2, s.clamp.live.erase e.clamp⟩ :=
      congrArg (State.mk r.1 r.2) (map_clamp_erase hnd he)
    rw [hlive]
    exact hstep
  | @write e a v he h1 h2 =>
    exact ⟨.write a v, Step.write (s := s.clamp) (e := e.clamp) (List.mem_map_of_mem he) h1 h2⟩

/-- **Run lemma.** Every run with any requests is a run with requests in range. -/
theorem reachable_clamp {base size : Nat} (ha : PoolArgs base size) {s : State}
    (hr : (anySystem base size).Reachable s) : (poolSystem base size).Reachable s.clamp := by
  refine System.Reachable.map State.clamp ?_ ?_ hr
  · rintro s ⟨m, hadd, hlive⟩
    exact ⟨m, hadd, by rw [State.clamp, hlive]; rfl⟩
  · intro s e s' hr' hs
    obtain ⟨bs, L, h⟩ := reachable_poolState ha hr'
    exact hs.clamp h

/-- A run with requests in range is a run. -/
theorem reachable_any {base size : Nat} {s : State} (hr : (poolSystem base size).Reachable s) :
    (anySystem base size).Reachable s := by
  refine System.Reachable.map id ?_ ?_ hr
  · exact fun s hs => hs
  intro s e s' _ hs
  refine ⟨e, ?_⟩
  cases hs with
  | alloc hn hrun => exact .alloc (hn.trans (Nat.sub_le _ _)) hrun
  | free he hrun => exact .free he hrun
  | write he h1 h2 => exact .write he h1 h2

/-! ## The invariant, without the clamp -/

/-- What every run keeps: the pool invariant, with the live payloads in the used blocks, and requests that
are sizes. -/
structure AnyState (base size : Nat) (s : State) (bs : List Blk) (L : Nat → Nat → List Nat) : Prop where
  clamped : PoolState base size s.clamp bs L
  asked : ∀ e ∈ s.live, 0 < e.req ∧ e.req ≤ usizeMax

namespace AnyState

variable {base size n : Nat} {s : State} {bs : List Blk} {L : Nat → Nat → List Nat} {e : Payload}

theorem inv (h : AnyState base size s bs L) : PoolInv s.tlsf s.mem bs L := h.clamped.inv

theorem start_eq (h : AnyState base size s bs L) : s.tlsf.poolStart = base := h.clamped.start_eq

theorem clamp_mem (he : e ∈ s.live) : e.clamp ∈ s.clamp.live := List.mem_map_of_mem he

/-- A live payload is the payload of a used block. -/
theorem block (h : AnyState base size s bs L) (he : e ∈ s.live) :
    ∃ x, e.ptr = x + 16 ∧ UsedAt base bs x e.usable := h.clamped.block e.clamp (clamp_mem he)

/-- Every call of `alloc` returns. -/
theorem alloc_returns (h : AnyState base size s bs L) (hn : n ≤ usizeMax) :
    ∃ r, Tlsf.alloc s.tlsf s.mem n = .ok r := by
  rw [← alloc_clampSize s.tlsf s.mem hn]
  rcases h.clamped.alloc_returns (clampSize_le n) with hrun | ⟨_, _, _, _, _, hrun, _⟩
  · exact ⟨_, hrun⟩
  · exact ⟨_, hrun⟩

/-- Every free of a live payload returns. -/
theorem free_returns (h : AnyState base size s bs L) (he : e ∈ s.live) :
    ∃ t' m' bs' L', Tlsf.free s.tlsf s.mem e.ptr = .ok (t', m') ∧
      Released s.tlsf s.mem bs L e.ptr t' m' bs' L' := h.clamped.free_returns (e := e.clamp) (clamp_mem he)

end AnyState

/-- The sizes asked for are sizes: step and run. -/
theorem asked_step {s s' : State} {e : Event} (h : ∀ e ∈ s.live, 0 < e.req ∧ e.req ≤ usizeMax)
    (hs : AnyStep s e s') : ∀ e ∈ s'.live, 0 < e.req ∧ e.req ≤ usizeMax := by
  cases hs with
  | @alloc n r hn hrun =>
    intro f hf
    unfold State.issue at hf
    split at hf
    · exact h f hf
    · rename_i hp
      rcases List.mem_cons.mp hf with rfl | hf
      · refine ⟨Nat.pos_of_ne_zero ?_, hn⟩
        rintro rfl
        -- a request for nothing gets nothing
        exact hp (congrArg (fun r => r.2.2) (Except.ok.inj hrun)).symm
      · exact h f hf
  | free he hrun => exact fun f hf => h f (List.mem_of_mem_erase hf)
  | write he h1 h2 => exact h

/-- **Run lemma.** -/
theorem reachable_anyState {base size : Nat} (ha : PoolArgs base size) {s : State}
    (hr : (anySystem base size).Reachable s) : ∃ bs L, AnyState base size s bs L := by
  obtain ⟨bs, L, h⟩ := reachable_poolState ha (reachable_clamp ha hr)
  have hasked : ∀ e ∈ s.live, 0 < e.req ∧ e.req ≤ usizeMax := by
    refine System.Reachable.invariant (I := fun s => ∀ e ∈ s.live, 0 < e.req ∧ e.req ≤ usizeMax) ?_ ?_ hr
    · rintro s ⟨_, _, hlive⟩ e he
      rw [hlive] at he
      nomatch he
    · exact fun s e s' _ h hs => asked_step h hs
  exact ⟨bs, L, h, hasked⟩

end FerrumAlloc.Tlsf
