/-
# FerrumAlloc.Arena.Record -- the `ArenaMeta` of an arena as a record

`ArenaMeta` lies in memory at the base of the arena. Read as a record (`arenaMeta`), it is all that `alloc_page`,
`alloc` and `reset` look at: each is a function on records (`ArenaMeta.allocPage`, `ArenaMeta.alloc`,
`ArenaMeta.reset`), and what it writes besides stays in the metadata of the arena.
-/
import FerrumAlloc.Arena.System

namespace FerrumAlloc.Arena

open Lib

/-! ## Calls on the whole arena -/

/-- `id`. -/
def id (a : Arena) (m : Mem) : Nat := readLE m a.base 4

/-- `reset`: the bump pointer and the count only; records and data stay. -/
def reset (a : Arena) (m : Mem) : Mem := a.setAllocCount (a.setNextFreePage m metaPages) 0

/-- `drop`. -/
def drop (a : Arena) (os : Os) : Os := osFree a.base a.totalSize os

/-! ## `ArenaMeta` as a record -/

/-- `ArenaMeta`, without the padding. -/
@[ext]
structure ArenaMeta where
  id : Nat
  totalSize : Nat
  nextFreePage : Nat
  allocCount : Nat
  deriving DecidableEq, Repr

/-- `meta`: the record at the base of the arena. -/
def arenaMeta (a : Arena) (m : Mem) : ArenaMeta :=
  ⟨a.id m, readLE m (a.base + 4) 4, a.nextFreePage m, a.allocCount m⟩

namespace ArenaMeta

/-- The record of a new arena. -/
def fresh (id : Nat) : ArenaMeta := ⟨id, defaultArenaSize, metaPages, 0⟩

/-- Handing out the next `k` pages. -/
def take (h : ArenaMeta) (k : Nat) : ArenaMeta :=
  { h with nextFreePage := h.nextFreePage + k, allocCount := (h.allocCount + 1) % 2 ^ 32 }

/-- `alloc_page` on the record. -/
def allocPage (h : ArenaMeta) (a : Arena) : ArenaMeta × Option (Nat × Nat) :=
  if h.nextFreePage ≥ pagesPerArena then (h, none)
  else (h.take 1, some (a.metaPtr h.nextFreePage, a.pageAddr h.nextFreePage))

/-- `alloc` on the record. -/
def alloc (h : ArenaMeta) (a : Arena) (size : Nat) : ArenaMeta × Nat :=
  if size = 0 ∨ h.nextFreePage + pagesNeeded size > pagesPerArena then (h, 0)
  else (h.take (pagesNeeded size), a.pageAddr h.nextFreePage)

/-- `reset` on the record. -/
def reset (h : ArenaMeta) : ArenaMeta := { h with nextFreePage := metaPages, allocCount := 0 }

end ArenaMeta

variable {a b : Arena} {m m' : Mem} {n v k : Nat}

theorem arenaMeta_congr (h : Set.EqOn m' m a.arenaMetaBytes) : a.arenaMeta m' = a.arenaMeta m := by
  have hread : ∀ p k, a.base ≤ p → p + k ≤ a.base + 32 → readLE m' p k = readLE m p k := by
    intro p k hlo hhi
    apply readLE_congr
    intro x h1 h2
    exact h ⟨by omega, by omega⟩
  exact ArenaMeta.ext (hread _ 4 (by omega) (by omega)) (hread _ 4 (by omega) (by omega))
    (hread _ 2 (by omega) (by omega)) (hread _ 4 (by omega) (by omega))

theorem allocCount_setAllocCount : a.allocCount (a.setAllocCount m v) = v % 2 ^ 32 := by
  unfold allocCount setAllocCount
  rw [readLE_writeLE_same, show (256 : Nat) ^ 4 = 2 ^ 32 by norm_num]

/-- The counters lie behind identifier and size. -/
theorem readLE_set {p : Nat} (hp : p + k ≤ a.base + 8) :
    readLE (a.setAllocCount (a.setNextFreePage m v) n) p k = readLE m p k := by
  unfold setAllocCount setNextFreePage
  rw [readLE_writeLE_disj _ _ (by omega), readLE_writeLE_disj _ _ (by omega)]

/-- The two counters are set, and nothing else of the record. -/
theorem arenaMeta_set (hv : v < 2 ^ 16) :
    a.arenaMeta (a.setAllocCount (a.setNextFreePage m v) n) =
      ⟨a.id m, readLE m (a.base + 4) 4, v, n % 2 ^ 32⟩ := by
  unfold arenaMeta id
  rw [readLE_set (by omega), readLE_set (by omega), nextFreePage_setAllocCount, nextFreePage_setNextFreePage hv,
    allocCount_setAllocCount]

theorem allocCount_setNextFreePage : a.allocCount (a.setNextFreePage m v) = a.allocCount m :=
  readLE_writeLE_disj m v (by omega)

/-- **`alloc_page` is a function of the record.** -/
theorem arenaMeta_allocPage (a : Arena) (m : Mem) :
    (a.arenaMeta (a.allocPage m).1, (a.allocPage m).2) = (a.arenaMeta m).allocPage a := by
  unfold allocPage ArenaMeta.allocPage
  by_cases hfull : a.nextFreePage m ≥ pagesPerArena
  · have hfull' : (a.arenaMeta m).nextFreePage ≥ pagesPerArena := hfull
    rw [if_pos hfull, if_pos hfull']
  · have hfull' : ¬ (a.arenaMeta m).nextFreePage ≥ pagesPerArena := hfull
    have hlt : a.nextFreePage m < 512 := Nat.lt_of_not_le hfull
    rw [if_neg hfull, if_neg hfull']
    dsimp only
    rw [arenaMeta_set (by omega), allocCount_setNextFreePage]
    rfl

/-- The records of pages lie behind `ArenaMeta`. -/
theorem arenaMeta_forPages {i : Nat} (hle : i + k ≤ pagesPerArena) (m : Mem) :
    a.arenaMeta (forPages (fun m p => setSizeClass m p noClass) a i k m) = a.arenaMeta m :=
  arenaMeta_congr (forPages_spec (fun pm => { pm with sizeClass := noClass })
    (fun _ _ => readMeta_setSizeClass (by decide)) (fun _ _ => setSizeClass_eqOn) k i m hle).2.2

/-- **`alloc` is a function of the record.** -/
theorem arenaMeta_alloc (a : Arena) (m : Mem) (n : Nat) :
    (a.arenaMeta (a.alloc m n).1, (a.alloc m n).2) = (a.arenaMeta m).alloc a n := by
  by_cases hno : n = 0 ∨ a.nextFreePage m + pagesNeeded n > pagesPerArena
  · have hplain : (a.arenaMeta m).alloc a n = (a.arenaMeta m, 0) := if_pos hno
    have hcode : a.alloc m n = (m, 0) := by
      unfold alloc
      rcases hno with h0 | hfull
      · exact if_pos h0
      · by_cases h0 : n = 0
        · exact if_pos h0
        · exact (if_neg h0).trans (if_pos hfull)
    rw [hplain, hcode]
  · have hplain : (a.arenaMeta m).alloc a n =
        ((a.arenaMeta m).take (pagesNeeded n), a.pageAddr (a.nextFreePage m)) := if_neg hno
    obtain ⟨h0, hfull⟩ := not_or.mp hno
    have hle : a.nextFreePage m + pagesNeeded n ≤ 512 := Nat.le_of_not_lt hfull
    have hcode : a.alloc m n = (forPages (fun m p => setSizeClass m p noClass) a (a.nextFreePage m)
        (a.nextFreePage m + pagesNeeded n - a.nextFreePage m)
        (a.setAllocCount (a.setNextFreePage m (a.nextFreePage m + pagesNeeded n))
          (a.allocCount (a.setNextFreePage m (a.nextFreePage m + pagesNeeded n)) + 1)),
        a.pageAddr (a.nextFreePage m)) := (if_neg h0).trans (if_neg hfull)
    rw [hplain, hcode, Nat.add_sub_cancel_left, arenaMeta_forPages hle, allocCount_setNextFreePage,
      arenaMeta_set (by omega)]
    rfl

theorem arenaMeta_reset (a : Arena) (m : Mem) : a.arenaMeta (a.reset m) = (a.arenaMeta m).reset :=
  arenaMeta_set (by decide)

/-- The padding lies behind the counters. -/
theorem arenaMeta_padding : a.arenaMeta (writeLE m (a.base + 16) 12 v) = a.arenaMeta m := by
  have hread : ∀ p k, p + k ≤ a.base + 16 → readLE (writeLE m (a.base + 16) 12 v) p k = readLE m p k :=
    fun p k hp => readLE_writeLE_disj m v (.inr hp)
  exact ArenaMeta.ext (hread _ 4 (by omega)) (hread _ 4 (by omega)) (hread _ 2 (by omega)) (hread _ 4 (by omega))

/-- **The record that `Arena::new` writes.** -/
theorem arenaMeta_init (hsize : a.totalSize = defaultArenaSize) (hv : v < 2 ^ 32) :
    a.arenaMeta (a.init m v) = .fresh v := by
  have hloop := (forPages_spec (a := a) (f := fun m p => writeMeta m p .empty) (fun _ => .empty)
    (fun _ _ => readMeta_writeMeta_empty) (fun _ _ => writeMeta_eqOn .empty) pagesPerArena 0
    (a.writeArenaMeta m v) (by omega)).2.2
  have hword : ∀ w, w < 2 ^ 32 → w % 256 ^ 4 = w := fun w hw => Nat.mod_eq_of_lt (by norm_num; omega)
  have hid : readLE (writeLE (writeLE m a.base 4 v) (a.base + 4) 4 a.totalSize) a.base 4 = v := by
    rw [readLE_writeLE_disj _ _ (by omega), readLE_writeLE_same, hword v hv]
  have htotal : readLE (writeLE (writeLE m a.base 4 v) (a.base + 4) 4 a.totalSize) (a.base + 4) 4 =
      defaultArenaSize := by
    rw [readLE_writeLE_same, hsize, hword defaultArenaSize (by decide)]
  unfold init
  rw [arenaMeta_congr hloop]
  unfold writeArenaMeta
  rw [arenaMeta_padding, arenaMeta_set (by decide)]
  unfold id
  rw [hid, htotal]
  rfl

/-- `alloc_page` leaves the record as it is, or takes a page. -/
theorem ArenaMeta.allocPage_cases (h : ArenaMeta) (a : Arena) :
    h.allocPage a = (h, none) ∨ h.allocPage a = (h.take 1, some (a.metaPtr h.nextFreePage, a.pageAddr h.nextFreePage)) := by
  unfold ArenaMeta.allocPage
  split
  · exact .inl rfl
  · exact .inr rfl

theorem ArenaMeta.alloc_cases (h : ArenaMeta) (a : Arena) (n : Nat) :
    h.alloc a n = (h, 0) ∨ h.alloc a n = (h.take (pagesNeeded n), a.pageAddr h.nextFreePage) := by
  unfold ArenaMeta.alloc
  split
  · exact .inl rfl
  · exact .inr rfl

/-! ### What the calls write -/

theorem allocPage_eqOn (a : Arena) (m : Mem) : Set.EqOn (a.allocPage m).1 m (a.metaRegion)ᶜ := by
  rcases allocPage_spec a m with ⟨_, hrun⟩ | ⟨m', _, hrun, _, hm⟩
  · rw [hrun]
    exact Set.eqOn_refl _ _
  · rw [hrun]
    exact eqOn_compl_mono hm arenaMetaBytes_subset

theorem alloc_eqOn (a : Arena) (m : Mem) (n : Nat) : Set.EqOn (a.alloc m n).1 m (a.metaRegion)ᶜ := by
  rcases alloc_spec a m n with ⟨hrun, _⟩ | ⟨m', _, _, hrun, _, _, hm⟩
  · rw [hrun]
    exact Set.eqOn_refl _ _
  · rw [hrun]
    exact hm

theorem reset_eqOn (a : Arena) (m : Mem) : Set.EqOn (a.reset m) m (a.arenaMetaBytes)ᶜ :=
  setAllocCount_eqOn.trans setNextFreePage_eqOn

theorem drop_bytes (a : Arena) (os : Os) : (a.drop os).bytes = os.bytes := by
  unfold drop osFree
  split <;> rfl

/-! ## The process -/

/-- `next_arena_id`: the identifier, and `NEXT_ARENA_ID` after it. -/
def nextArenaId (next : Nat) : Nat × Nat := (next, (next + 1) % 2 ^ 32)

/-- `Arena::new` in a process whose `NEXT_ARENA_ID` is `next`. A refused call takes no identifier. -/
def create (answer : Option Nat) (next : Nat) (os : Os) : Option Arena × Nat × Os :=
  match Arena.new answer (nextArenaId next).1 os with
  | (none, os) => (none, next, os)
  | (some a, os) => (some a, (nextArenaId next).2, os)

/-- The mapping of an arena. -/
def region (a : Arena) : Region := ⟨a.base, a.totalSize⟩

/-- **`Arena::new`** is refused, or sets up an arena in a fresh mapping. -/
theorem create_spec (answer : Option Nat) {next : Nat} (hnext : next < 2 ^ 32) (os : Os) :
    ((∀ base, answer = some base → ¬ Grantable os.maps 2097152 base) ∧ create answer next os = (none, next, os)) ∨
      ∃ (a : Arena) (m : Mem), answer = some a.base ∧ Grantable os.maps 2097152 a.base ∧
        create answer next os = (some a, (next + 1) % 2 ^ 32, ⟨m, a.region :: os.maps⟩) ∧
        a.totalSize = defaultArenaSize ∧ ArenaState a ⟨m, []⟩ ∧ a.arenaMeta m = .fresh next ∧
        Set.EqOn m os.bytes (a.region.bytes)ᶜ := by
  rcases new_spec answer next os with ⟨hrefused, hnone⟩ | ⟨base, m, hans, hg, hout, hsome⟩
  · refine .inl ⟨hrefused, ?_⟩
    unfold create nextArenaId
    rw [hnone]
  right
  obtain ⟨a, ha⟩ : ∃ a : Arena, a = ⟨base, defaultArenaSize⟩ := ⟨_, rfl⟩
  obtain ⟨m₁, hm₁⟩ : ∃ m₁, m₁ = a.init m next := ⟨_, rfl⟩
  have hbase : a.base = base := by rw [ha]
  have hsize : a.totalSize = defaultArenaSize := by rw [ha]
  have hregion : a.region = ⟨base, 2097152⟩ := by
    rw [ha]
    rfl
  rw [← ha, ← hm₁] at hsome
  refine ⟨a, m₁, by rw [hbase, hans], by rwa [hbase], ?_, hsize, ArenaState.init ⟨⟨_, _, _, _, hsome, rfl⟩, rfl⟩, ?_,
    ?_⟩
  · unfold create nextArenaId
    rw [hsome, hregion]
  · rw [hm₁]
    exact arenaMeta_init hsize hnext
  · -- the metadata lies in the mapping
    intro z hz
    have hmeta : z ∉ a.metaRegion := by
      intro hz'
      have h2 := hz'.2
      rw [hregion, ← hbase] at hz
      exact hz ⟨hz'.1, show z < a.base + 2097152 by omega⟩
    rw [hm₁, (init_spec a m next).2.2 hmeta]
    rw [hregion] at hz
    exact hout hz

/-- A single arena sees the rest of memory only through its record. -/
theorem ArenaState.frame {u : State} (h : ArenaState a u) (hm : a.arenaMeta m = a.arenaMeta u.mem) :
    ArenaState a ⟨m, u.runs⟩ := by
  have hnext : a.nextFreePage m = a.nextFreePage u.mem := congrArg ArenaMeta.nextFreePage hm
  have hle := h.le
  have htiled := h.tiled
  rw [← hnext] at hle htiled
  exact ⟨h.ok, hle, htiled, h.aligned⟩

end FerrumAlloc.Arena
