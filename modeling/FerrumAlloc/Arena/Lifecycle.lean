/-
# FerrumAlloc.Arena.Lifecycle -- many arenas, from `Arena::new` to `drop`

A process may hold any number of arenas. Each is made in a mapping of its own, takes an identifier from the
process-wide counter, hands out pages, may be reset, and gives its mapping back when it is dropped. All of them
live in one memory, into which callers write anywhere but in an `ArenaMeta`.

The invariant (`Held`) is that each arena is in order by itself, and that they are apart. A call writes to the
metadata of its own arena only, so every step is a statement about one arena and a frame for the others.
-/
import FerrumAlloc.Arena.Record

namespace FerrumAlloc.Arenas

open Lib Arena

/-- Memory and mappings, the identifier counter, and the arenas that have not been dropped. As ghost data, what each
has handed out since it was made or reset, and the number of arenas made. -/
structure State where
  os : Os
  nextId : Nat
  owned : List Arena
  runs : Arena → List PageRun
  made : Nat

/-- A call with its answer, or a store by a caller. -/
inductive Event
  | new (answer : Option Nat) (r : Option Arena)
  | allocPage (a : Arena) (r : Option (Nat × Nat))
  | alloc (a : Arena) (size align p : Nat)
  | stats (a : Arena) (id allocCount bytesUsed bytesRemaining : Nat)
  | reset (a : Arena)
  | drop (a : Arena)
  | write (x : Nat) (v : UInt8)

namespace State

/-- One arena by itself. -/
def view (s : State) (a : Arena) : Arena.State := ⟨s.os.bytes, s.runs a⟩

def setBytes (s : State) (m : Mem) : State := { s with os := { s.os with bytes := m } }

/-- Recording what `Arena::new` has returned. -/
def add (s : State) (r : Option Arena × Nat × Os) : State :=
  match r.1 with
  | none => { s with os := r.2.2, nextId := r.2.1 }
  | some a => ⟨r.2.2, r.2.1, a :: s.owned, Function.update s.runs a [], s.made + 1⟩

/-- Recording a call on `a` that left memory `m` and returned `p` for `req` bytes. -/
def hand (s : State) (a : Arena) (m : Mem) (p req : Nat) : State :=
  { s.setBytes m with runs := Function.update s.runs a ((s.view a).hand a m p req).runs }

end State

inductive Step : State → Event → State → Prop
  | new {s : State} {answer : Option Nat} :
      Step s (.new answer (create answer s.nextId s.os).1) (s.add (create answer s.nextId s.os))
  | allocPage {s : State} {a : Arena} : a ∈ s.owned →
      Step s (.allocPage a (a.allocPage s.os.bytes).2)
        (s.hand a (a.allocPage s.os.bytes).1 (pageOf (a.allocPage s.os.bytes).2) pageSize)
  | alloc {s : State} {a : Arena} {n align : Nat} : a ∈ s.owned → n ≤ usizeMax →
      Step s (.alloc a n align (a.alloc s.os.bytes n).2) (s.hand a (a.alloc s.os.bytes n).1 (a.alloc s.os.bytes n).2 n)
  | stats {s : State} {a : Arena} : a ∈ s.owned →
      Step s (.stats a (a.id s.os.bytes) (a.allocCount s.os.bytes) (a.bytesUsed s.os.bytes) (a.bytesRemaining s.os.bytes)) s
  | reset {s : State} {a : Arena} : a ∈ s.owned →
      Step s (.reset a) { s.setBytes (a.reset s.os.bytes) with runs := Function.update s.runs a [] }
  | drop {s : State} {a : Arena} : a ∈ s.owned →
      Step s (.drop a) { s with
        os := a.drop s.os, owned := s.owned.erase a, runs := Function.update s.runs a [] }
  | write {s : State} {x : Nat} {v : UInt8} : (∀ a ∈ s.owned, x ∉ a.arenaMetaBytes) →
      Step s (.write x v) (s.setBytes (Function.update s.os.bytes x v))

/-- The process, from its start, with the mappings `foreign` that it has for other purposes. -/
def arenas (foreign : List Region) : System State Event where
  init s := s.os.maps = foreign ∧ s.nextId = 1 ∧ s.owned = [] ∧ s.made = 0
  step := Step

/-! ## The invariant -/

/-- Each arena is in order by itself, and they are apart. -/
structure Held (foreign : List Region) (s : State) : Prop where
  maps : s.os.maps.Perm (s.owned.map region ++ foreign)
  nodup : s.owned.Nodup
  apart : ∀ a ∈ s.owned, ∀ b ∈ s.owned, b ≠ a → a.region.Disjoint b.region
  arena : ∀ a ∈ s.owned, ArenaState a (s.view a)
  count : ∀ a ∈ s.owned, a.allocCount s.os.bytes = (s.runs a).length % 2 ^ 32
  next : s.nextId = (s.made + 1) % 2 ^ 32
  ids : s.made < 2 ^ 32 → ∀ a ∈ s.owned, (0 < a.id s.os.bytes ∧ a.id s.os.bytes ≤ s.made) ∧
    ∀ b ∈ s.owned, b ≠ a → b.id s.os.bytes ≠ a.id s.os.bytes

variable {foreign : List Region} {s s' : State} {e : Event} {es : List Event} {a b : Arena} {m : Mem} {x : Nat}

theorem metaRegion_region (ha : a.Ok) : a.metaRegion ⊆ a.region.bytes := by
  intro z hz
  have hsize : a.totalSize = 2097152 := ha.size
  have h2 := hz.2
  exact ⟨hz.1, show z < a.base + a.totalSize by omega⟩

namespace Held

/-- What is written to the metadata of one arena leaves the others alone. -/
theorem others (h : Held foreign s) (ha : a ∈ s.owned) (hb : b ∈ s.owned) (hne : b ≠ a)
    (hm : Set.EqOn m s.os.bytes (a.metaRegion)ᶜ) : Set.EqOn m s.os.bytes b.region.bytes := by
  intro z hz
  apply hm
  intro hz'
  have hz'' := metaRegion_region (h.arena a ha).ok hz'
  have hd := h.apart a ha b hb hne
  rw [Region.mem_bytes] at hz hz''
  unfold Region.Disjoint at hd
  omega

theorem arenaMetaBytes_region (h : Held foreign s) (hb : b ∈ s.owned) : b.arenaMetaBytes ⊆ b.region.bytes :=
  arenaMetaBytes_subset.trans (metaRegion_region (h.arena b hb).ok)

theorem meta_others (h : Held foreign s) (ha : a ∈ s.owned) (hb : b ∈ s.owned) (hne : b ≠ a)
    (hm : Set.EqOn m s.os.bytes (a.metaRegion)ᶜ) : b.arenaMeta m = b.arenaMeta s.os.bytes :=
  arenaMeta_congr ((h.others ha hb hne hm).mono (h.arenaMetaBytes_region hb))

theorem meta_write {v : UInt8} (hx : ∀ a ∈ s.owned, x ∉ a.arenaMetaBytes) (ha : a ∈ s.owned) :
    a.arenaMeta (Function.update s.os.bytes x v) = a.arenaMeta s.os.bytes := by
  apply arenaMeta_congr
  intro z hz
  apply Function.update_of_ne
  rintro rfl
  exact hx a ha hz

/-- Identifiers that are not written stay distinct. -/
theorem ids_same (h : Held foreign s) (hids : ∀ b ∈ s.owned, b.id m = b.id s.os.bytes) (hmade : s.made < 2 ^ 32)
    (ha : a ∈ s.owned) : (0 < a.id m ∧ a.id m ≤ s.made) ∧ ∀ b ∈ s.owned, b ≠ a → b.id m ≠ a.id m := by
  obtain ⟨hrange, hother⟩ := h.ids hmade a ha
  rw [hids a ha]
  refine ⟨hrange, fun b hb hne => ?_⟩
  rw [hids b hb]
  exact hother b hb hne

/-- **A call on one arena** that is in order there. -/
theorem update (h : Held foreign s) (ha : a ∈ s.owned) (hm : Set.EqOn m s.os.bytes (a.metaRegion)ᶜ)
    (hid : a.id m = a.id s.os.bytes) {l : List PageRun} (harena : ArenaState a ⟨m, l⟩)
    (hcount : a.allocCount m = l.length % 2 ^ 32) :
    Held foreign { s.setBytes m with runs := Function.update s.runs a l } := by
  have hsame : ∀ b ∈ s.owned, b ≠ a → b.arenaMeta m = b.arenaMeta s.os.bytes := fun b hb hne =>
    h.meta_others ha hb hne hm
  have hids : ∀ b ∈ s.owned, b.id m = b.id s.os.bytes := by
    intro b hb
    by_cases hne : b = a
    · rw [hne]
      exact hid
    · exact congrArg ArenaMeta.id (hsame b hb hne)
  refine ⟨h.maps, h.nodup, h.apart, fun b hb => ?_, fun b hb => ?_, h.next, fun hmade b hb => h.ids_same hids hmade hb⟩
  · show ArenaState b ⟨m, Function.update s.runs a l b⟩
    by_cases hne : b = a
    · rw [hne, Function.update_self]
      exact harena
    · rw [Function.update_of_ne hne]
      exact (h.arena b hb).frame (hsame b hb hne)
  · show b.allocCount m = (Function.update s.runs a l b).length % 2 ^ 32
    by_cases hne : b = a
    · rw [hne, Function.update_self]
      exact hcount
    · rw [Function.update_of_ne hne, ← h.count b hb]
      exact congrArg ArenaMeta.allocCount (hsame b hb hne)

/-- A call that hands out the next pages, or nothing. -/
theorem hand {p req : Nat} (h : Held foreign s) (ha : a ∈ s.owned) (hm : Set.EqOn m s.os.bytes (a.metaRegion)ᶜ)
    (harena : ArenaState a ((s.view a).hand a m p req))
    (hcases : (a.arenaMeta m = a.arenaMeta s.os.bytes ∧ p = 0) ∨
      ∃ k, a.arenaMeta m = (a.arenaMeta s.os.bytes).take k ∧ p ≠ 0) : Held foreign (s.hand a m p req) := by
  refine h.update ha hm ?_ harena ?_
  · rcases hcases with ⟨hsame, _⟩ | ⟨k, htake, _⟩
    · exact congrArg ArenaMeta.id hsame
    · exact congrArg ArenaMeta.id htake
  · unfold Arena.State.hand
    rcases hcases with ⟨hsame, hp⟩ | ⟨k, htake, hp⟩
    · rw [if_pos hp]
      exact (congrArg ArenaMeta.allocCount hsame).trans (h.count a ha)
    · have hcount : a.allocCount m = (a.allocCount s.os.bytes + 1) % 2 ^ 32 := congrArg ArenaMeta.allocCount htake
      rw [if_neg hp, hcount, h.count a ha, List.length_cons]
      show (_ % 2 ^ 32 + 1) % 2 ^ 32 = ((s.runs a).length + 1) % 2 ^ 32
      omega

theorem allocPage (h : Held foreign s) (ha : a ∈ s.owned) :
    Held foreign (s.hand a (a.allocPage s.os.bytes).1 (pageOf (a.allocPage s.os.bytes).2) pageSize) := by
  have hok := (h.arena a ha).ok
  refine h.hand ha (allocPage_eqOn a _) ((h.arena a ha).step .allocPage) ?_
  rcases (a.arenaMeta s.os.bytes).allocPage_cases a with hno | hyes
  · obtain ⟨hmeta, hnone⟩ := Prod.mk.inj ((arenaMeta_allocPage a s.os.bytes).trans hno)
    rw [hnone]
    exact .inl ⟨hmeta, rfl⟩
  · obtain ⟨hmeta, hsome⟩ := Prod.mk.inj ((arenaMeta_allocPage a s.os.bytes).trans hyes)
    rw [hsome]
    exact .inr ⟨1, hmeta, pageAddr_ne_zero hok⟩

theorem alloc {n : Nat} (h : Held foreign s) (ha : a ∈ s.owned) (hn : n ≤ usizeMax) :
    Held foreign (s.hand a (a.alloc s.os.bytes n).1 (a.alloc s.os.bytes n).2 n) := by
  have hok := (h.arena a ha).ok
  have hstep : Arena.Step a (s.view a) (.alloc n 0) _ := .alloc hn
  refine h.hand ha (alloc_eqOn a _ n) ((h.arena a ha).step hstep) ?_
  rcases (a.arenaMeta s.os.bytes).alloc_cases a n with hno | hyes
  · obtain ⟨hmeta, hnull⟩ := Prod.mk.inj ((arenaMeta_alloc a s.os.bytes n).trans hno)
    exact .inl ⟨hmeta, hnull⟩
  · obtain ⟨hmeta, hp⟩ := Prod.mk.inj ((arenaMeta_alloc a s.os.bytes n).trans hyes)
    rw [hp]
    exact .inr ⟨_, hmeta, pageAddr_ne_zero hok⟩

theorem reset (h : Held foreign s) (ha : a ∈ s.owned) :
    Held foreign { s.setBytes (a.reset s.os.bytes) with runs := Function.update s.runs a [] } := by
  have hmeta := arenaMeta_reset a s.os.bytes
  have hnext : a.nextFreePage (a.reset s.os.bytes) = metaPages := congrArg ArenaMeta.nextFreePage hmeta
  refine h.update ha (eqOn_compl_mono (reset_eqOn a _) arenaMetaBytes_subset) (congrArg ArenaMeta.id hmeta)
    ⟨(h.arena a ha).ok, ?_, ?_, nofun⟩ (congrArg ArenaMeta.allocCount hmeta)
  · rw [hnext]
    decide
  · rw [hnext]
    rfl

/-- A store by a caller. -/
theorem write {v : UInt8} (h : Held foreign s) (hx : ∀ a ∈ s.owned, x ∉ a.arenaMetaBytes) :
    Held foreign (s.setBytes (Function.update s.os.bytes x v)) where
  maps := h.maps
  nodup := h.nodup
  apart := h.apart
  arena a ha := (h.arena a ha).frame (meta_write hx ha)
  count a ha := (congrArg ArenaMeta.allocCount (meta_write hx ha)).trans (h.count a ha)
  next := h.next
  ids hmade _ ha := h.ids_same (fun _ hb => congrArg ArenaMeta.id (meta_write hx hb)) hmade ha

/-- **`drop`** gives back the mapping of the arena, and no other. -/
theorem drop (h : Held foreign s) (ha : a ∈ s.owned) :
    Held foreign { s with os := a.drop s.os, owned := s.owned.erase a, runs := Function.update s.runs a [] } := by
  have hok := (h.arena a ha).ok
  have hdrop : a.drop s.os = { s.os with maps := s.os.maps.erase a.region } := by
    unfold Arena.drop osFree Arena.region
    rw [if_neg (Nat.ne_of_gt hok.pos), hok.size]
    rfl
  have hmem : ∀ {b}, b ∈ s.owned.erase a → b ∈ s.owned := fun hb => List.mem_of_mem_erase hb
  have hne : ∀ {b}, b ∈ s.owned.erase a → b ≠ a := fun hb => ((h.nodup.mem_erase_iff).mp hb).1
  rw [hdrop]
  refine ⟨?_, h.nodup.erase a, fun b hb c hc => h.apart b (hmem hb) c (hmem hc), fun b hb => ?_, fun b hb => ?_,
    h.next, fun hmade b hb => ?_⟩
  · have hperm : s.os.maps.Perm (a.region :: ((s.owned.erase a).map Arena.region ++ foreign)) :=
      h.maps.trans (((List.perm_cons_erase ha).map Arena.region).append_right foreign)
    have herase := hperm.erase a.region
    rwa [List.erase_cons_head] at herase
  · show ArenaState b ⟨s.os.bytes, Function.update s.runs a [] b⟩
    rw [Function.update_of_ne (hne hb)]
    exact h.arena b (hmem hb)
  · show b.allocCount s.os.bytes = (Function.update s.runs a [] b).length % 2 ^ 32
    rw [Function.update_of_ne (hne hb)]
    exact h.count b (hmem hb)
  · obtain ⟨hrange, hother⟩ := h.ids hmade b (hmem hb)
    exact ⟨hrange, fun c hc => hother c (hmem hc)⟩

/-- A new arena is apart from the others. -/
theorem new_apart (h : Held foreign s) (hg : Grantable s.os.maps 2097152 a.base)
    (hsize : a.totalSize = defaultArenaSize) (hb : b ∈ s.owned) : b.region.Disjoint a.region := by
  have hregion : a.region = ⟨a.base, 2097152⟩ := by
    unfold Arena.region
    rw [hsize]
    rfl
  rw [hregion]
  exact hg.2.2.2.2 _ (h.maps.mem_iff.mpr (List.mem_append_left _ (List.mem_map_of_mem hb)))

theorem new_bytes (h : Held foreign s) (hg : Grantable s.os.maps 2097152 a.base)
    (hsize : a.totalSize = defaultArenaSize) (hm : Set.EqOn m s.os.bytes (a.region.bytes)ᶜ) (hb : b ∈ s.owned) :
    Set.EqOn m s.os.bytes b.region.bytes := by
  intro z hz
  apply hm
  intro hz'
  have hd := h.new_apart hg hsize hb
  rw [Region.mem_bytes] at hz hz'
  unfold Region.Disjoint at hd
  omega

theorem nextId_lt (h : Held foreign s) : s.nextId < 2 ^ 32 := by
  rw [h.next]
  exact Nat.mod_lt _ (by decide)

theorem meta_new (h : Held foreign s) (hg : Grantable s.os.maps 2097152 a.base)
    (hsize : a.totalSize = defaultArenaSize) (hm : Set.EqOn m s.os.bytes (a.region.bytes)ᶜ) (hb : b ∈ s.owned) :
    b.arenaMeta m = b.arenaMeta s.os.bytes :=
  arenaMeta_congr ((h.new_bytes hg hsize hm hb).mono (h.arenaMetaBytes_region hb))

/-- **`Arena::new`** makes an arena apart from the others, or changes nothing. -/
theorem create (h : Held foreign s) (answer : Option Nat) :
    Held foreign (s.add (Arena.create answer s.nextId s.os)) := by
  rcases create_spec answer h.nextId_lt s.os with ⟨_, hcreate⟩ | ⟨a, m₁, _, hg, hcreate, hsize, harena, hmeta, hm⟩
  · rw [hcreate]
    exact h
  have hapart := fun b hb => h.new_apart (b := b) hg hsize hb
  have hne : ∀ b ∈ s.owned, b ≠ a := by
    rintro b hb rfl
    have hd := hapart b hb
    have hpos : b.region.size = 2097152 := hsize
    unfold Region.Disjoint at hd
    omega
  have hsame : ∀ b ∈ s.owned, b.arenaMeta m₁ = b.arenaMeta s.os.bytes := fun b hb => h.meta_new hg hsize hm hb
  rw [hcreate]
  refine ⟨?_, List.nodup_cons.mpr ⟨fun hmem => hne a hmem rfl, h.nodup⟩, fun b hb c hc hbc => ?_, fun b hb => ?_,
    fun b hb => ?_, ?_, fun hmade b hb => ?_⟩
  · show (a.region :: s.os.maps).Perm (a.region :: (s.owned.map Arena.region ++ foreign))
    exact h.maps.cons _
  · rcases List.mem_cons.mp hb with rfl | hb'
    · rcases List.mem_cons.mp hc with rfl | hc'
      · exact absurd rfl hbc
      · exact (hapart c hc').symm
    · rcases List.mem_cons.mp hc with rfl | hc'
      · exact hapart b hb'
      · exact h.apart b hb' c hc' hbc
  · show ArenaState b ⟨m₁, Function.update s.runs a [] b⟩
    rcases List.mem_cons.mp hb with rfl | hb
    · rw [Function.update_self]
      exact harena
    · rw [Function.update_of_ne (hne b hb)]
      exact (h.arena b hb).frame (hsame b hb)
  · show b.allocCount (m₁) = (Function.update s.runs a [] b).length % 2 ^ 32
    rcases List.mem_cons.mp hb with rfl | hb
    · rw [Function.update_self]
      exact congrArg ArenaMeta.allocCount hmeta
    · rw [Function.update_of_ne (hne b hb)]
      exact (congrArg ArenaMeta.allocCount (hsame b hb)).trans (h.count b hb)
  · show (s.nextId + 1) % 2 ^ 32 = (s.made + 1 + 1) % 2 ^ 32
    rw [h.next]
    omega
  · have hmade' : s.made + 1 < 2 ^ 32 := hmade
    have hnext : a.id (m₁) = s.made + 1 :=
      (congrArg ArenaMeta.id hmeta).trans (h.next.trans (Nat.mod_eq_of_lt hmade'))
    have hold : ∀ c ∈ s.owned, c.id (m₁) = c.id s.os.bytes := fun c hc =>
      congrArg ArenaMeta.id (hsame c hc)
    show (0 < b.id (m₁) ∧ b.id (m₁) ≤ s.made + 1) ∧
      ∀ c ∈ a :: s.owned, c ≠ b → c.id (m₁) ≠ b.id (m₁)
    rcases List.mem_cons.mp hb with rfl | hb
    · rw [hnext]
      refine ⟨⟨Nat.succ_pos _, Nat.le_refl _⟩, fun c hc hcb => ?_⟩
      rcases List.mem_cons.mp hc with rfl | hc
      · exact absurd rfl hcb
      · have hle := (h.ids (by omega) c hc).1.2
        rw [hold c hc]
        omega
    · obtain ⟨hrange, hother⟩ := h.ids (by omega) b hb
      rw [hold b hb]
      refine ⟨⟨hrange.1, by omega⟩, fun c hc hcb => ?_⟩
      rcases List.mem_cons.mp hc with rfl | hc
      · rw [hnext]
        omega
      · rw [hold c hc]
        exact hother c hc hcb

/-- **Step lemma.** -/
theorem step (h : Held foreign s) (hs : Step s e s') : Held foreign s' := by
  cases hs with
  | new => exact h.create _
  | allocPage ha => exact h.allocPage ha
  | alloc ha hn => exact h.alloc ha hn
  | stats _ => exact h
  | reset ha => exact h.reset ha
  | drop ha => exact h.drop ha
  | write hx => exact h.write hx

end Held

/-- **Run lemma.** -/
theorem reachable_held (hr : (arenas foreign).Reachable s) : Held foreign s := by
  refine hr.invariant (I := Held foreign) ?_ fun s e s' _ h hs => h.step hs
  rintro s ⟨hmaps, hid, howned, hmade⟩
  refine ⟨?_, ?_, ?_, ?_, ?_, ?_, ?_⟩
  · rw [hmaps, howned]
    rfl
  · rw [howned]
    exact .nil
  · rw [howned]
    nofun
  · rw [howned]
    nofun
  · rw [howned]
    nofun
  · rw [hid, hmade]
    decide
  · rw [howned]
    nofun

/-! ## What callers rely on -/

/-- **The arenas of a process**: their mappings are theirs alone and all of them are known, the pages handed out lie
in the arena they come from, in order, and the counters of each tell what it has handed out. Identifiers are
positive and distinct until the counter has come round. -/
structure Sound (foreign : List Region) (s : State) : Prop where
  maps : s.os.maps.Perm (s.owned.map region ++ foreign)
  apart : ∀ a ∈ s.owned, ∀ b ∈ s.owned, b ≠ a → a.region.Disjoint b.region
  pages : ∀ a ∈ s.owned, ∀ r ∈ s.runs a,
    r.ptr % pageSize = 0 ∧ a.pageAddr metaPages ≤ r.ptr ∧ r.ptr + r.pages * pageSize ≤ a.base + a.totalSize
  order : ∀ a ∈ s.owned, (s.runs a).Pairwise fun newer older => older.ptr + older.pages * pageSize ≤ newer.ptr
  used : ∀ a ∈ s.owned, a.bytesUsed s.os.bytes = ((s.runs a).map fun r => r.pages * pageSize).sum
  count : ∀ a ∈ s.owned, a.allocCount s.os.bytes = (s.runs a).length % 2 ^ 32
  ids : s.made < 2 ^ 32 → ∀ a ∈ s.owned, 0 < a.id s.os.bytes ∧ ∀ b ∈ s.owned, b ≠ a → b.id s.os.bytes ≠ a.id s.os.bytes

/-- **In every state**, whatever has been made, reset and dropped. -/
theorem arenas_apart (hr : (arenas foreign).Reachable s) : Sound foreign s := by
  have h := reachable_held hr
  refine ⟨h.maps, h.apart, fun a ha r hrun => ?_, fun a ha => ?_, fun a ha => ?_, h.count, fun hmade a ha => ?_⟩
  · obtain ⟨hlo, hhi⟩ := (h.arena a ha).run_bounds hrun
    refine ⟨(h.arena a ha).aligned r hrun, hlo, ?_⟩
    rw [(h.arena a ha).ok.size]
    exact hhi
  · exact List.pairwise_map.mp (h.arena a ha).tiled.pairwise
  · have hsum := (h.arena a ha).tiled.sum
    have hge := (h.arena a ha).next_ge
    rw [List.map_map] at hsum
    have hsum' : a.base + 5 * 4096 + ((s.runs a).map fun r => r.pages * pageSize).sum =
        a.base + a.nextFreePage s.os.bytes * 4096 := hsum
    have hge' : 5 ≤ a.nextFreePage s.os.bytes := hge
    show (a.nextFreePage s.os.bytes - 5) * 4096 = _
    omega
  · exact ⟨(h.ids hmade a ha).1.1, (h.ids hmade a ha).2⟩

/-- The system grants another arena. -/
theorem exists_new {base : Nat} (hr : (arenas foreign).Reachable s) (hg : Grantable s.os.maps 2097152 base) :
    ∃ s', (arenas foreign).Reachable s' ∧ s'.owned = ⟨base, defaultArenaSize⟩ :: s.owned ∧
      s'.os.maps = ⟨base, 2097152⟩ :: s.os.maps := by
  refine ⟨_, hr.step (@Step.new s (some base)), ?_⟩
  rcases create_spec (some base) (reachable_held hr).nextId_lt s.os with
    ⟨hno, _⟩ | ⟨⟨base', size⟩, m, hans, _, hcreate, hsize, _⟩
  · exact absurd hg (hno base rfl)
  · obtain rfl : base = base' := Option.some.inj hans
    obtain rfl : size = defaultArenaSize := hsize
    rw [hcreate]
    exact ⟨rfl, rfl⟩

/-- Two arenas, side by side. -/
theorem exists_two : ∃ s, (arenas []).Reachable s ∧
    s.owned = [⟨4194304, defaultArenaSize⟩, ⟨2097152, defaultArenaSize⟩] := by
  have h₀ : (arenas []).Reachable ⟨⟨fun _ => 0, []⟩, 1, [], fun _ => [], 0⟩ := .init ⟨rfl, rfl, rfl, rfl⟩
  obtain ⟨s₁, h₁, howned₁, hmaps₁⟩ := exists_new h₀ (show Grantable [] 2097152 2097152 by decide)
  have hg₂ : Grantable s₁.os.maps 2097152 4194304 := by
    rw [hmaps₁]
    decide
  obtain ⟨s₂, h₂, howned₂, _⟩ := exists_new h₁ hg₂
  refine ⟨s₂, h₂, ?_⟩
  rw [howned₂, howned₁]

theorem arenas_apart_two : ∃ s, s.owned.length = 2 ∧ Sound [] s := by
  obtain ⟨s, hr, howned⟩ := exists_two
  exact ⟨s, congrArg List.length howned, arenas_apart hr⟩

/-! ## No call touches the data -/

/-- An arena is there until it is dropped. -/
theorem Step.mem_owned (hs : Step s e s') (ha : a ∈ s.owned) (hdrop : e ≠ .drop a) : a ∈ s'.owned := by
  cases hs with
  | @new answer =>
    unfold State.add
    split
    · exact ha
    · exact List.mem_cons_of_mem _ ha
  | @drop b _ =>
    refine (List.mem_erase_of_ne ?_).mpr ha
    rintro rfl
    exact hdrop rfl
  | _ => exact ha

/-- **Step lemma.** -/
theorem Step.keeps (h : Held foreign s) (hs : Step s e s') (ha : a ∈ s.owned)
    (hx : a.base + dataStartOffset ≤ x ∧ x < a.base + a.totalSize) (hw : ∀ v, e ≠ .write x v) :
    s'.os.bytes x = s.os.bytes x := by
  have hin : x ∈ a.region.bytes := ⟨Nat.le_trans (Nat.le_add_right _ _) hx.1, hx.2⟩
  have hdata : ∀ b ∈ s.owned, x ∉ b.metaRegion := by
    intro b hb hxb
    by_cases hba : b = a
    · rw [hba] at hxb
      exact absurd hxb.2 (Nat.not_lt_of_le hx.1)
    · have hin' := metaRegion_region (h.arena b hb).ok hxb
      have hd := h.apart a ha b hb hba
      rw [Region.mem_bytes] at hin hin'
      unfold Region.Disjoint at hd
      omega
  cases hs with
  | @new answer =>
    rcases create_spec answer h.nextId_lt s.os with ⟨_, hcreate⟩ | ⟨b, m, _, hg, hcreate, hsize, _, _, hm⟩
    · rw [hcreate]
      rfl
    · rw [hcreate]
      exact h.new_bytes hg hsize hm ha hin
  | allocPage hb => exact allocPage_eqOn _ _ (hdata _ hb)
  | alloc hb _ => exact alloc_eqOn _ _ _ (hdata _ hb)
  | stats _ => rfl
  | reset hb => exact eqOn_compl_mono (reset_eqOn _ _) arenaMetaBytes_subset (hdata _ hb)
  | @drop b _ => exact congrFun (drop_bytes b s.os) x
  | @write y v _ =>
    apply Function.update_of_ne
    rintro rfl
    exact hw v rfl

/-- **No call changes a data byte**, not even a reset of the arena itself: over any run in which the arena is not
dropped and nobody writes the byte, it stays. -/
theorem arenas_keep (hr : (arenas foreign).Reachable s) (ha : a ∈ s.owned)
    (hx : a.base + dataStartOffset ≤ x ∧ x < a.base + a.totalSize) (hrun : (arenas foreign).Run s es s')
    (hdrop : .drop a ∉ es) (hw : ∀ v, .write x v ∉ es) : a ∈ s'.owned ∧ s'.os.bytes x = s.os.bytes x := by
  induction hrun with
  | nil => exact ⟨ha, rfl⟩
  | @cons s s₁ s' e es hs _ ih =>
    obtain ⟨hdrop₁, hdrop'⟩ := not_or.mp (mt List.mem_cons.mpr hdrop)
    have ha₁ := Step.mem_owned hs ha (Ne.symm hdrop₁)
    have hx₁ := Step.keeps (reachable_held hr) hs ha hx fun v hv => hw v (List.mem_cons.mpr (.inl hv.symm))
    obtain ⟨ha', hx'⟩ := ih (hr.step hs) ha₁ hdrop' fun v hv => hw v (List.mem_cons_of_mem _ hv)
    exact ⟨ha', hx'.trans hx₁⟩

/-- One of two arenas is reset. -/
theorem arenas_keep_reset : ∃ s s' : State, (⟨2097152, defaultArenaSize⟩ : Arena) ∈ s'.owned ∧
    s'.runs ⟨2097152, defaultArenaSize⟩ = [] ∧ s'.os.bytes 2117632 = s.os.bytes 2117632 := by
  obtain ⟨s, hr, howned⟩ := exists_two
  have ha : (⟨2097152, defaultArenaSize⟩ : Arena) ∈ s.owned := by
    rw [howned]
    exact List.mem_cons_of_mem _ List.mem_cons_self
  obtain ⟨ha', hx⟩ := arenas_keep (x := 2117632) hr ha (by decide) (.cons (.reset ha) .nil)
    (fun h => nomatch List.mem_singleton.mp h) fun v h => nomatch List.mem_singleton.mp h
  have hruns : ∀ a, Function.update s.runs a [] a = [] := fun a => Function.update_self a [] s.runs
  exact ⟨s, _, ha', hruns ⟨2097152, defaultArenaSize⟩, hx⟩

end FerrumAlloc.Arenas
