/-
# FerrumAlloc.Arena.Book -- arenas without memory

The plain model of an arena is its `ArenaMeta` as a record: every call is a function of that record alone.
`arenas_simulate` says that the arenas in memory are a list of such records, and `arenas_answers` that the part of
a run that concerns one arena is the replay of its own calls.
-/
import FerrumAlloc.Arena.Lifecycle

namespace FerrumAlloc.Arenas

open Lib Arena

variable {foreign : List Region} {s s' : State} {e : Event} {es : List Event} {a b : Arena} {m : Mem}

/-! ## The plain model -/

/-- The identifier counter, and the records of the arenas. -/
structure Book where
  nextId : Nat
  metas : List (Arena × ArenaMeta)

/-- A call on one arena. -/
inductive Request
  | page
  | alloc (size align : Nat)
  | stats
  | reset
  deriving DecidableEq, Repr

namespace Request

/-- Sizes are values of `usize`. -/
def Ok : Request → Prop
  | alloc n _ => n ≤ usizeMax
  | _ => True

/-- The record of the arena after the call. -/
def next (a : Arena) (h : ArenaMeta) : Request → ArenaMeta
  | page => (h.allocPage a).1
  | alloc n _ => (h.alloc a n).1
  | stats => h
  | reset => h.reset

/-- The call with its answer, as the record has it. -/
def event (a : Arena) (h : ArenaMeta) : Request → Event
  | page => .allocPage a (h.allocPage a).2
  | alloc n align => .alloc a n align (h.alloc a n).2
  | stats => .stats a h.id h.allocCount ((h.nextFreePage - metaPages) * pageSize)
      ((pagesPerArena - h.nextFreePage) * pageSize)
  | reset => .reset a

end Request

/-- The call that was made, if it was one on `a`. -/
def Event.request (a : Arena) : Event → Option Request
  | .allocPage b _ => if b = a then some .page else none
  | .alloc b n align _ => if b = a then some (.alloc n align) else none
  | .stats b _ _ _ _ => if b = a then some .stats else none
  | .reset b => if b = a then some .reset else none
  | _ => none

/-- Calls on one arena with the answers that its record gives, one after the other. -/
def replay (a : Arena) : ArenaMeta → List Request → List Event
  | _, [] => []
  | h, q :: qs => q.event a h :: replay a (q.next a h) qs

inductive BookStep : Book → Event → Book → Prop
  | refused {u : Book} {answer : Option Nat} : BookStep u (.new answer none) u
  | made {u : Book} {a : Arena} : a.totalSize = defaultArenaSize → (∀ x ∈ u.metas, x.1.region.Disjoint a.region) →
      BookStep u (.new (some a.base) (some a)) ⟨(u.nextId + 1) % 2 ^ 32, (a, .fresh u.nextId) :: u.metas⟩
  | serve {n : Nat} {l₁ l₂ : List (Arena × ArenaMeta)} {a : Arena} {h : ArenaMeta} {q : Request} : q.Ok →
      BookStep ⟨n, l₁ ++ (a, h) :: l₂⟩ (q.event a h) ⟨n, l₁ ++ (a, q.next a h) :: l₂⟩
  | drop {n : Nat} {l₁ l₂ : List (Arena × ArenaMeta)} {a : Arena} {h : ArenaMeta} :
      BookStep ⟨n, l₁ ++ (a, h) :: l₂⟩ (.drop a) ⟨n, l₁ ++ l₂⟩
  | write {u : Book} {x : Nat} {v : UInt8} : BookStep u (.write x v) u

/-- A list of records, without memory. -/
def books : System Book Event where
  init u := u = ⟨1, []⟩
  step := BookStep

/-- The arenas as records. -/
def metasOf (l : List Arena) (m : Mem) : List (Arena × ArenaMeta) := l.map fun a => (a, a.arenaMeta m)

def State.book (s : State) : Book := ⟨s.nextId, metasOf s.owned s.os.bytes⟩

theorem metasOf_congr {l : List Arena} (h : ∀ b ∈ l, b.arenaMeta m = b.arenaMeta s.os.bytes) :
    metasOf l m = metasOf l s.os.bytes := List.map_congr_left fun b hb => by rw [h b hb]

/-- What a call on one arena does: it answers by the record of the arena and changes it. -/
structure Called (s : State) (a : Arena) (q : Request) (e : Event) (s' : State) : Prop where
  mem : a ∈ s.owned
  ok : q.Ok
  event : e = q.event a (a.arenaMeta s.os.bytes)
  next : a.arenaMeta s'.os.bytes = q.next a (a.arenaMeta s.os.bytes)
  bytes : Set.EqOn s'.os.bytes s.os.bytes (a.metaRegion)ᶜ
  nextId : s'.nextId = s.nextId
  owned : s'.owned = s.owned

theorem called_page (ha : a ∈ s.owned) :
    Called s a .page (.allocPage a (a.allocPage s.os.bytes).2)
      (s.hand a (a.allocPage s.os.bytes).1 (pageOf (a.allocPage s.os.bytes).2) pageSize) := by
  have hans := congrArg Prod.snd (arenaMeta_allocPage a s.os.bytes)
  exact ⟨ha, trivial, congrArg (Event.allocPage a) hans, congrArg Prod.fst (arenaMeta_allocPage a s.os.bytes),
    allocPage_eqOn a _, rfl, rfl⟩

theorem called_alloc {n align : Nat} (ha : a ∈ s.owned) (hn : n ≤ usizeMax) :
    Called s a (.alloc n align) (.alloc a n align (a.alloc s.os.bytes n).2)
      (s.hand a (a.alloc s.os.bytes n).1 (a.alloc s.os.bytes n).2 n) := by
  have hans := congrArg Prod.snd (arenaMeta_alloc a s.os.bytes n)
  exact ⟨ha, hn, congrArg (Event.alloc a n align) hans, congrArg Prod.fst (arenaMeta_alloc a s.os.bytes n),
    alloc_eqOn a _ n, rfl, rfl⟩

theorem called_reset (ha : a ∈ s.owned) :
    Called s a .reset (.reset a) { s.setBytes (a.reset s.os.bytes) with runs := Function.update s.runs a [] } :=
  ⟨ha, trivial, rfl, arenaMeta_reset a _, eqOn_compl_mono (reset_eqOn a _) arenaMetaBytes_subset, rfl, rfl⟩

/-- **Every call on an arena** is of this kind. -/
theorem Step.called {q : Request} (hs : Step s e s') (hq : e.request a = some q) : Called s a q e s' := by
  cases hs with
  | @allocPage b hb =>
    obtain ⟨rfl, hsome⟩ := Option.ite_none_right_eq_some.mp hq
    obtain rfl := Option.some.inj hsome
    exact called_page hb
  | @alloc b n align hb hn =>
    obtain ⟨rfl, hsome⟩ := Option.ite_none_right_eq_some.mp hq
    obtain rfl := Option.some.inj hsome
    exact called_alloc hb hn
  | @stats b hb =>
    obtain ⟨rfl, hsome⟩ := Option.ite_none_right_eq_some.mp hq
    obtain rfl := Option.some.inj hsome
    exact ⟨hb, trivial, rfl, rfl, Set.eqOn_refl _ _, rfl, rfl⟩
  | @reset b hb =>
    obtain ⟨rfl, hsome⟩ := Option.ite_none_right_eq_some.mp hq
    obtain rfl := Option.some.inj hsome
    exact called_reset hb
  | new | drop | write => nomatch hq

/-- A call on one arena changes one record. -/
theorem Called.book {q : Request} (hc : Called s a q e s') (h : Held foreign s) : BookStep s.book e s'.book := by
  obtain ⟨ha, hok, hevent, hnext, hm, hid, howned⟩ := hc
  obtain ⟨m, hmem⟩ : ∃ m, m = s'.os.bytes := ⟨_, rfl⟩
  rw [← hmem] at hm hnext
  have hsame : ∀ b ∈ s.owned, b ≠ a → b.arenaMeta m = b.arenaMeta s.os.bytes := fun b hb hne =>
    h.meta_others ha hb hne hm
  obtain ⟨l₁, l₂, hsplit⟩ := List.append_of_mem ha
  have hnodup := h.nodup
  unfold State.book
  rw [hid, howned, ← hmem, hevent]
  rw [hsplit] at hnodup hsame ⊢
  obtain ⟨_, hnodup₂, hne⟩ := List.nodup_append.mp hnodup
  have h₁ : ∀ b ∈ l₁, b.arenaMeta m = b.arenaMeta s.os.bytes := fun b hb =>
    hsame b (List.mem_append_left _ hb) (hne b hb a List.mem_cons_self)
  have h₂ : ∀ b ∈ l₂, b.arenaMeta m = b.arenaMeta s.os.bytes := fun b hb =>
    hsame b (List.mem_append_right _ (List.mem_cons_of_mem _ hb)) fun hba =>
      (List.nodup_cons.mp hnodup₂).1 (hba ▸ hb)
  have hold : metasOf (l₁ ++ a :: l₂) s.os.bytes =
      metasOf l₁ s.os.bytes ++ (a, a.arenaMeta s.os.bytes) :: metasOf l₂ s.os.bytes := List.map_append
  have hnew : metasOf (l₁ ++ a :: l₂) m =
      metasOf l₁ s.os.bytes ++ (a, a.arenaMeta m) :: metasOf l₂ s.os.bytes := by
    rw [← metasOf_congr h₁, ← metasOf_congr h₂]
    exact List.map_append
  rw [hold, hnew, hnext]
  exact .serve hok

/-- **Step lemma.** -/
theorem Held.book_step (h : Held foreign s) (hs : Step s e s') : BookStep s.book e s'.book := by
  cases hs with
  | @new answer =>
    rcases create_spec answer h.nextId_lt s.os with ⟨_, hcreate⟩ | ⟨a, m, hans, hg, hcreate, hsize, _, hmeta, hm⟩
    · rw [hcreate]
      exact .refused
    · have hmetas : metasOf s.owned m = metasOf s.owned s.os.bytes :=
        metasOf_congr fun b hb => h.meta_new hg hsize hm hb
      have hbook : (s.add (some a, (s.nextId + 1) % 2 ^ 32, ⟨m, a.region :: s.os.maps⟩)).book =
          ⟨(s.nextId + 1) % 2 ^ 32, (a, .fresh s.nextId) :: metasOf s.owned s.os.bytes⟩ := by
        rw [← hmetas, ← hmeta]
        rfl
      rw [hcreate, hbook, hans]
      refine .made hsize fun x hx => ?_
      obtain ⟨b, hb, rfl⟩ := List.mem_map.mp hx
      exact h.new_apart hg hsize hb
  | allocPage ha => exact (called_page ha).book h
  | alloc ha hn => exact (called_alloc ha hn).book h
  | @stats a ha => exact (Step.called (.stats ha) (if_pos rfl)).book h
  | reset ha => exact (called_reset ha).book h
  | @drop a ha =>
    obtain ⟨l₁, l₂, _, hsplit, herase⟩ := List.exists_erase_eq ha
    unfold State.book
    dsimp only
    rw [drop_bytes, herase, hsplit]
    show BookStep ⟨s.nextId, metasOf (l₁ ++ a :: l₂) s.os.bytes⟩ _ _
    unfold metasOf
    rw [List.map_append, List.map_append]
    exact .drop
  | @write x v hx =>
    have hmetas : metasOf s.owned (Function.update s.os.bytes x v) = metasOf s.owned s.os.bytes :=
      metasOf_congr fun a ha => Held.meta_write hx ha
    have hbook : (s.setBytes (Function.update s.os.bytes x v)).book = s.book := by
      unfold State.book
      rw [← hmetas]
      rfl
    rw [hbook]
    exact .write

/-- **The arenas in memory are a list of records.** Every run of the process, with all its answers, is a run of the
plain model: what an arena answers depends on its own record, and neither on the bytes of pages and of `PageMeta`
nor on any other arena. -/
theorem arenas_simulate (hr : (arenas foreign).Reachable s) (hrun : (arenas foreign).Run s es s') :
    books.Run s.book es s'.book := by
  induction hrun with
  | nil => exact .nil
  | cons hs _ ih => exact .cons ((reachable_held hr).book_step hs) (ih (hr.step hs))

theorem arenas_simulate_reset : ∃ s s' : State, s.book.metas.length = 2 ∧
    books.Run s.book [.reset ⟨2097152, defaultArenaSize⟩] s'.book := by
  obtain ⟨s, hr, howned⟩ := exists_two
  have ha : (⟨2097152, defaultArenaSize⟩ : Arena) ∈ s.owned := by
    rw [howned]
    exact List.mem_cons_of_mem _ List.mem_cons_self
  refine ⟨s, _, ?_, arenas_simulate hr (.cons (.reset ha) .nil)⟩
  exact (List.length_map _).trans (congrArg List.length howned)

/-! ## Each arena by itself -/

/-- What is not a call on an arena leaves its record alone. -/
theorem Step.other (h : Held foreign s) (hs : Step s e s') (ha : a ∈ s.owned) (hq : e.request a = none) :
    a.arenaMeta s'.os.bytes = a.arenaMeta s.os.bytes := by
  have hcalled : ∀ {b q}, Called s b q e s' → b ≠ a → a.arenaMeta s'.os.bytes = a.arenaMeta s.os.bytes :=
    fun hc hne => h.meta_others hc.mem ha (Ne.symm hne) hc.bytes
  cases hs with
  | @new answer =>
    rcases create_spec answer h.nextId_lt s.os with ⟨_, hcreate⟩ | ⟨b, m, _, hg, hcreate, hsize, _, _, hm⟩
    · rw [hcreate]
      rfl
    · rw [hcreate]
      exact h.meta_new hg hsize hm ha
  | allocPage hb => exact hcalled (called_page hb) fun hba => nomatch (if_pos hba).symm.trans hq
  | alloc hb hn => exact hcalled (called_alloc hb hn) fun hba => nomatch (if_pos hba).symm.trans hq
  | stats _ => rfl
  | reset hb => exact hcalled (called_reset hb) fun hba => nomatch (if_pos hba).symm.trans hq
  | @drop b _ => exact congrArg a.arenaMeta (drop_bytes b s.os)
  | write hx => exact Held.meta_write hx ha

/-- **What an arena answers** is decided by its own record and the calls made on it: in every run in which it is not
dropped, they are the replay of these calls from that record, whatever happens in between. -/
theorem arenas_answers (hr : (arenas foreign).Reachable s) (ha : a ∈ s.owned) (hrun : (arenas foreign).Run s es s')
    (hdrop : .drop a ∉ es) :
    es.filter (fun e => (e.request a).isSome) = replay a (a.arenaMeta s.os.bytes) (es.filterMap (Event.request a)) := by
  induction hrun with
  | nil => rfl
  | @cons s s₁ s' e es hs _ ih =>
    obtain ⟨hdrop₁, hdrop'⟩ := not_or.mp (mt List.mem_cons.mpr hdrop)
    have h := reachable_held hr
    have hrest := ih (hr.step hs) (Step.mem_owned hs ha (Ne.symm hdrop₁)) hdrop'
    cases hq : e.request a with
    | none =>
      rw [List.filter_cons_of_neg (by rw [hq]; nofun), List.filterMap_cons_none hq, hrest, Step.other h hs ha hq]
    | some q =>
      have hc := Step.called hs hq
      rw [List.filter_cons_of_pos (by rw [hq]; rfl), List.filterMap_cons_some hq, hrest, hc.next]
      exact congrArg (· :: _) hc.event

/-- One of two arenas is reset, and hands out its first page again. -/
theorem arenas_answers_reset : ∃ (s s' : State) (a : Arena), a ∈ s.owned ∧ s.owned.length = 2 ∧
    (arenas []).Run s [.reset a, .allocPage a (some (a.metaPtr metaPages, a.pageAddr metaPages))] s' := by
  obtain ⟨s, hr, howned⟩ := exists_two
  obtain ⟨a, ha⟩ : ∃ a : Arena, a = ⟨2097152, defaultArenaSize⟩ := ⟨_, rfl⟩
  have hmem : a ∈ s.owned := by
    rw [howned, ha]
    exact List.mem_cons_of_mem _ List.mem_cons_self
  have hrun : (arenas []).Run s [.reset a, .allocPage a (a.allocPage (a.reset s.os.bytes)).2] _ :=
    .cons (.reset hmem) (.cons (.allocPage hmem) .nil)
  have hnodrop : Event.drop a ∉ [.reset a, .allocPage a (a.allocPage (a.reset s.os.bytes)).2] := by
    simp
  have hans := arenas_answers hr hmem hrun hnodrop
  have hreset : (Event.reset a).request a = some .reset := if_pos rfl
  have hpage : ∀ r, (Event.allocPage a r).request a = some .page := fun r => if_pos rfl
  simp only [List.filter, List.filterMap, hreset, hpage, Option.isSome_some, replay, List.cons.injEq, and_true] at hans
  have hfirst : Event.allocPage a (a.allocPage (a.reset s.os.bytes)).2 =
      .allocPage a (some (a.metaPtr metaPages, a.pageAddr metaPages)) := hans.2
  rw [hfirst] at hrun
  exact ⟨s, _, a, hmem, congrArg List.length howned, hrun⟩

end FerrumAlloc.Arenas
