/-
# FerrumAlloc.Api.Threads -- who works on which page

Threads call `ferrum_malloc` and `ferrum_free` in any order. A small request, and every free, looks for the
cache of its thread; a thread without one takes an identifier, and keeps it only if the operating system
grants a page for the cache. The identifiers come from a 16-bit counter that counts failures too and wraps.

As long as it never wraps onto an identifier in use, the registry is faithful (`reachable_faithful`). In the
code as it is it can wrap (`not_faithful_wrap`).

Which cache has initialised a page is history, so a run carries it along (`History`).
-/
import FerrumAlloc.Api.Owners
import FerrumAlloc.Api.First

namespace FerrumAlloc

open Lib

variable {h : Heap} {v : View} {l : List Block} {b : Block} {t p i j k : Nat} {D : Prop}
  {E : View → Nat → Prop} {c c' : Conf} {s s' : State} {m : Mem}

/-! ## Identifiers -/

/-- **Every cache is the one registered for its identifier.** -/
def Registered (h : Heap) (v : View) : Prop := ∀ p ∈ v.made, h.registry (h.caches p).id = p

theorem Registered.of_ids {h' : Heap} (hr : Registered h v) (hid : ∀ p, (h'.caches p).id = (h.caches p).id)
    (hreg : h'.registry = h.registry) : Registered h' v := by
  intro p hp
  rw [hid, hreg]
  exact hr p hp

/-- A cache that is made under an identifier not in use. -/
theorem Registered.create (hr : Registered h v) (hc : Creates h t p m) (hg : Good h v l)
    (hfree : h.registry h.nextThreadId = 0) : Registered (h.create t p m) { v with made := p :: v.made } := by
  have hnew : p ∉ v.made := hc.not_made hg.threads hg.maps
  intro q hq
  rcases List.mem_cons.mp hq with rfl | hq
  · have hcache : (h.create t q m).caches q = .new h.nextThreadId := Function.update_self ..
    rw [hcache]
    exact Function.update_self ..
  · have hne : q ≠ p := fun heq => hnew (heq ▸ hq)
    have hcache : (h.create t p m).caches q = h.caches q := Function.update_of_ne hne ..
    have hid : (h.caches q).id ≠ h.nextThreadId := by
      intro heq
      exact (hg.threads.id q hq).2.2 (heq ▸ hfree)
    rw [hcache]
    exact (Function.update_of_ne hid ..).trans (hr q hq)

/-- **Step lemma.** -/
theorem Act.registered (ha : Act t False E c c') (hg : Good c.heap c.view c.live)
    (hr : Registered c.heap c.view) : Registered c'.heap c'.view := by
  cases ha with
  | setup hs => exact nofun
  | create hc hdup => exact hr.create hc hg (Classical.not_not.mp hdup)
  | pop hp htls htop => exact hr.of_ids (setCache_id _ _ rfl) rfl
  | serve hs htls hn => exact hr.of_ids (setSlab_id _ (some _) _ _) rfl
  | put hp hb hvia hptr hk hlone =>
    rename_i h v l k c i j s m b
    exact hr.of_ids (setSlab_id h k s m) (setSlab_threads h k s m).2
  | push hinit hu hb hvia hptr => exact hr.of_ids (setCache_id (Heap.setBytes _ _) _ rfl) rfl
  | attempt | carve | release | issue | map | unmap | leak => exact hr

/-- **Entries of the registry stay**, as long as no identifier is taken twice. -/
theorem Path.registry_eq (hp : Path t False E c c') (hg : Good c.heap c.view c.live)
    (hk : c.heap.registry k ≠ 0) : c'.heap.registry k = c.heap.registry k := by
  apply hp.invariant (I := fun c' => c'.heap.registry k = c.heap.registry k) ?_ ?_ hg rfl
  · intro c₁ c₂ hg₁ hI ha
    cases ha with
    | create hc hdup =>
      rename_i h v l p m
      have hne : k ≠ h.nextThreadId := by
        rintro rfl
        exact hdup fun h0 => hk (hI.symm.trans h0)
      exact (Function.update_of_ne hne ..).trans hI
    | put hp hb hvia hptr hk hlone =>
      exact (congrFun (setSlab_threads _ _ _ _).2 _).trans hI
    | _ => exact hI
  · intro c₁ c₂ b _ hI hs
    cases hs
    exact hI

/-! ## The makers of pages -/

/-- **What a call adds to the history.** Slab pages stay slab pages of the same maker; a new one is made by
the cache of the calling thread. -/
structure Records (v : View) (t : Nat) (c' : Conf) : Prop where
  old : ∀ i c, v.g.cls i = some c → c'.view.g.cls i = some c ∧ c'.view.maker i = v.maker i
  new : ∀ i c, c'.view.g.cls i = some c → v.g.cls i = none →
    c'.view.maker i = c'.heap.tls t ∧ c'.heap.tls t ≠ 0

theorem Records.refl (c : Conf) (t : Nat) : Records c.view t c :=
  ⟨fun _ _ hc => ⟨hc, rfl⟩, fun _ _ hc hnone => absurd (hc.symm.trans hnone) (Option.some_ne_none _)⟩

theorem Records.serve {s : SlabAllocator} {g : Ghost (Option Nat)} {q i j n : Nat} {v₀ : View}
    (hr : Records v₀ t ⟨h, v, l⟩) (hs : Serves h v p q i j s m g) (ha : ArenaSide h v) (htls : h.tls t = p)
    (hp : p ≠ 0) (l' : List Block) :
    Records v₀ t ⟨h.setSlab (some p) s m, v.serve g p i n, l'⟩ := by
  have hmaker : ∀ i', (v.serve g p i n).maker i' =
      if v.g.cls i = none then Function.update v.maker i p i' else v.maker i' := by
    intro i'
    unfold View.serve
    split <;> rfl
  have hsame : ∀ {i' c}, v.g.cls i' = some c →
      (v.serve g p i n).g.cls i' = some c ∧ (v.serve g p i n).maker i' = v.maker i' := by
    intro i' c hc
    refine ⟨(hs.served.cls_of_lt (ha.slabs.inv.range i' c hc).2).trans hc, ?_⟩
    rw [hmaker]
    split
    · rename_i hnone
      refine Function.update_of_ne ?_ ..
      rintro rfl
      exact Option.some_ne_none _ (hc.symm.trans hnone)
    · rfl
  refine ⟨fun i' c hc => ?_, fun i' c hc hnone => ?_⟩
  · obtain ⟨hc', hm⟩ := hr.old i' c hc
    exact ⟨(hsame hc').1, (hsame hc').2.trans hm⟩
  · rcases hs.served.cls_some hc with ⟨hc', _⟩ | ⟨hnext, rfl, _, _⟩
    · exact ⟨(hsame hc').2.trans (hr.new i' c hc' hnone).1, (hr.new i' c hc' hnone).2⟩
    · have hfresh : v.g.cls i' = none := by
        rw [hnext]
        exact ha.slabs.inv.cls_next (Nat.le_refl _)
      refine ⟨?_, by rw [← htls] at hp; exact hp⟩
      rw [hmaker, if_pos hfresh, Function.update_self]
      exact htls.symm

/-- **Run lemma.** -/
theorem Path.records (hp : Path t D E c c') (hg : Good c.heap c.view c.live) : Records c.view t c' := by
  apply hp.invariant (I := fun c' => Records c.view t c') ?_ ?_ hg (.refl c t)
  · intro c₁ c₂ hg₁ hI ha
    cases ha with
    | setup hs =>
      -- there are no pages before the arena is there
      have hnone := (hg₁.booting hs.init).cls
      refine ⟨fun i k hk => ?_, nofun⟩
      exact absurd ((hI.old i k hk).1.symm.trans (hnone i)) (Option.some_ne_none _)
    | create hc hdup =>
      refine ⟨hI.old, fun i k hk hnone => ?_⟩
      exact absurd hc.none (hI.new i k hk hnone).2
    | serve hs htls hn =>
      exact hI.serve hs (hg₁.arena hs.init) htls (hg₁.threads.id _ hs.cache).1 _
    | put hp hb hvia hptr hk hlone =>
      refine ⟨hI.old, fun i k hk hnone => ?_⟩
      rw [(setSlab_threads _ _ _ _).1]
      exact hI.new i k hk hnone
    | _ => exact ⟨hI.old, hI.new⟩
  · intro c₁ c₂ b _ hI hs
    cases hs
    exact ⟨hI.old, hI.new⟩

/-! ## Runs with their history -/

namespace Call

/-- `ferrum_malloc` and `ferrum_free`. -/
def Simple : Call → Prop
  | malloc _ => True
  | free _ => True
  | _ => False

/-- The call runs `get_or_create`. -/
def Looks : Call → Prop
  | malloc n => 0 < n ∧ n ≤ slabMaxSize
  | free (some _) => True
  | _ => False

/-- The thread takes an identifier that is registered already. -/
def TakesAgain (c : Call) (h : Heap) (t : Nat) (ans : Nat → Answers) : Prop :=
  c.Looks ∧ TakesId h t (ans 0).cache

/-- A slot is freed by a thread that has no cache and gets none. -/
def FreesAlone (c : Call) (h : Heap) (t : Nat) (ans : Nat → Answers) : Prop :=
  ∃ b k, c = .free (some b) ∧ b.via = .slab k ∧ Cacheless h t (ans 0).cache

/-- Such calls as acts. -/
theorem simple_leads {q : Call} (hq : q.Simple) (hg : Good h v l) (harg : ∀ b, q.arg = some b → b ∈ l)
    (t : Nat) (ans : Nat → Answers) (hdup : q.TakesAgain h t ans → D)
    (hlone : ∀ b, q = .free (some b) → Cacheless h t (ans 0).cache → v.Lone b E) :
    Returns q t ans D E h v l := by
  cases q with
  | malloc n =>
    have ha := ferrumMalloc_leads (D := D) (E := E) (t := t) hg n (ans 0) fun hpos hle htakes =>
      hdup ⟨⟨hpos, hle⟩, htakes⟩
    exact ha.returns hg fun _ => rfl
  | free o =>
    cases o with
    | none => exact .inr ⟨(h, 0, .null), v, rfl, id, .refl _⟩
    | some b =>
      exact (ferrumFree_leads hg (harg b rfl) (ans 0) (fun htakes => hdup ⟨trivial, htakes⟩)
        (hlone b rfl)).returns
  | calloc | ferrumCalloc | posixMemalign | realloc | usableSize => exact hq.elim

end Call

/-- Page `i` is a slab page, by its record. -/
def Heap.isSlab (h : Heap) (i : Nat) : Bool :=
  match h.globalArena with
  | none => false
  | some a => decide (i < pagesPerArena ∧ (readMeta h.os.bytes (a.metaPtr i)).sizeClass ≠ noClass)

/-- Slab pages by record and by view are the same. -/
theorem Good.isSlab_iff (hg : Good h v l) (i : Nat) : h.isSlab i = true ↔ ∃ c, v.g.cls i = some c := by
  unfold Heap.isSlab
  cases hinit : h.arenaInit with
  | false =>
    have hb := hg.booting hinit
    rw [hb.arena, hb.cls i]
    refine iff_of_false nofun ?_
    rintro ⟨c, hc⟩
    nomatch hc
  | true =>
    have ha := hg.arena hinit
    rw [ha.arena, decide_eq_true_iff]
    constructor
    · rintro ⟨hi, hcls⟩
      cases hc : v.g.cls i with
      | none => exact absurd (ha.class_none hi hc) hcls
      | some c => exact ⟨c, rfl⟩
    · rintro ⟨c, hc⟩
      exact ⟨ha.slabs.inv.index_lt hc, ha.slabs.inv.sizeClass_ne hc⟩

/-- A state, and for each slab page the cache of the thread in whose call it became one. -/
structure History where
  state : State
  maker : Nat → Nat

/-- The history after a call by thread `t`. -/
def History.record (x : History) (t : Nat) (h' : Heap) (i : Nat) : Nat :=
  if x.state.heap.isSlab i = false ∧ h'.isSlab i = true then h'.tls t else x.maker i

/-- Any number of threads that call `ferrum_malloc` and `ferrum_free` in any order, and clients that write
into their blocks. -/
inductive ThreadStep : History → Event → History → Prop
  | call {x : History} {t : Nat} {c : Call} {ans : Nat → Answers} {s' : State} : c.Simple →
      Step x.state (.call t c ans) s' → ThreadStep x (.call t c ans) ⟨s', x.record t s'.heap⟩
  | write {x : History} {b : Block} {m : Mem} {s' : State} :
      Step x.state (.write b m) s' → ThreadStep x (.write b m) ⟨s', x.maker⟩

def threadSystem : System History Event where
  init x := ∃ bytes, x = ⟨⟨Heap.boot bytes, []⟩, fun _ => 0⟩
  step := ThreadStep

/-- No call takes an identifier again. -/
def freshIds (x : History) : Event → Prop :=
  onCalls (fun s t c ans => ¬ c.TakesAgain s.heap t ans) x.state

/-! ## Identity -/

/-- What is known along such runs. -/
structure Tracked (x : History) (v : View) : Prop where
  good : Good x.state.heap v x.state.live
  owned : Owned x.state.heap v
  registered : Registered x.state.heap v
  maker : ∀ i c, v.g.cls i = some c → x.maker i = v.maker i

/-- A path of acts, recorded. -/
theorem Tracked.path {x : History} {s' : State} {v' : View} (hx : Tracked x v)
    (hp : Path t False E ⟨x.state.heap, v, x.state.live⟩ ⟨s'.heap, v', s'.live⟩) :
    Tracked ⟨s', x.record t s'.heap⟩ v' := by
  have hg' : Good s'.heap v' s'.live := hp.good hx.good
  have hrec := hp.records hx.good
  refine ⟨hg', ?_, ?_, fun i c hc => ?_⟩
  · exact hp.invariant (I := fun c => Owned c.heap c.view) (fun _ _ hg ho ha => ha.owned hg ho)
      (fun _ _ _ _ ho hs => hs.owned ho) hx.good hx.owned
  · refine hp.invariant (I := fun c => Registered c.heap c.view) (fun _ _ hg hr ha => ha.registered hg hr)
      (fun _ _ _ _ hr hs => ?_) hx.good hx.registered
    cases hs
    exact hr
  · show x.record t s'.heap i = v'.maker i
    unfold History.record
    cases hold : v.g.cls i with
    | some c₀ =>
      have hslab : x.state.heap.isSlab i = true := (hx.good.isSlab_iff i).mpr ⟨c₀, hold⟩
      rw [if_neg fun hno => Bool.false_ne_true (hno.1.symm.trans hslab), hx.maker i c₀ hold]
      exact (hrec.old i c₀ hold).2.symm
    | none =>
      have hnot : x.state.heap.isSlab i = false := by
        apply Bool.eq_false_iff.mpr
        intro hyes
        obtain ⟨c₀, hc₀⟩ := (hx.good.isSlab_iff i).mp hyes
        nomatch hold.symm.trans hc₀
      rw [if_pos ⟨hnot, (hg'.isSlab_iff i).mpr ⟨c, hc⟩⟩]
      exact (hrec.new i c hc hold).1.symm

/-- The calls of such a run as acts. -/
theorem Tracked.call {x : History} {s' : State} {q : Call} {ans : Nat → Answers} (hx : Tracked x v)
    (hq : q.Simple) (hs : Step x.state (.call t q ans) s') (hdup : q.TakesAgain x.state.heap t ans → D)
    (hlone : ∀ b, q = .free (some b) → Cacheless x.state.heap t (ans 0).cache → v.Lone b E) :
    ∃ v', Path t D E ⟨x.state.heap, v, x.state.live⟩ ⟨s'.heap, v', s'.live⟩ := by
  cases hs with
  | call harg hrun =>
    rename_i r
    obtain ⟨v', hleads⟩ := (Call.simple_leads hq hx.good harg t ans hdup hlone).of_run hrun
    exact ⟨v', hleads.path⟩

/-- **Step lemma.** -/
theorem Tracked.step {x x' : History} {e : Event} (hx : Tracked x v) (hs : ThreadStep x e x')
    (he : freshIds x e) :
    ∃ v', Tracked x' v' ∧ ∀ k, x.state.heap.registry k ≠ 0 →
      x'.state.heap.registry k = x.state.heap.registry k := by
  cases hs with
  | call hq hs =>
    obtain ⟨v', hp⟩ := hx.call (D := False) (E := Anywhere) hq hs he fun _ _ _ _ _ _ _ _ _ => trivial
    exact ⟨v', hx.path hp, fun k hk => hp.registry_eq hx.good hk⟩
  | write hs =>
    cases hs with
    | write hb hm =>
      exact ⟨v, ⟨hx.good.store hb hm, hx.owned.of_ids (fun _ => rfl) rfl, hx.registered, hx.maker⟩,
        fun _ _ => rfl⟩

theorem Tracked.boot (bytes : Mem) : Tracked ⟨⟨Heap.boot bytes, []⟩, fun _ => 0⟩ .start where
  good := .boot bytes
  owned := ⟨nofun, fun _ _ _ _ hu => (by nomatch hu.1), nofun, nofun⟩
  registered := nofun
  maker := nofun

/-- **Run lemma.** -/
theorem reachable_tracked {x : History} (hr : (threadSystem.restrict freshIds).Reachable x) :
    ∃ v, Tracked x v := by
  refine hr.invariant (I := fun x => ∃ v, Tracked x v) ?_ ?_
  · rintro x ⟨bytes, rfl⟩
    exact ⟨.start, .boot bytes⟩
  · rintro x e x' _ ⟨v, hx⟩ ⟨hs, he⟩
    obtain ⟨v', hx', _⟩ := hx.step hs he
    exact ⟨v', hx'⟩

/-- **The registry is faithful.** -/
structure Faithful (x : History) : Prop where
  /-- No two caches have one identifier. -/
  unique : ∀ t t', x.state.heap.tls t ≠ 0 → x.state.heap.tls t' ≠ 0 →
    (x.state.heap.caches (x.state.heap.tls t)).id = (x.state.heap.caches (x.state.heap.tls t')).id → t = t'
  /-- An entry is the cache of a thread, with the identifier of the entry. -/
  entry : ∀ k, x.state.heap.registry k ≠ 0 →
    (∃ t, x.state.heap.tls t = x.state.heap.registry k) ∧
      (x.state.heap.caches (x.state.heap.registry k)).id = k
  /-- The owner of a page is registered, and is the cache that has initialised it: a push for the page
  reaches it. -/
  page : ∀ a i, x.state.heap.globalArena = some a → x.state.heap.isSlab i = true →
    (readMeta x.state.heap.os.bytes (a.metaPtr i)).ownerId < maxThreads ∧
    x.state.heap.registry (readMeta x.state.heap.os.bytes (a.metaPtr i)).ownerId ≠ 0 ∧
    x.state.heap.registry (readMeta x.state.heap.os.bytes (a.metaPtr i)).ownerId = x.maker i

theorem Tracked.faithful {x : History} (hx : Tracked x v) : Faithful x := by
  have hg := hx.good
  refine ⟨fun t t' ht ht' hid => ?_, fun k hk => ?_, fun a i harena hslab => ?_⟩
  · have h1 := hx.registered _ (hg.threads.tls t ht)
    have h2 := hx.registered _ (hg.threads.tls t' ht')
    exact hg.threads.owner t t' ht (h1.symm.trans ((congrArg _ hid).trans h2))
  · obtain ⟨hmade, hid⟩ := hg.threads.registry k hk
    exact ⟨hx.owned.user _ hmade, hid⟩
  · obtain ⟨c, hc⟩ := (hg.isSlab_iff i).mp hslab
    have hinit : x.state.heap.arenaInit = true := by
      cases hinit : x.state.heap.arenaInit with
      | true => rfl
      | false => exact absurd ((hg.booting hinit).arena.symm.trans harena) (Option.some_ne_none a).symm
    have ha := hg.arena hinit
    obtain rfl : v.arena = a := Option.some.inj (ha.arena.symm.trans harena)
    rw [(ha.slabs.inv.slabPage hc).ownerId, hx.maker i c hc]
    obtain ⟨hmade, howner⟩ := hx.owned.maker i c hc
    obtain ⟨hlt, hreg⟩ := hg.threads.pages i c hc
    refine ⟨hlt, hreg, ?_⟩
    rw [howner]
    exact hx.registered _ hmade

/-- **Identity**: as long as no identifier is taken again, the registry is faithful, and its entries stay
for the rest of the run. -/
theorem reachable_faithful {x : History} (hr : (threadSystem.restrict freshIds).Reachable x) :
    Faithful x ∧ ∀ es x', (threadSystem.restrict freshIds).Run x es x' → ∀ k,
      x.state.heap.registry k ≠ 0 → x'.state.heap.registry k = x.state.heap.registry k := by
  obtain ⟨v, hx⟩ := reachable_tracked hr
  refine ⟨hx.faithful, fun es x' hrun k hk => ?_⟩
  clear hr
  induction hrun generalizing v with
  | nil => rfl
  | cons hs _ ih =>
    obtain ⟨v', hx', hkeep⟩ := hx.step hs.1 hs.2
    exact (ih v' hx' (by rw [hkeep k hk]; exact hk)).trans (hkeep k hk)

/-! ## The counter wraps -/

/-- Threads, registry and mappings are as before. -/
structure SameThreads (h h' : Heap) : Prop where
  init : h'.arenaInit = h.arenaInit
  tls : h'.tls = h.tls
  registry : h'.registry = h.registry
  next : h'.nextThreadId = h.nextThreadId
  id : ∀ p, (h'.caches p).id = (h.caches p).id
  maps : h'.os.maps = h.os.maps

namespace SameThreads

theorem refl (h : Heap) : SameThreads h h := ⟨rfl, rfl, rfl, rfl, fun _ => rfl, rfl⟩

theorem trans {h₁ h₂ h₃ : Heap} (h12 : SameThreads h₁ h₂) (h23 : SameThreads h₂ h₃) : SameThreads h₁ h₃ :=
  ⟨h23.init.trans h12.init, h23.tls.trans h12.tls, h23.registry.trans h12.registry, h23.next.trans h12.next,
    fun p => (h23.id p).trans (h12.id p), h23.maps.trans h12.maps⟩

end SameThreads

/-- A small request, behind the cache of its thread, changes slabs, pool and pages only. -/
theorem ferrumMalloc_threads {n : Nat} {ans : Answers} {h₁ : Heap} {o : Option Nat} (hinit : h.arenaInit = true)
    (hn : 0 < n) (hle : n ≤ slabMaxSize) (hready : readyCache h t ans.cache = .ok (h₁, o)) (hg : Good h₁ v l)
    (hinit₁ : h₁.arenaInit = true) (hsome : ∀ p, o = some p → p ≠ 0 ∧ h₁.tls t = p) :
    ∃ r, ferrumMalloc h t n ans = .ok r ∧ SameThreads h₁ r.1 := by
  have hle' : n ≤ 1024 := hle
  have hlt : n < hugeAllocThreshold := by
    show n < 262144
    omega
  have hslow : ∃ r, mallocSlow h₁ n = .ok r ∧ SameThreads h₁ r.1 := by
    rcases mallocSlow_spec hg hinit₁ hn hlt with ⟨hrun, _⟩ | ⟨m, _, _, hrun⟩ | ⟨tlsf, m, bs, L, p, _, _, hrun⟩
    · exact ⟨_, hrun, .refl _⟩
    · exact ⟨_, hrun, rfl, rfl, rfl, rfl, fun _ => rfl, rfl⟩
    · exact ⟨_, hrun, rfl, rfl, rfl, rfl, fun _ => rfl, rfl⟩
  rw [ferrumMalloc_eq hinit hn, if_neg (Nat.not_le_of_lt hlt), if_pos hle, hready]
  cases o with
  | none => exact hslow
  | some p =>
    obtain ⟨hp, htls⟩ := hsome p rfl
    rcases cacheAlloc_spec hg hinit₁ htls hp (sizeToClass_spec (sizeToClass_of_le hle)).1 with
      ⟨halloc, _⟩ | ⟨s, m, g, i, j, hs, halloc⟩
    · simp only [Exec.bind_ok, halloc, Exec.pure_eq, ne_eq, not_true_eq_false, if_false]
      exact hslow
    · simp only [Exec.bind_ok, halloc, Exec.pure_eq, ne_eq, (hg.arena hinit₁).slotAddr_ne _ _ _,
        not_false_eq_true, if_true]
      exact ⟨_, rfl, rfl, rfl, rfl, rfl, setSlab_id h₁ (some p) s m, rfl⟩

/-- A call that returns is a step. -/
theorem Good.malloc_step (hg : Good s.heap v s.live) (ans : Nat → Answers) {n : Nat}
    {r : Heap × Nat × Backend} (hrun : ferrumMalloc s.heap t n (ans 0) = .ok r) :
    ∃ s' v', s'.heap = r.1 ∧ Step s (.call t (.malloc n) ans) s' ∧ Good s'.heap v' s'.live := by
  have hcall : (Call.malloc n).run s.heap t ans = .ok r := hrun
  have harg : ∀ b, (Call.malloc n).arg = some b → b ∈ s.live := by
    intro b hb
    nomatch hb
  obtain ⟨v', hleads⟩ := (Call.leads hg (.malloc n) harg trivial t ans).of_run hcall
  exact ⟨⟨r.1, _⟩, v', rfl, .call harg hcall, hleads.good hg⟩

/-- **A request by a thread that gets no cache** uses up an identifier. -/
theorem Good.attempt_step (hg : Good s.heap v s.live) (hinit : s.heap.arenaInit = true)
    (htls : s.heap.tls t = 0) :
    ∃ s' v', Step s (.call t (.malloc 1) fun _ => ⟨none, none, none⟩) s' ∧ Good s'.heap v' s'.live ∧
      SameThreads s.heap.attempt s'.heap := by
  have hless : Cacheless s.heap t none := by
    refine ⟨htls, ?_⟩
    rintro ⟨_, p, hp, _⟩
    nomatch hp
  rcases readyCache_spec hg hinit t none with ⟨_, hready⟩ | ⟨hne, _⟩ | ⟨p, m, hp, _⟩
  · have hg₁ : Good s.heap.attempt v s.live := (hg.attempt hinit).good
    obtain ⟨r, hrun, hsame⟩ : ∃ r, ferrumMalloc s.heap t 1 ⟨none, none, none⟩ = .ok r ∧
        SameThreads s.heap.attempt r.1 :=
      ferrumMalloc_threads hinit (by decide) (by decide) hready hg₁ hinit nofun
    obtain ⟨s', v', hs', hstep, hg'⟩ := hg.malloc_step (fun _ => ⟨none, none, none⟩) hrun
    exact ⟨s', v', hstep, hg', hs' ▸ hsame⟩
  · exact absurd htls hne
  · nomatch hp

/-- Many such requests, by induction on their number. -/
theorem Good.attempts {C : State → Event → Prop} (hC : ∀ s t ans, C s (.call t (.malloc 1) ans))
    (hg : Good s.heap v s.live) (hr : (system.restrict C).Reachable s) (hinit : s.heap.arenaInit = true)
    (htls : s.heap.tls t = 0) (hid : s.heap.nextThreadId < 2 ^ 16) (n : Nat) :
    ∃ s' v', (system.restrict C).Reachable s' ∧ Good s'.heap v' s'.live ∧
      SameThreads { s.heap with nextThreadId := (s.heap.nextThreadId + n) % 2 ^ 16 } s'.heap := by
  induction n with
  | zero =>
    exact ⟨s, v, hr, hg, rfl, rfl, rfl, (Nat.mod_eq_of_lt hid).symm, fun _ => rfl, rfl⟩
  | succ n ih =>
    obtain ⟨s₁, v₁, hr₁, hg₁, hsame⟩ := ih
    obtain ⟨s₂, v₂, hstep, hg₂, hsame₂⟩ := hg₁.attempt_step (t := t) (hsame.init.trans hinit)
      ((congrFun hsame.tls t).trans htls)
    refine ⟨s₂, v₂, hr₁.step ⟨hstep, hC _ _ _⟩, hg₂, hsame₂.init.trans hsame.init,
      hsame₂.tls.trans hsame.tls, hsame₂.registry.trans hsame.registry, ?_,
      fun p => (hsame₂.id p).trans (hsame.id p), hsame₂.maps.trans hsame.maps⟩
    have hnext : s₁.heap.nextThreadId = (s.heap.nextThreadId + n) % 2 ^ 16 := hsame.next
    have hnext₂ : s₂.heap.nextThreadId = (s₁.heap.nextThreadId + 1) % 2 ^ 16 := hsame₂.next
    show s₂.heap.nextThreadId = (s.heap.nextThreadId + (n + 1)) % 2 ^ 16
    omega

/-- Runs of such calls have a history. -/
theorem exists_history {C : State → Event → Prop} (hr : (system.restrict fun s e =>
    onCalls (fun _ _ c _ => c.Simple) s e ∧ C s e).Reachable s) :
    ∃ maker, (threadSystem.restrict fun x e => C x.state e).Reachable ⟨s, maker⟩ := by
  induction hr with
  | init h0 =>
    obtain ⟨bytes, rfl⟩ := h0
    exact ⟨_, .init ⟨bytes, rfl⟩⟩
  | @step s s' e _ hs ih =>
    obtain ⟨maker, hr⟩ := ih
    obtain ⟨hstep, hsimple, he⟩ := hs
    cases e with
    | call t c ans => exact ⟨_, hr.step ⟨.call (x := ⟨s, maker⟩) hsimple hstep, he⟩⟩
    | write b m => exact ⟨_, hr.step ⟨.write (x := ⟨s, maker⟩) hstep, he⟩⟩

/-- A first request takes a fresh identifier. -/
theorem reachable_faithful_first : ∃ x : History, (∃ t, x.state.heap.tls t ≠ 0) ∧ Faithful x := by
  obtain ⟨a, tlsf, m, m', slab, m'', _, _, hr, _⟩ := exists_first (n := 100) (c := 8)
    (C := fun s e => onCalls (fun _ _ c _ => c.Simple) s e ∧
      onCalls (fun s t c ans => ¬ c.TakesAgain s.heap t ans) s e)
    (fun s t n ans _ hreg => ⟨trivial, fun htakes => htakes.2.2.2 (hreg _)⟩) (fun _ => 0) 1 (A := 4096)
    (p := 4194304) (by decide) (by decide) (by decide) (by decide)
  obtain ⟨maker, hx⟩ := exists_history hr
  refine ⟨_, ⟨1, ?_⟩, (reachable_faithful hx).1⟩
  show Function.update (fun _ => 0) 1 4194304 1 ≠ 0
  rw [Function.update_self]
  decide

/-- **Two threads with one identifier.** Thread 1 has identifier 0; thread 2 asks 65535 times in vain, and
then gets identifier 0 too. -/
theorem not_faithful_wrap : ∃ x : History, threadSystem.Reachable x ∧ ¬ Faithful x := by
  obtain ⟨a, tlsf, m, m', slab, m'', hbase, _, hr, hg⟩ := exists_first (n := 100) (c := 8)
    (C := fun s e => onCalls (fun _ _ c _ => c.Simple) s e ∧ True)
    (fun s t n ans _ hreg => ⟨trivial, trivial⟩) (fun _ => 0) 1 (A := 8192)
    (p := 4194304) (by decide) (by decide) (by decide) (by decide)
  obtain ⟨h₁, hh₁⟩ : ∃ h, h = (((Heap.boot fun _ => 0).setup a tlsf m).create 1 4194304 m').setSlab
    (some 4194304) slab m'' := ⟨_, rfl⟩
  rw [← hh₁] at hr hg
  have htls₁ : h₁.tls = Function.update (fun _ => 0) 1 4194304 := by
    rw [hh₁]
    rfl
  have hnext₁ : h₁.nextThreadId = 1 := by
    rw [hh₁]
    rfl
  have hid₁ : (h₁.caches 4194304).id = 0 := by
    rw [hh₁, setSlab_id]
    show (Function.update (fun _ => ThreadCache.new 0) 4194304 (.new 0) 4194304).id = 0
    rw [Function.update_self]
    rfl
  have hmaps₁ : h₁.os.maps = [⟨4194304, 4096⟩, ⟨8192, 2097152⟩] := by
    rw [hh₁, ← hbase]
    rfl
  have hinit₁ : h₁.arenaInit = true := by
    rw [hh₁]
    rfl
  have hnone₁ : h₁.tls 2 = 0 := by
    rw [htls₁]
    rfl
  -- thread 2 in vain
  obtain ⟨s₂, v₂, hr₂, hg₂, hsame⟩ := Good.attempts (t := 2) (fun _ _ _ => ⟨trivial, trivial⟩) hg hr hinit₁
    hnone₁ (by rw [hnext₁]; decide) 65535
  have hinit₂ : s₂.heap.arenaInit = true := hsame.init.trans hinit₁
  have hnext₂ : s₂.heap.nextThreadId = 0 := by
    have hnext : s₂.heap.nextThreadId = (h₁.nextThreadId + 65535) % 2 ^ 16 := hsame.next
    rw [hnext, hnext₁]
    rfl
  have hnone₂ : s₂.heap.tls 2 = 0 := (congrFun hsame.tls 2).trans hnone₁
  have hmaps₂ : s₂.heap.os.maps = [⟨4194304, 4096⟩, ⟨8192, 2097152⟩] := hsame.maps.trans hmaps₁
  have hgrant : Grantable s₂.heap.os.maps 4096 8388608 := by
    rw [hmaps₂]
    decide
  -- and with success
  rcases readyCache_spec hg₂ hinit₂ 2 (some 8388608) with ⟨hless, _⟩ | ⟨hne, _⟩ | ⟨p, mem, hp, hc, hready⟩
  · exact absurd ⟨by rw [hnext₂]; decide, 8388608, rfl, hgrant⟩ hless.2
  · exact absurd hnone₂ hne
  obtain rfl := Option.some.inj hp
  have hg₃ := (hg₂.create hc).good
  have htls₃ : (s₂.heap.create 2 8388608 mem).tls 2 = 8388608 := by
    show Function.update s₂.heap.tls 2 8388608 2 = 8388608
    rw [Function.update_self]
  obtain ⟨r, hrun, hsame₃⟩ : ∃ r, ferrumMalloc s₂.heap 2 1 ⟨none, some 8388608, none⟩ = .ok r ∧
      SameThreads (s₂.heap.create 2 8388608 mem) r.1 :=
    ferrumMalloc_threads hinit₂ (by decide) (by decide) hready hg₃ hinit₂
      fun q hq => Option.some.inj hq ▸ ⟨by decide, htls₃⟩
  obtain ⟨s₃, v₃, hs₃, hstep, _⟩ := hg₂.malloc_step (fun _ => ⟨none, some 8388608, none⟩) hrun
  rw [← hs₃] at hsame₃
  obtain ⟨maker, hx⟩ := exists_history (hr₂.step ⟨hstep, trivial, trivial⟩)
  refine ⟨⟨s₃, maker⟩, hx.of_restrict, fun hf => ?_⟩
  have ht1 : s₃.heap.tls 1 = 4194304 := by
    rw [hsame₃.tls]
    show Function.update s₂.heap.tls 2 8388608 1 = 4194304
    rw [Function.update_of_ne (by decide), hsame.tls]
    show h₁.tls 1 = 4194304
    rw [htls₁, Function.update_self]
  have ht2 : s₃.heap.tls 2 = 8388608 := (congrFun hsame₃.tls 2).trans htls₃
  have hid1 : (s₃.heap.caches 4194304).id = 0 := by
    rw [hsame₃.id]
    show (Function.update s₂.heap.caches 8388608 (.new s₂.heap.nextThreadId) 4194304).id = 0
    rw [Function.update_of_ne (by decide)]
    exact (hsame.id 4194304).trans hid₁
  have hid2 : (s₃.heap.caches 8388608).id = 0 := by
    rw [hsame₃.id]
    show (Function.update s₂.heap.caches 8388608 (.new s₂.heap.nextThreadId) 8388608).id = 0
    rw [Function.update_self]
    exact hnext₂
  have heq := hf.unique 1 2 (by simp only [ht1]; decide) (by simp only [ht2]; decide)
    (by simp only [ht1, ht2]; exact hid1.trans hid2.symm)
  exact absurd heq (by decide)

end FerrumAlloc
