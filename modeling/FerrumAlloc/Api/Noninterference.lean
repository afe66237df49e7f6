/-
# FerrumAlloc.Api.Noninterference -- client data never reaches the allocator

The allocator keeps its words in memory that clients have used: the index of the next free slot, the link
of a remote free, the header and the links of a free TLSF block. Two runs with one schedule of calls that
differ in what clients write hand out the same addresses all the same, and leave the same metadata
(`noninterference`).

The runs are compared through one view. `Trace` is a run with what its calls have returned; the writes of
the clients are steps that do not show in its schedule. `Twins.call` makes one call in both runs, and
`Twins.trace` follows a whole schedule. `SameMetadata` names, without the view, every word that a call can
read before it writes it.
-/
import FerrumAlloc.Api.Twins

namespace FerrumAlloc

open Lib

variable {h h₁ h₂ : Heap} {v : View} {tlsf : Tlsf.TlsfAllocator} {l : List Block} {b : Block} {t n : Nat}
  {s s' : State}

/-! ## Schedules -/

/-- A call as the client passes it: numbers and pointers. -/
inductive Command
  | malloc (n : Nat)
  | calloc (count size : Nat)
  | free (ptr : Nat)
  deriving DecidableEq, Repr

/-- A thread's turn: its command, and the operating system's answers. -/
structure Turn where
  thread : Nat
  command : Command
  answers : Nat → Answers

namespace Call

/-- The calls of `ferrum_malloc`, `ferrum_calloc` and `ferrum_free`, as commands. -/
def command : Call → Option Command
  | malloc n => some (.malloc n)
  | ferrumCalloc count size => some (.calloc count size)
  | free b => some (.free (ptrOf b))
  | _ => none

/-- No two live blocks have one address, so a command says which call is made. -/
theorem eq_of_command {c c' : Call} {q : Command} (hg : Good h v l) (hc : c.command = some q)
    (hc' : c'.command = some q) (harg : ∀ b, c.arg = some b → b ∈ l) (harg' : ∀ b, c'.arg = some b → b ∈ l) :
    c' = c := by
  have hptr : ∀ {o o' : Option Block}, (∀ b, o = some b → b ∈ l) → (∀ b, o' = some b → b ∈ l) →
      ptrOf o = ptrOf o' → o' = o := by
    intro o o' ho ho' heq
    cases o with
    | none =>
      cases o' with
      | none => rfl
      | some b' => exact absurd heq.symm (hg.ptr_ne (ho' b' rfl))
    | some b =>
      cases o' with
      | none => exact absurd heq (hg.ptr_ne (ho b rfl))
      | some b' =>
        by_contra hne
        exact (hg.apart_of_ne (ho b rfl) (ho' b' rfl) fun h => hne (congrArg some h.symm)).1 heq
  cases c with
  | malloc n =>
    obtain rfl := Option.some.inj hc
    cases c' with
    | malloc n' =>
      cases hc'
      rfl
    | calloc | ferrumCalloc | posixMemalign | realloc | free | usableSize => nomatch hc'
  | ferrumCalloc count size =>
    obtain rfl := Option.some.inj hc
    cases c' with
    | ferrumCalloc count' size' =>
      cases hc'
      rfl
    | malloc | calloc | posixMemalign | realloc | free | usableSize => nomatch hc'
  | free o =>
    obtain rfl := Option.some.inj hc
    cases c' with
    | free o' =>
      have heq : ptrOf o' = ptrOf o := by
        injection Option.some.inj hc'
      exact congrArg free (hptr harg harg' heq.symm)
    | malloc | calloc | ferrumCalloc | posixMemalign | realloc | usableSize => nomatch hc'
  | calloc | posixMemalign | realloc | usableSize => nomatch hc

end Call

/-- **A run with what its calls return.** The schedule lists the calls; between them clients write into
their blocks. No size wraps, as none of at most `usize::MAX - 2 * PAGE_SIZE` bytes does
(`Call.noWrap_of_modest`), and only live pointers are freed. -/
inductive Trace : State → List Turn → List Nat → State → Prop
  | nil {s : State} : Trace s [] [] s
  | call {s s' : State} {u : Turn} {c : Call} {r : Heap × Nat × Backend} {us : List Turn} {out : List Nat} :
      c.command = some u.command → c.NoWrap → (∀ b, c.arg = some b → b ∈ s.live) →
      c.run s.heap u.thread u.answers = .ok r → Trace ⟨r.1, c.after s.live r⟩ us out s' →
      Trace s (u :: us) (r.2.1 :: out) s'
  | write {s s' : State} {b : Block} {m : Mem} {us : List Turn} {out : List Nat} : b ∈ s.live →
      Set.EqOn m s.heap.os.bytes b.extentᶜ → Trace ⟨s.heap.setBytes m, s.live⟩ us out s' →
      Trace s us out s'

/-- The calls of these runs. -/
def commands : State → Event → Prop := onCalls fun _ _ c _ => c.command ≠ none ∧ c.NoWrap

/-- The turn of an event, when it is such a call. -/
def Event.turn? : Event → Option Turn
  | .call t c ans => c.command.map fun q => ⟨t, q, ans⟩
  | .write _ _ => none

theorem Event.turn?_call {c : Call} {q : Command} (hq : c.command = some q) (t : Nat) (ans : Nat → Answers) :
    (Event.call t c ans).turn? = some ⟨t, q, ans⟩ :=
  congrArg (Option.map fun q => Turn.mk t q ans) hq

/-- Traces are runs of the process. -/
theorem Trace.run {us : List Turn} {out : List Nat} (htr : Trace s us out s') :
    ∃ es, (system.restrict commands).Run s es s' ∧ es.filterMap Event.turn? = us := by
  induction htr with
  | nil => exact ⟨[], .nil, rfl⟩
  | @call s s' u c r us out hc hn harg hrun _ ih =>
    obtain ⟨es, hes, hus⟩ := ih
    refine ⟨.call u.thread c u.answers :: es, .cons ⟨.call harg hrun, ?_, hn⟩ hes, ?_⟩
    · rw [hc]
      exact Option.some_ne_none _
    · rw [List.filterMap_cons_some (Event.turn?_call hc u.thread u.answers), hus]
  | @write s s' b m us out hb hm _ ih =>
    obtain ⟨es, hes, hus⟩ := ih
    exact ⟨.write b m :: es, .cons ⟨.write hb hm, trivial⟩ hes, hus⟩

/-- And every run of such calls is one. -/
theorem exists_trace {es : List Event} (hrun : (system.restrict commands).Run s es s') :
    ∃ out, Trace s (es.filterMap Event.turn?) out s' := by
  induction hrun with
  | nil => exact ⟨[], .nil⟩
  | @cons s s' s'' e es hs _ ih =>
    obtain ⟨out, htr⟩ := ih
    obtain ⟨hstep, he⟩ := hs
    cases hstep with
    | call harg hrun =>
      rename_i t c ans r _
      obtain ⟨q, hq⟩ := Option.ne_none_iff_exists'.mp he.1
      rw [List.filterMap_cons_some (Event.turn?_call hq t ans)]
      exact ⟨_, .call hq he.2 harg hrun htr⟩
    | write hb hm => exact ⟨out, .write hb hm htr⟩

/-! ## One call -/

/-- Two agreeing runs of an allocating call, as calls. -/
theorem Agree.call {c : Call} {x₁ x₂ : Exec (Heap × Nat × Backend)} (ha : Agree c.req l x₁ x₂)
    (hgone : ∀ p, c.gone p = none) :
    ∃ r₁ r₂ v tlsf, x₁ = .ok r₁ ∧ x₂ = .ok r₂ ∧ r₂.2 = r₁.2 ∧ c.after l r₂ = c.after l r₁ ∧
      Twins r₁.1 r₂.1 v tlsf (c.after l r₁) := by
  obtain ⟨r₁, r₂, v, tlsf, hrun₁, hrun₂, heq, hcase⟩ := ha
  refine ⟨r₁, r₂, v, tlsf, hrun₁, hrun₂, heq, ?_⟩
  have hp : r₂.2.1 = r₁.2.1 := congrArg Prod.fst heq
  unfold Call.after
  rw [hgone, hgone]
  rcases hcase with ⟨h0, ht⟩ | ⟨hne, cap, ht⟩
  · rw [if_pos h0, if_pos (hp.trans h0)]
    exact ⟨rfl, ht⟩
  · have hnew₁ := ht.left.newBlock_eq
    have hright := ht.right
    rw [← heq] at hright
    have hnew₂ := hright.newBlock_eq
    rw [heq] at hnew₂
    rw [if_neg hne, if_neg fun h0 => hne (hp.symm.trans h0), hnew₁, hnew₂]
    exact ⟨rfl, ht⟩

/-- **One call, in both runs**: it returns, with one address and one list of live blocks. -/
theorem Twins.call {c : Call} {q : Command} (ht : Twins h₁ h₂ v tlsf l) (hc : c.command = some q) (hn : c.NoWrap)
    (harg : ∀ b, c.arg = some b → b ∈ l) (t : Nat) (ans : Nat → Answers) :
    ∃ r₁ r₂ v' tlsf', c.run h₁ t ans = .ok r₁ ∧ c.run h₂ t ans = .ok r₂ ∧ r₂.2 = r₁.2 ∧
      c.after l r₂ = c.after l r₁ ∧ Twins r₁.1 r₂.1 v' tlsf' (c.after l r₁) := by
  cases c with
  | malloc n => exact Agree.call (c := .malloc n) (ht.malloc t n (ans 0)) fun _ => rfl
  | ferrumCalloc count size =>
    refine Agree.call (c := .ferrumCalloc count size) ?_ fun _ => rfl
    show Agree (count * size) l (ferrumCalloc h₁ t count size (ans 0)) (ferrumCalloc h₂ t count size (ans 0))
    unfold ferrumCalloc
    rcases checkedMul_cases count size with ⟨_, hmul⟩ | ⟨_, hmul⟩
    · rw [hmul]
      exact ⟨_, _, v, tlsf, rfl, rfl, rfl, .inl ⟨rfl, ht⟩⟩
    · rw [hmul]
      exact (ht.malloc t _ (ans 0)).zero (hn _ hmul)
  | free o =>
    cases o with
    | none => exact ⟨_, _, v, tlsf, rfl, rfl, rfl, rfl, ht⟩
    | some b =>
      obtain ⟨h₁', h₂', v', tlsf', hrun, hrun', ht'⟩ := ht.free (harg b rfl) t (ans 0)
      refine ⟨(h₁', 0, .null), (h₂', 0, .null), v', tlsf', ?_, ?_, rfl, rfl, ht'⟩
      · show (do let h ← ferrumFree h₁ t b.ptr (ans 0); return (h, 0, Backend.null)) = _
        rw [hrun]
        rfl
      · show (do let h ← ferrumFree h₂ t b.ptr (ans 0); return (h, 0, Backend.null)) = _
        rw [hrun']
        rfl
  | calloc | posixMemalign | realloc | usableSize => nomatch hc

/-! ## A whole schedule -/

/-- **What a run does next** against a twin: nothing but writes, or writes and then the first call of its
schedule. -/
theorem Trace.next {us : List Turn} {out : List Nat} (htr : Trace s us out s') :
    Twins h s.heap v tlsf s.live →
      (us = [] ∧ out = [] ∧ s'.live = s.live ∧ Twins h s'.heap v tlsf s.live) ∨
      ∃ (h' : Heap) (u : Turn) (c : Call) (r : Heap × Nat × Backend) (us' : List Turn) (out' : List Nat),
        us = u :: us' ∧ out = r.2.1 :: out' ∧ Twins h h' v tlsf s.live ∧
        c.command = some u.command ∧ (∀ b, c.arg = some b → b ∈ s.live) ∧
        c.run h' u.thread u.answers = .ok r ∧ Trace ⟨r.1, c.after s.live r⟩ us' out' s' := by
  induction htr with
  | nil => exact fun ht => .inl ⟨rfl, rfl, rfl, ht⟩
  | @call s s' u c r us out hc hn harg hrun hrest _ =>
    exact fun ht => .inr ⟨s.heap, u, c, r, us, out, rfl, rfl, ht, hc, harg, hrun, hrest⟩
  | write hb hm _ ih => exact fun ht => ih (ht.write_right hb hm)

/-- **Run lemma.** Induction on the first run; the second one catches up with its writes before every
call. -/
theorem Twins.trace {s₁ s₁' : State} {us : List Turn} {out₁ : List Nat} (htr₁ : Trace s₁ us out₁ s₁') :
    ∀ {s₂ s₂' : State} {out₂ : List Nat} {v : View} {tlsf : Tlsf.TlsfAllocator},
      Twins s₁.heap s₂.heap v tlsf s₁.live → s₂.live = s₁.live → Trace s₂ us out₂ s₂' →
      out₂ = out₁ ∧ s₂'.live = s₁'.live ∧ ∃ v' tlsf', Twins s₁'.heap s₂'.heap v' tlsf' s₁'.live := by
  induction htr₁ with
  | @nil s =>
    intro s₂ s₂' out₂ v tlsf ht hlive htr₂
    rw [← hlive] at ht
    rcases htr₂.next ht with ⟨_, rfl, hlive', ht'⟩ | ⟨_, _, _, _, _, _, hus, _⟩
    · rw [hlive] at hlive' ht'
      exact ⟨rfl, hlive', v, tlsf, ht'⟩
    · nomatch hus
  | @call s s' u c r us out hc hn harg hrun _ ih =>
    intro s₂ s₂' out₂ v tlsf ht hlive htr₂
    rw [← hlive] at ht
    rcases htr₂.next ht with ⟨hus, _⟩ | ⟨h₂, u', c', r', us', out', hus, rfl, ht', hc', harg', hrun', hrest⟩
    · nomatch hus
    · obtain ⟨rfl, rfl⟩ := List.cons.inj hus
      rw [hlive] at ht' harg' hrest
      obtain rfl := Call.eq_of_command ht'.left hc hc' harg harg'
      obtain ⟨r₁, r₂, v', tlsf', hrun₁, hrun₂, heq, hafter, htwins⟩ := ht'.call hc hn harg u.thread u.answers
      obtain rfl := Except.ok.inj (hrun.symm.trans hrun₁)
      obtain rfl := Except.ok.inj (hrun'.symm.trans hrun₂)
      obtain ⟨rfl, hend⟩ := ih htwins hafter hrest
      exact ⟨congrArg (fun p => p.1 :: out') heq, hend⟩
  | write hb hm _ ih =>
    intro s₂ s₂' out₂ v tlsf ht hlive htr₂
    exact ih (ht.write_left hb hm) hlive htr₂

/-! ## The metadata -/

/-- **The metadata that calls read is the same** in `h'` as in `h`. What it leaves out is in the hands of
clients, or is memory that the allocator writes before it reads it. -/
structure SameMetadata (a : Arena) (l : List Block) (h h' : Heap) : Prop where
  /-- Statics, thread-local pointers, registry and thread caches, and the mappings of the process: all but
  the memory and the TLSF static, which `pool` compares. -/
  statics : h' = { h with os := ⟨h'.os.bytes, h.os.maps⟩, globalTlsf := h'.globalTlsf }
  /-- `ArenaMeta`. -/
  header : Set.EqOn h'.os.bytes h.os.bytes a.arenaMetaBytes
  /-- The class of every page. -/
  classes : ∀ i < pagesPerArena,
    (readMeta h'.os.bytes (a.metaPtr i)).sizeClass = (readMeta h.os.bytes (a.metaPtr i)).sizeClass
  /-- The record of a slab page, but for its place in a page list. -/
  records : ∀ i < pagesPerArena, (readMeta h.os.bytes (a.metaPtr i)).sizeClass ≠ noClass →
    (readMeta h'.os.bytes (a.metaPtr i)).core = (readMeta h.os.bytes (a.metaPtr i)).core
  /-- The links of the pages on the lists of the global slab and of the caches. -/
  pageLinks : ∀ k n p, OnChain (nextOf h.os.bytes) 0 ((h.slabs k).partialPages n) p →
    nextOf h'.os.bytes p = nextOf h.os.bytes p ∧ prevOf h'.os.bytes p = prevOf h.os.bytes p
  /-- The links of the free slots of a slab page. -/
  slotLinks : ∀ i < pagesPerArena, (readMeta h.os.bytes (a.metaPtr i)).sizeClass ≠ noClass →
    ∀ j, OnChain (slotLink a h.os.bytes i (readMeta h.os.bytes (a.metaPtr i)).sizeClass) nullSlot
      (readMeta h.os.bytes (a.metaPtr i)).freeListHead j →
      slotLink a h'.os.bytes i (readMeta h.os.bytes (a.metaPtr i)).sizeClass j =
        slotLink a h.os.bytes i (readMeta h.os.bytes (a.metaPtr i)).sizeClass j
  /-- The links of the slots on the stacks of remote frees. -/
  remoteLinks : ∀ p x, OnChain (read64 h.os.bytes) 0 (h.remote p) x →
    read64 h'.os.bytes x = read64 h.os.bytes x
  /-- The pool: headers, bitmaps and lists. -/
  pool : ∀ tlsf, h.globalTlsf = some tlsf →
    ∃ tlsf', h'.globalTlsf = some tlsf' ∧ Tlsf.SamePool tlsf h.os.bytes tlsf' h'.os.bytes
  /-- The headers of huge blocks. -/
  huge : ∀ b ∈ l, b.via = .huge →
    readMagic h'.os.bytes (b.ptr - 4096) = readMagic h.os.bytes (b.ptr - 4096) ∧
    readTotalSize h'.os.bytes (b.ptr - 4096) = readTotalSize h.os.bytes (b.ptr - 4096)

namespace Twins

section

variable (ht : Twins h₁ h₂ v tlsf l)
include ht

/-- The page lists have the same heads and links. -/
theorem lists (k : Option Nat) (n : Nat) :
    (h₂.slabs k).partialPages n = (h₁.slabs k).partialPages n ∧
      ∀ p ∈ v.g.parts (k, n), nextOf h₂.os.bytes p = nextOf h₁.os.bytes p ∧
        prevOf h₂.os.bytes p = prevOf h₁.os.bytes p :=
  (ht.arena_left.slabs.inv.lists.list (k, n)).same (ht.arena_right.slabs.inv.lists.list (k, n))

theorem slabs_eq (k : Option Nat) : h₂.slabs k = h₁.slabs k :=
  congrArg SlabAllocator.mk (funext fun n => (ht.lists k n).1)

/-- The caches are the same: identifiers, slabs and stacks. -/
theorem caches_eq : h₂.caches = h₁.caches := by
  funext p
  have hid := ht.threads.id p
  have hslab : (h₂.caches p).slab = (h₁.caches p).slab := ht.slabs_eq (some p)
  have hremote : (h₂.caches p).remoteFrees = (h₁.caches p).remoteFrees := ht.remote_eq p
  show ThreadCache.mk (h₂.caches p).id (h₂.caches p).slab (h₂.caches p).remoteFrees = h₁.caches p
  rw [hid, hslab, hremote]

/-- And so is the global slab. -/
theorem globalSlab_eq : h₂.globalSlab = h₁.globalSlab := by
  obtain ⟨x, hx⟩ := Option.isSome_iff_exists.mp ht.arena_left.slab
  obtain ⟨y, hy⟩ := Option.isSome_iff_exists.mp ht.arena_right.slab
  have heq : h₂.globalSlab.getD .new = h₁.globalSlab.getD .new := ht.slabs_eq none
  rw [hx, hy] at heq ⊢
  exact congrArg some heq

theorem statics : h₂ = { h₁ with os := ⟨h₂.os.bytes, h₁.os.maps⟩, globalTlsf := h₂.globalTlsf } := by
  have hinit := ht.threads.init
  have hlock := ht.right.lock.trans ht.left.lock.symm
  have harena := ht.arena_right.arena.trans ht.arena_left.arena.symm
  have hready := ht.arena_right.ready.trans ht.arena_left.ready.symm
  have hid := ht.arenaId
  have hslab := ht.globalSlab_eq
  have hcaches := ht.caches_eq
  have hs := ht.threads
  have hos : h₂.os = ⟨h₂.os.bytes, h₁.os.maps⟩ := congrArg (Os.mk h₂.os.bytes) hs.maps
  rw [← hos, ← hinit, ← hlock, ← harena, ← hready, ← hid, ← hslab, ← hcaches, ← hs.tls, ← hs.registry, ← hs.next]

/-- A page that is no slab page by its record is none by the view. -/
theorem exists_class {i : Nat} (hi : i < pagesPerArena)
    (hne : (readMeta h₁.os.bytes (v.arena.metaPtr i)).sizeClass ≠ noClass) : ∃ c, v.g.cls i = some c := by
  cases hc : v.g.cls i with
  | none => exact absurd (ht.arena_left.class_none hi hc) hne
  | some c => exact ⟨c, rfl⟩

/-- **Twins have the same metadata.** -/
theorem sameMetadata : SameMetadata v.arena l h₁ h₂ := by
  have ha₁ := ht.arena_left
  have ha₂ := ht.arena_right
  refine ⟨ht.statics, ht.header, fun i hi => ?_, fun i hi hne => ?_, fun k n p hp => ?_, fun i hi hne j hj => ?_,
    fun p x hx => ?_, fun t htlsf => ?_, fun b hb hvia => ?_⟩
  · cases hc : v.g.cls i with
    | none => exact (ha₂.class_none hi hc).trans (ha₁.class_none hi hc).symm
    | some c => exact (ha₂.slabs.inv.slabPage hc).sizeClass.trans (ha₁.slabs.inv.slabPage hc).sizeClass.symm
  · obtain ⟨c, hc⟩ := ht.exists_class hi hne
    exact (ha₁.slabs.inv.slabPage hc).core_eq (ha₂.slabs.inv.slabPage hc)
  · have hmem := (ha₁.slabs.inv.lists.list (k, n)).chain.onChain_iff.mp hp
    exact (ht.lists k n).2 p hmem
  · obtain ⟨c, hc⟩ := ht.exists_class hi hne
    have hsp₁ := ha₁.slabs.inv.slabPage hc
    have hsp₂ := ha₂.slabs.inv.slabPage hc
    rw [hsp₁.sizeClass] at hj ⊢
    exact (hsp₁.chain.same hsp₂.chain).2 j (hsp₁.chain.onChain_iff.mp hj)
  · have hst₁ := (ha₁.slabs.stack p).chain
    have hst₂ := (ha₂.slabs.stack p).chain
    exact (hst₁.same hst₂).2 x (hst₁.onChain_iff.mp hx)
  · obtain rfl : v.tlsf = t := Option.some.inj (ha₁.tlsf.symm.trans htlsf)
    exact ⟨tlsf, ha₂.tlsf, ha₁.pool.inv.samePool ha₂.pool.inv ht.start_eq ht.stop_eq⟩
  · have hm₁ := ((ht.left.placed b hb).mapBlock hvia).1
    have hm₂ := ((ht.right.placed b hb).mapBlock hvia).1
    exact ⟨hm₂.magic.trans hm₁.magic.symm, hm₂.size.trans hm₁.size.symm⟩

end

end Twins

/-! ## Non-interference -/

/-- **Client data never influences the allocator.** Two runs with one schedule, from a state in which the
arena is there, return the same addresses, keep the same live blocks and leave the same metadata, whatever
clients have written into their blocks. And the next call, whichever it is, returns in both, with the same
address from the same backend. -/
theorem noninterference {s s₁ s₂ : State} {us : List Turn} {out₁ out₂ : List Nat}
    (hr : (system.restrict noWrap).Reachable s) (hinit : s.heap.arenaInit = true) (htr₁ : Trace s us out₁ s₁)
    (htr₂ : Trace s us out₂ s₂) :
    out₂ = out₁ ∧ s₂.live = s₁.live ∧
      (∃ a, s₁.heap.globalArena = some a ∧ SameMetadata a s₁.live s₁.heap s₂.heap) ∧
      ∀ (c : Call) (q : Command) (t : Nat) (ans : Nat → Answers), c.command = some q → c.NoWrap →
        (∀ b, c.arg = some b → b ∈ s₁.live) →
        ∃ r₁ r₂, c.run s₁.heap t ans = .ok r₁ ∧ c.run s₂.heap t ans = .ok r₂ ∧ r₂.2 = r₁.2 := by
  obtain ⟨v, hg⟩ := reachable_good hr
  obtain ⟨hout, hlive, v', tlsf', ht⟩ := Twins.trace htr₁ (Twins.refl hg hinit) rfl htr₂
  refine ⟨hout, hlive, ⟨v'.arena, ht.arena_left.arena, ht.sameMetadata⟩, fun c q t ans hc hn harg => ?_⟩
  obtain ⟨r₁, r₂, _, _, hrun₁, hrun₂, heq, _⟩ := ht.call hc hn harg t ans
  exact ⟨r₁, r₂, hrun₁, hrun₂, heq⟩

/-- A slot of 100 bytes is freed and asked for again, as it is and with all its bytes set. -/
theorem noninterference_first : ∃ (s s₁ s₂ : State) (b : Block) (us : List Turn) (out₁ out₂ : List Nat),
    s.live = [b] ∧ us.map Turn.command = [.free b.ptr, .malloc 100] ∧ Trace s us out₁ s₁ ∧
    Trace ⟨s.heap.setBytes (fill s.heap.os.bytes b.ptr 100 255), s.live⟩ us out₂ s₂ ∧
    out₂ = out₁ ∧ s₂.live = s₁.live := by
  obtain ⟨a, tlsf, m, m', slab, m'', _, _, hr, hg⟩ := exists_first (C := noWrap) (n := 100) (c := 8)
    (p := 4096) (A := 2097152)
    (fun s t n ans hn _ => Call.noWrap_of_modest (c := .malloc n) (Nat.le_trans hn (by decide)))
    (fun _ => 0) 1 (by decide) (by decide) (by decide) (by decide)
  obtain ⟨b, hb⟩ : ∃ b : Block, b = ⟨a.slotAddr firstPage 8 0, 100, .slab 8, slotSize 8⟩ := ⟨_, rfl⟩
  obtain ⟨h, hh⟩ : ∃ h, h = (((Heap.boot fun _ => 0).setup a tlsf m).create 1 4096 m').setSlab (some 4096) slab m'' :=
    ⟨_, rfl⟩
  have hinit : h.arenaInit = true := by
    rw [hh]
    rfl
  rw [← hh, ← hb] at hr hg
  have hwrite : Set.EqOn (fill h.os.bytes b.ptr 100 255) h.os.bytes b.extentᶜ := by
    have hreq : b.req = 100 := by rw [hb]
    have hle : b.req ≤ 2 ^ 64 - 8192 := by
      rw [hreq]
      decide
    exact hreq ▸ hg.fill_eqOn List.mem_cons_self hle 255
  have ht := (Twins.refl hg hinit).write_right (.head _) hwrite
  -- the two calls, with both memories
  have hfree : ∀ b', (Call.free (some b)).arg = some b' → b' ∈ [b] := fun b' heq =>
    Option.some.inj heq ▸ .head _
  obtain ⟨r₁, r₂, _, _, hrun₁, hrun₂, _, hlive, ht'⟩ :=
    ht.call (c := .free (some b)) rfl nofun hfree 1 fun _ => ⟨none, none, none⟩
  have hmalloc : (Call.malloc 100).NoWrap := Call.noWrap_of_modest (by decide)
  obtain ⟨r₁', r₂', _, _, hrun₁', hrun₂', _, _, _⟩ :=
    ht'.call (c := .malloc 100) rfl hmalloc nofun 1 fun _ => ⟨none, none, none⟩
  have hsize : (Call.free (some b)).NoWrap := nofun
  have htr₁ := Trace.call (s := ⟨h, [b]⟩) (u := ⟨1, .free b.ptr, fun _ => ⟨none, none, none⟩⟩) rfl hsize hfree hrun₁
    (.call (u := ⟨1, .malloc 100, fun _ => ⟨none, none, none⟩⟩) rfl hmalloc nofun hrun₁' .nil)
  have htr₂ := Trace.call (s := ⟨h.setBytes _, [b]⟩) (u := ⟨1, .free b.ptr, fun _ => ⟨none, none, none⟩⟩) rfl hsize
    hfree hrun₂ (.call (u := ⟨1, .malloc 100, fun _ => ⟨none, none, none⟩⟩) rfl hmalloc nofun hrun₂' .nil)
  obtain ⟨hout, hlive', _⟩ := noninterference hr hinit htr₁ (.write (.head _) hwrite htr₂)
  exact ⟨⟨h, [b]⟩, _, _, b, _, _, _, rfl, rfl, htr₁, htr₂, hout, hlive'⟩

end FerrumAlloc
