/-
# FerrumAlloc.Api.Sizes -- requests, and what they are given

A pointer handed out for `n` bytes should point to `n` bytes of memory that the allocator has obtained for
it, at an address that suits every type. Both depend on the request alone.

`huge_alloc` adds the header page and rounds up without a check: requests of more than
`2 ^ 64 - 8192` bytes get a mapping that is too small (`reachable_sizesOk`). Slots of 8 and of 24 bytes
follow each other without padding, so every other one is at an odd multiple of 8 (`reachable_aligned`).
-/
import FerrumAlloc.Api.Backends

namespace FerrumAlloc

open Lib

section

variable {h : Heap} {v : View} {l : List Block} {b : Block} {t n p c : Nat} {s : State}
  {r : Heap × Nat × Backend}

/-! ## The block returned -/

/-- The call returns, and a block that it returns is part of a good heap. -/
theorem Call.run_good (hg : Good h v l) (hinit : h.arenaInit = true) {c : Call}
    (harg : ∀ b, c.arg = some b → b ∈ l) (hn : c.InBounds) (t : Nat) (ans : Nat → Answers) :
    ∃ r v', c.run h t ans = .ok r ∧ r.1.arenaInit = true ∧ Good r.1 v' (c.after l r) ∧
      (r.2.1 ≠ 0 → newBlock r c.req ∈ c.after l r) := by
  rcases Call.leads hg c harg hn t ans with ⟨_, hno⟩ | ⟨r, v', hrun, hkeep, hleads⟩
  · exact absurd (hinit.symm.trans hno) nofun
  · refine ⟨r, v', hrun, hkeep hinit, hleads.good hg, fun hne => ?_⟩
    unfold Call.after
    rw [if_neg hne]
    exact List.mem_cons_self

/-- **Every block lies inside one mapping.** -/
theorem Good.extent_mapped (hg : Good h v l) (hb : b ∈ l) : ∃ m ∈ h.os.maps, b.extent ⊆ m.bytes := by
  have hplaced := hg.placed b hb
  by_cases hvia : b.via = .huge
  · have hmap := hplaced.mapBlock hvia
    exact ⟨b.region, hmap.1.map, fun z hz => hmap.mem_region hz⟩
  · have ha := hg.arena (hg.init_of_via hb hvia)
    refine ⟨⟨v.arena.base, 2097152⟩, ha.map, fun z hz => ?_⟩
    have hin := hplaced.inside ha hg.maps hvia hz
    rw [Region.mem_bytes]
    simp only
    omega

/-! ## Sizes -/

namespace Call

/-- The sizes of a call are `usize` values. -/
def Usize : Call → Prop
  | malloc n => n < 2 ^ 64
  | calloc nmemb size => nmemb < 2 ^ 64 ∧ size < 2 ^ 64
  | ferrumCalloc count size => count < 2 ^ 64 ∧ size < 2 ^ 64
  | posixMemalign alignment n => alignment < 2 ^ 64 ∧ n < 2 ^ 64
  | realloc _ n => n < 2 ^ 64
  | _ => True

/-- The bytes that a call zeroes. -/
def zeroes : Call → Option Nat
  | calloc nmemb size => checkedMul nmemb size
  | ferrumCalloc count size => checkedMul count size
  | _ => none

/-- A size that reaches a backend is a `usize` value. -/
theorem Usize.size_lt {c : Call} (hu : c.Usize) (hs : c.size = some n) : n < 2 ^ 64 := by
  have hmul : ∀ a b : Nat, checkedMul a b = some n → n < 2 ^ 64 := by
    intro a b hs
    rcases checkedMul_cases a b with ⟨_, hnone⟩ | ⟨hlt, hsome⟩
    · rw [hnone] at hs
      nomatch hs
    · rw [hsome] at hs
      obtain rfl := Option.some.inj hs
      exact hlt
  cases c with
  | malloc k =>
    obtain rfl := Option.some.inj hs
    exact hu
  | calloc nmemb size => exact hmul _ _ hs
  | ferrumCalloc count size => exact hmul _ _ hs
  | posixMemalign alignment k =>
    have hk : n = k := Call.req_of_size hs
    rw [hk]
    exact hu.2
  | realloc b k =>
    obtain rfl := Option.some.inj hs
    exact hu
  | free b => nomatch hs
  | usableSize b => nomatch hs

/-- A call that zeroes does so with the block of its `ferrum_malloc`. -/
theorem zeroed {c : Call} {ans : Nat → Answers} {r₀ : Heap × Nat × Backend} (hz : c.zeroes = some n)
    (hrun₀ : ferrumMalloc h t n (ans 0) = .ok r₀) (hrun : c.run h t ans = .ok r) :
    zeroBlock r₀ n = r ∧ c.req = n := by
  have hreq : ∀ a b : Nat, checkedMul a b = some n → a * b = n := by
    intro a b hmul
    rcases checkedMul_cases a b with ⟨_, hnone⟩ | ⟨_, hsome⟩
    · rw [hnone] at hmul
      nomatch hmul
    · exact Option.some.inj (hsome.symm.trans hmul)
  cases c with
  | calloc nmemb size =>
    have hmul : checkedMul nmemb size = some n := hz
    refine ⟨?_, hreq _ _ hmul⟩
    have hrun' : FerrumAlloc.calloc h t nmemb size (ans 0) = .ok r := hrun
    unfold FerrumAlloc.calloc at hrun'
    simp only [hmul, Option.getD_some] at hrun'
    by_cases h0 : n = 0
    · -- `calloc` does not even call `ferrum_malloc` for 0 bytes
      subst h0
      rw [ferrumMalloc_zero] at hrun₀
      obtain rfl := Except.ok.inj hrun₀
      exact Except.ok.inj hrun'
    · rw [if_neg h0, hrun₀] at hrun'
      exact Except.ok.inj hrun'
  | ferrumCalloc count size =>
    have hmul : checkedMul count size = some n := hz
    refine ⟨?_, hreq _ _ hmul⟩
    have hrun' : FerrumAlloc.ferrumCalloc h t count size (ans 0) = .ok r := hrun
    unfold FerrumAlloc.ferrumCalloc at hrun'
    simp only [hmul, hrun₀] at hrun'
    exact Except.ok.inj hrun'
  | malloc | posixMemalign | realloc | free | usableSize => nomatch hz

end Call

/-- Zeroing inside a set. -/
theorem zeroBlock_eqOn {r₀ : Heap × Nat × Backend} {S : Set Nat} (hzero : zeroBlock r₀ n = r)
    (hin : r.2.1 ≠ 0 → Set.Ico r.2.1 (r.2.1 + n) ⊆ S) : Set.EqOn r.1.os.bytes r₀.1.os.bytes Sᶜ := by
  unfold zeroBlock at hzero
  by_cases hp : r₀.2.1 ≠ 0
  · rw [if_pos hp] at hzero
    subst hzero
    exact eqOn_compl_mono (fill_eqOn _ _ _ _) (hin hp)
  · rw [if_neg hp] at hzero
    rw [hzero]
    exact Set.eqOn_refl _ _

/-- **No size of the call wraps**, whatever thread makes it and whatever the operating system answers. -/
structure SizesOk (s : State) (c : Call) : Prop where
  /-- The total size of a huge block holds the request and the header page. -/
  total : ∀ n, c.size = some n → n + pageSize ≤ hugeTotal n
  /-- The bytes requested lie inside memory obtained for the block. -/
  block : ∀ t ans, ∃ r, c.run s.heap t ans = .ok r ∧ (r.2.1 ≠ 0 →
    Set.Ico r.2.1 (r.2.1 + c.req) ⊆ (newBlock r c.req).extent ∧
      ∃ m ∈ r.1.os.maps, (newBlock r c.req).extent ⊆ m.bytes)
  /-- Zeroing stays inside the block. -/
  zero : ∀ t ans n r₀ r, c.zeroes = some n → ferrumMalloc s.heap t n (ans 0) = .ok r₀ →
    c.run s.heap t ans = .ok r → Set.EqOn r.1.os.bytes r₀.1.os.bytes (newBlock r c.req).extentᶜ

/-- The size that reaches a backend is the request, and the request of a call that hands out a block
reaches one. -/
theorem Call.NoWrap.req_le {c : Call} (hn : c.NoWrap) {ans : Nat → Answers}
    (hrun : c.run h t ans = .ok r) (hp : r.2.1 ≠ 0) : c.req ≤ 2 ^ 64 - 8192 :=
  hn _ (Call.size_of_run hrun hp)

/-- **No size wraps** exactly when no size that reaches a backend exceeds `2 ^ 64 - 8192`. -/
theorem reachable_sizesOk (hr : (system.restrict inBounds).Reachable s) (hinit : s.heap.arenaInit = true)
    {c : Call} (harg : ∀ b, c.arg = some b → b ∈ s.live) (hu : c.Usize) : SizesOk s c ↔ c.NoWrap := by
  obtain ⟨v, hg⟩ := reachable_inBounds_good hr
  constructor
  · intro hok n hs
    exact (le_hugeTotal_iff (hu.size_lt hs)).mp (hok.total n hs)
  · intro hn
    have hblock : ∀ t ans, ∃ r, c.run s.heap t ans = .ok r ∧ (r.2.1 ≠ 0 →
        Set.Ico r.2.1 (r.2.1 + c.req) ⊆ (newBlock r c.req).extent ∧
          ∃ m ∈ r.1.os.maps, (newBlock r c.req).extent ⊆ m.bytes) := by
      intro t ans
      obtain ⟨r, v', hrun, _, hg', hnew⟩ := Call.run_good hg hinit harg hn.inBounds t ans
      refine ⟨r, hrun, fun hp => ⟨?_, hg'.extent_mapped (hnew hp)⟩⟩
      have hreq := hn.req_le hrun hp
      have hfits := (hg'.sized _ (hnew hp)).req_le fun _ => hreq
      exact Block.range_subset hfits
    refine ⟨fun n hs => (le_hugeTotal_iff (hu.size_lt hs)).mpr (hn n hs), hblock,
      fun t ans n r₀ r hz hrun₀ hrun => ?_⟩
    obtain ⟨hzero, hreq⟩ := Call.zeroed hz hrun₀ hrun
    obtain ⟨r', hrun', hin⟩ := hblock t ans
    obtain rfl := Except.ok.inj (hrun.symm.trans hrun')
    apply zeroBlock_eqOn hzero
    intro hp
    rw [← hreq]
    exact (hin hp).1

/-- A request for 15 bytes to be zeroed, in a process with one slot. -/
theorem reachable_sizesOk_first : ∃ s : State, s.heap.arenaInit = true ∧ s.live.length = 1 ∧
    SizesOk s (.calloc 3 5) := by
  obtain ⟨a, tlsf, m, m', slab, m'', _, _, hr, _⟩ := exists_first (C := inBounds) (n := 100) (c := 8)
    (p := 4096) (A := 2097152) (fun _ _ _ _ _ _ => trivial) (fun _ => 0) 1 (by decide) (by decide) (by decide)
    (by decide)
  have hno : (Call.calloc 3 5).NoWrap := by
    intro n hn
    obtain rfl : 15 = n := Option.some.inj hn
    decide
  exact ⟨_, rfl, rfl, (reachable_sizesOk hr rfl (c := .calloc 3 5) (fun b (hb : none = some b) => nomatch hb)
    ⟨by decide, by decide⟩).mpr hno⟩

/-- **A request for `2 ^ 64 - 4095` bytes** gets a mapping of one page, which is all header: the pointer
returned is the end of the mapping. -/
theorem not_sizesOk_wraps : ∃ (s : State) (r : Heap × Nat × Backend), (system.restrict inBounds).Reachable s ∧
    s.heap.arenaInit = true ∧
    (Call.malloc (2 ^ 64 - 4095)).run s.heap 1 (fun _ => ⟨none, none, some 8388608⟩) = .ok r ∧
    r.2.1 = 8392704 ∧ (newBlock r (2 ^ 64 - 4095)).cap = 0 ∧ hugeTotal (2 ^ 64 - 4095) = 4096 ∧
    ¬ SizesOk s (.malloc (2 ^ 64 - 4095)) := by
  obtain ⟨a, tlsf, m, hbase, hs, hstep⟩ := started_step (fun _ => 0) (A := 2097152) (by decide) 1
  have htotal : hugeTotal (2 ^ 64 - 4095) = 4096 := by decide
  have hr₀ : (system.restrict inBounds).Reachable ⟨Heap.boot fun _ => 0, []⟩ := .init ⟨_, rfl⟩
  have hr₁ := hr₀.step ⟨hstep, trivial⟩
  have hmaps : (Heap.started (fun _ => 0) a tlsf m).heap.os.maps = [⟨2097152, 2097152⟩] := by
    have hlist : (Heap.started (fun _ => 0) a tlsf m).heap.os.maps = [⟨a.base, 2097152⟩] := rfl
    rw [hlist, hbase]
  have hgrant : Grantable (Heap.started (fun _ => 0) a tlsf m).heap.os.maps (hugeTotal (2 ^ 64 - 4095))
      8388608 := by
    rw [hmaps, htotal]
    decide
  obtain ⟨os, _, hrun⟩ := ferrumMalloc_huge (t := 1) rfl (by decide) _ hgrant none none
  refine ⟨_, _, hr₁, rfl, hrun, rfl, ?_, htotal, fun hok => ?_⟩
  · show hugeTotal (2 ^ 64 - 4095) - 4096 = 0
    rw [htotal]
  · have hle := hok.total (2 ^ 64 - 4095) rfl
    rw [htotal] at hle
    exact absurd hle (by decide)

/-! ## Alignment -/

/-- Sizes whose slots are an odd multiple of 8 bytes long. -/
def OddSlots (n : Nat) : Prop := n ≤ 8 ∨ 17 ≤ n ∧ n ≤ 24

/-- The alignment that a call promises. -/
def Call.align : Call → Nat
  | posixMemalign alignment _ => alignment
  | _ => 16

/-- Only the classes of 8 and of 24 bytes have such slots. -/
theorem slotSize_mod (hc : sizeToClass n = some c) : slotSize c % 16 = 0 ↔ ¬ OddSlots n := by
  obtain ⟨hlt, hle, _⟩ := sizeToClass_spec hc
  have hleast : ∀ c' < c, slotSize c' < n := fun c' h => sizeToClass_least hc h
  unfold numSizeClasses at hlt
  unfold OddSlots
  by_cases h0 : c = 0
  · subst h0
    have h8 : n ≤ 8 := hle
    exact ⟨fun hmod => absurd hmod (by decide), fun hno => absurd (.inl h8) hno⟩
  by_cases h2 : c = 2
  · subst h2
    have h24 : n ≤ 24 := hle
    have h16 : 16 < n := hleast 1 (by decide)
    exact ⟨fun hmod => absurd hmod (by decide), fun hno => absurd (.inr ⟨h16, h24⟩) hno⟩
  have h8 : 8 < n := hleast 0 (by omega)
  constructor
  · intro _ hor
    rcases hor with hor | ⟨h17, h24⟩
    · omega
    · by_cases hgt : 2 < c
      · have := hleast 2 hgt
        have h24' : slotSize 2 = 24 := rfl
        omega
      · obtain rfl : c = 1 := by omega
        have h16 : n ≤ 16 := hle
        omega
  · intro _
    interval_cases c <;> first | rfl | contradiction

/-- **What is known of the pointer of a block**, by backend. -/
theorem Good.ptr_mod (hg : Good h v l) (hb : b ∈ l) : b.ptr % 8 = 0 ∧
    (b.via = .huge → b.ptr % 4096 = 0) ∧
    ((∀ c, b.via = .slab c → slotSize c % 16 = 0) → b.ptr % 16 = 0) := by
  have hplaced := hg.placed b hb
  cases hvia : b.via with
  | null => exact absurd hvia hplaced.via_ne_null
  | slab c =>
    obtain ⟨i, j, hu, hptr, _⟩ := hplaced.slabBlock hvia
    have ha := hg.arena (hg.init_of_via hb (by rw [hvia]; nofun))
    have hbase : v.arena.base % 4096 = 0 := ha.slabs.inv.arena.al
    have hpage := Arena.pageAddr_eq v.arena i
    have h8 := (slots_of_lt (ha.slabs.inv.used_lt hu)).size_al
    have hslot : v.arena.slotAddr i c j = v.arena.pageAddr i + j * slotSize c := rfl
    rw [hptr, hslot]
    refine ⟨?_, nofun, fun h16 => ?_⟩
    · have hmul : (j * slotSize c) % 8 = 0 := Nat.mod_eq_zero_of_dvd
        ((Nat.dvd_of_mod_eq_zero h8).mul_left j)
      omega
    · have hmul : (j * slotSize c) % 16 = 0 := Nat.mod_eq_zero_of_dvd
        ((Nat.dvd_of_mod_eq_zero (h16 c rfl)).mul_left j)
      omega
  | tlsf =>
    obtain ⟨x, hptr, hu⟩ := hplaced.poolBlock hvia
    have ha := hg.arena (hg.init_of_via hb (by rw [hvia]; nofun))
    have hal := ha.pool.inv.layout.al16 hu
    exact ⟨by omega, nofun, fun _ => by omega⟩
  | bump =>
    obtain ⟨i, k, hptr, _⟩ := hplaced.pageBlock hvia
    have ha := hg.arena (hg.init_of_via hb (by rw [hvia]; nofun))
    have hbase : v.arena.base % 4096 = 0 := ha.slabs.inv.arena.al
    have hpage := Arena.pageAddr_eq v.arena i
    exact ⟨by omega, nofun, fun _ => by omega⟩
  | huge =>
    have hmap := (hplaced.mapBlock hvia).1
    have hal : (b.ptr - 4096) % 4096 = 0 := (hg.maps.ok _ hmap.map).2.1
    have hge := hmap.ge
    exact ⟨by omega, fun _ => by omega, fun _ => by omega⟩

/-- An aligned request above 16 is served by `huge_alloc`. -/
theorem memalign_cases {a : Nat} {ans : Nat → Answers}
    (hrun : (Call.posixMemalign a n).run h t ans = .ok r) (hp : r.2.1 ≠ 0) :
    a = 8 ∨ a = 16 ∨ (r.2.2 = .huge ∧ a ∣ 4096) := by
  have hrun' : memalignBlock h t a n (ans 0) = .ok r :=
    (posixMemalign_run h t a n (ans 0)).symm.trans hrun
  unfold memalignBlock at hrun'
  by_cases hbad : a % 8 ≠ 0 ∨ ¬ a.isPowerOfTwo
  · rw [if_pos hbad] at hrun'
    exact absurd (congrArg (fun r => r.2.1) (Except.ok.inj hrun')).symm hp
  · rw [if_neg hbad] at hrun'
    rw [not_or, not_not, not_not] at hbad
    obtain ⟨h8, k, rfl⟩ := hbad
    by_cases h16 : 2 ^ k ≤ 16
    · have hk : k ≤ 4 := (Nat.pow_le_pow_iff_right (by decide)).mp (show 2 ^ k ≤ 2 ^ 4 from h16)
      interval_cases k <;> first | exact .inl rfl | exact .inr (.inl rfl) | exact absurd h8 (by decide)
    · rw [if_neg h16] at hrun'
      by_cases h4096 : 2 ^ k ≤ 4096
      · rw [if_pos h4096] at hrun'
        have hk : k ≤ 12 := (Nat.pow_le_pow_iff_right (by decide)).mp (show 2 ^ k ≤ 2 ^ 12 from h4096)
        refine .inr (.inr ⟨?_, Nat.pow_dvd_pow 2 hk⟩)
        rw [← Except.ok.inj hrun']
        rfl
      · rw [if_neg h4096] at hrun'
        exact absurd (congrArg (fun r => r.2.1) (Except.ok.inj hrun')).symm hp

/-- **The pointer of a new block is aligned** as promised, unless its slots are of odd length. -/
theorem Good.aligned (hg : Good h v l) {c : Call} (harg : ∀ b, c.arg = some b → b ∈ l) (hn : c.InBounds)
    {ans : Nat → Answers} (hrun : c.run h t ans = .ok r) (hp : r.2.1 ≠ 0)
    (hodd : ¬ (c.align = 16 ∧ OddSlots c.req)) : c.align ∣ r.2.1 := by
  obtain ⟨v', hleads⟩ := (Call.leads hg c harg hn t ans).of_run hrun
  have hg' : Good r.1 v' (c.after l r) := hleads.good hg
  have hnew : newBlock r c.req ∈ c.after l r := by
    unfold Call.after
    rw [if_neg hp]
    exact List.mem_cons_self
  obtain ⟨h8, hhuge, h16⟩ := hg'.ptr_mod hnew
  have hsized := hg'.sized _ hnew
  have hmod16 : ¬ OddSlots c.req → 16 ∣ r.2.1 := by
    intro hno
    apply Nat.dvd_of_mod_eq_zero
    refine h16 fun c' hvia => ?_
    unfold Block.Sized at hsized
    rw [hvia] at hsized
    exact (slotSize_mod hsized.1).mpr hno
  have hmalloc : c.align = 16 → c.align ∣ r.2.1 := by
    intro hal
    rw [hal]
    exact hmod16 fun ho => hodd ⟨hal, ho⟩
  cases c with
  | posixMemalign a n =>
    rcases memalign_cases hrun hp with rfl | rfl | ⟨hvia, hdvd⟩
    · exact Nat.dvd_of_mod_eq_zero h8
    · exact hmalloc rfl
    · exact hdvd.trans (Nat.dvd_of_mod_eq_zero (hhuge hvia))
  | malloc | calloc | ferrumCalloc | realloc | free | usableSize => exact hmalloc rfl

/-- **The second slot of a page.** -/
theorem exists_second {C : State → Event → Prop}
    (hC : ∀ s t n ans, n ≤ hugeAllocThreshold → C s (.call t (.malloc n) ans)) (hn : 0 < n)
    (hc : sizeToClass n = some c) :
    ∃ s a r, (system.restrict C).Reachable s ∧ a % 4096 = 0 ∧
      (Call.malloc n).run s.heap 1 (fun _ => ⟨none, none, none⟩) = .ok r ∧ r.2.1 = a + slotSize c := by
  obtain ⟨a, h, h', hbase, hr, hrun, _⟩ := exists_pair hC (fun _ => 0) hn hc
  have harena : a.base % 4096 = 0 := by rw [hbase]
  have hpage := Arena.pageAddr_eq a firstPage
  refine ⟨_, a.pageAddr firstPage, _, hr, by omega, hrun, ?_⟩
  show a.pageAddr firstPage + 1 * slotSize c = _
  rw [Nat.one_mul]

/-- **Every pointer handed out for `n` bytes at alignment `a` is aligned**, in all reachable states, exactly
when `a` is not 16 or the slots for `n` bytes are a multiple of 16 bytes long. -/
theorem reachable_aligned {a : Nat} (hn : 1 ≤ n) (hn' : n ≤ usizeMax - 2 * pageSize) :
    (∀ s, (system.restrict inBounds).Reachable s → ∀ (t : Nat) (c : Call) (ans : Nat → Answers)
      (r : Heap × Nat × Backend), c.req = n → c.align = a → (∀ b, c.arg = some b → b ∈ s.live) →
      c.run s.heap t ans = .ok r → r.2.1 ≠ 0 → a ∣ r.2.1) ↔ ¬ (a = 16 ∧ OddSlots n) := by
  constructor
  · intro hall hbad
    obtain ⟨rfl, hodd⟩ := hbad
    have hsmall : n ≤ slabMaxSize := by
      unfold OddSlots at hodd
      unfold slabMaxSize
      omega
    have hc := sizeToClass_of_le hsmall
    obtain ⟨s, x, r, hr, hx, hrun, hptr⟩ := exists_second (C := inBounds) (fun _ _ _ _ _ => trivial) hn hc
    have h8 := (slots_of_lt (sizeToClass_spec hc).1).size_ge
    have hdvd := hall s hr 1 (.malloc n) _ r rfl rfl (fun b (hb : none = some b) => nomatch hb) hrun (by omega)
    rw [hptr] at hdvd
    have hmod : slotSize (sizeClassLut n) % 16 = 0 := by
      have := Nat.mod_eq_zero_of_dvd hdvd
      omega
    exact (slotSize_mod hc).mp hmod hodd
  · intro hodd s hr t c ans r hreq hal harg hrun hp
    obtain ⟨v, hg⟩ := reachable_inBounds_good hr
    subst hreq hal
    exact hg.aligned harg (Call.noWrap_of_modest hn').inBounds hrun hp hodd

/-- The second slot for 100 bytes is aligned. -/
theorem reachable_aligned_second : ∃ (s : State) (r : Heap × Nat × Backend),
    (Call.malloc 100).run s.heap 1 (fun _ => ⟨none, none, none⟩) = .ok r ∧ r.2.1 ≠ 0 ∧ 16 ∣ r.2.1 := by
  have hc : sizeToClass 100 = some 8 := by decide
  have hsize : slotSize 8 = 112 := rfl
  obtain ⟨s, x, r, hr, _, hrun, hptr⟩ := exists_second (C := inBounds) (fun _ _ _ _ _ => trivial) (show 0 < 100 by decide) hc
  have hp : r.2.1 ≠ 0 := by omega
  have hodd : ¬ (16 = 16 ∧ OddSlots 100) := by
    unfold OddSlots
    omega
  exact ⟨s, r, hrun, hp, (reachable_aligned (n := 100) (a := 16) (by decide) (by decide)).mpr hodd s hr 1
    (.malloc 100) _ r rfl rfl (fun b (hb : none = some b) => nomatch hb) hrun hp⟩

/-- **The second slot for 24 bytes** is at an odd multiple of 8. -/
theorem not_aligned_second : ∃ (s : State) (r : Heap × Nat × Backend), (system.restrict inBounds).Reachable s ∧
    (Call.malloc 24).run s.heap 1 (fun _ => ⟨none, none, none⟩) = .ok r ∧ r.2.1 ≠ 0 ∧ ¬ 16 ∣ r.2.1 := by
  have hc : sizeToClass 24 = some 2 := by decide
  have hsize : slotSize 2 = 24 := rfl
  obtain ⟨s, x, r, hr, hx, hrun, hptr⟩ := exists_second (C := inBounds) (fun _ _ _ _ _ => trivial) (show 0 < 24 by decide) hc
  refine ⟨s, r, hr, hrun, by omega, fun hdvd => ?_⟩
  have := Nat.mod_eq_zero_of_dvd hdvd
  omega

end

end FerrumAlloc
