/-
# FerrumAlloc.Api.CallSteps -- the other entry points, among other threads

`calloc` zeroes the block that `ferrum_malloc` has put into its hands, and `ferrum_realloc` copies from a block
in its hands to another, so the bytes are right whatever other threads do meanwhile.

`Call.proc_triple` sums up for all calls: the blocks that a call hands back, and what is in them.
-/
import FerrumAlloc.Api.FreeSteps
import FerrumAlloc.Api.Resize

namespace FerrumAlloc

open Lib World Discipline

variable {t n k : Nat} {S : Set Block} {m m' : Mem} {locked : Bool} {x y : World} {b : Block}
  {weak : Nat → Bool} {fin : Prop}

/-! ## `ferrum_usable_size` -/

/-- **`ferrum_usable_size`**: nothing, or the bytes reserved. -/
theorem ferrumUsableSize_triple (hb : b ∈ S) (ans : Answers) :
    world.Triple fin (some t) (At t S m false) (Proc.ferrumUsableSize b.ptr ans)
      fun size x => (size = 0 ∨ size = b.cap) ∧ At t S m false x := by
  unfold Proc.ferrumUsableSize
  by_cases h0 : b.ptr = 0
  · exact fun x hx hat => absurd h0 (hx.good.ptr_ne (hat.mem hb))
  · rw [if_neg h0]
    have hsize : ∀ size, world.Stable (some t) fun x => (size = 0 ∨ size = b.cap) ∧ At t S m true x :=
      fun _ => (Stable.const _).and At.stable
    refine (ensureInit_triple ans.arena).bind fun _ => spinLock_triple.bind fun _ => ?_
    refine (derefArena_triple At.stable).bind fun a => ?_
    refine Triple.bind (Does.triple (Q := fun size x => (size = 0 ∨ size = b.cap) ∧ At t S m true x)
      (At.stable.and ArenaIs.stable) hsize ?_) fun size => .pure fun hs => ?_
    · rintro x hx ⟨hat, hinit, rfl⟩
      have hrun := usableSizeLocked_spec (hx.good.arena hinit) hx.good.maps
        (hx.good.placed b (hat.mem hb)) (hx.good.sized b (hat.mem hb))
      have hrun' : usableSizeLocked x.shared x.view.arena b.ptr = .ok (b.usable x.view.arena) := hrun
      refine .inr ⟨x, b.usable x.view.arena, ?_, .refl hx, ?_, hat⟩
      · simp only [hrun', Exec.bind_ok, Exec.pure_eq]
      · unfold Block.usable
        split
        · exact .inl rfl
        · exact .inr rfl
    · exact spinUnlock_triple.bind fun _ => ret_triple At.stable fun _ _ hat => ⟨hs, hat⟩

/-! ## Zeroed blocks -/

/-- The result `r` of an allocation, whose bytes satisfy `P r`. -/
def ResultWith (t : Nat) (S : Set Block) (m : Mem) (n : Nat) (P : Nat × Backend → Mem → Prop)
    (r : Nat × Backend) (x : World) : Prop :=
  (r.1 = 0 ∧ At t S m false x) ∨ (r.1 ≠ 0 ∧ ∃ cap m', (P r m' ∧ ∀ b' ∈ S, Set.EqOn m' m b'.extent) ∧
    At t (insert ⟨r.1, n, r.2, cap⟩ S) m' false x)

variable {P : Nat × Backend → Mem → Prop} {r : Nat × Backend}

theorem ResultWith.stable : world.Stable (some t) (ResultWith t S m n P r) :=
  ((Stable.const _).and At.stable).or ((Stable.const _).and
    (.exists_ fun _ => .exists_ fun _ => (Stable.const _).and At.stable))

theorem Result.with (hr : Result t S m n r x) : ResultWith t S m n (fun _ _ => True) r x :=
  hr.imp id fun hr => ⟨hr.1, hr.2.imp fun _ hgot => hgot.2.imp fun _ hm => ⟨⟨trivial, hm.1⟩, hm.2⟩⟩

/-- Null, at no cost. -/
theorem null_triple {β : Backend} :
    world.Triple fin (some t) (At t S m false) (pure (0, β)) (ResultWith t S m n P) :=
  ret_triple At.stable fun _ _ hat => .inl ⟨rfl, hat⟩

/-- The bytes of the block returned are zero. -/
def Zeroed (n : Nat) (r : Nat × Backend) (m' : Mem) : Prop := ∀ z, r.1 ≤ z → z < r.1 + n → m' z = 0

/-- **Zeroing** a block just allocated. -/
theorem zeroBlock_triple (hn : n ≤ 2 ^ 64 - 8192) (r : Nat × Backend) :
    world.Triple fin (some t) (Result t S m n r) (Proc.zeroBlock n r)
      (ResultWith t S m n fun r m' => n ≤ 2 ^ 64 - 8192 ∧ Zeroed n r m') := by
  unfold Proc.zeroBlock
  refine Triple.or (.pure fun h0 => ?_) (.pure fun h0 => ?_)
  · rw [if_neg (not_not.mpr h0)]
    exact ret_triple At.stable fun _ _ hat => .inl ⟨h0, hat⟩
  · rw [if_pos h0]
    refine .exists_ fun cap => .pure fun hb => .exists_ fun m' => .pure fun hm => ?_
    refine Triple.bind (Does.triple (Q := fun _ => ResultWith t S m n _ r) At.stable
      (fun _ => ResultWith.stable) fun x hx hat => ?_) fun _ => ret_triple ResultWith.stable fun _ _ hr => hr
    obtain ⟨b, hbdef⟩ : ∃ b : Block, b = ⟨r.1, n, r.2, cap⟩ := ⟨_, rfl⟩
    rw [← hbdef] at hb hat
    have hin : b ∈ insert b S := Set.mem_insert b S
    -- the request fits in the block, so the fill stays inside
    have hfill : Set.EqOn (fill x.heap.os.bytes r.1 n 0) x.heap.os.bytes b.extentᶜ := by
      have hfill := hx.good.fill_eqOn (hat.mem hin) (by rw [hbdef]; exact hn) 0
      rw [hbdef] at hfill ⊢
      exact hfill
    obtain ⟨hmoves, hat', hothers⟩ := hat.store hx hin hfill
    rw [hbdef] at hat'
    refine .inr ⟨_, (), rfl, hmoves, .inr ⟨h0, cap, _, ⟨⟨hn, fun z h1 h2 => if_pos ⟨h1, h2⟩⟩, fun b' hb' => ?_⟩, hat'⟩⟩
    exact (hothers b' (.inr hb') fun heq => hb (heq ▸ hb')).trans (hm b' hb')

/-- **`calloc`.** -/
theorem calloc_triple (nmemb size : Nat) (ans : Answers)
    (hn : nmemb * size < 2 ^ 64 → nmemb * size ≤ 2 ^ 64 - 8192) :
    world.Triple fin (some t) (At t S m false) (Proc.calloc t nmemb size ans)
      (ResultWith t S m (nmemb * size) fun r m' =>
        nmemb * size ≤ 2 ^ 64 - 8192 ∧ Zeroed (nmemb * size) r m') := by
  unfold Proc.calloc
  rcases checkedMul_cases nmemb size with ⟨_, hmul⟩ | ⟨hlt, hmul⟩
  · simp only [hmul, Option.getD_none, if_true]
    exact null_triple
  · simp only [hmul, Option.getD_some]
    by_cases h0 : nmemb * size = 0
    · rw [if_pos h0]
      exact null_triple
    · rw [if_neg h0]
      exact (ferrumMalloc_triple _ ans).bind fun r => zeroBlock_triple (hn hlt) r

/-- **`ferrum_calloc`.** -/
theorem ferrumCalloc_triple (count size : Nat) (ans : Answers)
    (hn : count * size < 2 ^ 64 → count * size ≤ 2 ^ 64 - 8192) :
    world.Triple fin (some t) (At t S m false) (Proc.ferrumCalloc t count size ans)
      (ResultWith t S m (count * size) fun r m' =>
        count * size ≤ 2 ^ 64 - 8192 ∧ Zeroed (count * size) r m') := by
  unfold Proc.ferrumCalloc
  rcases checkedMul_cases count size with ⟨_, hmul⟩ | ⟨hlt, hmul⟩
  · rw [hmul]
    exact null_triple
  · rw [hmul]
    exact (ferrumMalloc_triple _ ans).bind fun r => zeroBlock_triple (hn hlt) r

/-! ## Aligned blocks -/

/-- **`posix_memalign`.** -/
theorem posixMemalign_triple (alignment n : Nat) (ans : Answers) :
    world.Triple fin (some t) (At t S m false) (Proc.posixMemalign t alignment n ans)
      (ResultWith t S m n fun _ _ => True) := by
  unfold Proc.posixMemalign
  by_cases hbad : alignment % 8 ≠ 0 ∨ ¬ alignment.isPowerOfTwo
  · rw [if_pos hbad]
    exact null_triple
  · rw [if_neg hbad]
    by_cases h16 : alignment ≤ 16
    · rw [if_pos h16]
      exact (ferrumMalloc_triple n ans).conseq (fun _ _ h => h) fun _ _ _ hr => hr.with
    · rw [if_neg h16]
      by_cases hpage : alignment ≤ 4096
      · rw [if_pos hpage]
        exact (hugeAlloc_triple n ans.huge).conseq (fun _ _ h => h) fun _ _ _ hr => hr.with
      · rw [if_neg hpage]
        exact null_triple

/-! ## `ferrum_realloc` -/

/-- The result `r` of a move of `b` to `n` bytes: the old block has gone, and as many bytes as both blocks hold
have come over. A move that fails leaves the old block as it was. -/
def MovedTo (t : Nat) (S : Set Block) (m : Mem) (b : Block) (n : Nat) (r : Nat × Backend) (x : World) : Prop :=
  (r.1 = 0 ∧ At t S m false x) ∨ (r.1 ≠ 0 ∧ ∃ cap m', ((∀ i < min b.cap n, m' (r.1 + i) = m (b.ptr + i)) ∧
    ⟨r.1, n, r.2, cap⟩ ∉ S) ∧ At t (insert ⟨r.1, n, r.2, cap⟩ S \ {b}) m' false x)

/-- What has been copied, in the bytes of both blocks. -/
def Copied (b nb : Block) (k : Nat) (m m' : Mem) : Prop :=
  ∀ i < min b.cap k, m' (nb.ptr + i) = m (b.ptr + i)

/-- **The copy** into a block just allocated. -/
theorem copy_triple (nb : Block) (hb : b ∈ S) (hn : nb.req ≤ 2 ^ 64 - 8192)
    (hk : k ≤ nb.req) (hm : Set.EqOn m' m b.extent) :
    world.Triple fin (some t) (At t (insert nb S) m' false)
      (Proc.store fun h => h.setBytes (copyRange h.os.bytes b.ptr nb.ptr k)) fun _ x =>
        ∃ m'', Copied b nb k m m'' ∧ At t (insert nb S) m'' false x := by
  refine Does.triple At.stable (fun _ => .exists_ fun _ => (Stable.const _).and At.stable) fun x hx hat => ?_
  have hin : nb ∈ insert nb S := Set.mem_insert nb S
  have hfits : nb.req ≤ nb.cap := (hx.good.sized nb (hat.mem hin)).req_le fun _ => hn
  -- the target may be longer than the source: what is written counts, not what is read
  have hcopy : Set.EqOn (copyRange x.heap.os.bytes b.ptr nb.ptr k) x.heap.os.bytes nb.extentᶜ := by
    refine eqOn_compl_mono (copyRange_eqOn _ _ _ _) fun z hz => ?_
    rw [Block.mem_extent]
    exact ⟨hz.1, Nat.lt_of_lt_of_le hz.2 (Nat.add_le_add_left (hk.trans hfits) _)⟩
  obtain ⟨hmoves, hat', _⟩ := hat.store hx hin hcopy
  refine .inr ⟨_, (), rfl, hmoves, _, fun i hi => ?_, hat'⟩
  obtain ⟨hcap, hik⟩ := lt_min_iff.mp hi
  have hz : b.ptr + i ∈ b.extent := ⟨Nat.le_add_right _ _, Nat.add_lt_add_left hcap _⟩
  exact (copyRange_at hik).trans ((hat.bytes b (.inr hb) hz).trans (hm hz))

/-- **The move** of a block. -/
theorem moveBlock_triple (hb : b ∈ S) (hn : n ≤ 2 ^ 64 - 8192) (hk : k ≤ n) (hall : min b.cap n ≤ k)
    (ans : Answers) (r : Nat × Backend) :
    world.Triple False (some t) (fun x => Result t S m n r x ∧ CachedFor t b x) (Proc.moveBlock weak t b.ptr k ans r)
      (MovedTo t S m b n) := by
  unfold Proc.moveBlock
  by_cases h0 : r.1 ≠ 0
  · rw [if_pos h0]
    refine Triple.conseq (P := fun x => ∃ cap, ⟨r.1, n, r.2, cap⟩ ∉ S ∧ ∃ m', (∀ b' ∈ S, Set.EqOn m' m b'.extent) ∧
      At t (insert ⟨r.1, n, r.2, cap⟩ S) m' false x ∧ CachedFor t b x)
      (.exists_ fun cap => .pure fun hnb => .exists_ fun m' => .pure fun hm => ?_) ?_ fun _ _ _ h => h
    · -- the copy, and then the old block goes
      refine Triple.bind ((copy_triple ⟨r.1, n, r.2, cap⟩ hb hn hk (hm b hb)).frame (F := CachedFor t b)
        (lasting fun _ => CachedFor.stable)) fun _ => ?_
      refine Triple.conseq (P := fun x => ∃ m'', Copied b ⟨r.1, n, r.2, cap⟩ k m m'' ∧
        At t (insert ⟨r.1, n, r.2, cap⟩ S) m'' false x ∧ CachedFor t b x)
        (.exists_ fun m'' => .pure fun hcopied => ?_) ?_ fun _ _ _ h => h
      · refine Triple.bind (ferrumFree_triple (.inr hb) ans) fun _ => ret_triple At.stable fun x _ hat => ?_
        refine .inr ⟨h0, cap, m'', ⟨fun i hi => hcopied i ?_, hnb⟩, hat⟩
        obtain ⟨hcap, _⟩ := lt_min_iff.mp hi
        exact lt_min hcap (Nat.lt_of_lt_of_le hi hall)
      · rintro x _ ⟨⟨m'', hcopied, hat⟩, hcached⟩
        exact ⟨m'', hcopied, hat, hcached⟩
    · rintro x _ ⟨⟨hr, _⟩ | ⟨_, cap, hnb, m', hm, hat⟩, hcached⟩
      · exact absurd hr h0
      · exact ⟨cap, hnb, m', hm, hat, hcached⟩
  · rw [if_neg h0]
    refine ret_triple (Result.stable r |>.and CachedFor.stable) ?_
    rintro x _ ⟨⟨hr, hat⟩ | ⟨hr, _⟩, _⟩
    · exact .inl ⟨hr, hat⟩
    · exact absurd hr h0

/-- All bytes that both blocks hold are copied. -/
theorem min_le_copySize {u : Nat} (hu : u = 0 ∨ u = b.cap) : min b.cap n ≤ copySize u n := by
  unfold copySize
  split
  · obtain rfl : u = b.cap := hu.resolve_left (by omega)
    exact Nat.le_refl _
  · exact Nat.min_le_right _ _

/-- **`ferrum_realloc`** of a block. -/
theorem ferrumRealloc_triple (hb : b ∈ S) (h0 : b.ptr ≠ 0) (hpos : n ≠ 0) (hn : n ≤ 2 ^ 64 - 8192)
    (ans₁ ans₂ ans₃ : Answers) :
    world.Triple False (some t) (fun x => At t S m false x ∧ CachedFor t b x)
      (Proc.ferrumRealloc weak t b.ptr n ans₁ ans₂ ans₃) (MovedTo t S m b n) := by
  have hlasts : world.Lasting (some t) (CachedFor t b) := lasting fun _ => CachedFor.stable
  unfold Proc.ferrumRealloc
  rw [if_neg h0, if_neg hpos]
  refine ((ferrumUsableSize_triple hb ans₁).frame hlasts).bind fun u => ?_
  refine Triple.conseq (P := fun x => (u = 0 ∨ u = b.cap) ∧ At t S m false x ∧ CachedFor t b x)
    (.pure fun hu => ?_) (fun _ _ hP => ⟨hP.1.1, hP.1.2, hP.2⟩) fun _ _ _ h => h
  exact ((ferrumMalloc_triple n ans₂).frame hlasts).bind fun r =>
    moveBlock_triple hb hn (copySize_le u n) (min_le_copySize hu) ans₃ r

/-! ## Calls -/

/-- The block that the call has been given. -/
def Call.given (c : Call) : Set Block := {b | c.arg = some b}

/-- The blocks that the call hands back, when it returns `r`. -/
def Call.back (c : Call) (h : Heap) (r : Nat × Backend) : Set Block := {b | b ∈ c.after c.arg.toList (h, r)}

/-- What is in the block returned by a call that was given the bytes `m`. -/
def Call.Content (r : Nat × Backend) (m m' : Mem) : Call → Prop
  | calloc nmemb size => r.1 ≠ 0 → Zeroed (nmemb * size) r m'
  | ferrumCalloc count size => r.1 ≠ 0 → Zeroed (count * size) r m'
  | realloc (some b) n => r.1 ≠ 0 → ∀ i < min b.cap n, m' (r.1 + i) = m (b.ptr + i)
  | _ => True

/-- **What a call comes to**: it hands back the blocks it should, each once and with the right bytes, and the
lock is not held. -/
def Call.Served (c : Call) (t : Nat) (m : Mem) (r : Nat × Backend) (x : World) : Prop :=
  (c.after c.arg.toList (x.heap, r)).Nodup ∧ c.Content r m x.heap.os.bytes ∧
    (∀ b ∈ c.given ∩ c.back x.heap r, Set.EqOn x.heap.os.bytes m b.extent) ∧
    At t (c.back x.heap r) x.heap.os.bytes false x

/-- The bytes as they are now. -/
theorem At.now (hat : At t S m locked x) : At t S x.heap.os.bytes locked x :=
  ⟨hat.mine, fun _ _ => Set.eqOn_refl _ _, hat.lock, hat.agree⟩

/-- The bytes of a block, up to its request. -/
theorem Block.Sized.mem {nb : Block} (hs : nb.Sized) (hn : nb.req ≤ 2 ^ 64 - 8192) {i : Nat} (hi : i < nb.req) :
    nb.ptr + i ∈ nb.extent :=
  ⟨Nat.le_add_right _ _, Nat.add_lt_add_left (Nat.lt_of_lt_of_le hi (hs.req_le fun _ => hn)) _⟩

theorem Zeroed.congr {nb : Block} (hz : Zeroed nb.req r m) (hs : nb.Sized) (hn : nb.req ≤ 2 ^ 64 - 8192)
    (hp : nb.ptr = r.1) (hm : Set.EqOn m' m nb.extent) : Zeroed nb.req r m' := by
  intro z h1 h2
  obtain ⟨i, rfl⟩ := Nat.exists_eq_add_of_le h1
  have hz' := hm (hs.mem hn (Nat.lt_of_add_lt_add_left h2))
  rw [hp] at hz'
  exact hz'.trans (hz _ h1 h2)

/-- The block in the hands of the thread is the block returned. -/
theorem newBlock_mine {cap : Nat} (hx : x.Inv) (hat : At t S m locked x)
    (hb : (⟨r.1, n, r.2, cap⟩ : Block) ∈ S) : newBlock (x.heap, r) n = ⟨r.1, n, r.2, cap⟩ := by
  have hcap : reserved x.heap.os.bytes r.1 n r.2 = cap := hx.good.reserved_eq (hat.mem hb)
  unfold newBlock
  rw [hcap]

/-- No block is returned. -/
theorem Call.content_null (c : Call) (h0 : r.1 = 0) : c.Content r m m' := by
  cases c with
  | calloc nmemb size => exact fun hne => absurd h0 hne
  | ferrumCalloc count size => exact fun hne => absurd h0 hne
  | realloc b n =>
    cases b with
    | none => trivial
    | some b => exact fun hne => absurd h0 hne
  | _ => trivial

/-- A call that allocates, and has been given nothing. -/
theorem ResultWith.served {c : Call} (hx : x.Inv) (harg : c.arg = none)
    (hr : ResultWith t c.given m c.req P r x)
    (hP : ∀ cap m', P r m' → Block.Sized ⟨r.1, c.req, r.2, cap⟩ →
      Set.EqOn x.heap.os.bytes m' (Block.extent ⟨r.1, c.req, r.2, cap⟩) → c.Content r m x.heap.os.bytes) :
    c.Served t m r x := by
  have hgiven : c.given = ∅ := by
    unfold Call.given
    rw [harg]
    exact Set.eq_empty_of_forall_notMem fun _ => nofun
  have hgone : c.gone r.1 = none := by
    cases c with
    | free b => exact harg
    | realloc b n =>
      obtain rfl : b = none := harg
      exact ite_self none
    | _ => rfl
  rw [hgiven] at hr
  rcases hr with ⟨h0, hat⟩ | ⟨h0, cap, m', ⟨hm', _⟩, hat⟩
  · have hafter : c.after c.arg.toList (x.heap, r) = [] := by
      unfold Call.after
      simp only [harg, hgone, if_pos h0, Option.toList_none]
    have hback : c.back x.heap r = ∅ := by
      unfold Call.back
      rw [hafter]
      exact Set.eq_empty_of_forall_notMem fun _ => List.not_mem_nil
    unfold Call.Served
    rw [hback, Set.inter_empty, hafter]
    exact ⟨List.nodup_nil, c.content_null h0, fun _ => nofun, hat.now⟩
  · have hafter : c.after c.arg.toList (x.heap, r) = [⟨r.1, c.req, r.2, cap⟩] := by
      unfold Call.after
      simp only [harg, hgone, if_neg h0, newBlock_mine hx hat (Set.mem_insert _ _), Option.toList_none]
    have hback : c.back x.heap r = insert ⟨r.1, c.req, r.2, cap⟩ ∅ := by
      unfold Call.back
      rw [hafter]
      ext b
      exact List.mem_singleton.trans (Set.mem_insert_iff.trans (or_false _).to_iff).symm
    unfold Call.Served
    rw [hback, hgiven, Set.empty_inter, hafter]
    have hnew := Set.mem_insert (⟨r.1, c.req, r.2, cap⟩ : Block) ∅
    exact ⟨List.nodup_singleton _, hP cap m' hm' (hx.good.sized _ (hat.mem hnew)) (hat.bytes _ hnew),
      fun _ => nofun, hat.now⟩

theorem Call.given_some {c : Call} (harg : c.arg = some b) : c.given = {b} := by
  unfold given
  rw [harg]
  ext b'
  exact Option.some_inj.trans eq_comm

/-- A call that gives its block back. -/
theorem Call.served_kept {c : Call} (harg : c.arg = some b) (hgone : c.gone r.1 = none) (h0 : r.1 = 0)
    (hat : At t c.given m false x) : c.Served t m r x := by
  have hafter : c.after c.arg.toList (x.heap, r) = [b] := by
    unfold Call.after
    simp only [harg, hgone, if_pos h0, Option.toList_some]
  have hback : c.back x.heap r = c.given := by
    unfold Call.back
    rw [hafter, given_some harg]
    ext b'
    exact List.mem_singleton
  unfold Served
  rw [hback, hafter]
  exact ⟨List.nodup_singleton b, c.content_null h0, fun b' hb' => hat.bytes b' hb'.1, hat.now⟩

/-- A call that has freed its block. -/
theorem Call.served_gone {c : Call} (harg : c.arg = some b) (hgone : c.gone r.1 = some b) (h0 : r.1 = 0)
    (hat : At t (c.given \ {b}) m false x) : c.Served t m r x := by
  rw [given_some harg, Set.sdiff_self] at hat
  have hafter : c.after c.arg.toList (x.heap, r) = [] := by
    unfold Call.after
    simp only [harg, hgone, if_pos h0, Option.toList_some, List.erase_cons_head]
  have hback : c.back x.heap r = ∅ := by
    unfold Call.back
    rw [hafter]
    exact Set.eq_empty_of_forall_notMem fun _ => List.not_mem_nil
  unfold Served
  rw [hback, Set.inter_empty, hafter]
  exact ⟨List.nodup_nil, c.content_null h0, fun _ => nofun, hat.now⟩

/-- A call that has moved its block. -/
theorem MovedTo.served (hx : x.Inv) (hpos : n ≠ 0) (hn : n ≤ 2 ^ 64 - 8192)
    (hr : MovedTo t (Call.realloc (some b) n).given m b n r x) :
    (Call.realloc (some b) n).Served t m r x := by
  have hgiven : (Call.realloc (some b) n).given = {b} := Call.given_some rfl
  rcases hr with ⟨h0, hat⟩ | ⟨h0, cap, m', ⟨hcopied, hnew⟩, hat⟩
  · exact Call.served_kept rfl (if_neg (not_or.mpr ⟨hpos, not_not.mpr h0⟩)) h0 hat
  · rw [hgiven] at hnew hat
    have hne : (⟨r.1, n, r.2, cap⟩ : Block) ≠ b := hnew
    have hdiff : insert ⟨r.1, n, r.2, cap⟩ {b} \ {b} = ({⟨r.1, n, r.2, cap⟩} : Set Block) := by
      rw [Set.insert_sdiff_of_notMem _ hnew, Set.sdiff_self, LawfulSingleton.insert_empty_eq]
    rw [hdiff] at hat
    have hafter : (Call.realloc (some b) n).after (Call.realloc (some b) n).arg.toList (x.heap, r) =
        [⟨r.1, n, r.2, cap⟩] := by
      have hgone : (Call.realloc (some b) n).gone r.1 = some b := if_pos (.inr h0)
      unfold Call.after
      simp only [hgone, if_neg h0, Call.arg, Call.req, Option.toList_some, List.erase_cons_head,
        newBlock_mine hx hat (Set.mem_singleton _)]
    have hback : (Call.realloc (some b) n).back x.heap r = {⟨r.1, n, r.2, cap⟩} := by
      unfold Call.back
      rw [hafter]
      ext b'
      exact List.mem_singleton
    unfold Call.Served
    rw [hback, hgiven, hafter]
    have hin := Set.mem_singleton (⟨r.1, n, r.2, cap⟩ : Block)
    have hsized := hx.good.sized _ (hat.mem hin)
    refine ⟨List.nodup_singleton _, fun _ i hi => ?_, fun b' hb' => ?_, hat.now⟩
    · exact (hat.bytes _ hin (hsized.mem hn (lt_min_iff.mp hi).2)).trans (hcopied i hi)
    · exact absurd (hb'.2.symm.trans hb'.1) hne

/-- No block dies in the call, whatever it returns. -/
def Call.FreesNone (c : Call) : Prop := ∀ p, c.gone p = none

/-- The call may free a slot of a slab page. -/
def Call.FreesSlot (c : Call) : Prop := ∃ p b k, c.gone p = some b ∧ b.via = .slab k

/-- **Any call of thread `t`**, whatever other threads do meanwhile. It comes to an end, if it does not free: the
loop of a push is the only one without a bound. -/
theorem Call.proc_triple (c : Call) (hc : c.InBounds) (harg : ∀ b, c.arg = some b → b.ptr ≠ 0)
    (ans : Nat → Answers) (hfin : fin → c.FreesNone) :
    world.Triple fin (some t) (fun x => At t c.given m false x ∧ (c.FreesSlot → Cached t x)) (c.proc t ans weak)
      (c.Served t m) := by
  cases c with
  | malloc n =>
    exact (ferrumMalloc_triple n (ans 0)).conseq (fun _ _ h => h.1) fun r _ hx hr =>
      hr.with.served hx rfl fun _ _ _ _ _ => trivial
  | calloc nmemb size =>
    exact (calloc_triple nmemb size (ans 0) hc).conseq (fun _ _ h => h.1) fun r _ hx hr =>
      hr.served hx rfl fun cap _ hz hs hm _ => Zeroed.congr hz.2 hs hz.1 rfl hm
  | ferrumCalloc count size =>
    exact (ferrumCalloc_triple count size (ans 0) hc).conseq (fun _ _ h => h.1) fun r _ hx hr =>
      hr.served hx rfl fun cap _ hz hs hm _ => Zeroed.congr hz.2 hs hz.1 rfl hm
  | posixMemalign alignment n =>
    exact (posixMemalign_triple alignment n (ans 0)).conseq (fun _ _ h => h.1) fun r _ hx hr =>
      hr.served hx rfl fun _ _ _ _ _ => trivial
  | realloc b n =>
    cases b with
    | none =>
      exact (ferrumMalloc_triple n (ans 1)).conseq (fun _ _ h => h.1) fun r _ hx hr =>
        hr.with.served hx rfl fun _ _ _ _ _ => trivial
    | some b =>
      have h0 : b.ptr ≠ 0 := harg b rfl
      have hb : b ∈ (Call.realloc (some b) n).given := rfl
      have hno : fin → False := fun hf => nomatch (if_pos (.inr Nat.one_ne_zero)).symm.trans (hfin hf 1)
      have hcached : ∀ x, (Call.FreesSlot (.realloc (some b) n) → Cached t x) → CachedFor t b x :=
        fun x h ⟨c, hvia⟩ => h ⟨1, b, c, if_pos (.inr Nat.one_ne_zero), hvia⟩
      refine Triple.weaken (F := False) ?_ hno
      refine Triple.conseq (P := fun x => At t (Call.realloc (some b) n).given m false x ∧ CachedFor t b x) ?_
        (fun x _ hP => ⟨hP.1, hcached x hP.2⟩) fun _ _ _ h => h
      by_cases hzero : n = 0
      · subst hzero
        show world.Triple False (some t) _ (Proc.ferrumRealloc weak t b.ptr 0 (ans 0) (ans 1) (ans 2)) _
        unfold Proc.ferrumRealloc
        rw [if_neg h0, if_pos rfl]
        exact (ferrumFree_triple hb (ans 2)).bind fun _ => ret_triple At.stable fun _ _ hat =>
          Call.served_gone rfl rfl rfl hat
      · exact (ferrumRealloc_triple hb h0 hzero hc _ _ _).conseq (fun _ _ h => h) fun r _ hx hr =>
          hr.served hx hzero hc
  | free b =>
    cases b with
    | none =>
      have hskip : Proc.ferrumFree weak t 0 (ans 0) = pure () := if_pos rfl
      simp only [Call.proc, ptrOf, hskip]
      exact ret_triple (At.stable.and Cached.stable.imp) fun _ hx hP =>
        ResultWith.served (P := fun _ _ => True) hx rfl (.inl ⟨rfl, hP.1⟩) fun _ _ _ _ _ => trivial
    | some b =>
      have hb : b ∈ (Call.free (some b)).given := rfl
      have hno : fin → False := fun hf => nomatch hfin hf 0
      have hcached : ∀ x, (Call.FreesSlot (.free (some b)) → Cached t x) → CachedFor t b x :=
        fun x h ⟨c, hvia⟩ => h ⟨0, b, c, rfl, hvia⟩
      refine Triple.weaken (F := False) ?_ hno
      refine Triple.conseq (P := fun x => At t (Call.free (some b)).given m false x ∧ CachedFor t b x) ?_
        (fun x _ hP => ⟨hP.1, hcached x hP.2⟩) fun _ _ _ h => h
      exact (ferrumFree_triple hb (ans 0)).bind fun _ => ret_triple At.stable fun _ _ hat =>
        Call.served_gone rfl rfl rfl hat
  | usableSize b =>
    cases b with
    | none =>
      have hskip : Proc.ferrumUsableSize 0 (ans 0) = pure 0 := if_pos rfl
      simp only [Call.proc, ptrOf, hskip]
      exact ret_triple (At.stable.and Cached.stable.imp) fun _ hx hP =>
        ResultWith.served (P := fun _ _ => True) hx rfl (.inl ⟨rfl, hP.1⟩) fun _ _ _ _ _ => trivial
    | some b =>
      have hb : b ∈ (Call.usableSize (some b)).given := rfl
      refine Triple.bind ((ferrumUsableSize_triple hb (ans 0)).conseq (fun _ _ hP => hP.1) fun _ _ _ h => h)
        fun _ => .pure fun _ => ?_
      exact ret_triple At.stable fun _ _ hat => Call.served_kept rfl rfl rfl hat

end FerrumAlloc
