/-
# FerrumAlloc.Slab.Exhaustion -- a new page only when it must

The page list of a class holds the pages of the class that have a free slot. One slab over one arena has
no other home for a page, so the list is empty exactly when every page that the slab has initialised for
the class counts as many used slots as it has slots. Pages are never stranded: `alloc` moves the page
counter only then, and returns null only when the arena has no page left either.
-/
import FerrumAlloc.Slab.System

namespace FerrumAlloc.Slab

open Lib

variable {a : Arena} {s : State} {g : Ghost Unit} {c o : Nat}

/-- Every page of the class counts as full. -/
def AllFull (a : Arena) (s : State) (c : Nat) : Prop :=
  ∀ i, (i, c) ∈ s.pages → (readMeta s.mem (a.metaPtr i)).usedSlots = slotsPerPage c pageSize

namespace SlabState

/-- **The page list of a class is empty exactly when all its pages are full.** -/
theorem parts_nil_iff (h : SlabState a s g) : g.parts ((), c) = [] ↔ AllFull a s c := by
  constructor
  · intro hnil i hi
    have hc := (h.pages i c).mp hi
    apply (h.inv.slabPage hc).full_iff.mpr
    by_contra hne
    -- a page with a free slot is on the list
    have hmem := h.inv.mem_parts hc hne
    rw [show g.home i = () from rfl, hnil] at hmem
    nomatch hmem
  · intro hfull
    by_contra hne
    obtain ⟨p, hp⟩ := List.exists_mem_of_ne_nil _ hne
    obtain ⟨i, _, hc, hfree, _⟩ := (h.inv.mem () c p).mp hp
    exact hfree ((h.inv.slabPage hc).full_iff.mp (hfull i ((h.pages i c).mpr hc)))

/-- `alloc_needs_page` tells whether all pages of the class are full. -/
theorem allocNeedsPage_iff (h : SlabState a s g) (hc : c < numSizeClasses) :
    ∃ b, s.slab.allocNeedsPage c = .ok b ∧ (b = true ↔ AllFull a s c) :=
  ⟨_, h.inv.allocNeedsPage_spec hc (), by rw [decide_eq_true_iff]; exact h.parts_nil_iff⟩

end SlabState

/-- **A slab takes a new page only when it must.** In every reachable state and for every class:
`alloc_needs_page` holds if and only if every page initialised for the class is full; `alloc` moves the
page counter only in that case, and returns null if and only if, in addition, the arena has no page left.
Then slab, metadata and arena are unchanged. -/
theorem reachable_alloc_page (ha : a.Ok) (hr : (slabSystem a).Reachable s) (hc : c < numSizeClasses)
    (ho : o < 2 ^ 16) :
    (∃ b, s.slab.allocNeedsPage c = .ok b ∧ (b = true ↔ AllFull a s c)) ∧
    ∃ r, s.slab.alloc s.mem c a o = .ok r ∧
      (a.nextFreePage r.2.1 ≠ a.nextFreePage s.mem → AllFull a s c) ∧
      (r.2.2 = 0 ↔ AllFull a s c ∧ pagesPerArena ≤ a.nextFreePage s.mem) ∧
      (r.2.2 = 0 → r = (s.slab, s.mem, 0)) := by
  obtain ⟨g, h⟩ := reachable_slabState ha hr
  refine ⟨h.allocNeedsPage_iff hc, ?_⟩
  rw [← h.parts_nil_iff]
  rcases h.inv.alloc_spec hc ho () with ⟨hnil, hfull, hrun⟩ | ⟨s', m', g', i, j, hrun, hroom, _, _, heq⟩
  · refine ⟨_, hrun, fun _ => hnil, ?_, fun _ => rfl⟩
    exact ⟨fun _ => ⟨hnil, hfull⟩, fun _ => rfl⟩
  · have hp : a.slotAddr i c j ≠ 0 := slotAddr_ne_zero ha
    refine ⟨_, hrun, fun hmove => ?_, ⟨fun hnull => absurd hnull hp, ?_⟩, fun hnull => absurd hnull hp⟩
    · by_contra hne
      exact hmove (h.inv.nextFreePage_listed hne heq)
    · rintro ⟨hnil, hfull⟩
      rcases hroom with hlt | hne
      · exact absurd hfull (Nat.not_le_of_lt hlt)
      · exact absurd hnil hne

/-- The arena at 2 MB with one slot of the smallest class handed out. -/
theorem reachable_alloc_page_slot : ∃ a s e, a = ⟨2097152, 2097152⟩ ∧ s.live = [e] ∧
    (∃ b, s.slab.allocNeedsPage 0 = .ok b ∧ (b = true ↔ AllFull a s 0)) ∧
    ∃ r, s.slab.alloc s.mem 0 a 7 = .ok r ∧
      (a.nextFreePage r.2.1 ≠ a.nextFreePage s.mem → AllFull a s 0) ∧
      (r.2.2 = 0 ↔ AllFull a s 0 ∧ pagesPerArena ≤ a.nextFreePage s.mem) ∧
      (r.2.2 = 0 → r = (s.slab, s.mem, 0)) := by
  have ha : Arena.Ok ⟨2097152, 2097152⟩ := ⟨by decide, by decide, rfl, by decide⟩
  obtain ⟨s, e, hlive, _, hr⟩ := exists_live ha
  exact ⟨_, s, e, rfl, hlive, reachable_alloc_page ha hr (by decide) (by decide)⟩

end FerrumAlloc.Slab
