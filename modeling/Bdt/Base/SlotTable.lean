import Mathlib.Data.Finset.Card

/-!
# Tables of slots

A table is a map from places to what they hold, of which the places below a limit are in use.
Values are put into the table one after the other: `nextFree` goes on to the next free slot, from
where the last one was put. As long as every slot below that place is used (`UsedBelow`), it finds a
slot below the limit exactly if there is a free one.
-/

namespace Bdt.Base

variable {α : Type*}

/-- The free slots below the limit. -/
def freeSlots (limit : Nat) (slots : Nat → Option α) : Finset Nat :=
  (Finset.range limit).filter fun i => (slots i).isNone

/-- The first free slot from a place on, among the `left` slots from there. -/
def nextFree (slots : Nat → Option α) : (left pos : Nat) → Nat
  | 0, pos => pos
  | left + 1, pos =>
    match slots pos with
    | none => pos
    | some _ => nextFree slots left (pos + 1)

/-- A value is put into a slot. -/
def put (slots : Nat → Option α) (i : Nat) (value : α) : Nat → Option α :=
  fun j => if j = i then some value else slots j

/-- Every slot before a place holds something. -/
def UsedBelow (slots : Nat → Option α) (pos : Nat) : Prop :=
  ∀ i < pos, slots i ≠ none

variable {slots : Nat → Option α} {limit left pos i j : Nat} {value : α}

@[simp] theorem put_self : put slots i value i = some value :=
  if_pos rfl

theorem put_of_ne (h : j ≠ i) : put slots i value j = slots j :=
  if_neg h

theorem put_eq_some {other : α} :
    put slots i value j = some other ↔ j = i ∧ value = other ∨ j ≠ i ∧ slots j = some other := by
  by_cases h : j = i
  · simp [put, h]
  · simp [put, h]

theorem mem_freeSlots : i ∈ freeSlots limit slots ↔ i < limit ∧ slots i = none := by
  simp [freeSlots]

theorem le_nextFree : pos ≤ nextFree slots left pos := by
  induction left generalizing pos with
  | zero => exact Nat.le_refl pos
  | succ _ ih =>
    unfold nextFree
    cases slots pos with
    | none => exact Nat.le_refl pos
    | some => exact (Nat.le_succ pos).trans ih

theorem nextFree_le : nextFree slots left pos ≤ pos + left := by
  induction left generalizing pos with
  | zero => exact Nat.le_refl pos
  | succ _ ih =>
    unfold nextFree
    cases slots pos with
    | none => exact Nat.le_add_right ..
    | some => exact ih.trans (by omega)

theorem used_below_nextFree (h : UsedBelow slots pos) :
    UsedBelow slots (nextFree slots left pos) := by
  induction left generalizing pos with
  | zero => exact h
  | succ _ ih =>
    unfold nextFree
    cases hslot : slots pos with
    | none => exact h
    | some =>
      apply ih
      intro i hi
      obtain hi | rfl := Nat.lt_or_eq_of_le (Nat.le_of_lt_succ hi)
      · exact h i hi
      · simp [hslot]

theorem nextFree_free (h : nextFree slots left pos < pos + left) :
    slots (nextFree slots left pos) = none := by
  induction left generalizing pos with
  | zero => exact absurd h (Nat.lt_irrefl pos)
  | succ _ ih =>
    unfold nextFree at h ⊢
    cases hslot : slots pos with
    | none => exact hslot
    | some =>
      rw [hslot] at h
      exact ih (by dsimp only at h; omega)

theorem nextFree_free_of_lt (slots : Nat → Option α) (limit pos : Nat)
    (h : nextFree slots (limit - pos) pos < limit) :
    slots (nextFree slots (limit - pos) pos) = none := by
  exact nextFree_free (by omega)

theorem nextFree_lt (hused : UsedBelow slots pos) (hpos : pos ≤ limit)
    (hfree : (freeSlots limit slots).Nonempty) : nextFree slots (limit - pos) pos < limit := by
  obtain ⟨i, hi⟩ := hfree
  rw [mem_freeSlots] at hi
  by_contra hlimit
  exact used_below_nextFree hused i (Nat.lt_of_lt_of_le hi.1 (Nat.le_of_not_lt hlimit)) hi.2

/-- In a full table, the place after its last slot is found. -/
theorem nextFree_full (hpos : pos ≤ limit) (hfull : freeSlots limit slots = ∅) :
    nextFree slots (limit - pos) pos = limit := by
  refine Nat.le_antisymm (nextFree_le.trans (by omega)) (Nat.le_of_not_lt fun hlt => ?_)
  have hfree : nextFree slots (limit - pos) pos ∈ freeSlots limit slots :=
    mem_freeSlots.mpr ⟨hlt, nextFree_free (by omega)⟩
  rw [hfull] at hfree
  exact absurd hfree (Finset.notMem_empty _)

/-- A value that is put into the table takes one free slot. -/
theorem card_freeSlots_put (value : α) (hi : i < limit) (hfree : slots i = none) :
    (freeSlots limit (put slots i value)).card + 1 = (freeSlots limit slots).card := by
  have herase : freeSlots limit (put slots i value) = (freeSlots limit slots).erase i := by
    ext j
    rw [Finset.mem_erase, mem_freeSlots, mem_freeSlots]
    by_cases hj : j = i
    · simp [hj]
    · simp [hj, put_of_ne hj]
  rw [herase, Finset.card_erase_add_one (mem_freeSlots.mpr ⟨hi, hfree⟩)]

theorem UsedBelow.put_next (h : UsedBelow slots pos) (value : α) :
    UsedBelow (put slots (nextFree slots left pos) value) (nextFree slots left pos + 1) := by
  intro i hi
  by_cases hself : i = nextFree slots left pos
  · simp [hself]
  · rw [put_of_ne hself]
    have hused : UsedBelow slots (nextFree slots left pos) := used_below_nextFree h
    exact hused i (by omega)

end Bdt.Base
