import Mathlib.Data.List.Zip

/-!
# Two queues that are matched

Values arrive on two sides. One that arrives is paired with the first that waits on the other side,
or waits itself. `Matched` says that the pairs are those of two lists in their order, and that what is
left waits on one side only.
-/

namespace Bdt.Base

open List

variable {α β : Type}

/-- The values that wait, and the pairs in the order in which they were made. -/
structure Matching (α β : Type) where
  lefts : List α := []
  rights : List β := []
  pairs : List (α × β) := []

namespace Matching

def addLeft (m : Matching α β) (a : α) : Matching α β :=
  match m.rights with
  | b :: rights => { m with rights, pairs := m.pairs ++ [(a, b)] }
  | [] => { m with lefts := m.lefts ++ [a] }

def addRight (m : Matching α β) (b : β) : Matching α β :=
  match m.lefts with
  | a :: lefts => { m with lefts, pairs := m.pairs ++ [(a, b)] }
  | [] => { m with rights := m.rights ++ [b] }

end Matching

/-- What was paired and what waits are the values that arrived on the two sides. -/
structure Matched (arrivedLeft : List α) (arrivedRight : List β) (m : Matching α β) : Prop where
  oneSide : m.lefts = [] ∨ m.rights = []
  left : arrivedLeft = m.pairs.map (·.1) ++ m.lefts
  right : arrivedRight = m.pairs.map (·.2) ++ m.rights

variable {arrivedLeft : List α} {arrivedRight : List β} {m : Matching α β}

theorem matched_nil : Matched ([] : List α) ([] : List β) {} :=
  ⟨.inl rfl, rfl, rfl⟩

variable (h : Matched arrivedLeft arrivedRight m)
include h

theorem Matched.addLeft (a : α) : Matched (arrivedLeft ++ [a]) arrivedRight (m.addLeft a) := by
  obtain ⟨honeSide, hleft, hright⟩ := h
  unfold Matching.addLeft
  split
  case h_1 b rights hwaiting =>
    have hnone : m.lefts = [] := honeSide.resolve_right (by rw [hwaiting]; nofun)
    refine ⟨.inl hnone, ?_, ?_⟩
    · rw [hleft, hnone, append_nil, map_append]
      exact (append_nil _).symm
    · rw [hright, hwaiting, map_append, append_assoc]
      rfl
  case h_2 hwaiting =>
    exact ⟨.inr hwaiting, by rw [hleft, append_assoc], hright⟩

theorem Matched.addRight (b : β) : Matched arrivedLeft (arrivedRight ++ [b]) (m.addRight b) := by
  obtain ⟨honeSide, hleft, hright⟩ := h
  unfold Matching.addRight
  split
  case h_1 a lefts hwaiting =>
    have hnone : m.rights = [] := honeSide.resolve_left (by rw [hwaiting]; nofun)
    refine ⟨.inr hnone, ?_, ?_⟩
    · rw [hleft, hwaiting, map_append, append_assoc]
      rfl
    · rw [hright, hnone, append_nil, map_append]
      exact (append_nil _).symm
  case h_2 hwaiting =>
    exact ⟨.inl hwaiting, hleft, by rw [hright, append_assoc]⟩

/-- The first of one side is paired with the first of the other, and so on. -/
theorem Matched.pairs_eq : m.pairs = arrivedLeft.zip arrivedRight := by
  have hpairs : (m.pairs.map (·.1)).zip (m.pairs.map (·.2)) = m.pairs := by
    rw [zip_map', List.map_id']
  have hrest : m.lefts.zip m.rights = [] := by
    rcases h.oneSide with hnone | hnone
    · rw [hnone, zip_nil_left]
    · rw [hnone, zip_nil_right]
  rw [h.left, h.right, zip_append (by rw [length_map, length_map]), hpairs, hrest, append_nil]

/-- What waits are the values that have arrived after the last pair. -/
theorem Matched.lefts_eq : m.lefts = arrivedLeft.drop arrivedRight.length := by
  rw [h.left, h.right, length_append, length_map]
  rcases h.oneSide with hnone | hnone
  · rw [hnone, append_nil, drop_eq_nil_of_le]
    rw [length_map]
    exact Nat.le_add_right _ _
  · rw [hnone, length_nil, Nat.add_zero]
    exact (drop_left' (length_map _)).symm

theorem Matched.rights_eq : m.rights = arrivedRight.drop arrivedLeft.length := by
  rw [h.left, h.right, length_append, length_map]
  rcases h.oneSide with hnone | hnone
  · rw [hnone, length_nil, Nat.add_zero]
    exact (drop_left' (length_map _)).symm
  · rw [hnone, append_nil, drop_eq_nil_of_le]
    rw [length_map]
    exact Nat.le_add_right _ _

end Bdt.Base
