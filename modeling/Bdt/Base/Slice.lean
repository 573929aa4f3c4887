import Mathlib.Data.List.Basic

/-!
# Parts of a stream

`Slice whole offset part` says that `part` is what `whole` holds from `offset` on. It survives when
`whole` grows, it passes to the parts of `part`, and a slice that starts where a prefix of `whole`
ends makes the prefix longer (`Slice.prefix_append`).
-/

namespace Bdt.Base

variable {α : Type*} {whole part : List α} {offset : Nat}

/-- `whole` holds `part` at `offset`. -/
def Slice (whole : List α) (offset : Nat) (part : List α) : Prop :=
  ∀ i < part.length, whole[offset + i]? = part[i]?

theorem Slice.append_right (front part : List α) : Slice (front ++ part) front.length part := by
  intro i _
  rw [List.getElem?_append_right (by omega), Nat.add_sub_cancel_left]

theorem Slice.mono (h : Slice whole offset part) (more : List α) :
    Slice (whole ++ more) offset part := by
  intro i hi
  have hpart := h i hi
  rw [List.getElem?_eq_getElem hi] at hpart
  obtain ⟨hlt, _⟩ := List.getElem?_eq_some_iff.mp hpart
  rw [List.getElem?_append_left hlt, h i hi]

/-- A slice of `count` elements from `skip` on. -/
theorem Slice.drop_take (h : Slice whole offset part) (skip count : Nat) :
    Slice whole (offset + skip) ((part.drop skip).take count) := by
  intro i hi
  rw [List.length_take, List.length_drop] at hi
  rw [List.getElem?_take_of_lt (by omega), List.getElem?_drop, Nat.add_assoc]
  exact h (skip + i) (by omega)

theorem Slice.length_le (h : Slice whole offset part) (hne : part ≠ []) :
    offset + part.length ≤ whole.length := by
  have hpos : 0 < part.length := List.length_pos_iff.mpr hne
  have hlast := h (part.length - 1) (by omega)
  rw [List.getElem?_eq_getElem (show part.length - 1 < part.length by omega)] at hlast
  obtain ⟨hlt, _⟩ := List.getElem?_eq_some_iff.mp hlast
  omega

theorem Slice.prefix (h : Slice whole 0 part) : part <+: whole := by
  refine List.prefix_iff_getElem?.mpr fun i hi => ?_
  have := h i hi
  rwa [Nat.zero_add, List.getElem?_eq_getElem hi] at this

end Bdt.Base
