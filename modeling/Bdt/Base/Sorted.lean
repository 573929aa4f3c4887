import Mathlib.Tactic.Common
import Mathlib.Data.List.TakeWhile

/-!
# Ordered lists

A linked list that is kept in order by a walk: `insertBy stop x` goes past the elements on which
`stop` is false and puts `x` in front of the first one on which it is true. `insertBy_perm` says
which elements the list then has, and `pairwise_insertBy` that it stays ordered when `stop` decides,
for the elements of the list, whether they come after `x`.
-/

namespace Bdt.Base

open List

variable {α : Type*} {R : α → α → Prop}

/-- Insert `x` in front of the first element that satisfies `stop`. -/
def insertBy (stop : α → Bool) (x : α) (l : List α) : List α :=
  l.takeWhile (fun y => !stop y) ++ x :: l.dropWhile (fun y => !stop y)

theorem insertBy_perm (stop : α → Bool) (x : α) (l : List α) :
    (insertBy stop x l).Perm (x :: l) := by
  have h : (insertBy stop x l).Perm
      (x :: (l.takeWhile (fun y => !stop y) ++ l.dropWhile (fun y => !stop y))) :=
    perm_middle
  rwa [takeWhile_append_dropWhile] at h

variable {l : List α}

variable {x : α}

@[simp] theorem mem_insertBy {stop : α → Bool} {y : α} : y ∈ insertBy stop x l ↔ y = x ∨ y ∈ l := by
  rw [(insertBy_perm stop x l).mem_iff, mem_cons]

/-- An element in front of which the walk does not stop. -/
theorem not_stop_of_mem_takeWhile (stop : α → Bool) {y : α}
    (h : y ∈ l.takeWhile (fun z => !stop z)) : stop y = false := by
  simpa using mem_takeWhile_imp h

/-- In an ordered list, every element from the first one after `x` on comes after `x`. -/
theorem after_of_mem_dropWhile (stop : α → Bool)
    (htrans : ∀ a ∈ l, ∀ b ∈ l, R x a → R a b → R x b) (hl : l.Pairwise R)
    (hstop : ∀ y ∈ l, stop y = true → R x y) :
    ∀ y ∈ l.dropWhile (fun z => !stop z), R x y := by
  induction l with
  | nil => simp
  | cons a l ih =>
    intro y hy
    obtain ⟨ha, hl⟩ := pairwise_cons.mp hl
    cases hs : stop a with
    | false =>
      rw [dropWhile_cons_of_pos (by simp [hs])] at hy
      exact ih (fun b hb c hc => htrans b (by simp [hb]) c (by simp [hc])) hl
        (fun z hz => hstop z (by simp [hz])) y hy
    | true =>
      have hx : R x a := hstop a (by simp) hs
      rw [dropWhile_cons_of_neg (by simp [hs])] at hy
      rcases mem_cons.mp hy with rfl | hy
      · exact hx
      · exact htrans a (by simp) y (by simp [hy]) hx (ha y hy)

/-- An ordered list stays ordered when `stop` tells the elements after `x` from those before it. -/
theorem pairwise_insertBy {stop : α → Bool}
    (htrans : ∀ a ∈ l, ∀ b ∈ l, R x a → R a b → R x b) (hl : l.Pairwise R)
    (hstop : ∀ y ∈ l, stop y = true → R x y) (hgo : ∀ y ∈ l, stop y = false → R y x) :
    (insertBy stop x l).Pairwise R := by
  have hsplit := hl
  rw [← takeWhile_append_dropWhile (p := fun y => !stop y) (l := l)] at hsplit
  obtain ⟨hfront, hback, hcross⟩ := pairwise_append.mp hsplit
  refine pairwise_append.mpr ⟨hfront, ?_, ?_⟩
  · exact pairwise_cons.mpr ⟨after_of_mem_dropWhile stop htrans hl hstop, hback⟩
  intro y hy z hz
  rcases mem_cons.mp hz with rfl | hz
  · exact hgo y ((List.takeWhile_prefix _).subset hy) (not_stop_of_mem_takeWhile stop hy)
  · exact hcross y hy z hz

end Bdt.Base
