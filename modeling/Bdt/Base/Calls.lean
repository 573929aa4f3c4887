import Mathlib.Algebra.Order.BigOperators.Group.List
import Mathlib.Algebra.Order.Ring.Int

/-!
# Calls in flight

Several calls run at the same time, in several threads or one inside the other. A call is the list
of the actions that it still has to do. A step takes the first action off one of the calls, and may
put further actions in its place (`advanceCall`), so that every interleaving of the calls is a
sequence of steps.

`weight f` adds up a number for each action that is still to be done. An invariant says how the
weights go with the shared state; `weight_begin` and `weight_advance` say how they change.
-/

namespace Bdt.Base

open List

variable {A : Type*} {calls : List (List A)} {i : Nat} {action : A} {rest : List A}

/-- The calls after the first action of one of them, which puts `more` before the rest. -/
def advanceCall (calls : List (List A)) (i : Nat) (more rest : List A) : List (List A) :=
  calls.take i ++ (more ++ rest) :: calls.drop (i + 1)

/-- The sum of `f` over the actions that are still to be done. -/
def weight (f : A → Int) (calls : List (List A)) : Int :=
  (calls.flatten.map f).sum

theorem weight_begin (f : A → Int) (calls : List (List A)) (actions : List A) :
    weight f (calls ++ [actions]) = weight f calls + (actions.map f).sum := by
  unfold weight
  rw [flatten_append, map_append, sum_append, flatten_singleton]

theorem split_call (h : calls[i]? = some (action :: rest)) :
    calls = calls.take i ++ (action :: rest) :: calls.drop (i + 1) := by
  obtain ⟨hlt, hget⟩ := List.getElem?_eq_some_iff.mp h
  rw [← hget, ← drop_eq_getElem_cons hlt, take_append_drop]

theorem weight_advance (f : A → Int) (more : List A) (h : calls[i]? = some (action :: rest)) :
    weight f (advanceCall calls i more rest) + f action = weight f calls + (more.map f).sum := by
  have hsplit := congrArg (weight f) (split_call h)
  unfold weight advanceCall at *
  rw [hsplit]
  simp only [flatten_append, flatten_cons, map_append, map_cons, sum_append, sum_cons]
  omega

variable {actions : List A} {f : A → Int} {p : Nat → List A → Prop} {more : List A} {other : A}

theorem weight_nonneg (hf : ∀ action, 0 ≤ f action) (calls : List (List A)) : 0 ≤ weight f calls := by
  refine sum_nonneg fun value hmem => ?_
  obtain ⟨action, _, rfl⟩ := mem_map.mp hmem
  exact hf action

/-- An action that is still to be done counts in full. -/
theorem le_weight (hf : ∀ action, 0 ≤ f action)
    (hcall : actions ∈ calls) (hmem : action ∈ actions) : f action ≤ weight f calls := by
  have hnonneg : ∀ value ∈ calls.flatten.map f, 0 ≤ value := by
    intro value hvalue
    obtain ⟨other, _, rfl⟩ := mem_map.mp hvalue
    exact hf other
  exact single_le_sum hnonneg _
    (mem_map.mpr ⟨action, mem_flatten.mpr ⟨actions, hcall, hmem⟩, rfl⟩)

theorem exists_of_weight (h : weight f calls ≠ 0) : ∃ action ∈ calls.flatten, f action ≠ 0 := by
  by_contra hnone
  refine h (sum_eq_zero fun value hmem => ?_)
  obtain ⟨action, haction, rfl⟩ := mem_map.mp hmem
  by_contra hne
  exact hnone ⟨action, haction, hne⟩

/-- The actions that are still to be done: what the action leaves, and those that were there. -/
theorem mem_advanceCall : other ∈ (advanceCall calls i more rest).flatten ↔
      other ∈ more ∨ other ∈ (advanceCall calls i [] rest).flatten := by
  unfold advanceCall
  simp only [flatten_append, flatten_cons, mem_append, nil_append]
  tauto

theorem mem_of_advance (h : calls[i]? = some (action :: rest))
    (hmem : other ∈ (advanceCall calls i [] rest).flatten) : other ∈ calls.flatten := by
  have hsplit := split_call h
  unfold advanceCall at hmem
  rw [hsplit, flatten_append, flatten_cons, mem_append, mem_append]
  rw [flatten_append, flatten_cons, nil_append, mem_append, mem_append] at hmem
  exact hmem.imp_right (Or.imp_left (mem_cons_of_mem _))

/-- The actions that were there before are still there, except for the one that was done. -/
theorem mem_or_advance (h : calls[i]? = some (action :: rest)) (hmem : other ∈ calls.flatten) :
    other = action ∨ other ∈ (advanceCall calls i [] rest).flatten := by
  unfold advanceCall
  rw [split_call h, flatten_append, flatten_cons] at hmem
  rw [flatten_append, flatten_cons, nil_append]
  rcases mem_append.mp hmem with hmem | hmem
  · exact .inr (mem_append_left _ hmem)
  rcases mem_append.mp hmem with hmem | hmem
  · exact (mem_cons.mp hmem).imp_right fun hmem =>
      mem_append_right _ (mem_append_left _ hmem)
  · exact .inr (mem_append_right _ (mem_append_right _ hmem))

/-- When an action has the whole weight, no other one has any. -/
theorem others_weightless (hf : ∀ action, 0 ≤ f action)
    (h : calls[i]? = some (action :: rest)) (hle : weight f calls ≤ f action)
    (hmem : other ∈ (advanceCall calls i [] rest).flatten) : f other = 0 := by
  have hweight := weight_advance f [] h
  obtain ⟨actions, hactions, hother⟩ := mem_flatten.mp hmem
  have hpart := le_weight hf hactions hother
  have hnonneg := hf other
  rw [map_nil, sum_nil] at hweight
  omega

/-- What holds of every call goes on to hold, if it holds of what the action leaves. -/
theorem forall_advance {p : List A → Prop} (hall : ∀ actions ∈ calls, p actions)
    (hnext : p (more ++ rest)) : ∀ actions ∈ advanceCall calls i more rest, p actions := by
  intro actions hmem
  rcases mem_append.mp hmem with hmem | hmem
  · exact hall actions (mem_of_mem_take hmem)
  · rcases mem_cons.mp hmem with rfl | hmem
    · exact hnext
    · exact hall actions (mem_of_mem_drop hmem)

/-- What holds of every call holds after one more has begun. -/
theorem forall_begin {p : List A → Prop} (hall : ∀ actions ∈ calls, p actions)
    (hnew : p actions) : ∀ other ∈ calls ++ [actions], p other := by
  intro other hmem
  rcases mem_append.mp hmem with hmem | hmem
  · exact hall other hmem
  · exact mem_singleton.mp hmem ▸ hnew

/-! ## One of the calls is replaced -/

section

variable {B : Type*} {values : List B} {value after : B} (h : values[i]? = some value)
include h

theorem getElem?_set_at (after : B) : (values.set i after)[i]? = some after :=
  getElem?_set_self (List.getElem?_eq_some_iff.mp h).1

theorem mem_set_at (after : B) : after ∈ values.set i after :=
  mem_of_getElem? (getElem?_set_at h after)

theorem set_cases {j : Nat} {found : B} (hfound : (values.set i after)[j]? = some found) :
    i = j ∧ found = after ∨ j ≠ i ∧ values[j]? = some found := by
  by_cases heq : i = j
  · subst heq
    exact .inl ⟨rfl, (Option.some.inj ((getElem?_set_at h after).symm.trans hfound)).symm⟩
  · rw [getElem?_set_ne heq] at hfound
    exact .inr ⟨Ne.symm heq, hfound⟩

end

section

variable (h : calls[i]? = some (action :: rest))
include h

theorem advanceCall_eq_set (more : List A) :
    advanceCall calls i more rest = calls.set i (more ++ rest) := by
  unfold advanceCall
  rw [set_eq_take_append_cons_drop, if_pos (List.getElem?_eq_some_iff.mp h).1]

theorem getElem?_advanceCall (more : List A) :
    (advanceCall calls i more rest)[i]? = some (more ++ rest) := by
  rw [advanceCall_eq_set h, getElem?_set_at h]

theorem length_advanceCall (more : List A) :
    (advanceCall calls i more rest).length = calls.length := by
  rw [advanceCall_eq_set h, length_set]

/-- What holds of the other calls and their numbers holds of all, if it holds of what the action
leaves. -/
theorem each_advance (hall : ∀ j actions, i ≠ j → calls[j]? = some actions → p j actions)
    (hnext : p i (more ++ rest)) :
    ∀ j actions, (advanceCall calls i more rest)[j]? = some actions → p j actions := by
  intro j actions hget
  rw [advanceCall_eq_set h] at hget
  rcases set_cases h hget with ⟨rfl, rfl⟩ | ⟨hne, hget⟩
  · exact hnext
  · exact hall j actions hne.symm hget

end

/-- What holds of every call and its number holds after one more has begun. -/
theorem each_begin (hall : ∀ j actions, calls[j]? = some actions → p j actions)
    (hnew : p calls.length actions) :
    ∀ j other, (calls ++ [actions])[j]? = some other → p j other := by
  intro j other hget
  by_cases hlt : j < calls.length
  · rw [getElem?_append_left hlt] at hget
    exact hall j other hget
  have hle := Nat.le_of_not_lt hlt
  obtain ⟨hlt, -⟩ := List.getElem?_eq_some_iff.mp hget
  rw [length_append, length_singleton] at hlt
  obtain rfl : j = calls.length := by omega
  rw [getElem?_concat_length] at hget
  exact Option.some.inj hget ▸ hnew

end Bdt.Base
