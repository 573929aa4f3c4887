import Mathlib.Tactic.Common

/-!
# Maps that keep the order of insertion

A map is the list of its entries in the order in which the keys came. `mapSet` leaves a key where it
is, and puts a new one at the end. `mapGet_set` and `mapGet_delete` say what the operations do to what
is found.
-/

namespace Bdt.Base

variable {K V : Type*} [DecidableEq K] {entries : List (K × V)} {key other : K}

/-- The value of a key. -/
def mapGet (entries : List (K × V)) (key : K) : Option V :=
  (entries.find? fun entry => entry.1 = key).map (·.2)

def mapSet (entries : List (K × V)) (key : K) (value : V) : List (K × V) :=
  if (mapGet entries key).isSome then
    entries.map fun entry => if entry.1 = key then (key, value) else entry
  else entries ++ [(key, value)]

def mapDelete (entries : List (K × V)) (key : K) : List (K × V) :=
  entries.filter fun entry => entry.1 ≠ key

@[simp] theorem mapGet_nil (key : K) : mapGet ([] : List (K × V)) key = none := rfl

theorem mapGet_cons (entry : K × V) (entries : List (K × V)) (key : K) :
    mapGet (entry :: entries) key = if entry.1 = key then some entry.2 else mapGet entries key := by
  unfold mapGet
  rw [List.find?_cons]
  by_cases heq : entry.1 = key <;> simp [heq]

theorem mapGet_append (entries more : List (K × V)) (key : K) :
    mapGet (entries ++ more) key = (mapGet entries key).or (mapGet more key) := by
  induction entries with
  | nil => rfl
  | cons _ _ ih =>
    rw [List.cons_append, mapGet_cons, mapGet_cons, ih]
    split <;> rfl

section

variable (entries : List (K × V)) (key other : K)

theorem mapGet_replace (value : V) :
    mapGet (entries.map fun entry => if entry.1 = key then (key, value) else entry) other =
      if key = other then (mapGet entries other).map fun _ => value else mapGet entries other := by
  induction entries with
  | nil => by_cases heq : key = other <;> simp [heq]
  | cons entry _ ih =>
    rw [List.map_cons, mapGet_cons, mapGet_cons, ih]
    by_cases hkey : entry.1 = key <;> by_cases heq : key = other <;>
      by_cases hother : entry.1 = other <;> simp_all

theorem mapGet_set (value : V) :
    mapGet (mapSet entries key value) other =
      if key = other then some value else mapGet entries other := by
  unfold mapSet
  split
  case isTrue hsome =>
    rw [mapGet_replace]
    obtain ⟨old, hold⟩ := Option.isSome_iff_exists.mp hsome
    by_cases heq : key = other
    · subst heq
      rw [if_pos rfl, if_pos rfl, hold]
      rfl
    · rw [if_neg heq, if_neg heq]
  case isFalse hnone =>
  rw [Option.not_isSome_iff_eq_none] at hnone
  rw [mapGet_append, mapGet_cons, mapGet_nil]
  by_cases heq : key = other
  · subst heq
    rw [hnone, if_pos rfl]
    rfl
  · rw [if_neg heq, if_neg heq, Option.or_none]

theorem mapGet_delete :
    mapGet (mapDelete entries key) other = if key = other then none else mapGet entries other := by
  unfold mapDelete
  induction entries with
  | nil => by_cases heq : key = other <;> simp [heq]
  | cons entry =>
    by_cases hkey : entry.1 = key <;> by_cases heq : key = other <;>
      by_cases hother : entry.1 = other <;> simp_all [mapGet_cons]

end

theorem mem_of_mapGet {value : V} (h : mapGet entries key = some value) : (key, value) ∈ entries := by
  obtain ⟨entry, hfind, rfl⟩ := Option.map_eq_some_iff.mp h
  have hkey := of_decide_eq_true (List.find?_some (p := fun entry : K × V => entry.1 = key) hfind)
  exact hkey ▸ List.mem_of_find?_eq_some hfind

end Bdt.Base
