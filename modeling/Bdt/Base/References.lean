import Mathlib.Data.List.Perm.Basic

/-!
# Counted references

Objects that are freed when their last reference is released. A heap is the list of the objects that
were created, each with its count, and a reference is a place in it. `addRef` and `release` have no
result where a program would use an object that was freed.

`Balanced heap references` says that `references` are all the references that someone holds: the
objects that were not freed are those that are held, and each counts its holders. The rules say how
the list of references goes with what is done; `Balanced.perm` passes references on from one holder to
another.
-/

namespace Bdt.Base

open List Option

variable {α : Type*}

/-- An object and the count of its references. -/
structure Counted (α : Type*) where
  value : α
  refCount : Int
  freed : Bool
  deriving DecidableEq

/-- An object that is created, with one reference. -/
def Counted.new (value : α) : Counted α where
  value := value
  refCount := 1
  freed := false

/-- An object that was created and not freed. -/
def live (heap : List (Counted α)) (i : Nat) : Option (Counted α) :=
  heap[i]?.filter (!·.freed)

def addRef (heap : List (Counted α)) (i : Nat) : Option (List (Counted α)) :=
  (live heap i).map fun cell => heap.set i { cell with refCount := cell.refCount + 1 }

def release (heap : List (Counted α)) (i : Nat) : Option (List (Counted α)) :=
  (live heap i).map fun cell =>
    heap.set i { cell with
      refCount := cell.refCount - 1
      freed := cell.refCount - 1 ≤ 0 }

/-- The references are all that there are to the objects of the heap. -/
structure Balanced (heap : List (Counted α)) (references : List Nat) : Prop where
  /-- What is held was created and not freed. -/
  alive : ∀ i ∈ references, ∃ cell, live heap i = some cell
  /-- What is not freed is held. -/
  held : ∀ i cell, live heap i = some cell → i ∈ references
  count : ∀ i cell, live heap i = some cell → cell.refCount = references.count i

/-- An object has more references than someone holds. -/
def Overcounted (heap : List (Counted α)) (references : List Nat) (i : Nat) : Prop :=
  ∃ cell, live heap i = some cell ∧ (references.count i : Int) < cell.refCount

variable {heap next : List (Counted α)} {references : List Nat} {i : Nat} {cell : Counted α}

theorem live_eq_some : live heap i = some cell ↔ heap[i]? = some cell ∧ cell.freed = false := by
  unfold live
  rw [filter_eq_some_iff, Bool.not_eq_true']

theorem live_set (h : live heap i = some cell) (other : Counted α) (j : Nat) :
    live (heap.set i other) j =
      if i = j then (if other.freed then none else some other) else live heap j := by
  unfold live
  by_cases heq : i = j
  · subst heq
    rw [getElem?_set_self (List.getElem?_eq_some_iff.mp (live_eq_some.mp h).1).1, if_pos rfl]
    cases hfreed : other.freed <;> simp [hfreed]
  · rw [getElem?_set_ne heq, if_neg heq]

/-- What an object is, freed or not. -/
def valueAt (heap : List (Counted α)) (i : Nat) : Option α :=
  heap[i]?.map (·.value)

theorem valueAt_live (h : live heap i = some cell) : valueAt heap i = some cell.value :=
  congrArg (Option.map Counted.value) (live_eq_some.mp h).1

theorem valueAt_set (h : live heap i = some cell) (refCount : Int) (freed : Bool) :
    valueAt (heap.set i { cell with refCount, freed }) = valueAt heap := by
  funext j
  unfold valueAt
  by_cases heq : i = j
  · subst heq
    have hcell := (live_eq_some.mp h).1
    rw [getElem?_set_self (List.getElem?_eq_some_iff.mp hcell).1, hcell]
    rfl
  · rw [getElem?_set_ne heq]

theorem valueAt_addRef (hnext : addRef heap i = some next) : valueAt next = valueAt heap := by
  obtain ⟨cell, hcell, rfl⟩ := map_eq_some_iff.mp hnext
  exact valueAt_set hcell _ _

theorem valueAt_release (hnext : release heap i = some next) : valueAt next = valueAt heap := by
  obtain ⟨cell, hcell, rfl⟩ := map_eq_some_iff.mp hnext
  exact valueAt_set hcell _ _

theorem valueAt_alloc (value : α) (h : (valueAt heap i).isSome) :
    valueAt (heap ++ [.new value]) i = valueAt heap i := by
  unfold valueAt at *
  rw [isSome_map, isSome_getElem?] at h
  rw [getElem?_append_left h]

theorem balanced_nil : Balanced ([] : List (Counted α)) [] where
  alive := fun i hmem => nomatch hmem
  held := fun i cell h => nomatch (live_eq_some.mp h).1
  count := fun i cell h => nomatch (live_eq_some.mp h).1

theorem Balanced.perm (h : Balanced heap references) {others : List Nat}
    (hperm : references.Perm others) : Balanced heap others where
  alive := fun i hmem => h.alive i (hperm.mem_iff.mpr hmem)
  held := fun i cell hlive => hperm.mem_iff.mp (h.held i cell hlive)
  count := fun i cell hlive => hperm.count_eq i ▸ h.count i cell hlive

theorem Overcounted.not_balanced (h : Overcounted heap references i) : ¬ Balanced heap references := by
  intro balanced
  obtain ⟨cell, hlive, hlt⟩ := h
  exact Int.ne_of_lt hlt (balanced.count i cell hlive).symm

theorem live_alloc (heap : List (Counted α)) (value : α) (j : Nat) :
    live (heap ++ [.new value]) j = if j = heap.length then some (.new value) else live heap j := by
  split
  case isTrue heq =>
    subst heq
    exact live_eq_some.mpr ⟨getElem?_concat_length, rfl⟩
  case isFalse hne =>
  unfold live
  by_cases hlt : j < heap.length
  · rw [getElem?_append_left hlt]
  · rw [List.getElem?_eq_none (by rw [length_append, length_singleton]; omega),
      List.getElem?_eq_none (Nat.le_of_not_lt hlt)]

theorem Balanced.alloc (h : Balanced heap references) (value : α) :
    Balanced (heap ++ [.new value]) (heap.length :: references) := by
  have hnew : live (heap ++ [.new value]) heap.length = some (.new value) :=
    (live_alloc heap value heap.length).trans (if_pos rfl)
  have hold : ∀ j, j ≠ heap.length → live (heap ++ [.new value]) j = live heap j :=
    fun j hne => (live_alloc heap value j).trans (if_neg hne)
  have hfresh : heap.length ∉ references := by
    intro hmem
    obtain ⟨cell, hlive⟩ := h.alive _ hmem
    obtain ⟨hlt, -⟩ := List.getElem?_eq_some_iff.mp (live_eq_some.mp hlive).1
    exact Nat.lt_irrefl _ hlt
  refine ⟨fun j hmem => ?_, fun j cell hlive => ?_, fun j cell hlive => ?_⟩
  · rcases mem_cons.mp hmem with rfl | hmem
    · exact ⟨_, hnew⟩
    · exact (hold j fun heq => hfresh (heq ▸ hmem)) ▸ h.alive j hmem
  · by_cases heq : j = heap.length
    · exact heq ▸ mem_cons_self
    · exact mem_cons_of_mem _ (h.held j cell (hold j heq ▸ hlive))
  by_cases heq : j = heap.length
  · subst heq
    obtain rfl := some.inj (hnew.symm.trans hlive)
    rw [count_cons_self, count_eq_zero.mpr hfresh]
    rfl
  · rw [count_cons_of_ne fun h => heq h.symm]
    exact h.count j cell (hold j heq ▸ hlive)

theorem Balanced.addRef (h : Balanced heap references) (hnext : addRef heap i = some next) :
    Balanced next (i :: references) := by
  obtain ⟨cell, hcell, rfl⟩ := map_eq_some_iff.mp hnext
  have hfreed := (live_eq_some.mp hcell).2
  have hlive : ∀ j, live (heap.set i { cell with refCount := cell.refCount + 1 }) j =
      if i = j then some { cell with refCount := cell.refCount + 1 } else live heap j := by
    intro j
    rw [live_set hcell]
    simp only [hfreed, Bool.false_eq_true, if_false]
  refine ⟨fun j hmem => ?_, fun j other hother => ?_, fun j other hother => ?_⟩
  · rw [hlive]
    split
    case isTrue => exact ⟨_, rfl⟩
    case isFalse hne => exact h.alive j ((mem_cons.mp hmem).resolve_left fun heq => hne heq.symm)
  · rw [hlive] at hother
    split at hother
    case isTrue heq => exact heq ▸ mem_cons_self
    case isFalse => exact mem_cons_of_mem _ (h.held j other hother)
  rw [hlive] at hother
  split at hother
  case isTrue heq =>
    subst heq
    cases hother
    rw [count_cons_self, h.count i cell hcell]
    rfl
  case isFalse hne =>
    rw [count_cons_of_ne hne]
    exact h.count j other hother

/-- A holder gives its reference back, and the object is freed if that was the last one. -/
theorem Balanced.release (h : Balanced heap (i :: references)) (hnext : release heap i = some next) :
    Balanced next references := by
  obtain ⟨cell, hcell, rfl⟩ := map_eq_some_iff.mp hnext
  have hcount := h.count i cell hcell
  rw [count_cons_self] at hcount
  have hlive := live_set hcell { cell with
    refCount := cell.refCount - 1
    freed := cell.refCount - 1 ≤ 0 }
  have hlast : cell.refCount - 1 ≤ 0 ↔ i ∉ references := by
    rw [← count_eq_zero]
    omega
  refine ⟨fun j hmem => ?_, fun j other hother => ?_, fun j other hother => ?_⟩
  · rw [hlive]
    split
    case isTrue heq =>
      subst heq
      exact ⟨_, if_neg fun hfreed => hlast.mp (of_decide_eq_true hfreed) hmem⟩
    case isFalse => exact h.alive j (mem_cons_of_mem _ hmem)
  · rw [hlive] at hother
    split at hother
    case isTrue heq =>
      subst heq
      split at hother
      case isTrue => cases hother
      case isFalse hkept =>
        by_contra hmem
        exact hkept (decide_eq_true (hlast.mpr hmem))
    case isFalse hne =>
      exact (mem_cons.mp (h.held j other hother)).resolve_left fun heq => hne heq.symm
  rw [hlive] at hother
  split at hother
  case isTrue heq =>
    subst heq
    split at hother
    case isTrue => cases hother
    case isFalse =>
    cases hother
    show cell.refCount - 1 = _
    omega
  case isFalse hne =>
    have hother := h.count j other hother
    rwa [count_cons_of_ne hne] at hother

theorem Balanced.exists_addRef (h : Balanced heap references) (hmem : i ∈ references) :
    ∃ next, Base.addRef heap i = some next ∧ Balanced next (i :: references) := by
  obtain ⟨cell, hcell⟩ := h.alive i hmem
  have hnext := congrArg (Option.map fun cell =>
    heap.set i { cell with refCount := cell.refCount + 1 }) hcell
  exact ⟨_, hnext, h.addRef hnext⟩

theorem Balanced.exists_release (h : Balanced heap (i :: references)) :
    ∃ next, Base.release heap i = some next ∧ Balanced next references := by
  obtain ⟨cell, hcell⟩ := h.alive i mem_cons_self
  have hnext := congrArg (Option.map fun cell =>
    heap.set i { cell with refCount := cell.refCount - 1, freed := cell.refCount - 1 ≤ 0 }) hcell
  exact ⟨_, hnext, h.release hnext⟩

theorem Balanced.not_release (h : Balanced heap references)
    (hnext : Base.release heap i = some next) : ¬ Balanced next references := by
  intro hbalanced
  obtain ⟨cell, hcell, -⟩ := map_eq_some_iff.mp hnext
  obtain ⟨front, back, rfl⟩ := append_of_mem (h.held i cell hcell)
  have hrest := (h.perm perm_middle).release hnext
  obtain ⟨after, hafter⟩ := hbalanced.alive i (mem_append_right _ mem_cons_self)
  have hcount := (hrest.count i after hafter).symm.trans (hbalanced.count i after hafter)
  rw [count_append, count_append, count_cons_self] at hcount
  omega

theorem Balanced.update (h : Balanced heap references) (hcell : live heap i = some cell) (value : α) :
    Balanced (heap.set i { cell with value := value }) references := by
  have hlive : ∀ j, live (heap.set i { cell with value := value }) j =
      if i = j then some { cell with value := value } else live heap j := by
    intro j
    rw [live_set hcell]
    simp only [(live_eq_some.mp hcell).2, Bool.false_eq_true, if_false]
  refine ⟨fun j hmem => ?_, fun j other hother => ?_, fun j other hother => ?_⟩
  · rw [hlive]
    split
    case isTrue => exact ⟨_, rfl⟩
    case isFalse => exact h.alive j hmem
  · rw [hlive] at hother
    split at hother
    case isTrue heq => exact heq ▸ h.held i cell hcell
    case isFalse => exact h.held j other hother
  rw [hlive] at hother
  split at hother
  case isTrue heq =>
    subst heq
    cases hother
    exact h.count i cell hcell
  case isFalse => exact h.count j other hother

theorem Balanced.forget (h : Balanced heap (i :: references)) : Overcounted heap references i := by
  obtain ⟨cell, hcell⟩ := h.alive i mem_cons_self
  have hcount := h.count i cell hcell
  rw [count_cons_self] at hcount
  exact ⟨cell, hcell, by omega⟩

/-- Fewer references are held of an object that has too many. -/
theorem Overcounted.mono (h : Overcounted heap references i) {others : List Nat}
    (hle : others.count i ≤ references.count i) : Overcounted heap others i := by
  obtain ⟨cell, hcell, hlt⟩ := h
  exact ⟨cell, hcell, by omega⟩

/-! What is done with one object leaves the others alone. -/

variable {j : Nat}

theorem live_addRef (hnext : addRef heap i = some next) (h : i ≠ j) :
    live next j = live heap j := by
  obtain ⟨cell, hcell, rfl⟩ := map_eq_some_iff.mp hnext
  rw [live_set hcell, if_neg h]

theorem live_release (hnext : release heap i = some next) (h : i ≠ j) :
    live next j = live heap j := by
  obtain ⟨cell, hcell, rfl⟩ := map_eq_some_iff.mp hnext
  rw [live_set hcell, if_neg h]

theorem Overcounted.release (h : Overcounted heap references i)
    (hnext : release heap j = some next) (hne : j ≠ i) : Overcounted next references i := by
  obtain ⟨cell, hcell, hlt⟩ := h
  exact ⟨cell, (live_release hnext hne).trans hcell, hlt⟩

end Bdt.Base
