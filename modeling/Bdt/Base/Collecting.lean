import Mathlib.Data.List.Nodup

/-!
# Lists that take up what is new

Values are added to a list one by one, and one that is the same as a value in the list does not make
it longer. All of them are in the list, in their order, exactly when the list has grown by each of
them, and that is when no two of them are the same.
-/

namespace Bdt.Base

open List

/-- `add` puts a value behind a list unless there is one that is the same. -/
structure Collects {α : Type} (same : α → α → Prop) (add : List α → α → List α) : Prop where
  fresh : ∀ {list value}, (∀ other ∈ list, ¬ same other value) → add list value = list ++ [value]
  known : ∀ {list value other}, other ∈ list → same other value →
    (add list value).length = list.length

namespace Collects

variable {α : Type} {same : α → α → Prop} {add : List α → α → List α}

variable (h : Collects same add)
include h

theorem length_add_le (list : List α) (value : α) : (add list value).length ≤ list.length + 1 := by
  by_cases hknown : ∃ other ∈ list, same other value
  · obtain ⟨other, hmem, hsame⟩ := hknown
    rw [h.known hmem hsame]
    exact Nat.le_succ _
  · rw [h.fresh fun other hmem hsame => hknown ⟨other, hmem, hsame⟩, length_append]
    exact Nat.le_refl _

theorem length_foldl_le (values list : List α) :
    (values.foldl add list).length ≤ list.length + values.length := by
  induction values generalizing list with
  | nil => exact Nat.le_refl _
  | cons value _ ih =>
    have hadd := h.length_add_le list value
    have hrest := ih (add list value)
    rw [foldl_cons, length_cons]
    omega

theorem le_length_foldl (values list : List α) : list.length ≤ (values.foldl add list).length := by
  induction values generalizing list with
  | nil => exact Nat.le_refl _
  | cons value _ ih =>
    refine Nat.le_trans ?_ (ih (add list value))
    by_cases hknown : ∃ other ∈ list, same other value
    · obtain ⟨other, hmem, hsame⟩ := hknown
      exact Nat.le_of_eq (h.known hmem hsame).symm
    · rw [h.fresh fun other hmem hsame => hknown ⟨other, hmem, hsame⟩, length_append]
      exact Nat.le_add_right _ _

/-- Values of which no two are the same come behind the list. -/
theorem foldl_eq (values list : List α) (hnew : (list ++ values).Pairwise fun a b => ¬ same a b) :
    values.foldl add list = list ++ values := by
  induction values generalizing list with
  | nil => exact (append_nil list).symm
  | cons value _ ih =>
    obtain ⟨-, -, hcross⟩ := pairwise_append.mp hnew
    rw [foldl_cons, h.fresh fun other hmem => hcross other hmem value mem_cons_self, ih]
    · rw [append_assoc]
      rfl
    · rwa [append_assoc]

/-- A list that has grown by every value has them all, and no two of them are the same. -/
theorem pairwise_of_length (values list : List α) (hlist : list.Pairwise fun a b => ¬ same a b)
    (hlength : (values.foldl add list).length = list.length + values.length) :
    (list ++ values).Pairwise fun a b => ¬ same a b := by
  induction values generalizing list with
  | nil => rwa [append_nil]
  | cons value values ih =>
    have hrest := h.length_foldl_le values (add list value)
    rw [foldl_cons, length_cons] at hlength
    have hfresh : ∀ other ∈ list, ¬ same other value := by
      intro other hmem hsame
      have hknown := h.known hmem hsame
      omega
    have hadd := h.fresh hfresh
    have hgrown : (list ++ [value]).length = list.length + 1 := by
      rw [length_append, length_singleton]
    have hall := ih (list ++ [value])
      (pairwise_append.mpr ⟨hlist, pairwise_singleton _ _, fun other hmem v hv => by
        rw [mem_singleton.mp hv]
        exact hfresh other hmem⟩) (by
      rw [← hadd, hlength, hadd, hgrown]
      omega)
    rwa [append_assoc] at hall

/-- The list has all values behind it exactly when no two of them are the same. -/
theorem length_foldl_eq_iff (values : List α) :
    (values.foldl add []).length = values.length ↔ values.Pairwise fun a b => ¬ same a b := by
  constructor
  · intro hlength
    have hall := h.pairwise_of_length values [] .nil (by
      rw [hlength, length_nil, Nat.zero_add])
    rwa [nil_append] at hall
  · intro hpairwise
    rw [h.foldl_eq values [] (by rwa [nil_append]), nil_append]

end Collects

/-- A value that is not the same as one in the list comes behind it. -/
def addNew {α : Type} (same : α → α → Bool) (list : List α) (value : α) : List α :=
  if list.any (same · value) then list else list ++ [value]

theorem collects_addNew {α : Type} (same : α → α → Bool) :
    Collects (fun a b => same a b = true) (addNew same) where
  fresh := by
    intro list value hnew
    have hany : ¬ list.any (same · value) = true := by
      intro hany
      obtain ⟨other, hmem, hsame⟩ := any_eq_true.mp hany
      exact hnew other hmem hsame
    rw [addNew, if_neg hany]
  known := by
    intro list value other hmem hsame
    rw [addNew, if_pos (any_eq_true.mpr ⟨other, hmem, hsame⟩)]

theorem mem_foldl_addNew {α : Type} {same : α → α → Bool} {values list : List α} {value : α}
    (h : value ∈ values.foldl (addNew same) list) : value ∈ list ∨ value ∈ values := by
  induction values generalizing list with
  | nil => exact .inl h
  | cons _ _ ih =>
    rcases ih h with hlist | hvalues
    · unfold addNew at hlist
      split at hlist
      case isTrue => exact .inl hlist
      case isFalse =>
      rcases mem_append.mp hlist with hlist | hhead
      · exact .inl hlist
      · exact .inr (mem_cons.mpr (.inl (mem_singleton.mp hhead)))
    · exact .inr (mem_cons_of_mem _ hvalues)

variable {α κ : Type} [DecidableEq κ] {key : α → κ}

/-- The first value with a key is the one that stays. -/
theorem find?_foldl_addNew (values list : List α) (k : κ) :
    (values.foldl (addNew fun a b => key a = key b) list).find? (key · = k) =
      (list ++ values).find? (key · = k) := by
  induction values generalizing list with
  | nil => rw [append_nil]; rfl
  | cons _ _ ih =>
    rw [foldl_cons, ih, addNew]
    split
    case isTrue hknown =>
      obtain ⟨other, hother, hsame⟩ := any_eq_true.mp hknown
      rw [find?_append, find?_append, find?_cons]
      split
      case h_1 hk =>
        have hfound : (list.find? (key · = k)).isSome :=
          find?_isSome.mpr ⟨other, hother, by grind⟩
        obtain ⟨first, hfirst⟩ := Option.isSome_iff_exists.mp hfound
        rw [hfirst]
        rfl
      case h_2 => rfl
    case isFalse => rw [append_assoc]; rfl

theorem pairwise_foldl_addNew (values : List α) {list : List α} (h : (list.map key).Nodup) :
    ((values.foldl (addNew fun a b => key a = key b) list).map key).Nodup := by
  induction values generalizing list with
  | nil => exact h
  | cons _ _ ih =>
    refine ih ?_
    rw [addNew]
    split
    case isTrue => exact h
    case isFalse hnew =>
      rw [map_append, nodup_append]
      refine ⟨h, pairwise_singleton .., ?_⟩
      simp at hnew ⊢
      grind

end Bdt.Base
