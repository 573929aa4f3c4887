import Mathlib.Data.List.Nodup

/-!
# Requests that are served once

A ledger lists the requests that were accepted, those that were executed and those that were dropped,
each in its order. `ExactlyOnce` says that every accepted request is in exactly one place, once: it was
executed, it was dropped, or it waits. `InOrder` says that no request of one kind is executed before
an earlier accepted one of another kind.
-/

namespace Bdt.Base

open List

variable {α : Type*}

structure Ledger (α : Type*) where
  accepted : List α := []
  executed : List α := []
  dropped : List α := []

namespace Ledger

def accept (L : Ledger α) (x : α) : Ledger α := { L with accepted := L.accepted ++ [x] }

def execute (L : Ledger α) (x : α) : Ledger α := { L with executed := L.executed ++ [x] }

def drop (L : Ledger α) (xs : List α) : Ledger α := { L with dropped := L.dropped ++ xs }

/-- Every accepted request was executed, was dropped or waits, once. -/
structure ExactlyOnce (L : Ledger α) (waiting : List α) : Prop where
  nodup : L.accepted.Nodup
  perm : (L.executed ++ L.dropped ++ waiting).Perm L.accepted

variable {L : Ledger α} {waiting rest : List α} {x : α}

theorem exactlyOnce_nil : ({} : Ledger α).ExactlyOnce [] :=
  ⟨nodup_nil, List.Perm.nil⟩

theorem ExactlyOnce.accept (h : L.ExactlyOnce waiting) (hfresh : x ∉ L.accepted)
    (hperm : rest.Perm (x :: waiting)) : (L.accept x).ExactlyOnce rest := by
  refine ⟨h.nodup.append (nodup_singleton x) ?_, ?_⟩
  · intro y hy hyx
    exact hfresh (mem_singleton.mp hyx ▸ hy)
  calc (L.executed ++ L.dropped ++ rest).Perm (L.executed ++ L.dropped ++ (x :: waiting)) :=
        hperm.append_left _
    _ |>.Perm (x :: (L.executed ++ L.dropped ++ waiting)) := perm_middle
    _ |>.Perm (x :: L.accepted) := h.perm.cons x
    _ |>.Perm (L.accepted ++ [x]) := (perm_append_singleton x _).symm

theorem ExactlyOnce.execute (h : L.ExactlyOnce (x :: rest)) : (L.execute x).ExactlyOnce rest := by
  refine ⟨h.nodup, ?_⟩
  show (L.executed ++ [x] ++ L.dropped ++ rest).Perm L.accepted
  refine Perm.trans ?_ h.perm
  rw [append_assoc, append_assoc, append_assoc]
  refine List.Perm.append_left _ ?_
  rw [singleton_append]
  exact perm_middle.symm

section

variable (h : L.ExactlyOnce waiting)
include h

theorem ExactlyOnce.drop : (L.drop waiting).ExactlyOnce [] := by
  refine ⟨h.nodup, ?_⟩
  show (L.executed ++ (L.dropped ++ waiting) ++ []).Perm L.accepted
  rw [append_nil, ← append_assoc]
  exact h.perm

theorem ExactlyOnce.mem_executed (hdropped : L.dropped = [])
    (hx : x ∈ L.accepted) (hnot : x ∉ waiting) : x ∈ L.executed := by
  have hmem := h.perm.mem_iff.mpr hx
  rw [hdropped, append_nil] at hmem
  exact (mem_append.mp hmem).resolve_right hnot

theorem ExactlyOnce.accepted_of_executed (hx : x ∈ L.executed) : x ∈ L.accepted :=
  h.perm.mem_iff.mp (mem_append_left _ (mem_append_left _ hx))

theorem ExactlyOnce.accepted_of_waiting (hx : x ∈ waiting) : x ∈ L.accepted :=
  h.perm.mem_iff.mp (mem_append_right _ hx)

end

/-! ## Order -/

variable (first later : α → Prop)

/-- All requests of the first kind that were accepted before this one are executed. -/
def Ready (L : Ledger α) (u : α) : Prop :=
  later u → ∀ a, first a → [a, u].Sublist L.accepted → a ∈ L.executed

/-- No request of the later kind was executed before an earlier accepted one of the first kind. -/
def InOrder (L : Ledger α) : Prop :=
  ∀ done u rest, L.executed = done ++ u :: rest → later u →
    ∀ a, first a → [a, u].Sublist L.accepted → a ∈ done

variable {first later}

theorem inOrder_nil : InOrder first later ({} : Ledger α) := by
  intro done u rest heq
  cases done <;> cases heq

/-- Only the last request of a list comes behind all the others. -/
theorem before_of_append {a u : α} (hu : u ∈ L.accepted) (hfresh : x ∉ L.accepted)
    (h : [a, u].Sublist (L.accepted ++ [x])) : [a, u].Sublist L.accepted := by
  obtain ⟨front, back, heq, hfront, hback⟩ := sublist_append_iff.mp h
  rcases eq_nil_or_concat back with rfl | ⟨mid, last, rfl⟩
  · rw [append_nil] at heq
    exact heq ▸ hfront
  have heq' : [a] ++ [u] = (front ++ mid) ++ [last] := by
    rw [concat_eq_append] at heq
    rw [append_assoc]
    exact heq
  obtain rfl := (cons.inj (append_inj' heq' rfl).2).1
  have hux : u ∈ [x] := hback.subset (by rw [concat_eq_append]; simp)
  exact absurd (mem_singleton.mp hux ▸ hu) hfresh

theorem Ready.accept {u : α} (h : Ready first later L u) (hu : u ∈ L.accepted)
    (hfresh : x ∉ L.accepted) : Ready first later (L.accept x) u :=
  fun hlater a ha hbefore => h hlater a ha (before_of_append hu hfresh hbefore)

theorem InOrder.accept (h : InOrder first later L) (hmem : ∀ u ∈ L.executed, u ∈ L.accepted)
    (hfresh : x ∉ L.accepted) : InOrder first later (L.accept x) := by
  intro done u rest heq hlater a ha hbefore
  refine h done u rest heq hlater a ha (before_of_append (hmem u ?_) hfresh hbefore)
  show u ∈ (L.accept x).executed
  rw [heq]
  exact mem_append_right _ mem_cons_self

theorem InOrder.execute (h : InOrder first later L) (hready : Ready first later L x) :
    InOrder first later (L.execute x) := by
  intro done u rest heq hlater a ha hbefore
  rcases eq_nil_or_concat rest with rfl | ⟨rest, last, rfl⟩
  · obtain ⟨rfl, hxu⟩ := append_inj' (heq : L.executed ++ [x] = done ++ [u]) rfl
    obtain rfl := (cons.inj hxu).1
    exact hready hlater a ha hbefore
  have heq' : L.executed ++ [x] = (done ++ u :: rest) ++ [last] := by
    rw [concat_eq_append] at heq
    rw [append_assoc, cons_append]
    exact heq
  exact h done u rest (append_inj' heq' rfl).1 hlater a ha hbefore

end Ledger

end Bdt.Base
