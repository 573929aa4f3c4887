import Mathlib.Data.List.Basic

/-!
# Justified histories

A history is a list to whose end entries are added. `Justified ok history` says that every entry was
right when it was added: `ok` holds of the entries before it and of the entry. When more entries
before it never make an entry wrong, a history stays justified if the entries added are right
(`Justified.append`); `Justified.extend` looks at each of the entries added with those before it.
-/

namespace Bdt.Base

variable {α : Type*} {ok : List α → α → Prop} {history more : List α}

/-- Every entry is right after the entries before it. -/
def Justified (ok : List α → α → Prop) (history : List α) : Prop :=
  ∀ front x back, history = front ++ x :: back → ok front x

theorem justified_nil : Justified ok [] := by
  intro front x back h
  cases front <;> cases h

/-- Entries are added one after the other, each right after those before it. -/
theorem Justified.extend (h : Justified ok history)
    (hmore : ∀ front x back, more = front ++ x :: back → ok (history ++ front) x) :
    Justified ok (history ++ more) := by
  intro front x back heq
  rcases List.append_eq_append_iff.mp heq with ⟨between, rfl, hback⟩ | ⟨between, rfl, hback⟩
  · -- the entry is one of those added
    exact hmore between x back hback
  cases between with
  | nil =>
    obtain rfl : more = x :: back := hback.symm
    simpa using hmore [] x back rfl
  | cons y between =>
    obtain ⟨rfl, rfl⟩ := List.cons.inj hback
    exact h front x between rfl

/-- One more entry that is right after all the others. -/
theorem Justified.concat (h : Justified ok history) {x : α} (hx : ok history x) :
    Justified ok (history ++ [x]) := by
  refine h.extend fun front y back heq => ?_
  cases front with
  | nil =>
    obtain ⟨rfl, -⟩ := List.cons.inj heq
    exact (List.append_nil history).symm ▸ hx
  | cons z front =>
    have hnil := (List.cons.inj heq).2
    cases front <;> cases hnil

theorem Justified.append (h : Justified ok history)
    (hmono : ∀ front more x, ok front x → ok (front ++ more) x)
    (hmore : ∀ x ∈ more, ok history x) : Justified ok (history ++ more) :=
  h.extend fun front x _ heq =>
    hmono history front x (hmore x (heq ▸ List.mem_append_right front List.mem_cons_self))

end Bdt.Base
