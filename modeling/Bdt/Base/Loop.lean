import Mathlib.Logic.Relation
import Mathlib.Tactic.Common

/-!
# Loops with an early exit

A C loop whose body either goes round again or leaves is a function into `Flow`. `runLoop`
executes it with a bound on the number of iterations. `Terminates body post` says that some bound is
enough and that the result is one of `post`; `EveryIteration` says something about all the
iterations that go round. Both are followed through a loop one iteration at a time.
`not_terminates_of_invariant` is the argument for a loop that does not end: a set of states that
every iteration goes round in.
-/

namespace Bdt.Base

open Relation

variable {σ α : Type*}

/-- What one execution of a loop body does: go round again, or leave the loop with a result. -/
inductive Flow (σ α : Type*) where
  | again (state : σ)
  | leave (result : α)

/-- Execute a loop body at most `fuel` times. `none` means that the bound was reached. -/
def runLoop (body : σ → Flow σ α) : Nat → σ → Option α
  | 0, _ => none
  | fuel + 1, state =>
    match body state with
    | .again next => runLoop body fuel next
    | .leave result => some result

/-- The loop leaves after finitely many iterations, with a result of `post`. -/
def Terminates (body : σ → Flow σ α) (post : α → Prop) (state : σ) : Prop :=
  ∃ fuel result, runLoop body fuel state = some result ∧ post result

/-- `p` holds of the states before and after each iteration that goes round. -/
def EveryIteration (body : σ → Flow σ α) (p : σ → σ → Prop) (state : σ) : Prop :=
  ∀ s t, ReflTransGen (fun a b => body a = .again b) state s → body s = .again t → p s t

variable {body : σ → Flow σ α} {post : α → Prop} {p : σ → σ → Prop} {state next : σ} {result : α}

theorem runLoop_leave (h : body state = .leave result) (fuel : Nat) :
    runLoop body (fuel + 1) state = some result := by
  simp [runLoop, h]

/-- An iteration that goes round again leaves the rest of the work to the next state. -/
theorem runLoop_again (h : body state = .again next) (fuel : Nat) :
    runLoop body (fuel + 1) state = runLoop body fuel next := by
  simp [runLoop, h]

/-- Termination of a state whose iteration goes round again is termination of the next state. -/
theorem terminates_again (h : body state = .again next) :
    Terminates body post state ↔ Terminates body post next := by
  constructor
  · rintro ⟨fuel, result, hr, hpost⟩
    cases fuel with
    | zero => simp [runLoop] at hr
    | succ fuel => exact ⟨fuel, result, by rwa [runLoop_again h] at hr, hpost⟩
  · rintro ⟨fuel, result, hr, hpost⟩
    exact ⟨fuel + 1, result, by rwa [runLoop_again h], hpost⟩

/-- A state whose iteration leaves terminates, with that result. -/
theorem terminates_leave (h : body state = .leave result) :
    Terminates body post state ↔ post result := by
  constructor
  · rintro ⟨fuel, r, hr, hpost⟩
    cases fuel with
    | zero => simp [runLoop] at hr
    | succ =>
      rw [runLoop_leave h] at hr
      exact Option.some.inj hr ▸ hpost
  · exact fun hpost => ⟨1, result, runLoop_leave h 0, hpost⟩

/-- The iterations from a state that goes round again: its own and those of the next state. -/
theorem everyIteration_again (h : body state = .again next) :
    EveryIteration body p state ↔ p state next ∧ EveryIteration body p next := by
  constructor
  · exact fun hall => ⟨hall state next .refl h, fun s t hs ht => hall s t (.head h hs) ht⟩
  rintro ⟨hfirst, hrest⟩ s t hs ht
  rcases ReflTransGen.cases_head hs with rfl | ⟨u, hu, hs⟩
  · have hnext : next = t := by simpa using h.symm.trans ht
    exact hnext ▸ hfirst
  · have hnext : next = u := by simpa using h.symm.trans hu
    exact hrest s t (hnext ▸ hs) ht

/-- No iteration goes round from a state that leaves. -/
theorem everyIteration_leave (h : body state = .leave result) : EveryIteration body p state := by
  intro s t hs ht
  rcases ReflTransGen.cases_head hs with rfl | ⟨u, hu, _⟩
  · cases h.symm.trans ht
  · cases h.symm.trans hu

/-- A loop does not terminate from a set of states that every iteration goes round in. -/
theorem not_terminates_of_invariant (stuck : σ → Prop)
    (hstep : ∀ state, stuck state → ∃ next, body state = .again next ∧ stuck next)
    (state : σ) (hstuck : stuck state) : ¬ Terminates body post state := by
  rintro ⟨fuel, result, hr, _⟩
  induction fuel generalizing state with
  | zero => simp [runLoop] at hr
  | succ fuel ih =>
    obtain ⟨next, hb, hn⟩ := hstep state hstuck
    exact ih next hn (by rwa [runLoop_again hb] at hr)

/-- A property that every iteration preserves, and that its exit turns into a property of the
result, holds of the result of the whole loop. -/
theorem runLoop_result (keep : σ → Prop) (post : α → Prop)
    (hagain : ∀ state next, keep state → body state = .again next → keep next)
    (hleave : ∀ state result, keep state → body state = .leave result → post result)
    {fuel : Nat} {state : σ} {result : α} (hkeep : keep state)
    (hr : runLoop body fuel state = some result) : post result := by
  induction fuel generalizing state with
  | zero => simp [runLoop] at hr
  | succ fuel ih =>
    cases hb : body state with
    | leave r =>
      rw [runLoop_leave hb] at hr
      exact Option.some.inj hr ▸ hleave state r hkeep hb
    | again next =>
      rw [runLoop_again hb] at hr
      exact ih (hagain state next hkeep hb) hr

end Bdt.Base
