import Bdt.Base.Transition
import Mathlib.Data.List.Perm.Basic

/-!
# Handlers that run at the same time

A pool is a shared state and the handlers that work on it, each of them at some point of its
program. What arrives may change the shared state and start a handler, and every step is that of one
handler.

A handler returns if there is a bound on its steps whatever the others do. `returns_of_cost` proves
that with a number that every step of the handler lowers, and `not_returns_of_stuck` the opposite
for a handler that always has one more step.
-/

namespace Bdt.Base

/-- The shared state, and the handlers in the order in which they were started. -/
structure Pool (S T : Type*) where
  shared : S
  handlers : List T
  deriving DecidableEq

inductive PoolEvent (A : Type*) where
  | arrive (arrival : A)
  /-- A step of one handler. -/
  | run (i : Nat)
  deriving DecidableEq

namespace Pool

variable {S T A : Type*} {enter : S → A → Option (S × Option T)} {step : S → T → Option (S × T)}

/-- `enter` says what arrives, and `step` what a handler does; it has no result for one that has
returned. -/
def next (enter : S → A → Option (S × Option T)) (step : S → T → Option (S × T))
    (pool : Pool S T) : PoolEvent A → Option (Pool S T)
  | .arrive arrival =>
    (enter pool.shared arrival).map fun entered =>
      { shared := entered.1, handlers := pool.handlers ++ entered.2.toList }
  | .run i =>
    pool.handlers[i]?.bind fun handler =>
      (step pool.shared handler).map fun stepped =>
        { shared := stepped.1, handlers := pool.handlers.set i stepped.2 }

/-- How often a handler makes a step. -/
def steps (i : Nat) (events : List (PoolEvent A)) : Nat :=
  events.countP fun event => match event with
    | .run j => j = i
    | .arrive _ => false

/-- There is a bound on the steps of a handler, in whatever order the others make theirs. -/
def Returns (enter : S → A → Option (S × Option T)) (step : S → T → Option (S × T))
    (pool : Pool S T) (i : Nat) : Prop :=
  ∃ bound, ∀ (events : List (PoolEvent A)) (last : Pool S T),
    exec (next enter step) pool events = some last → steps i events ≤ bound

variable {pool last : Pool S T} {i : Nat} {handler : T}

theorem steps_cons_run (i j : Nat) (events : List (PoolEvent A)) :
    steps i (.run j :: events) = steps i events + if j = i then 1 else 0 := by
  simp [steps, List.countP_cons]

theorem steps_cons_arrive (i : Nat) (arrival : A) (events : List (PoolEvent A)) :
    steps i (.arrive arrival :: events) = steps i events := by
  simp [steps, List.countP_cons]

theorem steps_replicate (i n : Nat) : steps i (List.replicate n (.run i : PoolEvent A)) = n := by
  induction n with
  | zero => rfl
  | succ _ ih => rw [List.replicate_succ, steps_cons_run, ih, if_pos rfl]

theorem next_eq_some {event : PoolEvent A} (h : next enter step pool event = some last) :
    (∃ arrival entered, event = .arrive arrival ∧ enter pool.shared arrival = some entered ∧
      last = ⟨entered.1, pool.handlers ++ entered.2.toList⟩) ∨
    ∃ j handler stepped, event = .run j ∧ pool.handlers[j]? = some handler ∧
      step pool.shared handler = some stepped ∧
        last = ⟨stepped.1, pool.handlers.set j stepped.2⟩ := by
  cases event with
  | arrive arrival =>
    obtain ⟨entered, henter, rfl⟩ := Option.map_eq_some_iff.mp h
    exact .inl ⟨arrival, entered, rfl, henter, rfl⟩
  | run j =>
    obtain ⟨handler, hhandler, h⟩ := Option.bind_eq_some_iff.mp h
    obtain ⟨stepped, hstep, rfl⟩ := Option.map_eq_some_iff.mp h
    exact .inr ⟨j, handler, stepped, rfl, hhandler, hstep, rfl⟩

variable {handlers : List T} {clean : T → Prop} {stuck : T → Prop} {cost : T → Nat} {B : Type*}

/-- What holds of one handler after its step, and of all the others. -/
theorem forall_mem_set {stepped : T} {p : T → Prop} (hstepped : p stepped)
    (hothers : ∀ (j : Nat) (other : T), j ≠ i → handlers[j]? = some other → p other) :
    ∀ other ∈ handlers.set i stepped, p other := by
  intro other hother
  obtain ⟨j, hj⟩ := List.mem_iff_getElem?.mp hother
  by_cases hij : i = j
  · subst hij
    have hlength : i < handlers.length := by
      simpa using (List.getElem?_eq_some_iff.mp hj).1
    rw [List.getElem?_set_self hlength] at hj
    exact Option.some.inj hj ▸ hstepped
  · exact hothers j other (Ne.symm hij) ((List.getElem?_set_ne hij).symm.trans hj)

/-- What one handler has, and what the others have. -/
theorem perm_flatMap (f : T → List B) (h : handlers[i]? = some handler) :
    (handlers.flatMap f).Perm (f handler ++ (handlers.eraseIdx i).flatMap f) := by
  obtain ⟨hlt, rfl⟩ := List.getElem?_eq_some_iff.mp h
  exact ((List.getElem_cons_eraseIdx_perm hlt).flatMap_right f).symm

theorem perm_flatMap_set (f : T → List B) (h : handlers[i]? = some handler) (stepped : T) :
    ((handlers.set i stepped).flatMap f).Perm (f stepped ++ (handlers.eraseIdx i).flatMap f) := by
  obtain ⟨hlt, -⟩ := List.getElem?_eq_some_iff.mp h
  exact (List.set_perm_cons_eraseIdx hlt stepped).flatMap_right f

/-- The handlers after a step are the one that made it and the others. -/
theorem mem_set_iff (h : handlers[i]? = some handler) {stepped other : T} :
    other ∈ handlers.set i stepped ↔ other = stepped ∨ other ∈ handlers.eraseIdx i := by
  obtain ⟨hlt, -⟩ := List.getElem?_eq_some_iff.mp h
  exact (List.set_perm_cons_eraseIdx hlt stepped).mem_iff.trans List.mem_cons

section

variable (hcost : ∀ shared handler stepped, clean handler → step shared handler = some stepped →
    clean stepped.2 ∧ cost stepped.2 < cost handler)
include hcost

/-- A handler of which every step lowers a number makes at most so many steps. -/
theorem steps_le_cost {events : List (PoolEvent A)} (hhandler : pool.handlers[i]? = some handler)
    (hclean : clean handler) (hrun : exec (next enter step) pool events = some last) :
    steps i events ≤ cost handler := by
  induction events generalizing pool handler with
  | nil => exact Nat.zero_le _
  | cons _ _ ih =>
    obtain ⟨mid, hmid, hrest⟩ := exec_cons hrun
    have hlength := (List.getElem?_eq_some_iff.mp hhandler).1
    obtain ⟨arrival, entered, rfl, -, rfl⟩ | ⟨j, other, stepped, rfl, hother, hstep, rfl⟩ :=
      next_eq_some hmid
    · rw [steps_cons_arrive]
      exact ih ((List.getElem?_append_left hlength).trans hhandler) hclean hrest
    rw [steps_cons_run]
    by_cases hself : j = i
    · subst hself
      cases hother.symm.trans hhandler
      obtain ⟨hcleanNext, hless⟩ := hcost pool.shared _ stepped hclean hstep
      have := ih (List.getElem?_set_self hlength) hcleanNext hrest
      rw [if_pos rfl]
      omega
    · rw [if_neg hself]
      exact ih ((List.getElem?_set_ne hself).trans hhandler) hclean hrest

theorem returns_of_cost (hhandler : pool.handlers[i]? = some handler) (hclean : clean handler) :
    Returns enter step pool i :=
  ⟨cost handler, fun _ _ hrun => steps_le_cost hcost hhandler hclean hrun⟩

end

variable (hstuck : ∀ shared handler, stuck handler →
    ∃ stepped, step shared handler = some stepped ∧ stuck stepped.2)
include hstuck

/-- A handler that always has one more step can make any number of them. -/
theorem exec_stuck (hhandler : pool.handlers[i]? = some handler) (h : stuck handler) (n : Nat) :
    ∃ last, exec (next enter step) pool (List.replicate n (.run i : PoolEvent A)) = some last := by
  induction n generalizing pool handler with
  | zero => exact ⟨pool, rfl⟩
  | succ n ih =>
    obtain ⟨stepped, hstep, hagain⟩ := hstuck pool.shared handler h
    have hlength := (List.getElem?_eq_some_iff.mp hhandler).1
    have hnext : next enter step pool (.run i : PoolEvent A) =
        some ⟨stepped.1, pool.handlers.set i stepped.2⟩ := by
      simp [next, hhandler, hstep]
    obtain ⟨last, hlast⟩ := @ih ⟨stepped.1, pool.handlers.set i stepped.2⟩ _
      (List.getElem?_set_self hlength) hagain
    refine ⟨last, ?_⟩
    rw [List.replicate_succ]
    show (next enter step pool (.run i)).bind _ = _
    rw [hnext]
    exact hlast

theorem not_returns_of_stuck (hhandler : pool.handlers[i]? = some handler) (h : stuck handler) :
    ¬ Returns enter step pool i := by
  intro ⟨bound, hbound⟩
  have hmore : ∃ last, exec (next enter step) pool (List.replicate (bound + 1) (.run i)) =
      some last := exec_stuck hstuck hhandler h (bound + 1)
  obtain ⟨last, hlast⟩ := hmore
  have hsteps := hbound _ last hlast
  rw [steps_replicate] at hsteps
  omega

end Pool

end Bdt.Base
