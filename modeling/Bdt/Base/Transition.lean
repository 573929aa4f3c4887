import Mathlib.Logic.Relation
import Mathlib.Data.List.Induction

/-!
# Reachable states

`Reach init step` is the set of states that a labelled transition system reaches from its initial
states. `Reach.invariant` packages the induction: what holds at the start and is kept by every
step holds of every reachable state. `Reach.mono` compares two systems, so that a run whose steps
all meet a condition is also a run of the unrestricted system. `reflTransGen_preserves` is the same
induction for the steps that one step of a coarser system is made of. `exec` runs a system whose steps are
computed, and `Reach.exec` says that it only finds reachable states.

`Throughout` says that something holds after every part of a computed run, and `StepsMeet` that every
step of it meets a condition. `throughout_iff` is the theorem about a run that keeps what is good as
long as its steps meet the condition, and loses it with the first step that does not
(`throughout_iff_of_inv` where that step is known by the invariant), and `stepsMeet_congr` the one about
what a run promises of each of its steps. `Succeeds` also says that every step is defined.
-/

namespace Bdt.Base

variable {S E : Type*}

theorem mem_concat {a b : E} {l : List E} : a ∈ l ++ [b] ↔ a ∈ l ∨ a = b :=
  List.mem_append.trans (or_congr_right List.mem_singleton)

/-- The states that the system reaches. -/
inductive Reach (init : S → Prop) (step : S → E → S → Prop) : S → Prop where
  | start {s : S} : init s → Reach init step s
  | next {s s' : S} {e : E} : Reach init step s → step s e s' → Reach init step s'

variable {init : S → Prop} {step step' : S → E → S → Prop}

variable {es : List E} {ok : S → E → Prop} {inv : S → Prop} {s : S} {good : S → Prop} {e : E}

/-- An invariant that may use the reachability of the state it steps from. -/
theorem Reach.invariant {inv : S → Prop} (hinit : ∀ s, init s → inv s)
    (hstep : ∀ s e s', Reach init step s → inv s → step s e s' → inv s')
    {s : S} (h : Reach init step s) : inv s := by
  induction h with
  | start hi => exact hinit _ hi
  | next hr hs ih => exact hstep _ _ _ hr ih hs

/-- A system with fewer steps reaches fewer states. -/
theorem Reach.mono (hsub : ∀ s e s', step s e s' → step' s e s')
    (h : Reach init step s) : Reach init step' s := by
  induction h with
  | start hi => exact .start hi
  | next _ hs ih => exact .next ih (hsub _ _ _ hs)

/-- What every step of a relation preserves, a sequence of steps preserves. -/
theorem reflTransGen_preserves {r : S → S → Prop} (inv : S → Prop)
    (hstep : ∀ s t, inv s → r s t → inv t) {s t : S} (h : Relation.ReflTransGen r s t)
    (hs : inv s) : inv t := by
  induction h with
  | refl => exact hs
  | tail _ hlast ih => exact hstep _ _ ih hlast

/-! ## Computed runs -/

/-- Apply a sequence of events, as long as every step is defined. -/
def exec (next : S → E → Option S) : S → List E → Option S
  | s, [] => some s
  | s, e :: es => (next s e).bind fun t => exec next t es

variable {next : S → E → Option S}

theorem exec_cons {s u : S} (h : exec next s (e :: es) = some u) :
    ∃ t, next s e = some t ∧ exec next t es = some u :=
  Option.bind_eq_some_iff.mp h

theorem exec_append (s : S) (es fs : List E) :
    exec next s (es ++ fs) = (exec next s es).bind fun t => exec next t fs := by
  induction es generalizing s with
  | nil => rfl
  | cons e es ih =>
    show ((next s e).bind fun t => exec next t (es ++ fs)) = _
    simp only [ih]
    exact (Option.bind_assoc _ _ _).symm

theorem exec_concat (s : S) (es : List E) (e : E) :
    exec next s (es ++ [e]) = (exec next s es).bind fun t => next t e := by
  rw [exec_append]
  congr 1
  funext t
  exact Option.bind_fun_some _

/-- What every computed step preserves, a computed run preserves. -/
theorem exec_preserves (hstep : ∀ s e t, inv s → next s e = some t → inv t)
    {s t : S} (hs : inv s) (h : exec next s es = some t) : inv t := by
  induction es generalizing s with
  | nil => exact Option.some.inj h ▸ hs
  | cons e _ ih =>
    obtain ⟨u, hu, h⟩ := exec_cons h
    exact ih (hstep s e u hs hu) h

/-- Something holds of every state of a computed run. -/
def Throughout (next : S → E → Option S) (good : S → Prop) (s : S) (es : List E) : Prop :=
  ∀ front back u, es = front ++ back → exec next s front = some u → good u

/-- What follows from an invariant holds throughout a run. -/
theorem throughout_of_inv (hs : inv s) (hgood : ∀ u, inv u → good u)
    (hstep : ∀ s e t, inv s → next s e = some t → inv t) : Throughout next good s es :=
  fun _ _ u _ hfront => hgood u (exec_preserves hstep hs hfront)

/-- Every step of a computed run meets a condition. -/
def StepsMeet (next : S → E → Option S) (ok : S → E → Prop) (s : S) (es : List E) : Prop :=
  ∀ front e back u, es = front ++ e :: back → exec next s front = some u → ok u e

theorem stepsMeet_nil (ok : S → E → Prop) (s : S) : StepsMeet next ok s [] := by
  intro front e back u heq
  cases front <;> cases heq

theorem StepsMeet.cons (h : ok s e)
    (hrest : ∀ t, next s e = some t → StepsMeet next ok t es) : StepsMeet next ok s (e :: es) := by
  intro front e' back u heq hfront
  cases front with
  | nil =>
    obtain ⟨rfl, -⟩ := List.cons.inj heq
    cases hfront
    exact h
  | cons _ front =>
    obtain ⟨rfl, hes⟩ := List.cons.inj heq
    obtain ⟨t, ht, hfront⟩ := exec_cons hfront
    exact hrest t ht front e' back u hes hfront

/-- The first part of a run whose steps meet a condition. -/
theorem StepsMeet.front {es fs : List E}
    (h : StepsMeet next ok s (es ++ fs)) : StepsMeet next ok s es :=
  fun front e back u heq hfront =>
    h front e (back ++ fs) u (by rw [heq, List.append_assoc, List.cons_append]) hfront

/-- The rest of a run whose steps meet a condition. -/
theorem StepsMeet.rest {s t : S}
    (h : StepsMeet next ok s (e :: es)) (hstep : next s e = some t) : StepsMeet next ok t es := by
  intro front e' back u heq hfront
  refine h (e :: front) e' back u (congrArg (e :: ·) heq) ?_
  show (next s e).bind _ = _
  rw [hstep]
  exact hfront

/-- What the steps that meet a condition preserve, a run of such steps preserves. -/
theorem StepsMeet.preserves {s t : S} (h : StepsMeet next ok s es)
    (hstep : ∀ s e t, inv s → ok s e → next s e = some t → inv t) (hs : inv s)
    (hrun : exec next s es = some t) : inv t := by
  induction es generalizing s with
  | nil => exact Option.some.inj hrun ▸ hs
  | cons e es ih =>
    obtain ⟨u, hu, hrun⟩ := exec_cons hrun
    exact ih (h.rest hu) (hstep s e u hs (h [] e es s rfl rfl) hu) hrun

/-- Two conditions that say the same of the states that one of them keeps. -/
theorem stepsMeet_congr {ok good : S → E → Prop} {inv : S → Prop} {s : S} {es : List E} (hs : inv s)
    (hstep : ∀ s e t, inv s → ok s e → next s e = some t → inv t)
    (hiff : ∀ s e, inv s → (good s e ↔ ok s e)) :
    StepsMeet next good s es ↔ StepsMeet next ok s es := by
  induction es generalizing s with
  | nil => exact iff_of_true (stepsMeet_nil good s) (stepsMeet_nil ok s)
  | cons e es ih =>
    constructor
    · intro h
      have hok := (hiff s e hs).mp (h [] e es s rfl rfl)
      exact .cons hok fun t ht => (ih (hstep s e t hs hok ht)).mp (h.rest ht)
    · intro h
      have hok := h [] e es s rfl rfl
      exact .cons ((hiff s e hs).mpr hok) fun t ht => (ih (hstep s e t hs hok ht)).mpr (h.rest ht)

/-- What holds throughout a run holds throughout the rest of it. -/
theorem Throughout.rest {s t : S}
    (h : Throughout next good s (e :: es)) (hstep : next s e = some t) :
    Throughout next good t es := by
  intro front back u heq hfront
  refine h (e :: front) back u (congrArg (e :: ·) heq) ?_
  show (next s e).bind _ = _
  rw [hstep]
  exact hfront

/-- What is good holds throughout a run if and only if all its steps meet the condition. -/
theorem throughout_iff {inv good : S → Prop} (hs : inv s) (hgood : ∀ u, inv u → good u)
    (hstep : ∀ s e t, inv s → ok s e → next s e = some t → inv t)
    (hbad : ∀ front u e, exec next s front = some u → good u → ¬ ok u e →
      ∃ t, next u e = some t ∧ ¬ good t) : Throughout next good s es ↔ StepsMeet next ok s es := by
  constructor
  · intro h front e back u heq hfront
    by_contra hok
    obtain ⟨t, ht, hnot⟩ := hbad front u e hfront (h front (e :: back) u heq hfront) hok
    refine hnot (h (front ++ [e]) back t (by rw [heq, List.append_assoc]; rfl) ?_)
    rw [exec_concat, hfront]
    exact ht
  · intro h front back u heq hfront
    exact hgood u ((heq ▸ h).front.preserves hstep hs hfront)

/-- The same where an invariant tells which steps lose what is good. -/
theorem throughout_iff_of_inv {inv good : S → Prop} (hs : inv s) (hgood : ∀ u, inv u → good u)
    (hstep : ∀ s e t, inv s → ok s e → next s e = some t → inv t)
    (hbad : ∀ s e, inv s → ¬ ok s e → ∃ t, next s e = some t ∧ ¬ good t) :
    Throughout next good s es ↔ StepsMeet next ok s es := by
  constructor
  · intro h
    induction es generalizing s with
    | nil => exact stepsMeet_nil ok s
    | cons e es ih =>
      have hok : ok s e := by
        by_contra hnot
        obtain ⟨t, ht, hlost⟩ := hbad s e hs hnot
        exact hlost (h [e] es t rfl ((exec_concat s [] e).trans ht))
      refine .cons hok fun t ht => ih (hstep s e t hs hok ht) fun front back u heq hfront => ?_
      refine h (e :: front) back u (congrArg (e :: ·) heq) ?_
      show (next s e).bind _ = _
      rw [ht]
      exact hfront
  · intro h front back u heq hfront
    exact hgood u ((heq ▸ h).front.preserves hstep hs hfront)

/-- Every part of a run is defined, and something holds behind it. -/
def Succeeds (next : S → E → Option S) (good : S → Prop) (s : S) (es : List E) : Prop :=
  ∀ front back, es = front ++ back → ∃ u, exec next s front = some u ∧ good u

theorem succeeds_iff : Succeeds next good s es ↔
      good s ∧ StepsMeet next (fun u e => ∃ t, next u e = some t ∧ good t) s es := by
  constructor
  · intro h
    refine ⟨?_, fun front e back u heq hfront => ?_⟩
    · obtain ⟨u, hu, hgood⟩ := h [] es rfl
      exact Option.some.inj hu ▸ hgood
    · obtain ⟨t, ht, hgood⟩ := h (front ++ [e]) back (by rw [heq, List.append_assoc]; rfl)
      rw [exec_concat, hfront] at ht
      exact ⟨t, ht, hgood⟩
  intro ⟨hs, hsteps⟩ front
  induction front using List.reverseRecOn with
  | nil => exact fun _ _ => ⟨s, rfl, hs⟩
  | append_singleton front e ih =>
    intro back heq
    rw [List.append_assoc] at heq
    obtain ⟨u, hu, -⟩ := ih (e :: back) heq
    obtain ⟨t, ht, hgood⟩ := hsteps front e back u heq hu
    refine ⟨t, ?_, hgood⟩
    rw [exec_concat, hu]
    exact ht

/-- A run is defined if and only if its steps meet the condition under which a step is. -/
theorem exec_defined_iff {inv : S → Prop} (hs : inv s)
    (hstep : ∀ s e t, inv s → next s e = some t → inv t)
    (hok : ∀ s e, inv s → (ok s e ↔ next s e ≠ none)) :
    (∃ t, exec next s es = some t) ↔ StepsMeet next ok s es := by
  induction es generalizing s with
  | nil => exact iff_of_true ⟨s, rfl⟩ (stepsMeet_nil ok s)
  | cons e es ih =>
    constructor
    · rintro ⟨t, h⟩
      obtain ⟨u, hu, hrest⟩ := exec_cons h
      refine .cons ((hok s e hs).mpr (by simp [hu])) fun v hv => ?_
      obtain rfl := Option.some.inj (hu.symm.trans hv)
      exact (ih (hstep s e u hs hu)).mp ⟨t, hrest⟩
    · intro h
      obtain ⟨u, hu⟩ := Option.ne_none_iff_exists'.mp ((hok s e hs).mp (h [] e es s rfl rfl))
      obtain ⟨t, ht⟩ := (ih (hstep s e u hs hu)).mpr (h.rest hu)
      exact ⟨t, by rw [exec, hu]; exact ht⟩

/-- A computed run from a reachable state ends in a reachable state. -/
theorem Reach.exec (hsub : ∀ s e t, next s e = some t → step s e t) {s t : S}
    (hs : Reach init step s) (h : exec next s es = some t) : Reach init step t :=
  exec_preserves (fun _ _ _ hr hn => .next hr (hsub _ _ _ hn)) hs h

/-- A test that a computed run passes is passed by a state. -/
theorem exists_of_any {o : Option S} {p : S → Bool} (h : o.any p = true) :
    ∃ s, o = some s ∧ p s = true := by
  cases o with
  | none => cases h
  | some s => exact ⟨s, rfl, h⟩

/-- What follows from the test holds of the state that a computed run ends in. -/
theorem exists_of_test {o : Option S} {q : S → Prop} (p : S → Prop) [DecidablePred p]
    (h : o.any (fun s => p s) = true) (hq : ∀ s, o = some s → p s → q s) : ∃ s, o = some s ∧ q s := by
  obtain ⟨s, hs, hp⟩ := exists_of_any h
  exact ⟨s, hs, hq s hs (of_decide_eq_true hp)⟩

end Bdt.Base
