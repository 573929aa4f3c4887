import Mathlib.Tactic.Common

/-!
# Expiry by generations

A cache in two generations: a key that beats goes to the active one, and a switch makes the active
generation the waiting one and forgets the one that was waiting. A log has what happened, the last
first. `switchesSince` says how old a key is, and `Spaced.expires` when a key of that age has beaten,
provided that the switches are spaced by a timeout.
-/

namespace Bdt.Base

inductive GenerationEvent (K : Type*) where
  | beat (key : K) (now : Nat)
  | switch (now : Nat)
  deriving DecidableEq

variable {K : Type*} [DecidableEq K] {key other : K} {log : List (GenerationEvent K)}
  {timeout created now age : Nat}

/-- How many switches there were since the last beat of a key. -/
def switchesSince (key : K) : List (GenerationEvent K) → Option Nat
  | [] => none
  | .beat other _ :: log => if other = key then some 0 else switchesSince key log
  | .switch _ :: log => (switchesSince key log).map (· + 1)

def lastBeat (key : K) : List (GenerationEvent K) → Option Nat
  | [] => none
  | .beat other now :: log => if other = key then some now else lastBeat key log
  | .switch _ :: log => lastBeat key log

/-- When the generations were switched last, or made. -/
def lastSwitch (created : Nat) : List (GenerationEvent K) → Nat
  | [] => created
  | .beat _ _ :: log => lastSwitch created log
  | .switch now :: _ => now

/-- Time goes on, and there is more than the timeout between two switches. -/
def Spaced (timeout created : Nat) : List (GenerationEvent K) → Prop
  | [] => True
  | .beat _ now :: log => Spaced timeout created log ∧ lastSwitch created log ≤ now
  | .switch now :: log =>
    Spaced timeout created log ∧ lastSwitch created log + timeout < now ∧
      ∀ key beat, lastBeat key log = some beat → beat ≤ now

theorem switchesSince_beat (key other : K) (now : Nat) (log : List (GenerationEvent K)) :
    switchesSince key (.beat other now :: log) =
      if other = key then some 0 else switchesSince key log := rfl

theorem switchesSince_switch_eq_some (key : K) (now age : Nat) (log : List (GenerationEvent K)) :
    switchesSince key (.switch now :: log) = some (age + 1) ↔ switchesSince key log = some age := by
  simp [switchesSince]

theorem switchesSince_switch_ne_zero (key : K) (now : Nat) (log : List (GenerationEvent K)) :
    switchesSince key (.switch now :: log) ≠ some 0 := by
  simp [switchesSince]

theorem lastBeat_beat (key other : K) (now : Nat) (log : List (GenerationEvent K)) :
    lastBeat key (.beat other now :: log) = if other = key then some now else lastBeat key log := rfl

/-- A key that is in the waiting generation has beaten before the last switch, and one that was
forgotten longer ago than the timeout. -/
theorem Spaced.expires (h : Spaced timeout created log) (hage : switchesSince key log = some age) :
    ∃ beat, lastBeat key log = some beat ∧ (1 ≤ age → beat ≤ lastSwitch created log) ∧
      (2 ≤ age → beat + timeout < lastSwitch created log) := by
  induction log generalizing age with
  | nil => cases hage
  | cons event _ ih =>
    cases event with
    | beat _ now =>
      rw [switchesSince_beat] at hage
      rw [lastBeat_beat]
      split at hage
      case isTrue heq =>
        cases hage
        exact ⟨now, if_pos heq, by omega, by omega⟩
      case isFalse hne =>
        rw [if_neg hne]
        exact ih h.1 hage
    | switch now =>
      obtain ⟨hspaced, hlast, hbeats⟩ := h
      obtain ⟨before, hbefore, rfl⟩ := Option.map_eq_some_iff.mp hage
      obtain ⟨beat, hbeat, hwaiting, hforgotten⟩ := ih hspaced hbefore
      refine ⟨beat, hbeat, fun _ => hbeats key beat hbeat, fun htwo => ?_⟩
      show beat + timeout < now
      omega

theorem exists_switchesSince {beat : Nat} (h : lastBeat key log = some beat) :
    ∃ age, switchesSince key log = some age := by
  induction log with
  | nil => cases h
  | cons event _ ih =>
    cases event with
    | beat =>
      rw [lastBeat_beat] at h
      rw [switchesSince_beat]
      split at h
      case isTrue heq => exact ⟨0, if_pos heq⟩
      case isFalse hne =>
        rw [if_neg hne]
        exact ih h
    | switch =>
      obtain ⟨age, hage⟩ := ih h
      exact ⟨age + 1, congrArg (Option.map (· + 1)) hage⟩

end Bdt.Base
