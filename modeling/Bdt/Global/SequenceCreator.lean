import Mathlib.Data.List.Basic
import Mathlib.Data.Nat.Init

/-!
# Sequence numbers

A model of `SequenceCreator.imp.inl`. A sequence number has a counter of 12 bits below a clock of 20
bits; the counter goes on when the clock moves, and begins again at its own end.

`inSequence_iff` says when the numbers of a run come in order.
-/

namespace Bdt

open List

namespace SequenceCreator

/-- `1 << SEQUENCE_TIME_BITS`. -/
def SEQUENCE_TIMES : Nat := 1048576

/-- `1 << SEQUENCE_INCREASE_BITS`. -/
def SEQUENCE_INCREASES : Nat := 4096

/-! ## The bits of a number -/

/-- `bits.increase`. -/
def increase (value : UInt32) : Nat :=
  value.toNat % SEQUENCE_INCREASES

/-- `bits.time`. -/
def time (value : UInt32) : Nat :=
  value.toNat / SEQUENCE_INCREASES

/-- A `Bdt_Sequence` from its bits, which take the low bits of what is assigned. -/
def ofBits (time increase : Nat) : UInt32 :=
  UInt32.ofNat (time % SEQUENCE_TIMES * SEQUENCE_INCREASES + increase % SEQUENCE_INCREASES)

/-! ## The functions -/

/-- The unit of the clock that counts: `BfxTimeGetNow(false) >> 20`. -/
def unit (now : Nat) : Nat :=
  now / 1048576

/-- `TIME_NOW`. -/
def timeNow (now : Nat) : Nat :=
  unit now % SEQUENCE_TIMES

/-- `Bdt_SequenceInit`. -/
def Bdt_SequenceInit (now random : Nat) : UInt32 :=
  ofBits (timeNow now) random

/-- One activation of `Bdt_SequenceNext`, in any thread: `lastValue` is what it has read of the
creator, and `now` the clock that it has read then. -/
structure Attempt where
  lastValue : UInt32
  now : Nat
  deriving DecidableEq, Repr

/-- An activation comes to its compare and swap, and finds `value` there. The number is returned when
nobody has changed it; otherwise the function calls itself. -/
def Attempt.swap (attempt : Attempt) (value : UInt32) : Option UInt32 :=
  let newValue := ofBits (timeNow attempt.now) (increase attempt.lastValue + 1)
  if attempt.lastValue = value then some newValue else none

/-- The numbers that the activations return, with their clocks, in the order of the swaps. -/
def returned : UInt32 → List Attempt → List (Nat × UInt32)
  | _, [] => []
  | value, attempt :: attempts =>
    match attempt.swap value with
    | none => returned value attempts
    | some newValue => (attempt.now, newValue) :: returned newValue attempts

/-- `Bdt_SequenceCompare`. -/
def Bdt_SequenceCompare (seq1 seq2 : UInt32) : Int :=
  if seq1 = seq2 then 0
  else if seq1 > seq2 then
    if seq1 - seq2 < 0x80000000 then 1 else -1
  else if seq2 - seq1 < 0x80000000 then -1
  else 1

/-! ## The property -/

/-- From one call to the next, the clock does not go back, and goes on by less than half of its
range. -/
def Clocked (times : List Nat) : Prop :=
  times.IsChain fun last now => last ≤ now ∧ unit now < unit last + 524288

/-- Every number is greater than the one before; as long as the clock has not come around, none is
there twice; and the comparison does not depend on the order. -/
structure InSequence (numbers : List (Nat × UInt32)) : Prop where
  greater : numbers.IsChain fun last next => Bdt_SequenceCompare next.2 last.2 = 1
  distinct : numbers.Pairwise fun a b => unit b.1 < unit a.1 + SEQUENCE_TIMES → a.2 ≠ b.2
  antisymmetric : ∀ a b, Bdt_SequenceCompare a b = -Bdt_SequenceCompare b a

/-- The clock moves on whenever the counter begins again: the counter of the number at `k` is
`first + k + 1`. -/
def MovesOn (first : Nat) (times : List Nat) : Prop :=
  ∀ k, (h : k + 1 < times.length) → (first + k + 1) % SEQUENCE_INCREASES = 4095 →
    unit times[k] < unit times[k + 1]

/-! ## Comparison -/

theorem toNat_ofBits (time increase : Nat) :
    (ofBits time increase).toNat = time % 1048576 * 4096 + increase % 4096 := by
  unfold ofBits SEQUENCE_TIMES SEQUENCE_INCREASES
  rw [UInt32.toNat_ofNat']
  omega

theorem increase_ofBits (time i : Nat) : increase (ofBits time i) = i % 4096 := by
  unfold increase SEQUENCE_INCREASES
  rw [toNat_ofBits]
  omega

theorem compare_eq (a b : UInt32) :
    Bdt_SequenceCompare a b =
      if a.toNat = b.toNat then 0
      else if b.toNat < a.toNat then if a.toNat - b.toNat < 2147483648 then 1 else -1
      else if b.toNat - a.toNat < 2147483648 then -1
      else 1 := by
  have hsub {c d : UInt32} (h : d.toNat ≤ c.toNat) :
      c - d < 0x80000000 ↔ c.toNat - d.toNat < 2147483648 := by
    rw [UInt32.lt_iff_toNat_lt, UInt32.toNat_sub_of_le _ _ (UInt32.le_iff_toNat_le.mpr h)]
    exact Iff.rfl
  unfold Bdt_SequenceCompare
  by_cases heq : a.toNat = b.toNat
  · rw [if_pos heq, if_pos (UInt32.toNat_inj.mp heq)]
  rw [if_neg heq, if_neg (fun h => heq (UInt32.toNat_inj.mpr h))]
  by_cases hlt : b.toNat < a.toNat
  · rw [if_pos hlt, if_pos (UInt32.lt_iff_toNat_lt.mpr hlt)]
    simp only [hsub (Nat.le_of_lt hlt)]
  · rw [if_neg hlt, if_neg (fun h => hlt (UInt32.lt_iff_toNat_lt.mp h))]
    simp only [hsub (Nat.le_of_not_lt hlt)]

theorem compare_antisymmetric (a b : UInt32) :
    Bdt_SequenceCompare a b = -Bdt_SequenceCompare b a := by
  rw [compare_eq, compare_eq]
  rcases Nat.lt_trichotomy a.toNat b.toNat with hlt | heq | hgt
  · have hne : a.toNat ≠ b.toNat := Nat.ne_of_lt hlt
    rw [if_neg hne, if_neg hne.symm, if_neg (Nat.not_lt_of_gt hlt), if_pos hlt]
    split <;> rfl
  · rw [if_pos heq, if_pos heq.symm]
    rfl
  · have hne : a.toNat ≠ b.toNat := (Nat.ne_of_lt hgt).symm
    rw [if_neg hne, if_neg hne.symm, if_pos hgt, if_neg (Nat.not_lt_of_gt hgt)]
    split <;> rfl

/-- The next number is greater unless the counter begins again within one unit of the clock. -/
theorem compare_next {last now i : Nat} (hmono : unit last ≤ unit now)
    (hbound : unit now < unit last + 524288) :
    Bdt_SequenceCompare (ofBits (timeNow now) (i + 1)) (ofBits (timeNow last) i) = 1 ↔
      (i % 4096 = 4095 → unit last < unit now) := by
  rw [compare_eq, toNat_ofBits, toNat_ofBits]
  unfold timeNow SEQUENCE_TIMES
  generalize unit now = t at *
  generalize unit last = s at *
  split
  · refine iff_of_false (by decide) ?_
    omega
  split
  · split
    · refine iff_of_true rfl ?_
      omega
    · refine iff_of_false (by decide) ?_
      omega
  split
  · refine iff_of_false (by decide) ?_
    omega
  · refine iff_of_true rfl ?_
    omega

/-! ## Runs -/

/-- The numbers of a run: each has the clock of its activation and the counter behind the one
before. An activation that returns has read the number that it replaces. -/
theorem returned_eq (value : UInt32) (attempts : List Attempt) :
    returned value attempts =
      ((returned value attempts).map Prod.fst).mapIdx fun k now =>
        (now, ofBits (timeNow now) (increase value + k + 1)) := by
  induction attempts generalizing value with
  | nil => rfl
  | cons attempt _ ih =>
    unfold returned Attempt.swap
    by_cases hswap : attempt.lastValue = value
    · simp only [hswap, if_true, map_cons, mapIdx_cons]
      have hincrease : increase (ofBits (timeNow attempt.now) (increase value + 1)) =
          (increase value + 1) % 4096 :=
        increase_ofBits _ _
      have hcounter (k now : Nat) :
          ofBits (timeNow now) ((increase value + 1) % 4096 + k + 1) =
            ofBits (timeNow now) (increase value + (k + 1) + 1) := by
        rw [← UInt32.toNat_inj, toNat_ofBits, toNat_ofBits]
        omega
      congr 1
      conv => lhs; rw [ih]
      simp only [hincrease, hcounter]
    · simp only [hswap, if_false]
      exact ih value

section

variable {times : List Nat} {first : Nat}

/-- The numbers that a counter behind `first` makes of the clock. -/
def stamp (first : Nat) (times : List Nat) : List (Nat × UInt32) :=
  times.mapIdx fun k now => (now, ofBits (timeNow now) (first + k + 1))

theorem length_stamp (first : Nat) (times : List Nat) : (stamp first times).length = times.length :=
  length_mapIdx

theorem getElem_stamp {k : Nat} (hk : k < (stamp first times).length) (h : k < times.length) :
    (stamp first times)[k] = (times[k], ofBits (timeNow times[k]) (first + k + 1)) :=
  getElem_mapIdx

/-- The clock does not go back over several calls either. -/
theorem Clocked.mono (h : Clocked times) {i j : Nat} (hij : i ≤ j) (hj : j < times.length) :
    times[i] ≤ times[j] := by
  induction j, hij using Nat.le_induction with
  | base => exact Nat.le_refl _
  | succ j _ ih =>
    exact Nat.le_trans (ih (by omega)) (isChain_iff_getElem.mp h j hj).1

theorem unit_mono {a b : Nat} (h : a ≤ b) : unit a ≤ unit b :=
  Nat.div_le_div_right h

/-- Each number is greater than the one before exactly when the clock moves on whenever the counter
begins again. -/
theorem greater_iff (h : Clocked times) :
    ((stamp first times).IsChain fun last next => Bdt_SequenceCompare next.2 last.2 = 1) ↔
      MovesOn first times := by
  have hstep (k : Nat) (hs : k + 1 < (stamp first times).length) (hk : k + 1 < times.length) :
      Bdt_SequenceCompare (stamp first times)[k + 1].2 (stamp first times)[k].2 = 1 ↔
        ((first + k + 1) % SEQUENCE_INCREASES = 4095 → unit times[k] < unit times[k + 1]) := by
    obtain ⟨hmono, hbound⟩ := isChain_iff_getElem.mp h k hk
    rw [getElem_stamp hs hk, getElem_stamp _ (Nat.lt_of_succ_lt hk)]
    exact compare_next (unit_mono hmono) hbound
  rw [isChain_iff_getElem]
  constructor
  · intro hgreater k hk
    have hs : k + 1 < (stamp first times).length := (length_stamp first times).symm ▸ hk
    exact (hstep k hs hk).mp (hgreater k hs)
  · intro hmoves k hs
    have hk : k + 1 < times.length := length_stamp first times ▸ hs
    exact (hstep k hs hk).mpr (hmoves k hk)

theorem counter_of_unit (hclock : Clocked times) (hmoves : MovesOn first times) {i j : Nat}
    (hij : i ≤ j) (hj : j < times.length) (hunit : unit times[j] = unit times[i]) :
    (first + j + 1) % 4096 = (first + i + 1) % 4096 + (j - i) := by
  induction j, hij using Nat.le_induction with
  | base => omega
  | succ j hij ih =>
    have hlower := unit_mono (hclock.mono hij (by omega))
    have hupper := unit_mono (hclock.mono (Nat.le_add_right j 1) hj)
    have hbefore := ih (by omega) (by omega)
    have hstays : (first + j + 1) % 4096 ≠ 4095 := by
      intro hwrap
      have hlater := hmoves j hj hwrap
      omega
    omega

theorem distinct_of_movesOn (hclock : Clocked times) (hmoves : MovesOn first times) :
    (stamp first times).Pairwise fun a b =>
      unit b.1 < unit a.1 + SEQUENCE_TIMES → a.2 ≠ b.2 := by
  rw [pairwise_iff_getElem]
  intro i j hi' hj' hij
  have hi : i < times.length := length_stamp first times ▸ hi'
  have hj : j < times.length := length_stamp first times ▸ hj'
  rw [getElem_stamp hi' hi, getElem_stamp hj' hj]
  intro hwindow hequal
  have hmono := unit_mono (hclock.mono (Nat.le_of_lt hij) hj)
  rw [← UInt32.toNat_inj, toNat_ofBits, toNat_ofBits] at hequal
  unfold timeNow SEQUENCE_TIMES at hequal
  unfold SEQUENCE_TIMES at hwindow
  -- the clock has not come around, so it is the same unit
  have hunit : unit times[j] = unit times[i] := by
    dsimp only at hwindow
    omega
  have hcounter := counter_of_unit hclock hmoves (Nat.le_of_lt hij) hj hunit
  omega

end

/-- The numbers of a run come in order exactly when the clock moves on whenever the counter begins
again. -/
theorem inSequence_iff (value : UInt32) (attempts : List Attempt) :
    (Clocked ((returned value attempts).map Prod.fst) → InSequence (returned value attempts)) ↔
      (Clocked ((returned value attempts).map Prod.fst) →
        MovesOn (increase value) ((returned value attempts).map Prod.fst)) := by
  refine imp_congr_right fun hclock => ?_
  have hstamp : returned value attempts =
      stamp (increase value) ((returned value attempts).map Prod.fst) :=
    returned_eq value attempts
  generalize (returned value attempts).map Prod.fst = times at *
  rw [hstamp]
  constructor
  · intro h
    exact (greater_iff hclock).mp h.greater
  · intro hmoves
    exact ⟨(greater_iff hclock).mpr hmoves, distinct_of_movesOn hclock hmoves, compare_antisymmetric⟩

/-- A creator whose random counter is two short of its end, and two calls at once. -/
theorem second_call_smaller :
    let value := Bdt_SequenceInit 0 4094
    let attempts : List Attempt := [⟨value, 0⟩, ⟨4095, 0⟩]
    ¬ (Clocked ((returned value attempts).map Prod.fst) → InSequence (returned value attempts)) := by
  intro value attempts h
  have hreturned : returned value attempts = [(0, 4095), (0, 0)] := by
    decide +kernel
  rw [hreturned] at h
  have hclock : Clocked [0, 0] := .cons_cons ⟨Nat.le_refl 0, by decide⟩ (.singleton 0)
  have hgreater := (isChain_cons_cons.mp (h hclock).greater).1
  exact absurd hgreater (by decide +kernel)

end SequenceCreator

end Bdt
