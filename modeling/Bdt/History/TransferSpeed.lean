import Mathlib.Data.PNat.Basic
import Bdt.Base.Transition

/-!
# The speed of a transfer

`SpeedStatistic` of `Updater.imp.inl`. A burst lasts from the first bytes to the pause that takes a
sample of the speed. The start time is reset with the sample, and the bytes are not: a sample is over
the bytes of all bursts so far.

`speedStatistic_iff`: the samples of a run are those of its bursts, without a division by zero and
without a wrap, and the average is between them, if and only if the earlier bytes do not make up another
byte per millisecond and the numbers fit into 32 bits.
-/

namespace Bdt

open Base

/-! ## The statistic -/

/-- The times are `BDT_MS_NOW`, and 0 if no burst is on. -/
structure SpeedStatistic where
  startTime : Nat := 0
  byteSize : UInt32 := 0
  speed : UInt32 := 0

/-- `HistoryPeerStatisticAverage`. -/
def peerStatisticAverage (oldValue newValue : UInt32) : UInt32 :=
  if oldValue = 0 then newValue else (oldValue * 7 + newValue) >>> 3

namespace SpeedStatistic

/-- `SpeedStatisticAddBytes`. -/
def addBytes (stat : SpeedStatistic) (bytes : UInt32) (now : Nat) : SpeedStatistic :=
  if 0 < bytes then
    { stat with
      byteSize := stat.byteSize + bytes
      startTime := if stat.startTime = 0 then now else stat.startTime }
  else stat

/-- The speed that a pause computes. -/
def sample (stat : SpeedStatistic) (now : Nat) : UInt32 :=
  stat.byteSize / UInt32.ofNat (now - stat.startTime)

/-- `SpeedStatisticPause`, which has no result where it divides by zero. -/
def pause (stat : SpeedStatistic) (now : Nat) : Option SpeedStatistic :=
  if stat.startTime = 0 ∨ stat.byteSize = 0 then some stat
  else if now ≤ stat.startTime then some stat
  else if UInt32.ofNat (now - stat.startTime) = 0 then none
  else some
    { stat with speed := peerStatisticAverage stat.speed (stat.sample now), startTime := 0 }

/-- A pause takes a sample. -/
def Measures (stat : SpeedStatistic) (now : Nat) : Prop :=
  stat.startTime ≠ 0 ∧ stat.byteSize ≠ 0 ∧ stat.startTime < now

instance (stat : SpeedStatistic) (now : Nat) : Decidable (stat.Measures now) :=
  inferInstanceAs (Decidable (_ ∧ _))

end SpeedStatistic

/-! ## Bursts -/

/-- A call and its `BDT_MS_NOW`, which counts from 1970. -/
inductive SpeedEvent where
  | addBytes (bytes : UInt32) (now : ℕ+)
  | pause (now : ℕ+)

/-- A statistic beside the burst that is on and the samples so far. -/
structure SpeedRun where
  stat : SpeedStatistic := {}
  /-- The bytes of the bursts before. -/
  earlier : Nat := 0
  /-- The bytes of the burst that is on. -/
  burst : Nat := 0
  /-- When it started. -/
  since : Option ℕ+ := none
  /-- What the pauses computed. -/
  samples : List UInt32 := []

namespace SpeedRun

def next (run : SpeedRun) : SpeedEvent → Option SpeedRun
  | .addBytes bytes now => some
      { run with
        stat := run.stat.addBytes bytes now
        burst := run.burst + bytes.toNat
        since := if 0 < bytes then some (run.since.getD now) else run.since }
  | .pause now => (run.stat.pause now).map fun stat =>
    if run.stat.Measures now then
      { stat
        earlier := run.earlier + run.burst
        burst := 0
        since := none
        samples := run.stat.sample now :: run.samples }
    else { run with stat }

/-- How long the burst has lasted. -/
def duration (run : SpeedRun) (now : ℕ+) : Nat :=
  now - run.since.elim 0 (·.val)

/-- The average is between two samples. -/
def AverageBetween (run : SpeedRun) : Prop :=
  ∃ least ∈ run.samples, ∃ greatest ∈ run.samples, least ≤ run.stat.speed ∧ run.stat.speed ≤ greatest

/-- What a call is to do: no sum and no duration wraps, and a sample is the bytes of the burst by its
duration. -/
def Right (run : SpeedRun) : SpeedEvent → Prop
  | .addBytes bytes _ => run.stat.byteSize.toNat + bytes.toNat < 4294967296
  | .pause now => run.stat.Measures now →
      now - run.stat.startTime < 4294967296 ∧
      run.stat.speed.toNat * 7 + (run.stat.sample now).toNat < 4294967296 ∧
      (run.stat.sample now).toNat = run.burst / run.duration now ∧
      ∃ after, run.next (.pause now) = some after ∧ after.AverageBetween

/-- All bytes fit into 32 bits, and so do the duration and the sum for the average, and the bytes of
the earlier bursts do not fill up a millisecond. -/
def Fits (run : SpeedRun) : SpeedEvent → Prop
  | .addBytes bytes _ => run.earlier + run.burst + bytes.toNat < 4294967296
  | .pause now => run.stat.Measures now →
      run.duration now < 4294967296 ∧
      run.earlier + run.burst % run.duration now < run.duration now ∧
      run.stat.speed.toNat * 7 + run.burst / run.duration now < 4294967296

end SpeedRun

/-! ## The average -/

/-- More bytes leave a quotient if and only if they fit into what the division leaves over. -/
theorem add_div_eq_iff {earlier burst duration : Nat} (hpos : 0 < duration) :
    (earlier + burst) / duration = burst / duration ↔ earlier + burst % duration < duration := by
  have hsplit : (earlier + burst) / duration =
      (earlier + burst % duration) / duration + burst / duration := by
    conv => lhs; rw [← Nat.mod_add_div burst duration, ← Nat.add_assoc]
    rw [Nat.add_mul_div_left _ _ hpos]
  rw [hsplit, Nat.add_eq_right]
  exact Nat.div_eq_zero_iff_lt hpos

theorem average_toNat {oldValue newValue : UInt32} (hne : oldValue ≠ 0)
    (hsum : oldValue.toNat * 7 + newValue.toNat < 4294967296) :
    (peerStatisticAverage oldValue newValue).toNat = (oldValue.toNat * 7 + newValue.toNat) / 8 := by
  have hmul : (oldValue * 7).toNat = oldValue.toNat * 7 := by
    rw [UInt32.toNat_mul]
    exact Nat.mod_eq_of_lt (Nat.lt_of_le_of_lt (Nat.le_add_right _ _) hsum)
  unfold peerStatisticAverage
  rw [if_neg hne, UInt32.toNat_shiftRight, UInt32.toNat_add, hmul, Nat.mod_eq_of_lt hsum]
  exact Nat.shiftRight_eq_div_pow _ 3

theorem average_between {oldValue newValue : UInt32}
    (hsum : oldValue.toNat * 7 + newValue.toNat < 4294967296) :
    (oldValue = 0 ∧ peerStatisticAverage oldValue newValue = newValue) ∨
      (oldValue ≤ peerStatisticAverage oldValue newValue ∧
        peerStatisticAverage oldValue newValue ≤ newValue) ∨
      (newValue ≤ peerStatisticAverage oldValue newValue ∧
        peerStatisticAverage oldValue newValue ≤ oldValue) := by
  by_cases hzero : oldValue = 0
  · exact .inl ⟨hzero, if_pos hzero⟩
  refine .inr ?_
  have haverage := average_toNat hzero hsum
  simp only [UInt32.le_iff_toNat_le, haverage]
  omega

namespace SpeedRun

variable {run after : SpeedRun} {bytes : UInt32} {now : ℕ+}

theorem averageBetween_sample (hold : (run.samples = [] ∧ run.stat.speed = 0) ∨ run.AverageBetween)
    {sample : UInt32} (hsum : run.stat.speed.toNat * 7 + sample.toNat < 4294967296)
    (hsamples : after.samples = sample :: run.samples)
    (hspeed : after.stat.speed = peerStatisticAverage run.stat.speed sample) :
    after.AverageBetween := by
  have hmem : sample ∈ after.samples := hsamples ▸ List.mem_cons_self
  have hmems : ∀ value ∈ run.samples, value ∈ after.samples := fun value hvalue =>
    hsamples ▸ List.mem_cons_of_mem _ hvalue
  have hfirst : run.stat.speed = 0 → after.AverageBetween := by
    intro hzero
    have hsame : after.stat.speed = sample := hspeed.trans (if_pos hzero)
    exact ⟨sample, hmem, sample, hmem, UInt32.le_of_eq hsame.symm, UInt32.le_of_eq hsame⟩
  rcases hold with ⟨-, hzero⟩ | ⟨least, hleast, greatest, hgreatest, hle, hge⟩
  · exact hfirst hzero
  rcases average_between hsum with ⟨hzero, -⟩ | ⟨hlow, hhigh⟩ | ⟨hlow, hhigh⟩
  · exact hfirst hzero
  · rw [← hspeed] at hlow hhigh
    exact ⟨least, hmems least hleast, sample, hmem, UInt32.le_trans hle hlow, hhigh⟩
  · rw [← hspeed] at hlow hhigh
    exact ⟨sample, hmem, greatest, hmems greatest hgreatest, hlow, UInt32.le_trans hhigh hge⟩

/-! ## Runs -/

/-- The counter has all bytes, and the start time is that of the burst. -/
structure Sound (run : SpeedRun) : Prop where
  bytes : run.stat.byteSize.toNat = run.earlier + run.burst
  start : run.stat.startTime = run.since.elim 0 (·.val)
  average : (run.samples = [] ∧ run.stat.speed = 0) ∨ run.AverageBetween

theorem Sound.duration (h : run.Sound) (now : ℕ+) :
    run.duration now = now - run.stat.startTime := by
  unfold SpeedRun.duration
  rw [h.start]

theorem Sound.sample_toNat (h : run.Sound) (hshort : now - run.stat.startTime < 4294967296) :
    (run.stat.sample now).toNat = (run.earlier + run.burst) / run.duration now := by
  unfold SpeedStatistic.sample
  rw [UInt32.toNat_div, h.bytes, h.duration, UInt32.toNat_ofNat_of_lt' hshort]

theorem next_pause (hmeasures : run.stat.Measures now)
    (hshort : now - run.stat.startTime < 4294967296) :
    run.next (.pause now) = some
      { stat :=
          { run.stat with
            speed := peerStatisticAverage run.stat.speed (run.stat.sample now), startTime := 0 }
        earlier := run.earlier + run.burst
        burst := 0
        since := none
        samples := run.stat.sample now :: run.samples } := by
  obtain ⟨hstart, hbytes, hlate⟩ := hmeasures
  have hduration : UInt32.ofNat (now - run.stat.startTime) ≠ 0 := by
    intro hzero
    have hnat := congrArg UInt32.toNat hzero
    rw [UInt32.toNat_ofNat_of_lt' hshort] at hnat
    exact Nat.sub_ne_zero_of_lt hlate hnat
  unfold SpeedRun.next SpeedStatistic.pause
  dsimp only
  rw [if_neg (not_or.mpr ⟨hstart, hbytes⟩), if_neg (Nat.not_le.mpr hlate), if_neg hduration]
  rw [Option.map_some, if_pos ⟨hstart, hbytes, hlate⟩]

theorem next_pause_idle (hmeasures : ¬ run.stat.Measures now) :
    run.next (.pause now) = some run := by
  have hsame : run.stat.pause now = some run.stat := by
    unfold SpeedStatistic.pause
    split
    case isTrue => rfl
    case isFalse hon =>
      obtain ⟨hstart, hbytes⟩ := not_or.mp hon
      rw [if_pos (Nat.not_lt.mp fun hlate => hmeasures ⟨hstart, hbytes, hlate⟩)]
  show (run.stat.pause now).map _ = _
  rw [hsame, Option.map_some, if_neg hmeasures]

theorem Sound.averageBetween_next (h : run.Sound) (hmeasures : run.stat.Measures now)
    (hshort : now - run.stat.startTime < 4294967296)
    (hsum : run.stat.speed.toNat * 7 + (run.stat.sample now).toNat < 4294967296)
    (hnext : run.next (.pause now) = some after) : after.AverageBetween := by
  rw [next_pause hmeasures hshort] at hnext
  cases hnext
  exact averageBetween_sample h.average hsum rfl rfl

theorem Sound.next_of {event : SpeedEvent} (h : run.Sound) (hfits : run.Fits event)
    (hnext : run.next event = some after) : after.Sound := by
  cases event with
  | addBytes bytes now =>
    cases hnext
    refine ⟨?_, ?_, ?_⟩
    · show (run.stat.addBytes bytes now).byteSize.toNat = run.earlier + (run.burst + bytes.toNat)
      unfold SpeedStatistic.addBytes
      split
      case isTrue =>
        show (run.stat.byteSize + bytes).toNat = _
        rw [UInt32.toNat_add, h.bytes, Nat.mod_eq_of_lt hfits, Nat.add_assoc]
      case isFalse hnone =>
        have hzero : bytes.toNat = 0 := Nat.le_zero.mp (UInt32.le_iff_toNat_le.mp (UInt32.not_lt.mp hnone))
        rw [h.bytes, hzero, Nat.add_zero]
    · show (run.stat.addBytes bytes now).startTime =
        (if 0 < bytes then some (run.since.getD now) else run.since).elim 0 (·.val)
      unfold SpeedStatistic.addBytes
      split
      case isTrue =>
        show (if run.stat.startTime = 0 then (now : Nat) else run.stat.startTime) =
          (run.since.getD now).val
        rw [h.start]
        -- a burst that is on has a start time other than 0
        cases run.since with
        | none => rfl
        | some start => exact if_neg start.ne_zero
      case isFalse => exact h.start
    have hspeed : (run.stat.addBytes bytes now).speed = run.stat.speed := by
      unfold SpeedStatistic.addBytes
      split
      case isTrue => rfl
      case isFalse => rfl
    unfold AverageBetween
    rw [hspeed]
    exact h.average
  | pause now =>
    by_cases hmeasures : run.stat.Measures now
    · obtain ⟨hshort, hearlier, hsum⟩ := hfits hmeasures
      have hpos : 0 < run.duration now := by
        rw [h.duration]
        exact Nat.sub_pos_of_lt hmeasures.2.2
      rw [h.duration] at hshort
      rw [← (add_div_eq_iff hpos).mpr hearlier, ← h.sample_toNat hshort] at hsum
      have haverage := h.averageBetween_next hmeasures hshort hsum hnext
      rw [next_pause hmeasures hshort] at hnext
      cases hnext
      exact ⟨h.bytes, rfl, .inr haverage⟩
    · rw [next_pause_idle hmeasures] at hnext
      exact Option.some.inj hnext ▸ h

theorem Sound.right_iff (h : run.Sound) (event : SpeedEvent) : run.Right event ↔ run.Fits event := by
  cases event with
  | addBytes bytes =>
    show run.stat.byteSize.toNat + bytes.toNat < _ ↔ run.earlier + run.burst + bytes.toNat < _
    rw [h.bytes]
  | pause now =>
    refine forall_congr' fun hmeasures => ?_
    have hpos : 0 < run.duration now := by
      rw [h.duration]
      exact Nat.sub_pos_of_lt hmeasures.2.2
    constructor
    · intro hright
      obtain ⟨hshort, hsum, hsample, -⟩ := hright
      rw [hsample] at hsum
      rw [h.sample_toNat hshort] at hsample
      exact ⟨h.duration now ▸ hshort, (add_div_eq_iff hpos).mp hsample, hsum⟩
    intro hfits
    obtain ⟨hshort, hearlier, hsum⟩ := hfits
    rw [h.duration] at hshort
    have hsample : (run.stat.sample now).toNat = run.burst / run.duration now := by
      rw [h.sample_toNat hshort]
      exact (add_div_eq_iff hpos).mpr hearlier
    rw [← hsample] at hsum
    exact ⟨hshort, hsum, hsample, _, next_pause hmeasures hshort,
      h.averageBetween_next hmeasures hshort hsum (next_pause hmeasures hshort)⟩

theorem sound_start : ({} : SpeedRun).Sound :=
  ⟨rfl, rfl, .inl ⟨rfl, rfl⟩⟩

/-- Over every run of calls, each does what it is to do if and only if the numbers fit at each of them. -/
theorem speedStatistic_iff (events : List SpeedEvent) :
    StepsMeet SpeedRun.next Right {} events ↔ StepsMeet SpeedRun.next Fits {} events :=
  stepsMeet_congr sound_start (fun _ _ _ h hfits hnext => h.next_of hfits hnext)
    fun _ event h => h.right_iff event

/-- The second burst of 1000 bytes in 10 milliseconds is taken for one of 2000 bytes. -/
theorem second_sample_wrong :
    ¬ ∀ events : List SpeedEvent, StepsMeet SpeedRun.next Right {} events := by
  intro h
  have hright := h [.addBytes 1000 1, .pause 11, .addBytes 1000 21, .pause 31]
    [.addBytes 1000 1, .pause 11, .addBytes 1000 21] (.pause 31) []
  obtain ⟨run, hrun, hmeasures, hne⟩ : ∃ run,
      exec SpeedRun.next {} [.addBytes 1000 1, .pause 11, .addBytes 1000 21] = some run ∧
        run.stat.Measures 31 ∧ (run.stat.sample 31).toNat ≠ run.burst / run.duration 31 :=
    exists_of_test _ (by decide +kernel) fun _ _ => id
  exact hne (hright run rfl hrun hmeasures).2.2.1

end SpeedRun

end Bdt
