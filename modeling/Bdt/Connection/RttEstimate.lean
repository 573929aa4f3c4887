import Bdt.Base.Word
import Bdt.Protocol.SessionDataPackage
import Mathlib.Data.List.Induction

/-!
# The estimate of the round-trip time

The `rttEst` part of a package connection: one package at a time is timed, from the moment it is
sent until an ack or a sack covers its end, and not at all when it is sent twice. The smoothed
estimate follows `PackageConnectionEstimateRttFromLinuxTcp`, whose local `m` is a 64-bit `long`.
-/

namespace Bdt

open Base

def PACKAGE_CONNECTION_MIN_RTO : Nat := 200000
def PACKAGE_CONNECTION_INIT_RTO : Nat := 1000000

/-- `PackageConnectionRttEstimateState`. -/
inductive RttEstimateState where
  | none
  | prepare
  | wait
  | cancel
  | calc
  deriving DecidableEq, Repr

/-- `rttEst`, without the fields that no function reads. -/
structure RttEst where
  srtt : Nat := 0
  mdev : Nat := 0
  mdevMax : Nat := 0
  rttvar : Nat := 0
  sendTime : Nat := 0
  lastEstTime : Nat := 0
  ackStreamPos : Nat := 0
  prevAckStreamPos : Nat := 0
  state : RttEstimateState := .none
  deriving DecidableEq, Repr

namespace RttEst

/-- A signed sum stored in an unsigned variable of 32 bits. -/
def addSigned (n : Nat) (m : Int) : Nat :=
  (((n : Int) + m) % 2 ^ 32).toNat

/-- `PackageConnectionEstimateRttFromLinuxTcp`: the new estimate and the new `rto`. -/
def estimateFromLinuxTcp (r : RttEst) (mrtt : Nat) : RttEst × Nat :=
  let m : Nat := if mrtt = 0 then 1 else mrtt
  let r :=
    if r.srtt ≠ 0 then
      let err : Int := m - (r.srtt / 8 : Nat)
      let srtt := addSigned r.srtt err
      let step : Int :=
        if err < 0 then
          let m := -err - (r.mdev / 4 : Nat)
          if 0 < m then m / 8 else m
        else err - (r.mdev / 4 : Nat)
      let mdev := addSigned r.mdev step
      let mdevMax := max r.mdevMax mdev
      let rttvar := if r.mdevMax < mdev then max r.rttvar mdevMax else r.rttvar
      { r with
        srtt := srtt
        mdev := mdev
        rttvar := if mdevMax < rttvar then rttvar - (rttvar - mdevMax) / 4 else rttvar
        mdevMax := 200000 }
    else
      let mdev := word 32 (m * 2)
      { r with
        srtt := word 32 (m * 8)
        mdev := mdev
        mdevMax := max mdev PACKAGE_CONNECTION_MIN_RTO
        rttvar := max mdev PACKAGE_CONNECTION_MIN_RTO }
  (r, word 32 (r.srtt / 8 + r.rttvar))

/-- A sack range covers the end of the timed package. -/
def coveredBySack (ackStreamPos : Nat) : List BdtStreamRange → Bool
  | [] => false
  | range :: rest =>
    if range.length = 0 then false
    else if range.pos < ackStreamPos ∧ ackStreamPos ≤ range.pos + range.length then true
    else coveredBySack ackStreamPos rest

/-- `PackageConnectionEstimateRtt`: the estimate, and the `rto` when there is a new one. -/
def estimateRtt (r : RttEst) (now : Nat) (package : Bdt_SessionDataPackage) : RttEst × Option Nat :=
  if r.state ≠ .wait then (r, none)
  else
    let acked := r.ackStreamPos ≠ 0 ∧ (r.ackStreamPos ≤ package.ackStreamPos ∨
      coveredBySack r.ackStreamPos (package.sackArray.getD []))
    if acked then
      let (r, rto) := r.estimateFromLinuxTcp (word 32 (wordSub 64 now r.sendTime))
      ({ r with lastEstTime := now, ackStreamPos := 0, state := .none }, some rto)
    else (r, none)

/-- The estimate in `PackageConnectionOnPreSendPackage` for a package with data up to `endPos`: a
second send of the timed package stops the timing, otherwise new data may be timed. -/
def onPreSend (r : RttEst) (now endPos : Nat) : RttEst :=
  if r.ackStreamPos = endPos then
    if r.state = .wait then { r with ackStreamPos := 0, state := .none } else r
  else if r.ackStreamPos = 0 ∧ r.prevAckStreamPos < endPos ∧ now > 200000 + r.lastEstTime then
    if r.state = .none then
      { r with ackStreamPos := endPos, prevAckStreamPos := endPos, sendTime := now, state := .wait }
    else r
  else r

/-! ## The bounds of the estimate -/

/-- What a sample counts as. -/
def sample (mrtt : Nat) : Nat :=
  if mrtt = 0 then 1 else mrtt

/-- By how much a later sample is above the estimate. -/
def err (r : RttEst) (mrtt : Nat) : Int :=
  sample mrtt - (r.srtt / 8 : Nat)

/-- What a later sample adds to the deviation. -/
def mdevStep (r : RttEst) (mrtt : Nat) : Int :=
  if r.err mrtt < 0 then
    let m := -r.err mrtt - (r.mdev / 4 : Nat)
    if 0 < m then m / 8 else m
  else r.err mrtt - (r.mdev / 4 : Nat)

/-- The deviation after a sample, as an integer. -/
def mdevExact (r : RttEst) (mrtt : Nat) : Int :=
  if r.srtt = 0 then 2 * sample mrtt else r.mdev + r.mdevStep mrtt

/-- What the samples between `lo` and `hi` keep. -/
structure Within (lo hi : Nat) (r : RttEst) : Prop where
  srtt : 8 * lo ≤ r.srtt ∧ r.srtt ≤ 8 * hi + 7
  mdev : r.mdev ≤ 2 ^ 30
  mdevMax : PACKAGE_CONNECTION_MIN_RTO ≤ r.mdevMax ∧ r.mdevMax ≤ 2 ^ 30
  rttvar : PACKAGE_CONNECTION_MIN_RTO ≤ r.rttvar ∧ r.rttvar ≤ 2 ^ 30

theorem addSigned_eq {n : Nat} {m : Int} (h : 0 ≤ n + m) (hlt : n + m < 2 ^ 32) :
    (addSigned n m : Int) = n + m := by
  unfold addSigned
  rw [Int.emod_eq_of_lt h hlt, Int.toNat_of_nonneg h]

variable {lo hi mrtt : Nat} {r : RttEst}

/-- The deviation loses a quarter of itself at most, and a new error is below `2 ^ 28`. -/
theorem Within.mdevStep_bounds (h : r.Within lo hi) (hhi : hi < 2 ^ 28)
    (hsample : lo ≤ sample mrtt ∧ sample mrtt ≤ hi) :
    0 ≤ r.mdev + r.mdevStep mrtt ∧ r.mdev + r.mdevStep mrtt ≤ 2 ^ 30 := by
  obtain ⟨hlower, hupper⟩ := h.srtt
  have hmdev := h.mdev
  have hbelow : r.err mrtt < 2 ^ 28 := by
    unfold err
    omega
  have habove : -2 ^ 28 < r.err mrtt := by
    unfold err
    omega
  unfold mdevStep
  split
  · dsimp only
    split <;> omega
  · omega

theorem estimate_later (hlater : r.srtt ≠ 0) (mrtt : Nat) :
    ((r.estimateFromLinuxTcp mrtt).1.srtt = addSigned r.srtt (r.err mrtt) ∧
      (r.estimateFromLinuxTcp mrtt).1.mdev = addSigned r.mdev (r.mdevStep mrtt) ∧
      (r.estimateFromLinuxTcp mrtt).1.mdevMax = PACKAGE_CONNECTION_MIN_RTO) ∧
    min (max r.mdevMax (addSigned r.mdev (r.mdevStep mrtt))) r.rttvar ≤
        (r.estimateFromLinuxTcp mrtt).1.rttvar ∧
      (r.estimateFromLinuxTcp mrtt).1.rttvar ≤
        max (max r.mdevMax (addSigned r.mdev (r.mdevStep mrtt))) r.rttvar := by
  have hvar : ∀ mdev,
      let mdevMax := max r.mdevMax mdev
      let rttvar := if r.mdevMax < mdev then max r.rttvar mdevMax else r.rttvar
      min mdevMax r.rttvar ≤
          (if mdevMax < rttvar then rttvar - (rttvar - mdevMax) / 4 else rttvar) ∧
        (if mdevMax < rttvar then rttvar - (rttvar - mdevMax) / 4 else rttvar) ≤
          max mdevMax r.rttvar := by
    intro mdev
    dsimp only
    split <;> split <;> omega
  unfold estimateFromLinuxTcp
  simp only [if_pos hlater]
  exact ⟨⟨rfl, rfl, rfl⟩, hvar _⟩

/-- One sample keeps the bounds, and the deviation does not wrap. -/
theorem estimate_within (h : r.srtt = 0 ∨ r.Within lo hi) (hlo : 0 < lo) (hhi : hi < 2 ^ 28)
    (hsample : lo ≤ sample mrtt ∧ sample mrtt ≤ hi) :
    (r.estimateFromLinuxTcp mrtt).1.Within lo hi ∧
    ((r.estimateFromLinuxTcp mrtt).1.mdev : Int) = r.mdevExact mrtt := by
  by_cases hfirst : r.srtt = 0
  · have htimes : word 32 (sample mrtt * 8) = sample mrtt * 8 ∧
        word 32 (sample mrtt * 2) = sample mrtt * 2 :=
      ⟨word_of_lt (by omega), word_of_lt (by omega)⟩
    have hnext : (r.estimateFromLinuxTcp mrtt).1 = { r with
        srtt := sample mrtt * 8
        mdev := sample mrtt * 2
        mdevMax := max (sample mrtt * 2) PACKAGE_CONNECTION_MIN_RTO
        rttvar := max (sample mrtt * 2) PACKAGE_CONNECTION_MIN_RTO } := by
      rw [← htimes.1, ← htimes.2]
      exact if_neg (not_not_intro hfirst)
    unfold mdevExact
    rw [hnext, if_pos hfirst]
    refine ⟨⟨?_, ?_, ?_, ?_⟩, ?_⟩ <;> simp only [PACKAGE_CONNECTION_MIN_RTO] <;> omega
  have hwithin := h.resolve_left hfirst
  have hstep := hwithin.mdevStep_bounds hhi hsample
  have hmdev := addSigned_eq hstep.1 (by omega)
  have hsrtt : (addSigned r.srtt (r.err mrtt) : Int) = r.srtt + r.err mrtt := by
    have := hwithin.srtt
    refine addSigned_eq ?_ ?_ <;> unfold err <;> omega
  obtain ⟨⟨hnext, hdev, hmax⟩, hvar⟩ := estimate_later hfirst mrtt
  unfold mdevExact
  rw [if_neg hfirst, hdev, hmdev]
  refine ⟨⟨?_, ?_, ?_, ?_⟩, rfl⟩
  · have := hwithin.srtt
    have herr : r.err mrtt = sample mrtt - (r.srtt / 8 : Nat) := rfl
    rw [hnext]
    omega
  · rw [hdev]
    omega
  · rw [hmax]
    decide
  · have := hwithin.mdevMax
    have := hwithin.rttvar
    omega

/-- The samples of a connection, from its start. -/
def estimates (samples : List Nat) : RttEst :=
  samples.foldl (fun r mrtt => (r.estimateFromLinuxTcp mrtt).1) {}

/-- After every sequence of samples below `2 ^ 28`: the smoothed estimate lies between the smallest
and the largest sample, where a sample of 0 counts as 1; the deviation does not wrap, the variance
term does not fall below its floor, and the timeout neither wraps nor falls below that floor. -/
theorem estimates_bounded (samples : List Nat) (mrtt : Nat)
    (hsamples : ∀ m ∈ samples ++ [mrtt], m < 2 ^ 28) :
    let next := (estimates samples).estimateFromLinuxTcp mrtt
    (∀ lo hi, (∀ m ∈ samples ++ [mrtt], lo ≤ sample m ∧ sample m ≤ hi) →
      lo ≤ next.1.srtt / 8 ∧ next.1.srtt / 8 ≤ hi) ∧
    (0 ≤ (estimates samples).mdevExact mrtt ∧
      (next.1.mdev : Int) = (estimates samples).mdevExact mrtt) ∧
    PACKAGE_CONNECTION_MIN_RTO ≤ next.1.rttvar ∧
    next.2 = next.1.srtt / 8 + next.1.rttvar ∧ PACKAGE_CONNECTION_MIN_RTO ≤ next.2 := by
  intro next
  have hkeeps : ∀ lo hi, 0 < lo → hi < 2 ^ 28 →
      (∀ m ∈ samples ++ [mrtt], lo ≤ sample m ∧ sample m ≤ hi) →
      next.1.Within lo hi ∧ (next.1.mdev : Int) = (estimates samples).mdevExact mrtt := by
    intro lo hi hlo hhi hall
    refine estimate_within ?_ hlo hhi (hall mrtt (by simp))
    induction samples using List.reverseRecOn with
    | nil => exact .inl rfl
    | append_singleton samples m ih =>
      have hnext : estimates (samples ++ [m]) = ((estimates samples).estimateFromLinuxTcp m).1 :=
        List.foldl_append
      rw [hnext]
      refine .inr (estimate_within (ih ?_ ?_) hlo hhi (hall m (by simp))).1
      · exact fun n hn => hsamples n (by simp at hn ⊢; tauto)
      · exact fun n hn => hall n (by simp at hn ⊢; tauto)
  have hsample : ∀ m ∈ samples ++ [mrtt], 1 ≤ sample m ∧ sample m < 2 ^ 28 := by
    intro m hm
    have := hsamples m hm
    unfold sample
    split <;> omega
  obtain ⟨hwithin, hmdev⟩ := hkeeps 1 (2 ^ 28 - 1) (by decide) (by decide) fun m hm =>
    ⟨(hsample m hm).1, Nat.le_sub_one_of_lt (hsample m hm).2⟩
  have hrto : next.2 = next.1.srtt / 8 + next.1.rttvar := by
    have := hwithin.srtt
    have := hwithin.rttvar
    have hword : word 32 (next.1.srtt / 8 + next.1.rttvar) = next.1.srtt / 8 + next.1.rttvar :=
      word_of_lt (by omega)
    exact hword
  refine ⟨fun lo hi hall => ?_, ⟨by omega, hmdev⟩, hwithin.rttvar.1, hrto, ?_⟩
  · have hsrtt := (hkeeps (max lo 1) (min hi (2 ^ 28 - 1)) ?_ ?_ fun m hm => ?_).1.srtt
    · omega
    · omega
    · omega
    · have := hsample m hm
      have := hall m hm
      omega
  · have := hwithin.rttvar.1
    omega

/-- The timeout after three samples, one of them 0. -/
theorem estimates_bounded_three :
    PACKAGE_CONNECTION_MIN_RTO ≤ ((estimates [100, 0]).estimateFromLinuxTcp 300).2 :=
  (estimates_bounded [100, 0] 300 (by decide)).2.2.2.2

/-- A sample of 0 gives an estimate above all samples. -/
theorem estimate_zero : ¬ ((estimates [0]).srtt / 8 ≤ 0) := by
  decide +kernel

end RttEst

end Bdt
