import Bdt.Connection.Config
import Bdt.Connection.RecvQueue
import Mathlib.Data.Rat.Floor

/-!
# The congestion control

A model of `LedbatCc.imp.inl`. The window is computed in `double`: `PackageEnv.round` stands for the
rounding of the platform, and is applied to the result of every operation. Nothing below depends on
it, because the code never lets the window fall under `CONGESTION_LEDBET_MIN_CWND` segments.
-/

namespace Bdt

open Base

/-- What a connection depends on besides its state: its configuration, the session id that the
remote peer gave it, and how the result of a `double` operation is rounded. -/
structure PackageEnv where
  config : BdtPackageConnectionConfig
  remoteId : Nat
  round : ℚ → ℚ

def CONGESTION_LEDBAT_MAX : Int := 2 ^ 62
def CONGESTION_LEDBET_BASE_SAMPLE_COUNT : Nat := 10
def CONGESTION_LEDBET_CURRENT_DELAY_SAMPLE_COUNT : Nat := 4
def CONGESTION_LEDBET_TARGET_TIME : Int := 100
def CONGESTION_LEDBET_INIT_CWND : Nat := 2
def CONGESTION_LEDBET_MIN_CWND : Nat := 2
def MAX_CWND_INCREASE_BYTES_PER_RTT : Nat := 8000
def MAX_INT32 : Nat := 2 ^ 31 - 1

/-- `CcState`. -/
inductive CcState where
  | open
  | lost
  | rto
  | close
  deriving DecidableEq, Repr

/-- `LedbatDelayEstimateSample`. -/
structure LedbatDelayEstimateSample where
  streamPos : Nat
  sendTime : Nat
  packageId : Nat
  deriving DecidableEq, Repr

/-- The `sample` part of `LedbatCc`. -/
structure LedbatSample where
  baseHeadIndex : Nat := 0
  baseDelaySamples : List Int :=
    List.replicate CONGESTION_LEDBET_BASE_SAMPLE_COUNT CONGESTION_LEDBAT_MAX
  currHeadIndex : Nat := 0
  currDelaySamples : List Int :=
    List.replicate CONGESTION_LEDBET_CURRENT_DELAY_SAMPLE_COUNT CONGESTION_LEDBAT_MAX
  rollcoverTime : Int := 0
  maxStreamPos : Nat := 0
  estimate : List LedbatDelayEstimateSample := []
  packageId : Nat := 0
  prevEstTime : Nat := 0
  deriving DecidableEq, Repr

/-- `LedbatCc`. -/
structure LedbatCc where
  sample : LedbatSample := {}
  wnd : Nat
  mss : Nat
  mtu : Nat
  newAck : Bool := false
  remotePackageId : Nat := 0
  deriving DecidableEq, Repr

/-- `LedbatCcNew`. -/
def LedbatCc.new (mtu mss : Nat) : LedbatCc where
  wnd := mss * CONGESTION_LEDBET_INIT_CWND
  mss := mss
  mtu := mtu

namespace LedbatSample

/-- `CompareStreamPosWith`. -/
def compareStreamPosWith (streamPos : Nat) : List BdtStreamRange → Bool
  | [] => false
  | range :: rest =>
    if range.length = 0 then false
    else if range.pos < streamPos ∧ streamPos ≤ range.pos + range.length then true
    else compareStreamPosWith streamPos rest

/-- `UpdateBaseDelay`. -/
def updateBaseDelay (s : LedbatSample) (now : Nat) (delay : Int) : LedbatSample :=
  if (now : Int) - s.rollcoverTime < 60 * 1000 * 1000 then
    let tailIndex :=
      if s.baseHeadIndex = 0 then CONGESTION_LEDBET_BASE_SAMPLE_COUNT - 1 else s.baseHeadIndex - 1
    { s with
      baseDelaySamples := s.baseDelaySamples.modify tailIndex fun old => min old delay }
  else
    { s with
      rollcoverTime := now
      baseDelaySamples := s.baseDelaySamples.set s.baseHeadIndex delay
      baseHeadIndex :=
        if s.baseHeadIndex + 1 = CONGESTION_LEDBET_BASE_SAMPLE_COUNT then 0
        else s.baseHeadIndex + 1 }

/-- `UpdateCurrDelay`. -/
def updateCurrDelay (s : LedbatSample) (delay : Int) : LedbatSample :=
  { s with
    currDelaySamples := s.currDelaySamples.set s.currHeadIndex delay
    currHeadIndex :=
      if s.currHeadIndex + 1 = CONGESTION_LEDBET_CURRENT_DELAY_SAMPLE_COUNT then 0
      else s.currHeadIndex + 1 }

/-- A 64-bit word read as a signed number. -/
def int64 (n : Nat) : Int :=
  if n < 2 ^ 63 then n else (n : Int) - 2 ^ 64

/-- The loop of `UpdateSample`: drop the samples that the package acknowledges, and measure the
delay of the one whose package id it returns. -/
def sampleLoop (package : Bdt_SessionDataPackage) (packageId : Nat) :
    List LedbatDelayEstimateSample → Int → List LedbatDelayEstimateSample × Int
  | [], delay => ([], delay)
  | curr :: rest, delay =>
    if curr.streamPos ≤ package.ackStreamPos ∨
        compareStreamPosWith curr.streamPos (package.sackArray.getD []) then
      sampleLoop package packageId rest
        (if 0 < packageId ∧ packageId = curr.packageId then
          (int64 package.sendTime - int64 curr.sendTime).tdiv 1000
        else delay)
    else (curr :: rest, delay)

/-- `UpdateSample`. -/
def updateSample (s : LedbatSample) (now : Nat) (package : Bdt_SessionDataPackage) : LedbatSample :=
  let packageId :=
    match package.packageIDPart with
    | some part => if part.totalRecv = 0 then part.packageId else 0
    | none => 0
  let (estimate, delay) := sampleLoop package packageId s.estimate CONGESTION_LEDBAT_MAX
  let s := { s with estimate := estimate }
  if delay = CONGESTION_LEDBAT_MAX then s
  else (s.updateBaseDelay now delay).updateCurrDelay delay

end LedbatSample

namespace LedbatCc

/-- The smallest sample. -/
def minDelay (samples : List Int) : Int :=
  samples.tail.foldl min (samples.headD 0)

/-- The new window of `LedbatCcOnAck`, before it is cut to an integer. -/
def scaledWnd (env : PackageEnv) (queueDelay : Int) (nAcks wnd : Nat) : ℚ :=
  let delayFactor :=
    env.round (env.round (CONGESTION_LEDBET_TARGET_TIME - queueDelay : Int) /
      (CONGESTION_LEDBET_TARGET_TIME : Int))
  let wndFactor := env.round ((min nAcks wnd : Nat) / (max wnd nAcks : Nat))
  let scaledGain := env.round (env.round (MAX_CWND_INCREASE_BYTES_PER_RTT * wndFactor) * delayFactor)
  env.round (scaledGain + wnd)

/-- `LedbatCcOnAck`. `none` when the new window does not fit into its 32-bit variable. -/
def onAck (env : PackageEnv) (cc : LedbatCc) (now : Nat) (package : Bdt_SessionDataPackage)
    (nAcks : Nat) : Option LedbatCc :=
  let sample := cc.sample.updateSample now package
  let cc := { cc with sample := sample }
  let minCurrDelay := minDelay sample.currDelaySamples
  let minBaseDelay := minDelay sample.baseDelaySamples
  if minBaseDelay = CONGESTION_LEDBAT_MAX then some cc
  else
    let minWnd := CONGESTION_LEDBET_MIN_CWND * cc.mss
    let wnd := scaledWnd env (minCurrDelay - minBaseDelay) nAcks cc.wnd
    if wnd < minWnd then some { cc with wnd := word 32 minWnd }
    else if wnd < 2 ^ 32 then some { cc with wnd := ⌊wnd⌋.toNat }
    else none

/-- `LedbatCcOnChangeState`. -/
def onChangeState (cc : LedbatCc) (newState : CcState) : LedbatCc :=
  let minWnd := CONGESTION_LEDBET_MIN_CWND * cc.mss
  match newState with
  | .rto => { cc with wnd := word 32 minWnd }
  | .lost => { cc with wnd := if cc.wnd / 2 < minWnd then word 32 minWnd else cc.wnd / 2 }
  | _ => cc

/-- The head of `LedbatCcOnSend`: the package gets a send time, and the package id that the peer
asked to have returned. -/
def stampPackage (cc : LedbatCc) (now : Nat) (package : Bdt_SessionDataPackage) :
    Bdt_SessionDataPackage :=
  { package with
    sendTime := if package.sendTime = 0 then now else package.sendTime
    packageIDPart :=
      if cc.remotePackageId = 0 then package.packageIDPart
      else some { totalRecv := 0, packageId := cc.remotePackageId } }

/-- The samples of `LedbatCcOnSend` for a package with data up to `streamPos`: new data may start a
sample, whose package id goes into the package unless one is there; a resend drops its sample. -/
def sampleSend (s : LedbatSample) (now streamPos : Nat) (package : Bdt_SessionDataPackage) :
    LedbatSample × Bdt_SessionDataPackage :=
  if streamPos > s.maxStreamPos then
    if 30 * 1000 ≤ wordSub 64 package.sendTime s.prevEstTime then
      match package.packageIDPart with
      | some _ =>
        ({ s with
          prevEstTime := package.sendTime
          maxStreamPos := streamPos
          estimate := s.estimate ++ [⟨streamPos, now, 0⟩] }, package)
      | none =>
        let packageId := s.packageId + 1
        ({ s with
          prevEstTime := package.sendTime
          maxStreamPos := streamPos
          estimate := s.estimate ++ [⟨streamPos, now, packageId⟩]
          packageId := if packageId = MAX_INT32 then 0 else packageId },
          { package with packageIDPart := some { totalRecv := 1, packageId := packageId } })
    else (s, package)
  else
    ({ s with estimate := s.estimate.eraseP fun sample => sample.streamPos = streamPos }, package)

/-- `LedbatCcOnSend`. -/
def onSend (cc : LedbatCc) (now : Nat) (package : Bdt_SessionDataPackage) :
    LedbatCc × Bdt_SessionDataPackage :=
  let package := cc.stampPackage now package
  let cc := { cc with remotePackageId := 0 }
  if package.payloadLength = 0 then (cc, package)
  else
    let (sample, package) :=
      sampleSend cc.sample now (package.streamPos + package.payloadLength) package
    ({ cc with sample := sample }, package)

/-- `LedbatCcOnData`. The flag is true for `BFX_RESULT_SUCCESS`: an ack is due. -/
def onData (cc : LedbatCc) (package : Option Bdt_SessionDataPackage) (type : RecvPackageType) :
    Bool × LedbatCc :=
  if type ≠ .none ∧ type ≠ .outOfBuffer then
    (true, { cc with
      newAck := true
      remotePackageId :=
        match package.bind (·.packageIDPart) with
        | some part => if part.totalRecv = 1 then part.packageId else cc.remotePackageId
        | none => cc.remotePackageId })
  else (false, cc)

/-- `LedbatCcTrySendPayload`: the number of bytes the window has room for, at most the mtu. -/
def trySendPayload (cc : LedbatCc) (flight : Nat) : Nat :=
  if flight < cc.wnd then min (cc.wnd - flight) cc.mtu else 0

/-- `LedbatCcTrySendAck`. -/
def trySendAck (cc : LedbatCc) : Bool × LedbatCc :=
  (cc.newAck, { cc with newAck := false })

/-! ## The window -/

/-- The window holds at least `CONGESTION_LEDBET_MIN_CWND` segments and fits into its variable. -/
structure Wf (config : BdtPackageConnectionConfig) (cc : LedbatCc) : Prop where
  mtu_eq : cc.mtu = config.mtu
  mss_eq : cc.mss = config.mss
  min_le : 2 * config.mss ≤ cc.wnd
  lt : cc.wnd < 2 ^ 32

theorem wf_new (config : BdtPackageConnectionConfig) : Wf config (new config.mtu config.mss) := by
  have := config.mss_lt
  refine ⟨rfl, rfl, ?_, ?_⟩ <;> simp only [new, CONGESTION_LEDBET_INIT_CWND] <;> omega

namespace Wf

variable {config : BdtPackageConnectionConfig} {cc cc' : LedbatCc}

theorem onAck (h : Wf config cc) {env : PackageEnv} {now nAcks : Nat}
    {package : Bdt_SessionDataPackage} (ha : cc.onAck env now package nAcks = some cc') :
    Wf config cc' ∧ cc'.newAck = cc.newAck := by
  have hmin : word 32 (CONGESTION_LEDBET_MIN_CWND * cc.mss) = 2 * config.mss := by
    rw [h.mss_eq]
    exact word_of_lt config.mss_lt
  unfold LedbatCc.onAck at ha
  simp only at ha
  split at ha
  · cases ha
    exact ⟨⟨h.mtu_eq, h.mss_eq, h.min_le, h.lt⟩, rfl⟩
  split at ha
  · cases ha
    refine ⟨⟨h.mtu_eq, h.mss_eq, ?_, ?_⟩, rfl⟩ <;> simp only [hmin]
    · exact Nat.le_refl _
    · exact config.mss_lt
  case isFalse hlow =>
  split at ha
  case isFalse => cases ha
  case isTrue hhigh =>
  cases ha
  simp only [h.mss_eq, CONGESTION_LEDBET_MIN_CWND, not_lt] at hlow
  have hfloor : ((2 * config.mss : Nat) : Int) ≤ ⌊scaledWnd env _ nAcks cc.wnd⌋ :=
    Int.le_floor.mpr (by exact_mod_cast hlow)
  have hceil : ⌊scaledWnd env _ nAcks cc.wnd⌋ < (2 ^ 32 : Int) :=
    Int.floor_lt.mpr (by exact_mod_cast hhigh)
  refine ⟨⟨h.mtu_eq, h.mss_eq, ?_, ?_⟩, rfl⟩ <;> simp only <;> omega

theorem onChangeState (h : Wf config cc) (newState : CcState) :
    Wf config (cc.onChangeState newState) ∧ (cc.onChangeState newState).newAck = cc.newAck := by
  have hmin : word 32 (CONGESTION_LEDBET_MIN_CWND * cc.mss) = 2 * config.mss := by
    rw [h.mss_eq]
    exact word_of_lt config.mss_lt
  have hlt := h.lt
  have hmss := config.mss_lt
  cases newState with
  | «open» => exact ⟨h, rfl⟩
  | close => exact ⟨h, rfl⟩
  | rto =>
    refine ⟨⟨h.mtu_eq, h.mss_eq, ?_, ?_⟩, rfl⟩ <;> simp only [LedbatCc.onChangeState, hmin] <;> omega
  | lost =>
    refine ⟨⟨h.mtu_eq, h.mss_eq, ?_, ?_⟩, rfl⟩ <;>
      simp only [LedbatCc.onChangeState, hmin] <;> rw [h.mss_eq, CONGESTION_LEDBET_MIN_CWND] <;>
      split <;> omega

end Wf

/-- A sample sets nothing of the package but its package id. -/
theorem sampleSend_package (s : LedbatSample) (now streamPos : Nat)
    (package : Bdt_SessionDataPackage) :
    ∃ packageIDPart, (sampleSend s now streamPos package).2 =
      { package with packageIDPart := packageIDPart } := by
  unfold sampleSend
  split
  · split
    · split <;> exact ⟨_, rfl⟩
    · exact ⟨package.packageIDPart, rfl⟩
  · exact ⟨package.packageIDPart, rfl⟩

/-- Sending a package changes neither the window nor the pending ack, and sets only the send time
and the package id of the package. -/
theorem onSend_fields (cc : LedbatCc) (now : Nat) (package : Bdt_SessionDataPackage) :
    (cc.onSend now package).1.wnd = cc.wnd ∧ (cc.onSend now package).1.mtu = cc.mtu ∧
    (cc.onSend now package).1.mss = cc.mss ∧ (cc.onSend now package).1.newAck = cc.newAck ∧
    ∃ sendTime packageIDPart, (cc.onSend now package).2 =
      { package with sendTime := sendTime, packageIDPart := packageIDPart } := by
  unfold onSend
  simp only
  split
  · exact ⟨rfl, rfl, rfl, rfl, _, _, rfl⟩
  obtain ⟨packageIDPart, h⟩ := sampleSend_package cc.sample now
    ((cc.stampPackage now package).streamPos + (cc.stampPackage now package).payloadLength)
    (cc.stampPackage now package)
  exact ⟨rfl, rfl, rfl, rfl, (cc.stampPackage now package).sendTime, packageIDPart, h⟩

theorem onData_fields (cc : LedbatCc) (package : Option Bdt_SessionDataPackage)
    (type : RecvPackageType) :
    (cc.onData package type).2.wnd = cc.wnd ∧ (cc.onData package type).2.mtu = cc.mtu ∧
    (cc.onData package type).2.mss = cc.mss := by
  unfold LedbatCc.onData
  split <;> exact ⟨rfl, rfl, rfl⟩

end LedbatCc

end Bdt
