import Bdt.Connection.ConnectionCalls
import Bdt.Connection.PackageConnection

/-!
# What a close that fails has done

`BdtConnectionClose` as a whole, with its result. The section under `stateLock` decides the result,
the result decides whether the function goes on, and the state before the section decides how.
`closeAtomic_iff`: a close that fails has left the connection as it was, and a connection that became
closed was cleaned up, exactly for the connections that were established before, with a provider that
is not closed yet, or closed already.
-/

namespace Bdt

/-- The results of the close functions, `BFX_RESULT_SUCCESS` and `BFX_RESULT_INVALID_STATE`. -/
inductive CloseResult where
  | success
  | invalidState
  deriving DecidableEq

/-- What the close functions of the providers look at. -/
structure ProviderStates where
  packageConnection : PackageConnectionState
  /-- `sendClosed` of the stream connection. -/
  sendClosed : Bool

/-- `oldState < BDT_CONNECTION_STATE_ESTABLISH`. -/
def BdtConnectionState.beforeEstablish : BdtConnectionState → Bool
  | .none | .connecting => true
  | .establish | .closing | .closed => false

/-- The result of `PackageConnectionClose`; `BfxAtomicCompareAndSwap32` gives the old state. -/
def packageConnectionClose (state : PackageConnectionState) : CloseResult :=
  if state = .close then .invalidState
  else if state ≠ .closing then .success
  else .invalidState

/-- The result of `StreamConnectionClose`. -/
def streamConnectionClose (sendClosed : Bool) : CloseResult :=
  if sendClosed then .invalidState else .success

/-- The local values of `BdtConnectionClose` behind its section. -/
structure CloseLocals where
  connection : BdtConnection
  oldState : BdtConnectionState
  result : CloseResult := .success
  connector : Option ConnectionConnector := none
  acceptor : Option ConnectionAcceptor := none
  userData : Option Nat := none
  providerType : ProviderType := .waiting

/-- A connection after `BdtConnectionClose`, with the result and what was done outside of it. -/
structure CloseOutcome where
  result : CloseResult
  connection : BdtConnection
  done : List ConnectionAction := []

namespace BdtConnection

/-- The section under `stateLock`. -/
def closeSection (c : BdtConnection) : CloseLocals :=
  let locals : CloseLocals :=
    if c.state.beforeEstablish then
      { connection := c.abandon
        oldState := c.state
        connector := c.connector
        acceptor := c.acceptor
        userData := c.connectUserData }
    else { connection := c, oldState := c.state }
  -- the two conditions are not alternatives
  if c.state = .establish then
    { locals with
      connection := { locals.connection with state := .closing }
      providerType := c.providerType }
  else { locals with result := .invalidState }

/-- `BdtConnectionClose`. -/
def closeWith (providers : ProviderStates) (c : BdtConnection) : CloseOutcome :=
  let locals := c.closeSection
  if locals.result ≠ .success then
    { result := locals.result, connection := locals.connection }
  else if locals.oldState.beforeEstablish then
    { result := locals.result
      connection := locals.connection
      done := releaseUserData locals.userData ++
        (match locals.connector, locals.acceptor with
          | some connector, _ => resetConnector connector
          | none, some acceptor => resetAcceptor acceptor
          | none, none => []) ++ [.effect .removed] }
  else
    match locals.providerType with
    | .package =>
      { result := packageConnectionClose providers.packageConnection
        connection := locals.connection
        done := [.effect .closeProvider] }
    | .stream =>
      { result := streamConnectionClose providers.sendClosed
        connection := locals.connection
        done := [.effect .closeProvider] }
    | .waiting => { result := .success, connection := locals.connection }

/-- The provider of the connection is closed already. -/
def ProviderClosed (providers : ProviderStates) (c : BdtConnection) : Prop :=
  c.providerType = .package ∧ providers.packageConnection ≠ .establish ∨
    c.providerType = .stream ∧ providers.sendClosed = true

/-- An error changes nothing, and a connection that becomes closed is cleaned up. -/
structure CloseAtomic (c : BdtConnection) (outcome : CloseOutcome) : Prop where
  state : outcome.result ≠ .success → outcome.connection.state = c.state
  callbacks : outcome.result ≠ .success →
    outcome.connection.connectCallback = c.connectCallback ∧
      outcome.connection.faCallback = c.faCallback
  held : outcome.result ≠ .success →
    outcome.connection.connector = c.connector ∧ outcome.connection.acceptor = c.acceptor
  cleaned : c.state ≠ .closed → outcome.connection.state = .closed →
    c.resetHeld ⊆ outcome.done ∧ releaseUserData c.connectUserData ⊆ outcome.done ∧
      .effect .removed ∈ outcome.done

theorem packageConnectionClose_eq_success {state : PackageConnectionState} :
    packageConnectionClose state = .success ↔ state = .establish := by
  cases state <;> simp [packageConnectionClose]

theorem streamConnectionClose_eq_success {sendClosed : Bool} :
    streamConnectionClose sendClosed = .success ↔ sendClosed = false := by
  cases sendClosed <;> simp [streamConnectionClose]

variable {providers : ProviderStates} {c : BdtConnection}

/-- Before `BDT_CONNECTION_STATE_ESTABLISH` the connection is abandoned, and the call fails. -/
theorem closeWith_before (h : c.state.beforeEstablish = true) :
    c.closeWith providers = { result := .invalidState, connection := c.abandon } := by
  have hne : c.state ≠ .establish := by
    intro hstate
    rw [hstate] at h
    cases h
  have hsection : c.closeSection.result = .invalidState ∧ c.closeSection.connection = c.abandon := by
    simp only [closeSection, if_pos h, if_neg hne, and_self]
  rw [closeWith, if_pos (by rw [hsection.1]; nofun), hsection.1, hsection.2]

theorem closeWith_behind (h : c.state = .closing ∨ c.state = .closed) :
    c.closeWith providers = { result := .invalidState, connection := c } := by
  have hbefore : c.state.beforeEstablish = false := by
    rcases h with h | h <;> rw [h] <;> rfl
  have hne : c.state ≠ .establish := by
    rcases h with h | h <;> rw [h] <;> nofun
  have hsection : c.closeSection.result = .invalidState ∧ c.closeSection.connection = c := by
    simp only [closeSection, hbefore, Bool.false_eq_true, if_false, if_neg hne, and_self]
  rw [closeWith, if_pos (by rw [hsection.1]; nofun), hsection.1, hsection.2]

theorem closeWith_establish (providers : ProviderStates) (h : c.state = .establish) :
    (c.closeWith providers).connection = { c with state := .closing } ∧
      ((c.closeWith providers).result = .success ↔ ¬ c.ProviderClosed providers) ∧
      (c.closeWith providers).done =
        if c.providerType = .waiting then [] else [.effect .closeProvider] := by
  have hsection : c.closeSection =
      { connection := { c with state := .closing }
        oldState := .establish
        providerType := c.providerType } := by
    simp only [closeSection, h, BdtConnectionState.beforeEstablish, Bool.false_eq_true, if_false,
      if_true]
  unfold closeWith ProviderClosed
  rw [hsection]
  cases hprovider : c.providerType with
  | waiting =>
    refine ⟨rfl, iff_of_true rfl ?_, rfl⟩
    rintro (⟨hpackage, -⟩ | ⟨hstream, -⟩)
    · cases hpackage
    · cases hstream
  | package =>
    refine ⟨rfl, ?_, rfl⟩
    show packageConnectionClose providers.packageConnection = .success ↔ _
    rw [packageConnectionClose_eq_success]
    simp
  | stream =>
    refine ⟨rfl, ?_, rfl⟩
    show streamConnectionClose providers.sendClosed = .success ↔ _
    rw [streamConnectionClose_eq_success]
    simp

theorem close_eq_closeWith (caller : Nat) (providers : ProviderStates) (c : BdtConnection) :
    (c.close caller).connection = (c.closeWith providers).connection ∧
      (c.close caller).more = (c.closeWith providers).done := by
  unfold close
  cases hstate : c.state with
  | none =>
    rw [closeWith_before (by rw [hstate]; rfl)]
    exact ⟨rfl, rfl⟩
  | connecting =>
    rw [closeWith_before (by rw [hstate]; rfl)]
    exact ⟨rfl, rfl⟩
  | establish =>
    obtain ⟨hconnection, -, hdone⟩ := closeWith_establish providers hstate
    exact ⟨hconnection.symm, hdone.symm⟩
  | closing =>
    rw [closeWith_behind (.inl hstate)]
    exact ⟨rfl, rfl⟩
  | closed =>
    rw [closeWith_behind (.inr hstate)]
    exact ⟨rfl, rfl⟩

/-- A close is atomic exactly where the connection was established, with a provider that is not
closed yet, or was not before that and is not any more. -/
theorem closeAtomic_iff (providers : ProviderStates) (c : BdtConnection) :
    c.CloseAtomic (c.closeWith providers) ↔
      c.state ≠ .none ∧ c.state ≠ .connecting ∧
        (c.state = .establish → ¬ c.ProviderClosed providers) := by
  have hbefore (h : c.state.beforeEstablish = true) (hne : c.state ≠ .closed) :
      ¬ c.CloseAtomic (c.closeWith providers) := by
    intro hatomic
    rw [closeWith_before h] at hatomic
    exact hne (hatomic.state nofun).symm
  cases hstate : c.state with
  | none =>
    refine iff_of_false (hbefore ?_ ?_) fun h => h.1 rfl
    · rw [hstate]
      rfl
    · rw [hstate]
      nofun
  | connecting =>
    refine iff_of_false (hbefore ?_ ?_) fun h => h.2.1 rfl
    · rw [hstate]
      rfl
    · rw [hstate]
      nofun
  | establish =>
    obtain ⟨hconnection, hresult, -⟩ := closeWith_establish providers hstate
    constructor
    · intro hatomic
      refine ⟨nofun, nofun, fun _ => hresult.mp ?_⟩
      -- a failure would leave the state
      by_contra hfailed
      have hsame := hatomic.state hfailed
      rw [hconnection, hstate] at hsame
      cases hsame
    rintro ⟨-, -, hopen⟩
    have hsuccess := hresult.mpr (hopen rfl)
    refine ⟨absurd hsuccess, absurd hsuccess, absurd hsuccess, fun _ hclosed => ?_⟩
    rw [hconnection] at hclosed
    cases hclosed
  | closing =>
    refine iff_of_true ?_ ⟨nofun, nofun, nofun⟩
    rw [closeWith_behind (.inl hstate)]
    refine ⟨fun _ => rfl, fun _ => ⟨rfl, rfl⟩, fun _ => ⟨rfl, rfl⟩, fun _ hclosed => ?_⟩
    cases hstate.symm.trans hclosed
  | closed =>
    refine iff_of_true ?_ ⟨nofun, nofun, nofun⟩
    rw [closeWith_behind (.inr hstate)]
    exact ⟨fun _ => rfl, fun _ => ⟨rfl, rfl⟩, fun _ => ⟨rfl, rfl⟩, fun hne _ => absurd hstate hne⟩

/-- A connection that `BdtConnectionConnect` was called for, with a connector. -/
def connectingConnection : BdtConnection :=
  { ConnectionCreate (.ofList 32 [1]) 64 1 0 false with
    state := .connecting
    connectCallback := true
    connectUserData := some 5
    connector := some ⟨0, .package⟩
    allocated := 1 }

/-- The call fails, and has closed the connection without cleaning it up. -/
theorem close_while_connecting :
    ¬ connectingConnection.CloseAtomic (connectingConnection.closeWith ⟨.establish, false⟩) := by
  intro hatomic
  cases hatomic.state nofun

end BdtConnection

end Bdt
