import Bdt.Base.Calls
import Bdt.Base.Transition
import Bdt.Connection.BdtConnection
import Bdt.Protocol.SessionDataPackage

/-!
# The calls of a connection

A model of the functions of `Connection.imp.inl` that change the state, the connector, the acceptor
and the provider of a connection. Each is cut at the sections that it executes under `stateLock`: a
section is one step, and so is each of the actions behind it, so that the functions may run in
several threads, in timers and inside the callbacks. `perform` is one such step.

What a function does outside the connection is an entry of the history. A connector and an acceptor
are numbered when they are allocated, so that the history shows which one is freed. Reading a
connector or an acceptor that is null is the end of the program: there is no next step.
-/

namespace Bdt

open Base

/-- What `Bdt_ConnectionEstablishWithPackage` and `Bdt_ConnectionEstablishWithStream` are given. -/
inductive Establish where
  | package (sessionData : Option Bdt_SessionDataPackage)
  | stream (tcpInterface : Nat)
  deriving DecidableEq

/-- The type of the provider. -/
def Establish.provider : Establish → ProviderType
  | .package _ => .package
  | .stream _ => .stream

/-- What a connection has to free or to give back. -/
inductive ConnectionToken where
  /-- The connector or the acceptor with this number. -/
  | object (number : Nat)
  | userData (userData : Nat)
  deriving DecidableEq

/-- What a function does behind a section. -/
inductive ConnectionEffect where
  | released (token : ConnectionToken)
  /-- `Bdt_RemoveConnection`. -/
  | removed
  | connectResult (error : Nat)
  | firstAnswer
  | resetInterface (tcpInterface : Nat)
  | cancelBuild (builder : Nat)
  | toBuilder (builder : Nat)
  | toProvider (sessionData : Bdt_SessionDataPackage)
  | closeProvider
  | resetProvider
  deriving DecidableEq

/-- What was done; in a section, with the number of the call that did it. -/
inductive ConnectionEntry where
  | entered (caller : Nat) (state : BdtConnectionState)
  | installed (caller : Nat) (provider : ProviderType)
  | acquired (token : ConnectionToken)
  | did (effect : ConnectionEffect)
  deriving DecidableEq

/-- The sections of the functions, and what is done between them. -/
inductive ConnectionAction where
  /-- `BdtConnectionConnect`, where `via` is the connector that `BdtTunnel_ConnectConnection` finds. -/
  | connect (connectUserData faUserData : Option Nat) (firstQuestion : List UInt8)
      (via : Option ConnectorIns)
  /-- `Bdt_ConnectionConnectWithBuilder`, `..Stream` and `..Package`. -/
  | connectWith (ins : ConnectorIns)
  /-- `ConnectionTryEnterConnecting`. -/
  | enterConnecting (connector : ConnectionConnector)
  /-- `ConnectionTryFinishConnectingWithError`: the timeout, and the errors of the tcp interface and
  of the builder. -/
  | finishConnecting (error : Nat)
  | close
  | reset
  | pushPackage (sessionData : Bdt_SessionDataPackage)
  | onSynSessionData
  | onAckAckSessionData (sessionData : Bdt_SessionDataPackage)
  | onAckSessionData (sessionData : Bdt_SessionDataPackage)
  | acceptWithBuilder (builder : Nat)
  | acceptWithReverseStream (tcpInterface : Nat)
  | onTcpFirstSyn (tcpInterface : Nat)
  /-- `ConnectionOnTcpFirstSynPackage` looks whether the connection is confirmed. -/
  | tcpFirstSynBound (tcpInterface : Nat)
  | onTcpFirstAck (tcpInterface : Nat)
  | onTcpFirstAckResp (tcpInterface : Nat)
  | onTcpFirstAckAckResp (tcpInterface : Nat)
  /-- `BdtConfirmConnection`, which sets the answer, and goes on under the lock. -/
  | confirm (answer : List UInt8) (connectUserData : Option Nat)
  | confirmAnswer (answer : List UInt8) (connectUserData : Option Nat)
  | confirmAcceptor (connectUserData : Option Nat)
  | fireFirstAnswer (remoteId : Nat) (answer : List UInt8)
  | takeFirstAnswerCallback
  /-- `Bdt_ConnectionTryEnterEstablish`. The caller then establishes if it could enter, or `always`. -/
  | tryEnterEstablish (always : Bool) (establish : Establish)
  | establishWith (establish : Establish)
  | effect (effect : ConnectionEffect)
  deriving DecidableEq

/-- The functions that are called from outside. -/
def ConnectionAction.isEntry : ConnectionAction → Bool
  | .connect .. | .finishConnecting _ | .close | .reset | .pushPackage _ | .acceptWithBuilder _
  | .acceptWithReverseStream _ | .onTcpFirstSyn _ | .onTcpFirstAck _ | .onTcpFirstAckResp _
  | .onTcpFirstAckAckResp _ | .confirm .. | .fireFirstAnswer .. => true
  -- the results of a builder
  | .tryEnterEstablish always _ => !always
  | _ => false

/-- A connection after an action, what the action did, and what it leaves to be done. -/
structure ActionResult where
  connection : BdtConnection
  entries : List ConnectionEntry := []
  more : List ConnectionAction := []

namespace BdtConnection

/-! ## What is given back -/

/-- The call of `lpfnAddRefUserData`. -/
def addRefUserData (userData : Option Nat) : List ConnectionEntry :=
  (userData.map fun u => .acquired (.userData u)).toList

/-- The call of `lpfnReleaseUserData`. -/
def releaseUserData (userData : Option Nat) : List ConnectionAction :=
  (userData.map fun u => .effect (.released (.userData u))).toList

/-- `ConnectionCloseConnector` and `ConnectionCloseAcceptor`. -/
def closeObject (number : Nat) : List ConnectionAction :=
  [.effect (.released (.object number))]

/-- `ConnectionResetConnector`. -/
def resetConnector (connector : ConnectionConnector) : List ConnectionAction :=
  (match connector.ins with
    | .stream tcpInterface => [.effect (.resetInterface tcpInterface)]
    | .builder builder => [.effect (.cancelBuild builder)]
    | .reverseStream | .package => []) ++ closeObject connector.number

/-- `ConnectionResetAcceptor`. -/
def resetAcceptor (acceptor : ConnectionAcceptor) : List ConnectionAction :=
  (match acceptor.ins with
    | .maybeBuilder (some tcpInterface) _ => [.effect (.resetInterface tcpInterface)]
    | .maybeBuilder none _ => []
    | .builder builder => [.effect (.cancelBuild builder)]
    | .reverseStream tcpInterface _ _ => [.effect (.resetInterface tcpInterface)]) ++
      closeObject acceptor.number

/-- The connector, or else the acceptor, is reset. -/
def resetHeld (c : BdtConnection) : List ConnectionAction :=
  match c.connector, c.acceptor with
  | some connector, _ => resetConnector connector
  | none, some acceptor => resetAcceptor acceptor
  | none, none => []

/-- The connector, or else the acceptor, is closed. -/
def closeHeld (c : BdtConnection) : List ConnectionAction :=
  match c.connector, c.acceptor with
  | some connector, _ => closeObject connector.number
  | none, some acceptor => closeObject acceptor.number
  | none, none => []

/-- `ConnectionFireConnectResult`. -/
def connectResult (callback : Bool) (error : Nat) : List ConnectionAction :=
  if callback then [.effect (.connectResult error)] else []

/-- The call goes on without a change. -/
def unchanged (c : BdtConnection) (more : List ConnectionAction) : ActionResult where
  connection := c
  more := more

/-! ## Connecting -/

/-- `ConnectionTryEnterConnectWaiting`, and what `BdtConnectionConnect` does behind it. -/
def connect (caller : Nat) (connectUserData faUserData : Option Nat) (firstQuestion : List UInt8)
    (via : Option ConnectorIns) (c : BdtConnection) : ActionResult :=
  let references := addRefUserData connectUserData ++ addRefUserData faUserData
  if c.state ≠ .none then
    { connection := c
      entries := references
      more := releaseUserData connectUserData ++ releaseUserData faUserData }
  else
    { connection := { c with
        state := .connecting
        connectCallback := true
        connectUserData := connectUserData
        faCallback := true
        faUserData := faUserData
        firstQuestion := some firstQuestion }
      entries := references ++ [.entered caller .connecting]
      more := (via.map ConnectionAction.connectWith).toList }

/-- A connector is allocated. -/
def connectWith (ins : ConnectorIns) (c : BdtConnection) : ActionResult where
  connection := { c with allocated := c.allocated + 1 }
  entries := [.acquired (.object c.allocated)]
  more := [.enterConnecting ⟨c.allocated, ins⟩]

/-- `ConnectionTryEnterConnecting`. -/
def enterConnecting (connector : ConnectionConnector) (c : BdtConnection) : ActionResult :=
  if c.state ≠ .connecting then c.unchanged (resetConnector connector)
  else { connection := { c with connector := some connector } }

/-- An acceptor is allocated, and the connection is connecting. -/
def bindAcceptor (caller : Nat) (ins : AcceptorIns) (c : BdtConnection) : ActionResult where
  connection := { c with
    state := .connecting
    acceptor := some ⟨c.allocated, ins⟩
    allocated := c.allocated + 1 }
  entries := [.acquired (.object c.allocated), .entered caller .connecting]

/-- `ConnectionOnSynSessionData`. -/
def onSynSessionData (caller : Nat) (c : BdtConnection) : ActionResult :=
  if c.passive ∧ c.state = .none then c.bindAcceptor caller (.maybeBuilder none false)
  else c.unchanged []

/-- `Bdt_ConnectionAcceptWithReverseStream`. -/
def acceptWithReverseStream (caller tcpInterface : Nat) (c : BdtConnection) : ActionResult :=
  if c.passive ∧ c.state = .none then
    c.bindAcceptor caller (.reverseStream tcpInterface false false)
  else c.unchanged []

/-- `Bdt_ConnectionAcceptWithBuilder`. -/
def acceptWithBuilder (caller builder : Nat) (c : BdtConnection) : Option ActionResult :=
  match c.state with
  | .none => some (c.bindAcceptor caller (.builder builder))
  | .connecting => c.acceptor.map fun acceptor =>
    match acceptor.ins with
    | .maybeBuilder none _ =>
      { connection := { c with
          acceptor := some ⟨c.allocated, .builder builder⟩
          allocated := c.allocated + 1 }
        entries := [.acquired (.object c.allocated)]
        more := resetAcceptor acceptor }
    | _ => c.unchanged []
  | _ => some (c.unchanged [])

/-- `ConnectionOnTcpFirstSynPackage`, the section. -/
def onTcpFirstSyn (caller tcpInterface : Nat) (c : BdtConnection) : Option ActionResult :=
  if ¬ c.passive then some (c.unchanged [])
  else
    match c.state with
    | .none =>
      some { c.bindAcceptor caller (.maybeBuilder (some tcpInterface) false) with
        more := [.tcpFirstSynBound tcpInterface] }
    | .connecting => c.acceptor.map fun acceptor =>
      match acceptor.ins with
      | .builder builder => c.unchanged [.effect (.toBuilder builder)]
      | .maybeBuilder none ackPackage =>
        { connection := { c with
            acceptor := some { acceptor with
              ins := .maybeBuilder (some tcpInterface) ackPackage } }
          more := [.tcpFirstSynBound tcpInterface] }
      | _ => c.unchanged []
    | _ => some (c.unchanged [])

/-! ## The end of connecting -/

/-- `ConnectionTryFinishConnectingWithError`. -/
def finishConnecting (caller error : Nat) (c : BdtConnection) : ActionResult :=
  if c.state ≠ .connecting then c.unchanged []
  else
    { connection := { c with
        state := .closed
        connector := none
        acceptor := none
        connectCallback := false
        connectUserData := none
        faCallback := false
        faUserData := none }
      entries := [.entered caller .closed]
      more := .effect .removed :: c.resetHeld ++ connectResult c.connectCallback error ++
        releaseUserData c.connectUserData ++ releaseUserData c.faUserData ++ [.effect .removed] }

/-- `BdtConnectionClose` and `BdtConnectionReset` before `BDT_CONNECTION_STATE_ESTABLISH`. -/
def abandon (c : BdtConnection) : BdtConnection :=
  { c with
    state := .closed
    connectCallback := false
    faCallback := false
    connectUserData := none }

/-- `BdtConnectionClose`. Before `BDT_CONNECTION_STATE_ESTABLISH` the result is
`BFX_RESULT_INVALID_STATE`, and the function returns. -/
def close (caller : Nat) (c : BdtConnection) : ActionResult :=
  match c.state with
  | .none | .connecting =>
    { connection := c.abandon
      entries := [.entered caller .closed] }
  | .establish =>
    { connection := { c with state := .closing }
      entries := [.entered caller .closing]
      more := if c.providerType = .waiting then [] else [.effect .closeProvider] }
  | .closing | .closed => c.unchanged []

/-- `BdtConnectionReset`. -/
def reset (caller : Nat) (c : BdtConnection) : ActionResult :=
  match c.state with
  | .none | .connecting =>
    { connection := c.abandon
      entries := [.entered caller .closed]
      more := .effect .removed :: releaseUserData c.connectUserData ++ c.resetHeld }
  | .establish | .closing =>
    { connection := { c with state := .closed }
      entries := [.entered caller .closed]
      more := .effect .removed ::
        if c.providerType = .waiting then [] else [.effect .resetProvider] }
  | .closed => c.unchanged []

/-- `Bdt_ConnectionTryEnterEstablish`, and the caller behind it. -/
def tryEnterEstablish (caller : Nat) (always : Bool) (establish : Establish) (c : BdtConnection) :
    ActionResult :=
  if c.state ≠ .connecting then
    c.unchanged (if always then [.establishWith establish] else [])
  else
    { connection := { c with
        state := .establish
        connector := none
        acceptor := none
        providerType := .waiting }
      entries := [.entered caller .establish]
      more := c.closeHeld ++ [.establishWith establish] }

/-- What is done with the provider, and the result of connecting. -/
def behindEstablish (establish : Establish) (c : BdtConnection) : List ConnectionAction :=
  match c.state with
  | .establish =>
    (match establish with
      | .package (some sessionData) => [.effect (.toProvider sessionData)]
      | .package none | .stream _ => []) ++ connectResult c.connectCallback 0
  | .closing => [.effect .closeProvider]
  | .closed => [.effect .resetProvider]
  | .none | .connecting => []

/-- `Bdt_ConnectionEstablishWithPackage` and `Bdt_ConnectionEstablishWithStream`. -/
def establishWith (caller : Nat) (establish : Establish) (c : BdtConnection) : ActionResult where
  connection := { c with
    providerType := establish.provider
    connectCallback := false
    -- `Bdt_ConnectionEstablishWithStream` leaves the callback of the first answer
    faCallback := if establish.provider = .package then false else c.faCallback
    connectUserData := none }
  entries := [.installed caller establish.provider]
  more := c.behindEstablish establish ++ releaseUserData c.connectUserData

/-! ## Packages -/

/-- `Bdt_ConnectionPushPackage`. -/
def pushPackage (sessionData : Bdt_SessionDataPackage) (c : BdtConnection) : ActionResult :=
  if sessionData.cmdflags.hasFlag SessionDataFlag.SYN then
    if sessionData.cmdflags.hasFlag SessionDataFlag.ACK then
      c.unchanged [.onAckSessionData sessionData]
    else c.unchanged [.onSynSessionData]
  else if c.providerType = .package then c.unchanged [.effect (.toProvider sessionData)]
  else c.unchanged [.onAckAckSessionData sessionData]

/-- `ConnectionOnAckAckSessionData`. -/
def onAckAckSessionData (sessionData : Bdt_SessionDataPackage) (c : BdtConnection) :
    Option ActionResult :=
  if ¬ c.passive ∨ c.state ≠ .connecting then some (c.unchanged [])
  else c.acceptor.map fun acceptor =>
    match acceptor.ins with
    | .builder builder => c.unchanged [.effect (.toBuilder builder)]
    | .maybeBuilder none _ => c.unchanged [.tryEnterEstablish false (.package (some sessionData))]
    | _ => c.unchanged []

/-- `ConnectionOnAckSessionData`. -/
def onAckSessionData (sessionData : Bdt_SessionDataPackage) (c : BdtConnection) :
    Option ActionResult :=
  if c.passive then some (c.unchanged [])
  else
    match c.state with
    | .connecting => c.connector.map fun connector =>
      match connector.ins with
      | .builder builder => c.unchanged [.effect (.toBuilder builder)]
      | .package => c.unchanged
          [.fireFirstAnswer ((sessionData.synPart.map (·.fromSessionId)).getD 0)
              sessionData.payloadBytes,
            .tryEnterEstablish false (.package (some sessionData))]
      | _ => c.unchanged []
    | .establish =>
      some (c.unchanged
        (if c.providerType = .package then [.effect (.toProvider sessionData)] else []))
    | _ => some (c.unchanged [])

/-- `ConnectionOnTcpFirstAckPackage`. -/
def onTcpFirstAck (tcpInterface : Nat) (c : BdtConnection) : ActionResult :=
  if c.passive ∨ c.state ≠ .connecting then c.unchanged []
  else
    match c.connector.map ConnectionConnector.ins with
    | some (.builder builder) => c.unchanged [.effect (.toBuilder builder)]
    | some .reverseStream => c.unchanged [.tryEnterEstablish true (.stream tcpInterface)]
    | _ => c.unchanged []

/-- `ConnectionOnTcpFirstAckResp`. -/
def onTcpFirstAckResp (tcpInterface : Nat) (c : BdtConnection) : Option ActionResult :=
  if c.passive ∨ c.state ≠ .connecting then some (c.unchanged [])
  else c.connector.map fun connector =>
    if connector.ins = .stream tcpInterface then
      c.unchanged [.tryEnterEstablish false (.stream tcpInterface)]
    else c.unchanged []

/-- `ConnectionOnTcpFirstAckAckResp`. -/
def onTcpFirstAckAckResp (tcpInterface : Nat) (c : BdtConnection) : Option ActionResult :=
  if ¬ c.passive ∨ c.state ≠ .connecting then some (c.unchanged [])
  else c.acceptor.map fun acceptor =>
    match acceptor.ins with
    | .reverseStream bound _ _ =>
      c.unchanged (if bound = tcpInterface then [.tryEnterEstablish false (.stream tcpInterface)]
        else [])
    | _ => c.unchanged []

/-- The connection is confirmed when the first tcp package binds an interface to it. -/
def tcpFirstSynBound (tcpInterface : Nat) (c : BdtConnection) : ActionResult :=
  c.unchanged
    (if c.firstAnswer ≠ none then [.tryEnterEstablish false (.stream tcpInterface)] else [])

/-! ## The first answer -/

/-- `BdtConfirmConnection` begins. -/
def confirm (answer : List UInt8) (connectUserData : Option Nat) (c : BdtConnection) :
    ActionResult :=
  c.unchanged
    (if c.passive ∧ c.state = .connecting then [.confirmAnswer answer connectUserData] else [])

/-- The answer is set, unless there is one. -/
def confirmAnswer (answer : List UInt8) (connectUserData : Option Nat) (c : BdtConnection) :
    ActionResult :=
  if c.firstAnswer ≠ none then c.unchanged []
  else
    { connection := { c with firstAnswer := some answer }
      entries := addRefUserData connectUserData
      more := [.confirmAcceptor connectUserData] }

/-- The section of `BdtConfirmConnection`, and what it does behind it. -/
def confirmAcceptor (connectUserData : Option Nat) (c : BdtConnection) : Option ActionResult :=
  if c.state ≠ .connecting then some (c.unchanged (releaseUserData connectUserData))
  else
    let confirmed := { c with connectCallback := true, connectUserData := connectUserData }
    c.acceptor.map fun acceptor =>
      match acceptor.ins with
      | .builder _ => confirmed.unchanged []
      | .maybeBuilder (some tcpInterface) _ =>
        confirmed.unchanged [.tryEnterEstablish true (.stream tcpInterface)]
      | .maybeBuilder none _ =>
        { connection := { confirmed with
            acceptor := some { acceptor with ins := .maybeBuilder none true } } }
      | .reverseStream tcpInterface _ established =>
        { connection := { confirmed with
            acceptor := some { acceptor with
              ins := .reverseStream tcpInterface true established } } }

/-- `Bdt_ConnectionFireFirstAnswer` begins. -/
def fireFirstAnswer (remoteId : Nat) (answer : List UInt8) (c : BdtConnection) : ActionResult :=
  if c.firstAnswer ≠ none then c.unchanged []
  else
    { connection := { c with firstAnswer := some answer, remoteId := .ofNat remoteId }
      more := [.takeFirstAnswerCallback] }

/-- The section of `Bdt_ConnectionFireFirstAnswer`. -/
def takeFirstAnswerCallback (c : BdtConnection) : ActionResult where
  connection := { c with faCallback := false, faUserData := none }
  more := (if c.faCallback then [.effect .firstAnswer] else []) ++ releaseUserData c.faUserData

/-! ## Steps -/

/-- An action of the call with the number `caller`. -/
def perform (caller : Nat) (c : BdtConnection) : ConnectionAction → Option ActionResult
  | .connect connectUserData faUserData firstQuestion via =>
    some (c.connect caller connectUserData faUserData firstQuestion via)
  | .connectWith ins => some (c.connectWith ins)
  | .enterConnecting connector => some (c.enterConnecting connector)
  | .finishConnecting error => some (c.finishConnecting caller error)
  | .close => some (c.close caller)
  | .reset => some (c.reset caller)
  | .pushPackage sessionData => some (c.pushPackage sessionData)
  | .onSynSessionData => some (c.onSynSessionData caller)
  | .onAckAckSessionData sessionData => c.onAckAckSessionData sessionData
  | .onAckSessionData sessionData => c.onAckSessionData sessionData
  | .acceptWithBuilder builder => c.acceptWithBuilder caller builder
  | .acceptWithReverseStream tcpInterface => some (c.acceptWithReverseStream caller tcpInterface)
  | .onTcpFirstSyn tcpInterface => c.onTcpFirstSyn caller tcpInterface
  | .tcpFirstSynBound tcpInterface => some (c.tcpFirstSynBound tcpInterface)
  | .onTcpFirstAck tcpInterface => some (c.onTcpFirstAck tcpInterface)
  | .onTcpFirstAckResp tcpInterface => c.onTcpFirstAckResp tcpInterface
  | .onTcpFirstAckAckResp tcpInterface => c.onTcpFirstAckAckResp tcpInterface
  | .confirm answer connectUserData => some (c.confirm answer connectUserData)
  | .confirmAnswer answer connectUserData => some (c.confirmAnswer answer connectUserData)
  | .confirmAcceptor connectUserData => c.confirmAcceptor connectUserData
  | .fireFirstAnswer remoteId answer => some (c.fireFirstAnswer remoteId answer)
  | .takeFirstAnswerCallback => some c.takeFirstAnswerCallback
  | .tryEnterEstablish always establish => some (c.tryEnterEstablish caller always establish)
  | .establishWith establish => some (c.establishWith caller establish)
  | .effect effect => some { connection := c, entries := [.did effect] }

end BdtConnection

/-- A connection, the calls in flight, and what they did. -/
structure ConnectionRun where
  connection : BdtConnection
  calls : List (List ConnectionAction) := []
  history : List ConnectionEntry := []

inductive CallEvent where
  | call (action : ConnectionAction)
  /-- One of the calls in flight does its next action. -/
  | step (i : Nat)
  deriving DecidableEq

/-- A call begins, or goes on. -/
def ConnectionRun.handle (run : ConnectionRun) : CallEvent → Option ConnectionRun
  | .call action =>
    if action.isEntry then some { run with calls := run.calls ++ [[action]] } else none
  | .step i =>
    match run.calls[i]? with
    | some (action :: rest) => (run.connection.perform i action).map fun result =>
      { connection := result.connection
        calls := advanceCall run.calls i result.more rest
        history := run.history ++ result.entries }
    | _ => none

end Bdt
