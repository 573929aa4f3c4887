import Bdt.Base.ThreadPool
import Bdt.Connection.ConnectionSteps

/-!
# The first answer of an active connection

A model of the paths that establish an active connection: the session data with SYN and ACK, for a
package connector or for a builder, the first response on a stream, for a stream connector or for a
build action, and a passive interface with a tcp ack, for a reverse connector or for a builder. They
run at the same time, in any order, and so may the connection be closed, be reset or fail.

The session data brings the id of the remote and its answer. The tcp ack brings the id of the
connection itself, the builder passes on a pointer that it never assigns, and the connectors of
streams do not call back at all: `firstAnswer_kept` says when the answer is what it should be.
-/

namespace Bdt

open Base List Option

/-- What `Bdt_TcpAckConnectionPackage` says about the session. -/
structure TcpAckConnection where
  toSessionId : UInt32
  result : UInt8
  payload : Option (List UInt8)

namespace BdtConnection

/-- `ConnectionGenAckPackage`. The length of the payload is a `uint16_t`. -/
def genAckPackage (c : BdtConnection) : Bdt_SessionDataPackage :=
  let fa := c.firstAnswer.getD []
  let payloadLength := fa.length % 65536
  { cmdflags := (CmdFlags.setFlag 0 SessionDataFlag.SYN).setFlag SessionDataFlag.ACK
    toSessionId := c.remoteId.toNat
    payload := if payloadLength = 0 then none else some (fa.take payloadLength)
    synPart := some
      { synSeq := c.connectSeq.toNat
        synControl := 0
        ccType := 0
        toVPort := 0
        fromSessionId := c.id.toNat } }

/-- `Bdt_ConnectionGenTcpAckPackage`, which is always called with `BDT_PACKAGE_RESULT_SUCCESS`. -/
def genTcpAckPackage (c : BdtConnection) : TcpAckConnection where
  toSessionId := c.remoteId
  result := 0
  payload := c.firstAnswer

end BdtConnection

/-- The bytes that a callback is given: a buffer, or a null pointer with a length. -/
inductive AnswerBytes where
  | buffer (bytes : List UInt8)
  | null (length : Nat)

/-- The bytes that `BfxBufferWrite` copies, unless it cannot. -/
def AnswerBytes.copy : AnswerBytes → Option (List UInt8)
  | .buffer bytes => some bytes
  | .null 0 => some []
  | .null (_ + 1) => none

/-- The calls of `Bdt_ConnectionFireFirstAnswer`, with the package that each of them is made for. -/
inductive FiredAnswer where
  /-- In `ConnectionOnAckSessionData` and `ConnectPackageConnectionActionOnSessionData`. -/
  | sessionData (package : Bdt_SessionDataPackage)
  /-- In `ConnectStreamActionOnFirstResp`. -/
  | firstResp (package : TcpAckConnection)
  /-- In `TunnelBuilderOnTcpFirstAckConnectionPackage`. -/
  | tcpFirstAck (package : TcpAckConnection)

namespace FiredAnswer

/-- The argument `remoteId`. -/
def remoteId : FiredAnswer → UInt32
  | .sessionData package => .ofNat ((package.synPart.map (·.fromSessionId)).getD 0)
  | .firstResp package | .tcpFirstAck package => package.toSessionId

/-- The arguments `data` and `len`. -/
def data : FiredAnswer → AnswerBytes
  | .sessionData package => .buffer package.payloadBytes
  | .firstResp package => .buffer (package.payload.getD [])
  -- `fa` stays `NULL`
  | .tcpFirstAck package => .null (package.payload.getD []).length

end FiredAnswer

/-- A call of a callback that was given to `BdtConnectionConnect`. -/
inductive ConnectCall where
  | firstAnswer (bytes : List UInt8)
  | connectResult (error : Nat)
  deriving DecidableEq

/-- An active connection and the one that the remote accepts. -/
structure AnswerShared where
  connection : BdtConnection
  remote : BdtConnection
  /-- How it is connected. -/
  via : ConnectorIns
  calls : List ConnectCall := []
  /-- `BfxBufferWrite` was called with a null pointer and a length. -/
  crashed : Bool := false

/-- Where a handler is. -/
inductive AnswerHandler where
  /-- `ConnectionOnAckSessionData` looks at the state. The builder may have no action that is
  `building`. -/
  | onAckSessionData (sessionData : Bdt_SessionDataPackage) (building : Bool)
  /-- `ConnectionOnTcpFirstAckPackage` looks at the state. -/
  | onTcpFirstAck (package : TcpAckConnection) (tcpInterface : Nat) (building : Bool)
  /-- `ConnectionOnTcpFirstAckResp` looks at the state. -/
  | onTcpFirstAckResp (tcpInterface : Nat)
  /-- `ConnectStreamActionOnFirstResp`. -/
  | onFirstResp (package : TcpAckConnection) (tcpInterface : Nat)
  /-- `Bdt_ConnectionFireFirstAnswer` up to the exchange of `firstAnswer`, and what is behind it. -/
  | fireFirstAnswer (answer : FiredAnswer) (establish : Establish)
  | setRemoteId (answer : FiredAnswer) (establish : Establish)
  | takeCallback (answer : FiredAnswer) (establish : Establish)
  | callFirstAnswer (callback : Bool) (answer : FiredAnswer) (establish : Establish)
  | tryEnterEstablish (always : Bool) (establish : Establish)
  | establishWith (establish : Establish)
  | fireConnectResult (callback : Bool) (error : Nat)
  | returned

inductive AnswerArrival where
  /-- `BdtConfirmConnection` of the remote. -/
  | confirm (answer : List UInt8)
  | ackSessionData (building : Bool)
  | tcpFirstAck (tcpInterface : Nat) (building : Bool)
  | tcpFirstAckResp (tcpInterface : Nat)
  /-- A response to an action of the builder. -/
  | firstResp (tcpInterface : Nat)
  | close
  | reset
  /-- `ConnectionTryFinishConnectingWithError`. -/
  | fail (error : Nat)

namespace AnswerShared

/-- What comes to the connection. The packages of the remote are those that it sends once it is
confirmed. -/
def enter (shared : AnswerShared) : AnswerArrival → Option (AnswerShared × Option AnswerHandler)
  | .confirm answer =>
    some ({ shared with remote := (shared.remote.confirmAnswer answer none).connection }, none)
  | .ackSessionData building =>
    if shared.remote.firstAnswer = none then none
    else some (shared, some (.onAckSessionData shared.remote.genAckPackage building))
  | .tcpFirstAck tcpInterface building =>
    if shared.remote.firstAnswer = none then none
    else
      some (shared, some (.onTcpFirstAck shared.remote.genTcpAckPackage tcpInterface building))
  | .tcpFirstAckResp tcpInterface =>
    if shared.remote.firstAnswer = none then none
    else some (shared, some (.onTcpFirstAckResp tcpInterface))
  | .firstResp tcpInterface =>
    match shared.via with
    | .builder _ =>
      if shared.remote.firstAnswer = none then none
      else some (shared, some (.onFirstResp shared.remote.genTcpAckPackage tcpInterface))
    | _ => none
  | .close => some ({ shared with connection := (shared.connection.close 0).connection }, none)
  | .reset => some ({ shared with connection := (shared.connection.reset 0).connection }, none)
  | .fail error =>
    if error = 0 then none
    else
      some ({ shared with
          connection := (shared.connection.finishConnecting 0 error).connection },
        some (.fireConnectResult
          (shared.connection.state = .connecting ∧ shared.connection.connectCallback) error))

/-- One step of a handler. -/
def step (shared : AnswerShared) : AnswerHandler → Option (AnswerShared × AnswerHandler)
  | .onAckSessionData sessionData building =>
    some (shared,
      if shared.connection.state = .connecting then
        match shared.connection.connector.map ConnectionConnector.ins with
        | some .package =>
          .fireFirstAnswer (.sessionData sessionData) (.package (some sessionData))
        | some (.builder _) =>
          -- `ConnectPackageConnectionActionContinueConnect` comes behind it
          if building then .fireFirstAnswer (.sessionData sessionData) (.package none)
          else .returned
        | _ => .returned
      else .returned)
  | .onTcpFirstAck package tcpInterface building =>
    some (shared,
      if shared.connection.state = .connecting then
        match shared.connection.connector.map ConnectionConnector.ins with
        | some .reverseStream => .tryEnterEstablish true (.stream tcpInterface)
        | some (.builder _) =>
          -- `AcceptReverseStreamActionContinueConnect` comes behind it
          if building then .fireFirstAnswer (.tcpFirstAck package) (.stream tcpInterface)
          else .returned
        | _ => .returned
      else .returned)
  | .onTcpFirstAckResp tcpInterface =>
    some (shared,
      if shared.connection.state = .connecting ∧
          shared.connection.connector.map ConnectionConnector.ins = some (.stream tcpInterface)
      then .tryEnterEstablish false (.stream tcpInterface)
      else .returned)
  | .onFirstResp package tcpInterface =>
    some (shared,
      if package.result = 0 then .fireFirstAnswer (.firstResp package) (.stream tcpInterface)
      else .returned)
  | .fireFirstAnswer answer establish =>
    match answer.data.copy with
    | none => some ({ shared with crashed := true }, .returned)
    | some bytes =>
      if shared.connection.firstAnswer = none then
        some ({ shared with connection := { shared.connection with firstAnswer := some bytes } },
          .setRemoteId answer establish)
      else some (shared, .tryEnterEstablish false establish)
  | .setRemoteId answer establish =>
    some ({ shared with connection := { shared.connection with remoteId := answer.remoteId } },
      .takeCallback answer establish)
  | .takeCallback answer establish =>
    some ({ shared with connection := shared.connection.takeFirstAnswerCallback.connection },
      .callFirstAnswer shared.connection.faCallback answer establish)
  | .callFirstAnswer callback answer establish =>
    some
      (if callback then
        { shared with calls := shared.calls ++ [.firstAnswer (answer.data.copy.getD [])] }
      else shared,
      .tryEnterEstablish false establish)
  | .tryEnterEstablish always establish =>
    some ({ shared with
        connection := (shared.connection.tryEnterEstablish 0 always establish).connection },
      if shared.connection.state = .connecting ∨ always then .establishWith establish
      else .returned)
  | .establishWith establish =>
    some ({ shared with connection := (shared.connection.establishWith 0 establish).connection },
      if shared.connection.state = .establish then
        .fireConnectResult shared.connection.connectCallback 0
      else .returned)
  | .fireConnectResult callback error =>
    some
      (if callback then { shared with calls := shared.calls ++ [.connectResult error] }
      else shared,
      .returned)
  | .returned => none

end AnswerShared

/-- A connection and its handlers. -/
abbrev AnswerPool : Type :=
  Pool AnswerShared AnswerHandler

namespace AnswerPool

def next : AnswerPool → PoolEvent AnswerArrival → Option AnswerPool :=
  Pool.next AnswerShared.enter AnswerShared.step

/-- A connection that `BdtConnectionConnect` was called for and the connection that the remote
accepts. -/
def start (peerid remotePeerid : Peerid) (id remoteId seq : UInt32) (via : ConnectorIns) :
    AnswerPool where
  shared :=
    { connection := { ConnectionCreate remotePeerid id seq BDT_UINT32_ID_INVALID_VALUE false with
        state := .connecting
        connector := some ⟨0, via⟩
        connectCallback := true
        faCallback := true }
      remote := { ConnectionCreate peerid remoteId seq id true with state := .connecting }
      via }
  handlers := []

end AnswerPool

/-! ## The property -/

/-- The bytes that the callback of the first answer was called with. -/
def answersOf (calls : List ConnectCall) : List (List UInt8) :=
  calls.filterMap fun call => match call with
    | .firstAnswer bytes => some bytes
    | .connectResult _ => none

/-- The handler has set the first answer, and is not through with the callback. -/
def AnswerHandler.firing : AnswerHandler → Bool
  | .setRemoteId .. | .takeCallback .. | .callFirstAnswer .. => true
  | _ => false

namespace AnswerPool

/-- The callback of the first answer is called at most once, with what the remote was confirmed
with, and it has been called when the connection is reported as established; by then the connection
knows the id that the remote chose. -/
structure Integrity (pool : AnswerPool) : Prop where
  alive : pool.shared.crashed = false
  once : answersOf pool.shared.calls = [] ∨
    ∃ bytes, pool.shared.remote.firstAnswer = some bytes ∧ answersOf pool.shared.calls = [bytes]
  before : ∀ front back, pool.shared.calls = front ++ .connectResult 0 :: back →
    answersOf front ≠ []
  remoteId : .connectResult 0 ∈ pool.shared.calls →
    pool.shared.connection.remoteId = pool.shared.remote.id

/-- The first answer comes in session data, with a length that fits into it, or in a tcp ack of a
remote that happens to have the same id, and it is empty if the builder takes it from a passive
interface; and nobody enters the established state before the callback of the first answer was
called. -/
def KeepsAnswer (pool : AnswerPool) : PoolEvent AnswerArrival → Prop
  | .arrive _ => True
  | .run i =>
    match pool.handlers[i]? with
    | some (.fireFirstAnswer (.sessionData _) _) =>
      pool.shared.connection.firstAnswer = none →
        (pool.shared.remote.firstAnswer.getD []).length < 65536
    | some (.fireFirstAnswer (.firstResp _) _) =>
      pool.shared.connection.firstAnswer = none → pool.shared.connection.id = pool.shared.remote.id
    | some (.fireFirstAnswer (.tcpFirstAck _) _) =>
      pool.shared.remote.firstAnswer = some [] ∧
        (pool.shared.connection.firstAnswer = none →
          pool.shared.connection.id = pool.shared.remote.id)
    | some (.tryEnterEstablish _ _) =>
      pool.shared.connection.state = .connecting →
        pool.shared.connection.firstAnswer ≠ none ∧
          ∀ handler ∈ pool.handlers, handler.firing = false
    | _ => True

end AnswerPool

/-! ## What a handler may rely on -/

theorem answersOf_append (calls more : List ConnectCall) :
    answersOf (calls ++ more) = answersOf calls ++ answersOf more :=
  filterMap_append

namespace AnswerShared

variable {shared other : AnswerShared}

/-- The package comes from the remote. -/
def Sent (shared : AnswerShared) : FiredAnswer → Prop
  | .sessionData package =>
    shared.remote.firstAnswer ≠ none ∧ package = shared.remote.genAckPackage
  | .firstResp package | .tcpFirstAck package =>
    shared.remote.firstAnswer ≠ none ∧ package = shared.remote.genTcpAckPackage

/-- The answer and the id are those of the remote. -/
structure Right (shared : AnswerShared) (answer : FiredAnswer) : Prop where
  remoteId : answer.remoteId = shared.remote.id
  confirmed : shared.remote.firstAnswer ≠ none
  copied : answer.data.copy = shared.remote.firstAnswer

/-- The callback was called, and the id is known. -/
structure Settled (shared : AnswerShared) : Prop where
  remoteId : shared.connection.remoteId = shared.remote.id
  answered : ∃ bytes, shared.remote.firstAnswer = some bytes ∧ answersOf shared.calls = [bytes]

/-- Neither the answer nor a success was reported. -/
structure Silent (shared : AnswerShared) : Prop where
  unanswered : answersOf shared.calls = []
  unconnected : .connectResult 0 ∉ shared.calls

theorem Settled.not_silent (h : shared.Settled) : ¬ shared.Silent := by
  intro hsilent
  obtain ⟨bytes, -, hbytes⟩ := h.answered
  cases hsilent.unanswered.symm.trans hbytes

/-- What holds of a handler at each of its points. -/
def Fits (shared : AnswerShared) : AnswerHandler → Prop
  | .onAckSessionData package _ => shared.Sent (.sessionData package)
  | .onTcpFirstAck package _ _ => shared.Sent (.tcpFirstAck package)
  | .onFirstResp package _ => shared.Sent (.firstResp package)
  | .fireFirstAnswer answer _ => shared.Sent answer
  | .setRemoteId answer _ =>
    shared.Right answer ∧ (shared.connection.faCallback = true ∨ shared.connection.state = .closed)
  | .takeCallback answer _ =>
    shared.Right answer ∧ shared.connection.remoteId = shared.remote.id ∧
      (shared.connection.faCallback = true ∨ shared.connection.state = .closed)
  | .callFirstAnswer callback answer _ =>
    shared.Right answer ∧ shared.connection.remoteId = shared.remote.id ∧
      (callback = true ∨ shared.connection.state = .closed)
  | .tryEnterEstablish always establish => always = true → establish.provider = .stream
  | .establishWith establish => establish.provider = .package → shared.Settled
  | .fireConnectResult callback error => callback = true → error = 0 → shared.Settled
  | .onTcpFirstAckResp _ | .returned => True

/-- A handler that is not about to call back keeps what it relies on, whatever happens to the
connection, as long as a settled one stays settled. -/
theorem Fits.mono {handler : AnswerHandler} (h : shared.Fits handler)
    (hquiet : handler.firing = false) (hremote : other.remote = shared.remote)
    (hsettled : shared.Settled → other.Settled) : other.Fits handler := by
  cases handler with
  | onAckSessionData | onTcpFirstAck | onFirstResp =>
    simpa only [Fits, Sent, hremote] using h
  | fireFirstAnswer answer =>
    cases answer <;> simpa only [Fits, Sent, hremote] using h
  | setRemoteId | takeCallback | callFirstAnswer => cases hquiet
  | establishWith => exact fun hprovider => hsettled (h hprovider)
  | fireConnectResult => exact fun hcallback herror => hsettled (h hcallback herror)
  | tryEnterEstablish | onTcpFirstAckResp | returned => exact h

theorem right_of_sessionData (hconfirmed : shared.remote.firstAnswer ≠ none)
    (hlength : (shared.remote.firstAnswer.getD []).length < 65536) :
    shared.Right (.sessionData shared.remote.genAckPackage) where
  remoteId := by simp [FiredAnswer.remoteId, BdtConnection.genAckPackage]
  confirmed := hconfirmed
  copied := by
    obtain ⟨bytes, hbytes⟩ := ne_none_iff_exists'.mp hconfirmed
    rw [hbytes, getD_some] at hlength
    have hpayload : shared.remote.genAckPackage.payloadBytes = bytes := by
      simp only [BdtConnection.genAckPackage, Bdt_SessionDataPackage.payloadBytes, hbytes,
        getD_some, Nat.mod_eq_of_lt hlength, take_length]
      split
      case isTrue hempty => exact (eq_nil_of_length_eq_zero hempty).symm
      case isFalse => rfl
    show some _ = _
    rw [hpayload, hbytes]

end AnswerShared

namespace AnswerPool

variable {pool last : AnswerPool}

/-- The callback of the first answer is still to be called. -/
def Pending (pool : AnswerPool) : Prop :=
  pool.shared.connection.firstAnswer = none ∨ ∃ handler ∈ pool.handlers, handler.firing = true

/-- What holds in a run that keeps the answer. -/
structure Inv (pool : AnswerPool) : Prop where
  alive : pool.shared.crashed = false
  id : pool.shared.remote.remoteId = pool.shared.connection.id
  fits : ∀ handler ∈ pool.handlers, pool.shared.Fits handler
  unset : pool.shared.connection.firstAnswer = none →
    (∀ handler ∈ pool.handlers, handler.firing = false) ∧
      (pool.shared.connection.faCallback = true ∨ pool.shared.connection.state = .closed)
  unique : ∀ (i j : Nat) (first second : AnswerHandler), pool.handlers[i]? = some first →
    pool.handlers[j]? = some second → first.firing = true → second.firing = true → i = j
  pending : pool.Pending → pool.shared.Silent ∧
    (pool.shared.connection.state = .connecting ∨ pool.shared.connection.state = .closed)
  settled : ¬ pool.Pending →
    pool.shared.Settled ∨ pool.shared.Silent ∧ pool.shared.connection.state = .closed
  before : ∀ front back, pool.shared.calls = front ++ .connectResult 0 :: back →
    answersOf front ≠ []

theorem start_inv (peerid remotePeerid : Peerid) (id remoteId seq : UInt32) (via : ConnectorIns) :
    (start peerid remotePeerid id remoteId seq via).Inv where
  alive := rfl
  id := rfl
  fits _ hmem := absurd hmem not_mem_nil
  unset _ := ⟨fun _ hmem => absurd hmem not_mem_nil, .inl rfl⟩
  unique i j first second hfirst := by simp [start] at hfirst
  pending _ := ⟨⟨rfl, not_mem_nil⟩, .inl rfl⟩
  settled h := absurd (.inl rfl) h
  before front back h := by simp [start] at h

theorem Inv.not_pending (h : pool.Inv) (hsettled : pool.shared.Settled) : ¬ pool.Pending :=
  fun hpending => hsettled.not_silent (h.pending hpending).1

/-- A connection that is connecting and has nothing to call back is settled. -/
theorem Inv.settled_of (h : pool.Inv) (hpending : ¬ pool.Pending)
    (hstate : pool.shared.connection.state ≠ .closed) : pool.shared.Settled :=
  (h.settled hpending).resolve_right fun hsilent => hstate hsilent.2

theorem Inv.integrity (h : pool.Inv) : pool.Integrity := { h with
  once := by
    by_cases hpending : pool.Pending
    · exact .inl (h.pending hpending).1.unanswered
    · obtain hsettled | ⟨hsilent, -⟩ := h.settled hpending
      · exact .inr hsettled.answered
      · exact .inl hsilent.unanswered
  remoteId hconnected := by
    by_cases hpending : pool.Pending
    · exact absurd hconnected (h.pending hpending).1.unconnected
    · obtain hsettled | ⟨hsilent, -⟩ := h.settled hpending
      · exact hsettled.remoteId
      · exact absurd hconnected hsilent.unconnected }

/-! ## What may change -/

theorem Inv.change (h : pool.Inv) {connection : BdtConnection}
    (hfirst : connection.firstAnswer = pool.shared.connection.firstAnswer)
    (hremote : connection.remoteId = pool.shared.connection.remoteId)
    (hid : connection.id = pool.shared.connection.id)
    (hstate : connection.state = .closed ∨
      connection.state = pool.shared.connection.state ∧
        connection.faCallback = pool.shared.connection.faCallback ∨
      pool.shared.Settled) :
    Inv ⟨{ pool.shared with connection }, pool.handlers⟩ where
  alive := h.alive
  id := h.id.trans hid.symm
  fits handler hmem := by
    have hfits := h.fits handler hmem
    have hkept : handler.firing = true →
        pool.shared.connection.faCallback = true ∨ pool.shared.connection.state = .closed →
          connection.faCallback = true ∨ connection.state = .closed := by
      intro hfiring hcallback
      obtain hclosed | ⟨hsame, hsameCallback⟩ | hsettled := hstate
      · exact .inr hclosed
      · rwa [hsame, hsameCallback]
      · exact absurd (.inr ⟨handler, hmem, hfiring⟩) (h.not_pending hsettled)
    have hclosed : handler.firing = true → pool.shared.connection.state = .closed →
        connection.state = .closed := by
      intro hfiring hclosed
      obtain hclosed | ⟨hsame, -⟩ | hsettled := hstate
      · exact hclosed
      · rwa [hsame]
      · exact absurd (.inr ⟨handler, hmem, hfiring⟩) (h.not_pending hsettled)
    cases handler with
    | setRemoteId => exact ⟨⟨hfits.1.1, hfits.1.2, hfits.1.3⟩, hkept rfl hfits.2⟩
    | takeCallback =>
      exact ⟨⟨hfits.1.1, hfits.1.2, hfits.1.3⟩, hremote.trans hfits.2.1, hkept rfl hfits.2.2⟩
    | callFirstAnswer =>
      exact ⟨⟨hfits.1.1, hfits.1.2, hfits.1.3⟩, hremote.trans hfits.2.1,
        hfits.2.2.imp_right (hclosed rfl)⟩
    | onAckSessionData | onTcpFirstAck | onTcpFirstAckResp | onFirstResp | fireFirstAnswer
    | tryEnterEstablish | establishWith | fireConnectResult | returned =>
      exact hfits.mono rfl rfl fun hsettled => ⟨hremote.trans hsettled.1, hsettled.2⟩
  unset hnone := by
    obtain ⟨hquiet, hcallback⟩ := h.unset (hfirst.symm.trans hnone)
    refine ⟨hquiet, ?_⟩
    obtain hclosed | ⟨hsame, hsameCallback⟩ | hsettled := hstate
    · exact .inr hclosed
    · rwa [hsame, hsameCallback]
    · exact absurd (.inl (hfirst.symm.trans hnone)) (h.not_pending hsettled)
  unique := h.unique
  pending hpending := by
    have hbefore : pool.Pending := hpending.imp_left hfirst.symm.trans
    obtain ⟨hsilent, hopen⟩ := h.pending hbefore
    refine ⟨⟨hsilent.1, hsilent.2⟩, ?_⟩
    obtain hclosed | ⟨hsame, -⟩ | hsettled := hstate
    · exact .inr hclosed
    · rwa [hsame]
    · exact absurd hbefore (h.not_pending hsettled)
  settled hpending := by
    have hbefore : ¬ pool.Pending := fun hbefore => hpending (hbefore.imp_left hfirst.trans)
    obtain hsettled | ⟨hsilent, hclosed⟩ := h.settled hbefore
    · exact .inl ⟨hremote.trans hsettled.1, hsettled.2⟩
    obtain hclosed' | ⟨hsame, -⟩ | hsettled := hstate
    · exact .inr ⟨⟨hsilent.1, hsilent.2⟩, hclosed'⟩
    · exact .inr ⟨⟨hsilent.1, hsilent.2⟩, hsame.trans hclosed⟩
    · exact absurd hsilent hsettled.not_silent
  before := h.before

/-! ## What a handler may become -/

variable {i : Nat} {handler stepped : AnswerHandler}

section

variable (h : pool.Inv)
include h

theorem Inv.handlers {handlers : List AnswerHandler}
    (hold : ∀ {j : Nat} {other : AnswerHandler}, handlers[j]? = some other → other.firing = true →
      pool.handlers[j]? = some other)
    (hkept : ∀ other ∈ pool.handlers, other.firing = true → other ∈ handlers)
    (hfits : ∀ other ∈ handlers, pool.shared.Fits other) : Inv ⟨pool.shared, handlers⟩ := by
  have hmem : ∀ other ∈ handlers, other.firing = true → other ∈ pool.handlers := by
    intro other hother hfiring
    obtain ⟨j, hj⟩ := mem_iff_getElem?.mp hother
    exact mem_of_getElem? (hold hj hfiring)
  have hiff : Pending ⟨pool.shared, handlers⟩ ↔ pool.Pending :=
    or_congr_right ⟨fun ⟨other, hother, hfiring⟩ => ⟨other, hmem other hother hfiring, hfiring⟩,
      fun ⟨other, hother, hfiring⟩ => ⟨other, hkept other hother hfiring, hfiring⟩⟩
  exact { h with
    fits := hfits
    unset := by
      intro hnone
      obtain ⟨hquiet, hunset⟩ := h.unset hnone
      refine ⟨fun other hother => Bool.eq_false_iff.mpr fun hfiring => ?_, hunset⟩
      cases (hquiet other (hmem other hother hfiring)).symm.trans hfiring
    unique := fun j k first second hfirst hsecond hfirstFiring hsecondFiring =>
      h.unique j k first second (hold hfirst hfirstFiring) (hold hsecond hsecondFiring)
        hfirstFiring hsecondFiring
    pending := fun hpending => h.pending (hiff.mp hpending)
    settled := fun hpending => h.settled fun hbefore => hpending (hiff.mpr hbefore) }

theorem Inv.set (hhandler : pool.handlers[i]? = some handler)
    (hquiet : handler.firing = false) (hsteppedQuiet : stepped.firing = false)
    (hfits : pool.shared.Fits stepped) : Inv ⟨pool.shared, pool.handlers.set i stepped⟩ := by
  refine h.handlers (fun {j other} hother hfiring => ?_) (fun other hother hfiring => ?_)
    (Pool.forall_mem_set hfits fun j other _ hother => h.fits other (mem_of_getElem? hother))
  · by_cases hij : i = j
    · subst hij
      rw [getElem?_set_self (List.getElem?_eq_some_iff.mp hhandler).1] at hother
      cases hother
      cases hsteppedQuiet.symm.trans hfiring
    · exact (getElem?_set_ne hij).symm.trans hother
  · obtain ⟨j, hj⟩ := mem_iff_getElem?.mp hother
    have hij : i ≠ j := by
      rintro rfl
      cases hhandler.symm.trans hj
      cases hquiet.symm.trans hfiring
    exact mem_of_getElem? ((getElem?_set_ne hij).trans hj)

theorem Inv.concat (hquiet : stepped.firing = false)
    (hfits : pool.shared.Fits stepped) : Inv ⟨pool.shared, pool.handlers ++ [stepped]⟩ := by
  refine h.handlers (fun hother hfiring => ?_) (fun other hother _ => mem_append_left _ hother)
    (forall_mem_append.mpr ⟨h.fits, forall_mem_singleton.mpr hfits⟩)
  rw [getElem?_append] at hother
  split at hother
  case isTrue => exact hother
  case isFalse =>
    cases mem_singleton.mp (mem_of_getElem? hother)
    cases hquiet.symm.trans hfiring

section

variable (hhandler : pool.handlers[i]? = some handler)
  (hown : pool.shared.connection.firstAnswer = none ∨ handler.firing = true)
include hhandler hown

theorem Inv.others {j : Nat}
    {other : AnswerHandler} (hij : j ≠ i) (hother : pool.handlers[j]? = some other) :
    other.firing = false := by
  obtain hnone | hfiring := hown
  · exact (h.unset hnone).1 other (mem_of_getElem? hother)
  · cases hotherFiring : other.firing with
    | false => rfl
    | true => exact absurd (h.unique j i other handler hother hhandler hotherFiring hfiring) hij

theorem Inv.fire
    {connection : BdtConnection} (hfiring : stepped.firing = true)
    (hid : connection.id = pool.shared.connection.id)
    (hstate : connection.state = pool.shared.connection.state)
    (hfirst : connection.firstAnswer ≠ none)
    (hfits : AnswerShared.Fits { pool.shared with connection } stepped) :
    Inv ⟨{ pool.shared with connection }, pool.handlers.set i stepped⟩ := by
  have hlength := (List.getElem?_eq_some_iff.mp hhandler).1
  have hpending : pool.Pending :=
    hown.imp_right fun hfiring => ⟨handler, mem_of_getElem? hhandler, hfiring⟩
  have hsilent := (h.pending hpending).1
  exact
    { alive := h.alive
      id := h.id.trans hid.symm
      fits := Pool.forall_mem_set hfits fun j other hij hother =>
        (h.fits other (mem_of_getElem? hother)).mono (h.others hhandler hown hij hother) rfl
          fun hsettled => absurd hsilent hsettled.not_silent
      unset := fun hnone => absurd hnone hfirst
      unique := by
        intro j k first second hfirst hsecond hfirstFiring hsecondFiring
        have hself : ∀ {j : Nat} {other : AnswerHandler},
            (pool.handlers.set i stepped)[j]? = some other → other.firing = true → j = i := by
          intro j other hother hotherFiring
          by_cases hij : i = j
          · exact hij.symm
          · rw [getElem?_set_ne hij] at hother
            cases (h.others hhandler hown (Ne.symm hij) hother).symm.trans hotherFiring
        exact (hself hfirst hfirstFiring).trans (hself hsecond hsecondFiring).symm
      pending := fun _ => ⟨⟨hsilent.1, hsilent.2⟩, by
        show connection.state = _ ∨ connection.state = _
        rw [hstate]
        exact (h.pending hpending).2⟩
      settled := fun hnot =>
        absurd (.inr ⟨stepped, List.mem_set hlength stepped, hfiring⟩) hnot
      before := h.before }

end

variable {callback : Bool} {answer : FiredAnswer}

theorem Inv.call {establish : Establish}
    (hhandler : pool.handlers[i]? = some (.callFirstAnswer callback answer establish)) :
    Inv ⟨if callback then
          { pool.shared with
            calls := pool.shared.calls ++ [.firstAnswer (answer.data.copy.getD [])] }
        else pool.shared,
      pool.handlers.set i (.tryEnterEstablish false establish)⟩ := by
  have hmem := mem_of_getElem? hhandler
  obtain ⟨hright, hremote, hcallback⟩ := h.fits _ hmem
  have hown : pool.shared.connection.firstAnswer = none ∨
      (AnswerHandler.callFirstAnswer callback answer establish).firing = true := .inr rfl
  have hpending : pool.Pending := .inr ⟨_, hmem, rfl⟩
  obtain ⟨hsilent, hopen⟩ := h.pending hpending
  have hset : pool.shared.connection.firstAnswer ≠ none := by
    intro hnone
    cases (h.unset hnone).1 _ hmem
  have hquiet : ∀ other ∈ pool.handlers.set i (.tryEnterEstablish false establish),
      other.firing = false :=
    Pool.forall_mem_set rfl fun j other hij hother => h.others hhandler hown hij hother
  have hnone : ∀ other ∈ pool.handlers.set i (.tryEnterEstablish false establish),
      other.firing ≠ true :=
    fun other hother => by simp [hquiet other hother]
  have hunique : ∀ (j k : Nat) (first second : AnswerHandler),
      (pool.handlers.set i (.tryEnterEstablish false establish))[j]? = some first →
        (pool.handlers.set i (.tryEnterEstablish false establish))[k]? = some second →
          first.firing = true → second.firing = true → j = k :=
    fun j k first second hfirst _ hfiring _ =>
      absurd hfiring (hnone first (mem_of_getElem? hfirst))
  cases callback with
  | false =>
    -- the callback was taken away when the connection was closed
    exact
      { alive := h.alive
        id := h.id
        fits := Pool.forall_mem_set nofun fun j other _ hother =>
          h.fits other (mem_of_getElem? hother)
        unset := fun hnone => absurd hnone hset
        unique := hunique
        pending := fun _ => ⟨hsilent, hopen⟩
        settled := fun _ => .inr ⟨hsilent, hcallback.resolve_left Bool.false_ne_true⟩
        before := h.before }
  | true =>
    obtain ⟨bytes, hbytes⟩ := ne_none_iff_exists'.mp hright.confirmed
    have hcalls : answersOf (pool.shared.calls ++
        [.firstAnswer (answer.data.copy.getD [])]) = [bytes] := by
      rw [answersOf_append, hsilent.unanswered, hright.copied, hbytes]
      rfl
    exact
      { h with
        fits := Pool.forall_mem_set nofun fun j other hij hother =>
          (h.fits other (mem_of_getElem? hother)).mono (h.others hhandler hown hij hother)
            rfl fun hsettled => absurd hsilent hsettled.not_silent
        unset := fun hnone => absurd hnone hset
        unique := hunique
        pending := fun hpending => by
          obtain hfirst | ⟨other, hother, hfiring⟩ := hpending
          · exact absurd hfirst hset
          · exact absurd hfiring (hnone other hother)
        settled := fun _ => .inl ⟨hremote, bytes, hbytes, hcalls⟩
        before := by
          intro front back hfront
          replace hfront : pool.shared.calls ++ [.firstAnswer (answer.data.copy.getD [])] =
            front ++ .connectResult 0 :: back := hfront
          have hconnected : ConnectCall.connectResult 0 ∈ pool.shared.calls ++
              [.firstAnswer (answer.data.copy.getD [])] :=
            hfront ▸ mem_append_right _ (.head _)
          simp [hsilent.unconnected] at hconnected }

theorem Inv.append_connectResult {error : Nat} (hsettled : error = 0 → pool.shared.Settled) :
    Inv ⟨{ pool.shared with calls := pool.shared.calls ++ [.connectResult error] },
      pool.handlers⟩ := by
  have hanswers : answersOf (pool.shared.calls ++ [.connectResult error]) =
      answersOf pool.shared.calls := by
    rw [answersOf_append]
    exact append_nil _
  have hkept : pool.shared.Settled → AnswerShared.Settled { pool.shared with
      calls := pool.shared.calls ++ [.connectResult error] } := by
    intro hsettled
    obtain ⟨bytes, hbytes, hcalls⟩ := hsettled.answered
    exact ⟨hsettled.remoteId, bytes, hbytes, hanswers.trans hcalls⟩
  have hsilent : pool.shared.Silent → AnswerShared.Silent { pool.shared with
      calls := pool.shared.calls ++ [.connectResult error] } := by
    intro hsilent
    refine ⟨hanswers.trans hsilent.unanswered, fun hmem => ?_⟩
    obtain hmem | hmem := mem_append.mp hmem
    · exact hsilent.unconnected hmem
    · obtain herror := ConnectCall.connectResult.inj (mem_singleton.mp hmem)
      exact (hsettled herror.symm).not_silent hsilent
  exact
    { h with
      fits := fun handler hmem => by
        have hfits := h.fits handler hmem
        cases handler with
        | setRemoteId => exact ⟨⟨hfits.1.1, hfits.1.2, hfits.1.3⟩, hfits.2⟩
        | takeCallback => exact ⟨⟨hfits.1.1, hfits.1.2, hfits.1.3⟩, hfits.2⟩
        | callFirstAnswer => exact ⟨⟨hfits.1.1, hfits.1.2, hfits.1.3⟩, hfits.2⟩
        | onAckSessionData | onTcpFirstAck | onTcpFirstAckResp | onFirstResp | fireFirstAnswer
        | tryEnterEstablish | establishWith | fireConnectResult | returned =>
          exact hfits.mono rfl rfl hkept
      pending := fun hpending => ⟨hsilent (h.pending hpending).1, (h.pending hpending).2⟩
      settled := fun hpending =>
        (h.settled hpending).imp hkept fun hclosed => ⟨hsilent hclosed.1, hclosed.2⟩
      before := by
        intro front back hfront
        obtain rfl | ⟨back, call, rfl⟩ := eq_nil_or_concat back
        · obtain ⟨hcalls, herror⟩ := append_inj' hfront rfl
          obtain ⟨bytes, -, hbytes⟩ := (hsettled (by simpa using herror)).answered
          rw [← hcalls, hbytes]
          exact cons_ne_nil _ _
        have hsplit : pool.shared.calls ++ [.connectResult error] =
            (front ++ .connectResult 0 :: back) ++ [call] := by
          rw [concat_eq_append] at hfront
          rw [append_assoc]
          exact hfront
        exact h.before front back (append_inj' hsplit rfl).1 }

theorem Inv.report {error : Nat}
    (hhandler : pool.handlers[i]? = some (.fireConnectResult callback error)) :
    Inv ⟨if callback then { pool.shared with calls := pool.shared.calls ++ [.connectResult error] }
        else pool.shared,
      pool.handlers.set i .returned⟩ := by
  have hreturned : pool.shared.Fits .returned := trivial
  have hdone := h.set hhandler rfl rfl hreturned
  cases callback with
  | false => exact hdone
  | true => exact hdone.append_connectResult (h.fits _ (mem_of_getElem? hhandler) rfl)

/-! ## Steps -/

theorem Inv.exchange {establish : Establish}
    (hhandler : pool.handlers[i]? = some (.fireFirstAnswer answer establish))
    (hkeeps : pool.KeepsAnswer (.run i)) {next : AnswerShared × AnswerHandler}
    (hstep : pool.shared.step (.fireFirstAnswer answer establish) = some next) :
    Inv ⟨next.1, pool.handlers.set i next.2⟩ := by
  have hsent := h.fits _ (mem_of_getElem? hhandler)
  have hright : pool.shared.connection.firstAnswer = none → pool.shared.Right answer := by
    intro hnone
    cases answer with
    | sessionData =>
      obtain ⟨hconfirmed, rfl⟩ := hsent
      simp only [KeepsAnswer, hhandler] at hkeeps
      exact AnswerShared.right_of_sessionData hconfirmed (hkeeps hnone)
    | firstResp =>
      obtain ⟨hconfirmed, rfl⟩ := hsent
      simp only [KeepsAnswer, hhandler] at hkeeps
      obtain ⟨bytes, hbytes⟩ := ne_none_iff_exists'.mp hconfirmed
      refine ⟨h.id.trans (hkeeps hnone), hconfirmed, ?_⟩
      show some (pool.shared.remote.firstAnswer.getD []) = _
      rw [hbytes, getD_some]
    | tcpFirstAck =>
      obtain ⟨hconfirmed, rfl⟩ := hsent
      simp only [KeepsAnswer, hhandler] at hkeeps
      refine ⟨h.id.trans (hkeeps.2 hnone), hconfirmed, ?_⟩
      show (AnswerBytes.null (pool.shared.remote.firstAnswer.getD []).length).copy = _
      rw [hkeeps.1]
      rfl
  have hcopy : ∃ bytes, answer.data.copy = some bytes := by
    cases answer with
    | sessionData => exact ⟨_, rfl⟩
    | firstResp => exact ⟨_, rfl⟩
    | tcpFirstAck =>
      obtain ⟨-, rfl⟩ := hsent
      simp only [KeepsAnswer, hhandler] at hkeeps
      refine ⟨[], ?_⟩
      show (AnswerBytes.null (pool.shared.remote.firstAnswer.getD []).length).copy = _
      rw [hkeeps.1]
      rfl
  obtain ⟨bytes, hbytes⟩ := hcopy
  simp only [AnswerShared.step, hbytes] at hstep
  split at hstep
  case isTrue hnone =>
    cases hstep
    refine h.fire hhandler (.inl hnone) rfl rfl rfl (some_ne_none bytes) ?_
    obtain ⟨hremote, hconfirmed, hcopied⟩ := hright hnone
    exact ⟨⟨hremote, hconfirmed, hcopied⟩, (h.unset hnone).2⟩
  case isFalse =>
    cases hstep
    exact h.set hhandler rfl rfl nofun

theorem Inv.enterEstablish {always : Bool} {establish : Establish}
    (hhandler : pool.handlers[i]? = some (.tryEnterEstablish always establish))
    (hkeeps : pool.KeepsAnswer (.run i)) {next : AnswerShared × AnswerHandler}
    (hstep : pool.shared.step (.tryEnterEstablish always establish) = some next) :
    Inv ⟨next.1, pool.handlers.set i next.2⟩ := by
  have hfits := h.fits _ (mem_of_getElem? hhandler)
  simp only [KeepsAnswer, hhandler] at hkeeps
  cases hstep
  by_cases hstate : pool.shared.connection.state = .connecting
  · obtain ⟨hset, hquiet⟩ := hkeeps hstate
    have hpending : ¬ pool.Pending := by
      rintro (hnone | ⟨other, hother, hfiring⟩)
      · exact hset hnone
      · cases (hquiet other hother).symm.trans hfiring
    have hsettled : pool.shared.Settled :=
      h.settled_of hpending (by rw [hstate]; exact nofun)
    have hentered : (pool.shared.connection.tryEnterEstablish 0 always establish).connection =
        pool.shared.connection.entered := by
      unfold BdtConnection.tryEnterEstablish
      rw [if_neg (not_not.mpr hstate)]
      rfl
    have hchanged : Inv ⟨{ pool.shared with connection := pool.shared.connection.entered },
        pool.handlers⟩ := h.change rfl rfl rfl (.inr (.inr hsettled))
    rw [hentered, if_pos (.inl hstate)]
    exact hchanged.set hhandler rfl rfl fun _ => ⟨hsettled.remoteId, hsettled.answered⟩
  have hleft : (pool.shared.connection.tryEnterEstablish 0 always establish).connection =
      pool.shared.connection := by
    unfold BdtConnection.tryEnterEstablish
    rw [if_pos hstate]
    rfl
  rw [hleft]
  cases always with
  | false =>
    rw [if_neg (by simp [hstate])]
    exact h.set hhandler rfl rfl trivial
  | true =>
    rw [if_pos (.inr rfl)]
    refine h.set hhandler rfl rfl fun hprovider => ?_
    cases (hfits rfl).symm.trans hprovider

/-- `Bdt_ConnectionEstablishWithPackage` and `Bdt_ConnectionEstablishWithStream`. -/
theorem Inv.establish {establish : Establish}
    (hhandler : pool.handlers[i]? = some (.establishWith establish))
    {next : AnswerShared × AnswerHandler}
    (hstep : pool.shared.step (.establishWith establish) = some next) :
    Inv ⟨next.1, pool.handlers.set i next.2⟩ := by
  have hfits := h.fits _ (mem_of_getElem? hhandler)
  cases hstep
  have hchanged : Inv ⟨{ pool.shared with
      connection := (pool.shared.connection.establishWith 0 establish).connection },
        pool.handlers⟩ := by
    refine h.change rfl rfl rfl ?_
    cases establish with
    | package => exact .inr (.inr (hfits rfl))
    | stream => exact .inr (.inl ⟨rfl, rfl⟩)
  split
  case isTrue hstate =>
    refine hchanged.set hhandler rfl rfl fun _ _ => ?_
    have hpending : ¬ pool.Pending := by
      intro hpending
      obtain hconnecting | hclosed := (h.pending hpending).2
      · cases hstate.symm.trans hconnecting
      · cases hstate.symm.trans hclosed
    have hsettled := h.settled_of hpending (by rw [hstate]; exact nofun)
    exact ⟨hsettled.remoteId, hsettled.answered⟩
  case isFalse => exact hchanged.set hhandler rfl rfl trivial

theorem Inv.run (hhandler : pool.handlers[i]? = some handler)
    (hkeeps : pool.KeepsAnswer (.run i)) {next : AnswerShared × AnswerHandler}
    (hstep : pool.shared.step handler = some next) :
    Inv ⟨next.1, pool.handlers.set i next.2⟩ := by
  have hfits := h.fits _ (mem_of_getElem? hhandler)
  cases handler with
  | onAckSessionData =>
    cases hstep
    split
    case isTrue =>
      split
      case h_1 => exact h.set hhandler rfl rfl hfits
      case h_2 =>
        split
        case isTrue => exact h.set hhandler rfl rfl hfits
        case isFalse => exact h.set hhandler rfl rfl trivial
      case h_3 => exact h.set hhandler rfl rfl trivial
    case isFalse => exact h.set hhandler rfl rfl trivial
  | onTcpFirstAck =>
    cases hstep
    split
    case isTrue =>
      split
      case h_1 => exact h.set hhandler rfl rfl fun _ => rfl
      case h_2 =>
        split
        case isTrue => exact h.set hhandler rfl rfl hfits
        case isFalse => exact h.set hhandler rfl rfl trivial
      case h_3 => exact h.set hhandler rfl rfl trivial
    case isFalse => exact h.set hhandler rfl rfl trivial
  | onTcpFirstAckResp =>
    cases hstep
    split
    case isTrue => exact h.set hhandler rfl rfl nofun
    case isFalse => exact h.set hhandler rfl rfl trivial
  | onFirstResp =>
    cases hstep
    split
    case isTrue => exact h.set hhandler rfl rfl hfits
    case isFalse => exact h.set hhandler rfl rfl trivial
  | fireFirstAnswer => exact h.exchange hhandler hkeeps hstep
  | setRemoteId =>
    cases hstep
    have hset : pool.shared.connection.firstAnswer ≠ none := by
      intro hnone
      cases (h.unset hnone).1 _ (mem_of_getElem? hhandler)
    obtain ⟨hright, hcallback⟩ := hfits
    exact h.fire hhandler (.inr rfl) rfl rfl rfl hset
      ⟨⟨hright.1, hright.2, hright.3⟩, hright.remoteId, hcallback⟩
  | takeCallback =>
    cases hstep
    have hset : pool.shared.connection.firstAnswer ≠ none := by
      intro hnone
      cases (h.unset hnone).1 _ (mem_of_getElem? hhandler)
    obtain ⟨hright, hremote, hcallback⟩ := hfits
    exact h.fire hhandler (.inr rfl) rfl rfl rfl hset
      ⟨⟨hright.1, hright.2, hright.3⟩, hremote, hcallback⟩
  | callFirstAnswer =>
    cases hstep
    exact h.call hhandler
  | tryEnterEstablish => exact h.enterEstablish hhandler hkeeps hstep
  | establishWith establish => exact h.establish hhandler hstep
  | fireConnectResult =>
    cases hstep
    exact h.report hhandler
  | returned => cases hstep

theorem Inv.confirm (answer : List UInt8) :
    Inv ⟨{ pool.shared with remote := (pool.shared.remote.confirmAnswer answer none).connection },
      pool.handlers⟩ := by
  unfold BdtConnection.confirmAnswer
  split
  case isTrue => exact h
  case isFalse hnone =>
  replace hnone : pool.shared.remote.firstAnswer = none := not_not.mp hnone
  have hunsettled : ¬ pool.shared.Settled := by
    intro hsettled
    obtain ⟨bytes, hbytes, -⟩ := hsettled.answered
    cases hnone.symm.trans hbytes
  have hwrong : ∀ answer, ¬ pool.shared.Right answer := fun _ hright => hright.confirmed hnone
  exact
    { alive := h.alive
      id := h.id
      fits := fun handler hmem => by
        have hfits := h.fits handler hmem
        cases handler with
        | onAckSessionData | onTcpFirstAck | onFirstResp => exact absurd hnone hfits.1
        | fireFirstAnswer answer => cases answer <;> exact absurd hnone hfits.1
        | setRemoteId answer | takeCallback answer | callFirstAnswer _ answer =>
          exact absurd hfits.1 (hwrong answer)
        | establishWith => exact fun hprovider => absurd (hfits hprovider) hunsettled
        | fireConnectResult =>
          exact fun hcallback herror => absurd (hfits hcallback herror) hunsettled
        | tryEnterEstablish | onTcpFirstAckResp | returned => exact hfits
      unset := h.unset
      unique := h.unique
      pending := fun hpending =>
        ⟨⟨(h.pending hpending).1.1, (h.pending hpending).1.2⟩, (h.pending hpending).2⟩
      settled := fun hpending => by
        obtain hsettled | ⟨hsilent, hclosed⟩ := h.settled hpending
        · exact absurd hsettled hunsettled
        · exact .inr ⟨⟨hsilent.1, hsilent.2⟩, hclosed⟩
      before := h.before }

theorem Inv.enter {arrival : AnswerArrival} {entered : AnswerShared × Option AnswerHandler}
    (henter : pool.shared.enter arrival = some entered) :
    Inv ⟨entered.1, pool.handlers ++ entered.2.toList⟩ := by
  have hended : ∀ shared : AnswerShared, Inv ⟨shared, pool.handlers⟩ →
      Inv ⟨shared, pool.handlers ++ (none : Option AnswerHandler).toList⟩ := by
    intro shared hshared
    rwa [toList_none, append_nil]
  cases arrival with
  | confirm answer =>
    cases henter
    exact hended _ (h.confirm answer)
  | ackSessionData | tcpFirstAck =>
    simp only [AnswerShared.enter] at henter
    split at henter
    case isTrue => cases henter
    case isFalse hconfirmed =>
      cases henter
      exact h.concat rfl ⟨hconfirmed, rfl⟩
  | tcpFirstAckResp =>
    simp only [AnswerShared.enter] at henter
    split at henter
    case isTrue => cases henter
    case isFalse =>
      cases henter
      exact h.concat rfl trivial
  | firstResp =>
    simp only [AnswerShared.enter] at henter
    split at henter
    case h_1 =>
      split at henter
      case isTrue => cases henter
      case isFalse hconfirmed =>
        cases henter
        exact h.concat rfl ⟨hconfirmed, rfl⟩
    case h_2 => cases henter
  | close =>
    cases henter
    refine hended _ ?_
    unfold BdtConnection.close
    split
    case h_1 | h_2 => exact h.change rfl rfl rfl (.inl rfl)
    case h_3 hstate =>
      refine h.change rfl rfl rfl (.inr (.inr (h.settled_of ?_ (by rw [hstate]; exact nofun))))
      intro hpending
      obtain hconnecting | hclosed := (h.pending hpending).2
      · cases hstate.symm.trans hconnecting
      · cases hstate.symm.trans hclosed
    case h_4 | h_5 => exact h.change rfl rfl rfl (.inr (.inl ⟨rfl, rfl⟩))
  | reset =>
    cases henter
    refine hended _ ?_
    unfold BdtConnection.reset
    split
    case h_1 | h_2 | h_3 | h_4 => exact h.change rfl rfl rfl (.inl rfl)
    case h_5 => exact h.change rfl rfl rfl (.inr (.inl ⟨rfl, rfl⟩))
  | fail error =>
    simp only [AnswerShared.enter] at henter
    split at henter
    case isTrue => cases henter
    case isFalse herror =>
    cases henter
    have hchanged : Inv ⟨{ pool.shared with
        connection := (pool.shared.connection.finishConnecting 0 error).connection },
          pool.handlers⟩ := by
      unfold BdtConnection.finishConnecting
      split
      case isTrue => exact h.change rfl rfl rfl (.inr (.inl ⟨rfl, rfl⟩))
      case isFalse => exact h.change rfl rfl rfl (.inl rfl)
    exact hchanged.concat rfl fun _ hzero => absurd hzero herror

theorem Inv.after {event : PoolEvent AnswerArrival} (hkeeps : pool.KeepsAnswer event)
    (hnext : pool.next event = some last) : last.Inv := by
  obtain ⟨arrival, entered, rfl, henter, rfl⟩ | ⟨i, handler, stepped, rfl, hhandler, hstep, rfl⟩ :=
    Pool.next_eq_some hnext
  · exact h.enter henter
  · exact h.run hhandler hkeeps hstep

end

/-- In a run whose steps keep the first answer, the callbacks of the connection are called as they
should be, in every state. -/
theorem firstAnswer_kept (peerid remotePeerid : Peerid) (id remoteId seq : UInt32)
    (via : ConnectorIns) (events : List (PoolEvent AnswerArrival))
    (hkeeps : StepsMeet next KeepsAnswer (start peerid remotePeerid id remoteId seq via) events) :
    Throughout next Integrity (start peerid remotePeerid id remoteId seq via) events := by
  intro front back pool hsplit hfront
  have hfrontKeeps := (hsplit ▸ hkeeps).front
  exact (hfrontKeeps.preserves (fun _ _ _ hinv hmeets hnext => Inv.after hinv hmeets hnext)
    (start_inv peerid remotePeerid id remoteId seq via) hfront).integrity

/-- A connection by packages gets the answer of two bytes and is established. -/
theorem firstAnswer_kept_package : Throughout next Integrity
    (start (.zero BDT_PEERID_LENGTH) (.zero BDT_PEERID_LENGTH) 5 9 1 .package)
    [.arrive (.confirm [1, 2]), .arrive (.ackSessionData false), .run 0, .run 0, .run 0, .run 0,
      .run 0, .run 0, .run 0, .run 0] := by
  refine firstAnswer_kept _ _ 5 9 1 .package _ ?_
  refine .cons trivial fun s₁ h₁ => ?_
  cases h₁
  refine .cons trivial fun s₂ h₂ => ?_
  cases h₂
  refine .cons trivial fun s₃ h₃ => ?_
  cases h₃
  refine .cons (fun _ => by decide) fun s₄ h₄ => ?_
  cases h₄
  refine .cons trivial fun s₅ h₅ => ?_
  cases h₅
  refine .cons trivial fun s₆ h₆ => ?_
  cases h₆
  refine .cons trivial fun s₇ h₇ => ?_
  cases h₇
  refine .cons (fun _ => ⟨nofun, forall_mem_singleton.mpr rfl⟩) fun s₈ h₈ => ?_
  cases h₈
  refine .cons trivial fun s₉ h₉ => ?_
  cases h₉
  exact .cons trivial fun _ _ => stepsMeet_nil _ _

/-- A connection by a stream reports a success without an answer. One by a builder takes its own id
for that of the remote, and if the remote connects back, the null pointer for three bytes. -/
theorem stream_answers_lost :
    ¬ Throughout next Integrity
      (start (.zero BDT_PEERID_LENGTH) (.zero BDT_PEERID_LENGTH) 5 9 1 (.stream 4))
      [.arrive (.confirm [1, 2, 3]), .arrive (.tcpFirstAckResp 4), .run 0, .run 0, .run 0, .run 0] ∧
    ¬ Throughout next Integrity
      (start (.zero BDT_PEERID_LENGTH) (.zero BDT_PEERID_LENGTH) 5 9 1 (.builder 0))
      [.arrive (.confirm [1, 2, 3]), .arrive (.firstResp 4), .run 0, .run 0, .run 0, .run 0, .run 0,
        .run 0, .run 0, .run 0] ∧
    ¬ Throughout next Integrity
      (start (.zero BDT_PEERID_LENGTH) (.zero BDT_PEERID_LENGTH) 5 9 1 (.builder 0))
      [.arrive (.confirm [1, 2, 3]), .arrive (.tcpFirstAck 4 true), .run 0, .run 0] := by
  refine ⟨fun h => ?_, fun h => ?_, fun h => ?_⟩
  · exact (h _ [] _ (append_nil _).symm rfl).before [] [] rfl rfl
  · have hremote := (h _ [] _ (append_nil _).symm rfl).remoteId (.tail _ (.head _))
    exact absurd hremote (by decide)
  · have halive := (h _ [] _ (append_nil _).symm rfl).alive
    cases halive

end AnswerPool

end Bdt
