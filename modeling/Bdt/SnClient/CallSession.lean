import Bdt.Base.Transition

/-!
# The calls of a call session

A model of `CallSession.imp.inl` as far as it sends calls: the start of a session, its timer, and
the answers of the super nodes. The clock counts microseconds, as `BfxTimeGetNow` does.

`CallSessionOnTimer` sends calls again, but it is called nowhere: the timer of a session runs
`CallSessionTimerProcess`, which only looks at the end time. `resends_iff` says what that makes of
the calls, and `onTimer_resends` what `CallSessionOnTimer` would do.
-/

namespace Bdt

open Base

/-- `BDT_MICRO_SECONDS_2_MS`. -/
def BDT_MICRO_SECONDS_2_MS (now : Nat) : Nat :=
  now / 1000

/-- The members of `BdtSnClient_CallClient` that decide about its calls, what was sent to its super
node, and when. -/
structure CallClient where
  /-- The endpoints of `snPeerInfo`. -/
  endpointCount : Nat
  lastCallTime : Int := 0
  resendInterval : UInt32
  usingUdpInterface : Bool := false
  lastRespTime : Nat := 0
  /-- The datagrams with the call that were sent. -/
  datagrams : Nat := 0
  /-- The time of the last call that was sent, in milliseconds. -/
  lastCall : Option Nat := none
  deriving DecidableEq, Repr

/-- The members of `BdtSnClient_CallSession` that decide about its calls. -/
structure CallSession where
  callClients : List CallClient
  endTime : Nat
  /-- `callback` is not `NULL`. -/
  callback : Bool := true
  /-- The timer runs. -/
  timer : Bool := false
  deriving DecidableEq, Repr

/-- What a call needs of the stack: the udp interfaces, and whether the packages can be boxed. -/
structure CallNetwork where
  interfaceCount : Nat
  boxed : Bool := true
  deriving DecidableEq, Repr

/-- What `CallClientFindPriorityEndpointByHistory` finds. -/
inductive PriorityEndpoint where
  | none
  | tcp
  /-- With a local endpoint of one of the udp interfaces, or without. -/
  | udp (matched : Bool)
  deriving DecidableEq, Repr

namespace CallClient

variable (client : CallClient)

/-- `CallClientSendCallUdp`: the call goes from every interface to every endpoint. -/
def sendCallUdp (network : CallNetwork) (now fromInterfaceCount
    toEndpointCount : Nat) : CallClient :=
  if network.boxed then
    { client with
      datagrams := client.datagrams + fromInterfaceCount * toEndpointCount
      lastCall := some (BDT_MICRO_SECONDS_2_MS now) }
  else client

/-- `CallClientTryResendCallAllUdp`. -/
def tryResendCallAllUdp (network : CallNetwork) (now : Nat) : CallClient :=
  let (interfaceCount, toEndpointCount) :=
    if client.usingUdpInterface then (1, 1) else (network.interfaceCount, client.endpointCount)
  if 0 < interfaceCount ∧ 0 < toEndpointCount then
    client.sendCallUdp network now interfaceCount toEndpointCount
  else client

/-- `CallClientUpdateResendInterval`. -/
def updateResendInterval : CallClient :=
  { client with resendInterval := client.resendInterval <<< 1 }

/-- `CallClientTryResendOnTimer`. -/
def tryResendOnTimer (network : CallNetwork) (now : Nat) : CallClient :=
  if UInt32.ofInt (BDT_MICRO_SECONDS_2_MS now - client.lastCallTime) < client.resendInterval then client
  else if client.lastRespTime = 0 then (client.tryResendCallAllUdp network now).updateResendInterval
  else client

/-- `CallClientCallPriorityEndpoints`, with the number of endpoints that it has found. A tcp
connection gets its call when it is established; there is at least the local address zero for it. -/
def callPriorityEndpoints (network : CallNetwork) (now : Nat) :
    PriorityEndpoint → CallClient × Nat
  | .none => (client, 0)
  | .tcp => (client, 1)
  | .udp matched =>
    if network.interfaceCount = 0 then (client, 0)
    else
      let interfaceCount := if matched then 1 else network.interfaceCount
      (client.sendCallUdp network now interfaceCount 1, interfaceCount)

/-- What `BdtSnClient_CallSessionStart` does for a client. -/
def start (network : CallNetwork) (now : Nat) (priority : PriorityEndpoint) : CallClient :=
  let (client, count) := client.callPriorityEndpoints network now priority
  if count ≤ 0 then client.tryResendCallAllUdp network now else client

/-- The super node answers, by udp or by tcp: `CallClientResponceUdp` and `CallClientOnTcpPackage`. -/
def response (now : Nat) (udp : Bool) : CallClient :=
  { client with
    usingUdpInterface := client.usingUdpInterface || udp
    lastRespTime := BDT_MICRO_SECONDS_2_MS now }

/-- A connection to the super node is established and gets the call: `CallClientOnTcpEstablish`. -/
def tcpEstablish (network : CallNetwork) (now : Nat) : CallClient :=
  if network.boxed then { client with lastCall := some (BDT_MICRO_SECONDS_2_MS now) } else client

/-- The interval has passed since the last call. -/
def Due (now : Nat) : Prop :=
  ∃ last, client.lastCall = some last ∧
    last + client.resendInterval.toNat ≤ BDT_MICRO_SECONDS_2_MS now

end CallClient

/-- What happens to a call session. -/
inductive CallSessionEvent where
  /-- `BdtSnClient_CallSessionStart`, with what the history has for each client. -/
  | start (network : CallNetwork) (now : Nat) (priority : Nat → PriorityEndpoint)
  /-- The timer goes off. -/
  | tick (now : Nat)
  | tcpEstablish (i : Nat) (network : CallNetwork) (now : Nat)
  | response (i : Nat) (now : Nat) (udp : Bool)

namespace CallSession

/-- `CallSessionCreate`: there is one super node. -/
def create (callInterval : UInt32) (callTimeout endpointCount now : Nat) : CallSession where
  callClients := [{ endpointCount, resendInterval := callInterval }]
  endTime := now + callTimeout * 1000

variable (session : CallSession)

/-- `CallSessionTimerProcess`. -/
def timerProcess (now : Nat) : CallSession :=
  let session := { session with timer := false }
  if session.callback = false then session
  else if session.endTime ≤ now then { session with callback := false }
  else { session with timer := true }

/-- `CallSessionOnTimer`. -/
def onTimer (network : CallNetwork) (now : Nat) : CallSession :=
  { session with callClients := session.callClients.map (·.tryResendOnTimer network now) }

/-- One event; `none` when the timer does not run, or there is no such client. -/
def handle : CallSessionEvent → Option CallSession
  | .start network now priority =>
    some
      { session with
        callClients := session.callClients.mapIdx fun i client =>
          client.start network now (priority i)
        timer := true }
  | .tick now => if session.timer then some (session.timerProcess now) else none
  | .tcpEstablish i network now =>
    session.callClients[i]?.map fun client =>
      { session with callClients := session.callClients.set i (client.tcpEstablish network now) }
  | .response i now udp =>
    session.callClients[i]?.map fun client =>
      let next :=
        { session with callClients := session.callClients.set i (client.response now udp) }
      -- the first answer of a client ends the session
      if client.lastRespTime = 0 then { next with timer := false, callback := false } else next

/-! ## The property -/

/-- No super node of the session has answered. -/
def Unanswered : Prop :=
  ∀ client ∈ session.callClients, client.lastRespTime = 0

/-- What a tick of the timer does: as long as there is no answer and the end time is not reached, a
client whose interval has passed gets its call again, and twice the interval; and a client that has
answered gets none. -/
structure Resends (session : CallSession) (now : Nat) (next : CallSession) : Prop where
  due : session.Unanswered → now < session.endTime →
    ∀ (i : Nat) (client : CallClient), session.callClients[i]? = some client → client.Due now →
      ∃ again, next.callClients[i]? = some again ∧ client.datagrams < again.datagrams ∧
        again.resendInterval.toNat = 2 * client.resendInterval.toNat
  answered : ∀ (i : Nat) (client again : CallClient), session.callClients[i]? = some client →
    next.callClients[i]? = some again → client.lastRespTime ≠ 0 → again.datagrams = client.datagrams

/-- Every tick does what it should. -/
def ResendsOn : CallSessionEvent → Prop
  | .tick now => ∀ next, session.handle (.tick now) = some next → session.Resends now next
  | _ => True

/-- No call is due at a tick before the end time and without an answer. -/
def NothingDue : CallSessionEvent → Prop
  | .tick now => session.timer = true → session.Unanswered → now < session.endTime →
      ∀ client ∈ session.callClients, ¬ client.Due now
  | _ => True

/-! ## Ticks -/

/-- A tick sends nothing and leaves the clients as they are. -/
theorem timerProcess_clients (now : Nat) :
    (session.timerProcess now).callClients = session.callClients := by
  unfold timerProcess
  dsimp only
  split
  · rfl
  · split <;> rfl

theorem resendsOn_iff (event : CallSessionEvent) :
    session.ResendsOn event ↔ session.NothingDue event := by
  cases event with
  | tick now =>
    have hclients := session.timerProcess_clients now
    constructor
    · intro h htimer hunanswered hend client hmem hdue
      obtain ⟨i, hget⟩ := List.mem_iff_getElem?.mp hmem
      have hhandle : session.handle (.tick now) = some (session.timerProcess now) := if_pos htimer
      obtain ⟨again, hagain, hmore, -⟩ := (h _ hhandle).due hunanswered hend i client hget hdue
      rw [hclients, hget] at hagain
      cases hagain
      exact Nat.lt_irrefl _ hmore
    intro h next hnext
    by_cases htimer : session.timer = true
    · cases (if_pos htimer : session.handle (.tick now) = _).symm.trans hnext
      constructor
      · intro hunanswered hend i client hget hdue
        exact absurd hdue (h htimer hunanswered hend client (List.mem_of_getElem? hget))
      intro i client again hget hagain _
      rw [hclients, hget] at hagain
      cases hagain
      rfl
    · cases (if_neg htimer : session.handle (.tick now) = none).symm.trans hnext
  | start | tcpEstablish | response => exact Iff.rfl

/-- `CallSessionOnTimer` would do what a tick should, for clients that keep the time of their last
call, not too long ago, in an interval that can be doubled. -/
theorem onTimer_resends {network : CallNetwork} {now : Nat}
    (hboxed : network.boxed = true) (hinterface : 0 < network.interfaceCount)
    (hclients : ∀ client ∈ session.callClients, 0 < client.endpointCount ∧
      client.resendInterval.toNat < 2147483648 ∧ ∀ last, client.lastCall = some last →
        client.lastCallTime = last ∧ BDT_MICRO_SECONDS_2_MS now - last < 4294967296) :
    session.Resends now (session.onTimer network now) := by
  constructor
  · intro hunanswered _ i client hget ⟨last, hlast, hpassed⟩
    have hmem := List.mem_of_getElem? hget
    obtain ⟨hendpoint, hinterval, hkept⟩ := hclients client hmem
    obtain ⟨htime, hlong⟩ := hkept last hlast
    refine ⟨client.tryResendOnTimer network now, List.getElem?_map.trans (congrArg _ hget), ?_⟩
    have hpassing : UInt32.ofInt (BDT_MICRO_SECONDS_2_MS now - client.lastCallTime) =
        UInt32.ofNat (BDT_MICRO_SECONDS_2_MS now - last) := by
      rw [htime, UInt32.ofInt, ← Int.ofNat_sub (by omega)]
      exact congrArg UInt32.ofNat (Nat.mod_eq_of_lt hlong)
    have hlate : ¬ UInt32.ofInt (BDT_MICRO_SECONDS_2_MS now - client.lastCallTime) <
        client.resendInterval := by
      rw [hpassing, UInt32.lt_iff_toNat_lt, UInt32.toNat_ofNat_of_lt' hlong]
      omega
    unfold CallClient.tryResendOnTimer
    rw [if_neg hlate, if_pos (hunanswered client hmem)]
    have hdouble : (client.resendInterval <<< 1).toNat = 2 * client.resendInterval.toNat := by
      rw [UInt32.toNat_shiftLeft, Nat.shiftLeft_eq, Nat.mul_comm]
      exact Nat.mod_eq_of_lt (show 2 * _ < _ by omega)
    unfold CallClient.tryResendCallAllUdp CallClient.sendCallUdp
    cases client.usingUdpInterface <;>
      simp [CallClient.updateResendInterval, hboxed, hinterface, hendpoint, hdouble]
  intro i client again hget hagain hanswered
  have hsame : again = client.tryResendOnTimer network now :=
    Option.some.inj (hagain.symm.trans (List.getElem?_map.trans (congrArg _ hget)))
  rw [hsame, CallClient.tryResendOnTimer, if_neg hanswered, ite_self]

/-- In a run of a session, the ticks send the calls again exactly when none of them is due. -/
theorem resends_iff (events : List CallSessionEvent) :
    StepsMeet handle ResendsOn session events ↔ StepsMeet handle NothingDue session events :=
  -- The invariant holds of every session.
  @stepsMeet_congr _ _ _ _ _ (fun _ => True) _ _ trivial (fun _ _ _ _ _ _ => trivial)
    fun session event _ => session.resendsOn_iff event

/-- A session with an interval of 200 milliseconds whose super node does not answer: at the third
tick of the timer nothing is sent. -/
theorem third_tick_silent :
    ¬ StepsMeet handle ResendsOn (create 200 3000 1 0)
      [.start ⟨1, true⟩ 0 fun _ => .none, .tick 100000, .tick 200000] := by
  intro h
  have hrun : exec handle (create 200 3000 1 0)
      [.start ⟨1, true⟩ 0 fun _ => .none, .tick 100000] =
        some
          { callClients := [
              { endpointCount := 1, resendInterval := 200, datagrams := 1, lastCall := some 0 }]
            endTime := 3000000, timer := true } := rfl
  have hresends :=
    h [.start ⟨1, true⟩ 0 fun _ => .none, .tick 100000] (.tick 200000) [] _ rfl hrun _ rfl
  obtain ⟨again, hagain, hmore, -⟩ := hresends.due (by simp [Unanswered]) (by decide) 0 _ rfl
    ⟨0, rfl, by decide⟩
  cases hagain
  exact absurd hmore (by decide)

end CallSession

end Bdt
