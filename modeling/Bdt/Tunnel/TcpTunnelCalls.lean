import Bdt.Base.Calls
import Bdt.Base.History
import Bdt.Tunnel.TunnelContainer

/-!
# Calls that change the state of a tcp tunnel

A model of the functions of `TcpTunnel.imp.inl` that change `state`, of `TunnelContainerOnTunnelDead`,
and of what else is done with the tunnels of a container. The calls run in several threads, so they
are cut at their atomic operations and at the sections under `tunnelsLock` and `defaultLock`.

The tunnels stay allocated here: the references to them are the subject of another module. The
interface of a tunnel, its timer and its packages make no difference to its state and are left out.
-/

namespace Bdt

open Base

inductive TunnelAction where
  /-- `TcpTunnelConnect`. -/
  | connect (tunnel : Nat)
  /-- `TcpTunnelOnConnectTimeout`. -/
  | connectTimeout (tunnel : Nat)
  /-- `Bdt_TcpTunnelMarkDead`. -/
  | markDead (tunnel : Nat)
  /-- `TcpTunnelOnTcpError`. -/
  | tcpError (tunnel : Nat)
  /-- `TcpTunnelOnTcpEstablish`. -/
  | establish (tunnel : Nat)
  /-- `TcpTunnelOnTcpFirstResp`, with `TcpTunnelEnterAlive`. -/
  | firstResp (tunnel : Nat)
  /-- `TcpTunnelOnTcpFirstPackage`. -/
  | firstPackage (tunnel : Nat)
  /-- It found the tunnel connecting. -/
  | firstPackageConnecting (tunnel : Nat)
  /-- `SocketTunnelGetLastRecv`, for the argument of `TunnelContainerOnTunnelDead`. -/
  | getLastRecv (tunnel : Nat)
  /-- `TunnelContainerOnTunnelDead`. -/
  | onTunnelDead (tunnel : Nat) (lastRecv : UInt64)
  /-- `TunnelContainerRemoveTunnel`, called by `TunnelContainerOnTunnelDead` or not. -/
  | removeTunnel (tunnel : Nat) (lastRecv : UInt64) (dead : Bool)
  /-- `TunnelContainerUpdateDefaultTunnel`, called by `TunnelContainerOnTunnelDead` of a tunnel or
  not. -/
  | updateDefaultTunnel (dead : Option Nat)
  /-- `TunnelContainerSetDefaultTunnel`. -/
  | setDefaultTunnel (tunnel dead : Option Nat)
  /-- `TunnelContainerCreateTunnel`. -/
  | createTunnel (localEndpoint remoteEndpoint : BdtEndpoint) (lastRecv : UInt64)
  /-- `BdtTunnel_PushUdpPackage`, at this time. -/
  | pushUdpPackage (localEndpoint remoteEndpoint : BdtEndpoint) (now : UInt64)
  /-- It found no tunnel. -/
  | pushNewUdpPackage (localEndpoint remoteEndpoint : BdtEndpoint) (now : UInt64)
  /-- `SocketTunnelUpdateLastRecv`. -/
  | updateLastRecv (tunnel : Nat) (now : UInt64)
  deriving DecidableEq

inductive TunnelEntry where
  | entered (tunnel : Nat) (state : TcpTunnelState)
  /-- `TunnelContainerOnTunnelDead` is called. -/
  | called (tunnel : Nat)
  /-- It has no effect on the container any more. -/
  | returned (tunnel : Nat)
  deriving DecidableEq

/-- The tunnels of a container, and all that were created. -/
structure Tunnels where
  heap : List SocketTunnel := []
  tunnels : List TunnelMap := []
  defaultTunnel : Option Nat := none

/-- What an action does, and what it leaves to be done. -/
structure TunnelResult where
  next : Tunnels
  entries : List TunnelEntry := []
  more : List TunnelAction := []

namespace Tunnels

variable (container : Tunnels)

/-- The places in the map hold these tunnels. -/
def mapped : List Nat :=
  container.tunnels.map (·.tunnel)

/-- `BfxAtomicCompareAndSwap32` of the state of a tunnel, and what the caller does with the value it
returns. -/
def compareAndSwap (tunnel : Nat) (oldState newState : TcpTunnelState)
    (behind : TcpTunnelState → List TunnelAction) : Option TunnelResult :=
  (container.heap[tunnel]?).map fun found =>
    if found.state = oldState then
      { next :=
          { container with heap := container.heap.set tunnel { found with state := newState } }
        entries := [.entered tunnel newState]
        more := behind found.state }
    else { next := container, more := behind found.state }

/-- The section of `TunnelContainerCreateTunnel`, with `*outTunnel` and whether the tunnel is new. One
that is not is freed. -/
def addTunnel (localEndpoint remoteEndpoint : BdtEndpoint) (lastRecv : UInt64) :
    Option (Tunnels × Nat × Bool) :=
  (SocketTunnel.create localEndpoint remoteEndpoint lastRecv).map fun created =>
    let tunnel := container.heap.length
    match addIfNotMember TunnelMapCompare container.tunnels { localEndpoint, remoteEndpoint, tunnel } with
    | (_, some found) => (container, found.tunnel, false)
    | (tunnels, none) =>
      ({ container with heap := container.heap ++ [created], tunnels }, tunnel, true)

/-- The section of `TunnelContainerRemoveTunnel`, with `del`, and whether it is deleted. -/
def deleteTunnel (tunnel : Nat) (lastRecv : UInt64) : Option (Tunnels × Bool) := do
  let socketTunnel ← container.heap[tunnel]?
  -- `del` is used without a test for the null pointer
  let del ← findMember TunnelMapCompare container.tunnels
    { localEndpoint := socketTunnel.localEndpoint
      remoteEndpoint := socketTunnel.remoteEndpoint
      tunnel }
  let found ← container.heap[del.tunnel]?
  if del.tunnel = tunnel ∧ found.lastRecv = lastRecv then
    some ({ container with
      tunnels := (deleteIfMember TunnelMapCompare container.tunnels del).1 }, true)
  else some (container, false)

/-- What `TunnelContainerUpdateDefaultTunnel` chooses, of tunnels in the order in which the tree is
enumerated, each with the state that it has when it is looked at. -/
def choose (seen : List (Nat × TcpTunnelState)) : Option (Option Nat) :=
  if (seen.map Prod.fst).Perm container.mapped then do
    let tunnels ← seen.mapM fun (i, state) =>
      (container.heap[i]?).map fun tunnel => (i, { tunnel with state })
    some (chooseTunnel tunnels none none)
  else none

def perform (seen : List (Nat × TcpTunnelState)) :
    TunnelAction → Option TunnelResult
  | .connect tunnel => container.compareAndSwap tunnel .unknown .connecting fun _ => []
  | .connectTimeout tunnel => container.compareAndSwap tunnel .connecting .dead fun oldState =>
    if oldState = .connecting then [.getLastRecv tunnel] else []
  | .markDead tunnel => container.compareAndSwap tunnel .unknown .dead fun oldState =>
    if oldState = .unknown then [.getLastRecv tunnel] else []
  | .tcpError tunnel => (container.heap[tunnel]?).map fun found =>
    { next := { container with heap := container.heap.set tunnel { found with state := .dead } }
      entries := [.entered tunnel .dead]
      more := if found.state = .dead then [.getLastRecv tunnel] else [] }
  | .establish _ => some { next := container }
  | .firstResp tunnel => container.compareAndSwap tunnel .connecting .alive fun _ => []
  | .firstPackage tunnel => container.compareAndSwap tunnel .unknown .alive fun oldState =>
    if oldState = .connecting then [.firstPackageConnecting tunnel] else []
  | .firstPackageConnecting tunnel => container.compareAndSwap tunnel .connecting .alive fun _ => []
  | .getLastRecv tunnel => (container.heap[tunnel]?).map fun found =>
    { next := container, more := [.onTunnelDead tunnel found.lastRecv] }
  | .onTunnelDead tunnel lastRecv => some
      { next := container
        entries := [.called tunnel]
        more := [.removeTunnel tunnel lastRecv true] }
  | .removeTunnel tunnel lastRecv dead =>
    (container.deleteTunnel tunnel lastRecv).map fun (next, success) =>
      if dead then
        if success then { next, more := [.updateDefaultTunnel (some tunnel)] }
        else { next, entries := [.returned tunnel] }
      else { next }
  | .updateDefaultTunnel dead => (container.choose seen).map fun tunnel =>
    { next := container, more := [.setDefaultTunnel tunnel dead] }
  | .setDefaultTunnel tunnel dead => some
      { next := { container with defaultTunnel := tunnel }
        entries := (dead.map TunnelEntry.returned).toList }
  | .createTunnel localEndpoint remoteEndpoint lastRecv =>
    (container.addTunnel localEndpoint remoteEndpoint lastRecv).map fun (next, _, _) => { next }
  | .pushUdpPackage localEndpoint remoteEndpoint now => some <|
      match findMember TunnelMapCompare container.tunnels
          { localEndpoint, remoteEndpoint, tunnel := 0 } with
      | some found => { next := container, more := [.updateLastRecv found.tunnel now] }
      | none =>
        { next := container, more := [.pushNewUdpPackage localEndpoint remoteEndpoint now] }
  | .pushNewUdpPackage localEndpoint remoteEndpoint now =>
    (container.addTunnel localEndpoint remoteEndpoint 0).map fun (next, tunnel, added) =>
      { next
        more := .updateLastRecv tunnel now :: if added then [.updateDefaultTunnel none] else [] }
  | .updateLastRecv tunnel now => (container.heap[tunnel]?).map fun found =>
    { next := { container with heap := container.heap.set tunnel { found with lastRecv := now } } }

/-- A `TcpTunnel` that was created. -/
def isTcp (tunnel : Nat) : Bool :=
  (container.heap[tunnel]?).any fun found => !found.udp

/-- A `UdpTunnel` that was created. -/
def isUdp (tunnel : Nat) : Bool :=
  (container.heap[tunnel]?).any fun found => found.udp

/-- What is called from outside: the functions of a `TcpTunnel`, those of the container, and
`TunnelContainerOnTunnelDead` and `TunnelContainerRemoveTunnel` of a `UdpTunnel`. -/
def isEntry : TunnelAction → Bool
  | .connect tunnel | .connectTimeout tunnel | .markDead tunnel | .tcpError tunnel
  | .establish tunnel | .firstResp tunnel | .firstPackage tunnel => container.isTcp tunnel
  | .onTunnelDead tunnel _ | .removeTunnel tunnel _ false => container.isUdp tunnel
  | .updateDefaultTunnel none | .createTunnel .. => true
  -- the local endpoint is that of a udp interface
  | .pushUdpPackage localEndpoint _ _ => localEndpoint.flag &&& BDT_ENDPOINT_PROTOCOL_UDP ≠ 0
  | _ => false

end Tunnels

/-- A container, the calls in flight, and what they did. -/
structure TunnelRun where
  container : Tunnels := {}
  calls : List (List TunnelAction) := []
  history : List TunnelEntry := []

inductive TunnelEvent where
  | call (action : TunnelAction)
  /-- One of the calls goes on. If it enumerates the map, it sees the tunnels in this order, and in
  these states. -/
  | step (i : Nat) (seen : List (Nat × TcpTunnelState))
  deriving DecidableEq

namespace TunnelRun

def handle (run : TunnelRun) : TunnelEvent → Option TunnelRun
  | .call action =>
    if run.container.isEntry action then some { run with calls := run.calls ++ [[action]] } else none
  | .step i seen =>
    match run.calls[i]? with
    | some (action :: rest) => (run.container.perform seen action).map fun result =>
      { container := result.next
        calls := advanceCall run.calls i result.more rest
        history := run.history ++ result.entries }
    | _ => none

/-! ## What a tunnel promises -/

/-- The state of a tunnel, which is unknown before it is created. -/
def stateOf (container : Tunnels) (tunnel : Nat) : TcpTunnelState :=
  (container.heap[tunnel]?).elim .unknown (·.state)

/-- A dead tunnel counts 1. -/
def deaths (container : Tunnels) (tunnel : Nat) : Int :=
  if stateOf container tunnel = .dead then 1 else 0

/-- An action that calls `TunnelContainerOnTunnelDead` for the tunnel. -/
def calling (tunnel : Nat) : TunnelAction → Int
  | .getLastRecv other | .onTunnelDead other _ => if other = tunnel then 1 else 0
  | _ => 0

/-- A tunnel that is dead stays dead. -/
def StaysDead (tunnel : Nat) (front : List TunnelEntry) (entry : TunnelEntry) : Prop :=
  ∀ state, entry = .entered tunnel state → .entered tunnel .dead ∈ front → state = .dead

/-- A tcp tunnel dies once. -/
structure DiesOnce (run : TunnelRun) (tunnel : Nat) : Prop where
  final : Justified (StaysDead tunnel) run.history
  /-- `TunnelContainerOnTunnelDead` was called or is about to be called, once for a tunnel that is
  dead and not at all for another one. -/
  called : weight (calling tunnel) run.calls + run.history.count (.called tunnel) =
    deaths run.container tunnel
  /-- Afterwards the tunnel is not in the map, and is not the default tunnel. -/
  gone : .returned tunnel ∈ run.history →
    tunnel ∉ run.container.mapped ∧ run.container.defaultTunnel ≠ some tunnel

/-- What is not a `UdpTunnel` dies once. -/
def Dies (tunnel : Nat) (run : TunnelRun) : Prop :=
  run.container.isUdp tunnel = false → run.DiesOnce tunnel

/-- No error of the tcp interface, and no tunnel that is made the default one after it was removed. -/
def Orderly (tunnel : Nat) (run : TunnelRun) : TunnelEvent → Prop
  | .step i _ => run.container.isUdp tunnel = false → ∀ action rest,
      run.calls[i]? = some (action :: rest) →
      action ≠ .tcpError tunnel ∧
        ∀ dead, action = .setDefaultTunnel (some tunnel) dead → .returned tunnel ∉ run.history
  | _ => True

end TunnelRun

end Bdt
