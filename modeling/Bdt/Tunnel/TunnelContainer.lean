import Bdt.Base.References
import Bdt.Base.Transition
import Bdt.Global.Endpoint

/-!
# The tunnels of a container

A model of the functions of `TunnelContainer.imp.inl` that keep the tunnel map and the default tunnel.
A tunnel is named by its position among those that were created. A function has no result where the
program would end: where it uses a tunnel that was freed, or the null pointer, or where an assertion
fails.

The tree is enumerated in an order that depends on its shape, so the order is an argument. The
activators are left out: `UdpTunnelStartActivitor` decrements `activeCount`, which then is not 1, and
does nothing.
-/

namespace Bdt

open Base

/-- `Bdt_TcpTunnelState`. -/
inductive TcpTunnelState where
  | unknown
  | connecting
  | alive
  | dead
  deriving DecidableEq, Repr

/-- `DECLARE_SOCKET_TUNNEL`, and the state of a `TcpTunnel`. -/
structure SocketTunnel where
  /-- `SOCKET_TUNNEL_FLAGS_UDP` of `flags`, and otherwise `SOCKET_TUNNEL_FLAGS_TCP`. -/
  udp : Bool
  localEndpoint : BdtEndpoint
  remoteEndpoint : BdtEndpoint
  lastRecv : UInt64
  state : TcpTunnelState := .unknown
  deriving DecidableEq

/-- `TunnelMap`, without the links. -/
structure TunnelMap where
  localEndpoint : BdtEndpoint
  remoteEndpoint : BdtEndpoint
  tunnel : Nat
  deriving DecidableEq

def TunnelMapCompare (left right : TunnelMap) : Int :=
  let result := BdtEndpointCompare left.localEndpoint right.localEndpoint false
  if result ≠ 0 then result
  else BdtEndpointCompare left.remoteEndpoint right.remoteEndpoint false

/-- What two nodes that compare equal have in common. -/
def TunnelMap.key (node : TunnelMap) : EndpointKey × EndpointKey :=
  (node.localEndpoint.key, node.remoteEndpoint.key)

theorem tunnelMap_comparesBy : ComparesBy TunnelMapCompare TunnelMap.key := by
  intro left right
  have hlocal := endpoint_comparesBy left.localEndpoint right.localEndpoint
  have hremote := endpoint_comparesBy left.remoteEndpoint right.remoteEndpoint
  simp only [TunnelMapCompare, TunnelMap.key, Prod.mk.injEq]
  split
  case isTrue hne => exact ⟨fun h => absurd h hne, fun h => absurd (hlocal.mpr h.1) hne⟩
  case isFalse heq =>
    have hsame := hlocal.mp (Classical.not_not.mp heq)
    exact ⟨fun h => ⟨hsame, hremote.mp h⟩, fun h => hremote.mpr h.2⟩

/-- `UdpTunnelCreate` or `TcpTunnelCreate`, by the protocol of the local endpoint. -/
def SocketTunnel.create (localEndpoint remoteEndpoint : BdtEndpoint) (lastRecv : UInt64) :
    Option SocketTunnel :=
  if localEndpoint.flag &&& BDT_ENDPOINT_PROTOCOL_UDP ≠ 0 then
    some { udp := true, localEndpoint, remoteEndpoint, lastRecv }
  else if localEndpoint.flag &&& BDT_ENDPOINT_PROTOCOL_TCP ≠ 0 then
    some { udp := false, localEndpoint, remoteEndpoint, lastRecv := 0 }
  else none

/-- The loop of `TunnelContainerUpdateDefaultTunnel`, with `secondTunnel` and `lastTunnel`. -/
def chooseTunnel : List (Nat × SocketTunnel) → Option Nat → Option Nat → Option Nat
  | [], secondTunnel, lastTunnel => secondTunnel.or lastTunnel
  | (i, tunnel) :: rest, secondTunnel, lastTunnel =>
    if tunnel.udp then some i
    else if tunnel.state = .alive then chooseTunnel rest (some i) lastTunnel
    else if secondTunnel.isNone then chooseTunnel rest secondTunnel (some i)
    else chooseTunnel rest secondTunnel lastTunnel

theorem chooseTunnel_mem {tunnels : List (Nat × SocketTunnel)} {secondTunnel lastTunnel : Option Nat}
    {i : Nat} (h : chooseTunnel tunnels secondTunnel lastTunnel = some i) :
    i ∈ tunnels.map Prod.fst ∨ secondTunnel = some i ∨ lastTunnel = some i := by
  induction tunnels generalizing secondTunnel lastTunnel with
  | nil =>
    rcases Option.or_eq_some_iff.mp h with h | ⟨-, h⟩
    · exact .inr (.inl h)
    · exact .inr (.inr h)
  | cons first rest ih =>
    have hfirst : some first.1 = some i → i ∈ (first :: rest).map Prod.fst := by
      intro heq
      exact Option.some.inj heq ▸ List.mem_cons_self
    have hrest : i ∈ rest.map Prod.fst → i ∈ (first :: rest).map Prod.fst :=
      List.mem_cons_of_mem _
    simp only [chooseTunnel] at h
    split at h
    case isTrue => exact .inl (hfirst h)
    case isFalse =>
    split at h
    case isTrue =>
      rcases ih h with hmem | heq | heq
      · exact .inl (hrest hmem)
      · exact .inl (hfirst heq)
      · exact .inr (.inr heq)
    case isFalse =>
    split at h
    case isTrue =>
      rcases ih h with hmem | heq | heq
      · exact .inl (hrest hmem)
      · exact .inr (.inl heq)
      · exact .inl (hfirst heq)
    case isFalse => exact (ih h).imp_left hrest

/-! ## The container -/

/-- The members of `Bdt_TunnelContainer` that its locks protect, and all tunnels that were created. -/
structure Bdt_TunnelContainer where
  heap : List (Counted SocketTunnel) := []
  tunnels : List TunnelMap := []
  defaultTunnel : Option Nat := none
  deriving DecidableEq

/-- `Bdt_TunnelHistoryTcpLogForRemoteEndpoint`: the logs, each with its timestamp and whether it is
of type `BDT_TUNNEL_HISTORY_TCP_LOG_TYPE_HANDLE_OK`. -/
structure TcpLogForRemote where
  remote : BdtEndpoint
  logs : List (Bool × UInt64)

/-- `BdtHistory_PeerConnectInfo`. -/
structure PeerConnectInfo where
  endpoint : BdtEndpoint
  lastConnectTime : UInt64

/-- What the history has for the local endpoints that the listener has. -/
structure TunnelHistory where
  tcpLogs : List (BdtEndpoint × List TcpLogForRemote)
  udpLogs : List (BdtEndpoint × List PeerConnectInfo)

/-- A tunnel that is restored. -/
structure RestoredTunnel where
  localEndpoint : BdtEndpoint
  remoteEndpoint : BdtEndpoint
  lastRecv : UInt64

namespace TunnelHistory

/-- The tcp tunnels that `TunnelContainerOnHistoryLoad` restores. -/
def tcpTunnels (history : TunnelHistory) : List RestoredTunnel :=
  history.tcpLogs.flatMap fun (localEp, localLogs) => localLogs.filterMap fun remoteLogs =>
    match remoteLogs.logs with
    | (true, timestamp) :: _ => some ⟨localEp, remoteLogs.remote, timestamp⟩
    | _ => none

/-- The udp tunnels that it restores. -/
def udpTunnels (history : TunnelHistory) (now pingOvertime : UInt64) : List RestoredTunnel :=
  history.udpLogs.flatMap fun (localEp, localLogs) => localLogs.filterMap fun remoteLog =>
    if remoteLog.endpoint.flag &&& BDT_ENDPOINT_FLAG_STATIC_WAN ≠ 0 ∨
        (now - remoteLog.lastConnectTime) / 1000 < pingOvertime then
      some ⟨localEp, remoteLog.endpoint, remoteLog.lastConnectTime⟩
    else none

end TunnelHistory

namespace Bdt_TunnelContainer

variable (container : Bdt_TunnelContainer)

/-- The places of the container that hold a tunnel. -/
def slots : List Nat :=
  container.tunnels.map (·.tunnel) ++ container.defaultTunnel.toList

/-- `BDT_SOCKET_TUNNEL_ADDREF`, of a pointer that is not null. -/
def addRef (container : Bdt_TunnelContainer) (tunnel : Nat) : Option Bdt_TunnelContainer :=
  (Base.addRef container.heap tunnel).map fun heap => { container with heap }

/-- `BDT_SOCKET_TUNNEL_RELEASE`, of a pointer that is not null. -/
def release (container : Bdt_TunnelContainer) (tunnel : Nat) : Option Bdt_TunnelContainer :=
  (Base.release container.heap tunnel).map fun heap => { container with heap }

/-- `BDT_SOCKET_TUNNEL_ADDREF`, behind a test for the null pointer. -/
def addRefUnlessNull : Option Nat → Option Bdt_TunnelContainer
  | some tunnel => container.addRef tunnel
  | none => some container

/-- `BDT_SOCKET_TUNNEL_RELEASE`, which does nothing for the null pointer. -/
def releaseUnlessNull : Option Nat → Option Bdt_TunnelContainer
  | some tunnel => container.release tunnel
  | none => some container

/-- The state of a tunnel and its `lastRecv` are set. -/
def updateTunnel (tunnel : Nat) (state : TcpTunnelState)
    (lastRecv : UInt64) : Option Bdt_TunnelContainer :=
  (live container.heap tunnel).map fun cell =>
    { container with
      heap := container.heap.set tunnel { cell with value := { cell.value with state, lastRecv } } }

/-- What `TunnelContainerCreateTunnel` yields: `*outTunnel`, and whether it returns
`BFX_RESULT_ALREADY_EXISTS`. -/
structure Created where
  container : Bdt_TunnelContainer
  outTunnel : Nat
  alreadyExists : Bool

/-- `TunnelContainerCreateTunnel`. -/
def createTunnel (localEndpoint remoteEndpoint : BdtEndpoint)
    (lastRecv : UInt64) : Option Created := do
  let socketTunnel ← SocketTunnel.create localEndpoint remoteEndpoint lastRecv
  let tunnel := container.heap.length
  let add : TunnelMap := { localEndpoint, remoteEndpoint, tunnel }
  let created : Bdt_TunnelContainer :=
    { container with heap := container.heap ++ [.new socketTunnel] }
  let container ← created.addRef tunnel
  match addIfNotMember TunnelMapCompare container.tunnels add with
  | (_, some found) =>
    let container ← container.addRef found.tunnel
    let container ← container.release tunnel
    let container ← container.release tunnel
    some { container, outTunnel := found.tunnel, alreadyExists := true }
  | (tunnels, none) =>
    some { container := { container with tunnels }, outTunnel := tunnel, alreadyExists := false }

/-- `TunnelContainerRemoveTunnel`; true for `BFX_RESULT_SUCCESS`, false for `BFX_RESULT_NOT_FOUND`. -/
def removeTunnel (tunnel : Nat) (lastRecv : UInt64) :
    Option (Bdt_TunnelContainer × Bool) := do
  let socketTunnel ← live container.heap tunnel
  let toDel : TunnelMap :=
    { localEndpoint := socketTunnel.value.localEndpoint
      remoteEndpoint := socketTunnel.value.remoteEndpoint
      tunnel }
  -- `del` is used without a test for the null pointer
  let del ← findMember TunnelMapCompare container.tunnels toDel
  let found ← live container.heap del.tunnel
  if del.tunnel = tunnel ∧ found.value.lastRecv = lastRecv then
    let tunnels := (deleteIfMember TunnelMapCompare container.tunnels del).1
    let deleted : Bdt_TunnelContainer := { container with tunnels }
    let container ← deleted.release tunnel
    some (container, true)
  else some (container, false)

/-- `TunnelContainerSetDefaultTunnel`. -/
def setDefaultTunnel (tunnel : Option Nat) :
    Option Bdt_TunnelContainer := do
  if container.defaultTunnel = tunnel then some container
  else
    let old := container.defaultTunnel
    let changed : Bdt_TunnelContainer := { container with defaultTunnel := tunnel }
    let container ← changed.addRefUnlessNull tunnel
    match old with
    | some old =>
      -- the name and the activator of the old tunnel are used
      let _ ← live container.heap old
      container.releaseUnlessNull tunnel
    | none => some container

/-- `BdtTunnel_EnumTunnels`, in this order. -/
def enumTunnels (order : List Nat) : Option (List (Nat × SocketTunnel)) :=
  if order.Perm (container.tunnels.map (·.tunnel)) then
    order.mapM fun i => (live container.heap i).map fun tunnel => (i, tunnel.value)
  else none

/-- `TunnelContainerUpdateDefaultTunnel`, with the reference that it returns. -/
def updateDefaultTunnel (order : List Nat) :
    Option (Bdt_TunnelContainer × Option Nat) := do
  let tunnels ← container.enumTunnels order
  let defaultTunnel := chooseTunnel tunnels none none
  let container ← container.addRefUnlessNull defaultTunnel
  let container ← container.setDefaultTunnel defaultTunnel
  some (container, defaultTunnel)

/-- `TunnelContainerUpdateDefaultTunnel`, by a caller that releases what it returns. -/
def refreshDefaultTunnel (order : List Nat) :
    Option Bdt_TunnelContainer := do
  let (container, defaultTunnel) ← container.updateDefaultTunnel order
  container.releaseUnlessNull defaultTunnel

/-- `TunnelContainerOnTunnelDead`. -/
def onTunnelDead (tunnel : Nat) (lastRecv : UInt64)
    (order : List Nat) : Option Bdt_TunnelContainer := do
  let (container, success) ← container.removeTunnel tunnel lastRecv
  if success then container.refreshDefaultTunnel order else some container

/-- `BdtTunnel_GetTunnelByEndpoint`. -/
def getTunnelByEndpoint
    (localEndpoint remoteEndpoint : BdtEndpoint) : Option (Bdt_TunnelContainer × Option Nat) :=
  match findMember TunnelMapCompare container.tunnels { localEndpoint, remoteEndpoint, tunnel := 0 } with
  | some found => (container.addRef found.tunnel).map fun container => (container, some found.tunnel)
  | none => some (container, none)

/-- `BdtTunnel_GetDefaultTunnel`. -/
def getDefaultTunnel : Option (Bdt_TunnelContainer × Option Nat) :=
  (container.addRefUnlessNull container.defaultTunnel).map fun next => (next, container.defaultTunnel)

/-- The tunnel that `TunnelContainerUpdateTcpTunnel` looks for when it is given none, and whether
`result` is `BFX_RESULT_SUCCESS`. -/
def findOrCreateTunnel
    (localEndpoint remoteEndpoint : BdtEndpoint) : Option (Bdt_TunnelContainer × Nat × Bool) := do
  match ← container.getTunnelByEndpoint localEndpoint remoteEndpoint with
  | (container, some tunnel) => some (container, tunnel, true)
  | (container, none) =>
    let created ← container.createTunnel localEndpoint remoteEndpoint 0
    some (created.container, created.outTunnel, !created.alreadyExists)

/-- `TunnelContainerUpdateTcpTunnel`, of an interface with these endpoints. -/
def updateTcpTunnel (localEndpoint remoteEndpoint : BdtEndpoint)
    (tunnel : Option Nat) (order : List Nat) : Option Bdt_TunnelContainer :=
  match tunnel with
  | some _ => some container
  | none => do
    -- the reference to the tunnel is not released
    let (container, _, success) ← container.findOrCreateTunnel localEndpoint remoteEndpoint
    if success then container.refreshDefaultTunnel order else some container

/-- A tunnel of the history is created, and the reference to it released. -/
def restoreTunnel (restored : RestoredTunnel) :
    Option Bdt_TunnelContainer := do
  let created ← container.createTunnel restored.localEndpoint restored.remoteEndpoint restored.lastRecv
  created.container.release created.outTunnel

/-- The tunnels of the history are created. -/
def restoreTunnels (restored : List RestoredTunnel) : Option Bdt_TunnelContainer :=
  restored.foldlM restoreTunnel container

/-- `TunnelContainerOnHistoryLoad`. -/
def onHistoryLoad (history : TunnelHistory)
    (now pingOvertime : UInt64) (order : List Nat) : Option Bdt_TunnelContainer := do
  let container ← container.restoreTunnels history.tcpTunnels
  let container ← container.restoreTunnels (history.udpTunnels now pingOvertime)
  container.refreshDefaultTunnel order

end Bdt_TunnelContainer

end Bdt
