import Bdt.Base.Transition
import Bdt.History.PeerHistory

/-!
# The peer updater

A model of the operations of `Updater.imp.inl` and of their runs. An operation works under the lock of
the updater. Here it is the list of the calls that it still makes, one step each, and its variables are
members of the run. What is done without the lock comes between: the release of the references that
operations, transfer tasks and callers hold.
-/

namespace Bdt

open Base

/-- `BdtHistory_PeerConnectType`. -/
inductive PeerConnectType where
  | udp
  | tcpDirect
  | tcpReverse
  deriving DecidableEq

/-! ## Histories from outside -/

/-- A connection that was loaded. Its local endpoint is a copy. -/
structure OuterConnectInfo where
  endpoint : BdtEndpoint
  localEndpoint : Option BdtEndpoint
  foundTime : Int
  lastConnectTime : Int
  rto : UInt32
  sendSpeed : UInt32
  recvSpeed : UInt32
  flags : HistoryConnectFlags

/-- The members of a peer that was loaded, without its super nodes. -/
structure OuterPeerInfo where
  peerid : Peerid
  /-- `none` if it has no constant part. -/
  constInfo : Option PeerConstInfo
  isSn : Bool
  connectVector : List (Option OuterConnectInfo)

/-- A super node that was loaded. The storage flags each one that it puts into a `snVector`. -/
structure OuterSuperNode where
  peerInfo : OuterPeerInfo
  lastResponseTime : Int
  isSn : peerInfo.isSn = true

structure OuterHistory where
  peerInfo : OuterPeerInfo
  snVector : List (Option OuterSuperNode)

/-- What `PeerUpdaterAddOuterHistory` takes over from a connection. -/
def HistoryConnectInfo.merge (connectInfo : HistoryConnectInfo) (outer : OuterConnectInfo) :
    HistoryConnectInfo :=
  { connectInfo with
    foundTime := if connectInfo.foundTime < outer.foundTime then outer.foundTime
      else connectInfo.foundTime
    lastConnectTime :=
      if connectInfo.lastConnectTime < outer.lastConnectTime then outer.lastConnectTime
      else connectInfo.lastConnectTime
    rto := if connectInfo.rto = 0 then outer.rto else connectInfo.rto
    sendSpeed := if connectInfo.sendSpeed = 0 then outer.sendSpeed else connectInfo.sendSpeed
    recvSpeed := if connectInfo.recvSpeed = 0 then outer.recvSpeed else connectInfo.recvSpeed
    flags := if connectInfo.flags = {} then outer.flags else connectInfo.flags }

namespace PeerUpdater

variable (updater : PeerUpdater)

def localConnections : List HistoryConnectInfo :=
  (updater.localHistory.bind updater.node).elim [] (·.connectVector)

def localPeerid : Option Peerid :=
  (updater.localHistory.bind updater.node).map (·.peerid)

/-- A connection of a peer that is added. -/
def addOuterConnect (i : NodeId) : Option OuterConnectInfo → Option PeerUpdater
  | none => some updater
  | some outer =>
    (updater.connect i outer.endpoint
      (findLocalEndpoint updater.localConnections outer.localEndpoint) (·.merge outer)).map (·.1)

def addOuterConnects (updater : PeerUpdater) (i : NodeId) :
    List (Option OuterConnectInfo) → Option PeerUpdater
  | [] => some updater
  | outer :: rest => (updater.addOuterConnect i outer).bind fun next => next.addOuterConnects i rest

/-- The node of a peer that is added. -/
def makeSureOuter (outer : OuterPeerInfo) : PeerUpdater × NodeId :=
  match updater.findPeer outer.peerid with
  | some i => (updater, i)
  | none =>
    (updater.addHistory { peerid := outer.peerid, constInfo := outer.constInfo }, updater.nodes.length)

def takeSnFlag (i : NodeId) (isSn : Bool) : Option PeerUpdater :=
  if isSn then updater.makeSureSuperNode i else some updater

/-- `PeerUpdaterAddOuterHistory`, without the super nodes. -/
def addOuterPeer (outer : OuterPeerInfo) : Option (PeerUpdater × NodeId) := do
  let (next, i) := updater.makeSureOuter outer
  let next ← next.takeSnFlag i outer.isSn
  let next ← next.addOuterConnects i outer.connectVector
  some (next, i)

/-- Put the peers that were added behind those that were there before. -/
def relinkPeers (peerListOld : NodeId) : PeerUpdater :=
  match updater.peerLinks.previous peerListOld with
  | none => updater
  | some newPeerListTail =>
    { updater with
      peerLinks := (((updater.peerLinks.join (some newPeerListTail) none).join none
        (some peerListOld)).join updater.peerListTail updater.peerList)
      peerList := some peerListOld
      peerListTail := some newPeerListTail }

/-- Put the super nodes that were added behind those that were there before. -/
def relinkSuperNodes (snListOld : Option NodeId) : PeerUpdater :=
  match snListOld.bind updater.snLinks.previous with
  | none => updater
  | some snListTail =>
    let snLinks := (updater.snLinks.join (some snListTail) none).join none snListOld
    { updater with
      snLinks := snLinks.join (Links.walk snLinks.next updater.nodes.length snListOld).getLast?
        updater.superNodeList
      superNodeList := snListOld }

/-- The end of `HistoryPeerUpdaterMergeOuterHistoryNoLock`. -/
def relink (peerListOld snListOld : Option NodeId) : PeerUpdater :=
  match peerListOld with
  | none => updater
  | some peerListOld => (updater.relinkPeers peerListOld).relinkSuperNodes snListOld

end PeerUpdater

/-! ## Calls -/

/-- The variables of an operation that are nodes. -/
inductive NodeVariable where
  | peerHistoryNode
  | snPeerHistoryNode
  deriving DecidableEq

/-- What an operation still does under the lock. -/
inductive UpdaterCall where
  /-- `HistoryPeerMakeSurePeerHistoryExist`, in `HistoryPeerInfoUpdateFull`. It is asserted that there
  is no new constant part, if `isAsserted`. -/
  | makeSure (var : NodeVariable) (peerid : Peerid) (peerInfo : Option PeerInfo)
      (isAsserted : Bool) (now : Int)
  /-- A super node in `HistoryPeerInfoUpdateFull`. -/
  | superNode (var : NodeVariable) (snInfo : PeerInfo) (now : Int)
  /-- The peer is the local one. -/
  | useLocal
  /-- Remember how many super nodes the peer has. -/
  | countSuperNodes
  /-- `HistoryUpdateSuperNodeInfo` and `HistoryPeerInfoAddSuperNode`. -/
  | updateSuperNodeInfo (now : Int)
  /-- The connection in `BdtHistory_PeerUpdaterOnPackageFromRemotePeer`. -/
  | updateConnect (remoteEndpoint : BdtEndpoint) (localEndpoint : Nat)
      (connectType : PeerConnectType) (rto : UInt32) (now : Int)
  /-- The connection in `BdtHistory_PeerUpdaterOnStartTransfer`. -/
  | startTransfer (remoteEndpoint : BdtEndpoint) (localEndpoint : Nat)
  /-- `HistoryLimitPeerCount`. -/
  | limitPeerCount
  /-- Reference the nodes that are used after the lock is released. -/
  | addRef
  /-- `PeerUpdaterAddOuterHistory`. -/
  | addOuter (outer : OuterPeerInfo)
  | addOuterSuperNode (outer : OuterSuperNode)
  | addOuterSnPeerid (peerid : Peerid)
  | relink (peerListOld snListOld : Option NodeId)
  /-- The end of `PeerUpdaterInit`. -/
  | setLocal (isSuperNode : Bool)

/-- The updater while operations run. -/
structure PeerUpdaterRun where
  updater : PeerUpdater
  pending : List UpdaterCall := []
  peerHistoryNode : Option NodeId := none
  snPeerHistoryNode : Option NodeId := none
  isNewPeer : Bool := false
  snCount : Nat := 0
  /-- Whether the nodes are used after the lock is released. -/
  isUsed : Bool := false
  /-- The nodes that operations, transfer tasks and callers hold references of. -/
  held : List NodeId := []
  /-- Whether all assertions held. -/
  isAsserted : Bool := true
  /-- The constant parts that were received or loaded for nodes, the last one first. -/
  received : List (NodeId × PeerConstInfo) := []

namespace PeerUpdaterRun

variable (run : PeerUpdaterRun)

def nodeOf : NodeVariable → Option NodeId
  | .peerHistoryNode => run.peerHistoryNode
  | .snPeerHistoryNode => run.snPeerHistoryNode

def setNode (var : NodeVariable) (i : NodeId) : PeerUpdaterRun :=
  match var with
  | .peerHistoryNode => { run with peerHistoryNode := some i }
  | .snPeerHistoryNode => { run with snPeerHistoryNode := some i }

def receive (i : NodeId) (constInfo : Option PeerConstInfo) : PeerUpdaterRun :=
  { run with received := (constInfo.map (i, ·)).toList ++ run.received }

/-- The nodes in the variables. -/
def varNodes : List NodeId :=
  run.peerHistoryNode.toList ++ run.snPeerHistoryNode.toList

/-- `HistoryPeerMakeSurePeerHistoryExist`, and the assertion behind it. -/
def makeSure (peerid : Peerid) (peerInfo : Option PeerInfo)
    (isAsserted : Bool) (now : Int) : Option (PeerUpdaterRun × NodeId × Bool) :=
  (run.updater.makeSurePeerHistoryExist peerid peerInfo now).map
    fun (updater, i, isNew, isNewConstInfo) =>
      let isAsserted := run.isAsserted && !(isAsserted && isNewConstInfo)
      (receive { run with updater, isAsserted } i (peerInfo.map (·.fields.constInfo)), i, isNew)

def updateSuperNodeInfo (now : Int) : Option PeerUpdaterRun := do
  let peer ← run.peerHistoryNode
  let sn ← run.snPeerHistoryNode
  let snNode ← run.updater.node sn
  let isLater : Bool := 0 < now ∧ snNode.lastResponseTime + 60 < now
  let updater ← run.updater.modify sn fun node =>
    { node with
      isSn := true
      lastResponseTime := if isLater then now else node.lastResponseTime }
  let updater ← updater.modify peer (·.addSuperNode sn)
  let node ← updater.node peer
  some { run with
    updater
    isUsed := isLater || !snNode.isSn || run.snCount < node.snVector.length }

def updateConnect (remoteEndpoint : BdtEndpoint) (localEndpoint : Nat)
    (connectType : PeerConnectType) (rto : UInt32) (now : Int) : Option PeerUpdaterRun := do
  let peer ← run.peerHistoryNode
  let (updater, isNewConnect, isChanged) ←
    run.updater.connect peer remoteEndpoint (some localEndpoint) fun connection =>
      (HistoryUpdateConnectInfo connection now rto 0 0
        { directTcp := connection.flags.directTcp || connectType = .tcpDirect
          reverseTcp := connection.flags.reverseTcp || connectType = .tcpReverse }).1
  some { run with updater, isUsed := run.isNewPeer || isNewConnect || isChanged }

def startTransfer (remoteEndpoint : BdtEndpoint) (localEndpoint : Nat) :
    Option PeerUpdaterRun := do
  let peer ← run.peerHistoryNode
  let (updater, _) ← run.updater.connect peer remoteEndpoint (some localEndpoint) id
  -- the task holds the node
  some { run with updater, isUsed := true }

/-- Add a super node to the one of the variable. -/
def addSuperNode (run : PeerUpdaterRun) (var : NodeVariable) (sn : NodeId) :
    Option PeerUpdaterRun := do
  let i ← run.nodeOf var
  let updater ← run.updater.modify i (·.addSuperNode sn)
  some { run with updater }

def superNode (var : NodeVariable) (snInfo : PeerInfo) (now : Int) :
    Option PeerUpdaterRun := do
  let (run, sn, _) ← run.makeSure snInfo.fields.peerid (some snInfo) true now
  let updater ← run.updater.makeSureSuperNode sn
  { run with updater }.addSuperNode var sn

/-- Reference nodes. -/
def addRefs (updater : PeerUpdater) : List NodeId → Option PeerUpdater
  | [] => some updater
  | i :: rest => (updater.addRef i).bind fun next => addRefs next rest

def addRef : Option PeerUpdaterRun :=
  if run.isUsed then
    (addRefs run.updater run.varNodes).map fun updater =>
      { run with updater, held := run.varNodes ++ run.held }
  else some run

def addOuter (outer : OuterPeerInfo) : Option (PeerUpdaterRun × NodeId) :=
  (run.updater.addOuterPeer outer).map fun (updater, i) =>
    ({ run with updater }.receive i outer.constInfo, i)

/-- Add a super node that was loaded to the peer. -/
def addSuperNodeTime (sn : NodeId) (lastResponseTime : Int) :
    Option PeerUpdaterRun := do
  let updater ← run.updater.modify sn fun node =>
    { node with
      lastResponseTime :=
        if node.lastResponseTime < lastResponseTime then lastResponseTime else node.lastResponseTime }
  { run with updater }.addSuperNode .peerHistoryNode sn

def addLocalSuperNode (lastResponseTime : Int) : Option PeerUpdaterRun := do
  let sn ← run.updater.localHistory
  let node ← run.updater.node sn
  if node.isSn then run.addSuperNodeTime sn lastResponseTime else some run

def addOuterSuperNode (outer : OuterSuperNode) : Option PeerUpdaterRun :=
  if run.updater.localPeerid = some outer.peerInfo.peerid then
    run.addLocalSuperNode outer.lastResponseTime
  else (run.addOuter outer.peerInfo).bind fun (run, sn) =>
    run.addSuperNodeTime sn outer.lastResponseTime

def addOuterSnPeerid (peerid : Peerid) : Option PeerUpdaterRun :=
  match run.updater.findPeer peerid with
  | none => some run
  | some sn => do
    let node ← run.updater.node sn
    if node.isSn then run.addSuperNode .peerHistoryNode sn else some run

def setLocal (isSuperNode : Bool) : Option PeerUpdaterRun := do
  let i ← run.peerHistoryNode
  let updater ← run.updater.modify i fun node =>
    { node with isLocal := true, isSn := node.isSn || isSuperNode }
  some { run with updater := { updater with localHistory := some i } }

/-- What a call does. -/
def perform : UpdaterCall → Option PeerUpdaterRun
  | .makeSure var peerid peerInfo isAsserted now =>
    (run.makeSure peerid peerInfo isAsserted now).map fun (run, i, isNew) =>
      { run.setNode var i with
        isNewPeer := if var = .peerHistoryNode then isNew else run.isNewPeer }
  | .superNode var snInfo now => run.superNode var snInfo now
  | .useLocal => some { run with peerHistoryNode := run.updater.localHistory }
  | .countSuperNodes =>
    ((run.peerHistoryNode).bind run.updater.node).map fun node =>
      { run with snCount := node.snVector.length }
  | .updateSuperNodeInfo now => run.updateSuperNodeInfo now
  | .updateConnect remoteEndpoint localEndpoint connectType rto now =>
    run.updateConnect remoteEndpoint localEndpoint connectType rto now
  | .startTransfer remoteEndpoint localEndpoint => run.startTransfer remoteEndpoint localEndpoint
  | .limitPeerCount => run.updater.limitPeerCount.map fun updater => { run with updater }
  | .addRef => run.addRef
  | .addOuter outer =>
    (run.addOuter outer).map fun (run, i) => { run with peerHistoryNode := some i }
  | .addOuterSuperNode outer => run.addOuterSuperNode outer
  | .addOuterSnPeerid peerid => run.addOuterSnPeerid peerid
  | .relink peerListOld snListOld =>
    some { run with updater := run.updater.relink peerListOld snListOld }
  | .setLocal isSuperNode => run.setLocal isSuperNode

end PeerUpdaterRun

/-! ## Operations -/

namespace UpdaterCall

/-- `HistoryPeerInfoUpdateFull`. -/
def updateFull (var : NodeVariable) (peerid : Peerid) (peerInfo : Option PeerInfo)
    (isAsserted : Bool) (now : Int) : List UpdaterCall :=
  makeSure var peerid peerInfo isAsserted now ::
    peerInfo.elim [] fun peerInfo => peerInfo.snInfoList.map (superNode var · now)

/-- `PeerUpdaterInit`. -/
def create (localPeerInfo : PeerInfo) (isSuperNode : Bool) (now : Int) : List UpdaterCall :=
  updateFull .peerHistoryNode localPeerInfo.fields.peerid (some localPeerInfo) true now ++
    [setLocal isSuperNode]

/-- `BdtHistory_PeerUpdaterOnSuperNodePingResponse`. -/
def superNodePingResponse (snPeerInfo : PeerInfo) (now : Int) : List UpdaterCall :=
  [useLocal, countSuperNodes] ++
    (updateFull .snPeerHistoryNode snPeerInfo.fields.peerid (some snPeerInfo) true now ++
      [updateSuperNodeInfo now, addRef, limitPeerCount])

variable (updater : PeerUpdater)

/-- `BdtHistory_PeerUpdaterOnFoundPeerFromSuperNode`. -/
def foundPeerFromSuperNode (peerInfo snPeerInfo : PeerInfo) (now : Int) : List UpdaterCall :=
  (if updater.localPeerid ≠ some peerInfo.fields.peerid then
      updateFull .peerHistoryNode peerInfo.fields.peerid (some peerInfo) true now
    else [useLocal]) ++
    (countSuperNodes ::
      updateFull .snPeerHistoryNode snPeerInfo.fields.peerid (some snPeerInfo) true now ++
        [updateSuperNodeInfo now, limitPeerCount, addRef])

/-- `BdtHistory_PeerUpdaterOnPackageFromRemotePeer`. Nothing is done for the local peer, or if the
local endpoint is not known. -/
def packageFromRemotePeer (remotePeerid : Peerid)
    (remotePeerInfo : Option PeerInfo) (remoteEndpoint : BdtEndpoint)
    (localEndpoint : Option BdtEndpoint) (connectType : PeerConnectType) (rto : UInt32) (now : Int) :
    List UpdaterCall :=
  if updater.localPeerid = some remotePeerid then []
  else match findLocalEndpoint updater.localConnections localEndpoint with
    | none => []
    | some localConnect =>
      updateFull .peerHistoryNode remotePeerid remotePeerInfo false now ++
        [updateConnect remoteEndpoint localConnect connectType rto now, limitPeerCount, addRef]

/-- `BdtHistory_PeerUpdaterOnStartTransfer`. -/
def onStartTransfer (remotePeerInfo : PeerInfo) (remoteEndpoint : BdtEndpoint)
    (localEndpoint : Option BdtEndpoint) (now : Int) : List UpdaterCall :=
  if updater.localPeerid = some remotePeerInfo.fields.peerid then []
  else match findLocalEndpoint updater.localConnections localEndpoint with
    | none => []
    | some localConnect =>
      updateFull .peerHistoryNode remotePeerInfo.fields.peerid (some remotePeerInfo) true now ++
        [startTransfer remoteEndpoint localConnect, addRef, limitPeerCount]

/-- `PeerUpdaterAddOuterHistory`. The super nodes of a super node are left out. -/
def addOuterHistory (outer : OuterHistory) (addSNPeerids : List Peerid) : List UpdaterCall :=
  addOuter outer.peerInfo ::
    if outer.peerInfo.isSn then []
    else outer.snVector.filterMap (·.map addOuterSuperNode) ++ addSNPeerids.map addOuterSnPeerid

/-- `HistoryPeerUpdaterMergeOuterHistory`. -/
def mergeOuterHistory (outerHistorys : List (Option OuterHistory)) : List UpdaterCall :=
  (if outerHistorys = [] then []
    else outerHistorys.flatMap (·.elim [] (addOuterHistory · [])) ++
      [relink updater.peerList updater.superNodeList]) ++ [limitPeerCount]

end UpdaterCall

/-! ## Runs -/

inductive UpdaterEvent where
  | superNodePingResponse (snPeerInfo : PeerInfo) (now : Int)
  | foundPeerFromSuperNode (peerInfo snPeerInfo : PeerInfo) (now : Int)
  | packageFromRemotePeer (remotePeerid : Peerid) (remotePeerInfo : Option PeerInfo)
      (remoteEndpoint : BdtEndpoint) (localEndpoint : Option BdtEndpoint)
      (connectType : PeerConnectType) (rto : UInt32) (now : Int)
  | startTransfer (remotePeerInfo : PeerInfo) (remoteEndpoint : BdtEndpoint)
      (localEndpoint : Option BdtEndpoint) (now : Int)
  /-- `BdtHistory_PeerUpdaterOnLoadDone`, of a load that succeeded. -/
  | loadDone (historys : List (Option OuterHistory))
  /-- `HistoryLoadPeerHistoryByPeerid`, of a load that succeeded. The search behind it is an event of
  its own. -/
  | loadPeerHistoryByPeerid (history : OuterHistory) (snPeerids : List Peerid)
  /-- `BdtHistory_PeerUpdaterFindByPeerid`, up to the callback. -/
  | findByPeerid (peerid : Peerid)
  /-- The operation that has the lock makes its next call. -/
  | call
  /-- `BdtHistory_PeerHistoryAddRef`, by someone who holds the node. -/
  | addRef (i : NodeId)
  /-- A reference is released that someone holds. -/
  | release (i : NodeId)
  /-- `BdtHistory_PeerUpdaterOnTransferEnd`, up to the release. The task knows its connection. -/
  | transferEnd (i : NodeId) (connect : Nat) (rto sendSpeed recvSpeed : UInt32)

namespace PeerUpdaterRun

variable (run : PeerUpdaterRun)

/-- An operation takes the lock. -/
def begin (calls : List UpdaterCall) : Option PeerUpdaterRun :=
  if run.pending = [] then
    some { run with
      pending := calls
      peerHistoryNode := none
      snPeerHistoryNode := none
      isNewPeer := false
      snCount := 0
      isUsed := false }
  else none

def findByPeerid (peerid : Peerid) : Option PeerUpdaterRun :=
  match run.updater.findPeer peerid with
  | none => some run
  | some i => ((run.updater.moveToHeader i).addRef i).map fun updater =>
    { run with updater, held := i :: run.held }

def next : UpdaterEvent → Option PeerUpdaterRun
  | .superNodePingResponse snPeerInfo now => run.begin (UpdaterCall.superNodePingResponse snPeerInfo now)
  | .foundPeerFromSuperNode peerInfo snPeerInfo now =>
    run.begin (UpdaterCall.foundPeerFromSuperNode run.updater peerInfo snPeerInfo now)
  | .packageFromRemotePeer remotePeerid remotePeerInfo remoteEndpoint localEndpoint connectType rto now =>
    run.begin (UpdaterCall.packageFromRemotePeer run.updater remotePeerid remotePeerInfo remoteEndpoint
      localEndpoint connectType rto now)
  | .startTransfer remotePeerInfo remoteEndpoint localEndpoint now =>
    run.begin (UpdaterCall.onStartTransfer run.updater remotePeerInfo remoteEndpoint localEndpoint now)
  | .loadDone historys => run.begin (UpdaterCall.mergeOuterHistory run.updater historys)
  | .loadPeerHistoryByPeerid history snPeerids => run.begin (UpdaterCall.addOuterHistory history snPeerids)
  | .findByPeerid peerid => if run.pending = [] then run.findByPeerid peerid else none
  | .call =>
    match run.pending with
    | [] => none
    | call :: rest => { run with pending := rest }.perform call
  | .addRef i =>
    if i ∈ run.held then
      (run.updater.addRef i).map fun updater => { run with updater, held := i :: run.held }
    else none
  | .release i =>
    if i ∈ run.held then
      (run.updater.release i).map fun updater => { run with updater, held := run.held.erase i }
    else none
  | .transferEnd i connect rto sendSpeed recvSpeed =>
    if i ∈ run.held then
      (run.updater.modify i fun node => { node with
        connectVector := node.connectVector.modify connect fun connection =>
          (HistoryUpdateConnectInfo connection 0 rto sendSpeed recvSpeed {}).1 }).map
        fun updater => { run with updater }
    else none

/-- The start of a run: the updater is created. -/
def start (localPeerInfo : PeerInfo) (isSuperNode : Bool) (peerCapacity : UInt32) (now : Int) :
    PeerUpdaterRun where
  updater := { peerCapacity }
  pending := UpdaterCall.create localPeerInfo isSuperNode now

end PeerUpdaterRun

end Bdt
