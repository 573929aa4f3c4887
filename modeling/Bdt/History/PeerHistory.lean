import Bdt.Base.DoublyLinked
import Bdt.Base.References
import Bdt.Global.Endpoint

/-!
# The history of peers

A model of the data of `Updater.imp.inl` and of the functions that work on it. Each peer is a node that
is linked into the list of all peers, into that of the super nodes if it is one, and found through a
map; it counts its references. A connection of a peer may refer to one of the local peer, and then
holds a reference of the local node.

The storage is not part of the model: nothing that is modelled reads `isStorage`.
-/

namespace Bdt

open Base Option

abbrev NodeId := Nat

/-- `BdtHistory_PeerConnectInfoFlags`. -/
structure HistoryConnectFlags where
  directTcp : Bool := false
  reverseTcp : Bool := false
  deriving DecidableEq

/-- `BdtHistory_PeerConnectInfo`. -/
structure HistoryConnectInfo where
  endpoint : BdtEndpoint
  /-- A pointer into the connections of the local peer, whose places never change. -/
  localEndpoint : Option Nat := none
  foundTime : Int := 0
  lastConnectTime : Int := 0
  rto : UInt32 := 0
  sendSpeed : UInt32 := 0
  recvSpeed : UInt32 := 0
  flags : HistoryConnectFlags := {}
  deriving DecidableEq

/-- `BdtHistory_PeerInfo`, with the `lastResponseTime` of a super node. -/
structure PeerInfoNode where
  peerid : Peerid
  /-- `none` while it is zero, as it was allocated. -/
  constInfo : Option PeerConstInfo := none
  isLocal : Bool := false
  isSn : Bool := false
  hasConst : Bool := false
  connectVector : List HistoryConnectInfo := []
  snVector : List NodeId := []
  lastResponseTime : Int := 0
  deriving DecidableEq

structure PeeridMapNode where
  peerid : Peerid
  peerHistoryNode : NodeId
  deriving DecidableEq

/-- `PeerUpdaterPeeridHistoryMapCompareor`. -/
def PeeridMapNode.compare (left right : PeeridMapNode) : Int :=
  memcmp left.peerid.1 right.peerid.1

theorem PeeridMapNode.comparesBy : ComparesBy PeeridMapNode.compare PeeridMapNode.peerid := by
  intro left right
  exact (memcmp_eq_zero (left.peerid.2.trans right.peerid.2.symm)).trans Subtype.ext_iff.symm

/-- The members of the updater that its peers are kept with. The nodes stand where they were allocated.
The count is a number, as there is no memory for `2 ^ 32` nodes. -/
structure PeerUpdater where
  nodes : List (Counted PeerInfoNode) := []
  /-- `nextPeer` and `previousPeer`. -/
  peerLinks : Links NodeId := {}
  /-- `nextSn` and `previousSn`. -/
  snLinks : Links NodeId := {}
  localHistory : Option NodeId := none
  peeridMap : List PeeridMapNode := []
  peerList : Option NodeId := none
  peerListTail : Option NodeId := none
  superNodeList : Option NodeId := none
  peerCount : Nat := 0
  /-- `config->peerCapacity`. -/
  peerCapacity : UInt32

/-! ## Connections -/

def HistoryEndpointIsEqual (ep1 ep2 : BdtEndpoint) : Bool :=
  if ep1.flag &&& ~~~(BDT_ENDPOINT_FLAG_SIGNED ||| BDT_ENDPOINT_FLAG_STATIC_WAN) ≠
      ep2.flag &&& ~~~(BDT_ENDPOINT_FLAG_SIGNED ||| BDT_ENDPOINT_FLAG_STATIC_WAN) then false
  else if ep1.port ≠ ep2.port then false
  else if ep1.flag &&& BDT_ENDPOINT_IP_VERSION_4 ≠ 0 then
    memcmp (ep1.address.1.take 4) (ep2.address.1.take 4) = 0
  else memcmp ep1.address.1 ep2.address.1 = 0

/-- The flag of a static wan address is taken over. -/
def BdtEndpoint.updateStaticWan (endpoint other : BdtEndpoint) : BdtEndpoint :=
  { endpoint with
    flag := endpoint.flag &&& ~~~BDT_ENDPOINT_FLAG_STATIC_WAN |||
      other.flag &&& BDT_ENDPOINT_FLAG_STATIC_WAN }

/-- The connection of `HistoryPeerInfoAddConnectInfo`. -/
def HistoryConnectInfo.new (endpoint : BdtEndpoint) (foundTime : Int) : HistoryConnectInfo where
  endpoint := { endpoint with flag := endpoint.flag &&& ~~~BDT_ENDPOINT_FLAG_SIGNED }
  foundTime := foundTime

/-- `HistoryPeerInfoUpdateEndpoints`, for one of the endpoints. -/
def updateEndpoint (now : Int) (endpoint : BdtEndpoint) :
    List HistoryConnectInfo → List HistoryConnectInfo
  | [] => [.new endpoint now]
  | existConnect :: rest =>
    if HistoryEndpointIsEqual endpoint existConnect.endpoint then
      { existConnect with
        endpoint := existConnect.endpoint.updateStaticWan endpoint
        foundTime := now } :: rest
    else existConnect :: updateEndpoint now endpoint rest

/-- `HistoryPeerInfoUpdateEndpoints`. -/
def updateEndpoints (now : Int) (endpoints : List BdtEndpoint)
    (connections : List HistoryConnectInfo) : List HistoryConnectInfo :=
  endpoints.foldl (fun connections endpoint => updateEndpoint now endpoint connections) connections

/-- `HistoryPeerFindLocalEndpoint`, in the connections of the local peer. -/
def findLocalEndpoint (connections : List HistoryConnectInfo) (localEndpoint : Option BdtEndpoint) :
    Option Nat :=
  localEndpoint.bind fun localEndpoint =>
    connections.findIdx? fun connection => HistoryEndpointIsEqual localEndpoint connection.endpoint

/-- `HistoryPeerFindOrAddConnectInfo`, with the place of the connection and `*isNew`. A pointer to the
endpoint of a connection is an endpoint that is equal to it. -/
def findOrAddConnectInfo (remoteEndpoint : BdtEndpoint) (localEndpoint : Option Nat) :
    List HistoryConnectInfo → List HistoryConnectInfo × Nat × Bool
  | [] => ([{ HistoryConnectInfo.new remoteEndpoint 0 with localEndpoint }], 0, true)
  | connectHistory :: rest =>
    if HistoryEndpointIsEqual connectHistory.endpoint remoteEndpoint ∧
        connectHistory.localEndpoint = none then
      ({ connectHistory with
          endpoint := connectHistory.endpoint.updateStaticWan remoteEndpoint
          localEndpoint } :: rest, 0, true)
    else if HistoryEndpointIsEqual connectHistory.endpoint remoteEndpoint ∧
        connectHistory.localEndpoint = localEndpoint then
      ({ connectHistory with
          endpoint := connectHistory.endpoint.updateStaticWan remoteEndpoint } :: rest, 0, false)
    else
      let (connections, i, isNew) := findOrAddConnectInfo remoteEndpoint localEndpoint rest
      (connectHistory :: connections, i + 1, isNew)

/-- `HistoryUpdateConnectInfo`, with `isChanged`: a member is only written if that changes it. -/
def HistoryUpdateConnectInfo (connectInfo : HistoryConnectInfo) (lastConnectTime : Int)
    (rto sendSpeed recvSpeed : UInt32) (flags : HistoryConnectFlags) : HistoryConnectInfo × Bool :=
  let next := { connectInfo with
    lastConnectTime :=
      if 0 < lastConnectTime ∧ connectInfo.lastConnectTime + 60000 < lastConnectTime then
        lastConnectTime
      else connectInfo.lastConnectTime
    rto := if 0 < rto then rto else connectInfo.rto
    sendSpeed := if 0 < sendSpeed then sendSpeed else connectInfo.sendSpeed
    recvSpeed := if 0 < recvSpeed then recvSpeed else connectInfo.recvSpeed
    flags := if flags ≠ {} then flags else connectInfo.flags }
  (next, next ≠ connectInfo)

/-- The connections that refer to one of the local peer. -/
def boundCount (connections : List HistoryConnectInfo) : Nat :=
  connections.countP (·.localEndpoint.isSome)

theorem boundCount_cons (connection : HistoryConnectInfo) (rest : List HistoryConnectInfo) :
    boundCount (connection :: rest) =
      boundCount rest + if connection.localEndpoint.isSome then 1 else 0 :=
  List.countP_cons

theorem boundCount_updateEndpoint (now : Int) (endpoint : BdtEndpoint)
    (connections : List HistoryConnectInfo) :
    boundCount (updateEndpoint now endpoint connections) = boundCount connections := by
  induction connections with
  | nil => rfl
  | cons _ _ ih =>
    unfold updateEndpoint
    split
    case isTrue => rw [boundCount_cons, boundCount_cons]
    case isFalse => rw [boundCount_cons, boundCount_cons, ih]

theorem boundCount_updateEndpoints (now : Int) (endpoints : List BdtEndpoint)
    (connections : List HistoryConnectInfo) :
    boundCount (updateEndpoints now endpoints connections) = boundCount connections := by
  unfold updateEndpoints
  induction endpoints generalizing connections with
  | nil => rfl
  | cons _ _ ih =>
    rw [List.foldl_cons, ih, boundCount_updateEndpoint]

/-- A connection that is new may refer to one of the local peer. -/
theorem boundCount_findOrAdd (remoteEndpoint : BdtEndpoint) (localEndpoint : Option Nat)
    (connections : List HistoryConnectInfo) :
    boundCount (findOrAddConnectInfo remoteEndpoint localEndpoint connections).1 =
      boundCount connections +
        if (findOrAddConnectInfo remoteEndpoint localEndpoint connections).2.2 &&
          localEndpoint.isSome then 1 else 0 := by
  induction connections with
  | nil =>
    show boundCount ({ HistoryConnectInfo.new remoteEndpoint 0 with localEndpoint } :: []) = _
    rw [boundCount_cons]
    rfl
  | cons connectHistory _ ih =>
    unfold findOrAddConnectInfo
    split
    case isTrue heq =>
      rw [boundCount_cons, boundCount_cons, heq.2]
      rfl
    case isFalse =>
    split
    case isTrue => rw [boundCount_cons, boundCount_cons]; rfl
    case isFalse =>
    show boundCount (connectHistory :: _) = _
    rw [boundCount_cons, boundCount_cons, ih]
    exact Nat.add_right_comm ..

theorem boundCount_modify {change : HistoryConnectInfo → HistoryConnectInfo}
    (hchange : ∀ connection, (change connection).localEndpoint = connection.localEndpoint)
    (connections : List HistoryConnectInfo) (place : Nat) :
    boundCount (connections.modify place change) = boundCount connections := by
  induction connections generalizing place with
  | nil => cases place <;> rfl
  | cons connection rest ih =>
    cases place with
    | zero =>
      show boundCount (change connection :: rest) = _
      rw [boundCount_cons, boundCount_cons, hchange]
    | succ place =>
      show boundCount (connection :: rest.modify place change) = _
      rw [boundCount_cons, boundCount_cons, ih]

/-! ## Nodes -/

namespace PeerInfoNode

/-- What `HistoryPeerMakeSurePeerHistoryExist` does with the peer info of a node. -/
def updateInfo (node : PeerInfoNode) (peerInfo : PeerInfo) (now : Int) : PeerInfoNode :=
  { node with
    hasConst := true
    constInfo := if node.hasConst then node.constInfo else some peerInfo.fields.constInfo
    connectVector := updateEndpoints now peerInfo.fields.endpoints node.connectVector }

/-- `HistoryPeerInfoInit`. It does with a peer info what is done with one that arrives later. -/
def init (peerid : Peerid) (peerInfo : Option PeerInfo) (now : Int) : PeerInfoNode :=
  peerInfo.elim { peerid } fun peerInfo => updateInfo { peerid } peerInfo now

/-- `HistoryPeerInfoAddSuperNode`. -/
def addSuperNode (node : PeerInfoNode) (sn : NodeId) : PeerInfoNode :=
  { node with snVector := if sn ∈ node.snVector then node.snVector else node.snVector ++ [sn] }

/-- A node without its connections. -/
def core (node : PeerInfoNode) : PeerInfoNode :=
  { node with connectVector := [] }

end PeerInfoNode

namespace PeerUpdater

variable (updater : PeerUpdater)

/-- What a node that was not freed holds. -/
def node (i : NodeId) : Option PeerInfoNode :=
  (live updater.nodes i).map (·.value)

/-- Write to a node. There is no result for one that was freed. -/
def modify (i : NodeId) (change : PeerInfoNode → PeerInfoNode) : Option PeerUpdater :=
  (live updater.nodes i).map fun cell =>
    { updater with nodes := updater.nodes.set i { cell with value := change cell.value } }

def findPeer (peerid : Peerid) : Option NodeId :=
  (findMember PeeridMapNode.compare updater.peeridMap { peerid, peerHistoryNode := 0 }).map
    (·.peerHistoryNode)

/-- `PeerInfoNodeAddRef`. -/
def addRef (updater : PeerUpdater) (i : NodeId) : Option PeerUpdater :=
  (Base.addRef updater.nodes i).map fun nodes => { updater with nodes }

/-- Release the local node once for each connection that referred to it. -/
def releaseLocal (nodes : List (Counted PeerInfoNode)) (localHistory : NodeId) :
    Nat → Option (List (Counted PeerInfoNode))
  | 0 => some nodes
  | count + 1 => (Base.release nodes localHistory).bind fun nodes =>
    releaseLocal nodes localHistory count

/-- `HistoryPeerNodeDelete`, of a node with these connections. -/
def deleteNode (nodes : List (Counted PeerInfoNode)) (localHistory : Option NodeId)
    (connections : List HistoryConnectInfo) : Option (List (Counted PeerInfoNode)) :=
  match boundCount connections, localHistory with
  | 0, _ => some nodes
  | _ + 1, none => none
  | count + 1, some localHistory => releaseLocal nodes localHistory (count + 1)

/-- `PeerInfoNodeRelease`. -/
def release (updater : PeerUpdater) (i : NodeId) : Option PeerUpdater :=
  (live updater.nodes i).bind fun cell =>
    (Base.release updater.nodes i).bind fun nodes =>
      (if cell.refCount - 1 ≤ 0 then deleteNode nodes updater.localHistory cell.value.connectVector
        else some nodes).map fun nodes => { updater with nodes }

/-- `HistoryMovePeerHistoryToHeader`. -/
def moveToHeader (i : NodeId) : PeerUpdater :=
  let peerListTail :=
    if updater.peerListTail = some i ∧ updater.peerList ≠ some i then updater.peerLinks.previous i
    else updater.peerListTail
  let (links, list) := updater.peerLinks.delete updater.peerList i
  let (peerLinks, peerList) := links.add list i
  { updater with peerListTail, peerLinks, peerList }

/-- Flag a node as a super node, and add it to the list of them. -/
def addToSuperNodeList (i : NodeId) : Option PeerUpdater :=
  (updater.modify i fun node => { node with isSn := true }).map fun next =>
    let (snLinks, superNodeList) := next.snLinks.add next.superNodeList i
    { next with snLinks, superNodeList }

/-- What is done with a peer that is listed as a super node. -/
def makeSureSuperNode (i : NodeId) : Option PeerUpdater := do
  let node ← updater.node i
  if node.isSn then some updater else updater.addToSuperNodeList i

/-- `HistoryPeerUpdaterAddHistory`, of a node that is new, so not flagged as a super node. -/
def addHistory (node : PeerInfoNode) : PeerUpdater :=
  let i := updater.nodes.length
  let (peerLinks, peerList) := updater.peerLinks.add updater.peerList i
  { updater with
    nodes := updater.nodes ++ [.new node]
    peerLinks
    peerList
    peerCount := updater.peerCount + 1
    peerListTail := updater.peerListTail.or (some i)
    peeridMap := { peerid := node.peerid, peerHistoryNode := i } :: updater.peeridMap }

/-- `HistoryPeerMakeSurePeerHistoryExist`, with the node, `*isNew` and `*isNewConstInfo`. -/
def makeSurePeerHistoryExist (peerid : Peerid) (peerInfo : Option PeerInfo)
    (now : Int) : Option (PeerUpdater × NodeId × Bool × Bool) :=
  match updater.findPeer peerid, peerInfo with
  | some i, none => some (updater.moveToHeader i, i, false, false)
  | some i, some peerInfo => do
    let node ← updater.node i
    let next ← (updater.moveToHeader i).modify i fun node => node.updateInfo peerInfo now
    some (next, i, false, !node.hasConst)
  | none, peerInfo =>
    some (updater.addHistory (.init peerid peerInfo now), updater.nodes.length, true, false)

/-- The reference of the local node that a new connection holds, if it refers to it. -/
def refLocal (isBound : Bool) : Option PeerUpdater :=
  if isBound then updater.localHistory.bind updater.addRef else some updater

/-- Find or add a connection of a node, and change it. The results are `isNewConnect`, and whether the
change made a difference. -/
def connect (i : NodeId) (remoteEndpoint : BdtEndpoint)
    (localEndpoint : Option Nat) (change : HistoryConnectInfo → HistoryConnectInfo) :
    Option (PeerUpdater × Bool × Bool) := do
  let node ← updater.node i
  let (connections, place, isNewConnect) :=
    findOrAddConnectInfo remoteEndpoint localEndpoint node.connectVector
  let next ← updater.modify i fun node =>
    { node with connectVector := connections.modify place change }
  let next ← next.refLocal (isNewConnect && localEndpoint.isSome)
  some (next, isNewConnect, connections[place]?.any fun connection => change connection ≠ connection)

/-! ## The capacity -/

/-- What `HistoryLimitPeerCount` keeps a node for. -/
def isProtected (i : NodeId) : Bool :=
  (live updater.nodes i).any fun cell => cell.value.isSn || cell.value.isLocal || 1 < cell.refCount

/-- Take a node out of the list of peers and out of the map. -/
def unlink (i : NodeId) (peerid : Peerid) : PeerUpdater :=
  let peerList :=
    if updater.peerList = some i then updater.peerLinks.next i else updater.peerList
  let (peerLinks, peerListTail) := updater.peerLinks.delete updater.peerListTail i
  let (peeridMap, _) := deleteIfMember PeeridMapNode.compare updater.peeridMap
    { peerid, peerHistoryNode := i }
  { updater with peerList, peerLinks, peerListTail, peeridMap }

/-- The removal of a node in `HistoryLimitPeerCount`. -/
def evict (i : NodeId) : Option PeerUpdater := do
  let node ← updater.node i
  let next ← (updater.unlink i node.peerid).release i
  some { next with peerCount := next.peerCount - 1 }

/-- The loop of `HistoryLimitPeerCount`. It passes each node at most once. -/
def limitLoop : Nat → PeerUpdater → Option NodeId → Option PeerUpdater
  | 0, updater, _ => some updater
  | _ + 1, updater, none => some updater
  | fuel + 1, updater, some willRemoveNode =>
    if updater.peerCapacity.toNat < updater.peerCount then
      let nextRemoveNode := updater.peerLinks.previous willRemoveNode
      (if updater.isProtected willRemoveNode then some updater
        else updater.evict willRemoveNode).bind fun updater => limitLoop fuel updater nextRemoveNode
    else some updater

/-- The count is limited when there are two peers too many. -/
def isLimited : Prop :=
  (updater.peerCapacity + 2).toNat ≤ updater.peerCount

instance (updater : PeerUpdater) : Decidable updater.isLimited :=
  inferInstanceAs (Decidable (_ ≤ _))

/-- `HistoryLimitPeerCount`. -/
def limitPeerCount : Option PeerUpdater :=
  if updater.isLimited then
    (limitLoop updater.nodes.length updater updater.peerListTail).map fun next =>
      if next.peerCapacity.toNat < next.peerCount then
        { next with peerCount := next.peerCapacity.toNat }
      else next
  else some updater

/-! ## What the functions do to the nodes -/

variable {updater next : PeerUpdater} {i : NodeId}

theorem node_modify {change : PeerInfoNode → PeerInfoNode} (h : updater.modify i change = some next)
    (j : NodeId) : next.node j = if i = j then (updater.node j).map change else updater.node j := by
  obtain ⟨cell, hcell, rfl⟩ := map_eq_some_iff.mp h
  unfold node
  rw [live_set hcell, (live_eq_some.mp hcell).2]
  split
  case isTrue heq =>
    subst heq
    rw [hcell]
    rfl
  case isFalse => rfl

theorem node_addHistory (updater : PeerUpdater) (node : PeerInfoNode) (j : NodeId) :
    (updater.addHistory node).node j = if j = updater.nodes.length then some node else updater.node j := by
  show (live (updater.nodes ++ [.new node]) j).map _ = _
  rw [live_alloc]
  split
  case isTrue => rfl
  case isFalse => rfl

theorem node_addRef (h : updater.addRef i = some next) : next.node = updater.node := by
  obtain ⟨nodes, hnodes, rfl⟩ := map_eq_some_iff.mp h
  obtain ⟨cell, hcell, rfl⟩ := map_eq_some_iff.mp hnodes
  funext j
  unfold node
  rw [live_set hcell, (live_eq_some.mp hcell).2]
  split
  case isTrue heq =>
    subst heq
    rw [hcell]
    rfl
  case isFalse => rfl

/-- A reference is released that is not the last one. -/
theorem release_shared {cell : Counted PeerInfoNode} (hcell : live updater.nodes i = some cell)
    (hshared : 1 < cell.refCount) (h : updater.release i = some next) :
    ∃ nodes, Base.release updater.nodes i = some nodes ∧ next = { updater with nodes } ∧
      next.node = updater.node := by
  unfold release at h
  rw [hcell, bind_some] at h
  obtain ⟨nodes, hnodes, h⟩ := bind_eq_some_iff.mp h
  rw [if_neg (by omega)] at h
  cases h
  refine ⟨nodes, hnodes, rfl, ?_⟩
  obtain ⟨other, hother, rfl⟩ := map_eq_some_iff.mp hnodes
  obtain rfl := some.inj (hcell.symm.trans hother)
  funext j
  unfold node
  rw [live_set hcell]
  split
  case isTrue heq =>
    subst heq
    rw [hcell, if_neg (by rw [decide_eq_true_eq]; omega)]
    rfl
  case isFalse => rfl

theorem node_refLocal {isBound : Bool} (h : updater.refLocal isBound = some next) :
    next.node = updater.node := by
  unfold refLocal at h
  split at h
  case isTrue =>
    obtain ⟨localHistory, -, h⟩ := bind_eq_some_iff.mp h
    exact node_addRef h
  case isFalse => rw [some.inj h]

theorem core_connect {remoteEndpoint : BdtEndpoint} {localEndpoint : Option Nat}
    {change : HistoryConnectInfo → HistoryConnectInfo} {isNewConnect isChanged : Bool}
    (h : updater.connect i remoteEndpoint localEndpoint change =
      some (next, isNewConnect, isChanged)) (j : NodeId) :
    (next.node j).map (·.core) = (updater.node j).map (·.core) := by
  obtain ⟨node, -, h⟩ := bind_eq_some_iff.mp h
  obtain ⟨changed, hchanged, h⟩ := bind_eq_some_iff.mp h
  obtain ⟨referred, hreferred, h⟩ := bind_eq_some_iff.mp h
  cases h
  rw [node_refLocal hreferred, node_modify hchanged]
  split
  case isTrue =>
    rw [Option.map_map]
    rfl
  case isFalse => rfl

end PeerUpdater

end Bdt
