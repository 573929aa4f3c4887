import Bdt.SuperNode.CryptoSession

/-!
# The peers of a super node

A model of `peer_manager.ts` and `peer.ts`, and of `resend_queue.ts`. The objects that are shared, the
peers and the transports, are numbered. The transports of a peer are those of UDP, over which a peer
pings; a package over such a transport is sent before the next package is handled, so that
`m_pendings` is empty whenever it is looked at.
-/

namespace Bdt

open Base

/-- `SuperNodeTransport`. -/
structure SnTransport where
  cryptoSession : Option CryptoSession := none

/-- `Peer`. -/
structure SnPeer where
  peerInfo : JsPeerInfo
  /-- By the endpoints, the local one first. -/
  transports : List ((BdtEndpoint × BdtEndpoint) × Nat) := []
  lastTransport : Option Nat := none
  cryptoSession : Option CryptoSession := none
  lastActiveTime : Nat
  lastPkgSendTime : Nat := 0

namespace SnPeer

/-- `updateTransport`. -/
def updateTransport (peer : SnPeer) (endpoints : BdtEndpoint × BdtEndpoint) (transport : Nat) :
    SnPeer :=
  match mapGet peer.transports endpoints with
  | some existTransport => { peer with lastTransport := some existTransport }
  | none =>
    { peer with
      transports := mapSet peer.transports endpoints transport
      lastTransport := some transport }

/-- `updatePeerInfo`. -/
def updatePeerInfo (peer : SnPeer) (info : JsPeerInfo) : SnPeer :=
  if info.createTime > peer.peerInfo.createTime then { peer with peerInfo := info } else peer

/-- `heartbeat`. -/
def heartbeat (peer : SnPeer) (now : Nat) : SnPeer :=
  { peer with lastActiveTime := now }

end SnPeer

structure PeerManager where
  peers : List SnPeer := []
  activePeers : List (Peerid × Nat) := []
  knockPeers : List (Peerid × Nat) := []
  lastKnockTime : Nat

namespace PeerManager

def getPeer (manager : PeerManager) (peerid : Peerid) : Option Nat :=
  (mapGet manager.activePeers peerid).or (mapGet manager.knockPeers peerid)

/-- The peer that a heartbeat is for, which is moved to the active ones or created. -/
def makeSurePeer (manager : PeerManager) (peerInfo : JsPeerInfo) (now : Nat) : PeerManager × Nat :=
  let peerid := peerInfo.peerid
  match mapGet manager.activePeers peerid with
  | some peer =>
    ({ manager with peers := manager.peers.modify peer (·.updatePeerInfo peerInfo) }, peer)
  | none =>
    match mapGet manager.knockPeers peerid with
    | some peer =>
      ({ manager with
          peers := manager.peers.modify peer (·.updatePeerInfo peerInfo)
          knockPeers := mapDelete manager.knockPeers peerid
          activePeers := mapSet manager.activePeers peerid peer }, peer)
    | none =>
      ({ manager with
          peers := manager.peers ++ [{ peerInfo, lastActiveTime := now }]
          activePeers := mapSet manager.activePeers peerid manager.peers.length },
        manager.peers.length)

/-- The active peers become those that are knocked, and those are forgotten. -/
def rotate (manager : PeerManager) (timeout now : Nat) : PeerManager :=
  if now - manager.lastKnockTime > timeout then
    { manager with knockPeers := manager.activePeers, activePeers := [], lastKnockTime := now }
  else manager

/-- `peerHeartbeat`. The peerid is that of the peer info, whatever the first argument is:
`peerid || peerInfo ? peerInfo.peerid : undefined` is a conditional expression. -/
def peerHeartbeat (manager : PeerManager) (timeout now : Nat) (peerInfo : JsPeerInfo) :
    PeerManager × Nat :=
  let (made, peer) := manager.makeSurePeer peerInfo now
  let beaten := { made with peers := made.peers.modify peer (·.heartbeat now) }
  (beaten.rotate timeout ((beaten.peers[peer]?).elim now (·.lastActiveTime)), peer)

/-- The time that is read is that of the heartbeat. -/
theorem peerHeartbeat_eq (manager : PeerManager) (timeout now : Nat) (peerInfo : JsPeerInfo) :
    manager.peerHeartbeat timeout now peerInfo =
      ({ (manager.makeSurePeer peerInfo now).1 with
          peers := (manager.makeSurePeer peerInfo now).1.peers.modify
            (manager.makeSurePeer peerInfo now).2 (·.heartbeat now) }.rotate timeout now,
        (manager.makeSurePeer peerInfo now).2) := by
  unfold peerHeartbeat
  dsimp only
  rw [List.getElem?_modify_eq]
  cases (manager.makeSurePeer peerInfo now).1.peers[(manager.makeSurePeer peerInfo now).2]? <;> rfl

end PeerManager

/-! ## The requests that are sent again -/

/-- `PackageInfo`, with `toPeerid` of the package. -/
structure PackageInfo where
  toPeerid : Peerid
  peer : Nat
  interval : Int
  times : Nat
  lastTime : Nat

abbrev ResendQueue : Type :=
  List (Nat × PackageInfo)

namespace ResendQueue

/-- `<<=` of a number of 32 bits. -/
def shiftLeft (value : Int) : Int :=
  (2 * value).bmod (2 ^ 32)

/-- `ResendQueue.send`. -/
def send (packages : ResendQueue) (defaultInterval : Int) (now : Nat) (peer : Nat) (toPeerid : Peerid)
    (sequence : Nat) : ResendQueue :=
  let pkgInfo : PackageInfo :=
    match mapGet packages sequence with
    | none => { toPeerid, peer, interval := defaultInterval, times := 0, lastTime := now }
    | some pkgInfo =>
      { pkgInfo with toPeerid, times := pkgInfo.times / 2, interval := pkgInfo.interval / 2 }
  mapSet packages sequence { pkgInfo with lastTime := now, times := pkgInfo.times + 1 }

/-- `ResendQueue.confirm`. -/
def confirm (packages : ResendQueue) (sequence : Nat) : ResendQueue :=
  mapDelete packages sequence

/-- A request in `onTimer`. -/
def resend (now : Nat) (pkgInfo : PackageInfo) : PackageInfo :=
  if (now : Int) - pkgInfo.lastTime ≥ pkgInfo.interval then
    { pkgInfo with
      interval := shiftLeft pkgInfo.interval
      lastTime := now
      times := pkgInfo.times + 1 }
  else pkgInfo

/-- The requests after `onTimer`. -/
def onTimer (packages : ResendQueue) (maxTimes now : Nat) : ResendQueue :=
  (packages.map fun entry => (entry.1, resend now entry.2)).filter fun entry =>
    entry.2.times < maxTimes

/-- The requests that `onTimer` gives up. -/
def givenUp (packages : ResendQueue) (maxTimes now : Nat) : List PackageInfo :=
  ((packages.map (·.2)).map (resend now)).filter fun pkgInfo => ¬ pkgInfo.times < maxTimes

end ResendQueue

end Bdt
