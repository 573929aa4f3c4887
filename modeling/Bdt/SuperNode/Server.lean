import Bdt.SuperNode.PeerManager

/-!
# The super node

A model of `server.ts`, of the dispatch of packages in `udp_interface.ts`, `tcp_interface.ts` and
`tcp_listener.ts`, and of its timer. What was received at once is handled package by package before
anything else happens; `TCPNetworkListener` has the packages of a new connection handled later, by
`setImmediate`. `none` stands for an exception, which ends the process.

The responses are left out: they change nothing that a handler reads. The time is that of
`processUptime`.
-/

namespace Bdt

open Base

structure SnConfig where
  /-- `m_encrypted`. -/
  encrypted : Bool := false
  /-- Of the peers. -/
  timeout : Nat
  defaultInterval : Int
  maxTimes : Nat
  /-- `PackageCrypto.keyHash`. -/
  keyHash : List UInt8 → List UInt8

/-- `SuperNodeServer`, with the keys. -/
structure SnServer where
  manager : PeerManager
  transports : List SnTransport := []
  packages : ResendQueue := []
  curSequence : Nat := 0
  stores : KeyStores := {}

/-- Where a package comes from. -/
inductive SnChannel where
  /-- The endpoint of the interface, and that of the remote. -/
  | udp (localEndpoint remoteEndpoint : BdtEndpoint)
  | tcp (connection : Nat)

/-- A package that is to be handled, and who has sent it. -/
structure Arrival where
  package : JsPackage
  sender : Peerid
  channel : SnChannel

/-- What the super node does. -/
inductive SnEntry where
  /-- An exchange of a key was verified. -/
  | established (peerid : Peerid) (key : List UInt8)
  /-- The entry of a peer is created or changed, for a ping with this peerid in its peer info. -/
  | heartbeat (peerid : Peerid) (own : Option Peerid)
  /-- A called request is removed from the queue: for the response of a sender, or for another
  request. -/
  | removed (toPeerid : Peerid) (sender : Option Peerid)
  /-- The timer has given up a called request. -/
  | givenUp (toPeerid : Peerid)
  /-- The session with a peer has received a package: the key that it has now, and that of the
  package. -/
  | received (remote : Peerid) (accepted : Bool) (sessionKey : Option (List UInt8))
      (packageKey : List UInt8)
  /-- A handler is called, with a package that a session may have received. -/
  | handled (accepted : Option Bool)
  /-- A field is used that is missing in the package. -/
  | missingField
  deriving DecidableEq

structure SnOutcome where
  server : SnServer
  entries : List SnEntry := []

namespace SnServer

/-- The session of a transport. -/
def cryptoSession (server : SnServer) (transport : Nat) : Option CryptoSession :=
  (server.transports[transport]?).bind (·.cryptoSession)

variable (config : SnConfig) (server : SnServer)

def setCryptoSession (transport : Nat) (session : Option CryptoSession) : SnServer :=
  { server with
    transports := server.transports.modify transport fun _ => { cryptoSession := session } }

/-- A new transport, which gets the next number. -/
def openTransport : SnServer :=
  { server with transports := server.transports ++ [{ cryptoSession := none }] }

/-! ## Keys -/

/-- The session that `onRecvEncryptPackage` would put to a transport that has none; the inner `none`
is its early return. -/
def newSession (package : JsPackage) (fromPeer : Option Nat) : Option CryptoSession :=
  match fromPeer.bind (server.manager.peers[·]?) with
  | some peer =>
    match peer.cryptoSession, package.fromPeerid, package.peerInfo with
    | some session, _, _ => some session
    | none, some peerid, some _ => some { remote := .buffer peerid }
    | none, _, _ => some { remote := .object peer.peerInfo.peerid }
  | none =>
    match package.fromPeerid, package.peerInfo with
    | some peerid, some _ => some { remote := .buffer peerid }
    | _, _ => none

/-- The session that receives a package, and the keys then. The outer `none` stands for an assertion,
the inner one for a package that no session receives. -/
def receiver (package : JsPackage) (fromPeer : Option Nat) (transport : Nat)
    (tcp present : Bool) : Option (Option (CryptoSession × KeyStores)) :=
  match server.newSession package fromPeer with
  | none => some none
  | some session =>
    match server.cryptoSession transport with
    | some existing => some (some (existing, server.stores))
    | none =>
      (session.clone.bind fun clone => clone.setInterface server.stores tcp present).map some

/-- `onRecvEncryptPackage`, whether the package was accepted, and what it does. -/
def onRecvEncryptPackage (package : JsPackage) (encrypt : PackageDecryptOptions)
    (fromPeer : Option Nat) (transport : Nat) (tcp present : Bool) :
    Option (SnOutcome × Option Bool) :=
  match server.receiver package fromPeer transport tcp present with
  | none => none
  | some none => some ({ server }, none)
  | some (some (session, stores)) =>
    (session.onRecvPackage stores tcp encrypt).map fun result =>
      ({ server := { server with stores := result.stores }.setCryptoSession transport
           (some result.session)
         entries :=
           [.received result.session.remote.value result.accepted result.session.key encrypt.key] },
        some result.accepted)

/-- What both handlers do with the key of a package. -/
def updateKey (package : JsPackage) (fromPeer : Option Nat) (transport : Nat)
    (tcp present : Bool) : Option (SnOutcome × Option Bool) :=
  match package.encrypt with
  | some encrypt => server.onRecvEncryptPackage package encrypt fromPeer transport tcp present
  | none => some ({ server := server.setCryptoSession transport none }, none)

/-! ## The handlers -/

/-- What `_onPingReq` asks before it updates a peer. -/
def acceptsPing (fromPeer : Option SnPeer) (package : JsPackage) (peerInfo : JsPeerInfo) : Bool :=
  match fromPeer with
  | none => true
  | some peer =>
    !package.sendTime.any (· < peer.lastPkgSendTime) &&
      if peerInfo.signature then
        !(peer.peerInfo.signature && package.sendTime.any (· ≤ peer.lastPkgSendTime))
      else !(peer.peerInfo.signature || package.sendTime.any (· ≤ peer.lastPkgSendTime))

/-- What `_onPingReq` writes to the peer of the heartbeat. -/
def updatePinged (package : JsPackage) (fromPeerid : Peerid) (endpoints : BdtEndpoint × BdtEndpoint)
    (transport : Nat) (peer : SnPeer) : SnPeer :=
  let peer := peer.updateTransport endpoints transport
  { peer with
    lastPkgSendTime := package.sendTime.getD peer.lastPkgSendTime
    cryptoSession :=
      if package.encrypt.isSome && peer.cryptoSession.isNone then
        some { remote := .buffer fromPeerid }
      else peer.cryptoSession }

/-- `_onPingReq` compares the time of a ping of a peer that is known. -/
def comparesMissing (fromPeer : Option SnPeer) (package : JsPackage) : Bool :=
  fromPeer.isSome && package.sendTime.isNone

/-- `_onPingReq`. -/
def onPingReq (now : Nat) (package : JsPackage)
    (endpoints : BdtEndpoint × BdtEndpoint) (transport : Nat) (fromPeer : Option Nat) :
    Option SnOutcome :=
  match package.fromPeerid, package.peerInfo with
  | some fromPeerid, some peerInfo =>
    let peer := fromPeer.bind (server.manager.peers[·]?)
    let missing := if comparesMissing peer package then [SnEntry.missingField] else []
    if acceptsPing peer package peerInfo then
      let (manager, peer) := server.manager.peerHeartbeat config.timeout now peerInfo
      some
        { server :=
            { server with
              manager :=
                { manager with
                  peers := manager.peers.modify peer
                    (updatePinged package fromPeerid endpoints transport) } }
          entries := missing ++ [.heartbeat peerInfo.peerid package.own] }
    else some { server, entries := missing }
  | _, _ => none

/-- `SequenceCreator.newSequence`. -/
def newSequence (curSequence : Nat) : Nat :=
  if curSequence + 1 ≥ 2 ^ 30 then 1 else curSequence + 1

/-- `_onCallReq`. -/
def onCallReq (now : Nat) (package : JsPackage) : Option SnOutcome :=
  match package.toPeerid, package.fromPeerid, package.peerInfo with
  | none, some _, _ => some { server }
  | some toPeerid, some _, some _ =>
    match server.manager.getPeer toPeerid with
    | none => some { server }
    | some targetPeer =>
      let sequence := newSequence server.curSequence
      some
        { server :=
            { server with
              curSequence := sequence
              packages := server.packages.send config.defaultInterval now targetPeer toPeerid
                sequence }
          -- a request with the same sequence is replaced
          entries := match mapGet server.packages sequence with
            | some replaced => [.removed replaced.toPeerid none]
            | none => [] }
  | _, _, _ => none

/-- `_onCalledResp`. -/
def onCalledResp (package : JsPackage) (sender : Peerid) : SnOutcome where
  server := { server with packages := server.packages.confirm package.sequence.toNat }
  entries := match mapGet server.packages package.sequence.toNat with
    | some confirmed => [.removed confirmed.toPeerid (some sender)]
    | none => []

/-! ## The packages of UDP -/

/-- The peer and the transport that the handler of UDP finds for a package, and a new transport where
there is none. -/
def findTransport (fromPeerid : Option Peerid)
    (endpoints : BdtEndpoint × BdtEndpoint) : SnServer × Option Nat × Nat :=
  let fromPeer := fromPeerid.bind server.manager.getPeer
  match (fromPeer.bind (server.manager.peers[·]?)).bind (mapGet ·.transports endpoints) with
  | some transport => (server, fromPeer, transport)
  | none => (server.openTransport, fromPeer, server.transports.length)

/-- `fromPeerid` of a package, after the handler has looked at the peer info, and whether it goes
on. -/
def identify (package : JsPackage) : JsPackage × Bool :=
  match package.fromPeerid with
  | some _ => (package, true)
  | none =>
    ({ package with fromPeerid := package.peerInfo.map (·.peerid) }, package.cmdType = .snCalledResp)

/-- What the handler of UDP does before that of the command: the package, the peer, the transport, and
whether a session has accepted it. -/
def prepareUdp (package : JsPackage) (endpoints : BdtEndpoint × BdtEndpoint) :
    Option (SnOutcome × Option Nat × Nat × Option Bool) :=
  let (found, fromPeer, transport) := server.findTransport package.fromPeerid endpoints
  (found.updateKey package fromPeer transport false true).map fun (outcome, accepted) =>
    (outcome, fromPeer, transport, accepted)

/-- The handler of the command. -/
def handlePackage (now : Nat) (package : JsPackage)
    (sender : Peerid) (endpoints : BdtEndpoint × BdtEndpoint) (transport : Nat)
    (fromPeer : Option Nat) : Option SnOutcome :=
  match package.cmdType with
  | .snPingReq => onPingReq config server now package endpoints transport fromPeer
  | .snCallReq => onCallReq config server now package
  | .snCalledResp => some (onCalledResp server package sender)

/-- The package is dropped, for want of encryption or of a peerid. -/
def drops (package : JsPackage) : Bool :=
  config.encrypted && package.encrypt.isNone

/-- The handler of `listenUDP`. -/
def handleUdp (now : Nat) (package : JsPackage)
    (sender : Peerid) (endpoints : BdtEndpoint × BdtEndpoint) : Option SnOutcome :=
  if drops config package then some { server }
  else
    match identify package with
    | (_, false) => some { server }
    | (package, true) =>
      (server.prepareUdp package endpoints).bind fun (prepared, fromPeer, transport, accepted) =>
        (handlePackage config prepared.server now package sender endpoints transport fromPeer).map
          fun outcome =>
            { server := outcome.server
              entries := prepared.entries ++ [.handled accepted] ++ outcome.entries }

end SnServer

/-! ## The packages of TCP -/

/-- What a `packageHandle` of `listenTCP` remembers. -/
structure TcpHandler where
  transport : Nat
  peerid : Option Peerid := none
  sourcePeer : Option Nat := none

structure TcpConnection where
  /-- The handler of `TCPNetworkListener` is there. -/
  listening : Bool := true
  handlers : List TcpHandler := []
  /-- `m_decryptoOption` of the decoder, after the first box. -/
  decryptoOption : Option (Option PackageDecryptOptions) := none

namespace SnServer

/-- The peerid of a connection, and the package with it; `none` stands for an assertion. -/
def identifyTcp (handler : TcpHandler) (package : JsPackage) : Option (TcpHandler × JsPackage) :=
  match package.fromPeerid, handler.peerid with
  | some fromPeerid, none => some ({ handler with peerid := some fromPeerid }, package)
  | some fromPeerid, some peerid => if peerid = fromPeerid then some (handler, package) else none
  | none, some peerid => some (handler, { package with fromPeerid := some peerid })
  | none, none => none

/-- `packageHandle`. The interface is a field of the first package only. -/
def packageHandle (config : SnConfig) (server : SnServer) (now : Nat) (handler : TcpHandler)
    (package : JsPackage) (present : Bool) : Option (SnOutcome × TcpHandler) :=
  if drops config package then some ({ server }, handler)
  else
    (identifyTcp handler package).bind fun (handler, package) =>
      let sourcePeer :=
        if package.encrypt.isSome then
          handler.sourcePeer.or (handler.peerid.bind server.manager.getPeer)
        else handler.sourcePeer
      (server.updateKey package sourcePeer handler.transport true present).bind
        fun (prepared, accepted) =>
          (onCallReq config prepared.server now package).map fun outcome =>
            ({ server := outcome.server
               entries := prepared.entries ++ [.handled accepted] ++ outcome.entries },
              { handler with sourcePeer })

end SnServer

/-! ## The decoders -/

/-- What the decoder makes of a datagram or of the first box of a connection. -/
inductive SnDecoded where
  /-- The C bridge crashes. -/
  | crash
  | failed
  | packages (packages : List JsPackage) (encrypt : Option PackageDecryptOptions)
      (exchange : Option (Peerid × List UInt8))

/-- The packages of a box with one key. -/
def decodePackages (packages : List SnPackage) (encrypt : Option PackageDecryptOptions) : SnDecoded :=
  match decode 0 packages with
  | none => .crash
  | some [] => .failed
  | some objects => .packages (fillEncrypt encrypt objects) encrypt none

variable (config : SnConfig)

/-- A datagram, or the first box of a connection. Only the decoder of UDP compares the hash of a key
that is exchanged. -/
def decodeBox (stores : KeyStores) (tcp : Bool) : SnBox → SnDecoded
  | .plain packages => decodePackages packages none
  | .keyHash hash content =>
    match stores.queryKey tcp hash with
    | none => .failed
    | some stored =>
      match content stored.key with
      | none => .failed
      | some packages =>
        decodePackages packages
          (some
            { key := stored.key, keyHash := hash, peerid := stored.peerid, newKey := false })
  | .exchangeKey key hash exchange verified packages =>
    match exchangeKeyC2js exchange, decode 1 packages with
    | some (peerid, sendTime), some objects =>
      if verified && (tcp || hash = config.keyHash key) then
        let encrypt : PackageDecryptOptions :=
          { key, keyHash := config.keyHash key, peerid := .buffer peerid, newKey := true }
        .packages (fillEncrypt (some encrypt) (fillSendTime sendTime objects)) (some encrypt)
          (some (peerid, key))
      else .failed
    | _, _ => .crash

/-! ## Runs -/

structure SnRun where
  server : SnServer
  connections : List TcpConnection := []
  /-- What was received at once, and is not handled yet. -/
  work : List Arrival := []
  /-- The callbacks of `setImmediate`. -/
  immediates : List Arrival := []
  crashed : Bool := false
  history : List SnEntry := []

inductive SnEvent where
  | datagram (sender : Peerid) (localEndpoint remoteEndpoint : BdtEndpoint) (box : SnBox)
  /-- A connection is accepted. -/
  | accept
  | firstBox (sender : Peerid) (connection : Nat) (box : SnBox)
  /-- A later box of a connection, with the packages that its decoder finds. -/
  | nextBox (sender : Peerid) (connection : Nat) (packages : List SnPackage)
  /-- The next package is dispatched. -/
  | dispatch (now : Nat)
  | immediate (now : Nat)
  | timer (now : Nat)
  /-- A connection is closed, ends or fails. -/
  | close (connection : Nat)

namespace SnRun

/-- The super node is started, with the keys of the storage. -/
def start (keys : StoredKeys) (curSequence now : Nat) : SnRun where
  server :=
    { manager := { lastKnockTime := now }
      curSequence
      stores := { hash2Keys := keys, udpKeys := keys, tcpKeys := keys } }

/-- The packages of a box are received. An exchange of a key is stored at once. -/
def receive (run : SnRun) (sender : Peerid) (channel : SnChannel) (packages : List JsPackage)
    (exchange : Option (Peerid × List UInt8)) (keyHash : List UInt8 → List UInt8) : SnRun :=
  let work := packages.map fun package => { package, sender, channel }
  match exchange with
  | none => { run with work }
  | some (peerid, key) =>
    { run with
      server := { run.server with
        stores := run.server.stores.addKey (.buffer peerid) (keyHash key) key }
      work
      history := run.history ++ [.established peerid key] }

/-- What a handler has done, or that it did not return. -/
def settle (run : SnRun) : Option SnOutcome → SnRun
  | none => { run with crashed := true }
  | some outcome => { run with server := outcome.server, history := run.history ++ outcome.entries }

def updateConnection (run : SnRun) (connection : Nat) (f : TcpConnection → TcpConnection) : SnRun :=
  { run with connections := run.connections.modify connection f }

/-- `dispatch` of an interface, or the handler of `TCPNetworkListener`. Only a call has a handler on a
connection. -/
def dispatch (run : SnRun) (now : Nat) (arrival : Arrival) : SnRun :=
  match arrival.channel with
  | .udp localEndpoint remoteEndpoint =>
    run.settle <| run.server.handleUdp config now arrival.package arrival.sender
      (localEndpoint, remoteEndpoint)
  | .tcp connection =>
    match run.connections[connection]? with
    | none => run
    | some tcp =>
      if tcp.listening then { run with immediates := run.immediates ++ [arrival] }
      else
        match arrival.package.cmdType, tcp.handlers with
        | .snCallReq, handler :: rest =>
          match run.server.packageHandle config now handler arrival.package false with
          | none => { run with crashed := true }
          | some (outcome, handler) =>
            (run.settle (some outcome)).updateConnection connection fun tcp =>
              { tcp with handlers := handler :: rest }
        | _, _ => run

/-- The handler of `listenTCP`. -/
def immediate (run : SnRun) (now : Nat) (arrival : Arrival) : SnRun :=
  match arrival.channel, arrival.package.cmdType with
  | .tcp connection, .snCallReq =>
    let transport := run.server.transports.length
    match run.server.openTransport.packageHandle config now { transport } arrival.package true with
    | none => { run with crashed := true }
    | some (outcome, handler) =>
      (run.settle (some outcome)).updateConnection connection fun tcp =>
        { tcp with listening := false, handlers := tcp.handlers ++ [handler] }
  | _, _ => run

/-- What the timer does to the requests. -/
def onTimer (config : SnConfig) (run : SnRun) (now : Nat) : SnRun :=
  { run with
    server := { run.server with packages := run.server.packages.onTimer config.maxTimes now }
    history := run.history ++ (run.server.packages.givenUp config.maxTimes now).map fun pkgInfo =>
      .givenUp pkgInfo.toPeerid }

def decoded (run : SnRun) (sender : Peerid) (channel : SnChannel) :
    SnDecoded → SnRun
  | .crash => { run with crashed := true }
  | .failed => run
  | .packages packages _ exchange => run.receive sender channel packages exchange config.keyHash

def handle (run : SnRun) (event : SnEvent) : Option SnRun :=
  if run.crashed then none
  else
    match event, run.work with
    | .dispatch now, arrival :: rest => some (dispatch config { run with work := rest } now arrival)
    | .datagram sender localEndpoint remoteEndpoint box, [] =>
      some <| run.decoded config sender (.udp localEndpoint remoteEndpoint)
        (decodeBox config run.server.stores false box)
    | .accept, [] => some { run with connections := run.connections ++ [{}] }
    | .firstBox sender connection box, [] =>
      match run.connections[connection]? with
      | some { decryptoOption := none, .. } =>
        let decoded := decodeBox config run.server.stores true box
        let next := run.decoded config sender (.tcp connection) decoded
        match decoded with
        | .packages _ encrypt _ =>
          some <| next.updateConnection connection fun tcp =>
            { tcp with decryptoOption := some encrypt }
        | _ => some next
      | _ => none
    | .nextBox sender connection packages, [] =>
      match run.connections[connection]? with
      | some { decryptoOption := some encrypt, .. } =>
        some <| run.decoded config sender (.tcp connection) (decodePackages packages encrypt)
      | _ => none
    | .immediate now, [] =>
      match run.immediates with
      | arrival :: rest => some (immediate config { run with immediates := rest } now arrival)
      | [] => none
    | .timer now, [] => some (run.onTimer config now)
    | .close connection, [] =>
      some <| run.updateConnection connection fun tcp =>
        { tcp with listening := false, handlers := [] }
    | _, _ => none

end SnRun

end Bdt
