import Bdt.Base.WriteLog
import Bdt.Global.PeerInfoCodec
import Bdt.History.KeyManager
import Bdt.History.SqliteQueue

/-!
# The tables of the SQLite storage

The storage keeps its peers, connections, super nodes and keys in four tables. One function binds the
columns of a row to a record, and another one builds the record from the columns. A number of 32 bits
or less is bound as an `int`, a blob is bound with its length, and what a column returns is what was
bound.

The local endpoint of a connection is not what is bound for it: the blob is read from the place of the
pointer, not from what it points to.
-/

namespace Bdt

open Base

/-! ## Columns -/

/-- `sizeof(BdtEndpoint)`. -/
def ENDPOINT_LENGTH_V6 : Nat := 20
def ENDPOINT_LENGTH_V4 : Nat := ENDPOINT_LENGTH_V6 - 12

def endpointLength (endpoint : BdtEndpoint) : Nat :=
  if endpoint.flag &&& BDT_ENDPOINT_IP_VERSION_4 ≠ 0 then ENDPOINT_LENGTH_V4 else ENDPOINT_LENGTH_V6

/-- The memory of an endpoint, with the reserved byte zero. -/
def BdtEndpoint.memory (endpoint : BdtEndpoint) : List UInt8 :=
  endpoint.flag :: 0 :: (toLe 2 endpoint.port.toNat ++ endpoint.address.1)

/-- An endpoint whose memory was zero before the bytes were copied to it. -/
def BdtEndpoint.ofMemory (bytes : List UInt8) : BdtEndpoint where
  flag := bytes.headD 0
  port := UInt16.ofNat (ofLe ((bytes.drop 2).take 2))
  address := .ofList 16 (bytes.drop 4)

/-- The endpoint that is all zero. -/
def BdtEndpoint.zero : BdtEndpoint := ⟨0, 0, .zero 16⟩

/-- `bdt_history_peer`, without its key. -/
structure PeerRow where
  continent : Int32
  country : Int32
  carrier : Int32
  city : Int32
  inner : Int32
  deviceId : List UInt8
  publicKeyType : Int32
  publicKey : List UInt8
  flag : Int32

/-- The primary key of `bdt_history_connection`. -/
structure ConnectKey where
  peerid : Peerid
  endpoint : List UInt8
  /-- `none` is the `NULL` of SQL. -/
  localEndpoint : Option (List UInt8)
  deriving DecidableEq

structure ConnectRow where
  flags : Int32
  foundTime : Int
  lastConnectTime : Int
  rto : Int32
  sendSpeed : Int32
  recvSpeed : Int32

/-- `bdt_history_aesKey`, without its key. -/
structure AesKeyRow where
  flags : Int32
  lastAccessTime : Int
  expireTime : Int

structure HistoryTables where
  peers : List (Peerid × PeerRow) := []
  connections : List (ConnectKey × ConnectRow) := []
  /-- The key is `peeridSN` and `peeridClient`. -/
  sns : List ((Peerid × Peerid) × Int) := []
  aesKeys : List ((Peerid × AesKey) × AesKeyRow) := []

/-! ## Requests -/

/-- An endpoint that has an IP version. -/
abbrev VersionedEndpoint : Type :=
  { endpoint : BdtEndpoint //
    endpoint.flag &&& (BDT_ENDPOINT_IP_VERSION_4 ||| BDT_ENDPOINT_IP_VERSION_6) ≠ 0 }

/-- `BdtHistory_PeerConnectInfo`. -/
structure HistoryConnect where
  endpoint : BdtEndpoint
  localEndpoint : Option VersionedEndpoint
  foundTime : Int
  lastConnectTime : Int
  rto : UInt32
  sendSpeed : UInt32
  recvSpeed : UInt32
  flags : UInt32

/-- `BdtHistory_PeerInfo`, without the super nodes, which are not stored with it. -/
structure HistoryPeer where
  peerid : Peerid
  constInfo : PeerConstInfo
  flagsU32 : UInt32
  connectVector : List HistoryConnect
  knownKey : (publicKeyLength constInfo.publicKeyType).isSome

/-- The bit `hasConst` of the flags of a peer. -/
def hasConst (flagsU32 : UInt32) : Bool := flagsU32 &&& 8 ≠ 0

/-- What a key has that is updated. -/
structure AesKeyInfo where
  flags : UInt32
  lastAccessTime : Int
  expireTime : Int

inductive HistoryRequest where
  | addPeer (history : HistoryPeer)
  | setConstInfo (history : HistoryPeer)
  | updateConnect (peerid : Peerid) (connectInfo : HistoryConnect) (isNew : Bool)
  | updateSuperNode (clientPeerid superNodePeerid : Peerid) (responseTime : Int) (isNew : Bool)
  | updateAesKey (peerid : Peerid) (aesKey : AesKey) (info : AesKeyInfo) (isNew : Bool)

def HistoryRequest.type : HistoryRequest → SqliteIOType
  | addPeer _ => .addPeer
  | setConstInfo _ => .setConstInfo
  | updateConnect _ _ isNew => if isNew then .addConnect else .updateConnect
  | updateSuperNode _ _ _ isNew => if isNew then .addSuperNode else .updateSuperNode
  | updateAesKey _ _ _ isNew => if isNew then .addKey else .updateKey

/-! ## Binding -/

def bindPeer (history : HistoryPeer) : PeerRow where
  continent := history.constInfo.areaCode.continent.toUInt32.toInt32
  country := history.constInfo.areaCode.country.toUInt32.toInt32
  carrier := history.constInfo.areaCode.carrier.toUInt32.toInt32
  city := history.constInfo.areaCode.city.toUInt32.toInt32
  inner := history.constInfo.areaCode.inner.toUInt32.toInt32
  deviceId := history.constInfo.deviceId.1
  publicKeyType := history.constInfo.publicKeyType.toUInt32.toInt32
  publicKey := history.constInfo.key
  flag := history.flagsU32.toInt32

/-- `memory` is what stands at the place of the pointer `localEndpoint`. -/
def bindConnectKey (peerid : Peerid) (connectInfo : HistoryConnect) (memory : List UInt8) :
    ConnectKey where
  peerid
  endpoint := connectInfo.endpoint.memory.take (endpointLength connectInfo.endpoint)
  localEndpoint := connectInfo.localEndpoint.map fun localEndpoint =>
    memory.take (endpointLength localEndpoint.1)

def bindConnect (connectInfo : HistoryConnect) : ConnectRow where
  flags := connectInfo.flags.toInt32
  foundTime := connectInfo.foundTime
  lastConnectTime := connectInfo.lastConnectTime
  rto := connectInfo.rto.toInt32
  sendSpeed := connectInfo.sendSpeed.toInt32
  recvSpeed := connectInfo.recvSpeed.toInt32

def bindAesKey (info : AesKeyInfo) : AesKeyRow :=
  ⟨info.flags.toInt32, info.lastAccessTime, info.expireTime⟩

/-- The comparison of SQL, in which `NULL` equals nothing. -/
def ConnectKey.equals (row key : ConnectKey) : Bool :=
  row.localEndpoint.isSome && row == key

/-! ## The processors of an open database -/

/-- `INSERT` for an added peer, `UPDATE` for a const info that is set. -/
def sqliteSetConstInfoImpl (tables : HistoryTables) (write : Write Peerid HistoryPeer) :
    HistoryTables :=
  { tables with peers := writeRow tables.peers (write.map bindPeer) }

/-- An update leaves `foundTime`. -/
def sqliteUpdateConnectIOProcessorImpl (tables : HistoryTables) (isNew : Bool) (peerid : Peerid)
    (connectInfo : HistoryConnect) (memory : List UInt8) : HistoryTables :=
  let key := bindConnectKey peerid connectInfo memory
  let row := bindConnect connectInfo
  { tables with connections :=
      if isNew then
        if tables.connections.any fun stored => stored.1.equals key then tables.connections
        else tables.connections ++ [(key, row)]
      else tables.connections.map fun stored =>
        if stored.1.equals key then (stored.1, { row with foundTime := stored.2.foundTime })
        else stored }

def sqliteUpdateSuperNode (tables : HistoryTables) (write : Write (Peerid × Peerid) Int) :
    HistoryTables :=
  { tables with sns := writeRow tables.sns write }

def sqliteUpdateKey (tables : HistoryTables) (write : Write (Peerid × AesKey) AesKeyInfo) :
    HistoryTables :=
  { tables with aesKeys := writeRow tables.aesKeys (write.map bindAesKey) }

/-- What a request writes to `bdt_history_peer`. -/
def peerWrite : HistoryRequest → Option (Write Peerid HistoryPeer)
  | .addPeer history => some (.insert history.peerid history)
  | .setConstInfo history => some (.update history.peerid history)
  | _ => none

/-- What a request writes to `bdt_history_sn`. -/
def snWrite : HistoryRequest → Option (Write (Peerid × Peerid) Int)
  | .updateSuperNode clientPeerid superNodePeerid responseTime isNew =>
    some (if isNew then .insert (superNodePeerid, clientPeerid) responseTime
      else .update (superNodePeerid, clientPeerid) responseTime)
  | _ => none

/-- What a request writes to `bdt_history_aesKey`. -/
def aesKeyWrite : HistoryRequest → Option (Write (Peerid × AesKey) AesKeyInfo)
  | .updateAesKey peerid aesKey info isNew =>
    some (if isNew then .insert (peerid, aesKey) info else .update (peerid, aesKey) info)
  | _ => none

/-- The connections that a request adds or updates. -/
def connectWrites : HistoryRequest → List (Peerid × HistoryConnect × Bool)
  | .addPeer history => history.connectVector.map fun connectInfo => (history.peerid, connectInfo, true)
  | .updateConnect peerid connectInfo isNew => [(peerid, connectInfo, isNew)]
  | _ => []

/-- `memory i` is what stands at the place of the pointer of the connection `i` of the request. -/
def processConnects (tables : HistoryTables) (r : HistoryRequest) (memory : Nat → List UInt8) :
    HistoryTables :=
  (connectWrites r).zipIdx.foldl (fun tables write =>
    sqliteUpdateConnectIOProcessorImpl tables write.1.2.2 write.1.1 write.1.2.1 (memory write.2)) tables

/-- The processors for the types of the history requests. Each request has the writes of one of them,
and an added peer those of its connections behind its own. -/
def processRequest (tables : HistoryTables) (r : HistoryRequest) (memory : Nat → List UInt8) :
    HistoryTables :=
  (aesKeyWrite r).toList.foldl sqliteUpdateKey
    ((snWrite r).toList.foldl sqliteUpdateSuperNode
      (processConnects ((peerWrite r).toList.foldl sqliteSetConstInfoImpl tables) r memory))

/-! ## Loading -/

structure LoadedConnect where
  endpoint : BdtEndpoint
  localEndpoint : Option BdtEndpoint
  flags : UInt32
  foundTime : Int
  lastConnectTime : Int
  rto : UInt32
  sendSpeed : UInt32
  recvSpeed : UInt32

/-- `BdtHistory_SuperNodeInfo` as it is loaded. Its flag `isStorage` is set always. -/
structure LoadedPeer where
  peerid : Peerid
  constInfo : PeerConstInfo
  hasConst : Bool
  isSn : Bool := false
  lastResponseTime : Int := 0
  connectVector : List LoadedConnect := []
  /-- The pointers to the super nodes, which are loaded peers themselves. -/
  snVector : List Peerid := []

structure LoadedKey where
  peerid : Peerid
  aesKey : AesKey
  flagU32 : UInt32
  lastAccessTime : Int
  expireTime : Int

/-- `SqliteFillPeerInfoFromDataBase`. -/
def fillPeerInfo (row : Peerid × PeerRow) : Option LoadedPeer :=
  if row.2.deviceId.length ≤ BDT_MAX_DEVICE_ID_LENGTH ∧
      row.2.publicKey.length ≤ BDT_PEER_PUBLIC_KEY_LENTGH_RSA3072 then
    some {
      peerid := row.1
      constInfo := {
        areaCode := {
          continent := row.2.continent.toUInt32.toUInt8
          country := row.2.country.toUInt32.toUInt8
          carrier := row.2.carrier.toUInt32.toUInt8
          city := row.2.city.toUInt32.toUInt16
          inner := row.2.inner.toUInt32.toUInt8 }
        deviceId := .ofList _ row.2.deviceId
        publicKeyType := row.2.publicKeyType.toUInt32.toUInt8
        publicKey := .ofList _ row.2.publicKey }
      hasConst := Bdt.hasConst row.2.flag.toUInt32 }
  else none

/-- `SqliteFillConnectInfoFromDataBase`. The record comes with a zero endpoint as its local one. -/
def fillConnectInfo (row : ConnectKey × ConnectRow) : Option LoadedConnect :=
  let columnBytes := (row.1.localEndpoint.getD []).length
  if ENDPOINT_LENGTH_V4 ≤ row.1.endpoint.length ∧ row.1.endpoint.length ≤ ENDPOINT_LENGTH_V6 ∧
      (columnBytes = 0 ∨ columnBytes = ENDPOINT_LENGTH_V4 ∨ columnBytes = ENDPOINT_LENGTH_V6) then
    some {
      endpoint := .ofMemory row.1.endpoint
      -- the pointer is cleared behind the copy
      localEndpoint := if 0 < columnBytes then none else some .zero
      flags := row.2.flags.toUInt32
      foundTime := row.2.foundTime
      lastConnectTime := row.2.lastConnectTime
      rto := row.2.rto.toUInt32
      sendSpeed := row.2.sendSpeed.toUInt32
      recvSpeed := row.2.recvSpeed.toUInt32 }
  else none

/-- `SqliteFillKeyInfoFromDataBase`. -/
def fillKeyInfo (row : (Peerid × AesKey) × AesKeyRow) : LoadedKey where
  peerid := row.1.1
  aesKey := row.1.2
  flagU32 := row.2.flags.toUInt32
  lastAccessTime := row.2.lastAccessTime
  expireTime := row.2.expireTime

def sqliteLoadPeers (rows : HistoryTables) : List LoadedPeer := rows.peers.filterMap fillPeerInfo

/-- The peer was loaded. -/
def foundPeer (peers : List LoadedPeer) (peerid : Peerid) : Bool :=
  peers.any fun peer => peer.peerid = peerid

/-- Change a loaded peer. A peerid is the key of one row. -/
def changePeer (peerid : Peerid) (change : LoadedPeer → LoadedPeer) (peers : List LoadedPeer) :
    List LoadedPeer :=
  peers.map fun peer => if peer.peerid = peerid then change peer else peer

def LoadedConnect.isValid (connectInfo : LoadedConnect) (validTime : Int) : Bool :=
  validTime < connectInfo.lastConnectTime ||
    connectInfo.lastConnectTime == 0 && validTime < connectInfo.foundTime

def sqliteLoadConnections (rows : HistoryTables) (validTime : Int) (peers : List LoadedPeer) :
    List LoadedPeer :=
  rows.connections.foldl (fun peers row =>
    match fillConnectInfo row with
    | some connectInfo =>
      if connectInfo.isValid validTime then
        changePeer row.1.peerid (fun peer =>
          { peer with connectVector := peer.connectVector ++ [connectInfo] }) peers
      else peers
    | none => peers) peers

/-- Both peers must have been loaded. -/
def sqliteLoadSuperNodes (rows : HistoryTables) (peers : List LoadedPeer) : List LoadedPeer :=
  rows.sns.foldl (fun peers row =>
    if foundPeer peers row.1.1 && foundPeer peers row.1.2 then
      changePeer row.1.2 (fun peer => { peer with snVector := peer.snVector ++ [row.1.1] })
        (changePeer row.1.1 (fun peer =>
          { peer with lastResponseTime := row.2, isSn := true }) peers)
    else peers) peers

def sqliteLoadAesKeys (rows : HistoryTables) (expireTime : Int) (peers : List LoadedPeer) :
    List LoadedKey :=
  (rows.aesKeys.filter fun row =>
    foundPeer peers row.1.1 && decide (expireTime < row.2.expireTime)).map fillKeyInfo

/-- What is passed to the callback of `loadAll`. -/
structure LoadedHistory where
  peers : List LoadedPeer
  keys : List LoadedKey

/-- The rows come in the order in which they are selected. -/
def sqliteLoadAllTable (rows : HistoryTables) (historyValidTime now : Int) : LoadedHistory :=
  let peers := sqliteLoadPeers rows
  let peers := sqliteLoadConnections rows historyValidTime peers
  let peers := sqliteLoadSuperNodes rows peers
  ⟨peers, sqliteLoadAesKeys rows now peers⟩

end Bdt
