import Bdt.Base.SearchTree
import Bdt.Connection.BdtConnection

/-!
# The connection manager

A model of `ConnectionManager.imp.inl`: the connections that were created, and the trees that find
them by their id and, for a passive connection, by the sequence number of its peer. A connection is
named by its position among those that were created. References are not counted here.

`remote_seq_map_compare` is given addresses: `memcmp` starts at the member `peerid` of a node, which
is a pointer, and reads `BDT_PEERID_LENGTH` bytes from there, over the end of the node. What those
bytes are is an argument of the comparator. `remote_seq_map_compare_eq`: they make no difference,
two nodes are ordered by their sequence numbers.
-/

namespace Bdt

open Base

/-! ## The trees -/

/-- `BdtRemoteSeqConnectionMap`, without the links. `peerid` is the pointer. -/
structure BdtRemoteSeqConnectionMap where
  peerid : Nat
  seq : UInt32
  connection : Nat
  deriving DecidableEq

/-- The bytes after `seq` in memory, up to the end of what `memcmp` reads: the padding, the member
`connection`, and what lies behind the node. -/
structure NodeMemory where
  elem : Bytes 20
  node : BdtRemoteSeqConnectionMap → Bytes 20

/-- The memory from the member `peerid` of a node on. -/
def BdtRemoteSeqConnectionMap.image (node : BdtRemoteSeqConnectionMap) (behind : Bytes 20) :
    List UInt8 :=
  toLe 8 node.peerid ++ (toLe 4 node.seq.toNat ++ behind.1)

/-- `remote_seq_map_compare`. -/
def remote_seq_map_compare (memory : NodeMemory) (left right : BdtRemoteSeqConnectionMap) : Int :=
  if memcmp (left.image memory.elem) (right.image (memory.node right)) = 0 then 0
  else if left.seq = right.seq then 0
  else if left.seq > right.seq then 1 else -1

/-- `BdtIdConnectionMap`. -/
structure BdtIdConnectionMap where
  id : UInt32
  connection : Nat
  deriving DecidableEq

/-- `id_map_compare`. -/
def id_map_compare (left right : BdtIdConnectionMap) : Int :=
  if left.id = right.id then 0 else if left.id > right.id then 1 else -1

/-- `BdtConnectionListenerMap`, with the number of connections in the backlog of the listener. -/
structure BdtConnectionListenerMap where
  port : UInt16
  backlog : Nat
  deriving DecidableEq

/-- `connection_listener_map_compare`. -/
def connection_listener_map_compare (left right : BdtConnectionListenerMap) : Int :=
  if left.port > right.port then 1 else if left.port < right.port then -1 else 0

theorem toLe_seq {x y : UInt32} (h : toLe 4 x.toNat = toLe 4 y.toNat) : x = y := by
  have hvalue := congrArg ofLe h
  rw [ofLe_toLe x.toNat_lt, ofLe_toLe y.toNat_lt] at hvalue
  exact UInt32.toNat_inj.mp hvalue

/-- Nodes with the same bytes have the same sequence number. -/
theorem BdtRemoteSeqConnectionMap.seq_eq {left right : BdtRemoteSeqConnectionMap}
    {behind behind' : Bytes 20} (h : left.image behind = right.image behind') :
    left.seq = right.seq := by
  have hseq := (List.append_inj h (by rw [length_toLe, length_toLe])).2
  exact toLe_seq (List.append_inj hseq (by rw [length_toLe, length_toLe])).1

theorem remote_seq_map_compare_eq (memory : NodeMemory) (left right : BdtRemoteSeqConnectionMap) :
    remote_seq_map_compare memory left right =
      if left.seq = right.seq then 0 else if left.seq > right.seq then 1 else -1 := by
  unfold remote_seq_map_compare
  split
  case isTrue h =>
    have hlength : (left.image memory.elem).length = (right.image (memory.node right)).length := by
      simp only [BdtRemoteSeqConnectionMap.image, List.length_append, length_toLe, memory.elem.2,
        (memory.node right).2]
    rw [if_pos (BdtRemoteSeqConnectionMap.seq_eq ((memcmp_eq_zero hlength).mp h))]
  case isFalse => rfl

/-- The tree tells passive connections apart by the sequence number alone. -/
theorem remote_seq_comparesBy (memory : NodeMemory) :
    ComparesBy (remote_seq_map_compare memory) BdtRemoteSeqConnectionMap.seq := by
  intro left right
  rw [remote_seq_map_compare_eq]
  split
  case isTrue h => exact ⟨fun _ => h, fun _ => rfl⟩
  case isFalse h =>
    refine ⟨fun heq => ?_, fun hsame => absurd hsame h⟩
    split at heq <;> cases heq

/-! ## The manager -/

/-- `struct Bdt_ConnectionManager`, and the connections that were created. -/
structure Bdt_ConnectionManager where
  /-- `acceptConfig.backlog`. -/
  backlog : Nat
  /-- `idCreator->curValue`. -/
  curValue : UInt32
  idEntry : List BdtIdConnectionMap
  passiveEntry : List BdtRemoteSeqConnectionMap
  listenerMap : List BdtConnectionListenerMap
  connections : List BdtConnection

/-- The results of `Bdt_AddPassiveConnection`, with the connection that it gives. -/
inductive AddPassiveResult where
  | notFound
  | outOfMemory
  | alreadyExists (connection : Nat)
  | success (connection : Nat)
  deriving DecidableEq

/-- `Bdt_Uint32IdCreatorNext`. -/
def uint32IdCreatorNext (curValue : UInt32) : UInt32 :=
  if curValue = 0x7fffffff then BDT_UINT32_ID_INVALID_VALUE + 1 else curValue + 1

namespace Bdt_ConnectionManager

/-- `Bdt_ConnectionManagerCreate`. `Bdt_Uint32IdCreatorInit` has set the id creator of the stack to a
random value. -/
def create (backlog : Nat) (curValue : UInt32) : Bdt_ConnectionManager where
  backlog := backlog
  curValue := curValue
  idEntry := []
  passiveEntry := []
  listenerMap := []
  connections := []

/-- `Bdt_GetConnectionById`. -/
def getConnectionById (id : UInt32) (manager : Bdt_ConnectionManager) : Option Nat :=
  (findMember id_map_compare manager.idEntry ⟨id, 0⟩).map (·.connection)

/-- `Bdt_GetConnectionByRemoteSeq`, where `peerid` is the pointer to the peerid. -/
def getConnectionByRemoteSeq (memory : NodeMemory) (peerid : Nat) (seq : UInt32)
    (manager : Bdt_ConnectionManager) : Option Nat :=
  (findMember (remote_seq_map_compare memory) manager.passiveEntry ⟨peerid, seq, 0⟩).map
    (·.connection)

/-- The listener on a port. -/
def listener (port : UInt16) (manager : Bdt_ConnectionManager) : Option BdtConnectionListenerMap :=
  findMember connection_listener_map_compare manager.listenerMap ⟨port, 0⟩

/-- `BdtListenConnection`. -/
def listenConnection (port : UInt16) (manager : Bdt_ConnectionManager) : Bdt_ConnectionManager :=
  { manager with
    listenerMap := (addIfNotMember connection_listener_map_compare manager.listenerMap ⟨port, 0⟩).1 }

/-- The accept calls and the connections that wait for them change the backlog of a listener. -/
def changeBacklog (port : UInt16) (count : Nat) (manager : Bdt_ConnectionManager) :
    Bdt_ConnectionManager :=
  { manager with
    listenerMap := manager.listenerMap.map fun listener =>
      if listener.port = port then { listener with backlog := count } else listener }

/-- A connection is created, and found by its id. -/
def createConnection (remote : Peerid) (connectSeq remoteId : UInt32) (passive : Bool)
    (manager : Bdt_ConnectionManager) : Bdt_ConnectionManager :=
  let id := uint32IdCreatorNext manager.curValue
  { manager with
    curValue := id
    connections := manager.connections ++ [ConnectionCreate remote id connectSeq remoteId passive]
    idEntry := ⟨id, manager.connections.length⟩ :: manager.idEntry }

/-- `Bdt_AddActiveConnection`, where `connectSeq` is what `BdtTunnel_GetNextSeq` gives. -/
def addActiveConnection (remote : Peerid) (connectSeq : UInt32) (manager : Bdt_ConnectionManager) :
    Bdt_ConnectionManager :=
  manager.createConnection remote connectSeq BDT_UINT32_ID_INVALID_VALUE false

/-- The port is listened on, and its backlog is not full. -/
def accepts (port : UInt16) (manager : Bdt_ConnectionManager) : Bool :=
  (manager.listener port).any fun listener => listener.backlog ≤ manager.backlog

/-- `Bdt_AddPassiveConnection`. `peerid` is the pointer to `remote` that the caller has, and
`remotePeerid` that to the member of the connection. -/
def addPassiveConnection (memory : NodeMemory) (port : UInt16) (remote : Peerid)
    (peerid remotePeerid : Nat) (remoteId seq : UInt32) (firstQuestion : List UInt8)
    (manager : Bdt_ConnectionManager) : Bdt_ConnectionManager × AddPassiveResult :=
  match manager.listener port with
  | none => (manager, .notFound)
  | some listener =>
    if listener.backlog > manager.backlog then (manager, .outOfMemory)
    else
      match findMember (remote_seq_map_compare memory) manager.passiveEntry ⟨peerid, seq, 0⟩ with
      | some found => (manager, .alreadyExists found.connection)
      | none =>
        let connection := manager.connections.length
        let created := manager.createConnection remote seq remoteId true
        ({ created with
            passiveEntry := ⟨remotePeerid, seq, connection⟩ :: manager.passiveEntry
            connections :=
              created.connections.modify connection (·.setFirstQuestion firstQuestion) },
          .success connection)

/-- `Bdt_RemoveConnection`. -/
def removeConnection (memory : NodeMemory) (peerid : Nat) (connection : BdtConnection)
    (manager : Bdt_ConnectionManager) : Bdt_ConnectionManager :=
  { manager with
    idEntry := (deleteIfMember id_map_compare manager.idEntry ⟨connection.id, 0⟩).1
    passiveEntry :=
      if connection.passive then
        (deleteIfMember (remote_seq_map_compare memory) manager.passiveEntry
          ⟨peerid, connection.connectSeq, 0⟩).1
      else manager.passiveEntry }

end Bdt_ConnectionManager

end Bdt
