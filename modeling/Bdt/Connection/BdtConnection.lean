import Bdt.Global.Peerid

/-!
# Connections

A model of `struct BdtConnection` of `Connection.imp.inl`: who the connection is with, under which
ids, and the members that `stateLock` protects. Tcp interfaces, builders and packages that a
connection has references to are numbers.
-/

namespace Bdt

def BDT_UINT32_ID_INVALID_VALUE : UInt32 := 0

/-- `BdtConnectionState`. -/
inductive BdtConnectionState where
  | none
  | connecting
  | establish
  | closing
  | closed
  deriving DecidableEq

/-- The `ins` of a connector, with its type. -/
inductive ConnectorIns where
  | builder (builder : Nat)
  | stream (tcpInterface : Nat)
  | reverseStream
  | package
  deriving DecidableEq

/-- A connector that was allocated, as the `number`th one of the connection. -/
structure ConnectionConnector where
  number : Nat
  ins : ConnectorIns
  deriving DecidableEq

/-- The `ins` of an acceptor, with its type. -/
inductive AcceptorIns where
  | maybeBuilder (tcpInterface : Option Nat) (ackPackage : Bool)
  | builder (builder : Nat)
  | reverseStream (tcpInterface : Nat) (confirmed established : Bool)
  deriving DecidableEq

/-- An acceptor that was allocated, as the `number`th one of the connection. -/
structure ConnectionAcceptor where
  number : Nat
  ins : AcceptorIns
  deriving DecidableEq

/-- `providerType`. -/
inductive ProviderType where
  | waiting
  | package
  | stream
  deriving DecidableEq

/-- `struct BdtConnection`. A user data is `none` if it has nothing to be released. -/
structure BdtConnection where
  id : UInt32
  connectSeq : UInt32
  remoteId : UInt32
  remotePeerid : Peerid
  /-- `CONNECTION_CONNECT_FLAG_PASSIVE`. -/
  passive : Bool
  firstQuestion : Option (List UInt8)
  firstAnswer : Option (List UInt8)
  state : BdtConnectionState
  connector : Option ConnectionConnector
  acceptor : Option ConnectionAcceptor
  connectCallback : Bool
  connectUserData : Option Nat
  faCallback : Bool
  faUserData : Option Nat
  providerType : ProviderType
  /-- How many connectors and acceptors were allocated for it. -/
  allocated : Nat
  deriving DecidableEq

/-- `ConnectionCreate`. -/
def ConnectionCreate (remote : Peerid) (id connectSeq remoteId : UInt32) (passive : Bool) :
    BdtConnection where
  id := id
  connectSeq := connectSeq
  remoteId := remoteId
  remotePeerid := remote
  passive := passive
  firstQuestion := none
  firstAnswer := none
  state := .none
  connector := none
  acceptor := none
  connectCallback := false
  connectUserData := none
  faCallback := false
  faUserData := none
  providerType := .waiting
  allocated := 0

/-- `ConnectionSetFirstQuestion`: the first one that is set stays. -/
def BdtConnection.setFirstQuestion (question : List UInt8) (c : BdtConnection) : BdtConnection :=
  if c.firstQuestion = none then { c with firstQuestion := some question } else c

end Bdt
