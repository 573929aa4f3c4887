import Bdt.Base.Calls
import Bdt.Base.Transition
import Bdt.Interface.TcpInterface

/-!
# The socket of a tcp interface

A model of the functions of `TcpInterface.imp.inl` that open, use and close the socket. Each has a
section under `stateLock`, which changes the state and takes references, and behind it calls of the
socket, releases, and callbacks of the owner. The section is one step, and so is each of the actions
behind it, so that the functions may run in several threads and inside the callbacks.

What bytes the socket received decides how many boxes or packages are handed to the owner, and
whether the parser fails and the interface is reset; any number and both outcomes are events here.
-/

namespace Bdt

open Base

/-- The functions of the framework that get the socket. -/
inductive SocketCall where
  | connect
  | send
  | pause
  | resume
  | close (ifBreak : Bool)
  deriving DecidableEq, Repr

/-- What a function still has to do behind its section under the lock. -/
inductive SocketAction where
  | call (call : SocketCall)
  /-- `TcpInterfaceReleaseSocket`. -/
  | release
  /-- `TcpInterfaceGetOwner`, and a callback of the owner. -/
  | notifyOwner
  | releaseOwner (owner : Nat)
  /-- `Bdt_TcpInterfaceReset`, when the bytes received are not right. -/
  | reset
  deriving DecidableEq, Repr

/-- What was done to the socket, and to the references to the owners. -/
inductive SocketEntry where
  | call (call : SocketCall)
  /-- `BdtDestroyTcpSocket`. -/
  | destroy
  | addRefOwner (owner : Nat)
  | releaseOwner (owner : Nat)
  deriving DecidableEq, Repr

/-- The members of `Bdt_TcpInterface` that these functions use, the actions in flight, and what was
done. -/
structure TcpInterfaceSocket where
  state : TcpInterfaceState
  socketRefCount : Int := 1
  owner : Option Nat := none
  isCrypto : Bool := false
  inFlight : List (List SocketAction) := []
  history : List SocketEntry := []
  deriving DecidableEq, Repr

namespace TcpInterfaceSocket

/-! ## The sections under the lock -/

/-- The release of an owner that was taken out of the interface. -/
def releaseOld (owner : Option Nat) : List SocketAction :=
  (owner.map SocketAction.releaseOwner).toList

/-- `TcpInterfaceAddRefSocket`. -/
def addRefSocket (ti : TcpInterfaceSocket) : TcpInterfaceSocket :=
  { ti with socketRefCount := ti.socketRefCount + 1 }

/-- `Bdt_TcpInterfaceSetOwner`. -/
def setOwner (owner : Option Nat) (ti : TcpInterfaceSocket) :
    TcpInterfaceSocket × List SocketAction :=
  if ti.state = .closed then (ti, [])
  else
    ({ ti with
        owner := owner
        history := ti.history ++ (owner.map SocketEntry.addRefOwner).toList },
      releaseOld ti.owner)

/-- `Bdt_TcpInterfaceSetState`. -/
def setState (oldState newState : TcpInterfaceState) (ti : TcpInterfaceSocket) :
    TcpInterfaceSocket × List SocketAction :=
  if ti.state ≠ oldState then (ti, [])
  else
    ({ ti with state := newState }.addRefSocket,
      (if newState = .waitFirstResp then [.call .resume] else []) ++ [.release])

/-- `Bdt_TcpInterfaceClose`. -/
def close (ti : TcpInterfaceSocket) : TcpInterfaceSocket × List SocketAction :=
  if ti.state = .closed then (ti, [])
  else if ti.state = .stream then
    ({ ti with state := .streamClosing }.addRefSocket, [.call (.close false), .release])
  else
    ({ ti with state := .closed, owner := none }.addRefSocket,
      [.call (.close false), .release, .release] ++ releaseOld ti.owner)

/-- `Bdt_TcpInterfaceReset`. -/
def reset (ti : TcpInterfaceSocket) : TcpInterfaceSocket × List SocketAction :=
  if ti.state = .closed then (ti, [])
  else
    ({ ti with state := .closed, owner := none },
      releaseOld ti.owner ++ [.call (.close true), .release])

/-- `Bdt_TcpInterfaceConnect`. -/
def connect (ti : TcpInterfaceSocket) : TcpInterfaceSocket × List SocketAction :=
  if ti.state ≠ .none then (ti, [])
  else ({ ti with state := .connecting }.addRefSocket, [.call .connect, .release])

/-- `Bdt_TcpInterfaceSend`, `Bdt_TcpInterfacePause` and `Bdt_TcpInterfaceResume`. -/
def useSocket (call : SocketCall) (ti : TcpInterfaceSocket) :
    TcpInterfaceSocket × List SocketAction :=
  if ti.state = .closed then (ti, []) else (ti.addRefSocket, [.call call, .release])

/-- `BdtPushTcpSocketData`, of bytes that make so many boxes, or none that are right. -/
def pushData (boxes : Nat) (failed : Bool) (ti : TcpInterfaceSocket) :
    TcpInterfaceSocket × List SocketAction :=
  if ti.state = .stream ∧ ti.isCrypto = false then (ti, [.notifyOwner])
  else (ti, List.replicate boxes .notifyOwner ++ if failed then [.reset] else [])

/-- `BdtPushTcpSocketData`, of no bytes: the other side has closed. -/
def pushZero (ti : TcpInterfaceSocket) : TcpInterfaceSocket × List SocketAction :=
  if ti.state = .stream ∧ ti.isCrypto = false then (ti, [.notifyOwner])
  else if ti.state = .stream then ({ ti with state := .streamRecvClosed }, [.notifyOwner])
  else if ti.state = .streamClosing then
    ({ ti with state := .closed, owner := none }, .release :: releaseOld ti.owner)
  else (ti, [])

/-! ## The actions -/

/-- `TcpInterfaceReleaseSocket`. -/
def releaseSocket (ti : TcpInterfaceSocket) : TcpInterfaceSocket :=
  let ti := { ti with socketRefCount := ti.socketRefCount - 1 }
  if ti.socketRefCount ≤ 0 then { ti with history := ti.history ++ [.destroy] } else ti

/-- An action, and what it puts before the rest of its function. -/
def perform (ti : TcpInterfaceSocket) : SocketAction → TcpInterfaceSocket × List SocketAction
  | .call call => ({ ti with history := ti.history ++ [.call call] }, [])
  | .release => (ti.releaseSocket, [])
  | .notifyOwner =>
    match ti.owner with
    | some owner => ({ ti with history := ti.history ++ [.addRefOwner owner] }, [.releaseOwner owner])
    | none => (ti, [])
  | .releaseOwner owner => ({ ti with history := ti.history ++ [.releaseOwner owner] }, [])
  | .reset => ti.reset

end TcpInterfaceSocket

/-- What can happen to a tcp interface. -/
inductive SocketEvent where
  | setOwner (owner : Option Nat)
  | setState (oldState newState : TcpInterfaceState)
  /-- `Bdt_TcpInterfaceSetAesKey`. -/
  | setAesKey
  | connect
  | send
  | pause
  | resume
  | close
  | reset
  | data (boxes : Nat) (failed : Bool)
  | zeroLength
  /-- One of the functions in flight does its next action. -/
  | step (i : Nat)
  deriving DecidableEq, Repr

namespace TcpInterfaceSocket

/-- A function ends its section under the lock. -/
def begin (next : TcpInterfaceSocket × List SocketAction) : TcpInterfaceSocket :=
  { next.1 with inFlight := next.1.inFlight ++ [next.2] }

/-- The handler of an event; `none` when there is no such action. -/
def handle (ti : TcpInterfaceSocket) : SocketEvent → Option TcpInterfaceSocket
  | .setOwner owner => some (begin (ti.setOwner owner))
  | .setState oldState newState => some (begin (ti.setState oldState newState))
  | .setAesKey => some { ti with isCrypto := true }
  | .connect => some (begin ti.connect)
  | .send => some (begin (ti.useSocket .send))
  | .pause => some (begin (ti.useSocket .pause))
  | .resume => some (begin (ti.useSocket .resume))
  | .close => some (begin ti.close)
  | .reset => some (begin ti.reset)
  | .data boxes failed => some (begin (ti.pushData boxes failed))
  | .zeroLength => some (begin ti.pushZero)
  | .step i =>
    match ti.inFlight[i]? with
    | some (action :: rest) =>
      let (ti', more) := ti.perform action
      some { ti' with inFlight := advanceCall ti.inFlight i more rest }
    | _ => none

/-- `TcpInterfaceCreate`, of an interface that will connect. -/
def create : TcpInterfaceSocket where
  state := .none

/-- `TcpInterfaceCreate`, of a socket that was accepted. -/
def createPassive : TcpInterfaceSocket where
  state := .waitFirstPackage

end TcpInterfaceSocket

end Bdt
