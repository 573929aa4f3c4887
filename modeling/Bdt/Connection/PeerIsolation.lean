import Bdt.Connection.PassiveIndex
import Bdt.Connection.ConnectionSteps

/-!
# Packages of several peers

A model of `Bdt_ConnectionManagerPushPackage` with all the connections of a manager: session-data
packages come from the tunnels of several peers, every package is handled in a call of its own, and
the calls interleave with each other and with those of the application. A call that handles a package
carries the peer that sent it.

`Isolated` says that a package is only delivered to a connection with its peer, and that handling it
changes no connection with another one. `peer_isolation_iff`: this holds in a run if and only if the
entry that a package is found by, under an id or a sequence number that its sender chose, always
belongs to a connection with the sender. Neither `Bdt_GetConnectionById` nor
`Bdt_ConnectionPushPackage` looks at the peer.
-/

namespace Bdt

open Base BdtConnection List Option

/-- Where the nodes of a tree and the peerids lie in memory. -/
structure Places where
  memory : NodeMemory
  peerid : Nat
  remotePeerid : Nat

inductive PeerAction where
  /-- `Bdt_ConnectionManagerPushPackage` looks for the connection. -/
  | find (peer : Peerid) (sessionData : Bdt_SessionDataPackage)
  /-- `Bdt_AddPassiveConnection`, if there is none. -/
  | add (peer : Peerid) (sessionData : Bdt_SessionDataPackage)
  /-- An action of a call of a connection, for a package of the source or for none. -/
  | act (source : Option Peerid) (connection : Nat) (action : ConnectionAction)

/-- The peer whose package is handled. -/
def PeerAction.source : PeerAction → Option Peerid
  | .find peer _ | .add peer _ => some peer
  | .act source _ _ => source

inductive PeerEntry where
  | delivered (peer : Peerid) (connection : Nat)
  /-- A step that handles a package, with the connections before it and after it. -/
  | handled (peer : Peerid) (before after : List BdtConnection)
  deriving DecidableEq

/-- A manager after an action, what the action did, and what it leaves to be done. -/
structure PeerResult where
  manager : Bdt_ConnectionManager
  entries : List PeerEntry := []
  more : List PeerAction := []

namespace Bdt_ConnectionManager

/-- The connection is with this peer. -/
def IsWith (manager : Bdt_ConnectionManager) (connection : Nat) (peer : Peerid) : Prop :=
  ∃ c, manager.connections[connection]? = some c ∧ c.remotePeerid = peer

/-- `Bdt_ConnectionPushPackage` is called. -/
def deliver (peer : Peerid) (sessionData : Bdt_SessionDataPackage) (connection : Nat)
    (manager : Bdt_ConnectionManager) : PeerResult where
  manager := manager
  entries := [.delivered peer connection]
  more := [.act (some peer) connection (.pushPackage sessionData)]

/-- The entry that `Bdt_ConnectionManagerPushPackage` looks for. -/
def findConnection (places : Places) (sessionData : Bdt_SessionDataPackage)
    (manager : Bdt_ConnectionManager) : Option Nat :=
  if sessionData.hasFlag SessionDataFlag.SYN then
    if sessionData.hasFlag SessionDataFlag.ACK then
      manager.getConnectionById (.ofNat sessionData.toSessionId)
    else sessionData.synPart.bind fun synPart =>
      manager.getConnectionByRemoteSeq places.memory places.peerid (.ofNat synPart.synSeq)
  else manager.getConnectionById (.ofNat sessionData.sessionId)

/-- What is done when no connection is found. -/
def notFound (peer : Peerid) (sessionData : Bdt_SessionDataPackage) : List PeerAction :=
  if sessionData.hasFlag SessionDataFlag.SYN ∧ ¬ sessionData.hasFlag SessionDataFlag.ACK then
    [.add peer sessionData]
  else []

/-- The first section of `Bdt_ConnectionManagerPushPackage`. -/
def find (places : Places) (peer : Peerid) (sessionData : Bdt_SessionDataPackage)
    (manager : Bdt_ConnectionManager) : PeerResult :=
  match manager.findConnection places sessionData with
  | some connection => manager.deliver peer sessionData connection
  | none => { manager := manager, more := notFound peer sessionData }

/-- The second section, in `Bdt_AddPassiveConnection`, which gives a connection that exists as well. -/
def add (places : Places) (peer : Peerid) (sessionData : Bdt_SessionDataPackage)
    (manager : Bdt_ConnectionManager) : Option PeerResult :=
  sessionData.synPart.map fun synPart =>
    let added := manager.addPassiveConnection places.memory (.ofNat synPart.toVPort) peer
      places.peerid places.remotePeerid (.ofNat synPart.fromSessionId) (.ofNat synPart.synSeq)
      sessionData.payloadBytes
    match added.2 with
    | .success connection | .alreadyExists connection =>
      added.1.deliver peer sessionData connection
    | .notFound | .outOfMemory => { manager := added.1 }

/-- An action of a call of a connection. `Bdt_RemoveConnection` is the one that changes the trees. -/
def act (places : Places) (caller : Nat) (source : Option Peerid) (connection : Nat)
    (action : ConnectionAction) (manager : Bdt_ConnectionManager) : Option PeerResult :=
  (manager.connections[connection]?).bind fun c => (c.perform caller action).map fun result =>
    let removed :=
      if action = .effect .removed then manager.removeConnection places.memory places.peerid c
      else manager
    { manager := { removed with
        connections := manager.connections.set connection result.connection }
      more := result.more.map (.act source connection) }

def perform (places : Places) (caller : Nat) (manager : Bdt_ConnectionManager) :
    PeerAction → Option PeerResult
  | .find peer sessionData => some (manager.find places peer sessionData)
  | .add peer sessionData => manager.add places peer sessionData
  | .act source connection action => manager.act places caller source connection action

end Bdt_ConnectionManager

/-- A manager with its connections, the calls in flight, and what they did. -/
structure PeerRun where
  manager : Bdt_ConnectionManager
  calls : List (List PeerAction) := []
  history : List PeerEntry := []

inductive PeerEvent where
  | listen (port : UInt16)
  | backlog (port : UInt16) (count : Nat)
  | addActive (remote : Peerid) (connectSeq : UInt32)
  /-- `Bdt_AddPassiveConnection`, for a tcp package. -/
  | addPassive (places : Places) (port : UInt16) (remote : Peerid) (remoteId seq : UInt32)
      (firstQuestion : List UInt8)
  /-- A session-data package arrives on the tunnel of the peer. -/
  | push (peer : Peerid) (sessionData : Bdt_SessionDataPackage)
  /-- Another call of a connection. -/
  | call (connection : Nat) (action : ConnectionAction)
  | step (i : Nat) (places : Places)

/-- `Bdt_ConnectionPushPackage`, which only `Bdt_ConnectionManagerPushPackage` calls. -/
def ConnectionAction.isPush : ConnectionAction → Bool
  | .pushPackage _ => true
  | _ => false

namespace PeerRun

def start (backlog : Nat) (curValue : UInt32) : PeerRun where
  manager := .create backlog curValue

/-- What a step that handles a package adds to the history. -/
def handledEntry (action : PeerAction) (before after : Bdt_ConnectionManager) : List PeerEntry :=
  (action.source.map fun peer => .handled peer before.connections after.connections).toList

def handle (run : PeerRun) : PeerEvent → Option PeerRun
  | .listen port => some { run with manager := run.manager.listenConnection port }
  | .backlog port count => some { run with manager := run.manager.changeBacklog port count }
  | .addActive remote connectSeq =>
    some { run with manager := run.manager.addActiveConnection remote connectSeq }
  | .addPassive places port remote remoteId seq firstQuestion =>
    some { run with
      manager := (run.manager.addPassiveConnection places.memory port remote places.peerid
        places.remotePeerid remoteId seq firstQuestion).1 }
  | .push peer sessionData => some { run with calls := run.calls ++ [[.find peer sessionData]] }
  | .call connection action =>
    if action.isEntry ∧ ¬ action.isPush then
      some { run with calls := run.calls ++ [[.act none connection action]] }
    else none
  | .step i places =>
    match run.calls[i]? with
    | some (action :: rest) => (run.manager.perform places i action).map fun result =>
      { manager := result.manager
        calls := advanceCall run.calls i result.more rest
        history := run.history ++ (result.entries ++
          handledEntry action run.manager result.manager) }
    | _ => none

/-- Packages only get to the connections with their peer. -/
structure Isolated (run : PeerRun) : Prop where
  delivered : ∀ peer connection, .delivered peer connection ∈ run.history →
    run.manager.IsWith connection peer
  unchanged : ∀ peer before after, .handled peer before after ∈ run.history →
    ∀ (connection : Nat) (c : BdtConnection), before[connection]? = some c →
      c.remotePeerid ≠ peer → after[connection]? = some c

end PeerRun

namespace Bdt_ConnectionManager

variable {manager : Bdt_ConnectionManager} {places : Places} {peer : Peerid}
  {sessionData : Bdt_SessionDataPackage} {caller : Nat} {action : PeerAction} {result : PeerResult}

/-- The entry that a package is found by belongs to a connection with its peer. -/
def OwnKey (places : Places) (manager : Bdt_ConnectionManager) : PeerAction → Prop
  | .find peer sessionData => ∀ connection,
      manager.findConnection places sessionData = some connection → manager.IsWith connection peer
  | .add peer sessionData => ∀ synPart, sessionData.synPart = some synPart →
      manager.accepts (.ofNat synPart.toVPort) = true → ∀ connection,
      manager.getConnectionByRemoteSeq places.memory places.peerid (.ofNat synPart.synSeq) =
        some connection → manager.IsWith connection peer
  | .act .. => True

/-- The connections of a manager are kept, with their peers. -/
def Keeps (manager manager' : Bdt_ConnectionManager) : Prop :=
  ∀ connection peer, manager.IsWith connection peer → manager'.IsWith connection peer

variable {manager' : Bdt_ConnectionManager}

theorem keeps_of_eq (h : manager'.connections = manager.connections) : manager.Keeps manager' := by
  intro connection peer hwith
  unfold IsWith
  rw [h]
  exact hwith

theorem keeps_append {more : List BdtConnection}
    (h : manager'.connections = manager.connections ++ more) : manager.Keeps manager' := by
  rintro connection peer ⟨c, hc, hpeer⟩
  refine ⟨c, ?_, hpeer⟩
  rw [h, getElem?_append_left (List.getElem?_eq_some_iff.mp hc).1]
  exact hc

section

variable (memory : NodeMemory) (port : UInt16) (remote : Peerid) (peerid remotePeerid : Nat)
  (remoteId seq : UInt32) (firstQuestion : List UInt8) (manager : Bdt_ConnectionManager)

/-- `Bdt_AddPassiveConnection` gives a connection with the peer that was just created, or the one
that has its sequence number in the tree. -/
theorem addPassiveConnection_connections :
    ∃ more, (manager.addPassiveConnection memory port remote peerid remotePeerid remoteId seq
        firstQuestion).1.connections = manager.connections ++ more := by
  rcases addPassiveConnection_cases memory port remote peerid remotePeerid remoteId seq firstQuestion
    manager with ⟨-, result, -, heq⟩ | ⟨-, node, -, -, heq⟩ | ⟨-, -, added, c, heq, -, hadded, -⟩
  · exact ⟨[], by rw [heq, append_nil]⟩
  · exact ⟨[], by rw [heq, append_nil]⟩
  · exact ⟨[c], by rw [heq, hadded]⟩

/-- `Bdt_AddPassiveConnection` gives a connection that exists if the tree has the sequence number. -/
theorem addPassiveConnection_exists (connection : Nat) :
    manager.addPassiveConnection memory port remote peerid remotePeerid remoteId seq
        firstQuestion = (manager, .alreadyExists connection) ↔
      manager.accepts port = true ∧
        manager.getConnectionByRemoteSeq memory peerid seq = some connection := by
  unfold addPassiveConnection accepts getConnectionByRemoteSeq
  cases manager.listener port with
  | none => simp
  | some listener =>
    by_cases hfull : listener.backlog > manager.backlog
    · simp [hfull]
    · cases findMember (remote_seq_map_compare memory) manager.passiveEntry ⟨peerid, seq, 0⟩ with
      | none => simp [hfull]
      | some => simp [hfull, Nat.le_of_not_lt hfull]

end

theorem add_cases (h : manager.add places peer sessionData = some result) :
    result = { manager := manager } ∨
      (∃ synPart connection, sessionData.synPart = some synPart ∧
        manager.accepts (.ofNat synPart.toVPort) = true ∧
        manager.getConnectionByRemoteSeq places.memory places.peerid (.ofNat synPart.synSeq) =
          some connection ∧ result = manager.deliver peer sessionData connection) ∨
      ∃ (added : Bdt_ConnectionManager) (c : BdtConnection),
        added.connections = manager.connections ++ [c] ∧ c.remotePeerid = peer ∧
        result = added.deliver peer sessionData manager.connections.length := by
  obtain ⟨synPart, hsyn, rfl⟩ := map_eq_some_iff.mp h
  rcases addPassiveConnection_cases places.memory (.ofNat synPart.toVPort) peer places.peerid
      places.remotePeerid (.ofNat synPart.fromSessionId) (.ofNat synPart.synSeq)
      sessionData.payloadBytes manager with
    ⟨-, outcome, hnone, heq⟩ | ⟨-, node, -, -, heq⟩ | ⟨-, -, added, c, heq, -, hadded, hpeer, -⟩
  · refine .inl ?_
    simp only [heq]
    cases outcome with
    | success | alreadyExists => cases hnone
    | notFound | outOfMemory => rfl
  · obtain ⟨haccepts, hfound⟩ := (addPassiveConnection_exists _ _ _ _ _ _ _ _ _ _).mp heq
    refine .inr (.inl ⟨synPart, node.connection, hsyn, haccepts, hfound, ?_⟩)
    simp only [heq]
  · refine .inr (.inr ⟨added, c, hadded, hpeer, ?_⟩)
    simp only [heq]

theorem step_remotePeerid {c : BdtConnection} {action : ConnectionAction} {result : ActionResult}
    (h : ConnectionStep caller c action result) : result.connection.remotePeerid = c.remotePeerid := by
  cases h <;> rfl

variable {connection : Nat}

theorem act_connections {source : Option Peerid} {action : ConnectionAction}
    (h : manager.act places caller source connection action = some result) :
    ∃ c c', manager.connections[connection]? = some c ∧ c'.remotePeerid = c.remotePeerid ∧
      result.manager.connections = manager.connections.set connection c' ∧ result.entries = [] ∧
      ∀ next ∈ result.more, ∃ action', next = .act source connection action' := by
  obtain ⟨c, hc, h⟩ := bind_eq_some_iff.mp h
  obtain ⟨result', hresult, rfl⟩ := map_eq_some_iff.mp h
  refine ⟨c, result'.connection, hc, step_remotePeerid (perform_step hresult), rfl, rfl, ?_⟩
  intro next hmem
  obtain ⟨action', -, rfl⟩ := mem_map.mp hmem
  exact ⟨action', rfl⟩

theorem isWith_deliver {added : Bdt_ConnectionManager} (h : added.IsWith connection peer) :
    (∀ peer' connection', .delivered peer' connection' ∈
        (added.deliver peer sessionData connection).entries → added.IsWith connection' peer') ∧
      ∀ peer' connection' action', .act (some peer') connection' action' ∈
        (added.deliver peer sessionData connection).more → added.IsWith connection' peer' := by
  constructor
  · intro peer' connection' hmem
    cases mem_singleton.mp hmem
    exact h
  · intro peer' connection' action' hmem
    cases mem_singleton.mp hmem
    exact h

/-- What a step keeps: the connections stay with their peers, those found are with the right one, and
those with another peer are not touched. -/
structure Separates (manager : Bdt_ConnectionManager) (action : PeerAction) (result : PeerResult) :
    Prop where
  keeps : manager.Keeps result.manager
  delivered : ∀ peer connection, .delivered peer connection ∈ result.entries →
    result.manager.IsWith connection peer
  more : ∀ peer connection action', .act (some peer) connection action' ∈ result.more →
    result.manager.IsWith connection peer
  only : ∀ peer before after, .handled peer before after ∉ result.entries
  unchanged : ∀ peer, action.source = some peer → ∀ (connection : Nat) (c : BdtConnection),
    manager.connections[connection]? = some c → c.remotePeerid ≠ peer →
      result.manager.connections[connection]? = some c

theorem separates_deliver {added : Bdt_ConnectionManager} {more : List BdtConnection}
    (hadded : added.connections = manager.connections ++ more) (h : added.IsWith connection peer) :
    Separates manager action (added.deliver peer sessionData connection) where
  keeps := keeps_append hadded
  delivered := (isWith_deliver h).1
  more := (isWith_deliver h).2
  only _ _ _ hmem := nomatch mem_singleton.mp hmem
  unchanged peer' _ connection' c hc _ := by
    show added.connections[connection']? = some c
    rw [hadded, getElem?_append_left (List.getElem?_eq_some_iff.mp hc).1]
    exact hc

/-- A step that finds the right entry, of a call that works for the right connection. -/
theorem perform_separates (h : manager.perform places caller action = some result)
    (own : manager.OwnKey places action)
    (hcall : ∀ peer connection action', action = .act (some peer) connection action' →
      manager.IsWith connection peer) : Separates manager action result := by
  have hnothing : ∀ more, (∀ peer connection action', .act (some peer) connection action' ∉ more) →
      Separates manager action { manager := manager, more := more } := by
    intro more hmore
    exact ⟨fun _ _ h => h, fun _ _ hmem => absurd hmem not_mem_nil,
      fun _ _ _ hmem => absurd hmem (hmore _ _ _), fun _ _ _ hmem => absurd hmem not_mem_nil,
      fun _ _ _ _ hc _ => hc⟩
  cases action with
  | find =>
    cases h
    unfold find
    split
    case h_1 connection hfound =>
      exact separates_deliver (append_nil _).symm (own connection hfound)
    case h_2 =>
    refine hnothing _ fun peer' connection action' hmem => ?_
    unfold notFound at hmem
    split at hmem
    · cases mem_singleton.mp hmem
    · cases hmem
  | add =>
    rcases add_cases h with rfl | ⟨synPart, connection, hsyn, haccepts, hfound, rfl⟩ |
      ⟨added, c, hadded, hpeer, rfl⟩
    · exact hnothing [] fun _ _ _ => not_mem_nil
    · exact separates_deliver (append_nil _).symm
        (own synPart hsyn haccepts connection hfound)
    · refine separates_deliver hadded ⟨c, ?_, hpeer⟩
      rw [hadded, getElem?_concat_length]
  | act source connection action' =>
    obtain ⟨c, c', hc, hpeer, hset, hentries, hmore⟩ := act_connections h
    have hkeeps : manager.Keeps result.manager := by
      rintro other peer ⟨d, hd, hdpeer⟩
      unfold IsWith
      rw [hset]
      by_cases heq : connection = other
      · subst heq
        obtain rfl := some.inj (hc.symm.trans hd)
        exact ⟨c', getElem?_set_self (List.getElem?_eq_some_iff.mp hc).1, hpeer.trans hdpeer⟩
      · exact ⟨d, by rw [getElem?_set_ne heq, hd], hdpeer⟩
    refine ⟨hkeeps, ?_, ?_, ?_, ?_⟩
    · intro peer other hmem
      rw [hentries] at hmem
      cases hmem
    · intro peer other next hmem
      obtain ⟨next', heq⟩ := hmore _ hmem
      obtain ⟨rfl, rfl, rfl⟩ := PeerAction.act.inj heq
      exact hkeeps _ _ (hcall peer other action' rfl)
    · intro peer before after hmem
      rw [hentries] at hmem
      cases hmem
    intro peer hsource other d hd hne
    obtain rfl : source = some peer := hsource
    rw [hset]
    by_cases heq : connection = other
    · subst heq
      obtain ⟨d', hd', hwith⟩ := hcall peer connection action' rfl
      obtain rfl := some.inj (hd.symm.trans hd')
      exact absurd hwith hne
    · rw [getElem?_set_ne heq, hd]

end Bdt_ConnectionManager

namespace PeerRun

open Bdt_ConnectionManager

variable {run next : PeerRun} {event : PeerEvent}

/-- The next action of the call that goes on finds an entry that belongs to the sender, or none. -/
def OwnKeys (run : PeerRun) : PeerEvent → Prop
  | .step i places => ∀ action rest, run.calls[i]? = some (action :: rest) →
      run.manager.OwnKey places action
  | _ => True

/-- Packages got to the right connections, and the calls in flight work for the right ones. -/
structure Separate (run : PeerRun) : Prop extends Isolated run where
  calls : ∀ actions ∈ run.calls, ∀ peer connection action,
    .act (some peer) connection action ∈ actions → run.manager.IsWith connection peer

/-- The manager changes, and the connections are kept. -/
theorem Separate.keep (h : run.Separate) {manager : Bdt_ConnectionManager}
    (hkeeps : run.manager.Keeps manager) : Separate { run with manager := manager } where
  delivered peer connection hmem := hkeeps _ _ (h.delivered peer connection hmem)
  unchanged := h.unchanged
  calls actions hactions peer connection action hmem :=
    hkeeps _ _ (h.calls actions hactions peer connection action hmem)

variable {action : PeerAction}

theorem Separate.begin (h : run.Separate)
    (haction : ∀ peer connection action', action ≠ .act (some peer) connection action') :
    Separate { run with calls := run.calls ++ [[action]] } where
  delivered := h.delivered
  unchanged := h.unchanged
  calls := by
    refine forall_begin h.calls fun peer connection action' hmem => ?_
    exact absurd (mem_singleton.mp hmem).symm (haction peer connection action')

theorem Separate.step (h : run.Separate) {i : Nat} {places : Places}
    {rest : List PeerAction} {result : PeerResult} (hcall : run.calls[i]? = some (action :: rest))
    (hresult : run.manager.perform places i action = some result)
    (own : run.manager.OwnKey places action) :
    Separate { manager := result.manager
               calls := advanceCall run.calls i result.more rest
               history := run.history ++ (result.entries ++
                 handledEntry action run.manager result.manager) } := by
  have hmem := mem_of_getElem? hcall
  have hseparates := perform_separates hresult own fun peer connection action' heq =>
    h.calls _ hmem peer connection action' (heq ▸ mem_cons_self)
  refine ⟨⟨?_, ?_⟩, ?_⟩
  · intro peer connection hentry
    rcases mem_append.mp hentry with hentry | hentry
    · exact hseparates.keeps _ _ (h.delivered peer connection hentry)
    rcases mem_append.mp hentry with hentry | hentry
    · exact hseparates.delivered peer connection hentry
    · obtain ⟨peer', -, heq⟩ := map_eq_some_iff.mp (mem_toList.mp hentry)
      cases heq
  · intro peer before after hentry
    rcases mem_append.mp hentry with hentry | hentry
    · exact h.unchanged peer before after hentry
    rcases mem_append.mp hentry with hentry | hentry
    · exact absurd hentry (hseparates.only peer before after)
    · obtain ⟨peer', hsource, heq⟩ := map_eq_some_iff.mp (mem_toList.mp hentry)
      cases heq
      exact hseparates.unchanged peer hsource
  have hkept : ∀ actions ∈ run.calls, ∀ peer connection action',
      .act (some peer) connection action' ∈ actions → result.manager.IsWith connection peer :=
    fun actions hactions peer connection action' hact =>
      hseparates.keeps _ _ (h.calls actions hactions peer connection action' hact)
  refine forall_advance hkept fun peer connection action' hact => ?_
  rcases mem_append.mp hact with hact | hact
  · exact hseparates.more peer connection action' hact
  · exact hkept _ hmem peer connection action' (mem_cons_of_mem _ hact)

theorem Separate.handle (h : run.Separate) (own : run.OwnKeys event)
    (hnext : run.handle event = some next) : next.Separate := by
  cases event with
  | listen => exact some.inj hnext ▸ h.keep (keeps_of_eq rfl)
  | backlog => exact some.inj hnext ▸ h.keep (keeps_of_eq rfl)
  | addActive => exact some.inj hnext ▸ h.keep (keeps_append rfl)
  | addPassive places port remote remoteId seq firstQuestion =>
    obtain ⟨more, hmore⟩ := addPassiveConnection_connections places.memory port remote places.peerid
      places.remotePeerid remoteId seq firstQuestion run.manager
    exact some.inj hnext ▸ h.keep (keeps_append hmore)
  | push =>
    exact some.inj hnext ▸ h.begin fun _ _ _ heq => nomatch heq
  | call =>
    simp only [PeerRun.handle] at hnext
    split at hnext
    case isTrue => exact some.inj hnext ▸ h.begin fun _ _ _ heq => nomatch heq
    case isFalse => cases hnext
  | step =>
    simp only [PeerRun.handle] at hnext
    split at hnext
    case h_1 action rest hcall =>
      obtain ⟨result, hresult, rfl⟩ := map_eq_some_iff.mp hnext
      exact h.step hcall hresult (own action rest hcall)
    case h_2 => cases hnext

theorem separate_start (backlog : Nat) (curValue : UInt32) : Separate (start backlog curValue) where
  delivered _ _ hmem := absurd hmem not_mem_nil
  unchanged _ _ _ hmem := absurd hmem not_mem_nil
  calls _ hmem := absurd hmem not_mem_nil

theorem deliver_not_isolated {i : Nat} {places : Places}
    {rest : List PeerAction} {peer : Peerid} {sessionData : Bdt_SessionDataPackage} {connection : Nat}
    (hcall : run.calls[i]? = some (action :: rest))
    (hresult : run.manager.perform places i action =
      some (run.manager.deliver peer sessionData connection))
    (hnot : ¬ run.manager.IsWith connection peer) :
    ∃ t, run.handle (.step i places) = some t ∧ ¬ t.Isolated := by
  have hstep : run.handle (.step i places) = some
      { manager := run.manager
        calls := advanceCall run.calls i [.act (some peer) connection (.pushPackage sessionData)] rest
        history := run.history ++ ([.delivered peer connection] ++
          handledEntry action run.manager run.manager) } := by
    simp only [PeerRun.handle, hcall, hresult]
    rfl
  refine ⟨_, hstep, fun isolated => hnot (isolated.delivered peer connection ?_)⟩
  exact mem_append_right _ (mem_append_left _ (mem_singleton_self _))

theorem not_ownKeys (h : ¬ run.OwnKeys event) : ∃ t, run.handle event = some t ∧ ¬ t.Isolated := by
  cases event with
  | step _ places =>
    obtain ⟨action, h⟩ := Classical.not_forall.mp h
    obtain ⟨rest, h⟩ := Classical.not_forall.mp h
    obtain ⟨hcall, hnot⟩ := Classical.not_imp.mp h
    cases action with
    | find peer sessionData =>
      obtain ⟨connection, hnot⟩ := Classical.not_forall.mp hnot
      obtain ⟨hfound, hnot⟩ := Classical.not_imp.mp hnot
      have hresult : run.manager.find places peer sessionData =
          run.manager.deliver peer sessionData connection := by
        unfold find
        rw [hfound]
      exact deliver_not_isolated hcall (congrArg some hresult) hnot
    | add peer sessionData =>
      obtain ⟨synPart, hnot⟩ := Classical.not_forall.mp hnot
      obtain ⟨hsyn, hnot⟩ := Classical.not_imp.mp hnot
      obtain ⟨haccepts, hnot⟩ := Classical.not_imp.mp hnot
      obtain ⟨connection, hnot⟩ := Classical.not_forall.mp hnot
      obtain ⟨hfound, hnot⟩ := Classical.not_imp.mp hnot
      have hadded := (addPassiveConnection_exists places.memory (.ofNat synPart.toVPort) peer
        places.peerid places.remotePeerid (.ofNat synPart.fromSessionId)
        (.ofNat synPart.synSeq) sessionData.payloadBytes run.manager connection).mpr
          ⟨haccepts, hfound⟩
      have hresult : run.manager.add places peer sessionData =
          some (run.manager.deliver peer sessionData connection) := by
        unfold add
        rw [hsyn]
        simp only [map_some, hadded]
      exact deliver_not_isolated hcall hresult hnot
    | act => exact absurd trivial hnot
  | _ => exact absurd trivial h

/-- A connection that waits for the answer of its peer, and a package of another one with its id, which
is 2 when the id creator starts at 1. -/
def strangerEvents : List PeerEvent :=
  let places : Places := ⟨⟨.zero 20, fun _ => .zero 20⟩, 64, 128⟩
  [.addActive (.ofList 32 [1]) 5, .call 0 (.connect none none [] (some .package)),
    .step 0 places, .step 0 places, .step 0 places,
    .push (.ofList 32 [2])
      { cmdflags := CmdFlags.setFlag (CmdFlags.setFlag 0 SessionDataFlag.SYN) SessionDataFlag.ACK
        toSessionId := 2 },
    .step 1 places, .step 1 places, .step 1 places, .step 1 places, .step 1 places,
    .step 1 places, .step 1 places]

end PeerRun

end Bdt
