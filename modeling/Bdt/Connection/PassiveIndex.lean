import Bdt.Base.History
import Bdt.Base.Transition
import Bdt.Connection.ConnectionManager

/-!
# The index of the passive connections

A run of the connection manager, with the history of what `Bdt_AddPassiveConnection` and
`Bdt_RemoveConnection` did and what `Bdt_GetConnectionByRemoteSeq` answered. `Live` says that a
connection was added for a peerid and a sequence number and not removed since.

`passive_index_iff`: the answers are the live connections of the peer that is asked for, and every
live connection is found, in every run in which no two peers use one sequence number at a time and
no connection is removed while another one has its place; and in no other run.
-/

namespace Bdt

open Base List

/-! ## Runs of the manager -/

inductive IndexEntry where
  | added (connection : Nat) (remote : Peerid) (seq : UInt32)
  /-- The peer is given a connection that exists already. -/
  | refused (remote : Peerid) (seq : UInt32) (connection : Nat)
  | removed (connection : Nat)
  | found (remote : Peerid) (seq : UInt32) (connection : Option Nat)
  deriving DecidableEq

inductive ManagerEvent where
  | listen (port : UInt16)
  | backlog (port : UInt16) (count : Nat)
  | addActive (remote : Peerid) (connectSeq : UInt32)
  | addPassive (memory : NodeMemory) (port : UInt16) (remote : Peerid) (peerid remotePeerid : Nat)
      (remoteId seq : UInt32) (firstQuestion : List UInt8)
  | remove (memory : NodeMemory) (peerid connection : Nat)
  | lookup (memory : NodeMemory) (remote : Peerid) (peerid : Nat) (seq : UInt32)

/-- A manager, and what was done with its passive connections. -/
structure ManagerRun where
  manager : Bdt_ConnectionManager
  history : List IndexEntry

/-- What a result of `Bdt_AddPassiveConnection` adds to the history. -/
def AddPassiveResult.entries (remote : Peerid) (seq : UInt32) : AddPassiveResult → List IndexEntry
  | .success connection => [.added connection remote seq]
  | .alreadyExists connection => [.refused remote seq connection]
  | .notFound | .outOfMemory => []

namespace ManagerRun

def start (backlog : Nat) (curValue : UInt32) : ManagerRun where
  manager := .create backlog curValue
  history := []

/-- One call. Only a connection that was created can be removed. -/
def handle (run : ManagerRun) : ManagerEvent → Option ManagerRun
  | .listen port => some { run with manager := run.manager.listenConnection port }
  | .backlog port count => some { run with manager := run.manager.changeBacklog port count }
  | .addActive remote connectSeq =>
    some { run with manager := run.manager.addActiveConnection remote connectSeq }
  | .addPassive memory port remote peerid remotePeerid remoteId seq firstQuestion =>
    let added := run.manager.addPassiveConnection memory port remote peerid remotePeerid remoteId
      seq firstQuestion
    some ⟨added.1, run.history ++ added.2.entries remote seq⟩
  | .remove memory peerid connection =>
    (run.manager.connections[connection]?).map fun c =>
      ⟨run.manager.removeConnection memory peerid c, run.history ++ [.removed connection]⟩
  | .lookup memory remote peerid seq =>
    some { run with history := run.history ++
      [.found remote seq (run.manager.getConnectionByRemoteSeq memory peerid seq)] }

end ManagerRun

/-! ## What the index is for -/

/-- The connection was added for the key, and not removed since. -/
def Live (history : List IndexEntry) (connection : Nat) (remote : Peerid) (seq : UInt32) : Prop :=
  ∃ front back, history = front ++ .added connection remote seq :: back ∧ .removed connection ∉ back

/-- An answer is right after what was done before it. -/
def Answered (front : List IndexEntry) : IndexEntry → Prop
  | .found remote seq result => ∀ connection, result = some connection ↔ Live front connection remote seq
  | .refused remote seq connection => Live front connection remote seq
  | .added .. | .removed _ => True

/-- The index does what it is for. -/
structure Indexed (run : ManagerRun) : Prop where
  answered : Justified Answered run.history
  found : ∀ connection remote seq, Live run.history connection remote seq → ∀ memory peerid,
    run.manager.getConnectionByRemoteSeq memory peerid seq = some connection
  single : ∀ connection other remote seq, Live run.history connection remote seq →
    Live run.history other remote seq → connection = other

variable {history : List IndexEntry} {connection : Nat} {remote : Peerid} {seq : UInt32}

theorem Live.added (h : Live history connection remote seq) :
    .added connection remote seq ∈ history := by
  obtain ⟨front, back, rfl, -⟩ := h
  exact mem_append_right front mem_cons_self

/-- A connection stays live as long as it is not removed. -/
theorem Live.append (h : Live history connection remote seq) {more : List IndexEntry}
    (hmore : .removed connection ∉ more) : Live (history ++ more) connection remote seq := by
  obtain ⟨front, back, rfl, hback⟩ := h
  refine ⟨front, back ++ more, by rw [append_assoc, cons_append], fun hmem => ?_⟩
  exact (mem_append.mp hmem).elim hback hmore

theorem live_added (history : List IndexEntry) (connection : Nat) (remote : Peerid) (seq : UInt32) :
    Live (history ++ [.added connection remote seq]) connection remote seq :=
  ⟨history, [], rfl, not_mem_nil⟩

theorem live_concat {entry : IndexEntry} (h : Live (history ++ [entry]) connection remote seq) :
    Live history connection remote seq ∧ entry ≠ .removed connection ∨
      entry = .added connection remote seq := by
  obtain ⟨front, back, heq, hback⟩ := h
  rcases eq_nil_or_concat back with rfl | ⟨back, last, rfl⟩
  · exact .inr (append_inj_right' heq rfl |> cons.inj).1
  rw [concat_eq_append, ← cons_append, ← append_assoc] at heq
  obtain ⟨hfront, hlast⟩ := append_inj' heq rfl
  rw [concat_eq_append, mem_append, not_or] at hback
  refine .inl ⟨⟨front, back, hfront, hback.1⟩, ?_⟩
  rw [singleton_inj.mp hlast]
  exact fun h => hback.2 (mem_singleton.mpr h.symm)

namespace Bdt_ConnectionManager

variable {manager : Bdt_ConnectionManager}

/-- A passive connection with this peer and this sequence number. -/
def Names (manager : Bdt_ConnectionManager) (connection : Nat) (remote : Peerid) (seq : UInt32) :
    Prop :=
  ∃ c, manager.connections[connection]? = some c ∧ c.remotePeerid = remote ∧ c.connectSeq = seq ∧
    c.passive = true

/-- The connections that have the sequence number in the index are with this peer. -/
def SamePeer (manager : Bdt_ConnectionManager) (remote : Peerid) (seq : UInt32) : Prop :=
  ∀ node ∈ manager.passiveEntry, node.seq = seq →
    ∃ c, manager.connections[node.connection]? = some c ∧ c.remotePeerid = remote

/-- The connection that is removed does not give its sequence number to another one. -/
def OwnPlace (manager : Bdt_ConnectionManager) (connection : Nat) (c : BdtConnection) : Prop :=
  c.passive = true →
    ∀ node ∈ manager.passiveEntry, node.seq = c.connectSeq → node.connection = connection

theorem modify_last (f : BdtConnection → BdtConnection) (connections : List BdtConnection)
    (c : BdtConnection) :
    (connections ++ [c]).modify connections.length f = connections ++ [f c] := by
  induction connections with
  | nil => rfl
  | cons first _ ih => exact congrArg (first :: ·) ih

/-- The three ways that `Bdt_AddPassiveConnection` can go. -/
theorem addPassiveConnection_cases (memory : NodeMemory) (port : UInt16) (remote : Peerid)
    (peerid remotePeerid : Nat) (remoteId seq : UInt32) (firstQuestion : List UInt8)
    (manager : Bdt_ConnectionManager) :
    (manager.accepts port = false ∧ ∃ result, result.entries remote seq = [] ∧
      manager.addPassiveConnection memory port remote peerid remotePeerid remoteId seq
        firstQuestion = (manager, result)) ∨
    (manager.accepts port = true ∧ ∃ node ∈ manager.passiveEntry, node.seq = seq ∧
      manager.addPassiveConnection memory port remote peerid remotePeerid remoteId seq
        firstQuestion = (manager, .alreadyExists node.connection)) ∨
    (manager.accepts port = true ∧ (∀ node ∈ manager.passiveEntry, node.seq ≠ seq) ∧
      ∃ added c, manager.addPassiveConnection memory port remote peerid remotePeerid remoteId seq
          firstQuestion = (added, .success manager.connections.length) ∧
        added.passiveEntry = ⟨remotePeerid, seq, manager.connections.length⟩ :: manager.passiveEntry ∧
        added.connections = manager.connections ++ [c] ∧ c.remotePeerid = remote ∧
        c.connectSeq = seq ∧ c.passive = true) := by
  unfold addPassiveConnection accepts
  cases hlistener : manager.listener port with
  | none => exact .inl ⟨rfl, _, rfl, rfl⟩
  | some listener =>
    by_cases hfull : listener.backlog > manager.backlog
    · refine .inl ⟨?_, .outOfMemory, rfl, if_pos hfull⟩
      simp only [Option.any_some, decide_eq_false_iff_not]
      omega
    have hroom : (Option.some listener).any (fun l => decide (l.backlog ≤ manager.backlog)) = true :=
      decide_eq_true (Nat.le_of_not_lt hfull)
    simp only [if_neg hfull]
    cases hfound : findMember (remote_seq_map_compare memory) manager.passiveEntry
        ⟨peerid, seq, 0⟩ with
    | some node =>
      obtain ⟨hmem, hkey⟩ := findMember_mem (remote_seq_comparesBy memory) hfound
      exact .inr (.inl ⟨hroom, node, hmem, hkey.symm, rfl⟩)
    | none =>
      have hnone := (findMember_eq_none (remote_seq_comparesBy memory)).mp hfound
      refine .inr (.inr ⟨hroom, fun node hmem h => hnone node hmem h.symm, _,
        (ConnectionCreate remote (uint32IdCreatorNext manager.curValue) seq remoteId
          true).setFirstQuestion firstQuestion, rfl, rfl, ?_, rfl, rfl, rfl⟩)
      exact modify_last ..

theorem Names.append (h : manager.Names connection remote seq) {added : Bdt_ConnectionManager}
    {more : List BdtConnection} (heq : added.connections = manager.connections ++ more) :
    added.Names connection remote seq := by
  obtain ⟨c, hc, hrest⟩ := h
  exact ⟨c, by rw [heq, List.getElem?_append_left (List.getElem?_eq_some_iff.mp hc).1, hc], hrest⟩

end Bdt_ConnectionManager

namespace ManagerRun

open Bdt_ConnectionManager

variable {run next : ManagerRun}

/-- What holds of the tree in every run: its nodes are live connections, with different sequence
numbers. -/
structure TreeInvariant (run : ManagerRun) : Prop where
  keys : (run.manager.passiveEntry.map (·.seq)).Nodup
  nodes : ∀ node ∈ run.manager.passiveEntry, ∃ remote,
    run.manager.Names node.connection remote node.seq ∧
      Live run.history node.connection remote node.seq
  added : ∀ connection remote seq, .added connection remote seq ∈ run.history →
    run.manager.Names connection remote seq
  removed : ∀ connection, .removed connection ∈ run.history →
    connection < run.manager.connections.length

/-- The call does not confuse connections: no other peer has the sequence number that is added or
looked up, and no other connection has that of the connection that is removed. -/
def Distinct (run : ManagerRun) : ManagerEvent → Prop
  | .addPassive _ port remote _ _ _ seq _ =>
    run.manager.accepts port = true → run.manager.SamePeer remote seq
  | .lookup _ remote _ seq => run.manager.SamePeer remote seq
  | .remove _ _ connection => ∀ c, run.manager.connections[connection]? = some c →
      run.manager.OwnPlace connection c
  | .listen _ | .backlog .. | .addActive .. => True

/-- A live connection is named by its peer and its sequence number. -/
theorem TreeInvariant.names (inv : TreeInvariant run) (h : Live run.history connection remote seq) :
    run.manager.Names connection remote seq :=
  inv.added connection remote seq h.added

variable {manager : Bdt_ConnectionManager} {node : BdtRemoteSeqConnectionMap}

theorem lookup_node {memory : NodeMemory} {peerid : Nat}
    (h : manager.getConnectionByRemoteSeq memory peerid seq = some connection) :
    ∃ node ∈ manager.passiveEntry, node.seq = seq ∧ node.connection = connection := by
  obtain ⟨node, hfound, rfl⟩ := Option.map_eq_some_iff.mp h
  obtain ⟨hmem, hkey⟩ := findMember_mem (remote_seq_comparesBy memory) hfound
  exact ⟨node, hmem, hkey.symm, rfl⟩

section

variable (inv : TreeInvariant run)
include inv

/-- A node of the tree is what a lookup of its sequence number answers, whatever the peer. -/
theorem TreeInvariant.lookup
    (hmem : node ∈ run.manager.passiveEntry) (memory : NodeMemory) (peerid : Nat) :
    run.manager.getConnectionByRemoteSeq memory peerid node.seq = some node.connection := by
  have hfound : findMember (remote_seq_map_compare memory) run.manager.passiveEntry
      ⟨peerid, node.seq, 0⟩ = some node :=
    (findMember_eq_some (remote_seq_comparesBy memory) inv.keys).mpr ⟨hmem, rfl⟩
  exact congrArg (Option.map (·.connection)) hfound

theorem TreeInvariant.live_of_samePeer (hsame : run.manager.SamePeer remote seq)
    (hmem : node ∈ run.manager.passiveEntry) (hseq : node.seq = seq) :
    Live run.history node.connection remote seq := by
  obtain ⟨remote', hnames, hlive⟩ := inv.nodes node hmem
  obtain ⟨c, hc, hremote⟩ := hsame node hmem hseq
  obtain ⟨c', hc', hremote', -⟩ := hnames
  obtain rfl := Option.some.inj (hc.symm.trans hc')
  exact hseq ▸ (hremote.symm.trans hremote') ▸ hlive

/-! ## One call -/

theorem TreeInvariant.frame
    (more : List BdtConnection) (htree : manager.passiveEntry = run.manager.passiveEntry)
    (hconnections : manager.connections = run.manager.connections ++ more) :
    TreeInvariant { run with manager := manager } where
  keys := by rw [htree]; exact inv.keys
  nodes := by
    intro node hnode
    rw [htree] at hnode
    obtain ⟨remote, hnames, hlive⟩ := inv.nodes node hnode
    exact ⟨remote, hnames.append hconnections, hlive⟩
  added := fun connection remote seq h => (inv.added connection remote seq h).append hconnections
  removed := by
    intro connection h
    rw [hconnections, length_append]
    exact Nat.lt_add_right _ (inv.removed connection h)

theorem TreeInvariant.answer {entry : IndexEntry}
    (hadded : ∀ connection remote seq, entry ≠ .added connection remote seq)
    (hremoved : ∀ connection, entry ≠ .removed connection) :
    TreeInvariant { run with history := run.history ++ [entry] } where
  keys := inv.keys
  nodes := by
    intro node hnode
    obtain ⟨remote, hnames, hlive⟩ := inv.nodes node hnode
    exact ⟨remote, hnames, hlive.append fun h => hremoved _ (mem_singleton.mp h).symm⟩
  added := fun connection remote seq h => inv.added connection remote seq
    ((mem_append.mp h).resolve_right fun h => hadded _ _ _ (mem_singleton.mp h).symm)
  removed := fun connection h => inv.removed connection
    ((mem_append.mp h).resolve_right fun h => hremoved _ (mem_singleton.mp h).symm)

theorem TreeInvariant.insert (hnew : ∀ node ∈ run.manager.passiveEntry, node.seq ≠ seq)
    {remotePeerid : Nat} {c : BdtConnection}
    (htree : manager.passiveEntry =
      ⟨remotePeerid, seq, run.manager.connections.length⟩ :: run.manager.passiveEntry)
    (hconnections : manager.connections = run.manager.connections ++ [c])
    (hremote : c.remotePeerid = remote) (hseq : c.connectSeq = seq) (hpassive : c.passive = true) :
    TreeInvariant ⟨manager, run.history ++ [.added run.manager.connections.length remote seq]⟩ := by
  have hnames : manager.Names run.manager.connections.length remote seq :=
    ⟨c, by rw [hconnections, List.getElem?_concat_length], hremote, hseq, hpassive⟩
  have hlength : manager.connections.length = run.manager.connections.length + 1 := by
    rw [hconnections, length_append, length_singleton]
  constructor
  · rw [htree, map_cons, List.nodup_cons]
    refine ⟨fun h => ?_, inv.keys⟩
    obtain ⟨node, hnode, heq⟩ := List.mem_map.mp h
    exact hnew node hnode heq
  · intro node hnode
    rw [htree] at hnode
    rcases mem_cons.mp hnode with rfl | hnode
    · exact ⟨remote, hnames, live_added ..⟩
    · obtain ⟨other, hother, hlive⟩ := inv.nodes node hnode
      exact ⟨other, hother.append hconnections, hlive.append fun h => nomatch mem_singleton.mp h⟩
  · intro connection other seq' h
    rcases mem_concat.mp h with h | h
    · exact (inv.added connection other seq' h).append hconnections
    · obtain ⟨rfl, rfl, rfl⟩ := IndexEntry.added.inj h
      exact hnames
  intro connection h
  rcases mem_concat.mp h with h | h
  · exact hlength ▸ Nat.lt_succ_of_lt (inv.removed connection h)
  · cases h

theorem mem_removeConnection (memory : NodeMemory) (peerid : Nat) (c : BdtConnection) :
    node ∈ (run.manager.removeConnection memory peerid c).passiveEntry ↔
      node ∈ run.manager.passiveEntry ∧ ¬ (c.passive = true ∧ node.seq = c.connectSeq) := by
  unfold removeConnection
  cases hpassive : c.passive with
  | false => exact ⟨fun h => ⟨h, fun h => nomatch h.1⟩, fun h => h.1⟩
  | true =>
    refine (mem_delete (remote_seq_comparesBy memory) inv.keys).trans (and_congr_right fun _ => ?_)
    exact ⟨fun h h' => h h'.2.symm, fun h h' => h ⟨rfl, h'.symm⟩⟩

theorem TreeInvariant.remove (memory : NodeMemory) (peerid : Nat)
    {c : BdtConnection} (hc : run.manager.connections[connection]? = some c) :
    TreeInvariant ⟨run.manager.removeConnection memory peerid c,
      run.history ++ [.removed connection]⟩ where
  keys := by
    unfold removeConnection
    split
    case isTrue => exact nodup_delete inv.keys
    case isFalse => exact inv.keys
  nodes := by
    intro node hnode
    obtain ⟨hnode, hkept⟩ := (mem_removeConnection inv memory peerid c).mp hnode
    obtain ⟨remote, hnames, hlive⟩ := inv.nodes node hnode
    refine ⟨remote, hnames, hlive.append fun h => hkept ?_⟩
    -- the node of the connection itself is deleted
    obtain ⟨c', hc', -, hseq, hpassive⟩ := hnames
    rw [IndexEntry.removed.inj (mem_singleton.mp h), hc] at hc'
    cases hc'
    exact ⟨hpassive, hseq.symm⟩
  added := fun other remote seq h => inv.added other remote seq
    ((mem_append.mp h).resolve_right fun h => nomatch mem_singleton.mp h)
  removed := by
    intro other h
    rcases mem_concat.mp h with h | h
    · exact inv.removed other h
    · rw [IndexEntry.removed.inj h]
      exact (List.getElem?_eq_some_iff.mp hc).1

end

variable {event : ManagerEvent}

theorem TreeInvariant.step (inv : TreeInvariant run)
    (h : run.handle event = some next) : TreeInvariant next := by
  cases event with
  | listen =>
    cases h
    exact inv.frame [] rfl (append_nil _).symm
  | backlog =>
    cases h
    exact inv.frame [] rfl (append_nil _).symm
  | addActive =>
    cases h
    exact inv.frame _ rfl rfl
  | addPassive memory port remote peerid remotePeerid remoteId seq firstQuestion =>
    cases h
    obtain ⟨-, result, hentries, heq⟩ | ⟨-, node, -, -, heq⟩ |
      ⟨-, hnew, manager, c, heq, htree, hconnections, hremote, hseq, hpassive⟩ :=
      run.manager.addPassiveConnection_cases memory port remote peerid remotePeerid remoteId seq
        firstQuestion
    · rw [heq, hentries, append_nil]
      exact inv
    · rw [heq]
      exact inv.answer (fun _ _ _ h => nomatch h) fun _ h => nomatch h
    · rw [heq]
      exact inv.insert hnew htree hconnections hremote hseq hpassive
  | remove memory peerid =>
    obtain ⟨c, hc, rfl⟩ := Option.map_eq_some_iff.mp h
    exact inv.remove memory peerid hc
  | lookup =>
    cases h
    exact inv.answer (fun _ _ _ h => nomatch h) fun _ h => nomatch h

theorem treeInvariant_start (backlog : Nat) (curValue : UInt32) :
    TreeInvariant (start backlog curValue) where
  keys := nodup_nil
  nodes := fun _ h => absurd h not_mem_nil
  added := fun _ _ _ h => absurd h not_mem_nil
  removed := fun _ h => absurd h not_mem_nil

/-! ## Runs that confuse no connections -/

/-- The answers so far were right, and the live connections are in the tree. -/
structure IndexInvariant (run : ManagerRun) : Prop where
  tree : TreeInvariant run
  answered : Justified Answered run.history
  indexed : ∀ connection remote seq, Live run.history connection remote seq →
    ∃ node ∈ run.manager.passiveEntry, node.connection = connection ∧ node.seq = seq

theorem IndexInvariant.good (inv : IndexInvariant run) : Indexed run where
  answered := inv.answered
  found := by
    intro connection remote seq hlive memory peerid
    obtain ⟨node, hnode, rfl, rfl⟩ := inv.indexed connection remote seq hlive
    exact inv.tree.lookup hnode memory peerid
  single := by
    intro connection other remote seq hlive hother
    obtain ⟨node, hnode, rfl, hseq⟩ := inv.indexed connection remote seq hlive
    obtain ⟨node', hnode', rfl, hseq'⟩ := inv.indexed other remote seq hother
    rw [eq_of_key inv.tree.keys hnode hnode' (hseq.trans hseq'.symm)]

/-- A call that confuses no connections keeps the index right. -/
theorem IndexInvariant.step (inv : IndexInvariant run)
    (hok : run.Distinct event) (h : run.handle event = some next) : IndexInvariant next := by
  have htree := inv.tree.step h
  cases event with
  | listen | backlog | addActive =>
    cases h
    exact ⟨htree, inv.answered, inv.indexed⟩
  | addPassive memory port remote peerid remotePeerid remoteId seq firstQuestion =>
    cases h
    obtain ⟨-, result, hentries, heq⟩ | ⟨haccepts, node, hnode, hseq, heq⟩ |
      ⟨-, hnew, manager, c, heq, htree', -⟩ :=
      run.manager.addPassiveConnection_cases memory port remote peerid remotePeerid remoteId seq
        firstQuestion
    · rw [heq, hentries, append_nil]
      exact inv
    · rw [heq] at htree ⊢
      refine ⟨htree, inv.answered.concat ?_, fun other remote' seq' hlive => ?_⟩
      · exact inv.tree.live_of_samePeer (hok haccepts) hnode hseq
      · exact inv.indexed other remote' seq'
          ((live_concat hlive).resolve_right fun h => nomatch h).1
    rw [heq] at htree ⊢
    refine ⟨htree, inv.answered.concat trivial, fun other remote' seq' hlive => ?_⟩
    simp only [htree']
    rcases live_concat hlive with ⟨hlive, -⟩ | hadded
    · obtain ⟨node, hnode, hplace⟩ := inv.indexed other remote' seq' hlive
      exact ⟨node, mem_cons_of_mem _ hnode, hplace⟩
    · obtain ⟨rfl, rfl, rfl⟩ := IndexEntry.added.inj hadded
      exact ⟨_, mem_cons_self, rfl, rfl⟩
  | remove memory peerid =>
    obtain ⟨c, hc, rfl⟩ := Option.map_eq_some_iff.mp h
    refine ⟨htree, inv.answered.concat trivial, fun other remote' seq' hlive => ?_⟩
    obtain ⟨hlive, hother⟩ := (live_concat hlive).resolve_right fun h => nomatch h
    obtain ⟨node, hnode, rfl, hseq⟩ := inv.indexed other remote' seq' hlive
    refine ⟨node, (mem_removeConnection inv.tree memory peerid c).mpr ⟨hnode, fun hgone => ?_⟩,
      rfl, hseq⟩
    exact hother (congrArg IndexEntry.removed (hok c hc hgone.1 node hnode hgone.2).symm)
  | lookup memory remote peerid seq =>
    cases h
    refine ⟨htree, inv.answered.concat fun connection => ⟨fun hanswer => ?_, fun hlive => ?_⟩,
      fun other remote' seq' hlive => ?_⟩
    · obtain ⟨node, hnode, hseq, rfl⟩ := lookup_node hanswer
      exact inv.tree.live_of_samePeer hok hnode hseq
    · exact inv.good.found connection remote seq hlive memory peerid
    · exact inv.indexed other remote' seq' ((live_concat hlive).resolve_right fun h => nomatch h).1

/-- Two peers have one sequence number: the connection of one is the answer to the other. -/
theorem answered_wrong (inv : TreeInvariant run) (h : ¬ run.manager.SamePeer remote seq) :
    ∃ node ∈ run.manager.passiveEntry, node.seq = seq ∧
      ¬ Live run.history node.connection remote seq := by
  unfold SamePeer at h
  push Not at h
  obtain ⟨node, hnode, hseq, hother⟩ := h
  refine ⟨node, hnode, hseq, fun hlive => ?_⟩
  obtain ⟨c, hc, hremote, -⟩ := inv.names hlive
  exact hother c hc hremote

/-- A call that confuses connections is the end of a right index. -/
theorem confused (inv : TreeInvariant run) (h : ¬ run.Distinct event) :
    ∃ next, run.handle event = some next ∧ ¬ Indexed next := by
  cases event with
  | listen | backlog | addActive => exact absurd trivial h
  | addPassive memory port remote peerid remotePeerid remoteId seq firstQuestion =>
    obtain ⟨haccepts, hsame⟩ := Classical.not_imp.mp h
    obtain ⟨node, hnode, hseq, hnot⟩ := answered_wrong inv hsame
    refine ⟨_, rfl, fun good => ?_⟩
    obtain ⟨hrefused, -⟩ | ⟨-, found, hfound, hfoundSeq, heq⟩ | ⟨-, hnew, -⟩ :=
      run.manager.addPassiveConnection_cases memory port remote peerid remotePeerid remoteId seq
        firstQuestion
    · exact absurd haccepts (hrefused ▸ Bool.false_ne_true)
    · rw [heq] at good
      obtain rfl := eq_of_key inv.keys hnode hfound (hseq.trans hfoundSeq.symm)
      exact hnot (good.answered run.history _ [] rfl)
    · exact hnew node hnode hseq
  | remove memory peerid connection =>
    simp only [Distinct, OwnPlace] at h
    push Not at h
    obtain ⟨c, hc, hpassive, node, hnode, hseq, hother⟩ := h
    refine ⟨_, Option.map_eq_some_iff.mpr ⟨c, hc, rfl⟩, fun good => ?_⟩
    -- the other connection is live, but its node is gone
    obtain ⟨remote, -, hlive⟩ := inv.nodes node hnode
    have hkept := hlive.append fun h => hother (IndexEntry.removed.inj (mem_singleton.mp h))
    obtain ⟨node', hnode', hseq', -⟩ :=
      lookup_node (good.found _ _ _ hkept memory peerid)
    exact ((mem_removeConnection inv memory peerid c).mp hnode').2
      ⟨hpassive, hseq'.trans hseq⟩
  | lookup memory _ peerid =>
    obtain ⟨node, hnode, rfl, hnot⟩ := answered_wrong inv h
    refine ⟨_, rfl, fun good => hnot ?_⟩
    exact (good.answered run.history _ [] rfl node.connection).mp (inv.lookup hnode memory peerid)

/-- The index of the passive connections finds the live connection of a peer and a sequence number,
and nothing else, in exactly the runs whose calls confuse no connections. -/
theorem passive_index_iff (backlog : Nat) (curValue : UInt32) (events : List ManagerEvent) :
    Throughout handle Indexed (start backlog curValue) events ↔
      StepsMeet handle Distinct (start backlog curValue) events := by
  have hstart : IndexInvariant (start backlog curValue) :=
    ⟨treeInvariant_start backlog curValue, justified_nil,
      fun _ _ _ hlive => absurd hlive.added not_mem_nil⟩
  refine throughout_iff hstart (fun _ inv => inv.good) (fun _ _ _ inv hok h => inv.step hok h)
    fun front u event hrun _ hbad => ?_
  have inv : TreeInvariant u :=
    exec_preserves (fun _ _ _ inv h => inv.step h) (treeInvariant_start backlog curValue) hrun
  exact confused inv hbad

/-- Whatever numbers the peers choose, no number is in the tree twice, its nodes are live, and each of
them is found. -/
theorem passive_tree_found (backlog : Nat) (curValue : UInt32) (events : List ManagerEvent) :
    Throughout handle (fun run => TreeInvariant run ∧ ∀ node ∈ run.manager.passiveEntry,
        ∀ memory peerid,
          run.manager.getConnectionByRemoteSeq memory peerid node.seq = some node.connection)
      (start backlog curValue) events :=
  throughout_of_inv (treeInvariant_start backlog curValue)
    (fun _ inv => ⟨inv, fun _ hmem => inv.lookup hmem⟩) fun _ _ _ inv h => inv.step h

/-- Two peers use one sequence number: the second one is given the connection of the first. -/
theorem passive_index_shadowed : ∃ run,
    exec handle (start 8 1) [.listen 80,
      .addPassive ⟨.zero 20, fun _ => .zero 20⟩ 80 (.ofList 32 [1]) 64 128 7 1 [],
      .addPassive ⟨.zero 20, fun _ => .zero 20⟩ 80 (.ofList 32 [2]) 64 192 9 1 []] = some run ∧
      ¬ Indexed run := by
  refine exists_of_test (fun run => run.history =
    [.added 0 (.ofList 32 [1]) 1, .refused (.ofList 32 [2]) 1 0]) (by decide +kernel) ?_
  refine fun run _ hhistory good => ?_
  have hlive : Live [.added 0 (.ofList 32 [1]) 1] 0 (.ofList 32 [2]) 1 :=
    good.answered [_] (.refused (.ofList 32 [2]) 1 0) [] hhistory
  have hsame := IndexEntry.added.inj (mem_singleton.mp hlive.added)
  exact absurd (congrArg Subtype.val hsame.2.1) (by decide)

end ManagerRun

end Bdt
