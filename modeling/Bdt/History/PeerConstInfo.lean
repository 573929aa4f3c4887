import Bdt.History.PeerUpdaterRuns

/-!
# The constant parts of the peers

The updater asserts in most operations that a peer that is known already has its constant part flagged.
A peer that was loaded, or that sent a package without its peer info, has not. Of two constant parts of
a peer the first one is kept. `const_info_received` says which calls are fine.
-/

namespace Bdt

open Base Option

namespace PeerUpdater

/-- The nodes keep their constant parts, and no place of a node is used again. -/
structure SameConst (updater next : PeerUpdater) : Prop where
  length : updater.nodes.length ≤ next.nodes.length
  node : ∀ i other, next.node i = some other →
    ∃ node, updater.node i = some node ∧ other.constInfo = node.constInfo

variable {updater next third : PeerUpdater} {shape : PeerShape} {held : List NodeId} {i : NodeId}

theorem SameConst.of_nodes (h : next.nodes = updater.nodes) : SameConst updater next := by
  have hnode : next.node = updater.node := by
    funext j
    unfold PeerUpdater.node
    rw [h]
  exact ⟨Nat.le_of_eq (congrArg List.length h.symm), fun i other hother =>
    ⟨other, hnode ▸ hother, rfl⟩⟩

theorem SameConst.refl (updater : PeerUpdater) : SameConst updater updater :=
  .of_nodes rfl

theorem SameConst.trans (h : SameConst updater next) (h' : SameConst next third) :
    SameConst updater third := by
  refine ⟨Nat.le_trans h.length h'.length, fun i other hother => ?_⟩
  obtain ⟨node, hnode, hconst⟩ := h'.node i other hother
  obtain ⟨first, hfirst, hsame⟩ := h.node i node hnode
  exact ⟨first, hfirst, hconst.trans hsame⟩

/-- The nodes are the same without their connections. -/
theorem SameConst.of_core (hlength : updater.nodes.length ≤ next.nodes.length)
    (h : ∀ j, (next.node j).map (·.core) = (updater.node j).map (·.core)) :
    SameConst updater next := by
  refine ⟨hlength, fun j other hother => ?_⟩
  have hj := h j
  rw [hother] at hj
  obtain ⟨node, hnode, hcore⟩ := map_eq_some_iff.mp hj.symm
  have hsame : node.core.constInfo = other.core.constInfo := congrArg (·.constInfo) hcore
  exact ⟨node, hnode, hsame.symm⟩

variable {change : PeerInfoNode → PeerInfoNode} {nodes : List (Counted PeerInfoNode)}
  {localEndpoint : Option Nat}

theorem length_modify
    (h : updater.modify i change = some next) : next.nodes.length = updater.nodes.length := by
  obtain ⟨cell, -, rfl⟩ := map_eq_some_iff.mp h
  exact List.length_set

theorem SameConst.modify (h : updater.modify i change = some next)
    (hchange : ∀ node, (change node).constInfo = node.constInfo) : SameConst updater next := by
  refine ⟨Nat.le_of_eq (length_modify h).symm, fun j other hother => ?_⟩
  rw [node_modify h] at hother
  split at hother
  case isTrue =>
    obtain ⟨node, hnode, rfl⟩ := map_eq_some_iff.mp hother
    exact ⟨node, hnode, hchange node⟩
  case isFalse => exact ⟨other, hother, rfl⟩

theorem length_addRef (h : updater.addRef i = some next) :
    next.nodes.length = updater.nodes.length := by
  obtain ⟨nodes, hnodes, rfl⟩ := map_eq_some_iff.mp h
  obtain ⟨cell, -, rfl⟩ := map_eq_some_iff.mp hnodes
  exact List.length_set

theorem SameConst.addRef (h : updater.addRef i = some next) : SameConst updater next :=
  ⟨Nat.le_of_eq (length_addRef h).symm, fun _ other hother => ⟨other, node_addRef h ▸ hother, rfl⟩⟩

theorem SameConst.addRefs {nodes : List NodeId}
    (h : PeerUpdaterRun.addRefs updater nodes = some next) : SameConst updater next := by
  induction nodes generalizing updater with
  | nil => exact some.inj h ▸ .refl updater
  | cons _ _ ih =>
    obtain ⟨referred, hreferred, h⟩ := bind_eq_some_iff.mp h
    exact (SameConst.addRef hreferred).trans (ih h)

theorem SameConst.baseRelease
    (h : Base.release updater.nodes i = some nodes) : SameConst updater { updater with nodes } := by
  obtain ⟨cell, hcell, rfl⟩ := map_eq_some_iff.mp h
  refine ⟨Nat.le_of_eq List.length_set.symm, fun j other hother => ?_⟩
  obtain ⟨found, hfound, rfl⟩ := node_eq_some.mp hother
  rw [live_set hcell] at hfound
  split at hfound
  case isTrue heq =>
    subst heq
    split at hfound
    case isTrue => cases hfound
    case isFalse =>
      cases hfound
      exact ⟨cell.value, node_eq_some.mpr ⟨cell, hcell, rfl⟩, rfl⟩
  case isFalse => exact ⟨found.value, node_eq_some.mpr ⟨found, hfound, rfl⟩, rfl⟩

theorem SameConst.releaseLocal {localHistory : NodeId} {count : Nat}
    (h : PeerUpdater.releaseLocal updater.nodes localHistory count = some nodes) :
    SameConst updater { updater with nodes } := by
  induction count generalizing updater with
  | zero => exact some.inj h ▸ .refl updater
  | succ _ ih =>
    obtain ⟨released, hreleased, h⟩ := bind_eq_some_iff.mp h
    exact (SameConst.baseRelease hreleased).trans (@ih { updater with nodes := released } h)

theorem SameConst.release (h : updater.release i = some next) : SameConst updater next := by
  obtain ⟨cell, -, h⟩ := bind_eq_some_iff.mp h
  obtain ⟨released, hreleased, h⟩ := bind_eq_some_iff.mp h
  obtain ⟨nodes, hnodes, rfl⟩ := map_eq_some_iff.mp h
  refine (SameConst.baseRelease hreleased).trans ?_
  split at hnodes
  case isTrue =>
    unfold deleteNode at hnodes
    split at hnodes
    case h_1 => exact some.inj hnodes ▸ .refl _
    case h_2 => cases hnodes
    case h_3 => exact @SameConst.releaseLocal { updater with nodes := released } _ _ _ hnodes
  case isFalse => exact some.inj hnodes ▸ .refl _

theorem SameConst.limitLoop {fuel : Nat} {place : Option NodeId}
    (h : PeerUpdater.limitLoop fuel updater place = some next) : SameConst updater next := by
  induction fuel generalizing updater place with
  | zero => exact some.inj h ▸ .refl updater
  | succ _ ih =>
    cases place with
    | none => exact some.inj h ▸ .refl updater
    | some willRemoveNode =>
      unfold PeerUpdater.limitLoop at h
      split at h
      case isTrue =>
        obtain ⟨evicted, hevicted, h⟩ := bind_eq_some_iff.mp h
        refine SameConst.trans ?_ (ih h)
        split at hevicted
        case isTrue => exact some.inj hevicted ▸ .refl updater
        case isFalse =>
        obtain ⟨node, -, hevicted⟩ := bind_eq_some_iff.mp hevicted
        obtain ⟨released, hreleased, hevicted⟩ := bind_eq_some_iff.mp hevicted
        have hunlinked : SameConst updater (updater.unlink willRemoveNode node.peerid) :=
          .of_nodes rfl
        exact (hunlinked.trans (.release hreleased)).trans
          (some.inj hevicted ▸ .of_nodes rfl)
      case isFalse => exact some.inj h ▸ .refl updater

theorem SameConst.limitPeerCount (h : updater.limitPeerCount = some next) :
    SameConst updater next := by
  unfold PeerUpdater.limitPeerCount at h
  split at h
  case isTrue =>
    obtain ⟨limited, hlimited, rfl⟩ := map_eq_some_iff.mp h
    refine (SameConst.limitLoop hlimited).trans ?_
    split
    case isTrue => exact .of_nodes rfl
    case isFalse => exact .refl limited
  case isFalse => exact some.inj h ▸ .refl updater

theorem SameConst.connect {remoteEndpoint : BdtEndpoint}
    {change : HistoryConnectInfo → HistoryConnectInfo} {isNewConnect isChanged : Bool}
    (h : updater.connect i remoteEndpoint localEndpoint change =
      some (next, isNewConnect, isChanged)) : SameConst updater next := by
  refine .of_core ?_ (core_connect h)
  obtain ⟨node, -, h⟩ := bind_eq_some_iff.mp h
  obtain ⟨changed, hchanged, h⟩ := bind_eq_some_iff.mp h
  obtain ⟨referred, hreferred, h⟩ := bind_eq_some_iff.mp h
  cases h
  rw [← length_modify hchanged]
  unfold refLocal at hreferred
  split at hreferred
  case isTrue =>
    obtain ⟨localHistory, -, hreferred⟩ := bind_eq_some_iff.mp hreferred
    exact Nat.le_of_eq (length_addRef hreferred).symm
  case isFalse => exact Nat.le_of_eq (congrArg (·.nodes.length) (some.inj hreferred))

theorem SameConst.addOuterConnects {connections : List (Option OuterConnectInfo)}
    (h : updater.addOuterConnects i connections = some next) : SameConst updater next := by
  induction connections generalizing updater with
  | nil => exact some.inj h ▸ .refl updater
  | cons outer _ ih =>
    obtain ⟨added, hadded, h⟩ := bind_eq_some_iff.mp h
    refine SameConst.trans ?_ (ih h)
    cases outer with
    | none => exact some.inj hadded ▸ .refl updater
    | some =>
      obtain ⟨⟨changed, isNewConnect, isChanged⟩, hconnect, rfl⟩ :=
        map_eq_some_iff.mp hadded
      exact .connect hconnect

theorem SameConst.makeSureSuperNode (h : updater.makeSureSuperNode i = some next) :
    SameConst updater next := by
  obtain ⟨node, -, h⟩ := bind_eq_some_iff.mp h
  split at h
  case isTrue => exact some.inj h ▸ .refl updater
  case isFalse =>
    obtain ⟨flagged, hflagged, rfl⟩ := map_eq_some_iff.mp h
    exact (SameConst.modify hflagged fun _ => rfl).trans (.of_nodes rfl)

theorem SameConst.takeSnFlag {isSn : Bool} (h : updater.takeSnFlag i isSn = some next) :
    SameConst updater next := by
  unfold PeerUpdater.takeSnFlag at h
  split at h
  case isTrue => exact .makeSureSuperNode h
  case isFalse => exact some.inj h ▸ .refl updater

theorem relink_nodes (updater : PeerUpdater) (peerListOld snListOld : Option NodeId) :
    (updater.relink peerListOld snListOld).nodes = updater.nodes := by
  have hsns : ∀ other : PeerUpdater, (other.relinkSuperNodes snListOld).nodes = other.nodes := by
    intro other
    unfold relinkSuperNodes
    split <;> rfl
  unfold relink
  split
  case h_1 => rfl
  case h_2 =>
  rw [hsns]
  unfold relinkPeers
  split <;> rfl

variable {outer : OuterPeerInfo}

/-- The node of the peer is made sure of, and its constant part stays. -/
theorem SameConst.addOuterPeer (h : updater.addOuterPeer outer = some (next, i)) :
    (updater.makeSureOuter outer).2 = i ∧ SameConst (updater.makeSureOuter outer).1 next := by
  obtain ⟨flagged, hflagged, h⟩ := bind_eq_some_iff.mp h
  obtain ⟨connected, hconnected, h⟩ := bind_eq_some_iff.mp h
  obtain ⟨rfl, rfl⟩ := Prod.mk.inj (some.inj h)
  exact ⟨rfl, (SameConst.takeSnFlag hflagged).trans (.addOuterConnects hconnected)⟩

theorem makeSureOuter_found (h : updater.findPeer outer.peerid = some i) :
    updater.makeSureOuter outer = (updater, i) := by
  unfold makeSureOuter
  rw [h]

theorem makeSureOuter_fresh (h : updater.findPeer outer.peerid = none) :
    updater.makeSureOuter outer =
      (updater.addHistory { peerid := outer.peerid, constInfo := outer.constInfo },
        updater.nodes.length) := by
  unfold makeSureOuter
  rw [h]

/-- What is known of the peer is what its peer info says, and its constant part is flagged if this is
asserted. -/
def TakesConst (updater : PeerUpdater) (peerid : Peerid) (peerInfo : PeerInfo) (isAsserted : Bool) :
    Prop :=
  ∀ i node, updater.findPeer peerid = some i → updater.node i = some node →
    (isAsserted = true → node.hasConst = true) ∧
      (node.hasConst = true → node.constInfo = some peerInfo.fields.constInfo)

/-- The peer that is loaded is new, has no constant part, or has the same one. -/
def TakesOuter (updater : PeerUpdater) (outer : OuterPeerInfo) : Prop :=
  ∀ i node constInfo, updater.findPeer outer.peerid = some i → updater.node i = some node →
    outer.constInfo = some constInfo → node.constInfo = some constInfo

theorem lt_of_node {node : PeerInfoNode} (h : updater.node i = some node) : i < updater.nodes.length := by
  obtain ⟨cell, hcell, -⟩ := node_eq_some.mp h
  exact (List.getElem?_eq_some_iff.mp (live_eq_some.mp hcell).1).1

theorem addRef_of_node (hi : ∃ node, updater.node i = some node) :
    ∃ next, updater.addRef i = some next := by
  obtain ⟨node, hnode⟩ := hi
  obtain ⟨cell, hcell, -⟩ := node_eq_some.mp hnode
  unfold PeerUpdater.addRef Base.addRef
  rw [hcell]
  exact ⟨_, rfl⟩

theorem makeSureSuperNode_of_node (hi : ∃ node, updater.node i = some node) :
    ∃ next, updater.makeSureSuperNode i = some next := by
  obtain ⟨node, hnode⟩ := hi
  obtain ⟨changed, hchanged, -⟩ := modify_of_node ⟨node, hnode⟩ fun node => { node with isSn := true }
  unfold makeSureSuperNode addToSuperNodeList
  rw [hnode, hchanged]
  simp only [bind_eq_bind, bind_some]
  split <;> exact ⟨_, rfl⟩

/-- A connection of a peer, and its local endpoint if the local peer is known, can be found or added. -/
theorem Holds.connect_defined (h : updater.Holds shape held) (hi : i ∈ shape.peers)
    (remoteEndpoint : BdtEndpoint)
    (hlocal : localEndpoint.isSome = true → updater.localHistory ≠ none)
    (change : HistoryConnectInfo → HistoryConnectInfo) :
    ∃ result, updater.connect i remoteEndpoint localEndpoint change = some result := by
  obtain ⟨node, hnode⟩ := h.node_of_mem hi
  obtain ⟨changed, hchanged, hnodes⟩ := modify_of_node ⟨node, hnode⟩ fun other => { other with
    connectVector := (findOrAddConnectInfo remoteEndpoint localEndpoint node.connectVector).1.modify
      (findOrAddConnectInfo remoteEndpoint localEndpoint node.connectVector).2.1 change }
  have hrefLocal : ∃ next, changed.refLocal ((findOrAddConnectInfo remoteEndpoint localEndpoint
      node.connectVector).2.2 && localEndpoint.isSome) = some next := by
    unfold PeerUpdater.refLocal
    split
    case isTrue hbound =>
      obtain ⟨localHistory, hlocalHistory⟩ :=
        ne_none_iff_exists'.mp (hlocal (Bool.and_eq_true_iff.mp hbound).2)
      obtain ⟨localNode, hlocalNode, -⟩ := h.localNode localHistory hlocalHistory
      have hsame : changed.localHistory = some localHistory := by
        obtain ⟨cell, -, rfl⟩ := map_eq_some_iff.mp hchanged
        exact hlocalHistory
      rw [hsame]
      exact addRef_of_node (hnodes localHistory ⟨localNode, hlocalNode⟩)
    case isFalse => exact ⟨changed, rfl⟩
  obtain ⟨next, hnext⟩ := hrefLocal
  unfold PeerUpdater.connect
  rw [hnode]
  simp only [bind_eq_bind, bind_some, hchanged, hnext]
  exact ⟨_, rfl⟩

theorem localHistory_of_findLocalEndpoint (updater : PeerUpdater) (localEndpoint : Option BdtEndpoint)
    (h : (findLocalEndpoint updater.localConnections localEndpoint).isSome = true) :
    updater.localHistory ≠ none := by
  intro hnone
  unfold localConnections at h
  rw [hnone] at h
  cases localEndpoint <;> cases h

theorem Holds.addOuterConnects_defined (h : updater.Holds shape held) (hi : i ∈ shape.peers)
    (connections : List (Option OuterConnectInfo)) :
    ∃ next, updater.addOuterConnects i connections = some next := by
  induction connections generalizing updater shape with
  | nil => exact ⟨updater, rfl⟩
  | cons outer rest ih =>
    cases outer with
    | none => exact ih h hi
    | some outer =>
      obtain ⟨⟨changed, isNewConnect, isChanged⟩, hconnect⟩ :=
        h.connect_defined hi outer.endpoint
          (updater.localHistory_of_findLocalEndpoint outer.localEndpoint) (·.merge outer)
      obtain ⟨bound, hholds⟩ := h.connect hconnect fun _ => rfl
      obtain ⟨next, hnext⟩ := @ih changed { shape with bound } hholds hi
      have hadded : updater.addOuterConnect i (some outer) = some changed :=
        congrArg (Option.map _) hconnect
      refine ⟨next, ?_⟩
      unfold PeerUpdater.addOuterConnects
      rw [hadded]
      exact hnext

theorem Holds.addOuterPeer_defined (h : updater.Holds shape held) (outer : OuterPeerInfo) :
    ∃ next i, updater.addOuterPeer outer = some (next, i) := by
  obtain ⟨sure, -, hsure, hmem⟩ := h.makeSureOuter outer
  have hflag : ∃ flagged other, (updater.makeSureOuter outer).1.takeSnFlag
      (updater.makeSureOuter outer).2 outer.isSn = some flagged ∧ flagged.Holds other held ∧
        (updater.makeSureOuter outer).2 ∈ other.peers := by
    unfold PeerUpdater.takeSnFlag
    split
    case isTrue =>
      obtain ⟨flagged, hflagged⟩ := makeSureSuperNode_of_node (hsure.node_of_mem hmem)
      obtain ⟨other, hgrows, hholds, -⟩ := hsure.makeSureSuperNode hflagged
      exact ⟨flagged, other, hflagged, hholds, hgrows.peers hmem⟩
    case isFalse => exact ⟨_, sure, rfl, hsure, hmem⟩
  obtain ⟨flagged, other, hflagged, hholds, hpeer⟩ := hflag
  obtain ⟨next, hnext⟩ := hholds.addOuterConnects_defined hpeer outer.connectVector
  refine ⟨next, (updater.makeSureOuter outer).2, ?_⟩
  unfold PeerUpdater.addOuterPeer
  simp only [bind_eq_bind, hflagged, bind_some, hnext]

theorem length_addHistory (updater : PeerUpdater) (node : PeerInfoNode) :
    (updater.addHistory node).nodes.length = updater.nodes.length + 1 :=
  List.length_append

end PeerUpdater

/-- What a call receives or loads for a peer agrees with what is known of it. -/
def UpdaterCall.KeepsConst (run : PeerUpdaterRun) : UpdaterCall → Prop
  | makeSure _ peerid peerInfo isAsserted _ =>
    ∀ info, peerInfo = some info → run.updater.TakesConst peerid info isAsserted
  | superNode var snInfo _ =>
    run.nodeOf var ≠ none → run.updater.TakesConst snInfo.fields.peerid snInfo true
  | addOuter outer => run.updater.TakesOuter outer
  | addOuterSuperNode outer =>
    run.updater.localPeerid ≠ some outer.peerInfo.peerid → run.peerHistoryNode ≠ none →
      run.updater.TakesOuter outer.peerInfo
  | _ => True

def UpdaterEvent.KeepsConst (run : PeerUpdaterRun) : UpdaterEvent → Prop
  | call => ∀ next, run.pending.head? = some next → next.KeepsConst run
  | _ => True

namespace PeerUpdaterRun

/-- The last constant part that was received or loaded for a node. -/
def lastReceived (run : PeerUpdaterRun) (i : NodeId) : Option PeerConstInfo :=
  (run.received.find? (·.1 = i)).map (·.2)

/-- All assertions held, and each peer has the constant part that was received or loaded last. -/
structure ConstKept (run : PeerUpdaterRun) : Prop where
  isAsserted : run.isAsserted = true
  constInfo : ∀ i node constInfo, run.updater.node i = some node →
    run.lastReceived i = some constInfo → node.constInfo = some constInfo

/-- Nothing is received for nodes that do not exist yet. -/
structure Consts (run : PeerUpdaterRun) : Prop extends ConstKept run where
  known : ∀ entry ∈ run.received, entry.1 < run.updater.nodes.length

variable {run next : PeerUpdaterRun} {shape other : PeerShape} {i : NodeId} {call : UpdaterCall}
  {rest : List UpdaterCall}

theorem lastReceived_receive (run : PeerUpdaterRun) (i : NodeId) (constInfo : Option PeerConstInfo)
    (j : NodeId) : (run.receive i constInfo).lastReceived j =
      if i = j then constInfo.or (run.lastReceived i) else run.lastReceived j := by
  cases constInfo with
  | none =>
    split
    case isTrue heq =>
      subst heq
      rfl
    case isFalse => rfl
  | some constInfo =>
    show (((i, constInfo) :: run.received).find? (·.1 = j)).map (·.2) = _
    rw [List.find?_cons]
    by_cases heq : i = j
    · rw [if_pos heq, decide_eq_true heq]
      rfl
    · rw [if_neg heq, decide_eq_false heq]
      rfl

theorem Consts.lastReceived_fresh (h : run.Consts) :
    run.lastReceived run.updater.nodes.length = none := by
  unfold lastReceived
  rw [map_eq_none_iff, List.find?_eq_none]
  intro entry hentry heq
  exact absurd (h.known entry hentry) (of_decide_eq_true heq ▸ Nat.lt_irrefl _)

theorem Consts.same (h : run.Consts) (hsame : PeerUpdater.SameConst run.updater next.updater)
    (hreceived : next.received = run.received) (hisAsserted : next.isAsserted = run.isAsserted) :
    next.Consts where
  isAsserted := hisAsserted.trans h.isAsserted
  constInfo := by
    intro i other constInfo hother hlast
    obtain ⟨node, hnode, hconst⟩ := hsame.node i other hother
    have hlast : run.lastReceived i = some constInfo := by
      unfold lastReceived at hlast ⊢
      rw [← hreceived]
      exact hlast
    exact hconst.trans (h.constInfo i node constInfo hnode hlast)
  known := fun entry hentry =>
    Nat.lt_of_lt_of_le (h.known entry (hreceived ▸ hentry)) hsame.length

theorem Consts.receive (h : run.Consts) {updater : PeerUpdater} (constInfo : Option PeerConstInfo)
    (hlength : run.updater.nodes.length ≤ updater.nodes.length) (hi : i < updater.nodes.length)
    (hothers : ∀ j other, j ≠ i → updater.node j = some other →
      ∃ node, run.updater.node j = some node ∧ other.constInfo = node.constInfo)
    (hthis : ∀ other, updater.node i = some other →
      ∀ last, constInfo.or (run.lastReceived i) = some last → other.constInfo = some last) :
    (PeerUpdaterRun.receive { run with updater } i constInfo).Consts where
  isAsserted := h.isAsserted
  constInfo := by
    intro j other last hother hlast
    rw [lastReceived_receive] at hlast
    split at hlast
    case isTrue heq =>
      subst heq
      exact hthis other hother last hlast
    case isFalse hne =>
      obtain ⟨node, hnode, hconst⟩ := hothers j other (fun heq => hne heq.symm) hother
      exact hconst.trans (h.constInfo j node last hnode hlast)
  known := by
    intro entry hentry
    rcases List.mem_append.mp hentry with hnew | hold
    · obtain ⟨received, -, rfl⟩ := map_eq_some_iff.mp (mem_toList.mp hnew)
      exact hi
    · exact Nat.lt_of_lt_of_le (h.known entry hold) hlength

variable {peerid : Peerid} {isAsserted : Bool} {now : Int} {sn : NodeId}

variable {peerInfo : Option PeerInfo} {event : UpdaterEvent} {snInfo : PeerInfo} {isNew : Bool}

theorem makeSure_consts (h : run.Consts)
    (htakes : ∀ info, peerInfo = some info → run.updater.TakesConst peerid info isAsserted)
    (hnext : run.makeSure peerid peerInfo isAsserted now = some (next, i, isNew)) : next.Consts := by
  obtain ⟨⟨updater, j, isNew', isNewConstInfo⟩, hsure, heq⟩ := map_eq_some_iff.mp hnext
  cases heq
  -- the assertion, and then the constant part
  have hasserts : ∀ isNewConstInfo, (isAsserted && isNewConstInfo) = false →
      Consts { run with isAsserted := run.isAsserted && !(isAsserted && isNewConstInfo) } := by
    intro isNewConstInfo hfalse
    refine h.same (.refl run.updater) rfl ?_
    rw [hfalse]
    exact Bool.and_true _
  unfold PeerUpdater.makeSurePeerHistoryExist at hsure
  cases hfound : run.updater.findPeer peerid with
  | some j =>
    rw [hfound] at hsure
    cases peerInfo with
    | none =>
      cases hsure
      exact (hasserts false (Bool.and_false _)).same (.of_nodes rfl) rfl rfl
    | some peerInfo =>
      obtain ⟨node, hnode, hsure⟩ := bind_eq_some_iff.mp hsure
      obtain ⟨changed, hchanged, hsure⟩ := bind_eq_some_iff.mp hsure
      cases hsure
      obtain ⟨hasserted, hconst⟩ := htakes peerInfo rfl i node hfound hnode
      have hlength : updater.nodes.length = run.updater.nodes.length :=
        (PeerUpdater.length_modify hchanged).trans rfl
      have hnodes : ∀ j, updater.node j =
          if i = j then (run.updater.node j).map (·.updateInfo peerInfo now) else run.updater.node j :=
        fun j => (PeerUpdater.node_modify hchanged j).trans rfl
      have hfalse : (isAsserted && !node.hasConst) = false := by
        cases isAsserted with
        | true => rw [hasserted rfl]; rfl
        | false => rfl
      refine (hasserts _ hfalse).receive (some peerInfo.fields.constInfo) (Nat.le_of_eq hlength.symm)
        (hlength ▸ PeerUpdater.lt_of_node hnode) ?_ ?_
      · intro j other hne hother
        rw [hnodes, if_neg hne.symm] at hother
        exact ⟨other, hother, rfl⟩
      intro other hother last hlast
      rw [hnodes, if_pos rfl, hnode] at hother
      cases hother
      cases hlast
      show (if node.hasConst then node.constInfo else some peerInfo.fields.constInfo) = _
      split
      case isTrue hhas => exact hconst hhas
      case isFalse => rfl
  | none =>
    rw [hfound] at hsure
    cases hsure
    have hnodes := PeerUpdater.node_addHistory run.updater (.init peerid peerInfo now)
    have hlength := PeerUpdater.length_addHistory run.updater (.init peerid peerInfo now)
    refine (hasserts false (Bool.and_false _)).receive (peerInfo.map (·.fields.constInfo))
      (Nat.le.intro hlength.symm) (Nat.lt_of_lt_of_eq (Nat.lt_succ_self _) hlength.symm) ?_ ?_
    · intro j other hne hother
      rw [hnodes, if_neg hne] at hother
      exact ⟨other, hother, rfl⟩
    intro other hother last hlast
    rw [hnodes, if_pos rfl] at hother
    cases hother
    rw [(hasserts false (Bool.and_false _)).lastReceived_fresh] at hlast
    cases peerInfo with
    | none => cases hlast
    | some => exact hlast

theorem makeSure_nodeOf
    (hnext : run.makeSure peerid peerInfo isAsserted now = some (next, i, isNew))
    (var : NodeVariable) : next.nodeOf var = run.nodeOf var := by
  obtain ⟨result, -, heq⟩ := map_eq_some_iff.mp hnext
  cases heq
  cases var <;> rfl

variable {var : NodeVariable} {k : NodeId}

theorem Consts.addSuperNode (run : PeerUpdaterRun) (h : run.Consts)
    (hnext : run.addSuperNode var sn = some next) : next.Consts := by
  obtain ⟨i, -, hnext⟩ := bind_eq_some_iff.mp hnext
  obtain ⟨updater, hmodify, hnext⟩ := bind_eq_some_iff.mp hnext
  cases hnext
  exact h.same (.modify hmodify fun _ => rfl) rfl rfl

theorem Consts.addSuperNodeTime (run : PeerUpdaterRun) (h : run.Consts)
    {lastResponseTime : Int} (hnext : run.addSuperNodeTime sn lastResponseTime = some next) :
    next.Consts := by
  obtain ⟨updater, hmodify, hnext⟩ := bind_eq_some_iff.mp hnext
  have htime : Consts { run with updater } := h.same (.modify hmodify fun _ => rfl) rfl rfl
  exact Consts.addSuperNode { run with updater } htime hnext

theorem superNode_consts (h : run.Consts) (htakes : run.nodeOf var ≠ none →
      run.updater.TakesConst snInfo.fields.peerid snInfo true)
    (hnext : run.superNode var snInfo now = some next) : next.Consts := by
  obtain ⟨⟨sure, sn, isNew⟩, hsure, hnext⟩ := bind_eq_some_iff.mp hnext
  obtain ⟨updater, hflag, hnext⟩ := bind_eq_some_iff.mp hnext
  have htakes : run.updater.TakesConst snInfo.fields.peerid snInfo true := by
    refine htakes fun hnone => ?_
    obtain ⟨i, hi, -⟩ := bind_eq_some_iff.mp hnext
    have hsame : sure.nodeOf var = run.nodeOf var := makeSure_nodeOf hsure var
    cases (hsame.trans hnone).symm.trans hi
  have hsure : sure.Consts :=
    makeSure_consts h (fun info hinfo => some.inj hinfo ▸ htakes) hsure
  have hflagged : Consts { sure with updater } := hsure.same (.makeSureSuperNode hflag) rfl rfl
  exact Consts.addSuperNode { sure with updater } hflagged hnext

variable {outer : OuterPeerInfo}

theorem addOuter_consts (h : run.Consts) (hholds : run.updater.Holds shape run.held)
    (htakes : run.updater.TakesOuter outer) (hnext : run.addOuter outer = some (next, i)) :
    next.Consts := by
  obtain ⟨⟨updater, j⟩, hadd, heq⟩ := map_eq_some_iff.mp hnext
  obtain ⟨rfl, rfl⟩ := Prod.mk.inj heq
  obtain ⟨hj, hsame⟩ := PeerUpdater.SameConst.addOuterPeer hadd
  cases hfound : run.updater.findPeer outer.peerid with
  | some i =>
    rw [PeerUpdater.makeSureOuter_found hfound] at hj hsame
    obtain rfl := hj
    obtain ⟨-, found, hnode, -⟩ := hholds.findPeer hfound
    refine h.receive outer.constInfo hsame.length
      (Nat.lt_of_lt_of_le (PeerUpdater.lt_of_node hnode) hsame.length)
      (fun j other _ => hsame.node j other) fun other hother last hlast => ?_
    obtain ⟨node, hnode, hconst⟩ := hsame.node i other hother
    refine hconst.trans ?_
    cases houter : outer.constInfo with
    | none =>
      rw [houter] at hlast
      exact h.constInfo i node last hnode hlast
    | some constInfo =>
      rw [houter] at hlast
      obtain rfl := some.inj hlast
      exact htakes i node constInfo hfound hnode houter
  | none =>
    rw [PeerUpdater.makeSureOuter_fresh hfound] at hj hsame
    obtain rfl := hj
    have hnodes := PeerUpdater.node_addHistory run.updater
      { peerid := outer.peerid, constInfo := outer.constInfo }
    have hlength := PeerUpdater.length_addHistory run.updater
      { peerid := outer.peerid, constInfo := outer.constInfo }
    have hlt : run.updater.nodes.length < updater.nodes.length :=
      Nat.lt_of_lt_of_le (Nat.lt_of_lt_of_eq (Nat.lt_succ_self _) hlength.symm) hsame.length
    refine h.receive outer.constInfo (Nat.le_of_lt hlt) hlt ?_ ?_
    · intro j other hne hother
      obtain ⟨node, hnode, hconst⟩ := hsame.node j other hother
      rw [hnodes, if_neg hne] at hnode
      exact ⟨node, hnode, hconst⟩
    intro other hother last hlast
    obtain ⟨node, hnode, hconst⟩ := hsame.node _ other hother
    rw [hnodes, if_pos rfl] at hnode
    obtain rfl := some.inj hnode
    rw [h.lastReceived_fresh, or_none] at hlast
    exact hconst.trans hlast

theorem addOuter_node (hnext : run.addOuter outer = some (next, i)) :
    next.peerHistoryNode = run.peerHistoryNode := by
  obtain ⟨result, -, heq⟩ := map_eq_some_iff.mp hnext
  cases heq
  rfl

theorem addOuterSuperNode_consts (h : run.Consts) (hholds : run.updater.Holds shape run.held)
    {outer : OuterSuperNode}
    (htakes : run.updater.localPeerid ≠ some outer.peerInfo.peerid → run.peerHistoryNode ≠ none →
      run.updater.TakesOuter outer.peerInfo)
    (hnext : run.addOuterSuperNode outer = some next) : next.Consts := by
  unfold addOuterSuperNode at hnext
  split at hnext
  case isTrue =>
    obtain ⟨sn, -, hnext⟩ := bind_eq_some_iff.mp hnext
    obtain ⟨node, -, hnext⟩ := bind_eq_some_iff.mp hnext
    split at hnext
    case isTrue => exact Consts.addSuperNodeTime run h hnext
    case isFalse => exact some.inj hnext ▸ h
  case isFalse hlocal =>
  obtain ⟨⟨added, sn⟩, hadd, hnext⟩ := bind_eq_some_iff.mp hnext
  have hset : run.peerHistoryNode ≠ none := by
    intro hnone
    obtain ⟨updater, -, hnext⟩ := bind_eq_some_iff.mp hnext
    obtain ⟨i, hi, -⟩ := bind_eq_some_iff.mp hnext
    cases ((addOuter_node hadd).trans hnone).symm.trans hi
  exact Consts.addSuperNodeTime added (addOuter_consts h hholds (htakes hlocal hset) hadd) hnext

theorem perform_consts (run : PeerUpdaterRun) (h : run.Consts)
    (hholds : run.updater.Holds shape run.held) (hkeeps : call.KeepsConst run)
    (hnext : run.perform call = some next) : next.Consts := by
  cases call with
  | makeSure var =>
    obtain ⟨⟨sure, i, isNew⟩, hsure, rfl⟩ := map_eq_some_iff.mp hnext
    have hsure := makeSure_consts h hkeeps hsure
    cases var <;> exact hsure.same (.refl sure.updater) rfl rfl
  | superNode => exact superNode_consts h hkeeps hnext
  | useLocal => exact some.inj hnext ▸ h.same (.refl run.updater) rfl rfl
  | countSuperNodes =>
    obtain ⟨node, -, rfl⟩ := map_eq_some_iff.mp hnext
    exact h.same (.refl run.updater) rfl rfl
  | updateSuperNodeInfo =>
    obtain ⟨peer, -, hnext⟩ := bind_eq_some_iff.mp hnext
    obtain ⟨sn, -, hnext⟩ := bind_eq_some_iff.mp hnext
    obtain ⟨snNode, -, hnext⟩ := bind_eq_some_iff.mp hnext
    obtain ⟨flagged, hflag, hnext⟩ := bind_eq_some_iff.mp hnext
    obtain ⟨added, hadd, hnext⟩ := bind_eq_some_iff.mp hnext
    obtain ⟨node, -, hnext⟩ := bind_eq_some_iff.mp hnext
    cases hnext
    exact h.same ((PeerUpdater.SameConst.modify hflag fun _ => rfl).trans
      (.modify hadd fun _ => rfl)) rfl rfl
  | updateConnect | startTransfer =>
    obtain ⟨peer, -, hnext⟩ := bind_eq_some_iff.mp hnext
    obtain ⟨⟨updater, isNewConnect, isChanged⟩, hconnect, hnext⟩ :=
      bind_eq_some_iff.mp hnext
    cases hnext
    exact h.same (.connect hconnect) rfl rfl
  | addRef =>
    have hnext : run.addRef = some next := hnext
    unfold PeerUpdaterRun.addRef at hnext
    split at hnext
    case isTrue =>
      obtain ⟨updater, hrefs, rfl⟩ := map_eq_some_iff.mp hnext
      exact h.same (.addRefs hrefs) rfl rfl
    case isFalse => exact some.inj hnext ▸ h
  | addOuter =>
    obtain ⟨⟨added, i⟩, hadd, rfl⟩ := map_eq_some_iff.mp hnext
    exact (addOuter_consts h hholds hkeeps hadd).same (.refl added.updater) rfl rfl
  | addOuterSuperNode => exact addOuterSuperNode_consts h hholds hkeeps hnext
  | addOuterSnPeerid peerid =>
    have hnext : run.addOuterSnPeerid peerid = some next := hnext
    unfold PeerUpdaterRun.addOuterSnPeerid at hnext
    split at hnext
    case h_1 => exact some.inj hnext ▸ h
    case h_2 =>
    obtain ⟨node, -, hnext⟩ := bind_eq_some_iff.mp hnext
    split at hnext
    case isTrue => exact Consts.addSuperNode run h hnext
    case isFalse => exact some.inj hnext ▸ h
  | relink =>
    cases hnext
    exact h.same (.of_nodes (PeerUpdater.relink_nodes ..)) rfl rfl
  | setLocal =>
    obtain ⟨i, -, hnext⟩ := bind_eq_some_iff.mp hnext
    obtain ⟨updater, hmodify, hnext⟩ := bind_eq_some_iff.mp hnext
    cases hnext
    exact h.same ((PeerUpdater.SameConst.modify hmodify fun _ => rfl).trans (.of_nodes rfl)) rfl rfl
  | limitPeerCount =>
    obtain ⟨limited, hlimited, rfl⟩ := map_eq_some_iff.mp hnext
    exact h.same (.limitPeerCount hlimited) rfl rfl

theorem next_consts (h : run.Consts) (hholds : run.Holds shape)
    (hkeeps : event.KeepsConst run) (hnext : run.next event = some next) : next.Consts := by
  have hbegin : ∀ calls, run.begin calls = some next → next.Consts := by
    intro calls hnext
    unfold PeerUpdaterRun.begin at hnext
    split at hnext
    case isTrue => exact some.inj hnext ▸ h.same (.refl run.updater) rfl rfl
    case isFalse => cases hnext
  cases event with
  | superNodePingResponse | foundPeerFromSuperNode | packageFromRemotePeer | startTransfer
  | loadDone | loadPeerHistoryByPeerid => exact hbegin _ hnext
  | findByPeerid peerid =>
    simp only [PeerUpdaterRun.next] at hnext
    split at hnext
    case isTrue =>
      unfold findByPeerid at hnext
      split at hnext
      case h_1 => exact some.inj hnext ▸ h
      case h_2 i _ =>
      obtain ⟨updater, haddRef, rfl⟩ := map_eq_some_iff.mp hnext
      have hmoved : PeerUpdater.SameConst run.updater (run.updater.moveToHeader i) :=
        .of_nodes rfl
      exact h.same (hmoved.trans (.addRef haddRef)) rfl rfl
    case isFalse => cases hnext
  | call =>
    simp only [PeerUpdaterRun.next] at hnext
    split at hnext
    case h_1 => cases hnext
    case h_2 call rest hpending =>
    have hcall : call.KeepsConst { run with pending := rest } :=
      hkeeps call (congrArg List.head? hpending)
    have hrest : Consts { run with pending := rest } := h.same (.refl run.updater) rfl rfl
    exact perform_consts { run with pending := rest } hrest hholds.updater hcall hnext
  | addRef i =>
    simp only [PeerUpdaterRun.next] at hnext
    split at hnext
    case isTrue =>
      obtain ⟨updater, haddRef, rfl⟩ := map_eq_some_iff.mp hnext
      exact h.same (.addRef haddRef) rfl rfl
    case isFalse => cases hnext
  | release i =>
    simp only [PeerUpdaterRun.next] at hnext
    split at hnext
    case isTrue =>
      obtain ⟨updater, hrelease, rfl⟩ := map_eq_some_iff.mp hnext
      exact h.same (.release hrelease) rfl rfl
    case isFalse => cases hnext
  | transferEnd i connect rto sendSpeed recvSpeed =>
    simp only [PeerUpdaterRun.next] at hnext
    split at hnext
    case isTrue =>
      obtain ⟨updater, hmodify, rfl⟩ := map_eq_some_iff.mp hnext
      exact h.same (.modify hmodify fun _ => rfl) rfl rfl
    case isFalse => cases hnext

/-! ## What goes wrong otherwise -/

/-- An assertion failed, or a node does not have the constant part that was received for it last. -/
def Missed (run : PeerUpdaterRun) (i : NodeId) : Prop :=
  run.isAsserted = false ∨ ∃ constInfo, run.lastReceived i = some constInfo ∧
    ∀ node, run.updater.node i = some node → node.constInfo ≠ some constInfo

theorem Missed.same (h : run.Missed i)
    (hsame : PeerUpdater.SameConst run.updater next.updater) (hreceived : next.received = run.received)
    (hisAsserted : next.isAsserted = run.isAsserted) : next.Missed i := by
  refine h.imp hisAsserted.trans fun hmissed => ?_
  obtain ⟨constInfo, hlast, hne⟩ := hmissed
  refine ⟨constInfo, ?_, fun other hother => ?_⟩
  · unfold lastReceived at hlast ⊢
    rw [hreceived]
    exact hlast
  · obtain ⟨node, hnode, hconst⟩ := hsame.node i other hother
    exact fun heq => hne node hnode (hconst.symm.trans heq)

theorem Missed.not_kept (h : run.Missed i) (hnode : ∃ node, run.updater.node i = some node) :
    ¬ run.ConstKept := by
  intro hkept
  rcases h with hfalse | hmissed
  · cases hfalse.symm.trans hkept.isAsserted
  · obtain ⟨constInfo, hlast, hne⟩ := hmissed
    obtain ⟨node, hnode⟩ := hnode
    exact hne node hnode (hkept.constInfo i node constInfo hnode hlast)

theorem makeSure_missed (run : PeerUpdaterRun)
    (hholds : run.updater.Holds shape run.held)
    {peerInfo : PeerInfo} (now : Int)
    (hnot : ¬ run.updater.TakesConst peerid peerInfo isAsserted) :
    ∃ next i isNew, run.makeSure peerid (some peerInfo) isAsserted now = some (next, i, isNew) ∧
      i ∈ shape.peers ∧ next.Missed i := by
  unfold PeerUpdater.TakesConst at hnot
  simp only [not_forall] at hnot
  obtain ⟨i, node, hfound, hnode, hnot⟩ := hnot
  have hdefined : ∃ changed,
      (run.updater.moveToHeader i).modify i (·.updateInfo peerInfo now) = some changed := by
    have hmoved : ∃ node, (run.updater.moveToHeader i).node i = some node := ⟨node, hnode⟩
    obtain ⟨changed, hchanged, -⟩ := PeerUpdater.modify_of_node hmoved (·.updateInfo peerInfo now)
    exact ⟨changed, hchanged⟩
  obtain ⟨changed, hchanged⟩ := hdefined
  have hsure : run.updater.makeSurePeerHistoryExist peerid (some peerInfo) now =
      some (changed, i, false, !node.hasConst) := by
    unfold PeerUpdater.makeSurePeerHistoryExist
    rw [hfound]
    simp only [hnode, hchanged, bind_eq_bind, bind_some]
  refine ⟨_, i, false, congrArg (Option.map _) hsure, (hholds.findPeer hfound).1, ?_⟩
  have hchangedNode : changed.node i = some (node.updateInfo peerInfo now) := by
    rw [PeerUpdater.node_modify hchanged, if_pos rfl]
    exact congrArg (Option.map _) hnode
  cases hhas : node.hasConst with
  | false =>
    have hasserted : isAsserted = true := by
      by_contra hfalse
      exact hnot ⟨fun htrue => absurd htrue hfalse, fun htrue => nomatch hhas.symm.trans htrue⟩
    subst hasserted
    exact .inl (Bool.and_false _)
  | true =>
    refine .inr ⟨peerInfo.fields.constInfo, (lastReceived_receive ..).trans (if_pos rfl), ?_⟩
    intro other hother heq
    obtain rfl := some.inj (hchangedNode.symm.trans hother)
    refine hnot ⟨fun _ => hhas, fun _ => ?_⟩
    have hkept : (node.updateInfo peerInfo now).constInfo = node.constInfo := if_pos hhas
    exact hkept.symm.trans heq

theorem addOuter_missed (run : PeerUpdaterRun) (hholds : run.updater.Holds shape run.held)
    (hnot : ¬ run.updater.TakesOuter outer) :
    ∃ next i, run.addOuter outer = some (next, i) ∧ i ∈ shape.peers ∧ next.Missed i := by
  unfold PeerUpdater.TakesOuter at hnot
  simp only [not_forall] at hnot
  obtain ⟨i, node, constInfo, hfound, hnode, houter, hne⟩ := hnot
  obtain ⟨next, j, hadd⟩ := hholds.addOuterPeer_defined outer
  obtain ⟨hj, hsame⟩ := PeerUpdater.SameConst.addOuterPeer hadd
  rw [PeerUpdater.makeSureOuter_found hfound] at hj hsame
  obtain rfl := hj
  refine ⟨_, i, congrArg (Option.map _) hadd, (hholds.findPeer hfound).1, .inr ⟨constInfo, ?_, ?_⟩⟩
  · rw [lastReceived_receive, if_pos rfl, houter]
    rfl
  intro other hother heq
  obtain ⟨old, hold, hconst⟩ := hsame.node i other hother
  obtain rfl := some.inj (hnode.symm.trans hold)
  exact hne (hconst.symm.trans heq)

/-- The next call fails an assertion, or leaves a node of the peers without its constant part. -/
theorem call_breaks (h : run.Holds shape) (hpending : run.pending = call :: rest)
    (hne : call ≠ .limitPeerCount)
    (hnext : PeerUpdaterRun.perform { run with pending := rest } call = some next)
    (hi : i ∈ shape.peers) (hmissed : next.Missed i) :
    ∃ next, run.next .call = some next ∧ ¬ next.ConstKept := by
  obtain ⟨other, hholds, -, hadds⟩ := h.perform hpending hnext
  refine ⟨next, ?_, hmissed.not_kept (hholds.updater.node_of_mem ((hadds hne).peers hi))⟩
  simp only [PeerUpdaterRun.next, hpending]
  exact hnext

theorem addSuperNode_missed (run : PeerUpdaterRun)
    (hvar : run.nodeOf var = some k) (hk : ∃ node, run.updater.node k = some node) (sn : NodeId)
    (hmissed : run.Missed i) : ∃ next, run.addSuperNode var sn = some next ∧ next.Missed i := by
  obtain ⟨updater, hmodify, -⟩ := PeerUpdater.modify_of_node hk (·.addSuperNode sn)
  refine ⟨{ run with updater }, ?_, hmissed.same (.modify hmodify fun _ => rfl) rfl rfl⟩
  unfold addSuperNode
  rw [hvar, bind_eq_bind, bind_some, hmodify]
  rfl

theorem addSuperNodeTime_missed (run : PeerUpdaterRun)
    (hvar : run.peerHistoryNode = some k) (hk : ∃ node, run.updater.node k = some node)
    (hsn : ∃ node, run.updater.node sn = some node) (lastResponseTime : Int) (hmissed : run.Missed i) :
    ∃ next, run.addSuperNodeTime sn lastResponseTime = some next ∧ next.Missed i := by
  obtain ⟨updater, hmodify, hnodes⟩ := PeerUpdater.modify_of_node hsn fun node =>
    { node with
      lastResponseTime :=
        if node.lastResponseTime < lastResponseTime then lastResponseTime
        else node.lastResponseTime }
  have htime : Missed { run with updater } i := hmissed.same (.modify hmodify fun _ => rfl) rfl rfl
  have hvar : PeerUpdaterRun.nodeOf { run with updater } .peerHistoryNode = some k := hvar
  obtain ⟨next, hnext, hmissed⟩ :=
    addSuperNode_missed { run with updater } hvar (hnodes k hk) sn htime
  refine ⟨next, ?_, hmissed⟩
  unfold addSuperNodeTime
  rw [hmodify]
  exact hnext

theorem superNode_missed (run : PeerUpdaterRun) (hholds : run.updater.Holds shape run.held)
    (now : Int) (hvar : run.nodeOf var = some k)
    (hk : k ∈ shape.peers) (hnot : ¬ run.updater.TakesConst snInfo.fields.peerid snInfo true) :
    ∃ next i, run.superNode var snInfo now = some next ∧ i ∈ shape.peers ∧ next.Missed i := by
  obtain ⟨sure, i, isNew, hsure, hi, hmissed⟩ := makeSure_missed run hholds now hnot
  obtain ⟨other, hgrows, hother, -, hmem⟩ := makeSure_effect hholds hsure
  obtain ⟨updater, hflag⟩ := PeerUpdater.makeSureSuperNode_of_node (hother.node_of_mem hmem)
  obtain ⟨third, hgrows', hthird, -⟩ := hother.makeSureSuperNode hflag
  have hflagged : Missed { sure with updater } i :=
    hmissed.same (.makeSureSuperNode hflag) rfl rfl
  obtain ⟨next, hnext, hmissed⟩ := addSuperNode_missed { sure with updater }
    ((makeSure_nodeOf hsure var).trans hvar)
    (hthird.node_of_mem (hgrows'.peers (hgrows.peers hk))) i hflagged
  refine ⟨next, i, ?_, hi, hmissed⟩
  unfold superNode
  simp only [hsure, hflag, bind_eq_bind, bind_some]
  exact hnext

theorem addOuterSuperNode_missed (run : PeerUpdaterRun)
    (hholds : run.updater.Holds shape run.held) {outer : OuterSuperNode}
    (hlocal : run.updater.localPeerid ≠ some outer.peerInfo.peerid)
    (hvar : run.peerHistoryNode = some k) (hk : k ∈ shape.peers)
    (hnot : ¬ run.updater.TakesOuter outer.peerInfo) :
    ∃ next i, run.addOuterSuperNode outer = some next ∧ i ∈ shape.peers ∧ next.Missed i := by
  obtain ⟨added, i, hadd, hi, hmissed⟩ := addOuter_missed run hholds hnot
  obtain ⟨other, hgrows, hother, -, hmem, -⟩ := addOuter_effect hholds hadd
  obtain ⟨next, hnext, hmissed⟩ := addSuperNodeTime_missed added ((addOuter_node hadd).trans hvar)
    (hother.node_of_mem (hgrows.peers hk)) (hother.node_of_mem hmem) outer.lastResponseTime hmissed
  refine ⟨next, i, ?_, hi, hmissed⟩
  unfold addOuterSuperNode
  rw [if_neg hlocal, hadd]
  exact hnext

theorem next_breaks_const (h : run.Holds shape)
    (hnot : ¬ event.KeepsConst run) : ∃ next, run.next event = some next ∧ ¬ next.ConstKept := by
  cases event with
  | call =>
    simp only [UpdaterEvent.KeepsConst, not_forall] at hnot
    obtain ⟨call, hhead, hnot⟩ := hnot
    obtain ⟨rest, hpending⟩ := List.head?_eq_some_iff.mp hhead
    have hvarNode : ∀ k ∈ run.varNodes, call ≠ .addRef → k ∈ shape.peers := fun k hk hne =>
      h.named.elim (fun hpeers => hpeers k hk)
        fun hrefs => absurd (hrefs call (hpending ▸ List.mem_cons_self)) hne
    cases call with
    | makeSure var peerid _ isAsserted now =>
      simp only [UpdaterCall.KeepsConst, not_forall] at hnot
      obtain ⟨info, rfl, hnot⟩ := hnot
      obtain ⟨sure, i, isNew, hsure, hi, hmissed⟩ :=
        makeSure_missed { run with pending := rest } h.updater now hnot
      have hperform : PeerUpdaterRun.perform { run with pending := rest }
          (.makeSure var peerid (some info) isAsserted now) = _ := congrArg (Option.map _) hsure
      refine call_breaks h hpending nofun hperform hi ?_
      cases var <;> exact hmissed.same (.refl sure.updater) rfl rfl
    | superNode var snInfo now =>
      simp only [UpdaterCall.KeepsConst, not_forall] at hnot
      obtain ⟨hvar, hnot⟩ := hnot
      obtain ⟨k, hk⟩ := ne_none_iff_exists'.mp hvar
      have hmem : k ∈ run.varNodes := by
        cases var with
        | peerHistoryNode => exact mem_varNodes.mpr (.inl hk)
        | snPeerHistoryNode => exact mem_varNodes.mpr (.inr hk)
      obtain ⟨next, i, hnext, hi, hmissed⟩ :=
        superNode_missed { run with pending := rest } h.updater now hk
          (hvarNode k hmem nofun) hnot
      exact call_breaks h hpending nofun hnext hi hmissed
    | addOuter outer =>
      obtain ⟨added, i, hadd, hi, hmissed⟩ :=
        addOuter_missed { run with pending := rest } h.updater hnot
      have hperform : PeerUpdaterRun.perform { run with pending := rest } (.addOuter outer) = _ :=
        congrArg (Option.map _) hadd
      exact call_breaks h hpending nofun hperform hi
        (hmissed.same (.refl added.updater) rfl rfl)
    | addOuterSuperNode outer =>
      simp only [UpdaterCall.KeepsConst, not_forall] at hnot
      obtain ⟨hlocal, hvar, hnot⟩ := hnot
      obtain ⟨k, hk⟩ := ne_none_iff_exists'.mp hvar
      obtain ⟨next, i, hnext, hi, hmissed⟩ :=
        addOuterSuperNode_missed { run with pending := rest } h.updater hlocal hk
          (hvarNode k (mem_varNodes.mpr (.inl hk)) nofun) hnot
      exact call_breaks h hpending nofun hnext hi hmissed
    | _ => exact absurd trivial hnot
  | _ => exact absurd trivial hnot

/-- The assertions hold, and each peer keeps what was received or loaded for it last, if and only if
each call receives or loads what agrees with what is known of its peer. -/
theorem const_info_received (localPeerInfo : PeerInfo) (isSuperNode : Bool) (peerCapacity : UInt32)
    (now : Int) (events : List UpdaterEvent) :
    Throughout PeerUpdaterRun.next ConstKept (start localPeerInfo isSuperNode peerCapacity now) events ↔
      StepsMeet PeerUpdaterRun.next (fun run event => event.KeepsConst run)
        (start localPeerInfo isSuperNode peerCapacity now) events := by
  have hstart := start_holds localPeerInfo isSuperNode peerCapacity now
  have hconsts : (start localPeerInfo isSuperNode peerCapacity now).Consts :=
    ⟨⟨rfl, fun _ _ _ hnode => nomatch hnode⟩, fun _ hentry => nomatch hentry⟩
  have hkept : ∀ (run : PeerUpdaterRun) event next, (run.Consts ∧ ∃ shape, run.Holds shape) →
      event.KeepsConst run → run.next event = some next →
      next.Consts ∧ ∃ shape, next.Holds shape := by
    intro run event next h hkeeps hnext
    obtain ⟨h, shape, hholds⟩ := h
    obtain ⟨other, hother, -⟩ := next_holds hholds hnext
    exact ⟨next_consts h hholds hkeeps hnext, other, hother⟩
  refine throughout_iff ⟨hconsts, {}, hstart⟩ (fun run h => h.1.toConstKept) hkept ?_
  intro front run event hfront _ hnot
  obtain ⟨shape, h⟩ := exec_holds hstart hfront
  exact next_breaks_const h hnot

/-- A peer that was loaded, and then answers a ping as a super node. -/
theorem loaded_peer_not_flagged :
    ¬ ∀ (localPeerInfo : PeerInfo) (isSuperNode : Bool) (peerCapacity : UInt32) (now : Int)
        (events : List UpdaterEvent),
      Throughout PeerUpdaterRun.next ConstKept (start localPeerInfo isSuperNode peerCapacity now)
        events := by
  intro h
  obtain ⟨run, hrun, hcheck⟩ : ∃ run,
      exec PeerUpdaterRun.next (start (plainPeerInfo 1) false 100 1000) ([.call, .call, .loadDone [some
          { peerInfo :=
              { peerid := (plainPeerInfo 2).fields.peerid
                constInfo := some (plainPeerInfo 2).fields.constInfo
                isSn := true
                connectVector := [] }
            snVector := [] }]] ++ .replicate 3 .call ++
        [.superNodePingResponse (plainPeerInfo 2) 1001] ++ .replicate 3 .call) = some run ∧
      (!run.isAsserted) = true :=
    exists_of_any (by decide +kernel)
  have hkept := (h (plainPeerInfo 1) false 100 1000 _ _ [] run (List.append_nil _).symm hrun).isAsserted
  rw [hkept] at hcheck
  cases hcheck

end PeerUpdaterRun

end Bdt
