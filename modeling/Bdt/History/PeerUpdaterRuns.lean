import Bdt.History.PeerCapacity

/-!
# Runs of the peer updater

What each call does to the shape of the history, and what follows for runs. The structure is kept
whatever the operations do, but for super nodes that are flagged and not listed, and for peers that are
not counted.

`peer_history_structured`: the lists, the map and the count agree in every state of a run whose calls
flag no super node that is not flagged already, and whose limits find enough peers to remove.
-/

namespace Bdt

open Base List Option

namespace PeerUpdater

variable {updater next : PeerUpdater} {shape : PeerShape} {held : List NodeId} {i sn : NodeId}

variable (h : updater.Holds shape held)
include h

theorem Holds.held_perm {other : List NodeId} (hperm : held.Perm other) :
    updater.Holds shape other :=
  { h with balanced := h.balanced.perm ((hperm.append_left _).append_right _) }

theorem Holds.addRefs {nodes : List NodeId}
    (hnext : PeerUpdaterRun.addRefs updater nodes = some next) : next.Holds shape (nodes ++ held) := by
  induction nodes generalizing updater held with
  | nil => exact some.inj hnext ▸ h
  | cons _ _ ih =>
    obtain ⟨referred, hreferred, hnext⟩ := bind_eq_some_iff.mp hnext
    exact (ih (h.addRef hreferred) hnext).held_perm perm_middle

theorem Holds.addSuperNode (hsn : updater.IsFlagged sn)
    (hnext : updater.modify i (·.addSuperNode sn) = some next) : next.Holds shape held := by
  refine h.modify_same hnext (fun node => ⟨rfl, rfl, rfl⟩) (fun node _ => rfl) ?_
  intro node _ other hother
  unfold PeerInfoNode.addSuperNode at hother
  split at hother
  case isTrue => exact .inl hother
  case isFalse =>
  rcases mem_concat.mp hother with hold | hnew
  · exact .inl hold
  · exact .inr (hnew ▸ hsn)

/-- A node is flagged as a super node, and not put into the list. -/
theorem Holds.flag {change : PeerInfoNode → PeerInfoNode}
    (hnext : updater.modify i change = some next)
    (hchange : ∀ node, Keeps node (change node) ∧ (change node).isSn = true ∧
      (change node).connectVector = node.connectVector ∧ (change node).snVector = node.snVector) :
    ∃ unlisted, next.Holds { shape with unlisted } held ∧ next.IsFlagged i ∧
      (updater.IsFlagged i → unlisted = shape.unlisted) := by
  have hflagged : next.IsFlagged i := by
    obtain ⟨cell, hcell, -⟩ := map_eq_some_iff.mp hnext
    refine ⟨change cell.value, ?_, (hchange cell.value).2.1⟩
    rw [node_modify hnext, if_pos rfl, node_eq_some.mpr ⟨cell, hcell, rfl⟩]
    rfl
  have hmodify : ∀ unlisted, shape.unlisted ⊆ unlisted →
      (∀ node, updater.node i = some node → node.isSn = true ∨ i ∈ unlisted) →
      next.Holds { shape with unlisted } held := by
    intro unlisted hsubset hcase
    refine h.modify hnext (fun node _ => (hchange node).1) ?_ ?_ hsubset ?_
    · exact fun node _ => congrArg boundCount (hchange node).2.2.1
    · exact fun node _ sn hsn => .inl ((hchange node).2.2.2 ▸ hsn)
    · exact fun node hnode _ => hcase node hnode
  by_cases hold : updater.IsFlagged i
  · refine ⟨shape.unlisted, hmodify _ (List.Subset.refl _) ?_, hflagged, fun _ => rfl⟩
    intro node hnode
    obtain ⟨other, hother, hsn⟩ := hold
    exact .inl (some.inj (hnode.symm.trans hother) ▸ hsn)
  · exact ⟨i :: shape.unlisted,
      hmodify _ (subset_cons_self _ _) fun _ _ => .inr mem_cons_self,
      hflagged, fun h => absurd h hold⟩

/-- The local node is known from now on. No connection refers to it yet. -/
theorem Holds.setLocal (hlocal : updater.localHistory = none)
    {node : PeerInfoNode} (hnode : updater.node i = some node) (hisLocal : node.isLocal = true) :
    Holds { updater with localHistory := some i } { shape with localHistory := some i } held := by
  have hbound : shape.bound = [] := h.unbound hlocal
  have hrefs : localRefs { updater with localHistory := some i } shape.bound =
      updater.localRefs shape.bound := by
    rw [hbound]
    rfl
  exact { h with
    balanced := hrefs ▸ h.balanced
    localNode := fun j hj => some.inj hj ▸ ⟨node, hnode, hisLocal⟩
    unbound := nofun
    localHistory := rfl }

end PeerUpdater

namespace UpdaterCall

/-- A call does not flag a super node that is not listed, and does not lose count of the peers. -/
def KeepsStructure (run : PeerUpdaterRun) : UpdaterCall → Prop
  | updateSuperNodeInfo _ =>
    ∀ i sn, run.peerHistoryNode = some i → run.snPeerHistoryNode = some sn →
      run.updater.IsFlagged sn
  | setLocal isSuperNode =>
    isSuperNode = true → ∀ i, run.peerHistoryNode = some i → run.updater.IsFlagged i
  | limitPeerCount => run.updater.LimitReaches
  | _ => True

/-- What an operation still has to do fits the state: what it remembers is in the lists, and the limit
and the end of the creation come last. -/
def Fits (updater : PeerUpdater) (shape : PeerShape) : List UpdaterCall → Prop
  | [] => True
  | relink peerListOld snListOld :: rest =>
    ((∀ i, peerListOld = some i → i ∈ shape.peers) ∧ ∀ i, snListOld = some i → i ∈ shape.sns) ∧
      Fits updater shape rest
  | setLocal _ :: rest => updater.localHistory = none ∧ rest = []
  | limitPeerCount :: rest => ∀ call ∈ rest, call = addRef
  | _ :: rest => Fits updater shape rest

/-- A call that may come at any time. -/
def IsPlain : UpdaterCall → Prop
  | relink _ _ | setLocal _ | limitPeerCount => False
  | _ => True

variable {updater next : PeerUpdater} {shape other : PeerShape} {calls front : List UpdaterCall}

theorem Fits.append (hfront : ∀ call ∈ front, call.IsPlain) (h : Fits updater shape calls) :
    Fits updater shape (front ++ calls) := by
  induction front with
  | nil => exact h
  | cons call _ ih =>
    have hrest := ih fun call hmem => hfront call (mem_cons_of_mem _ hmem)
    have hcall := hfront call mem_cons_self
    cases call <;> first | exact hrest | exact hcall.elim

theorem Fits.mono (h : Fits updater shape calls) (hlocal : next.localHistory = updater.localHistory)
    (hpeers : shape.peers ⊆ other.peers) (hsns : shape.sns ⊆ other.sns) :
    Fits next other calls := by
  induction calls with
  | nil => trivial
  | cons call _ ih =>
    cases call with
    | relink => exact ⟨⟨fun i hi => hpeers (h.1.1 i hi), fun i hi => hsns (h.1.2 i hi)⟩, ih h.2⟩
    | setLocal => exact ⟨hlocal.trans h.1, h.2⟩
    | limitPeerCount => exact h
    | _ => exact ih h

theorem Fits.of_addRef (h : ∀ call ∈ calls, call = addRef) : Fits updater shape calls := by
  rw [← append_nil calls]
  refine Fits.append (fun call hmem => ?_) trivial
  rw [h call hmem]
  trivial

theorem updateFull_plain (var : NodeVariable) (peerid : Peerid) (peerInfo : Option PeerInfo)
    (isAsserted : Bool) (now : Int) :
    ∀ call ∈ updateFull var peerid peerInfo isAsserted now, call.IsPlain := by
  intro call hmem
  rcases mem_cons.mp hmem with rfl | hmem
  · trivial
  cases peerInfo with
  | none => cases hmem
  | some =>
    obtain ⟨snInfo, -, rfl⟩ := mem_map.mp hmem
    trivial

theorem addOuterHistory_plain (outer : OuterHistory) (addSNPeerids : List Peerid) :
    ∀ call ∈ addOuterHistory outer addSNPeerids, call.IsPlain := by
  intro call hmem
  rcases mem_cons.mp hmem with rfl | hmem
  · trivial
  split at hmem
  case isTrue => cases hmem
  case isFalse =>
  rcases mem_append.mp hmem with hmem | hmem
  · obtain ⟨sn, -, hsn⟩ := mem_filterMap.mp hmem
    obtain ⟨sn, -, rfl⟩ := map_eq_some_iff.mp hsn
    trivial
  · obtain ⟨peerid, -, rfl⟩ := mem_map.mp hmem
    trivial

theorem create_fits (localPeerInfo : PeerInfo) (isSuperNode : Bool) (now : Int)
    (h : updater.localHistory = none) :
    Fits updater shape (create localPeerInfo isSuperNode now) :=
  Fits.append (updateFull_plain _ _ _ _ _) ⟨h, rfl⟩

theorem superNodePingResponse_fits (snPeerInfo : PeerInfo) (now : Int) :
    Fits updater shape (superNodePingResponse snPeerInfo now) := by
  have hend : Fits updater shape [updateSuperNodeInfo now, addRef, limitPeerCount] :=
    fun _ hmem => nomatch hmem
  have hrest : Fits updater shape (updateFull .snPeerHistoryNode snPeerInfo.fields.peerid
      (some snPeerInfo) true now ++ [updateSuperNodeInfo now, addRef, limitPeerCount]) :=
    Fits.append (updateFull_plain _ _ _ _ _) hend
  exact hrest

theorem foundPeerFromSuperNode_fits (peerInfo snPeerInfo : PeerInfo) (now : Int) :
    Fits updater shape (foundPeerFromSuperNode updater peerInfo snPeerInfo now) := by
  refine Fits.append ?_ ?_
  · split
    case isTrue => exact updateFull_plain _ _ _ _ _
    case isFalse =>
    intro call hmem
    rw [mem_singleton.mp hmem]
    trivial
  have hend : Fits updater shape [updateSuperNodeInfo now, limitPeerCount, addRef] :=
    fun _ => mem_singleton.mp
  have hrest : Fits updater shape (updateFull .snPeerHistoryNode snPeerInfo.fields.peerid
      (some snPeerInfo) true now ++ [updateSuperNodeInfo now, limitPeerCount, addRef]) :=
    Fits.append (updateFull_plain _ _ _ _ _) hend
  exact hrest

theorem packageFromRemotePeer_fits (remotePeerid : Peerid) (remotePeerInfo : Option PeerInfo)
    (remoteEndpoint : BdtEndpoint) (localEndpoint : Option BdtEndpoint)
    (connectType : PeerConnectType) (rto : UInt32) (now : Int) :
    Fits updater shape (packageFromRemotePeer updater remotePeerid remotePeerInfo remoteEndpoint
      localEndpoint connectType rto now) := by
  unfold packageFromRemotePeer
  split
  case isTrue => trivial
  case isFalse =>
  split
  case h_1 => trivial
  case h_2 => exact Fits.append (updateFull_plain _ _ _ _ _) (fun _ => mem_singleton.mp)

theorem onStartTransfer_fits (remotePeerInfo : PeerInfo) (remoteEndpoint : BdtEndpoint)
    (localEndpoint : Option BdtEndpoint) (now : Int) :
    Fits updater shape
      (onStartTransfer updater remotePeerInfo remoteEndpoint localEndpoint now) := by
  unfold onStartTransfer
  split
  case isTrue => trivial
  case isFalse =>
  split
  case h_1 => trivial
  case h_2 => exact Fits.append (updateFull_plain _ _ _ _ _) (fun _ hmem => nomatch hmem)

theorem addOuterHistory_fits (outer : OuterHistory) (addSNPeerids : List Peerid) :
    Fits updater shape (addOuterHistory outer addSNPeerids) := by
  rw [← append_nil (addOuterHistory outer addSNPeerids)]
  exact Fits.append (addOuterHistory_plain outer addSNPeerids) trivial

theorem mergeOuterHistory_fits {held : List NodeId} (h : updater.Holds shape held)
    (outerHistorys : List (Option OuterHistory)) :
    Fits updater shape (mergeOuterHistory updater outerHistorys) := by
  have hlimit : Fits updater shape [limitPeerCount] := fun _ hmem => nomatch hmem
  unfold mergeOuterHistory
  split
  case isTrue => exact hlimit
  case isFalse =>
  rw [append_assoc]
  refine Fits.append (fun call hmem => ?_) ⟨⟨fun i hi => ?_, fun i hi => ?_⟩, hlimit⟩
  · obtain ⟨outer, -, hmem⟩ := mem_flatMap.mp hmem
    cases outer with
    | none => cases hmem
    | some outer => exact addOuterHistory_plain outer [] call hmem
  · exact mem_of_head? (h.peerList.head.symm.trans hi)
  · exact mem_of_head? (h.snList.head.symm.trans hi)

end UpdaterCall

namespace PeerUpdaterRun

variable {run : PeerUpdaterRun} {call : UpdaterCall}

theorem mem_varNodes {i : NodeId} : i ∈ run.varNodes ↔
    run.peerHistoryNode = some i ∨ run.snPeerHistoryNode = some i := by
  unfold varNodes
  rw [mem_append, mem_toList, mem_toList]

theorem mem_varNodes_setNode (var : NodeVariable) {i j : NodeId}
    (h : j ∈ (run.setNode var i).varNodes) : j = i ∨ j ∈ run.varNodes := by
  rw [mem_varNodes] at h ⊢
  cases var with
  | peerHistoryNode => exact h.imp (fun h => (some.inj h).symm) .inr
  | snPeerHistoryNode => exact h.symm.imp (fun h => (some.inj h).symm) .inl

/-- What most calls leave alone. -/
structure Frame (run next : PeerUpdaterRun) : Prop where
  pending : next.pending = run.pending
  varNodes : next.varNodes = run.varNodes

theorem Frame.refl (run : PeerUpdaterRun) : Frame run run :=
  ⟨rfl, rfl⟩

theorem Frame.trans {next third : PeerUpdaterRun} (h : Frame run next) (h' : Frame next third) :
    Frame run third :=
  ⟨h'.pending.trans h.pending, h'.varNodes.trans h.varNodes⟩

/-- Peers are only added, and the variables name peers. -/
structure Adds (run next : PeerUpdaterRun) (shape other : PeerShape) : Prop where
  varNodes : ∀ i ∈ next.varNodes, i ∈ run.varNodes ∨ i ∈ other.peers
  peers : shape.peers ⊆ other.peers

/-- A call that adds peers, and flags super nodes. -/
structure Effect (isKept : Prop) (run next : PeerUpdaterRun) (shape other : PeerShape) : Prop
    extends Adds run next shape other where
  holds : next.updater.Holds other next.held
  pending : next.pending = run.pending
  sns : shape.sns ⊆ other.sns
  localHistory : other.localHistory = shape.localHistory
  kept : isKept → other.unlisted = shape.unlisted ∧ other.gap = shape.gap

variable {run next : PeerUpdaterRun} {shape other : PeerShape} {isKept : Prop} {i : NodeId}

theorem Effect.of_grows (hgrows : shape.Grows other) (hholds : next.updater.Holds other next.held)
    (hpending : next.pending = run.pending)
    (hvarNodes : ∀ i ∈ next.varNodes, i ∈ run.varNodes ∨ i ∈ other.peers) :
    Effect isKept run next shape other where
  holds := hholds
  pending := hpending
  varNodes := hvarNodes
  peers := hgrows.peers
  sns := hgrows.sns
  localHistory := hgrows.localHistory
  kept := fun _ => ⟨hgrows.unlisted, hgrows.gap⟩

theorem Effect.of_frame (hgrows : shape.Grows other) (hholds : next.updater.Holds other next.held)
    (hframe : Frame run next) : Effect isKept run next shape other :=
  .of_grows hgrows hholds hframe.pending fun _ hi => .inl (hframe.varNodes ▸ hi)

theorem Effect.of_eq (h : run.updater.Holds shape run.held) (heq : run = next) :
    Effect isKept run next shape shape :=
  heq ▸ .of_frame (.refl shape) h (.refl run)

variable {now : Int}

theorem makeSure_effect (h : run.updater.Holds shape run.held) {peerid : Peerid}
    {peerInfo : Option PeerInfo} {isAsserted isNew : Bool}
    (hnext : run.makeSure peerid peerInfo isAsserted now = some (next, i, isNew)) :
    ∃ other, shape.Grows other ∧ next.updater.Holds other next.held ∧ Frame run next ∧
      i ∈ other.peers := by
  obtain ⟨⟨updater, j, isNew', isNewConstInfo⟩, hsure, heq⟩ := map_eq_some_iff.mp hnext
  cases heq
  obtain ⟨other, hgrows, hholds, hmem⟩ := h.makeSurePeerHistoryExist hsure
  exact ⟨other, hgrows, hholds, ⟨rfl, rfl⟩, hmem⟩

theorem addSuperNode_holds (run : PeerUpdaterRun) {held : List NodeId}
    (h : run.updater.Holds shape held) {var : NodeVariable} {sn : NodeId}
    (hsn : run.updater.IsFlagged sn) (hnext : run.addSuperNode var sn = some next) :
    next.updater.Holds shape held ∧ next.held = run.held ∧ Frame run next := by
  obtain ⟨i, -, hnext⟩ := bind_eq_some_iff.mp hnext
  obtain ⟨updater, hmodify, hnext⟩ := bind_eq_some_iff.mp hnext
  cases hnext
  exact ⟨h.addSuperNode hsn hmodify, rfl, rfl, rfl⟩

section

variable (h : run.updater.Holds shape run.held)
include h

theorem superNode_effect {var : NodeVariable}
    {snInfo : PeerInfo} (hnext : run.superNode var snInfo now = some next) :
    ∃ other, Effect isKept run next shape other := by
  obtain ⟨⟨sure, sn, isNew⟩, hsure, hnext⟩ := bind_eq_some_iff.mp hnext
  obtain ⟨updater, hflag, hnext⟩ := bind_eq_some_iff.mp hnext
  obtain ⟨other, hgrows, hholds, hframe, -⟩ := makeSure_effect h hsure
  obtain ⟨third, hgrows', hholds', hflagged⟩ := hholds.makeSureSuperNode hflag
  obtain ⟨hadded, hheld, hframe'⟩ :=
    addSuperNode_holds { sure with updater } hholds' hflagged hnext
  exact ⟨third, .of_frame (hgrows.trans hgrows') (hheld ▸ hadded)
    ⟨hframe'.pending.trans hframe.pending, hframe'.varNodes.trans hframe.varNodes⟩⟩

theorem updateSuperNodeInfo_holds (hnext : run.updateSuperNodeInfo now = some next) :
    ∃ peer sn unlisted, run.peerHistoryNode = some peer ∧ run.snPeerHistoryNode = some sn ∧
      next.updater.Holds { shape with unlisted } next.held ∧ next.updater.IsFlagged sn ∧
      (run.updater.IsFlagged sn → unlisted = shape.unlisted) ∧ Frame run next := by
  obtain ⟨peer, hpeer, hnext⟩ := bind_eq_some_iff.mp hnext
  obtain ⟨sn, hsn, hnext⟩ := bind_eq_some_iff.mp hnext
  obtain ⟨snNode, hsnNode, hnext⟩ := bind_eq_some_iff.mp hnext
  obtain ⟨flagged, hflag, hnext⟩ := bind_eq_some_iff.mp hnext
  obtain ⟨added, hadd, hnext⟩ := bind_eq_some_iff.mp hnext
  obtain ⟨node, -, hnext⟩ := bind_eq_some_iff.mp hnext
  cases hnext
  obtain ⟨unlisted, hholds, hflagged, hsame⟩ := h.flag hflag fun node =>
    ⟨⟨rfl, fun _ => rfl, id⟩, rfl, rfl, rfl⟩
  exact ⟨peer, sn, unlisted, hpeer, hsn, hholds.addSuperNode hflagged hadd,
    hflagged.modify hadd fun _ => id, hsame, rfl, rfl⟩

theorem addRef_effect (hnext : run.addRef = some next) : Effect isKept run next shape shape := by
  unfold addRef at hnext
  split at hnext
  case isTrue =>
    obtain ⟨updater, hrefs, rfl⟩ := map_eq_some_iff.mp hnext
    exact .of_frame (.refl shape) (h.addRefs hrefs) ⟨rfl, rfl⟩
  case isFalse => exact .of_eq h (some.inj hnext)

/-! ## Loading -/

theorem addOuter_effect {outer : OuterPeerInfo} (hnext : run.addOuter outer = some (next, i)) :
    ∃ other, shape.Grows other ∧ next.updater.Holds other next.held ∧ Frame run next ∧
      i ∈ other.peers ∧ (outer.isSn = true → next.updater.IsFlagged i) := by
  obtain ⟨⟨updater, j⟩, hadd, heq⟩ := map_eq_some_iff.mp hnext
  cases heq
  obtain ⟨other, hgrows, hholds, hmem, hflagged⟩ := h.addOuterPeer hadd
  exact ⟨other, hgrows, hholds, ⟨rfl, rfl⟩, hmem, hflagged⟩

end

theorem addSuperNodeTime_holds (run : PeerUpdaterRun) {held : List NodeId}
    (h : run.updater.Holds shape held) {sn : NodeId} {lastResponseTime : Int}
    (hsn : run.updater.IsFlagged sn) (hnext : run.addSuperNodeTime sn lastResponseTime = some next) :
    next.updater.Holds shape held ∧ next.held = run.held ∧ Frame run next := by
  obtain ⟨updater, hmodify, hnext⟩ := bind_eq_some_iff.mp hnext
  have hholds : updater.Holds shape held :=
    h.modify_same hmodify (fun node => ⟨rfl, rfl, rfl⟩) (fun node _ => rfl)
      fun node _ sn hmem => .inl hmem
  obtain ⟨hadded, hheld, hframe⟩ :=
    addSuperNode_holds { run with updater } hholds (hsn.modify hmodify fun _ => id) hnext
  exact ⟨hadded, hheld, hframe.pending, hframe.varNodes⟩

section

variable (h : run.updater.Holds shape run.held)
include h

theorem addOuterSuperNode_effect {outer : OuterSuperNode}
    (hnext : run.addOuterSuperNode outer = some next) :
    ∃ other, Effect isKept run next shape other := by
  unfold addOuterSuperNode at hnext
  split at hnext
  case isTrue =>
    obtain ⟨sn, -, hnext⟩ := bind_eq_some_iff.mp hnext
    obtain ⟨node, hnode, hnext⟩ := bind_eq_some_iff.mp hnext
    split at hnext
    case isTrue hsn =>
      obtain ⟨hholds, hheld, hframe⟩ := addSuperNodeTime_holds run h ⟨node, hnode, hsn⟩ hnext
      exact ⟨shape, .of_frame (.refl shape) (hheld ▸ hholds) hframe⟩
    case isFalse => exact ⟨shape, .of_eq h (some.inj hnext)⟩
  case isFalse =>
  obtain ⟨⟨added, sn⟩, hadd, hnext⟩ := bind_eq_some_iff.mp hnext
  obtain ⟨other, hgrows, hholds, hframe, -, hflagged⟩ := addOuter_effect h hadd
  obtain ⟨hholds, hheld, hframe'⟩ :=
    addSuperNodeTime_holds added hholds (hflagged outer.isSn) hnext
  exact ⟨other, .of_frame hgrows (hheld ▸ hholds) (hframe.trans hframe')⟩

theorem addOuterSnPeerid_effect {peerid : Peerid}
    (hnext : run.addOuterSnPeerid peerid = some next) : Effect isKept run next shape shape := by
  unfold addOuterSnPeerid at hnext
  split at hnext
  case h_1 => exact .of_eq h (some.inj hnext)
  case h_2 sn _ =>
  obtain ⟨node, hnode, hnext⟩ := bind_eq_some_iff.mp hnext
  split at hnext
  case isTrue hsn =>
    obtain ⟨hholds, hheld, hframe⟩ := addSuperNode_holds run h ⟨node, hnode, hsn⟩ hnext
    exact .of_frame (.refl shape) (hheld ▸ hholds) hframe
  case isFalse => exact .of_eq h (some.inj hnext)

theorem relink_effect {peerListOld snListOld : Option NodeId}
    (hpeer : ∀ i, peerListOld = some i → i ∈ shape.peers)
    (hsn : ∀ i, snListOld = some i → i ∈ shape.sns) :
    ∃ other, Effect isKept run
      { run with updater := run.updater.relink peerListOld snListOld } shape other := by
  cases peerListOld with
  | none => exact ⟨shape, .of_frame (.refl shape) h ⟨rfl, rfl⟩⟩
  | some peerListOld =>
    obtain ⟨peers, hpeers, hholds⟩ := h.relinkPeers (hpeer peerListOld rfl)
    obtain ⟨sns, hsns, hholds⟩ := hholds.relinkSuperNodes hsn
    exact ⟨{ shape with peers, sns },
      .of_frame ⟨hpeers.subset, hsns.subset, rfl, rfl, rfl⟩ hholds ⟨rfl, rfl⟩⟩

/-! ## Steps -/

/-- The local node is marked, and maybe flagged as a super node, and not put into the list. -/
theorem setLocal_holds (hlocal : run.updater.localHistory = none) {isSuperNode : Bool}
    (hnext : run.setLocal isSuperNode = some next) :
    ∃ i unlisted, run.peerHistoryNode = some i ∧
      next.updater.Holds { shape with unlisted, localHistory := some i } next.held ∧
      (isSuperNode = true → next.updater.IsFlagged i) ∧
      ((isSuperNode = true → run.updater.IsFlagged i) → unlisted = shape.unlisted) ∧
      Frame run next := by
  obtain ⟨i, hi, hnext⟩ := bind_eq_some_iff.mp hnext
  obtain ⟨updater, hmodify, hnext⟩ := bind_eq_some_iff.mp hnext
  cases hnext
  have hchanged : ∃ unlisted, updater.Holds { shape with unlisted } run.held ∧
      (isSuperNode = true → updater.IsFlagged i) ∧
      ((isSuperNode = true → run.updater.IsFlagged i) → unlisted = shape.unlisted) := by
    cases isSuperNode with
    | true =>
      obtain ⟨unlisted, hholds, hflagged, hsame⟩ := h.flag hmodify fun node =>
        ⟨⟨rfl, fun _ => Bool.or_true _, fun _ => rfl⟩, Bool.or_true _, rfl, rfl⟩
      exact ⟨unlisted, hholds, fun _ => hflagged, fun hflagged => hsame (hflagged rfl)⟩
    | false =>
      refine ⟨shape.unlisted, h.modify hmodify ?_ ?_ ?_ (List.Subset.refl _) ?_, nofun,
        fun _ => rfl⟩
      · exact fun node _ => ⟨rfl, fun hsn => (Bool.or_false _).trans hsn, fun _ => rfl⟩
      · exact fun node _ => rfl
      · exact fun node _ sn hsn => .inl hsn
      · exact fun node _ hsn => .inl ((Bool.or_false _).symm.trans hsn)
  obtain ⟨unlisted, hholds, hflagged, hsame⟩ := hchanged
  have hnode := PeerUpdater.node_modify hmodify i
  obtain ⟨cell, hcell, rfl⟩ := map_eq_some_iff.mp hmodify
  rw [if_pos rfl, PeerUpdater.node_eq_some.mpr ⟨cell, hcell, rfl⟩] at hnode
  exact ⟨i, unlisted, hi, hholds.setLocal hlocal hnode rfl, hflagged, hsame, rfl, rfl⟩

/-- The variables of the operation are peers, until the count is limited. -/
def Named (run : PeerUpdaterRun) (shape : PeerShape) : Prop :=
  (∀ i ∈ run.varNodes, i ∈ shape.peers) ∨ ∀ call ∈ run.pending, call = .addRef

/-- The structure of the history, and what is pending. -/
structure Holds (run : PeerUpdaterRun) (shape : PeerShape) : Prop where
  updater : run.updater.Holds shape run.held
  fits : UpdaterCall.Fits run.updater shape run.pending
  named : run.Named shape

theorem Effect.step (hfits : UpdaterCall.Fits run.updater shape run.pending)
    (hnamed : Named { run with pending := call :: run.pending } shape)
    (heffect : Effect isKept run next shape other) : next.Holds other where
  updater := heffect.holds
  fits := by
    have hlocal : next.updater.localHistory = run.updater.localHistory := by
      rw [heffect.holds.localHistory, heffect.localHistory, h.localHistory]
    exact heffect.pending ▸ hfits.mono hlocal heffect.peers heffect.sns
  named := by
    rcases hnamed with hpeers | hrefs
    · exact .inl fun i hi => (heffect.varNodes i hi).elim
        (fun hold => heffect.peers (hpeers i hold)) id
    · exact .inr fun call hmem => hrefs call (mem_cons_of_mem _ (heffect.pending ▸ hmem))

end

theorem perform_holds (run : PeerUpdaterRun) (h : run.updater.Holds shape run.held)
    (hfits : UpdaterCall.Fits run.updater shape (call :: run.pending))
    (hnamed : Named { run with pending := call :: run.pending } shape)
    (hnext : run.perform call = some next) :
    ∃ other, next.Holds other ∧
      (call.KeepsStructure run → other.unlisted = shape.unlisted ∧ other.gap = shape.gap) ∧
      (call ≠ .limitPeerCount → Adds run next shape other) := by
  -- the calls that only add
  have hadds : ∀ other, UpdaterCall.Fits run.updater shape run.pending →
      Effect (call.KeepsStructure run) run next shape other → ∃ other, next.Holds other ∧
        (call.KeepsStructure run → other.unlisted = shape.unlisted ∧ other.gap = shape.gap) ∧
        (call ≠ .limitPeerCount → Adds run next shape other) :=
    fun other hfits heffect =>
      ⟨other, heffect.step h hfits hnamed, heffect.kept, fun _ => heffect.toAdds⟩
  cases call with
  | makeSure var =>
    obtain ⟨⟨sure, i, isNew⟩, hsure, rfl⟩ := map_eq_some_iff.mp hnext
    obtain ⟨other, hgrows, hholds, hframe, hmem⟩ := makeSure_effect h hsure
    refine hadds other hfits (.of_grows hgrows ?_ ?_ ?_)
    · cases var <;> exact hholds
    · cases var <;> exact hframe.pending
    intro j hj
    rcases mem_varNodes_setNode var hj with rfl | hj
    · exact .inr hmem
    · exact .inl (hframe.varNodes ▸ hj)
  | superNode =>
    obtain ⟨other, heffect⟩ := superNode_effect h hnext
    exact hadds other hfits heffect
  | useLocal =>
    cases hnext
    refine hadds shape hfits (.of_grows (.refl shape) h rfl fun i hi => ?_)
    rcases mem_varNodes.mp hi with hi | hi
    · obtain ⟨node, hnode, -⟩ := h.localNode i hi
      exact .inr (h.peers_of_node i node hnode)
    · exact .inl (mem_varNodes.mpr (.inr hi))
  | countSuperNodes =>
    obtain ⟨node, -, rfl⟩ := map_eq_some_iff.mp hnext
    exact hadds shape hfits (.of_frame (.refl shape) h ⟨rfl, rfl⟩)
  | updateSuperNodeInfo =>
    obtain ⟨peer, sn, unlisted, hpeer, hsn, hholds, -, hsame, hframe⟩ :=
      updateSuperNodeInfo_holds h hnext
    refine hadds { shape with unlisted } hfits ⟨⟨?_, List.Subset.refl _⟩, hholds, hframe.pending,
      List.Subset.refl _, rfl, fun hkept => ⟨hsame (hkept peer sn hpeer hsn), rfl⟩⟩
    exact fun i hi => .inl (hframe.varNodes ▸ hi)
  | updateConnect | startTransfer =>
    obtain ⟨peer, -, hnext⟩ := bind_eq_some_iff.mp hnext
    obtain ⟨⟨updater, isNewConnect, isChanged⟩, hconnect, hnext⟩ := bind_eq_some_iff.mp hnext
    cases hnext
    obtain ⟨bound, hholds⟩ := h.connect hconnect fun _ => rfl
    exact hadds { shape with bound } hfits (.of_frame
      ⟨List.Subset.refl _, List.Subset.refl _, rfl, rfl, rfl⟩ hholds ⟨rfl, rfl⟩)
  | addRef => exact hadds shape hfits (addRef_effect h hnext)
  | addOuter =>
    obtain ⟨⟨added, i⟩, hadd, rfl⟩ := map_eq_some_iff.mp hnext
    obtain ⟨other, hgrows, hholds, hframe, hmem, -⟩ := addOuter_effect h hadd
    refine hadds other hfits (.of_grows hgrows hholds hframe.pending fun j hj => ?_)
    rcases mem_varNodes_setNode .peerHistoryNode hj with rfl | hj
    · exact .inr hmem
    · exact .inl (hframe.varNodes ▸ hj)
  | addOuterSuperNode =>
    obtain ⟨other, heffect⟩ := addOuterSuperNode_effect h hnext
    exact hadds other hfits heffect
  | addOuterSnPeerid => exact hadds shape hfits (addOuterSnPeerid_effect h hnext)
  | relink =>
    cases hnext
    obtain ⟨other, heffect⟩ := relink_effect h hfits.1.1 hfits.1.2
    exact hadds other hfits.2 heffect
  | setLocal isSuperNode =>
    obtain ⟨i, unlisted, hi, hholds, -, hsame, hframe⟩ := setLocal_holds h hfits.1 hnext
    have hnil : next.pending = [] := hframe.pending.trans hfits.2
    refine ⟨_, ⟨hholds, hnil ▸ trivial, .inr fun call hmem => ?_⟩,
      fun hkept => ⟨hsame fun h => hkept h i hi, rfl⟩, fun _ => ⟨fun i hi => ?_, fun _ hi => hi⟩⟩
    · rw [hnil] at hmem
      cases hmem
    · exact .inl (hframe.varNodes ▸ hi)
  | limitPeerCount =>
    obtain ⟨updater, peers, bound, gap, hlimit, -, hholds, -, hgap⟩ := h.limitPeerCount
    obtain ⟨limited, hlimited, rfl⟩ := map_eq_some_iff.mp hnext
    obtain rfl := some.inj (hlimit.symm.trans hlimited)
    exact ⟨{ shape with peers, bound, gap }, ⟨hholds, .of_addRef hfits, .inr hfits⟩,
      fun hkept => ⟨rfl, hgap.mpr hkept⟩, fun hne => absurd rfl hne⟩

theorem Holds.perform (h : run.Holds shape) {rest : List UpdaterCall}
    (hpending : run.pending = call :: rest)
    (hnext : PeerUpdaterRun.perform { run with pending := rest } call = some next) :
    ∃ other, next.Holds other ∧
      (call.KeepsStructure { run with pending := rest } →
        other.unlisted = shape.unlisted ∧ other.gap = shape.gap) ∧
      (call ≠ .limitPeerCount → Adds run next shape other) := by
  have hfits : UpdaterCall.Fits run.updater shape (call :: rest) := hpending ▸ h.fits
  have hnamed : Named { run with pending := call :: rest } shape :=
    h.named.imp id fun hrefs => hpending ▸ hrefs
  obtain ⟨other, hholds, hkept, hadds⟩ :=
    perform_holds { run with pending := rest } h.updater hfits hnamed hnext
  exact ⟨other, hholds, hkept, fun hne => ⟨(hadds hne).varNodes, (hadds hne).peers⟩⟩

theorem Holds.begin (h : run.Holds shape) {calls : List UpdaterCall}
    (hfits : UpdaterCall.Fits run.updater shape calls) (hnext : run.begin calls = some next) :
    next.Holds shape := by
  unfold PeerUpdaterRun.begin at hnext
  split at hnext
  case isTrue =>
    cases hnext
    exact ⟨h.updater, hfits, .inl fun i hi => nomatch hi⟩
  case isFalse => cases hnext

end PeerUpdaterRun

/-- The next call keeps the structure. -/
def UpdaterEvent.KeepsStructure (run : PeerUpdaterRun) : UpdaterEvent → Prop
  | call => ∀ next, run.pending.head? = some next → next.KeepsStructure run
  | _ => True

/-- What is done without the lock. -/
def UpdaterEvent.IsOutside : UpdaterEvent → Prop
  | addRef _ | release _ | transferEnd .. => True
  | _ => False

namespace PeerUpdaterRun

variable {run next : PeerUpdaterRun} {shape other : PeerShape} {i : NodeId}

section

variable (h : run.Holds shape)
include h

/-- Nothing is pending, and only the references and the order of the peers change. -/
theorem findByPeerid_holds (hpending : run.pending = []) {peerid : Peerid}
    (hnext : run.findByPeerid peerid = some next) :
    ∃ other, next.Holds other ∧ other.unlisted = shape.unlisted ∧ other.gap = shape.gap := by
  unfold findByPeerid at hnext
  split at hnext
  case h_1 => exact ⟨shape, some.inj hnext ▸ h, rfl, rfl⟩
  case h_2 i hfound =>
  obtain ⟨updater, haddRef, rfl⟩ := map_eq_some_iff.mp hnext
  obtain ⟨rest, -, hholds⟩ := h.updater.moveToHeader (h.updater.findPeer hfound).1
  have hnone : ∀ call ∈ run.pending, call = .addRef := fun call hmem => nomatch hpending ▸ hmem
  exact ⟨{ shape with peers := i :: rest },
    ⟨hholds.addRef haddRef, .of_addRef hnone, .inr hnone⟩, rfl, rfl⟩

theorem Holds.outside {updater : PeerUpdater} {held : List NodeId}
    (hholds : updater.Holds shape held) : Holds { run with updater, held } shape := by
  refine ⟨hholds, h.fits.mono ?_ (List.Subset.refl _) (List.Subset.refl _), h.named⟩
  rw [hholds.localHistory, h.updater.localHistory]

theorem outside_holds {event : UpdaterEvent}
    (hnext : run.next event = some next) (houtside : event.IsOutside) :
    ∃ updater held, next = { run with updater, held } ∧ next.Holds shape := by
  cases event with
  | addRef i =>
    simp only [PeerUpdaterRun.next] at hnext
    split at hnext
    case isTrue =>
      obtain ⟨updater, haddRef, rfl⟩ := map_eq_some_iff.mp hnext
      exact ⟨updater, _, rfl, h.outside (h.updater.addRef haddRef)⟩
    case isFalse => cases hnext
  | release i =>
    simp only [PeerUpdaterRun.next] at hnext
    split at hnext
    case isTrue hheld =>
      obtain ⟨updater, hrelease, rfl⟩ := map_eq_some_iff.mp hnext
      exact ⟨updater, _, rfl, h.outside (h.updater.release hheld hrelease).1⟩
    case isFalse => cases hnext
  | transferEnd i connect rto sendSpeed recvSpeed =>
    simp only [PeerUpdaterRun.next] at hnext
    split at hnext
    case isTrue hheld =>
      obtain ⟨updater, hmodify, rfl⟩ := map_eq_some_iff.mp hnext
      refine ⟨updater, run.held, rfl, h.outside (h.updater.modify_same hmodify ?_ ?_ ?_)⟩
      · exact fun node => ⟨rfl, rfl, rfl⟩
      · intro node _
        refine boundCount_modify ?_ node.connectVector connect
        exact fun _ => rfl
      · exact fun node _ sn hsn => .inl hsn
    case isFalse => cases hnext
  | _ => exact houtside.elim

/-- An event begins calls, is a search or the next call, or happens outside of the lock. -/
theorem next_cases {event : UpdaterEvent} (hnext : run.next event = some next) :
    (∃ calls, UpdaterCall.Fits run.updater shape calls ∧ run.begin calls = some next) ∨
      (∃ peerid, event = .findByPeerid peerid ∧ run.pending = [] ∧
        run.findByPeerid peerid = some next) ∨
      (∃ call rest, event = .call ∧ run.pending = call :: rest ∧
        PeerUpdaterRun.perform { run with pending := rest } call = some next) ∨
      ∃ updater held, next = { run with updater, held } ∧ next.Holds shape := by
  cases event with
  | superNodePingResponse => exact .inl ⟨_, UpdaterCall.superNodePingResponse_fits .., hnext⟩
  | foundPeerFromSuperNode => exact .inl ⟨_, UpdaterCall.foundPeerFromSuperNode_fits .., hnext⟩
  | packageFromRemotePeer => exact .inl ⟨_, UpdaterCall.packageFromRemotePeer_fits .., hnext⟩
  | startTransfer => exact .inl ⟨_, UpdaterCall.onStartTransfer_fits .., hnext⟩
  | loadDone historys =>
    exact .inl ⟨_, UpdaterCall.mergeOuterHistory_fits h.updater historys, hnext⟩
  | loadPeerHistoryByPeerid history snPeerids =>
    exact .inl ⟨_, UpdaterCall.addOuterHistory_fits history snPeerids, hnext⟩
  | findByPeerid peerid =>
    simp only [PeerUpdaterRun.next] at hnext
    split at hnext
    case isTrue hpending => exact .inr (.inl ⟨peerid, rfl, hpending, hnext⟩)
    case isFalse => cases hnext
  | call =>
    simp only [PeerUpdaterRun.next] at hnext
    split at hnext
    case h_1 => cases hnext
    case h_2 call rest hpending => exact .inr (.inr (.inl ⟨call, rest, rfl, hpending, hnext⟩))
  | addRef | release | transferEnd => exact .inr (.inr (.inr (outside_holds h hnext trivial)))

theorem next_holds {event : UpdaterEvent} (hnext : run.next event = some next) :
    ∃ other, next.Holds other ∧
      (event.KeepsStructure run → other.unlisted = shape.unlisted ∧ other.gap = shape.gap) := by
  obtain ⟨calls, hfits, hbegin⟩ | ⟨peerid, rfl, hpending, hfind⟩ | ⟨call, rest, rfl, hpending, hcall⟩ |
    ⟨updater, held, -, hholds⟩ := next_cases h hnext
  · exact ⟨shape, h.begin hfits hbegin, fun _ => ⟨rfl, rfl⟩⟩
  · obtain ⟨other, hholds, hsame⟩ := findByPeerid_holds h hpending hfind
    exact ⟨other, hholds, fun _ => hsame⟩
  · obtain ⟨other, hholds, hkept, -⟩ := h.perform hpending hcall
    exact ⟨other, hholds, fun hkeeps => hkept (hkeeps call (by rw [hpending]; rfl))⟩
  · exact ⟨shape, hholds, fun _ => ⟨rfl, rfl⟩⟩

end

theorem start_holds (localPeerInfo : PeerInfo) (isSuperNode : Bool) (peerCapacity : UInt32)
    (now : Int) : (start localPeerInfo isSuperNode peerCapacity now).Holds {} where
  updater :=
    { peerList := .nil _
      peerListTail := rfl
      snList := .nil _
      mapped := .nil
      keys := nodup_nil
      peerids := fun _ hmem => nomatch hmem
      sns_mem := fun _ hmem => nomatch hmem
      flagged := fun _ hmem => nomatch hmem
      listed := fun _ hflagged => nomatch hflagged
      snVector := fun _ _ hnode => nomatch hnode
      count := rfl
      peers_of_node := fun _ _ hnode => nomatch hnode
      balanced := balanced_nil
      bound_mem := fun _ hmem => nomatch hmem
      bound_count := fun _ _ hnode => nomatch hnode
      localNode := nofun
      unbound := fun _ => rfl
      localHistory := rfl }
  fits := UpdaterCall.create_fits localPeerInfo isSuperNode now rfl
  named := .inl fun _ hmem => nomatch hmem

theorem exec_holds (h : run.Holds shape) {events : List UpdaterEvent}
    (hrun : exec PeerUpdaterRun.next run events = some next) : ∃ other, next.Holds other := by
  have hstep : ∀ (run : PeerUpdaterRun) event next, (∃ shape, run.Holds shape) →
      run.next event = some next → ∃ other, next.Holds other := by
    intro run event next h hnext
    obtain ⟨shape, h⟩ := h
    obtain ⟨other, hholds, -⟩ := next_holds h hnext
    exact ⟨other, hholds⟩
  exact exec_preserves hstep ⟨shape, h⟩ hrun

/-- In every state of every run every reference count is the number of the references that are held. -/
theorem peer_references_held (localPeerInfo : PeerInfo) (isSuperNode : Bool)
    (peerCapacity : UInt32) (now : Int) (events : List UpdaterEvent) :
    Throughout PeerUpdaterRun.next (fun run => ∃ shape, run.Holds shape)
      (start localPeerInfo isSuperNode peerCapacity now) events :=
  fun _ _ _ _ hfront => exec_holds (start_holds ..) hfront

end PeerUpdaterRun

/-! ## The lists, the map and the count agree -/

namespace PeerUpdater

/-- The peers that are stored, in the order of the list, and those of them that are super nodes. -/
structure Structured (updater : PeerUpdater) (peers sns : List NodeId) : Prop where
  /-- The list of the peers, in both directions. -/
  peerList : updater.peerLinks.IsList updater.peerList peers
  peerListTail : updater.peerListTail = peers.getLast?
  stored : ∀ i, i ∈ peers ↔ ∃ node, updater.node i = some node
  mapped : (updater.peeridMap.map (·.peerHistoryNode)).Perm peers
  keys : (updater.peeridMap.map (·.peerid)).Nodup
  peerids : ∀ entry ∈ updater.peeridMap,
    ∃ node, updater.node entry.peerHistoryNode = some node ∧ node.peerid = entry.peerid
  snList : updater.snLinks.IsList updater.superNodeList sns
  sns : ∀ i, i ∈ sns ↔ i ∈ peers ∧ updater.IsFlagged i
  count : updater.peerCount = peers.length

variable {updater next : PeerUpdater} {shape : PeerShape} {held peers sns : List NodeId} {i : NodeId}

theorem Holds.structured (h : updater.Holds shape held) (hunlisted : shape.unlisted = [])
    (hgap : shape.gap = 0) : updater.Structured shape.peers shape.sns := { h with
  stored := fun i => ⟨h.node_of_mem, fun hnode => hnode.elim (h.peers_of_node i)⟩
  sns := by
    intro i
    refine ⟨fun hi => ⟨h.sns_mem i hi, h.flagged i hi⟩, fun hi => ?_⟩
    refine (h.listed i hi.2).resolve_right fun hmem => ?_
    rw [hunlisted] at hmem
    cases hmem
  count := by
    have hcount := h.count
    rw [hgap] at hcount
    exact hcount }

theorem Structured.gap (h : updater.Structured peers sns) (hholds : updater.Holds shape held) :
    shape.gap = 0 := by
  have hpeers := h.peerList.unique hholds.peerList
  have hcount := hholds.count
  rw [h.count, hpeers] at hcount
  omega

/-- A super node that is not flagged is not in the list, and flagged without being listed it breaks
the structure. -/
theorem Structured.not_flag (h : updater.Structured peers sns) (hholds : updater.Holds shape held)
    (hnot : ¬ updater.IsFlagged i) {other : PeerShape} {held' : List NodeId}
    (hnext : next.Holds other held') (hsns : other.sns = shape.sns) (hflagged : next.IsFlagged i)
    {peers' sns' : List NodeId} : ¬ next.Structured peers' sns' := by
  intro h'
  have hmem : i ∈ shape.sns := by
    obtain ⟨node, hnode, -⟩ := id hflagged
    rw [← hsns, ← h'.snList.unique hnext.snList]
    exact (h'.sns i).mpr ⟨(h'.stored i).mpr ⟨node, hnode⟩, hflagged⟩
  rw [← h.snList.unique hholds.snList] at hmem
  exact hnot ((h.sns i).mp hmem).2

theorem modify_of_node (hi : ∃ node, updater.node i = some node)
    (change : PeerInfoNode → PeerInfoNode) :
    ∃ next, updater.modify i change = some next ∧
      ∀ j, (∃ node, updater.node j = some node) → ∃ node, next.node j = some node := by
  obtain ⟨node, hnode⟩ := hi
  obtain ⟨cell, hcell, -⟩ := node_eq_some.mp hnode
  obtain ⟨next, hnext⟩ : ∃ next, updater.modify i change = some next :=
    ⟨_, by unfold PeerUpdater.modify; rw [hcell]; rfl⟩
  refine ⟨next, hnext, fun j hj => ?_⟩
  obtain ⟨other, hother⟩ := hj
  rw [node_modify hnext, hother]
  split
  case isTrue => exact ⟨change other, rfl⟩
  case isFalse => exact ⟨other, rfl⟩

end PeerUpdater

namespace PeerUpdaterRun

variable {run next : PeerUpdaterRun} {shape : PeerShape} {peers sns : List NodeId} {i : NodeId}

/-- The peers that the variables name, when something is left to do but references. -/
theorem Holds.node_of_varNode (h : run.Holds shape) {call : UpdaterCall} (hcall : call ∈ run.pending)
    (hne : call ≠ .addRef) (hi : i ∈ run.varNodes) : ∃ node, run.updater.node i = some node :=
  h.named.elim (fun hpeers => h.updater.node_of_mem (hpeers i hi))
    fun hrefs => absurd (hrefs call hcall) hne

section

variable (run : PeerUpdaterRun) (h : run.updater.Holds shape run.held)
  (hgood : run.updater.Structured peers sns)
include h hgood

theorem limit_breaks (hreaches : ¬ run.updater.LimitReaches) :
    ∃ next, run.perform .limitPeerCount = some next ∧
      ¬ ∃ peers sns, next.updater.Structured peers sns := by
  obtain ⟨updater, peers', bound, gap, hlimit, -, hholds, -, hgap⟩ := h.limitPeerCount
  refine ⟨{ run with updater }, by rw [perform, hlimit]; rfl, fun hbad => ?_⟩
  obtain ⟨peers, sns, hbad⟩ := hbad
  have hzero : gap = 0 := hbad.gap hholds
  exact hreaches (hgap.mp (hzero.trans (hgood.gap h).symm))

theorem updateSuperNodeInfo_breaks {now : Int}
    {i sn : NodeId} (hi : run.peerHistoryNode = some i) (hsn : run.snPeerHistoryNode = some sn)
    (hnode : ∃ node, run.updater.node i = some node) (hsnNode : ∃ node, run.updater.node sn = some node)
    (hnot : ¬ run.updater.IsFlagged sn) :
    ∃ next, run.perform (.updateSuperNodeInfo now) = some next ∧
      ¬ ∃ peers sns, next.updater.Structured peers sns := by
  have hdefined : ∃ next, run.updateSuperNodeInfo now = some next := by
    obtain ⟨snNode, hsnNode⟩ := hsnNode
    unfold updateSuperNodeInfo
    rw [hi, hsn]
    simp only [bind_eq_bind, bind_some, hsnNode]
    obtain ⟨flagged, hflag, hnodes⟩ := PeerUpdater.modify_of_node ⟨snNode, hsnNode⟩ _
    obtain ⟨added, hadd, hnodes'⟩ :=
      PeerUpdater.modify_of_node (hnodes i hnode) (·.addSuperNode sn)
    obtain ⟨node, hnode⟩ := hnodes' i (hnodes i hnode)
    rw [hflag, bind_some, hadd, bind_some, hnode]
    exact ⟨_, rfl⟩
  obtain ⟨next, hnext⟩ := hdefined
  refine ⟨next, hnext, fun hbad => ?_⟩
  obtain ⟨peers', sns', hbad⟩ := hbad
  obtain ⟨_, other, unlisted, -, hother, hholds, hflagged, -⟩ := updateSuperNodeInfo_holds h hnext
  obtain rfl := some.inj (hsn.symm.trans hother)
  exact hgood.not_flag h hnot hholds rfl hflagged hbad

theorem setLocal_breaks (hlocal : run.updater.localHistory = none)
    (hi : run.peerHistoryNode = some i) (hnode : ∃ node, run.updater.node i = some node)
    (hnot : ¬ run.updater.IsFlagged i) :
    ∃ next, run.perform (.setLocal true) = some next ∧
      ¬ ∃ peers sns, next.updater.Structured peers sns := by
  have hdefined : ∃ next, run.setLocal true = some next := by
    unfold setLocal
    rw [hi]
    obtain ⟨flagged, hflag, -⟩ := PeerUpdater.modify_of_node hnode fun node =>
      { node with isLocal := true, isSn := node.isSn || true }
    simp only [bind_eq_bind, bind_some, hflag]
    exact ⟨_, rfl⟩
  obtain ⟨next, hnext⟩ := hdefined
  refine ⟨next, hnext, fun hbad => ?_⟩
  obtain ⟨peers', sns', hbad⟩ := hbad
  obtain ⟨other, unlisted, hother, hholds, hflagged, -⟩ := setLocal_holds h hlocal hnext
  obtain rfl := some.inj (hi.symm.trans hother)
  exact hgood.not_flag h hnot hholds rfl (hflagged rfl) hbad

end

theorem next_breaks (h : run.Holds shape) (hgood : run.updater.Structured peers sns)
    {event : UpdaterEvent} (hnot : ¬ event.KeepsStructure run) :
    ∃ next, run.next event = some next ∧ ¬ ∃ peers sns, next.updater.Structured peers sns := by
  cases event with
  | call =>
    cases hpending : run.pending with
    | nil =>
      refine absurd (fun call hcall => ?_) hnot
      rw [hpending] at hcall
      cases hcall
    | cons call rest =>
      have hnot : ¬ call.KeepsStructure { run with pending := rest } := by
        refine fun hkeeps => hnot fun other hother => ?_
        rw [hpending] at hother
        cases hother
        exact hkeeps
      have hmem : call ∈ run.pending := hpending ▸ mem_cons_self
      have hfits : UpdaterCall.Fits run.updater shape (call :: rest) := hpending ▸ h.fits
      have hnext : ∀ next, { run with pending := rest }.perform call = some next →
          run.next .call = some next := by
        intro next hnext
        simp only [PeerUpdaterRun.next, hpending]
        exact hnext
      have hbreaks : ∃ next, { run with pending := rest }.perform call = some next ∧
          ¬ ∃ peers sns, next.updater.Structured peers sns := by
        cases call with
        | limitPeerCount =>
          exact limit_breaks { run with pending := rest } h.updater hgood hnot
        | updateSuperNodeInfo =>
          simp only [UpdaterCall.KeepsStructure, not_forall] at hnot
          obtain ⟨i, sn, hi, hsn, hnot⟩ := hnot
          have hnode : ∀ j ∈ run.varNodes, ∃ node, run.updater.node j = some node :=
            fun j hj => h.node_of_varNode hmem nofun hj
          exact updateSuperNodeInfo_breaks { run with pending := rest } h.updater
            hgood hi hsn (hnode i (mem_varNodes.mpr (.inl hi)))
            (hnode sn (mem_varNodes.mpr (.inr hsn))) hnot
        | setLocal =>
          simp only [UpdaterCall.KeepsStructure, not_forall] at hnot
          obtain ⟨rfl, i, hi, hnot⟩ := hnot
          have hnode : ∃ node, run.updater.node i = some node :=
            h.node_of_varNode hmem nofun (mem_varNodes.mpr (.inl hi))
          exact setLocal_breaks { run with pending := rest } h.updater hgood hfits.1
            hi hnode hnot
        | _ => exact absurd trivial hnot
      obtain ⟨next, hperform, hbad⟩ := hbreaks
      exact ⟨next, hnext next hperform, hbad⟩
  | _ => exact absurd trivial hnot

/-- The lists, the map and the count agree. -/
theorem peer_history_structured (localPeerInfo : PeerInfo) (isSuperNode : Bool)
    (peerCapacity : UInt32) (now : Int) (events : List UpdaterEvent) :
    Throughout PeerUpdaterRun.next (fun run => ∃ peers sns, run.updater.Structured peers sns)
        (start localPeerInfo isSuperNode peerCapacity now) events ↔
      StepsMeet PeerUpdaterRun.next (fun run event => event.KeepsStructure run)
        (start localPeerInfo isSuperNode peerCapacity now) events := by
  have hstart := start_holds localPeerInfo isSuperNode peerCapacity now
  have hkept : ∀ (run : PeerUpdaterRun) event next,
      (∃ shape, run.Holds shape ∧ shape.unlisted = [] ∧ shape.gap = 0) →
      event.KeepsStructure run → run.next event = some next →
      ∃ shape, next.Holds shape ∧ shape.unlisted = [] ∧ shape.gap = 0 := by
    intro run event next h hkeeps hnext
    obtain ⟨shape, h, hunlisted, hgap⟩ := h
    obtain ⟨other, hholds, hkept⟩ := next_holds h hnext
    exact ⟨other, hholds, (hkept hkeeps).1.trans hunlisted, (hkept hkeeps).2.trans hgap⟩
  refine throughout_iff ⟨{}, hstart, rfl, rfl⟩ ?_ hkept ?_
  · intro run h
    obtain ⟨shape, h, hunlisted, hgap⟩ := h
    exact ⟨shape.peers, shape.sns, h.updater.structured hunlisted hgap⟩
  intro front run event hfront hgood hnot
  obtain ⟨shape, h⟩ := exec_holds hstart hfront
  obtain ⟨peers, sns, hgood⟩ := hgood
  exact next_breaks h hgood hnot

/-- A peer without endpoints and super nodes, and the first byte of its peerid. -/
def plainPeerInfo (first : UInt8) : PeerInfo where
  fields :=
    { peerid := .ofList BDT_PEERID_LENGTH [first]
      constInfo :=
        { areaCode := { continent := 0, country := 0, carrier := 0, city := 0, inner := 0 }
          deviceId := .zero _
          publicKeyType := 0
          publicKey := .zero _ }
      signature := .zero _ }
  snInfoList := []

/-- A super node that answers a ping is flagged and not put into the list of the super nodes. -/
theorem pinged_superNode_not_listed :
    ¬ ∀ (localPeerInfo : PeerInfo) (isSuperNode : Bool) (peerCapacity : UInt32) (now : Int)
        (events : List UpdaterEvent),
      Throughout PeerUpdaterRun.next (fun run => ∃ peers sns, run.updater.Structured peers sns)
        (start localPeerInfo isSuperNode peerCapacity now) events := by
  intro h
  obtain ⟨run, hrun, hlist, hnode⟩ : ∃ run,
      exec PeerUpdaterRun.next (start (plainPeerInfo 1) false 100 1000)
        ([.call, .call, .superNodePingResponse (plainPeerInfo 2) 1001] ++ .replicate 4 .call) =
          some run ∧
      run.updater.superNodeList = none ∧ (run.updater.node 1).any (·.isSn) = true :=
    exists_of_test _ (by decide +kernel) fun _ _ => id
  obtain ⟨peers, sns, hgood⟩ :=
    h (plainPeerInfo 1) false 100 1000 _ _ [] run (append_nil _).symm hrun
  obtain ⟨node, hnode, hsn⟩ := exists_of_any hnode
  have hmem : 1 ∈ sns := (hgood.sns 1).mpr ⟨(hgood.stored 1).mpr ⟨node, hnode⟩, node, hnode, hsn⟩
  rw [List.head?_eq_none_iff.mp (hgood.snList.head.symm.trans hlist)] at hmem
  cases hmem

end PeerUpdaterRun

end Bdt
