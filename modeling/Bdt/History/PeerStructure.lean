import Bdt.History.PeerUpdater

/-!
# The structure of the peer history

`Holds` says how the lists, the map, the count and the references of an updater go together. It allows
for two things to be wrong: super nodes that are flagged but not listed, and peers that the count
misses. The rules say for each function what it does to the lists of a `PeerShape`.
-/

namespace Bdt

open Base List Option

/-- What the pointers of an updater stand for. -/
structure PeerShape where
  /-- The list of all peers. -/
  peers : List NodeId := []
  /-- The list of the super nodes. -/
  sns : List NodeId := []
  /-- Super nodes that are not in that list. -/
  unlisted : List NodeId := []
  /-- How many peers are not counted. -/
  gap : Nat := 0
  /-- Each peer once for each of its connections that refers to one of the local peer. -/
  bound : List NodeId := []
  localHistory : Option NodeId := none

/-- What is done to a shape when peers and super nodes are only added. -/
structure PeerShape.Grows (shape other : PeerShape) : Prop where
  peers : shape.peers ⊆ other.peers
  sns : shape.sns ⊆ other.sns
  unlisted : other.unlisted = shape.unlisted
  gap : other.gap = shape.gap
  localHistory : other.localHistory = shape.localHistory

theorem PeerShape.Grows.refl (shape : PeerShape) : shape.Grows shape :=
  ⟨List.Subset.refl _, List.Subset.refl _, rfl, rfl, rfl⟩

theorem PeerShape.Grows.trans {shape other third : PeerShape} (h : shape.Grows other)
    (h' : other.Grows third) : shape.Grows third :=
  ⟨List.Subset.trans h.peers h'.peers, List.Subset.trans h.sns h'.sns, h'.unlisted.trans h.unlisted,
    h'.gap.trans h.gap, h'.localHistory.trans h.localHistory⟩

namespace PeerUpdater

def IsFlagged (updater : PeerUpdater) (i : NodeId) : Prop :=
  ∃ node, updater.node i = some node ∧ node.isSn = true

/-- The references of the local node that connections hold. -/
def localRefs (updater : PeerUpdater) (bound : List NodeId) : List NodeId :=
  bound.flatMap fun _ => updater.localHistory.toList

theorem localRefs_cons {updater : PeerUpdater} {localHistory : NodeId}
    (h : updater.localHistory = some localHistory) (i : NodeId) (bound : List NodeId) :
    updater.localRefs (i :: bound) = localHistory :: updater.localRefs bound := by
  unfold localRefs
  rw [flatMap_cons, h]
  rfl

structure Holds (updater : PeerUpdater) (shape : PeerShape) (held : List NodeId) : Prop where
  peerList : updater.peerLinks.IsList updater.peerList shape.peers
  peerListTail : updater.peerListTail = shape.peers.getLast?
  snList : updater.snLinks.IsList updater.superNodeList shape.sns
  mapped : (updater.peeridMap.map (·.peerHistoryNode)).Perm shape.peers
  keys : (updater.peeridMap.map (·.peerid)).Nodup
  peerids : ∀ entry ∈ updater.peeridMap,
    ∃ node, updater.node entry.peerHistoryNode = some node ∧ node.peerid = entry.peerid
  sns_mem : ∀ i ∈ shape.sns, i ∈ shape.peers
  flagged : ∀ i ∈ shape.sns, updater.IsFlagged i
  listed : ∀ i, updater.IsFlagged i → i ∈ shape.sns ∨ i ∈ shape.unlisted
  snVector : ∀ i node, updater.node i = some node → ∀ sn ∈ node.snVector, updater.IsFlagged sn
  count : updater.peerCount + shape.gap = shape.peers.length
  /-- Nodes are freed when they leave the list. -/
  peers_of_node : ∀ i node, updater.node i = some node → i ∈ shape.peers
  balanced : Balanced updater.nodes (shape.peers ++ held ++ updater.localRefs shape.bound)
  bound_mem : ∀ i ∈ shape.bound, i ∈ shape.peers
  bound_count : ∀ i node, updater.node i = some node →
    shape.bound.count i = boundCount node.connectVector
  localNode : ∀ i, updater.localHistory = some i →
    ∃ node, updater.node i = some node ∧ node.isLocal = true
  unbound : updater.localHistory = none → shape.bound = []
  localHistory : updater.localHistory = shape.localHistory

variable {updater next : PeerUpdater} {shape : PeerShape} {held : List NodeId} {i : NodeId}
  {node : PeerInfoNode}

theorem node_eq_some : updater.node i = some node ↔ ∃ cell, live updater.nodes i = some cell ∧
    cell.value = node :=
  map_eq_some_iff

theorem Holds.node_of_mem (h : updater.Holds shape held) (hmem : i ∈ shape.peers) :
    ∃ node, updater.node i = some node := by
  obtain ⟨cell, hcell⟩ := h.balanced.alive i
    (mem_append_left _ (mem_append_left _ hmem))
  exact ⟨cell.value, node_eq_some.mpr ⟨cell, hcell, rfl⟩⟩

theorem isFlagged_iff_core : updater.IsFlagged i ↔
    ∃ node, (updater.node i).map (·.core) = some node ∧ node.isSn = true := by
  constructor
  · intro h
    obtain ⟨node, hnode, hsn⟩ := h
    exact ⟨node.core, congrArg (Option.map _) hnode, hsn⟩
  intro h
  obtain ⟨core, hcore, hsn⟩ := h
  obtain ⟨node, hnode, rfl⟩ := map_eq_some_iff.mp hcore
  exact ⟨node, hnode, hsn⟩

theorem IsFlagged.modify {j : NodeId} (h : updater.IsFlagged j)
    {change : PeerInfoNode → PeerInfoNode} (hnext : updater.modify i change = some next)
    (hchange : ∀ node, node.isSn = true → (change node).isSn = true) : next.IsFlagged j := by
  obtain ⟨node, hnode, hsn⟩ := h
  have hnextNode := node_modify hnext j
  rw [hnode] at hnextNode
  split at hnextNode
  case isTrue => exact ⟨change node, hnextNode, hchange node hsn⟩
  case isFalse => exact ⟨node, hnextNode, hsn⟩

theorem Holds.mem_of_reference (h : updater.Holds shape held)
    (hmem : i ∈ shape.peers ++ held ++ updater.localRefs shape.bound) : i ∈ shape.peers := by
  obtain ⟨cell, hcell⟩ := h.balanced.alive i hmem
  exact h.peers_of_node i cell.value (node_eq_some.mpr ⟨cell, hcell, rfl⟩)

/-! ## Changes of the nodes -/

/-- What every change of a node keeps. -/
structure Keeps (node other : PeerInfoNode) : Prop where
  peerid : other.peerid = node.peerid
  isSn : node.isSn = true → other.isSn = true
  isLocal : node.isLocal = true → other.isLocal = true

variable {nodes : List (Counted PeerInfoNode)} {unlisted held' : List NodeId}

section

variable (h : updater.Holds shape held)
include h

theorem Holds.replace
    {bound : List NodeId} (hnext : next = { updater with nodes })
    (hforward : ∀ j node, updater.node j = some node → ∃ other, next.node j = some other ∧
      Keeps node other)
    (hback : ∀ j other, next.node j = some other → ∃ node, updater.node j = some node)
    (hlisted : ∀ j, next.IsFlagged j → j ∈ shape.sns ∨ j ∈ unlisted)
    (hsnVector : ∀ j node, next.node j = some node → ∀ sn ∈ node.snVector, next.IsFlagged sn)
    (hbalanced : Balanced nodes (shape.peers ++ held' ++ updater.localRefs bound))
    (hmem : ∀ j ∈ bound, j ∈ shape.peers)
    (hcount : ∀ j node, next.node j = some node → bound.count j = boundCount node.connectVector)
    (hunbound : updater.localHistory = none → bound = []) :
    next.Holds { shape with unlisted, bound } held' where
  peerList := hnext ▸ h.peerList
  peerListTail := hnext ▸ h.peerListTail
  snList := hnext ▸ h.snList
  mapped := hnext ▸ h.mapped
  keys := hnext ▸ h.keys
  peerids := by
    intro entry hentry
    have hentry : entry ∈ updater.peeridMap := by rwa [hnext] at hentry
    obtain ⟨node, hnode, hpeerid⟩ := h.peerids entry hentry
    obtain ⟨other, hother, hkeeps⟩ := hforward _ node hnode
    exact ⟨other, hother, hkeeps.peerid.trans hpeerid⟩
  sns_mem := h.sns_mem
  flagged := by
    intro j hj
    obtain ⟨node, hnode, hsn⟩ := h.flagged j hj
    obtain ⟨other, hother, hkeeps⟩ := hforward j node hnode
    exact ⟨other, hother, hkeeps.isSn hsn⟩
  listed := hlisted
  snVector := hsnVector
  count := hnext ▸ h.count
  peers_of_node := by
    intro j other hother
    obtain ⟨node, hnode⟩ := hback j other hother
    exact h.peers_of_node j node hnode
  balanced := by
    rw [hnext]
    exact hbalanced
  bound_mem := hmem
  bound_count := hcount
  localNode := by
    intro j hj
    have hj : updater.localHistory = some j := by rwa [hnext] at hj
    obtain ⟨node, hnode, hlocal⟩ := h.localNode j hj
    obtain ⟨other, hother, hkeeps⟩ := hforward j node hnode
    exact ⟨other, hother, hkeeps.isLocal hlocal⟩
  unbound := by
    rw [hnext]
    exact hunbound
  localHistory := hnext ▸ h.localHistory

theorem Holds.change
    {change : PeerInfoNode → PeerInfoNode} {bound : List NodeId}
    (hnext : next = { updater with nodes })
    (hnode : ∀ j, next.node j = if i = j then (updater.node j).map change else updater.node j)
    (hkeeps : ∀ node, updater.node i = some node → Keeps node (change node))
    (hsnVector : ∀ node, updater.node i = some node → ∀ sn ∈ (change node).snVector,
      sn ∈ node.snVector ∨ updater.IsFlagged sn)
    (hunlisted : shape.unlisted ⊆ unlisted)
    (hflagged : ∀ node, updater.node i = some node → (change node).isSn = true →
      node.isSn = true ∨ i ∈ unlisted)
    (hbalanced : Balanced nodes (shape.peers ++ held' ++ updater.localRefs bound))
    (hmem : ∀ j ∈ bound, j ∈ shape.peers)
    (hbound : ∀ node, updater.node i = some node →
      bound.count i = boundCount (change node).connectVector)
    (hother : ∀ j, j ≠ i → bound.count j = shape.bound.count j)
    (hunbound : updater.localHistory = none → bound = []) :
    next.Holds { shape with unlisted, bound } held' := by
  have hforward : ∀ j node, updater.node j = some node →
      ∃ other, next.node j = some other ∧ Keeps node other := by
    intro j node hj
    rw [hnode]
    split
    case isTrue heq =>
      subst heq
      exact ⟨change node, by rw [hj]; rfl, hkeeps node hj⟩
    case isFalse => exact ⟨node, hj, rfl, id, id⟩
  have hback : ∀ j other, next.node j = some other →
      ∃ node, updater.node j = some node ∧ (j ≠ i ∧ other = node ∨ j = i ∧ other = change node) := by
    intro j other hj
    rw [hnode] at hj
    split at hj
    case isTrue heq =>
      obtain ⟨node, hnode, rfl⟩ := map_eq_some_iff.mp hj
      exact ⟨node, hnode, .inr ⟨heq.symm, rfl⟩⟩
    case isFalse hne => exact ⟨other, hj, .inl ⟨fun heq => hne heq.symm, rfl⟩⟩
  have hflag : ∀ j, updater.IsFlagged j → next.IsFlagged j := by
    intro j hj
    obtain ⟨node, hj, hsn⟩ := hj
    obtain ⟨other, hother, hkeeps⟩ := hforward j node hj
    exact ⟨other, hother, hkeeps.isSn hsn⟩
  refine h.replace hnext hforward ?_ ?_ ?_ hbalanced hmem ?_ hunbound
  · intro j other hj
    obtain ⟨node, hj, -⟩ := hback j other hj
    exact ⟨node, hj⟩
  · intro j hj
    obtain ⟨other, hchanged, hsn⟩ := hj
    obtain ⟨node, hj, hcase⟩ := hback j other hchanged
    rcases hcase with ⟨-, rfl⟩ | ⟨rfl, rfl⟩
    · exact (h.listed j ⟨_, hj, hsn⟩).imp_right (hunlisted ·)
    · rcases hflagged node hj hsn with hsn | hmem
      · exact (h.listed j ⟨node, hj, hsn⟩).imp_right (hunlisted ·)
      · exact .inr hmem
  · intro j other hchanged sn hsn
    obtain ⟨node, hj, hcase⟩ := hback j other hchanged
    rcases hcase with ⟨-, rfl⟩ | ⟨rfl, rfl⟩
    · exact hflag sn (h.snVector j _ hj sn hsn)
    · rcases hsnVector node hj sn hsn with hold | hnew
      · exact hflag sn (h.snVector j node hj sn hold)
      · exact hflag sn hnew
  intro j other hchanged
  obtain ⟨node, hj, hcase⟩ := hback j other hchanged
  rcases hcase with ⟨hne, rfl⟩ | ⟨rfl, rfl⟩
  · exact (hother j hne).trans (h.bound_count j _ hj)
  · exact hbound node hj

theorem Holds.modify {change : PeerInfoNode → PeerInfoNode}
    (hnext : updater.modify i change = some next)
    (hkeeps : ∀ node, updater.node i = some node → Keeps node (change node))
    (hbound : ∀ node, updater.node i = some node →
      boundCount (change node).connectVector = boundCount node.connectVector)
    (hsnVector : ∀ node, updater.node i = some node → ∀ sn ∈ (change node).snVector,
      sn ∈ node.snVector ∨ updater.IsFlagged sn)
    (hunlisted : shape.unlisted ⊆ unlisted)
    (hflagged : ∀ node, updater.node i = some node → (change node).isSn = true →
      node.isSn = true ∨ i ∈ unlisted) :
    next.Holds { shape with unlisted } held := by
  obtain ⟨cell, hcell, heq⟩ := map_eq_some_iff.mp hnext
  refine h.change heq.symm (node_modify hnext) hkeeps hsnVector hunlisted hflagged
    (h.balanced.update hcell _) h.bound_mem ?_ (fun _ _ => rfl) h.unbound
  intro node hnode
  exact (h.bound_count i node hnode).trans (hbound node hnode).symm

theorem Holds.modify_same {change : PeerInfoNode → PeerInfoNode}
    (hnext : updater.modify i change = some next)
    (hsame : ∀ node, (change node).peerid = node.peerid ∧ (change node).isSn = node.isSn ∧
      (change node).isLocal = node.isLocal)
    (hbound : ∀ node, updater.node i = some node →
      boundCount (change node).connectVector = boundCount node.connectVector)
    (hsnVector : ∀ node, updater.node i = some node → ∀ sn ∈ (change node).snVector,
      sn ∈ node.snVector ∨ updater.IsFlagged sn) : next.Holds shape held := by
  refine h.modify hnext ?_ hbound hsnVector (List.Subset.refl _) ?_
  · intro node _
    obtain ⟨hpeerid, hsn, hlocal⟩ := hsame node
    exact ⟨hpeerid, fun h => hsn.trans h, fun h => hlocal.trans h⟩
  · intro node _ hsn
    exact .inl ((hsame node).2.1.symm.trans hsn)

/-! ## References -/

theorem Holds.count_references
    (hnext : next = { updater with nodes }) (hnode : next.node = updater.node)
    (hbalanced : Balanced nodes (shape.peers ++ held' ++ updater.localRefs shape.bound)) :
    next.Holds shape held' := by
  refine h.replace hnext ?_ ?_ ?_ ?_ hbalanced h.bound_mem ?_ h.unbound
  · intro j node hj
    exact ⟨node, hnode ▸ hj, rfl, id, id⟩
  · intro j other hj
    exact ⟨other, hnode ▸ hj⟩
  · intro j hj
    obtain ⟨other, hother, hsn⟩ := hj
    exact h.listed j ⟨other, hnode ▸ hother, hsn⟩
  · intro j other hj sn hsn
    obtain ⟨node, hsnNode, hflag⟩ := h.snVector j other (hnode ▸ hj) sn hsn
    exact ⟨node, hnode ▸ hsnNode, hflag⟩
  · intro j other hj
    exact h.bound_count j other (hnode ▸ hj)

theorem Holds.addRef (hnext : updater.addRef i = some next) : next.Holds shape (i :: held) := by
  obtain ⟨nodes, hnodes, heq⟩ := map_eq_some_iff.mp hnext
  refine h.count_references heq.symm (node_addRef hnext) ((h.balanced.addRef hnodes).perm ?_)
  rw [append_assoc, append_assoc]
  exact perm_middle.symm

/-- Someone who holds a node gives it back. It is a peer still, so it is not freed. -/
theorem Holds.release (hheld : i ∈ held) (hnext : updater.release i = some next) :
    next.Holds shape (held.erase i) ∧ next.node = updater.node := by
  have hreference : i ∈ shape.peers ++ held ++ updater.localRefs shape.bound :=
    mem_append_left _ (mem_append_right _ hheld)
  have hpeer := h.mem_of_reference hreference
  obtain ⟨cell, hcell⟩ := h.balanced.alive i hreference
  have hshared : 1 < cell.refCount := by
    have hcount := h.balanced.count i cell hcell
    rw [count_append, count_append] at hcount
    have hpeerCount := count_pos_iff.mpr hpeer
    have hheldCount := count_pos_iff.mpr hheld
    omega
  obtain ⟨nodes, hnodes, heq, hnode⟩ := release_shared hcell hshared hnext
  refine ⟨h.count_references heq hnode (Balanced.release ?_ hnodes), hnode⟩
  refine h.balanced.perm ?_
  rw [append_assoc, append_assoc]
  refine Perm.trans (List.Perm.append_left _ ?_) perm_middle
  exact (perm_cons_erase hheld).append_right _

end

/-! ## The list of peers -/

variable {connections : List (Option OuterConnectInfo)} {superNodeList : Option NodeId}
  {snLinks : Links NodeId} {peerid : Peerid}

section

variable (h : updater.Holds shape held)
include h

theorem Holds.findPeer (hfound : updater.findPeer peerid = some i) :
    i ∈ shape.peers ∧ ∃ node, updater.node i = some node ∧ node.peerid = peerid := by
  obtain ⟨entry, hentry, rfl⟩ := map_eq_some_iff.mp hfound
  obtain ⟨hmem, hkey⟩ := findMember_mem PeeridMapNode.comparesBy hentry
  refine ⟨h.mapped.mem_iff.mp (mem_map_of_mem hmem), ?_⟩
  obtain ⟨node, hnode, hpeerid⟩ := h.peerids entry hmem
  exact ⟨node, hnode, hpeerid.trans hkey.symm⟩

theorem Holds.reorder {peers : List NodeId}
    {peerLinks : Links NodeId} {peerList peerListTail : Option NodeId}
    (hnext : next = { updater with peerLinks, peerList, peerListTail })
    (hlist : peerLinks.IsList peerList peers) (htail : peerListTail = peers.getLast?)
    (hperm : shape.peers.Perm peers) : next.Holds { shape with peers } held := by
  subst hnext
  exact { h with
    peerList := hlist
    peerListTail := htail
    mapped := h.mapped.trans hperm
    sns_mem := fun i hi => hperm.mem_iff.mp (h.sns_mem i hi)
    count := h.count.trans hperm.length_eq
    peers_of_node := fun i node hi => hperm.mem_iff.mp (h.peers_of_node i node hi)
    balanced := h.balanced.perm ((hperm.append_right _).append_right _)
    bound_mem := fun i hi => hperm.mem_iff.mp (h.bound_mem i hi)
    localHistory := h.localHistory }

theorem Holds.reorderSuperNodes {sns : List NodeId}
    (hnext : next = { updater with snLinks, superNodeList })
    (hlist : snLinks.IsList superNodeList sns) (hperm : shape.sns.Perm sns) :
    next.Holds { shape with sns } held := by
  subst hnext
  exact { h with
    snList := hlist
    sns_mem := fun i hi => h.sns_mem i (hperm.mem_iff.mpr hi)
    flagged := fun i hi => h.flagged i (hperm.mem_iff.mpr hi)
    listed := fun i hi => (h.listed i hi).imp_left hperm.mem_iff.mp }

theorem Holds.moveToHeader (hmem : i ∈ shape.peers) :
    ∃ rest, shape.peers.Perm (i :: rest) ∧
      (updater.moveToHeader i).Holds { shape with peers := i :: rest } held := by
  obtain ⟨xs, ys, hpeers⟩ := append_of_mem hmem
  have hperm : shape.peers.Perm (i :: (xs ++ ys)) := hpeers ▸ perm_middle
  refine ⟨xs ++ ys, hperm, ?_⟩
  obtain ⟨hlinked, hnodup, hhead⟩ := hpeers ▸ h.peerList
  have hlist : updater.peerLinks.IsList updater.peerList (xs ++ i :: ys) := ⟨hlinked, hnodup, hhead⟩
  have hfresh : i ∉ xs ++ ys := (nodup_cons.mp (perm_middle.nodup_iff.mp hnodup)).1
  refine h.reorder rfl (hlist.delete.add hfresh) ?_ hperm
  -- the tail
  rw [h.peerListTail, hpeers, hhead, hlinked.previous, or_none]
  cases ys with
  | nil =>
    rw [append_nil, getLast?_concat]
    cases xs with
    | nil => exact if_neg fun hne => hne.2 rfl
    | cons first rest =>
      have hne : (first :: rest ++ [i]).head? ≠ some i :=
        fun heq => hfresh (some.inj heq ▸ mem_cons_self)
      rw [if_pos ⟨rfl, hne⟩, List.getLast?_cons_cons]
  | cons y rest =>
    have hlast : (xs ++ i :: y :: rest).getLast? = (y :: rest).getLast? := by
      rw [getLast?_append, List.getLast?_cons_cons, getLast?_cons]
      rfl
    have hlast' : (i :: (xs ++ y :: rest)).getLast? = (y :: rest).getLast? := by
      rw [← cons_append, getLast?_append, getLast?_cons]
      rfl
    rw [hlast, hlast']
    refine if_neg fun heq => hfresh ?_
    exact mem_append_right _ (mem_of_getLast? heq.1)

theorem Holds.addHistory (hfresh : updater.findPeer node.peerid = none)
    (hsn : node.isSn = false) (hsnVector : node.snVector = [])
    (hbound : boundCount node.connectVector = 0) :
    (updater.addHistory node).Holds
      { shape with peers := updater.nodes.length :: shape.peers } held := by
  have hnode := node_addHistory updater node
  have hdead : updater.node updater.nodes.length = none := by
    unfold PeerUpdater.node live
    rw [List.getElem?_eq_none (Nat.le_refl _)]
    rfl
  have hnotMem : updater.nodes.length ∉ shape.peers := by
    intro hmem
    obtain ⟨node, hnode⟩ := h.node_of_mem hmem
    rw [hdead] at hnode
    cases hnode
  have hold : ∀ j node', updater.node j = some node' → (updater.addHistory node).node j = some node' := by
    intro j node' hj
    have hne : j ≠ updater.nodes.length := by
      intro heq
      rw [heq, hdead] at hj
      cases hj
    rw [hnode, if_neg hne]
    exact hj
  have hflag : ∀ j, updater.IsFlagged j → (updater.addHistory node).IsFlagged j :=
    fun j ⟨node', hj, hflagged⟩ => ⟨node', hold j node' hj, hflagged⟩
  have hcases : ∀ j node', (updater.addHistory node).node j = some node' →
      (j = updater.nodes.length ∧ node' = node) ∨ updater.node j = some node' := by
    intro j node' hj
    rw [hnode] at hj
    split at hj
    case isTrue heq => exact .inl ⟨heq, (some.inj hj).symm⟩
    case isFalse => exact .inr hj
  exact { h with
    peerList := h.peerList.add hnotMem
    peerListTail := by
      show updater.peerListTail.or _ = _
      rw [h.peerListTail, getLast?_cons]
      cases shape.peers.getLast? <;> rfl
    mapped := h.mapped.cons _
    keys := by
      rw [PeerUpdater.findPeer, map_eq_none_iff] at hfresh
      exact nodup_cons PeeridMapNode.comparesBy h.keys hfresh rfl
    peerids := by
      intro entry hentry
      rcases mem_cons.mp hentry with rfl | hentry
      · exact ⟨node, (hnode _).trans (if_pos rfl), rfl⟩
      · obtain ⟨node', hnode', hpeerid⟩ := h.peerids entry hentry
        exact ⟨node', hold _ node' hnode', hpeerid⟩
    sns_mem := fun j hj => mem_cons_of_mem _ (h.sns_mem j hj)
    flagged := fun j hj => hflag j (h.flagged j hj)
    listed := by
      intro j hj
      obtain ⟨node', hj, hflagged⟩ := hj
      rcases hcases j node' hj with ⟨rfl, rfl⟩ | hj
      · rw [hsn] at hflagged
        cases hflagged
      · exact h.listed j ⟨node', hj, hflagged⟩
    snVector := by
      intro j node' hj sn hmem
      rcases hcases j node' hj with ⟨rfl, rfl⟩ | hj
      · rw [hsnVector] at hmem
        cases hmem
      · exact hflag sn (h.snVector j node' hj sn hmem)
    count := by
      show updater.peerCount + 1 + shape.gap = shape.peers.length + 1
      have := h.count
      omega
    peers_of_node := by
      intro j node' hj
      rcases hcases j node' hj with ⟨rfl, -⟩ | hj
      · exact mem_cons_self
      · exact mem_cons_of_mem _ (h.peers_of_node j node' hj)
    balanced := h.balanced.alloc node
    bound_mem := fun j hj => mem_cons_of_mem _ (h.bound_mem j hj)
    bound_count := by
      intro j node' hj
      rcases hcases j node' hj with ⟨rfl, rfl⟩ | hj
      · rw [hbound]
        exact count_eq_zero.mpr fun hmem => hnotMem (h.bound_mem _ hmem)
      · exact h.bound_count j node' hj
    localNode := by
      intro j hj
      obtain ⟨node', hj, hlocal⟩ := h.localNode j hj
      exact ⟨node', hold j node' hj, hlocal⟩
    localHistory := h.localHistory }

end

theorem Holds.list (h : updater.Holds { shape with unlisted := i :: shape.unlisted } held)
    (hflagged : updater.IsFlagged i) (hnotMem : i ∉ shape.sns)
    (hadd : updater.snLinks.add updater.superNodeList i = (snLinks, superNodeList)) :
    Holds { updater with snLinks, superNodeList } { shape with sns := i :: shape.sns } held :=
  { h with
  snList := by
    have hlist := h.snList.add hnotMem
    rwa [hadd] at hlist
  sns_mem := by
    intro j hj
    rcases mem_cons.mp hj with rfl | hj
    · obtain ⟨node, hnode, -⟩ := hflagged
      exact h.peers_of_node j node hnode
    · exact h.sns_mem j hj
  flagged := by
    intro j hj
    rcases mem_cons.mp hj with rfl | hj
    · exact hflagged
    · exact h.flagged j hj
  listed := by
    intro j hj
    rcases h.listed j hj with hmem | hmem
    · exact .inl (mem_cons_of_mem _ hmem)
    · rcases mem_cons.mp hmem with rfl | hmem
      · exact .inl mem_cons_self
      · exact .inr hmem }

/-! ## Peers that are made sure of -/

section

variable (h : updater.Holds shape held)
include h

theorem Holds.makeSureSuperNode (hnext : updater.makeSureSuperNode i = some next) :
    ∃ other, shape.Grows other ∧ next.Holds other held ∧ next.IsFlagged i := by
  obtain ⟨node, hnode, hnext⟩ := bind_eq_some_iff.mp hnext
  split at hnext
  case isTrue hsn =>
    cases hnext
    exact ⟨shape, .refl shape, h, node, hnode, hsn⟩
  case isFalse hsn =>
  obtain ⟨changed, hchanged, rfl⟩ := map_eq_some_iff.mp hnext
  have hholds : changed.Holds { shape with unlisted := i :: shape.unlisted } held := by
    refine h.modify hchanged ?_ ?_ ?_ (subset_cons_self _ _) ?_
    · exact fun node _ => ⟨rfl, fun _ => rfl, id⟩
    · exact fun node _ => rfl
    · exact fun node _ sn hmem => .inl hmem
    · exact fun node _ _ => .inr mem_cons_self
  have hflagged : changed.IsFlagged i := by
    refine ⟨{ node with isSn := true }, ?_, rfl⟩
    rw [node_modify hchanged, if_pos rfl, hnode]
    rfl
  have hnotMem : i ∉ shape.sns := by
    intro hmem
    obtain ⟨other, hother, hflag⟩ := h.flagged i hmem
    obtain rfl := some.inj (hnode.symm.trans hother)
    exact hsn hflag
  exact ⟨{ shape with sns := i :: shape.sns },
    ⟨List.Subset.refl _, subset_cons_self _ _, rfl, rfl, rfl⟩,
    hholds.list hflagged hnotMem rfl, hflagged⟩

theorem Holds.makeSurePeerHistoryExist
    {peerInfo : Option PeerInfo} {now : Int} {isNew isNewConstInfo : Bool}
    (hnext : updater.makeSurePeerHistoryExist peerid peerInfo now =
      some (next, i, isNew, isNewConstInfo)) :
    ∃ other, shape.Grows other ∧ next.Holds other held ∧ i ∈ other.peers := by
  unfold PeerUpdater.makeSurePeerHistoryExist at hnext
  cases hfound : updater.findPeer peerid with
  | none =>
    rw [hfound] at hnext
    cases hnext
    have hpeerid : (PeerInfoNode.init peerid peerInfo now).peerid = peerid := by
      cases peerInfo <;> rfl
    refine ⟨{ shape with peers := updater.nodes.length :: shape.peers },
      ⟨subset_cons_self _ _, List.Subset.refl _, rfl, rfl, rfl⟩,
      h.addHistory ((congrArg updater.findPeer hpeerid).trans hfound) ?_ ?_ ?_, mem_cons_self⟩
    · cases peerInfo <;> rfl
    · cases peerInfo <;> rfl
    · cases peerInfo with
      | none => rfl
      | some => exact boundCount_updateEndpoints ..
  | some j =>
    rw [hfound] at hnext
    obtain ⟨rest, hperm, hholds⟩ := h.moveToHeader (h.findPeer hfound).1
    have hgrows : shape.Grows { shape with peers := j :: rest } :=
      ⟨hperm.subset, List.Subset.refl _, rfl, rfl, rfl⟩
    cases peerInfo with
    | none =>
      cases hnext
      exact ⟨_, hgrows, hholds, mem_cons_self⟩
    | some =>
      obtain ⟨node, -, hnext⟩ := bind_eq_some_iff.mp hnext
      obtain ⟨changed, hchanged, hnext⟩ := bind_eq_some_iff.mp hnext
      cases hnext
      refine ⟨_, hgrows, hholds.modify_same hchanged ?_ ?_ ?_, mem_cons_self⟩
      · exact fun node => ⟨rfl, rfl, rfl⟩
      · exact fun node _ => boundCount_updateEndpoints ..
      · exact fun node _ sn hmem => .inl hmem

/-! ## Connections -/

theorem Holds.connect {remoteEndpoint : BdtEndpoint}
    {localEndpoint : Option Nat} {change : HistoryConnectInfo → HistoryConnectInfo}
    {isNewConnect isChanged : Bool}
    (hnext : updater.connect i remoteEndpoint localEndpoint change =
      some (next, isNewConnect, isChanged))
    (hchange : ∀ connection, (change connection).localEndpoint = connection.localEndpoint) :
    ∃ bound, next.Holds { shape with bound } held := by
  obtain ⟨node, hnode, hnext⟩ := bind_eq_some_iff.mp hnext
  obtain ⟨changed, hchanged, hnext⟩ := bind_eq_some_iff.mp hnext
  obtain ⟨referred, hreferred, hnext⟩ := bind_eq_some_iff.mp hnext
  cases hnext
  have hcount := (boundCount_modify hchange
    (findOrAddConnectInfo remoteEndpoint localEndpoint node.connectVector).1
    (findOrAddConnectInfo remoteEndpoint localEndpoint node.connectVector).2.1).trans
      (boundCount_findOrAdd remoteEndpoint localEndpoint node.connectVector)
  unfold PeerUpdater.refLocal at hreferred
  split at hreferred
  case isFalse hbound =>
    cases hreferred
    rw [if_neg hbound] at hcount
    refine ⟨shape.bound, h.modify_same hchanged (fun node => ⟨rfl, rfl, rfl⟩) ?_ ?_⟩
    · intro other hother
      obtain rfl := some.inj (hnode.symm.trans hother)
      exact hcount
    · exact fun node _ sn hmem => .inl hmem
  case isTrue hbound =>
  -- the new connection refers to the local peer, and holds a reference of its node
  rw [if_pos hbound] at hcount
  obtain ⟨localHistory, hlocal, hreferred⟩ := bind_eq_some_iff.mp hreferred
  replace hlocal : updater.localHistory = some localHistory := by
    obtain ⟨cell, -, rfl⟩ := map_eq_some_iff.mp hchanged
    exact hlocal
  have hnode' := fun j => (congrFun (node_addRef hreferred) j).trans (node_modify hchanged j)
  obtain ⟨cell, hcell, rfl⟩ := map_eq_some_iff.mp hchanged
  obtain ⟨nodes, haddRef, rfl⟩ := map_eq_some_iff.mp hreferred
  refine ⟨i :: shape.bound, h.change rfl hnode' ?_ ?_ (List.Subset.refl _) ?_ ?_ ?_ ?_ ?_ ?_⟩
  · exact fun node _ => ⟨rfl, id, id⟩
  · exact fun node _ sn hmem => .inl hmem
  · exact fun node _ hsn => .inl hsn
  · refine ((h.balanced.update hcell _).addRef haddRef).perm ?_
    rw [localRefs_cons hlocal]
    exact perm_middle.symm
  · intro j hj
    rcases mem_cons.mp hj with rfl | hj
    · exact h.peers_of_node _ node hnode
    · exact h.bound_mem j hj
  · intro other hother
    rw [count_cons_self, h.bound_count i node hnode]
    exact hcount.symm
  · exact fun j hne => count_cons_of_ne hne.symm
  · intro hnone
    rw [hlocal] at hnone
    cases hnone

/-! ## Histories from outside -/

theorem Holds.addOuterConnects (hnext : updater.addOuterConnects i connections = some next) :
    ∃ bound, next.Holds { shape with bound } held := by
  induction connections generalizing updater shape with
  | nil =>
    cases hnext
    exact ⟨shape.bound, h⟩
  | cons outer _ ih =>
    obtain ⟨added, hadded, hnext⟩ := bind_eq_some_iff.mp hnext
    cases outer with
    | none =>
      cases hadded
      exact ih h hnext
    | some =>
      obtain ⟨⟨changed, isNewConnect, isChanged⟩, hconnect, rfl⟩ :=
        map_eq_some_iff.mp hadded
      obtain ⟨bound, hholds⟩ := h.connect hconnect fun _ => rfl
      obtain ⟨bound', hholds⟩ := @ih changed { shape with bound } hholds hnext
      exact ⟨bound', hholds⟩

end

theorem core_addOuterConnects
    (h : updater.addOuterConnects i connections = some next) (j : NodeId) :
    (next.node j).map (·.core) = (updater.node j).map (·.core) := by
  induction connections generalizing updater with
  | nil => rw [some.inj h]
  | cons outer _ ih =>
    obtain ⟨added, hadded, h⟩ := bind_eq_some_iff.mp h
    refine (ih h).trans ?_
    cases outer with
    | none => rw [some.inj hadded]
    | some =>
      obtain ⟨⟨changed, isNewConnect, isChanged⟩, hconnect, rfl⟩ :=
        map_eq_some_iff.mp hadded
      exact core_connect hconnect j

variable (h : updater.Holds shape held)
include h

theorem Holds.makeSureOuter (outer : OuterPeerInfo) :
    ∃ other, shape.Grows other ∧ (updater.makeSureOuter outer).1.Holds other held ∧
      (updater.makeSureOuter outer).2 ∈ other.peers := by
  unfold PeerUpdater.makeSureOuter
  split
  case h_1 j hfound => exact ⟨shape, .refl shape, h, (h.findPeer hfound).1⟩
  case h_2 hfound =>
  exact ⟨{ shape with peers := updater.nodes.length :: shape.peers },
    ⟨subset_cons_self _ _, List.Subset.refl _, rfl, rfl, rfl⟩,
    h.addHistory hfound rfl rfl rfl, mem_cons_self⟩

theorem Holds.addOuterPeer {outer : OuterPeerInfo}
    (hnext : updater.addOuterPeer outer = some (next, i)) :
    ∃ other, shape.Grows other ∧ next.Holds other held ∧ i ∈ other.peers ∧
      (outer.isSn = true → next.IsFlagged i) := by
  obtain ⟨sure, hgrows, hsure, hmem⟩ := h.makeSureOuter outer
  obtain ⟨flagged, hflagged, hnext⟩ := bind_eq_some_iff.mp hnext
  obtain ⟨connected, hconnected, hnext⟩ := bind_eq_some_iff.mp hnext
  cases hnext
  have hlisted : ∃ other, sure.Grows other ∧ flagged.Holds other held ∧
      (outer.isSn = true → flagged.IsFlagged (updater.makeSureOuter outer).2) := by
    unfold PeerUpdater.takeSnFlag at hflagged
    split at hflagged
    case isTrue =>
      obtain ⟨other, hgrows, hholds, hisFlagged⟩ := hsure.makeSureSuperNode hflagged
      exact ⟨other, hgrows, hholds, fun _ => hisFlagged⟩
    case isFalse hsn =>
      exact ⟨sure, .refl sure, some.inj hflagged ▸ hsure, fun h => absurd h hsn⟩
  obtain ⟨other, hgrows', hholds, hisFlagged⟩ := hlisted
  obtain ⟨bound, hholds⟩ := hholds.addOuterConnects hconnected
  refine ⟨{ other with bound },
    ⟨List.Subset.trans hgrows.peers hgrows'.peers, List.Subset.trans hgrows.sns hgrows'.sns,
      hgrows'.unlisted.trans hgrows.unlisted, hgrows'.gap.trans hgrows.gap,
      hgrows'.localHistory.trans hgrows.localHistory⟩,
    hholds, hgrows'.peers hmem, fun hsn => ?_⟩
  rw [isFlagged_iff_core, core_addOuterConnects hconnected, ← isFlagged_iff_core]
  exact hisFlagged hsn

theorem Holds.length_le {l : List NodeId} (hnodup : l.Nodup)
    (hmem : ∀ i ∈ l, i ∈ shape.peers) : l.length ≤ updater.nodes.length := by
  have hsubset : l ⊆ List.range updater.nodes.length := by
    intro i hi
    obtain ⟨node, hnode⟩ := h.node_of_mem (hmem i hi)
    obtain ⟨cell, hcell, -⟩ := node_eq_some.mp hnode
    exact mem_range.mpr (List.getElem?_eq_some_iff.mp (live_eq_some.mp hcell).1).1
  have hle := (subperm_of_subset hnodup hsubset).length_le
  rwa [length_range] at hle

theorem Holds.relinkPeers (hmem : i ∈ shape.peers) :
    ∃ peers, shape.peers.Perm peers ∧ (updater.relinkPeers i).Holds { shape with peers } held := by
  obtain ⟨xs, ys, hpeers⟩ := append_of_mem hmem
  obtain ⟨hlinked, hnodup, hhead⟩ := hpeers ▸ h.peerList
  have htail := hpeers ▸ h.peerListTail
  unfold PeerUpdater.relinkPeers
  rw [hlinked.previous, or_none]
  cases hxs : xs.getLast? with
  | none => exact ⟨shape.peers, .refl _, h⟩
  | some newPeerListTail =>
    have hperm : (xs ++ i :: ys).Perm (i :: ys ++ xs) := perm_append_comm
    refine ⟨i :: ys ++ xs, hpeers ▸ hperm, h.reorder rfl ?_ ?_ (hpeers ▸ hperm)⟩
    · obtain ⟨hnew, hold⟩ := hlinked.cut hnodup
      rw [hxs] at hnew hold
      have hconcat := Links.Linked.concat hold hnew (hperm.nodup_iff.mp hnodup)
      have hlast : updater.peerListTail = (i :: ys).getLast? := by
        rw [htail, getLast?_append, getLast?_cons]
        rfl
      have hfirst : updater.peerList = xs.head? := by
        rw [hhead]
        cases xs with
        | nil => cases hxs
        | cons => rfl
      rw [hlast, hfirst]
      exact ⟨hconcat, hperm.nodup_iff.mp hnodup, rfl⟩
    · show some newPeerListTail = (i :: ys ++ xs).getLast?
      rw [getLast?_append, hxs]
      rfl

theorem Holds.relinkSuperNodes {snListOld : Option NodeId}
    (hmem : ∀ i, snListOld = some i → i ∈ shape.sns) :
    ∃ sns, shape.sns.Perm sns ∧
      (updater.relinkSuperNodes snListOld).Holds { shape with sns } held := by
  cases snListOld with
  | none => exact ⟨shape.sns, .refl _, h⟩
  | some i =>
    obtain ⟨xs, ys, hsns⟩ := append_of_mem (hmem i rfl)
    obtain ⟨hlinked, hnodup, hhead⟩ := hsns ▸ h.snList
    unfold PeerUpdater.relinkSuperNodes
    rw [bind_some, hlinked.previous, or_none]
    cases hxs : xs.getLast? with
    | none => exact ⟨shape.sns, .refl _, h⟩
    | some =>
      have hperm : (xs ++ i :: ys).Perm (i :: ys ++ xs) := perm_append_comm
      refine ⟨i :: ys ++ xs, hsns ▸ hperm, ?_⟩
      obtain ⟨hnew, hold⟩ := hlinked.cut hnodup
      rw [hxs] at hnew hold
      have hlength : (i :: ys).length ≤ updater.nodes.length := by
        refine h.length_le (hnodup.sublist (sublist_append_right xs _)) fun j hj => ?_
        exact h.sns_mem j (hsns ▸ mem_append_right xs hj)
      have hwalk := Links.walk_next hold hlength
      have hfirst : updater.superNodeList = xs.head? := by
        rw [hhead]
        cases xs with
        | nil => cases hxs
        | cons => rfl
      have hconcat := Links.Linked.concat hold hnew (hperm.nodup_iff.mp hnodup)
      refine h.reorderSuperNodes rfl ?_ (hsns ▸ hperm)
      refine ⟨?_, hperm.nodup_iff.mp hnodup, rfl⟩
      rw [hfirst]
      exact hwalk ▸ hconcat

end PeerUpdater

end Bdt
