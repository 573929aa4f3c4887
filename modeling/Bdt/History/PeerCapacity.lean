import Bdt.History.PeerStructure

/-!
# The capacity of the peer history

What `HistoryLimitPeerCount` does to the list of peers: from its end, it leaves out those that nothing
protects, until there are no more peers than the capacity or no more such peers. `Holds.limitPeerCount`
says so for an updater whose structure is right.
-/

namespace Bdt

open Base Option
open List hiding beq_eq_decide

variable {ι : Type*}

/-- What is left when so many elements are taken out that are not kept, the first ones first. -/
def spare (isKept : ι → Bool) : Nat → List ι → List ι
  | 0, l => l
  | _ + 1, [] => []
  | n + 1, x :: xs =>
    if isKept x then x :: spare isKept (n + 1) xs else spare isKept n xs

variable {isKept : ι → Bool} {n : Nat} {l : List ι} {x : ι}

theorem spare_sublist (isKept : ι → Bool) (n : Nat) (l : List ι) :
    (spare isKept n l).Sublist l := by
  induction l generalizing n with
  | nil => cases n <;> exact List.Sublist.refl _
  | cons x _ ih =>
    cases n with
    | zero => exact List.Sublist.refl _
    | succ n =>
      unfold spare
      split
      case isTrue => exact (ih (n + 1)).cons_cons x
      case isFalse => exact (ih n).cons x

theorem spare_congr {other : ι → Bool} (h : ∀ x ∈ l, isKept x = other x) :
    spare isKept n l = spare other n l := by
  induction l generalizing n with
  | nil => cases n <;> rfl
  | cons x _ ih =>
    cases n with
    | zero => rfl
    | succ =>
      unfold spare
      rw [h x mem_cons_self, ih fun y hy => h y (mem_cons_of_mem x hy),
        ih fun y hy => h y (mem_cons_of_mem x hy)]

theorem spare_length (isKept : ι → Bool) (n : Nat) (l : List ι) :
    (spare isKept n l).length + min n (l.countP (!isKept ·)) = l.length := by
  induction l generalizing n with
  | nil => cases n <;> rfl
  | cons x _ ih =>
    cases n with
    | zero => simp [spare]
    | succ n =>
      unfold spare
      rw [countP_cons]
      cases hx : isKept x with
      | true =>
        have := ih (n + 1)
        simp only [Bool.not_true, Bool.false_eq_true, if_false, if_true, length_cons]
        omega
      | false =>
        have := ih n
        simp only [Bool.not_false, Bool.false_eq_true, if_false, if_true, length_cons]
        omega

/-- An element stays if and only if it is kept, or there are enough others before it. -/
theorem mem_spare [DecidableEq ι] (hnodup : l.Nodup) (hx : x ∈ l) :
    x ∈ spare isKept n l ↔ isKept x = true ∨ n ≤ (l.takeWhile (· ≠ x)).countP (!isKept ·) := by
  induction l generalizing n with
  | nil => cases hx
  | cons y ys ih =>
    obtain ⟨hy, hnodup⟩ := nodup_cons.mp hnodup
    cases n with
    | zero => exact iff_of_true hx (.inr (Nat.zero_le _))
    | succ n =>
      unfold spare
      by_cases heq : y = x
      · subst heq
        rw [takeWhile_cons_of_neg (by simp), countP_nil]
        split
        case isTrue hkept => exact iff_of_true mem_cons_self (.inl hkept)
        case isFalse hkept =>
          refine iff_of_false (fun hmem => hy ((spare_sublist _ _ _).subset hmem)) ?_
          exact fun h => h.elim hkept fun hle => Nat.not_succ_le_zero n hle
      have hmem : x ∈ ys := (mem_cons.mp hx).resolve_left fun h => heq h.symm
      rw [takeWhile_cons_of_pos (by simpa using heq), countP_cons]
      split
      case isTrue hkept =>
        have hne : x ≠ y := fun h => heq h.symm
        rw [mem_cons, or_iff_right hne, ih hnodup hmem, hkept]
        rfl
      case isFalse hkept =>
        rw [ih hnodup hmem]
        simp [hkept]

namespace PeerUpdater

variable {updater next : PeerUpdater} {shape : PeerShape} {held : List NodeId} {i : NodeId}
  {node : PeerInfoNode}

variable {nodes : List (Counted PeerInfoNode)} {xs ys : List NodeId}

variable {localHistory : NodeId} {references : List NodeId}

/-- The local node is released as often as it was referred to, and someone still holds it. -/
theorem releaseLocal_eq {count : Nat}
    (h : Balanced nodes (List.replicate count localHistory ++ references))
    (hmem : localHistory ∈ references) :
    ∃ rest, releaseLocal nodes localHistory count = some rest ∧ Balanced rest references ∧
      (∀ j, (live rest j).map (·.value) = (live nodes j).map (·.value)) ∧
      ∀ j, j ≠ localHistory → live rest j = live nodes j := by
  induction count generalizing nodes with
  | zero => exact ⟨nodes, rfl, h, fun _ => rfl, fun _ _ => rfl⟩
  | succ count ih =>
    have hreferences : List.replicate (count + 1) localHistory ++ references =
        localHistory :: (List.replicate count localHistory ++ references) := rfl
    rw [hreferences] at h
    obtain ⟨cell, hcell⟩ := h.alive localHistory mem_cons_self
    have hnext : Base.release nodes localHistory = some _ := congrArg (Option.map _) hcell
    have hshared : 1 < cell.refCount := by
      have hcount := h.count localHistory cell hcell
      have hpos := count_pos_iff.mpr (mem_append_right
        (List.replicate count localHistory) hmem)
      rw [count_cons_self] at hcount
      omega
    obtain ⟨rest, hrest, hbalanced, hvalue, hsame⟩ := ih (h.release hnext)
    refine ⟨rest, ?_, hbalanced, fun j => (hvalue j).trans ?_, fun j hne => (hsame j hne).trans ?_⟩
    · unfold releaseLocal
      rw [hnext]
      exact hrest
    · rw [live_set hcell]
      split
      case isTrue heq =>
        subst heq
        rw [hcell, if_neg (by rw [decide_eq_true_eq]; omega)]
        rfl
      case isFalse => rfl
    · exact live_release hnext hne.symm

theorem localRefs_perm {bound other : List NodeId} (h : bound.Perm other) :
    (updater.localRefs bound).Perm (updater.localRefs other) :=
  h.flatMap_right _

theorem localRefs_replicate (h : updater.localHistory = some localHistory)
    (count : Nat) (i : NodeId) (bound : List NodeId) :
    updater.localRefs (List.replicate count i ++ bound) =
      List.replicate count localHistory ++ updater.localRefs bound := by
  induction count with
  | zero => rfl
  | succ count ih =>
    show updater.localRefs (i :: (List.replicate count i ++ bound)) = _
    rw [localRefs_cons h, ih]
    rfl

/-- The connections of a node that is freed give back their references of the local node. -/
theorem deleteNode_eq {connections : List HistoryConnectInfo}
    {bound : List NodeId} (h : Balanced nodes (references ++ updater.localRefs bound))
    (hunbound : updater.localHistory = none → bound = [])
    (hmem : ∀ j, updater.localHistory = some j → j ∈ references)
    (hcount : bound.count i = boundCount connections) :
    ∃ rest, deleteNode nodes updater.localHistory connections = some rest ∧
      Balanced rest (references ++ updater.localRefs (bound.filter (· ≠ i))) ∧
      (∀ j, (live rest j).map (·.value) = (live nodes j).map (·.value)) ∧
      ∀ j, updater.localHistory ≠ some j → live rest j = live nodes j := by
  have hsplit : bound.Perm (List.replicate (boundCount connections) i ++ bound.filter (· ≠ i)) := by
    have hperm := (filter_append_perm (· == i) bound).symm
    rw [filter_beq, hcount] at hperm
    refine hperm.trans (List.Perm.append_left _ (List.Perm.of_eq ?_))
    exact filter_congr fun j _ => by rw [decide_not, beq_eq_decide]
  cases hlocal : updater.localHistory with
  | none =>
    have hnil := hunbound hlocal
    subst hnil
    have hzero : boundCount connections = 0 := hcount.symm
    refine ⟨nodes, ?_, h, fun _ => rfl, fun _ _ => rfl⟩
    unfold deleteNode
    rw [hzero]
  | some localHistory =>
    have hperm : (references ++ updater.localRefs bound).Perm
        (List.replicate (boundCount connections) localHistory ++
          (references ++ updater.localRefs (bound.filter (· ≠ i)))) := by
      refine ((localRefs_perm hsplit).append_left references).trans ?_
      rw [localRefs_replicate hlocal, ← append_assoc, ← append_assoc]
      exact perm_append_comm.append_right _
    obtain ⟨rest, hrest, hbalanced, hvalue, hsame⟩ := releaseLocal_eq (h.perm hperm)
      (mem_append_left _ (hmem localHistory hlocal))
    refine ⟨rest, ?_, hbalanced, hvalue, fun j hne => hsame j fun heq => hne (congrArg some heq.symm)⟩
    unfold deleteNode
    split
    case h_1 hzero =>
      rw [hzero] at hrest
      exact hrest
    case h_2 hnone => cases hnone
    case h_3 count _ hsucc hsome =>
      cases hsome
      rwa [hsucc] at hrest

theorem isProtected_of_local {node : PeerInfoNode} (hnode : updater.node i = some node)
    (hlocal : node.isLocal = true) : updater.isProtected i = true := by
  obtain ⟨cell, hcell, rfl⟩ := node_eq_some.mp hnode
  unfold isProtected
  rw [hcell, any_some, hlocal, Bool.or_true, Bool.true_or]

theorem release_last {cell : Counted PeerInfoNode} {rest : List (Counted PeerInfoNode)}
    (hcell : live updater.nodes i = some cell) (hlast : cell.refCount ≤ 1)
    (hnodes : Base.release updater.nodes i = some nodes)
    (hrest : deleteNode nodes updater.localHistory cell.value.connectVector = some rest) :
    updater.release i = some { updater with nodes := rest } := by
  unfold release
  rw [hcell, bind_some, hnodes, bind_some, if_pos (by omega), hrest]
  rfl

/-- A peer that nothing protects. -/
structure Unprotected (updater : PeerUpdater) (i : NodeId) (node : PeerInfoNode) : Prop where
  isSn : node.isSn = false
  isLocal : node.isLocal = false
  refCount : ∀ cell, live updater.nodes i = some cell → cell.refCount ≤ 1

theorem unprotected_of (hnode : updater.node i = some node) (h : updater.isProtected i = false) :
    updater.Unprotected i node := by
  obtain ⟨cell, hcell, rfl⟩ := node_eq_some.mp hnode
  unfold isProtected at h
  rw [hcell, any_some, Bool.or_eq_false_iff, Bool.or_eq_false_iff] at h
  refine ⟨h.1.1, h.1.2, fun other hother => ?_⟩
  obtain rfl := some.inj (hcell.symm.trans hother)
  exact Int.not_lt.mp (of_decide_eq_false h.2)

section

variable (h : updater.Holds shape held)
include h

theorem Holds.unmap (hnode : updater.node i = some node)
    (hpeers : shape.peers = xs ++ i :: ys) {peeridMap : List PeeridMapNode}
    {member : Option PeeridMapNode}
    (hdelete : deleteIfMember PeeridMapNode.compare updater.peeridMap
      { peerid := node.peerid, peerHistoryNode := i } = (peeridMap, member)) :
    (peeridMap.map (·.peerHistoryNode)).Perm (xs ++ ys) ∧ (peeridMap.map (·.peerid)).Nodup ∧
      ∀ entry ∈ peeridMap, entry ∈ updater.peeridMap ∧ entry.peerHistoryNode ≠ i := by
  have hpeer : i ∈ shape.peers := hpeers ▸ mem_append_right xs mem_cons_self
  obtain ⟨entry, hentry, hentryNode⟩ := mem_map.mp (h.mapped.mem_iff.mpr hpeer)
  obtain ⟨other, hother, hkey⟩ := h.peerids entry hentry
  rw [hentryNode] at hother
  obtain rfl := some.inj (hnode.symm.trans hother)
  have helem : { peerid := node.peerid, peerHistoryNode := i } = entry := by
    rw [hkey, ← hentryNode]
  rw [helem] at hdelete
  have hfound : findMember PeeridMapNode.compare updater.peeridMap entry = some entry :=
    (findMember_eq_some PeeridMapNode.comparesBy h.keys).mpr ⟨hentry, rfl⟩
  have hmap : peeridMap = (deleteIfMember PeeridMapNode.compare updater.peeridMap entry).1 :=
    (congrArg Prod.fst hdelete).symm
  have hperm := delete_perm PeeridMapNode.comparesBy hfound
  have hnodes := ((hperm.map (·.peerHistoryNode)).symm.trans h.mapped)
  rw [map_cons, hentryNode, hpeers, ← hmap] at hnodes
  have hrest := (hnodes.trans perm_middle).cons_inv
  refine ⟨hrest, hmap ▸ nodup_delete h.keys, fun entry' hentry' => ⟨?_, fun heq => ?_⟩⟩
  · rw [hmap] at hentry'
    exact ((mem_delete PeeridMapNode.comparesBy h.keys).mp hentry').1
  · have hmem : i ∈ xs ++ ys := hrest.mem_iff.mp (heq ▸ mem_map_of_mem hentry')
    have hnodup := perm_middle.nodup_iff.mp (hpeers ▸ h.peerList.nodup)
    exact (nodup_cons.mp hnodup).1 hmem

theorem Holds.unref (hnode : updater.node i = some node) (hfree : updater.Unprotected i node)
    (hpeers : shape.peers = xs ++ i :: ys) :
    ∃ nodes, (∀ other : PeerUpdater, other.nodes = updater.nodes →
        other.localHistory = updater.localHistory → other.release i = some { other with nodes }) ∧
      Balanced nodes (xs ++ ys ++ held ++ updater.localRefs (shape.bound.filter (· ≠ i))) ∧
      (∀ j, (live nodes j).map (·.value) = if i = j then none else updater.node j) ∧
      ∀ j, j ≠ i → updater.localHistory ≠ some j → live nodes j = live updater.nodes j := by
  obtain ⟨cell, hcell, rfl⟩ := node_eq_some.mp hnode
  have hrefCount := hfree.refCount cell hcell
  have hnodes : Base.release updater.nodes i = some (updater.nodes.set i { cell with
      refCount := cell.refCount - 1
      freed := cell.refCount - 1 ≤ 0 }) := congrArg (Option.map _) hcell
  have hperm : (shape.peers ++ held ++ updater.localRefs shape.bound).Perm
      (i :: (xs ++ ys ++ held ++ updater.localRefs shape.bound)) := by
    rw [hpeers]
    exact (perm_middle.append_right held).append_right _
  have hbalanced := (h.balanced.perm hperm).release hnodes
  have hlive : ∀ j, live (updater.nodes.set i { cell with
      refCount := cell.refCount - 1
      freed := cell.refCount - 1 ≤ 0 }) j = if i = j then none else live updater.nodes j := by
    intro j
    rw [live_set hcell, if_pos (decide_eq_true (by omega))]
  have hlocalMem : ∀ j, updater.localHistory = some j → j ∈ xs ++ ys ++ held := by
    intro j hj
    obtain ⟨other, hother, hisLocal⟩ := h.localNode j hj
    have hmem := h.peers_of_node j other hother
    rw [hpeers] at hmem
    refine mem_append_left _ ((mem_cons.mp (perm_middle.mem_iff.mp hmem)).resolve_left ?_)
    intro heq
    rw [heq, hnode] at hother
    rw [← some.inj hother, hfree.isLocal] at hisLocal
    cases hisLocal
  obtain ⟨rest, hrest, hbalancedRest, hvalue, hsame⟩ :=
    deleteNode_eq hbalanced h.unbound hlocalMem (h.bound_count i cell.value hnode)
  refine ⟨rest, fun other hsameNodes hsameLocal => ?_, hbalancedRest, fun j => ?_,
    fun j hne hnotLocal => (hsame j hnotLocal).trans ((hlive j).trans (if_neg hne.symm))⟩
  · rw [← hsameNodes] at hcell hnodes hrest
    rw [← hsameLocal] at hrest
    exact release_last hcell hrefCount hnodes hrest
  rw [hvalue, hlive]
  split
  case isTrue => rfl
  case isFalse => rfl

/-- What is done by the removal of a node that nothing protects. -/
structure Evicted (updater next : PeerUpdater) (i : NodeId) : Prop where
  peerCapacity : next.peerCapacity = updater.peerCapacity
  localHistory : next.localHistory = updater.localHistory
  peerCount : next.peerCount = updater.peerCount - 1
  node : ∀ j, next.node j = if i = j then none else updater.node j
  isProtected : ∀ j, j ≠ i → next.isProtected j = updater.isProtected j

theorem Holds.evict (hpeers : shape.peers = xs ++ i :: ys) (hcount : 0 < updater.peerCount)
    (hprotected : updater.isProtected i = false) :
    ∃ next bound, updater.evict i = some next ∧ Evicted updater next i ∧
      next.Holds { shape with peers := xs ++ ys, bound } held := by
  have hpeer : i ∈ shape.peers := hpeers ▸ mem_append_right xs mem_cons_self
  obtain ⟨node, hnode⟩ := h.node_of_mem hpeer
  have hfree := unprotected_of hnode hprotected
  obtain ⟨hmapped, hkeys, hentries⟩ := h.unmap hnode hpeers rfl
  obtain ⟨nodes, hrelease, hbalanced, hvalue, hsame⟩ := h.unref hnode hfree hpeers
  obtain ⟨hlinked, hnodup, hhead⟩ := hpeers ▸ h.peerList
  have hlist : updater.peerLinks.IsList updater.peerList (xs ++ i :: ys) := ⟨hlinked, hnodup, hhead⟩
  have hnext : updater.evict i = some { updater.unlink i node.peerid with
      nodes
      peerCount := updater.peerCount - 1 } := by
    unfold PeerUpdater.evict
    rw [hnode]
    exact congrArg (Option.bind · _) (hrelease (updater.unlink i node.peerid) rfl rfl)
  have hother : ∀ j node', j ≠ i → updater.node j = some node' →
      (live nodes j).map (·.value) = some node' := by
    intro j node' hne hj
    rw [hvalue, if_neg hne.symm, hj]
  have hback : ∀ j node', (live nodes j).map (·.value) = some node' →
      j ≠ i ∧ updater.node j = some node' := by
    intro j node' hj
    rw [hvalue] at hj
    split at hj
    case isTrue => cases hj
    case isFalse hne => exact ⟨fun heq => hne heq.symm, hj⟩
  have hmem : ∀ j, j ∈ shape.peers → j ≠ i → j ∈ xs ++ ys := by
    intro j hj hne
    rw [hpeers] at hj
    exact (mem_cons.mp (perm_middle.mem_iff.mp hj)).resolve_left hne
  have hnotFlagged : ∀ j, updater.IsFlagged j → j ≠ i := by
    intro j hj heq
    obtain ⟨node', hj, hsn⟩ := hj
    rw [heq, hnode] at hj
    rw [← some.inj hj, hfree.isSn] at hsn
    cases hsn
  refine ⟨_, shape.bound.filter (· ≠ i), hnext, ?_, ?_⟩
  · refine ⟨rfl, rfl, rfl, hvalue, fun j hne => ?_⟩
    by_cases hlocal : updater.localHistory = some j
    · -- the local node may have given back references, but it is protected anyway
      obtain ⟨node', hnode', hisLocal⟩ := h.localNode j hlocal
      rw [isProtected_of_local hnode' hisLocal]
      exact isProtected_of_local (hother j node' hne hnode') hisLocal
    · show (live nodes j).any _ = (live updater.nodes j).any _
      rw [hsame j hne hlocal]
  exact {
    peerList := by
      refine ⟨hlinked.remove hnodup, hlist.delete.nodup, ?_⟩
      show (if updater.peerList = some i then updater.peerLinks.next i else updater.peerList) = _
      rw [hlinked.next, or_none, hhead]
      cases xs with
      | nil => exact if_pos rfl
      | cons first =>
        refine if_neg fun heq => ?_
        rw [nodup_append] at hnodup
        exact hnodup.2.2 first mem_cons_self i mem_cons_self (some.inj heq)
    peerListTail := by
      show (updater.peerLinks.delete updater.peerListTail i).2 = _
      rw [h.peerListTail, hpeers]
      exact Links.delete_last hlinked hnodup
    snList := h.snList
    mapped := hmapped
    keys := hkeys
    peerids := by
      intro entry hentry
      obtain ⟨hold, hne⟩ := hentries entry hentry
      obtain ⟨node', hnode', hkey⟩ := h.peerids entry hold
      exact ⟨node', hother _ node' hne hnode', hkey⟩
    sns_mem := fun j hj => hmem j (h.sns_mem j hj) (hnotFlagged j (h.flagged j hj))
    flagged := by
      intro j hj
      have hflagged := h.flagged j hj
      obtain ⟨node', hnode', hsn⟩ := hflagged
      exact ⟨node', hother j node' (hnotFlagged j (h.flagged j hj)) hnode', hsn⟩
    listed := by
      intro j hj
      obtain ⟨node', hnode', hsn⟩ := hj
      exact h.listed j ⟨node', (hback j node' hnode').2, hsn⟩
    snVector := by
      intro j node' hj sn hsn
      have hflagged := h.snVector j node' (hback j node' hj).2 sn hsn
      obtain ⟨other, hsnNode, hflag⟩ := hflagged
      exact ⟨other, hother sn other (hnotFlagged sn ⟨other, hsnNode, hflag⟩) hsnNode, hflag⟩
    count := by
      have hold := h.count
      rw [hpeers, length_append, length_cons] at hold
      show updater.peerCount - 1 + shape.gap = (xs ++ ys).length
      rw [length_append]
      omega
    peers_of_node := by
      intro j node' hj
      obtain ⟨hne, hold⟩ := hback j node' hj
      exact hmem j (h.peers_of_node j node' hold) hne
    balanced := hbalanced
    bound_mem := by
      intro j hj
      obtain ⟨hold, hne⟩ := mem_filter.mp hj
      exact hmem j (h.bound_mem j hold) (of_decide_eq_true hne)
    bound_count := by
      intro j node' hj
      obtain ⟨hne, hold⟩ := hback j node' hj
      have hfilter : (shape.bound.filter (· ≠ i)).count j = shape.bound.count j :=
        count_filter (by simpa using hne)
      exact hfilter.trans (h.bound_count j node' hold)
    localNode := by
      intro j hj
      obtain ⟨node', hnode', hisLocal⟩ := h.localNode j hj
      refine ⟨node', hother j node' (fun heq => ?_) hnode', hisLocal⟩
      rw [heq, hnode] at hnode'
      rw [← some.inj hnode', hfree.isLocal] at hisLocal
      cases hisLocal
    unbound := by
      intro hnone
      show shape.bound.filter _ = []
      rw [h.unbound hnone]
      rfl
    localHistory := h.localHistory }

/-! ## The loop -/

/-- What the loop leaves: the peers from the tail on that are spared, and all behind them. -/
structure Limited (updater next : PeerUpdater) (peers : List NodeId) : Prop where
  peerCapacity : next.peerCapacity = updater.peerCapacity
  localHistory : next.localHistory = updater.localHistory
  /-- The nodes of the peers that stay are the same, and the others are freed. -/
  node : ∀ j, next.node j = if j ∈ peers then updater.node j else none

/-- How many peers there are too many. -/
def excess (updater : PeerUpdater) : Nat :=
  updater.peerCount - updater.peerCapacity.toNat

theorem Holds.limited : Limited updater updater shape.peers := by
  refine ⟨rfl, rfl, fun j => ?_⟩
  split
  case isTrue => rfl
  case isFalse hne =>
  cases hj : updater.node j with
  | none => rfl
  | some node => exact absurd (h.peers_of_node j node hj) hne

end

theorem Evicted.limited {evicted : PeerUpdater} {peers : List NodeId}
    (h : Evicted updater evicted i) (hlimited : Limited evicted next peers) (hmem : i ∉ peers) :
    Limited updater next peers := by
  refine ⟨hlimited.peerCapacity.trans h.peerCapacity,
    hlimited.localHistory.trans h.localHistory, fun j => ?_⟩
  rw [hlimited.node]
  split
  case isTrue hj =>
    have hne : i ≠ j := fun heq => hmem (heq ▸ hj)
    rw [h.node, if_neg hne]
  case isFalse => rfl

theorem Holds.limitLoop (h : updater.Holds shape held) {rest back : List NodeId}
    (hpeers : shape.peers = rest.reverse ++ back) {fuel : Nat} (hfuel : rest.length ≤ fuel) :
    ∃ next bound, limitLoop fuel updater rest.head? = some next ∧
      Limited updater next ((spare updater.isProtected updater.excess rest).reverse ++ back) ∧
      next.Holds { shape with
        peers := (spare updater.isProtected updater.excess rest).reverse ++ back
        bound } held := by
  induction rest generalizing updater shape back fuel with
  | nil =>
    have hspare : spare updater.isProtected updater.excess [] = [] := by
      cases updater.excess <;> rfl
    have hback : shape.peers = back := hpeers
    rw [hspare]
    refine ⟨updater, shape.bound, by cases fuel <;> rfl, hback ▸ h.limited, ?_⟩
    exact hback ▸ h
  | cons i rest ih =>
    have hpeers' : shape.peers = rest.reverse ++ i :: back := by
      rw [hpeers, reverse_cons, append_assoc]
      rfl
    have hprevious : updater.peerLinks.previous i = rest.head? := by
      have hlinked := h.peerList.linked
      rw [hpeers'] at hlinked
      rw [hlinked.previous, or_none, List.getLast?_reverse]
    cases fuel with
    | zero => cases hfuel
    | succ fuel =>
      have hfuel := Nat.le_of_succ_le_succ hfuel
      by_cases hcount : updater.peerCapacity.toNat < updater.peerCount
      · have hstep : PeerUpdater.limitLoop (fuel + 1) updater (some i) =
            (if updater.isProtected i then some updater else updater.evict i).bind
              fun updater => PeerUpdater.limitLoop fuel updater rest.head? :=
          (if_pos hcount).trans (by rw [hprevious])
        obtain ⟨n, hn⟩ : ∃ n, updater.excess = n + 1 :=
          Nat.exists_eq_succ_of_ne_zero (Nat.sub_ne_zero_of_lt hcount)
        rw [List.head?_cons, hstep, hn]
        cases hprotected : updater.isProtected i with
        | true =>
          obtain ⟨next, bound, hnext, hlimited, hholds⟩ := ih h hpeers' hfuel
          have hspare : spare updater.isProtected (n + 1) (i :: rest) =
              i :: spare updater.isProtected updater.excess rest := by
            rw [hn]
            exact if_pos hprotected
          rw [hspare, reverse_cons, append_assoc]
          exact ⟨next, bound, hnext, hlimited, hholds⟩
        | false =>
          obtain ⟨evicted, bound, hevict, hevicted, hholds⟩ :=
            h.evict hpeers' (Nat.zero_lt_of_lt hcount) hprotected
          have hnotMem : i ∉ rest.reverse ++ back :=
            (nodup_cons.mp (perm_middle.nodup_iff.mp (hpeers' ▸ h.peerList.nodup))).1
          have hne : ∀ j ∈ rest, j ≠ i := fun j hj heq =>
            hnotMem (mem_append_left _ (mem_reverse.mpr (heq ▸ hj)))
          have hexcess : evicted.excess = n := by
            have hsub : updater.peerCount - updater.peerCapacity.toNat = n + 1 := hn
            show evicted.peerCount - evicted.peerCapacity.toNat = n
            rw [hevicted.peerCount, hevicted.peerCapacity]
            omega
          have hspare : spare updater.isProtected (n + 1) (i :: rest) =
              spare evicted.isProtected evicted.excess rest := by
            have hsame : ∀ j ∈ rest, updater.isProtected j = evicted.isProtected j :=
              fun j hj => (hevicted.isProtected j (hne j hj)).symm
            rw [hexcess, ← spare_congr hsame]
            exact if_neg (by rw [hprotected]; exact Bool.false_ne_true)
          obtain ⟨next, bound', hnext, hlimited, hholds⟩ := ih hholds rfl hfuel
          rw [hspare]
          refine ⟨next, bound', ?_, hevicted.limited hlimited ?_, hholds⟩
          · rw [if_neg Bool.false_ne_true, hevict]
            exact hnext
          intro hmem
          have hsub := (spare_sublist evicted.isProtected evicted.excess rest).subset
          refine hnotMem ((mem_append.mp hmem).elim (fun hi => ?_) ?_)
          · exact mem_append_left _
              (mem_reverse.mpr (hsub (mem_reverse.mp hi)))
          · exact mem_append_right _
      have hzero : updater.excess = 0 := Nat.sub_eq_zero_of_le (Nat.not_lt.mp hcount)
      rw [hzero]
      refine ⟨updater, shape.bound, if_neg hcount, ?_, ?_⟩
      · exact hpeers ▸ h.limited
      · exact hpeers ▸ h

/-! ## The limit -/

/-- The peers in the order in which they are looked at. -/
def fromTail (updater : PeerUpdater) : List NodeId :=
  Links.walk updater.peerLinks.previous updater.nodes.length updater.peerListTail

/-- If the count is limited, there are enough peers that nothing protects. -/
def LimitReaches (updater : PeerUpdater) : Prop :=
  updater.isLimited → updater.excess ≤ updater.fromTail.countP (!updater.isProtected ·)

/-- If the count is limited, the peer is protected, or there are enough other peers behind it that
nothing protects. -/
def LimitSpares (updater : PeerUpdater) (i : NodeId) : Prop :=
  updater.isLimited → updater.isProtected i = true ∨
    updater.excess ≤ (updater.fromTail.takeWhile (· ≠ i)).countP (!updater.isProtected ·)

theorem Holds.fromTail (h : updater.Holds shape held) : updater.fromTail = shape.peers.reverse := by
  unfold PeerUpdater.fromTail
  rw [h.peerListTail]
  exact Links.walk_previous h.peerList.linked (h.length_le h.peerList.nodup fun _ hi => hi)

theorem Holds.limitPeerCount (h : updater.Holds shape held) :
    ∃ next peers bound gap, updater.limitPeerCount = some next ∧ Limited updater next peers ∧
      next.Holds { shape with peers, bound, gap } held ∧
      (∀ i ∈ shape.peers, i ∈ peers ↔ updater.LimitSpares i) ∧
      (gap = shape.gap ↔ updater.LimitReaches) := by
  unfold PeerUpdater.limitPeerCount
  by_cases hlimited : updater.isLimited
  · have hreverse : shape.peers = shape.peers.reverse.reverse ++ [] := by
      rw [reverse_reverse, append_nil]
    have hfuel : shape.peers.reverse.length ≤ updater.nodes.length := by
      rw [length_reverse]
      exact h.length_le h.peerList.nodup fun _ hi => hi
    obtain ⟨next, bound, hloop, hnext, hholds⟩ := h.limitLoop hreverse hfuel
    have htail : updater.peerListTail = shape.peers.reverse.head? := by
      rw [h.peerListTail, List.head?_reverse]
    rw [if_pos hlimited, htail, hloop, map_some]
    have hlength := spare_length updater.isProtected updater.excess shape.peers.reverse
    have hcount := hholds.count
    have hold := h.count
    simp only [append_nil] at hcount hnext hholds
    rw [length_reverse] at hlength hcount
    have hspares : ∀ i ∈ shape.peers,
        i ∈ (spare updater.isProtected updater.excess shape.peers.reverse).reverse ↔
          updater.LimitSpares i := by
      intro i hi
      rw [mem_reverse, mem_spare (nodup_reverse.mpr h.peerList.nodup)
        (mem_reverse.mpr hi), ← h.fromTail]
      exact ⟨fun hcase _ => hcase, fun hspares => hspares hlimited⟩
    have hreaches : updater.LimitReaches ↔
        updater.excess ≤ shape.peers.reverse.countP (!updater.isProtected ·) := by
      rw [← h.fromTail]
      exact ⟨fun hreaches => hreaches hlimited, fun hle _ => hle⟩
    have hexcess : updater.excess = updater.peerCount - updater.peerCapacity.toNat := rfl
    by_cases hleft : next.peerCapacity.toNat < next.peerCount
    · rw [if_pos hleft]
      refine ⟨_, _, bound, shape.gap + (next.peerCount - next.peerCapacity.toNat), rfl,
        ⟨hnext.peerCapacity, hnext.localHistory, hnext.node⟩, { hholds with count := ?_ },
        hspares, ?_⟩
      · show next.peerCapacity.toNat + (shape.gap + (next.peerCount - next.peerCapacity.toNat)) =
          (spare updater.isProtected updater.excess shape.peers.reverse).reverse.length
        rw [length_reverse]
        omega
      · rw [hreaches]
        rw [hnext.peerCapacity] at hleft ⊢
        omega
    rw [if_neg hleft]
    refine ⟨next, _, bound, shape.gap, rfl, hnext, hholds, hspares, ?_⟩
    rw [hreaches]
    rw [hnext.peerCapacity] at hleft
    omega
  rw [if_neg hlimited]
  exact ⟨updater, shape.peers, shape.bound, shape.gap, rfl, h.limited, h,
    fun i hi => iff_of_true hi fun hlimit => absurd hlimit hlimited,
    iff_of_true rfl fun hlimit => absurd hlimit hlimited⟩

end PeerUpdater

end Bdt
