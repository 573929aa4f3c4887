import Mathlib.Data.List.Count
import Bdt.Base.Transition
import Bdt.History.KeyHashes

/-!
# The structure of the key manager

`Sound` is what holds in every run: the map of the hashes has the hashes of the keys, and the map of
the peers has the keys of each peer. `Placed` says that the two lists have the keys.
-/

namespace Bdt

open Base Option

namespace KeyManager

variable {manager next : KeyManager} {i j : NodeId} {node other : KeyNode} {cell : Option KeyNode}
  {peerid : Peerid}

/-! ## What is changed -/

theorem lt_of_node (h : manager.node i = some node) : i < manager.nodes.length := by
  by_contra hge
  unfold KeyManager.node at h
  rw [List.getElem?_eq_none (Nat.le_of_not_lt hge)] at h
  cases h

theorem node_set (next : KeyManager) (h : manager.node i = some node)
    (hnext : next.nodes = manager.nodes.set i cell)
    (j : NodeId) : next.node j = if j = i then cell else manager.node j := by
  unfold KeyManager.node
  rw [hnext]
  split
  case isTrue heq =>
    rw [heq, List.getElem?_set_self (lt_of_node h)]
    rfl
  case isFalse hne => rw [List.getElem?_set_ne fun heq => hne heq.symm]

theorem node_append (next : KeyManager) (hnext : next.nodes = manager.nodes ++ [cell]) (j : NodeId) :
    next.node j = if j = manager.nodes.length then cell else manager.node j := by
  unfold KeyManager.node
  rw [hnext]
  split
  case isTrue heq =>
    rw [heq, List.getElem?_concat_length]
    rfl
  case isFalse hne =>
  rcases Nat.lt_or_gt_of_ne hne with hlt | hgt
  · rw [List.getElem?_append_left hlt]
  · rw [List.getElem?_eq_none, List.getElem?_eq_none (Nat.le_of_lt hgt)]
    rw [List.length_append]
    exact hgt

theorem node_length : manager.node manager.nodes.length = none := by
  unfold KeyManager.node
  rw [List.getElem?_eq_none le_rfl]
  rfl

/-- Nothing but the lists is changed. -/
def Relinks (manager next : KeyManager) : Prop :=
  next =
    { manager with
      links := next.links
      header := next.header
      tail := next.tail
      firstHashMinutes := next.firstHashMinutes
      rehashKeyList := next.rehashKeyList }

variable {last : KeyManager} {expireTime : Int} {aesKey : AesKey}

theorem Relinks.trans (h : manager.Relinks next) (hlast : next.Relinks last) :
    manager.Relinks last := by
  unfold Relinks at h hlast ⊢
  rw [hlast, h]

theorem relinks_addToHeader (manager : KeyManager) (i : NodeId) (minutes : UInt32) :
    manager.Relinks (manager.addToHeader i minutes) := by
  unfold addToHeader
  dsimp only
  split
  case isTrue => rfl
  case isFalse => rfl

theorem relinks_addToTail (manager : KeyManager) (i : NodeId) (minutes : UInt32) :
    manager.Relinks (manager.addToTail i minutes) := by
  unfold addToTail
  dsimp only
  split
  case isTrue => rfl
  case isFalse => rfl

theorem relinks_removeKeyNodeFromList (manager : KeyManager) (i : NodeId) (hashs : MixHashs)
    (minHashMinutes : UInt32) :
    manager.Relinks (manager.removeKeyNodeFromList i hashs minHashMinutes) := by
  unfold removeKeyNodeFromList
  split
  case isTrue =>
    split
    case h_1 => rfl
    case h_2 => rfl
  case isFalse =>
  split
  case h_1 => rfl
  case h_2 => rfl

/-- What the lists and the maps are for does not change: the peer, the key and the hashes. -/
structure Touches (manager next : KeyManager) : Prop where
  same : next = { manager with nodes := next.nodes, updates := next.updates }
  node : ∀ i, (next.node i).map (fun node => (node.keyInfo.peerid, node.keyInfo.aesKey, node.hashs)) =
    (manager.node i).map fun node => (node.keyInfo.peerid, node.keyInfo.aesKey, node.hashs)

theorem Touches.refl (manager : KeyManager) : manager.Touches manager :=
  ⟨rfl, fun _ => rfl⟩

theorem Touches.trans (h : manager.Touches next) (hlast : next.Touches last) :
    manager.Touches last := by
  refine ⟨?_, fun i => (hlast.node i).trans (h.node i)⟩
  rw [hlast.same, h.same]

theorem touches_setNode (h : manager.node i = some node) {keyInfo : KeyInfo}
    (hpeerid : keyInfo.peerid = node.keyInfo.peerid) (haesKey : keyInfo.aesKey = node.keyInfo.aesKey) :
    manager.Touches (manager.setNode i { node with keyInfo }) := by
  refine ⟨rfl, fun j => ?_⟩
  rw [node_set (manager.setNode i { node with keyInfo }) h rfl]
  split
  case isTrue heq =>
    rw [heq, h]
    refine congrArg some ?_
    dsimp only
    rw [hpeerid, haesKey]
  case isFalse => rfl

theorem accessKey_touches {confirmed changed : Bool} {now : Nat}
    (h : manager.accessKey i confirmed expireTime now = some (next, changed)) :
    manager.Touches next := by
  obtain ⟨node, hnode, heq⟩ := map_eq_some_iff.mp h
  cases heq
  exact touches_setNode hnode rfl rfl

theorem prepareForStorage_touches {update : KeyUpdate}
    (h : manager.prepareForStorage i = some (next, update)) : manager.Touches next := by
  obtain ⟨node, hnode, heq⟩ := map_eq_some_iff.mp h
  cases heq
  exact touches_setNode hnode rfl rfl

theorem storageUpdateAesKey_cases (manager : KeyManager) (update : KeyUpdate) (isTaken : Bool)
    {pushed : KeyManager} (h : { manager with updates := update :: manager.updates } = pushed) :
    manager.storageUpdateAesKey update isTaken = pushed ∨
      ∃ i node, pushed.node i = some node ∧ manager.storageUpdateAesKey update isTaken =
        pushed.setNode i { node with keyInfo := { node.keyInfo with isStorage := false } } := by
  unfold storageUpdateAesKey
  rw [h]
  dsimp only
  split
  case isTrue =>
    split
    case h_1 => exact .inl rfl
    case h_2 i _ =>
    cases hnode : pushed.node i with
    | none => exact .inl rfl
    | some node => exact .inr ⟨i, node, hnode, rfl⟩
  case isFalse => exact .inl rfl

theorem storageUpdateAesKey_touches (manager : KeyManager) (update : KeyUpdate) (isTaken : Bool) :
    manager.Touches (manager.storageUpdateAesKey update isTaken) := by
  have hpushed : manager.Touches { manager with updates := update :: manager.updates } :=
    ⟨rfl, fun _ => rfl⟩
  obtain heq | ⟨i, node, hnode, heq⟩ := manager.storageUpdateAesKey_cases update isTaken rfl <;>
    rw [heq]
  · exact hpushed
  · exact hpushed.trans (touches_setNode hnode rfl rfl)

theorem useKey_touches {confirmed isTaken : Bool} {now : Nat} {found : Option (AesKey × Peerid)}
    (h : manager.useKey i confirmed expireTime now isTaken = some (next, found)) :
    manager.Touches next := by
  obtain ⟨⟨accessed, changed⟩, haccess, h⟩ := bind_eq_some_iff.mp h
  obtain ⟨⟨prepared, update⟩, hprepare, h⟩ := bind_eq_some_iff.mp h
  have hprepared := (accessKey_touches haccess).trans (prepareForStorage_touches hprepare)
  obtain rfl := (Prod.mk.inj (some.inj h)).1
  split
  case isTrue => exact hprepared.trans (storageUpdateAesKey_touches ..)
  case isFalse => exact hprepared

/-! ## What the maps have -/

/-- The keys that the map has for a peer. -/
def keysOf (manager : KeyManager) (peerid : Peerid) : List NodeId :=
  entriesOf PeeridKey.peerid PeeridKey.keyNodeList manager.peeridKeyMap peerid

/-- How often the map should have a hash of a key. -/
def hashCount (manager : KeyManager) (i : NodeId) (info : MixHashInfo) : Nat :=
  (manager.node i).elim 0 (·.hashs.infos.count info)

/-- The maps have the keys, and no two keys are the same. -/
structure Sound (manager : KeyManager) : Prop where
  peerids : (manager.peeridKeyMap.map (·.peerid)).Nodup
  keys : ∀ peerid i, i ∈ manager.keysOf peerid ↔
    ∃ node, manager.node i = some node ∧ node.keyInfo.peerid = peerid
  nodup : ∀ peerid, (manager.keysOf peerid).Nodup
  hashs : ∀ i info, manager.mixHashKeyMap.count { keyNode := i, info } = manager.hashCount i info
  valid : ∀ i node, manager.node i = some node →
    node.hashs.Valid manager.calcKeyHash node.keyInfo.aesKey
  distinct : ∀ i node j other, manager.node i = some node → manager.node j = some other →
    node.keyInfo.aesKey = other.keyInfo.aesKey → node.keyInfo.peerid = other.keyInfo.peerid → i = j

theorem Sound.relinks (h : manager.Sound) (hnext : manager.Relinks next) : next.Sound := by
  rw [hnext]
  exact ⟨h.peerids, h.keys, h.nodup, h.hashs, h.valid, h.distinct⟩

theorem Touches.node_of (h : manager.Touches next) (hnode : next.node i = some node) :
    ∃ old, manager.node i = some old ∧ old.keyInfo.peerid = node.keyInfo.peerid ∧
      old.keyInfo.aesKey = node.keyInfo.aesKey ∧ old.hashs = node.hashs := by
  have hsame := h.node i
  rw [hnode] at hsame
  obtain ⟨old, hold, heq⟩ := map_eq_some_iff.mp hsame.symm
  obtain ⟨hpeerid, heq⟩ := Prod.mk.inj heq
  obtain ⟨haesKey, hhashs⟩ := Prod.mk.inj heq
  exact ⟨old, hold, hpeerid, haesKey, hhashs⟩

theorem Touches.node_to (h : manager.Touches next) (hnode : manager.node i = some node) :
    ∃ new, next.node i = some new ∧ new.keyInfo.peerid = node.keyInfo.peerid ∧
      new.keyInfo.aesKey = node.keyInfo.aesKey ∧ new.hashs = node.hashs := by
  have hsame := h.node i
  rw [hnode] at hsame
  obtain ⟨new, hnew, heq⟩ := map_eq_some_iff.mp hsame
  obtain ⟨hpeerid, heq⟩ := Prod.mk.inj heq
  obtain ⟨haesKey, hhashs⟩ := Prod.mk.inj heq
  exact ⟨new, hnew, hpeerid, haesKey, hhashs⟩

theorem Touches.keysOf (h : manager.Touches next) (peerid : Peerid) :
    next.keysOf peerid = manager.keysOf peerid := by
  rw [h.same]
  rfl

theorem Sound.touches (h : manager.Sound) (hnext : manager.Touches next) : next.Sound where
  peerids := by
    rw [hnext.same]
    exact h.peerids
  keys := by
    intro peerid i
    rw [hnext.keysOf, h.keys]
    constructor
    · intro ⟨node, hnode, hpeerid⟩
      obtain ⟨new, hnew, heq, -⟩ := hnext.node_to hnode
      exact ⟨new, hnew, heq.trans hpeerid⟩
    · intro ⟨node, hnode, hpeerid⟩
      obtain ⟨old, hold, heq, -⟩ := hnext.node_of hnode
      exact ⟨old, hold, heq.trans hpeerid⟩
  nodup := by
    intro peerid
    rw [hnext.keysOf]
    exact h.nodup peerid
  hashs := by
    intro i info
    have hmap : next.mixHashKeyMap = manager.mixHashKeyMap := by rw [hnext.same]
    rw [hmap, h.hashs]
    unfold hashCount
    cases hnode : manager.node i with
    | none =>
      have hsame := hnext.node i
      rw [hnode] at hsame
      rw [map_eq_none_iff.mp hsame]
    | some =>
      obtain ⟨new, hnew, -, -, hhashs⟩ := hnext.node_to hnode
      rw [hnew]
      exact congrArg (fun hashs => hashs.infos.count info) hhashs.symm
  valid := by
    intro i node hnode
    have hcalc : next.calcKeyHash = manager.calcKeyHash := by rw [hnext.same]
    obtain ⟨old, hold, -, haesKey, hhashs⟩ := hnext.node_of hnode
    rw [hcalc, ← haesKey, ← hhashs]
    exact h.valid i old hold
  distinct := by
    intro i node j other hnode hother haesKey hpeerid
    obtain ⟨old, hold, hpeerid', haesKey', -⟩ := hnext.node_of hnode
    obtain ⟨old', hold', hpeerid'', haesKey'', -⟩ := hnext.node_of hother
    exact h.distinct i old j old' hold hold' (by rw [haesKey', haesKey, haesKey''])
      (by rw [hpeerid', hpeerid, hpeerid''])

/-- A key gets other hashes. -/
def rehashed (manager : KeyManager) (i : NodeId) (node : KeyNode) (minutes : UInt32) : KeyManager :=
  let result := node.hashs.rehash manager.calcKeyHash node.keyInfo.aesKey minutes
  { manager with
    nodes := manager.nodes.set i (some { node with hashs := result.1 })
    mixHashKeyMap := result.2.foldl (replaceInMap i) manager.mixHashKeyMap }

theorem node_rehashed (h : manager.node i = some node) (minutes : UInt32) (j : NodeId) :
    (manager.rehashed i node minutes).node j =
      if j = i then
        some { node with
          hashs := (node.hashs.rehash manager.calcKeyHash node.keyInfo.aesKey minutes).1 }
      else manager.node j :=
  node_set _ h rfl j

theorem Sound.rehashed (h : manager.Sound) (hnode : manager.node i = some node) (minutes : UInt32) :
    (manager.rehashed i node minutes).Sound := by
  generalize hnext : manager.rehashed i node minutes = next
  have hafter := node_rehashed hnode minutes
  rw [hnext] at hafter
  have hinfo : ∀ j, (next.node j).map (·.keyInfo) = (manager.node j).map (·.keyInfo) := by
    intro j
    rw [hafter]
    split
    case isTrue heq =>
      rw [heq, hnode]
      rfl
    case isFalse => rfl
  have hinfoOf : ∀ j other, next.node j = some other →
      ∃ old, manager.node j = some old ∧ old.keyInfo = other.keyInfo := by
    intro j other hother
    have hsame := hinfo j
    rw [hother] at hsame
    exact map_eq_some_iff.mp hsame.symm
  have hkeys : ∀ peerid, next.keysOf peerid = manager.keysOf peerid := by
    intro peerid
    rw [← hnext]
    rfl
  constructor
  · rw [← hnext]
    exact h.peerids
  · intro peerid j
    rw [hkeys, h.keys]
    constructor
    · intro ⟨old, hold, hpeerid⟩
      have hsame := hinfo j
      rw [hold] at hsame
      obtain ⟨new, hnew, heq⟩ := map_eq_some_iff.mp hsame
      exact ⟨new, hnew, heq ▸ hpeerid⟩
    · intro ⟨new, hnew, hpeerid⟩
      obtain ⟨old, hold, heq⟩ := hinfoOf j new hnew
      exact ⟨old, hold, heq ▸ hpeerid⟩
  · intro peerid
    rw [hkeys]
    exact h.nodup peerid
  · intro j info
    have hold := h.hashs j info
    unfold hashCount at hold ⊢
    rw [hafter, ← hnext]
    split
    case isTrue heq =>
      subst heq
      have hinMap : node.hashs.InMap j manager.mixHashKeyMap := by
        intro info
        have hold := h.hashs j info
        unfold hashCount at hold
        rw [hnode] at hold
        exact hold
      exact hinMap.rehash info
    case isFalse hne => exact (MixHashs.count_foldl_replaceInMap hne ..).trans hold
  · intro j other hother
    have hcalc : next.calcKeyHash = manager.calcKeyHash := by rw [← hnext]; rfl
    rw [hcalc]
    rw [hafter] at hother
    split at hother
    case isTrue heq =>
      cases hother
      exact (h.valid i node hnode).rehash
    case isFalse => exact h.valid j other hother
  intro j other k third hj hk haesKey hpeerid
  obtain ⟨old, hold, heq⟩ := hinfoOf j other hj
  obtain ⟨old', hold', heq'⟩ := hinfoOf k third hk
  rw [← heq, ← heq'] at haesKey hpeerid
  exact h.distinct j old k old' hold hold' haesKey hpeerid

theorem Sound.findKeyByPeerid (h : manager.Sound) (peerid : Peerid) :
    (manager.findKeyByPeerid peerid).getD [] = manager.keysOf peerid := by
  unfold KeyManager.findKeyByPeerid KeyManager.keysOf
  cases hfound : findMember PeeridKey.compare manager.peeridKeyMap { peerid, keyNodeList := [] } with
  | none =>
    refine (entriesOf_eq_nil fun entry hentry heq => ?_).symm
    exact (findMember_eq_none PeeridKey.comparesBy).mp hfound entry hentry heq.symm
  | some entry =>
    obtain ⟨hmem, hpeerid⟩ := findMember_mem PeeridKey.comparesBy hfound
    obtain rfl : peerid = entry.peerid := hpeerid
    exact (entriesOf_found (f := PeeridKey.keyNodeList) h.peerids hmem).symm

theorem Sound.findAesKey_none (h : manager.Sound)
    (hfind : manager.findAesKey aesKey peerid = none) (hnode : manager.node i = some node)
    (hpeerid : node.keyInfo.peerid = peerid) : node.keyInfo.aesKey ≠ aesKey := by
  intro haesKey
  unfold findAesKey at hfind
  rw [h.findKeyByPeerid, List.find?_eq_none] at hfind
  refine hfind i ((h.keys peerid i).mpr ⟨node, hnode, hpeerid⟩) ?_
  rw [hnode]
  exact decide_eq_true haesKey

theorem Sound.findAesKey_some (h : manager.Sound)
    (hfind : manager.findAesKey aesKey peerid = some i) :
    ∃ node, manager.node i = some node ∧ node.keyInfo.peerid = peerid ∧
      node.keyInfo.aesKey = aesKey := by
  unfold findAesKey at hfind
  rw [h.findKeyByPeerid] at hfind
  obtain ⟨node, hnode, hpeerid⟩ := (h.keys peerid i).mp (List.mem_of_find?_eq_some hfind)
  refine ⟨node, hnode, hpeerid, ?_⟩
  have hsame := List.find?_some hfind
  rw [hnode] at hsame
  exact of_decide_eq_true hsame

section

variable (hpeerids : (manager.peeridKeyMap.map (·.peerid)).Nodup)
include hpeerids

theorem keysOf_addToPeer (peerid : Peerid) (i : NodeId) (other : Peerid) :
    (manager.addToPeer peerid i).keysOf other =
      if peerid = other then i :: manager.keysOf other else manager.keysOf other := by
  unfold addToPeer KeyManager.findKeyByPeerid KeyManager.keysOf
  cases hfound : findMember PeeridKey.compare manager.peeridKeyMap { peerid, keyNodeList := [] } with
  | none =>
    refine (entriesOf_cons ..).trans ?_
    split
    case isTrue => rfl
    case isFalse => rfl
  | some =>
    exact entriesOf_updateMember (f := PeeridKey.keyNodeList) PeeridKey.comparesBy hpeerids
      (fun peer => { peer with keyNodeList := i :: peer.keyNodeList }) (fun _ => rfl) (g := (i :: ·))
      (fun _ => rfl) hfound other

theorem peerids_addToPeer (peerid : Peerid)
    (i : NodeId) : ((manager.addToPeer peerid i).peeridKeyMap.map (·.peerid)).Nodup := by
  unfold addToPeer KeyManager.findKeyByPeerid
  cases hfound : findMember PeeridKey.compare manager.peeridKeyMap { peerid, keyNodeList := [] } with
  | none => exact nodup_cons PeeridKey.comparesBy hpeerids hfound rfl
  | some =>
    refine (congrArg List.Nodup ?_).mpr hpeerids
    exact map_updateMember fun _ => rfl

theorem keysOf_takeFromPeer (peerid : Peerid) (i : NodeId) (other : Peerid) :
    (manager.takeFromPeer peerid i).keysOf other =
      if peerid = other then (manager.keysOf other).erase i else manager.keysOf other := by
  unfold takeFromPeer KeyManager.keysOf
  cases hfound : findMember PeeridKey.compare manager.peeridKeyMap { peerid, keyNodeList := [] } with
  | none =>
    rw [updateMember_none _ hfound]
    split
    case isTrue heq =>
      rw [entriesOf_eq_nil fun entry hentry hsame => ?_]
      · rfl
      · exact (findMember_eq_none PeeridKey.comparesBy).mp hfound entry hentry (heq.trans hsame.symm)
    case isFalse => rfl
  | some =>
    exact entriesOf_updateMember (f := PeeridKey.keyNodeList) PeeridKey.comparesBy hpeerids
      (fun peer => { peer with keyNodeList := peer.keyNodeList.erase i }) (fun _ => rfl)
      (g := (·.erase i)) (fun _ => rfl) hfound other

theorem keysOf_deletePeer {peerid : Peerid}
    (hkeys : manager.findKeyByPeerid peerid = some []) (other : Peerid) :
    (manager.deletePeer peerid).keysOf other = manager.keysOf other := by
  refine (entriesOf_delete (f := PeeridKey.keyNodeList) PeeridKey.comparesBy hpeerids
    other).trans ?_
  split
  case isTrue heq =>
    obtain ⟨entry, hfound, hnil⟩ := map_eq_some_iff.mp hkeys
    obtain ⟨hmem, hpeerid⟩ := findMember_mem PeeridKey.comparesBy hfound
    have hentry : entry.peerid = other := hpeerid.symm.trans heq
    unfold KeyManager.keysOf
    rw [← hentry, entriesOf_found (f := PeeridKey.keyNodeList) hpeerids hmem, hnil]
  case isFalse => rfl

end

/-! ## A new key -/

variable {aesKey : AesKey} {now : Nat}

/-- The manager with the node of a new key in its lists. -/
def withNewNode (manager : KeyManager) (aesKey : AesKey) (peerid : Peerid) (now : Nat) : KeyManager :=
  { manager with
    nodes := manager.nodes ++ [some (manager.createNode aesKey peerid now)] }.addToHeader
      manager.nodes.length (minutesOf now)

/-- What `KeyManagerAddNewKeyNoLock` does if the key is new. -/
def withNewKey (manager : KeyManager) (aesKey : AesKey) (peerid : Peerid) (now : Nat) : KeyManager :=
  let next := (manager.withNewNode aesKey peerid now).addToPeer peerid manager.nodes.length
  { next with
    mixHashKeyMap :=
      (manager.createNode aesKey peerid now).hashs.infos.reverse.map
        ({ keyNode := manager.nodes.length, info := · }) ++ next.mixHashKeyMap }

theorem addNewKey_none (h : manager.findAesKey aesKey peerid = none) (now : Nat) :
    manager.addNewKey aesKey peerid now =
      (manager.withNewKey aesKey peerid now, manager.nodes.length, true) := by
  unfold addNewKey
  rw [h]
  rfl

theorem addNewKey_some (h : manager.findAesKey aesKey peerid = some i) (now : Nat) :
    manager.addNewKey aesKey peerid now = (manager, i, false) := by
  unfold addNewKey
  rw [h]

theorem withNewNode_relinks (manager : KeyManager) (aesKey : AesKey) (peerid : Peerid) (now : Nat) :
    { manager with
      nodes := manager.nodes ++ [some (manager.createNode aesKey peerid now)] }.Relinks
      (manager.withNewNode aesKey peerid now) :=
  relinks_addToHeader ..

/-- A key is put into the list of its peer, and nothing else is changed. -/
theorem addToPeer_same (manager : KeyManager) (peerid : Peerid) (i : NodeId) :
    manager.addToPeer peerid i =
      { manager with peeridKeyMap := (manager.addToPeer peerid i).peeridKeyMap } := by
  unfold addToPeer
  split
  case h_1 => rfl
  case h_2 => rfl

theorem withNewKey_same (manager : KeyManager) (aesKey : AesKey) (peerid : Peerid) (now : Nat) :
    manager.withNewKey aesKey peerid now =
      { manager.withNewNode aesKey peerid now with
        peeridKeyMap := (manager.withNewKey aesKey peerid now).peeridKeyMap
        mixHashKeyMap := (manager.withNewKey aesKey peerid now).mixHashKeyMap } := by
  unfold withNewKey
  rw [addToPeer_same]

theorem node_withNewKey (manager : KeyManager) (aesKey : AesKey) (peerid : Peerid) (now : Nat)
    (j : NodeId) : (manager.withNewKey aesKey peerid now).node j =
      if j = manager.nodes.length then some (manager.createNode aesKey peerid now)
      else manager.node j := by
  refine node_append _ ?_ j
  rw [withNewKey_same, withNewNode_relinks]

theorem keysOf_withNewKey (h : manager.Sound) (aesKey : AesKey) (peerid : Peerid) (now : Nat)
    (other : Peerid) : (manager.withNewKey aesKey peerid now).keysOf other =
      if peerid = other then manager.nodes.length :: manager.keysOf other
      else manager.keysOf other := by
  have hmap : (manager.withNewNode aesKey peerid now).peeridKeyMap = manager.peeridKeyMap := by
    rw [withNewNode_relinks]
  have hkeys : (manager.withNewNode aesKey peerid now).keysOf other = manager.keysOf other := by
    unfold KeyManager.keysOf
    rw [hmap]
  rw [← hkeys]
  refine keysOf_addToPeer ?_ peerid manager.nodes.length other
  rw [hmap]
  exact h.peerids

theorem count_withNewKey (manager : KeyManager) (aesKey : AesKey) (peerid : Peerid) (now : Nat)
    (j : NodeId) (info : MixHashInfo) :
    (manager.withNewKey aesKey peerid now).mixHashKeyMap.count { keyNode := j, info } =
      (if j = manager.nodes.length then
          (manager.createNode aesKey peerid now).hashs.infos.count info
        else 0) +
      manager.mixHashKeyMap.count { keyNode := j, info } := by
  have hmap : ((manager.withNewNode aesKey peerid now).addToPeer peerid
      manager.nodes.length).mixHashKeyMap = manager.mixHashKeyMap := by
    rw [addToPeer_same, withNewNode_relinks]
  unfold withNewKey
  rw [List.count_append, hmap]
  congr 1
  split
  case isTrue heq =>
    subst heq
    rw [List.map_reverse, List.count_reverse]
    exact List.count_map_of_injective _ _ (fun x y hxy => (MixHashKey.mk.inj hxy).2) info
  case isFalse hne =>
  refine List.count_eq_zero.mpr fun hmem => ?_
  obtain ⟨other, -, heq⟩ := List.mem_map.mp hmem
  exact hne (congrArg MixHashKey.keyNode heq).symm

theorem Sound.withNewKey (h : manager.Sound) (hnew : manager.findAesKey aesKey peerid = none)
    (now : Nat) : (manager.withNewKey aesKey peerid now).Sound := by
  have hnode := node_withNewKey manager aesKey peerid now
  have hfresh : manager.node manager.nodes.length = none := node_length
  constructor
  · refine peerids_addToPeer ?_ peerid manager.nodes.length
    rw [withNewNode_relinks]
    exact h.peerids
  · intro other j
    rw [keysOf_withNewKey h, hnode]
    split
    case isTrue heq =>
      subst heq
      rw [List.mem_cons, h.keys]
      split
      case isTrue heq => exact ⟨fun _ => ⟨_, rfl, rfl⟩, fun _ => .inl heq⟩
      case isFalse hne => exact or_iff_right hne
    case isFalse hne =>
    rw [h.keys]
    split
    case isTrue heq =>
      subst heq
      rw [hfresh]
      refine iff_of_false nofun fun ⟨node, hnode, hpeerid⟩ => hne ?_
      cases hnode
      exact hpeerid
    case isFalse => rfl
  · intro other
    rw [keysOf_withNewKey h]
    split
    case isTrue =>
      refine List.nodup_cons.mpr ⟨fun hmem => ?_, h.nodup other⟩
      obtain ⟨node, hnode, -⟩ := (h.keys other _).mp hmem
      cases hfresh.symm.trans hnode
    case isFalse => exact h.nodup other
  · intro j info
    have hold := h.hashs j info
    unfold hashCount at hold ⊢
    rw [count_withNewKey, hnode, hold]
    split
    case isTrue heq =>
      subst heq
      rw [hfresh]
      rfl
    case isFalse => exact Nat.zero_add _
  · intro j node hj
    have hcalc : (manager.withNewKey aesKey peerid now).calcKeyHash = manager.calcKeyHash := by
      rw [withNewKey_same, withNewNode_relinks]
    rw [hcalc]
    rw [hnode] at hj
    split at hj
    case isTrue =>
      cases hj
      exact MixHashs.valid_create ..
    case isFalse => exact h.valid j node hj
  intro j node k other hj hk haesKey hpeerid
  rw [hnode] at hj hk
  split at hj
  case isTrue heqj =>
    split at hk
    case isTrue heqk => exact heqj.trans heqk.symm
    case isFalse =>
      cases hj
      exact absurd haesKey.symm (h.findAesKey_none hnew hk hpeerid.symm)
  case isFalse =>
  split at hk
  case isTrue =>
    cases hk
    exact absurd haesKey (h.findAesKey_none hnew hj hpeerid)
  case isFalse => exact h.distinct j node k other hj hk haesKey hpeerid

/-! ## A key that is deleted -/

variable {minHashMinutes : UInt32}

/-- The manager without the hashes of a key, and without the key in its peer. -/
def withoutHashs (manager : KeyManager) (i : NodeId) (node : KeyNode) : KeyManager :=
  { manager.takeFromPeer node.keyInfo.peerid i with
    mixHashKeyMap := node.hashs.infos.foldl (fun map info => map.erase { keyNode := i, info })
      manager.mixHashKeyMap }

/-- A key that expires. -/
def withoutKey (manager : KeyManager) (i : NodeId) (node : KeyNode) (minHashMinutes : UInt32) :
    KeyManager :=
  let next := (manager.withoutHashs i node).removeKeyNodeFromList i node.hashs minHashMinutes
  { next with nodes := next.nodes.set i none }

theorem deleteKey_eq (h : manager.node i = some node) (minHashMinutes : UInt32) :
    (manager.takeFromPeer node.keyInfo.peerid i).deleteKey i minHashMinutes =
      some (manager.withoutKey i node minHashMinutes) := by
  have hnode : (manager.takeFromPeer node.keyInfo.peerid i).node i = some node := h
  unfold deleteKey
  rw [hnode]
  rfl

theorem withoutHashs_relinks (manager : KeyManager) (i : NodeId) (node : KeyNode)
    (minHashMinutes : UInt32) : (manager.withoutHashs i node).Relinks
      ((manager.withoutHashs i node).removeKeyNodeFromList i node.hashs minHashMinutes) :=
  relinks_removeKeyNodeFromList ..

theorem node_withoutKey (h : manager.node i = some node) (minHashMinutes : UInt32) (j : NodeId) :
    (manager.withoutKey i node minHashMinutes).node j = if j = i then none else manager.node j := by
  refine node_set _ h ?_ j
  unfold withoutKey
  rw [withoutHashs_relinks]
  rfl

theorem keysOf_withoutKey (h : manager.Sound) (i : NodeId) (node : KeyNode)
    (minHashMinutes : UInt32) (other : Peerid) :
    (manager.withoutKey i node minHashMinutes).keysOf other =
      if node.keyInfo.peerid = other then (manager.keysOf other).erase i
      else manager.keysOf other := by
  refine Eq.trans ?_ (keysOf_takeFromPeer h.peerids node.keyInfo.peerid i other)
  unfold withoutKey KeyManager.keysOf
  rw [withoutHashs_relinks]
  rfl

theorem Sound.withoutKey (h : manager.Sound) (hi : manager.node i = some node)
    (minHashMinutes : UInt32) : (manager.withoutKey i node minHashMinutes).Sound := by
  have hnode := node_withoutKey hi minHashMinutes
  have hold : ∀ j other, (manager.withoutKey i node minHashMinutes).node j = some other →
      j ≠ i ∧ manager.node j = some other := by
    intro j other hj
    rw [hnode] at hj
    split at hj
    case isTrue => cases hj
    case isFalse hne => exact ⟨hne, hj⟩
  constructor
  · have hmap : (manager.withoutKey i node minHashMinutes).peeridKeyMap =
        (manager.takeFromPeer node.keyInfo.peerid i).peeridKeyMap := by
      unfold KeyManager.withoutKey
      rw [withoutHashs_relinks]
      rfl
    rw [hmap]
    refine (congrArg List.Nodup ?_).mpr h.peerids
    exact map_updateMember fun _ => rfl
  · intro other j
    rw [keysOf_withoutKey h, hnode]
    split
    case isTrue heq =>
      rw [(h.nodup other).mem_erase_iff, h.keys]
      split
      case isTrue hj => exact iff_of_false (fun hmem => hmem.1 hj) nofun
      case isFalse hne => exact and_iff_right hne
    case isFalse hne =>
    rw [h.keys]
    split
    case isTrue hj =>
      subst hj
      rw [hi]
      refine iff_of_false (fun ⟨found, hfound, hpeerid⟩ => hne ?_) nofun
      exact some.inj hfound ▸ hpeerid
    case isFalse => rfl
  · intro other
    rw [keysOf_withoutKey h]
    split
    case isTrue => exact (h.nodup other).erase i
    case isFalse => exact h.nodup other
  · intro j info
    have hmap : (manager.withoutKey i node minHashMinutes).mixHashKeyMap =
        (manager.withoutHashs i node).mixHashKeyMap := by
      unfold KeyManager.withoutKey
      rw [withoutHashs_relinks]
    have hcount := h.hashs j info
    unfold hashCount at hcount ⊢
    rw [hmap, hnode]
    refine (MixHashs.count_foldl_erase i j node.hashs.infos manager.mixHashKeyMap info).trans ?_
    rw [hcount]
    split
    case isTrue heq =>
      subst heq
      rw [hi, if_pos rfl]
      exact Nat.sub_self _
    case isFalse hne => rw [if_neg fun heq => hne heq.symm, Nat.sub_zero]
  · intro j other hj
    have hcalc : (manager.withoutKey i node minHashMinutes).calcKeyHash = manager.calcKeyHash := by
      unfold KeyManager.withoutKey
      rw [withoutHashs_relinks]
      rfl
    rw [hcalc]
    exact h.valid j other (hold j other hj).2
  · intro j other k third hj hk
    exact h.distinct j other k third (hold j other hj).2 (hold k third hk).2

end KeyManager

end Bdt
