import Bdt.History.SqliteTables
import Mathlib.Data.Multiset.MapFold

/-!
# What a load delivers

`SqliteLoadAllTable` loads the peers, and then walks through the rows of the other tables and hangs
each one at the peer that it belongs to. `loaded_peers` says what is loaded for every peer:
its row, the connections that have its peerid, and the super nodes that were loaded themselves.
-/

namespace Bdt

open Base List

/-! ## One row -/

theorem Bytes.ofList_self {n : Nat} (bytes : Bytes n) : Bytes.ofList n bytes.1 = bytes := by
  apply Subtype.ext
  have htake := Bytes.take_ofList (Nat.le_of_eq bytes.2)
  rw [bytes.2, take_of_length_le (Nat.le_of_eq (Bytes.ofList n bytes.1).2)] at htake
  exact htake

/-- A peer that is loaded, before the other tables. -/
def loadedPeer (row : Peerid × HistoryPeer) : LoadedPeer where
  peerid := row.1
  constInfo := row.2.constInfo.reread
  hasConst := hasConst row.2.flagsU32

theorem fillPeerInfo_bind (peerid : Peerid) (history : HistoryPeer) :
    fillPeerInfo (peerid, bindPeer history) = some (loadedPeer (peerid, history)) := by
  obtain ⟨length, hlength⟩ := Option.isSome_iff_exists.mp history.knownKey
  have hdevice : history.constInfo.deviceId.1.length ≤ BDT_MAX_DEVICE_ID_LENGTH :=
    Nat.le_of_eq history.constInfo.deviceId.2
  have hkey : history.constInfo.key.length ≤ BDT_PEER_PUBLIC_KEY_LENTGH_RSA3072 := by
    rw [length_key hlength]
    exact publicKeyLength_le hlength
  unfold fillPeerInfo
  rw [if_pos ⟨hdevice, hkey⟩]
  simp [bindPeer, loadedPeer, PeerConstInfo.reread, Bytes.ofList_self]

theorem fillConnectInfo_local {row : ConnectKey × ConnectRow} {connectInfo : LoadedConnect}
    (h : fillConnectInfo row = some connectInfo) :
    connectInfo.localEndpoint = none ∨ connectInfo.localEndpoint = some .zero := by
  simp only [fillConnectInfo] at h
  split at h
  case isTrue =>
    cases h
    show (if _ then _ else _) = _ ∨ (if _ then _ else _) = _
    split
    · exact .inl rfl
    · exact .inr rfl
  case isFalse => cases h

/-! ## Walking through the rows -/

theorem foldl_map_peers {R : Type} (change : R → LoadedPeer → LoadedPeer) (rows : List R)
    (peers : List LoadedPeer) :
    rows.foldl (fun peers row => peers.map (change row)) peers =
      peers.map fun peer => rows.foldl (fun peer row => change row peer) peer := by
  induction rows generalizing peers with
  | nil => exact (List.map_id _).symm
  | cons _ _ ih =>
    rw [foldl_cons, ih, map_map]
    rfl

theorem foundPeer_map {change : LoadedPeer → LoadedPeer}
    (hchange : ∀ peer, (change peer).peerid = peer.peerid) (peers : List LoadedPeer)
    (peerid : Peerid) : foundPeer (peers.map change) peerid = foundPeer peers peerid := by
  unfold foundPeer
  rw [List.any_map]
  congr 1
  funext peer
  simp only [Function.comp, hchange]

theorem foundPeer_iff {peers : List LoadedPeer} {peerid : Peerid} :
    foundPeer peers peerid = true ↔ peerid ∈ peers.map (·.peerid) := by
  unfold foundPeer
  rw [any_eq_true, mem_map]
  exact ⟨fun ⟨peer, hpeer, heq⟩ => ⟨peer, hpeer, of_decide_eq_true heq⟩,
    fun ⟨peer, hpeer, heq⟩ => ⟨peer, hpeer, decide_eq_true heq⟩⟩

/-! ### The connections -/

/-- The connection that a row gives for a peer. -/
def connectionFor (validTime : Int) (peerid : Peerid) (row : ConnectKey × ConnectRow) :
    Option LoadedConnect :=
  if row.1.peerid = peerid then (fillConnectInfo row).filter (·.isValid validTime) else none

def addConnection (validTime : Int) (row : ConnectKey × ConnectRow) (peer : LoadedPeer) : LoadedPeer :=
  { peer with
    connectVector := peer.connectVector ++ (connectionFor validTime peer.peerid row).toList }

/-- What comes of a peer when these rows are loaded. -/
def addConnections (validTime : Int) (selected : List (ConnectKey × ConnectRow)) (peer : LoadedPeer) :
    LoadedPeer :=
  { peer with
    connectVector := peer.connectVector ++ selected.filterMap (connectionFor validTime peer.peerid) }

theorem loadConnection_eq (validTime : Int) (peers : List LoadedPeer) (row : ConnectKey × ConnectRow) :
    (match fillConnectInfo row with
      | some connectInfo =>
        if connectInfo.isValid validTime then
          changePeer row.1.peerid (fun peer =>
            { peer with connectVector := peer.connectVector ++ [connectInfo] }) peers
        else peers
      | none => peers) = peers.map (addConnection validTime row) := by
  have hsame : ∀ peer, connectionFor validTime peer.peerid row = none →
      addConnection validTime row peer = peer := by
    intro peer hnone
    unfold addConnection
    rw [hnone, Option.toList_none, append_nil]
  cases hfill : fillConnectInfo row with
  | none =>
    refine (List.map_id'' (fun peer => hsame peer ?_) peers).symm
    unfold connectionFor
    rw [hfill, Option.filter_none, ite_self]
  | some connectInfo =>
    by_cases hvalid : connectInfo.isValid validTime = true
    case pos =>
      show (if connectInfo.isValid validTime then _ else _) = _
      rw [if_pos hvalid]
      refine map_congr_left fun peer _ => ?_
      by_cases heq : peer.peerid = row.1.peerid
      case pos =>
        rw [if_pos heq]
        have hfor : connectionFor validTime peer.peerid row = some connectInfo := by
          unfold connectionFor
          rw [if_pos heq.symm, hfill]
          simp [hvalid]
        unfold addConnection
        rw [hfor]
        rfl
      case neg =>
      rw [if_neg heq]
      refine (hsame peer ?_).symm
      unfold connectionFor
      rw [if_neg fun h => heq h.symm]
    case neg =>
    show (if connectInfo.isValid validTime then _ else _) = _
    rw [if_neg hvalid]
    refine (List.map_id'' (fun peer => hsame peer ?_) peers).symm
    unfold connectionFor
    rw [hfill]
    simp [hvalid]

theorem loadConnections_eq (rows : HistoryTables) (validTime : Int) (peers : List LoadedPeer) :
    sqliteLoadConnections rows validTime peers =
      peers.map (addConnections validTime rows.connections) := by
  have hpeer : ∀ (selected : List (ConnectKey × ConnectRow)) (peer : LoadedPeer),
      selected.foldl (fun peer row => addConnection validTime row peer) peer =
        addConnections validTime selected peer := by
    intro selected
    induction selected with
    | nil =>
      intro peer
      rw [foldl_nil, addConnections, filterMap_nil, append_nil]
    | cons row selected ih =>
      intro peer
      rw [foldl_cons, ih]
      show ({ peer with connectVector := peer.connectVector ++ _ ++ _ } : LoadedPeer) = _
      rw [append_assoc]
      congr 2
      show _ = (row :: selected).filterMap (connectionFor validTime peer.peerid)
      cases hrow : connectionFor validTime peer.peerid row with
      | none => rw [filterMap_cons_none hrow]; rfl
      | some => rw [filterMap_cons_some hrow]; rfl
  calc sqliteLoadConnections rows validTime peers
      = rows.connections.foldl (fun peers row => peers.map (addConnection validTime row)) peers :=
        congrArg (fun change => rows.connections.foldl change peers)
          (funext₂ (loadConnection_eq validTime))
    _ = peers.map fun peer => rows.connections.foldl (fun peer row =>
          addConnection validTime row peer) peer := foldl_map_peers _ _ _
    _ = _ := map_congr_left fun peer _ => hpeer rows.connections peer

/-! ### The super nodes -/

/-- The super nodes that the rows give for a peer. -/
def superNodesFor (found : Peerid → Bool) (sns : List ((Peerid × Peerid) × Int)) (peerid : Peerid) :
    List Peerid :=
  (sns.filter fun row => found row.1.1 && found row.1.2 && row.1.2 == peerid).map (·.1.1)

/-- A change of loaded peers that adds these super nodes, and leaves the rest that is asked for. -/
structure AddsSuperNodes (added : Peerid → List Peerid) (change : LoadedPeer → LoadedPeer) : Prop where
  peerid : ∀ peer, (change peer).peerid = peer.peerid
  constInfo : ∀ peer, (change peer).constInfo = peer.constInfo
  hasConst : ∀ peer, (change peer).hasConst = peer.hasConst
  connectVector : ∀ peer, (change peer).connectVector = peer.connectVector
  snVector : ∀ peer, (change peer).snVector = peer.snVector ++ added peer.peerid

theorem AddsSuperNodes.id : AddsSuperNodes (fun _ => []) id :=
  ⟨fun _ => rfl, fun _ => rfl, fun _ => rfl, fun _ => rfl, fun _ => (append_nil _).symm⟩

theorem AddsSuperNodes.comp {added more : Peerid → List Peerid} {change next : LoadedPeer → LoadedPeer}
    (h : AddsSuperNodes added change) (hnext : AddsSuperNodes more next) :
    AddsSuperNodes (fun peerid => added peerid ++ more peerid) (next ∘ change) where
  peerid peer := (hnext.peerid _).trans (h.peerid peer)
  constInfo peer := (hnext.constInfo _).trans (h.constInfo peer)
  hasConst peer := (hnext.hasConst _).trans (h.hasConst peer)
  connectVector peer := (hnext.connectVector _).trans (h.connectVector peer)
  snVector peer := by
    show (next (change peer)).snVector = _
    rw [hnext.snVector, h.snVector, h.peerid, append_assoc]

/-- The change of the peer of the super node. -/
def markSuperNode (row : (Peerid × Peerid) × Int) (peer : LoadedPeer) : LoadedPeer :=
  if peer.peerid = row.1.1 then { peer with lastResponseTime := row.2, isSn := true } else peer

/-- The change of its client. -/
def hangSuperNode (row : (Peerid × Peerid) × Int) (peer : LoadedPeer) : LoadedPeer :=
  if peer.peerid = row.1.2 then { peer with snVector := peer.snVector ++ [row.1.1] } else peer

theorem superNodeRow (row : (Peerid × Peerid) × Int) :
    AddsSuperNodes (fun peerid => if row.1.2 = peerid then [row.1.1] else [])
      (hangSuperNode row ∘ markSuperNode row) := by
  have hmark : AddsSuperNodes (fun _ => []) (markSuperNode row) := by
    constructor <;> intro peer <;> unfold markSuperNode <;> split <;> simp
  have hhang : AddsSuperNodes (fun peerid => if row.1.2 = peerid then [row.1.1] else [])
      (hangSuperNode row) := by
    constructor <;> intro peer <;> unfold hangSuperNode <;> split
    case snVector.isTrue heq => rw [if_pos heq.symm]
    case snVector.isFalse hne => rw [if_neg fun h => hne h.symm, append_nil]
    all_goals rfl
  exact hmark.comp hhang

theorem loadSuperNodes_eq (sns : List ((Peerid × Peerid) × Int)) (rows : HistoryTables)
    (peers : List LoadedPeer) : ∃ change,
      sqliteLoadSuperNodes { rows with sns } peers = peers.map change ∧
        AddsSuperNodes (superNodesFor (foundPeer peers) sns) change := by
  induction sns generalizing peers with
  | nil => exact ⟨id, (List.map_id _).symm, AddsSuperNodes.id⟩
  | cons row sns ih =>
    have hcons : superNodesFor (foundPeer peers) (row :: sns) = fun peerid =>
        (if foundPeer peers row.1.1 && foundPeer peers row.1.2 then
          if row.1.2 = peerid then [row.1.1] else [] else []) ++
          superNodesFor (foundPeer peers) sns peerid := by
      funext peerid
      unfold superNodesFor
      rw [filter_cons]
      cases hfound : (foundPeer peers row.1.1 && foundPeer peers row.1.2) with
      | false => rfl
      | true =>
        by_cases heq : row.1.2 = peerid
        case pos =>
          have hself : (row.1.2 == peerid) = true := beq_iff_eq.mpr heq
          rw [Bool.true_and, hself, if_pos heq]
          rfl
        case neg =>
        have hother : (row.1.2 == peerid) = false := beq_eq_false_iff_ne.mpr heq
        rw [Bool.true_and, hother, if_neg heq]
        rfl
    by_cases hfound : (foundPeer peers row.1.1 && foundPeer peers row.1.2) = true
    case pos =>
      have hrow := superNodeRow row
      obtain ⟨change, hload, hchange⟩ := ih (peers.map (hangSuperNode row ∘ markSuperNode row))
      have hsame := funext (foundPeer_map hrow.peerid peers)
      refine ⟨change ∘ (hangSuperNode row ∘ markSuperNode row), ?_, ?_⟩
      · rw [← map_map, ← hload]
        show sns.foldl _ (if foundPeer peers row.1.1 && foundPeer peers row.1.2 then _ else _) = _
        rw [if_pos hfound, ← map_map]
        rfl
      · rw [hcons]
        simp only [hfound, if_true]
        exact hrow.comp (hsame ▸ hchange)
    case neg =>
    obtain ⟨change, hload, hchange⟩ := ih peers
    refine ⟨change, ?_, ?_⟩
    · rw [← hload]
      show sns.foldl _ (if foundPeer peers row.1.1 && foundPeer peers row.1.2 then _ else _) = _
      rw [if_neg hfound]
      rfl
    · rw [hcons]
      simp only [hfound, if_false, nil_append, Bool.false_eq_true]
      exact hchange

/-! ## All tables -/

/-- What is asked of a loaded peer. -/
@[ext] structure PeerView where
  peerid : Peerid
  constInfo : PeerConstInfo
  hasConst : Bool
  connections : Multiset LoadedConnect
  superNodes : Multiset Peerid

def LoadedPeer.view (peer : LoadedPeer) : PeerView where
  peerid := peer.peerid
  constInfo := peer.constInfo
  hasConst := peer.hasConst
  connections := peer.connectVector
  superNodes := peer.snVector

/-- There is a row of this peer. -/
def storedPeer (stored : List (Peerid × HistoryPeer)) (peerid : Peerid) : Bool :=
  decide (peerid ∈ stored.map (·.1))

/-- What the rows of the other tables make of a stored peer. -/
def loadedView (selected : HistoryTables) (validTime : Int) (stored : List (Peerid × HistoryPeer))
    (row : Peerid × HistoryPeer) : PeerView where
  peerid := row.1
  constInfo := row.2.constInfo.reread
  hasConst := hasConst row.2.flagsU32
  connections := (selected.connections.filterMap (connectionFor validTime row.1) : List LoadedConnect)
  superNodes := (superNodesFor (storedPeer stored) selected.sns row.1 : List Peerid)

variable {selected : HistoryTables} {stored : List (Peerid × HistoryPeer)}

theorem loadPeers_perm (h : selected.peers.Perm (mapRows bindPeer stored)) :
    (sqliteLoadPeers selected).Perm (stored.map loadedPeer) := by
  have hmap : (mapRows bindPeer stored).filterMap fillPeerInfo = stored.map loadedPeer := by
    unfold mapRows
    rw [filterMap_map, ← filterMap_eq_map]
    exact filterMap_congr fun row _ => fillPeerInfo_bind row.1 row.2
  exact hmap ▸ h.filterMap fillPeerInfo

theorem foundPeer_stored {peers : List LoadedPeer}
    (h : (peers.map (·.peerid)).Perm (stored.map (·.1))) : foundPeer peers = storedPeer stored := by
  funext peerid
  rw [Bool.eq_iff_iff, foundPeer_iff, storedPeer, decide_eq_true_iff]
  exact h.mem_iff

/-- The peers and their places in the other tables. -/
theorem loaded_peers (h : selected.peers.Perm (mapRows bindPeer stored)) (validTime now : Int) :
    ((sqliteLoadAllTable selected validTime now).peers.map LoadedPeer.view).Perm
        (stored.map (loadedView selected validTime stored)) ∧
      ((sqliteLoadAllTable selected validTime now).peers.map (·.peerid)).Perm (stored.map (·.1)) := by
  have hpeers := loadPeers_perm h
  have hids : ((sqliteLoadPeers selected).map (·.peerid)).Perm (stored.map (·.1)) := by
    have hmap := hpeers.map (·.peerid)
    rw [map_map] at hmap
    exact hmap
  obtain ⟨change, hload, hchange⟩ := loadSuperNodes_eq selected.sns selected
    (sqliteLoadConnections selected validTime (sqliteLoadPeers selected))
  rw [loadConnections_eq] at hload hchange
  have hfound : foundPeer
      ((sqliteLoadPeers selected).map (addConnections validTime selected.connections)) =
        storedPeer stored := by
    refine foundPeer_stored ?_
    rw [map_map]
    exact hids
  rw [hfound] at hchange
  have hall : (sqliteLoadAllTable selected validTime now).peers =
      ((sqliteLoadPeers selected).map (addConnections validTime selected.connections)).map
        change := by
    rw [← hload, ← loadConnections_eq]
    rfl
  rw [hall, map_map, map_map, map_map, map_map]
  constructor
  · have hview := hpeers.map (LoadedPeer.view ∘ change ∘ addConnections validTime selected.connections)
    rw [map_map] at hview
    refine hview.trans (List.Perm.of_eq (map_congr_left fun row _ => ?_))
    ext1
    · exact hchange.peerid _
    · exact hchange.constInfo _
    · exact hchange.hasConst _
    · exact congrArg Multiset.ofList (hchange.connectVector _)
    · exact congrArg Multiset.ofList (hchange.snVector _)
  have hmap := hpeers.map ((·.peerid) ∘ change ∘ addConnections validTime selected.connections)
  rw [map_map] at hmap
  refine hmap.trans (List.Perm.of_eq (map_congr_left fun row _ => ?_))
  exact hchange.peerid _

theorem loaded_keys (h : selected.peers.Perm (mapRows bindPeer stored)) (validTime now : Int) :
    (sqliteLoadAllTable selected validTime now).keys =
      (selected.aesKeys.filter fun row =>
        storedPeer stored row.1.1 && decide (now < row.2.expireTime)).map fillKeyInfo := by
  have hfound := foundPeer_stored (loaded_peers h validTime now).2
  rw [← hfound]
  rfl

end Bdt
