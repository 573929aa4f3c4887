import Bdt.History.SqliteHistoryRuns
import Bdt.History.SqliteLoading

/-!
# The round trip of the history

What a loaded storage has executed is delivered by the next load, or not. `HistoryDelivered` says what
the load has to deliver: the peers that were added with their last constant parts, connections and
super nodes, and the last of their keys.

`history_delivered_iff`: that is delivered exactly when no added peer has a connection, and the super
nodes of the added peers were added themselves. The pointer to the local endpoint of a connection is
cleared when there is one and left when there is none.
-/

namespace Bdt

open Base List

/-! ## What has to be delivered -/

/-- A connection is known by its peer and its endpoints. -/
abbrev ConnectId : Type :=
  Peerid × BdtEndpoint × Option VersionedEndpoint

def connectLog (accepted : List HistoryRequest) : List (Write ConnectId HistoryConnect) :=
  (accepted.flatMap connectWrites).map fun write =>
    let id : ConnectId := (write.1, write.2.1.endpoint, write.2.1.localEndpoint)
    if write.2.2 then .insert id write.2.1 else .update id write.2.1

def peerLog (accepted : List HistoryRequest) : List (Write Peerid HistoryPeer) :=
  accepted.filterMap peerWrite

def snLog (accepted : List HistoryRequest) : List (Write (Peerid × Peerid) Int) :=
  accepted.filterMap snWrite

def aesKeyLog (accepted : List HistoryRequest) : List (Write (Peerid × AesKey) AesKeyInfo) :=
  accepted.filterMap aesKeyWrite

/-- A connection with the data that was last set. -/
def expectedConnect (row : ConnectId × HistoryConnect) : LoadedConnect where
  endpoint := row.1.2.1
  localEndpoint := row.1.2.2.map (·.1)
  flags := row.2.flags
  foundTime := row.2.foundTime
  lastConnectTime := row.2.lastConnectTime
  rto := row.2.rto
  sendSpeed := row.2.sendSpeed
  recvSpeed := row.2.recvSpeed

def expectedConnects (accepted : List HistoryRequest) (peerid : Peerid) : List LoadedConnect :=
  ((lastRows (connectLog accepted)).filter fun row => row.1.1 = peerid).map expectedConnect

def expectedSuperNodes (accepted : List HistoryRequest) (peerid : Peerid) : List Peerid :=
  ((lastRows (snLog accepted)).filter fun row => row.1.2 = peerid).map (·.1.1)

def expectedPeer (accepted : List HistoryRequest) (row : Peerid × HistoryPeer) : PeerView where
  peerid := row.1
  constInfo := row.2.constInfo.reread
  hasConst := hasConst row.2.flagsU32
  connections := (expectedConnects accepted row.1 : List LoadedConnect)
  superNodes := (expectedSuperNodes accepted row.1 : List Peerid)

def expectedKey (row : (Peerid × AesKey) × AesKeyInfo) : LoadedKey :=
  ⟨row.1.1, row.1.2, row.2.flags, row.2.lastAccessTime, row.2.expireTime⟩

/-- The load delivers exactly the peers that were added, with what belongs to them. The bytes of a
public key behind those of its type are not part of it. -/
structure HistoryDelivered (accepted : List HistoryRequest) (loaded : LoadedHistory) : Prop where
  peers : (loaded.peers.map LoadedPeer.view).Perm
    ((lastRows (peerLog accepted)).map (expectedPeer accepted))
  keys : loaded.keys.Perm (((lastRows (aesKeyLog accepted)).filter fun row =>
    decide (row.1.1 ∈ insertedKeys (peerLog accepted))).map expectedKey)

/-! ## The assumptions, and the condition -/

/-- Every row is added once, and before it is updated. -/
structure AddedFirst (accepted : List HistoryRequest) : Prop where
  peers : InsertedFirst (peerLog accepted)
  sns : InsertedFirst (snLog accepted)
  aesKeys : InsertedFirst (aesKeyLog accepted)

/-- The rows of the tables, in the order in which they are selected. -/
structure Selected (tables selected : HistoryTables) : Prop where
  peers : selected.peers.Perm tables.peers
  connections : selected.connections.Perm tables.connections
  sns : selected.sns.Perm tables.sns
  aesKeys : selected.aesKeys.Perm tables.aesKeys

/-- No record has expired. -/
structure AllValid (rows : HistoryTables) (validTime now : Int) : Prop where
  connections : ∀ row ∈ rows.connections, validTime < row.2.lastConnectTime ∨
    row.2.lastConnectTime = 0 ∧ validTime < row.2.foundTime
  aesKeys : ∀ row ∈ rows.aesKeys, now < row.2.expireTime

/-- No added peer has a connection, and its super nodes are added peers. -/
def Storable (accepted : List HistoryRequest) : Prop :=
  ∀ peerid ∈ insertedKeys (peerLog accepted),
    (∀ connectInfo, (peerid, connectInfo, true) ∉ accepted.flatMap connectWrites) ∧
      ∀ sn, (sn, peerid) ∈ insertedKeys (snLog accepted) → sn ∈ insertedKeys (peerLog accepted)

variable {accepted : List HistoryRequest} {selected : HistoryTables} {peerid : Peerid}
  {validTime now : Int}

/-! ## The connections -/

theorem mem_connectLog {id : ConnectId} (h : id ∈ insertedKeys (connectLog accepted)) :
    ∃ connectInfo, (id.1, connectInfo, true) ∈ accepted.flatMap connectWrites := by
  obtain ⟨w, hw, hinserts⟩ := mem_filterMap.mp h
  obtain ⟨⟨p, connectInfo, isNew⟩, hmem, rfl⟩ := mem_map.mp hw
  cases isNew with
  | true =>
    cases hinserts
    exact ⟨connectInfo, hmem⟩
  | false => cases hinserts

theorem connectLog_mem {connectInfo : HistoryConnect}
    (h : (peerid, connectInfo, true) ∈ accepted.flatMap connectWrites) :
    (peerid, connectInfo.endpoint, connectInfo.localEndpoint) ∈ insertedKeys (connectLog accepted) :=
  mem_filterMap.mpr ⟨_, mem_map_of_mem h, rfl⟩

/-- What is expected has no local endpoint that is zero. -/
theorem expectedConnects_local {connectInfo : LoadedConnect}
    (h : connectInfo ∈ expectedConnects accepted peerid) : connectInfo.localEndpoint ≠ some .zero := by
  obtain ⟨row, -, rfl⟩ := mem_map.mp h
  intro hzero
  obtain ⟨endpoint, -, heq⟩ := Option.map_eq_some_iff.mp hzero
  have hversion := endpoint.2
  rw [heq] at hversion
  exact hversion (by decide)

theorem fillConnectInfo_null {row : ConnectKey × ConnectRow} (hnull : row.1.localEndpoint = none)
    (hlower : ENDPOINT_LENGTH_V4 ≤ row.1.endpoint.length)
    (hupper : row.1.endpoint.length ≤ ENDPOINT_LENGTH_V6) :
    ∃ connectInfo, fillConnectInfo row = some connectInfo ∧
      connectInfo.localEndpoint = some .zero ∧
      connectInfo.lastConnectTime = row.2.lastConnectTime ∧
      connectInfo.foundTime = row.2.foundTime := by
  unfold fillConnectInfo
  rw [hnull]
  exact ⟨_, if_pos ⟨hlower, hupper, .inl rfl⟩, rfl, rfl, rfl⟩

theorem isValid_of {connectInfo : LoadedConnect} (h : validTime < connectInfo.lastConnectTime ∨
    connectInfo.lastConnectTime = 0 ∧ validTime < connectInfo.foundTime) :
    connectInfo.isValid validTime = true := by
  unfold LoadedConnect.isValid
  rcases h with h | ⟨hzero, h⟩
  · rw [decide_eq_true h, Bool.true_or]
  · rw [beq_iff_eq.mpr hzero, decide_eq_true h, Bool.and_self, Bool.or_true]

theorem connects_iff (peerid : Peerid) {connections : List (ConnectKey × ConnectRow)}
    (hrows : ConnectsTo (accepted.flatMap connectWrites) [] connections)
    (hselected : selected.connections.Perm connections) (hvalid : AllValid selected validTime now) :
    ((selected.connections.filterMap (connectionFor validTime peerid) : List LoadedConnect) :
        Multiset LoadedConnect) = (expectedConnects accepted peerid : List LoadedConnect) ↔
      ∀ connectInfo, (peerid, connectInfo, true) ∉ accepted.flatMap connectWrites := by
  rw [Multiset.coe_eq_coe]
  constructor
  · intro hperm connectInfo hmem
    cases hlocal : connectInfo.localEndpoint with
    | none =>
      -- it is loaded with a local endpoint
      obtain ⟨row, hrow, hpeerid, hnull, hlength, -⟩ :=
        hrows.added peerid connectInfo hmem hlocal
      have hrow := hselected.mem_iff.mpr hrow
      obtain ⟨hlower, hupper⟩ := endpointLength_le connectInfo.endpoint
      obtain ⟨loaded, hfill, hzero, hlast, hfound⟩ :=
        fillConnectInfo_null hnull (hlength ▸ hlower) (hlength ▸ hupper)
      have hloaded : loaded ∈ selected.connections.filterMap (connectionFor validTime peerid) := by
        refine mem_filterMap.mpr ⟨row, hrow, ?_⟩
        have hin : loaded.isValid validTime = true :=
          isValid_of (by rw [hlast, hfound]; exact hvalid.connections row hrow)
        unfold connectionFor
        rw [if_pos hpeerid, hfill]
        simp [hin]
      exact expectedConnects_local (hperm.subset hloaded) hzero
    | some endpoint =>
      -- it is loaded without its local endpoint
      have hid := connectLog_mem hmem
      obtain ⟨last, hlast⟩ := lastValue_isSome hid
      have hrow : ((peerid, connectInfo.endpoint, connectInfo.localEndpoint), last) ∈
          lastRows (connectLog accepted) := by
        refine mem_filterMap.mpr ⟨_, hid, ?_⟩
        rw [lastRow, hlast]
        rfl
      have hexpected : expectedConnect ((peerid, connectInfo.endpoint, connectInfo.localEndpoint),
          last) ∈ expectedConnects accepted peerid :=
        mem_map_of_mem (mem_filter.mpr ⟨hrow, decide_eq_true rfl⟩)
      have hnonzero := expectedConnects_local hexpected
      obtain ⟨row, -, hfor⟩ := mem_filterMap.mp (hperm.symm.subset hexpected)
      unfold connectionFor at hfor
      split at hfor
      case isTrue =>
        obtain ⟨hfill, -⟩ := Option.filter_eq_some_iff.mp hfor
        rcases fillConnectInfo_local hfill with hnone | hzero
        · have hsome : connectInfo.localEndpoint.map (·.1) = none := hnone
          rw [hlocal] at hsome
          cases hsome
        · exact hnonzero hzero
      case isFalse => cases hfor
  intro hnone
  have hloaded : selected.connections.filterMap (connectionFor validTime peerid) = [] := by
    rw [filterMap_eq_nil_iff]
    intro row hrow
    unfold connectionFor
    rw [if_neg]
    intro hpeerid
    rcases hrows.origin row (hselected.mem_iff.mp hrow) with hbefore | ⟨connectInfo, hmem⟩
    · cases hbefore
    · exact hnone connectInfo (hpeerid ▸ hmem)
  have hexpected : expectedConnects accepted peerid = [] := by
    unfold expectedConnects
    rw [map_eq_nil_iff, filter_eq_nil_iff]
    intro row hrow heq
    have hid : row.1 ∈ insertedKeys (connectLog accepted) := by
      rw [← keys_lastRows]
      exact mem_map_of_mem hrow
    obtain ⟨connectInfo, hmem⟩ := mem_connectLog hid
    exact hnone connectInfo (of_decide_eq_true heq ▸ hmem)
  rw [hloaded, hexpected]

/-! ## The super nodes -/

theorem superNodes_iff {stored : List (Peerid × HistoryPeer)}
    (hselected : selected.sns.Perm (lastRows (snLog accepted)))
    (hpeer : storedPeer stored peerid = true) :
    ((superNodesFor (storedPeer stored) selected.sns peerid : List Peerid) : Multiset Peerid) =
        (expectedSuperNodes accepted peerid : List Peerid) ↔
      ∀ sn, (sn, peerid) ∈ insertedKeys (snLog accepted) → storedPeer stored sn = true := by
  have hfilter : superNodesFor (storedPeer stored) selected.sns peerid =
      ((selected.sns.filter fun row => row.1.2 = peerid).filter fun row =>
        storedPeer stored row.1.1).map (·.1.1) := by
    unfold superNodesFor
    rw [List.filter_filter]
    congr 1
    refine filter_congr fun row _ => ?_
    by_cases heq : row.1.2 = peerid
    case pos => simp [heq, hpeer]
    case neg =>
      have hother : (row.1.2 == peerid) = false := beq_eq_false_iff_ne.mpr heq
      rw [hother, decide_eq_false heq, Bool.and_false, Bool.and_false]
  have hexpected : (expectedSuperNodes accepted peerid).Perm
      ((selected.sns.filter fun row => row.1.2 = peerid).map (·.1.1)) :=
    ((hselected.symm.filter _).map _)
  rw [Multiset.coe_eq_coe, hfilter]
  constructor
  · intro hperm sn hsn
    have hlength := (hperm.trans hexpected).length_eq
    rw [length_map, length_map] at hlength
    have hall := length_filter_eq_length_iff.mp hlength
    rw [← keys_lastRows] at hsn
    obtain ⟨row, hrow, heq⟩ := mem_map.mp hsn
    have hmem : row ∈ selected.sns.filter fun row => row.1.2 = peerid :=
      mem_filter.mpr ⟨hselected.mem_iff.mpr hrow, decide_eq_true (congrArg (·.2) heq)⟩
    have hstored := hall row hmem
    rw [show row.1.1 = sn from congrArg (·.1) heq] at hstored
    exact hstored
  intro hall
  refine Perm.trans (List.Perm.of_eq (congrArg _ ?_)) hexpected.symm
  rw [filter_eq_self]
  intro row hrow
  obtain ⟨hrow, heq⟩ := mem_filter.mp hrow
  refine hall row.1.1 ?_
  rw [← keys_lastRows]
  refine mem_map.mpr ⟨row, hselected.mem_iff.mp hrow, ?_⟩
  exact Prod.ext rfl (of_decide_eq_true heq)

/-! ## The round trip -/

/-- The tables hold the last values of what was accepted. -/
structure StoredBy (accepted : List HistoryRequest) (tables : HistoryTables) : Prop where
  peers : tables.peers = mapRows bindPeer (lastRows (peerLog accepted))
  nodup : ((lastRows (peerLog accepted)).map (·.1)).Nodup
  sns : tables.sns = lastRows (snLog accepted)
  aesKeys : tables.aesKeys = mapRows bindAesKey (lastRows (aesKeyLog accepted))
  connections : ConnectsTo (accepted.flatMap connectWrites) [] tables.connections

theorem StoredBy.delivered_iff {tables : HistoryTables} (h : StoredBy accepted tables)
    (hselected : Selected tables selected) (hvalid : AllValid selected validTime now) :
    HistoryDelivered accepted (sqliteLoadAllTable selected validTime now) ↔ Storable accepted := by
  have hrows : selected.peers.Perm (mapRows bindPeer (lastRows (peerLog accepted))) :=
    h.peers ▸ hselected.peers
  have hstored : ∀ p, storedPeer (lastRows (peerLog accepted)) p = true ↔
      p ∈ insertedKeys (peerLog accepted) := by
    intro p
    unfold storedPeer
    rw [decide_eq_true_iff, keys_lastRows]
  -- the keys of the added peers are delivered always
  have hkeys : (sqliteLoadAllTable selected validTime now).keys.Perm
      (((lastRows (aesKeyLog accepted)).filter fun row =>
        decide (row.1.1 ∈ insertedKeys (peerLog accepted))).map expectedKey) := by
    rw [loaded_keys hrows]
    have hperm : (selected.aesKeys.filter fun row =>
        storedPeer (lastRows (peerLog accepted)) row.1.1 && decide (now < row.2.expireTime)).Perm
        ((mapRows bindAesKey (lastRows (aesKeyLog accepted))).filter fun row =>
          decide (row.1.1 ∈ insertedKeys (peerLog accepted))) := by
      refine Perm.trans (List.Perm.of_eq ?_) ((h.aesKeys ▸ hselected.aesKeys).filter _)
      refine filter_congr fun row hrow => ?_
      rw [decide_eq_true (hvalid.aesKeys row hrow), Bool.and_true, Bool.eq_iff_iff, hstored,
        decide_eq_true_iff]
    refine (hperm.map fillKeyInfo).trans (List.Perm.of_eq ?_)
    unfold mapRows
    rw [filter_map, map_map]
    rfl
  have hview : ((sqliteLoadAllTable selected validTime now).peers.map LoadedPeer.view).Perm
        ((lastRows (peerLog accepted)).map (expectedPeer accepted)) ↔
      ∀ row ∈ lastRows (peerLog accepted),
        loadedView selected validTime (lastRows (peerLog accepted)) row = expectedPeer accepted row := by
    rw [← perm_map_rows h.nodup PeerView.peerid (fun _ => rfl) (fun _ => rfl)]
    have hloaded := (loaded_peers hrows validTime now).1
    exact ⟨hloaded.symm.trans, hloaded.trans⟩
  have hrow : ∀ row ∈ lastRows (peerLog accepted),
      (loadedView selected validTime (lastRows (peerLog accepted)) row = expectedPeer accepted row ↔
        (∀ connectInfo, (row.1, connectInfo, true) ∉ accepted.flatMap connectWrites) ∧
          ∀ sn, (sn, row.1) ∈ insertedKeys (snLog accepted) → sn ∈ insertedKeys (peerLog accepted)) := by
    intro row hmem
    have hpeer : storedPeer (lastRows (peerLog accepted)) row.1 = true :=
      decide_eq_true (mem_map_of_mem hmem)
    have hconnects := connects_iff row.1 h.connections hselected.connections hvalid
    have hsuperNodes := superNodes_iff (h.sns ▸ hselected.sns) hpeer
    rw [PeerView.ext_iff]
    constructor
    · rintro ⟨-, -, -, hsame, hsn⟩
      exact ⟨hconnects.mp hsame, fun sn hmem => (hstored sn).mp (hsuperNodes.mp hsn sn hmem)⟩
    · rintro ⟨hnone, hall⟩
      exact ⟨rfl, rfl, rfl, hconnects.mpr hnone,
        hsuperNodes.mpr fun sn hmem => (hstored sn).mpr (hall sn hmem)⟩
  constructor
  · intro hdelivered peerid hpeerid
    rw [← keys_lastRows] at hpeerid
    obtain ⟨row, hmem, rfl⟩ := mem_map.mp hpeerid
    exact (hrow row hmem).mp (hview.mp hdelivered.peers row hmem)
  intro hstorable
  refine ⟨hview.mpr fun row hmem => (hrow row hmem).mpr (hstorable row.1 ?_), hkeys⟩
  rw [← keys_lastRows]
  exact mem_map_of_mem hmem

/-- Once all requests are executed, the tables hold the last values. -/
theorem storedBy_run {pendingLimit : UInt32} {events : List HistoryEvent}
    (hdone : (HistoryRun.ofEvents pendingLimit events).pending = [])
    (hadded : AddedFirst (HistoryRun.ofEvents pendingLimit events).accepted) :
    StoredBy (HistoryRun.ofEvents pendingLimit events).accepted
      (HistoryRun.ofEvents pendingLimit events).tables := by
  have htables := tables_run pendingLimit events
  have hexecuted : ∀ {K V : Type} [DecidableEq K] (write : HistoryRequest → Option (Write K V)),
      Prioritized write →
      InsertedFirst ((HistoryRun.ofEvents pendingLimit events).accepted.filterMap write) →
      writeRows ((HistoryRun.ofEvents pendingLimit events).executed.filterMap write) =
        lastRows ((HistoryRun.ofEvents pendingLimit events).accepted.filterMap write) := by
    intro K V _ write hwrite hlog
    have hsame := sameWrites_run hwrite pendingLimit events hlog
    unfold HistoryRun.writes at hsame
    rw [hdone, append_nil] at hsame
    rw [hsame.table_eq hlog, table_eq hlog]
  have hconnections := connectsTo_run pendingLimit events
  have hperm := accepted_perm pendingLimit events
  rw [hdone, append_nil] at hperm
  have hmem : ∀ write, write ∈ (HistoryRun.ofEvents pendingLimit events).executed.flatMap connectWrites ↔
      write ∈ (HistoryRun.ofEvents pendingLimit events).accepted.flatMap connectWrites :=
    fun write => (hperm.flatMap_right connectWrites).mem_iff
  constructor
  · rw [htables.peers, hexecuted peerWrite prioritized_peer hadded.peers]
    rfl
  · have hnodup := nodup_writeRows (peerLog (HistoryRun.ofEvents pendingLimit events).accepted)
    rw [table_eq hadded.peers] at hnodup
    exact hnodup
  · rw [htables.sns, hexecuted snWrite prioritized_sn hadded.sns]
    rfl
  · rw [htables.aesKeys, hexecuted aesKeyWrite prioritized_aesKey hadded.aesKeys]
    rfl
  refine ⟨?_, hconnections.kept, ?_⟩
  · intro row hrow
    rcases hconnections.origin row hrow with hbefore | ⟨connectInfo, h⟩
    · exact .inl hbefore
    · exact .inr ⟨connectInfo, (hmem _).mp h⟩
  · exact fun p connectInfo h => hconnections.added p connectInfo ((hmem _).mpr h)

/-- Once all requests are executed, a load delivers what they have stored exactly when no added peer
has a connection, and its super nodes are added peers. -/
theorem history_delivered_iff {pendingLimit : UInt32} {events : List HistoryEvent} {run : HistoryRun}
    (hrun : run = HistoryRun.ofEvents pendingLimit events) (hdone : run.pending = [])
    (hadded : AddedFirst run.accepted) (hselected : Selected run.tables selected)
    (hvalid : AllValid selected validTime now) :
    HistoryDelivered run.accepted (sqliteLoadAllTable selected validTime now) ↔
      Storable run.accepted := by
  subst hrun
  exact (storedBy_run hdone hadded).delivered_iff hselected hvalid

/-! ## Two runs -/

/-- A peer without const info. -/
def storedPeerOf (byte : UInt8) (connectVector : List HistoryConnect) : HistoryPeer where
  peerid := ⟨List.replicate BDT_PEERID_LENGTH byte, length_replicate⟩
  constInfo := ⟨⟨1, 2, 3, 4, 5⟩, .zero _, 0, .zero _⟩
  flagsU32 := 8
  connectVector
  knownKey := rfl

theorem Selected.refl (tables : HistoryTables) : Selected tables tables :=
  ⟨.refl _, .refl _, .refl _, .refl _⟩

instance (accepted : List HistoryRequest) : Decidable (AddedFirst accepted) :=
  decidable_of_iff (InsertedFirst (peerLog accepted) ∧ InsertedFirst (snLog accepted) ∧
    InsertedFirst (aesKeyLog accepted)) ⟨fun ⟨h, h', h''⟩ => ⟨h, h', h''⟩, fun h => ⟨h.1, h.2, h.3⟩⟩

/-- Two peers, of which one is a super node of the other, and a key that is updated. The update is
accepted before the second peer, and executed behind it. -/
def historyEvents : List HistoryEvent :=
  let client := storedPeerOf 1 []
  let sn := storedPeerOf 2 []
  [.request (.addPeer client), .request (.updateAesKey client.peerid (.zero _) ⟨0, 10, 500⟩ true),
    .execute fun _ => [],
    .request (.updateAesKey client.peerid (.zero _) ⟨1, 20, 600⟩ false), .request (.addPeer sn),
    .request (.updateSuperNode client.peerid sn.peerid 30 true),
    .execute fun _ => [], .execute fun _ => [], .execute fun _ => [], .execute fun _ => []]

/-- Both peers, the super node and the key are loaded as they were accepted last. -/
theorem history_delivered_two : HistoryDelivered (HistoryRun.ofEvents 10 historyEvents).accepted
    (sqliteLoadAllTable (HistoryRun.ofEvents 10 historyEvents).tables 0 100) := by
  have hkeys : ∀ row ∈ (HistoryRun.ofEvents 10 historyEvents).tables.aesKeys,
      (100 : Int) < row.2.expireTime := by decide +kernel
  have hconnects : (HistoryRun.ofEvents 10 historyEvents).accepted.flatMap connectWrites = [] := rfl
  have hsns : ∀ id ∈ insertedKeys (snLog (HistoryRun.ofEvents 10 historyEvents).accepted),
      id.1 ∈ insertedKeys (peerLog (HistoryRun.ofEvents 10 historyEvents).accepted) := by
    decide +kernel
  have hvalid : AllValid (HistoryRun.ofEvents 10 historyEvents).tables 0 100 := by
    refine ⟨fun row hrow => ?_, hkeys⟩
    have hempty : (HistoryRun.ofEvents 10 historyEvents).tables.connections = [] := rfl
    rw [hempty] at hrow
    cases hrow
  refine (history_delivered_iff rfl rfl (by decide +kernel) (.refl _) hvalid).mpr ?_
  intro peerid _
  refine ⟨?_, fun sn hsn => hsns (sn, peerid) hsn⟩
  rw [hconnects]
  exact fun _ => nofun

/-- A connection from a local endpoint. -/
def storedConnect : HistoryConnect where
  endpoint := ⟨BDT_ENDPOINT_IP_VERSION_4, 5000, .zero 16⟩
  localEndpoint := some ⟨⟨BDT_ENDPOINT_IP_VERSION_4, 6000, .zero 16⟩, by decide⟩
  foundTime := 10
  lastConnectTime := 20
  rto := 300
  sendSpeed := 0
  recvSpeed := 0
  flags := 1

/-- A peer is added with a connection. -/
def connectedEvents : List HistoryEvent :=
  [.request (.addPeer (storedPeerOf 1 [storedConnect])), .execute fun _ => List.replicate 20 7]

/-- The local endpoint of a connection is lost. -/
theorem history_connection_lost : ∃ run, run = HistoryRun.ofEvents 10 connectedEvents ∧
    run.pending = [] ∧ AddedFirst run.accepted ∧ AllValid run.tables 0 100 ∧
      ¬ HistoryDelivered run.accepted (sqliteLoadAllTable run.tables 0 100) := by
  have hadded : AddedFirst (HistoryRun.ofEvents 10 connectedEvents).accepted := by decide +kernel
  have hconnections : ∀ row ∈ (HistoryRun.ofEvents 10 connectedEvents).tables.connections,
      (0 : Int) < row.2.lastConnectTime ∨
        row.2.lastConnectTime = 0 ∧ (0 : Int) < row.2.foundTime := by decide +kernel
  have hvalid : AllValid (HistoryRun.ofEvents 10 connectedEvents).tables 0 100 := by
    refine ⟨hconnections, fun row hrow => ?_⟩
    have hempty : (HistoryRun.ofEvents 10 connectedEvents).tables.aesKeys = [] := rfl
    rw [hempty] at hrow
    cases hrow
  refine ⟨_, rfl, rfl, hadded, hvalid, ?_⟩
  rw [(storedBy_run rfl hadded).delivered_iff (.refl _) hvalid]
  intro hstorable
  exact (hstorable (storedPeerOf 1 [storedConnect]).peerid mem_cons_self).1 storedConnect
    mem_cons_self

end Bdt
