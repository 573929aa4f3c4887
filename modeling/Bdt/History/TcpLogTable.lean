import Bdt.History.SqliteTables
import Bdt.History.TunnelHistoryLoad
import Mathlib.Data.List.Sort

/-!
# The table of the tcp logs

`bdt_history_tcpTunnelLog` has a row for each entry of a tunnel's history. A new entry is inserted, a
merged one is updated, and a load groups the rows of a peer by their endpoints, in the order of their
columns. The endpoints are compared without their ports then, but an update looks for all the bytes
that were bound.

`loadedRows` are the rows of a peer as a load reads them, and `storedLogs` those of a pair of endpoints,
by their time.
-/

namespace Bdt

open Base List

/-- The bytes that are bound for an endpoint. -/
def BdtEndpoint.column (endpoint : BdtEndpoint) : List UInt8 :=
  endpoint.memory.take (endpointLength endpoint)

/-- A row of `bdt_history_tcpTunnelLog`, which has no primary key. -/
structure TcpLogRow where
  remotePeerid : Peerid
  localEndpoint : List UInt8
  remoteEndpoint : List UInt8
  type : TcpLogType
  times : Int32
  timestamp : Int
  deriving DecidableEq

/-- What `SqliteFillTcpTunnelLogFromDataBase` fills in. -/
structure LoadedTcpLog where
  localEndpoint : BdtEndpoint
  remoteEndpoint : BdtEndpoint
  log : TcpLog
  deriving DecidableEq

def bindTcpLog (remotePeerid : Peerid) (update : TcpLogUpdate) : TcpLogRow where
  remotePeerid
  localEndpoint := update.localEndpoint.column
  remoteEndpoint := update.remoteEndpoint.column
  type := update.type
  times := update.times.toInt32
  timestamp := update.timestamp

/-- The row that an `UPDATE` is about. -/
def TcpLogRow.isUpdatedBy (row : TcpLogRow) (remotePeerid : Peerid) (update : TcpLogUpdate) : Bool :=
  row.remotePeerid = remotePeerid && row.localEndpoint = update.localEndpoint.column &&
    row.remoteEndpoint = update.remoteEndpoint.column && row.type = update.type &&
    row.timestamp = update.oldTimeStamp

/-- The `UPDATE` of a row. -/
def TcpLogRow.updated (row : TcpLogRow) (remotePeerid : Peerid) (update : TcpLogUpdate) : TcpLogRow :=
  if row.isUpdatedBy remotePeerid update then
    { row with times := update.times.toInt32, timestamp := update.timestamp }
  else row

/-- `SqliteUpdateTunnelHistoryTcpLogIOProcessor`, of an open database. -/
def updateTcpLogIOProcessor (rows : List TcpLogRow) (remotePeerid : Peerid) (update : TcpLogUpdate) :
    List TcpLogRow :=
  if update.isNew then rows ++ [bindTcpLog remotePeerid update]
  else rows.map (·.updated remotePeerid update)

/-- `SqliteCleanExpireTcpTunnelLog`. -/
def cleanExpireTcpTunnelLog (rows : List TcpLogRow) (validTimeStamp : Int) : List TcpLogRow :=
  rows.filter fun row => ¬ row.timestamp < validTimeStamp

def isEndpointColumn (column : List UInt8) : Bool :=
  column.length = ENDPOINT_LENGTH_V4 || column.length = ENDPOINT_LENGTH_V6

/-- `SqliteFillTcpTunnelLogFromDataBase`. -/
def fillTcpTunnelLog (row : TcpLogRow) : Option LoadedTcpLog :=
  if isEndpointColumn row.localEndpoint && isEndpointColumn row.remoteEndpoint then
    some {
      localEndpoint := .ofMemory row.localEndpoint
      remoteEndpoint := .ofMemory row.remoteEndpoint
      log := { type := row.type, times := row.times.toUInt32, timestamp := row.timestamp } }
  else none

/-- The order of the rows that are selected: a blob is compared byte by byte. -/
def TcpLogRow.before (left right : TcpLogRow) : Bool :=
  left.localEndpoint < right.localEndpoint || left.localEndpoint = right.localEndpoint &&
    (left.remoteEndpoint < right.remoteEndpoint || left.remoteEndpoint = right.remoteEndpoint &&
      left.timestamp ≤ right.timestamp)

/-- The rows of a peer, as they are filled in. -/
def loadedRows (rows : List TcpLogRow) (remotePeerid : Peerid) : List LoadedTcpLog :=
  (rows.filter (·.remotePeerid = remotePeerid)).filterMap fillTcpTunnelLog

/-- Put a log into the vector of a local endpoint. Only the last remote endpoint is compared. -/
def pushLoadedRemote (logForRemoteVector : List LogForRemoteEndpoint) (loaded : LoadedTcpLog) :
    List LogForRemoteEndpoint :=
  let new : LogForRemoteEndpoint := { remote := loaded.remoteEndpoint, logVector := [loaded.log] }
  match logForRemoteVector.getLast? with
  | some lastLog4Remote =>
    if BdtEndpointCompare lastLog4Remote.remote loaded.remoteEndpoint true ≠ 0 then
      logForRemoteVector ++ [new]
    else logForRemoteVector.dropLast ++
      [{ lastLog4Remote with logVector := lastLog4Remote.logVector ++ [loaded.log] }]
  | none => [new]

/-- Put a log behind those that were loaded. Only the last local endpoint is compared. -/
def pushLoaded (log4Local : List LogForLocalEndpoint) (loaded : LoadedTcpLog) :
    List LogForLocalEndpoint :=
  let new : LogForLocalEndpoint :=
    { localEndpoint := loaded.localEndpoint, logForRemoteVector := pushLoadedRemote [] loaded }
  match log4Local.getLast? with
  | some lastLog4Local =>
    if BdtEndpointCompare lastLog4Local.localEndpoint loaded.localEndpoint true ≠ 0 then
      log4Local ++ [new]
    else log4Local.dropLast ++ [{ lastLog4Local with
      logForRemoteVector := pushLoadedRemote lastLog4Local.logForRemoteVector loaded }]
  | none => [new]

/-- The rows that are selected, in their order. -/
def selectTcpLogs (rows : List TcpLogRow) (remotePeerid : Peerid) : List LoadedTcpLog :=
  ((rows.filter (·.remotePeerid = remotePeerid)).insertionSort (·.before · = true)).filterMap
    fillTcpTunnelLog

/-- `SqliteLoadTcpTunnelLogs`, with `outTcpLog4LocalVector` and `outExpireCount`. -/
def loadTcpTunnelLogs (rows : List TcpLogRow) (remotePeerid : Peerid) (timeLimit : Int) :
    List LogForLocalEndpoint × Nat :=
  let selected := selectTcpLogs rows remotePeerid
  ((selected.filter fun loaded => ¬ loaded.log.timestamp < timeLimit).foldl pushLoaded [],
    (selected.filter fun loaded => loaded.log.timestamp < timeLimit).length)

/-! ## What the rows stand for -/

def LoadedTcpLog.pair (loaded : LoadedTcpLog) : Bdt_TunnelHistory.HostPair :=
  (loaded.localEndpoint.host, loaded.remoteEndpoint.host)

/-- The stored rows of a pair of endpoints, by their time. -/
def storedLogs (rows : List TcpLogRow) (remotePeerid : Peerid) (pair : Bdt_TunnelHistory.HostPair) :
    List TcpLog :=
  (((loadedRows rows remotePeerid).filter (·.pair = pair)).insertionSort
    (·.log.timestamp ≤ ·.log.timestamp)).map LoadedTcpLog.log

variable {rows others : List TcpLogRow} {row : TcpLogRow} {remotePeerid : Peerid}
  {update : TcpLogUpdate} {timeLimit : Int}

/-! ## Columns -/

variable (endpoint : BdtEndpoint)

theorem endpointLength_eq : endpointLength endpoint = endpointLength endpoint - 4 + 4 := by
  unfold endpointLength
  split <;> rfl

theorem column_eq :
    endpoint.column = endpoint.flag :: 0 ::
      (toLe 2 endpoint.port.toNat ++ endpoint.address.1.take (endpointLength endpoint - 4)) := by
  unfold BdtEndpoint.column BdtEndpoint.memory
  rw [endpointLength_eq, Nat.add_sub_cancel]
  rfl

theorem column_length : isEndpointColumn endpoint.column = true := by
  have hlength : endpoint.column.length = endpointLength endpoint := by
    rw [column_eq, length_cons, length_cons, length_append, length_toLe,
      length_take, endpoint.address.2]
    unfold endpointLength
    split <;> rfl
  unfold isEndpointColumn
  rw [hlength]
  unfold endpointLength
  split <;> rfl

/-- The bit of the version is one of those that are compared. -/
theorem compareFlag_version :
    endpoint.compareFlag &&& BDT_ENDPOINT_IP_VERSION_4 = endpoint.flag &&& BDT_ENDPOINT_IP_VERSION_4 := by
  unfold BdtEndpoint.compareFlag
  rw [UInt8.and_assoc]
  rfl

theorem host_ofMemory : (BdtEndpoint.ofMemory endpoint.column).host = endpoint.host := by
  have hflag : (BdtEndpoint.ofMemory endpoint.column).flag = endpoint.flag := by
    rw [column_eq]
    rfl
  have haddress : (BdtEndpoint.ofMemory endpoint.column).address =
      .ofList 16 (endpoint.address.1.take (endpointLength endpoint - 4)) := by
    rw [column_eq]
    rfl
  have hcompare : (BdtEndpoint.ofMemory endpoint.column).compareFlag = endpoint.compareFlag :=
    congrArg (· &&& BDT_ENDPOINT_COMPARE_FLAG) hflag
  unfold BdtEndpoint.host BdtEndpoint.key
  simp only [hcompare, haddress, compareFlag_version]
  refine Prod.ext rfl ?_
  show (if _ then _ else _) = if _ then _ else _
  by_cases hversion : endpoint.flag &&& BDT_ENDPOINT_IP_VERSION_4 ≠ 0
  case pos =>
    have hlength : endpointLength endpoint - 4 = 4 := by
      unfold endpointLength
      rw [if_pos hversion]
      rfl
    have hfour : (endpoint.address.1.take 4).length = 4 := by
      rw [length_take, endpoint.address.2]
      rfl
    have htake : (Bytes.ofList 16 (endpoint.address.1.take 4)).1.take
        (endpoint.address.1.take 4).length = endpoint.address.1.take 4 :=
      Bytes.take_ofList (by rw [hfour]; exact Nat.le_add_right 4 12)
    rw [hfour] at htake
    rw [if_pos hversion, if_pos hversion, hlength, htake]
  case neg =>
  have hlength : endpointLength endpoint - 4 = 16 := by
    unfold endpointLength
    rw [if_neg hversion]
    rfl
  rw [if_neg hversion, if_neg hversion, hlength, take_of_length_le (Nat.le_of_eq endpoint.address.2)]
  exact take_left' endpoint.address.2

/-! ## The rows of a peer -/

/-- The rows of a peer that can be read. -/
def peerRows (rows : List TcpLogRow) (remotePeerid : Peerid) : List TcpLogRow :=
  rows.filter fun row => row.remotePeerid = remotePeerid && (fillTcpTunnelLog row).isSome

theorem loadedRows_eq (rows : List TcpLogRow) (remotePeerid : Peerid) :
    loadedRows rows remotePeerid = (peerRows rows remotePeerid).filterMap fillTcpTunnelLog := by
  unfold loadedRows peerRows
  induction rows with
  | nil => rfl
  | cons row _ ih =>
    by_cases hpeerid : row.remotePeerid = remotePeerid
    case neg =>
      rw [filter_cons_of_neg (by simpa using hpeerid), filter_cons_of_neg (by simp [hpeerid]), ih]
    case pos =>
    rw [filter_cons_of_pos (by simpa using hpeerid)]
    cases hfill : fillTcpTunnelLog row with
    | none =>
      rw [filterMap_cons_none hfill, filter_cons_of_neg (by simp [hfill]), ih]
    | some =>
      rw [filterMap_cons_some hfill, filter_cons_of_pos (by simp [hpeerid, hfill]),
        filterMap_cons_some hfill, ih]

theorem peerRows_append :
    peerRows (rows ++ others) remotePeerid =
      peerRows rows remotePeerid ++ peerRows others remotePeerid :=
  filter_append ..

theorem fill_bind (remotePeerid : Peerid) (update : TcpLogUpdate) :
    fillTcpTunnelLog (bindTcpLog remotePeerid update) = some {
      localEndpoint := .ofMemory update.localEndpoint.column
      remoteEndpoint := .ofMemory update.remoteEndpoint.column
      log := { type := update.type, times := update.times, timestamp := update.timestamp } } := by
  unfold fillTcpTunnelLog bindTcpLog
  rw [if_pos (by rw [column_length, column_length]; rfl)]
  rfl

theorem peerRows_bind (remotePeerid : Peerid) (update : TcpLogUpdate) :
    peerRows [bindTcpLog remotePeerid update] remotePeerid = [bindTcpLog remotePeerid update] := by
  refine filter_cons_of_pos ?_
  rw [fill_bind]
  exact Bool.and_eq_true_iff.mpr ⟨decide_eq_true rfl, rfl⟩

theorem updated_columns (row : TcpLogRow) (remotePeerid : Peerid) (update : TcpLogUpdate) :
    (row.updated remotePeerid update).remotePeerid = row.remotePeerid ∧
      (row.updated remotePeerid update).localEndpoint = row.localEndpoint ∧
      (row.updated remotePeerid update).remoteEndpoint = row.remoteEndpoint := by
  unfold TcpLogRow.updated
  split <;> exact ⟨rfl, rfl, rfl⟩

theorem peerRows_updated (rows : List TcpLogRow) (remotePeerid : Peerid) (update : TcpLogUpdate) :
    peerRows (rows.map (·.updated remotePeerid update)) remotePeerid =
      (peerRows rows remotePeerid).map (·.updated remotePeerid update) := by
  unfold peerRows
  rw [filter_map]
  congr 1
  refine filter_congr fun row _ => ?_
  obtain ⟨hpeerid, hlocal, hremote⟩ := updated_columns row remotePeerid update
  show (decide ((row.updated remotePeerid update).remotePeerid = remotePeerid) &&
    (fillTcpTunnelLog (row.updated remotePeerid update)).isSome) = _
  unfold fillTcpTunnelLog
  rw [hpeerid, hlocal, hremote]
  split <;> rfl

variable {loaded : LoadedTcpLog}

theorem fill_timestamp (h : fillTcpTunnelLog row = some loaded) :
    loaded.log.timestamp = row.timestamp := by
  unfold fillTcpTunnelLog at h
  split at h
  case isTrue =>
    cases h
    rfl
  case isFalse => cases h

theorem mem_loadedRows : loaded ∈ loadedRows rows remotePeerid ↔
    ∃ row ∈ rows, row.remotePeerid = remotePeerid ∧ fillTcpTunnelLog row = some loaded := by
  unfold loadedRows
  rw [mem_filterMap]
  refine exists_congr fun row => ?_
  rw [mem_filter, decide_eq_true_iff, and_assoc]

/-- What is left of the rows of a peer when the expired ones are deleted. -/
theorem mem_loadedRows_clean :
    loaded ∈ loadedRows (cleanExpireTcpTunnelLog rows timeLimit) remotePeerid ↔
      loaded ∈ loadedRows rows remotePeerid ∧ ¬ loaded.log.timestamp < timeLimit := by
  rw [mem_loadedRows, mem_loadedRows]
  constructor
  · intro h
    obtain ⟨row, hrow, hpeerid, hfill⟩ := h
    obtain ⟨hrow, hvalid⟩ := mem_filter.mp hrow
    rw [fill_timestamp hfill]
    exact ⟨⟨row, hrow, hpeerid, hfill⟩, of_decide_eq_true hvalid⟩
  intro h
  obtain ⟨⟨row, hrow, hpeerid, hfill⟩, hvalid⟩ := h
  rw [fill_timestamp hfill] at hvalid
  exact ⟨row, mem_filter.mpr ⟨hrow, decide_eq_true hvalid⟩, hpeerid, hfill⟩

/-! ## Loading -/

theorem selectTcpLogs_perm (rows : List TcpLogRow) (remotePeerid : Peerid) :
    (selectTcpLogs rows remotePeerid).Perm (loadedRows rows remotePeerid) :=
  (perm_insertionSort _ _).filterMap _

theorem pushLoaded_ne_nil (log4Local : List LogForLocalEndpoint) (loaded : LoadedTcpLog) :
    pushLoaded log4Local loaded ≠ [] := by
  unfold pushLoaded
  intro hnil
  split at hnil
  case h_1 =>
    split at hnil <;>
      exact append_ne_nil_of_right_ne_nil _ (cons_ne_nil _ _) hnil
  case h_2 => cases hnil

theorem foldl_pushLoaded_eq_nil {selected : List LoadedTcpLog} :
    selected.foldl pushLoaded [] = [] ↔ selected = [] := by
  constructor
  · intro hnil
    induction selected using List.reverseRecOn with
    | nil => rfl
    | append_singleton =>
      rw [foldl_concat] at hnil
      exact absurd hnil (pushLoaded_ne_nil _ _)
  · intro hnil
    subst hnil
    rfl

theorem loadTcpTunnelLogs_eq_nil :
    (loadTcpTunnelLogs rows remotePeerid timeLimit).1 = [] ↔
      ∀ loaded ∈ loadedRows rows remotePeerid, loaded.log.timestamp < timeLimit := by
  refine foldl_pushLoaded_eq_nil.trans ?_
  rw [filter_eq_nil_iff]
  constructor
  · intro h loaded hloaded
    by_contra hvalid
    exact h loaded ((selectTcpLogs_perm rows remotePeerid).mem_iff.mpr hloaded)
      (decide_eq_true hvalid)
  · intro h loaded hloaded hvalid
    exact of_decide_eq_true hvalid
      (h loaded ((selectTcpLogs_perm rows remotePeerid).mem_iff.mp hloaded))

theorem loadTcpTunnelLogs_count (h : (loadTcpTunnelLogs rows remotePeerid timeLimit).1 = [])
    (hcount : (loadTcpTunnelLogs rows remotePeerid timeLimit).2 = 0) :
    loadedRows rows remotePeerid = [] := by
  rw [eq_nil_iff_forall_not_mem]
  intro loaded hloaded
  have hnone := filter_eq_nil_iff.mp (length_eq_zero_iff.mp hcount)
  exact hnone loaded ((selectTcpLogs_perm rows remotePeerid).mem_iff.mpr hloaded)
    (decide_eq_true (loadTcpTunnelLogs_eq_nil.mp h loaded hloaded))

theorem loadTcpTunnelLogs_one
    (h : ((loadedRows rows remotePeerid).filter fun loaded => ¬ loaded.log.timestamp < timeLimit) =
      [loaded]) :
    (loadTcpTunnelLogs rows remotePeerid timeLimit).1 =
      [{ localEndpoint := loaded.localEndpoint
         logForRemoteVector := [{ remote := loaded.remoteEndpoint, logVector := [loaded.log] }] }] := by
  have hperm := (selectTcpLogs_perm rows remotePeerid).filter
    fun loaded => decide ¬ loaded.log.timestamp < timeLimit
  rw [h, perm_singleton] at hperm
  unfold loadTcpTunnelLogs
  simp only [hperm]
  rfl

end Bdt
