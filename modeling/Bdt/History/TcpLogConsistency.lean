import Bdt.History.TcpLogRuns

/-!
# The log in the memory and the rows of the storage

Once all that waits is executed, the entries of the memory are to be the rows of the storage, and every
call is to be counted in one of them.

`tcpLog_consistent_iff`: that holds behind every part of a run exactly when the storage has no valid row
of the peer, no call is made before the load has selected its rows, and every call that is merged has the
endpoints of the call that added the entry, with their ports. A load loses what it finds, or reads in
front of a vector, and an update finds no row when the ports are others.
-/

namespace Bdt

open Base List Option

namespace Bdt_TunnelHistory

variable {history next : Bdt_TunnelHistory} {call : TcpLogCall}

/-- What a call does to the entries, and what it tells the storage. -/
inductive CallEffect (history : Bdt_TunnelHistory) (call : TcpLogCall) :
    Option (Bdt_TunnelHistory × TcpLogUpdate) → Prop where
  | merged {next : Bdt_TunnelHistory} (before : List TcpLog) (last : TcpLog) :
      history.logs call.pair = before ++ [last] → last.type = call.type →
      next.logs = Function.update history.logs call.pair
        (before ++ [{ last with times := last.times + 1 }]) → next.Kept →
      CallEffect history call (some (next, mergedUpdate call last))
  | added {next : Bdt_TunnelHistory} (oldTimeStamp : Int) :
      ¬ LatestType (history.logs call.pair) call.type → history.HasRoom call →
      next.logs = Function.update history.logs call.pair (history.logs call.pair ++ [call.log]) →
      next.Kept → CallEffect history call (some (next, addedUpdate call oldTimeStamp))
  | misplaced {next : Bdt_TunnelHistory} (oldTimeStamp : Int) (other : HostPair) :
      ¬ history.HasRoom call → other ≠ call.pair →
      (next.logs other).length = (history.logs other).length + 1 →
      CallEffect history call (some (next, addedUpdate call oldTimeStamp))
  | full : ¬ history.HasRoom call → CallEffect history call none

theorem callEffect (hkept : history.Kept) : CallEffect history call (history.addTcpLog call) := by
  by_cases hlatest : LatestType (history.logs call.pair) call.type
  case pos =>
    obtain ⟨next, _, _, before, last, hadd, hpair, hlogs, -, htype, hreplaces, -⟩ :=
      addTcpLog_merged hkept hlatest
    obtain ⟨other, hhandle, -, hafter⟩ := handle_hasRoom hkept (.inl hlatest)
    have hsame : history.handle call = some next := congrArg (Option.map Prod.fst) hadd
    obtain rfl := some.inj (hhandle.symm.trans hsame)
    rw [hadd]
    exact .merged before last hlogs htype (hpair ▸ hreplaces.logs_eq hkept) hafter
  case neg =>
  obtain ⟨oldTimeStamp, hadd⟩ := addTcpLog_pushed hkept hlatest
  rw [hadd]
  by_cases hroom : history.HasRoom call
  case pos =>
    obtain ⟨hfree, -⟩ := hroom.resolve_left hlatest
    obtain ⟨next, hhandle, hadds, hafter⟩ := handle_hasRoom hkept hroom
    rw [handle_pushed hkept hlatest] at hhandle
    rw [hhandle]
    refine .added oldTimeStamp hlatest hroom ?_ hafter
    generalize hname : next.logs = after at hadds
    cases hadds with
    | merged _ _ hlogs htype => exact absurd (hlogs ▸ latestType_concat.mpr htype) hlatest
    | added => rfl
    | evicted => omega
  case neg =>
  by_cases hfree : history.logCount < history.tcpLogCacheSize.toNat
  case neg =>
    rw [pushLog_full hfree]
    exact .full hroom
  case pos =>
  -- there is a local endpoint, and its last remote endpoint is another one
  obtain ⟨node, hwrong⟩ :=
    not_forall.mp fun hall : history.LastRemote call => hroom (.inr ⟨hfree, hall⟩)
  obtain ⟨hmem, hwrong⟩ := Classical.not_imp.mp hwrong
  obtain ⟨hlocal, hother⟩ := Classical.not_imp.mp hwrong
  obtain ⟨next, log4Remote, hpush, hlast, hreplaces, -⟩ := pushLog_last hkept hmem hlocal hfree
  rw [hpush]
  refine .misplaced oldTimeStamp (node.host, log4Remote.host) hroom (fun hpair => ?_) ?_
  · rw [hlast] at hother
    exact hother (congrArg some (congrArg Prod.snd hpair))
  · rw [hreplaces.logs_eq hkept, Function.update_self, length_append,
      logs_found hkept hmem (List.mem_of_getLast? hlast)]
    rfl

end Bdt_TunnelHistory

open Bdt_TunnelHistory (HostPair LatestType mergedUpdate addedUpdate CallEffect callEffect)

namespace TcpLogRun

/-! ## What has to hold -/

/-- How often a type was counted. -/
def timesOf (type : TcpLogType) (logs : List TcpLog) : Nat :=
  ((logs.filter (·.type = type)).map (·.times.toNat)).sum

/-- The calls of a pair of endpoints and a type. -/
def callsOf (calls : List TcpLogCall) (pair : HostPair) (type : TcpLogType) : Nat :=
  calls.countP fun call => call.pair = pair && call.type = type

/-- The entries of the memory are the rows of the storage, and what was stored `before` and every call
is counted once. -/
structure Agrees (before : List TcpLogRow) (run : TcpLogRun) : Prop where
  entries : ∀ pair, run.history.logs pair = storedLogs run.rows run.remotePeerid pair
  counted : ∀ pair type, timesOf type (run.history.logs pair) =
    timesOf type (storedLogs (cleanExpireTcpTunnelLog before run.timeLimit) run.remotePeerid pair) +
      callsOf run.calls pair type

/-- What waits can be executed, and then the memory and the storage agree. -/
def Consistent (before : List TcpLogRow) (run : TcpLogRun) : Prop :=
  ∃ last, run.drain = some last ∧ last.Idle ∧ last.Agrees before

/-! ## The condition -/

/-- The entry was added by a call whose endpoints have the same bytes. -/
def SameEndpoints (run : TcpLogRun) (call : TcpLogCall) (entry : TcpLog) : Prop :=
  ∃ earlier ∈ run.calls, earlier.now = entry.timestamp ∧
    earlier.localEndpoint.column = call.localEndpoint.column ∧
    earlier.remoteEndpoint.column = call.remoteEndpoint.column

/-- A call is accepted, has room, and is merged with an entry of the same endpoints that can be counted
up. -/
structure Stores (run : TcpLogRun) (call : TcpLogCall) : Prop where
  accepted : ¬ run.pendingLimit < run.queues.ioCount
  room : run.history.HasRoom call
  merged : ∀ entry, (run.history.logs call.pair).getLast? = some entry → entry.type = call.type →
    run.SameEndpoints call entry ∧ entry.times + 1 ≠ 0

/-- The load does not wait any more when a call is made. -/
def Meets (run : TcpLogRun) : TcpLogRunEvent → Prop
  | .add localEndpoint remoteEndpoint type waited =>
    (∀ n ∈ run.queues.queued, n.content ≠ .load) ∧
      run.Stores (run.call localEndpoint remoteEndpoint type waited)
  | .storage => True

/-! ## The entries -/

/-- An entry, by the call that added it. -/
structure Entry where
  call : TcpLogCall
  times : UInt32

namespace Entry

def log (entry : Entry) : TcpLog where
  type := entry.call.type
  times := entry.times
  timestamp := entry.call.now

def row (remotePeerid : Peerid) (entry : Entry) : TcpLogRow where
  remotePeerid
  localEndpoint := entry.call.localEndpoint.column
  remoteEndpoint := entry.call.remoteEndpoint.column
  type := entry.call.type
  times := entry.times.toInt32
  timestamp := entry.call.now

def loaded (entry : Entry) : LoadedTcpLog where
  localEndpoint := .ofMemory entry.call.localEndpoint.column
  remoteEndpoint := .ofMemory entry.call.remoteEndpoint.column
  log := entry.log

theorem fill_row (remotePeerid : Peerid) (entry : Entry) :
    fillTcpTunnelLog (entry.row remotePeerid) = some entry.loaded := by
  unfold fillTcpTunnelLog row
  rw [if_pos (by rw [column_length, column_length]; rfl)]
  rfl

theorem loaded_pair (entry : Entry) : entry.loaded.pair = entry.call.pair :=
  Prod.ext (host_ofMemory _) (host_ofMemory _)

/-- The entry is counted up, if it is the one of that time. -/
def countUp (timestamp : Int) (entry : Entry) : Entry :=
  if entry.call.now = timestamp then { entry with times := entry.times + 1 } else entry

theorem countUp_call (timestamp : Int) (entry : Entry) : (entry.countUp timestamp).call = entry.call := by
  unfold countUp
  split <;> rfl

end Entry

/-- The entries of a pair of endpoints. -/
def entriesFor (entries : List Entry) (pair : HostPair) : List TcpLog :=
  (entries.filter (·.call.pair = pair)).map Entry.log

variable {run next : TcpLogRun} {before rows : List TcpLogRow} {remotePeerid : Peerid}
  {entries : List Entry} {call : TcpLogCall}

/-- The rows of entries in the order of their times. -/
theorem storedLogs_entries (hrows : peerRows rows remotePeerid = entries.map (Entry.row remotePeerid))
    (hordered : entries.Pairwise fun entry later => entry.call.now < later.call.now) (pair : HostPair) :
    storedLogs rows remotePeerid pair = entriesFor entries pair := by
  have hloaded : loadedRows rows remotePeerid = entries.map Entry.loaded := by
    rw [loadedRows_eq, hrows, filterMap_map, ← filterMap_eq_map]
    exact filterMap_congr fun entry _ => Entry.fill_row remotePeerid entry
  have hfilter : (entries.map Entry.loaded).filter (fun loaded => decide (loaded.pair = pair)) =
      (entries.filter fun entry => decide (entry.call.pair = pair)).map Entry.loaded := by
    rw [List.filter_map]
    congr 1
    refine filter_congr fun entry _ => ?_
    show decide (entry.loaded.pair = pair) = _
    rw [Entry.loaded_pair]
  unfold storedLogs entriesFor
  rw [hloaded, hfilter, List.Pairwise.insertionSort_eq, List.map_map]
  · rfl
  · refine pairwise_map.mpr ((hordered.filter _).imp ?_)
    exact fun hlt => Int.le_of_lt hlt

theorem eq_of_stamp {α : Type} {stamp : α → Int} {records : List α}
    (h : records.Pairwise fun record later => stamp record < stamp later) {record other : α}
    (hrecord : record ∈ records) (hother : other ∈ records) (hstamp : stamp record = stamp other) :
    record = other := by
  have hnodup : (records.map stamp).Nodup :=
    pairwise_map.mpr (h.imp fun hlt => Int.ne_of_lt hlt)
  exact inj_on_of_nodup_map hnodup hrecord hother hstamp

/-! ## What is kept once the load has selected -/

/-- The memory and the rows that there will be have the same entries, and every call is counted. -/
structure Recorded (run : TcpLogRun) (entries : List Entry) : Prop where
  kept : run.history.Kept
  rows : peerRows run.finalRows run.remotePeerid = entries.map (Entry.row run.remotePeerid)
  logs : ∀ pair, run.history.logs pair = entriesFor entries pair
  ordered : entries.Pairwise fun entry later => entry.call.now < later.call.now
  called : ∀ entry ∈ entries, entry.call ∈ run.calls
  times : run.calls.Pairwise fun call later => call.now < later.now
  clock : ∀ call ∈ run.calls, call.now ≤ run.clock
  old : ∀ n ∈ run.queues.updateIOQueue, ∀ write, n.content = .update write →
    write.oldTimeStamp ≤ run.clock
  counted : ∀ pair type, timesOf type (run.history.logs pair) = callsOf run.calls pair type

/-- A run that has loaded is consistent if and only if the memory agrees with the rows there will be. -/
theorem consistent_loaded (h : run.Loaded) :
    run.Consistent before ↔ Agrees before { run with rows := run.finalRows } := by
  obtain ⟨queues, hdrain, hqueued⟩ := drain_loaded h
  constructor
  · intro hconsistent
    obtain ⟨last, hlast, -, hagrees⟩ := hconsistent
    obtain rfl := some.inj (hdrain.symm.trans hlast)
    exact ⟨hagrees.entries, hagrees.counted⟩
  · intro hagrees
    exact ⟨_, hdrain, ⟨rfl, hqueued⟩, hagrees.entries, hagrees.counted⟩

/-! ## What a call has the storage do -/

/-- The run behind a call. -/
def after (run : TcpLogRun) (call : TcpLogCall) (history : Bdt_TunnelHistory) (write : TcpLogUpdate) :
    TcpLogRun :=
  { run with
    history
    clock := call.now
    queues := run.request (.update write)
    calls := run.calls ++ [call] }

theorem addTcpLog_eq (run : TcpLogRun) (call : TcpLogCall) : run.addTcpLog call =
    (run.history.addTcpLog call).map fun (history, write) => run.after call history write := rfl

variable {write : TcpLogUpdate} {writes : List TcpLogUpdate} {times : UInt32}

theorem request_new (haccepted : ¬ run.pendingLimit < run.queues.ioCount)
    (hnew : write.isNew = true) : run.request (.update write) = { run.queues with
      addIOQueue := run.queues.addIOQueue ++ [⟨.addTunnelHistoryTcpLog, .update write⟩]
      ioCount := run.queues.ioCount + 1 } := by
  unfold request TcpLogRequest.type
  rw [if_neg haccepted]
  simp only [hnew]
  rfl

theorem request_old (haccepted : ¬ run.pendingLimit < run.queues.ioCount)
    (hold : write.isNew = false) : run.request (.update write) = { run.queues with
      updateIOQueue := run.queues.updateIOQueue ++ [⟨.updateTunnelHistoryTcpLog, .update write⟩]
      ioCount := run.queues.ioCount + 1 } := by
  unfold request TcpLogRequest.type
  rw [if_neg haccepted]
  simp only [hold]
  rfl

variable {history : Bdt_TunnelHistory} {write : TcpLogUpdate}

theorem Loaded.after (h : run.Loaded) : (run.after call history write).Loaded := by
  by_cases haccepted : run.pendingLimit < run.queues.ioCount
  case pos =>
    have hsame : run.request (.update write) = run.queues := if_pos haccepted
    unfold TcpLogRun.after
    rw [hsame]
    exact ⟨h.close, h.load, h.loading, h.add, h.update⟩
  case neg =>
  unfold TcpLogRun.after
  cases hnew : write.isNew with
  | true =>
    rw [request_new haccepted hnew]
    refine ⟨h.close, h.load, h.loading, fun n hn => ?_, h.update⟩
    rcases mem_concat.mp hn with hn | hn
    · exact h.add n hn
    · exact ⟨write, by rw [hn]⟩
  | false =>
    rw [request_old haccepted hnew]
    refine ⟨h.close, h.load, h.loading, h.add, fun n hn => ?_⟩
    rcases mem_concat.mp hn with hn | hn
    · exact h.update n hn
    · exact ⟨write, by rw [hn], hnew⟩

theorem foldl_updates_append (h : ∀ write ∈ writes, write.isNew = false)
    (rows others : List TcpLogRow) :
    writes.foldl (updateTcpLogIOProcessor · remotePeerid ·) (rows ++ others) =
      writes.foldl (updateTcpLogIOProcessor · remotePeerid ·) rows ++
        writes.foldl (updateTcpLogIOProcessor · remotePeerid ·) others := by
  induction writes generalizing rows others with
  | nil => rfl
  | cons first _ ih =>
    have hfirst : ∀ rows, updateTcpLogIOProcessor rows remotePeerid first =
        rows.map (·.updated remotePeerid first) := by
      intro rows
      unfold updateTcpLogIOProcessor
      rw [h first mem_cons_self, if_neg Bool.false_ne_true]
    rw [foldl_cons, foldl_cons, foldl_cons, hfirst, hfirst, hfirst, map_append]
    exact ih (fun write hwrite => h write (mem_cons_of_mem _ hwrite)) _ _

theorem foldl_updates_fresh {row : TcpLogRow}
    (h : ∀ write ∈ writes, write.isNew = false ∧ write.oldTimeStamp ≠ row.timestamp) :
    writes.foldl (updateTcpLogIOProcessor · remotePeerid ·) [row] = [row] := by
  induction writes with
  | nil => rfl
  | cons first _ ih =>
    obtain ⟨hold, hne⟩ := h first mem_cons_self
    have hsame : row.updated remotePeerid first = row := by
      unfold TcpLogRow.updated TcpLogRow.isUpdatedBy
      rw [decide_eq_false (Ne.symm hne), Bool.and_false, if_neg Bool.false_ne_true]
    rw [foldl_cons]
    have hfirst : updateTcpLogIOProcessor [row] remotePeerid first = [row] := by
      unfold updateTcpLogIOProcessor
      rw [hold, if_neg Bool.false_ne_true, map_singleton, hsame]
    rw [hfirst]
    exact ih fun write hwrite => h write (mem_cons_of_mem _ hwrite)

theorem finalRows_refused (hrefused : run.pendingLimit < run.queues.ioCount) :
    (run.after call history write).finalRows = run.finalRows := by
  have hsame : run.request (.update write) = run.queues := if_pos hrefused
  unfold TcpLogRun.after
  rw [hsame]
  rfl

theorem finalRows_new (h : run.Loaded) (haccepted : ¬ run.pendingLimit < run.queues.ioCount)
    (hnew : write.isNew = true)
    (hfresh : ∀ n ∈ run.queues.updateIOQueue, ∀ old, n.content = .update old →
      old.oldTimeStamp ≠ write.timestamp) :
    (run.after call history write).finalRows =
      run.finalRows ++ [bindTcpLog run.remotePeerid write] := by
  have hold : ∀ old ∈ run.queues.updateIOQueue.filterMap (·.content.write),
      old.isNew = false ∧ old.oldTimeStamp ≠ write.timestamp := by
    intro old hmem
    obtain ⟨n, hn, hwrite⟩ := mem_filterMap.mp hmem
    obtain ⟨queued, hcontent, hisNew⟩ := h.update n hn
    rw [hcontent] at hwrite
    obtain rfl := some.inj hwrite
    exact ⟨hisNew, hfresh n hn queued hcontent⟩
  unfold finalRows
  rw [h.after.queued, h.queued]
  unfold TcpLogRun.after
  rw [request_new haccepted hnew]
  show ((run.queues.addIOQueue ++ [_] ++ run.queues.updateIOQueue).filterMap _).foldl _ run.keptRows = _
  rw [filterMap_append, filterMap_append, foldl_append, foldl_append,
    filterMap_append, foldl_append]
  show List.foldl _ (updateTcpLogIOProcessor _ run.remotePeerid write) _ = _
  have hinsert : ∀ rows, updateTcpLogIOProcessor rows run.remotePeerid write =
      rows ++ [bindTcpLog run.remotePeerid write] := fun rows => if_pos hnew
  rw [hinsert, foldl_updates_append fun old hmem => (hold old hmem).1]
  congr 1
  exact foldl_updates_fresh hold

theorem finalRows_old (h : run.Loaded) (haccepted : ¬ run.pendingLimit < run.queues.ioCount)
    (hold : write.isNew = false) :
    (run.after call history write).finalRows =
      run.finalRows.map (·.updated run.remotePeerid write) := by
  unfold finalRows
  rw [h.after.queued, h.queued]
  unfold TcpLogRun.after
  rw [request_old haccepted hold]
  show ((run.queues.addIOQueue ++ (run.queues.updateIOQueue ++ [_])).filterMap _).foldl _
    run.keptRows = _
  rw [← append_assoc, filterMap_append, foldl_append]
  show updateTcpLogIOProcessor _ run.remotePeerid write = _
  unfold updateTcpLogIOProcessor
  rw [hold, if_neg Bool.false_ne_true]

/-! ## A call that is stored -/

theorem timesOf_append (type : TcpLogType) (logs others : List TcpLog) :
    timesOf type (logs ++ others) = timesOf type logs + timesOf type others := by
  unfold timesOf
  rw [filter_append, map_append, sum_append]

theorem timesOf_singleton (type : TcpLogType) (log : TcpLog) :
    timesOf type [log] = if log.type = type then log.times.toNat else 0 := by
  by_cases htype : log.type = type <;> simp [timesOf, htype]

theorem callsOf_append (calls : List TcpLogCall) (call : TcpLogCall) (pair : HostPair)
    (type : TcpLogType) : callsOf (calls ++ [call]) pair type =
      callsOf calls pair type + if call.pair = pair ∧ call.type = type then 1 else 0 := by
  unfold callsOf
  rw [countP_append, countP_singleton]
  simp

theorem entriesFor_append (entries others : List Entry) (pair : HostPair) :
    entriesFor (entries ++ others) pair = entriesFor entries pair ++ entriesFor others pair := by
  unfold entriesFor
  rw [filter_append, map_append]

theorem entriesFor_singleton (entry : Entry) (pair : HostPair) :
    entriesFor [entry] pair = if entry.call.pair = pair then [entry.log] else [] := by
  by_cases hpair : entry.call.pair = pair <;> simp [entriesFor, hpair]

theorem Recorded.later (hrec : run.Recorded entries) (hclock : run.clock < call.now) :
    (run.calls ++ [call]).Pairwise (fun call later => call.now < later.now) ∧
      ∀ other ∈ run.calls ++ [call], other.now ≤ call.now := by
  have hbefore : ∀ other ∈ run.calls, other.now < call.now := by
    intro other hmem
    have hle := hrec.clock other hmem
    omega
  constructor
  · refine pairwise_append.mpr ⟨hrec.times, pairwise_singleton _ _, ?_⟩
    intro other hmem last hlast
    rw [mem_singleton.mp hlast]
    exact hbefore other hmem
  intro other hmem
  rcases mem_concat.mp hmem with hmem | hmem
  · exact Int.le_of_lt (hbefore other hmem)
  · rw [hmem]

theorem Recorded.rows_added (h : run.Loaded) (hrec : run.Recorded entries) (hclock : run.clock < call.now)
    (haccepted : ¬ run.pendingLimit < run.queues.ioCount) (oldTimeStamp : Int) :
    peerRows (run.after call history (addedUpdate call oldTimeStamp)).finalRows run.remotePeerid =
      (entries ++ [(⟨call, 1⟩ : Entry)]).map (Entry.row run.remotePeerid) := by
  rw [finalRows_new h haccepted rfl, peerRows_append, peerRows_bind, hrec.rows, map_append]
  · rfl
  intro n hn old hcontent heq
  have hle := hrec.old n hn old hcontent
  have hnow : old.oldTimeStamp = call.now := heq
  omega

theorem Recorded.ordered_added (hrec : run.Recorded entries) (hclock : run.clock < call.now) :
    (entries ++ [(⟨call, 1⟩ : Entry)]).Pairwise fun entry later => entry.call.now < later.call.now := by
  refine pairwise_append.mpr ⟨hrec.ordered, pairwise_singleton _ _, ?_⟩
  intro entry hentry last hlast
  rw [mem_singleton.mp hlast]
  have hle := hrec.clock entry.call (hrec.called entry hentry)
  show entry.call.now < call.now
  omega

theorem Recorded.added (h : run.Loaded) (hrec : run.Recorded entries) (hclock : run.clock < call.now)
    (haccepted : ¬ run.pendingLimit < run.queues.ioCount) {oldTimeStamp : Int}
    (hlogs : history.logs =
      Function.update run.history.logs call.pair (run.history.logs call.pair ++ [call.log]))
    (hkept : history.Kept) :
    Recorded (run.after call history (addedUpdate call oldTimeStamp)) (entries ++ [⟨call, 1⟩]) := by
  obtain ⟨htimes, hlast⟩ := hrec.later hclock
  have hpairs : ∀ pair, history.logs pair = run.history.logs pair ++
      if call.pair = pair then [call.log] else [] := by
    intro pair
    rw [hlogs]
    by_cases hpair : pair = call.pair
    case pos => rw [hpair, Function.update_self, if_pos rfl]
    case neg => rw [Function.update_of_ne hpair, if_neg (Ne.symm hpair), append_nil]
  refine ⟨hkept, hrec.rows_added h hclock haccepted oldTimeStamp, fun pair => ?_,
    hrec.ordered_added hclock, ?_, htimes, hlast, ?_, fun pair type => ?_⟩
  · show history.logs pair = _
    rw [hpairs, hrec.logs, entriesFor_append, entriesFor_singleton]
    rfl
  · intro entry hentry
    show entry.call ∈ run.calls ++ [call]
    rcases mem_concat.mp hentry with hentry | hentry
    · exact mem_append_left _ (hrec.called entry hentry)
    · rw [hentry]
      exact mem_append_right _ mem_cons_self
  · intro n hn old hcontent
    have hsame : run.request (.update (addedUpdate call oldTimeStamp)) = _ := request_new haccepted rfl
    have hmem : n ∈ (run.request (.update (addedUpdate call oldTimeStamp))).updateIOQueue := hn
    rw [hsame] at hmem
    have hle := hrec.old n hmem old hcontent
    show old.oldTimeStamp ≤ call.now
    omega
  show timesOf type (history.logs pair) = callsOf (run.calls ++ [call]) pair type
  rw [hpairs, timesOf_append, hrec.counted, callsOf_append]
  congr 1
  by_cases hpair : call.pair = pair
  case pos =>
    rw [if_pos hpair, timesOf_singleton]
    simp only [hpair, true_and]
    rfl
  case neg =>
    rw [if_neg hpair, if_neg fun hboth => hpair hboth.1]
    rfl

variable {front : List TcpLog} {last : TcpLog}

theorem last_entry {pair : HostPair} (h : entriesFor entries pair = front ++ [last]) :
    ∃ others entry, entries.filter (fun entry => decide (entry.call.pair = pair)) = others ++ [entry] ∧
      others.map Entry.log = front ∧ entry.log = last := by
  obtain ⟨others, behind, hsplit, hfront, hbehind⟩ := map_eq_append_iff.mp h
  obtain ⟨entry, rest, rfl, hentry, hrest⟩ := map_eq_cons_iff.mp hbehind
  obtain rfl := map_eq_nil_iff.mp hrest
  exact ⟨others, entry, hsplit, hfront, hentry⟩

theorem filter_countUp (entries : List Entry) (timestamp : Int) (pair : HostPair) :
    (entries.map (Entry.countUp timestamp)).filter (fun entry => decide (entry.call.pair = pair)) =
      (entries.filter fun entry => decide (entry.call.pair = pair)).map (Entry.countUp timestamp) := by
  rw [List.filter_map]
  congr 1
  refine filter_congr fun entry _ => ?_
  show decide ((entry.countUp timestamp).call.pair = pair) = _
  rw [Entry.countUp_call]

theorem map_countUp_eq {timestamp : Int} (h : ∀ entry ∈ entries, entry.call.now ≠ timestamp) :
    entries.map (Entry.countUp timestamp) = entries :=
  (map_congr_left fun entry hentry => if_neg (h entry hentry)).trans (List.map_id entries)

theorem entriesFor_countUp (hordered : entries.Pairwise fun entry later => entry.call.now < later.call.now)
    (hlast : entriesFor entries call.pair = front ++ [last])
    (pair : HostPair) : entriesFor (entries.map (Entry.countUp last.timestamp)) pair =
      if pair = call.pair then front ++ [{ last with times := last.times + 1 }]
      else entriesFor entries pair := by
  obtain ⟨others, entry, hsplit, hfront, rfl⟩ := last_entry hlast
  have hmem : entry ∈ entries.filter fun entry => decide (entry.call.pair = call.pair) :=
    hsplit ▸ mem_append_right _ mem_cons_self
  obtain ⟨hentry, hpair⟩ := mem_filter.mp hmem
  unfold entriesFor
  rw [filter_countUp]
  by_cases heq : pair = call.pair
  case pos =>
    have hsplitOrdered := hordered.filter fun entry => decide (entry.call.pair = call.pair)
    rw [hsplit] at hsplitOrdered
    have hothers : ∀ other ∈ others, other.call.now ≠ entry.log.timestamp := fun other hother =>
      Int.ne_of_lt ((pairwise_append.mp hsplitOrdered).2.2 other hother entry mem_cons_self)
    have hcount : entry.countUp entry.log.timestamp = { entry with times := entry.times + 1 } :=
      if_pos rfl
    rw [if_pos heq, heq, hsplit, map_append, map_countUp_eq hothers, map_append, hfront,
      map_singleton, hcount]
    rfl
  case neg =>
  rw [if_neg heq, map_countUp_eq]
  intro other hother hnow
  obtain ⟨hother, hotherPair⟩ := mem_filter.mp hother
  -- two entries of one time are the same
  have hsame : other = entry := eq_of_stamp hordered hother hentry hnow
  rw [hsame] at hotherPair
  exact heq ((of_decide_eq_true hotherPair).symm.trans (of_decide_eq_true hpair))

section

variable (hrec : run.Recorded entries) (hlogs : run.history.logs call.pair = front ++ [last])
include hrec hlogs

theorem Recorded.last_entry : ∃ entry ∈ entries, entry.log = last := by
  obtain ⟨others, entry, hsplit, -, hentry⟩ := TcpLogRun.last_entry ((hrec.logs call.pair).symm.trans hlogs)
  have hmem : entry ∈ entries.filter fun entry => decide (entry.call.pair = call.pair) :=
    hsplit ▸ mem_append_right _ mem_cons_self
  exact ⟨entry, (mem_filter.mp hmem).1, hentry⟩

theorem Recorded.updated_same (htype : last.type = call.type)
    (hsame : run.SameEndpoints call last) :
    (entries.map (Entry.row run.remotePeerid)).map (·.updated run.remotePeerid (mergedUpdate call last)) =
      (entries.map (Entry.countUp last.timestamp)).map (Entry.row run.remotePeerid) := by
  obtain ⟨entry, hentry, rfl⟩ := hrec.last_entry hlogs
  obtain ⟨earlier, hearlier, hnow, hlocal, hremote⟩ := hsame
  obtain rfl := eq_of_stamp hrec.times hearlier (hrec.called entry hentry) hnow
  rw [List.map_map, List.map_map]
  refine map_congr_left fun other hother => ?_
  show TcpLogRow.updated _ _ _ = Entry.row _ (Entry.countUp _ _)
  unfold TcpLogRow.updated Entry.countUp
  by_cases htime : other.call.now = entry.log.timestamp
  case pos =>
    obtain rfl : other = entry := eq_of_stamp hrec.ordered hother hentry htime
    have hrow : TcpLogRow.isUpdatedBy (Entry.row run.remotePeerid other) run.remotePeerid
        (mergedUpdate call other.log) = true := by
      unfold TcpLogRow.isUpdatedBy
      simp only [Bool.and_eq_true, decide_eq_true_eq]
      exact ⟨⟨⟨⟨rfl, hlocal⟩, hremote⟩, htype⟩, rfl⟩
    rw [if_pos hrow, if_pos htime]
    rfl
  case neg =>
  have hrow : TcpLogRow.isUpdatedBy (Entry.row run.remotePeerid other) run.remotePeerid
      (mergedUpdate call entry.log) = false := by
    unfold TcpLogRow.isUpdatedBy
    rw [Bool.and_eq_false_iff]
    exact .inr (decide_eq_false htime)
  rw [hrow, if_neg Bool.false_ne_true, if_neg htime]

end

theorem Recorded.updated_other (hrec : run.Recorded entries)
    (hother : ¬ run.SameEndpoints call last) :
    (entries.map (Entry.row run.remotePeerid)).map (·.updated run.remotePeerid (mergedUpdate call last)) =
      entries.map (Entry.row run.remotePeerid) := by
  rw [List.map_map]
  refine map_congr_left fun entry hentry => ?_
  show TcpLogRow.updated _ _ _ = _
  refine if_neg fun hrow => hother ?_
  unfold TcpLogRow.isUpdatedBy at hrow
  simp only [Bool.and_eq_true, decide_eq_true_eq] at hrow
  obtain ⟨⟨⟨⟨-, hlocal⟩, hremote⟩, -⟩, hnow⟩ := hrow
  exact ⟨entry.call, hrec.called entry hentry, hnow, hlocal, hremote⟩

theorem toNat_succ (h : times + 1 ≠ 0) : (times + 1).toNat = times.toNat + 1 := by
  have hlt := times.toNat_lt
  have hadd : (times + 1).toNat = (times.toNat + 1) % 2 ^ 32 := UInt32.toNat_add times 1
  have hne : times.toNat + 1 ≠ 2 ^ 32 := by
    intro heq
    refine h (UInt32.toNat_inj.mp ?_)
    rw [hadd, heq]
    rfl
  omega

theorem succ_ne : times + 1 ≠ times := by
  intro heq
  have hadd : (times + 1).toNat = (times.toNat + 1) % 2 ^ 32 := UInt32.toNat_add times 1
  rw [heq] at hadd
  omega

theorem timesOf_countUp (hcount : last.times + 1 ≠ 0)
    (type : TcpLogType) : timesOf type (front ++ [{ last with times := last.times + 1 }]) =
      timesOf type (front ++ [last]) + if last.type = type then 1 else 0 := by
  have htimes := toNat_succ hcount
  rw [timesOf_append, timesOf_append, timesOf_singleton, timesOf_singleton]
  split
  case isTrue => rw [htimes, Nat.add_assoc]
  case isFalse => rfl

theorem Recorded.merged (h : run.Loaded) (hrec : run.Recorded entries) (hclock : run.clock < call.now)
    (haccepted : ¬ run.pendingLimit < run.queues.ioCount)
    (hlogs : run.history.logs call.pair = front ++ [last]) (htype : last.type = call.type)
    (hsame : run.SameEndpoints call last) (hcount : last.times + 1 ≠ 0)
    (hnext : history.logs = Function.update run.history.logs call.pair
      (front ++ [{ last with times := last.times + 1 }])) (hkept : history.Kept) :
    Recorded (run.after call history (mergedUpdate call last))
      (entries.map (Entry.countUp last.timestamp)) := by
  obtain ⟨htimes, hlater⟩ := hrec.later hclock
  have hlast : entriesFor entries call.pair = front ++ [last] := (hrec.logs call.pair).symm.trans hlogs
  refine ⟨hkept, ?_, fun pair => ?_, ?_, ?_, htimes, hlater, ?_, fun pair type => ?_⟩
  · rw [finalRows_old h haccepted rfl]
    show peerRows _ run.remotePeerid = _
    rw [peerRows_updated, hrec.rows, hrec.updated_same hlogs htype hsame]
    rfl
  · show history.logs pair = _
    rw [hnext, entriesFor_countUp hrec.ordered hlast]
    by_cases hpair : pair = call.pair
    case pos => rw [hpair, Function.update_self, if_pos rfl]
    case neg => rw [Function.update_of_ne hpair, if_neg hpair, hrec.logs]
  · refine pairwise_map.mpr (hrec.ordered.imp fun hlt => ?_)
    rw [Entry.countUp_call, Entry.countUp_call]
    exact hlt
  · intro entry hentry
    obtain ⟨other, hother, rfl⟩ := List.mem_map.mp hentry
    rw [Entry.countUp_call]
    exact mem_append_left _ (hrec.called other hother)
  · intro n hn old hcontent
    have hrequest : run.request (.update (mergedUpdate call last)) = _ := request_old haccepted rfl
    have hmem : n ∈ (run.request (.update (mergedUpdate call last))).updateIOQueue := hn
    rw [hrequest] at hmem
    show old.oldTimeStamp ≤ call.now
    rcases mem_concat.mp hmem with hmem | hmem
    · have hle := hrec.old n hmem old hcontent
      omega
    rw [hmem] at hcontent
    obtain rfl := TcpLogRequest.update.inj hcontent
    obtain ⟨entry, hentry, rfl⟩ := hrec.last_entry hlogs
    have hle := hrec.clock entry.call (hrec.called entry hentry)
    show entry.call.now ≤ call.now
    omega
  show timesOf type (history.logs pair) = callsOf (run.calls ++ [call]) pair type
  rw [callsOf_append, ← hrec.counted, hnext]
  by_cases hpair : pair = call.pair
  case pos =>
    rw [hpair, Function.update_self, timesOf_countUp hcount, hlogs, htype]
    simp only [true_and]
  case neg =>
    rw [Function.update_of_ne hpair, if_neg fun hboth => hpair hboth.1.symm]
    rfl

/-! ## A call is stored, or the memory and the storage disagree -/

/-- The run has loaded, and the memory and the storage have the same entries. -/
structure Settled (before : List TcpLogRow) (run : TcpLogRun) : Prop where
  loaded : run.Loaded
  recorded : ∃ entries, run.Recorded entries
  nothing : loadedRows (cleanExpireTcpTunnelLog before run.timeLimit) run.remotePeerid = []

theorem storedLogs_nil (h : loadedRows rows remotePeerid = []) (pair : HostPair) :
    storedLogs rows remotePeerid pair = [] := by
  unfold storedLogs
  rw [h]
  rfl

theorem storedLogs_ne_nil {loaded : LoadedTcpLog} (h : loaded ∈ loadedRows rows remotePeerid) :
    storedLogs rows remotePeerid loaded.pair ≠ [] := by
  intro hnil
  have hsorted := map_eq_nil_iff.mp hnil
  have hmem : loaded ∈ (loadedRows rows remotePeerid).filter fun other =>
      decide (other.pair = loaded.pair) := mem_filter.mpr ⟨h, decide_eq_true rfl⟩
  have hin := (mem_insertionSort
    (fun log later : LoadedTcpLog => log.log.timestamp ≤ later.log.timestamp)).mpr hmem
  rw [hsorted] at hin
  cases hin

theorem Settled.consistent (h : Settled before run) : run.Consistent before := by
  obtain ⟨entries, hrec⟩ := h.recorded
  rw [consistent_loaded h.loaded]
  constructor
  · intro pair
    exact (hrec.logs pair).trans (storedLogs_entries hrec.rows hrec.ordered pair).symm
  intro pair type
  show timesOf type (run.history.logs pair) = timesOf type (storedLogs _ run.remotePeerid pair) + _
  rw [storedLogs_nil h.nothing, hrec.counted]
  exact (Nat.zero_add _).symm

theorem Settled.storageStep (h : Settled before run) :
    ∃ next, run.storageStep = some next ∧ Settled before next := by
  obtain ⟨rows, queues, loading, hstep, hworks⟩ := h.loaded.storageStep
  obtain ⟨entries, hrec⟩ := h.recorded
  refine ⟨_, hstep, hworks.loaded, ⟨entries, hrec.kept, ?_, hrec.logs, hrec.ordered, hrec.called,
    hrec.times, hrec.clock, fun n hn => hrec.old n (hworks.updates n hn), hrec.counted⟩, h.nothing⟩
  rw [hworks.finalRows]
  exact hrec.rows

/-- What is stored behind a call whose request is refused. -/
theorem Recorded.stored_refused (hrec : run.Recorded entries)
    (hrefused : run.pendingLimit < run.queues.ioCount) (pair : HostPair) :
    storedLogs (run.after call history write).finalRows run.remotePeerid pair =
      run.history.logs pair := by
  rw [finalRows_refused hrefused, storedLogs_entries hrec.rows hrec.ordered, hrec.logs]

theorem Settled.addTcpLog (h : Settled before run) (hclock : run.clock < call.now)
    (hstores : run.Stores call) :
    ∃ next, run.addTcpLog call = some next ∧ Settled before next := by
  obtain ⟨entries, hrec⟩ := h.recorded
  have heffect : CallEffect run.history call (run.history.addTcpLog call) := callEffect hrec.kept
  rw [addTcpLog_eq]
  generalize run.history.addTcpLog call = added at heffect
  cases heffect with
  | full hroom | misplaced _ _ hroom => exact absurd hstores.room hroom
  | @merged history front last hlogs htype hnext hkept =>
    refine ⟨_, rfl, h.loaded.after, ⟨entries.map (Entry.countUp last.timestamp), ?_⟩, h.nothing⟩
    obtain ⟨hsame, hcount⟩ := hstores.merged last (by rw [hlogs, List.getLast?_concat]) htype
    exact hrec.merged h.loaded hclock hstores.accepted hlogs htype hsame hcount hnext hkept
  | @added history oldTimeStamp hlatest hroom hnext hkept =>
    refine ⟨_, rfl, h.loaded.after, ⟨entries ++ [⟨call, 1⟩], ?_⟩, h.nothing⟩
    exact hrec.added h.loaded hclock hstores.accepted hnext hkept

/-- A call behind which the memory and the storage agree meets the condition. -/
theorem Settled.stores (h : Settled before run) (hclock : run.clock < call.now)
    (hstep : run.addTcpLog call = some next) (hconsistent : next.Consistent before) :
    run.Stores call := by
  obtain ⟨entries, hrec⟩ := h.recorded
  have heffect : CallEffect run.history call (run.history.addTcpLog call) := callEffect hrec.kept
  rw [addTcpLog_eq] at hstep
  generalize run.history.addTcpLog call = added at heffect hstep
  cases heffect with
  | full => cases hstep
  | @merged history front last hlogs htype hnext hkept =>
    cases hstep
    have hagrees := (consistent_loaded h.loaded.after).mp hconsistent
    have hentries := hagrees.entries call.pair
    have hnew : (run.after call history (mergedUpdate call last)).history.logs call.pair =
        front ++ [{ last with times := last.times + 1 }] := by
      show history.logs call.pair = _
      rw [hnext, Function.update_self]
    have hchanged : front ++ [{ last with times := last.times + 1 }] ≠ front ++ [last] := by
      intro heq
      have htimes : last.times + 1 = last.times :=
        congrArg TcpLog.times (cons.inj (append_cancel_left heq)).1
      exact succ_ne htimes
    have haccepted : ¬ run.pendingLimit < run.queues.ioCount := by
      intro hrefused
      refine hchanged (hnew.symm.trans (hentries.trans ?_))
      exact (hrec.stored_refused hrefused call.pair).trans hlogs
    refine ⟨haccepted, .inl (hlogs ▸ Bdt_TunnelHistory.latestType_concat.mpr htype), ?_⟩
    intro entry hentry _
    rw [hlogs, List.getLast?_concat] at hentry
    cases hentry
    constructor
    · by_contra hother
      refine hchanged (hnew.symm.trans (hentries.trans ?_))
      have hrows : peerRows (run.after call history (mergedUpdate call last)).finalRows
          run.remotePeerid = entries.map (Entry.row run.remotePeerid) := by
        rw [finalRows_old h.loaded haccepted rfl, peerRows_updated, hrec.rows,
          hrec.updated_other hother]
      exact (storedLogs_entries hrows hrec.ordered call.pair).trans
        ((hrec.logs call.pair).symm.trans hlogs)
    intro hzero
    have hcounted : timesOf call.type (history.logs call.pair) =
        timesOf call.type (storedLogs (cleanExpireTcpTunnelLog before run.timeLimit)
          run.remotePeerid call.pair) + callsOf (run.calls ++ [call]) call.pair call.type :=
      hagrees.counted call.pair call.type
    have hbefore := hrec.counted call.pair call.type
    rw [storedLogs_nil h.nothing, hnext, Function.update_self, callsOf_append,
      if_pos ⟨rfl, rfl⟩, timesOf_append, timesOf_singleton, if_pos htype, hzero] at hcounted
    rw [hlogs, timesOf_append] at hbefore
    have hfront : timesOf call.type front + 0 =
        0 + (callsOf run.calls call.pair call.type + 1) := hcounted
    omega
  | @added history oldTimeStamp hlatest hroom hnext hkept =>
    cases hstep
    have hagrees := (consistent_loaded h.loaded.after).mp hconsistent
    refine ⟨fun hrefused => ?_, hroom, fun entry hentry htype => absurd ?_ hlatest⟩
    · have hentries := (hagrees.entries call.pair).trans (hrec.stored_refused hrefused call.pair)
      have hnew : history.logs call.pair = run.history.logs call.pair := hentries
      rw [hnext, Function.update_self] at hnew
      have hlength := congrArg List.length hnew
      rw [length_append, length_singleton] at hlength
      omega
    · unfold LatestType
      rw [hentry, map_some, htype]
  | @misplaced history oldTimeStamp other hroom hne hlength =>
    cases hstep
    have hagrees := (consistent_loaded h.loaded.after).mp hconsistent
    have hentries : history.logs other = storedLogs
        (run.after call history (addedUpdate call oldTimeStamp)).finalRows run.remotePeerid other :=
      hagrees.entries other
    have hstored : storedLogs (run.after call history (addedUpdate call oldTimeStamp)).finalRows
        run.remotePeerid other = run.history.logs other := by
      by_cases hrefused : run.pendingLimit < run.queues.ioCount
      case pos => exact hrec.stored_refused hrefused other
      case neg =>
      rw [storedLogs_entries (hrec.rows_added h.loaded hclock hrefused oldTimeStamp)
        (hrec.ordered_added hclock), entriesFor_append, entriesFor_singleton, if_neg (Ne.symm hne),
        append_nil, hrec.logs]
    rw [hentries, hstored] at hlength
    omega

/-! ## The load -/

/-- What a load that finds nothing leaves of the rows of the peer. -/
theorem loadedRows_kept {timeLimit : Int}
    (h : (loadTcpTunnelLogs rows remotePeerid timeLimit).1 = []) :
    loadedRows (if 0 < (loadTcpTunnelLogs rows remotePeerid timeLimit).2 then
      cleanExpireTcpTunnelLog rows timeLimit else rows) remotePeerid = [] := by
  split
  case isTrue =>
    rw [eq_nil_iff_forall_not_mem]
    intro loaded hloaded
    obtain ⟨hmem, hvalid⟩ := mem_loadedRows_clean.mp hloaded
    exact hvalid (loadTcpTunnelLogs_eq_nil.mp h loaded hmem)
  case isFalse hzero => exact loadTcpTunnelLogs_count h (Nat.eq_zero_of_not_pos hzero)

theorem onLoad_empty {history : Bdt_TunnelHistory} (h : history.tcpLogMap = [])
    (log4Local : List LogForLocalEndpoint) : history.onLoad 0 log4Local = some history := by
  show log4Local.foldlM Bdt_TunnelHistory.onLoadOneLog history = some history
  induction log4Local with
  | nil => rfl
  | cons first _ ih =>
    have hfirst : history.onLoadOneLog first = some history := by
      unfold Bdt_TunnelHistory.onLoadOneLog
      rw [h]
      rfl
    rw [foldlM_cons, hfirst]
    exact ih

theorem logs_of_load {type : SqliteIOType} (hloading : run.loading = none)
    (hqueued : run.queues.queued = [⟨type, .load⟩])
    (hnil : (loadTcpTunnelLogs run.rows run.remotePeerid run.timeLimit).1 = [])
    (hconsistent : run.Consistent before) (pair : HostPair) : run.history.logs pair = [] := by
  obtain ⟨queues, -, hdrain⟩ := drain_load run hloading hqueued
  obtain ⟨last, hlast, -, hagrees⟩ := hconsistent
  rw [hnil] at hdrain
  obtain rfl := some.inj (hdrain.symm.trans hlast)
  exact (hagrees.entries pair).trans (storedLogs_nil (loadedRows_kept hnil) pair)

section

variable {pendingLimit : UInt32} {tcpLogCacheSize : UInt16} {timeLimit clock : Int}

theorem create_queues : (create remotePeerid pendingLimit tcpLogCacheSize timeLimit clock rows).queues =
    { updateIOQueue := [⟨.loadTunnelHistoryTcpLog, .load⟩], ioCount := 1 } := rfl

theorem create_queued :
    (create remotePeerid pendingLimit tcpLogCacheSize timeLimit clock rows).queues.queued =
      [⟨.loadTunnelHistoryTcpLog, .load⟩] := rfl

theorem create_consistent
    (h : (create remotePeerid pendingLimit tcpLogCacheSize timeLimit clock rows).Consistent rows) :
    ∀ loaded ∈ loadedRows rows remotePeerid, loaded.log.timestamp < timeLimit := by
  intro loaded hloaded
  by_contra hvalid
  obtain ⟨queues, -, hdrain⟩ := drain_load
    (create remotePeerid pendingLimit tcpLogCacheSize timeLimit clock rows) rfl create_queued
  obtain ⟨last, hlast, -, hagrees⟩ := h
  unfold TcpLogRun.loaded at hdrain
  rw [onLoad_empty rfl] at hdrain
  obtain rfl := some.inj (hdrain.symm.trans hlast)
  -- the row is still there, and the memory is empty
  refine storedLogs_ne_nil ?_ (hagrees.entries loaded.pair).symm
  show loaded ∈ loadedRows (if _ then _ else _) remotePeerid
  split
  case isTrue => exact mem_loadedRows_clean.mpr ⟨hloaded, hvalid⟩
  case isFalse => exact hloaded

theorem peerRows_eq_nil (h : loadedRows rows remotePeerid = []) : peerRows rows remotePeerid = [] := by
  rw [loadedRows_eq, filterMap_eq_nil_iff] at h
  rw [eq_nil_iff_forall_not_mem]
  intro row hrow
  have hsome := (Bool.and_eq_true_iff.mp (mem_filter.mp hrow).2).2
  rw [h row hrow] at hsome
  cases hsome

theorem create_storage (h : ∀ loaded ∈ loadedRows rows remotePeerid, loaded.log.timestamp < timeLimit) :
    ∃ next, (create remotePeerid pendingLimit tcpLogCacheSize timeLimit clock rows).storageStep =
      some next ∧ next.pendingSteps = 1 ∧ Settled rows next := by
  have hnil := loadTcpTunnelLogs_eq_nil.mpr h
  refine ⟨_, rfl, rfl, ⟨rfl, rfl, ?_, forall_mem_nil _, forall_mem_nil _⟩,
    ⟨[], Bdt_TunnelHistory.kept_start tcpLogCacheSize, peerRows_eq_nil (loadedRows_kept hnil),
      fun _ => rfl, .nil, forall_mem_nil _, .nil, forall_mem_nil _, forall_mem_nil _, fun _ _ => rfl⟩, ?_⟩
  · intro selected hselected
    cases hselected
    exact hnil
  rw [eq_nil_iff_forall_not_mem]
  intro loaded hloaded
  obtain ⟨hmem, hvalid⟩ := mem_loadedRows_clean.mp hloaded
  exact hvalid (h loaded hmem)

theorem loadedRows_bind (write : TcpLogUpdate) :
    loadedRows (rows ++ [bindTcpLog remotePeerid write]) remotePeerid = loadedRows rows remotePeerid ++ [{
      localEndpoint := .ofMemory write.localEndpoint.column
      remoteEndpoint := .ofMemory write.remoteEndpoint.column
      log := { type := write.type, times := write.times, timestamp := write.timestamp } }] := by
  rw [loadedRows_eq, loadedRows_eq, peerRows_append, peerRows_bind, filterMap_append]
  congr 1
  rw [filterMap_cons_some (fill_bind remotePeerid write)]
  rfl

theorem first_addTcpLog {added : Bdt_TunnelHistory × TcpLogUpdate}
    (h : Bdt_TunnelHistory.addTcpLog { tcpLogCacheSize } call = some added) :
    added.1.Kept ∧ added.1.logs call.pair = [call.log] ∧ added.2.isNew = true ∧
      added.2.localEndpoint = call.localEndpoint ∧ added.2.timestamp = call.now := by
  have hkept := Bdt_TunnelHistory.kept_start tcpLogCacheSize
  have hlatest : ¬ LatestType (Bdt_TunnelHistory.logs { tcpLogCacheSize } call.pair) call.type := nofun
  obtain ⟨oldTimeStamp, hadd⟩ := Bdt_TunnelHistory.addTcpLog_pushed hkept hlatest
  rw [hadd] at h
  obtain ⟨history, hpush, rfl⟩ := map_eq_some_iff.mp h
  by_cases hfree : Bdt_TunnelHistory.logCount { tcpLogCacheSize } < tcpLogCacheSize.toNat
  case neg =>
    rw [Bdt_TunnelHistory.pushLog_full hfree] at hpush
    cases hpush
  case pos =>
  have hnone : ∀ node ∈ Bdt_TunnelHistory.tcpLogMap { tcpLogCacheSize },
      node.host ≠ call.localEndpoint.host := fun _ hmem => absurd hmem not_mem_nil
  rw [Bdt_TunnelHistory.pushLog_new hnone hfree] at hpush
  cases hpush
  refine ⟨Bdt_TunnelHistory.kept_new hkept hnone hfree, ?_, rfl, rfl, rfl⟩
  show Bdt_TunnelHistory.logs _ call.pair = _
  rw [Bdt_TunnelHistory.logs_new hnone, Function.update_self]
  rfl

/-- The run when the row that waits is inserted, and the load waits alone. -/
def inserted (run : TcpLogRun) (write : TcpLogUpdate) : TcpLogRun :=
  { run with
    rows := run.rows ++ [bindTcpLog run.remotePeerid write]
    queues := { updateIOQueue := [⟨.loadTunnelHistoryTcpLog, .load⟩], ioCount := run.queues.ioCount - 1 } }

/-- A row that waits with the load is inserted before it. -/
theorem drain_inserted {count : UInt32} (hloading : run.loading = none)
    (hqueues : run.queues = {
      addIOQueue := [⟨.addTunnelHistoryTcpLog, .update write⟩]
      updateIOQueue := [⟨.loadTunnelHistoryTcpLog, .load⟩]
      ioCount := count })
    (hnew : write.isNew = true) : run.drain = (run.inserted write).drain := by
  have hinsert : updateTcpLogIOProcessor run.rows run.remotePeerid write =
      run.rows ++ [bindTcpLog run.remotePeerid write] := if_pos hnew
  refine drain_step ?_ ?_
  · unfold TcpLogRun.storageStep inserted
    rw [hloading, hqueues, ← hinsert]
    rfl
  · unfold pendingSteps inserted
    rw [hqueues, hloading]
    rfl

/-- The load then finds its local endpoint in the memory, or the row is deleted. -/
theorem not_consistent_inserted (hloading : run.loading = none)
    (hexpired : ∀ loaded ∈ loadedRows run.rows run.remotePeerid, loaded.log.timestamp < run.timeLimit)
    (hkept : run.history.Kept) {pair : HostPair} (hpair : write.localEndpoint.host = pair.1)
    (hlogs : run.history.logs pair ≠ []) : ¬ (run.inserted write).Consistent before := by
  intro hconsistent
  by_cases htime : write.timestamp < run.timeLimit
  case pos =>
    have hnil : (loadTcpTunnelLogs (run.rows ++ [bindTcpLog run.remotePeerid write]) run.remotePeerid
        run.timeLimit).1 = [] := by
      refine loadTcpTunnelLogs_eq_nil.mpr fun loaded hloaded => ?_
      rw [loadedRows_bind] at hloaded
      rcases mem_concat.mp hloaded with hloaded | hloaded
      · exact hexpired loaded hloaded
      · rw [hloaded]
        exact htime
    have hafter : (run.inserted write).loading = none := hloading
    exact hlogs (logs_of_load hafter rfl hnil hconsistent pair)
  case neg =>
  have hone : (loadedRows (run.rows ++ [bindTcpLog run.remotePeerid write]) run.remotePeerid).filter
      (fun loaded => ¬ loaded.log.timestamp < run.timeLimit) = [{
        localEndpoint := .ofMemory write.localEndpoint.column
        remoteEndpoint := .ofMemory write.remoteEndpoint.column
        log := { type := write.type, times := write.times, timestamp := write.timestamp } }] := by
    rw [loadedRows_bind, filter_append, filter_eq_nil_iff.mpr, nil_append]
    · exact filter_cons_of_pos (decide_eq_true htime)
    · intro loaded hloaded hvalid
      exact of_decide_eq_true hvalid (hexpired loaded hloaded)
  obtain ⟨node, hnode, -, -, hlocal, -⟩ := Bdt_TunnelHistory.exists_of_logs hkept hlogs
  have hhost : node.host = (BdtEndpoint.ofMemory write.localEndpoint.column).host :=
    hlocal.trans (hpair.symm.trans (host_ofMemory write.localEndpoint).symm)
  have hremotes : run.history.HasRemotes := fun node hmem => (hkept.filled node hmem).1
  have hknown : ∀ logForRemoteVector, run.history.onLoad 0
      [⟨.ofMemory write.localEndpoint.column, logForRemoteVector⟩] = none := by
    intro logForRemoteVector
    show (run.history.onLoadOneLog _).bind _ = none
    rw [Bdt_TunnelHistory.onLoadOneLog_known hremotes
      (Bdt_TunnelHistory.find_of_host hkept hnode hhost)]
    rfl
  obtain ⟨queues, -, hdrain⟩ := drain_load (run.inserted write) hloading rfl
  obtain ⟨last, hlast, -⟩ := hconsistent
  have hload : (loadTcpTunnelLogs (run.inserted write).rows (run.inserted write).remotePeerid
      (run.inserted write).timeLimit).1 = _ := loadTcpTunnelLogs_one hone
  rw [hdrain, hload] at hlast
  have hnone := (hknown _).symm.trans (map_eq_some_iff.mp hlast).choose_spec.1
  cases hnone

variable (h : ∀ loaded ∈ loadedRows rows remotePeerid, loaded.log.timestamp < timeLimit)
include h

theorem create_call
    (hstep : (create remotePeerid pendingLimit tcpLogCacheSize timeLimit clock rows).addTcpLog call =
      some next) : ¬ next.Consistent rows := by
  obtain ⟨added, hadd, hnext⟩ := map_eq_some_iff.mp hstep
  obtain ⟨hkept, hlogs, hnew, hlocal, -⟩ := first_addTcpLog hadd
  have hne : added.1.logs call.pair ≠ [] := hlogs ▸ cons_ne_nil _ _
  have hloading : next.loading = none := hnext ▸ rfl
  have hqueues : next.queues =
      (create remotePeerid pendingLimit tcpLogCacheSize timeLimit clock rows).request (.update added.2) :=
    hnext ▸ rfl
  have hlogs : next.history.logs call.pair ≠ [] := hnext ▸ hne
  have hexpired : ∀ loaded ∈ loadedRows next.rows next.remotePeerid,
      loaded.log.timestamp < next.timeLimit := hnext ▸ h
  intro hconsistent
  by_cases hrefused : pendingLimit < (1 : UInt32)
  case pos =>
    have hqueued : next.queues.queued = [⟨.loadTunnelHistoryTcpLog, .load⟩] := by
      have hsame : (create remotePeerid pendingLimit tcpLogCacheSize timeLimit clock rows).request
          (.update added.2) = _ := if_pos hrefused
      rw [hqueues, hsame]
      rfl
    exact hlogs (logs_of_load hloading hqueued (loadTcpTunnelLogs_eq_nil.mpr hexpired) hconsistent
      call.pair)
  case neg =>
  rw [request_new hrefused hnew, create_queues] at hqueues
  unfold Consistent at hconsistent
  rw [drain_inserted hloading hqueues hnew] at hconsistent
  refine not_consistent_inserted hloading hexpired (hnext ▸ hkept) ?_ hlogs hconsistent
  rw [hlocal]
  rfl

/-! ## Runs -/

/-- The load waits, or the run is settled. -/
def Sound (start run : TcpLogRun) : Prop :=
  run = start ∨ Settled start.rows run

/-- A step leaves the memory and the storage consistent if and only if it meets the condition. -/
theorem meets_iff (events : List TcpLogRunEvent) :
    StepsMeet step (fun run event => ∃ next, run.step event = some next ∧ next.Consistent rows)
        (create remotePeerid pendingLimit tcpLogCacheSize timeLimit clock rows) events ↔
      StepsMeet step Meets (create remotePeerid pendingLimit tcpLogCacheSize timeLimit clock rows)
        events := by
  have hlater : ∀ (run : TcpLogRun) (localEndpoint remoteEndpoint : BdtEndpoint) (type : TcpLogType)
      (waited : Nat), run.clock < (run.call localEndpoint remoteEndpoint type waited).now := by
    intro run localEndpoint remoteEndpoint type waited
    show run.clock < run.clock + waited + 1
    omega
  have hstart : Sound (create remotePeerid pendingLimit tcpLogCacheSize timeLimit clock rows)
    (create remotePeerid pendingLimit tcpLogCacheSize timeLimit clock rows) := .inl rfl
  refine stepsMeet_congr hstart ?_ ?_
  · intro run event next hinv hmeets hstep
    rcases hinv with rfl | hsettled
    · cases event with
      | add => exact absurd rfl (hmeets.1 _ mem_cons_self)
      | storage =>
        obtain ⟨_, hstorage, -, hsettled⟩ := create_storage h
        obtain rfl := some.inj (hstep.symm.trans hstorage)
        exact .inr hsettled
    cases event with
    | add =>
      obtain ⟨_, hcall, hsettled⟩ := hsettled.addTcpLog (hlater ..) hmeets.2
      obtain rfl := some.inj (hstep.symm.trans hcall)
      exact .inr hsettled
    | storage =>
      obtain ⟨_, hstorage, hsettled⟩ := hsettled.storageStep
      obtain rfl := some.inj (hstep.symm.trans hstorage)
      exact .inr hsettled
  intro run event hinv
  rcases hinv with rfl | hsettled
  · cases event with
    | add localEndpoint remoteEndpoint type waited =>
      constructor
      · intro ⟨next, hstep, hconsistent⟩
        exact absurd hconsistent (create_call h hstep)
      · exact fun hmeets => absurd rfl (hmeets.1 _ mem_cons_self)
    | storage =>
      obtain ⟨next, hstorage, -, hsettled⟩ := create_storage h
      exact iff_of_true ⟨next, hstorage, hsettled.consistent⟩ trivial
  cases event with
  | add localEndpoint remoteEndpoint type waited =>
    constructor
    · intro ⟨next, hstep, hconsistent⟩
      refine ⟨fun n hn => ?_, hsettled.stores (hlater ..) hstep hconsistent⟩
      obtain ⟨write, hcontent⟩ := hsettled.loaded.content hn
      rw [hcontent]
      exact nofun
    · intro hmeets
      obtain ⟨next, hstep, hnext⟩ := hsettled.addTcpLog (hlater ..) hmeets.2
      exact ⟨next, hstep, hnext.consistent⟩
  | storage =>
    obtain ⟨next, hstorage, hnext⟩ := hsettled.storageStep
    exact iff_of_true ⟨next, hstorage, hnext.consistent⟩ trivial

end

/-- The memory and the storage agree, behind every part of a run and once all that waits is executed, if
and only if the storage has no valid row of the peer at first and every call meets the condition. -/
theorem tcpLog_consistent_iff (remotePeerid : Peerid) (pendingLimit : UInt32) (tcpLogCacheSize : UInt16)
    (timeLimit clock : Int) (rows : List TcpLogRow) (events : List TcpLogRunEvent) :
    Succeeds step (Consistent rows)
        (create remotePeerid pendingLimit tcpLogCacheSize timeLimit clock rows) events ↔
      (∀ loaded ∈ loadedRows rows remotePeerid, loaded.log.timestamp < timeLimit) ∧
        StepsMeet step Meets (create remotePeerid pendingLimit tcpLogCacheSize timeLimit clock rows)
          events := by
  rw [succeeds_iff]
  constructor
  · intro ⟨hstart, hsteps⟩
    have hexpired := create_consistent hstart
    exact ⟨hexpired, (meets_iff hexpired events).mp hsteps⟩
  intro ⟨hexpired, hmeets⟩
  refine ⟨?_, (meets_iff hexpired events).mpr hmeets⟩
  obtain ⟨next, hstorage, hsteps, hsettled⟩ := create_storage hexpired
  have hdrain : (create remotePeerid pendingLimit tcpLogCacheSize timeLimit clock rows).drain =
      next.drain := drain_step hstorage (by rw [hsteps]; rfl)
  unfold Consistent
  rw [hdrain]
  exact hsettled.consistent

/-- A stored entry is lost when it is loaded, and a call that is made before the load is executed makes
the load read in front of a vector. -/
theorem tcpLog_load_loses :
    (∃ run, exec step (create (.zero _) 100 100 0 10 [Entry.row (.zero _)
        ⟨Bdt_TunnelHistory.twoRemotes 2, 3⟩]) [.storage, .storage] = some run ∧ run.Idle ∧
      run.history.logs (Bdt_TunnelHistory.twoRemotes 2).pair = [] ∧
      storedLogs run.rows run.remotePeerid (Bdt_TunnelHistory.twoRemotes 2).pair =
        [{ type := .connectActive, times := 3, timestamp := 2 }]) ∧
    exec step (create (.zero _) 100 100 0 10 [])
      [.add (Bdt_TunnelHistory.twoRemotes 2).localEndpoint (Bdt_TunnelHistory.twoRemotes 2).remoteEndpoint
        .connectActive 0, .storage, .storage, .storage] = none := by
  refine ⟨?_, by decide +kernel⟩
  refine exists_of_test (fun run => run.loading = none ∧ run.queues.queued = [] ∧
    run.history.logs (Bdt_TunnelHistory.twoRemotes 2).pair = [] ∧
    storedLogs run.rows run.remotePeerid (Bdt_TunnelHistory.twoRemotes 2).pair =
      [{ type := .connectActive, times := 3, timestamp := 2 }]) (by decide +kernel) ?_
  rintro run - ⟨hloading, hqueued, hlogs⟩
  exact ⟨⟨hloading, hqueued⟩, hlogs⟩

end TcpLogRun

end Bdt
