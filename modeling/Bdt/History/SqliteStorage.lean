import Bdt.Base.Ledger
import Bdt.Base.Transition
import Bdt.History.SqliteQueue

/-!
# The transactions of the SQLite storage

The storage thread runs `SqliteNextIOProcessor`, which pops one node and executes it. It opens a
transaction when more nodes wait, and commits it when the queue is empty, after 100 nodes or after ten
seconds. `transactionIOCount` counts the nodes of the open transaction, `transactionDepth` the nested
calls of `SqliteBeginTransaction`. A load and a close change only one of the two.

The request functions may be called by other threads at any time, also between the parts of
`SqliteNextIOProcessor`, so that a run is a list of the parts of both. Every SQL statement on an open
database succeeds, other than those that make `SqlitePrepareDataBase` fail.

`storage_sound_iff`: the storage is sound throughout a run exactly when the steps of the run are safe.
-/

namespace Bdt

open Base

/-! ## The storage -/

/-- A `SqliteStorage`. `begins` and `commits` count the calls of the transaction functions, and
the two flags say whether an assertion failed, and whether a closed database was used. -/
structure SqliteStorage where
  /-- The content of a node is its number among the accepted requests. -/
  queues : SqliteIOQueues Nat := {}
  pendingLimit : UInt32
  threadHandle : Bool := true
  database : Bool := false
  sqlStmt : SqliteIOType → Bool := fun _ => false
  transactionIOCount : Nat := 0
  transactionTime : Int := 0
  transactionDepth : Int := 0
  begins : Nat := 0
  commits : Nat := 0
  assertionFailed : Bool := false
  closedUse : Bool := false

namespace SqliteStorage

variable (s : SqliteStorage)

/-- `BLOG_CHECK`. -/
def check (holds : Bool) : SqliteStorage :=
  { s with assertionFailed := s.assertionFailed || !holds }

/-- A statement runs on the database. -/
def useDatabase : SqliteStorage :=
  { s with closedUse := s.closedUse || !s.database }

/-- One of the prepared statements runs. -/
def useStatement (t : SqliteIOType) : SqliteStorage :=
  (s.check (s.sqlStmt t)).useDatabase

end SqliteStorage

variable (s : SqliteStorage)

def sqliteBeginTransaction : SqliteStorage :=
  let s := { s with begins := s.begins + 1 }
  if 0 < s.transactionDepth then { s with transactionDepth := s.transactionDepth + 1 }
  else { s.useDatabase with transactionDepth := 1 }

def sqliteCommitTransaction : SqliteStorage :=
  let s := { s with commits := s.commits + 1, transactionDepth := s.transactionDepth - 1 }
  let s := s.check (decide (0 ≤ s.transactionDepth))
  if s.transactionDepth = 0 then s.useDatabase else s

/-! ## Load and close -/

/-- How far `SqlitePrepareDataBase` comes. A failed open may leave a handle. -/
inductive PrepareResult where
  | openFailed (handle : Bool)
  | createFailed
  | prepareFailed (t : SqliteIOType)
  | success

/-- The index of the type in `sqlStmt`. -/
def SqliteIOType.code : SqliteIOType → Nat
  | close => 1
  | load => 2
  | addPeer => 3
  | setConstInfo => 4
  | addConnect => 5
  | updateConnect => 6
  | addSuperNode => 7
  | updateSuperNode => 8
  | addKey => 9
  | updateKey => 10
  | loadPeerHistoryByPeerid => 11
  | loadHistoryConnectInfoByPeerid => 12
  | loadSnClientMapByClient => 13
  | loadTunnelHistoryTcpLog => 14
  | addTunnelHistoryTcpLog => 15
  | updateTunnelHistoryTcpLog => 16

/-- The type has a text in `_sqliteStorageSqls`. -/
def SqliteIOType.hasSql (t : SqliteIOType) : Bool := 3 ≤ t.code

/-- The database is open, with its transaction. -/
def openedDataBase (now : Int) : SqliteStorage :=
  { sqliteBeginTransaction { s with database := true } with
    transactionIOCount := 1, transactionTime := now }

/-- Open the database, begin a transaction, create the tables and prepare the statements. -/
def sqlitePrepareDataBase (result : PrepareResult) (now : Int) : SqliteStorage × Bool :=
  match result with
  | .openFailed handle => ({ s with database := handle }, false)
  | .createFailed => (openedDataBase s now, false)
  | .prepareFailed t =>
    ({ openedDataBase s now with sqlStmt := fun u => u.hasSql && decide (u.code < t.code) }, false)
  | .success => ({ openedDataBase s now with sqlStmt := SqliteIOType.hasSql }, true)

/-- The counter of the transaction is kept. -/
def sqliteCloseIOProcessor : SqliteStorage :=
  let s := if 0 < s.transactionIOCount then sqliteCommitTransaction s else s
  { s with sqlStmt := fun _ => false, database := false }

/-- Delete what has expired, in a transaction of its own. -/
def sqliteCleanExpireRecode : SqliteStorage :=
  sqliteCommitTransaction (sqliteBeginTransaction s).useDatabase

def sqliteLoadIOProcessor (result : PrepareResult) (now : Int) : SqliteStorage :=
  if s.database then s
  else
    let prepared := sqlitePrepareDataBase s result now
    if prepared.2 then
      -- `SqliteLoadAllTable`, the callback and the clean
      sqliteCleanExpireRecode prepared.1.useDatabase
    else sqliteCloseIOProcessor prepared.1

/-! ## The other requests -/

/-- What runs these statements, unless there is no database. -/
def runStatements (types : List SqliteIOType) : SqliteStorage :=
  if s.database then types.foldl SqliteStorage.useStatement s else s

/-- The peer, and its connections if it has some. -/
def sqliteAddPeerIOProcessor (connects : Bool) : SqliteStorage :=
  runStatements s (.addPeer :: if connects then [.addConnect] else [])

def sqliteSetConstInfoIOProcessor : SqliteStorage :=
  runStatements s [.setConstInfo]

def sqliteUpdateConnectIOProcessor (t : SqliteIOType) : SqliteStorage :=
  runStatements (s.check (decide (t = .addConnect ∨ t = .updateConnect))) [t]

def sqliteUpdateSuperNodeIOProcessor (t : SqliteIOType) : SqliteStorage :=
  runStatements (s.check (decide (t = .addSuperNode ∨ t = .updateSuperNode))) [t]

def sqliteUpdateAesKeyIOProcessor (t : SqliteIOType) : SqliteStorage :=
  runStatements (s.check (decide (t = .addKey ∨ t = .updateKey))) [t]

def sqliteUpdateTunnelHistoryTcpLogIOProcessor (t : SqliteIOType) : SqliteStorage :=
  runStatements
    (s.check (decide (t = .addTunnelHistoryTcpLog ∨ t = .updateTunnelHistoryTcpLog))) [t]

/-- The connections and the super nodes are only looked up for a peer that is found. -/
def sqliteLoadPeerHistoryByPeeridIOProcessor (found : Bool) : SqliteStorage :=
  runStatements s (.loadPeerHistoryByPeerid ::
    if found then [.loadHistoryConnectInfoByPeerid, .loadSnClientMapByClient] else [])

/-- The statement runs without a look at the database. -/
def sqliteLoadTunnelHistoryTcpLogIOProcessor : SqliteStorage :=
  s.useStatement .loadTunnelHistoryTcpLog

/-! ## `SqliteNextIOProcessor` -/

/-- What the processor of a node finds: the result of the open, whether there are rows that more
statements run for, and the time. -/
structure ProcessorInput where
  prepare : PrepareResult
  rows : Bool
  now : Int

/-- The transaction that a node is executed in. -/
def openBatch (now : Int) : SqliteStorage :=
  if 1 < s.queues.ioCount ∧ s.transactionIOCount = 0 ∧ s.database = true then
    { sqliteBeginTransaction s with transactionIOCount := 1, transactionTime := now }
  else if 0 < s.transactionIOCount then
    { s with transactionIOCount := s.transactionIOCount + 1 }
  else s

/-- The processor for the type of the node. -/
def processIONode (t : SqliteIOType) (i : ProcessorInput) : SqliteStorage :=
  match t with
  | .addPeer => sqliteAddPeerIOProcessor s i.rows
  | .setConstInfo => sqliteSetConstInfoIOProcessor s
  | .updateConnect | .addConnect => sqliteUpdateConnectIOProcessor s t
  | .updateSuperNode | .addSuperNode => sqliteUpdateSuperNodeIOProcessor s t
  | .updateKey | .addKey => sqliteUpdateAesKeyIOProcessor s t
  | .addTunnelHistoryTcpLog | .updateTunnelHistoryTcpLog =>
    sqliteUpdateTunnelHistoryTcpLogIOProcessor s t
  | .loadTunnelHistoryTcpLog => sqliteLoadTunnelHistoryTcpLogIOProcessor s
  | .loadPeerHistoryByPeerid => sqliteLoadPeerHistoryByPeeridIOProcessor s i.rows
  | .load => sqliteLoadIOProcessor s i.prepare i.now
  | .close => sqliteCloseIOProcessor s
  | .loadHistoryConnectInfoByPeerid | .loadSnClientMapByClient => s.check false

/-- The transaction ends now: the queue is empty, it has 100 nodes or it is ten seconds old. -/
def BatchDue (now : Int) : Prop :=
  0 < s.transactionIOCount ∧
    (s.queues.ioCount = 0 ∨ 100 ≤ s.transactionIOCount ∨ 10000000 ≤ now - s.transactionTime)

instance (s : SqliteStorage) (now : Int) : Decidable (BatchDue s now) :=
  inferInstanceAs (Decidable (_ ∧ _))

def commitBatch (now : Int) : SqliteStorage :=
  if BatchDue s now then
    { sqliteCommitTransaction s with transactionIOCount := 0, transactionTime := 0 }
  else s

/-! ## Requests -/

/-- A call of a function of `BdtStorage`, with the arguments that it looks at. -/
inductive StorageRequest where
  | loadAll
  | loadPeerHistoryByPeerid
  | loadTunnelHistoryTcpLog
  | addPeerHistory
  | setPeerConstInfo (hasConst : Bool)
  | updateConnectHistory (isNew : Bool)
  | updateSuperNodeHistory (responseTime : Int) (isNew : Bool)
  | updateAesKey (isNew : Bool)
  | updateTunnelHistoryTcpLog (isNew : Bool)

/-- Most requests are refused when the storage is busy. The result is the node to push. -/
def unlessBusy (t : SqliteIOType) : Option SqliteIOType :=
  if s.pendingLimit < s.queues.ioCount then none else some t

def sqliteLoadAll : Option SqliteIOType := some .load

def sqliteLoadPeerHistoryByPeerid : Option SqliteIOType := some .loadPeerHistoryByPeerid

def sqliteLoadTunnelHistoryTcpLog : Option SqliteIOType :=
  unlessBusy s .loadTunnelHistoryTcpLog

def sqliteAddPeerHistory : Option SqliteIOType := unlessBusy s .addPeer

/-- Without const info there is nothing to do. -/
def sqliteSetConstInfo (hasConst : Bool) : Option SqliteIOType :=
  if hasConst then unlessBusy s .setConstInfo else none

def sqliteUpdateConnectHistory (isNew : Bool) : Option SqliteIOType :=
  unlessBusy s (if isNew then .addConnect else .updateConnect)

/-- The time zero is an invalid parameter. -/
def sqliteUpdateSuperNodeHistory (responseTime : Int) (isNew : Bool) : Option SqliteIOType :=
  if responseTime = 0 then none
  else unlessBusy s (if isNew then .addSuperNode else .updateSuperNode)

def sqliteUpdateAesKey (isNew : Bool) : Option SqliteIOType :=
  unlessBusy s (if isNew then .addKey else .updateKey)

def sqliteUpdateTunnelHistoryTcpLog (isNew : Bool) : Option SqliteIOType :=
  unlessBusy s (if isNew then .addTunnelHistoryTcpLog else .updateTunnelHistoryTcpLog)

namespace StorageRequest

/-- The node that the request builds. -/
def node : StorageRequest → Option SqliteIOType
  | loadAll => sqliteLoadAll
  | loadPeerHistoryByPeerid => sqliteLoadPeerHistoryByPeerid
  | loadTunnelHistoryTcpLog => sqliteLoadTunnelHistoryTcpLog s
  | addPeerHistory => sqliteAddPeerHistory s
  | setPeerConstInfo hasConst => sqliteSetConstInfo s hasConst
  | updateConnectHistory isNew => sqliteUpdateConnectHistory s isNew
  | updateSuperNodeHistory responseTime isNew => sqliteUpdateSuperNodeHistory s responseTime isNew
  | updateAesKey isNew => sqliteUpdateAesKey s isNew
  | updateTunnelHistoryTcpLog isNew => sqliteUpdateTunnelHistoryTcpLog s isNew

/-- The arguments are those that the request function asserts. -/
def valid : StorageRequest → Bool
  | updateSuperNodeHistory responseTime _ => 0 < responseTime
  | _ => true

end StorageRequest

/-! ## The queue is not touched -/

section Queues

variable (s : SqliteStorage) (t : SqliteIOType) (now : Int)

@[simp] theorem check_queues (holds : Bool) : (s.check holds).queues = s.queues := rfl

@[simp] theorem useDatabase_queues : s.useDatabase.queues = s.queues := rfl

@[simp] theorem useStatement_queues : (s.useStatement t).queues = s.queues := rfl

@[simp] theorem begin_queues : (sqliteBeginTransaction s).queues = s.queues := by
  simp only [sqliteBeginTransaction]
  split <;> rfl

@[simp] theorem commit_queues : (sqliteCommitTransaction s).queues = s.queues := by
  simp only [sqliteCommitTransaction]
  split <;> rfl

@[simp] theorem close_queues : (sqliteCloseIOProcessor s).queues = s.queues := by
  simp only [sqliteCloseIOProcessor]
  split <;> simp

@[simp] theorem prepare_queues (prepare : PrepareResult) :
    (sqlitePrepareDataBase s prepare now).1.queues = s.queues := by
  cases prepare <;> simp [sqlitePrepareDataBase, openedDataBase]

@[simp] theorem load_queues (prepare : PrepareResult) :
    (sqliteLoadIOProcessor s prepare now).queues = s.queues := by
  simp only [sqliteLoadIOProcessor, sqliteCleanExpireRecode]
  split
  · rfl
  · split <;> simp

@[simp] theorem runStatements_queues (types : List SqliteIOType) :
    (runStatements s types).queues = s.queues := by
  unfold runStatements
  split
  case isTrue hopen =>
    induction types generalizing s with
    | nil => rfl
    | cons t _ ih => exact (ih (s.useStatement t) hopen).trans (useStatement_queues s t)
  case isFalse => rfl

@[simp] theorem openBatch_queues : (openBatch s now).queues = s.queues := by
  unfold openBatch
  split
  · exact begin_queues s
  · split <;> rfl

@[simp] theorem commitBatch_queues : (commitBatch s now).queues = s.queues := by
  unfold commitBatch
  split
  · exact commit_queues s
  · rfl

@[simp] theorem process_queues (i : ProcessorInput) : (processIONode s t i).queues = s.queues := by
  cases t <;> simp [processIONode, sqliteAddPeerIOProcessor, sqliteSetConstInfoIOProcessor,
    sqliteUpdateConnectIOProcessor, sqliteUpdateSuperNodeIOProcessor, sqliteUpdateAesKeyIOProcessor,
    sqliteUpdateTunnelHistoryTcpLogIOProcessor, sqliteLoadTunnelHistoryTcpLogIOProcessor,
    sqliteLoadPeerHistoryByPeeridIOProcessor]

end Queues

/-! ## What is promised of a healthy storage -/

/-- The transaction is open exactly when nodes are counted for it and there is a database. -/
structure Tracked (s : SqliteStorage) : Prop where
  begins : s.transactionDepth = s.begins - s.commits
  depth : s.transactionDepth = if 0 < s.transactionIOCount ∧ s.database = true then 1 else 0
  assertions : s.assertionFailed = false
  closedUse : s.closedUse = false

/-- All statements of an open database are prepared. -/
structure Healthy (s : SqliteStorage) : Prop extends Tracked s where
  statements : ∀ t, s.sqlStmt t = (s.database && t.hasSql)

variable {s : SqliteStorage} {t : SqliteIOType}

theorem check_true (s : SqliteStorage) : s.check true = s := by
  unfold SqliteStorage.check
  rw [Bool.not_true, Bool.or_false]

theorem useDatabase_opened (h : s.database = true) : s.useDatabase = s := by
  have hused : (s.closedUse || !s.database) = s.closedUse := by
    rw [h, Bool.not_true, Bool.or_false]
  unfold SqliteStorage.useDatabase
  rw [hused]

theorem useStatement_prepared (hopen : s.database = true) (hstmt : s.sqlStmt t = true) :
    s.useStatement t = s := by
  unfold SqliteStorage.useStatement
  rw [hstmt, check_true, useDatabase_opened hopen]

/-! ### The transaction functions -/

namespace Tracked

section

variable (h : Tracked s)
include h

theorem nonneg : 0 ≤ s.transactionDepth := by
  rw [h.depth]
  split
  · exact Int.one_nonneg
  · exact Int.le_refl 0

theorem withStatements (sqlStmt : SqliteIOType → Bool) : Tracked { s with sqlStmt } :=
  ⟨h.begins, h.depth, h.assertions, h.closedUse⟩

/-- A positive depth is that of an open transaction. -/
theorem opened (hdepth : 0 < s.transactionDepth) :
    s.transactionDepth = 1 ∧ s.database = true := by
  have heq := h.depth
  split at heq
  case isTrue hopen => exact ⟨heq, hopen.2⟩
  case isFalse => omega

theorem closed (hclosed : s.database = false) : s.transactionDepth = 0 := by
  rw [h.depth, hclosed, if_neg (by simp)]

theorem commit_eq (hdepth : 0 < s.transactionDepth) :
    sqliteCommitTransaction s = { s with commits := s.commits + 1, transactionDepth := 0 } := by
  obtain ⟨hone, hopen⟩ := h.opened hdepth
  have hzero : s.transactionDepth - 1 = 0 := by omega
  unfold sqliteCommitTransaction
  simp only [hzero, Int.le_refl, decide_true, check_true]
  exact useDatabase_opened (s := { s with commits := s.commits + 1, transactionDepth := 0 }) hopen

/-- A close commits a transaction that is open, and nothing else. -/
theorem close (hsafe : 0 < s.transactionIOCount → 0 < s.transactionDepth) :
    Healthy (sqliteCloseIOProcessor s) := by
  have hbegins := h.begins
  unfold sqliteCloseIOProcessor
  split
  case isTrue hcount =>
    have hdepth := (h.opened (hsafe hcount)).1
    rw [h.commit_eq (hsafe hcount)]
    refine ⟨⟨?_, ?_, h.assertions, h.closedUse⟩, fun _ => rfl⟩
    · show (0 : Int) = s.begins - ((s.commits + 1 : Nat) : Int)
      omega
    · show (0 : Int) = if 0 < s.transactionIOCount ∧ false = true then 1 else 0
      rw [if_neg (by simp)]
  case isFalse hcount =>
  refine ⟨⟨h.begins, ?_, h.assertions, h.closedUse⟩, fun _ => rfl⟩
  show s.transactionDepth = if 0 < s.transactionIOCount ∧ false = true then 1 else 0
  rw [h.depth, if_neg (by omega), if_neg (by simp)]

end

end Tracked

theorem begin_eq (hdepth : s.transactionDepth = 0) (hopen : s.database = true) :
    sqliteBeginTransaction s = { s with begins := s.begins + 1, transactionDepth := 1 } := by
  have hnot : ¬ 0 < s.transactionDepth := by omega
  have hused := useDatabase_opened (s := { s with begins := s.begins + 1 }) hopen
  unfold sqliteBeginTransaction
  rw [if_neg hnot, hused]

theorem clean_eq (hdepth : 0 < s.transactionDepth) (hopen : s.database = true) :
    sqliteCleanExpireRecode s = { s with begins := s.begins + 1, commits := s.commits + 1 } := by
  have hback : s.transactionDepth + 1 - 1 = s.transactionDepth := Int.add_sub_cancel _ 1
  have hnot : ¬ s.transactionDepth = 0 := by omega
  have hnonneg : decide (0 ≤ s.transactionDepth) = true := decide_eq_true (Int.le_of_lt hdepth)
  have hused := useDatabase_opened (s := { s with
    begins := s.begins + 1, transactionDepth := s.transactionDepth + 1 }) hopen
  unfold sqliteCleanExpireRecode sqliteBeginTransaction
  rw [if_pos hdepth, hused]
  unfold sqliteCommitTransaction
  simp only [hback, hnonneg, check_true, if_neg hnot]

namespace Healthy

theorem start (pendingLimit : UInt32) : Healthy { pendingLimit } :=
  ⟨⟨rfl, rfl, rfl, rfl⟩, fun _ => rfl⟩

variable (h : Healthy s)
include h

theorem withQueues (queues : SqliteIOQueues Nat) : Healthy { s with queues } :=
  ⟨⟨h.begins, h.depth, h.assertions, h.closedUse⟩, h.statements⟩

theorem withThread (threadHandle : Bool) : Healthy { s with threadHandle } :=
  ⟨⟨h.begins, h.depth, h.assertions, h.closedUse⟩, h.statements⟩

/-! ### One lemma for each part of `SqliteNextIOProcessor` -/

theorem openBatch (now : Int) : Healthy (Bdt.openBatch s now) := by
  unfold Bdt.openBatch
  split
  case isTrue hbatch =>
    obtain ⟨-, hzero, hopen⟩ := hbatch
    have hdepth : s.transactionDepth = 0 := by
      rw [h.depth, if_neg]
      omega
    rw [begin_eq hdepth hopen]
    have hbegins := h.begins
    refine ⟨⟨?_, ?_, h.assertions, h.closedUse⟩, h.statements⟩
    · show (1 : Int) = ((s.begins + 1 : Nat) : Int) - s.commits
      omega
    · show (1 : Int) = if 0 < 1 ∧ s.database = true then 1 else 0
      rw [if_pos ⟨Nat.one_pos, hopen⟩]
  case isFalse =>
  split
  case isTrue hpos =>
    refine ⟨⟨h.begins, ?_, h.assertions, h.closedUse⟩, h.statements⟩
    show s.transactionDepth = if 0 < s.transactionIOCount + 1 ∧ s.database = true then 1 else 0
    rw [h.depth]
    simp only [hpos, Nat.succ_pos]
  case isFalse => exact h

theorem commitBatch {now : Int} (hsafe : BatchDue s now → 0 < s.transactionDepth) :
    Healthy (Bdt.commitBatch s now) := by
  unfold Bdt.commitBatch
  split
  case isTrue hdue =>
    have hdepth := (h.opened (hsafe hdue)).1
    rw [h.commit_eq (hsafe hdue)]
    have hbegins := h.begins
    refine ⟨⟨?_, rfl, h.assertions, h.closedUse⟩, h.statements⟩
    show (0 : Int) = s.begins - ((s.commits + 1 : Nat) : Int)
    omega
  case isFalse => exact h

/-- Prepared statements that run change nothing that is promised. -/
theorem runStatements_eq {types : List SqliteIOType}
    (hsql : ∀ t ∈ types, t.hasSql = true) : runStatements s types = s := by
  unfold runStatements
  split
  case isFalse => rfl
  case isTrue hopen =>
  induction types with
  | nil => rfl
  | cons t _ ih =>
    have hstmt : s.sqlStmt t = true := by
      rw [h.statements, hopen, hsql t List.mem_cons_self]
      rfl
    rw [List.foldl_cons, useStatement_prepared hopen hstmt]
    exact ih fun u hu => hsql u (List.mem_cons_of_mem _ hu)

theorem openedDataBase_eq (hclosed : s.database = false) (now : Int) :
    openedDataBase s now =
      { s with database := true, begins := s.begins + 1, transactionDepth := 1,
               transactionIOCount := 1, transactionTime := now } := by
  unfold openedDataBase
  rw [begin_eq (s := { s with database := true }) (h.closed hclosed) rfl]

theorem tracked_opened (hclosed : s.database = false) (now : Int) :
    Tracked (openedDataBase s now) := by
  have hbegins := h.begins
  have hdepth := h.closed hclosed
  rw [h.openedDataBase_eq hclosed]
  refine ⟨?_, rfl, h.assertions, h.closedUse⟩
  show (1 : Int) = ((s.begins + 1 : Nat) : Int) - s.commits
  omega

theorem load {prepare : PrepareResult} (now : Int)
    (hsafe : ∀ handle, prepare = .openFailed handle → s.database = false →
      0 < s.transactionIOCount → 0 < s.transactionDepth) :
    Healthy (sqliteLoadIOProcessor s prepare now) := by
  unfold sqliteLoadIOProcessor
  split
  case isTrue => exact h
  case isFalse hopen =>
  have hclosed : s.database = false := Bool.eq_false_iff.mpr hopen
  cases prepare with
  | openFailed handle =>
    -- no transaction was begun, so that there must be none to commit
    have hzero : ¬ 0 < s.transactionIOCount := by
      intro hcount
      have hdepth := hsafe handle rfl hclosed hcount
      rw [h.closed hclosed] at hdepth
      exact Int.lt_irrefl 0 hdepth
    have htracked : Tracked { s with database := handle } := by
      refine ⟨h.begins, ?_, h.assertions, h.closedUse⟩
      show s.transactionDepth = if 0 < s.transactionIOCount ∧ handle = true then 1 else 0
      rw [h.closed hclosed, if_neg (fun hboth => hzero hboth.1)]
    exact htracked.close fun hcount => absurd hcount hzero
  | createFailed =>
    refine (h.tracked_opened hclosed now).close ?_
    rw [h.openedDataBase_eq hclosed]
    exact fun _ => Int.one_pos
  | prepareFailed =>
    refine ((h.tracked_opened hclosed now).withStatements _).close ?_
    rw [h.openedDataBase_eq hclosed]
    exact fun _ => Int.one_pos
  | success =>
    have htracked := (h.tracked_opened hclosed now).withStatements SqliteIOType.hasSql
    show Healthy (sqliteCleanExpireRecode (SqliteStorage.useDatabase
      { openedDataBase s now with sqlStmt := SqliteIOType.hasSql }))
    rw [h.openedDataBase_eq hclosed] at htracked ⊢
    rw [useDatabase_opened rfl, clean_eq Int.one_pos rfl]
    have hbegins := htracked.begins
    refine ⟨⟨?_, rfl, htracked.assertions, htracked.closedUse⟩, fun _ => rfl⟩
    show (1 : Int) = ((s.begins + 1 + 1 : Nat) : Int) - ((s.commits + 1 : Nat) : Int)
    simp only at hbegins
    omega

theorem process_eq (hknown : t.known = true) (hload : t ≠ .load)
    (hclose : t ≠ .close) (htcpLog : t = .loadTunnelHistoryTcpLog → s.database = true)
    (i : ProcessorInput) : processIONode s t i = s := by
  cases t with
  | load => exact absurd rfl hload
  | close => exact absurd rfl hclose
  | setConstInfo | loadHistoryConnectInfoByPeerid | loadSnClientMapByClient => cases hknown
  | addPeer =>
    refine h.runStatements_eq ?_
    cases i.rows <;> decide
  | loadPeerHistoryByPeerid =>
    refine h.runStatements_eq ?_
    cases i.rows <;> decide
  | loadTunnelHistoryTcpLog =>
    have hopen := htcpLog rfl
    refine useStatement_prepared hopen ?_
    rw [h.statements, hopen]
    rfl
  | addConnect | updateConnect | addSuperNode | updateSuperNode | addKey | updateKey
  | addTunnelHistoryTcpLog | updateTunnelHistoryTcpLog =>
    show runStatements (s.check true) _ = s
    rw [check_true]
    exact h.runStatements_eq (by decide)

end Healthy

end Bdt
