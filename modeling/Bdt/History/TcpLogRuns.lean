import Bdt.History.TcpLogTable

/-!
# Runs of a tunnel's history and its storage

A tunnel's history asks the storage for its log when it is created, and its calls add to the log in the
memory at once and have the storage execute an insert or an update later. The load waits with the
updates, so that an insert that is requested behind it is executed before it. The thread of the storage
selects the rows in one step and calls back in the next one, and calls may come between.

`drain` executes all that waits. `drain_loaded` says what comes of it once the load has found nothing:
the memory is as it was, and the rows are `finalRows`.
-/

namespace Bdt

open Base List

inductive TcpLogRequest where
  | load
  | update (update : TcpLogUpdate)
  deriving DecidableEq

namespace TcpLogRequest

def type : TcpLogRequest → SqliteIOType
  | .load => .loadTunnelHistoryTcpLog
  | .update write => if write.isNew then .addTunnelHistoryTcpLog else .updateTunnelHistoryTcpLog

/-- The steps that the storage takes for a node. -/
def steps : TcpLogRequest → Nat
  | .load => 2
  | .update _ => 1

def write : TcpLogRequest → Option TcpLogUpdate
  | .load => none
  | .update write => some write

end TcpLogRequest

/-- A tunnel's history, and the storage that is loaded. -/
structure TcpLogRun where
  remotePeerid : Peerid
  pendingLimit : UInt32
  /-- The time at which the load is executed, less its `invalidTime`. -/
  timeLimit : Int
  /-- The time of the last call. -/
  clock : Int
  history : Bdt_TunnelHistory
  rows : List TcpLogRow
  queues : SqliteIOQueues TcpLogRequest := {}
  /-- What the load has selected and not yet called back with. -/
  loading : Option (List LogForLocalEndpoint × Nat) := none
  /-- The calls that were made. -/
  calls : List TcpLogCall := []

/-- A call comes at a later time than the one before it. -/
inductive TcpLogRunEvent where
  | add (localEndpoint remoteEndpoint : BdtEndpoint) (type : TcpLogType) (waited : Nat)
  | storage

namespace TcpLogRun

/-- The request functions, which refuse a request when the storage is busy. -/
def request (run : TcpLogRun) (r : TcpLogRequest) : SqliteIOQueues TcpLogRequest :=
  if run.pendingLimit < run.queues.ioCount then run.queues
  else (sqlitePushIONode run.queues ⟨r.type, r⟩).1

def call (run : TcpLogRun) (localEndpoint remoteEndpoint : BdtEndpoint) (type : TcpLogType)
    (waited : Nat) : TcpLogCall where
  localEndpoint
  remoteEndpoint
  type
  now := run.clock + waited + 1

/-- `Bdt_TunnelHistoryAddTcpLog`. -/
def addTcpLog (run : TcpLogRun) (call : TcpLogCall) : Option TcpLogRun :=
  (run.history.addTcpLog call).map fun (history, update) =>
    { run with
      history
      clock := call.now
      queues := run.request (.update update)
      calls := run.calls ++ [call] }

/-- The processor of a node that was popped. -/
def process (run : TcpLogRun) : TcpLogRequest → TcpLogRun
  | .load => { run with loading := some (loadTcpTunnelLogs run.rows run.remotePeerid run.timeLimit) }
  | .update update => { run with rows := updateTcpLogIOProcessor run.rows run.remotePeerid update }

/-- The load calls back, and then deletes what has expired. -/
def loaded (run : TcpLogRun) (log4Local : List LogForLocalEndpoint) (expireCount : Nat) :
    Option TcpLogRun :=
  (run.history.onLoad 0 log4Local).map fun history =>
    { run with
      history
      loading := none
      rows := if 0 < expireCount then cleanExpireTcpTunnelLog run.rows run.timeLimit else run.rows }

/-- The next step of the thread of the storage. -/
def storageStep (run : TcpLogRun) : Option TcpLogRun :=
  match run.loading with
  | some (log4Local, expireCount) => run.loaded log4Local expireCount
  | none =>
    match sqlitePopIONode run.queues with
    | some (n, queues) => some ({ run with queues }.process n.content)
    | none => some run

def step (run : TcpLogRun) : TcpLogRunEvent → Option TcpLogRun
  | .add localEndpoint remoteEndpoint type waited =>
    run.addTcpLog (run.call localEndpoint remoteEndpoint type waited)
  | .storage => run.storageStep

/-- `Bdt_TunnelHistoryCreate` requests the load. -/
def create (remotePeerid : Peerid) (pendingLimit : UInt32) (tcpLogCacheSize : UInt16)
    (timeLimit clock : Int) (rows : List TcpLogRow) : TcpLogRun where
  remotePeerid
  pendingLimit
  timeLimit
  clock
  history := { tcpLogCacheSize }
  rows
  queues := (sqlitePushIONode {} ⟨TcpLogRequest.load.type, .load⟩).1

/-! ## What waits -/

def pendingSteps (run : TcpLogRun) : Nat :=
  run.loading.toList.length + (run.queues.queued.map (·.content.steps)).sum

/-- All that waits is executed. -/
def drain (run : TcpLogRun) : Option TcpLogRun :=
  exec step run (List.replicate run.pendingSteps .storage)

/-- Nothing waits. -/
def Idle (run : TcpLogRun) : Prop :=
  run.loading = none ∧ run.queues.queued = []

/-- The rows when the load, if it has selected, has called back. -/
def keptRows (run : TcpLogRun) : List TcpLogRow :=
  match run.loading with
  | some (_, expireCount) =>
    if 0 < expireCount then cleanExpireTcpTunnelLog run.rows run.timeLimit else run.rows
  | none => run.rows

/-- The rows when all updates that wait are executed. -/
def finalRows (run : TcpLogRun) : List TcpLogRow :=
  (run.queues.queued.filterMap (·.content.write)).foldl
    (updateTcpLogIOProcessor · run.remotePeerid ·) run.keptRows

/-- The load has selected, and has found nothing. -/
structure Loaded (run : TcpLogRun) : Prop where
  close : run.queues.closeIONode = none
  load : run.queues.loadIONode = none
  loading : ∀ selected ∈ run.loading, selected.1 = []
  add : ∀ n ∈ run.queues.addIOQueue, ∃ write, n.content = .update write
  update : ∀ n ∈ run.queues.updateIOQueue, ∃ write, n.content = .update write ∧ write.isNew = false

variable {run next : TcpLogRun}

theorem Loaded.queued (h : run.Loaded) :
    run.queues.queued = run.queues.addIOQueue ++ run.queues.updateIOQueue := by
  unfold SqliteIOQueues.queued
  rw [h.close, h.load]
  rfl

variable {n : SqliteIOQueueNode TcpLogRequest}

theorem Loaded.content (h : run.Loaded)
    (hn : n ∈ run.queues.queued) : ∃ write, n.content = .update write := by
  rw [h.queued] at hn
  rcases mem_append.mp hn with hn | hn
  · exact h.add n hn
  · obtain ⟨write, hcontent, -⟩ := h.update n hn
    exact ⟨write, hcontent⟩

theorem Loaded.pop (h : run.Loaded)
    {queues : SqliteIOQueues TcpLogRequest} (hpop : sqlitePopIONode run.queues = some (n, queues)) :
    Loaded { run with queues } ∧ ∀ m ∈ queues.updateIOQueue, m ∈ run.queues.updateIOQueue := by
  simp only [sqlitePopIONode, h.close, h.load] at hpop
  split at hpop
  case h_1 first rest hadd =>
    obtain ⟨rfl, rfl⟩ := Prod.mk.inj (Option.some.inj hpop)
    refine ⟨⟨rfl, rfl, h.loading, fun m hm => h.add m ?_, h.update⟩, fun m hm => hm⟩
    rw [hadd]
    exact mem_cons_of_mem _ hm
  case h_2 hadd =>
  split at hpop
  case h_1 first rest hupdate =>
    obtain ⟨rfl, rfl⟩ := Prod.mk.inj (Option.some.inj hpop)
    have hmem : ∀ m ∈ rest, m ∈ run.queues.updateIOQueue := by
      intro m hm
      rw [hupdate]
      exact mem_cons_of_mem _ hm
    exact ⟨⟨rfl, rfl, h.loading, h.add, fun m hm => h.update m (hmem m hm)⟩, hmem⟩
  case h_2 => cases hpop

/-! ## The storage executes what waits -/

theorem drain_step (hstep : run.storageStep = some next)
    (hsteps : run.pendingSteps = next.pendingSteps + 1) : run.drain = next.drain := by
  unfold drain
  rw [hsteps]
  show (run.storageStep).bind _ = _
  rw [hstep]
  rfl

/-- What a step of the storage may do to a loaded run. -/
structure Works (run next : TcpLogRun) : Prop where
  loaded : next.Loaded
  steps : run.pendingSteps ≠ 0 → run.pendingSteps = next.pendingSteps + 1
  finalRows : next.finalRows = run.finalRows
  updates : ∀ n ∈ next.queues.updateIOQueue, n ∈ run.queues.updateIOQueue

/-- A step of the storage changes neither the memory nor the rows that there will be. -/
theorem Loaded.storageStep (h : run.Loaded) : ∃ rows queues loading,
    run.storageStep = some { run with rows, queues, loading } ∧
      Works run { run with rows, queues, loading } := by
  cases hloading : run.loading with
  | some selected =>
    have hnil := h.loading selected hloading
    refine ⟨run.keptRows, run.queues, none, ?_, ⟨h.close, h.load, nofun, h.add, h.update⟩,
      fun _ => ?_, rfl, fun n hn => hn⟩
    · unfold TcpLogRun.storageStep keptRows
      rw [hloading]
      show run.loaded selected.1 selected.2 = _
      rw [hnil]
      rfl
    · unfold pendingSteps
      rw [hloading]
      exact (Nat.add_comm 1 _).trans (congrArg (· + 1) (Nat.zero_add _).symm)
  | none =>
    cases hpop : sqlitePopIONode run.queues with
    | none =>
      refine ⟨run.rows, run.queues, run.loading, ?_, h, fun hsteps => absurd ?_ hsteps, rfl,
        fun n hn => hn⟩
      · unfold TcpLogRun.storageStep
        rw [hloading]
        simp only [hpop]
        rw [← hloading]
      · unfold pendingSteps
        rw [hloading, pop_none hpop]
        rfl
    | some popped =>
      have hpopped : Popped run.queues popped.1 popped.2 := pop_some hpop
      obtain ⟨write, hcontent⟩ := h.content (hpopped.queued ▸ mem_cons_self)
      obtain ⟨hloaded, hupdates⟩ := h.pop hpop
      refine ⟨updateTcpLogIOProcessor run.rows run.remotePeerid write, popped.2, none, ?_,
        ⟨hloaded.close, hloaded.load, nofun, hloaded.add, hloaded.update⟩, fun _ => ?_, ?_,
        hupdates⟩
      · unfold TcpLogRun.storageStep
        rw [hloading]
        simp only [hpop, hcontent]
        unfold process
        rw [← hloading]
      · unfold pendingSteps
        rw [hloading, hpopped.queued, map_cons, sum_cons, hcontent]
        exact congrArg (0 + ·) (Nat.add_comm 1 _)
      · unfold TcpLogRun.finalRows keptRows
        rw [hloading, hpopped.queued, filterMap_cons_some (by rw [hcontent]; rfl)]
        rfl

theorem drain_loaded (h : run.Loaded) : ∃ queues : SqliteIOQueues TcpLogRequest,
    run.drain = some { run with rows := run.finalRows, queues, loading := none } ∧
      queues.queued = [] := by
  induction hsteps : run.pendingSteps generalizing run with
  | zero =>
    obtain ⟨hloading, hqueued⟩ := Nat.add_eq_zero_iff.mp hsteps
    have hnone : run.loading = none := by
      cases hloaded : run.loading with
      | none => rfl
      | some =>
        rw [hloaded] at hloading
        cases hloading
    have hnil : run.queues.queued = [] := by
      cases hqueue : run.queues.queued with
      | nil => rfl
      | cons =>
        obtain ⟨write, hcontent⟩ := h.content (hqueue ▸ mem_cons_self)
        rw [hqueue, map_cons, sum_cons, hcontent] at hqueued
        exact absurd (Nat.add_eq_zero_iff.mp hqueued).1 Nat.one_ne_zero
    refine ⟨run.queues, ?_, hnil⟩
    unfold drain finalRows keptRows
    rw [hsteps, hnil, hnone]
    show some run = some { run with loading := none }
    rw [← hnone]
  | succ count ih =>
    obtain ⟨rows, queues, loading, hstep, hworks⟩ := h.storageStep
    have hcount := hworks.steps (by rw [hsteps]; exact Nat.succ_ne_zero count)
    obtain ⟨last, hdrain, hqueued⟩ := ih hworks.loaded (by omega)
    refine ⟨last, ?_, hqueued⟩
    rw [drain_step hstep hcount, hdrain, hworks.finalRows]

theorem drain_load (run : TcpLogRun) {type : SqliteIOType} (hloading : run.loading = none)
    (hqueued : run.queues.queued = [⟨type, .load⟩]) :
    ∃ queues : SqliteIOQueues TcpLogRequest, queues.queued = [] ∧ run.drain = loaded { run with queues }
      (loadTcpTunnelLogs run.rows run.remotePeerid run.timeLimit).1
      (loadTcpTunnelLogs run.rows run.remotePeerid run.timeLimit).2 := by
  cases hpop : sqlitePopIONode run.queues with
  | none =>
    rw [pop_none hpop] at hqueued
    cases hqueued
  | some popped =>
    have hpopped : Popped run.queues popped.1 popped.2 := pop_some hpop
    rw [hpopped.queued] at hqueued
    obtain ⟨hnode, hrest⟩ := cons.inj hqueued
    refine ⟨popped.2, hrest, ?_⟩
    have hsteps : run.pendingSteps = 2 := by
      unfold pendingSteps
      rw [hloading, hpopped.queued, hnode, hrest]
      rfl
    have hstep : run.storageStep = some { run with
        queues := popped.2
        loading := some (loadTcpTunnelLogs run.rows run.remotePeerid run.timeLimit) } := by
      unfold TcpLogRun.storageStep
      rw [hloading]
      simp only [hpop, hnode]
      rfl
    unfold drain
    rw [hsteps]
    show (run.storageStep).bind _ = _
    rw [hstep]
    exact Option.bind_fun_some _

end TcpLogRun

end Bdt
