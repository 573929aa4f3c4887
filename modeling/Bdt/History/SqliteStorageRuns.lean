import Bdt.History.SqliteStorage

/-!
# Runs of the SQLite storage

A run is a list of what the callers and the storage thread do. `StorageSound` is what is promised of
every state of it, and `SafeStep` the condition on a step.

`storage_sound_iff`: the storage is sound throughout a run exactly when all steps of it are safe.
-/

namespace Bdt

open Base List

/-- Where the storage thread is in `SqliteNextIOProcessor`. -/
inductive StorageThread where
  | idle
  | popped (n : SqliteIOQueueNode Nat)
  | opened (n : SqliteIOQueueNode Nat)
  | executed
  deriving DecidableEq

structure StorageRun where
  storage : SqliteStorage
  /-- The nodes that were built and are not pushed yet. -/
  calls : List SqliteIOType := []
  thread : StorageThread := .idle
  ledger : Ledger (SqliteIOQueueNode Nat) := {}
  freed : Bool := false

inductive StorageEvent where
  /-- A caller builds a node. -/
  | request (r : StorageRequest)
  /-- A caller pushes the node that it has built. -/
  | push (i : Nat)
  /-- `SqliteDestroySelf` until it waits for the thread. -/
  | destroy
  /-- The parts of `SqliteNextIOProcessor`. -/
  | pop
  | openBatch (now : Int)
  | process (i : ProcessorInput)
  | commitBatch (now : Int)
  /-- The thread has ended, and the rest of `SqliteDestroySelf` runs. -/
  | join

namespace StorageRun

def start (pendingLimit : UInt32) : StorageRun := { storage := { pendingLimit } }

/-- Push a node. The caller deletes it when it is not accepted. -/
def push (run : StorageRun) (t : SqliteIOType) : StorageRun :=
  let n : SqliteIOQueueNode Nat := ⟨t, run.ledger.accepted.length⟩
  let pushed := sqlitePushIONode run.storage.queues n
  { run with
    storage := { run.storage with queues := pushed.1 }.check (pushed.2 != SqlitePushResult.unknownType)
    ledger := if pushed.2 = .pushed then run.ledger.accept n else run.ledger }

/-- Pop the next node, if there is one. -/
def pop (run : StorageRun) : StorageRun :=
  match sqlitePopIONode run.storage.queues with
  | some (n, queues) =>
    { run with storage := { run.storage with queues }, thread := .popped n }
  | none => run

/-- Delete what has never been executed. -/
def abort (run : StorageRun) : StorageRun :=
  let rest := sqlitePopAll run.storage.queues.queued.length run.storage.queues
  { run with
    storage := { run.storage with queues := rest.2 }
    ledger := run.ledger.drop rest.1
    freed := true }

def next (run : StorageRun) : StorageEvent → Option StorageRun
  | .request r =>
    if run.freed then none
    else some { run with
      storage := run.storage.check r.valid
      calls := run.calls ++ (r.node run.storage).toList }
  | .push i =>
    if run.freed then none
    else run.calls[i]?.map fun t => { run.push t with calls := run.calls.eraseIdx i }
  | .destroy =>
    if run.freed = true ∨ run.storage.threadHandle = false then none
    else
      let run := run.push .close
      some { run with storage := { run.storage with threadHandle := false } }
  | .pop => if run.freed = false ∧ run.thread = .idle then some run.pop else none
  | .openBatch now =>
    match run.thread with
    | .popped n => some { run with storage := Bdt.openBatch run.storage now, thread := .opened n }
    | _ => none
  | .process i =>
    match run.thread with
    | .opened n => some { run with
        storage := processIONode run.storage n.type i
        thread := .executed
        ledger := run.ledger.execute n }
    | _ => none
  | .commitBatch now =>
    match run.thread with
    | .executed => some { run with storage := Bdt.commitBatch run.storage now, thread := .idle }
    | _ => none
  | .join =>
    if run.freed = false ∧ run.storage.threadHandle = false ∧ run.thread = .idle then some run.abort
    else none

/-- The node that the storage thread has popped and not executed. -/
def inHand (run : StorageRun) : List (SqliteIOQueueNode Nat) :=
  match run.thread with
  | .popped n | .opened n => [n]
  | _ => []

/-- The accepted nodes that are still to be executed. -/
def waiting (run : StorageRun) : List (SqliteIOQueueNode Nat) :=
  run.inHand ++ run.storage.queues.queued

end StorageRun

/-- What the storage promises in every state. -/
structure StorageSound (run : StorageRun) : Prop where
  /-- Every accepted request is executed or deleted once, and waits until then. -/
  once : run.ledger.ExactlyOnce run.waiting
  /-- Nothing waits in a storage that was destroyed. -/
  served : run.freed = true → run.waiting = []
  counted : run.storage.queues.Counted
  /-- No update was executed before an earlier accepted add. -/
  ordered : run.ledger.InOrder (·.type.isAdd = true) (·.type.isUpdate = true)
  depth : run.storage.transactionDepth = run.storage.begins - run.storage.commits
  nonneg : 0 ≤ run.storage.transactionDepth
  closedUse : run.storage.closedUse = false
  assertions : run.storage.assertionFailed = false

/-- The type is known, and `ioCount` does not wrap. -/
def SafePush (run : StorageRun) (t : SqliteIOType) : Prop :=
  t.known = true ∧
    ((sqlitePushIONode run.storage.queues ⟨t, run.ledger.accepted.length⟩).2 = .pushed →
      run.storage.queues.queued.length + 1 < 2 ^ 32)

/-- What a processor commits was begun, and what it runs is prepared. -/
def SafeProcess (s : SqliteStorage) (t : SqliteIOType) (i : ProcessorInput) : Prop :=
  match t with
  | .loadTunnelHistoryTcpLog => s.database = true
  | .close => 0 < s.transactionIOCount → 0 < s.transactionDepth
  | .load =>
    match i.prepare with
    | .openFailed _ =>
      s.database = false → 0 < s.transactionIOCount → 0 < s.transactionDepth
    | _ => True
  | _ => True

/-- The condition on a step. -/
def SafeStep (run : StorageRun) : StorageEvent → Prop
  | .request r => run.freed = false → r.valid = true
  | .push i => run.freed = false → ∀ t, run.calls[i]? = some t → SafePush run t
  | .destroy => run.freed = false → run.storage.threadHandle = true → SafePush run .close
  | .process i => ∀ n, run.thread = .opened n → SafeProcess run.storage n.type i
  | .commitBatch now =>
    run.thread = .executed → BatchDue run.storage now → 0 < run.storage.transactionDepth
  | .pop | .openBatch _ | .join => True

/-! ## What a safe step preserves -/

structure StorageInv (run : StorageRun) : Prop where
  healthy : Healthy run.storage
  counted : run.storage.queues.Counted
  placed : run.storage.queues.Placed
  once : run.ledger.ExactlyOnce run.waiting
  /-- The content of a node is its number, so that a new one is fresh. -/
  numbered : ∀ n ∈ run.ledger.accepted, n.content < run.ledger.accepted.length
  ordered : run.ledger.InOrder (·.type.isAdd = true) (·.type.isUpdate = true)
  ready : ∀ n ∈ run.inHand, run.ledger.Ready (·.type.isAdd = true) (·.type.isUpdate = true) n
  known : ∀ n ∈ run.inHand, n.type.known = true
  dropped : run.freed = false → run.ledger.dropped = []
  served : run.freed = true → run.waiting = []

namespace StorageInv

variable {run run' : StorageRun} {t : SqliteIOType}

theorem start (pendingLimit : UInt32) : StorageInv (.start pendingLimit) where
  healthy := .start pendingLimit
  counted := counted_nil
  placed := placed_nil
  once := Ledger.exactlyOnce_nil
  numbered := nofun
  ordered := Ledger.inOrder_nil
  ready := nofun
  known := nofun
  dropped _ := rfl
  served := nofun

variable (h : StorageInv run)
include h

theorem sound : StorageSound run := { h with
  depth := h.healthy.begins
  nonneg := h.healthy.nonneg
  closedUse := h.healthy.closedUse
  assertions := h.healthy.assertions }

theorem fresh (t : SqliteIOType) :
    (⟨t, run.ledger.accepted.length⟩ : SqliteIOQueueNode Nat) ∉ run.ledger.accepted :=
  fun hmem => Nat.lt_irrefl _ (h.numbered _ hmem)

variable {storage : SqliteStorage} {n : SqliteIOQueueNode Nat}

/-- The transactions of the storage may change while the queue stays. -/
theorem withStorage (hhealthy : Healthy storage)
    (hqueues : storage.queues = run.storage.queues) : StorageInv { run with storage } := { h with
  healthy := hhealthy
  counted := hqueues ▸ h.counted
  placed := hqueues ▸ h.placed
  once := by
    show run.ledger.ExactlyOnce (run.inHand ++ storage.queues.queued)
    rw [hqueues]
    exact h.once
  served hfreed := by
    show run.inHand ++ storage.queues.queued = []
    rw [hqueues]
    exact h.served hfreed }

/-- The thread may go on while it keeps the node that it has popped. -/
theorem withThread {thread : StorageThread}
    (hhand : ({ run with thread } : StorageRun).inHand = run.inHand) :
    StorageInv { run with thread } := { h with
  once := by
    show run.ledger.ExactlyOnce (({ run with thread } : StorageRun).inHand ++ _)
    rw [hhand]
    exact h.once
  ready := hhand ▸ h.ready
  known := hhand ▸ h.known
  served hfreed := by
    show ({ run with thread } : StorageRun).inHand ++ _ = []
    rw [hhand]
    exact h.served hfreed }

theorem withCalls (calls : List SqliteIOType) : StorageInv { run with calls } :=
  ⟨h.healthy, h.counted, h.placed, h.once, h.numbered, h.ordered, h.ready, h.known, h.dropped,
    h.served⟩

theorem push (hfreed : run.freed = false) (hsafe : SafePush run t) : StorageInv (run.push t) := by
  obtain ⟨hknown, hroom⟩ := hsafe
  cases hpush : sqlitePushIONode run.storage.queues ⟨t, run.ledger.accepted.length⟩ with
  | mk queues result =>
    rw [hpush] at hroom
    have hresult : result ≠ .unknownType := by
      intro hunknown
      have hnot := push_unknown_iff.mp (by rw [hpush]; exact hunknown)
      exact absurd hknown (by rw [hnot]; exact Bool.false_ne_true)
    have hrun : run.push t = { run with
        storage := { run.storage with queues }
        ledger := if result = .pushed then run.ledger.accept ⟨t, run.ledger.accepted.length⟩
          else run.ledger } := by
      unfold StorageRun.push
      simp only [hpush, bne_iff_ne.mpr hresult, check_true]
    rw [hrun]
    by_cases hpushed : result = .pushed
    case neg =>
      obtain rfl := push_refused hpush hpushed
      rw [if_neg hpushed]
      exact h
    case pos =>
    subst hpushed
    have hnew := push_pushed hpush
    rw [if_pos rfl]
    have hfresh := h.fresh t
    refine ⟨h.healthy.withQueues queues, (hnew.counted_iff h.counted).mpr (hroom rfl),
      hnew.placed h.placed, ?_, ?_, ?_, ?_, h.known, h.dropped, ?_⟩
    · refine h.once.accept hfresh ?_
      exact (hnew.queued.append_left run.inHand).trans perm_middle
    · intro n hn
      show n.content < (run.ledger.accepted ++ [_]).length
      rw [length_append, length_singleton]
      rcases mem_concat.mp hn with hn | hn
      · exact Nat.lt_succ_of_lt (h.numbered n hn)
      · rw [hn]
        exact Nat.lt_succ_self _
    · exact h.ordered.accept (fun u hu => h.once.accepted_of_executed hu) hfresh
    · intro n hn
      exact (h.ready n hn).accept (h.once.accepted_of_waiting (mem_append_left _ hn)) hfresh
    · intro hdone
      exact absurd (hfreed.symm.trans hdone) Bool.false_ne_true

theorem pop (hfreed : run.freed = false) (hidle : run.thread = .idle) : StorageInv run.pop := by
  unfold StorageRun.pop
  split
  case h_2 => exact h
  case h_1 n queues hpop =>
  have hpopped := pop_some hpop
  have hhand : run.inHand = [] := by
    unfold StorageRun.inHand
    rw [hidle]
  have hwaiting : run.waiting = n :: queues.queued := by
    unfold StorageRun.waiting
    rw [hhand, hpopped.queued]
    rfl
  have hmem : n ∈ run.storage.queues.queued := by
    rw [hpopped.queued]
    exact mem_cons_self
  refine ⟨h.healthy.withQueues queues, hpopped.counted h.counted, hpopped.placed h.placed, ?_,
    h.numbered, h.ordered, ?_, ?_, h.dropped, ?_⟩
  · show run.ledger.ExactlyOnce (n :: queues.queued)
    exact hwaiting ▸ h.once
  · intro m hm hupdate a hadd hbefore
    obtain rfl := mem_singleton.mp hm
    -- an add that waits would have been popped
    refine h.once.mem_executed (h.dropped hfreed) (hbefore.subset mem_cons_self) ?_
    intro hwaits
    rw [StorageRun.waiting, hhand, nil_append] at hwaits
    have hnot := hpopped.first h.placed hupdate a hwaits
    rw [hadd] at hnot
    cases hnot
  · intro m hm
    obtain rfl := mem_singleton.mp hm
    exact h.placed.known hmem
  · intro hdone
    exact absurd (hfreed.symm.trans hdone) Bool.false_ne_true

theorem execute (hthread : run.thread = .opened n) (hhealthy : Healthy storage)
    (hqueues : storage.queues = run.storage.queues) :
    StorageInv { run with storage, thread := .executed, ledger := run.ledger.execute n } := by
  have hhand : run.inHand = [n] := by
    unfold StorageRun.inHand
    rw [hthread]
  have hn : n ∈ run.inHand := hhand ▸ mem_singleton_self n
  refine ⟨hhealthy, hqueues ▸ h.counted, hqueues ▸ h.placed, ?_, h.numbered,
    h.ordered.execute (h.ready n hn), nofun, nofun, h.dropped, ?_⟩
  · refine Ledger.ExactlyOnce.execute ?_
    show run.ledger.ExactlyOnce (n :: ([] ++ storage.queues.queued))
    have honce := h.once
    rw [StorageRun.waiting, hhand] at honce
    rw [hqueues]
    exact honce
  intro hdone
  have hnil := h.served hdone
  rw [StorageRun.waiting, hhand] at hnil
  cases hnil

theorem process (hthread : run.thread = .opened n)
    {i : ProcessorInput} (hsafe : SafeProcess run.storage n.type i) :
    Healthy (processIONode run.storage n.type i) := by
  have hknown := h.known n (by
    unfold StorageRun.inHand
    rw [hthread]
    exact mem_singleton_self n)
  by_cases hload : n.type = .load
  case pos =>
    rw [hload] at hsafe ⊢
    refine h.healthy.load i.now ?_
    intro handle hprepare hclosed hcount
    simp only [SafeProcess, hprepare] at hsafe
    exact hsafe hclosed hcount
  case neg =>
  by_cases hclose : n.type = .close
  case pos =>
    rw [hclose] at hsafe ⊢
    exact h.healthy.close hsafe
  case neg =>
  rw [h.healthy.process_eq hknown hload hclose ?_ i]
  · exact h.healthy
  · intro htcpLog
    rw [htcpLog] at hsafe
    exact hsafe

theorem abort (hidle : run.thread = .idle) : StorageInv run.abort := by
  obtain ⟨hnodes, hnil, hcounted, hplaced⟩ := popAll_spec h.counted h.placed
  have hhand : run.inHand = [] := by
    unfold StorageRun.inHand
    rw [hidle]
  have hrest : run.abort.waiting = [] := by
    show run.inHand ++ (sqlitePopAll _ _).2.queued = []
    rw [hhand, hnil]
    rfl
  refine ⟨h.healthy.withQueues _, hcounted, hplaced, ?_, h.numbered, h.ordered, h.ready, h.known,
    nofun, fun _ => hrest⟩
  rw [hrest]
  show (run.ledger.drop (sqlitePopAll _ _).1).ExactlyOnce []
  rw [hnodes]
  have honce := h.once
  rw [StorageRun.waiting, hhand, nil_append] at honce
  exact honce.drop

theorem step {e : StorageEvent} (hsafe : SafeStep run e)
    (hnext : run.next e = some run') : StorageInv run' := by
  cases e with
  | request r =>
    simp only [StorageRun.next] at hnext
    split at hnext
    case isTrue => cases hnext
    case isFalse hfreed =>
    cases hnext
    have hchecked : run.storage.check r.valid = run.storage := by
      rw [hsafe (Bool.eq_false_iff.mpr hfreed), check_true]
    rw [hchecked]
    exact h.withCalls _
  | push i =>
    simp only [StorageRun.next] at hnext
    split at hnext
    case isTrue => cases hnext
    case isFalse hfreed =>
    have hfreed := Bool.eq_false_iff.mpr hfreed
    obtain ⟨t, hcall, rfl⟩ := Option.map_eq_some_iff.mp hnext
    exact (h.push hfreed (hsafe hfreed t hcall)).withCalls _
  | destroy =>
    simp only [StorageRun.next] at hnext
    split at hnext
    case isTrue => cases hnext
    case isFalse henabled =>
    obtain ⟨hfreed, hthread⟩ := not_or.mp henabled
    have hfreed := Bool.eq_false_iff.mpr hfreed
    cases hnext
    have hpushed := h.push hfreed (hsafe hfreed (Bool.not_eq_false _ ▸ hthread))
    exact hpushed.withStorage (hpushed.healthy.withThread false) rfl
  | pop =>
    simp only [StorageRun.next] at hnext
    split at hnext
    case isTrue henabled =>
      cases hnext
      exact h.pop henabled.1 henabled.2
    case isFalse => cases hnext
  | openBatch now =>
    simp only [StorageRun.next] at hnext
    split at hnext
    case h_1 n hthread =>
      cases hnext
      have hopened := h.withStorage (h.healthy.openBatch now) (openBatch_queues _ _)
      refine hopened.withThread ?_
      unfold StorageRun.inHand
      rw [hthread]
    case h_2 => cases hnext
  | process i =>
    simp only [StorageRun.next] at hnext
    split at hnext
    case h_1 n hthread =>
      cases hnext
      exact h.execute hthread (h.process hthread (hsafe n hthread)) (process_queues _ _ _)
    case h_2 => cases hnext
  | commitBatch now =>
    simp only [StorageRun.next] at hnext
    split at hnext
    case h_1 hthread =>
      cases hnext
      have hcommitted := h.withStorage (h.healthy.commitBatch (hsafe hthread))
        (commitBatch_queues _ _)
      refine hcommitted.withThread ?_
      unfold StorageRun.inHand
      rw [hthread]
    case h_2 => cases hnext
  | join =>
    simp only [StorageRun.next] at hnext
    split at hnext
    case isTrue henabled =>
      cases hnext
      exact h.abort henabled.2.2
    case isFalse => cases hnext

end StorageInv

/-! ## A step that is not safe -/

variable {run : StorageRun}

variable {t : SqliteIOType} {s : SqliteStorage}

theorem not_sound_push (h : StorageSound run) (hsafe : ¬ SafePush run t)
    (run' : StorageRun) (hqueues : run'.storage.queues = (run.push t).storage.queues)
    (hfailed : run'.storage.assertionFailed = (run.push t).storage.assertionFailed) :
    ¬ StorageSound run' := by
  intro hsound
  have hasserted := hsound.assertions
  have hcounted := hsound.counted
  rw [hfailed] at hasserted
  rw [hqueues] at hcounted
  cases hpush : sqlitePushIONode run.storage.queues ⟨t, run.ledger.accepted.length⟩ with
  | mk queues result =>
    have hresult : result ≠ .unknownType := by
      intro hunknown
      unfold StorageRun.push at hasserted
      simp only [hpush, hunknown, bne_self_eq_false, SqliteStorage.check, Bool.not_false,
        Bool.or_true] at hasserted
      cases hasserted
    refine hsafe ⟨?_, ?_⟩
    · refine Bool.not_eq_false _ ▸ fun hunknown => hresult ?_
      have heq : (sqlitePushIONode run.storage.queues ⟨t, run.ledger.accepted.length⟩).2 =
          .unknownType := push_unknown_iff.mpr hunknown
      rw [hpush] at heq
      exact heq
    intro hpushed
    rw [hpush] at hpushed
    obtain rfl : result = .pushed := hpushed
    simp only [StorageRun.push, hpush, check_queues] at hcounted
    exact ((push_pushed hpush).counted_iff h.counted).mp hcounted

theorem commit_failed (h : ¬ 0 < s.transactionDepth) :
    (sqliteCommitTransaction s).assertionFailed = true := by
  have hnegative : decide (0 ≤ s.transactionDepth - 1) = false := decide_eq_false (by omega)
  have hnot : ¬ s.transactionDepth - 1 = 0 := by omega
  unfold sqliteCommitTransaction
  simp only [if_neg hnot, SqliteStorage.check, hnegative, Bool.not_false, Bool.or_true]

theorem process_failed {i : ProcessorInput} (h : ¬ SafeProcess s t i) :
    (processIONode s t i).assertionFailed = true ∨ (processIONode s t i).closedUse = true := by
  cases t with
  | loadTunnelHistoryTcpLog =>
    right
    have hclosed : s.database = false := Bool.eq_false_iff.mpr h
    show (s.closedUse || !s.database) = true
    rw [hclosed, Bool.not_false, Bool.or_true]
  | close =>
    left
    obtain ⟨hcount, hdepth⟩ := Classical.not_imp.mp h
    show (sqliteCloseIOProcessor s).assertionFailed = true
    unfold sqliteCloseIOProcessor
    rw [if_pos hcount]
    exact commit_failed hdepth
  | load =>
    left
    unfold SafeProcess at h
    simp only at h
    split at h
    case h_1 handle hprepare =>
      obtain ⟨hclosed, h⟩ := Classical.not_imp.mp h
      obtain ⟨hcount, hdepth⟩ := Classical.not_imp.mp h
      show (sqliteLoadIOProcessor s i.prepare i.now).assertionFailed = true
      unfold sqliteLoadIOProcessor
      rw [hprepare, hclosed]
      show (sqliteCloseIOProcessor { s with database := handle }).assertionFailed = true
      unfold sqliteCloseIOProcessor
      rw [if_pos hcount]
      exact commit_failed hdepth
    case h_2 => exact absurd trivial h
  | addPeer | setConstInfo | addConnect | updateConnect | addSuperNode | updateSuperNode | addKey
  | updateKey | loadPeerHistoryByPeerid | loadHistoryConnectInfoByPeerid | loadSnClientMapByClient
  | addTunnelHistoryTcpLog | updateTunnelHistoryTcpLog => exact absurd trivial h

theorem not_sound_step (h : StorageSound run) {e : StorageEvent} (hsafe : ¬ SafeStep run e) :
    ∃ run', run.next e = some run' ∧ ¬ StorageSound run' := by
  cases e with
  | request =>
    obtain ⟨hfreed, hinvalid⟩ := Classical.not_imp.mp hsafe
    refine ⟨_, if_neg (Bool.eq_false_iff.mp hfreed), ?_⟩
    intro hsound
    have hasserted := hsound.assertions
    simp only [SqliteStorage.check, Bool.eq_false_iff.mpr hinvalid, Bool.not_false,
      Bool.or_true] at hasserted
    cases hasserted
  | push i =>
    obtain ⟨hfreed, h'⟩ := Classical.not_imp.mp hsafe
    obtain ⟨t, h'⟩ := Classical.not_forall.mp h'
    obtain ⟨hcall, hpush⟩ := Classical.not_imp.mp h'
    refine ⟨{ run.push t with calls := run.calls.eraseIdx i }, ?_, not_sound_push h hpush _ rfl rfl⟩
    show (if run.freed then none else run.calls[i]?.map _) = _
    rw [if_neg (Bool.eq_false_iff.mp hfreed), hcall]
    rfl
  | destroy =>
    obtain ⟨hfreed, h'⟩ := Classical.not_imp.mp hsafe
    obtain ⟨hthread, hpush⟩ := Classical.not_imp.mp h'
    refine ⟨_, if_neg ?_, not_sound_push h hpush _ rfl rfl⟩
    rw [hfreed, hthread]
    exact not_or.mpr ⟨Bool.false_ne_true, (Bool.false_ne_true ·.symm)⟩
  | process i =>
    obtain ⟨n, h'⟩ := Classical.not_forall.mp hsafe
    obtain ⟨hthread, hprocess⟩ := Classical.not_imp.mp h'
    refine ⟨{ run with
      storage := processIONode run.storage n.type i
      thread := .executed
      ledger := run.ledger.execute n }, by simp only [StorageRun.next, hthread], ?_⟩
    intro hsound
    rcases process_failed hprocess with hfailed | hused
    · exact Bool.false_ne_true (hsound.assertions.symm.trans hfailed)
    · exact Bool.false_ne_true (hsound.closedUse.symm.trans hused)
  | commitBatch now =>
    obtain ⟨hthread, h'⟩ := Classical.not_imp.mp hsafe
    obtain ⟨hdue, hdepth⟩ := Classical.not_imp.mp h'
    refine ⟨{ run with storage := commitBatch run.storage now, thread := .idle },
      by simp only [StorageRun.next, hthread], ?_⟩
    intro hsound
    have hasserted := hsound.assertions
    unfold commitBatch at hasserted
    rw [if_pos hdue] at hasserted
    exact Bool.false_ne_true (hasserted.symm.trans (commit_failed hdepth))
  | pop | openBatch | join => exact absurd trivial hsafe

/-- The storage keeps its promises throughout a run exactly when all steps of the run are safe. -/
theorem storage_sound_iff (pendingLimit : UInt32) (events : List StorageEvent) :
    Throughout StorageRun.next StorageSound (.start pendingLimit) events ↔
      StepsMeet StorageRun.next SafeStep (.start pendingLimit) events :=
  throughout_iff (StorageInv.start pendingLimit) (fun _ h => h.sound)
    (fun _ _ _ h hsafe hnext => h.step hsafe hnext)
    (fun _ _ _ _ hsound hsafe => not_sound_step hsound hsafe)

/-- A request that is pushed at once. -/
def requestEvents (r : StorageRequest) : List StorageEvent := [.request r, .push 0]

/-- A run of `SqliteNextIOProcessor` in which the database can be opened. -/
def processorEvents : List StorageEvent :=
  [.pop, .openBatch 0, .process ⟨.success, false, 0⟩, .commitBatch 0]

/-- The storage is loaded, three peers are added, and the storage is destroyed. -/
def closingEvents : List StorageEvent :=
  requestEvents .loadAll ++ processorEvents ++
    requestEvents .addPeerHistory ++ requestEvents .addPeerHistory ++
    requestEvents .addPeerHistory ++ .destroy :: processorEvents ++
    processorEvents ++ processorEvents ++ processorEvents

/-- The close commits the transaction that it was executed in, and the last add commits it again. -/
theorem storage_closed_twice :
    ∃ run, exec StorageRun.next (.start 100) closingEvents = some run ∧
      run.storage.transactionDepth = -1 ∧ ¬ StorageSound run := by
  refine exists_of_test (fun run => run.storage.transactionDepth = -1) (by decide) ?_
  refine fun run _ hdepth => ⟨hdepth, fun hsound => ?_⟩
  have hnonneg := hsound.nonneg
  rw [hdepth] at hnonneg
  exact absurd hnonneg (by decide)

end Bdt
