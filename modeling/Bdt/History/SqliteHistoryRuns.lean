import Bdt.History.SqliteTables

/-!
# Runs of the history requests

Requests are pushed and executed in any order of the two. An update waits behind all adds, so that the
requests are not executed in the order in which they were accepted. But no row notices that, if it is
added before it is updated: `sameWrites_run` says that the executed requests and those that wait write
the same to every row as the accepted ones.
-/

namespace Bdt

open Base List

/-- A storage that is loaded, from the first request on. -/
structure HistoryRun where
  pendingLimit : UInt32
  queues : SqliteIOQueues HistoryRequest := {}
  tables : HistoryTables := {}
  accepted : List HistoryRequest := []
  executed : List HistoryRequest := []

inductive HistoryEvent where
  | request (r : HistoryRequest)
  | execute (memory : Nat → List UInt8)

/-- The request function does not push a node. -/
def HistoryRequest.isIdle : HistoryRequest → Bool
  | setConstInfo history => !hasConst history.flagsU32
  | updateSuperNode _ _ responseTime _ => responseTime == 0
  | _ => false

namespace HistoryRun

def request (run : HistoryRun) (r : HistoryRequest) : HistoryRun :=
  if run.pendingLimit < run.queues.ioCount ∨ r.isIdle = true then run
  else
    match sqlitePushIONode run.queues ⟨r.type, r⟩ with
    | (queues, .pushed) => { run with queues, accepted := run.accepted ++ [r] }
    | _ => run

def execute (run : HistoryRun) (memory : Nat → List UInt8) : HistoryRun :=
  match sqlitePopIONode run.queues with
  | some (n, queues) =>
    { run with
      queues
      tables := processRequest run.tables n.content memory
      executed := run.executed ++ [n.content] }
  | none => run

def step (run : HistoryRun) : HistoryEvent → HistoryRun
  | .request r => run.request r
  | .execute memory => run.execute memory

/-- The run of these events, of a storage that is empty at first. -/
def ofEvents (pendingLimit : UInt32) (events : List HistoryEvent) : HistoryRun :=
  events.foldl step { pendingLimit }

/-- The requests that wait, in the order in which they are popped. -/
def pending (run : HistoryRun) : List HistoryRequest :=
  (run.queues.addIOQueue ++ run.queues.updateIOQueue).map (·.content)

end HistoryRun

/-! ## What a step does -/

/-- The nodes that wait are those of adds and updates, with their types. -/
structure QueueInv (run : HistoryRun) : Prop where
  close : run.queues.closeIONode = none
  load : run.queues.loadIONode = none
  add : ∀ n ∈ run.queues.addIOQueue, n.content.type.isAdd = true
  update : ∀ n ∈ run.queues.updateIOQueue, n.content.type.isAdd = false

/-- An add is put behind the other adds, an update behind all requests. -/
inductive Requested (run : HistoryRun) (r : HistoryRequest) : HistoryRun → Prop where
  | refused : Requested run r run
  | add (ioCount : UInt32) (h : r.type.isAdd = true) : Requested run r { run with
      queues := { run.queues with addIOQueue := run.queues.addIOQueue ++ [⟨r.type, r⟩], ioCount }
      accepted := run.accepted ++ [r] }
  | update (ioCount : UInt32) (h : r.type.isAdd = false) : Requested run r { run with
      queues := { run.queues with updateIOQueue := run.queues.updateIOQueue ++ [⟨r.type, r⟩], ioCount }
      accepted := run.accepted ++ [r] }

/-- The first request that waits is executed. -/
inductive Executed (run : HistoryRun) (memory : Nat → List UInt8) : HistoryRun → Prop where
  | idle (h : run.pending = []) : Executed run memory run
  | add (n : SqliteIOQueueNode HistoryRequest) (rest : List (SqliteIOQueueNode HistoryRequest))
      (ioCount : UInt32) (h : run.queues.addIOQueue = n :: rest) : Executed run memory { run with
        queues := { run.queues with addIOQueue := rest, ioCount }
        tables := processRequest run.tables n.content memory
        executed := run.executed ++ [n.content] }
  | update (n : SqliteIOQueueNode HistoryRequest) (rest : List (SqliteIOQueueNode HistoryRequest))
      (ioCount : UInt32) (hadd : run.queues.addIOQueue = [])
      (h : run.queues.updateIOQueue = n :: rest) : Executed run memory { run with
        queues := { run.queues with updateIOQueue := rest, ioCount }
        tables := processRequest run.tables n.content memory
        executed := run.executed ++ [n.content] }

/-- No request of the history is a load or a close. -/
theorem HistoryRequest.type_ne (r : HistoryRequest) : r.type ≠ .load ∧ r.type ≠ .close := by
  cases r with
  | addPeer | setConstInfo => exact ⟨nofun, nofun⟩
  | updateConnect _ _ isNew | updateSuperNode _ _ _ isNew | updateAesKey _ _ _ isNew =>
    cases isNew <;> exact ⟨nofun, nofun⟩

theorem requested (run : HistoryRun) (r : HistoryRequest) : Requested run r (run.request r) := by
  unfold HistoryRun.request
  split
  case isTrue => exact .refused
  case isFalse =>
  unfold sqlitePushIONode
  by_cases hadd : r.type.isAdd = true
  case pos =>
    rw [if_pos hadd]
    exact .add _ hadd
  case neg =>
  rw [if_neg hadd]
  by_cases hupdate : r.type.isUpdate = true
  case pos =>
    rw [if_pos hupdate]
    exact .update _ (SqliteIOType.not_isAdd_of_isUpdate hupdate)
  case neg =>
    rw [if_neg hupdate, if_neg r.type_ne.1, if_neg r.type_ne.2]
    exact .refused

variable {run next : HistoryRun}

theorem QueueInv.executed (h : QueueInv run) (memory : Nat → List UInt8) :
    Executed run memory (run.execute memory) := by
  cases hadd : run.queues.addIOQueue with
  | cons n rest =>
    have hpop : sqlitePopIONode run.queues = some (n, { run.queues with
        addIOQueue := rest, ioCount := run.queues.ioCount - 1 }) := by
      simp only [sqlitePopIONode, h.close, h.load, hadd]
    unfold HistoryRun.execute
    rw [hpop]
    exact .add n rest _ hadd
  | nil =>
    cases hupdate : run.queues.updateIOQueue with
    | cons n rest =>
      have hpop : sqlitePopIONode run.queues = some (n, { run.queues with
          updateIOQueue := rest, ioCount := run.queues.ioCount - 1 }) := by
        simp only [sqlitePopIONode, h.close, h.load, hadd, hupdate]
      unfold HistoryRun.execute
      rw [hpop]
      exact .update n rest _ hadd hupdate
    | nil =>
      have hpop : sqlitePopIONode run.queues = none := by
        simp only [sqlitePopIONode, h.close, h.load, hadd, hupdate]
      unfold HistoryRun.execute
      rw [hpop]
      refine .idle ?_
      unfold HistoryRun.pending
      rw [hadd, hupdate]
      rfl

theorem QueueInv.request (h : QueueInv run) {r : HistoryRequest} (hreq : Requested run r next) :
    QueueInv next := by
  cases hreq with
  | refused => exact h
  | add _ hadd =>
    refine ⟨h.close, h.load, ?_, h.update⟩
    intro n hn
    rcases mem_append.mp hn with hn | hn
    · exact h.add n hn
    · exact mem_singleton.mp hn ▸ hadd
  | update _ hupdate =>
    refine ⟨h.close, h.load, h.add, ?_⟩
    intro n hn
    rcases mem_append.mp hn with hn | hn
    · exact h.update n hn
    · exact mem_singleton.mp hn ▸ hupdate

variable {memory : Nat → List UInt8}

theorem QueueInv.execute (h : QueueInv run) (hexec : Executed run memory next) : QueueInv next := by
  cases hexec with
  | idle => exact h
  | add n _ _ hqueue =>
    refine ⟨h.close, h.load, ?_, h.update⟩
    intro m hm
    exact h.add m (by rw [hqueue]; exact mem_cons_of_mem n hm)
  | update n _ _ _ hqueue =>
    refine ⟨h.close, h.load, h.add, ?_⟩
    intro m hm
    exact h.update m (by rw [hqueue]; exact mem_cons_of_mem n hm)

theorem QueueInv.step (h : QueueInv run) (e : HistoryEvent) :
    QueueInv (run.step e) ∧
      ((∃ r, Requested run r (run.step e)) ∨ ∃ memory, Executed run memory (run.step e)) := by
  cases e with
  | request r => exact ⟨h.request (requested run r), .inl ⟨r, requested run r⟩⟩
  | execute memory => exact ⟨h.execute (h.executed memory), .inr ⟨memory, h.executed memory⟩⟩

theorem ofEvents_concat (pendingLimit : UInt32) (events : List HistoryEvent) (e : HistoryEvent) :
    HistoryRun.ofEvents pendingLimit (events ++ [e]) =
      (HistoryRun.ofEvents pendingLimit events).step e :=
  foldl_append ..

theorem run_preserves (inv : HistoryRun → Prop) {pendingLimit : UInt32}
    (hstart : inv { pendingLimit })
    (hrequest : ∀ run r next, QueueInv run → inv run → Requested run r next → inv next)
    (hexecute : ∀ run memory next, QueueInv run → inv run → Executed run memory next → inv next)
    (events : List HistoryEvent) :
    inv (HistoryRun.ofEvents pendingLimit events) ∧
      QueueInv (HistoryRun.ofEvents pendingLimit events) := by
  induction events using List.reverseRecOn with
  | nil => exact ⟨hstart, rfl, rfl, forall_mem_nil _, forall_mem_nil _⟩
  | append_singleton _ e ih =>
    obtain ⟨hinv, hqueue⟩ := ih
    rw [ofEvents_concat]
    obtain ⟨hnext, ⟨r, hreq⟩ | ⟨memory, hexec⟩⟩ := hqueue.step e
    · exact ⟨hrequest _ r _ hqueue hinv hreq, hnext⟩
    · exact ⟨hexecute _ memory _ hqueue hinv hexec, hnext⟩

/-! ## The writes of a table -/

variable {K V : Type} [DecidableEq K]

/-- The inserts of a table are made by adds. -/
def Prioritized (write : HistoryRequest → Option (Write K V)) : Prop :=
  ∀ r w, write r = some w → w.inserts.isSome = r.type.isAdd

theorem prioritized_peer : Prioritized peerWrite := by
  intro r w h
  cases r with
  | addPeer | setConstInfo =>
    cases h
    rfl
  | updateConnect | updateSuperNode | updateAesKey => cases h

theorem prioritized_sn : Prioritized snWrite := by
  intro r w h
  cases r with
  | updateSuperNode _ _ _ isNew =>
    cases h
    cases isNew <;> rfl
  | addPeer | setConstInfo | updateConnect | updateAesKey => cases h

theorem prioritized_aesKey : Prioritized aesKeyWrite := by
  intro r w h
  cases r with
  | updateAesKey _ _ _ isNew =>
    cases h
    cases isNew <;> rfl
  | addPeer | setConstInfo | updateConnect | updateSuperNode => cases h

variable {write : HistoryRequest → Option (Write K V)}

/-- The writes of the executed requests and of those that wait. -/
def HistoryRun.writes (write : HistoryRequest → Option (Write K V)) (run : HistoryRun) :
    List (Write K V) :=
  (run.executed ++ run.pending).filterMap write

theorem Prioritized.inserts_nil (hwrite : Prioritized write) {requests : List HistoryRequest}
    (h : ∀ r ∈ requests, r.type.isAdd = false) : insertedKeys (requests.filterMap write) = [] := by
  unfold insertedKeys
  rw [filterMap_eq_nil_iff]
  intro w hw
  obtain ⟨r, hr, hrw⟩ := mem_filterMap.mp hw
  have hnone := hwrite r w hrw
  rw [h r hr] at hnone
  exact Option.isNone_iff_eq_none.mp (Option.isSome_eq_false_iff.mp hnone)

theorem HistoryRun.writes_eq (write : HistoryRequest → Option (Write K V)) (run : HistoryRun) :
    run.writes write =
      (run.executed ++ run.queues.addIOQueue.map (·.content)).filterMap write ++
        (run.queues.updateIOQueue.map (·.content)).filterMap write := by
  unfold HistoryRun.writes HistoryRun.pending
  rw [map_append, ← append_assoc, filterMap_append]

theorem sameWrites_request (hwrite : Prioritized write) (hqueue : QueueInv run)
    {r : HistoryRequest} (hreq : Requested run r next)
    (hlog : InsertedFirst (next.accepted.filterMap write))
    (h : SameWrites (run.writes write) (run.accepted.filterMap write)) :
    SameWrites (next.writes write) (next.accepted.filterMap write) := by
  rw [HistoryRun.writes_eq] at h
  cases hreq with
  | refused =>
    rw [HistoryRun.writes_eq]
    exact h
  | update =>
    have hmore := h.append ([r].filterMap write)
    rw [HistoryRun.writes_eq]
    simpa only [map_append, map_singleton, filterMap_append, append_assoc]
      using hmore
  | add _ hadd =>
    rw [HistoryRun.writes_eq]
    simp only [map_append, map_singleton, filterMap_append, append_assoc]
      at h hlog ⊢
    rw [← append_assoc] at h ⊢
    cases hw : write r with
    | none =>
      rw [filterMap_cons_none hw, filterMap_nil, append_nil, nil_append]
      exact h
    | some w =>
      rw [filterMap_cons_some hw, filterMap_nil] at hlog ⊢
      have hinsert := hwrite r w hw
      rw [hadd] at hinsert
      cases w with
      | update => cases hinsert
      | insert =>
        refine h.early hlog (hwrite.inserts_nil ?_)
        intro u hu
        obtain ⟨n, hn, rfl⟩ := mem_map.mp hu
        exact hqueue.update n hn

theorem executed_pending (hexec : Executed run memory next) :
    next.executed ++ next.pending = run.executed ++ run.pending := by
  cases hexec with
  | idle => rfl
  | add n rest _ hqueue =>
    show run.executed ++ [n.content] ++ (rest ++ run.queues.updateIOQueue).map _ =
      run.executed ++ (run.queues.addIOQueue ++ run.queues.updateIOQueue).map _
    rw [hqueue, append_assoc]
    rfl
  | update n rest _ hadd hqueue =>
    show run.executed ++ [n.content] ++ (run.queues.addIOQueue ++ rest).map _ =
      run.executed ++ (run.queues.addIOQueue ++ run.queues.updateIOQueue).map _
    rw [hadd, hqueue, append_assoc]
    rfl

theorem accepted_of_executed (hexec : Executed run memory next) : next.accepted = run.accepted := by
  cases hexec <;> rfl

theorem sameWrites_run (hwrite : Prioritized write) (pendingLimit : UInt32)
    (events : List HistoryEvent)
    (hlog : InsertedFirst ((HistoryRun.ofEvents pendingLimit events).accepted.filterMap write)) :
    SameWrites ((HistoryRun.ofEvents pendingLimit events).writes write)
      ((HistoryRun.ofEvents pendingLimit events).accepted.filterMap write) := by
  refine (run_preserves (fun run => InsertedFirst (run.accepted.filterMap write) →
    SameWrites (run.writes write) (run.accepted.filterMap write)) ?_ ?_ ?_ events).1 hlog
  · exact fun _ => SameWrites.refl _
  · intro run r next hqueue h hreq hlog
    refine sameWrites_request hwrite hqueue hreq hlog (h ?_)
    cases hreq with
    | refused => exact hlog
    | add | update =>
      rw [filterMap_append] at hlog
      exact hlog.front
  intro run memory next hqueue h hexec hlog
  unfold HistoryRun.writes
  rw [executed_pending hexec, accepted_of_executed hexec]
  exact h (accepted_of_executed hexec ▸ hlog)

theorem accepted_perm (pendingLimit : UInt32) (events : List HistoryEvent) :
    ((HistoryRun.ofEvents pendingLimit events).executed ++
      (HistoryRun.ofEvents pendingLimit events).pending).Perm
      (HistoryRun.ofEvents pendingLimit events).accepted := by
  refine (run_preserves (fun run =>
    (run.executed ++ run.pending).Perm run.accepted) ?_ ?_ ?_ events).1
  · exact List.Perm.nil
  · intro run r next hqueue h hreq
    cases hreq with
    | refused => exact h
    | add =>
      show (run.executed ++ (run.queues.addIOQueue ++ [_] ++ run.queues.updateIOQueue).map _).Perm
        (run.accepted ++ [r])
      refine Perm.trans ?_ (h.append_right [r])
      unfold HistoryRun.pending
      rw [append_assoc run.executed]
      refine List.Perm.append_left _ ?_
      rw [append_assoc, map_append, map_append, map_append, append_assoc]
      refine List.Perm.append_left _ ?_
      exact perm_append_comm
    | update =>
      show (run.executed ++ (run.queues.addIOQueue ++ (run.queues.updateIOQueue ++ [_])).map _).Perm
        (run.accepted ++ [r])
      refine Perm.trans (List.Perm.of_eq ?_) (h.append_right [r])
      rw [← append_assoc, map_append, ← append_assoc]
      rfl
  · intro run memory next hqueue h hexec
    rw [executed_pending hexec, accepted_of_executed hexec]
    exact h

/-! ## The tables -/

section Tables

variable (tables : HistoryTables) (r : HistoryRequest) (memory : Nat → List UInt8)

theorem processConnects_eq : ∃ connections,
    processConnects tables r memory = { tables with connections } := by
  unfold processConnects
  generalize (connectWrites r).zipIdx = writes
  induction writes generalizing tables with
  | nil => exact ⟨tables.connections, rfl⟩
  | cons _ _ ih => exact ih _

theorem processRequest_rows : (processRequest tables r memory).peers =
      ((peerWrite r).toList.map (Write.map bindPeer)).foldl writeRow tables.peers ∧
    (processRequest tables r memory).sns = (snWrite r).toList.foldl writeRow tables.sns ∧
    (processRequest tables r memory).aesKeys =
      ((aesKeyWrite r).toList.map (Write.map bindAesKey)).foldl writeRow tables.aesKeys := by
  obtain ⟨connections, hloop⟩ := processConnects_eq
    ((peerWrite r).toList.foldl sqliteSetConstInfoImpl tables) r memory
  unfold processRequest
  rw [hloop]
  cases peerWrite r <;> cases snWrite r <;> cases aesKeyWrite r <;> exact ⟨rfl, rfl, rfl⟩

theorem processRequest_connections : ∃ peers,
    (processRequest tables r memory).connections =
      (processConnects { tables with peers } r memory).connections := by
  refine ⟨((peerWrite r).toList.foldl sqliteSetConstInfoImpl tables).peers, ?_⟩
  unfold processRequest
  cases peerWrite r <;> cases snWrite r <;> cases aesKeyWrite r <;> rfl

end Tables

/-- The tables have what the executed requests have written. -/
structure TablesInv (run : HistoryRun) : Prop where
  peers : run.tables.peers = mapRows bindPeer (writeRows (run.executed.filterMap peerWrite))
  sns : run.tables.sns = writeRows (run.executed.filterMap snWrite)
  aesKeys : run.tables.aesKeys = mapRows bindAesKey (writeRows (run.executed.filterMap aesKeyWrite))

theorem tables_run (pendingLimit : UInt32) (events : List HistoryEvent) :
    TablesInv (HistoryRun.ofEvents pendingLimit events) := by
  have hexecute : ∀ run : HistoryRun, TablesInv run → ∀ r memory queues, TablesInv { run with
      queues, tables := processRequest run.tables r memory, executed := run.executed ++ [r] } := by
    intro run h r memory queues
    have hone : ∀ {K V : Type} [DecidableEq K] (write : HistoryRequest → Option (Write K V)),
        writeRows ((run.executed ++ [r]).filterMap write) =
          (write r).toList.foldl writeRow (writeRows (run.executed.filterMap write)) := by
      intro K V _ write
      rw [filterMap_append]
      unfold writeRows
      rw [foldl_append]
      cases hw : write r with
      | none =>
        rw [filterMap_cons_none hw]
        rfl
      | some =>
        rw [filterMap_cons_some hw]
        rfl
    obtain ⟨hpeers, hsns, haesKeys⟩ := processRequest_rows run.tables r memory
    constructor
    · show (processRequest run.tables r memory).peers = _
      rw [hpeers, h.peers, hone]
      cases peerWrite r with
      | none => rfl
      | some w => exact writeRow_map bindPeer _ w
    · show (processRequest run.tables r memory).sns = _
      rw [hsns, h.sns, hone]
    show (processRequest run.tables r memory).aesKeys = _
    rw [haesKeys, h.aesKeys, hone]
    cases aesKeyWrite r with
    | none => rfl
    | some w => exact writeRow_map bindAesKey _ w
  refine (run_preserves TablesInv ⟨rfl, rfl, rfl⟩ ?_ ?_ events).1
  · intro run r next _ h hreq
    cases hreq with
    | refused => exact h
    | add | update => exact ⟨h.peers, h.sns, h.aesKeys⟩
  intro run memory next _ h hexec
  cases hexec with
  | idle => exact h
  | add n | update n => exact hexecute run h n.content memory _

/-! ## The rows of the connections -/

/-- What writes of connections leave. A row without a local endpoint is never found by an update. -/
structure ConnectsTo (writes : List (Peerid × HistoryConnect × Bool))
    (before after : List (ConnectKey × ConnectRow)) : Prop where
  origin : ∀ row ∈ after, row.1 ∈ before.map (·.1) ∨
    ∃ connectInfo, (row.1.peerid, connectInfo, true) ∈ writes
  kept : ∀ row ∈ before, row.1.localEndpoint = none → row ∈ after
  added : ∀ peerid connectInfo, (peerid, connectInfo, true) ∈ writes →
    connectInfo.localEndpoint = none → ∃ row ∈ after, row.1.peerid = peerid ∧
      row.1.localEndpoint = none ∧ row.1.endpoint.length = endpointLength connectInfo.endpoint ∧
      row.2 = bindConnect connectInfo

namespace ConnectsTo

variable {writes more : List (Peerid × HistoryConnect × Bool)}
  {before mid after : List (ConnectKey × ConnectRow)}

theorem nil (rows : List (ConnectKey × ConnectRow)) : ConnectsTo [] rows rows :=
  ⟨fun row hrow => .inl (mem_map_of_mem hrow), fun _ h _ => h, fun _ _ hmem => absurd hmem not_mem_nil⟩

theorem trans (h : ConnectsTo writes before mid) (h' : ConnectsTo more mid after) :
    ConnectsTo (writes ++ more) before after where
  origin row hrow := by
    rcases h'.origin row hrow with hmid | ⟨connectInfo, hmem⟩
    · obtain ⟨found, hfound, hkey⟩ := mem_map.mp hmid
      rcases h.origin found hfound with hbefore | ⟨connectInfo, hmem⟩
      · exact .inl (hkey ▸ hbefore)
      · exact .inr ⟨connectInfo, mem_append_left _ (hkey ▸ hmem)⟩
    · exact .inr ⟨connectInfo, mem_append_right _ hmem⟩
  kept row hrow hnull := h'.kept row (h.kept row hrow hnull) hnull
  added peerid connectInfo hmem hnull := by
    rcases mem_append.mp hmem with hmem | hmem
    · obtain ⟨row, hrow, hpeerid, hlocal, hrest⟩ := h.added peerid connectInfo hmem hnull
      exact ⟨row, h'.kept row hrow hlocal, hpeerid, hlocal, hrest⟩
    · exact h'.added peerid connectInfo hmem hnull

end ConnectsTo

theorem length_memory (endpoint : BdtEndpoint) : endpoint.memory.length = ENDPOINT_LENGTH_V6 := by
  unfold BdtEndpoint.memory
  rw [length_cons, length_cons, length_append, endpoint.address.2]
  rfl

theorem endpointLength_le (endpoint : BdtEndpoint) :
    ENDPOINT_LENGTH_V4 ≤ endpointLength endpoint ∧ endpointLength endpoint ≤ ENDPOINT_LENGTH_V6 := by
  unfold endpointLength
  split <;> decide

theorem connectsTo_one (tables : HistoryTables) (write : Peerid × HistoryConnect × Bool)
    (memory : List UInt8) : ConnectsTo [write] tables.connections
      (sqliteUpdateConnectIOProcessorImpl tables write.2.2 write.1 write.2.1 memory).connections := by
  obtain ⟨peerid, connectInfo, isNew⟩ := write
  -- the comparison fails for a row without a local endpoint
  have hnull : ∀ (row key : ConnectKey), row.localEndpoint = none → row.equals key = false := by
    intro row key hnone
    unfold ConnectKey.equals
    rw [hnone]
    rfl
  cases isNew with
  | false =>
    refine ⟨?_, ?_, ?_⟩
    · intro row hrow
      obtain ⟨stored, hstored, rfl⟩ := mem_map.mp hrow
      refine .inl (mem_map.mpr ⟨stored, hstored, ?_⟩)
      split <;> rfl
    · intro row hrow hnone
      refine mem_map.mpr ⟨row, hrow, ?_⟩
      rw [hnull row.1 _ hnone]
      rfl
    · intro p c hmem
      cases mem_singleton.mp hmem
  | true =>
    have hrows : (sqliteUpdateConnectIOProcessorImpl tables true peerid connectInfo memory).connections =
        if tables.connections.any fun stored =>
            stored.1.equals (bindConnectKey peerid connectInfo memory) then tables.connections
        else tables.connections ++
          [(bindConnectKey peerid connectInfo memory, bindConnect connectInfo)] := rfl
    refine ⟨?_, ?_, ?_⟩
    · intro row hrow
      rw [hrows] at hrow
      split at hrow
      · exact .inl (mem_map_of_mem hrow)
      rcases mem_append.mp hrow with hrow | hrow
      · exact .inl (mem_map_of_mem hrow)
      · obtain rfl := mem_singleton.mp hrow
        exact .inr ⟨connectInfo, mem_singleton_self _⟩
    · intro row hrow _
      rw [hrows]
      split
      · exact hrow
      · exact mem_append_left _ hrow
    intro p c hmem hnone
    obtain ⟨rfl, hrest⟩ := Prod.mk.inj (mem_singleton.mp hmem)
    obtain ⟨rfl, -⟩ := Prod.mk.inj hrest
    have hlocal : (bindConnectKey p c memory).localEndpoint = none := by
      unfold bindConnectKey
      rw [hnone]
      rfl
    have hany : tables.connections.any (fun stored =>
        stored.1.equals (bindConnectKey p c memory)) = false := by
      rw [any_eq_false]
      intro stored _ hequals
      obtain ⟨hsome, hkey⟩ := Bool.and_eq_true_iff.mp hequals
      rw [beq_iff_eq.mp hkey, hlocal] at hsome
      cases hsome
    rw [hrows, hany]
    refine ⟨_, mem_append_right _ (mem_singleton_self _), rfl, hlocal, ?_, rfl⟩
    show (c.endpoint.memory.take (endpointLength c.endpoint)).length = _
    rw [length_take, length_memory]
    exact Nat.min_eq_left (endpointLength_le c.endpoint).2

theorem connectsTo_process (tables : HistoryTables) (r : HistoryRequest) (memory : Nat → List UInt8) :
    ConnectsTo (connectWrites r) tables.connections (processRequest tables r memory).connections := by
  obtain ⟨peers, hconnections⟩ := processRequest_connections tables r memory
  rw [hconnections]
  have hwrites : connectWrites r = (connectWrites r).zipIdx.map (·.1) := by
    rw [zipIdx_map_fst]
  rw [show ConnectsTo (connectWrites r) = ConnectsTo ((connectWrites r).zipIdx.map (·.1)) from
    congrArg ConnectsTo hwrites]
  have hfold : ∀ (writes : List ((Peerid × HistoryConnect × Bool) × Nat)) (tables : HistoryTables),
      ConnectsTo (writes.map (·.1)) tables.connections (writes.foldl (fun tables write =>
        sqliteUpdateConnectIOProcessorImpl tables write.1.2.2 write.1.1 write.1.2.1 (memory write.2))
        tables).connections := by
    intro writes
    induction writes with
    | nil => exact fun tables => .nil _
    | cons write _ ih =>
      exact fun tables => (connectsTo_one tables write.1 (memory write.2)).trans (ih _)
  exact hfold _ { tables with peers }

theorem connectsTo_run (pendingLimit : UInt32) (events : List HistoryEvent) :
    ConnectsTo ((HistoryRun.ofEvents pendingLimit events).executed.flatMap connectWrites) []
      (HistoryRun.ofEvents pendingLimit events).tables.connections := by
  refine (run_preserves (fun run =>
    ConnectsTo (run.executed.flatMap connectWrites) [] run.tables.connections) ?_ ?_ ?_ events).1
  · exact .nil _
  · intro run r next _ h hreq
    cases hreq <;> exact h
  intro run memory next _ h hexec
  cases hexec with
  | idle => exact h
  | add n | update n =>
    show ConnectsTo ((run.executed ++ [n.content]).flatMap connectWrites) [] _
    rw [flatMap_append, flatMap_singleton]
    exact h.trans (connectsTo_process run.tables n.content memory)

end Bdt
