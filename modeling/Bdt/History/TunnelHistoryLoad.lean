import Bdt.History.TunnelHistory

/-!
# Loading the log of tcp tunnels

A model of `LoadTcpTunnelHistoryFromStorageCallback` and of `Bdt_TunnelHistoryGetTcpLog`.

`tcpLog_loads_iff`: what is loaded comes before what was recorded, and its local endpoints are found,
if and only if nothing is loaded. A loaded local endpoint that is new is not added to the map, and for
one that is in the map the entries that were recorded are looked for in front of the vector.
-/

namespace Bdt

open Base List Option

namespace Bdt_TunnelHistory

/-- An entry of a vector, by its distance from the start. There is nothing in front of it. -/
def entryAt (vector : List LogForRemoteEndpoint) (i : Int) : Option LogForRemoteEndpoint :=
  if 0 ≤ i then vector[i.toNat]? else none

/-- The second part of `OnLoadOneLog4LocalEndpointNoLock` merges `existRemoteEndpointSize` entries into
the loaded ones. `vector` is what the first part left. -/
def mergeRemotes (vector : List LogForRemoteEndpoint) (existRemoteEndpointSize : Nat)
    (newAddRemoteLog : Int) (remotes : List LogForRemoteEndpoint) :
    Option (List LogForRemoteEndpoint) :=
  match existRemoteEndpointSize with
  | 0 => some remotes
  | count + 1 => do
    let added ← entryAt vector newAddRemoteLog
    if remotes.any fun loaded => BdtEndpointCompare loaded.remote added.remote true = 0 then
      -- the entries are copied behind the pointer to the array, not behind the array
      if added.logVector = [] then mergeRemotes vector count (newAddRemoteLog + 1) remotes else none
    else mergeRemotes vector count (newAddRemoteLog + 1) (remotes ++ [added])

/-- `OnLoadOneLog4LocalEndpointNoLock`. -/
def onLoadOneLog (history : Bdt_TunnelHistory) (loadLog4Local : LogForLocalEndpoint) :
    Option Bdt_TunnelHistory := do
  let target := findMember LogForLocalEndpoint.compare history.tcpLogMap
    { localEndpoint := loadLog4Local.localEndpoint }
  let exist := target.elim [] (·.logForRemoteVector)
  -- `newAddRemoteLog` is `logsForRemote - existRemoteEndpointSize`
  let remotes ← mergeRemotes (loadLog4Local.logForRemoteVector ++ exist) exist.length (-exist.length)
    loadLog4Local.logForRemoteVector
  match target with
  -- the new node is not added to the map
  | none => some history
  | some _ => some { history with
      tcpLogMap := updateMember LogForLocalEndpoint.compare history.tcpLogMap
        { localEndpoint := loadLog4Local.localEndpoint } fun node =>
          { node with logForRemoteVector := remotes } }

/-- `LoadTcpTunnelHistoryFromStorageCallback`. -/
def onLoad (history : Bdt_TunnelHistory) (errorCode : UInt32) (loaded : List LogForLocalEndpoint) :
    Option Bdt_TunnelHistory :=
  if errorCode ≠ 0 then some history else loaded.foldlM onLoadOneLog history

/-- `Bdt_TunnelHistoryGetTcpLog`, which clears the logs of an endpoint that it does not find. -/
def getTcpLog (history : Bdt_TunnelHistory) (localEndpoint : List BdtEndpoint) :
    List (Option LogForLocalEndpoint) :=
  localEndpoint.map fun localEndpoint =>
    findMember LogForLocalEndpoint.compare history.tcpLogMap { localEndpoint }

/-! ## What a load is to do -/

/-- The loaded entries of a pair of endpoints. -/
def loadedLogs (loaded : List LogForLocalEndpoint) (pair : HostPair) : List TcpLog :=
  entriesOf LogForLocalEndpoint.host (fun node => logsOf node.logForRemoteVector pair.2) loaded pair.1

/-- The loaded entries come first, and the local endpoints are found. -/
structure Loads (history : Bdt_TunnelHistory) (loaded : List LogForLocalEndpoint)
    (next : Bdt_TunnelHistory) : Prop where
  logs : ∀ pair, next.logs pair = loadedLogs loaded pair ++ history.logs pair
  found : ∀ load ∈ loaded, none ∉ next.getTcpLog [load.localEndpoint]

inductive TcpLogEvent where
  | add (call : TcpLogCall)
  | load (errorCode : UInt32) (loaded : List LogForLocalEndpoint)
  deriving DecidableEq

/-- The history after an event. -/
def handleEvent (history : Bdt_TunnelHistory) : TcpLogEvent → Option Bdt_TunnelHistory
  | .add call => history.handle call
  | .load errorCode loaded => history.onLoad errorCode loaded

/-- A load that succeeds does what it is to do. -/
def LoadsRight (history : Bdt_TunnelHistory) : TcpLogEvent → Prop
  | .add _ => True
  | .load errorCode loaded => errorCode = 0 →
      ∃ next, history.onLoad errorCode loaded = some next ∧ history.Loads loaded next

/-- A load that succeeds loads nothing. -/
def LoadsNothing : TcpLogEvent → Prop
  | .add _ => True
  | .load errorCode loaded => errorCode = 0 → loaded = []

/-! ## Runs -/

variable {history next : Bdt_TunnelHistory}

/-- Every local endpoint of the map has remote endpoints. -/
def HasRemotes (history : Bdt_TunnelHistory) : Prop :=
  ∀ node ∈ history.tcpLogMap, node.logForRemoteVector ≠ []

theorem HasRemotes.pushLog (h : history.HasRemotes) {localEndpoint remoteEndpoint : BdtEndpoint}
    {log : TcpLog} (hnext : history.pushLog localEndpoint remoteEndpoint log = some next) :
    next.HasRemotes := by
  obtain ⟨kept, hkept, hnext⟩ := bind_eq_some_iff.mp hnext
  unfold makeRoom at hkept
  split at hkept
  case isTrue => cases hkept
  case isFalse =>
  cases hkept
  cases hnext
  intro node hmem
  split at hmem
  case h_1 =>
    rcases mem_cons.mp hmem with rfl | hmem
    · exact cons_ne_nil _ _
    · exact h node hmem
  case h_2 =>
  rcases mem_updateMember hmem with hmem | ⟨found, -, rfl⟩
  · exact h node hmem
  dsimp only
  split
  case h_1 => exact cons_ne_nil _ _
  case h_2 => exact append_ne_nil_of_right_ne_nil _ (cons_ne_nil _ _)

theorem HasRemotes.handle (h : history.HasRemotes) {call : TcpLogCall}
    (hnext : history.handle call = some next) : next.HasRemotes := by
  obtain ⟨added, hadded, rfl⟩ := map_eq_some_iff.mp hnext
  obtain ⟨⟨next, log, oldTimeStamp, merged⟩, himpl, rfl⟩ := map_eq_some_iff.mp hadded
  simp only [addTcpLogImpl] at himpl
  split at himpl
  case h_1 =>
    obtain ⟨_, hpush, heq⟩ := map_eq_some_iff.mp himpl
    cases heq
    exact h.pushLog hpush
  case h_2 i _ =>
  obtain ⟨log4Remote, -, himpl⟩ := bind_eq_some_iff.mp himpl
  obtain ⟨lastLog, -, himpl⟩ := bind_eq_some_iff.mp himpl
  split at himpl
  case isTrue =>
    cases some.inj himpl
    intro node hmem
    rcases mem_updateMember hmem with hmem | ⟨found, hfound, rfl⟩
    · exact h node hmem
    intro hnil
    refine h found (findMember_mem LogForLocalEndpoint.comparesBy hfound).1 ?_
    have hlength := congrArg List.length hnil
    rw [length_set] at hlength
    exact length_eq_zero_iff.mp hlength
  case isFalse =>
  obtain ⟨_, hpush, heq⟩ := map_eq_some_iff.mp himpl
  cases heq
  exact h.pushLog hpush

/-- A load does not put local endpoints into the map. -/
theorem onLoadOneLog_hosts {loadLog4Local : LogForLocalEndpoint}
    (hnext : history.onLoadOneLog loadLog4Local = some next) :
    next.tcpLogMap.map LogForLocalEndpoint.host = history.tcpLogMap.map LogForLocalEndpoint.host := by
  obtain ⟨remotes, -, hnext⟩ := bind_eq_some_iff.mp hnext
  split at hnext
  case h_1 =>
    cases hnext
    rfl
  case h_2 =>
    cases hnext
    exact map_updateMember fun _ => rfl

theorem foldlM_hosts {loaded : List LogForLocalEndpoint}
    (hnext : loaded.foldlM onLoadOneLog history = some next) :
    next.tcpLogMap.map LogForLocalEndpoint.host = history.tcpLogMap.map LogForLocalEndpoint.host := by
  induction loaded generalizing history with
  | nil => exact some.inj hnext ▸ rfl
  | cons _ _ ih =>
    rw [foldlM_cons] at hnext
    obtain ⟨middle, hmiddle, hnext⟩ := bind_eq_some_iff.mp hnext
    exact (ih hnext).trans (onLoadOneLog_hosts hmiddle)

theorem onLoadOneLog_known (h : history.HasRemotes) {loadLog4Local node : LogForLocalEndpoint}
    (hfind : findMember LogForLocalEndpoint.compare history.tcpLogMap
      { localEndpoint := loadLog4Local.localEndpoint } = some node) :
    history.onLoadOneLog loadLog4Local = none := by
  have hmem := (findMember_mem LogForLocalEndpoint.comparesBy hfind).1
  unfold onLoadOneLog
  simp only [hfind, elim_some]
  obtain ⟨count, hcount⟩ := Nat.exists_eq_succ_of_ne_zero fun hzero =>
    h node hmem (length_eq_zero_iff.mp hzero)
  have hfront : ¬ 0 ≤ -((count + 1 : Nat) : Int) := by omega
  rw [hcount]
  unfold mergeRemotes entryAt
  rw [if_neg hfront]
  rfl

theorem loads_iff (h : history.HasRemotes) (loaded : List LogForLocalEndpoint) :
    (∃ next, history.onLoad 0 loaded = some next ∧ history.Loads loaded next) ↔ loaded = [] := by
  constructor
  · intro hloads
    obtain ⟨next, hnext, hloads⟩ := hloads
    have hfold : loaded.foldlM onLoadOneLog history = some next := hnext
    cases loaded with
    | nil => rfl
    | cons first =>
      have hhosts := foldlM_hosts hfold
      rw [foldlM_cons] at hfold
      obtain ⟨middle, hmiddle, -⟩ := bind_eq_some_iff.mp hfold
      cases hfind : findMember LogForLocalEndpoint.compare history.tcpLogMap
          { localEndpoint := first.localEndpoint } with
      | some node =>
        rw [onLoadOneLog_known h hfind] at hmiddle
        cases hmiddle
      | none =>
        -- the endpoint is not in the map, before or after the load
        refine absurd (mem_singleton.mpr ?_) (hloads.found first mem_cons_self)
        refine ((findMember_eq_none LogForLocalEndpoint.comparesBy).mpr fun node hmem hsame => ?_).symm
        have hin := mem_map_of_mem (f := LogForLocalEndpoint.host) hmem
        rw [hhosts] at hin
        obtain ⟨other, hother, heq⟩ := mem_map.mp hin
        exact (findMember_eq_none LogForLocalEndpoint.comparesBy).mp hfind other hother
          (hsame.trans heq.symm)
  · intro hnil
    subst hnil
    exact ⟨history, rfl, fun _ => rfl, nofun⟩

/-- The loads of a run do what they are to do if and only if they load nothing. -/
theorem tcpLog_loads_iff (tcpLogCacheSize : UInt16) (events : List TcpLogEvent) :
    StepsMeet handleEvent LoadsRight { tcpLogCacheSize } events ↔
      StepsMeet handleEvent (fun _ => LoadsNothing) { tcpLogCacheSize } events := by
  have hstart : HasRemotes { tcpLogCacheSize } := nofun
  refine stepsMeet_congr hstart (fun history event next h hnothing hnext => ?_) fun history event h => ?_
  · cases event with
    | add => exact h.handle hnext
    | load errorCode loaded =>
      have hload : history.onLoad errorCode loaded = some next := hnext
      unfold onLoad at hload
      split at hload
      case isTrue => exact some.inj hload ▸ h
      case isFalse hzero =>
        rw [hnothing (not_not.mp hzero)] at hload
        exact some.inj hload ▸ h
  cases event with
  | add => exact Iff.rfl
  | load _ loaded =>
    refine imp_congr_right fun hzero => ?_
    rw [hzero]
    exact loads_iff h loaded

/-- The storage has an entry of one pair, and nothing was recorded. The local endpoint is not found. -/
theorem loaded_endpoint_lost :
    ∃ next, onLoad { tcpLogCacheSize := 100 } 0
        [{ localEndpoint := (twoRemotes 2).localEndpoint
           logForRemoteVector :=
            [{ remote := (twoRemotes 2).remoteEndpoint, logVector := [(twoRemotes 2).log] }] }] =
        some next ∧
      next.getTcpLog [(twoRemotes 2).localEndpoint] = [none] ∧ next.logs (twoRemotes 2).pair = [] := by
  refine ⟨{ tcpLogCacheSize := 100 }, ?_, rfl, rfl⟩
  decide +kernel

end Bdt_TunnelHistory

end Bdt
