import Bdt.Base.Transition
import Bdt.Global.Endpoint

/-!
# The log of tcp tunnels

A model of `Bdt_TunnelHistoryAddTcpLog` and of what it calls. The log is a map of local endpoints, each
with a vector of remote endpoints, each with a vector of entries. All of them are compared without
their ports, so the hosts of two endpoints are what an entry belongs to.

`tcpLog_adds_iff`: a call adds its entry as it should if and only if the entry is merged, or there is
room in the cache and the remote endpoint is the last one of its local endpoint, or the local endpoint
is new. In the other cases the entry goes to a remote endpoint that is not its own, or the null pointer
is read.
-/

namespace Bdt

open Base List Option

/-- `Bdt_TunnelHistoryTcpLogType`. -/
inductive TcpLogType where
  | connectFailed
  | connectActive
  | connectPassive
  | decryptFailed
  | decryptOk
  | handleFailed
  | handleOk
  deriving DecidableEq

/-- `Bdt_TunnelHistoryTcpLog`. -/
structure TcpLog where
  type : TcpLogType
  times : UInt32 := 1
  timestamp : Int
  deriving DecidableEq

/-- `Bdt_TunnelHistoryTcpLogForRemoteEndpoint`. -/
structure LogForRemoteEndpoint where
  remote : BdtEndpoint
  logVector : List TcpLog := []
  deriving DecidableEq

/-- `Bdt_TunnelHistoryTcpLogForLocalEndpoint`, and the node of the map that holds it. -/
structure LogForLocalEndpoint where
  localEndpoint : BdtEndpoint
  logForRemoteVector : List LogForRemoteEndpoint := []
  deriving DecidableEq

namespace LogForRemoteEndpoint

def host (log4Remote : LogForRemoteEndpoint) : UInt8 × List UInt8 :=
  log4Remote.remote.host

end LogForRemoteEndpoint

namespace LogForLocalEndpoint

def host (node : LogForLocalEndpoint) : UInt8 × List UInt8 :=
  node.localEndpoint.host

/-- `tcp_log_map_compare`. -/
def compare (left right : LogForLocalEndpoint) : Int :=
  BdtEndpointCompare left.localEndpoint right.localEndpoint true

theorem comparesBy : ComparesBy compare host :=
  fun left right => host_comparesBy left.localEndpoint right.localEndpoint

end LogForLocalEndpoint

/-- The members of the tunnel's history that its log uses. -/
structure Bdt_TunnelHistory where
  tcpLogMap : List LogForLocalEndpoint := []
  logCount : Int := 0
  tcpLogCacheSize : UInt16
  deriving DecidableEq

/-- What `BdtHistory_UpdateTunnelHistoryTcpLog` is called with. -/
structure TcpLogUpdate where
  localEndpoint : BdtEndpoint
  remoteEndpoint : BdtEndpoint
  type : TcpLogType
  times : UInt32
  timestamp : Int
  oldTimeStamp : Int
  isNew : Bool
  deriving DecidableEq

/-- A call of `Bdt_TunnelHistoryAddTcpLog`, at the time `now`. -/
structure TcpLogCall where
  localEndpoint : BdtEndpoint
  remoteEndpoint : BdtEndpoint
  type : TcpLogType
  now : Int
  deriving DecidableEq

namespace Bdt_TunnelHistory

/-- The first loop of `TunnelHistoryAddTcpLogImplNoLock` finds where `lastLog` is: behind the logs of
the last remote endpoint that compares equal, if there is one. It goes on to the end of the vector. -/
def findLastLog (remoteEndpoint : BdtEndpoint) : List LogForRemoteEndpoint → Nat → Option Nat → Option Nat
  | [], _, lastLog => lastLog
  | log4Remote :: rest, i, lastLog =>
    findLastLog remoteEndpoint rest (i + 1)
      (if BdtEndpointCompare log4Remote.remote remoteEndpoint true = 0 then some i else lastLog)

/-- The eviction. `discardLogVector` is taken from `discardRemoteVector`, which is the null pointer,
before the map is searched, so nothing behind that is reached. -/
def discard (_history : Bdt_TunnelHistory) : Option Bdt_TunnelHistory := none

def makeRoom (history : Bdt_TunnelHistory) : Option Bdt_TunnelHistory :=
  if history.tcpLogCacheSize.toNat ≤ history.logCount then history.discard else some history

/-- What `TunnelHistoryAddTcpLogImplNoLock` does with an entry that is not merged. `log4Remote` is the
remote endpoint that the first loop looked at last. -/
def pushLog (history : Bdt_TunnelHistory) (localEndpoint remoteEndpoint : BdtEndpoint)
    (log : TcpLog) : Option Bdt_TunnelHistory := do
  let target := findMember LogForLocalEndpoint.compare history.tcpLogMap { localEndpoint }
  let history ← history.makeRoom
  let tcpLogMap :=
    match target with
    | none => { localEndpoint, logForRemoteVector := [{ remote := remoteEndpoint, logVector := [log] }] } ::
        history.tcpLogMap
    | some _ => updateMember LogForLocalEndpoint.compare history.tcpLogMap { localEndpoint } fun node =>
      { node with
        logForRemoteVector :=
          match node.logForRemoteVector.getLast? with
          | none => [{ remote := remoteEndpoint, logVector := [log] }]
          | some log4Remote => node.logForRemoteVector.dropLast ++
              [{ log4Remote with logVector := log4Remote.logVector ++ [log] }] }
  some { history with tcpLogMap, logCount := history.logCount + 1 }

/-- `TunnelHistoryAddTcpLogImplNoLock`, with `*inoutLog`, `*oldTimeStamp` and `*outMerged`. -/
def addTcpLogImpl (history : Bdt_TunnelHistory) (localEndpoint remoteEndpoint : BdtEndpoint)
    (log : TcpLog) : Option (Bdt_TunnelHistory × TcpLog × Int × Bool) :=
  let found := (findMember LogForLocalEndpoint.compare history.tcpLogMap { localEndpoint }).elim []
    (·.logForRemoteVector)
  match findLastLog remoteEndpoint found 0 none with
  | none => (history.pushLog localEndpoint remoteEndpoint log).map fun next => (next, log, 0, false)
  | some i => do
    let log4Remote ← found[i]?
    -- there is nothing in front of an empty vector
    let lastLog ← log4Remote.logVector.getLast?
    if lastLog.type = log.type then
      let merged := { lastLog with times := lastLog.times + 1 }
      let tcpLogMap := updateMember LogForLocalEndpoint.compare history.tcpLogMap { localEndpoint }
        fun node => { node with
          logForRemoteVector := node.logForRemoteVector.set i
            { log4Remote with logVector := log4Remote.logVector.dropLast ++ [merged] } }
      some ({ history with tcpLogMap }, merged, lastLog.timestamp, true)
    else
      (history.pushLog localEndpoint remoteEndpoint log).map fun next =>
        (next, log, lastLog.timestamp, false)

/-- `Bdt_TunnelHistoryAddTcpLog`, with what it has the storage update. -/
def addTcpLog (history : Bdt_TunnelHistory) (call : TcpLogCall) :
    Option (Bdt_TunnelHistory × TcpLogUpdate) :=
  (history.addTcpLogImpl call.localEndpoint call.remoteEndpoint
      { type := call.type, timestamp := call.now }).map fun (next, log, oldTimeStamp, merged) =>
    (next,
      { localEndpoint := call.localEndpoint
        remoteEndpoint := call.remoteEndpoint
        type := call.type
        times := log.times
        timestamp := log.timestamp
        oldTimeStamp
        isNew := !merged })

/-- The history after a call. -/
def handle (history : Bdt_TunnelHistory) (call : TcpLogCall) : Option Bdt_TunnelHistory :=
  (history.addTcpLog call).map Prod.fst

/-! ## What adding an entry is to do -/

/-- The entries of a pair of endpoints, the oldest first. -/
def logsOf (remotes : List LogForRemoteEndpoint) (host : UInt8 × List UInt8) : List TcpLog :=
  entriesOf LogForRemoteEndpoint.host LogForRemoteEndpoint.logVector remotes host

/-- The hosts of a local and a remote endpoint. -/
abbrev HostPair := (UInt8 × List UInt8) × (UInt8 × List UInt8)

def logs (history : Bdt_TunnelHistory) (pair : HostPair) : List TcpLog :=
  entriesOf LogForLocalEndpoint.host (fun node => logsOf node.logForRemoteVector pair.2) history.tcpLogMap
    pair.1

/-- The number of entries that are stored. -/
def stored (history : Bdt_TunnelHistory) : Nat :=
  (history.tcpLogMap.map fun node =>
    (node.logForRemoteVector.map fun log4Remote => log4Remote.logVector.length).sum).sum

/-- The latest entry of a pair has this type. -/
def LatestType (entries : List TcpLog) (type : TcpLogType) : Prop :=
  entries.getLast?.map TcpLog.type = some type

/-- An entry is merged with the latest one of its pair, or added behind it, in place of the oldest of
all if there is no room. -/
inductive Adds (cacheSize : Nat) (entries : HostPair → List TcpLog) (count : Int) (pair : HostPair)
    (log : TcpLog) : (HostPair → List TcpLog) → Prop where
  | merged (before : List TcpLog) (last : TcpLog) :
      entries pair = before ++ [last] → last.type = log.type →
      Adds cacheSize entries count pair log
        (Function.update entries pair (before ++ [{ last with times := last.times + 1 }]))
  | added :
      ¬ LatestType (entries pair) log.type → count < cacheSize ∨ count = 0 →
      Adds cacheSize entries count pair log (Function.update entries pair (entries pair ++ [log]))
  | evicted (other : HostPair) (oldest : TcpLog) (behind : List TcpLog) :
      ¬ LatestType (entries pair) log.type → cacheSize ≤ count →
      entries other = oldest :: behind →
      (∀ any, ∀ entry ∈ entries any, oldest.timestamp ≤ entry.timestamp) →
      Adds cacheSize entries count pair log
        (Function.update (Function.update entries other behind) pair
          (Function.update entries other behind pair ++ [log]))

end Bdt_TunnelHistory

namespace TcpLogCall

def pair (call : TcpLogCall) : Bdt_TunnelHistory.HostPair :=
  (call.localEndpoint.host, call.remoteEndpoint.host)

def log (call : TcpLogCall) : TcpLog where
  type := call.type
  timestamp := call.now

end TcpLogCall

namespace Bdt_TunnelHistory

/-- A call returns, and adds its entry as it should. -/
def Records (history : Bdt_TunnelHistory) (call : TcpLogCall) : Prop :=
  ∃ next, history.handle call = some next ∧
    Adds history.tcpLogCacheSize.toNat history.logs history.logCount call.pair call.log next.logs ∧
    next.logCount = next.stored ∧ next.logCount ≤ next.tcpLogCacheSize.toNat + 1

/-- The remote endpoint is the last one of its local endpoint. -/
def LastRemote (history : Bdt_TunnelHistory) (call : TcpLogCall) : Prop :=
  ∀ node ∈ history.tcpLogMap, node.host = call.localEndpoint.host →
    node.logForRemoteVector.getLast?.map LogForRemoteEndpoint.host = some call.remoteEndpoint.host

/-- The entry is merged, or there is room for it where it is put. -/
def HasRoom (history : Bdt_TunnelHistory) (call : TcpLogCall) : Prop :=
  LatestType (history.logs call.pair) call.type ∨
    (history.logCount < history.tcpLogCacheSize.toNat ∧ history.LastRemote call)

/-! ## The first loop -/

variable {history next : Bdt_TunnelHistory} {call : TcpLogCall}

variable {remoteEndpoint : BdtEndpoint}

theorem findLastLog_none {remotes : List LogForRemoteEndpoint}
    (h : ∀ other ∈ remotes, other.host ≠ remoteEndpoint.host) (i : Nat) (lastLog : Option Nat) :
    findLastLog remoteEndpoint remotes i lastLog = lastLog := by
  induction remotes generalizing i with
  | nil => rfl
  | cons first _ ih =>
    unfold findLastLog
    rw [if_neg, ih fun other hmem => h other (mem_cons_of_mem _ hmem)]
    intro hsame
    exact h first mem_cons_self ((host_comparesBy first.remote remoteEndpoint).mp hsame)

theorem findLastLog_found {front back : List LogForRemoteEndpoint}
    {log4Remote : LogForRemoteEndpoint} (hsame : log4Remote.host = remoteEndpoint.host)
    (h : ∀ other ∈ back, other.host ≠ remoteEndpoint.host) (i : Nat) (lastLog : Option Nat) :
    findLastLog remoteEndpoint (front ++ log4Remote :: back) i lastLog = some (i + front.length) := by
  induction front generalizing i lastLog with
  | nil =>
    show findLastLog remoteEndpoint (log4Remote :: back) i lastLog = some i
    unfold findLastLog
    rw [findLastLog_none h, if_pos]
    exact (host_comparesBy log4Remote.remote remoteEndpoint).mpr hsame
  | cons first front ih =>
    show findLastLog remoteEndpoint (first :: (front ++ log4Remote :: back)) i lastLog = _
    unfold findLastLog
    rw [ih, length_cons, Nat.add_assoc, Nat.add_comm 1]

/-! ## What the map holds -/

/-- How the history is kept. -/
structure Kept (history : Bdt_TunnelHistory) : Prop where
  nodes : (history.tcpLogMap.map LogForLocalEndpoint.host).Nodup
  remotes : ∀ node ∈ history.tcpLogMap, (node.logForRemoteVector.map LogForRemoteEndpoint.host).Nodup
  filled : ∀ node ∈ history.tcpLogMap, node.logForRemoteVector ≠ [] ∧
    ∀ log4Remote ∈ node.logForRemoteVector, log4Remote.logVector ≠ []
  counted : history.logCount = history.stored
  room : history.logCount ≤ history.tcpLogCacheSize.toNat

theorem kept_start (tcpLogCacheSize : UInt16) : Kept { tcpLogCacheSize } where
  nodes := nodup_nil
  remotes := nofun
  filled := nofun
  counted := rfl
  room := Int.natCast_nonneg _

/-- One vector of entries is another one. -/
structure Replaces (history next : Bdt_TunnelHistory) (node : LogForLocalEndpoint)
    (log4Remote : LogForRemoteEndpoint) (logVector : List TcpLog) : Prop where
  map : ∃ before behind front back, node.logForRemoteVector = front ++ log4Remote :: back ∧
    history.tcpLogMap = before ++ node :: behind ∧
    next.tcpLogMap = before ++ { node with
      logForRemoteVector := front ++ { log4Remote with logVector } :: back } :: behind
  size : next.tcpLogCacheSize = history.tcpLogCacheSize

variable {node : LogForLocalEndpoint} {log4Remote : LogForRemoteEndpoint} {logVector : List TcpLog}

section

variable (h : Replaces history next node log4Remote logVector)
include h

theorem Replaces.logs_eq (hkept : history.Kept) :
    next.logs = Function.update history.logs (node.host, log4Remote.host) logVector := by
  obtain ⟨before, behind, front, back, hremotes, hmap, hnext⟩ := h.map
  have hmem : node ∈ history.tcpLogMap := hmap ▸ mem_append_right _ mem_cons_self
  have hnodes := hkept.nodes
  have hkeys := hkept.remotes node hmem
  rw [hmap] at hnodes
  rw [hremotes] at hkeys
  funext pair
  show entriesOf _ _ next.tcpLogMap pair.1 = _
  rw [hnext]
  refine (entriesOf_change hnodes ?_ pair.1).trans ?_
  · rfl
  have hvector : logsOf (front ++ { log4Remote with logVector } :: back) pair.2 =
      if log4Remote.host = pair.2 then logVector else logsOf node.logForRemoteVector pair.2 := by
    rw [hremotes]
    refine (entriesOf_change hkeys ?_ pair.2).trans ?_ <;> rfl
  have hold : history.logs pair = entriesOf LogForLocalEndpoint.host
      (fun node => logsOf node.logForRemoteVector pair.2) (before ++ node :: behind) pair.1 := by
    rw [← hmap]
    rfl
  rw [entriesOf_split hnodes] at hold ⊢
  by_cases hpair : pair = (node.host, log4Remote.host)
  · subst hpair
    rw [Function.update_self, if_pos rfl]
    exact hvector.trans (if_pos rfl)
  rw [Function.update_of_ne hpair, hold]
  split
  case isTrue hlocal =>
    exact hvector.trans (if_neg fun hremote => hpair (Prod.ext hlocal.symm hremote.symm))
  case isFalse => rfl

theorem Replaces.stored_eq :
    next.stored + log4Remote.logVector.length = history.stored + logVector.length := by
  obtain ⟨before, behind, front, back, hremotes, hmap, hnext⟩ := h.map
  unfold stored
  rw [hmap, hnext]
  simp only [map_append, map_cons, sum_append, sum_cons, hremotes]
  omega

theorem Replaces.kept (hkept : history.Kept)
    (hlogVector : logVector ≠ []) (hcounted : next.logCount = next.stored)
    (hroom : next.logCount ≤ next.tcpLogCacheSize.toNat) : next.Kept := by
  obtain ⟨before, behind, front, back, hremotes, hmap, hnext⟩ := h.map
  have hmem : node ∈ history.tcpLogMap := hmap ▸ mem_append_right _ mem_cons_self
  have hother : ∀ other ∈ next.tcpLogMap, other ∈ history.tcpLogMap ∨ other = { node with
      logForRemoteVector := front ++ { log4Remote with logVector } :: back } := by
    intro other hin
    rw [hnext] at hin
    rw [hmap]
    rcases mem_append.mp hin with hin | hin
    · exact .inl (mem_append_left _ hin)
    · rcases mem_cons.mp hin with hin | hin
      · exact .inr hin
      · exact .inl (mem_append_right _ (mem_cons_of_mem _ hin))
  refine ⟨?_, fun other hin => ?_, fun other hin => ?_, hcounted, hroom⟩
  · have hnodes := hkept.nodes
    rw [hmap] at hnodes
    rw [hnext]
    rw [map_append, map_cons] at hnodes ⊢
    exact hnodes
  · rcases hother other hin with hin | rfl
    · exact hkept.remotes other hin
    have hkeys := hkept.remotes node hmem
    rw [hremotes] at hkeys
    rw [map_append, map_cons] at hkeys ⊢
    exact hkeys
  rcases hother other hin with hin | rfl
  · exact hkept.filled other hin
  have hfilled := (hkept.filled node hmem).2
  rw [hremotes] at hfilled
  refine ⟨append_ne_nil_of_right_ne_nil _ (cons_ne_nil _ _), fun any hany => ?_⟩
  rcases mem_append.mp hany with hany | hany
  · exact hfilled any (mem_append_left _ hany)
  · rcases mem_cons.mp hany with rfl | hany
    · exact hlogVector
    · exact hfilled any (mem_append_right _ (mem_cons_of_mem _ hany))

end

/-! ## One call -/

section

variable (hkept : history.Kept)
include hkept

theorem logs_found (hnode : node ∈ history.tcpLogMap)
    (hremote : log4Remote ∈ node.logForRemoteVector) :
    history.logs (node.host, log4Remote.host) = log4Remote.logVector := by
  unfold logs
  rw [entriesOf_found hkept.nodes hnode]
  exact entriesOf_found (hkept.remotes node hnode) hremote

theorem exists_of_logs {pair : HostPair} (h : history.logs pair ≠ []) :
    ∃ node ∈ history.tcpLogMap, ∃ log4Remote ∈ node.logForRemoteVector, node.host = pair.1 ∧
      log4Remote.host = pair.2 ∧ history.logs pair = log4Remote.logVector := by
  obtain ⟨node, hnode, hlocal, hlogs⟩ := exists_of_entriesOf h
  obtain ⟨log4Remote, hmem, hremote, -⟩ := exists_of_entriesOf hlogs
  refine ⟨node, hnode, log4Remote, hmem, hlocal, hremote, ?_⟩
  rw [← logs_found hkept hnode hmem, hlocal, hremote]

theorem find_of_host (hnode : node ∈ history.tcpLogMap)
    {localEndpoint : BdtEndpoint} (hlocal : node.host = localEndpoint.host) :
    findMember LogForLocalEndpoint.compare history.tcpLogMap { localEndpoint } = some node :=
  (findMember_eq_some LogForLocalEndpoint.comparesBy hkept.nodes).mpr ⟨hnode, hlocal.symm⟩

theorem findLastLog_eq (hnode : node ∈ history.tcpLogMap)
    (hmem : log4Remote ∈ node.logForRemoteVector)
    (hremote : log4Remote.host = remoteEndpoint.host) :
    ∃ front back, node.logForRemoteVector = front ++ log4Remote :: back ∧
      findLastLog remoteEndpoint node.logForRemoteVector 0 none = some front.length ∧
      node.logForRemoteVector[front.length]? = some log4Remote := by
  obtain ⟨front, back, hremotes⟩ := append_of_mem hmem
  have hkeys := hkept.remotes node hnode
  rw [hremotes, map_append, map_cons, nodup_append, List.nodup_cons] at hkeys
  obtain ⟨-, ⟨hback, -⟩, -⟩ := hkeys
  refine ⟨front, back, hremotes, ?_, ?_⟩
  · rw [hremotes, findLastLog_found hremote fun other hmem hsame => hback ?_, Nat.zero_add]
    exact List.mem_map.mpr ⟨other, hmem, hsame.trans hremote.symm⟩
  · rw [hremotes, List.getElem?_append_right (Nat.le_refl _), Nat.sub_self]
    rfl

/-- What the storage is told of an entry that is merged with the last one. -/
def mergedUpdate (call : TcpLogCall) (last : TcpLog) : TcpLogUpdate where
  localEndpoint := call.localEndpoint
  remoteEndpoint := call.remoteEndpoint
  type := call.type
  times := last.times + 1
  timestamp := last.timestamp
  oldTimeStamp := last.timestamp
  isNew := false

/-- What the storage is told of an entry that is added. -/
def addedUpdate (call : TcpLogCall) (oldTimeStamp : Int) : TcpLogUpdate where
  localEndpoint := call.localEndpoint
  remoteEndpoint := call.remoteEndpoint
  type := call.type
  times := 1
  timestamp := call.now
  oldTimeStamp
  isNew := true

theorem addTcpLog_merged (hlatest : LatestType (history.logs call.pair) call.type) :
    ∃ next node log4Remote before last,
      history.addTcpLog call = some (next, mergedUpdate call last) ∧
      (node.host, log4Remote.host) = call.pair ∧ history.logs call.pair = before ++ [last] ∧
      log4Remote.logVector = before ++ [last] ∧ last.type = call.type ∧
      Replaces history next node log4Remote (before ++ [{ last with times := last.times + 1 }]) ∧
      next.logCount = history.logCount := by
  obtain ⟨last, hlast, htype⟩ := map_eq_some_iff.mp hlatest
  obtain ⟨before, hlogs⟩ := List.getLast?_eq_some_iff.mp hlast
  obtain ⟨node, hnode, log4Remote, hmem, hlocal, hremote, hvector⟩ := exists_of_logs hkept
    (hlogs ▸ append_ne_nil_of_right_ne_nil before (cons_ne_nil last []))
  obtain ⟨front, back, hremotes, hindex, hget⟩ := findLastLog_eq hkept hnode hmem hremote
  have hfind := find_of_host hkept hnode hlocal
  have hlastLog : log4Remote.logVector.getLast? = some last := hvector ▸ hlast
  have hbefore : log4Remote.logVector.dropLast = before := by
    rw [← hvector, hlogs, dropLast_concat]
  have hadd : history.addTcpLog call = some ({ history with
      tcpLogMap := updateMember LogForLocalEndpoint.compare history.tcpLogMap
        { localEndpoint := call.localEndpoint } fun node => { node with
          logForRemoteVector := node.logForRemoteVector.set front.length
            { log4Remote with
              logVector := log4Remote.logVector.dropLast ++ [{ last with times := last.times + 1 }] } } },
      mergedUpdate call last) := by
    unfold addTcpLog addTcpLogImpl
    simp only [hfind, elim_some, hindex, hget, hlastLog, bind_eq_bind,
      bind_some, htype, if_true, map_some]
    rfl
  obtain ⟨others, behind, hmap, hnext⟩ := updateMember_split _ hfind
  refine ⟨_, node, log4Remote, before, last, hadd, Prod.ext hlocal hremote, hlogs, hvector ▸ hlogs,
    htype, ⟨⟨others, behind, front, back, hremotes, hmap, hnext.trans ?_⟩, rfl⟩, rfl⟩
  rw [hbefore, hremotes, set_append_right (h := Nat.le_refl _), Nat.sub_self]
  rfl

section

variable (hlatest : ¬ LatestType (history.logs call.pair) call.type)
include hlatest

theorem addTcpLogImpl_pushed :
    ∃ oldTimeStamp, history.addTcpLogImpl call.localEndpoint call.remoteEndpoint call.log =
      (history.pushLog call.localEndpoint call.remoteEndpoint call.log).map fun next =>
        (next, call.log, oldTimeStamp, false) := by
  by_cases hexists : ∃ node ∈ history.tcpLogMap, node.host = call.localEndpoint.host ∧
      ∃ log4Remote ∈ node.logForRemoteVector, log4Remote.host = call.remoteEndpoint.host
  · obtain ⟨node, hnode, hlocal, log4Remote, hmem, hremote⟩ := hexists
    obtain ⟨front, back, hremotes, hindex, hget⟩ := findLastLog_eq hkept hnode hmem hremote
    have hfind := find_of_host hkept hnode hlocal
    obtain ⟨last, hlast⟩ := ne_none_iff_exists'.mp fun hnone =>
      (hkept.filled node hnode).2 log4Remote hmem (List.getLast?_eq_none_iff.mp hnone)
    have htype : last.type ≠ call.log.type := by
      intro heq
      have hlogs := logs_found hkept hnode hmem
      rw [hlocal, hremote] at hlogs
      refine hlatest ?_
      unfold LatestType TcpLogCall.pair
      rw [hlogs, hlast]
      exact congrArg some heq
    refine ⟨last.timestamp, ?_⟩
    unfold addTcpLogImpl
    simp only [hfind, elim_some, hindex, hget, hlast, bind_eq_bind, bind_some, htype, if_false]
  refine ⟨0, ?_⟩
  unfold addTcpLogImpl
  have hnone : findLastLog call.remoteEndpoint
      ((findMember LogForLocalEndpoint.compare history.tcpLogMap
        { localEndpoint := call.localEndpoint }).elim [] (·.logForRemoteVector)) 0 none = none := by
    refine findLastLog_none (fun other hmem hremote => ?_) 0 none
    cases hfind : findMember LogForLocalEndpoint.compare history.tcpLogMap
        { localEndpoint := call.localEndpoint } with
    | none =>
      rw [hfind] at hmem
      cases hmem
    | some node =>
      rw [hfind] at hmem
      obtain ⟨hnode, hlocal⟩ := findMember_mem LogForLocalEndpoint.comparesBy hfind
      exact hexists ⟨node, hnode, hlocal.symm, other, hmem, hremote⟩
  simp only [hnone]

theorem addTcpLog_pushed :
    ∃ oldTimeStamp, history.addTcpLog call =
      (history.pushLog call.localEndpoint call.remoteEndpoint call.log).map fun next =>
        (next, addedUpdate call oldTimeStamp) := by
  obtain ⟨oldTimeStamp, himpl⟩ := addTcpLogImpl_pushed hkept hlatest
  refine ⟨oldTimeStamp, ?_⟩
  show (history.addTcpLogImpl call.localEndpoint call.remoteEndpoint call.log).map _ = _
  rw [himpl, Option.map_map]
  rfl

theorem handle_pushed :
    history.handle call = history.pushLog call.localEndpoint call.remoteEndpoint call.log := by
  obtain ⟨oldTimeStamp, hadd⟩ := addTcpLog_pushed hkept hlatest
  unfold handle
  rw [hadd, Option.map_map]
  exact Option.map_id'

end

theorem pushLog_last (hnode : node ∈ history.tcpLogMap)
    (hlocal : node.host = call.localEndpoint.host)
    (hroom : history.logCount < history.tcpLogCacheSize.toNat) :
    ∃ next log4Remote,
      history.pushLog call.localEndpoint call.remoteEndpoint call.log = some next ∧
      node.logForRemoteVector.getLast? = some log4Remote ∧
      Replaces history next node log4Remote (log4Remote.logVector ++ [call.log]) ∧
      next.logCount = history.logCount + 1 := by
  have hfind := find_of_host hkept hnode hlocal
  obtain ⟨log4Remote, hlast⟩ := ne_none_iff_exists'.mp fun hnone =>
    (hkept.filled node hnode).1 (List.getLast?_eq_none_iff.mp hnone)
  obtain ⟨front, hremotes⟩ := List.getLast?_eq_some_iff.mp hlast
  have hpush : history.pushLog call.localEndpoint call.remoteEndpoint call.log = some { history with
      tcpLogMap := updateMember LogForLocalEndpoint.compare history.tcpLogMap
        { localEndpoint := call.localEndpoint } fun node => { node with
          logForRemoteVector :=
            match node.logForRemoteVector.getLast? with
            | none => [{ remote := call.remoteEndpoint, logVector := [call.log] }]
            | some log4Remote => node.logForRemoteVector.dropLast ++
                [{ log4Remote with logVector := log4Remote.logVector ++ [call.log] }] }
      logCount := history.logCount + 1 } := by
    unfold pushLog makeRoom
    simp only [hfind, if_neg (Int.not_le.mpr hroom), bind_eq_bind, bind_some]
  obtain ⟨others, behind, hmap, hnext⟩ := updateMember_split _ hfind
  refine ⟨_, log4Remote, hpush, hlast,
    ⟨⟨others, behind, front, [], hremotes, hmap, hnext.trans ?_⟩, rfl⟩, rfl⟩
  simp only [hlast]
  rw [hremotes, dropLast_concat]

end

/-- The history with a node for the local endpoint, which has the entry. -/
def withNode (history : Bdt_TunnelHistory) (call : TcpLogCall) : Bdt_TunnelHistory :=
  { history with
    tcpLogMap :=
      { localEndpoint := call.localEndpoint
        logForRemoteVector := [{ remote := call.remoteEndpoint, logVector := [call.log] }] } ::
        history.tcpLogMap
    logCount := history.logCount + 1 }

theorem pushLog_new (hnew : ∀ node ∈ history.tcpLogMap, node.host ≠ call.localEndpoint.host)
    (hroom : history.logCount < history.tcpLogCacheSize.toNat) :
    history.pushLog call.localEndpoint call.remoteEndpoint call.log =
      some (history.withNode call) := by
  have hfind : findMember LogForLocalEndpoint.compare history.tcpLogMap
      { localEndpoint := call.localEndpoint } = none :=
    (findMember_eq_none LogForLocalEndpoint.comparesBy).mpr fun node hmem hsame =>
      hnew node hmem hsame.symm
  unfold pushLog makeRoom withNode
  simp only [hfind, if_neg (Int.not_le.mpr hroom), bind_eq_bind, bind_some]

theorem pushLog_full (hfull : ¬ history.logCount < history.tcpLogCacheSize.toNat) :
    history.pushLog call.localEndpoint call.remoteEndpoint call.log = none := by
  unfold pushLog makeRoom
  simp only [if_pos (Int.not_lt.mp hfull), discard, bind_eq_bind, bind_none]

/-! ## Runs -/

theorem latestType_concat {before : List TcpLog} {last : TcpLog} {type : TcpLogType} :
    LatestType (before ++ [last]) type ↔ last.type = type := by
  unfold LatestType
  rw [List.getLast?_concat, map_some, some_inj]

theorem logs_new (hnew : ∀ node ∈ history.tcpLogMap, node.host ≠ call.localEndpoint.host) :
    (history.withNode call).logs =
      Function.update history.logs call.pair (history.logs call.pair ++ [call.log]) := by
  have hnone : ∀ pair : HostPair, pair.1 = call.localEndpoint.host → history.logs pair = [] :=
    fun pair heq => entriesOf_eq_nil fun node hmem hsame => hnew node hmem (hsame.trans heq)
  funext pair
  show entriesOf _ _ (history.withNode call).tcpLogMap pair.1 = _
  rw [withNode, entriesOf_cons]
  show (if call.localEndpoint.host = pair.1 then
    entriesOf _ _ [_] pair.2 else []) ++ history.logs pair = _
  rw [entriesOf_singleton]
  by_cases hpair : pair = call.pair
  · subst hpair
    rw [Function.update_self, hnone call.pair rfl, append_nil]
    exact (if_pos rfl).trans (if_pos rfl)
  rw [Function.update_of_ne hpair]
  split
  case isTrue hlocal =>
    rw [hnone pair hlocal.symm, append_nil]
    exact if_neg fun hremote => hpair (Prod.ext hlocal.symm hremote.symm)
  case isFalse => rfl

theorem kept_new (hkept : history.Kept)
    (hnew : ∀ node ∈ history.tcpLogMap, node.host ≠ call.localEndpoint.host)
    (hroom : history.logCount < history.tcpLogCacheSize.toNat) :
    (history.withNode call).Kept where
  nodes := by
    refine List.nodup_cons.mpr ⟨fun hmem => ?_, hkept.nodes⟩
    obtain ⟨node, hnode, hsame⟩ := List.mem_map.mp hmem
    exact hnew node hnode hsame
  remotes := by
    intro node hmem
    rcases mem_cons.mp hmem with rfl | hmem
    · exact nodup_singleton _
    · exact hkept.remotes node hmem
  filled := by
    intro node hmem
    rcases mem_cons.mp hmem with rfl | hmem
    · refine ⟨cons_ne_nil _ _, fun other hother => ?_⟩
      obtain rfl := mem_singleton.mp hother
      exact cons_ne_nil _ _
    · exact hkept.filled node hmem
  counted := by
    have hcounted := hkept.counted
    unfold stored at hcounted ⊢
    simp only [withNode, map_cons, sum_cons, map_nil, sum_nil, length_singleton]
    omega
  room := hroom

theorem handle_hasRoom (hkept : history.Kept) (hroom : history.HasRoom call) :
    ∃ next, history.handle call = some next ∧
      Adds history.tcpLogCacheSize.toNat history.logs history.logCount call.pair call.log next.logs ∧
      next.Kept := by
  by_cases hlatest : LatestType (history.logs call.pair) call.type
  · obtain ⟨next, node, log4Remote, before, last, hadd, hpair, hlogs, hvector, htype, hreplaces,
      hcount⟩ := addTcpLog_merged hkept hlatest
    have heq := hreplaces.logs_eq hkept
    have hstored := hreplaces.stored_eq
    rw [hvector, length_append, length_append, length_singleton, length_singleton] at hstored
    have hcounted := hkept.counted
    have hfits := hkept.room
    refine ⟨next, congrArg (Option.map Prod.fst) hadd, ?_, hreplaces.kept hkept ?_ (by omega) ?_⟩
    · rw [heq, hpair]
      exact .merged before last hlogs htype
    · exact append_ne_nil_of_right_ne_nil before (cons_ne_nil _ [])
    · rw [hcount, hreplaces.size]
      exact hfits
  obtain ⟨hfree, hplace⟩ := hroom.resolve_left hlatest
  rw [handle_pushed hkept hlatest]
  by_cases hnew : ∃ node ∈ history.tcpLogMap, node.host = call.localEndpoint.host
  · obtain ⟨node, hnode, hlocal⟩ := hnew
    obtain ⟨next, log4Remote, hnext, hlast, hreplaces, hcount⟩ := pushLog_last hkept hnode hlocal hfree
    have hremote := hplace node hnode hlocal
    rw [hlast] at hremote
    have hpair : (node.host, log4Remote.host) = call.pair :=
      Prod.ext hlocal (some.inj hremote)
    have hmem := List.mem_of_getLast? hlast
    have heq := hreplaces.logs_eq hkept
    have hstored := hreplaces.stored_eq
    rw [length_append, length_singleton] at hstored
    have hcounted := hkept.counted
    refine ⟨next, hnext, ?_, hreplaces.kept hkept ?_ (by omega) ?_⟩
    · rw [heq, ← logs_found hkept hnode hmem, hpair]
      exact .added hlatest (.inl hfree)
    · exact append_ne_nil_of_right_ne_nil _ (cons_ne_nil _ [])
    · rw [hcount, hreplaces.size]
      exact hfree
  have hnone : ∀ node ∈ history.tcpLogMap, node.host ≠ call.localEndpoint.host :=
    fun node hnode hlocal => hnew ⟨node, hnode, hlocal⟩
  refine ⟨_, pushLog_new hnone hfree, ?_, kept_new hkept hnone hfree⟩
  rw [logs_new hnone]
  exact .added hlatest (.inl hfree)

theorem records_iff (hkept : history.Kept) : history.Records call ↔ history.HasRoom call := by
  constructor
  · intro h
    by_contra hroom
    obtain ⟨hlatest, hplace⟩ := not_or.mp hroom
    obtain ⟨next, hnext, hadds, -, -⟩ := h
    rw [handle_pushed hkept hlatest] at hnext
    by_cases hfree : history.logCount < history.tcpLogCacheSize.toNat
    · obtain ⟨node, hwrong⟩ := not_forall.mp fun hall : history.LastRemote call => hplace ⟨hfree, hall⟩
      obtain ⟨hmem, hwrong⟩ := Classical.not_imp.mp hwrong
      obtain ⟨hlocal, hother⟩ := Classical.not_imp.mp hwrong
      obtain ⟨_, log4Remote, hpush, hlast, hreplaces, -⟩ := pushLog_last hkept hmem hlocal hfree
      obtain rfl := some.inj (hnext.symm.trans hpush)
      have heq := hreplaces.logs_eq hkept
      -- the entry went to the last remote endpoint
      have hne : (node.host, log4Remote.host) ≠ call.pair := by
        intro hpair
        rw [hlast] at hother
        exact hother (congrArg some (congrArg Prod.snd hpair))
      have hgrown : next.logs (node.host, log4Remote.host) = log4Remote.logVector ++ [call.log] := by
        rw [heq, Function.update_self]
      rw [← logs_found hkept hmem (List.mem_of_getLast? hlast)] at hgrown
      generalize hafter : next.logs = after at hadds hgrown
      cases hadds with
      | merged _ _ hlogs htype =>
        exact hlatest (hlogs ▸ latestType_concat.mpr htype)
      | added =>
        rw [Function.update_of_ne hne] at hgrown
        exact absurd (congrArg List.length hgrown) (by simp)
      | evicted => omega
    · rw [pushLog_full hfree] at hnext
      cases hnext
  · intro h
    obtain ⟨next, hnext, hadds, hafter⟩ := handle_hasRoom hkept h
    exact ⟨next, hnext, hadds, hafter.counted, Int.le_add_one hafter.room⟩

/-- Every call of a run adds its entry as it should if and only if every call has room for it. -/
theorem tcpLog_adds_iff (tcpLogCacheSize : UInt16) (calls : List TcpLogCall) :
    StepsMeet handle Records { tcpLogCacheSize } calls ↔
      StepsMeet handle HasRoom { tcpLogCacheSize } calls := by
  refine stepsMeet_congr (kept_start tcpLogCacheSize) (fun history call next hkept hroom hnext => ?_)
    fun history call hkept => records_iff hkept
  obtain ⟨_, hhandle, -, hafter⟩ := handle_hasRoom hkept hroom
  obtain rfl := some.inj (hnext.symm.trans hhandle)
  exact hafter

theorem Adds.ne_nil {cacheSize : Nat} {entries after : HostPair → List TcpLog} {count : Int}
    {pair : HostPair} {log : TcpLog} (h : Adds cacheSize entries count pair log after) :
    after pair ≠ [] := by
  cases h with
  | merged before =>
    rw [Function.update_self]
    exact append_ne_nil_of_right_ne_nil before (cons_ne_nil _ [])
  | added | evicted =>
    rw [Function.update_self]
    exact append_ne_nil_of_right_ne_nil _ (cons_ne_nil _ [])

/-- Two remote endpoints of one local endpoint. -/
def twoRemotes (address : UInt8) : TcpLogCall where
  localEndpoint :=
    { flag := BDT_ENDPOINT_PROTOCOL_TCP ||| BDT_ENDPOINT_IP_VERSION_4
      port := 0
      address := .ofList 16 [10, 0, 0, 1] }
  remoteEndpoint :=
    { flag := BDT_ENDPOINT_PROTOCOL_TCP ||| BDT_ENDPOINT_IP_VERSION_4
      port := 80
      address := .ofList 16 [10, 0, 0, address] }
  type := .connectActive
  now := address.toNat

/-- The entry of the second remote endpoint is stored as one of the first. -/
theorem entry_misplaced :
    (∃ history, exec handle { tcpLogCacheSize := 100 } [twoRemotes 2, twoRemotes 3] = some history ∧
      history.logs (twoRemotes 3).pair = [] ∧
      history.logs (twoRemotes 2).pair = [(twoRemotes 2).log, (twoRemotes 3).log]) ∧
    ¬ StepsMeet handle Records { tcpLogCacheSize := 100 } [twoRemotes 2, twoRemotes 3] := by
  obtain ⟨history, hrun, hempty, hboth⟩ : ∃ history,
      exec handle { tcpLogCacheSize := 100 } [twoRemotes 2, twoRemotes 3] = some history ∧
      history.logs (twoRemotes 3).pair = [] ∧
      history.logs (twoRemotes 2).pair = [(twoRemotes 2).log, (twoRemotes 3).log] :=
    exists_of_test _ (by decide +kernel) fun _ _ => id
  refine ⟨⟨history, hrun, hempty, hboth⟩, fun h => ?_⟩
  obtain ⟨middle, hfirst, hsecond⟩ := exec_cons hrun
  obtain ⟨next, hnext, hlast⟩ := exec_cons hsecond
  cases hlast
  obtain ⟨_, hagain, hadds, -⟩ := h [twoRemotes 2] (twoRemotes 3) [] middle rfl
    (by show (handle _ _).bind _ = _; rw [hfirst]; rfl)
  obtain rfl := some.inj (hnext.symm.trans hagain)
  exact hadds.ne_nil hempty

end Bdt_TunnelHistory

end Bdt
