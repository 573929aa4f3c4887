import Bdt.History.PeerHistory
import Mathlib.Data.List.MinMax

/-!
# The endpoints that a call tries first

A model of `CallClientFindHistoryCallback`, which picks a connection of the history of a super node
in one pass. What the pass does is stated as a pick of its own: the remote endpoint is that of the
first direct tcp connection that comes in time, the local one that of the earliest. `priority_iff`
says for which connections that is the choice the function is for, in any order of them.
-/

namespace Bdt

open Base List

/-- `BdtHistory_PeerInfo`. The time of a connection is zero until it was connected. -/
structure PeerHistory extends PeerInfoNode where
  times : ∀ connectInfo ∈ connectVector, 0 ≤ connectInfo.lastConnectTime

/-! ## The callback -/

/-- `FindPriorityEndpointPairFromHistoryUserData`, with what it points at. -/
structure EndpointPair where
  localEndpoint : BdtEndpoint
  remote : BdtEndpoint
  found : Bool
  deriving DecidableEq

/-- The variables of the loop. -/
structure FindHistory where
  epPair : EndpointPair
  lastConnectTime : Int := 0
  selectConnectTime : Int := 0
  isSelectTcp : Bool := false
  deriving DecidableEq

section

-- What stands where the local endpoints of the connections point.
variable (places : Nat → BdtEndpoint)

def EndpointPair.setLocal (epPair : EndpointPair) (connectInfo : HistoryConnectInfo) :
    EndpointPair :=
  { epPair with
    localEndpoint := match connectInfo.localEndpoint with
      | some place => places place
      | none => { epPair.localEndpoint with port := 0 } }

namespace FindHistory

/-- The latest time that was seen. -/
def see (s : FindHistory) (connectInfo : HistoryConnectInfo) : FindHistory :=
  if s.lastConnectTime < connectInfo.lastConnectTime then
    { s with lastConnectTime := connectInfo.lastConnectTime }
  else s

/-- The first direct tcp connection is selected with both of its endpoints. -/
def selectTcp (s : FindHistory) (connectInfo : HistoryConnectInfo) : FindHistory :=
  if ¬ s.isSelectTcp ∧ connectInfo.flags.directTcp then
    { s with
      epPair := EndpointPair.setLocal places
        { s.epPair with found := true, remote := connectInfo.endpoint } connectInfo
      isSelectTcp := true
      selectConnectTime := connectInfo.lastConnectTime }
  else s

/-- Of an earlier connection, the local endpoint is selected. -/
def selectEarlier (s : FindHistory) (connectInfo : HistoryConnectInfo) : FindHistory :=
  if connectInfo.lastConnectTime < s.selectConnectTime then
    { s with
      epPair := EndpointPair.setLocal places { s.epPair with found := true } connectInfo
      selectConnectTime := connectInfo.lastConnectTime }
  else s

/-- A connection in the loop of `CallClientFindHistoryCallback`. -/
def next (s : FindHistory) (connectInfo : HistoryConnectInfo) : FindHistory :=
  let s := s.see connectInfo
  if 500 < s.lastConnectTime - connectInfo.lastConnectTime then s
  else if s.isSelectTcp ∧ ¬ connectInfo.flags.directTcp then s
  else (s.selectTcp places connectInfo).selectEarlier places connectInfo

end FindHistory

def CallClientFindHistoryCallback (peerHistory : Option PeerInfoNode) (epPair : EndpointPair) :
    EndpointPair :=
  let epPair := { epPair with found := false }
  match peerHistory with
  | none => epPair
  | some peerHistory =>
    (peerHistory.connectVector.foldl (FindHistory.next places) { epPair }).epPair

/-- What `CallClientCallPriorityEndpoints` reads in a pair: a local endpoint without a port is
none. -/
def EndpointPair.read (epPair : EndpointPair) : Option (BdtEndpoint × Option BdtEndpoint) :=
  if epPair.found then
    some (epPair.remote, if epPair.localEndpoint.port = 0 then none else some epPair.localEndpoint)
  else none

namespace HistoryConnectInfo

/-- The local endpoint of a connection, read as that of a pair. -/
def readLocal (connectInfo : HistoryConnectInfo) : Option BdtEndpoint :=
  connectInfo.localEndpoint.bind fun place =>
    if (places place).port = 0 then none else some (places place)

end HistoryConnectInfo

/-! ## What it is for -/

/-- A connection that was within half a second of the most recent one. -/
def RecentConnect (connections : List HistoryConnectInfo) (connectInfo : HistoryConnectInfo) :
    Prop :=
  connectInfo ∈ connections ∧
    ∀ other ∈ connections, other.lastConnectTime - connectInfo.lastConnectTime ≤ 500

/-- A connection of which the endpoints may be picked: a recent one, by tcp if there is one. -/
def PreferredConnect (connections : List HistoryConnectInfo)
    (connectInfo : HistoryConnectInfo) : Prop :=
  RecentConnect connections connectInfo ∧
    (connectInfo.flags.directTcp ∨
      ∀ other, RecentConnect connections other → ¬ other.flags.directTcp)

/-- The endpoints of the earliest of the preferred connections, and none without connections. -/
def Answers (connections : List HistoryConnectInfo) :
    Option (BdtEndpoint × Option BdtEndpoint) → Prop
  | none => connections = []
  | some answer => ∃ connectInfo, PreferredConnect connections connectInfo ∧
      (∀ other, PreferredConnect connections other →
        connectInfo.lastConnectTime ≤ other.lastConnectTime) ∧
      answer = (connectInfo.endpoint, connectInfo.readLocal places)

/-- In every order of the connections, the callback gives one and the same right answer. -/
def PeerHistory.Sound (history : PeerHistory) : Prop :=
  ∃ answer, Answers places history.connectVector answer ∧
    ∀ connections, connections.Perm history.connectVector → ∀ epPair,
      (CallClientFindHistoryCallback places
        (some { history.toPeerInfoNode with connectVector := connections }) epPair).read = answer

/-! ## What the loop picks -/

/-- The endpoints that are picked, and the time of the connection the local one is from. -/
structure Pick where
  remote : BdtEndpoint
  localEndpoint : Option BdtEndpoint
  time : Int

/-- The latest time that was seen, and what is picked. -/
structure Picking where
  last : Int := 0
  pick : Option Pick := none

/-- A direct tcp connection that is in time sets the first pick, or the local endpoint of an
earlier one. -/
def Picking.next (picking : Picking) (connectInfo : HistoryConnectInfo) : Picking :=
  let last := max picking.last connectInfo.lastConnectTime
  { last
    pick :=
      if connectInfo.flags.directTcp ∧ last - connectInfo.lastConnectTime ≤ 500 then
        match picking.pick with
        | none =>
          some ⟨connectInfo.endpoint, connectInfo.readLocal places, connectInfo.lastConnectTime⟩
        | some pick =>
          if connectInfo.lastConnectTime < pick.time then
            some ⟨pick.remote, connectInfo.readLocal places, connectInfo.lastConnectTime⟩
          else some pick
      else picking.pick }

/-- The variables of the loop hold a pick. -/
def FindHistory.Shows (s : FindHistory) (picking : Picking) : Prop :=
  s.lastConnectTime = picking.last ∧
    match picking.pick with
    | none => s.isSelectTcp = false ∧ s.selectConnectTime = 0 ∧ s.epPair.found = false
    | some pick => s.isSelectTcp = true ∧ s.selectConnectTime = pick.time ∧
        s.epPair.read = some (pick.remote, pick.localEndpoint)

theorem EndpointPair.read_setLocal (epPair : EndpointPair) (connectInfo : HistoryConnectInfo)
    (hfound : epPair.found = true) :
    (epPair.setLocal places connectInfo).read =
      some (epPair.remote, connectInfo.readLocal places) := by
  unfold EndpointPair.read EndpointPair.setLocal HistoryConnectInfo.readLocal
  cases connectInfo.localEndpoint with
  | none => simp [hfound]
  | some => simp [hfound]

theorem EndpointPair.remote_of_read {epPair : EndpointPair} {remote : BdtEndpoint}
    {localEndpoint : Option BdtEndpoint}
    (hread : epPair.read = some (remote, localEndpoint)) :
    epPair.found = true ∧ epPair.remote = remote := by
  unfold EndpointPair.read at hread
  split at hread
  case isTrue h => exact ⟨h, congrArg Prod.fst (Option.some.inj hread)⟩
  case isFalse h => cases hread

theorem FindHistory.see_eq (s : FindHistory) (connectInfo : HistoryConnectInfo) :
    s.see connectInfo =
      { s with lastConnectTime := max s.lastConnectTime connectInfo.lastConnectTime } := by
  unfold see
  split
  case isTrue h => rw [max_eq_right h.le]
  case isFalse h => rw [max_eq_left (not_lt.mp h)]

variable {s : FindHistory} {picking : Picking}

theorem FindHistory.Shows.next (hshows : s.Shows picking)
    {connectInfo : HistoryConnectInfo} (htime : 0 ≤ connectInfo.lastConnectTime) :
    (s.next places connectInfo).Shows (picking.next places connectInfo) := by
  obtain ⟨hlast, hpick⟩ := hshows
  unfold FindHistory.next Picking.next
  rw [FindHistory.see_eq, hlast]
  dsimp only
  by_cases hlate : 500 < max picking.last connectInfo.lastConnectTime - connectInfo.lastConnectTime
  · rw [if_pos hlate, if_neg fun h => not_lt.mpr h.2 hlate]
    exact ⟨rfl, hpick⟩
  rw [if_neg hlate]
  have hintime := not_lt.mp hlate
  by_cases htcp : connectInfo.flags.directTcp = true
  · rw [if_neg fun h => h.2 htcp]
    simp only [htcp, hintime, and_self, if_true]
    cases hfirst : picking.pick with
    | none =>
      rw [hfirst] at hpick
      -- The connection that is selected first is not earlier than itself.
      simp only [selectTcp, selectEarlier, hpick.1, htcp, Bool.false_eq_true, not_false_eq_true,
        and_self, if_true, lt_irrefl, if_false]
      exact ⟨rfl, rfl, rfl, EndpointPair.read_setLocal places _ connectInfo rfl⟩
    | some =>
      rw [hfirst] at hpick
      obtain ⟨hselect, htimes, hread⟩ := hpick
      simp only [selectTcp, selectEarlier, hselect, htimes, not_true_eq_false, false_and, if_false]
      split
      case isTrue hearlier =>
        refine ⟨rfl, rfl, rfl, ?_⟩
        rw [EndpointPair.read_setLocal places _ connectInfo rfl]
        rw [← (EndpointPair.remote_of_read hread).2]
      case isFalse hlater => exact ⟨rfl, rfl, rfl, hread⟩
  simp only [htcp, false_and, if_false]
  cases hfirst : picking.pick with
  | none =>
    rw [hfirst] at hpick
    obtain ⟨hselect, htimes, hfound⟩ := hpick
    -- No time is before that of a selection that was not made.
    simp only [selectTcp, selectEarlier, hselect, htimes, htcp, Bool.false_eq_true, false_and,
      and_false, if_false, not_lt.mpr htime]
    exact ⟨rfl, rfl, rfl, hfound⟩
  | some =>
    rw [hfirst] at hpick
    rw [if_pos ⟨hpick.1, Bool.false_ne_true⟩]
    exact ⟨rfl, hpick⟩

theorem FindHistory.Shows.all (hshows : s.Shows picking) {connections : List HistoryConnectInfo}
    (htimes : ∀ connectInfo ∈ connections, 0 ≤ connectInfo.lastConnectTime) :
    (connections.foldl (FindHistory.next places) s).Shows
      (connections.foldl (Picking.next places) picking) := by
  induction connections generalizing s picking with
  | nil => exact hshows
  | cons connectInfo connections ih =>
    rw [forall_mem_cons] at htimes
    exact ih (hshows.next places htimes.1) htimes.2

theorem find_read (node : PeerInfoNode)
    (htimes : ∀ connectInfo ∈ node.connectVector, 0 ≤ connectInfo.lastConnectTime)
    (epPair : EndpointPair) :
    (CallClientFindHistoryCallback places (some node) epPair).read =
      (node.connectVector.foldl (Picking.next places) {}).pick.map
        fun pick => (pick.remote, pick.localEndpoint) := by
  have hstart : FindHistory.Shows { epPair := { epPair with found := false } } {} :=
    ⟨rfl, rfl, rfl, rfl⟩
  obtain ⟨-, hpick⟩ := hstart.all places htimes
  unfold CallClientFindHistoryCallback
  cases hfirst : (node.connectVector.foldl (Picking.next places) {}).pick with
  | none =>
    rw [hfirst] at hpick
    simp [EndpointPair.read, hpick.2.2]
  | some =>
    rw [hfirst] at hpick
    exact hpick.2.2

/-! ## Runs of picks -/

namespace Picking

theorem last_le_next (picking : Picking) (connectInfo : HistoryConnectInfo) :
    picking.last ≤ (picking.next places connectInfo).last :=
  le_max_left ..

theorem next_cases (picking : Picking) (connectInfo : HistoryConnectInfo) :
    ((picking.next places connectInfo).pick = picking.pick ∧
      (connectInfo.flags.directTcp = true →
        (picking.next places connectInfo).last - connectInfo.lastConnectTime ≤ 500 →
          ∃ pick, picking.pick = some pick ∧ pick.time ≤ connectInfo.lastConnectTime)) ∨
    ∃ remote, (picking.next places connectInfo).pick =
        some ⟨remote, connectInfo.readLocal places, connectInfo.lastConnectTime⟩ ∧
      connectInfo.flags.directTcp = true ∧
      picking.last - connectInfo.lastConnectTime ≤ 500 ∧
      (picking.pick = none ∧ remote = connectInfo.endpoint ∨
        ∃ pick, picking.pick = some pick ∧ remote = pick.remote ∧
          connectInfo.lastConnectTime < pick.time) := by
  unfold next
  dsimp only
  split
  case isFalse hout => exact .inl ⟨rfl, fun htcp hlate => absurd ⟨htcp, hlate⟩ hout⟩
  case isTrue hin =>
  have hintime : picking.last - connectInfo.lastConnectTime ≤ 500 := by omega
  cases hpick : picking.pick with
  | none => exact .inr ⟨_, rfl, hin.1, hintime, .inl ⟨rfl, rfl⟩⟩
  | some pick =>
    by_cases hearlier : connectInfo.lastConnectTime < pick.time
    · exact .inr ⟨_, if_pos hearlier, hin.1, hintime, .inr ⟨pick, rfl, rfl, hearlier⟩⟩
    · exact .inl ⟨if_neg hearlier, fun _ _ => ⟨pick, rfl, not_lt.mp hearlier⟩⟩

variable {picking : Picking}

/-- Connections that come too late, or that are no earlier than the picked one, change nothing. -/
theorem next_keeps {connectInfo : HistoryConnectInfo} (h : connectInfo.flags.directTcp = true →
      500 < picking.last - connectInfo.lastConnectTime ∨
        ∃ pick, picking.pick = some pick ∧ pick.time ≤ connectInfo.lastConnectTime) :
    (picking.next places connectInfo).pick = picking.pick := by
  obtain ⟨hkept, -⟩ | ⟨remote, -, htcp, hintime, hpick⟩ := picking.next_cases places connectInfo
  · exact hkept
  obtain hlate | ⟨pick, hsome, htime⟩ := h htcp
  · omega
  rw [hsome] at hpick
  obtain ⟨hnone, -⟩ | ⟨other, hother, -, hearlier⟩ := hpick
  · cases hnone
  · cases hother
    omega

variable {connections : List HistoryConnectInfo}

theorem all_keeps (h : ∀ connectInfo ∈ connections, connectInfo.flags.directTcp = true →
      500 < picking.last - connectInfo.lastConnectTime ∨
        ∃ pick, picking.pick = some pick ∧ pick.time ≤ connectInfo.lastConnectTime) :
    (connections.foldl (next places) picking).pick = picking.pick := by
  induction connections generalizing picking with
  | nil => rfl
  | cons connectInfo _ ih =>
    rw [forall_mem_cons] at h
    have hnext := next_keeps places h.1
    rw [foldl_cons, ih, hnext]
    intro other hmem htcp
    have hlast := picking.last_le_next places connectInfo
    refine (h.2 other hmem htcp).imp (fun hlate => by omega) fun hpicked => ?_
    rw [hnext]
    exact hpicked

variable {seen : List HistoryConnectInfo} {pick : Pick}

theorem next_remote (hpick : picking.pick = some pick) (connectInfo : HistoryConnectInfo) :
    ∃ next, (picking.next places connectInfo).pick = some next ∧ next.remote = pick.remote := by
  obtain ⟨hkept, -⟩ | ⟨remote, hnext, -, -, hnone | ⟨other, hother, hremote, -⟩⟩ :=
    picking.next_cases places connectInfo
  · exact ⟨pick, hkept.trans hpick, rfl⟩
  · rw [hpick] at hnone
    cases hnone.1
  · rw [hpick] at hother
    cases hother
    exact ⟨_, hnext, hremote⟩

theorem all_remote (hpick : picking.pick = some pick) :
    ∃ last, (connections.foldl (next places) picking).pick = some last ∧
      last.remote = pick.remote := by
  induction connections generalizing picking pick with
  | nil => exact ⟨pick, hpick, rfl⟩
  | cons connectInfo connections ih =>
    obtain ⟨next, hnext, hremote⟩ := next_remote places hpick connectInfo
    obtain ⟨last, hlast, hsame⟩ := ih hnext
    exact ⟨last, hlast, hsame.trans hremote⟩

/-- What holds of a pick among the connections that were seen. -/
structure Among (seen : List HistoryConnectInfo) (picking : Picking) : Prop where
  last : ∀ time, 0 ≤ time → (∀ connectInfo ∈ seen, connectInfo.lastConnectTime ≤ time) →
    picking.last ≤ time
  inTime : ∀ connectInfo ∈ seen, connectInfo.flags.directTcp = true →
    picking.last - connectInfo.lastConnectTime ≤ 500 →
      ∃ pick, picking.pick = some pick ∧ pick.time ≤ connectInfo.lastConnectTime
  remote : ∀ pick, picking.pick = some pick → ∃ connectInfo ∈ seen,
    connectInfo.flags.directTcp = true ∧ connectInfo.endpoint = pick.remote
  localEndpoint : ∀ pick, picking.pick = some pick → ∃ connectInfo ∈ seen,
    connectInfo.flags.directTcp = true ∧ connectInfo.readLocal places = pick.localEndpoint ∧
      connectInfo.lastConnectTime = pick.time

theorem Among.next (h : Among places seen picking) (connectInfo : HistoryConnectInfo) :
    Among places (seen ++ [connectInfo]) (picking.next places connectInfo) := by
  have hlast := picking.last_le_next places connectInfo
  have hsubset : seen ⊆ seen ++ [connectInfo] := subset_append_left ..
  have hself : connectInfo ∈ seen ++ [connectInfo] := mem_append_right _ (.head _)
  have hmax : ∀ time, 0 ≤ time →
      (∀ other ∈ seen ++ [connectInfo], other.lastConnectTime ≤ time) →
        (picking.next places connectInfo).last ≤ time := by
    intro time htime hseen
    exact max_le (h.last time htime fun other hmem => hseen other (hsubset hmem))
      (hseen connectInfo hself)
  obtain ⟨hkept, hintime⟩ | ⟨remote, hnext, htcp, -, hpicked⟩ :=
    picking.next_cases places connectInfo
  case inl =>
    constructor
    case last => exact hmax
    case inTime =>
      intro other hmem hother hlate
      rw [hkept]
      obtain hmem | hmem := mem_append.mp hmem
      · exact h.inTime other hmem hother (by omega)
      · obtain rfl := mem_singleton.mp hmem
        exact hintime hother hlate
    case remote =>
      intro pick hpick
      obtain ⟨other, hmem, hother⟩ := h.remote pick (hkept.symm.trans hpick)
      exact ⟨other, hsubset hmem, hother⟩
    case localEndpoint =>
    intro pick hpick
    obtain ⟨other, hmem, hother⟩ := h.localEndpoint pick (hkept.symm.trans hpick)
    exact ⟨other, hsubset hmem, hother⟩
  case inr =>
  constructor
  case last => exact hmax
  case inTime =>
    intro other hmem hother hlate
    refine ⟨_, hnext, ?_⟩
    obtain hmem | hmem := mem_append.mp hmem
    · -- What was in time before was no earlier than the pick that is replaced.
      obtain ⟨pick, hpick, htime⟩ := h.inTime other hmem hother (by omega)
      obtain ⟨hnone, -⟩ | ⟨replaced, hreplaced, -, hearlier⟩ := hpicked
      · rw [hpick] at hnone
        cases hnone
      · rw [hpick] at hreplaced
        cases hreplaced
        exact hearlier.le.trans htime
    · obtain rfl := mem_singleton.mp hmem
      exact le_rfl
  case remote =>
    intro pick hpick
    rw [hnext] at hpick
    cases hpick
    obtain ⟨-, hremote⟩ | ⟨replaced, hreplaced, hremote, -⟩ := hpicked
    · exact ⟨connectInfo, hself, htcp, hremote.symm⟩
    · obtain ⟨other, hmem, hother, hendpoint⟩ := h.remote replaced hreplaced
      exact ⟨other, hsubset hmem, hother, hendpoint.trans hremote.symm⟩
  case localEndpoint =>
  intro pick hpick
  rw [hnext] at hpick
  cases hpick
  exact ⟨connectInfo, hself, htcp, rfl, rfl⟩

theorem Among.all (h : Among places seen picking) (connections : List HistoryConnectInfo) :
    Among places (seen ++ connections) (connections.foldl (Picking.next places) picking) := by
  induction connections generalizing seen picking with
  | nil => simpa using h
  | cons connectInfo connections ih =>
    rw [append_cons]
    exact ih (h.next places connectInfo)

end Picking

/-! ## Right answers -/

/-- A pick stays if no recent connection that follows is earlier. -/
theorem Picking.all_keeps_recent (connections : List HistoryConnectInfo) {picking : Picking}
    (hlast : ∀ other ∈ connections, other.lastConnectTime ≤ picking.last)
    (hrecent : ∀ connectInfo, RecentConnect connections connectInfo →
      connectInfo.flags.directTcp = true →
        ∃ pick, picking.pick = some pick ∧ pick.time ≤ connectInfo.lastConnectTime)
    {rest : List HistoryConnectInfo} (hrest : rest ⊆ connections) :
    (rest.foldl (Picking.next places) picking).pick = picking.pick := by
  apply Picking.all_keeps places
  intro connectInfo hmem htcp
  by_cases h : RecentConnect connections connectInfo
  · exact .inr (hrecent connectInfo h htcp)
  left
  unfold RecentConnect at h
  push Not at h
  obtain ⟨other, hother, hlate⟩ := h (hrest hmem)
  have := hlast other hother
  omega

namespace PeerHistory

variable {history : PeerHistory}

variable {connections : List HistoryConnectInfo} {connectInfo : HistoryConnectInfo}

theorem read_order (hperm : connections.Perm history.connectVector) (epPair : EndpointPair) :
    (CallClientFindHistoryCallback places
      (some { history.toPeerInfoNode with connectVector := connections }) epPair).read =
      (connections.foldl (Picking.next places) {}).pick.map
        fun pick => (pick.remote, pick.localEndpoint) :=
  find_read places _ (fun connectInfo hmem => history.times connectInfo (hperm.mem_iff.mp hmem))
    epPair

theorem pick_of_agree (hrecent : RecentConnect history.connectVector connectInfo)
    (htcp : connectInfo.flags.directTcp = true)
    (hagree : ∀ other ∈ history.connectVector, other.flags.directTcp = true →
      other.endpoint = connectInfo.endpoint ∧
        (other.lastConnectTime ≤ connectInfo.lastConnectTime →
          other.readLocal places = connectInfo.readLocal places))
    (hperm : connections.Perm history.connectVector) :
    (connections.foldl (Picking.next places) {}).pick.map
        (fun pick => (pick.remote, pick.localEndpoint)) =
      some (connectInfo.endpoint, connectInfo.readLocal places) := by
  have hstart : Picking.Among places [] {} :=
    ⟨fun time htime _ => htime, fun _ h => absurd h not_mem_nil, nofun, nofun⟩
  have hall := hstart.all places connections
  rw [nil_append] at hall
  have htime := history.times connectInfo hrecent.1
  have hlast := hall.last (connectInfo.lastConnectTime + 500) (by omega) fun other hmem => by
    have := hrecent.2 other (hperm.mem_iff.mp hmem)
    omega
  obtain ⟨pick, hpick, hearliest⟩ :=
    hall.inTime connectInfo (hperm.mem_iff.mpr hrecent.1) htcp (by omega)
  obtain ⟨first, hfirst, hfirstTcp, hremote⟩ := hall.remote pick hpick
  obtain ⟨other, hother, hotherTcp, hlocal, hotherTime⟩ := hall.localEndpoint pick hpick
  rw [hpick, Option.map_some, ← hremote, ← hlocal,
    (hagree first (hperm.mem_iff.mp hfirst) hfirstTcp).1,
    (hagree other (hperm.mem_iff.mp hother) hotherTcp).2 (hotherTime.trans_le hearliest)]

/-! ## Orders that go wrong -/

theorem exists_latest (h : connections ≠ []) :
    ∃ latest ∈ connections, ∀ other ∈ connections,
      other.lastConnectTime ≤ latest.lastConnectTime := by
  cases hmax : connections.argmax (·.lastConnectTime) with
  | none => exact absurd (argmax_eq_none.mp hmax) h
  | some latest =>
    exact ⟨latest, argmax_mem hmax, fun _ hmem => le_of_mem_argmax hmem hmax⟩

variable {latest : HistoryConnectInfo}

theorem recent_latest (hmem : latest ∈ connections)
    (hlatest : ∀ other ∈ connections, other.lastConnectTime ≤ latest.lastConnectTime) :
    RecentConnect connections latest := by
  refine ⟨hmem, fun other hother => ?_⟩
  have := hlatest other hother
  omega

theorem first_last (htime : 0 ≤ connectInfo.lastConnectTime) :
    (Picking.next places {} connectInfo).last = connectInfo.lastConnectTime :=
  max_eq_right htime

theorem first_pick (htime : 0 ≤ connectInfo.lastConnectTime)
    (htcp : connectInfo.flags.directTcp = true) :
    (Picking.next places {} connectInfo).pick =
      some ⟨connectInfo.endpoint, connectInfo.readLocal places, connectInfo.lastConnectTime⟩ := by
  have hlast : max 0 connectInfo.lastConnectTime - connectInfo.lastConnectTime ≤ 500 := by omega
  exact if_pos ⟨htcp, hlast⟩

/-- With the most recent connection first, nothing is picked unless a recent one is direct tcp. -/
theorem pick_none (hmem : latest ∈ history.connectVector)
    (hlatest : ∀ other ∈ history.connectVector, other.lastConnectTime ≤ latest.lastConnectTime)
    (hnone : ∀ connectInfo, RecentConnect history.connectVector connectInfo →
      ¬ connectInfo.flags.directTcp = true) :
    ((latest :: history.connectVector.erase latest).foldl (Picking.next places) {}).pick =
      none := by
  have hfirst : (Picking.next places {} latest).pick = none :=
    if_neg fun h => hnone latest (recent_latest hmem hlatest) h.1
  rw [foldl_cons, Picking.all_keeps_recent places history.connectVector, hfirst]
  · rw [first_last places (history.times latest hmem)]
    exact hlatest
  · exact fun connectInfo hrecent htcp => absurd htcp (hnone connectInfo hrecent)
  · exact erase_subset

section

variable (hmem : connectInfo ∈ history.connectVector) (htcp : connectInfo.flags.directTcp = true)
include hmem htcp

theorem pick_remote
    (rest : List HistoryConnectInfo) :
    ∃ pick, ((connectInfo :: rest).foldl (Picking.next places) {}).pick = some pick ∧
      pick.remote = connectInfo.endpoint :=
  Picking.all_remote places (first_pick places (history.times connectInfo hmem) htcp)

/-- With a direct tcp connection first that no recent one is earlier than, and the most recent one
after it, its local endpoint is picked. -/
theorem pick_local
    (hearliest : ∀ other, RecentConnect history.connectVector other → other.flags.directTcp = true →
      connectInfo.lastConnectTime ≤ other.lastConnectTime) :
    ∃ connections : List HistoryConnectInfo, connections.Perm history.connectVector ∧
      ∃ pick : Pick, (connections.foldl (Picking.next places) {}).pick = some pick ∧
        pick.localEndpoint = connectInfo.readLocal places := by
  have htime := history.times connectInfo hmem
  have hfirst := first_pick places htime htcp
  have hlast := first_last places htime
  obtain ⟨latest, hlatestMem, hlatest⟩ := exists_latest (ne_nil_of_mem hmem)
  by_cases hself : latest = connectInfo
  · subst hself
    have hkept : ((latest :: history.connectVector.erase latest).foldl (Picking.next places)
        {}).pick = (Picking.next places {} latest).pick := by
      rw [foldl_cons, Picking.all_keeps_recent places history.connectVector]
      · rw [hlast]
        exact hlatest
      · exact fun other hrecent hother => ⟨_, hfirst, hearliest other hrecent hother⟩
      · exact erase_subset
    exact ⟨_, (perm_cons_erase hmem).symm, _, hkept.trans hfirst, rfl⟩
  have hrest : latest ∈ history.connectVector.erase connectInfo :=
    (mem_erase_of_ne hself).mpr hlatestMem
  have hsecond : ((Picking.next places {} connectInfo).next places latest).pick =
      (Picking.next places {} connectInfo).pick :=
    Picking.next_keeps places fun _ => .inr ⟨_, hfirst, hlatest connectInfo hmem⟩
  have hkept : ((connectInfo :: latest ::
      (history.connectVector.erase connectInfo).erase latest).foldl (Picking.next places)
        {}).pick = (Picking.next places {} connectInfo).pick := by
    rw [foldl_cons, foldl_cons, Picking.all_keeps_recent places history.connectVector, hsecond]
    · intro other hother
      exact (hlatest other hother).trans (le_max_right ..)
    · intro other hrecent hother
      exact ⟨_, hsecond.trans hfirst, hearliest other hrecent hother⟩
    · exact List.Subset.trans erase_subset erase_subset
  exact ⟨_, ((perm_cons_erase hmem).trans
    ((perm_cons_erase hrest).cons connectInfo)).symm, _, hkept.trans hfirst, rfl⟩

end

/-- The callback gives the right answer in every order exactly if there are no connections, or one
of the recent ones is by direct tcp and for the earliest of those: every direct tcp connection,
however old, has its remote endpoint, and each that is not later its local endpoint. -/
theorem priority_iff (history : PeerHistory) :
    history.Sound places ↔ history.connectVector = [] ∨
      ∃ connectInfo, RecentConnect history.connectVector connectInfo ∧
        connectInfo.flags.directTcp = true ∧
        (∀ other, RecentConnect history.connectVector other → other.flags.directTcp = true →
          connectInfo.lastConnectTime ≤ other.lastConnectTime) ∧
        ∀ other ∈ history.connectVector, other.flags.directTcp = true →
          other.endpoint = connectInfo.endpoint ∧
            (other.lastConnectTime ≤ connectInfo.lastConnectTime →
              other.readLocal places = connectInfo.readLocal places) := by
  constructor
  case mp =>
    intro ⟨answer, hanswer, horders⟩
    by_cases hempty : history.connectVector = []
    · exact .inl hempty
    right
    -- The answer of any order, as a pick.
    have hpick : ∀ connections : List HistoryConnectInfo,
        connections.Perm history.connectVector →
          (connections.foldl (Picking.next places) {}).pick.map
            (fun pick => (pick.remote, pick.localEndpoint)) = answer := by
      intro connections hperm
      let epPair : EndpointPair := ⟨places 0, places 0, false⟩
      rw [← read_order places hperm epPair]
      exact horders connections hperm epPair
    cases answer with
    | none => exact absurd hanswer hempty
    | some =>
      obtain ⟨connectInfo, hpreferred, hearliest, rfl⟩ := hanswer
      have htcp : connectInfo.flags.directTcp = true := by
        by_contra hnot
        have hnone := hpreferred.2.resolve_left hnot
        obtain ⟨latest, hmem, hlatest⟩ := exists_latest hempty
        have := hpick _ (perm_cons_erase hmem).symm
        rw [pick_none places hmem hlatest hnone] at this
        cases this
      have hearliestTcp : ∀ other, RecentConnect history.connectVector other →
          other.flags.directTcp = true → connectInfo.lastConnectTime ≤ other.lastConnectTime :=
        fun other hrecent hother => hearliest other ⟨hrecent, .inl hother⟩
      refine ⟨connectInfo, hpreferred.1, htcp, hearliestTcp, fun other hmem hother => ⟨?_, ?_⟩⟩
      · obtain ⟨pick, hfirst, hremote⟩ := pick_remote places hmem hother _
        have := hpick _ (perm_cons_erase hmem).symm
        rw [hfirst] at this
        exact hremote.symm.trans (congrArg Prod.fst (Option.some.inj this))
      intro htime
      obtain ⟨connections, hperm, pick, hfirst, hlocal⟩ := pick_local places hmem hother
        fun recent hrecent hrecentTcp => htime.trans (hearliestTcp recent hrecent hrecentTcp)
      have := hpick connections hperm
      rw [hfirst] at this
      exact hlocal.symm.trans (congrArg Prod.snd (Option.some.inj this))
  case mpr =>
  intro h
  obtain hempty | ⟨connectInfo, hrecent, htcp, hearliest, hagree⟩ := h
  · refine ⟨none, hempty, fun connections hperm epPair => ?_⟩
    rw [hempty] at hperm
    rw [hperm.eq_nil]
    rfl
  refine ⟨some (connectInfo.endpoint, connectInfo.readLocal places),
    ⟨connectInfo, ⟨hrecent, .inl htcp⟩, ?_, rfl⟩, fun connections hperm epPair => ?_⟩
  · intro other hpreferred
    -- A preferred connection is by direct tcp, as there is one.
    exact hearliest other hpreferred.1
      (hpreferred.2.resolve_right fun hnone => hnone connectInfo hrecent htcp)
  · rw [read_order places hperm]
    exact pick_of_agree places hrecent htcp hagree hperm

end PeerHistory

end

/-! ## A pair of two connections -/

namespace PeerHistory

def tcpEndpoint (address : UInt8) (port : UInt16) : BdtEndpoint where
  flag := BDT_ENDPOINT_PROTOCOL_TCP ||| BDT_ENDPOINT_IP_VERSION_4
  port
  address := .ofList 16 [10, 0, 0, address]

/-- Two endpoints of a super node were connected at once. -/
def twoConnections : PeerHistory where
  peerid := .zero 32
  connectVector := [
    { endpoint := tcpEndpoint 1 8050
      localEndpoint := some 0
      lastConnectTime := 1000
      flags := { directTcp := true } },
    { endpoint := tcpEndpoint 2 8050
      localEndpoint := some 1
      lastConnectTime := 900
      flags := { directTcp := true } }]
  times := by simp

/-- The remote endpoint of one connection is found with the local endpoint of the other. -/
theorem endpoints_mixed :
    ¬ ∀ (places : Nat → BdtEndpoint) (history : PeerHistory), history.Sound places := by
  intro hsound
  let places : Nat → BdtEndpoint := fun place => tcpEndpoint (7 + place.toUInt8) 9000
  obtain ⟨answer, hanswer, horders⟩ := hsound places twoConnections
  have hread := horders _ (.refl _) ⟨tcpEndpoint 0 0, tcpEndpoint 0 0, false⟩
  have hmixed : (CallClientFindHistoryCallback places (some twoConnections.toPeerInfoNode)
      ⟨tcpEndpoint 0 0, tcpEndpoint 0 0, false⟩).read =
        some (tcpEndpoint 1 8050, some (tcpEndpoint 8 9000)) := by
    decide +kernel
  obtain rfl := hread.symm.trans hmixed
  obtain ⟨connectInfo, hpreferred, -, heq⟩ := hanswer
  have hmem := hpreferred.1.1
  revert heq
  simp only [twoConnections, mem_cons, not_mem_nil, or_false] at hmem
  obtain rfl | rfl := hmem
  · decide +kernel
  · decide +kernel

end PeerHistory

end Bdt
