import Bdt.Base.History
import Bdt.Base.Transition
import Bdt.SuperNode.PeerManager
import Mathlib.Data.List.Iterate

/-!
# When a super node sends a package again

A model of `resend_queue.ts` with the calls of `transport.send` that are under way. A run logs what is
handed to a transport, and `resends_sound` says what that is worth for every package.
-/

namespace Bdt

open Base List
open Option hiding sequence

structure ResendQueueConfig where
  defaultInterval : Nat
  maxTimes : Nat

/-- What comes of `transport.send`: the promise is rejected, or there is an error code, and then
`peer.transport.reliable` is read. -/
inductive TransportOutcome where
  | rejected
  | resolved (err reliable : Bool)

/-- What happens to a package, with its sequence number. -/
inductive ResendEntry where
  /-- `send` hands it to its transport. -/
  | sent (sequence now : Nat)
  /-- `onTimer` finds that its interval has run out, and hands it to its transport or not. -/
  | due (sequence now : Nat) (interval : Int) (handed : Bool)
  /-- It is confirmed, or was sent on a reliable transport. -/
  | ended (sequence : Nat)
  deriving DecidableEq

namespace ResendEntry

def sequence : ResendEntry → Nat
  | .sent sequence _ | .due sequence _ _ _ | .ended sequence => sequence

/-- The time at which this package is handed to its transport. -/
def transmission (sequence : Nat) : ResendEntry → Option Nat
  | .sent other now => if other = sequence then some now else none
  | .due other now _ handed => if other = sequence ∧ handed then some now else none
  | .ended _ => none

/-- The interval of this package that has run out. -/
def interval (sequence : Nat) : ResendEntry → Option Int
  | .due other _ interval _ => if other = sequence then some interval else none
  | .sent _ _ | .ended _ => none

end ResendEntry

inductive ResendCall where
  | send (peer : Nat) (toPeerid : Peerid) (sequence now : Nat)
  | confirm (sequence : Nat)
  | onTimer (now : Nat)
  /-- A call of `transport.send` for a package returns. -/
  | complete (sequence : Nat) (outcome : TransportOutcome)

/-- The queue, the sequence numbers of the calls that are under way and of all the packages, the time,
and what has happened. -/
structure ResendQueueRun where
  packages : ResendQueue := []
  pendings : List (Nat × Nat) := []
  underWay : List Nat := []
  used : List Nat := []
  clock : Nat := 0
  history : List ResendEntry := []

namespace ResendQueueRun

def transmissions (sequence : Nat) (history : List ResendEntry) : List Nat :=
  history.filterMap (ResendEntry.transmission sequence)

def intervals (sequence : Nat) (history : List ResendEntry) : List Int :=
  history.filterMap (ResendEntry.interval sequence)

/-- A call is under way, and not for longer than `m_sendTimeout`. A time of zero counts as none. -/
def isPending (config : ResendQueueConfig) (run : ResendQueueRun) (sequence now : Nat) : Bool :=
  (mapGet run.pendings sequence).any fun lastSendTime =>
    lastSendTime ≠ 0 && now - lastSendTime ≤ config.defaultInterval * config.maxTimes

/-- `send`. -/
def send (config : ResendQueueConfig) (run : ResendQueueRun) (peer : Nat) (toPeerid : Peerid)
    (sequence now : Nat) : ResendQueueRun :=
  let pkgInfo : PackageInfo :=
    match mapGet run.packages sequence with
    | none => { toPeerid, peer, interval := config.defaultInterval, times := 0, lastTime := now }
    | some pkgInfo =>
      { pkgInfo with toPeerid, times := pkgInfo.times / 2, interval := pkgInfo.interval / 2 }
  if run.isPending config sequence now then
    { run with packages := mapSet run.packages sequence pkgInfo }
  else
    { run with
      packages := mapSet run.packages sequence
        { pkgInfo with lastTime := now, times := pkgInfo.times + 1 }
      pendings := mapSet run.pendings sequence now
      underWay := run.underWay ++ [sequence]
      history := run.history ++ [.sent sequence now] }

/-- One round of the loop of `onTimer`. A package that is to be removed is removed at once: nothing
that comes later in the loop has to do with it. -/
def visit (config : ResendQueueConfig) (now : Nat) (run : ResendQueueRun) (sequence : Nat) :
    ResendQueueRun :=
  match mapGet run.packages sequence with
  | none => run
  | some pkgInfo =>
    let isDue := decide ((now : Int) - pkgInfo.lastTime ≥ pkgInfo.interval)
    let isHanded := isDue && !run.isPending config sequence now
    let visited : PackageInfo := { pkgInfo with
      interval := if isDue then ResendQueue.shiftLeft pkgInfo.interval else pkgInfo.interval
      lastTime := if isHanded then now else pkgInfo.lastTime
      times := if isHanded then pkgInfo.times + 1 else pkgInfo.times }
    { run with
      packages :=
        if config.maxTimes ≤ visited.times then mapDelete run.packages sequence
        else mapSet run.packages sequence visited
      pendings := if isHanded then mapSet run.pendings sequence now else run.pendings
      underWay := if isHanded then run.underWay ++ [sequence] else run.underWay
      history :=
        if isDue then run.history ++ [.due sequence now pkgInfo.interval isHanded]
        else run.history }

/-- A package is confirmed or reliably sent. -/
def remove (run : ResendQueueRun) (sequence : Nat) : ResendQueueRun :=
  { run with
    packages := mapDelete run.packages sequence
    history := if sequence ∈ run.used then run.history ++ [.ended sequence] else run.history }

/-- The sequence numbers of the packages are fresh, and time does not go back. -/
def next (config : ResendQueueConfig) (run : ResendQueueRun) : ResendCall → Option ResendQueueRun
  | .send peer toPeerid sequence now =>
    if run.clock ≤ now ∧ sequence ∉ run.used then
      some { run.send config peer toPeerid sequence now with
        clock := now
        used := run.used ++ [sequence] }
    else none
  | .confirm sequence => some (run.remove sequence)
  | .onTimer now =>
    if run.clock ≤ now then
      some ((run.packages.map (·.1)).foldl (visit config now) { run with clock := now })
    else none
  | .complete sequence outcome =>
    if sequence ∈ run.underWay then
      let next := { run with underWay := run.underWay.erase sequence }
      match outcome with
      | .rejected => some next
      | .resolved err reliable =>
        let next := { next with pendings := mapDelete run.pendings sequence }
        some (if !err && reliable then next.remove sequence else next)
    else none

/-- What every package can count on. The interval is a number of 32 bits that doubles each time it has
run out, whether the package is handed over then or not. -/
structure Sound (config : ResendQueueConfig) (run : ResendQueueRun) : Prop where
  atMost : ∀ sequence, (transmissions sequence run.history).length ≤ config.maxTimes
  notAfter : ∀ front sequence back, run.history = front ++ .ended sequence :: back →
    transmissions sequence back = []
  first : ∀ front sequence now back, run.history = front ++ .sent sequence now :: back →
    transmissions sequence front = []
  apart : ∀ front (sequence now : Nat) (interval : Int) back,
    run.history = front ++ .due sequence now interval true :: back →
    ∀ time ∈ transmissions sequence front, (time : Int) + interval ≤ now
  doubles : ∀ (sequence i : Nat) (interval : Int),
    (intervals sequence run.history)[i]? = some interval →
    config.defaultInterval * 2 ^ i < 2 ^ 31 → interval = config.defaultInterval * 2 ^ i
  removed : ∀ sequence, config.maxTimes ≤ (transmissions sequence run.history).length →
    mapGet run.packages sequence = none

/-! ## What holds between the calls -/

variable {config : ResendQueueConfig} {run after : ResendQueueRun} {sequence now : Nat}
  {history : List ResendEntry} {entry : ResendEntry} {pkgInfo : PackageInfo}

theorem transmissions_append (sequence : Nat) (front back : List ResendEntry) :
    transmissions sequence (front ++ back) =
      transmissions sequence front ++ transmissions sequence back :=
  filterMap_append

theorem transmissions_concat (sequence : Nat) (history : List ResendEntry) (entry : ResendEntry) :
    transmissions sequence (history ++ [entry]) =
      transmissions sequence history ++ (entry.transmission sequence).toList := by
  rw [transmissions_append]
  cases h : entry.transmission sequence <;> simp [transmissions, h]

theorem intervals_concat (sequence : Nat) (history : List ResendEntry) (entry : ResendEntry) :
    intervals sequence (history ++ [entry]) =
      intervals sequence history ++ (entry.interval sequence).toList := by
  unfold intervals
  rw [filterMap_append]
  cases h : entry.interval sequence <;> simp [h]

variable {other : Nat} {V : Type}

/-- An entry has to do with no package but its own. -/
theorem transmission_ne (h : entry.sequence ≠ other) : entry.transmission other = none := by
  cases entry <;> simp_all [ResendEntry.transmission, ResendEntry.sequence]

theorem interval_ne (h : entry.sequence ≠ other) : entry.interval other = none := by
  cases entry <;> simp_all [ResendEntry.interval, ResendEntry.sequence]

/-- What an entry needs of those before it. -/
def Right (front : List ResendEntry) : ResendEntry → Prop
  | .sent sequence _ => .ended sequence ∉ front ∧ transmissions sequence front = []
  | .due sequence now interval handed => .ended sequence ∉ front ∧
      (handed = true → ∀ time ∈ transmissions sequence front, (time : Int) + interval ≤ now)
  | .ended _ => True

/-- A package that is in the queue. -/
structure Queued (config : ResendQueueConfig) (sequence : Nat) (history : List ResendEntry)
    (pkgInfo : PackageInfo) : Prop where
  times : pkgInfo.times = (transmissions sequence history).length
  lt : pkgInfo.times < config.maxTimes
  interval : pkgInfo.interval =
    ResendQueue.shiftLeft^[(intervals sequence history).length] config.defaultInterval
  lastTime : ∀ time ∈ transmissions sequence history, time ≤ pkgInfo.lastTime
  notEnded : .ended sequence ∉ history

/-- Nothing is known of a sequence number that was not used. -/
structure Fresh (run : ResendQueueRun) (sequence : Nat) : Prop where
  packages : mapGet run.packages sequence = none
  pendings : mapGet run.pendings sequence = none
  history : ∀ entry ∈ run.history, entry.sequence ≠ sequence

structure Inv (config : ResendQueueConfig) (run : ResendQueueRun) : Prop where
  queued : ∀ sequence pkgInfo, mapGet run.packages sequence = some pkgInfo →
    Queued config sequence run.history pkgInfo
  atMost : ∀ sequence, (transmissions sequence run.history).length ≤ config.maxTimes
  doubles : ∀ sequence, intervals sequence run.history = List.iterate ResendQueue.shiftLeft
    config.defaultInterval (intervals sequence run.history).length
  justified : Justified Right run.history
  clock : ∀ sequence, ∀ time ∈ transmissions sequence run.history, time ≤ run.clock
  fresh : ∀ sequence ∉ run.used, run.Fresh sequence

theorem inv_start (config : ResendQueueConfig) : Inv config {} :=
  ⟨nofun, fun _ => Nat.zero_le _, fun _ => rfl, justified_nil, nofun, fun _ _ => ⟨rfl, rfl, nofun⟩⟩

theorem Fresh.transmissions (h : run.Fresh sequence) : transmissions sequence run.history = [] :=
  filterMap_eq_nil_iff.mpr fun entry hmem => transmission_ne (h.history entry hmem)

theorem Fresh.intervals (h : run.Fresh sequence) : intervals sequence run.history = [] :=
  filterMap_eq_nil_iff.mpr fun entry hmem => interval_ne (h.history entry hmem)

theorem Fresh.notEnded (h : run.Fresh sequence) : .ended sequence ∉ run.history :=
  fun hmem => h.history _ hmem rfl

theorem Inv.used (h : Inv config run) (hget : mapGet run.packages sequence = some pkgInfo) :
    sequence ∈ run.used := by
  by_contra hnot
  rw [(h.fresh sequence hnot).packages] at hget
  cases hget

theorem Inv.keeps (h : Inv config run) (hhistory : after.history = run.history)
    (hused : after.used = run.used) (hclock : run.clock ≤ after.clock)
    (hpackages : ∀ sequence, mapGet after.packages sequence = none ∨
      mapGet after.packages sequence = mapGet run.packages sequence)
    (hpendings : ∀ sequence, mapGet run.pendings sequence = none →
      mapGet after.pendings sequence = none) : Inv config after := by
  constructor
  · intro sequence pkgInfo hget
    rcases hpackages sequence with hnone | hsame
    · rw [hnone] at hget
      cases hget
    · exact hhistory ▸ h.queued sequence pkgInfo (hsame ▸ hget)
  · exact hhistory ▸ h.atMost
  · exact hhistory ▸ h.doubles
  · exact hhistory ▸ h.justified
  · intro sequence time hmem
    exact (h.clock sequence time (hhistory ▸ hmem)).trans hclock
  intro sequence hnot
  have hfresh := h.fresh sequence (hused ▸ hnot)
  refine ⟨?_, hpendings sequence hfresh.pendings, hhistory ▸ hfresh.history⟩
  rcases hpackages sequence with hnone | hsame
  · exact hnone
  · exact hsame.trans hfresh.packages

theorem Inv.enters (h : Inv config run) (entry : ResendEntry)
    (hhistory : after.history = run.history ++ [entry]) (hright : Right run.history entry)
    (hused : run.used ⊆ after.used)
    (hmem : entry.sequence ∈ after.used) (hclock : run.clock ≤ after.clock)
    (htime : ∀ time ∈ entry.transmission entry.sequence, time ≤ after.clock)
    (hatMost : (transmissions entry.sequence after.history).length ≤ config.maxTimes)
    (hdoubles : ∀ interval ∈ entry.interval entry.sequence, interval =
      ResendQueue.shiftLeft^[(intervals entry.sequence run.history).length] config.defaultInterval)
    (hqueued : ∀ pkgInfo, mapGet after.packages entry.sequence = some pkgInfo →
      Queued config entry.sequence after.history pkgInfo)
    (hpackages : ∀ other ≠ entry.sequence, mapGet after.packages other = mapGet run.packages other)
    (hpendings : ∀ other ≠ entry.sequence,
      mapGet after.pendings other = mapGet run.pendings other) : Inv config after := by
  have htransmissions : ∀ other ≠ entry.sequence,
      transmissions other after.history = transmissions other run.history := by
    intro other hne
    rw [hhistory, transmissions_concat, transmission_ne hne.symm]
    exact append_nil _
  have hintervals : ∀ other ≠ entry.sequence,
      intervals other after.history = intervals other run.history := by
    intro other hne
    rw [hhistory, intervals_concat, interval_ne hne.symm]
    exact append_nil _
  constructor
  · intro other pkgInfo hget
    by_cases hne : other = entry.sequence
    · subst hne
      exact hqueued pkgInfo hget
    obtain ⟨times, lt, interval, lastTime, notEnded⟩ :=
      h.queued other pkgInfo (hpackages other hne ▸ hget)
    rw [← htransmissions other hne] at times lastTime
    rw [← hintervals other hne] at interval
    refine ⟨times, lt, interval, lastTime, fun hended => ?_⟩
    rw [hhistory, mem_append, mem_singleton] at hended
    rcases hended with hended | rfl
    · exact notEnded hended
    · exact hne rfl
  · intro other
    by_cases hne : other = entry.sequence
    · exact hne ▸ hatMost
    · exact htransmissions other hne ▸ h.atMost other
  · intro other
    by_cases hne : other = entry.sequence
    · subst hne
      rw [hhistory, intervals_concat]
      cases hinterval : entry.interval entry.sequence with
      | none =>
        rw [toList_none, append_nil]
        exact h.doubles entry.sequence
      | some interval =>
        have hlast := hdoubles interval hinterval
        rw [toList_some, length_append, length_singleton, List.iterate_add,
          ← h.doubles entry.sequence, hlast]
        rfl
    · exact hintervals other hne ▸ h.doubles other
  · exact hhistory ▸ h.justified.concat hright
  · intro other time hmem
    rw [hhistory, transmissions_concat, mem_append] at hmem
    rcases hmem with hmem | hmem
    · exact (h.clock other time hmem).trans hclock
    by_cases hne : entry.sequence = other
    · subst hne
      exact htime time (mem_toList.mp hmem)
    · rw [transmission_ne hne] at hmem
      cases hmem
  intro other hnot
  have hne : other ≠ entry.sequence := fun heq => hnot (heq ▸ hmem)
  have hfresh := h.fresh other fun hold => hnot (hused hold)
  refine ⟨(hpackages other hne).trans hfresh.packages,
    (hpendings other hne).trans hfresh.pendings, fun old hold => ?_⟩
  rw [hhistory, mem_append, mem_singleton] at hold
  rcases hold with hold | rfl
  · exact hfresh.history old hold
  · exact hne.symm

/-! ## The calls -/

theorem mapGet_set_ne {entries : List (Nat × V)} {value : V}
    (h : other ≠ sequence) : mapGet (mapSet entries sequence value) other = mapGet entries other := by
  rw [mapGet_set, if_neg (Ne.symm h)]

theorem mapGet_delete_ne {entries : List (Nat × V)} (h : other ≠ sequence) :
    mapGet (mapDelete entries sequence) other = mapGet entries other := by
  rw [mapGet_delete, if_neg (Ne.symm h)]

theorem mapGet_deleted (entries : List (Nat × V)) (sequence : Nat) :
    mapGet (mapDelete entries sequence) sequence = none := by
  rw [mapGet_delete, if_pos rfl]

theorem mapGet_delete_cases (entries : List (Nat × V)) (sequence other : Nat) :
    mapGet (mapDelete entries sequence) other = none ∨
      mapGet (mapDelete entries sequence) other = mapGet entries other := by
  rw [mapGet_delete]
  split
  · exact .inl rfl
  · exact .inr rfl

theorem Inv.remove (h : Inv config run) (sequence : Nat) : Inv config (run.remove sequence) := by
  unfold ResendQueueRun.remove
  split
  case isTrue hused =>
    refine h.enters (.ended sequence) rfl trivial (List.Subset.refl _) hused (Nat.le_refl _) nofun ?_ nofun ?_
      (fun other hne => mapGet_delete_ne hne) fun _ _ => rfl
    · show (transmissions sequence _).length ≤ _
      rw [transmissions_concat]
      exact (congrArg List.length (append_nil _)).trans_le (h.atMost sequence)
    · intro pkgInfo hget
      cases (mapGet_deleted run.packages sequence).symm.trans hget
  case isFalse =>
    exact h.keeps rfl rfl (Nat.le_refl _) (mapGet_delete_cases run.packages sequence) fun _ hnone => hnone

theorem Inv.send (h : Inv config run) (hmax : 2 ≤ config.maxTimes) (hclock : run.clock ≤ now)
    (hnew : sequence ∉ run.used) (peer : Nat) (toPeerid : Peerid) :
    Inv config { run.send config peer toPeerid sequence now with
      clock := now
      used := run.used ++ [sequence] } := by
  have hfresh := h.fresh sequence hnew
  have hpending : run.isPending config sequence now = false := by
    unfold isPending
    rw [hfresh.pendings]
    rfl
  have htransmissions : transmissions sequence (run.history ++ [.sent sequence now]) = [now] := by
    rw [transmissions_concat, hfresh.transmissions]
    simp [ResendEntry.transmission]
  have hintervals : intervals sequence (run.history ++ [.sent sequence now]) = [] := by
    rw [intervals_concat, hfresh.intervals]
    rfl
  unfold ResendQueueRun.send
  rw [hfresh.packages, hpending]
  refine h.enters (.sent sequence now) rfl ⟨hfresh.notEnded, hfresh.transmissions⟩
    (subset_append_left _ _) (mem_append_right _ mem_cons_self) hclock ?_ ?_ nofun ?_
    (fun other hne => mapGet_set_ne hne) (fun other hne => mapGet_set_ne hne)
  · simp [ResendEntry.transmission, ResendEntry.sequence]
  · show (transmissions sequence (run.history ++ [.sent sequence now])).length ≤ _
    rw [htransmissions]
    exact Nat.le_of_succ_le hmax
  intro pkgInfo hget
  show Queued config sequence (run.history ++ [.sent sequence now]) pkgInfo
  replace hget : mapGet (mapSet _ sequence _) sequence = some pkgInfo := hget
  rw [mapGet_set, if_pos rfl] at hget
  cases hget
  constructor
  · rw [htransmissions]
    rfl
  · exact hmax
  · rw [hintervals]
    rfl
  · rw [htransmissions]
    simp
  intro hmem
  rcases mem_concat.mp hmem with hmem | hmem
  · exact hfresh.notEnded hmem
  · cases hmem

/-- A package stays as it was until its interval has run out. -/
theorem Inv.visit (h : Inv config run) (hclock : run.clock = now) (sequence : Nat) :
    Inv config (run.visit config now sequence) := by
  unfold ResendQueueRun.visit
  cases hget : mapGet run.packages sequence with
  | none => exact h
  | some pkgInfo =>
    have hqueued := h.queued sequence pkgInfo hget
    have hlt := hqueued.lt
    dsimp only
    by_cases hdue : (now : Int) - pkgInfo.lastTime ≥ pkgInfo.interval
    · rw [decide_eq_true hdue, Bool.true_and, if_pos rfl, if_pos rfl]
      generalize (!run.isPending config sequence now) = handed
      generalize hentry : ResendEntry.due sequence now pkgInfo.interval handed = entry
      generalize htimes : (if handed then pkgInfo.times + 1 else pkgInfo.times) = times
      have htransmissions : transmissions sequence (run.history ++ [entry]) =
          transmissions sequence run.history ++ if handed then [now] else [] := by
        rw [transmissions_concat, ← hentry]
        cases handed <;> simp [ResendEntry.transmission]
      have hintervals : intervals sequence (run.history ++ [entry]) =
          intervals sequence run.history ++ [pkgInfo.interval] := by
        rw [intervals_concat, ← hentry]
        simp [ResendEntry.interval]
      have hlength : times = (transmissions sequence (run.history ++ [entry])).length := by
        rw [htransmissions, length_append, ← hqueued.times, ← htimes]
        cases handed <;> rfl
      have hold : ∀ time ∈ transmissions sequence run.history, time ≤ now :=
        fun time hmem => hclock ▸ h.clock sequence time hmem
      obtain rfl : entry.sequence = sequence := hentry ▸ rfl
      refine h.enters entry rfl ?_ (List.Subset.refl _) (h.used hget) (Nat.le_refl _) ?_ ?_ ?_ ?_ ?_ ?_
      · rw [← hentry]
        refine ⟨hqueued.notEnded, fun _ time hmem => ?_⟩
        have hle := hqueued.lastTime time hmem
        omega
      · rw [← hentry]
        cases handed <;> simp [ResendEntry.transmission, ResendEntry.sequence, hclock]
      · rw [← hlength, ← htimes]
        split <;> omega
      · rw [← hentry]
        simpa [ResendEntry.interval, ResendEntry.sequence] using hqueued.interval
      · intro next hnext
        split at hnext
        case isTrue => cases (mapGet_deleted run.packages _).symm.trans hnext
        case isFalse hcount =>
        rw [mapGet_set, if_pos rfl] at hnext
        cases hnext
        refine ⟨hlength, Nat.lt_of_not_le hcount, ?_, ?_, ?_⟩
        · rw [hintervals, length_append, length_singleton,
            Function.iterate_succ_apply', ← hqueued.interval]
        · rw [htransmissions]
          cases handed with
          | true =>
            intro time hmem
            rcases mem_concat.mp hmem with hmem | hmem
            · exact hold time hmem
            · exact Nat.le_of_eq hmem
          | false => simpa using hqueued.lastTime
        intro hmem
        rcases mem_concat.mp hmem with hmem | hmem
        · exact hqueued.notEnded hmem
        · cases hentry.trans hmem.symm
      · intro other hne
        split
        · exact mapGet_delete_ne hne
        · exact mapGet_set_ne hne
      intro other hne
      cases handed
      · rfl
      · exact mapGet_set_ne hne
    rw [decide_eq_false hdue, Bool.false_and]
    refine h.keeps rfl rfl (Nat.le_refl _) (fun other => .inr ?_) fun _ hnone => hnone
    show mapGet (if config.maxTimes ≤ pkgInfo.times then _ else mapSet _ _ pkgInfo) other = _
    rw [if_neg (Nat.not_le.mpr hlt), mapGet_set]
    split
    case isTrue heq => exact heq ▸ hget.symm
    case isFalse => rfl

theorem visit_clock (config : ResendQueueConfig) (now : Nat) (run : ResendQueueRun)
    (sequence : Nat) : (run.visit config now sequence).clock = run.clock := by
  unfold visit
  split <;> rfl

theorem Inv.onTimer (h : Inv config run) (hclock : run.clock = now) (sequences : List Nat) :
    Inv config (sequences.foldl (ResendQueueRun.visit config now) run) := by
  induction sequences generalizing run with
  | nil => exact h
  | cons sequence _ ih =>
    exact ih (h.visit hclock sequence) ((visit_clock config now run sequence).trans hclock)

theorem Inv.step (h : Inv config run) (hmax : 2 ≤ config.maxTimes) {call : ResendCall}
    (hnext : next config run call = some after) : Inv config after := by
  cases call with
  | send peer toPeerid sequence now =>
    simp only [next, ite_none_right_eq_some] at hnext
    obtain ⟨⟨hclock, hnew⟩, hnext⟩ := hnext
    cases hnext
    exact h.send hmax hclock hnew peer toPeerid
  | confirm sequence =>
    cases hnext
    exact h.remove sequence
  | onTimer now =>
    simp only [next, ite_none_right_eq_some] at hnext
    obtain ⟨hclock, hnext⟩ := hnext
    cases hnext
    have hlater : Inv config { run with clock := now } :=
      h.keeps rfl rfl hclock (fun _ => .inr rfl) fun _ hnone => hnone
    exact hlater.onTimer rfl _
  | complete sequence outcome =>
    simp only [next, ite_none_right_eq_some] at hnext
    obtain ⟨-, hnext⟩ := hnext
    cases outcome with
    | rejected =>
      cases hnext
      exact h.keeps rfl rfl (Nat.le_refl _) (fun _ => .inr rfl) fun _ hnone => hnone
    | resolved =>
      have hpending : Inv config { run with
          underWay := run.underWay.erase sequence
          pendings := mapDelete run.pendings sequence } := by
        refine h.keeps rfl rfl (Nat.le_refl _) (fun _ => .inr rfl) fun other hnone => ?_
        exact (mapGet_delete_cases run.pendings sequence other).elim id (·.trans hnone)
      cases hnext
      split
      · exact hpending.remove sequence
      · exact hpending

/-! ## What the log says -/

theorem iterate_shiftLeft (interval i : Nat) (h : interval * 2 ^ i < 2 ^ 31) :
    ResendQueue.shiftLeft^[i] interval = (interval * 2 ^ i : Nat) := by
  induction i with
  | zero => simp
  | succ i ih =>
    rw [pow_succ, ← Nat.mul_assoc] at h ⊢
    rw [Function.iterate_succ_apply', ih (by omega)]
    have hbmod : (2 * ((interval * 2 ^ i : Nat) : Int)).bmod (2 ^ 32) =
        2 * ((interval * 2 ^ i : Nat) : Int) := Int.bmod_eq_of_le (by omega) (by omega)
    exact hbmod.trans (by omega)

theorem Inv.sound (h : Inv config run) : Sound config run where
  atMost := h.atMost
  notAfter front sequence back heq := by
    refine filterMap_eq_nil_iff.mpr fun entry hmem => ?_
    obtain ⟨before, after, rfl⟩ := append_of_mem hmem
    have hright := h.justified (front ++ .ended sequence :: before) entry after (by simp [heq])
    have hended : ResendEntry.ended sequence ∈ front ++ .ended sequence :: before := by simp
    cases entry with
    | sent other => exact if_neg fun hsame : other = sequence => hright.1 (hsame ▸ hended)
    | due other _ _ handed =>
      exact if_neg fun hsame : other = sequence ∧ handed = true => hright.1 (hsame.1 ▸ hended)
    | ended => rfl
  first front sequence now back heq := (h.justified front _ back heq).2
  apart front sequence now interval back heq := (h.justified front _ back heq).2 rfl
  doubles sequence i interval hget hlt := by
    rw [h.doubles sequence] at hget
    have hi := (List.getElem?_eq_some_iff.mp hget).1
    rw [List.length_iterate] at hi
    rw [List.getElem?_iterate _ _ _ _ hi, iterate_shiftLeft _ _ hlt] at hget
    cases hget
    push_cast
    rfl
  removed sequence hle := by
    by_contra hsome
    obtain ⟨pkgInfo, hget⟩ := ne_none_iff_exists'.mp hsome
    have hqueued := h.queued sequence pkgInfo hget
    exact absurd hqueued.lt (by rw [hqueued.times]; omega)

/-- In every run every package is handed over at most `maxTimes` times, not after it is confirmed or
reliably sent, and its intervals keep the times apart. -/
theorem resends_sound (hmax : 2 ≤ config.maxTimes) (calls : List ResendCall)
    (hrun : exec (next config) {} calls = some run) : Sound config run :=
  (exec_preserves (fun _ _ _ h hnext => h.step hmax hnext) (inv_start config) hrun).sound

/-- A package of the default configuration, with a call that takes a second. -/
def slowCalls : List ResendCall :=
  [.send 0 ⟨List.replicate 32 1, rfl⟩ 7 1, .onTimer 601, .onTimer 1001, .complete 7 (.resolved true false),
    .onTimer 1201, .onTimer 2001]

/-- It is handed over a second time when the call has ended. -/
theorem resends_sound_slow : ∃ run, exec (next ⟨489, 5⟩) {} slowCalls = some run ∧ Sound ⟨489, 5⟩ run :=
  ⟨_, rfl, resends_sound (by decide) slowCalls rfl⟩

/-- The interval has doubled twice when the package is handed over for the second time, and one of
twelve days becomes negative by that. -/
theorem interval_quadruples :
    (exec (next ⟨489, 5⟩) {} slowCalls).map (·.history) =
      some [.sent 7 1, .due 7 601 489 false, .due 7 1001 978 false, .due 7 2001 1956 true] ∧
    (exec (next ⟨2 ^ 30, 3⟩) {} [.send 0 ⟨List.replicate 32 1, rfl⟩ 7 1,
        .complete 7 (.resolved true false), .onTimer (2 ^ 30 + 1),
        .complete 7 (.resolved true false), .onTimer (2 ^ 30 + 2)]).map (·.history) =
      some [.sent 7 1, .due 7 (2 ^ 30 + 1) (2 ^ 30) true, .due 7 (2 ^ 30 + 2) (-2 ^ 31) true] := by
  decide

end ResendQueueRun

end Bdt
