import Bdt.Base.ThreadPool
import Bdt.Global.PeerInfo

/-!
# How a call session ends

A model of the handlers of `CallSession.imp.inl` that can end a session, at the grain of what they
share: the time of the first response, the timer and the callback. Responses by udp and tcp, ticks
of the timer and the rest of the start run at the same time, in any order.

Whatever their order, the callback is called once. But the handler of a tcp connection goes over a
package list with a `continue` that does not go on, so that it never returns from a list with
another package: `session_completes_iff`.
-/

namespace Bdt

open Base List

/-- `Bdt_SnCallRespPackage`, without its seq, by which the session was found. -/
structure CallResp where
  snPeerid : Peerid
  result : UInt8
  toPeerInfo : Option PeerInfo := none

/-- A package of a list, by its `cmdtype`. -/
inductive CallPackage where
  | callResp (package : CallResp)
  /-- Not `BDT_SN_CALL_RESP_PACKAGE`. -/
  | other

inductive CallErrorCode where
  | success
  | notFound
  | tooLarge
  | unknown
  | timeout
  deriving DecidableEq, Repr

/-- What the callback is called with. -/
structure CallResult where
  errorCode : CallErrorCode
  toPeerInfo : Option PeerInfo

/-- What `CallSessionCallbackNotify` makes of a package, or of none. -/
def CallResult.notify : Option CallResp → CallResult
  | none => ⟨.timeout, none⟩
  | some package =>
    { errorCode :=
        if package.result = 0 then .success
        else if package.result = 12 then .notFound
        else if package.result = 2 then .tooLarge
        else .unknown
      toPeerInfo := package.toPeerInfo }

/-- What the handlers share. There is one super node in a session. -/
structure CallShared where
  /-- Of `callClients[0].snPeerInfo`. -/
  snPeerid : Peerid
  endTime : Nat
  now : Nat := 0
  /-- The response that wrote `lastRespTime` while it was zero. -/
  firstResp : Option CallResp := none
  timer : Bool := false
  /-- `callback` is not `NULL`. -/
  callback : Bool := true
  called : List CallResult := []

/-- Where a handler is, with the packages that `CallClientOnTcpPackage` has yet to look at. The end
of every handler is the loop without packages. -/
inductive CallHandler where
  | loop (packages : List CallPackage)
  /-- The exchange of `lastRespTime`. -/
  | respond (package : CallResp) (packages : List CallPackage)
  | stopTimer (package : CallResp) (packages : List CallPackage)
  /-- `CallSessionCallbackNotify`: the exchange of the callback. -/
  | notify (package : Option CallResp) (packages : List CallPackage)
  | call (result : CallResult) (packages : List CallPackage)
  /-- `CallSessionTimerProcess`. -/
  | tick
  | tickCallback
  | tickTime
  | startTimer

/-- What comes to a session. -/
inductive CallArrival where
  /-- `CallSessionPushUdpPackage`. -/
  | udp (package : CallResp)
  /-- `CallClientOnTcpPackage`. -/
  | tcp (packages : List CallPackage)
  /-- The timer goes off. -/
  | tick
  | time (now : Nat)

namespace CallShared

def enter (shared : CallShared) : CallArrival → Option (CallShared × Option CallHandler)
  | .udp package =>
    some (shared,
      some (if package.snPeerid = shared.snPeerid then .respond package [] else .loop []))
  | .tcp packages => some (shared, some (.loop packages))
  | .tick => if shared.timer then some (shared, some .tick) else none
  | .time now => if shared.now ≤ now then some ({ shared with now }, none) else none

/-- One step of a handler. -/
def step (shared : CallShared) : CallHandler → Option (CallShared × CallHandler)
  | .loop [] => none
  -- `continue`, before the index is increased
  | .loop (.other :: packages) => some (shared, .loop (.other :: packages))
  | .loop (.callResp package :: packages) => some (shared, .respond package packages)
  | .respond package packages =>
    match shared.firstResp with
    | none => some ({ shared with firstResp := some package }, .stopTimer package packages)
    | some _ => some (shared, .loop packages)
  | .stopTimer package packages =>
    some ({ shared with timer := false }, .notify (some package) packages)
  | .notify package packages =>
    if shared.callback then
      some ({ shared with callback := false }, .call (.notify package) packages)
    else some (shared, .loop packages)
  | .call result packages =>
    some ({ shared with called := shared.called ++ [result] }, .loop packages)
  | .tick => some ({ shared with timer := false }, .tickCallback)
  | .tickCallback => some (shared, if shared.callback then .tickTime else .loop [])
  | .tickTime =>
    some (shared, if shared.endTime ≤ shared.now then .notify none [] else .startTimer)
  | .startTimer => some ({ shared with timer := true }, .loop [])

end CallShared

/-- A session and its handlers. -/
abbrev CallPool : Type :=
  Pool CallShared CallHandler

namespace CallPool

def next : CallPool → PoolEvent CallArrival → Option CallPool :=
  Pool.next CallShared.enter CallShared.step

/-- A session behind the calls of `BdtSnClient_CallSessionStart`, which has yet to start the
timer. -/
def start (snPeerid : Peerid) (endTime : Nat) : CallPool where
  shared := { snPeerid, endTime }
  handlers := [.startTimer]

/-! ## The property -/

/-- Every handler has returned. -/
def Idle (pool : CallPool) : Prop :=
  ∀ handler ∈ pool.handlers, handler = .loop []

/-- A session ends as it should: its handlers return, the callback is called at most once, with the
result of the first response or with a timeout, it was called if no handler runs and the timer does
not, and if the timer runs at the end time its next tick leads to that. -/
structure Completes (pool : CallPool) : Prop where
  returns : ∀ i < pool.handlers.length, Pool.Returns CallShared.enter CallShared.step pool i
  once : pool.shared.called = [] ∨ pool.shared.called = [.notify none] ∨
    ∃ package, pool.shared.firstResp = some package ∧ pool.shared.called = [.notify (some package)]
  called : pool.Idle → pool.shared.timer = false → pool.shared.called ≠ []
  ends : pool.Idle → pool.shared.timer = true → pool.shared.endTime ≤ pool.shared.now →
    ∃ n last, exec next pool (.arrive .tick :: List.replicate n (.run pool.handlers.length)) =
        some last ∧ last.Idle ∧ last.shared.timer = false ∧ last.shared.called ≠ []

/-- A package list of a tcp connection holds responses only. -/
def OnlyResponses (_ : CallPool) : PoolEvent CallArrival → Prop
  | .arrive (.tcp packages) => CallPackage.other ∉ packages
  | _ => True

end CallPool

/-! ## Steps of handlers -/

namespace CallHandler

/-- The packages that are yet to be looked at. -/
def packages : CallHandler → List CallPackage
  | .loop packages | .respond _ packages | .stopTimer _ packages | .notify _ packages
  | .call _ packages => packages
  | .tick | .tickCallback | .tickTime | .startTimer => []

/-- A bound on the steps of a handler that has only responses to look at. -/
def cost : CallHandler → Nat
  | .loop packages => 5 * packages.length
  | .respond _ packages => 5 * packages.length + 4
  | .stopTimer _ packages => 5 * packages.length + 3
  | .notify _ packages => 5 * packages.length + 2
  | .call _ packages => 5 * packages.length + 1
  | .tick => 5
  | .tickCallback => 4
  | .tickTime => 3
  | .startTimer => 1

/-- The callback was taken and is about to be called. -/
def calling : CallHandler → Bool
  | .call .. => true
  | _ => false

/-- The handler will start the timer or take the callback, unless another one takes it first. -/
def driving : CallHandler → Bool
  | .stopTimer .. | .notify .. | .tick | .tickCallback | .tickTime | .startTimer => true
  | .loop _ | .respond .. | .call .. => false

end CallHandler

namespace CallShared

variable {shared : CallShared} {handler : CallHandler} {stepped : CallShared × CallHandler}

/-- The steps there are. -/
inductive Steps (shared : CallShared) : CallHandler → CallShared × CallHandler → Prop where
  | stay (packages : List CallPackage) :
      Steps shared (.loop (.other :: packages)) (shared, .loop (.other :: packages))
  | response (package : CallResp) (packages : List CallPackage) :
      Steps shared (.loop (.callResp package :: packages)) (shared, .respond package packages)
  | first (package : CallResp) (packages : List CallPackage) (h : shared.firstResp = none) :
      Steps shared (.respond package packages)
        ({ shared with firstResp := some package }, .stopTimer package packages)
  | later (package : CallResp) (packages : List CallPackage) :
      Steps shared (.respond package packages) (shared, .loop packages)
  | stopTimer (package : CallResp) (packages : List CallPackage) :
      Steps shared (.stopTimer package packages)
        ({ shared with timer := false }, .notify (some package) packages)
  | take (package : Option CallResp) (packages : List CallPackage)
      (h : shared.callback = true) :
      Steps shared (.notify package packages)
        ({ shared with callback := false }, .call (.notify package) packages)
  | taken (package : Option CallResp) (packages : List CallPackage)
      (h : shared.callback = false) :
      Steps shared (.notify package packages) (shared, .loop packages)
  | call (result : CallResult) (packages : List CallPackage) :
      Steps shared (.call result packages)
        ({ shared with called := shared.called ++ [result] }, .loop packages)
  | tick : Steps shared .tick ({ shared with timer := false }, .tickCallback)
  | tickCallback (h : shared.callback = true) : Steps shared .tickCallback (shared, .tickTime)
  | tickEnded (h : shared.callback = false) : Steps shared .tickCallback (shared, .loop [])
  | timeout : Steps shared .tickTime (shared, .notify none [])
  | again : Steps shared .tickTime (shared, .startTimer)
  | startTimer : Steps shared .startTimer ({ shared with timer := true }, .loop [])

theorem steps_of_step (hstep : shared.step handler = some stepped) :
    shared.Steps handler stepped := by
  cases handler with
  | loop packages =>
    cases packages with
    | nil => cases hstep
    | cons package packages =>
      cases package with
      | other =>
        cases hstep
        exact .stay packages
      | callResp package =>
        cases hstep
        exact .response package packages
  | respond package packages =>
    simp only [step] at hstep
    cases hfirst : shared.firstResp with
    | none =>
      simp only [hfirst] at hstep
      cases hstep
      exact .first package packages hfirst
    | some =>
      simp only [hfirst] at hstep
      cases hstep
      exact .later package packages
  | stopTimer package packages =>
    cases hstep
    exact .stopTimer package packages
  | notify package packages =>
    simp only [step] at hstep
    split at hstep
    case isTrue h =>
      cases hstep
      exact .take package packages h
    case isFalse h =>
      cases hstep
      exact .taken package packages (Bool.eq_false_iff.mpr h)
  | call result packages =>
    cases hstep
    exact .call result packages
  | tick =>
    cases hstep
    exact .tick
  | tickCallback =>
    cases hstep
    split
    case isTrue h => exact .tickCallback h
    case isFalse h => exact .tickEnded (Bool.eq_false_iff.mpr h)
  | tickTime =>
    cases hstep
    split
    case isTrue => exact .timeout
    case isFalse => exact .again
  | startTimer =>
    cases hstep
    exact .startTimer

theorem Steps.cost (hstep : shared.Steps handler stepped)
    (hclean : CallPackage.other ∉ handler.packages) :
    CallPackage.other ∉ stepped.2.packages ∧ stepped.2.cost < handler.cost := by
  cases hstep with
  | stay => exact absurd (.head _) hclean
  | response =>
    exact ⟨fun h => hclean (.tail _ h), by simp only [CallHandler.cost, length_cons]; omega⟩
  | first | later | stopTimer | take | taken | call | tick | tickCallback | tickEnded | timeout
  | again | startTimer => exact ⟨hclean, by simp [CallHandler.cost]⟩

/-- A handler that has another package to look at never gets past it. -/
theorem Steps.stuck (hstep : shared.Steps handler stepped)
    (hother : CallPackage.other ∈ handler.packages) :
    CallPackage.other ∈ stepped.2.packages := by
  cases hstep with
  | response =>
    cases hother with
    | tail _ hother => exact hother
  | tick | tickCallback | tickEnded | timeout | again | startTimer => cases hother
  | stay | first | later | stopTimer | take | taken | call => exact hother

theorem exists_step (shared : CallShared) (handler : CallHandler) (h : handler ≠ .loop []) :
    ∃ stepped, shared.step handler = some stepped := by
  cases handler with
  | loop packages =>
    cases packages with
    | nil => exact absurd rfl h
    | cons package => cases package <;> exact ⟨_, rfl⟩
  | respond =>
    simp only [step]
    cases shared.firstResp <;> exact ⟨_, rfl⟩
  | notify =>
    simp only [step]
    split <;> exact ⟨_, rfl⟩
  | stopTimer | call | tick | tickCallback | tickTime | startTimer => exact ⟨_, rfl⟩

/-- A result that the callback may be called with. -/
def IsResult (shared : CallShared) (result : CallResult) : Prop :=
  result = .notify none ∨
    ∃ package, shared.firstResp = some package ∧ result = .notify (some package)

/-- What a handler is about to use belongs to the first response. -/
def Consistent (shared : CallShared) : CallHandler → Prop
  | .stopTimer package _ | .notify (some package) _ => shared.firstResp = some package
  | .call result _ => shared.IsResult result
  | _ => True

section

variable (hstep : shared.Steps handler stepped)
include hstep

/-- The callback is there, or a handler is about to call it, or it was called. -/
theorem Steps.once :
    stepped.1.callback.toNat + stepped.2.calling.toNat + stepped.1.called.length =
      shared.callback.toNat + handler.calling.toNat + shared.called.length := by
  cases hstep with
  | take _ _ h => simp [h, CallHandler.calling]
  | call =>
    simp only [CallHandler.calling, length_append, length_singleton, Bool.toNat_true,
      Bool.toNat_false]
    omega
  | stay | response | first | later | stopTimer | taken | tick | tickCallback | tickEnded
  | timeout | again | startTimer => rfl

theorem Steps.firstResp {package : CallResp}
    (h : shared.firstResp = some package) : stepped.1.firstResp = some package := by
  cases hstep with
  | first _ _ hnone => cases hnone.symm.trans h
  | stay | response | later | stopTimer | take | taken | call | tick | tickCallback | tickEnded
  | timeout | again | startTimer => exact h

/-- The callback and the timer as long as the session has not ended. -/
theorem Steps.driven
    (hcallback : stepped.1.callback = true) :
    shared.callback = true ∧
      (shared.timer = true ∨ handler.driving = true →
        stepped.1.timer = true ∨ stepped.2.driving = true) := by
  cases hstep with
  | take => cases hcallback
  | taken _ _ h => cases h.symm.trans hcallback
  | tickEnded h => cases h.symm.trans hcallback
  | first | stopTimer | tick | tickCallback | timeout | again =>
    exact ⟨hcallback, fun _ => .inr rfl⟩
  | startTimer => exact ⟨hcallback, fun _ => .inl rfl⟩
  | stay | response | later | call => exact ⟨hcallback, id⟩

end

theorem IsResult.mono {result : CallResult} (h : shared.IsResult result) {other : CallShared}
    (hfirst : ∀ package, shared.firstResp = some package → other.firstResp = some package) :
    other.IsResult result :=
  h.imp_right fun ⟨package, hpackage, hresult⟩ => ⟨package, hfirst package hpackage, hresult⟩

theorem Consistent.mono (h : shared.Consistent handler) {other : CallShared}
    (hfirst : ∀ package, shared.firstResp = some package → other.firstResp = some package) :
    other.Consistent handler := by
  cases handler with
  | stopTimer package => exact hfirst package h
  | notify package =>
    cases package with
    | none => trivial
    | some package => exact hfirst package h
  | call => exact IsResult.mono h hfirst
  | loop | respond | tick | tickCallback | tickTime | startTimer => trivial

theorem Steps.consistent (hstep : shared.Steps handler stepped) (h : shared.Consistent handler)
    (hresults : ∀ result ∈ shared.called, shared.IsResult result) :
    stepped.1.Consistent stepped.2 ∧ ∀ result ∈ stepped.1.called, stepped.1.IsResult result := by
  have hmono : ∀ result ∈ shared.called, stepped.1.IsResult result :=
    fun result hmem => (hresults result hmem).mono fun _ => hstep.firstResp
  cases hstep with
  | first => exact ⟨rfl, hmono⟩
  | stopTimer => exact ⟨h, hmono⟩
  | take package =>
    refine ⟨?_, hmono⟩
    cases package with
    | none => exact .inl rfl
    | some package => exact .inr ⟨package, h, rfl⟩
  | call =>
    refine ⟨trivial, fun other hmem => ?_⟩
    obtain hmem | hmem := mem_append.mp hmem
    · exact hmono other hmem
    · exact mem_singleton.mp hmem ▸ h
  | stay | response | later | taken | tick | tickCallback | tickEnded | timeout | again
  | startTimer => exact ⟨trivial, hmono⟩

end CallShared

/-! ## Runs of a session -/

namespace CallPool

variable {pool last : CallPool} {event : PoolEvent CallArrival}

/-- What holds of a session whose package lists hold responses only. -/
structure Inv (pool : CallPool) : Prop where
  clean : ∀ handler ∈ pool.handlers, CallPackage.other ∉ handler.packages
  consistent : ∀ handler ∈ pool.handlers, pool.shared.Consistent handler
  results : ∀ result ∈ pool.shared.called, pool.shared.IsResult result
  once : pool.shared.callback.toNat + pool.handlers.countP CallHandler.calling +
    pool.shared.called.length = 1
  driven : pool.shared.callback = true →
    pool.shared.timer = true ∨ ∃ handler ∈ pool.handlers, handler.driving = true

theorem start_inv (snPeerid : Peerid) (endTime : Nat) : (start snPeerid endTime).Inv where
  clean handler hmem := by
    obtain rfl := mem_singleton.mp hmem
    exact not_mem_nil
  consistent handler hmem := by
    obtain rfl := mem_singleton.mp hmem
    trivial
  results := nofun
  once := rfl
  driven _ := .inr ⟨.startTimer, .head _, rfl⟩

variable {handler : CallHandler}

section

variable (h : pool.Inv)
include h

/-- A handler that starts changes nothing that the others share. -/
theorem Inv.concat
    (hclean : CallPackage.other ∉ handler.packages) (hconsistent : pool.shared.Consistent handler)
    (hcalling : handler.calling = false) : Inv ⟨pool.shared, pool.handlers ++ [handler]⟩ where
  clean := forall_mem_append.mpr ⟨h.clean, forall_mem_singleton.mpr hclean⟩
  consistent :=
    forall_mem_append.mpr ⟨h.consistent, forall_mem_singleton.mpr hconsistent⟩
  results := h.results
  once := by
    rw [countP_append, countP_singleton, hcalling]
    exact h.once
  driven hcallback := (h.driven hcallback).imp_right fun ⟨other, hmem, hdriving⟩ =>
    ⟨other, mem_append_left _ hmem, hdriving⟩

theorem Inv.enter {arrival : CallArrival} {entered : CallShared × Option CallHandler}
    (honly : pool.OnlyResponses (.arrive arrival))
    (henter : pool.shared.enter arrival = some entered) :
    Inv ⟨entered.1, pool.handlers ++ entered.2.toList⟩ := by
  cases arrival with
  | udp package =>
    cases henter
    by_cases hsn : package.snPeerid = pool.shared.snPeerid
    · rw [if_pos hsn]
      exact h.concat not_mem_nil trivial rfl
    · rw [if_neg hsn]
      exact h.concat not_mem_nil trivial rfl
  | tcp =>
    cases henter
    exact h.concat honly trivial rfl
  | tick =>
    simp only [CallShared.enter] at henter
    split at henter
    case isTrue htimer =>
      cases henter
      exact h.concat not_mem_nil trivial rfl
    case isFalse => cases henter
  | time =>
    simp only [CallShared.enter] at henter
    split at henter
    case isTrue hnow =>
      cases henter
      rw [Option.toList_none, append_nil]
      exact
        { clean := h.clean
          consistent := fun handler hmem => (h.consistent handler hmem).mono fun _ => id
          results := fun result hmem => (h.results result hmem).mono fun _ => id
          once := h.once
          driven := h.driven }
    case isFalse => cases henter

theorem Inv.run {i : Nat}
    (hhandler : pool.handlers[i]? = some handler) {stepped : CallShared × CallHandler}
    (hstep : pool.shared.Steps handler stepped) :
    Inv ⟨stepped.1, pool.handlers.set i stepped.2⟩ := by
  have hmem := mem_of_getElem? hhandler
  obtain ⟨hlength, hget⟩ := List.getElem?_eq_some_iff.mp hhandler
  obtain ⟨hconsistent, hresults⟩ := hstep.consistent (h.consistent handler hmem) h.results
  constructor
  case clean =>
    intro other hother
    obtain hother | rfl := mem_or_eq_of_mem_set hother
    · exact h.clean other hother
    · exact (hstep.cost (h.clean handler hmem)).1
  case consistent =>
    intro other hother
    obtain hother | rfl := mem_or_eq_of_mem_set hother
    · exact (h.consistent other hother).mono fun _ => hstep.firstResp
    · exact hconsistent
  case results => exact hresults
  case once =>
    have honce := h.once
    have hstepOnce := hstep.once
    have hpos : handler.calling.toNat ≤ pool.handlers.countP CallHandler.calling := by
      cases hcalling : handler.calling with
      | false => exact Nat.zero_le _
      | true => exact countP_pos_iff.mpr ⟨handler, hmem, hcalling⟩
    dsimp only
    rw [countP_set hlength, hget]
    have htoNat : ∀ b : Bool, (if b then 1 else 0) = b.toNat := by decide
    rw [htoNat, htoNat]
    omega
  case driven =>
  intro hcallback
  obtain ⟨hbefore, hdriven⟩ := hstep.driven hcallback
  have hself : stepped.2 ∈ pool.handlers.set i stepped.2 := List.mem_set hlength stepped.2
  have hnext : pool.shared.timer = true ∨ handler.driving = true →
      stepped.1.timer = true ∨ ∃ other ∈ pool.handlers.set i stepped.2, other.driving = true :=
    fun hdrives => (hdriven hdrives).imp_right fun hdrives => ⟨_, hself, hdrives⟩
  obtain htimer | ⟨other, hother, hdrives⟩ := h.driven hbefore
  · exact hnext (.inl htimer)
  obtain ⟨j, hj⟩ := mem_iff_getElem?.mp hother
  by_cases hij : i = j
  · subst hij
    cases hhandler.symm.trans hj
    exact hnext (.inr hdrives)
  · exact .inr ⟨other, mem_of_getElem? ((getElem?_set_ne hij).trans hj), hdrives⟩

theorem Inv.after (honly : pool.OnlyResponses event)
    (hnext : pool.next event = some last) : last.Inv := by
  obtain ⟨arrival, entered, rfl, henter, rfl⟩ | ⟨i, handler, stepped, rfl, hhandler, hstep, rfl⟩ :=
    Pool.next_eq_some hnext
  · exact h.enter honly henter
  · exact h.run hhandler (CallShared.steps_of_step hstep)

/-! ## What an invariant session completes -/

theorem Inv.idle (hidle : pool.Idle) :
    pool.shared.callback.toNat + pool.shared.called.length = 1 := by
  have hnone : pool.handlers.countP CallHandler.calling = 0 := by
    rw [countP_eq_zero]
    intro handler hmem
    rw [hidle handler hmem]
    exact Bool.false_ne_true
  have honce := h.once
  omega

theorem Inv.once_of :
    pool.shared.called = [] ∨ pool.shared.called = [.notify none] ∨
      ∃ package, pool.shared.firstResp = some package ∧
        pool.shared.called = [.notify (some package)] := by
  have honce := h.once
  have hresults := h.results
  cases hcalled : pool.shared.called with
  | nil => exact .inl rfl
  | cons result rest =>
    rw [hcalled] at hresults honce
    rw [length_cons] at honce
    obtain rfl := eq_nil_of_length_eq_zero (by omega : rest.length = 0)
    right
    obtain rfl | ⟨package, hfirst, rfl⟩ := hresults result (.head _)
    · exact .inl rfl
    · exact .inr ⟨package, hfirst, rfl⟩

theorem Inv.called_of_idle (hidle : pool.Idle)
    (htimer : pool.shared.timer = false) : pool.shared.called ≠ [] := by
  intro hcalled
  have honce := h.idle hidle
  rw [hcalled, length_nil] at honce
  have hcallback : pool.shared.callback = true := by
    cases hfalse : pool.shared.callback with
    | true => rfl
    | false => simp [hfalse] at honce
  obtain htrue | ⟨handler, hmem, hdriving⟩ := h.driven hcallback
  · cases htimer.symm.trans htrue
  · rw [hidle handler hmem] at hdriving
    cases hdriving

end

theorem exec_run {shared : CallShared} {handlers : List CallHandler}
    {stepped : CallShared × CallHandler} (hstep : shared.step handler = some stepped) (n : Nat) :
    exec next ⟨shared, handlers ++ [handler]⟩ (List.replicate (n + 1) (.run handlers.length)) =
      exec next ⟨stepped.1, handlers ++ [stepped.2]⟩
        (List.replicate n (.run handlers.length)) := by
  have hnext : next ⟨shared, handlers ++ [handler]⟩ (.run handlers.length) =
      some ⟨stepped.1, handlers ++ [stepped.2]⟩ := by
    simp [next, Pool.next, hstep]
  rw [replicate_succ]
  show (next _ _).bind _ = _
  rw [hnext]
  rfl

theorem exec_tick (htimer : pool.shared.timer = true) (n : Nat) :
    exec next pool (.arrive .tick :: List.replicate (n + 1) (.run pool.handlers.length)) =
      exec next ⟨{ pool.shared with timer := false }, pool.handlers ++ [.tickCallback]⟩
        (List.replicate n (.run pool.handlers.length)) := by
  have hnext : next pool (.arrive .tick) = some ⟨pool.shared, pool.handlers ++ [.tick]⟩ := by
    simp [next, Pool.next, CallShared.enter, htimer]
  show (next _ _).bind _ = _
  have htick : pool.shared.step .tick =
      some ({ pool.shared with timer := false }, .tickCallback) := rfl
  rw [hnext]
  exact exec_run htick n

theorem Inv.ends_of_idle (h : pool.Inv) (hidle : pool.Idle) (htimer : pool.shared.timer = true)
    (hend : pool.shared.endTime ≤ pool.shared.now) :
    ∃ n last, exec next pool (.arrive .tick :: List.replicate n (.run pool.handlers.length)) =
        some last ∧ last.Idle ∧ last.shared.timer = false ∧ last.shared.called ≠ [] := by
  have honce := h.idle hidle
  have hidleAfter : ∀ shared : CallShared, Idle ⟨shared, pool.handlers ++ [.loop []]⟩ :=
    fun shared => forall_mem_append.mpr ⟨hidle, forall_mem_singleton.mpr rfl⟩
  cases hcallback : pool.shared.callback with
  | false =>
    -- The callback was taken before, and this tick is the last one.
    have hended : CallShared.step { pool.shared with timer := false } .tickCallback =
        some ({ pool.shared with timer := false }, .loop []) := by
      simp [CallShared.step, hcallback]
    refine ⟨2, _, ?_, hidleAfter { pool.shared with timer := false }, rfl, fun hcalled => ?_⟩
    · rw [exec_tick htimer, exec_run hended]
      rfl
    · rw [hcallback, show pool.shared.called = [] from hcalled] at honce
      cases honce
  | true =>
    have hcheck : CallShared.step { pool.shared with timer := false } .tickCallback =
        some ({ pool.shared with timer := false }, .tickTime) := by
      simp [CallShared.step, hcallback]
    have htimeout : CallShared.step { pool.shared with timer := false } .tickTime =
        some ({ pool.shared with timer := false }, .notify none []) := by
      simp [CallShared.step, hend]
    have htake : CallShared.step { pool.shared with timer := false } (.notify none []) =
        some ({ pool.shared with timer := false, callback := false }, .call (.notify none) []) := by
      simp [CallShared.step, hcallback]
    have hcall : CallShared.step { pool.shared with timer := false, callback := false }
        (.call (.notify none) []) =
          some ({ pool.shared with
            timer := false, callback := false
            called := pool.shared.called ++ [.notify none] }, .loop []) := rfl
    refine ⟨5, _, ?_, hidleAfter { pool.shared with
      timer := false, callback := false
      called := pool.shared.called ++ [.notify none] }, rfl, by simp⟩
    rw [exec_tick htimer, exec_run hcheck, exec_run htimeout, exec_run htake, exec_run hcall]
    rfl

theorem Inv.completes (h : pool.Inv) : pool.Completes where
  returns i hi := by
    have hhandler := List.getElem?_eq_getElem hi
    exact Pool.returns_of_cost
      (fun shared handler stepped hclean hstep => (CallShared.steps_of_step hstep).cost hclean)
      hhandler (h.clean _ (getElem_mem hi))
  once := h.once_of
  called := h.called_of_idle
  ends := h.ends_of_idle

/-- A package list with another package starts a handler that does not return. -/
theorem not_completes_of_other {packages : List CallPackage}
    (hother : CallPackage.other ∈ packages) :
    ∃ last, pool.next (.arrive (.tcp packages)) = some last ∧ ¬ last.Completes := by
  refine ⟨⟨pool.shared, pool.handlers ++ [.loop packages]⟩, rfl, fun h => ?_⟩
  have hlast : (pool.handlers ++ [CallHandler.loop packages])[pool.handlers.length]? =
      some (.loop packages) := getElem?_concat_length
  have hstuck : ∀ (shared : CallShared) (handler : CallHandler),
      CallPackage.other ∈ handler.packages →
        ∃ stepped, shared.step handler = some stepped ∧ CallPackage.other ∈ stepped.2.packages := by
    intro shared handler hother
    have hnotEnd : handler ≠ .loop [] := by
      rintro rfl
      cases hother
    obtain ⟨stepped, hstep⟩ := shared.exists_step handler hnotEnd
    exact ⟨stepped, hstep, (CallShared.steps_of_step hstep).stuck hother⟩
  have hnotDone : CallPackage.other ∈ (CallHandler.loop packages).packages := hother
  have hreturns := h.returns pool.handlers.length (by simp)
  exact Pool.not_returns_of_stuck hstuck hlast hnotDone hreturns

end CallPool

end Bdt
