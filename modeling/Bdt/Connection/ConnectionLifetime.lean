import Bdt.Base.History
import Bdt.Connection.ConnectionSteps

/-!
# What a step does to the life of a connection

A step stays in the state of the connection or enters a later one (`step_moves`); what it acquires
and takes is what it leaves to be done and what the connection then holds (`step_conserves`); there
is one connector at most, and no acceptor beside it (`step_tidy`); there is one only while the
connection is connecting (`step_connecting`); and what is closed is removed (`step_gone`).

The last three of these need that the step is `Orderly`, or that the connection is found in order.
-/

namespace Bdt

open Base List

/-- The order in which the states are passed. -/
def BdtConnectionState.rank : BdtConnectionState → Nat
  | .none => 0
  | .connecting => 1
  | .establish => 2
  | .closing => 3
  | .closed => 4

/-- The states that were entered. -/
def statesOf (history : List ConnectionEntry) : List BdtConnectionState :=
  history.filterMap fun
    | .entered _ state => some state
    | _ => none

/-- The state entered last. -/
def lastState (history : List ConnectionEntry) : BdtConnectionState :=
  (statesOf history).getLast?.getD .none

/-- An entry that enters a state enters a later one. -/
def MovesForward (front : List ConnectionEntry) : ConnectionEntry → Prop
  | .entered _ state => (lastState front).rank < state.rank
  | _ => True

theorem statesOf_append (history more : List ConnectionEntry) :
    statesOf (history ++ more) = statesOf history ++ statesOf more :=
  filterMap_append

theorem lastState_quiet {history more : List ConnectionEntry} (h : statesOf more = []) :
    lastState (history ++ more) = lastState history := by
  unfold lastState
  rw [statesOf_append, h, append_nil]

theorem lastState_entered (history : List ConnectionEntry) (caller : Nat) (state : BdtConnectionState) :
    lastState (history ++ [.entered caller state]) = state := by
  unfold lastState
  rw [statesOf_append]
  show ((statesOf history ++ [state]).getLast?).getD .none = state
  rw [getLast?_concat, Option.getD_some]

/-- Entries that enter no state can be added at any time. -/
theorem movesForward_quiet {history more : List ConnectionEntry} (h : Justified MovesForward history)
    (hmore : statesOf more = []) : Justified MovesForward (history ++ more) := by
  refine h.extend fun front entry back heq => ?_
  cases entry with
  | entered =>
    rw [heq, statesOf_append] at hmore
    cases (append_eq_nil_iff.mp hmore).2
  | installed | acquired | did => trivial

namespace BdtConnection

variable {c : BdtConnection} {caller : Nat} {action : ConnectionAction} {result : ActionResult}

/-- What an action does to the state. -/
def Moves (caller : Nat) (c : BdtConnection) (result : ActionResult) : Prop :=
  result.connection.state = c.state ∧ statesOf result.entries = [] ∨
    ∃ before, c.state.rank < result.connection.state.rank ∧ statesOf before = [] ∧
      result.entries = before ++ [.entered caller result.connection.state]

variable (token : ConnectionToken) (userData : Option Nat)

theorem statesOf_addRefUserData : statesOf (addRefUserData userData) = [] := by
  cases userData <;> rfl

theorem statesOf_references (connectUserData faUserData : Option Nat) :
    statesOf (addRefUserData connectUserData ++ addRefUserData faUserData) = [] := by
  rw [statesOf_append, statesOf_addRefUserData, statesOf_addRefUserData, append_nil]

/-- A step stays in the state, or enters a later one. -/
theorem step_moves (h : ConnectionStep caller c action result) : Moves caller c result := by
  cases h with
  | quiet | effect | connectWith | enterFailed | enterConnecting | replaceAcceptor | changeAcceptor
  | establishFailed | establishWith | confirmFailed | confirmAcceptor | fireFirstAnswer
  | takeFirstAnswerCallback =>
    exact .inl ⟨rfl, rfl⟩
  | connectFailed connectUserData faUserData =>
    exact .inl ⟨rfl, statesOf_references connectUserData faUserData⟩
  | confirmAnswer _ connectUserData =>
    exact .inl ⟨rfl, statesOf_addRefUserData connectUserData⟩
  | connect connectUserData faUserData _ _ hstate =>
    refine .inr ⟨_, ?_, statesOf_references connectUserData faUserData, rfl⟩
    rw [hstate]
    exact Nat.zero_lt_one
  | bindAcceptor _ _ _ _ hstate =>
    refine .inr ⟨[.acquired (.object c.allocated)], ?_, rfl, rfl⟩
    rw [hstate]
    exact Nat.zero_lt_one
  | finishConnecting _ hstate | close _ hstate | enterEstablish _ _ hstate =>
    refine .inr ⟨[], ?_, rfl, rfl⟩
    rw [hstate]
    exact Nat.lt_of_sub_eq_succ rfl
  | closeEarly hstate | resetEarly hstate | reset _ hstate =>
    refine .inr ⟨[], ?_, rfl, rfl⟩
    rcases hstate with hstate | hstate <;> rw [hstate] <;> exact Nat.lt_of_sub_eq_succ rfl

/-! ## What is held and what is owed -/

/-- One for the token, none for another or for none. -/
def carried (token : ConnectionToken) (holder : Option ConnectionToken) : Int :=
  if holder = some token then 1 else 0

/-- The connector and the acceptor. -/
def objects (token : ConnectionToken) (c : BdtConnection) : Int :=
  carried token (c.connector.map fun connector => .object connector.number) +
    carried token (c.acceptor.map fun acceptor => .object acceptor.number)

/-- What the members of the connection refer to. -/
def held (token : ConnectionToken) (c : BdtConnection) : Int :=
  c.objects token + carried token (c.connectUserData.map .userData) +
    carried token (c.faUserData.map .userData)

/-- What an action still has to give back, or to put into the connection. -/
def owes (token : ConnectionToken) : ConnectionAction → Int
  | .effect (.released other) => if other = token then 1 else 0
  | .enterConnecting connector => carried token (some (.object connector.number))
  | .confirmAcceptor connectUserData => carried token (connectUserData.map .userData)
  | _ => 0

/-- An action removes the connection from the manager. -/
def removes : ConnectionAction → Int
  | .effect .removed => 1
  | _ => 0

/-- An action brings a connector. -/
def connects : ConnectionAction → Int
  | .connectWith _ | .enterConnecting _ => 1
  | _ => 0

/-- An action confirms the connection. -/
def confirms : ConnectionAction → Int
  | .confirmAcceptor _ => 1
  | _ => 0

/-- What was acquired and not released. -/
def net (token : ConnectionToken) (history : List ConnectionEntry) : Int :=
  history.count (.acquired token) - history.count (.did (.released token))

@[simp] theorem net_append (history more : List ConnectionEntry) :
    net token (history ++ more) = net token history + net token more := by
  unfold net
  rw [count_append, count_append]
  omega

@[simp] theorem net_nil : net token [] = 0 := rfl

@[simp] theorem net_entered (caller : Nat) (state : BdtConnectionState)
    (more : List ConnectionEntry) : net token (.entered caller state :: more) = net token more := by
  simp [net]

@[simp] theorem net_installed (caller : Nat) (provider : ProviderType)
    (more : List ConnectionEntry) :
    net token (.installed caller provider :: more) = net token more := by
  simp [net]

@[simp] theorem net_acquired (other : ConnectionToken) (more : List ConnectionEntry) :
    net token (.acquired other :: more) = carried token (some other) + net token more := by
  unfold net carried
  by_cases h : other = token
  · simp [h]
    omega
  · simp [h]

theorem net_did (effect : ConnectionEffect) :
    net token [.did effect] + owes token (.effect effect) = 0 := by
  cases effect with
  | released other =>
    unfold net owes
    by_cases h : other = token <;> simp [h]
  | _ => rfl

instance : Inert removes where
  quiet {next} h := by
    cases next with
    | effect effect => cases effect <;> first | rfl | exact h.elim
    | _ => rfl

instance : Inert connects where
  quiet {next} h := by
    cases next <;> first | rfl | exact h.elim

instance : Inert confirms where
  quiet {next} h := by
    cases next <;> first | rfl | exact h.elim

theorem plain_owes (haction : action.Plain) (token : ConnectionToken) : owes token action = 0 := by
  cases action with
  | enterConnecting | confirmAcceptor => exact haction.elim
  | effect effect =>
    cases effect with
    | released => exact haction.elim
    | _ => rfl
  | _ => rfl

theorem owes_plain {more : List ConnectionAction}
    (hmore : ∀ next ∈ more, next.Plain) : (more.map (owes token)).sum = 0 := by
  refine sum_eq_zero fun value hmem => ?_
  obtain ⟨next, hnext, rfl⟩ := mem_map.mp hmem
  exact plain_owes (hmore next hnext) token

@[simp] theorem owes_releaseUserData :
    ((releaseUserData userData).map (owes token)).sum = carried token (userData.map .userData) := by
  cases userData with
  | none => rfl
  | some => simp [releaseUserData, owes, carried]

@[simp] theorem net_addRefUserData :
    net token (addRefUserData userData) = carried token (userData.map .userData) := by
  cases userData with
  | none => rfl
  | some u =>
    unfold net addRefUserData carried
    by_cases h : ConnectionToken.userData u = token <;> simp [h]

@[simp] theorem owes_resetConnector (connector : ConnectionConnector) :
    ((resetConnector connector).map (owes token)).sum =
      carried token (some (.object connector.number)) := by
  unfold resetConnector
  split <;> simp [closeObject, owes, carried]

@[simp] theorem owes_resetAcceptor (acceptor : ConnectionAcceptor) :
    ((resetAcceptor acceptor).map (owes token)).sum =
      carried token (some (.object acceptor.number)) := by
  unfold resetAcceptor
  split <;> simp [closeObject, owes, carried]

@[simp] theorem owes_closeObject (number : Nat) :
    ((closeObject number).map (owes token)).sum = carried token (some (.object number)) := by
  simp [closeObject, owes, carried]

/-- There is a connector or an acceptor at most, and it is reset. -/
theorem owes_resetHeld (hapart : c.connector = none ∨ c.acceptor = none) :
    (c.resetHeld.map (owes token)).sum = c.objects token := by
  unfold resetHeld objects
  cases hconnector : c.connector with
  | none =>
    cases c.acceptor with
    | none => rfl
    | some acceptor => exact (owes_resetAcceptor token acceptor).trans (Int.zero_add _).symm
  | some connector =>
    rw [hapart.resolve_left (by simp [hconnector])]
    exact (owes_resetConnector token connector).trans (Int.add_zero _).symm

theorem owes_closeHeld (hapart : c.connector = none ∨ c.acceptor = none) :
    (c.closeHeld.map (owes token)).sum = c.objects token := by
  unfold closeHeld objects
  cases hconnector : c.connector with
  | none =>
    cases c.acceptor with
    | none => rfl
    | some => exact (owes_closeObject token _).trans (Int.zero_add _).symm
  | some =>
    rw [hapart.resolve_left (by simp [hconnector])]
    exact (owes_closeObject token _).trans (Int.add_zero _).symm

/-- What an action acquires and takes is what it leaves to be done and what is held then. -/
def Conserves (c : BdtConnection) (action : ConnectionAction) (result : ActionResult) : Prop :=
  ∀ token, net token result.entries + owes token action + c.held token =
    (result.more.map (owes token)).sum + result.connection.held token

/-- Nothing is lost by an action that finds at most one connector or acceptor, no connector to be
overwritten, and no user data to be overwritten. -/
structure Careful (c : BdtConnection) (action : ConnectionAction) : Prop where
  idle : c.state = .none → c.connector = none ∧ c.acceptor = none ∧ c.connectUserData = none ∧
    c.faUserData = none
  apart : c.connector = none ∨ c.acceptor = none
  connector : ∀ connector, action = .enterConnecting connector → c.connector = none
  userData : ∀ connectUserData, action = .confirmAcceptor connectUserData → c.acceptor ≠ none →
    c.connectUserData = none
  close : action = .close → c.state ≠ .none ∧ c.state ≠ .connecting
  reset : action = .reset → c.state = .connecting → c.connector = none ∧ c.acceptor = none

theorem step_conserves (h : ConnectionStep caller c action result) (careful : Careful c action) :
    Conserves c action result := by
  intro token
  cases h with
  | quiet haction hmore =>
    simp [unchanged, plain_owes haction token, owes_plain token hmore]
  | effect effect =>
    have hdid := net_did token effect
    simp only [map_nil, sum_nil]
    omega
  | connectFailed =>
    simp [owes]
  | connect _ _ _ via hstate =>
    obtain ⟨hconnector, hacceptor, hconnectUserData, hfaUserData⟩ := careful.idle hstate
    cases via <;> simp [held, objects, waiting, owes, hconnector, hacceptor, hconnectUserData,
      hfaUserData, carried]
  | connectWith =>
    simp [connectWith, held, objects, owes]
  | enterFailed =>
    simp [unchanged, owes]
  | enterConnecting connector =>
    simp [held, objects, owes, careful.connector connector rfl, carried]
    omega
  | bindAcceptor _ _ haction hmore hstate =>
    obtain ⟨hconnector, hacceptor, -⟩ := careful.idle hstate
    simp [bindAcceptor, held, objects, plain_owes haction token, owes_plain token hmore,
      hconnector, hacceptor, carried]
    omega
  | replaceAcceptor _ _ _ hacceptor =>
    simp [held, objects, owes, hacceptor]
    omega
  | changeAcceptor _ _ haction hmore hacceptor =>
    simp [withAcceptor, held, objects, plain_owes haction token, owes_plain token hmore, hacceptor]
  | finishConnecting error =>
    simp [finished, held, objects, owes, owes_resetHeld token careful.apart,
      owes_plain token (connectResult_plain _ error), carried]
    omega
  | closeEarly hstate =>
    exact absurd hstate (not_or.mpr (careful.close rfl))
  | close hmore =>
    simp [held, objects, owes, owes_plain token hmore]
  | resetEarly hstate =>
    have hempty : c.connector = none ∧ c.acceptor = none := by
      rcases hstate with hstate | hstate
      · exact ⟨(careful.idle hstate).1, (careful.idle hstate).2.1⟩
      · exact careful.reset rfl hstate
    simp [abandon, held, objects, owes, owes_resetHeld token careful.apart, hempty, carried]
  | reset hmore =>
    simp [held, objects, owes, owes_plain token hmore]
  | establishFailed always =>
    cases always <;> simp [unchanged, owes]
  | enterEstablish =>
    simp [entered, held, objects, owes, owes_closeHeld token careful.apart, carried]
    omega
  | establishWith _ _ hmore =>
    simp [provided, held, objects, owes, owes_plain token hmore, carried]
    omega
  | confirmAnswer =>
    simp [held, objects, owes]
  | confirmFailed =>
    simp [unchanged, owes]
  | confirmAcceptor connectUserData _ _ hmore _ hacceptor =>
    have huserData := careful.userData connectUserData rfl (by simp [hacceptor])
    simp [withConnectCallback, withAcceptor, held, objects, owes, owes_plain token hmore,
      hacceptor, huserData, carried]
    omega
  | fireFirstAnswer =>
    simp [held, objects, owes]
  | takeFirstAnswerCallback hmore =>
    simp [held, objects, owes, owes_plain token hmore, carried]
    omega

/-! ## Connectors and confirmations -/

/-- There is one connector at most and no acceptor beside it, and one confirmation at most. The
connectors and the confirmations that are on their way count. -/
structure Tidy (c : BdtConnection) (connecting confirming : Int) : Prop where
  idle : c.state = .none → c.connector = none ∧ c.acceptor = none ∧ c.connectUserData = none ∧
    c.faUserData = none ∧ connecting = 0
  connector : connecting + (if c.connector = none then 0 else 1) ≤ 1
  apart : c.acceptor ≠ none → c.connector = none ∧ connecting = 0
  confirm : confirming + (if c.firstAnswer = none then 1 else 0) ≤ 1
  unconfirmed : c.acceptor ≠ none → c.connectUserData = none ∨ c.firstAnswer ≠ none ∧ confirming = 0

variable {c' : BdtConnection} {connecting confirming : Int}

section

variable (tidy : Tidy c connecting confirming)
include tidy

/-- The connection keeps its connector and its answer, and no acceptor or user data is new. -/
theorem Tidy.frame (hstate : c'.state = .none → c.state = .none)
    (hconnector : c'.connector = c.connector) (hacceptor : c'.acceptor ≠ none → c.acceptor ≠ none)
    (huserData : c'.connectUserData ≠ none → c'.connectUserData = c.connectUserData)
    (hfaUserData : c'.faUserData ≠ none → c'.faUserData = c.faUserData)
    (hanswer : c'.firstAnswer = c.firstAnswer) : Tidy c' connecting confirming where
  idle h := by
    obtain ⟨h1, h2, h3, h4, h5⟩ := tidy.idle (hstate h)
    refine ⟨hconnector.trans h1, ?_, ?_, ?_, h5⟩
    · by_contra hsome
      exact hacceptor hsome h2
    · by_contra hsome
      exact hsome ((huserData hsome).trans h3)
    · by_contra hsome
      exact hsome ((hfaUserData hsome).trans h4)
  connector := by rw [hconnector]; exact tidy.connector
  apart h := by rw [hconnector]; exact tidy.apart (hacceptor h)
  confirm := by rw [hanswer]; exact tidy.confirm
  unconfirmed h := by
    rw [hanswer]
    by_cases hnone : c'.connectUserData = none
    · exact .inl hnone
    · rw [huserData hnone]
      exact tidy.unconfirmed (hacceptor h)

theorem Tidy.drop (hstate : c'.state ≠ .none)
    (hconnector : c'.connector = none) (hacceptor : c'.acceptor = none)
    (hanswer : c'.firstAnswer = c.firstAnswer) : Tidy c' connecting confirming where
  idle h := absurd h hstate
  connector := by
    have hconnecting := tidy.connector
    rw [if_pos hconnector]
    split at hconnecting <;> omega
  apart h := absurd hacceptor h
  confirm := by rw [hanswer]; exact tidy.confirm
  unconfirmed h := absurd hacceptor h

theorem Tidy.answer (hanswer : c.firstAnswer = none)
    (answer : List UInt8) (remoteId : UInt32) {more : Int} (hmore : more ≤ 1) :
    Tidy { c with firstAnswer := some answer, remoteId := remoteId } connecting
      (confirming + more) := { tidy with
  confirm := by
    have hconfirm := tidy.confirm
    rw [if_pos hanswer] at hconfirm
    rw [if_neg (Option.some_ne_none answer)]
    omega
  unconfirmed h := .inl ((tidy.unconfirmed h).resolve_right fun h => h.1 hanswer) }

theorem Tidy.giveUp {connecting' confirming' : Int}
    (hconnecting : 0 ≤ connecting' ∧ connecting' ≤ connecting)
    (hconfirming : 0 ≤ confirming' ∧ confirming' ≤ confirming) :
    Tidy c connecting' confirming' where
  idle h := by
    obtain ⟨h1, h2, h3, h4, h5⟩ := tidy.idle h
    exact ⟨h1, h2, h3, h4, by omega⟩
  connector := by
    have hconnector := tidy.connector
    omega
  apart h := by
    have hapart := tidy.apart h
    exact ⟨hapart.1, by omega⟩
  confirm := by
    have hconfirm := tidy.confirm
    omega
  unconfirmed h := by
    refine (tidy.unconfirmed h).imp_right fun h => ⟨h.1, ?_⟩
    omega

end

/-- A plain action that leaves plain actions brings no connector and confirms nothing. -/
theorem onTheWay_plain (f : ConnectionAction → Int) [Inert f] (haction : action.Plain)
    {more : List ConnectionAction} (hmore : ∀ next ∈ more, next.Plain) {count count' : Int}
    (h : count' = count - f action + (more.map f).sum) : count' = count := by
  have hzero : f action = 0 := Inert.quiet (plain_quiet haction)
  rw [h, hzero, sum_plain f hmore]
  omega

section

variable (h : ConnectionStep caller c action result)
include h

theorem step_tidy (tidy : Tidy c connecting confirming)
    (hconnects : connects action ≤ connecting) (hconfirms : confirms action ≤ confirming)
    {connecting' confirming' : Int}
    (hconnecting : connecting' = connecting - connects action + (result.more.map connects).sum)
    (hconfirming : confirming' = confirming - confirms action + (result.more.map confirms).sum) :
    Tidy result.connection connecting' confirming' := by
  -- what is on its way stays as many
  have settle : connects action = (result.more.map connects).sum →
      confirms action = (result.more.map confirms).sum →
      Tidy result.connection connecting confirming →
      Tidy result.connection connecting' confirming' := by
    intro hconnect hconfirm htidy
    rwa [show connecting' = connecting by omega, show confirming' = confirming by omega]
  cases h with
  | quiet haction hmore =>
    rw [onTheWay_plain connects haction hmore hconnecting,
      onTheWay_plain confirms haction hmore hconfirming]
    exact tidy
  | changeAcceptor _ _ haction hmore hacceptor =>
    rw [onTheWay_plain connects haction hmore hconnecting,
      onTheWay_plain confirms haction hmore hconfirming]
    exact tidy.frame (fun h => h) rfl (fun _ => by simp [hacceptor]) (fun _ => rfl) (fun _ => rfl) rfl
  | bindAcceptor _ _ haction hmore hstate =>
    rw [onTheWay_plain connects haction hmore hconnecting,
      onTheWay_plain confirms haction hmore hconfirming]
    obtain ⟨hconnector, -, huserData, -, hnone⟩ := tidy.idle hstate
    exact ⟨fun h => (nomatch h), tidy.connector, fun _ => ⟨hconnector, hnone⟩, tidy.confirm,
      fun _ => .inl huserData⟩
  | effect | connectFailed => exact settle (by simp [connects]) (by simp [confirms]) tidy
  | establishFailed always =>
    cases always <;> exact settle rfl rfl tidy
  | connect _ _ _ via hstate =>
    obtain ⟨hconnector, hacceptor, -, -, hnone⟩ := tidy.idle hstate
    have hone : connecting' ≤ 1 := by
      cases via <;> simp [connects] at hconnecting <;> omega
    have hsame : confirming' = confirming := by
      cases via <;> simpa [confirms] using hconfirming
    rw [hsame]
    refine ⟨fun h => (nomatch h), ?_, fun h => absurd hacceptor h, tidy.confirm,
      fun h => absurd hacceptor h⟩
    show connecting' + (if c.connector = none then 0 else 1) ≤ 1
    rw [if_pos hconnector]
    omega
  | connectWith =>
    exact settle rfl rfl
      (tidy.frame (fun h => h) rfl (fun h => h) (fun _ => rfl) (fun _ => rfl) rfl)
  | enterFailed | confirmFailed =>
    simp [connects, unchanged] at hconnecting hconnects
    simp [confirms, unchanged] at hconfirming hconfirms
    exact tidy.giveUp ⟨by omega, by omega⟩ ⟨by omega, by omega⟩
  | enterConnecting connector hstate =>
    simp [connects] at hconnecting hconnects
    simp [confirms] at hconfirming
    rw [hconfirming]
    have hnone : c.acceptor = none := by
      by_contra h
      have hzero := (tidy.apart h).2
      omega
    have hlast := tidy.connector
    refine ⟨fun h => ?_, ?_, fun h => absurd hnone h, tidy.confirm, fun h => absurd hnone h⟩
    · rw [hstate] at h
      cases h
    · rw [if_neg (Option.some_ne_none connector)]
      split at hlast <;> omega
  | replaceAcceptor _ _ _ hacceptor =>
    exact settle (by simp [connects]) (by simp [confirms])
      (tidy.frame (fun h => h) rfl (fun _ => by simp [hacceptor]) (fun _ => rfl) (fun _ => rfl) rfl)
  | finishConnecting | enterEstablish =>
    exact settle (by simp [connects]) (by simp [confirms])
      (tidy.drop (fun h => nomatch h) rfl rfl rfl)
  | closeEarly | resetEarly =>
    exact settle (by simp [connects]) (by simp [confirms])
      (tidy.frame (fun h => nomatch h) rfl (fun h => h) (fun h => absurd rfl h) (fun _ => rfl) rfl)
  | close hmore | reset hmore =>
    exact settle (by simp [connects, sum_plain connects hmore])
      (by simp [confirms, sum_plain confirms hmore])
      (tidy.frame (fun h => nomatch h) rfl (fun h => h) (fun _ => rfl) (fun _ => rfl) rfl)
  | establishWith _ _ hmore =>
    exact settle (by simp [connects, sum_plain connects hmore])
      (by simp [confirms, sum_plain confirms hmore])
      (tidy.frame (fun h => h) rfl (fun h => h) (fun h => absurd rfl h) (fun _ => rfl) rfl)
  | confirmAnswer answer _ hanswer =>
    simp [connects] at hconnecting
    simp [confirms] at hconfirming
    rw [hconnecting, hconfirming]
    exact tidy.answer hanswer answer c.remoteId (Int.le_refl 1)
  | confirmAcceptor _ _ _ hmore hstate hacceptor =>
    simp [connects, sum_plain connects hmore] at hconnecting
    simp [confirms, sum_plain confirms hmore] at hconfirming hconfirms
    rw [hconnecting]
    have hlast := tidy.confirm
    obtain ⟨hconnector, hnone⟩ := tidy.apart (by simp [hacceptor])
    have hanswer : c.firstAnswer ≠ none := by
      intro h
      rw [if_pos h] at hlast
      omega
    rw [if_neg hanswer] at hlast
    refine ⟨fun h => ?_, tidy.connector, fun _ => ⟨hconnector, hnone⟩, ?_,
      fun _ => .inr ⟨hanswer, by omega⟩⟩
    · exact absurd (hstate.symm.trans h) (fun h => nomatch h)
    · show confirming' + (if c.firstAnswer = none then 1 else 0) ≤ 1
      rw [if_neg hanswer]
      omega
  | fireFirstAnswer remoteId answer hanswer =>
    refine settle rfl rfl ?_
    have hset := tidy.answer hanswer answer (.ofNat remoteId) (Int.zero_le_ofNat 1)
    exact Int.add_zero confirming ▸ hset
  | takeFirstAnswerCallback hmore =>
    exact settle (by simp [connects, sum_plain connects hmore])
      (by simp [confirms, sum_plain confirms hmore])
      (tidy.frame (fun h => h) rfl (fun h => h) (fun _ => rfl) (fun h => absurd rfl h) rfl)

/-! ## Other effects of a step -/

theorem step_closing
    (hclosing : result.connection.state = .closing) : c.state = .establish ∨ c.state = .closing := by
  cases h with
  | close _ hstate => exact .inl hstate
  | connect | bindAcceptor | finishConnecting | closeEarly | resetEarly | reset | enterEstablish =>
    cases hclosing
  | _ => exact .inr hclosing

/-- An action that is not going to remove anything leaves no removal, unless the state is closed. -/
theorem step_removes
    (hstate : result.connection.state ≠ .closed) : (result.more.map removes).sum = 0 := by
  cases h with
  | quiet haction hmore | bindAcceptor ins more haction hmore | changeAcceptor acceptor ins haction hmore
  | close hmore | confirmAcceptor _ _ _ hmore =>
    exact sum_plain removes hmore
  | finishConnecting | resetEarly | reset => exact absurd rfl hstate
  | connect _ _ _ via => cases via <;> rfl
  | establishFailed always => cases always <;> rfl
  | establishWith _ _ hmore | takeFirstAnswerCallback hmore =>
    simp [sum_plain removes hmore]
  | effect | closeEarly | enterConnecting | confirmAnswer | fireFirstAnswer => rfl
  | connectFailed | connectWith | enterFailed | replaceAcceptor | enterEstablish | confirmFailed =>
    simp [removes, BdtConnection.connectWith, unchanged]

end

theorem count_removed_addRefUserData : (addRefUserData userData).count (.did .removed) = 0 := by
  cases userData <;> rfl

theorem step_removed (h : ConnectionStep caller c action result) :
    (result.entries.count (.did .removed) : Int) = removes action := by
  cases h with
  | quiet haction | bindAcceptor _ _ haction | changeAcceptor _ _ haction =>
    exact (Inert.quiet (plain_quiet haction)).symm
  | effect effect => cases effect <;> rfl
  | connectFailed | connect | confirmAnswer =>
    simp [count_append, count_removed_addRefUserData, removes]
  | _ => rfl

/-- The objects that were allocated are those with the first numbers. -/
def allocatedOnce (c : BdtConnection) (number : Nat) : Nat :=
  if number < c.allocated then 1 else 0

theorem allocatedOnce_succ (c c' : BdtConnection) (number : Nat)
    (h : c'.allocated = c.allocated + 1) :
    [ConnectionEntry.acquired (.object c.allocated)].count (.acquired (.object number)) +
      c.allocatedOnce number = c'.allocatedOnce number := by
  unfold allocatedOnce
  rw [h, count_singleton]
  by_cases heq : c.allocated = number
  · simp [heq]
  · simp [heq]
    grind

theorem count_addRefUserData (number : Nat) (userData : Option Nat) :
    (addRefUserData userData).count (.acquired (.object number)) = 0 := by
  cases userData with
  | none => rfl
  | some => rfl

variable (h : ConnectionStep caller c action result)
include h

theorem step_acquired (number : Nat) :
    result.entries.count (.acquired (.object number)) + c.allocatedOnce number =
      result.connection.allocatedOnce number := by
  cases h with
  | connectFailed | connect | confirmAnswer =>
    simp only [count_append, count_addRefUserData]
    exact Nat.zero_add _
  | connectWith | replaceAcceptor => exact allocatedOnce_succ c _ number rfl
  | bindAcceptor ins =>
    refine Eq.trans ?_ (allocatedOnce_succ c (c.bindAcceptor caller ins).connection number rfl)
    rfl
  | _ => exact Nat.zero_add _

/-! ## Closing and resetting -/

/-- A connection is closed after it was established, and one that is connecting is reset only while
it holds nothing that `BdtConnectionReset` leaves in it. -/
def Orderly (c : BdtConnection) : ConnectionAction → Prop
  | .close => c.state ≠ .none ∧ c.state ≠ .connecting
  | .reset => c.state = .connecting → c.connector = none ∧ c.acceptor = none ∧ c.faUserData = none
  | _ => True

/-- There is a connector or an acceptor only while the connection is connecting. -/
def Connecting (c : BdtConnection) : Prop :=
  c.connector ≠ none ∨ c.acceptor ≠ none → c.state = .connecting

theorem step_connecting (tidy : Tidy c connecting confirming)
    (orderly : Orderly c action) (hconnecting : Connecting c) : Connecting result.connection := by
  intro hsome
  cases h with
  | connect | bindAcceptor => rfl
  | finishConnecting | enterEstablish => exact (hsome.elim (fun h => h rfl) (fun h => h rfl)).elim
  | enterConnecting _ hstate => exact hstate
  | replaceAcceptor _ _ hstate => exact hstate
  | confirmAcceptor _ _ _ _ hstate => exact hstate
  | changeAcceptor _ _ _ _ hacceptor =>
    exact hconnecting (.inr (by simp [hacceptor]))
  | closeEarly hstate => exact absurd hstate (not_or.mpr orderly)
  | resetEarly hstate =>
    have hnone : c.connector = none ∧ c.acceptor = none := by
      rcases hstate with hstate | hstate
      · exact ⟨(tidy.idle hstate).1, (tidy.idle hstate).2.1⟩
      · exact ⟨(orderly hstate).1, (orderly hstate).2.1⟩
    exact (hsome.elim (absurd hnone.1) (absurd hnone.2))
  | close _ hstate =>
    have heq := hstate.symm.trans (hconnecting hsome)
    cases heq
  | reset _ hstate =>
    rw [hconnecting hsome] at hstate
    rcases hstate with hstate | hstate <;> cases hstate
  | _ => exact hconnecting hsome

/-- A closed connection was closed, or was established, or is removed and has no user data. -/
theorem step_gone (tidy : Tidy c connecting confirming)
    (orderly : Orderly c action) (hclosed : result.connection.state = .closed) :
    (c.state = .closed ∧ (c.connectUserData = none → result.connection.connectUserData = none) ∧
        (c.faUserData = none → result.connection.faUserData = none)) ∨
      c.state = .establish ∨ c.state = .closing ∨
      0 < (result.more.map removes).sum ∧ result.connection.connectUserData = none ∧
        result.connection.faUserData = none := by
  cases h with
  | connect | bindAcceptor | close | enterEstablish => cases hclosed
  | confirmAcceptor _ _ _ _ hstate =>
    have heq := hstate.symm.trans hclosed
    cases heq
  | finishConnecting =>
    refine .inr (.inr (.inr ⟨?_, rfl, rfl⟩))
    simp [removes]
  | closeEarly hstate => exact absurd hstate (not_or.mpr orderly)
  | resetEarly hstate =>
    refine .inr (.inr (.inr ⟨?_, rfl, ?_⟩))
    · simp [removes]
    · rcases hstate with hstate | hstate
      · exact (tidy.idle hstate).2.2.2.1
      · exact (orderly hstate).2.2
  | reset _ hstate => exact .inr (hstate.imp_right .inl)
  | establishWith | takeFirstAnswerCallback =>
    refine .inl ⟨hclosed, fun h => ?_, fun h => ?_⟩ <;> first | rfl | exact h
  | _ => exact .inl ⟨hclosed, fun h => h, fun h => h⟩

end BdtConnection

end Bdt
