import Bdt.Connection.ConnectionCalls

/-!
# What a step of a connection can do

`ConnectionStep` lists what an action can do to the connection, with what the branch taken has
tested, and `perform_step` says that this is all. The actions that are told apart are those that
change the state or have something to give back; the others are `Plain`: they only look at the
connection and leave plain actions to be done.
-/

namespace Bdt

open Base List Option

/-- An action that has nothing to give back, neither removes the connection nor establishes it. -/
def ConnectionAction.Plain : ConnectionAction → Prop
  | .connectWith _ | .enterConnecting _ | .confirmAcceptor _ | .establishWith _ => False
  | .effect (.released _) | .effect .removed => False
  | _ => True

/-- A plain action, or one that gives something back. -/
def ConnectionAction.Quiet : ConnectionAction → Prop
  | .effect (.released _) => True
  | action => action.Plain

/-- A number for each action, that no effect has but the removal. -/
class Effectless (f : ConnectionAction → Int) : Prop where
  effect : ∀ {effect : ConnectionEffect}, effect ≠ .removed → f (.effect effect) = 0

/-- A number for each action, that quiet actions do not have. -/
class Inert (f : ConnectionAction → Int) : Prop where
  quiet : ∀ {next : ConnectionAction}, next.Quiet → f next = 0

instance (f : ConnectionAction → Int) [Inert f] : Effectless f where
  effect {effect} h := Inert.quiet (by cases effect <;> first | trivial | exact absurd rfl h)

namespace BdtConnection

variable {c : BdtConnection} {caller : Nat} {action : ConnectionAction} {result : ActionResult}

/-- The acceptor has other members. -/
def withAcceptor (acceptor : ConnectionAcceptor) (ins : AcceptorIns) (c : BdtConnection) :
    BdtConnection :=
  { c with acceptor := some { acceptor with ins := ins } }

/-- The application's callback is set. -/
def withConnectCallback (connectUserData : Option Nat) (c : BdtConnection) : BdtConnection :=
  { c with connectCallback := true, connectUserData := connectUserData }

/-- The connection waits for a connector. -/
def waiting (connectUserData faUserData : Option Nat) (firstQuestion : List UInt8)
    (c : BdtConnection) : BdtConnection :=
  { c with
    state := .connecting
    connectCallback := true
    connectUserData := connectUserData
    faCallback := true
    faUserData := faUserData
    firstQuestion := some firstQuestion }

/-- Connecting has failed, and everything is taken out of the connection. -/
def finished (c : BdtConnection) : BdtConnection :=
  { c with
    state := .closed
    connector := none
    acceptor := none
    connectCallback := false
    connectUserData := none
    faCallback := false
    faUserData := none }

/-- The connection is established, and waits for its provider. -/
def entered (c : BdtConnection) : BdtConnection :=
  { c with state := .establish, connector := none, acceptor := none, providerType := .waiting }

/-- The connection has a provider. -/
def provided (provider : ProviderType) (faCallback : Bool) (c : BdtConnection) : BdtConnection :=
  { c with
    providerType := provider
    connectCallback := false
    faCallback := faCallback
    connectUserData := none }

/-- What an action can do, and what it has found before. -/
inductive ConnectionStep (caller : Nat) (c : BdtConnection) :
    ConnectionAction → ActionResult → Prop where
  | quiet {action : ConnectionAction} {more : List ConnectionAction} (haction : action.Plain)
      (hmore : ∀ next ∈ more, next.Plain) :
      ConnectionStep caller c action (c.unchanged more)
  | effect (effect : ConnectionEffect) :
      ConnectionStep caller c (.effect effect) { connection := c, entries := [.did effect] }
  | connectFailed (connectUserData faUserData : Option Nat) (firstQuestion : List UInt8)
      (via : Option ConnectorIns) :
      ConnectionStep caller c (.connect connectUserData faUserData firstQuestion via)
        { connection := c
          entries := addRefUserData connectUserData ++ addRefUserData faUserData
          more := releaseUserData connectUserData ++ releaseUserData faUserData }
  | connect (connectUserData faUserData : Option Nat) (firstQuestion : List UInt8)
      (via : Option ConnectorIns) (hstate : c.state = .none) :
      ConnectionStep caller c (.connect connectUserData faUserData firstQuestion via)
        { connection := c.waiting connectUserData faUserData firstQuestion
          entries := addRefUserData connectUserData ++ addRefUserData faUserData ++
            [.entered caller .connecting]
          more := (via.map ConnectionAction.connectWith).toList }
  | connectWith (ins : ConnectorIns) :
      ConnectionStep caller c (.connectWith ins) (c.connectWith ins)
  | enterFailed (connector : ConnectionConnector) (hstate : c.state ≠ .connecting) :
      ConnectionStep caller c (.enterConnecting connector) (c.unchanged (resetConnector connector))
  | enterConnecting (connector : ConnectionConnector) (hstate : c.state = .connecting) :
      ConnectionStep caller c (.enterConnecting connector)
        { connection := { c with connector := some connector } }
  | bindAcceptor {action : ConnectionAction} (ins : AcceptorIns) (more : List ConnectionAction)
      (haction : action.Plain) (hmore : ∀ next ∈ more, next.Plain)
      (hstate : c.state = .none) :
      ConnectionStep caller c action { c.bindAcceptor caller ins with more := more }
  | replaceAcceptor (builder : Nat) (acceptor : ConnectionAcceptor) (hstate : c.state = .connecting)
      (hacceptor : c.acceptor = some acceptor) :
      ConnectionStep caller c (.acceptWithBuilder builder)
        { connection := { c with
            acceptor := some ⟨c.allocated, .builder builder⟩
            allocated := c.allocated + 1 }
          entries := [.acquired (.object c.allocated)]
          more := resetAcceptor acceptor }
  | changeAcceptor {action : ConnectionAction} {more : List ConnectionAction}
      (acceptor : ConnectionAcceptor) (ins : AcceptorIns) (haction : action.Plain)
      (hmore : ∀ next ∈ more, next.Plain) (hacceptor : c.acceptor = some acceptor) :
      ConnectionStep caller c action
        { connection := c.withAcceptor acceptor ins, more := more }
  | finishConnecting (error : Nat) (hstate : c.state = .connecting) :
      ConnectionStep caller c (.finishConnecting error)
        { connection := c.finished
          entries := [.entered caller .closed]
          more := .effect .removed :: c.resetHeld ++ connectResult c.connectCallback error ++
            releaseUserData c.connectUserData ++ releaseUserData c.faUserData ++
              [.effect .removed] }
  | closeEarly (hstate : c.state = .none ∨ c.state = .connecting) :
      ConnectionStep caller c .close
        { connection := c.abandon, entries := [.entered caller .closed] }
  | close {more : List ConnectionAction} (hmore : ∀ next ∈ more, next.Plain)
      (hstate : c.state = .establish) :
      ConnectionStep caller c .close
        { connection := { c with state := .closing }
          entries := [.entered caller .closing]
          more := more }
  | resetEarly (hstate : c.state = .none ∨ c.state = .connecting) :
      ConnectionStep caller c .reset
        { connection := c.abandon
          entries := [.entered caller .closed]
          more := .effect .removed :: releaseUserData c.connectUserData ++ c.resetHeld }
  | reset {more : List ConnectionAction} (hmore : ∀ next ∈ more, next.Plain)
      (hstate : c.state = .establish ∨ c.state = .closing) :
      ConnectionStep caller c .reset
        { connection := { c with state := .closed }
          entries := [.entered caller .closed]
          more := .effect .removed :: more }
  | establishFailed (always : Bool) (establish : Establish) (hstate : c.state ≠ .connecting) :
      ConnectionStep caller c (.tryEnterEstablish always establish)
        (c.unchanged (if always then [.establishWith establish] else []))
  | enterEstablish (always : Bool) (establish : Establish) (hstate : c.state = .connecting) :
      ConnectionStep caller c (.tryEnterEstablish always establish)
        { connection := c.entered
          entries := [.entered caller .establish]
          more := c.closeHeld ++ [.establishWith establish] }
  | establishWith {more : List ConnectionAction} (establish : Establish) (faCallback : Bool)
      (hmore : ∀ next ∈ more, next.Plain) :
      ConnectionStep caller c (.establishWith establish)
        { connection := c.provided establish.provider faCallback
          entries := [.installed caller establish.provider]
          more := more ++ releaseUserData c.connectUserData }
  | confirmAnswer (answer : List UInt8) (connectUserData : Option Nat)
      (hanswer : c.firstAnswer = none) :
      ConnectionStep caller c (.confirmAnswer answer connectUserData)
        { connection := { c with firstAnswer := some answer }
          entries := addRefUserData connectUserData
          more := [.confirmAcceptor connectUserData] }
  | confirmFailed (connectUserData : Option Nat) (hstate : c.state ≠ .connecting) :
      ConnectionStep caller c (.confirmAcceptor connectUserData)
        (c.unchanged (releaseUserData connectUserData))
  | confirmAcceptor {more : List ConnectionAction} (connectUserData : Option Nat)
      (acceptor : ConnectionAcceptor) (ins : AcceptorIns) (hmore : ∀ next ∈ more, next.Plain)
      (hstate : c.state = .connecting) (hacceptor : c.acceptor = some acceptor) :
      ConnectionStep caller c (.confirmAcceptor connectUserData)
        { connection := (c.withConnectCallback connectUserData).withAcceptor acceptor ins
          more := more }
  | fireFirstAnswer (remoteId : Nat) (answer : List UInt8) (hanswer : c.firstAnswer = none) :
      ConnectionStep caller c (.fireFirstAnswer remoteId answer)
        { connection := { c with firstAnswer := some answer, remoteId := .ofNat remoteId }
          more := [.takeFirstAnswerCallback] }
  | takeFirstAnswerCallback {more : List ConnectionAction} (hmore : ∀ next ∈ more, next.Plain) :
      ConnectionStep caller c .takeFirstAnswerCallback
        { connection := { c with faCallback := false, faUserData := none }
          more := more ++ releaseUserData c.faUserData }

/-! ## Plain actions -/

theorem plain_nil : ∀ next ∈ ([] : List ConnectionAction), next.Plain :=
  fun _ h => absurd h not_mem_nil

theorem plain_mem {next : ConnectionAction} (hmem : next ∈ [action]) (h : action.Plain) :
    next.Plain :=
  mem_singleton.mp hmem ▸ h

theorem plain_one (h : action.Plain) : ∀ next ∈ [action], next.Plain :=
  fun _ hmem => plain_mem hmem h

theorem ConnectionStep.nothing (haction : action.Plain) :
    ConnectionStep caller c action (c.unchanged []) :=
  .quiet haction plain_nil

theorem ConnectionStep.one {next : ConnectionAction} (haction : action.Plain) (hnext : next.Plain) :
    ConnectionStep caller c action (c.unchanged [next]) :=
  .quiet haction (plain_one hnext)

/-! ## The functions -/

theorem acceptWithBuilder_step {builder : Nat}
    (h : c.acceptWithBuilder caller builder = some result) :
    ConnectionStep caller c (.acceptWithBuilder builder) result := by
  unfold acceptWithBuilder at h
  split at h
  case h_1 hstate =>
    exact some.inj h ▸ .bindAcceptor (.builder builder) [] trivial plain_nil hstate
  case h_2 hstate =>
    obtain ⟨acceptor, hacceptor, rfl⟩ := map_eq_some_iff.mp h
    split
    · exact .replaceAcceptor builder acceptor hstate hacceptor
    · exact .nothing trivial
  case h_3 => exact some.inj h ▸ .nothing trivial

variable {tcpInterface : Nat}

theorem onTcpFirstSyn_step (h : c.onTcpFirstSyn caller tcpInterface = some result) :
    ConnectionStep caller c (.onTcpFirstSyn tcpInterface) result := by
  unfold onTcpFirstSyn at h
  split at h
  · exact some.inj h ▸ .nothing trivial
  split at h
  case h_1 hstate =>
    exact some.inj h ▸ .bindAcceptor _ _ trivial (plain_one trivial) hstate
  case h_2 =>
    obtain ⟨acceptor, hacceptor, rfl⟩ := map_eq_some_iff.mp h
    split
    · exact .one trivial trivial
    · refine .changeAcceptor acceptor _ ?_ ?_ hacceptor
      · trivial
      · exact plain_one trivial
    · exact .nothing trivial
  case h_3 => exact some.inj h ▸ .nothing trivial

theorem close_step : ConnectionStep caller c .close (c.close caller) := by
  unfold BdtConnection.close
  split
  case h_1 hstate => exact .closeEarly (.inl hstate)
  case h_2 hstate => exact .closeEarly (.inr hstate)
  case h_3 hstate =>
    refine .close (fun next hnext => ?_) hstate
    split at hnext
    · cases hnext
    · exact plain_mem hnext trivial
  case h_4 | h_5 => exact .nothing trivial

theorem reset_step : ConnectionStep caller c .reset (c.reset caller) := by
  have hplain : ∀ next ∈ (if c.providerType = .waiting then []
      else [ConnectionAction.effect .resetProvider]), next.Plain := by
    intro next hnext
    split at hnext
    · cases hnext
    · exact plain_mem hnext trivial
  unfold BdtConnection.reset
  split
  case h_1 hstate => exact .resetEarly (.inl hstate)
  case h_2 hstate => exact .resetEarly (.inr hstate)
  case h_3 hstate => exact .reset hplain (.inl hstate)
  case h_4 hstate => exact .reset hplain (.inr hstate)
  case h_5 => exact .nothing trivial

theorem connectResult_plain (callback : Bool) (error : Nat) :
    ∀ next ∈ connectResult callback error, next.Plain := by
  intro next hnext
  unfold connectResult at hnext
  split at hnext
  · exact plain_mem hnext trivial
  · cases hnext

theorem establishWith_step {establish : Establish} :
    ConnectionStep caller c (.establishWith establish) (c.establishWith caller establish) := by
  refine .establishWith establish _ fun next hnext => ?_
  unfold behindEstablish at hnext
  split at hnext
  case h_1 =>
    rcases mem_append.mp hnext with hnext | hnext
    · split at hnext
      · exact plain_mem hnext trivial
      · cases hnext
      · cases hnext
    · exact connectResult_plain _ _ next hnext
  case h_2 | h_3 => exact plain_mem hnext trivial
  case h_4 | h_5 => cases hnext

variable {sessionData : Bdt_SessionDataPackage}

theorem pushPackage_step :
    ConnectionStep caller c (.pushPackage sessionData) (c.pushPackage sessionData) := by
  unfold pushPackage
  split
  · split <;> exact .one trivial trivial
  · split <;> exact .one trivial trivial

theorem onAckAckSessionData_step (h : c.onAckAckSessionData sessionData = some result) :
    ConnectionStep caller c (.onAckAckSessionData sessionData) result := by
  unfold onAckAckSessionData at h
  split at h
  · exact some.inj h ▸ .nothing trivial
  obtain ⟨acceptor, -, rfl⟩ := map_eq_some_iff.mp h
  split
  · exact .one trivial trivial
  · exact .one trivial trivial
  · exact .nothing trivial

theorem onAckSessionData_step (h : c.onAckSessionData sessionData = some result) :
    ConnectionStep caller c (.onAckSessionData sessionData) result := by
  unfold onAckSessionData at h
  split at h
  · exact some.inj h ▸ .nothing trivial
  split at h
  · obtain ⟨connector, -, rfl⟩ := map_eq_some_iff.mp h
    split
    · exact .one trivial trivial
    · refine .quiet trivial fun next hnext => ?_
      rcases mem_pair.mp hnext with rfl | rfl <;> trivial
    · exact .nothing trivial
  · cases h
    split
    · exact .one trivial trivial
    · exact .nothing trivial
  · exact some.inj h ▸ .nothing trivial

theorem onTcpFirstAck_step :
    ConnectionStep caller c (.onTcpFirstAck tcpInterface) (c.onTcpFirstAck tcpInterface) := by
  unfold onTcpFirstAck
  split
  · exact .nothing trivial
  split
  · exact .one trivial trivial
  · exact .one trivial trivial
  · exact .nothing trivial

theorem onTcpFirstAckResp_step (h : c.onTcpFirstAckResp tcpInterface = some result) :
    ConnectionStep caller c (.onTcpFirstAckResp tcpInterface) result := by
  unfold onTcpFirstAckResp at h
  split at h
  · exact some.inj h ▸ .nothing trivial
  obtain ⟨connector, -, rfl⟩ := map_eq_some_iff.mp h
  split
  · exact .one trivial trivial
  · exact .nothing trivial

theorem onTcpFirstAckAckResp_step (h : c.onTcpFirstAckAckResp tcpInterface = some result) :
    ConnectionStep caller c (.onTcpFirstAckAckResp tcpInterface) result := by
  unfold onTcpFirstAckAckResp at h
  split at h
  · exact some.inj h ▸ .nothing trivial
  obtain ⟨acceptor, -, rfl⟩ := map_eq_some_iff.mp h
  split
  · split
    · exact .one trivial trivial
    · exact .nothing trivial
  · exact .nothing trivial

theorem confirmAcceptor_step {connectUserData : Option Nat}
    (h : c.confirmAcceptor connectUserData = some result) :
    ConnectionStep caller c (.confirmAcceptor connectUserData) result := by
  unfold confirmAcceptor at h
  split at h
  · case isTrue hstate => exact some.inj h ▸ .confirmFailed connectUserData hstate
  case isFalse hstate =>
  rw [Decidable.not_not] at hstate
  obtain ⟨acceptor, hacceptor, rfl⟩ := map_eq_some_iff.mp h
  have hbuilder : ∀ more : List ConnectionAction,
      ActionResult.mk (c.withConnectCallback connectUserData) [] more =
        ⟨(c.withConnectCallback connectUserData).withAcceptor acceptor acceptor.ins, [], more⟩ := by
    intro more
    unfold withConnectCallback withAcceptor
    rw [← hacceptor]
  split
  · show ConnectionStep _ _ _ ⟨c.withConnectCallback connectUserData, [], _⟩
    rw [hbuilder]
    exact .confirmAcceptor connectUserData acceptor acceptor.ins plain_nil hstate hacceptor
  · show ConnectionStep _ _ _ ⟨c.withConnectCallback connectUserData, [], _⟩
    rw [hbuilder]
    refine .confirmAcceptor connectUserData acceptor acceptor.ins ?_ hstate hacceptor
    exact plain_one trivial
  · exact .confirmAcceptor connectUserData acceptor _ plain_nil hstate hacceptor
  · exact .confirmAcceptor connectUserData acceptor _ plain_nil hstate hacceptor

theorem perform_step (h : c.perform caller action = some result) :
    ConnectionStep caller c action result := by
  cases action with
  | connect connectUserData faUserData firstQuestion via =>
    cases h
    unfold BdtConnection.connect
    split
    case isTrue => exact .connectFailed connectUserData faUserData firstQuestion via
    case isFalse hstate =>
      exact .connect connectUserData faUserData firstQuestion via (Decidable.not_not.mp hstate)
  | connectWith ins => exact some.inj h ▸ .connectWith ins
  | enterConnecting connector =>
    cases h
    unfold enterConnecting
    split
    case isTrue hstate => exact .enterFailed connector hstate
    case isFalse hstate => exact .enterConnecting connector (Decidable.not_not.mp hstate)
  | finishConnecting error =>
    cases h
    unfold finishConnecting
    split
    case isTrue => exact .nothing trivial
    case isFalse hstate => exact .finishConnecting error (Decidable.not_not.mp hstate)
  | close => exact some.inj h ▸ close_step
  | reset => exact some.inj h ▸ reset_step
  | pushPackage => exact some.inj h ▸ pushPackage_step
  | onSynSessionData =>
    cases h
    unfold onSynSessionData
    split
    case isTrue hstate => exact .bindAcceptor _ [] trivial plain_nil hstate.2
    case isFalse => exact .nothing trivial
  | onAckAckSessionData => exact onAckAckSessionData_step h
  | onAckSessionData => exact onAckSessionData_step h
  | acceptWithBuilder => exact acceptWithBuilder_step h
  | acceptWithReverseStream =>
    cases h
    unfold acceptWithReverseStream
    split
    case isTrue hstate => exact .bindAcceptor _ [] trivial plain_nil hstate.2
    case isFalse => exact .nothing trivial
  | onTcpFirstSyn => exact onTcpFirstSyn_step h
  | tcpFirstSynBound =>
    cases h
    unfold tcpFirstSynBound
    split
    · exact .one trivial trivial
    · exact .nothing trivial
  | onTcpFirstAck => exact some.inj h ▸ onTcpFirstAck_step
  | onTcpFirstAckResp => exact onTcpFirstAckResp_step h
  | onTcpFirstAckAckResp => exact onTcpFirstAckAckResp_step h
  | confirm =>
    cases h
    unfold confirm
    split
    · exact .one trivial trivial
    · exact .nothing trivial
  | confirmAnswer answer connectUserData =>
    cases h
    unfold confirmAnswer
    split
    case isTrue => exact .nothing trivial
    case isFalse hanswer =>
      exact .confirmAnswer answer connectUserData (Decidable.not_not.mp hanswer)
  | confirmAcceptor => exact confirmAcceptor_step h
  | fireFirstAnswer remoteId answer =>
    cases h
    unfold fireFirstAnswer
    split
    case isTrue => exact .nothing trivial
    case isFalse hanswer =>
      exact .fireFirstAnswer remoteId answer (Decidable.not_not.mp hanswer)
  | takeFirstAnswerCallback =>
    cases h
    refine .takeFirstAnswerCallback fun next hnext => ?_
    split at hnext
    · exact plain_mem hnext trivial
    · cases hnext
  | tryEnterEstablish always establish =>
    cases h
    unfold tryEnterEstablish
    split
    case isTrue hstate => exact .establishFailed always establish hstate
    case isFalse hstate => exact .enterEstablish always establish (Decidable.not_not.mp hstate)
  | establishWith => exact some.inj h ▸ establishWith_step
  | effect effect => exact some.inj h ▸ .effect effect

/-! ## What quiet actions add up to -/

theorem plain_quiet (h : action.Plain) : action.Quiet := by
  cases action with
  | effect effect => cases effect <;> trivial
  | _ => exact h

section Inert

variable (f : ConnectionAction → Int) [Inert f]

theorem sum_quiet {more : List ConnectionAction} (hmore : ∀ next ∈ more, next.Quiet) :
    (more.map f).sum = 0 := by
  refine sum_eq_zero fun value hmem => ?_
  obtain ⟨next, hnext, rfl⟩ := mem_map.mp hmem
  exact Inert.quiet (hmore next hnext)

theorem sum_plain {more : List ConnectionAction} (hmore : ∀ next ∈ more, next.Plain) :
    (more.map f).sum = 0 :=
  sum_quiet f fun next hnext => plain_quiet (hmore next hnext)

end Inert

section Effectless

variable (f : ConnectionAction → Int) [Effectless f]

theorem sum_effect {effect : ConnectionEffect} (h : effect ≠ .removed) :
    ([ConnectionAction.effect effect].map f).sum = 0 :=
  (Int.add_zero _).trans (Effectless.effect h)

@[simp] theorem sum_releaseUserData (userData : Option Nat) :
    ((releaseUserData userData).map f).sum = 0 := by
  cases userData with
  | none => rfl
  | some => exact sum_effect f nofun

@[simp] theorem sum_closeObject (number : Nat) : ((closeObject number).map f).sum = 0 :=
  sum_effect f nofun

@[simp] theorem sum_connectResult (callback : Bool) (error : Nat) :
    ((connectResult callback error).map f).sum = 0 := by
  unfold connectResult
  split
  · exact sum_effect f nofun
  · rfl

@[simp] theorem sum_resetConnector (connector : ConnectionConnector) :
    ((resetConnector connector).map f).sum = 0 := by
  unfold resetConnector
  rw [map_append, sum_append, sum_closeObject, Int.add_zero]
  split
  · exact sum_effect f nofun
  · exact sum_effect f nofun
  · rfl
  · rfl

@[simp] theorem sum_resetAcceptor (acceptor : ConnectionAcceptor) :
    ((resetAcceptor acceptor).map f).sum = 0 := by
  unfold resetAcceptor
  rw [map_append, sum_append, sum_closeObject, Int.add_zero]
  split
  · exact sum_effect f nofun
  · rfl
  · exact sum_effect f nofun
  · exact sum_effect f nofun

@[simp] theorem sum_resetHeld (c : BdtConnection) : (c.resetHeld.map f).sum = 0 := by
  unfold resetHeld
  split
  · exact sum_resetConnector f _
  · exact sum_resetAcceptor f _
  · rfl

@[simp] theorem sum_closeHeld (c : BdtConnection) : (c.closeHeld.map f).sum = 0 := by
  unfold closeHeld
  split
  · exact sum_closeObject f _
  · exact sum_closeObject f _
  · rfl

end Effectless

end BdtConnection

end Bdt
