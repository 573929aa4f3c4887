import Bdt.Connection.ConnectionRuns

/-!
# One provider

A provider is to be given to a connection once, by the call that established it, and then to stay
(`SingleProvider`). The functions that go on to give the provider only after
`Bdt_ConnectionTryEnterEstablish` succeeded cannot break this. `BdtConfirmConnection` and
`ConnectionOnTcpFirstAckPackage` go on whatever the result was: `single_provider` says that the
provider is single as long as they find the connection connecting, and that otherwise the call gives
a provider that it has no right to give.
-/

namespace Bdt

open Base BdtConnection List

/-- An entry that gives the connection a provider. -/
def ConnectionEntry.installs : ConnectionEntry → Bool
  | .installed .. => true
  | _ => false

/-- A provider is given by a call that has established the connection. -/
def Entitled (front : List ConnectionEntry) : ConnectionEntry → Prop
  | .installed caller _ => .entered caller .establish ∈ front
  | _ => True

namespace BdtConnection

variable {c : BdtConnection} {caller : Nat} {action : ConnectionAction} {result : ActionResult}

/-- An action gives the connection its provider. -/
def establishes : ConnectionAction → Int
  | .establishWith _ => 1
  | _ => 0

/-- The caller goes on whatever the result is, and the connection is connecting then. -/
def Enters (c : BdtConnection) : ConnectionAction → Prop
  | .tryEnterEstablish true _ => c.state = .connecting
  | _ => True

instance : Inert establishes where
  quiet {next} h := by
    cases next <;> first | rfl | exact h.elim

theorem establishes_nonneg (action : ConnectionAction) : 0 ≤ establishes action := by
  unfold establishes
  split <;> omega

theorem installs_addRefUserData (userData : Option Nat) :
    (addRefUserData userData).countP ConnectionEntry.installs = 0 := by
  cases userData <;> rfl

section

variable (h : ConnectionStep caller c action result)
include h

/-- A step that establishes the connection leaves a provider to be given, and no other does. -/
theorem step_establishes (enters : Enters c action) :
    (result.entries.countP ConnectionEntry.installs : Int) + (result.more.map establishes).sum =
      establishes action + (statesOf result.entries).count .establish := by
  cases h with
  | quiet haction hmore | changeAcceptor acceptor ins haction hmore
  | bindAcceptor _ _ haction hmore =>
    have hzero : establishes action = 0 := Inert.quiet (plain_quiet haction)
    simp [hzero, sum_plain establishes hmore, unchanged, bindAcceptor, ConnectionEntry.installs,
      statesOf]
  | effect | closeEarly | enterConnecting | fireFirstAnswer => rfl
  | connectFailed | confirmAnswer =>
    simp [countP_append, installs_addRefUserData, statesOf_append, statesOf_addRefUserData,
      establishes]
  | connect _ _ _ via =>
    have hmore : ((via.map ConnectionAction.connectWith).toList.map establishes).sum = 0 := by
      cases via <;> rfl
    rw [hmore, statesOf_append, statesOf_references]
    simp [countP_append, installs_addRefUserData, establishes, statesOf, ConnectionEntry.installs]
  | connectWith | replaceAcceptor | finishConnecting | resetEarly | enterFailed
  | confirmFailed | enterEstablish =>
    simp [establishes, BdtConnection.connectWith, unchanged, ConnectionEntry.installs, statesOf]
  | close hmore | reset hmore | confirmAcceptor connectUserData acceptor ins hmore
  | takeFirstAnswerCallback hmore | establishWith _ _ hmore =>
    simp [establishes, sum_plain establishes hmore, ConnectionEntry.installs, statesOf]
  | establishFailed always _ hstate =>
    cases always with
    | false => rfl
    | true => exact absurd enters hstate

theorem step_left (enters : Enters c action)
    {establish : Establish} (hleft : .establishWith establish ∈ result.more) :
    .entered caller .establish ∈ result.entries := by
  have hzero : (result.more.map establishes).sum ≠ 0 := by
    have h := le_weight (f := establishes) establishes_nonneg (mem_singleton_self result.more) hleft
    unfold weight at h
    rw [flatten_singleton] at h
    have hone : establishes (.establishWith establish) = 1 := rfl
    omega
  cases h with
  | enterEstablish => exact mem_singleton_self _
  | establishFailed always _ hstate =>
    cases always with
    | false => cases hleft
    | true => exact absurd enters hstate
  | quiet haction hmore | changeAcceptor acceptor ins haction hmore
  | bindAcceptor _ _ _ hmore | close hmore | confirmAcceptor _ _ _ hmore =>
    exact absurd (sum_plain establishes hmore) hzero
  | reset hmore | takeFirstAnswerCallback hmore | establishWith _ _ hmore =>
    simp [establishes, sum_plain establishes hmore] at hzero
  | effect | closeEarly | enterConnecting | fireFirstAnswer | confirmAnswer => exact absurd rfl hzero
  | connect _ _ _ via =>
    cases via <;> exact absurd rfl hzero
  | connectFailed | connectWith | replaceAcceptor | finishConnecting | resetEarly | enterFailed
  | confirmFailed =>
    simp [establishes, BdtConnection.connectWith, unchanged] at hzero

theorem step_installed {other : Nat}
    {provider : ProviderType} (hmem : .installed other provider ∈ result.entries) :
    other = caller ∧ provider = result.connection.providerType ∧
      ∃ establish, action = .establishWith establish := by
  have hreferences : ∀ userData, .installed other provider ∉ addRefUserData userData := by
    intro userData h
    cases userData with
    | none => cases h
    | some => cases mem_singleton.mp h
  cases h with
  | establishWith establish =>
    cases mem_singleton.mp hmem
    exact ⟨rfl, rfl, establish, rfl⟩
  | connectFailed =>
    exact ((mem_append.mp hmem).elim (hreferences _) (hreferences _)).elim
  | connect =>
    rcases mem_concat.mp hmem with hmem | hmem
    · exact ((mem_append.mp hmem).elim (hreferences _) (hreferences _)).elim
    · cases hmem
  | confirmAnswer => exact (hreferences _ hmem).elim
  | bindAcceptor => rcases mem_pair.mp hmem with hmem | hmem <;> cases hmem
  | effect | connectWith | replaceAcceptor | finishConnecting | closeEarly | close | resetEarly | reset
  | enterEstablish =>
    cases mem_singleton.mp hmem
  | _ => cases hmem

theorem step_provider :
    result.connection.providerType = c.providerType ∨ c.state = .connecting ∨
      ∃ establish, action = .establishWith establish := by
  cases h with
  | enterEstablish _ _ hstate => exact .inr (.inl hstate)
  | establishWith establish => exact .inr (.inr ⟨establish, rfl⟩)
  | _ => exact .inl rfl

end

/-! ## Attempts to establish -/

/-- An action leads to one call of `Bdt_ConnectionTryEnterEstablish` at most. -/
def attempts : ConnectionAction → Int
  | .pushPackage _ | .onAckAckSessionData _ | .onAckSessionData _ | .onTcpFirstSyn _
  | .tcpFirstSynBound _ | .onTcpFirstAck _ | .onTcpFirstAckResp _ | .onTcpFirstAckAckResp _
  | .confirm .. | .confirmAnswer .. | .confirmAcceptor _ | .tryEnterEstablish .. => 1
  | _ => 0

instance : Effectless attempts where
  effect _ := rfl

theorem attempts_nonneg (action : ConnectionAction) : 0 ≤ attempts action := by
  unfold attempts
  split <;> omega

/-- What an action leaves when it looks at the connector or the acceptor. -/
theorem attempts_map {α : Type} {f : α → ActionResult} {held : Option α} {limit : Int}
    (h : held.map f = some result) (hf : ∀ a, ((f a).more.map attempts).sum ≤ limit) :
    (result.more.map attempts).sum ≤ limit := by
  obtain ⟨a, -, rfl⟩ := Option.map_eq_some_iff.mp h
  exact hf a

theorem perform_attempts (h : c.perform caller action = some result) :
    (result.more.map attempts).sum ≤ attempts action := by
  cases action with
  | connect _ _ _ via =>
    cases h
    unfold BdtConnection.connect
    split
    · simp [attempts]
    · cases via <;> exact Int.le_refl 0
  | connectWith | enterConnecting | finishConnecting | close | reset | onSynSessionData
  | acceptWithReverseStream | takeFirstAnswerCallback | establishWith | tryEnterEstablish | pushPackage
  | onTcpFirstAck | tcpFirstSynBound | confirm | confirmAnswer | fireFirstAnswer =>
    cases h
    simp only [BdtConnection.connectWith, enterConnecting, finishConnecting, BdtConnection.close,
      BdtConnection.reset, onSynSessionData, acceptWithReverseStream, takeFirstAnswerCallback,
      establishWith, behindEstablish, tryEnterEstablish, pushPackage, onTcpFirstAck, tcpFirstSynBound,
      confirm, confirmAnswer, fireFirstAnswer]
    repeat' split
    all_goals simp [attempts, unchanged, bindAcceptor]
  | onAckAckSessionData | onTcpFirstAckResp | onTcpFirstAckAckResp =>
    simp only [perform, onAckAckSessionData, onTcpFirstAckResp, onTcpFirstAckAckResp] at h
    split at h
    · exact Option.some.inj h ▸ by simp [unchanged, attempts]
    · refine attempts_map h fun held => ?_
      repeat' split
      all_goals simp [attempts, unchanged]
  | acceptWithBuilder | onTcpFirstSyn | onAckSessionData | confirmAcceptor =>
    simp only [perform, acceptWithBuilder, onTcpFirstSyn, onAckSessionData, confirmAcceptor] at h
    repeat' split at h
    all_goals first
      | refine attempts_map h fun held => ?_
        repeat' split
        all_goals simp [attempts, unchanged]
      | exact Option.some.inj h ▸ by simp [unchanged, attempts, bindAcceptor]
  | effect =>
    cases h
    simp [attempts]

theorem moves_entered (h : Moves caller c result) {other : Nat} {state : BdtConnectionState}
    (hmem : .entered other state ∈ result.entries) :
    other = caller ∧ c.state.rank < result.connection.state.rank ∧
      state = result.connection.state := by
  have hstate : ∀ entries, .entered other state ∈ entries → state ∈ statesOf entries :=
    fun entries h => mem_filterMap.mpr ⟨_, h, rfl⟩
  rcases h with ⟨-, hquiet⟩ | ⟨before, hlater, hquiet, heq⟩
  · have h := hstate _ hmem
    rw [hquiet] at h
    cases h
  rw [heq] at hmem
  rcases mem_concat.mp hmem with hmem | hmem
  · have h := hstate _ hmem
    rw [hquiet] at h
    cases h
  · obtain ⟨rfl, rfl⟩ := ConnectionEntry.entered.inj hmem
    exact ⟨rfl, hlater, rfl⟩

theorem step_attempted (h : ConnectionStep caller c action result)
    (hmem : .entered caller .establish ∈ result.entries) :
    (result.more.map attempts).sum = 0 ∧ attempts action = 1 ∧
      result.entries.count (.entered caller .establish) = 1 := by
  have hstate := (moves_entered (step_moves h) hmem).2
  cases h with
  | enterEstablish =>
    refine ⟨?_, rfl, ?_⟩
    · simp [attempts]
    · exact count_singleton_self
  | connect | bindAcceptor | finishConnecting | closeEarly | close | resetEarly | reset => cases hstate.2
  | _ => exact absurd hstate.1 (Nat.lt_irrefl _)

end BdtConnection

namespace ConnectionRun

variable {run next : ConnectionRun} {event : CallEvent}

/-- The connection gets one provider, from the call that established it, and keeps it. -/
structure SingleProvider (run : ConnectionRun) : Prop where
  once : run.history.countP ConnectionEntry.installs ≤ 1
  entitled : Justified Entitled run.history
  kept : ∀ caller provider, .installed caller provider ∈ run.history →
    run.connection.providerType = provider

/-- A call that goes on whatever `Bdt_ConnectionTryEnterEstablish` returns finds the connection
connecting. -/
def Entering (run : ConnectionRun) : CallEvent → Prop
  | .call _ => True
  | .step i => ∀ action rest, run.calls[i]? = some (action :: rest) → run.connection.Enters action

/-! ## What runs keep that only enter -/

/-- A provider is given, or to be given, for each time the connection was established. -/
structure Providing (run : ConnectionRun) : Prop extends Steady run where
  counted : (run.history.countP ConnectionEntry.installs : Int) + weight establishes run.calls =
    (statesOf run.history).count .establish
  once : (statesOf run.history).count .establish ≤ 1
  pending : ∀ i actions, run.calls[i]? = some actions → ∀ establish,
    .establishWith establish ∈ actions → .entered i .establish ∈ run.history
  entitled : Justified Entitled run.history
  kept : ∀ caller provider, .installed caller provider ∈ run.history →
    run.connection.providerType = provider

/-- A connection that is connecting was not established. -/
theorem Steady.not_established (steady : run.Steady) (h : run.connection.state.rank < 2) :
    .establish ∉ statesOf run.history :=
  fun hmem => Nat.lt_irrefl _ (Nat.lt_of_le_of_lt (steady.bounded _ hmem) h)

theorem Providing.singleProvider (h : run.Providing) : run.SingleProvider := { h with
  once := by
    have hcounted := h.counted
    have honce := h.once
    have hweight := weight_nonneg establishes_nonneg run.calls
    omega }

theorem Providing.given (h : run.Providing) {caller : Nat} {provider : ProviderType}
    (hmem : .installed caller provider ∈ run.history) :
    weight establishes run.calls = 0 ∧ run.connection.state ≠ .connecting := by
  have hcounted := h.counted
  have honce := h.once
  have hweight := weight_nonneg establishes_nonneg run.calls
  have hpos : 0 < run.history.countP ConnectionEntry.installs :=
    countP_pos_iff.mpr ⟨_, hmem, rfl⟩
  refine ⟨by omega, fun hstate => ?_⟩
  have hnever := h.not_established (by rw [hstate]; exact Nat.one_lt_two)
  rw [count_eq_zero.mpr hnever] at hcounted
  omega

variable {i : Nat}

variable {action : ConnectionAction} {result : ActionResult}

theorem Steady.establish_once (steady : run.Steady)
    (hstep : ConnectionStep i run.connection action result)
    (honce : (statesOf run.history).count .establish ≤ 1) :
    (statesOf (run.history ++ result.entries)).count .establish ≤ 1 := by
  rw [statesOf_append, count_append]
  rcases step_moves hstep with ⟨-, hquiet⟩ | ⟨before, hlater, hquiet, heq⟩
  · rw [hquiet]
    exact honce
  have hentered : statesOf result.entries = [result.connection.state] := by
    rw [heq, statesOf_append, hquiet]
    rfl
  rw [hentered, count_singleton]
  by_cases hstate : result.connection.state = .establish
  · rw [hstate] at hlater
    rw [count_eq_zero.mpr (steady.not_established hlater)]
    split <;> omega
  · rw [if_neg (by simpa using hstate)]
    exact honce

theorem Providing.step {rest : List ConnectionAction}
    (h : run.Providing) (hcall : run.calls[i]? = some (action :: rest))
    (enters : run.connection.Enters action)
    (hstep : ConnectionStep i run.connection action result) :
    Providing (run.advance i rest result) := by
  have hestablishes := step_establishes hstep enters
  refine ⟨h.toSteady.step hcall hstep, ?_, h.toSteady.establish_once hstep h.once, ?_, ?_, ?_⟩
  case refine_1 =>
    have hweight := weight_advance establishes result.more hcall
    have hcounted := h.counted
    show ((run.history ++ result.entries).countP ConnectionEntry.installs : Int) +
      weight establishes (advanceCall run.calls i result.more rest) =
        (statesOf (run.history ++ result.entries)).count .establish
    rw [statesOf_append, count_append, countP_append]
    push_cast
    omega
  case refine_2 =>
    refine each_advance hcall (fun j actions _ hget establish hmem => ?_) fun establish hmem => ?_
    · exact mem_append_left _ (h.pending j actions hget establish hmem)
    · rcases mem_append.mp hmem with hmem | hmem
      · exact mem_append_right _ (step_left hstep enters hmem)
      · exact mem_append_left _ (h.pending i _ hcall establish (mem_cons_of_mem _ hmem))
  case refine_3 =>
    refine h.entitled.extend fun front entry back heq => ?_
    cases entry with
    | installed other provider =>
      have hmem : .installed other provider ∈ result.entries :=
        heq ▸ mem_append_right front mem_cons_self
      obtain ⟨rfl, -, establish, rfl⟩ := step_installed hstep hmem
      exact mem_append_left _ (h.pending _ _ hcall establish mem_cons_self)
    | entered | acquired | did => trivial
  case refine_4 =>
  intro caller provider hmem
  rcases mem_append.mp hmem with hmem | hmem
  · obtain ⟨hnone, hstate⟩ := h.given hmem
    rcases step_provider hstep with hsame | hconnecting | ⟨establish, rfl⟩
    · exact hsame.trans (h.kept caller provider hmem)
    · exact absurd hconnecting hstate
    · -- no provider is left to be given
      have hle : 1 ≤ weight establishes run.calls := le_weight_call establishes_nonneg hcall
      omega
  · exact (step_installed hstep hmem).2.1.symm

theorem Providing.handle (h : run.Providing) (entering : run.Entering event)
    (hnext : run.handle event = some next) : next.Providing := by
  have hsteady := h.toSteady.handle hnext
  rcases handle_cases hnext with
    ⟨action, rfl, haction, rfl⟩ | ⟨i, action, rest, result, rfl, hcall, hresult, rfl⟩
  · refine ⟨hsteady, ?_, h.once, ?_, h.entitled, h.kept⟩
    · show _ + weight establishes (run.calls ++ [[action]]) = _
      rw [weight_call establishes haction]
      exact h.counted
    · refine each_begin h.pending fun establish hmem => ?_
      exact absurd (mem_singleton.mp hmem ▸ haction) fun h => h.elim
  · exact h.step hcall (entering action rest hcall) (perform_step hresult)

theorem providing_create (remote : Peerid) (id connectSeq remoteId : UInt32) (passive : Bool) :
    Providing { connection := ConnectionCreate remote id connectSeq remoteId passive } where
  toSteady := (sound_create remote id connectSeq remoteId passive).toSteady
  counted := rfl
  once := Nat.zero_le 1
  pending i actions h := nomatch h
  entitled := justified_nil
  kept caller provider h := absurd h not_mem_nil

/-! ## Calls that have not established the connection -/

/-- A call establishes the connection once at most, and makes no attempt afterwards. -/
structure Attempting (run : ConnectionRun) : Prop where
  single : ∀ i actions, run.calls[i]? = some actions →
    (run.history.count (.entered i .establish) : Int) + (actions.map BdtConnection.attempts).sum ≤ 1
  fresh : ∀ i state, .entered i state ∈ run.history → i < run.calls.length

theorem Attempting.handle (h : run.Attempting) (hnext : run.handle event = some next) :
    next.Attempting := by
  rcases handle_cases hnext with
    ⟨action, rfl, haction, rfl⟩ | ⟨i, action, rest, result, rfl, hcall, hresult, rfl⟩
  · refine ⟨each_begin h.single ?_, fun i state hmem => ?_⟩
    · have hnever : run.history.count (.entered run.calls.length .establish) = 0 :=
        count_eq_zero.mpr fun hmem => Nat.lt_irrefl _ (h.fresh _ _ hmem)
      have hone : BdtConnection.attempts action ≤ 1 := by
        unfold BdtConnection.attempts
        split <;> omega
      rw [hnever]
      simpa using hone
    · show i < (run.calls ++ [[action]]).length
      rw [length_append]
      exact Nat.lt_add_right _ (h.fresh i state hmem)
  have hstep := perform_step hresult
  have hentered : ∀ {other state}, .entered other state ∈ result.entries → other = i :=
    fun hmem => (moves_entered (step_moves hstep) hmem).1
  refine ⟨?_, fun j state hmem => ?_⟩
  · refine each_advance hcall (fun j actions hne hget => ?_) ?_
    · have hother : result.entries.count (.entered j .establish) = 0 :=
        count_eq_zero.mpr fun hmem => hne (hentered hmem).symm
      show ((run.history ++ result.entries).count (.entered j .establish) : Int) + _ ≤ 1
      rw [count_append, hother]
      exact h.single j actions hget
    have hle := perform_attempts hresult
    have hsingle := h.single i _ hcall
    show ((run.history ++ result.entries).count (.entered i .establish) : Int) + _ ≤ 1
    rw [map_cons, sum_cons] at hsingle
    rw [count_append, map_append, sum_append]
    push_cast
    by_cases hmem : .entered i .establish ∈ result.entries
    · obtain ⟨hmore, haction, hcount⟩ := step_attempted hstep hmem
      omega
    · rw [count_eq_zero.mpr hmem]
      omega
  show j < (advanceCall run.calls i result.more rest).length
  rw [length_advanceCall hcall]
  rcases mem_append.mp hmem with hmem | hmem
  · exact h.fresh j state hmem
  · exact hentered hmem ▸ (List.getElem?_eq_some_iff.mp hcall).1

theorem attempting_create (remote : Peerid) (id connectSeq remoteId : UInt32) (passive : Bool) :
    Attempting { connection := ConnectionCreate remote id connectSeq remoteId passive } where
  single i actions h := nomatch h
  fresh i state h := absurd h not_mem_nil

/-- A call that goes on without having established the connection gives it a provider. -/
theorem Attempting.not_entering (h : run.Attempting) (hnot : ¬ run.Entering (.step i)) :
    ∃ t, exec ConnectionRun.handle run [.step i, .step i] = some t ∧ ¬ t.SingleProvider := by
  obtain ⟨action, hnot⟩ := Classical.not_forall.mp hnot
  obtain ⟨rest, hnot⟩ := Classical.not_forall.mp hnot
  obtain ⟨hcall, hnot⟩ := Classical.not_imp.mp hnot
  cases action with
  | tryEnterEstablish always establish =>
    cases always with
    | false => exact absurd trivial hnot
    | true =>
      have hstate : run.connection.state ≠ .connecting := hnot
      have hresult : run.connection.tryEnterEstablish i true establish =
          run.connection.unchanged [.establishWith establish] := by
        unfold tryEnterEstablish
        rw [if_pos hstate]
        rfl
      have hnever : .entered i .establish ∉ run.history := by
        have hsingle := h.single i _ hcall
        rw [map_cons, sum_cons] at hsingle
        have hrest := weight_nonneg attempts_nonneg [rest]
        have hone : BdtConnection.attempts (.tryEnterEstablish true establish) = 1 := rfl
        unfold weight at hrest
        rw [flatten_singleton] at hrest
        refine count_eq_zero.mp ?_
        omega
      -- the attempt fails, and the next action of the call gives the provider
      have hfirst := handle_step hcall (congrArg some hresult)
      have hsecond : ConnectionRun.handle
          { connection := run.connection
            calls := advanceCall run.calls i [.establishWith establish] rest
            history := run.history ++ [] } (.step i) = some _ :=
        handle_step (getElem?_advanceCall hcall _) rfl
      refine ⟨_, Option.bind_eq_some_iff.mpr
        ⟨_, hfirst, Option.bind_eq_some_iff.mpr ⟨_, hsecond, rfl⟩⟩, fun single => ?_⟩
      have hentitled := single.entitled (run.history ++ []) (.installed i establish.provider) [] rfl
      rw [append_nil] at hentitled
      exact hnever hentitled
  | _ => exact absurd trivial hnot

/-- As long as the calls that go on whatever `Bdt_ConnectionTryEnterEstablish` returns find the
connection connecting, it has a single provider; and such a call that does not gives it a provider
with its next action. -/
theorem single_provider (remote : Peerid) (id connectSeq remoteId : UInt32) (passive : Bool)
    (events : List CallEvent) :
    (StepsMeet ConnectionRun.handle Entering
        { connection := ConnectionCreate remote id connectSeq remoteId passive } events →
      Throughout ConnectionRun.handle SingleProvider
        { connection := ConnectionCreate remote id connectSeq remoteId passive } events) ∧
    ∀ run i, exec ConnectionRun.handle
        { connection := ConnectionCreate remote id connectSeq remoteId passive } events = some run →
      ¬ run.Entering (.step i) →
      ∃ t, exec ConnectionRun.handle run [.step i, .step i] = some t ∧ ¬ t.SingleProvider := by
  constructor
  · intro h front back u heq hfront
    have hstart := providing_create remote id connectSeq remoteId passive
    refine Providing.singleProvider ?_
    exact (heq ▸ h).front.preserves (fun s e t hs hok hstep => hs.handle hok hstep) hstart hfront
  intro run i hrun hnot
  have hstart := attempting_create remote id connectSeq remoteId passive
  have hattempting : run.Attempting :=
    exec_preserves (fun s e t hs hstep => hs.handle hstep) hstart hrun
  exact hattempting.not_entering hnot

/-- A connection that is confirmed when its tcp interface is bound, until it has its provider. -/
theorem single_provider_confirm :
    Throughout ConnectionRun.handle SingleProvider
      { connection := ConnectionCreate (.ofList 32 [1]) 64 1 0 true }
      [.call (.onTcpFirstSyn 5), .step 0, .call (.confirm [] none), .step 1, .step 1, .step 1,
        .step 1, .step 1, .step 1] := by
  refine (single_provider _ _ _ _ _ _).1 ?_
  refine .cons trivial fun _ h => ?_
  cases h
  refine .cons (fun action rest h => by cases h; trivial) fun _ h => ?_
  cases h
  refine .cons trivial fun _ h => ?_
  cases h
  iterate 3
    refine .cons (fun action rest h => by cases h; trivial) fun _ h => ?_
    cases h
  -- the connection is connecting when it is to be established
  refine .cons (fun action rest h => by cases h; rfl) fun _ h => ?_
  cases h
  refine .cons (fun action rest h => by cases h; trivial) fun _ h => ?_
  cases h
  exact .cons (fun action rest h => by cases h; trivial) fun _ _ => stepsMeet_nil _ _

/-- A tcp package binds its interface while `BdtConfirmConnection` looks at the acceptor: both calls
go on to establish the connection, and the second one gives it a second provider. -/
theorem provider_given_twice : ∃ t,
    exec ConnectionRun.handle { connection := ConnectionCreate (.ofList 32 [1]) 64 1 0 true }
        [.call (.onTcpFirstSyn 5), .step 0, .call (.confirm [] none), .step 1, .step 1, .step 0,
          .step 1, .step 0, .step 0, .step 0, .step 1, .step 1] = some t ∧
      (statesOf t.history = [.connecting, .establish] ∧
        .installed 0 .stream ∈ t.history ∧ .installed 1 .stream ∈ t.history) ∧
      ¬ t.SingleProvider := by
  refine exists_of_test (fun t => t.history.countP ConnectionEntry.installs = 2 ∧
    statesOf t.history = [.connecting, .establish] ∧ .installed 0 .stream ∈ t.history ∧
    .installed 1 .stream ∈ t.history) (by decide +kernel) ?_
  rintro t - ⟨hcount, hgiven⟩
  refine ⟨hgiven, fun single => ?_⟩
  have honce := single.once
  omega

end ConnectionRun

end Bdt
