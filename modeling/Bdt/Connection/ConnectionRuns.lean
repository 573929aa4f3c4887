import Bdt.Connection.ConnectionLifetime

/-!
# The life of a connection

`Lawful` says how the state of a connection, what it holds and what was done agree: the state only
moves forward; there is a connector or an acceptor only in `BDT_CONNECTION_STATE_CONNECTING`; what
was allocated or referred to is held, or freed once; and a connection that is closed without having
been established is removed from the manager and has no user data left.

`connection_lawful_iff`: this holds in every run that closes no connection before it is established
and resets none that is connecting and holds something; and in no other run.
-/

namespace Bdt

open Base BdtConnection List

/-- The functions that are called from outside have nothing to give back. -/
theorem ConnectionAction.entry_plain {action : ConnectionAction} (h : action.isEntry) :
    action.Plain := by
  cases action with
  | connectWith | enterConnecting | confirmAcceptor | establishWith | effect => cases h
  | _ => trivial

namespace ConnectionRun

variable {run next : ConnectionRun} {event : CallEvent}

/-- How often the connection was removed, or is going to be. -/
def removals (run : ConnectionRun) : Int :=
  run.history.count (.did .removed) + weight removes run.calls

/-- How the connection and what was done agree. -/
structure Lawful (run : ConnectionRun) : Prop where
  forward : Justified MovesForward run.history
  current : lastState run.history = run.connection.state
  connecting : run.connection.Connecting
  /-- What was acquired and not released is held, or on its way. -/
  balanced : ∀ token, net token run.history =
    weight (owes token) run.calls + run.connection.held token
  once : ∀ number, run.history.count (.acquired (.object number)) ≤ 1 ∧
    run.history.count (.did (.released (.object number))) ≤ 1
  gone : run.connection.state = .closed → .establish ∉ statesOf run.history →
    0 < run.removals ∧ run.connection.connectUserData = none ∧ run.connection.faUserData = none
  /-- When no call is in flight, what the connection does not hold was freed. -/
  freed : run.calls.flatten = [] → run.connection.state ≠ .connecting → ∀ number,
    run.history.count (.did (.released (.object number))) =
      run.history.count (.acquired (.object number))
  removed : run.calls.flatten = [] → run.connection.state = .closed →
    .establish ∉ statesOf run.history → .did .removed ∈ run.history ∧ ∀ userData,
      run.history.count (.did (.released (.userData userData))) =
        run.history.count (.acquired (.userData userData))

/-- The next action of the call that goes on is orderly. -/
def Orderly (run : ConnectionRun) : CallEvent → Prop
  | .call _ => True
  | .step i => ∀ action rest, run.calls[i]? = some (action :: rest) →
      BdtConnection.Orderly run.connection action

/-! ## What every run keeps -/

/-- What holds of every run. -/
structure Steady (run : ConnectionRun) : Prop where
  forward : Justified MovesForward run.history
  current : lastState run.history = run.connection.state
  bounded : ∀ state ∈ statesOf run.history, state.rank ≤ run.connection.state.rank
  established : run.connection.state = .establish ∨ run.connection.state = .closing →
    .establish ∈ statesOf run.history
  tidy : Tidy run.connection (weight connects run.calls) (weight confirms run.calls)
  present : run.connection.state ≠ .closed → run.removals = 0
  acquired : ∀ number, run.history.count (.acquired (.object number)) =
    run.connection.allocatedOnce number

/-- The run after an action of a call. -/
abbrev advance (run : ConnectionRun) (i : Nat) (rest : List ConnectionAction)
    (result : ActionResult) : ConnectionRun where
  connection := result.connection
  calls := advanceCall run.calls i result.more rest
  history := run.history ++ result.entries

/-- A run goes on with a call that begins, or with an action of one of the calls. -/
theorem handle_cases (h : run.handle event = some next) :
    (∃ action, event = .call action ∧ action.Plain ∧
        next = { run with calls := run.calls ++ [[action]] }) ∨
      ∃ i action rest result, event = .step i ∧ run.calls[i]? = some (action :: rest) ∧
        run.connection.perform i action = some result ∧
        next = run.advance i rest result := by
  cases event with
  | call action =>
    refine .inl ⟨action, rfl, ?_⟩
    simp only [handle] at h
    split at h
    case isTrue hentry => exact ⟨action.entry_plain hentry, (Option.some.inj h).symm⟩
    case isFalse => cases h
  | step i =>
    simp only [handle] at h
    split at h
    case h_1 action rest hcall =>
      obtain ⟨result, hresult, rfl⟩ := Option.map_eq_some_iff.mp h
      exact .inr ⟨i, action, rest, result, rfl, hcall, hresult, rfl⟩
    case h_2 => cases h

variable {i : Nat} {action : ConnectionAction} {rest : List ConnectionAction}
  {result : ActionResult}

theorem handle_step (hcall : run.calls[i]? = some (action :: rest))
    (hresult : run.connection.perform i action = some result) :
    run.handle (.step i) = some (run.advance i rest result) := by
  simp only [handle, hcall, hresult]
  rfl

theorem weight_call (f : ConnectionAction → Int) [Inert f]
    (haction : action.Plain) (calls : List (List ConnectionAction)) :
    weight f (calls ++ [[action]]) = weight f calls := by
  rw [weight_begin, sum_plain f (plain_one haction), Int.add_zero]

theorem removals_step (hcall : run.calls[i]? = some (action :: rest))
    (hstep : ConnectionStep i run.connection action result) :
    (run.advance i rest result).removals =
      run.removals + (result.more.map removes).sum := by
  have hweight := weight_advance removes result.more hcall
  have hcount := step_removed hstep
  unfold removals
  rw [count_append]
  push_cast
  omega

theorem connects_nonneg (action : ConnectionAction) : 0 ≤ connects action := by
  cases action <;> first | exact Int.le_refl 0 | exact Int.zero_le_ofNat 1

theorem confirms_nonneg (action : ConnectionAction) : 0 ≤ confirms action := by
  cases action <;> first | exact Int.le_refl 0 | exact Int.zero_le_ofNat 1

theorem removes_nonneg (action : ConnectionAction) : 0 ≤ removes action := by
  unfold removes
  split <;> omega

theorem owes_nonneg (token : ConnectionToken) (action : ConnectionAction) : 0 ≤ owes token action := by
  unfold owes carried
  split
  · split <;> omega
  · split <;> omega
  · split <;> omega
  · omega

theorem le_weight_call {f : ConnectionAction → Int} (hf : ∀ action, 0 ≤ f action)
    (hcall : run.calls[i]? = some (action :: rest)) : f action ≤ weight f run.calls :=
  le_weight hf (mem_of_getElem? hcall) mem_cons_self

theorem Steady.step (steady : run.Steady) (hcall : run.calls[i]? = some (action :: rest))
    (hstep : ConnectionStep i run.connection action result) :
    Steady (run.advance i rest result) := by
  have hmoves := step_moves hstep
  constructor
  case forward =>
    rcases hmoves with ⟨-, hquiet⟩ | ⟨before, hlater, hquiet, heq⟩
    · exact movesForward_quiet steady.forward hquiet
    show Justified MovesForward (run.history ++ result.entries)
    rw [heq, ← append_assoc]
    refine (movesForward_quiet steady.forward hquiet).concat ?_
    show (lastState (run.history ++ before)).rank < _
    rw [lastState_quiet hquiet, steady.current]
    exact hlater
  case current =>
    show lastState (run.history ++ result.entries) = result.connection.state
    rcases hmoves with ⟨hsame, hquiet⟩ | ⟨before, -, -, heq⟩
    · rw [lastState_quiet hquiet, hsame, steady.current]
    · rw [heq, ← append_assoc, lastState_entered]
  case bounded =>
    intro state hmem
    rw [statesOf_append] at hmem
    show state.rank ≤ result.connection.state.rank
    rcases hmoves with ⟨hsame, hquiet⟩ | ⟨before, hlater, hquiet, heq⟩
    · rw [hquiet, append_nil] at hmem
      rw [hsame]
      exact steady.bounded state hmem
    rcases mem_append.mp hmem with hmem | hmem
    · exact Nat.le_of_lt (Nat.lt_of_le_of_lt (steady.bounded state hmem) hlater)
    · rw [heq, statesOf_append, hquiet] at hmem
      exact Nat.le_of_eq (congrArg _ (mem_singleton.mp hmem))
  case established =>
    intro hstate
    show .establish ∈ statesOf (run.history ++ result.entries)
    rw [statesOf_append]
    rcases hmoves with ⟨hsame, -⟩ | ⟨before, hlater, -, heq⟩
    · refine mem_append_left _ (steady.established ?_)
      exact hsame ▸ hstate
    rcases hstate with hstate | hstate
    · refine mem_append_right _ ?_
      rw [heq, statesOf_append, hstate]
      exact mem_append_right _ mem_cons_self
    · exact mem_append_left _ (steady.established (step_closing hstep hstate))
  case tidy =>
    have hconnects := weight_advance connects result.more hcall
    have hconfirms := weight_advance confirms result.more hcall
    refine step_tidy hstep steady.tidy (le_weight_call connects_nonneg hcall)
      (le_weight_call confirms_nonneg hcall) ?_ ?_
    · show weight connects (advanceCall run.calls i result.more rest) = _
      omega
    · show weight confirms (advanceCall run.calls i result.more rest) = _
      omega
  case present =>
    intro hstate
    rw [removals_step hcall hstep, step_removes hstep hstate]
    rcases hmoves with ⟨hsame, -⟩ | ⟨before, hlater, -, -⟩
    · rw [steady.present (hsame ▸ hstate)]
      rfl
    -- nothing is entered after the last state
    rw [steady.present fun hclosed => ?_]
    · rfl
    · rw [hclosed] at hlater
      cases hresult : result.connection.state <;> rw [hresult] at hlater <;>
        exact absurd hlater (by decide)
  case acquired =>
  intro number
  show (run.history ++ result.entries).count _ = _
  rw [count_append, steady.acquired, Nat.add_comm]
  exact step_acquired hstep number

theorem Steady.handle (steady : run.Steady) (h : run.handle event = some next) : next.Steady := by
  rcases handle_cases h with
    ⟨action, rfl, haction, rfl⟩ | ⟨i, action, rest, result, rfl, hcall, hresult, rfl⟩
  · refine ⟨steady.forward, steady.current, steady.bounded, steady.established, ?_, ?_,
      steady.acquired⟩
    · show Tidy run.connection (weight connects (run.calls ++ [[action]]))
        (weight confirms (run.calls ++ [[action]]))
      rw [weight_call connects haction, weight_call confirms haction]
      exact steady.tidy
    intro hstate
    show (run.history.count _ : Int) + weight removes (run.calls ++ [[action]]) = 0
    rw [weight_call removes haction]
    exact steady.present hstate
  · exact steady.step hcall (perform_step hresult)

/-! ## What orderly runs keep -/

structure Sound (run : ConnectionRun) : Prop extends Steady run where
  connecting : run.connection.Connecting
  balanced : ∀ token, net token run.history =
    weight (owes token) run.calls + run.connection.held token
  gone : run.connection.state = .closed → .establish ∉ statesOf run.history →
    0 < run.removals ∧ run.connection.connectUserData = none ∧ run.connection.faUserData = none

theorem Steady.careful (steady : run.Steady) (hcall : run.calls[i]? = some (action :: rest))
    (orderly : BdtConnection.Orderly run.connection action) : Careful run.connection action where
  idle hstate := by
    obtain ⟨hconnector, hacceptor, hconnectUserData, hfaUserData, -⟩ := steady.tidy.idle hstate
    exact ⟨hconnector, hacceptor, hconnectUserData, hfaUserData⟩
  apart := by
    by_cases hacceptor : run.connection.acceptor = none
    · exact .inr hacceptor
    · exact .inl (steady.tidy.apart hacceptor).1
  connector := by
    rintro connector rfl
    have hle : 1 ≤ weight connects run.calls := le_weight_call connects_nonneg hcall
    have hone := steady.tidy.connector
    by_contra hsome
    rw [if_neg hsome] at hone
    omega
  userData := by
    rintro connectUserData rfl hacceptor
    have hle : 1 ≤ weight confirms run.calls := le_weight_call confirms_nonneg hcall
    refine (steady.tidy.unconfirmed hacceptor).resolve_right fun h => ?_
    omega
  close := by
    rintro rfl
    exact orderly
  reset := by
    rintro rfl hstate
    exact ⟨(orderly hstate).1, (orderly hstate).2.1⟩

theorem Sound.step (sound : run.Sound) (hcall : run.calls[i]? = some (action :: rest))
    (orderly : BdtConnection.Orderly run.connection action)
    (hstep : ConnectionStep i run.connection action result) :
    Sound (run.advance i rest result) := by
  have hsteady := sound.toSteady.step hcall hstep
  refine ⟨hsteady, step_connecting hstep sound.tidy orderly sound.connecting, ?_, ?_⟩
  · intro token
    have hconserves := step_conserves hstep (sound.toSteady.careful hcall orderly) token
    have hweight := weight_advance (owes token) result.more hcall
    have hbalanced := sound.balanced token
    show net token (run.history ++ result.entries) = _
    rw [net_append]
    show _ = weight (owes token) (advanceCall run.calls i result.more rest) +
      result.connection.held token
    omega
  intro hclosed hnever
  rw [statesOf_append, mem_append, not_or] at hnever
  rw [removals_step hcall hstep]
  have hleft : 0 ≤ (result.more.map removes).sum := by
    have h := weight_nonneg removes_nonneg [result.more]
    unfold weight at h
    rwa [flatten_singleton] at h
  have hright : 0 ≤ run.removals := by
    have h := weight_nonneg removes_nonneg run.calls
    unfold removals
    omega
  rcases step_gone hstep sound.tidy orderly hclosed with
    ⟨hbefore, hconnect, hfa⟩ | hestablish | hclosing | ⟨hremoved, hconnect, hfa⟩
  · obtain ⟨hremovals, hconnectUserData, hfaUserData⟩ := sound.gone hbefore hnever.1
    exact ⟨by omega, hconnect hconnectUserData, hfa hfaUserData⟩
  · exact absurd (sound.established (.inl hestablish)) hnever.1
  · exact absurd (sound.established (.inr hclosing)) hnever.1
  · exact ⟨by omega, hconnect, hfa⟩

theorem Sound.handle (sound : run.Sound) (orderly : run.Orderly event)
    (h : run.handle event = some next) : next.Sound := by
  have hsteady := sound.toSteady.handle h
  rcases handle_cases h with
    ⟨action, rfl, haction, rfl⟩ | ⟨i, action, rest, result, rfl, hcall, hresult, rfl⟩
  · refine ⟨hsteady, sound.connecting, fun token => ?_, fun hclosed hnever => ?_⟩
    · show _ = weight (owes token) (run.calls ++ [[action]]) + _
      rw [weight_begin, owes_plain token (plain_one haction), Int.add_zero]
      exact sound.balanced token
    obtain ⟨hremovals, huserData⟩ := sound.gone hclosed hnever
    refine ⟨?_, huserData⟩
    show 0 < (run.history.count _ : Int) + weight removes (run.calls ++ [[action]])
    rw [weight_call removes haction]
    exact hremovals
  · exact sound.step hcall (orderly action rest hcall) (perform_step hresult)

theorem sound_create (remote : Peerid) (id connectSeq remoteId : UInt32) (passive : Bool) :
    Sound { connection := ConnectionCreate remote id connectSeq remoteId passive } where
  forward := justified_nil
  current := rfl
  bounded state hmem := absurd hmem not_mem_nil
  established h := by cases h <;> contradiction
  tidy := ⟨fun _ => ⟨rfl, rfl, rfl, rfl, rfl⟩, Int.zero_le_ofNat 1, fun h => absurd rfl h,
    Int.le_refl 1, fun h => absurd rfl h⟩
  present _ := rfl
  acquired _ := rfl
  connecting h := (h.elim (fun h => h rfl) (fun h => h rfl)).elim
  balanced token := rfl
  gone h := nomatch h

/-! ## The theorem -/

theorem carried_nonneg (token : ConnectionToken) (holder : Option ConnectionToken) :
    0 ≤ carried token holder := by
  unfold carried
  split <;> omega

theorem held_nonneg (token : ConnectionToken) (c : BdtConnection) : 0 ≤ c.held token := by
  have h1 := carried_nonneg token (c.connector.map fun connector => .object connector.number)
  have h2 := carried_nonneg token (c.acceptor.map fun acceptor => .object acceptor.number)
  have h3 := carried_nonneg token (c.connectUserData.map .userData)
  have h4 := carried_nonneg token (c.faUserData.map .userData)
  unfold held objects
  omega

theorem carried_userData (number : Nat) (userData : Option Nat) :
    carried (.object number) (userData.map .userData) = 0 := by
  cases userData <;> rfl

theorem weight_done (f : ConnectionAction → Int) (h : run.calls.flatten = []) :
    weight f run.calls = 0 := by
  unfold weight
  rw [h]
  rfl

theorem Sound.lawful (sound : run.Sound) : run.Lawful := { sound with
  once number := by
    have hbalanced := sound.balanced (.object number)
    have hweight := weight_nonneg (owes_nonneg (.object number)) run.calls
    have hheld := held_nonneg (.object number) run.connection
    have hacquired := sound.acquired number
    have hone : run.connection.allocatedOnce number ≤ 1 := by
      unfold allocatedOnce
      split <;> omega
    unfold net at hbalanced
    omega
  freed hdone hstate number := by
    have hbalanced := sound.balanced (.object number)
    have hnone : run.connection.connector = none ∧ run.connection.acceptor = none := by
      constructor <;> by_contra h
      · exact hstate (sound.connecting (.inl h))
      · exact hstate (sound.connecting (.inr h))
    have hheld : run.connection.held (.object number) = 0 := by
      unfold held objects
      rw [carried_userData, carried_userData, hnone.1, hnone.2]
      rfl
    rw [weight_done _ hdone, hheld] at hbalanced
    unfold net at hbalanced
    omega
  removed hdone hclosed hnever := by
    obtain ⟨hremovals, hconnectUserData, hfaUserData⟩ := sound.gone hclosed hnever
    have hnone : run.connection.connector = none ∧ run.connection.acceptor = none := by
      constructor <;> by_contra h
      · exact absurd (hclosed.symm.trans (sound.connecting (.inl h))) nofun
      · exact absurd (hclosed.symm.trans (sound.connecting (.inr h))) nofun
    constructor
    · unfold removals at hremovals
      rw [weight_done _ hdone] at hremovals
      refine count_pos_iff.mp ?_
      omega
    intro userData
    have hbalanced := sound.balanced (.userData userData)
    have hheld : run.connection.held (.userData userData) = 0 := by
      unfold held objects
      rw [hconnectUserData, hfaUserData, hnone.1, hnone.2]
      rfl
    rw [weight_done _ hdone, hheld] at hbalanced
    unfold net at hbalanced
    omega }

/-- An action that is not orderly leaves a closed connection in the manager, or something in it. -/
theorem Steady.not_orderly (steady : run.Steady) (h : ¬ run.Orderly event) :
    ∃ t, run.handle event = some t ∧ ¬ t.Lawful := by
  cases event with
  | call => exact absurd trivial h
  | step i =>
    obtain ⟨action, hnot⟩ := Classical.not_forall.mp h
    obtain ⟨rest, hnot⟩ := Classical.not_forall.mp hnot
    obtain ⟨hcall, hnot⟩ := Classical.not_imp.mp hnot
    have hnever : run.connection.state = .none ∨ run.connection.state = .connecting →
        .establish ∉ statesOf (run.history ++ [.entered i .closed]) := by
      intro hstate hmem
      rw [statesOf_append] at hmem
      rcases mem_concat.mp hmem with hmem | hmem
      · have hrank := steady.bounded _ hmem
        rcases hstate with hstate | hstate <;> rw [hstate] at hrank <;>
          exact absurd hrank (by decide)
      · cases hmem
    cases action with
    | close =>
      have hstate : run.connection.state = .none ∨ run.connection.state = .connecting := by
        by_contra hnone
        exact hnot (not_or.mp hnone)
      have hresult : run.connection.close i =
          { connection := run.connection.abandon, entries := [.entered i .closed] } := by
        unfold BdtConnection.close
        rcases hstate with hstate | hstate <;> rw [hstate]
      refine ⟨_, handle_step hcall (congrArg some hresult), fun lawful => ?_⟩
      have hremovals := (lawful.gone rfl (hnever hstate)).1
      rw [removals_step hcall (.closeEarly hstate), steady.present ?_] at hremovals
      · cases hremovals
      · rcases hstate with hstate | hstate <;> rw [hstate] <;> exact nofun
    | reset =>
      obtain ⟨hstate, hnot⟩ := Classical.not_imp.mp hnot
      have hresult : run.connection.reset i =
          { connection := run.connection.abandon
            entries := [.entered i .closed]
            more := .effect .removed :: releaseUserData run.connection.connectUserData ++
              run.connection.resetHeld } := by
        unfold BdtConnection.reset
        rw [hstate]
      refine ⟨_, handle_step hcall (congrArg some hresult), fun lawful => hnot ?_⟩
      have hnone : run.connection.connector = none ∧ run.connection.acceptor = none := by
        constructor <;> by_contra hsome
        · cases lawful.connecting (.inl hsome)
        · cases lawful.connecting (.inr hsome)
      exact ⟨hnone.1, hnone.2, (lawful.gone rfl (hnever (.inr hstate))).2.2⟩
    | _ => exact absurd trivial hnot

/-- A connection is lawful in a whole run if and only if it is not closed before it is established,
and not reset while it is connecting and holds a connector, an acceptor or a user data of the first
answer. -/
theorem connection_lawful_iff (remote : Peerid) (id connectSeq remoteId : UInt32) (passive : Bool)
    (events : List CallEvent) :
    Throughout handle Lawful
        { connection := ConnectionCreate remote id connectSeq remoteId passive } events ↔
      StepsMeet handle Orderly
        { connection := ConnectionCreate remote id connectSeq remoteId passive } events := by
  have hstart := sound_create remote id connectSeq remoteId passive
  refine throughout_iff hstart (fun u hu => hu.lawful) (fun s e t hs hok hstep => hs.handle hok hstep) ?_
  intro front u e hrun _ hok
  have hsteady : u.Steady :=
    exec_preserves (fun s e t hs hstep => hs.handle hstep) hstart.toSteady hrun
  exact hsteady.not_orderly hok

/-- What every run keeps, also one that is not orderly. -/
theorem connection_steady (remote : Peerid) (id connectSeq remoteId : UInt32) (passive : Bool)
    (events : List CallEvent) :
    Throughout handle Steady
      { connection := ConnectionCreate remote id connectSeq remoteId passive } events :=
  throughout_of_inv (sound_create remote id connectSeq remoteId passive).toSteady (fun _ h => h)
    fun _ _ _ h hnext => h.handle hnext

/-- A connection that connects, before its first action. -/
def connectingRun : ConnectionRun where
  connection := ConnectionCreate (.ofList 32 [1]) 64 1 0 false

/-- `BdtConnectionClose` of a connection that is connecting returns with the connector, the user data
and the connection left where they are. `BdtConnectionReset` frees the connector, and leaves the
pointer to it in the connection. -/
theorem connection_left_over :
    (∃ t, exec handle connectingRun
        [.call (.connect (some 7) none [] (some .package)), .step 0, .step 0, .step 0,
          .call .close, .step 1] = some t ∧
      (t.calls = [[], []] ∧ t.connection.connector ≠ none ∧ .did .removed ∉ t.history ∧
        net (.userData 7) t.history = 1) ∧ ¬ t.Lawful) ∧
    ∃ t, exec handle connectingRun
        [.call (.connect none none [] (some .package)), .step 0, .step 0, .step 0,
          .call .reset, .step 1, .step 1, .step 1] = some t ∧
      (t.calls = [[], []] ∧ t.connection.connector = some ⟨0, .package⟩ ∧
        .did (.released (.object 0)) ∈ t.history) ∧ ¬ t.Lawful := by
  constructor
  · refine exists_of_test (fun t => t.connection.state = .closed ∧ t.calls = [[], []] ∧
      t.connection.connector ≠ none ∧ .did .removed ∉ t.history ∧ net (.userData 7) t.history = 1)
      (by decide +kernel) ?_
    rintro t - ⟨hstate, hleft⟩
    refine ⟨hleft, fun lawful => ?_⟩
    cases hstate.symm.trans (lawful.connecting (.inl hleft.2.1))
  refine exists_of_test (fun t => t.connection.state = .closed ∧ t.calls = [[], []] ∧
    t.connection.connector = some ⟨0, .package⟩ ∧ .did (.released (.object 0)) ∈ t.history)
    (by decide +kernel) ?_
  rintro t - ⟨hstate, hleft⟩
  refine ⟨hleft, fun lawful => ?_⟩
  have hsome : t.connection.connector ≠ none := by
    rw [hleft.2.1]
    exact Option.some_ne_none _
  cases hstate.symm.trans (lawful.connecting (.inl hsome))

end ConnectionRun

end Bdt
