import Bdt.Interface.PackageDispatch

/-!
# Boxes that cannot be read

A model of `BdtPushTcpSocketData` in every state of the interface, on top of the parser and of the
dispatch of the packages. It tests the results of the parser, of the decryption and of
`Bdt_DecodePackage` each in its own way, and runs itself again on what the parser has left of a
chunk; `pushTcpSocketData` runs the activations. What the owners do in their callbacks, and what the
other functions do to the interface meanwhile, comes from the outside.

`resetsMalformed_iff` says when a box that cannot be read resets the interface.
-/

namespace Bdt

open List

variable {P : Type}

/-! ## What the others do to the interface -/

/-- `Bdt_TcpInterfaceSetState`. -/
def TcpInterface.setState (oldState newState : TcpInterfaceState) (ti : TcpInterface) : TcpInterface :=
  if ti.state = oldState then { ti with state := newState } else ti

/-- The calls in which the other functions change a tcp interface. -/
inductive InterfaceMove where
  /-- `Bdt_TcpInterfaceConnect`. -/
  | connect
  /-- `BDT_TCP_SOCKET_EVENT_ESTABLISH`. -/
  | establish
  /-- The `onEstablish` of tunnels, of connections and of their builders. -/
  | waitFirstResp
  /-- The `onEstablish` of a call to a super node. -/
  | callEstablish
  /-- A tunnel answers the first package of an accepted interface. -/
  | acceptFirst
  /-- A tunnel gets the answer to its first package. -/
  | firstResp
  /-- `Bdt_ConnectionEstablishWithStream`, with the state that it has read before. -/
  | establishStream (interfaceState : TcpInterfaceState)
  | setAesKey (aesKey : List UInt8)
  | close
  | reset
  deriving DecidableEq, Repr

/-- `Bdt_TcpInterfaceReset`. -/
def TcpInterface.reset (ti : TcpInterface) : TcpInterface :=
  { ti with state := .closed }

/-- `Bdt_TcpInterfaceClose`. -/
def TcpInterface.close (ti : TcpInterface) : TcpInterface :=
  if ti.state = .stream then { ti with state := .streamClosing } else { ti with state := .closed }

def TcpInterface.move (ti : TcpInterface) : InterfaceMove → TcpInterface
  | .connect => ti.setState .none .connecting
  | .establish => ti.setState .connecting .establish
  | .waitFirstResp => ti.setState .establish .waitFirstResp
  | .callEstablish => ti.setState .establish .package
  | .acceptFirst => ti.setState .waitFirstPackage .waitFirstResp
  | .firstResp => ti.setState .waitFirstResp .package
  | .establishStream interfaceState => ti.setState interfaceState .stream
  | .setAesKey aesKey => { ti with aesKey, isCrypto := true }
  | .close => ti.close
  | .reset => ti.reset

/-- How a callback of the owner goes, with what the others do before it and what is done in it. -/
structure OwnerReply where
  meanwhile : List InterfaceMove := []
  /-- There is an owner, and it has the callback. -/
  taken : Bool := true
  /-- The result is `BFX_RESULT_SUCCESS`. -/
  success : Bool := true
  moves : List InterfaceMove := []

/-! ## A push -/

/-- A box that was decrypted and decoded, or should have been, in one of the states in which the
interface reads packages. -/
structure HandledBox (P : Type) where
  env : TcpEnv P
  isStartWithExchangeKey : Bool
  box : List UInt8
  /-- The packages that were passed to the owner. -/
  passed : List P
  /-- `Bdt_TcpInterfaceReset` was called. -/
  reset : Bool

/-- The interface and the boxes that it handled. -/
structure PushRun (P : Type) where
  tcpInterface : TcpInterface
  handled : List (HandledBox P) := []
  /-- The number of callbacks. -/
  calls : Nat := 0
  /-- An assertion failed, or there is no package at the address. -/
  aborted : Bool := false

/-- What the functions have around them. -/
structure PushWorld (P : Type) where
  codec : PackageCodec P
  aes : Aes
  keys : StackKeys
  /-- The reply to every callback. -/
  replies : Nat → OwnerReply

namespace PushWorld

variable (world : PushWorld P)

/-- The key of the interface at this moment. -/
def env (ti : TcpInterface) : TcpEnv P where
  codec := world.codec
  aes := world.aes
  isCrypto := ti.isCrypto
  aesKey := ti.aesKey

/-- `TcpInterfaceOnData`. -/
def onData (run : PushRun P) : PushRun P :=
  let reply := world.replies run.calls
  { run with
    tcpInterface := (reply.meanwhile ++ reply.moves).foldl TcpInterface.move run.tcpInterface
    calls := run.calls + 1 }

/-- A box that cannot be decrypted. -/
def rejectBox (run : PushRun P) (isStartWithExchangeKey : Bool) (box : List UInt8) : PushRun P :=
  { run with
    tcpInterface := run.tcpInterface.reset
    handled := run.handled ++
      [{ env := world.env run.tcpInterface, isStartWithExchangeKey, box, passed := [], reset := true }] }

/-- A box that was decoded, or not: `r < 0` does not hold of the error of the decoder, which is
positive. -/
def keepBox (run : PushRun P) (isStartWithExchangeKey : Bool) (box : List UInt8) (passed : List P)
    (ti : TcpInterface) : PushRun P :=
  { run with
    tcpInterface := ti
    handled := run.handled ++
      [{ env := world.env run.tcpInterface, isStartWithExchangeKey, box, passed, reset := false }]
    calls := run.calls + 1 }

/-- The loop over the boxes in `BDT_TCP_INTERFACE_STATE_STREAM`, and whether it comes to its end. -/
def onStreamBoxes : List (List UInt8) → PushRun P → Bool × PushRun P
  | [], run => (true, run)
  | box :: boxes, run =>
    match (world.env run.tcpInterface).open box with
    | none => (false, { run with tcpInterface := run.tcpInterface.reset })
    | some _ => onStreamBoxes boxes (world.onData run)

/-- The loop over the boxes in `BDT_TCP_INTERFACE_STATE_PACKAGE`, and whether it comes to its end.
All boxes are decoded to one array. -/
def onBoxes : List (List UInt8) → List (Slot P) → PushRun P → Bool × PushRun P
  | [], _, run => (true, run)
  | box :: boxes, slots, run =>
    match (world.env run.tcpInterface).open box with
    | none => (false, world.rejectBox run false box)
    | some plain =>
      match decodePackage world.codec plain none slots false with
      | none => (false, { run with aborted := true })
      | some output =>
        let reply := world.replies run.calls
        let ti := reply.meanwhile.foldl TcpInterface.move run.tcpInterface
        if ti.state = .package then
          let packages := walk BDT_PROTOCOL_MIN_PACKAGE_LENGTH output.results
          onBoxes boxes output.results
            (world.keepBox run false box (if reply.taken then packages else [])
              (reply.moves.foldl TcpInterface.move ti))
        else onBoxes boxes output.results (world.keepBox run false box [] ti)

/-- `TcpInterfaceOnFirstPackages` and `TcpInterfaceOnFirstResp`, with the package that the array
has. -/
def onFirst (run : PushRun P) (isStartWithExchangeKey : Bool) (box : List UInt8)
    (first : Option P) (ti : TcpInterface) : Bool × PushRun P :=
  match first with
  -- a failing assertion, or there is not even a first entry
  | none => (false, { world.keepBox run isStartWithExchangeKey box [] ti with aborted := true })
  | some package =>
    let reply := world.replies run.calls
    (reply.success, world.keepBox run isStartWithExchangeKey box
      (if reply.taken then [package] else []) (reply.moves.foldl TcpInterface.move ti))

/-- The only box in `BDT_TCP_INTERFACE_STATE_WAIT_FIRST_PACKAGE` or
`BDT_TCP_INTERFACE_STATE_WAIT_FIRST_RESP`, and whether the rest of the chunk is read. -/
def onFirstBoxes (isStartWithExchangeKey : Bool) (boxes : List (List UInt8)) (run : PushRun P) :
    Bool × PushRun P :=
  match boxes with
  | [box] =>
    match (world.env run.tcpInterface).open box with
    | none => (false, world.rejectBox run isStartWithExchangeKey box)
    | some plain =>
      match decodePackage world.codec plain none (nullSlots P) isStartWithExchangeKey with
      | none => (false, { run with aborted := true })
      | some output =>
        let reply := world.replies run.calls
        let ti := reply.meanwhile.foldl TcpInterface.move run.tcpInterface
        match ti.state with
        | .waitFirstPackage =>
          world.onFirst run isStartWithExchangeKey box (firstPackage world.codec output.results) ti
        | .waitFirstResp =>
          world.onFirst run isStartWithExchangeKey box (firstResp output.results) ti
        -- `r` is still the result of the decoder
        | _ => (output.success, world.keepBox run isStartWithExchangeKey box [] ti)
  | _ => (false, { run with aborted := true })

/-- What is done with the boxes of a chunk, and whether the rest of it is read. -/
def dispatch (isStartWithExchangeKey : Bool) (boxes : List (List UInt8)) (run : PushRun P) :
    Bool × PushRun P :=
  match run.tcpInterface.state with
  | .stream => world.onStreamBoxes boxes run
  | .package => world.onBoxes boxes (nullSlots P) run
  | .waitFirstPackage | .waitFirstResp => world.onFirstBoxes isStartWithExchangeKey boxes run
  | _ => (false, { run with aborted := true })

/-- `BdtPushTcpSocketData`, of no bytes. -/
def pushZero (run : PushRun P) : PushRun P :=
  match run.tcpInterface.state with
  | .stream =>
    world.onData { run with tcpInterface := { run.tcpInterface with state := .streamRecvClosed } }
  | .streamClosing =>
    { run with tcpInterface := { run.tcpInterface with state := .closed } }
  | _ => run

/-- `BdtPushTcpSocketData`, of at most `fuel` activations. -/
def pushTcpSocketData : Nat → List UInt8 → PushRun P → PushRun P
  | 0, _, run => run
  | fuel + 1, data, run =>
    if 64 * 1024 < data.length then { run with aborted := true }
    else if run.tcpInterface.state = .stream ∧ run.tcpInterface.isCrypto = false then world.onData run
    else if data = [] then world.pushZero run
    else
      match run.tcpInterface.unboxParserPushData world.keys {} data TCP_MAX_BOX_LEN with
      | none => { run with aborted := true }
      | some output =>
        let run := { run with tcpInterface := output.tcpInterface }
        if output.result ≠ .success then { run with tcpInterface := run.tcpInterface.reset }
        else if output.boxes = [] then run
        else
          match world.dispatch output.firstParams.isStartWithExchangeKey output.boxes run with
          | (true, run) =>
            if output.used < data.length then
              pushTcpSocketData fuel (data.drop output.used) run
            else run
          | (false, run) => run

end PushWorld

/-- What happens to an interface. -/
inductive InterfaceEvent where
  | move (move : InterfaceMove)
  | push (fuel : Nat) (data : List UInt8)

namespace PushRun

/-- One event; after an abort nothing happens any more. -/
def handle (world : PushWorld P) (run : PushRun P) (event : InterfaceEvent) : PushRun P :=
  if run.aborted then run
  else
    match event with
    | .move move => { run with tcpInterface := run.tcpInterface.move move }
    | .push fuel data => world.pushTcpSocketData fuel data run

/-- The events of an interface, from its creation on. -/
def exec (world : PushWorld P) (ti : TcpInterface) (events : List InterfaceEvent) : PushRun P :=
  events.foldl (handle world) { tcpInterface := ti }

end PushRun

/-! ## The property -/

namespace HandledBox

/-- `Bdt_DecodePackage` returns an error for what is in the box. -/
def DecodeFails (entry : HandledBox P) : Prop :=
  ∃ plain output, entry.env.open entry.box = some plain ∧
    decodePackage entry.env.codec plain none (nullSlots P) entry.isStartWithExchangeKey =
      some output ∧
    output.success = false

/-- A box whose decryption or decoding fails. -/
def Malformed (entry : HandledBox P) : Prop :=
  entry.env.open entry.box = none ∨ entry.DecodeFails

end HandledBox

/-- The first malformed box resets the interface, and neither its packages nor those of a later box
are passed on. -/
def PushRun.ResetsMalformed (run : PushRun P) : Prop :=
  ∀ front entry back, run.handled = front ++ entry :: back → entry.Malformed →
    (∀ before ∈ front, ¬ before.Malformed) →
    entry.reset = true ∧ ∀ later ∈ entry :: back, later.passed = []

/-! ## The states of an interface that was reset -/

/-- No state in which packages are read. -/
def TcpInterfaceState.Ended (state : TcpInterfaceState) : Prop :=
  state = .closed ∨ state = .stream ∨ state = .streamRecvClosed ∨ state = .streamClosing

/-- Only a connection that is established with a stream takes up an interface that was reset. -/
theorem TcpInterface.move_ended {ti : TcpInterface} (h : ti.state.Ended) (move : InterfaceMove) :
    (ti.move move).state.Ended := by
  have hset {oldState newState : TcpInterfaceState}
      (hstate : ¬ oldState.Ended ∨ newState.Ended) : (ti.setState oldState newState).state.Ended := by
    unfold TcpInterface.setState
    split
    case isTrue heq => exact hstate.resolve_left fun hold => hold (heq ▸ h)
    case isFalse => exact h
  have hnot {state : TcpInterfaceState} (h₁ : state ≠ .closed) (h₂ : state ≠ .stream)
      (h₃ : state ≠ .streamRecvClosed) (h₄ : state ≠ .streamClosing) : ¬ state.Ended := by
    simp [TcpInterfaceState.Ended, h₁, h₂, h₃, h₄]
  cases move with
  | connect | establish | waitFirstResp | callEstablish | acceptFirst | firstResp =>
    exact hset (.inl (hnot nofun nofun nofun nofun))
  | establishStream => exact hset (.inr (.inr (.inl rfl)))
  | setAesKey => exact h
  | close =>
    show ti.close.state.Ended
    unfold TcpInterface.close
    split
    · exact .inr (.inr (.inr rfl))
    · exact .inl rfl
  | reset => exact .inl rfl

theorem TcpInterface.moves_ended {ti : TcpInterface} (h : ti.state.Ended)
    (moves : List InterfaceMove) : (moves.foldl TcpInterface.move ti).state.Ended := by
  induction moves generalizing ti with
  | nil => exact h
  | cons move _ ih => exact ih (ti.move_ended h move)

/-! ## The parser keeps the state -/

/-- What an activation of the parser leaves. -/
def UnboxActivation.output : UnboxActivation → UnboxOutput
  | .leave output => output
  | .again output _ => output

namespace TcpInterface

variable {ti ti' : TcpInterface} {firstParams : TcpInterfaceFirstParams} {keys : StackKeys}
  {data pData : List UInt8} {cached : Bool} {readed slots n : Nat} {activation : UnboxActivation}

theorem appendCache_state (h : ti.appendCache data = some ti') : ti'.state = ti.state := by
  unfold appendCache at h
  split at h
  · cases h
    rfl
  · cases h

theorem tryFillCache_state (h : ti.tryFillCache n data = some (ti', slots)) :
    ti'.state = ti.state := by
  unfold tryFillCache at h
  split at h
  · split at h
    · cases h
    · obtain ⟨filled, hfilled, heq⟩ := Option.map_eq_some_iff.mp h
      cases heq
      exact appendCache_state hfilled
  · obtain ⟨filled, hfilled, heq⟩ := Option.map_eq_some_iff.mp h
    cases heq
    exact appendCache_state hfilled

theorem guessPlain_state :
    (ti.guessPlain firstParams pData cached readed).output.tcpInterface.state = ti.state := by
  unfold guessPlain
  split
  · split <;> rfl
  · split <;> rfl

theorem guessMixHash_state
    (h : ti.guessMixHash keys firstParams data pData cached readed = some activation) :
    activation.output.tcpInterface.state = ti.state := by
  unfold guessMixHash at h
  split at h
  · cases h
  split at h
  · cases h
    cases cached <;> rfl
  · cases cached <;> cases h <;> rfl

theorem guessExchange_state
    (h : ti.guessExchange keys firstParams pData cached readed = some activation) :
    activation.output.tcpInterface.state = ti.state := by
  simp only [guessExchange] at h
  split at h
  · cases h
  split at h
  · cases h
    rfl
  split at h
  · cases h
  split at h
  · cases cached <;> cases h <;> rfl
  · cases h
    rfl

theorem guess_state (h : ti.guess keys firstParams data pData cached readed = some activation) :
    activation.output.tcpInterface.state = ti.state := by
  unfold guess at h
  split at h
  · cases h
    exact guessPlain_state
  split at h
  · exact guessMixHash_state h
  split at h
  · exact guessExchange_state h
  · cases h
    rfl

/-- What is kept in the cache until more bytes come. -/
theorem leave_appendCache_state {used : Nat}
    (h : (ti.appendCache data).map (fun ti =>
      UnboxActivation.leave { tcpInterface := ti, firstParams, used }) = some activation) :
    activation.output.tcpInterface.state = ti.state := by
  obtain ⟨filled, hfilled, heq⟩ := Option.map_eq_some_iff.mp h
  cases heq
  exact appendCache_state hfilled

theorem firstReadingLength_state (h : ti.firstReadingLength keys firstParams data = some activation) :
    activation.output.tcpInterface.state = ti.state := by
  unfold firstReadingLength at h
  split at h
  · split at h
    · cases h
    next filled readed hfilled =>
    have hkeep := tryFillCache_state hfilled
    split at h
    · exact (guess_state h).trans hkeep
    · cases h
      exact hkeep
  · split at h
    · exact leave_appendCache_state h
    · exact guess_state h

theorem firstReadingBody_state (h : ti.firstReadingBody firstParams data = some activation) :
    activation.output.tcpInterface.state = ti.state := by
  unfold firstReadingBody at h
  split at h
  · split at h
    · cases h
    · next filled copysize hfilled =>
      have hkeep := tryFillCache_state hfilled
      split at h <;> cases h <;> exact hkeep
  split at h
  · cases h
    rfl
  · exact leave_appendCache_state h

theorem readingLength_state (h : ti.readingLength firstParams data = some activation) :
    activation.output.tcpInterface.state = ti.state := by
  unfold readingLength at h
  split at h
  · split at h
    · cases h
    · cases h
      rfl
  split at h
  · cases h
    rfl
  · exact leave_appendCache_state h

theorem nextBox_state (slots : Nat) (output : UnboxOutput) :
    (nextBox slots output).output.tcpInterface.state = output.tcpInterface.state := by
  unfold nextBox
  split
  · rfl
  · split <;> rfl

theorem readingBody_state (h : ti.readingBody firstParams data slots = some activation) :
    activation.output.tcpInterface.state = ti.state := by
  unfold readingBody at h
  split at h
  · split at h
    · cases h
    next filled copysize hfilled =>
    have hkeep := tryFillCache_state hfilled
    split at h
    · cases h
      exact (nextBox_state _ _).trans hkeep
    · cases h
      exact hkeep
  split at h
  · cases h
    exact nextBox_state _ _
  · exact leave_appendCache_state h

theorem activation_state (h : ti.activation keys firstParams data slots = some activation) :
    activation.output.tcpInterface.state = ti.state := by
  unfold TcpInterface.activation at h
  split at h
  · exact firstReadingLength_state h
  · exact firstReadingBody_state h
  iterate 3 exact readingLength_state h
  iterate 3 exact readingBody_state h
  · cases h
    rfl

theorem runActivations_state (fuel : Nat) {output : UnboxOutput}
    (h : runActivations keys fuel ti firstParams data slots = some output) :
    output.tcpInterface.state = ti.state := by
  induction fuel generalizing ti firstParams data slots output with
  | zero => cases h
  | succ fuel ih =>
    unfold runActivations at h
    split at h
    · cases h
    split at h
    · cases h
      rfl
    split at h
    · cases h
    · next left hleft =>
      cases h
      exact activation_state hleft
    next next skip hnext =>
    split at h
    · cases h
    · obtain ⟨rest, hrest, heq⟩ := Option.map_eq_some_iff.mp h
      cases heq
      exact (ih hrest).trans (activation_state hnext)

theorem unboxParserPushData_state {output : UnboxOutput}
    (h : ti.unboxParserPushData keys firstParams data slots = some output) :
    output.tcpInterface.state = ti.state :=
  runActivations_state _ h

end TcpInterface

/-! ## The boxes of a run -/

theorem first_of_mem {α : Type} {p : α → Prop} {l : List α} (h : ∃ a ∈ l, p a) :
    ∃ front a back, l = front ++ a :: back ∧ p a ∧ ∀ b ∈ front, ¬ p b := by
  classical
  obtain ⟨a, ha⟩ : ∃ a, l.find? (fun a => decide (p a)) = some a := by
    rw [← Option.isSome_iff_exists, List.find?_isSome]
    simpa using h
  obtain ⟨hpa, front, back, hl, hfront⟩ := List.find?_eq_some_iff_append.mp ha
  exact ⟨front, a, back, hl, by simpa using hpa, by simpa using hfront⟩

namespace PushRun

/-- What is true of the boxes that were handled: those that cannot be decrypted, and no others, have
reset the interface, and such a box is the last one. -/
structure Rejecting (run : PushRun P) : Prop where
  resets : ∀ entry ∈ run.handled, entry.reset = true ↔ entry.env.open entry.box = none
  silent : ∀ entry ∈ run.handled, entry.reset = true → entry.passed = []
  last : run.handled.Pairwise fun entry _ => entry.reset = false

/-- No box has reset the interface. -/
def Unreset (run : PushRun P) : Prop :=
  ∀ entry ∈ run.handled, entry.reset = false

/-- An interface that a box has reset reads no packages any more. -/
structure Settled (run : PushRun P) : Prop extends run.Rejecting where
  ended : ¬ run.Unreset → run.tcpInterface.state.Ended

theorem settled_start (ti : TcpInterface) : (PushRun.mk (P := P) ti [] 0 false).Settled where
  resets _ hentry := absurd hentry not_mem_nil
  silent _ hentry := absurd hentry not_mem_nil
  last := .nil
  ended hreset := absurd (fun _ hentry => absurd hentry not_mem_nil) hreset

variable {run : PushRun P}

theorem Rejecting.congr (h : run.Rejecting) {run' : PushRun P} (heq : run'.handled = run.handled) :
    run'.Rejecting := by
  obtain ⟨hresets, hsilent, hlast⟩ := h
  exact ⟨heq ▸ hresets, heq ▸ hsilent, heq ▸ hlast⟩

theorem Rejecting.settled (h : run.Rejecting) (hunreset : run.Unreset) : run.Settled where
  toRejecting := h
  ended hreset := absurd hunreset hreset

theorem Rejecting.concat (h : run.Rejecting) (hunreset : run.Unreset) {entry : HandledBox P}
    {run' : PushRun P} (hrun : run'.handled = run.handled ++ [entry])
    (hresets : entry.reset = true ↔ entry.env.open entry.box = none)
    (hsilent : entry.reset = true → entry.passed = []) : run'.Rejecting where
  resets := by
    intro other hother
    rw [hrun, mem_append, mem_singleton] at hother
    rcases hother with hother | rfl
    · exact h.resets other hother
    · exact hresets
  silent := by
    intro other hother
    rw [hrun, mem_append, mem_singleton] at hother
    rcases hother with hother | rfl
    · exact h.silent other hother
    · exact hsilent
  last := by
    rw [hrun, pairwise_append]
    refine ⟨h.last, pairwise_singleton _ _, ?_⟩
    intro other hother _ _
    exact hunreset other hother

/-- Nothing that happens to the state of an interface that was reset makes it read packages. -/
theorem Settled.moves (h : run.Settled) {run' : PushRun P} (heq : run'.handled = run.handled)
    (hended : run.tcpInterface.state.Ended → run'.tcpInterface.state.Ended) : run'.Settled where
  toRejecting := h.toRejecting.congr heq
  ended hreset := hended (h.ended fun hunreset => hreset fun entry hentry =>
    hunreset entry (heq ▸ hentry))

theorem Settled.unreset (h : run.Settled) (hstate : ¬ run.tcpInterface.state.Ended) : run.Unreset := by
  by_contra hreset
  exact hstate (h.ended hreset)

theorem Settled.abort (h : run.Settled) : Settled { run with aborted := true } :=
  h.moves rfl id

end PushRun

namespace PushWorld

open PushRun

variable (world : PushWorld P) {run : PushRun P}

theorem onData_settled (h : run.Settled) : (world.onData run).Settled :=
  h.moves rfl fun hended => TcpInterface.moves_ended hended _

theorem rejectBox_settled (h : run.Rejecting) (hunreset : run.Unreset) {start : Bool}
    {box : List UInt8} (hopen : (world.env run.tcpInterface).open box = none) :
    (world.rejectBox run start box).Settled where
  toRejecting := h.concat hunreset rfl (iff_of_true rfl hopen) fun _ => rfl
  ended _ := .inl rfl

theorem keepBox_rejecting (h : run.Rejecting) (hunreset : run.Unreset) (start : Bool)
    {box plain : List UInt8} (hopen : (world.env run.tcpInterface).open box = some plain)
    (passed : List P) (ti : TcpInterface) :
    (world.keepBox run start box passed ti).Rejecting ∧
      (world.keepBox run start box passed ti).Unreset := by
  refine ⟨h.concat hunreset rfl (iff_of_false Bool.false_ne_true ?_) nofun, ?_⟩
  · intro hnone
    cases hopen.symm.trans hnone
  intro entry hentry
  rcases mem_append.mp hentry with hentry | hentry
  · exact hunreset entry hentry
  · rw [mem_singleton.mp hentry]

theorem onStreamBoxes_settled (boxes : List (List UInt8)) (h : run.Settled) :
    (world.onStreamBoxes boxes run).2.Settled := by
  induction boxes generalizing run with
  | nil => exact h
  | cons _ _ ih =>
    unfold onStreamBoxes
    split
    · exact h.moves rfl fun _ => .inl rfl
    · exact ih (world.onData_settled h)

/-- The loop over the boxes: it ends at the first one that cannot be decrypted. -/
theorem onBoxes_settled (boxes : List (List UInt8)) (slots : List (Slot P)) (h : run.Rejecting)
    (hunreset : run.Unreset) : (world.onBoxes boxes slots run).2.Settled := by
  induction boxes generalizing run slots with
  | nil => exact h.settled hunreset
  | cons box boxes ih =>
    unfold onBoxes
    split
    · next hopen => exact world.rejectBox_settled h hunreset hopen
    next plain hopen =>
    split
    · exact (h.settled hunreset).abort
    next output _ =>
    dsimp only
    have hkeep (passed : List P) (ti : TcpInterface) :=
      world.keepBox_rejecting h hunreset false hopen passed ti
    split
    · exact ih _ (hkeep _ _).1 (hkeep _ _).2
    · exact ih _ (hkeep _ _).1 (hkeep _ _).2

theorem onFirst_settled (h : run.Rejecting) (hunreset : run.Unreset) {start : Bool}
    {box plain : List UInt8} (hopen : (world.env run.tcpInterface).open box = some plain)
    (first : Option P) (ti : TcpInterface) :
    (world.onFirst run start box first ti).2.Settled := by
  have hkeep (passed : List P) (ti : TcpInterface) :=
    world.keepBox_rejecting h hunreset start hopen passed ti
  unfold onFirst
  split
  · exact ((hkeep [] ti).1.settled (hkeep [] ti).2).abort
  · exact (hkeep _ _).1.settled (hkeep _ _).2

theorem onFirstBoxes_settled (start : Bool) (boxes : List (List UInt8)) (h : run.Rejecting)
    (hunreset : run.Unreset) : (world.onFirstBoxes start boxes run).2.Settled := by
  unfold onFirstBoxes
  split
  · split
    · next hopen => exact world.rejectBox_settled h hunreset hopen
    next plain hopen =>
    split
    · exact (h.settled hunreset).abort
    dsimp only
    split
    · exact world.onFirst_settled h hunreset hopen _ _
    · exact world.onFirst_settled h hunreset hopen _ _
    · have hkeep := world.keepBox_rejecting h hunreset start hopen
      exact (hkeep _ _).1.settled (hkeep _ _).2
  · exact (h.settled hunreset).abort

theorem dispatch_settled (start : Bool) (boxes : List (List UInt8)) (h : run.Settled) :
    (world.dispatch start boxes run).2.Settled := by
  have hreads {state : TcpInterfaceState} (hstate : run.tcpInterface.state = state)
      (hnot : ¬ state.Ended) : run.Unreset :=
    h.unreset (hstate ▸ hnot)
  unfold dispatch
  split
  · exact world.onStreamBoxes_settled boxes h
  · next hstate =>
    exact world.onBoxes_settled boxes _ h.toRejecting (hreads hstate (by simp [TcpInterfaceState.Ended]))
  · next hstate =>
    exact world.onFirstBoxes_settled start boxes h.toRejecting
      (hreads hstate (by simp [TcpInterfaceState.Ended]))
  · next hstate =>
    exact world.onFirstBoxes_settled start boxes h.toRejecting
      (hreads hstate (by simp [TcpInterfaceState.Ended]))
  · exact h.abort

theorem pushZero_settled (h : run.Settled) : (world.pushZero run).Settled := by
  unfold pushZero
  split
  · exact world.onData_settled (h.moves rfl fun _ => .inr (.inr (.inl rfl)))
  · exact h.moves rfl fun _ => .inl rfl
  · exact h

theorem pushTcpSocketData_settled (fuel : Nat) (data : List UInt8) (h : run.Settled) :
    (world.pushTcpSocketData fuel data run).Settled := by
  induction fuel generalizing data run with
  | zero => exact h
  | succ fuel ih =>
    unfold pushTcpSocketData
    split
    · exact h.abort
    split
    · exact world.onData_settled h
    split
    · exact world.pushZero_settled h
    split
    · exact h.abort
    next output hparse =>
    have hparsed : PushRun.Settled { run with tcpInterface := output.tcpInterface } := by
      refine h.moves rfl fun hended => ?_
      show output.tcpInterface.state.Ended
      rw [TcpInterface.unboxParserPushData_state hparse]
      exact hended
    dsimp only
    split
    · exact h.moves rfl fun _ => .inl rfl
    split
    · exact hparsed
    have hdispatch := world.dispatch_settled output.firstParams.isStartWithExchangeKey
      output.boxes hparsed
    split
    · next rest hrest =>
      rw [hrest] at hdispatch
      split
      · exact ih _ hdispatch
      · exact hdispatch
    · next rest hrest =>
      rw [hrest] at hdispatch
      exact hdispatch

end PushWorld

namespace PushRun

variable (world : PushWorld P) {run : PushRun P}

theorem handle_settled (h : run.Settled) (event : InterfaceEvent) :
    (run.handle world event).Settled := by
  unfold handle
  split
  · exact h
  · cases event with
    | move move => exact h.moves rfl fun hended => TcpInterface.move_ended hended move
    | push fuel data => exact world.pushTcpSocketData_settled fuel data h

theorem exec_settled (ti : TcpInterface) (events : List InterfaceEvent) :
    (exec world ti events).Settled := by
  induction events using List.reverseRecOn with
  | nil => exact settled_start ti
  | append_singleton _ event ih =>
    rw [exec, foldl_append]
    exact handle_settled world ih event

/-- The first malformed box of a run resets the interface, and no package of it or of what comes
behind it is passed on, exactly when every box that can be decrypted decodes without an error. -/
theorem resetsMalformed_iff (ti : TcpInterface) (events : List InterfaceEvent) :
    (exec world ti events).ResetsMalformed ↔
      ∀ entry ∈ (exec world ti events).handled, ¬ entry.DecodeFails := by
  obtain ⟨⟨hresets, hsilent, hlast⟩, -⟩ := exec_settled world ti events
  constructor
  · intro h entry hentry hfails
    obtain ⟨front, first, back, hsplit, hmalformed, hfirst⟩ :=
      first_of_mem (p := HandledBox.Malformed) ⟨entry, hentry, .inr hfails⟩
    obtain ⟨hreset, -⟩ := h front first back hsplit hmalformed hfirst
    -- the box that resets is the last one, and it cannot be decrypted
    rw [hsplit, pairwise_append, pairwise_cons] at hlast
    rw [hsplit, mem_append, mem_cons] at hentry
    rcases hentry with hbefore | rfl | hbehind
    · exact hfirst entry hbefore (.inr hfails)
    · obtain ⟨plain, output, hopen, -⟩ := hfails
      cases hopen.symm.trans ((hresets entry (hsplit ▸ by simp)).mp hreset)
    · cases hreset.symm.trans (hlast.2.1.1 entry hbehind)
  intro h front entry back hsplit hmalformed _
  have hmem : entry ∈ (exec world ti events).handled := hsplit ▸ by simp
  have hreset : entry.reset = true :=
    (hresets entry hmem).mpr (hmalformed.resolve_right (h entry hmem))
  refine ⟨hreset, fun later hlater => ?_⟩
  rcases mem_cons.mp hlater with rfl | hlater
  · exact hsilent later hmem hreset
  · rw [hsplit, pairwise_append, pairwise_cons] at hlast
    cases hreset.symm.trans (hlast.2.1.1 later hlater)

end PushRun

/-- What the functions of an interface that gets pings without fields have around them. -/
def pingWorld : PushWorld UInt8 where
  codec := pingCodec
  aes := pingEnv.aes
  keys := pingEnv.keys
  replies _ := {}

/-- A ping and a package that nobody knows in a box: the decoder returns an error, and the interface
passes the ping on and is not reset. -/
theorem PushRun.unknown_package_passes :
    ¬ (PushRun.exec pingWorld { state := .package }
      [.push 1 [10, 0, 5, 0, 4, 0, 0, 5, 0, 9, 0, 0]]).ResetsMalformed := by
  intro h
  let run := PushRun.exec pingWorld { state := .package }
    [.push 1 [10, 0, 5, 0, 4, 0, 0, 5, 0, 9, 0, 0]]
  have hhandled : run.handled =
      [{ env := pingWorld.env { state := .package }, isStartWithExchangeKey := false
         box := [5, 0, 4, 0, 0, 5, 0, 9, 0, 0], passed := [4], reset := false }] := rfl
  have hdecode : decodePackage pingCodec [5, 0, 4, 0, 0, 5, 0, 9, 0, 0] none (nullSlots UInt8) false =
      some { results := place [4] (nullSlots UInt8), count := 1, success := false } := by
    decide +kernel
  obtain ⟨hreset, -⟩ := h [] _ [] hhandled (.inr ⟨_, _, rfl, hdecode, rfl⟩) nofun
  cases hreset

end Bdt
