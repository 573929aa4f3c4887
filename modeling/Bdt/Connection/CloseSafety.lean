import Bdt.Connection.Link

/-!
# What a closed connection has received

A connection that `FIN` and `FINACK` have closed should have received the whole stream of its peer.
A `FIN` moves the close sub-state on even when data before it is missing, and a `FINACK` closes the
connection without the test that `PackageConnectionFillPackage` makes before it answers a `FIN`.
`Link.closed_received`: when that test holds at every closing step, everything up to the peer's
`selfCloseStreamPos` was received. `Link.closes_behind_fin` is a run in which it was not.
-/

namespace Bdt

open Base Relation List

/-! ## One side -/

namespace PackageConnection

variable {env : PackageEnv} {limits : Limits} {c d peer : PackageConnection}

/-- A package that carries a `FIN` and ends at this position. -/
def FinAt (package : Bdt_SessionDataPackage) (pos : Nat) : Prop :=
  package.hasFlag SessionDataFlag.FIN = true ∧ package.streamPos + package.payloadLength = pos

/-- What a connection knows of the two `FIN`s: the position noted for the peer's is that of a `FIN`
received, and its own are sent after the close, behind the noted end of its stream. -/
structure FinExchange (c : PackageConnection) : Prop where
  remote : c.remoteCloseStreamPos = 0 ∨
    ∃ package, .receive package ∈ c.history ∧ FinAt package c.remoteCloseStreamPos
  sent : ∀ package pos, .send package ∈ c.history → FinAt package pos →
    c.state ≠ .establish ∧ c.selfCloseStreamPos ≤ pos

theorem finExchange_create (env : PackageEnv) : (create env).FinExchange where
  remote := .inl rfl
  sent := by simp [create]

namespace FinExchange

/-- A step that adds no package sent, and changes neither noted position. -/
theorem frame (h : c.FinExchange) (hhist : c.history <+: d.history)
    (hsend : ∀ package, .send package ∈ d.history → .send package ∈ c.history)
    (hremote : d.remoteCloseStreamPos = c.remoteCloseStreamPos)
    (hself : d.selfCloseStreamPos = c.selfCloseStreamPos)
    (hstate : d.state = .establish → c.state = .establish) : d.FinExchange where
  remote := by
    rw [hremote]
    refine h.remote.imp_right ?_
    rintro ⟨package, hmem, hfin⟩
    exact ⟨package, hhist.subset hmem, hfin⟩
  sent := by
    intro package pos hmem hfin
    obtain ⟨hopen, hle⟩ := h.sent package pos (hsend package hmem) hfin
    exact ⟨fun he => hopen (hstate he), hself ▸ hle⟩

theorem maybeCloseFinish (h : c.FinExchange) : c.maybeCloseFinish.FinExchange := by
  have hhist := c.maybeCloseFinish_history
  unfold PackageConnection.maybeCloseFinish at hhist ⊢
  split
  case isTrue hfinish =>
    rw [if_pos hfinish] at hhist
    refine h.frame hhist (fun package hmem => ?_) rfl rfl nofun
    simpa using hmem
  case isFalse => exact h

/-- A `FIN` is sent only when the connection is closing and the package reaches the noted end. -/
theorem transmit (h : c.FinExchange) {fill : Fill} {queue : SendQueue}
    {package : Bdt_SessionDataPackage} (hout : Outgoing c fill package) :
    FinExchange { c with sendQueue := queue, history := c.history ++ [Record.send package] } where
  remote := by
    refine h.remote.imp_right ?_
    rintro ⟨received, hmem, hfin⟩
    exact ⟨received, mem_append_left _ hmem, hfin⟩
  sent := by
    intro other pos hmem hfin
    rcases mem_concat.mp hmem with hmem | hmem
    · exact h.sent other pos hmem hfin
    obtain rfl := Record.send.inj hmem
    have hwants : c.wantsFin fill.endPos = true := hout.fin.symm.trans hfin.1
    have hend : fill.endPos = pos := by
      rw [← hfin.2, Fill.endPos, hout.streamPos, Bdt_SessionDataPackage.payloadLength,
        Bdt_SessionDataPackage.payloadBytes, hout.payload]
    obtain ⟨hclosing, hle, _⟩ := of_decide_eq_true hwants
    exact ⟨fun hwait => (by cases hclosing.symm.trans hwait), hend ▸ hle⟩

theorem effect (h : c.FinExchange) (he : Effect env limits c d) : d.FinExchange := by
  have hhist := Effect.history he
  cases he with
  | note | subState | fill | confirm | timeout =>
    exact h.frame hhist (fun _ => id) rfl rfl id
  | transmit _ _ _ _ _ _ hout => exact h.transmit hout
  | accept | receive => exact h.frame hhist (by simp) rfl rfl id
  | beginClose hstate =>
    refine ⟨h.remote, fun package pos hmem hfin => ?_⟩
    -- nothing was closed before
    exact absurd hstate (h.sent package pos hmem hfin).1
  | reset hstate =>
    unfold PackageConnection.reset
    rw [if_pos hstate]
    exact maybeCloseFinish (h.frame (prefix_append _ _) (by simp) rfl rfl nofun)
  | closed => exact maybeCloseFinish (h.frame (prefix_refl _) (fun _ => id) rfl rfl id)
  | complete => exact h.frame hhist (by simp [notifySendCompleteBuffers]) rfl rfl id
  | write package hrec =>
    have hwritten : ∀ {e : PackageConnection} (queue : RecvQueue), e.FinExchange →
        FinExchange { e with recvQueue := queue } :=
      fun queue he => he.frame (prefix_refl _) (fun _ => id) rfl rfl id
    unfold writePackage
    by_cases hfin : package.hasFlag SessionDataFlag.FIN = true
    · have hnoted : FinExchange { c with
          remoteCloseStreamPos := package.streamPos + package.payloadLength } :=
        ⟨.inr ⟨package, hrec, hfin, rfl⟩, h.sent⟩
      simp only [hfin, if_true]
      split
      · exact hwritten _ hnoted
      · exact hnoted
    simp only [hfin]
    split
    · exact hwritten _ h
    · exact h
  | deliver =>
    unfold PackageConnection.deliver notifyRecvReadyBuffers at hhist ⊢
    simp only at hhist ⊢
    split
    · exact h.frame (prefix_refl _) (fun _ => id) rfl rfl id
    · split
      · exact h.frame (prefix_refl _) (fun _ => id) rfl rfl id
      · exact h.frame (prefix_append _ _) (by simp [recvRecord]) rfl rfl id
  | addRecv =>
    unfold PackageConnection.recv
    split
    · exact h
    · exact h.frame (prefix_refl _) (fun _ => id) rfl rfl id

end FinExchange

theorem Reachable.finExchange (h : Reachable env c) : c.FinExchange :=
  Reach.invariant (fun _ hs => hs ▸ finExchange_create env)
    (fun _ _ _ _ hs ht => reflTransGen_preserves (fun e => e.FinExchange)
      (fun _ _ hi he => hi.effect he) (Step.effects ht) hs) h

theorem Receiving.ack_le (h : c.Receiving) (he : Effect env limits c d) :
    c.recvQueue.recvBlock.ackStreamPos ≤ d.recvQueue.recvBlock.ackStreamPos := by
  have hfinish : ∀ e : PackageConnection,
      e.maybeCloseFinish.recvQueue.recvBlock = e.recvQueue.recvBlock := by
    intro e
    unfold PackageConnection.maybeCloseFinish
    split <;> rfl
  cases he with
  | note | subState | fill | confirm | timeout | transmit | accept | beginClose | receive | complete =>
    exact Nat.le_refl _
  | reset hstate =>
    unfold PackageConnection.reset
    rw [if_pos hstate, hfinish]
  | closed => rw [hfinish]
  | write package =>
    have hwrite : c.recvQueue.recvBlock.ackStreamPos ≤
        (c.recvQueue.writeData package.streamPos package.payloadBytes).2.recvBlock.ackStreamPos := by
      by_cases hclose : c.state = .close
      · rw [(RecvQueue.writeData_empty (h.empty hclose) h.read_le package.streamPos
          package.payloadBytes).1]
      · exact (h.queue hclose).writeData_ack_le _ _
    unfold writePackage
    simp only
    split <;> split
    · exact hwrite
    · exact hwrite
    · exact Nat.le_refl _
    · exact Nat.le_refl _
  | deliver =>
    unfold PackageConnection.deliver notifyRecvReadyBuffers
    simp only
    split
    · exact Nat.le_refl _
    · split <;> exact Nat.le_refl _
  | addRecv address data userData =>
    unfold PackageConnection.recv
    split
    · exact Nat.le_refl _
    cases hadd : c.recvQueue.addBuffer address data userData with
    | none => exact Nat.le_refl _
    | some =>
      have hblock := (RecvQueue.addBuffer_fields hadd).1
      exact Nat.le_of_eq (congrArg RecvBlocks.ackStreamPos hblock.symm)

theorem Receiving.effects_ack_le (h : c.Receiving) (he : ReflTransGen (Effect env limits) c d) :
    c.recvQueue.recvBlock.ackStreamPos ≤ d.recvQueue.recvBlock.ackStreamPos :=
  (reflTransGen_preserves
    (fun e => e.Receiving ∧ c.recvQueue.recvBlock.ackStreamPos ≤ e.recvQueue.recvBlock.ackStreamPos)
    (fun _ _ hs ht => ⟨hs.1.effect ht, Nat.le_trans hs.2 (hs.1.ack_le ht)⟩) he
    ⟨h, Nat.le_refl _⟩).2

/-- Closed by `FIN` and `FINACK`, and not by a reset. -/
def ClosedGracefully (c : PackageConnection) : Prop :=
  c.closeSubState = .closed ∧ .reset ∉ c.history

/-- A connection closed gracefully has received everything before some `FIN` that it received. -/
def ReceivedAll (c : PackageConnection) : Prop :=
  c.ClosedGracefully → ∃ package pos, .receive package ∈ c.history ∧ FinAt package pos ∧
    pos ≤ c.recvQueue.recvBlock.ackStreamPos

/-- An event that takes the close sub-state to `CLOSED` finds that a `FINACK` is due. -/
def ClosesBehindFin (c d : PackageConnection) (event : ConnectionEvent) : Prop :=
  c.closeSubState ≠ .closed → d.closeSubState = .closed → event ≠ .reset → c.wantsFinAck = true

/-- A reset that closes the connection is on record. -/
theorem reset_recorded (hopen : c.closeSubState ≠ .closed) (hclosed : c.reset.closeSubState = .closed) :
    .reset ∈ c.reset.history := by
  unfold PackageConnection.reset at hclosed ⊢
  split
  case isTrue => exact (maybeCloseFinish_history _).subset (by simp)
  case isFalse hstate =>
    rw [if_neg hstate] at hclosed
    exact absurd hclosed hopen

theorem ReceivedAll.step (h : c.ReceivedAll) (hreach : Reachable env c) {event : ConnectionEvent}
    (hstep : Step env c event d) (hbehind : ClosesBehindFin c d event) : d.ReceivedAll := by
  rintro ⟨hclosed, hreset⟩
  have heffects := hstep.effects
  have hhist := effects_history heffects
  have hack := hreach.receiving.effects_ack_le heffects
  by_cases hbefore : c.closeSubState = .closed
  · obtain ⟨package, pos, hmem, hfin, hle⟩ := h ⟨hbefore, fun hmem => hreset (hhist.subset hmem)⟩
    exact ⟨package, pos, hhist.subset hmem, hfin, Nat.le_trans hle hack⟩
  have hevent : event ≠ .reset := by
    rintro rfl
    obtain ⟨fuel, now, hstep⟩ := hstep
    cases hstep
    exact hreset (reset_recorded hbefore hclosed)
  have hdue : c.remoteCloseStreamPos = c.recvQueue.recvBlock.ackStreamPos :=
    of_decide_eq_true (hbehind hbefore hclosed hevent)
  have hcount := hreach.receiving.count
  have hread := hreach.receiving.read_le
  rcases hreach.finExchange.remote with hzero | ⟨package, hmem, hfin⟩
  · -- the first position of a stream is not zero
    unfold PACKAGE_CONNECTION_INIT_STREAM_POS at hcount
    omega
  · exact ⟨package, _, hhist.subset hmem, hfin, by rw [hdue]; exact hack⟩

end PackageConnection

/-! ## Both sides -/

namespace Link

variable {env : Side → PackageEnv} {link next : Link}

/-- A side that was closed gracefully has received everything up to the end that its peer noted when
it was closed. -/
def CloseSafe (link : Link) : Prop :=
  ∀ side, (link.on side).ClosedGracefully →
    (link.on side.other).selfCloseStreamPos ≤ (link.on side).recvQueue.recvBlock.ackStreamPos

/-- A step of a link that does not close a side before its peer's `FIN` is reached. -/
def StepBehindFin (env : Side → PackageEnv) (link : Link) (event : Side × ConnectionEvent)
    (next : Link) : Prop :=
  Step env link event next ∧
    PackageConnection.ClosesBehindFin (link.on event.1) (next.on event.1) event.2

theorem receivedAll {link : Link} (h : Reach (fun link => link = create env) (StepBehindFin env) link)
    (side : Side) : (link.on side).ReceivedAll := by
  induction h generalizing side with
  | start hs =>
    rw [hs, create_on]
    rintro ⟨hclosed, _⟩
    cases hclosed
  | @next s t event hreach hstep ih =>
    have hs : Reachable env s := Reach.mono (fun _ _ _ h => h.1) hreach
    obtain ⟨⟨c, hstep, _, rfl⟩, hbehind⟩ := hstep
    rcases eq_or_other event.1 side with rfl | rfl
    · rw [set_on] at hbehind ⊢
      exact (ih event.1).step (hs.side event.1).1 hstep hbehind
    · rw [set_on_other]
      exact ih event.1.other

/-- In a run whose closing steps all find the peer's `FIN` reached, every close is safe. -/
theorem closed_received (h : Reach (fun link => link = create env) (StepBehindFin env) link) :
    link.CloseSafe := by
  intro side hclosed
  have hreach : Reachable env link := Reach.mono (fun _ _ _ h => h.1) h
  obtain ⟨package, pos, hmem, hfin, hle⟩ := receivedAll h side hclosed
  -- the peer has sent that `FIN`, so it had noted the end of its stream
  have hsent := (hreach.side side).2 package hmem
  have hpeer := (hreach.side side.other).1.finExchange.sent package pos hsent hfin
  exact Nat.le_trans hpeer.2 hle

instance (c d : PackageConnection) (event : ConnectionEvent) :
    Decidable (PackageConnection.ClosesBehindFin c d event) :=
  inferInstanceAs (Decidable (_ → _ → _ → _))

/-- `handle`, when the step does not close a side before its peer's `FIN` is reached. -/
def handleBehindFin (env : Side → PackageEnv) (fuel : Nat) (link : Link)
    (event : Nat × Side × ConnectionEvent) : Option Link :=
  (link.handle env fuel event).filter fun next =>
    PackageConnection.ClosesBehindFin (link.on event.2.1) (next.on event.2.1) event.2.2

theorem handleBehindFin_step {fuel : Nat} {event : Nat × Side × ConnectionEvent}
    (h : link.handleBehindFin env fuel event = some next) : StepBehindFin env link event.2 next := by
  obtain ⟨hstep, hbehind⟩ := Option.filter_eq_some_iff.mp h
  exact ⟨handle_step hstep, of_decide_eq_true hbehind⟩

/-- The left side sends `data` and closes; only a later transmission with the `FIN` arrives, when the
right side has no buffer for it. The right side closes too, and the `FIN`s are answered. -/
def closeBehindEvents (data : List UInt8) : List (Nat × Side × ConnectionEvent) :=
  [(0, .left, .send data 0), (0, .left, .close), (3000000, .left, .rtoTimer),
    (0, .right, .push { stackPackage true false 1 (some data) with
      sendTime := 3000000, packageIDPart := some { packageId := 1, totalRecv := 1 } }),
    (0, .right, .close), (0, .left, .push (stackPackage true false 1 none)),
    (0, .right, .push (stackPackage true true 4 none))]

/-- With a buffer the right side gets the three bytes with the `FIN`, and both sides close: the right
side is closed, and nothing is missing. -/
theorem closed_received_close : ∃ link : Link, (link.on .right).ClosedGracefully ∧
    link.left.selfCloseStreamPos = 4 ∧ link.CloseSafe := by
  obtain ⟨link, hrun, hlink⟩ := exists_of_any
    (o := exec (handleBehindFin stackLink 10) (create stackLink)
      ((0, .right, .recv 0 [0, 0, 0] 0) :: (closeBehindEvents [1, 2, 3]).take 5 ++
        [(0, .left, .push { stackPackage true true 1 none with ackStreamPos := 4 }),
          (0, .right, .push (stackPackage false true 4 none))]))
    (p := fun link => link.right.closeSubState = .closed ∧ .reset ∉ link.right.history ∧
      link.left.selfCloseStreamPos = 4)
    (by decide +kernel)
  obtain ⟨hclosed, hreset, hself⟩ := of_decide_eq_true hlink
  have hreach : Reach (fun link => link = create stackLink) (StepBehindFin stackLink) link :=
    exec_preserves (fun _ _ _ hs hn => .next hs (handleBehindFin_step hn)) (.start rfl) hrun
  exact ⟨link, ⟨hclosed, hreset⟩, hself, closed_received hreach⟩

/-- The right side is closed, and has received nothing. -/
theorem closes_behind_fin :
    ¬ ∀ (env : Side → PackageEnv) (link : Link), Reachable env link → link.CloseSafe := by
  intro h
  obtain ⟨link, hrun, hlink⟩ := exists_of_any
    (o := (create stackLink).run stackLink 10 (closeBehindEvents [1, 2, 3]))
    (p := fun link => link.right.closeSubState = .closed ∧ .reset ∉ link.right.history ∧
      link.right.recvQueue.recvBlock.ackStreamPos = 1 ∧ link.left.selfCloseStreamPos = 4)
    (by decide +kernel)
  obtain ⟨hclosed, hreset, hack, hself⟩ := of_decide_eq_true hlink
  have hsafe := h stackLink link (Reachable.run (.start rfl) hrun) .right ⟨hclosed, hreset⟩
  have hsafe : link.left.selfCloseStreamPos ≤ link.right.recvQueue.recvBlock.ackStreamPos := hsafe
  omega

end Link

end Bdt
