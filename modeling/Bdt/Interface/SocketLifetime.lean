import Bdt.Base.History
import Bdt.Interface.TcpInterfaceSocket

/-!
# The life of the socket of a tcp interface

`socketRefCount` and the state of a tcp interface are changed in different functions. `Accounted`
says how they agree: the count is the reference of an interface that is not closed, and those of the
functions in flight; the socket is closed by the step out of the open states, and destroyed when the
count comes to zero; and no reference to an owner is lost or given back twice.

`socket_accounted_iff`: it holds in every run that closes and resets no interface in
`BDT_TCP_INTERFACE_STATE_STREAM_CLOSING`, and that does not go into or out of this state and
`BDT_TCP_INTERFACE_STATE_CLOSED` by `Bdt_TcpInterfaceSetState`; and in no other run. A stream that is
closed keeps its socket and its owner until the other side closes (`peerCloses`).
-/

namespace Bdt

open Base List

namespace TcpInterfaceSocket

/-! ## The references -/

/-- The reference to the socket that the interface has itself. -/
def held (ti : TcpInterfaceSocket) : Int :=
  if ti.state = .closed then 0 else 1

/-- `BdtTcpSocketClose` was called, or is about to be. -/
def closedOnce (ti : TcpInterfaceSocket) : Int :=
  if ti.state = .streamClosing ∨ ti.state = .closed then 1 else 0

/-- The reference to an owner that the interface has. -/
def heldOwner (ti : TcpInterfaceSocket) (owner : Nat) : Int :=
  if ti.owner = some owner then 1 else 0

/-- An action gives a reference to the socket back. -/
def releases : SocketAction → Int
  | .release => 1
  | _ => 0

/-- An action closes the socket. -/
def closes : SocketAction → Int
  | .call (.close _) => 1
  | _ => 0

/-- An action gives a reference to an owner back. -/
def ownerReleases (owner : Nat) : SocketAction → Int
  | .releaseOwner other => if other = owner then 1 else 0
  | _ => 0

def isClose : SocketEntry → Bool
  | .call (.close _) => true
  | _ => false

/-- An entry that needs the socket. -/
def usesSocket : SocketEntry → Bool
  | .call _ => true
  | .destroy => true
  | _ => false

/-- The functions in flight have done all of their actions. -/
def Idle (ti : TcpInterfaceSocket) : Prop :=
  ∀ actions ∈ ti.inFlight, actions = []

/-- The socket was closed once and destroyed once, and every owner was released as often as it was
referred to. -/
def Released (ti : TcpInterfaceSocket) : Prop :=
  ti.history.countP isClose = 1 ∧ ti.history.count .destroy = 1 ∧
    ∀ owner, ti.history.count (.addRefOwner owner) = ti.history.count (.releaseOwner owner)

/-- How the count, the state and what was done agree. -/
structure Accounted (ti : TcpInterfaceSocket) : Prop where
  count : ti.socketRefCount = ti.held + weight releases ti.inFlight
  nonneg : 0 ≤ ti.socketRefCount
  closed : (ti.history.countP isClose : Int) + weight closes ti.inFlight = ti.closedOnce
  destroyed : ti.history.count .destroy = if ti.socketRefCount = 0 then 1 else 0
  /-- Nothing is done to a socket that was destroyed. -/
  alive : Justified (fun front entry => usesSocket entry = true → SocketEntry.destroy ∉ front)
    ti.history
  owners : ∀ owner, (ti.history.count (.addRefOwner owner) : Int) =
    ti.history.count (.releaseOwner owner) + weight (ownerReleases owner) ti.inFlight +
      ti.heldOwner owner
  ownerless : ti.state = .closed → ti.owner = none
  finished : ti.state = .closed → ti.Idle → ti.Released

/-- A step that closes the socket once: `Bdt_TcpInterfaceSetState` neither enters nor leaves the
states in which the socket is closed, nor takes a reference to a socket that was destroyed. -/
def ClosesOnce (ti : TcpInterfaceSocket) : SocketEvent → Prop
  | .close => ti.state ≠ .streamClosing
  | .reset => ti.state ≠ .streamClosing
  | .setState oldState newState => ti.state = oldState →
      (oldState = .closed ↔ newState = .closed) ∧
      (oldState = .streamClosing ↔ newState = .streamClosing) ∧
      (oldState = .closed → ti.socketRefCount ≠ 0)
  | .step i => ti.inFlight[i]?.bind List.head? = some .reset → ti.state ≠ .streamClosing
  | _ => True

/-- When a stream is closed, the zero-length data of the other side comes behind it. -/
def peerCloses : TcpInterfaceSocket → List SocketEvent → Bool
  | _, [] => true
  | ti, event :: events =>
    decide (event = .close → ti.state = .stream → .zeroLength ∈ events) &&
      (ti.handle event).all (peerCloses · events)

variable {ti : TcpInterfaceSocket}

/-! ## Actions in flight -/

/-- A call of the socket is followed by a release. -/
def Guarded : List SocketAction → Prop
  | [] => True
  | .call _ :: rest => .release ∈ rest ∧ Guarded rest
  | _ :: rest => Guarded rest

variable {actions : List SocketAction} {state : TcpInterfaceState}

theorem Guarded.append {more : List SocketAction} (h : Guarded actions)
    (hmore : Guarded more) : Guarded (actions ++ more) := by
  induction actions with
  | nil => exact hmore
  | cons action _ ih =>
    cases action with
    | call => exact ⟨mem_append_left more h.1, ih h.2⟩
    | _ => exact ih h

theorem Guarded.rest {action : SocketAction} {rest : List SocketAction}
    (h : Guarded (action :: rest)) : Guarded rest := by
  cases action with
  | call => exact h.2
  | _ => exact h

theorem releases_nonneg (action : SocketAction) : 0 ≤ releases action := by
  unfold releases
  split <;> omega

theorem sum_releaseOld (owner : Option Nat) :
    ((releaseOld owner).map releases).sum = 0 ∧ ((releaseOld owner).map closes).sum = 0 ∧
      (∀ other, ((releaseOld owner).map (ownerReleases other)).sum =
        if owner = some other then 1 else 0) ∧ Guarded (releaseOld owner) := by
  cases owner with
  | none => exact ⟨rfl, rfl, fun _ => rfl, trivial⟩
  | some =>
    refine ⟨rfl, rfl, fun other => ?_, trivial⟩
    simp [releaseOld, ownerReleases]

/-! ## Sections under the lock -/

/-- What a section under the lock does to the references, and what it leaves to be done. -/
structure Section (ti : TcpInterfaceSocket) (next : TcpInterfaceSocket × List SocketAction) : Prop where
  count : next.1.socketRefCount + ti.held =
    ti.socketRefCount + next.1.held + (next.2.map releases).sum
  closed : next.1.closedOnce = ti.closedOnce + (next.2.map closes).sum
  destroyed : next.1.socketRefCount = 0 ↔ ti.socketRefCount = 0
  history : ∃ owner : Option Nat,
    next.1.history = ti.history ++ (owner.map SocketEntry.addRefOwner).toList ∧
      ∀ other, next.1.heldOwner other + (next.2.map (ownerReleases other)).sum =
        ti.heldOwner other + if owner = some other then 1 else 0
  inFlight : next.1.inFlight = ti.inFlight
  ownerless : next.1.state = .closed → next.1.owner = none
  guarded : Guarded next.2

section

variable (h : ti.Accounted)
include h

theorem section_none : Section ti (ti, []) where
  count := (Int.add_zero _).symm
  closed := (Int.add_zero _).symm
  destroyed := Iff.rfl
  history := ⟨none, (append_nil _).symm, fun _ => rfl⟩
  inFlight := rfl
  ownerless := h.ownerless
  guarded := trivial

theorem Accounted.pos (hopen : ti.state ≠ .closed) : 0 < ti.socketRefCount := by
  have hcount := h.count
  have hweight := weight_nonneg releases_nonneg ti.inFlight
  unfold held at hcount
  rw [if_neg hopen] at hcount
  omega

/-- A section that takes a reference and leaves actions that give it back. -/
theorem section_addRef (hpos : 0 < ti.socketRefCount)
    (hstate : ti.state = .closed ↔ state = .closed)
    (hcount : (actions.map releases).sum = 1)
    (hclosed : closedOnce { ti with state := state } = ti.closedOnce + (actions.map closes).sum)
    (howner : ∀ owner, (actions.map (ownerReleases owner)).sum = 0) (hguarded : Guarded actions) :
    Section ti ({ ti with state := state }.addRefSocket, actions) where
  count := by
    have hheld : held { ti with state := state }.addRefSocket = ti.held := by
      exact if_congr hstate.symm rfl rfl
    rw [hheld, hcount]
    show ti.socketRefCount + 1 + ti.held = _
    omega
  closed := hclosed
  destroyed := by
    show ti.socketRefCount + 1 = 0 ↔ ti.socketRefCount = 0
    omega
  history := ⟨none, (append_nil _).symm, fun owner => by
    rw [howner owner]
    rfl⟩
  inFlight := rfl
  ownerless hc := h.ownerless (hstate.mpr hc)
  guarded := hguarded

theorem section_notify (hstate : ti.state = .closed ↔ state = .closed)
    (hclosing : ti.state = .streamClosing ↔ state = .streamClosing)
    (hactions : ∀ action ∈ actions, action = .notifyOwner ∨ action = .reset) :
    Section ti ({ ti with state := state }, actions) := by
  have hzero : ∀ {f : SocketAction → Int}, f .notifyOwner = 0 → f .reset = 0 →
      (actions.map f).sum = 0 := by
    intro f hnotify hreset
    refine sum_eq_zero fun value hmem => ?_
    obtain ⟨action, haction, rfl⟩ := mem_map.mp hmem
    rcases hactions action haction with rfl | rfl <;> assumption
  have hguarded : Guarded actions := by
    clear hzero
    induction actions with
    | nil => trivial
    | cons action actions ih =>
      have hrest : Guarded actions :=
        ih fun other hmem => hactions other (mem_cons_of_mem action hmem)
      rcases hactions action mem_cons_self with rfl | rfl <;> exact hrest
  refine ⟨?_, ?_, Iff.rfl, ⟨none, (append_nil _).symm, fun other => ?_⟩, rfl,
    fun hc => h.ownerless (hstate.mpr hc), hguarded⟩
  · rw [hzero rfl rfl, Int.add_zero]
    exact congrArg _ (if_congr hstate rfl rfl)
  · rw [hzero rfl rfl, Int.add_zero]
    exact if_congr (or_congr hclosing.symm hstate.symm) rfl rfl
  · rw [hzero rfl rfl]
    rfl

theorem section_setOwner (owner : Option Nat) : Section ti (ti.setOwner owner) := by
  unfold setOwner
  split
  · exact section_none h
  case isFalse hopen =>
  obtain ⟨hreleases, hcloses, howner, hguarded⟩ := sum_releaseOld ti.owner
  refine ⟨?_, ?_, Iff.rfl, ⟨owner, rfl, fun other => ?_⟩, rfl, fun hc => absurd hc hopen, hguarded⟩
  · rw [hreleases]
    exact (Int.add_zero _).symm
  · rw [hcloses]
    exact (Int.add_zero _).symm
  · rw [howner other]
    exact Int.add_comm _ _

theorem section_setState {oldState newState : TcpInterfaceState}
    (hcloses : ti.ClosesOnce (.setState oldState newState)) :
    Section ti (ti.setState oldState newState) := by
  unfold setState
  split
  · exact section_none h
  case isFalse hstate =>
  rw [Decidable.not_not] at hstate
  subst hstate
  obtain ⟨hclosed, hclosing, hzero⟩ := hcloses rfl
  have hpos : 0 < ti.socketRefCount := by
    by_cases hc : ti.state = .closed
    · have hnonneg := h.nonneg
      have hsome := hzero hc
      omega
    · exact h.pos hc
  have hsame : closedOnce { ti with state := newState } = ti.closedOnce := by
    exact if_congr (or_congr hclosing.symm hclosed.symm) rfl rfl
  split
  · exact section_addRef h hpos hclosed rfl (hsame.trans (Int.add_zero _).symm) (fun _ => rfl)
      ⟨mem_cons_self, trivial⟩
  · exact section_addRef h hpos hclosed rfl (hsame.trans (Int.add_zero _).symm) (fun _ => rfl) trivial

theorem section_close (hclosing : ti.state ≠ .streamClosing) : Section ti ti.close := by
  unfold close
  split
  · exact section_none h
  case isFalse hopen =>
  split
  case isTrue hstream =>
    refine section_addRef h (h.pos hopen) (by simp [hstream]) rfl ?_ (fun _ => rfl)
      ⟨mem_cons_self, trivial⟩
    simp [closedOnce, closes, hstream]
  case isFalse =>
  obtain ⟨hreleases, hcloses, howner, hguarded⟩ := sum_releaseOld ti.owner
  have hpos := h.pos hopen
  refine ⟨?_, ?_, ?_, ⟨none, (append_nil _).symm, fun other => ?_⟩, rfl, fun _ => rfl,
    ⟨mem_cons_self, hguarded⟩⟩
  · rw [map_append, sum_append, hreleases]
    simp [held, releases, addRefSocket, hopen]
    omega
  · rw [map_append, sum_append, hcloses]
    simp [closedOnce, closes, addRefSocket, hopen, hclosing]
  · show ti.socketRefCount + 1 = 0 ↔ ti.socketRefCount = 0
    omega
  · rw [map_append, sum_append, howner other]
    simp [heldOwner, ownerReleases, addRefSocket]

theorem section_reset (hclosing : ti.state ≠ .streamClosing) : Section ti ti.reset := by
  unfold reset
  split
  · exact section_none h
  case isFalse hopen =>
  obtain ⟨hreleases, hcloses, howner, hguarded⟩ := sum_releaseOld ti.owner
  refine ⟨?_, ?_, Iff.rfl, ⟨none, (append_nil _).symm, fun other => ?_⟩, rfl, fun _ => rfl,
    hguarded.append ⟨mem_cons_self, trivial⟩⟩
  · rw [map_append, sum_append, hreleases]
    simp [held, releases, hopen]
  · rw [map_append, sum_append, hcloses]
    simp [closedOnce, closes, hopen, hclosing]
  · rw [map_append, sum_append, howner other]
    simp [heldOwner, ownerReleases]

theorem section_connect : Section ti ti.connect := by
  unfold connect
  split
  · exact section_none h
  case isFalse hstate =>
  rw [Decidable.not_not] at hstate
  refine section_addRef h (h.pos (by simp [hstate])) (by simp [hstate]) rfl ?_ (fun _ => rfl)
    ⟨mem_cons_self, trivial⟩
  simp [closedOnce, closes, hstate]

theorem section_useSocket {call : SocketCall} (hcall : ∀ b, call ≠ .close b) :
    Section ti (ti.useSocket call) := by
  unfold useSocket
  split
  · exact section_none h
  case isFalse hopen =>
  have hnone : closes (.call call) = 0 := by
    cases call with
    | close b => exact absurd rfl (hcall b)
    | _ => rfl
  refine section_addRef h (h.pos hopen) Iff.rfl rfl ?_ (fun _ => rfl) ⟨mem_cons_self, trivial⟩
  rw [map_cons, sum_cons, hnone]
  exact (Int.add_zero _).symm

theorem section_pushData (boxes : Nat) (failed : Bool) : Section ti (ti.pushData boxes failed) := by
  unfold pushData
  split
  · exact section_notify h Iff.rfl Iff.rfl (by simp)
  refine section_notify h Iff.rfl Iff.rfl fun action hmem => ?_
  rcases mem_append.mp hmem with hmem | hmem
  · exact .inl (eq_of_mem_replicate hmem)
  · split at hmem
    · exact .inr (mem_singleton.mp hmem)
    · cases hmem

theorem section_pushZero : Section ti ti.pushZero := by
  unfold pushZero
  split
  · exact section_notify h Iff.rfl Iff.rfl (by simp)
  split
  case isTrue hstream => exact section_notify h (by simp [hstream]) (by simp [hstream]) (by simp)
  case isFalse =>
  split
  case isTrue hclosing =>
    obtain ⟨hreleases, hcloses, howner, hguarded⟩ := sum_releaseOld ti.owner
    refine ⟨?_, ?_, Iff.rfl, ⟨none, (append_nil _).symm, fun other => ?_⟩, rfl,
      fun _ => rfl, hguarded⟩
    · rw [map_cons, sum_cons, hreleases]
      simp [held, releases, hclosing]
    · rw [map_cons, sum_cons, hcloses]
      simp [closedOnce, closes, hclosing]
    · rw [map_cons, sum_cons, howner other]
      simp [heldOwner, ownerReleases]
  case isFalse => exact section_none h

end

/-! ## Runs -/

/-- What the steps keep. -/
structure SocketInvariant (ti : TcpInterfaceSocket) : Prop where
  accounted : ti.Accounted
  guarded : ∀ actions ∈ ti.inFlight, Guarded actions

theorem weight_idle {f : SocketAction → Int} {calls : List (List SocketAction)}
    (h : ∀ actions ∈ calls, actions = []) : weight f calls = 0 := by
  unfold weight
  rw [flatten_eq_nil_iff.mpr h]
  rfl

/-- The end of an interface follows from how its references agree. -/
theorem accounted_of {ti : TcpInterfaceSocket}
    (hcount : ti.socketRefCount = ti.held + weight releases ti.inFlight)
    (hclosed : (ti.history.countP isClose : Int) + weight closes ti.inFlight = ti.closedOnce)
    (hdestroyed : ti.history.count .destroy = if ti.socketRefCount = 0 then 1 else 0)
    (halive : Justified (fun front entry => usesSocket entry = true → SocketEntry.destroy ∉ front)
      ti.history)
    (howners : ∀ owner, (ti.history.count (.addRefOwner owner) : Int) =
      ti.history.count (.releaseOwner owner) + weight (ownerReleases owner) ti.inFlight +
        ti.heldOwner owner)
    (hownerless : ti.state = .closed → ti.owner = none) : ti.Accounted := by
  have hweight := weight_nonneg releases_nonneg ti.inFlight
  refine ⟨hcount, ?_, hclosed, hdestroyed, halive, howners, hownerless, fun hstate hidle => ?_⟩
  · rw [hcount]
    unfold held
    split <;> omega
  have hzero : ti.socketRefCount = 0 := by
    rw [hcount, weight_idle hidle, Int.add_zero]
    unfold held
    rw [if_pos hstate]
  refine ⟨?_, by rw [hdestroyed, if_pos hzero], fun owner => ?_⟩
  · rw [weight_idle hidle] at hclosed
    unfold closedOnce at hclosed
    rw [if_pos (.inr hstate)] at hclosed
    omega
  have howner := howners owner
  rw [weight_idle hidle] at howner
  unfold heldOwner at howner
  rw [hownerless hstate] at howner
  exact Int.ofNat.inj howner

theorem socketInvariant_create (hopen : state ≠ .closed) (hclosing : state ≠ .streamClosing) :
    SocketInvariant { state := state } where
  accounted := by
    refine accounted_of ?_ ?_ rfl justified_nil (fun _ => rfl) fun _ => rfl
    · unfold held
      rw [if_neg hopen]
      rfl
    · unfold closedOnce
      rw [if_neg (not_or.mpr ⟨hclosing, hopen⟩)]
      rfl
  guarded _ hmem := by cases hmem

/-- The entries of a section change nothing but the references to owners. -/
theorem count_addRefOwner (history : List SocketEntry) (owner : Option Nat) :
    (history ++ (owner.map SocketEntry.addRefOwner).toList).countP isClose = history.countP isClose ∧
      (history ++ (owner.map SocketEntry.addRefOwner).toList).count .destroy = history.count .destroy ∧
      (∀ other, (history ++ (owner.map SocketEntry.addRefOwner).toList).count (.releaseOwner other) =
        history.count (.releaseOwner other)) ∧
      ∀ other, ((history ++ (owner.map SocketEntry.addRefOwner).toList).count
        (.addRefOwner other) : Int) =
          history.count (.addRefOwner other) + if owner = some other then 1 else 0 := by
  cases owner with
  | none => simp
  | some owner =>
    refine ⟨?_, ?_, fun other => ?_, fun other => ?_⟩
    · simp [isClose]
    · simp
    · simp
    · rw [count_append]
      by_cases heq : owner = other <;> simp [heq]

variable {next : TcpInterfaceSocket × List SocketAction}

/-- A function ends its section, or an action in flight ends one. -/
theorem SocketInvariant.section (h : SocketInvariant ti) (hsection : Section ti next)
    {inFlight : List (List SocketAction)} (hweight : ∀ f : SocketAction → Int, f .reset = 0 →
      weight f inFlight = weight f ti.inFlight + (next.2.map f).sum)
    (hguarded : ∀ actions ∈ inFlight, Guarded actions) :
    SocketInvariant { next.1 with inFlight := inFlight } := by
  obtain ⟨owner, hhistory, howner⟩ := hsection.history
  obtain ⟨hisClose, hdestroy, hreleaseOwner, haddRef⟩ := count_addRefOwner ti.history owner
  have hold := h.accounted
  refine ⟨accounted_of ?_ ?_ ?_ ?_ (fun other => ?_) hsection.ownerless, hguarded⟩
  · have hcount := hsection.count
    have hbefore := hold.count
    show next.1.socketRefCount = next.1.held + weight releases inFlight
    rw [hweight releases rfl]
    omega
  · have hclosed := hsection.closed
    have hbefore := hold.closed
    show (next.1.history.countP isClose : Int) + weight closes inFlight = next.1.closedOnce
    rw [hhistory, hisClose, hweight closes rfl]
    omega
  · show next.1.history.count .destroy = if next.1.socketRefCount = 0 then 1 else 0
    rw [hhistory, hdestroy, hold.destroyed]
    exact if_congr hsection.destroyed.symm rfl rfl
  · show Justified _ next.1.history
    rw [hhistory]
    refine hold.alive.extend fun front entry back heq huses => ?_
    have hmem : entry ∈ (owner.map SocketEntry.addRefOwner).toList :=
      heq ▸ mem_append_right front mem_cons_self
    cases owner with
    | none => cases hmem
    | some =>
      rw [mem_singleton.mp hmem] at huses
      cases huses
  have hbefore := hold.owners other
  have hafter := howner other
  show (next.1.history.count (.addRefOwner other) : Int) = next.1.history.count (.releaseOwner other) +
    weight (ownerReleases other) inFlight + next.1.heldOwner other
  rw [hhistory, haddRef, hreleaseOwner, hweight (ownerReleases other) rfl]
  omega

theorem SocketInvariant.begin (h : SocketInvariant ti) (hsection : Section ti next) :
    SocketInvariant (TcpInterfaceSocket.begin next) := by
  have hnext := h.section hsection (fun f _ => weight_begin f ti.inFlight next.2)
    (forall_begin h.guarded hsection.guarded)
  unfold TcpInterfaceSocket.begin
  rw [hsection.inFlight]
  exact hnext

section Step

variable {i : Nat} {action : SocketAction} {rest : List SocketAction}

theorem SocketInvariant.pos_of_release (h : SocketInvariant ti)
    (hcall : ti.inFlight[i]? = some (action :: rest)) (hmem : .release ∈ action :: rest) :
    0 < ti.socketRefCount := by
  have hweight := le_weight releases_nonneg (mem_of_getElem? hcall) hmem
  have hone : releases .release = 1 := rfl
  have hcount := h.accounted.count
  have hheld : 0 ≤ ti.held := by
    unfold held
    split <;> omega
  omega

theorem SocketInvariant.not_destroyed (h : SocketInvariant ti) (hpos : 0 < ti.socketRefCount) :
    SocketEntry.destroy ∉ ti.history := by
  have hdestroyed := h.accounted.destroyed
  rw [if_neg (by omega)] at hdestroyed
  exact count_eq_zero.mp hdestroyed

/-- An action that adds entries, and may give a reference back and leave callbacks to be done. -/
theorem SocketInvariant.act (h : SocketInvariant ti) (hcall : ti.inFlight[i]? = some (action :: rest))
    {count : Int} {entries : List SocketEntry} {more : List SocketAction}
    (hcount : count + releases action = ti.socketRefCount)
    (hmore : (more.map releases).sum = 0 ∧ (more.map closes).sum = 0 ∧ Guarded more)
    (hclosed : (entries.countP isClose : Int) = closes action)
    (hdestroyed : ti.history.count .destroy + entries.count .destroy = if count = 0 then 1 else 0)
    (halive : ∀ front entry back, entries = front ++ entry :: back → usesSocket entry = true →
      SocketEntry.destroy ∉ ti.history ++ front)
    (howners : ∀ owner, (entries.count (.addRefOwner owner) : Int) + ownerReleases owner action =
      entries.count (.releaseOwner owner) + (more.map (ownerReleases owner)).sum) :
    SocketInvariant { ti with
      socketRefCount := count
      history := ti.history ++ entries
      inFlight := advanceCall ti.inFlight i more rest } := by
  have hold := h.accounted
  have hguarded := (h.guarded _ (mem_of_getElem? hcall)).rest
  refine ⟨accounted_of ?_ ?_ ?_ (hold.alive.extend halive) (fun owner => ?_) hold.ownerless,
    forall_advance h.guarded (hmore.2.2.append hguarded)⟩
  · have hweight := weight_advance releases more hcall
    have hbefore := hold.count
    show count = ti.held + weight releases (advanceCall ti.inFlight i more rest)
    omega
  · have hweight := weight_advance closes more hcall
    have hbefore := hold.closed
    show ((ti.history ++ entries).countP isClose : Int) +
      weight closes (advanceCall ti.inFlight i more rest) = ti.closedOnce
    rw [countP_append]
    push_cast
    omega
  · show (ti.history ++ entries).count .destroy = _
    rw [count_append]
    exact hdestroyed
  have hweight := weight_advance (ownerReleases owner) more hcall
  have hbefore := hold.owners owner
  have hnow := howners owner
  show ((ti.history ++ entries).count (.addRefOwner owner) : Int) =
    (ti.history ++ entries).count (.releaseOwner owner) +
      weight (ownerReleases owner) (advanceCall ti.inFlight i more rest) + ti.heldOwner owner
  rw [count_append, count_append]
  push_cast
  omega

theorem alive_singleton {entry : SocketEntry}
    (h : usesSocket entry = true → SocketEntry.destroy ∉ ti.history) :
    ∀ front other back, [entry] = front ++ other :: back → usesSocket other = true →
      SocketEntry.destroy ∉ ti.history ++ front := by
  intro front other back heq huses
  cases front with
  | nil =>
    obtain ⟨rfl, -⟩ := cons.inj heq
    rw [append_nil]
    exact h huses
  | cons => simp at heq

variable (h : SocketInvariant ti)
include h

theorem SocketInvariant.call {call : SocketCall}
    (hcall : ti.inFlight[i]? = some (.call call :: rest)) :
    SocketInvariant { ti with
      history := ti.history ++ [.call call]
      inFlight := advanceCall ti.inFlight i [] rest } := by
  have hguarded := h.guarded _ (mem_of_getElem? hcall)
  have hpos := h.pos_of_release hcall (mem_cons_of_mem _ hguarded.1)
  refine h.act hcall (Int.add_zero _) ⟨rfl, rfl, trivial⟩ ?_ ?_
    (alive_singleton fun _ => h.not_destroyed hpos) fun owner => ?_
  · cases call <;> rfl
  · exact h.accounted.destroyed
  · simp [ownerReleases]

theorem SocketInvariant.release (hcall : ti.inFlight[i]? = some (.release :: rest)) :
    SocketInvariant { ti.releaseSocket with inFlight := advanceCall ti.inFlight i [] rest } := by
  have hpos := h.pos_of_release hcall mem_cons_self
  have hnone : ti.history.count .destroy = 0 := count_eq_zero.mpr (h.not_destroyed hpos)
  unfold releaseSocket
  simp only
  split
  case isTrue hlast =>
    have hzero : ti.socketRefCount - 1 = 0 := Int.le_antisymm hlast (by omega)
    refine h.act hcall (show ti.socketRefCount - 1 + 1 = _ by omega) ⟨rfl, rfl, trivial⟩ rfl ?_
      (alive_singleton fun _ => h.not_destroyed hpos) fun owner => rfl
    rw [hnone]
    exact (if_pos hzero).symm
  case isFalse hmore =>
  have hsome : ti.socketRefCount - 1 ≠ 0 := fun hzero => hmore (Int.le_of_eq hzero)
  have hacted : SocketInvariant { ti with
      socketRefCount := ti.socketRefCount - 1
      history := ti.history ++ []
      inFlight := advanceCall ti.inFlight i [] rest } := by
    refine h.act hcall (show ti.socketRefCount - 1 + 1 = _ by omega) ⟨rfl, rfl, trivial⟩ rfl ?_
      (fun front entry back heq => ?_) fun owner => rfl
    · rw [hnone, if_neg hsome]
      rfl
    · cases front <;> cases heq
  rw [append_nil] at hacted
  exact hacted

theorem SocketInvariant.releaseOwner {owner : Nat}
    (hcall : ti.inFlight[i]? = some (.releaseOwner owner :: rest)) :
    SocketInvariant { ti with
      history := ti.history ++ [.releaseOwner owner]
      inFlight := advanceCall ti.inFlight i [] rest } := by
  refine h.act hcall (Int.add_zero _) ⟨rfl, rfl, trivial⟩ rfl ?_ (alive_singleton nofun) fun other => ?_
  · exact h.accounted.destroyed
  · by_cases heq : owner = other <;> simp [ownerReleases, heq]

theorem SocketInvariant.notifyOwner {owner : Nat}
    (hcall : ti.inFlight[i]? = some (.notifyOwner :: rest)) :
    SocketInvariant { ti with
      history := ti.history ++ [.addRefOwner owner]
      inFlight := advanceCall ti.inFlight i [.releaseOwner owner] rest } := by
  refine h.act hcall (Int.add_zero _) ⟨rfl, rfl, trivial⟩ rfl ?_ (alive_singleton nofun) fun other => ?_
  · exact h.accounted.destroyed
  · by_cases heq : owner = other <;> simp [ownerReleases, heq]

theorem SocketInvariant.perform (hcall : ti.inFlight[i]? = some (action :: rest))
    (hreset : action = .reset → ti.state ≠ .streamClosing) :
    SocketInvariant { (ti.perform action).1 with
      inFlight := advanceCall ti.inFlight i (ti.perform action).2 rest } := by
  cases action with
  | call call => exact h.call hcall
  | release => exact h.release hcall
  | notifyOwner =>
    cases howner : ti.owner with
    | some owner =>
      have hperform : ti.perform .notifyOwner =
          ({ ti with history := ti.history ++ [.addRefOwner owner] }, [.releaseOwner owner]) := by
        unfold TcpInterfaceSocket.perform
        rw [howner]
      rw [hperform]
      exact h.notifyOwner hcall
    | none =>
      have hperform : ti.perform .notifyOwner = (ti, []) := by
        unfold TcpInterfaceSocket.perform
        rw [howner]
      rw [hperform]
      have hacted : SocketInvariant { ti with
          history := ti.history ++ []
          inFlight := advanceCall ti.inFlight i [] rest } :=
        h.act hcall (Int.add_zero _) ⟨rfl, rfl, trivial⟩ rfl h.accounted.destroyed
          (fun front entry back heq => by cases front <;> cases heq) fun _ => rfl
      rw [append_nil] at hacted
      exact hacted
  | releaseOwner => exact h.releaseOwner hcall
  | reset =>
    have hsection := section_reset h.accounted (hreset rfl)
    refine h.section hsection (fun f hzero => ?_) ?_
    · have hweight := weight_advance f ti.reset.2 hcall
      rw [hzero, Int.add_zero] at hweight
      exact hweight
    · exact forall_advance h.guarded
        (hsection.guarded.append (h.guarded _ (mem_of_getElem? hcall)).rest)

end Step

variable {next : TcpInterfaceSocket × List SocketAction} {event : SocketEvent}

/-- A step that closes the socket once keeps the references right. -/
theorem SocketInvariant.handle (h : SocketInvariant ti) {t : TcpInterfaceSocket}
    (hcloses : ti.ClosesOnce event) (hstep : ti.handle event = some t) : SocketInvariant t := by
  have hbegin : ∀ {next : TcpInterfaceSocket × List SocketAction}, Section ti next →
      some (TcpInterfaceSocket.begin next) = some t → SocketInvariant t :=
    fun hsection heq => Option.some.inj heq ▸ h.begin hsection
  have haccounted := h.accounted
  cases event with
  | setOwner owner => exact hbegin (section_setOwner haccounted owner) hstep
  | setState => exact hbegin (section_setState haccounted hcloses) hstep
  | setAesKey =>
    cases hstep
    exact ⟨⟨haccounted.count, haccounted.nonneg, haccounted.closed, haccounted.destroyed,
      haccounted.alive, haccounted.owners, haccounted.ownerless, haccounted.finished⟩, h.guarded⟩
  | connect => exact hbegin (section_connect haccounted) hstep
  | send =>
    have hsection : Section ti (ti.useSocket .send) := section_useSocket haccounted nofun
    exact hbegin hsection hstep
  | pause =>
    have hsection : Section ti (ti.useSocket .pause) := section_useSocket haccounted nofun
    exact hbegin hsection hstep
  | resume =>
    have hsection : Section ti (ti.useSocket .resume) := section_useSocket haccounted nofun
    exact hbegin hsection hstep
  | close => exact hbegin (section_close haccounted hcloses) hstep
  | reset => exact hbegin (section_reset haccounted hcloses) hstep
  | data boxes failed => exact hbegin (section_pushData haccounted boxes failed) hstep
  | zeroLength => exact hbegin (section_pushZero haccounted) hstep
  | step =>
    unfold TcpInterfaceSocket.handle at hstep
    simp only at hstep
    split at hstep
    case h_1 action rest hcall =>
      cases hstep
      refine h.perform hcall fun hreset => hcloses ?_
      rw [hcall, hreset]
      rfl
    case h_2 => cases hstep

/-! ## Other steps -/

/-- The references do not agree after a second close of the socket, a change of state without the
reference that goes with it, or a reference to a socket that was destroyed. -/
theorem Accounted.not_next (h : ti.Accounted)
    {inFlight : List (List SocketAction)} (hhistory : next.1.history = ti.history)
    (hweight : ∀ f : SocketAction → Int, f .reset = 0 →
      weight f inFlight = weight f ti.inFlight + (next.2.map f).sum)
    (hbad : next.1.closedOnce ≠ ti.closedOnce + (next.2.map closes).sum ∨
      next.1.socketRefCount + ti.held ≠
        ti.socketRefCount + next.1.held + (next.2.map releases).sum ∨
      ti.socketRefCount = 0 ∧ next.1.socketRefCount ≠ 0) :
    ¬ Accounted { next.1 with inFlight := inFlight } := by
  intro hnext
  rcases hbad with hbad | hbad | ⟨hzero, hsome⟩
  · have hbefore := h.closed
    have hafter : (next.1.history.countP isClose : Int) + weight closes inFlight =
      next.1.closedOnce := hnext.closed
    rw [hhistory, hweight closes rfl] at hafter
    omega
  · have hbefore := h.count
    have hafter : next.1.socketRefCount = next.1.held + weight releases inFlight := hnext.count
    rw [hweight releases rfl] at hafter
    omega
  have hafter : next.1.history.count .destroy = if next.1.socketRefCount = 0 then 1 else 0 :=
    hnext.destroyed
  rw [hhistory, h.destroyed, if_pos hzero, if_neg hsome] at hafter
  cases hafter

theorem Accounted.not_begin (h : ti.Accounted)
    (hhistory : next.1.history = ti.history) (hflight : next.1.inFlight = ti.inFlight)
    (hbad : next.1.closedOnce ≠ ti.closedOnce + (next.2.map closes).sum ∨
      next.1.socketRefCount + ti.held ≠
        ti.socketRefCount + next.1.held + (next.2.map releases).sum ∨
      ti.socketRefCount = 0 ∧ next.1.socketRefCount ≠ 0) :
    ¬ Accounted (TcpInterfaceSocket.begin next) := by
  have hnot := h.not_next hhistory (fun f _ => weight_begin f ti.inFlight next.2) hbad
  unfold TcpInterfaceSocket.begin
  rw [hflight]
  exact hnot

theorem closedOnce_of_closing (h : ti.state = .streamClosing) : ti.closedOnce = 1 :=
  if_pos (.inl h)

/-- `Bdt_TcpInterfaceClose` and `Bdt_TcpInterfaceReset` close a socket that is closing again. -/
theorem closes_again (hstate : ti.state = .streamClosing) :
    (ti.close.1.closedOnce ≠ ti.closedOnce + (ti.close.2.map closes).sum ∧
      ti.close.1.history = ti.history ∧ ti.close.1.inFlight = ti.inFlight) ∧
    (ti.reset.1.closedOnce ≠ ti.closedOnce + (ti.reset.2.map closes).sum ∧
      ti.reset.1.history = ti.history ∧ ti.reset.1.inFlight = ti.inFlight) := by
  obtain ⟨-, hcloses, -, -⟩ := sum_releaseOld ti.owner
  rw [closedOnce_of_closing hstate]
  unfold close reset
  simp [hstate, addRefSocket, closedOnce, closes, hcloses]

theorem not_setState (h : ti.Accounted) {oldState newState : TcpInterfaceState}
    (hcloses : ¬ ti.ClosesOnce (.setState oldState newState)) :
    ¬ Accounted (TcpInterfaceSocket.begin (ti.setState oldState newState)) := by
  unfold ClosesOnce at hcloses
  rw [Classical.not_imp] at hcloses
  obtain ⟨rfl, hbad⟩ := hcloses
  have hset : (ti.setState ti.state newState).1 = { ti with state := newState }.addRefSocket ∧
      ((ti.setState ti.state newState).2.map closes).sum = 0 ∧
      ((ti.setState ti.state newState).2.map releases).sum = 1 := by
    unfold setState
    rw [if_neg (not_not.mpr rfl)]
    refine ⟨rfl, ?_, ?_⟩ <;> split <;> rfl
  obtain ⟨hnext, hclosesSum, hreleasesSum⟩ := hset
  refine h.not_begin (by rw [hnext]; rfl) (by rw [hnext]; rfl) ?_
  rw [hnext, hclosesSum, hreleasesSum]
  by_cases hclosed : ti.state = .closed ↔ newState = .closed
  · by_cases hclosing : ti.state = .streamClosing ↔ newState = .streamClosing
    · -- the socket of a closed interface is gone
      have hzero : ti.state = .closed ∧ ti.socketRefCount = 0 := by
        by_contra hne
        exact hbad ⟨hclosed, hclosing, fun hc hz => hne ⟨hc, hz⟩⟩
      refine .inr (.inr ⟨hzero.2, ?_⟩)
      show ti.socketRefCount + 1 ≠ 0
      omega
    refine .inl ?_
    unfold closedOnce addRefSocket
    by_cases hold : ti.state = .streamClosing
    · have hnew : newState ≠ .streamClosing := fun hnew => hclosing ⟨fun _ => hnew, fun _ => hold⟩
      have hopen : newState ≠ .closed := fun hnew => by
        rw [hold] at hclosed
        exact absurd (hclosed.mpr hnew) (by decide)
      simp [hold, hnew, hopen]
    have hnew : newState = .streamClosing := by
      by_contra hnew
      exact hclosing ⟨fun hs => absurd hs hold, fun hs => absurd hs hnew⟩
    have hopen : ti.state ≠ .closed := fun hc => by
      rw [hclosed.mp hc] at hnew
      cases hnew
    simp [hold, hnew, hopen]
  refine .inr (.inl ?_)
  show ti.socketRefCount + 1 + ti.held ≠ _
  unfold held addRefSocket
  by_cases hold : ti.state = .closed
  · have hnew : newState ≠ .closed := fun hnew => hclosed ⟨fun _ => hnew, fun _ => hold⟩
    simp [hold, hnew]
  have hnew : newState = .closed := by
    by_contra hnew
    exact hclosed ⟨fun hs => absurd hs hold, fun hs => absurd hs hnew⟩
  simp [hold, hnew]

/-- A step that does not close the socket once breaks the references. -/
theorem Accounted.not_handle (h : ti.Accounted)
    (hcloses : ¬ ti.ClosesOnce event) : ∃ t, ti.handle event = some t ∧ ¬ t.Accounted := by
  cases event with
  | setState => exact ⟨_, rfl, not_setState h hcloses⟩
  | close =>
    obtain ⟨⟨hclosed, hhistory, hflight⟩, -⟩ := closes_again (not_not.mp hcloses)
    exact ⟨_, rfl, h.not_begin hhistory hflight (.inl hclosed)⟩
  | reset =>
    obtain ⟨-, hclosed, hhistory, hflight⟩ := closes_again (not_not.mp hcloses)
    exact ⟨_, rfl, h.not_begin hhistory hflight (.inl hclosed)⟩
  | step i =>
    unfold ClosesOnce at hcloses
    rw [Classical.not_imp, not_not] at hcloses
    obtain ⟨hhead, hstate⟩ := hcloses
    obtain ⟨actions, hcall, haction⟩ := Option.bind_eq_some_iff.mp hhead
    obtain ⟨rest, rfl⟩ := List.head?_eq_some_iff.mp haction
    obtain ⟨-, hclosed, hhistory, hflight⟩ := closes_again hstate
    have hstep : ti.handle (.step i) =
        some { ti.reset.1 with inFlight := advanceCall ti.inFlight i ti.reset.2 rest } := by
      unfold TcpInterfaceSocket.handle
      simp only [hcall]
      rfl
    refine ⟨_, hstep, h.not_next hhistory (fun f hzero => ?_) (.inl hclosed)⟩
    have hweight := weight_advance f ti.reset.2 hcall
    rw [hzero, Int.add_zero] at hweight
    exact hweight
  | _ => exact absurd trivial hcloses

/-- An interface gets to `BDT_TCP_INTERFACE_STATE_STREAM_CLOSING` by the close of a stream, and leaves it
when the other side closes. -/
theorem closing_step {t : TcpInterfaceSocket} (hcloses : ti.ClosesOnce event)
    (hstep : ti.handle event = some t) : t.state = .streamClosing ↔
      ti.state = .streamClosing ∧ event ≠ .zeroLength ∨ ti.state = .stream ∧ event = .close := by
  cases event with
  | setState oldState newState =>
    cases hstep
    simp only [TcpInterfaceSocket.begin, setState]
    split
    · simp
    next hstate =>
      have hclosing := (hcloses (not_not.mp hstate)).2.1
      rw [← not_not.mp hstate] at hclosing
      simp [addRefSocket, hclosing]
  | step i =>
    unfold TcpInterfaceSocket.handle at hstep
    simp only at hstep
    split at hstep
    next action rest hcall =>
      cases hstep
      have hreset : action = .reset → ti.state ≠ .streamClosing := by
        rintro rfl
        exact hcloses (by rw [hcall]; rfl)
      cases action with
      | reset =>
        have hopen := hreset rfl
        simp only [TcpInterfaceSocket.perform, reset]
        split <;> simp [hopen]
      | release =>
        simp only [TcpInterfaceSocket.perform, releaseSocket]
        split <;> simp
      | notifyOwner =>
        simp only [TcpInterfaceSocket.perform]
        split <;> simp
      | _ => simp [TcpInterfaceSocket.perform]
    · cases hstep
  | close | reset =>
    cases hstep
    have hopen : ti.state ≠ .streamClosing := hcloses
    simp only [TcpInterfaceSocket.begin, close, reset]
    repeat' split
    all_goals simp_all [addRefSocket]
  | connect | send | pause | resume | data | zeroLength | setOwner =>
    cases hstep
    simp only [TcpInterfaceSocket.begin, connect, useSocket, pushData, pushZero, setOwner]
    repeat' split
    all_goals simp_all [addRefSocket]
  | setAesKey =>
    cases hstep
    simp

theorem ends_closing_iff {last : TcpInterfaceSocket} {events : List SocketEvent}
    (hsteps : StepsMeet handle ClosesOnce ti events) (hrun : exec handle ti events = some last) :
    last.state = .streamClosing ↔
      ti.state = .streamClosing ∧ .zeroLength ∉ events ∨ ti.peerCloses events = false := by
  induction events generalizing ti with
  | nil =>
    cases hrun
    simp [peerCloses]
  | cons event events ih =>
    obtain ⟨next, hnext, hrest⟩ := exec_cons hrun
    have hstep := closing_step (hsteps [] event events ti rfl rfl) hnext
    rw [ih (hsteps.rest hnext) hrest, hstep, peerCloses, hnext, Option.all_some, mem_cons,
      Bool.and_eq_false_iff, decide_eq_false_iff_not]
    by_cases hclose : event = .close
    · subst hclose
      by_cases hstream : ti.state = .stream <;> simp [hstream]
    · by_cases hzero : event = .zeroLength
      · subst hzero
        simp
      · simp [hclose, hzero, Ne.symm hzero]

/-- The references of a tcp interface agree with its state in a whole run, and at its end an interface
that was closed has given everything back, if and only if no step closes or resets an interface that is
closing, or sets its state into or out of those in which the socket is closed, and the other side has
closed every stream that was closed by the end. -/
theorem socket_accounted_iff {state : TcpInterfaceState}
    (hcreate : state = .none ∨ state = .waitFirstPackage) (events : List SocketEvent) :
    (Throughout handle Accounted { state := state } events ∧
      ∀ ti, exec handle { state := state } events = some ti → ti.closedOnce = 1 → ti.Idle →
        ti.Released) ↔
      StepsMeet handle ClosesOnce { state := state } events ∧
        ∀ ti, exec handle { state := state } events = some ti → ti.Idle →
          peerCloses { state := state } events = true := by
  have hstart : SocketInvariant { state := state } := by
    rcases hcreate with rfl | rfl <;> exact socketInvariant_create (by decide) (by decide)
  have hopen : state ≠ .streamClosing := by
    rcases hcreate with rfl | rfl <;> decide
  rw [throughout_iff hstart (fun u hu => hu.accounted)
    (fun s e t hs hok hstep => hs.handle hok hstep) fun front u e _ hu hok => hu.not_handle hok]
  refine and_congr_right fun hsteps => forall_congr' fun ti => forall_congr' fun hrun => ?_
  have haccounted : ti.Accounted :=
    (hsteps.preserves (fun s e t hs hok hstep => hs.handle hok hstep) hstart hrun).accounted
  have hend := ends_closing_iff hsteps hrun
  rw [or_iff_right fun h => hopen h.1] at hend
  constructor
  · intro hreleased hidle
    by_contra hpeer
    have hclosing := hend.mpr (Bool.not_eq_true _ ▸ hpeer)
    obtain ⟨-, hdestroyed, -⟩ := hreleased (closedOnce_of_closing hclosing) hidle
    have hcount := haccounted.count
    unfold held at hcount
    rw [hclosing, if_neg nofun, weight_idle hidle] at hcount
    rw [haccounted.destroyed, hcount] at hdestroyed
    cases hdestroyed
  · intro hpeer honce hidle
    refine haccounted.finished ?_ hidle
    by_contra hopen
    refine absurd honce ?_
    unfold closedOnce
    rw [if_neg]
    · decide
    rintro (hclosing | hclosed)
    · exact absurd (hend.mp hclosing) (by rw [hpeer hidle]; decide)
    · exact hopen hclosed

/-- A stream with an owner is closed on this side and then on the other one. -/
theorem socket_accounted_stream :
    ∃ ti, exec handle { state := .waitFirstPackage }
        [.setOwner (some 7), .setState .waitFirstPackage .stream, .step 1, .close, .step 2, .step 2,
          .zeroLength, .step 3, .step 3] = some ti ∧ ti.Released := by
  refine exists_of_test (fun ti => ti.closedOnce = 1 ∧ ∀ actions ∈ ti.inFlight, actions = [])
    (by decide +kernel) ?_
  rintro ti hrun ⟨honce, hidle⟩
  refine ((socket_accounted_iff (.inr rfl) _).mpr
    ⟨?_, fun _ _ _ => by decide +kernel⟩).2 ti hrun honce hidle
  refine .cons trivial fun _ h => ?_
  cases h
  refine .cons (fun _ => ⟨by decide, by decide, nofun⟩) fun _ h => ?_
  cases h
  iterate 4
    refine .cons nofun fun _ h => ?_
    cases h
  refine .cons trivial fun _ h => ?_
  cases h
  refine .cons nofun fun _ h => ?_
  cases h
  exact .cons nofun fun _ _ => stepsMeet_nil _ _

/-- `Bdt_ConnectionEstablishWithStream` sets the state of an interface to
`BDT_TCP_INTERFACE_STATE_STREAM` whatever it was. When the interface was reset before, the socket is
destroyed again. Two calls of `Bdt_TcpInterfaceClose` on a stream close its socket twice. -/
theorem socket_destroyed_again :
    (∃ t, exec handle { state := .waitFirstPackage }
        [.reset, .step 0, .step 0, .setState .closed .stream, .step 1] = some t ∧
      t.history.count .destroy = 2 ∧ t.state = .stream ∧ ¬ Accounted t) ∧
    ∃ t, exec handle { state := .waitFirstPackage }
        [.setState .waitFirstPackage .stream, .close, .close, .step 1, .step 2] = some t ∧
      t.history.countP isClose = 2 ∧ ¬ Accounted t := by
  constructor
  · refine exists_of_test (fun t => t.history.count .destroy = 2 ∧ t.state = .stream)
      (by decide +kernel) ?_
    rintro t - ⟨hcount, hstate⟩
    refine ⟨hcount, hstate, fun h => ?_⟩
    have hdestroyed := h.destroyed
    rw [hcount] at hdestroyed
    split at hdestroyed <;> cases hdestroyed
  refine exists_of_test (fun t => t.history.countP isClose = 2) (by decide +kernel) ?_
  refine fun t _ hcount => ⟨hcount, fun h => ?_⟩
  have hclosed := h.closed
  rw [hcount] at hclosed
  have hweight := weight_nonneg (f := closes) (fun action => by unfold closes; split <;> omega) t.inFlight
  unfold closedOnce at hclosed
  split at hclosed <;> omega

end TcpInterfaceSocket

end Bdt
