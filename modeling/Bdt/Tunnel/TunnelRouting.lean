import Bdt.Tunnel.TunnelContainer

/-!
# Which tunnel is used

A model of the functions of `TunnelContainer.imp.inl` that go through the tunnels of a container to
choose one: `GetBestConnectorForConnection`, `BdtTunnel_GetBestTcpReverseConnectEndpoint` and
`BdtTunnel_Send`. The tunnels are given in the order of the enumeration. The first two have their
loop in `do { } while (false)`, so that they look at the first tunnel only.
-/

namespace Bdt

open List

/-! ## The connector of a connection -/

variable (tunnels : List SocketTunnel) (state : SendState) (tunnel : SocketTunnel)

/-- `Bdt_SocketTunnelIsTcp`. -/
def SocketTunnel.isTcp : Bool :=
  !tunnel.udp

/-- `Bdt_IsTcpEndpointPassive`, of the endpoints of a tunnel. -/
def SocketTunnel.isPassive : Bool :=
  tunnel.localEndpoint.port ≠ 0

/-- The result of `GetBestConnectorForConnection`, with what is written to `local` and `remote` for a
stream. -/
inductive ConnectorChoice where
  | none
  | package
  | stream (localEndpoint remoteEndpoint : BdtEndpoint)
  deriving DecidableEq

/-- The variables of `GetBestConnectorForConnection`. -/
structure ConnectorScan where
  hasTcp : Option (BdtEndpoint × BdtEndpoint) := .none
  hasUdp : Bool := false

/-- The body of the loop, for a tunnel. -/
def ConnectorScan.visit (scan : ConnectorScan) (tunnel : SocketTunnel) : ConnectorScan :=
  if tunnel.isTcp then
    { scan with hasTcp := some (tunnel.localEndpoint, tunnel.remoteEndpoint) }
  else if tunnel.udp then { scan with hasUdp := true }
  else scan

/-- `GetBestConnectorForConnection`. The body of the loop is run once. -/
def getBestConnectorForConnection : ConnectorChoice :=
  let scan : ConnectorScan :=
    match tunnels with
    | [] => {}
    | tunnel :: _ => ConnectorScan.visit {} tunnel
  match scan.hasTcp with
  | some (localEndpoint, remoteEndpoint) => .stream localEndpoint remoteEndpoint
  | .none => if scan.hasUdp then .package else .none

/-- The stream connector to a tunnel. -/
def SocketTunnel.connector : ConnectorChoice :=
  .stream tunnel.localEndpoint tunnel.remoteEndpoint

/-- The connector that is right for all tunnels: an active tcp tunnel comes before a passive one, and
that before an udp tunnel. -/
structure RightConnector (tunnels : List SocketTunnel) (choice : ConnectorChoice) : Prop where
  active : (∃ tunnel ∈ tunnels, tunnel.isTcp = true ∧ tunnel.isPassive = false) →
    ∃ tunnel ∈ tunnels, tunnel.isTcp = true ∧ tunnel.isPassive = false ∧ choice = tunnel.connector
  passive : (¬ ∃ tunnel ∈ tunnels, tunnel.isTcp = true ∧ tunnel.isPassive = false) →
    (∃ tunnel ∈ tunnels, tunnel.isTcp = true) →
      ∃ tunnel ∈ tunnels, tunnel.isTcp = true ∧ choice = tunnel.connector
  package : (¬ ∃ tunnel ∈ tunnels, tunnel.isTcp = true) → tunnels ≠ [] → choice = .package
  none : tunnels = [] → choice = .none

/-- No tunnel behind the first one comes before it. -/
def FirstIsBest : List SocketTunnel → Prop
  | [] => True
  | first :: rest =>
    (first.udp = true → ∀ tunnel ∈ rest, tunnel.udp = true) ∧
      (first.isPassive = true → ∀ tunnel ∈ rest, tunnel.isTcp = true → tunnel.isPassive = true)

theorem getBestConnector_cons (first : SocketTunnel) (rest : List SocketTunnel) :
    getBestConnectorForConnection (first :: rest) =
      if first.isTcp then first.connector else .package := by
  cases hudp : first.udp with
  | true =>
    simp only [getBestConnectorForConnection, ConnectorScan.visit, SocketTunnel.isTcp, hudp]
    rfl
  | false =>
    simp only [getBestConnectorForConnection, ConnectorScan.visit, SocketTunnel.isTcp, hudp]
    rfl

theorem connector_isPassive {a b : SocketTunnel} (h : a.connector = b.connector) :
    a.isPassive = b.isPassive := by
  injection h with hlocal
  unfold SocketTunnel.isPassive
  rw [hlocal]

variable {tunnel : SocketTunnel} {sendParams : Option UInt32}

theorem isTcp_iff : tunnel.isTcp = true ↔ tunnel.udp = false := by
  unfold SocketTunnel.isTcp
  rw [Bool.not_eq_true']

/-- The connector is the right one exactly when the first tunnel is the best one. -/
theorem rightConnector_iff :
    RightConnector tunnels (getBestConnectorForConnection tunnels) ↔ FirstIsBest tunnels := by
  cases tunnels with
  | nil =>
    refine iff_of_true ⟨?_, ?_, fun _ h => absurd rfl h, fun _ => rfl⟩ trivial
    · rintro ⟨tunnel, hmem, -⟩
      cases hmem
    · rintro - ⟨tunnel, hmem, -⟩
      cases hmem
  | cons first rest =>
    rw [getBestConnector_cons]
    constructor
    · intro h
      refine ⟨fun hudp tunnel hmem => ?_, fun hpassive tunnel hmem htcp => ?_⟩
      · -- a tcp tunnel behind the udp tunnel is missed
        have hchoice : (if first.isTcp then first.connector else .package) = .package := by
          rw [SocketTunnel.isTcp, hudp]
          rfl
        rw [hchoice] at h
        by_contra htcp
        have hmem : tunnel ∈ first :: rest := mem_cons_of_mem _ hmem
        have hexists : ∃ tunnel ∈ first :: rest, tunnel.isTcp = true :=
          ⟨tunnel, hmem, isTcp_iff.mpr (Bool.eq_false_iff.mpr htcp)⟩
        by_cases hactive : ∃ tunnel ∈ first :: rest, tunnel.isTcp = true ∧ tunnel.isPassive = false
        · obtain ⟨_, -, -, -, heq⟩ := h.active hactive
          cases heq
        · obtain ⟨_, -, -, heq⟩ := h.passive hactive hexists
          cases heq
      -- an active tunnel behind the passive one is missed
      by_contra hactive
      have hmem : tunnel ∈ first :: rest := mem_cons_of_mem _ hmem
      obtain ⟨best, -, htcpBest, hactiveBest, heq⟩ :=
        h.active ⟨tunnel, hmem, htcp, Bool.eq_false_iff.mpr hactive⟩
      cases hfirst : first.isTcp with
      | true =>
        rw [hfirst] at heq
        have hsame := connector_isPassive heq
        rw [hpassive, hactiveBest] at hsame
        cases hsame
      | false =>
        rw [hfirst] at heq
        cases heq
    rintro ⟨hudp, hpassive⟩
    cases hfirst : first.isTcp with
    | true =>
      refine ⟨fun hactive => ?_, fun _ _ => ⟨first, mem_cons_self, hfirst, rfl⟩,
        fun hnone => absurd ⟨first, mem_cons_self, hfirst⟩ hnone, nofun⟩
      obtain ⟨tunnel, hmem, htcp, hactive⟩ := hactive
      refine ⟨first, mem_cons_self, hfirst, ?_, rfl⟩
      cases hfirstPassive : first.isPassive with
      | false => rfl
      | true =>
        rcases mem_cons.mp hmem with rfl | hmem
        · exact hfirstPassive.symm.trans hactive
        · exact (hpassive hfirstPassive tunnel hmem htcp).symm.trans hactive
    | false =>
      have hall : ¬ ∃ tunnel ∈ first :: rest, tunnel.isTcp = true := by
        rintro ⟨tunnel, hmem, htcp⟩
        rcases mem_cons.mp hmem with rfl | hmem
        · exact absurd (hfirst.symm.trans htcp) Bool.false_ne_true
        · have hfirstUdp : first.udp = true := by simpa [SocketTunnel.isTcp] using hfirst
          rw [SocketTunnel.isTcp, hudp hfirstUdp tunnel hmem] at htcp
          cases htcp
      refine ⟨?_, fun _ h => absurd h hall, fun _ _ => rfl, nofun⟩
      rintro ⟨tunnel, hmem, htcp, -⟩
      exact absurd ⟨tunnel, hmem, htcp⟩ hall

/-! ## The endpoint of a reverse connection -/

/-- A tcp tunnel to a remote endpoint. -/
def SocketTunnel.leadsTo (tunnel : SocketTunnel) (remote : BdtEndpoint) : Bool :=
  tunnel.isTcp && BdtEndpointCompare tunnel.remoteEndpoint remote false = 0

/-- `BdtTunnel_GetBestTcpReverseConnectEndpoint`: what is written to `local`, which is nothing when
the first tunnel does not lead to the remote endpoint. It has no result when the assertion fails. -/
def getBestTcpReverseConnectEndpoint (remote : BdtEndpoint)
    (boundAddr : List BdtEndpoint) : Option (Option BdtEndpoint) :=
  match tunnels with
  | [] =>
    match boundAddr with
    | [] => none
    | localEp :: _ => some (some localEp)
  | tunnel :: _ =>
    if tunnel.leadsTo remote then some (some tunnel.localEndpoint) else some none

/-- What has to be written to `local`. -/
structure RightReverse (tunnels : List SocketTunnel) (remote : BdtEndpoint)
    (boundAddr : List BdtEndpoint) (written : Option BdtEndpoint) : Prop where
  tunnel : (∃ tunnel ∈ tunnels, tunnel.leadsTo remote = true) →
    ∃ tunnel ∈ tunnels, tunnel.leadsTo remote = true ∧ written = some tunnel.localEndpoint
  bound : (¬ ∃ tunnel ∈ tunnels, tunnel.leadsTo remote = true) →
    ∃ localEp, boundAddr.head? = some localEp ∧ written = some localEp

/-- On success the right endpoint is written. -/
def ReverseRight (remote : BdtEndpoint)
    (boundAddr : List BdtEndpoint) : Prop :=
  ∀ written, getBestTcpReverseConnectEndpoint tunnels remote boundAddr = some written →
    RightReverse tunnels remote boundAddr written

/-- The first tunnel leads to the remote endpoint, if there is one. -/
def FirstLeadsTo (remote : BdtEndpoint) : Prop :=
  ∀ first ∈ tunnels.head?, first.leadsTo remote = true

theorem reverseRight_iff (remote : BdtEndpoint)
    (boundAddr : List BdtEndpoint) :
    ReverseRight tunnels remote boundAddr ↔ FirstLeadsTo tunnels remote := by
  cases tunnels with
  | nil =>
    refine iff_of_true ?_ nofun
    intro written hwritten
    refine ⟨?_, fun _ => ?_⟩
    · rintro ⟨tunnel, hmem, -⟩
      cases hmem
    cases boundAddr with
    | nil => cases hwritten
    | cons localEp =>
      cases hwritten
      exact ⟨localEp, rfl, rfl⟩
  | cons first rest =>
    constructor
    · intro h tunnel htunnel
      cases htunnel
      by_contra hfirst
      have hnothing : getBestTcpReverseConnectEndpoint (first :: rest) remote boundAddr =
          some none :=
        if_neg hfirst
      have hright := h none hnothing
      by_cases hexists : ∃ tunnel ∈ first :: rest, tunnel.leadsTo remote = true
      · obtain ⟨_, -, -, heq⟩ := hright.tunnel hexists
        cases heq
      · obtain ⟨_, -, heq⟩ := hright.bound hexists
        cases heq
    intro h written hwritten
    have hfirst := h first rfl
    rw [show getBestTcpReverseConnectEndpoint (first :: rest) remote boundAddr = _ from
      if_pos hfirst] at hwritten
    cases hwritten
    exact ⟨fun _ => ⟨first, mem_cons_self, hfirst, rfl⟩,
      fun hnone => absurd ⟨first, mem_cons_self, hfirst⟩ hnone⟩

/-- Both functions are right exactly when the first tunnel of the enumeration is right for all. -/
theorem choices_right_iff (remote : BdtEndpoint)
    (boundAddr : List BdtEndpoint) :
    RightConnector tunnels (getBestConnectorForConnection tunnels) ∧
        ReverseRight tunnels remote boundAddr ↔
      FirstIsBest tunnels ∧ FirstLeadsTo tunnels remote :=
  and_congr (rightConnector_iff tunnels) (reverseRight_iff tunnels remote boundAddr)

/-- A tunnel from a port to a port of 10.0.0.1. -/
def portTunnel (udp : Bool) (localPort remotePort : UInt16) : SocketTunnel where
  udp
  localEndpoint :=
    { flag := if udp then 12 else 10, port := localPort, address := .ofList 16 [10, 0, 0, 1] }
  remoteEndpoint :=
    { flag := if udp then 12 else 10, port := remotePort, address := .ofList 16 [10, 0, 0, 2] }
  lastRecv := 0

/-- With a udp tunnel in front of an active tcp tunnel the package connector is chosen. -/
theorem active_tunnel_missed :
    getBestConnectorForConnection [portTunnel true 5000 5001, portTunnel false 0 80] = .package ∧
      ¬ RightConnector [portTunnel true 5000 5001, portTunnel false 0 80]
        (getBestConnectorForConnection [portTunnel true 5000 5001, portTunnel false 0 80]) := by
  refine ⟨rfl, fun h => ?_⟩
  obtain ⟨_, -, -, -, heq⟩ := h.active ⟨portTunnel false 0 80, by simp, rfl, rfl⟩
  cases heq

/-! ## Sending -/

def BDT_TUNNEL_SEND_FLAGS_DEFAULT_ONLY : UInt32 := 0
def BDT_TUNNEL_SEND_FLAGS_BUILD : UInt32 := 1
def BDT_TUNNEL_SEND_FLAGS_UDP_ONLY : UInt32 := 2

/-- What `BdtTunnel_Send` looks at. -/
structure SendState where
  defaultTunnel : Option SocketTunnel
  /-- The tunnels in the map, in the order of the enumeration. -/
  tunnels : List SocketTunnel
  /-- Whether `builder` is set. -/
  building : Bool

/-- What `BdtTunnel_Send` ends with. -/
inductive SendOutcome where
  /-- `TunnelContainerSendFromTunnel`. -/
  | sent (tunnel : SocketTunnel)
  | notFound
  | pending
  /-- `TunnelBuilderBuildForConnectTunnel`, of the builder that was created. -/
  | build
  /-- The same function, of the null pointer. -/
  | buildNull
  deriving DecidableEq

/-- The loop over the tunnels, with `tunnel`: the first udp tunnel, else the last one. -/
def exploreTunnels : List SocketTunnel → Option SocketTunnel → Option SocketTunnel
  | [], tunnel => tunnel
  | curTunnel :: rest, _ =>
    if curTunnel.udp then some curTunnel else exploreTunnels rest (some curTunnel)

/-- `BdtTunnel_Send` behind the default tunnel. That there is a builder is noted in `result`, which is
not returned. -/
def sendBehindDefault (flags : UInt32) : SendOutcome :=
  match exploreTunnels state.tunnels none with
  | some tunnel =>
    if flags &&& BDT_TUNNEL_SEND_FLAGS_UDP_ONLY ≠ 0 ∧ tunnel.udp = false then .notFound
    else .sent tunnel
  | none =>
    if flags &&& BDT_TUNNEL_SEND_FLAGS_BUILD = 0 then .notFound
    else if state.building then .buildNull
    else .build

/-- `BdtTunnel_Send`; the flags are those of `defaultParams` when `sendParams` is the null pointer. -/
def BdtTunnel_Send (sendParams : Option UInt32) : SendOutcome :=
  let flags := sendParams.getD BDT_TUNNEL_SEND_FLAGS_DEFAULT_ONLY
  match state.defaultTunnel with
  | some tunnel =>
    if flags &&& BDT_TUNNEL_SEND_FLAGS_UDP_ONLY = 0 ∨ tunnel.udp = true then .sent tunnel
    else sendBehindDefault state flags
  | none =>
    if flags = BDT_TUNNEL_SEND_FLAGS_DEFAULT_ONLY then .notFound
    else sendBehindDefault state flags

/-- The flags of a call. -/
def sendFlags (sendParams : Option UInt32) : UInt32 :=
  sendParams.getD BDT_TUNNEL_SEND_FLAGS_DEFAULT_ONLY

def UdpOnly (sendParams : Option UInt32) : Prop :=
  sendFlags sendParams &&& BDT_TUNNEL_SEND_FLAGS_UDP_ONLY ≠ 0

def MayBuild (sendParams : Option UInt32) : Prop :=
  sendFlags sendParams &&& BDT_TUNNEL_SEND_FLAGS_BUILD ≠ 0

/-- The default tunnel may be used. -/
def DefaultAllowed (sendParams : Option UInt32) (tunnel : SocketTunnel) : Prop :=
  state.defaultTunnel = some tunnel ∧ (UdpOnly sendParams → tunnel.udp = true)

/-- The default tunnel may not be used, and the call is not one that wants no other tunnel. -/
def LooksFurther (sendParams : Option UInt32) : Prop :=
  (∀ tunnel, ¬ DefaultAllowed state sendParams tunnel) ∧
    (state.defaultTunnel = none → sendFlags sendParams ≠ BDT_TUNNEL_SEND_FLAGS_DEFAULT_ONLY)

/-- What `BdtTunnel_Send` has to do. -/
structure RightSend (state : SendState) (sendParams : Option UInt32) (outcome : SendOutcome) :
    Prop where
  defaultTunnel : ∀ tunnel, DefaultAllowed state sendParams tunnel → outcome = .sent tunnel
  udpOnly : UdpOnly sendParams → ∀ tunnel, outcome = .sent tunnel → tunnel.udp = true
  udpFirst : LooksFurther state sendParams → (∃ tunnel ∈ state.tunnels, tunnel.udp = true) →
    ∃ tunnel ∈ state.tunnels, tunnel.udp = true ∧ outcome = .sent tunnel
  otherwise : LooksFurther state sendParams → ¬ UdpOnly sendParams → state.tunnels ≠ [] →
    ∃ tunnel ∈ state.tunnels, outcome = .sent tunnel
  build : LooksFurther state sendParams → state.tunnels = [] → MayBuild sendParams →
    state.building = false → outcome = .build
  buildOnly : outcome = .build → MayBuild sendParams ∧ state.building = false
  noOther : ∀ tunnel, outcome = .sent tunnel →
    DefaultAllowed state sendParams tunnel ∨ LooksFurther state sendParams ∧ tunnel ∈ state.tunnels
  noBuilder : outcome ≠ .buildNull

/-- The call gets to the builder, and there is one already. -/
def BuildsWhileBuilding (sendParams : Option UInt32) : Prop :=
  LooksFurther state sendParams ∧ state.tunnels = [] ∧ MayBuild sendParams ∧ state.building = true

variable {tunnels : List SocketTunnel}

theorem exploreTunnels_mem {start : Option SocketTunnel}
    (h : exploreTunnels tunnels start = some tunnel) :
    tunnel ∈ tunnels ∨ tunnels = [] ∧ start = some tunnel := by
  induction tunnels generalizing start with
  | nil => exact .inr ⟨rfl, h⟩
  | cons _ _ ih =>
    rw [exploreTunnels] at h
    split at h
    case isTrue =>
      cases h
      exact .inl mem_cons_self
    case isFalse =>
    rcases ih h with hmem | ⟨-, heq⟩
    · exact .inl (mem_cons_of_mem _ hmem)
    · cases heq
      exact .inl mem_cons_self

/-- A tunnel that is not udp is chosen only where there is no udp tunnel. -/
theorem exploreTunnels_udp (start : Option SocketTunnel)
    (hudp : ∃ tunnel ∈ tunnels, tunnel.udp = true) :
    ∃ tunnel ∈ tunnels, tunnel.udp = true ∧ exploreTunnels tunnels start = some tunnel := by
  induction tunnels generalizing start with
  | nil =>
    obtain ⟨tunnel, hmem, -⟩ := hudp
    cases hmem
  | cons first rest ih =>
    cases hfirst : first.udp with
    | true =>
      refine ⟨first, mem_cons_self, hfirst, ?_⟩
      rw [exploreTunnels, if_pos hfirst]
    | false =>
      obtain ⟨tunnel, hmem, htunnel⟩ := hudp
      have hrest : tunnel ∈ rest := by
        rcases mem_cons.mp hmem with rfl | hmem
        · cases hfirst.symm.trans htunnel
        · exact hmem
      obtain ⟨found, hfound, hfoundUdp, heq⟩ := ih (some first) ⟨tunnel, hrest, htunnel⟩
      refine ⟨found, mem_cons_of_mem _ hfound, hfoundUdp, ?_⟩
      rw [exploreTunnels, if_neg (by rw [hfirst]; exact Bool.false_ne_true)]
      exact heq

theorem exploreTunnels_eq_none {start : Option SocketTunnel}
    (h : exploreTunnels tunnels start = none) : tunnels = [] := by
  induction tunnels generalizing start with
  | nil => rfl
  | cons _ _ ih =>
    rw [exploreTunnels] at h
    split at h
    case isTrue => cases h
    case isFalse =>
      rw [ih h] at h
      cases h

variable {state : SendState}

theorem defaultAllowed_iff :
    DefaultAllowed state sendParams tunnel ↔
      state.defaultTunnel = some tunnel ∧
        (sendFlags sendParams &&& BDT_TUNNEL_SEND_FLAGS_UDP_ONLY = 0 ∨ tunnel.udp = true) := by
  unfold DefaultAllowed UdpOnly
  refine and_congr_right fun _ => ?_
  rw [ne_eq, ← or_iff_not_imp_left]

theorem send_default (h : DefaultAllowed state sendParams tunnel) :
    BdtTunnel_Send state sendParams = .sent tunnel := by
  obtain ⟨hdefault, hallowed⟩ := defaultAllowed_iff.mp h
  unfold BdtTunnel_Send
  rw [hdefault]
  exact if_pos hallowed

theorem send_further (h : LooksFurther state sendParams) :
    BdtTunnel_Send state sendParams = sendBehindDefault state (sendFlags sendParams) := by
  obtain ⟨hnot, hflags⟩ := h
  unfold BdtTunnel_Send
  cases hdefault : state.defaultTunnel with
  | none => exact if_neg (hflags hdefault)
  | some tunnel => exact if_neg fun hallowed => hnot tunnel (defaultAllowed_iff.mpr ⟨hdefault, hallowed⟩)

/-- A call either uses the default tunnel, or looks further, or wants no other tunnel. -/
theorem send_cases (state : SendState) (sendParams : Option UInt32) :
    (∃ tunnel, DefaultAllowed state sendParams tunnel ∧
        BdtTunnel_Send state sendParams = .sent tunnel) ∨
      LooksFurther state sendParams ∧
        BdtTunnel_Send state sendParams = sendBehindDefault state (sendFlags sendParams) ∨
      ((∀ tunnel, ¬ DefaultAllowed state sendParams tunnel) ∧ ¬ LooksFurther state sendParams ∧
        BdtTunnel_Send state sendParams = .notFound) := by
  by_cases hallowed : ∃ tunnel, DefaultAllowed state sendParams tunnel
  · obtain ⟨tunnel, htunnel⟩ := hallowed
    exact .inl ⟨tunnel, htunnel, send_default htunnel⟩
  have hnot : ∀ tunnel, ¬ DefaultAllowed state sendParams tunnel :=
    fun tunnel htunnel => hallowed ⟨tunnel, htunnel⟩
  by_cases hflags : state.defaultTunnel = none →
      sendFlags sendParams ≠ BDT_TUNNEL_SEND_FLAGS_DEFAULT_ONLY
  · exact .inr (.inl ⟨⟨hnot, hflags⟩, send_further ⟨hnot, hflags⟩⟩)
  refine .inr (.inr ⟨hnot, fun h => hflags h.2, ?_⟩)
  push Not at hflags
  obtain ⟨hdefault, hflags⟩ := hflags
  unfold BdtTunnel_Send
  rw [hdefault]
  exact if_pos hflags

theorem exploreTunnels_nil : exploreTunnels [] none = none :=
  rfl

/-- The builder is used in spite of one that is there exactly in this case. -/
theorem send_buildNull_iff (state : SendState) (sendParams : Option UInt32) :
    BdtTunnel_Send state sendParams = .buildNull ↔ BuildsWhileBuilding state sendParams := by
  constructor
  · intro h
    rcases send_cases state sendParams with ⟨_, -, heq⟩ | ⟨hfurther, heq⟩ | ⟨-, -, heq⟩
    · cases h.symm.trans heq
    · rw [heq, sendBehindDefault] at h
      cases hexplore : exploreTunnels state.tunnels none with
      | some =>
        rw [hexplore] at h
        simp only at h
        split at h <;> cases h
      | none =>
        rw [hexplore] at h
        simp only at h
        split at h
        case isTrue => cases h
        case isFalse hbuild =>
        split at h
        case isTrue hbuilding =>
          exact ⟨hfurther, exploreTunnels_eq_none hexplore, hbuild, hbuilding⟩
        case isFalse => cases h
    · cases h.symm.trans heq
  rintro ⟨hfurther, htunnels, hbuild, hbuilding⟩
  rw [send_further hfurther, sendBehindDefault, htunnels, exploreTunnels_nil]
  show (if _ then _ else if state.building then SendOutcome.buildNull else .build) = _
  rw [if_neg hbuild, if_pos hbuilding]

/-- Unless there is a builder already, the call does what it has to do. -/
theorem rightSend_of_not (h : ¬ BuildsWhileBuilding state sendParams) :
    RightSend state sendParams (BdtTunnel_Send state sendParams) := by
  have hnull : BdtTunnel_Send state sendParams ≠ .buildNull :=
    mt (send_buildNull_iff state sendParams).mp h
  rcases send_cases state sendParams with ⟨tunnel, hallowed, heq⟩ | ⟨hfurther, heq⟩ |
      ⟨hnot, hnotFurther, heq⟩
  · rw [heq] at hnull ⊢
    have hnotFurther : ¬ LooksFurther state sendParams := fun hfurther => hfurther.1 tunnel hallowed
    refine ⟨?_, ?_, fun h => absurd h hnotFurther, fun h => absurd h hnotFurther,
      fun h => absurd h hnotFurther, nofun, ?_, hnull⟩
    · intro other hother
      rw [Option.some.inj (hallowed.1.symm.trans hother.1)]
    · intro hudp other hother
      cases hother
      exact hallowed.2 hudp
    · intro other hother
      cases hother
      exact .inl hallowed
  · rw [heq] at hnull ⊢
    have hnot := hfurther.1
    cases hexplore : exploreTunnels state.tunnels none with
    | some tunnel =>
      have hmem : tunnel ∈ state.tunnels :=
        (exploreTunnels_mem hexplore).resolve_right fun h => nomatch h.2
      by_cases hudpOnly : UdpOnly sendParams ∧ tunnel.udp = false
      · have houtcome : sendBehindDefault state (sendFlags sendParams) = .notFound := by
          rw [sendBehindDefault, hexplore]
          exact if_pos hudpOnly
        rw [houtcome]
        refine ⟨fun other hother => absurd hother (hnot other), fun _ _ => nofun, fun _ hudp => ?_,
          fun _ hnotOnly => absurd hudpOnly.1 hnotOnly, ?_, nofun, nofun, nofun⟩
        · -- a udp tunnel would have been found
          obtain ⟨found, -, hfoundUdp, hfound⟩ := exploreTunnels_udp none hudp
          rw [hexplore] at hfound
          cases hfound
          cases hudpOnly.2.symm.trans hfoundUdp
        · intro _ hempty
          rw [hempty] at hmem
          cases hmem
      have houtcome : sendBehindDefault state (sendFlags sendParams) = .sent tunnel := by
        rw [sendBehindDefault, hexplore]
        exact if_neg hudpOnly
      rw [houtcome]
      refine ⟨fun other hother => absurd hother (hnot other), ?_, fun _ hudp => ?_,
        fun _ _ _ => ⟨tunnel, hmem, rfl⟩, ?_, nofun, ?_, nofun⟩
      · intro hudp other hother
        cases hother
        by_contra hnotUdp
        exact hudpOnly ⟨hudp, Bool.eq_false_iff.mpr hnotUdp⟩
      · obtain ⟨found, hfoundMem, hfoundUdp, hfound⟩ := exploreTunnels_udp none hudp
        rw [hexplore] at hfound
        cases hfound
        exact ⟨tunnel, hmem, hfoundUdp, rfl⟩
      · intro _ hempty
        rw [hempty] at hmem
        cases hmem
      · intro other hother
        cases hother
        exact .inr ⟨hfurther, hmem⟩
    | none =>
      have htunnels := exploreTunnels_eq_none hexplore
      have hudp : ¬ ∃ tunnel ∈ state.tunnels, tunnel.udp = true := by
        rw [htunnels]
        rintro ⟨tunnel, hmem, -⟩
        cases hmem
      by_cases hbuild : MayBuild sendParams
      · have hbuilding : state.building = false := by
          by_contra hbuilding
          exact h ⟨hfurther, htunnels, hbuild, by simpa using hbuilding⟩
        have houtcome : sendBehindDefault state (sendFlags sendParams) = .build := by
          rw [sendBehindDefault, hexplore]
          show (if _ then _ else if state.building then SendOutcome.buildNull else .build) = _
          rw [if_neg hbuild, hbuilding]
          rfl
        rw [houtcome]
        exact ⟨fun other hother => absurd hother (hnot other), fun _ _ => nofun,
          fun _ h => absurd h hudp, fun _ _ h => absurd htunnels h, fun _ _ _ _ => rfl,
          fun _ => ⟨hbuild, hbuilding⟩, nofun, nofun⟩
      have houtcome : sendBehindDefault state (sendFlags sendParams) = .notFound := by
        rw [sendBehindDefault, hexplore]
        exact if_pos (Classical.not_not.mp hbuild)
      rw [houtcome]
      exact ⟨fun other hother => absurd hother (hnot other), fun _ _ => nofun,
        fun _ h => absurd h hudp, fun _ _ h => absurd htunnels h,
        fun _ _ h => absurd h hbuild, nofun, nofun, nofun⟩
  rw [heq]
  refine ⟨fun other hother => absurd hother (hnot other), fun _ _ => nofun,
    fun h => absurd h hnotFurther, fun h => absurd h hnotFurther, fun h => absurd h hnotFurther,
    nofun, nofun, nofun⟩

/-- `BdtTunnel_Send` does what it has to do exactly when it does not get to the builder while there is
one. -/
theorem rightSend_iff (state : SendState) (sendParams : Option UInt32) :
    RightSend state sendParams (BdtTunnel_Send state sendParams) ↔
      ¬ BuildsWhileBuilding state sendParams :=
  ⟨fun h hbuilds => h.noBuilder ((send_buildNull_iff state sendParams).mpr hbuilds), rightSend_of_not⟩

/-- A call with `BDT_TUNNEL_SEND_FLAGS_BUILD` while a builder is in progress and no tunnel exists. -/
theorem send_while_building :
    BdtTunnel_Send { defaultTunnel := none, tunnels := [], building := true }
        (some BDT_TUNNEL_SEND_FLAGS_BUILD) = .buildNull ∧
      ¬ RightSend { defaultTunnel := none, tunnels := [], building := true }
        (some BDT_TUNNEL_SEND_FLAGS_BUILD)
        (BdtTunnel_Send { defaultTunnel := none, tunnels := [], building := true }
          (some BDT_TUNNEL_SEND_FLAGS_BUILD)) :=
  ⟨rfl, fun h => h.noBuilder rfl⟩

end Bdt
