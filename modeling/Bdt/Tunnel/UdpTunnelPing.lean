import Bdt.Tunnel.TcpTunnelDeath

/-!
# Pings of udp tunnels

A model of the activator of a `UdpTunnel` and of its ping timer, over the tunnels of a container. A
tunnel is active while it is the default tunnel of its container.

`udp_tunnel_lives_iff`: the active count is the number of starts minus that of stops, one timer runs
for the default tunnel and none for another one, and a timer removes a tunnel if and only if it was
silent for too long, in every run in which no udp tunnel becomes the default tunnel, and in no other
run. `UdpTunnelStartActivitor` decrements the count that it should increment, so that no timer is ever
made.
-/

namespace Bdt

open Base

/-- The members of a `UdpTunnel` that its timer uses. -/
structure Activitor where
  activeCount : Int := 0
  startPingLastRecv : UInt64 := 0
  deriving DecidableEq

inductive ActivitorEntry where
  | started (tunnel : Nat) (now : UInt64)
  | stopped (tunnel : Nat)
  /-- A package arrived. -/
  | received (tunnel : Nat)
  deriving DecidableEq

/-- The tunnels of a container, their activators, and the tunnels whose timers are set. -/
structure UdpTunnels where
  container : Tunnels := {}
  activitors : Nat → Activitor := fun _ => {}
  timers : List Nat := []
  history : List ActivitorEntry := []

inductive UdpTunnelEvent where
  /-- `TunnelContainerCreateTunnel`. -/
  | createTunnel (localEndpoint remoteEndpoint : BdtEndpoint) (lastRecv : UInt64)
  /-- `TunnelContainerSetDefaultTunnel`. -/
  | setDefaultTunnel (tunnel : Option Nat) (now : UInt64)
  /-- A timer expires. If the map is enumerated, its tunnels have these states. -/
  | pingTimeout (i : Nat) (now : UInt64) (seen : List (Nat × TcpTunnelState))
  /-- `BdtTunnel_PushUdpPackage`. If it creates a tunnel, the change of the default tunnel is an event
  of its own. -/
  | pushUdpPackage (localEndpoint remoteEndpoint : BdtEndpoint) (now : UInt64)
  deriving DecidableEq

namespace UdpTunnels

/-- `SocketTunnelGetLastRecv`. -/
def lastRecvOf (container : Tunnels) (tunnel : Nat) : UInt64 :=
  (container.heap[tunnel]?).elim 0 (·.lastRecv)

/-- `UdpTunnelStartActivitor`. -/
def startActivitor (tunnels : UdpTunnels) (tunnel : Nat) (now : UInt64) : UdpTunnels :=
  let activitor := tunnels.activitors tunnel
  let activeCount := activitor.activeCount - 1
  let history := tunnels.history ++ [.started tunnel now]
  if activeCount ≠ 1 then
    { tunnels with
      activitors := Function.update tunnels.activitors tunnel { activitor with activeCount }
      history }
  else
    { tunnels with
      activitors := Function.update tunnels.activitors tunnel
        { activeCount, startPingLastRecv := lastRecvOf tunnels.container tunnel }
      timers := tunnels.timers ++ [tunnel]
      history }

/-- `UdpTunnelStopActivitor`. -/
def stopActivitor (tunnels : UdpTunnels) (tunnel : Nat) : UdpTunnels :=
  let activitor := tunnels.activitors tunnel
  { tunnels with
    activitors := Function.update tunnels.activitors tunnel
      { activitor with activeCount := activitor.activeCount - 1 }
    history := tunnels.history ++ [.stopped tunnel] }

/-- `SOCKET_TUNNEL_STOP_ACTIVITOR`, unless the pointer is null. That of a `TcpTunnel` does nothing. -/
def stopSocketTunnel (tunnels : UdpTunnels) : Option Nat → UdpTunnels
  | some tunnel => if tunnels.container.isUdp tunnel then tunnels.stopActivitor tunnel else tunnels
  | none => tunnels

/-- `SOCKET_TUNNEL_START_ACTIVITOR`, unless the pointer is null. That of a `TcpTunnel` does nothing. -/
def startSocketTunnel (tunnels : UdpTunnels) (now : UInt64) : Option Nat → UdpTunnels
  | some tunnel => if tunnels.container.isUdp tunnel then tunnels.startActivitor tunnel now else tunnels
  | none => tunnels

/-- `TunnelContainerSetDefaultTunnel`. -/
def setDefaultTunnel (tunnels : UdpTunnels) (tunnel : Option Nat) (now : UInt64) : UdpTunnels :=
  let old := tunnels.container.defaultTunnel
  if old = tunnel then tunnels
  else
    let changed := { tunnels with container := { tunnels.container with defaultTunnel := tunnel } }
    (changed.stopSocketTunnel old).startSocketTunnel now tunnel

/-- `TunnelContainerOnTunnelDead`. -/
def onTunnelDead (tunnels : UdpTunnels) (tunnel : Nat) (lastRecv now : UInt64)
    (seen : List (Nat × TcpTunnelState)) : Option UdpTunnels := do
  let (container, success) ← tunnels.container.deleteTunnel tunnel lastRecv
  let tunnels := { tunnels with container }
  if success then (container.choose seen).map fun chosen => tunnels.setDefaultTunnel chosen now
  else some tunnels

variable (pingOvertime : UInt64)

/-- `UdpTunnelOnPingTimeout`. -/
def onPingTimeout (tunnels : UdpTunnels) (tunnel : Nat) (now : UInt64)
    (seen : List (Nat × TcpTunnelState)) : Option UdpTunnels :=
  let activitor := tunnels.activitors tunnel
  if activitor.activeCount ≤ 0 then some tunnels
  else
    let lastRecv := lastRecvOf tunnels.container tunnel
    if lastRecv ≠ activitor.startPingLastRecv ∧ now / 1000 - lastRecv > pingOvertime then
      tunnels.onTunnelDead tunnel activitor.startPingLastRecv now seen
    else some { tunnels with timers := tunnels.timers ++ [tunnel] }

/-- The tunnel of `BdtTunnel_PushUdpPackage` receives a package. -/
def receive (tunnels : UdpTunnels) (container : Tunnels) (tunnel : Nat) (now : UInt64) : UdpTunnels :=
  { tunnels with
    container := { container with
      heap := container.heap.modify tunnel fun found => { found with lastRecv := now } }
    history := tunnels.history ++ [.received tunnel] }

def handle (tunnels : UdpTunnels) : UdpTunnelEvent → Option UdpTunnels
  | .createTunnel localEndpoint remoteEndpoint lastRecv =>
    (tunnels.container.addTunnel localEndpoint remoteEndpoint lastRecv).map
      fun (container, _, _) => { tunnels with container }
  | .setDefaultTunnel tunnel now =>
    if ∀ chosen ∈ tunnel, chosen < tunnels.container.heap.length then
      some (tunnels.setDefaultTunnel tunnel now)
    else none
  | .pingTimeout i now seen => do
    let tunnel ← tunnels.timers[i]?
    { tunnels with timers := tunnels.timers.eraseIdx i }.onPingTimeout pingOvertime tunnel now seen
  | .pushUdpPackage localEndpoint remoteEndpoint now =>
    if localEndpoint.flag &&& BDT_ENDPOINT_PROTOCOL_UDP = 0 then none
    else
      match findMember TunnelMapCompare tunnels.container.tunnels
          { localEndpoint, remoteEndpoint, tunnel := 0 } with
      | some found => some (tunnels.receive tunnels.container found.tunnel now)
      | none => (tunnels.container.addTunnel localEndpoint remoteEndpoint 0).map
          fun (container, tunnel, _) => tunnels.receive container tunnel now

/-! ## What pings promise -/

def isStart (tunnel : Nat) : ActivitorEntry → Bool
  | .started other _ => other = tunnel
  | _ => false

/-- When the ping round of a tunnel began, if no package arrived since. -/
def silentSince (tunnel : Nat) : List ActivitorEntry → Option UInt64
  | [] => none
  | .started other now :: before => if other = tunnel then some now else silentSince tunnel before
  | .stopped other :: before => if other = tunnel then none else silentSince tunnel before
  | .received other :: before => if other = tunnel then none else silentSince tunnel before

/-- The counts and the timers are right. -/
structure Active (tunnels : UdpTunnels) (tunnel : Nat) : Prop where
  counted : (tunnels.activitors tunnel).activeCount =
    tunnels.history.countP (isStart tunnel) - tunnels.history.count (.stopped tunnel)
  timed : tunnels.timers.count tunnel =
    if tunnels.container.defaultTunnel = some tunnel then 1 else 0

/-- A timer of the default tunnel removes it if it was silent for too long, and otherwise does not. -/
def Checked (tunnels : UdpTunnels) (tunnel : Nat) (now : UInt64) (next : UdpTunnels) : Prop :=
  tunnels.container.defaultTunnel = some tunnel →
    match silentSince tunnel tunnels.history.reverse with
    | some since => pingOvertime < now / 1000 - since / 1000 →
        tunnel ∉ next.container.mapped ∧ next.container.defaultTunnel ≠ some tunnel
    | none => tunnel ∈ next.container.mapped ∧ next.container.defaultTunnel = some tunnel

/-- What an event leaves is right for every udp tunnel. -/
def Lives (tunnels : UdpTunnels) (event : UdpTunnelEvent) : Prop :=
  ∀ next, tunnels.handle pingOvertime event = some next → ∀ tunnel,
    next.container.isUdp tunnel = true → next.Active tunnel ∧
      ∀ i now seen, event = .pingTimeout i now seen → tunnels.timers[i]? = some tunnel →
        Checked pingOvertime tunnels tunnel now next

/-- No udp tunnel becomes the default tunnel. -/
def NeverStarts (tunnels : UdpTunnels) : UdpTunnelEvent → Prop
  | .setDefaultTunnel (some tunnel) _ => tunnels.container.isUdp tunnel = false
  | _ => True

/-! ## Runs in which no udp tunnel is active -/

open Tunnels TunnelRun

variable {pingOvertime} {tunnels next : UdpTunnels} {tunnel : Nat}

/-- No udp tunnel was ever active. -/
structure Inactive (tunnels : UdpTunnels) : Prop where
  timers : tunnels.timers = []
  counts : ∀ tunnel, (tunnels.activitors tunnel).activeCount = 0
  history : ∀ entry ∈ tunnels.history, ∃ tunnel, entry = .received tunnel
  default : ∀ tunnel, tunnels.container.defaultTunnel = some tunnel →
    tunnel < tunnels.container.heap.length ∧ tunnels.container.isUdp tunnel = false

theorem inactive_start : Inactive {} where
  timers := rfl
  counts := fun _ => rfl
  history := nofun
  default := nofun

theorem Inactive.active (h : tunnels.Inactive) (hudp : tunnels.container.isUdp tunnel = true) :
    tunnels.Active tunnel where
  counted := by
    have hstarts : tunnels.history.countP (isStart tunnel) = 0 := by
      refine List.countP_eq_zero.mpr fun entry hmem => ?_
      obtain ⟨other, rfl⟩ := h.history entry hmem
      exact Bool.false_ne_true
    have hstops : tunnels.history.count (.stopped tunnel) = 0 := by
      refine List.count_eq_zero.mpr fun hmem => ?_
      obtain ⟨other, heq⟩ := h.history _ hmem
      cases heq
    rw [h.counts, hstarts, hstops]
    rfl
  timed := by
    have hne : tunnels.container.defaultTunnel ≠ some tunnel := by
      intro hdefault
      rw [(h.default tunnel hdefault).2] at hudp
      cases hudp
    rw [h.timers, if_neg hne]
    rfl

variable {container : Tunnels}

theorem isUdp_of_extends {next : Tunnels} (h : Extends container next)
    (hlt : tunnel < container.heap.length) : next.isUdp tunnel = container.isUdp tunnel := by
  obtain ⟨other, hother, hkind⟩ := h tunnel _ (List.getElem?_eq_getElem hlt)
  unfold isUdp
  rw [hother, List.getElem?_eq_getElem hlt]
  exact (Prod.mk.inj hkind).1

theorem length_of_extends {next : Tunnels} (h : Extends container next)
    (hlt : tunnel < container.heap.length) : tunnel < next.heap.length := by
  obtain ⟨other, hother, -⟩ := h tunnel _ (List.getElem?_eq_getElem hlt)
  exact (List.getElem?_eq_some_iff.mp hother).1

/-- The tunnels are changed, but not the default tunnel. -/
theorem Inactive.extends (h : tunnels.Inactive) (hextends : Extends tunnels.container container)
    (hdefault : container.defaultTunnel = tunnels.container.defaultTunnel) :
    Inactive { tunnels with container } where
  timers := h.timers
  counts := h.counts
  history := h.history
  default := by
    intro tunnel hsome
    obtain ⟨hlt, hudp⟩ := h.default tunnel (hdefault ▸ hsome)
    exact ⟨length_of_extends hextends hlt, (isUdp_of_extends hextends hlt).trans hudp⟩

theorem extends_modify (container : Tunnels) (tunnel : Nat) (now : UInt64) :
    Extends container { container with
      heap := container.heap.modify tunnel fun found => { found with lastRecv := now } } := by
  intro i found hfound
  show ∃ other, (container.heap.modify tunnel _)[i]? = some other ∧ _
  rw [List.getElem?_modify, hfound]
  split
  case isTrue => exact ⟨_, rfl, rfl⟩
  case isFalse => exact ⟨found, rfl, rfl⟩

section

variable (h : tunnels.Inactive)
include h

theorem Inactive.receive (hextends : Extends tunnels.container container)
    (hdefault : container.defaultTunnel = tunnels.container.defaultTunnel) (tunnel : Nat)
    (now : UInt64) : (tunnels.receive container tunnel now).Inactive := by
  have hkept := (h.extends hextends hdefault).extends (extends_modify container tunnel now) rfl
  refine ⟨hkept.timers, hkept.counts, fun entry hmem => ?_, hkept.default⟩
  rcases List.mem_append.mp hmem with hmem | hmem
  · exact h.history entry hmem
  · exact ⟨tunnel, List.mem_singleton.mp hmem⟩

/-- A tunnel becomes the default tunnel in place of one that is not a udp tunnel. -/
theorem Inactive.setDefaultTunnel_eq {chosen : Option Nat} (now : UInt64)
    (hne : tunnels.container.defaultTunnel ≠ chosen) :
    tunnels.setDefaultTunnel chosen now =
      ({ tunnels with container := { tunnels.container with defaultTunnel := chosen } } :
        UdpTunnels).startSocketTunnel now chosen := by
  unfold UdpTunnels.setDefaultTunnel
  rw [if_neg hne]
  refine congrArg (startSocketTunnel · now chosen) ?_
  cases hold : tunnels.container.defaultTunnel with
  | none => rfl
  | some old =>
    have hudp : tunnels.container.isUdp old = false := (h.default old hold).2
    exact if_neg (by show ¬ tunnels.container.isUdp old = true; rw [hudp]; exact Bool.false_ne_true)

theorem Inactive.setDefaultTunnel {chosen : Option Nat} (now : UInt64)
    (hcreated : ∀ tunnel ∈ chosen, tunnel < tunnels.container.heap.length)
    (htcp : ∀ tunnel ∈ chosen, tunnels.container.isUdp tunnel = false) :
    (tunnels.setDefaultTunnel chosen now).Inactive := by
  by_cases hsame : tunnels.container.defaultTunnel = chosen
  · unfold UdpTunnels.setDefaultTunnel
    rw [if_pos hsame]
    exact h
  have hchanged : Inactive
      { tunnels with container := { tunnels.container with defaultTunnel := chosen } } :=
    ⟨h.timers, h.counts, h.history, fun tunnel hsome => ⟨hcreated tunnel hsome, htcp tunnel hsome⟩⟩
  rw [h.setDefaultTunnel_eq now hsame]
  cases chosen with
  | none => exact hchanged
  | some tunnel =>
    have hudp : tunnels.container.isUdp tunnel = false := htcp tunnel rfl
    simp only [startSocketTunnel]
    split
    case isTrue htrue => exact absurd (hudp.symm.trans htrue) Bool.false_ne_true
    case isFalse => exact hchanged

theorem Inactive.handle {event : UdpTunnelEvent}
    (hnever : tunnels.NeverStarts event) (hnext : tunnels.handle pingOvertime event = some next) :
    next.Inactive := by
  cases event with
  | createTunnel =>
    obtain ⟨⟨container, tunnel, added⟩, hadd, rfl⟩ := Option.map_eq_some_iff.mp hnext
    exact h.extends (grows_addTunnel hadd).kept (keeps_addTunnel hadd tunnel).2.2.1
  | setDefaultTunnel _ now =>
    simp only [UdpTunnels.handle] at hnext
    split at hnext
    case isTrue hcreated =>
      cases hnext
      refine h.setDefaultTunnel now hcreated fun tunnel hmem => ?_
      cases hmem
      exact hnever
    case isFalse => cases hnext
  | pingTimeout =>
    obtain ⟨tunnel, htimer, -⟩ := Option.bind_eq_some_iff.mp hnext
    rw [h.timers] at htimer
    cases htimer
  | pushUdpPackage _ _ now =>
    simp only [UdpTunnels.handle] at hnext
    split at hnext
    case isTrue => cases hnext
    case isFalse =>
    split at hnext
    case h_1 found _ =>
      cases hnext
      exact h.receive (grows_refl _).kept rfl found.tunnel now
    case h_2 =>
      obtain ⟨⟨container, tunnel, added⟩, hadd, rfl⟩ := Option.map_eq_some_iff.mp hnext
      exact h.receive (grows_addTunnel hadd).kept (keeps_addTunnel hadd tunnel).2.2.1 tunnel now

theorem Inactive.started (hudp : tunnels.container.isUdp tunnel = true) (now : UInt64) :
    (tunnels.setDefaultTunnel (some tunnel) now).container.isUdp tunnel = true ∧
      ¬ (tunnels.setDefaultTunnel (some tunnel) now).Active tunnel := by
  have hne : tunnels.container.defaultTunnel ≠ some tunnel := by
    intro hdefault
    rw [(h.default tunnel hdefault).2] at hudp
    cases hudp
  have hzero : tunnels.history.countP (isStart tunnel) - tunnels.history.count (.stopped tunnel) =
      (0 : Int) := by
    rw [← (h.active hudp).counted]
    exact h.counts tunnel
  have hstart : startSocketTunnel { tunnels with
      container := { tunnels.container with defaultTunnel := some tunnel } } now (some tunnel) =
      { tunnels with
        container := { tunnels.container with defaultTunnel := some tunnel }
        activitors := Function.update tunnels.activitors tunnel
          { tunnels.activitors tunnel with activeCount := -1 }
        history := tunnels.history ++ [.started tunnel now] } := by
    refine (if_pos hudp).trans ?_
    unfold startActivitor
    simp only [h.counts]
    rfl
  rw [h.setDefaultTunnel_eq now hne, hstart]
  refine ⟨hudp, fun hactive => ?_⟩
  have hcounted := hactive.counted
  simp only [Function.update_self, List.countP_append, List.count_append] at hcounted
  have hone : [ActivitorEntry.started tunnel now].countP (isStart tunnel) = 1 :=
    List.countP_cons_of_pos (decide_eq_true rfl)
  have hnone : [ActivitorEntry.started tunnel now].count (.stopped tunnel) = 0 := rfl
  rw [hone, hnone] at hcounted
  omega

end

/-- Every event of a run leaves what is right for the udp tunnels if and only if none of them becomes
the default tunnel. -/
theorem udp_tunnel_lives_iff (pingOvertime : UInt64) (events : List UdpTunnelEvent) :
    StepsMeet (handle pingOvertime) (Lives pingOvertime) {} events ↔
      StepsMeet (handle pingOvertime) NeverStarts {} events := by
  refine stepsMeet_congr inactive_start (fun tunnels event next h hnever hnext => h.handle hnever hnext)
    fun tunnels event h => ⟨fun hlives => ?_, fun hnever next hnext tunnel hudp => ?_⟩
  · cases event with
    | setDefaultTunnel chosen now =>
      cases chosen with
      | none => trivial
      | some tunnel =>
        show tunnels.container.isUdp tunnel = false
        by_contra hnot
        obtain ⟨hstays, hwrong⟩ := h.started ((Bool.not_eq_false _).mp hnot) now
        refine hwrong (hlives _ (if_pos ?_) tunnel hstays).1
        intro chosen hmem
        cases hmem
        by_contra hle
        unfold isUdp at hnot
        rw [List.getElem?_eq_none (Nat.le_of_not_lt hle)] at hnot
        exact hnot rfl
    | createTunnel | pingTimeout | pushUdpPackage => trivial
  · refine ⟨(h.handle hnever hnext).active hudp, fun i now seen _ htimer => ?_⟩
    rw [h.timers] at htimer
    cases htimer

/-- A package arrives, and its tunnel becomes the default tunnel. -/
def firstUdpTunnel : List UdpTunnelEvent :=
  let endpoint := { tcpEndpoint 80 with flag := BDT_ENDPOINT_PROTOCOL_UDP ||| BDT_ENDPOINT_IP_VERSION_4 }
  [.pushUdpPackage endpoint endpoint 1000000, .setDefaultTunnel (some 0) 1000000]

/-- The tunnel was started once and its active count is -1, and no timer is set for it. -/
theorem default_udp_tunnel_silent : ∃ tunnels, exec (handle 1000) {} firstUdpTunnel = some tunnels ∧
    tunnels.container.isUdp 0 = true ∧ tunnels.container.defaultTunnel = some 0 ∧
    (tunnels.activitors 0).activeCount = -1 ∧ tunnels.timers = [] ∧ ¬ tunnels.Active 0 := by
  refine exists_of_test (fun tunnels => tunnels.container.isUdp 0 = true ∧
    tunnels.container.defaultTunnel = some 0 ∧ (tunnels.activitors 0).activeCount = -1 ∧
    tunnels.timers = []) (by decide +kernel) ?_
  rintro tunnels - ⟨hudp, hdefault, hcount, htimers⟩
  refine ⟨hudp, hdefault, hcount, htimers, fun h => ?_⟩
  have htimed := h.timed
  rw [hdefault, htimers, if_pos rfl] at htimed
  cases htimed

end UdpTunnels

end Bdt
