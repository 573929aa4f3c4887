import Bdt.Tunnel.TunnelContainer

/-!
# The references to the tunnels

A run of the functions of a container, with the references that they returned to their callers and
that were not given back. `Accounted` says that a tunnel counts the nodes of the map, the default
tunnel and the callers that hold it, and is freed exactly when none of them does.

`tunnel_references_iff`: it holds in every run in which no call changes the default tunnel from one
tunnel to another or to none, and `TunnelContainerUpdateTcpTunnel` always gets the tunnel, and in no
other. The first releases the new tunnel in place of the old one, and the second loses a reference.
-/

namespace Bdt

open Base List Option

/-- A container, and the references that callers of its functions hold. -/
structure ContainerRun where
  container : Bdt_TunnelContainer := {}
  held : List Nat := []

inductive ContainerEvent where
  | createTunnel (localEndpoint remoteEndpoint : BdtEndpoint) (lastRecv : UInt64)
  | removeTunnel (tunnel : Nat) (lastRecv : UInt64)
  | setDefaultTunnel (tunnel : Option Nat)
  | updateDefaultTunnel (order : List Nat)
  | updateTcpTunnel (localEndpoint remoteEndpoint : BdtEndpoint) (tunnel : Option Nat)
      (order : List Nat)
  | onTunnelDead (tunnel : Nat) (lastRecv : UInt64) (order : List Nat)
  | onHistoryLoad (history : TunnelHistory) (now pingOvertime : UInt64) (order : List Nat)
  | getTunnelByEndpoint (localEndpoint remoteEndpoint : BdtEndpoint)
  | getDefaultTunnel
  /-- A caller gives a reference back. -/
  | release (tunnel : Nat)
  /-- The state of a tunnel and its `lastRecv` are set. -/
  | update (tunnel : Nat) (state : TcpTunnelState) (lastRecv : UInt64)

namespace ContainerRun

/-- The references that a tunnel should count. -/
def references (run : ContainerRun) : List Nat :=
  run.container.slots ++ run.held

/-- One call. A tunnel that a caller passes or gives back is one that it holds. -/
def handle (run : ContainerRun) : ContainerEvent → Option ContainerRun
  | .createTunnel localEndpoint remoteEndpoint lastRecv =>
    (run.container.createTunnel localEndpoint remoteEndpoint lastRecv).map fun created =>
      { container := created.container, held := created.outTunnel :: run.held }
  | .removeTunnel tunnel lastRecv =>
    (run.container.removeTunnel tunnel lastRecv).map fun removed =>
      { run with container := removed.1 }
  | .setDefaultTunnel tunnel =>
    if ∀ i ∈ tunnel, i ∈ run.held then
      (run.container.setDefaultTunnel tunnel).map fun container => { run with container }
    else none
  | .updateDefaultTunnel order =>
    (run.container.updateDefaultTunnel order).map fun updated =>
      { container := updated.1, held := updated.2.toList ++ run.held }
  | .updateTcpTunnel localEndpoint remoteEndpoint tunnel order =>
    (run.container.updateTcpTunnel localEndpoint remoteEndpoint tunnel order).map fun container =>
      { run with container }
  | .onTunnelDead tunnel lastRecv order =>
    (run.container.onTunnelDead tunnel lastRecv order).map fun container => { run with container }
  | .onHistoryLoad history now pingOvertime order =>
    (run.container.onHistoryLoad history now pingOvertime order).map fun container =>
      { run with container }
  | .getTunnelByEndpoint localEndpoint remoteEndpoint =>
    (run.container.getTunnelByEndpoint localEndpoint remoteEndpoint).map fun found =>
      { container := found.1, held := found.2.toList ++ run.held }
  | .getDefaultTunnel =>
    run.container.getDefaultTunnel.map fun found =>
      { container := found.1, held := found.2.toList ++ run.held }
  | .release tunnel =>
    if tunnel ∈ run.held then
      (run.container.release tunnel).map fun container =>
        { container, held := run.held.erase tunnel }
    else none
  | .update tunnel state lastRecv =>
    (run.container.updateTunnel tunnel state lastRecv).map fun container => { run with container }

/-- Every tunnel that was not freed counts the places that hold it, and a tunnel is freed exactly when
none does. -/
def Accounted (run : ContainerRun) : Prop :=
  Balanced run.container.heap run.references

/-! ## When it holds -/

/-- The default tunnel is not changed from one tunnel to another or to none. -/
def Kept (container : Bdt_TunnelContainer) (tunnel : Option Nat) : Prop :=
  container.defaultTunnel = none ∨ container.defaultTunnel = tunnel

/-- The tunnel that is chosen is the default tunnel, if there is one. -/
def KeepsDefault (container : Bdt_TunnelContainer) (order : List Nat) : Prop :=
  ∀ tunnels, container.enumTunnels order = some tunnels →
    Kept container (chooseTunnel tunnels none none)

/-- The calls that end keep the default tunnel, and `TunnelContainerUpdateTcpTunnel` is given the
tunnel. -/
def Keeps (run : ContainerRun) : ContainerEvent → Prop
  | .setDefaultTunnel tunnel => Kept run.container tunnel
  | .updateDefaultTunnel order => KeepsDefault run.container order
  | .updateTcpTunnel _ _ tunnel _ => tunnel ≠ none
  | .onTunnelDead tunnel lastRecv order => ∀ container,
      run.container.removeTunnel tunnel lastRecv = some (container, true) →
      KeepsDefault container order
  | .onHistoryLoad history now pingOvertime order => ∀ container,
      (run.container.restoreTunnels history.tcpTunnels).bind
        (·.restoreTunnels (history.udpTunnels now pingOvertime)) = some container →
      KeepsDefault container order
  | _ => True

/-- A call that ends keeps the references. -/
def Careful (run : ContainerRun) (event : ContainerEvent) : Prop :=
  run.handle event ≠ none → run.Keeps event

end ContainerRun

/-! ## What a function does with the references -/

namespace Bdt_TunnelContainer

variable {container next : Bdt_TunnelContainer} {held : List Nat} {tunnel : Nat}

/-- The container and these callers hold all the references that there are. -/
def Accounts (container : Bdt_TunnelContainer) (held : List Nat) : Prop :=
  Balanced container.heap (container.slots ++ held)

theorem Accounts.perm (h : container.Accounts held) {others : List Nat} (hperm : held.Perm others) :
    container.Accounts others :=
  Balanced.perm h (hperm.append_left _)

theorem Accounts.addRef (h : container.Accounts held) (hnext : container.addRef tunnel = some next) :
    next.Accounts (tunnel :: held) := by
  obtain ⟨heap, hheap, rfl⟩ := map_eq_some_iff.mp hnext
  exact (Balanced.addRef h hheap).perm perm_middle.symm

theorem Accounts.release (h : container.Accounts (tunnel :: held))
    (hnext : container.release tunnel = some next) : next.Accounts held := by
  obtain ⟨heap, hheap, rfl⟩ := map_eq_some_iff.mp hnext
  exact Balanced.release (Balanced.perm h perm_middle) hheap

variable {pointer : Option Nat} {localEndpoint remoteEndpoint : BdtEndpoint} {order : List Nat}

theorem Accounts.addRefUnlessNull (h : container.Accounts held)
    (hnext : container.addRefUnlessNull pointer = some next) :
    next.Accounts (pointer.toList ++ held) := by
  cases pointer with
  | none => exact some.inj hnext ▸ h
  | some => exact h.addRef hnext

theorem Accounts.releaseUnlessNull (h : container.Accounts (pointer.toList ++ held))
    (hnext : container.releaseUnlessNull pointer = some next) : next.Accounts held := by
  cases pointer with
  | none => exact some.inj hnext ▸ h
  | some => exact h.release hnext

theorem addRefUnlessNull_eq (hnext : container.addRefUnlessNull pointer = some next) :
    ∃ heap, next = { container with heap } := by
  cases pointer with
  | none => exact ⟨container.heap, (some.inj hnext).symm⟩
  | some =>
    obtain ⟨heap, -, rfl⟩ := map_eq_some_iff.mp hnext
    exact ⟨heap, rfl⟩

variable (h : container.Accounts held)
include h

variable {lastRecv : UInt64} {success : Bool}

theorem Accounts.createTunnel {created : Created}
    (hnext : container.createTunnel localEndpoint remoteEndpoint lastRecv = some created) :
    created.container.Accounts (created.outTunnel :: held) := by
  obtain ⟨socketTunnel, -, hnext⟩ := bind_eq_some_iff.mp hnext
  obtain ⟨counted, hcounted, hnext⟩ := bind_eq_some_iff.mp hnext
  have hnew : Accounts { container with heap := container.heap ++ [.new socketTunnel] }
      (container.heap.length :: held) :=
    (Balanced.alloc h socketTunnel).perm perm_middle.symm
  have htwice := hnew.addRef hcounted
  split at hnext
  case h_1 found hadd =>
    -- both references to the new tunnel are released
    obtain ⟨shared, hshared, hnext⟩ := bind_eq_some_iff.mp hnext
    obtain ⟨once, honce, hnext⟩ := bind_eq_some_iff.mp hnext
    obtain ⟨freed, hfreed, hnext⟩ := bind_eq_some_iff.mp hnext
    cases hnext
    have hfound := (htwice.addRef hshared).perm (.swap container.heap.length found.tunnel _)
    have hlast := (hfound.release honce).perm (.swap container.heap.length found.tunnel _)
    exact hlast.release hfreed
  case h_2 tunnels hadd =>
  -- the map keeps one of them
  cases hnext
  obtain ⟨-, rfl⟩ := addIfNotMember_added hadd
  exact Balanced.perm htwice perm_middle

theorem Accounts.removeTunnel
    (hnext : container.removeTunnel tunnel lastRecv = some (next, success)) : next.Accounts held := by
  obtain ⟨socketTunnel, -, hnext⟩ := bind_eq_some_iff.mp hnext
  obtain ⟨del, hdel, hnext⟩ := bind_eq_some_iff.mp hnext
  obtain ⟨found, -, hnext⟩ := bind_eq_some_iff.mp hnext
  split at hnext
  case isFalse => exact (Prod.mk.inj (some.inj hnext)).1 ▸ h
  case isTrue hsame =>
  obtain ⟨released, hreleased, hnext⟩ := bind_eq_some_iff.mp hnext
  obtain ⟨rfl, -⟩ := Prod.mk.inj (some.inj hnext)
  -- the reference of the map is released
  have hperm := (delete_perm tunnelMap_comparesBy hdel).map (·.tunnel)
  rw [map_cons, hsame.1] at hperm
  have hdeleted : Accounts { container with
      tunnels := (deleteIfMember TunnelMapCompare container.tunnels del).1 } (tunnel :: held) := by
    refine Balanced.perm h ?_
    exact ((hperm.append_right _).append_right held).trans perm_middle.symm
  exact hdeleted.release hreleased

theorem Accounts.setDefaultTunnel (hkept : ContainerRun.Kept container pointer)
    (hnext : container.setDefaultTunnel pointer = some next) : next.Accounts held := by
  unfold Bdt_TunnelContainer.setDefaultTunnel at hnext
  split at hnext
  case isTrue => exact some.inj hnext ▸ h
  case isFalse hne =>
  have hnone := hkept.resolve_right hne
  obtain ⟨counted, hcounted, hnext⟩ := bind_eq_some_iff.mp hnext
  simp only [hnone] at hnext
  cases hnext
  cases pointer with
  | none => exact absurd hnone hne
  | some tunnel =>
    obtain ⟨heap, hheap, rfl⟩ := map_eq_some_iff.mp hcounted
    have hadded := Balanced.addRef h hheap
    unfold slots at hadded
    rw [hnone, toList_none, append_nil] at hadded
    refine hadded.perm (perm_middle.symm.trans ?_)
    exact .of_eq (append_assoc _ [tunnel] held).symm

theorem Accounts.updateDefaultTunnel (hkept : ContainerRun.KeepsDefault container order)
    (hnext : container.updateDefaultTunnel order = some (next, pointer)) :
    next.Accounts (pointer.toList ++ held) := by
  obtain ⟨tunnels, htunnels, hnext⟩ := bind_eq_some_iff.mp hnext
  obtain ⟨counted, hcounted, hnext⟩ := bind_eq_some_iff.mp hnext
  obtain ⟨changed, hchanged, hnext⟩ := bind_eq_some_iff.mp hnext
  obtain ⟨rfl, rfl⟩ := Prod.mk.inj (some.inj hnext)
  have haccounts := h.addRefUnlessNull hcounted
  obtain ⟨heap, rfl⟩ := addRefUnlessNull_eq hcounted
  exact haccounts.setDefaultTunnel (hkept tunnels htunnels) hchanged

theorem Accounts.refreshDefaultTunnel (hkept : ContainerRun.KeepsDefault container order)
    (hnext : container.refreshDefaultTunnel order = some next) : next.Accounts held := by
  obtain ⟨⟨updated, pointer⟩, hupdated, hnext⟩ := bind_eq_some_iff.mp hnext
  exact (h.updateDefaultTunnel hkept hupdated).releaseUnlessNull hnext

theorem Accounts.getTunnelByEndpoint
    (hnext : container.getTunnelByEndpoint localEndpoint remoteEndpoint = some (next, pointer)) :
    next.Accounts (pointer.toList ++ held) := by
  unfold Bdt_TunnelContainer.getTunnelByEndpoint at hnext
  split at hnext
  case h_1 found =>
    obtain ⟨counted, hcounted, heq⟩ := map_eq_some_iff.mp hnext
    obtain ⟨rfl, rfl⟩ := Prod.mk.inj heq
    exact h.addRef hcounted
  case h_2 =>
    obtain ⟨rfl, rfl⟩ := Prod.mk.inj (some.inj hnext)
    exact h

theorem Accounts.findOrCreateTunnel
    (hnext : container.findOrCreateTunnel localEndpoint remoteEndpoint = some (next, tunnel, success)) :
    next.Accounts (tunnel :: held) := by
  obtain ⟨⟨found, pointer⟩, hfound, hnext⟩ := bind_eq_some_iff.mp hnext
  have haccounts := h.getTunnelByEndpoint hfound
  cases pointer with
  | some =>
    obtain ⟨rfl, heq⟩ := Prod.mk.inj (some.inj hnext)
    obtain ⟨rfl, -⟩ := Prod.mk.inj heq
    exact haccounts
  | none =>
    obtain ⟨created, hcreated, hnext⟩ := bind_eq_some_iff.mp hnext
    obtain ⟨rfl, heq⟩ := Prod.mk.inj (some.inj hnext)
    obtain ⟨rfl, -⟩ := Prod.mk.inj heq
    exact Accounts.createTunnel haccounts hcreated

theorem Accounts.restoreTunnels {restored : List RestoredTunnel}
    (hnext : container.restoreTunnels restored = some next) : next.Accounts held := by
  induction restored generalizing container with
  | nil => exact some.inj hnext ▸ h
  | cons _ _ ih =>
    obtain ⟨once, honce, hnext⟩ := bind_eq_some_iff.mp hnext
    obtain ⟨created, hcreated, hreleased⟩ := bind_eq_some_iff.mp honce
    exact ih ((h.createTunnel hcreated).release hreleased) hnext

/-! A default tunnel that is changed: the old one keeps the reference of the container. -/

theorem Accounts.setDefaultTunnel_changed (hchanged : ¬ ContainerRun.Kept container pointer)
    (hnext : container.setDefaultTunnel pointer = some next) :
    ∃ old, pointer ≠ some old ∧ Overcounted next.heap (next.slots ++ held) old := by
  obtain ⟨hsome, hne⟩ := not_or.mp hchanged
  obtain ⟨old, hold⟩ := ne_none_iff_exists'.mp hsome
  have hother : pointer ≠ some old := fun heq => hne (hold.trans heq.symm)
  refine ⟨old, hother, ?_⟩
  unfold Bdt_TunnelContainer.setDefaultTunnel at hnext
  rw [if_neg hne] at hnext
  obtain ⟨counted, hcounted, hnext⟩ := bind_eq_some_iff.mp hnext
  simp only [hold] at hnext
  obtain ⟨used, -, hnext⟩ := bind_eq_some_iff.mp hnext
  -- the old tunnel has one holder less, and counts as many as before
  have hlost : Overcounted container.heap
      (container.tunnels.map (·.tunnel) ++ held) old := by
    refine Balanced.forget (Balanced.perm h ?_)
    unfold slots
    rw [hold, append_assoc]
    exact perm_middle
  cases pointer with
  | none =>
    cases hcounted
    cases hnext
    refine hlost.mono (Nat.le_of_eq ?_)
    unfold slots
    rw [toList_none, append_nil]
  | some tunnel =>
    have hne : tunnel ≠ old := fun heq => hother (congrArg some heq)
    obtain ⟨heap, hheap, rfl⟩ := map_eq_some_iff.mp hcounted
    obtain ⟨released, hreleased, rfl⟩ := map_eq_some_iff.mp hnext
    have hcounts : Overcounted heap (container.tunnels.map (·.tunnel) ++ held) old := by
      obtain ⟨cell, hcell, hlt⟩ := hlost
      exact ⟨cell, (live_addRef hheap hne).trans hcell, hlt⟩
    refine (hcounts.release hreleased hne).mono (Nat.le_of_eq ?_)
    show (container.tunnels.map (·.tunnel) ++ [tunnel] ++ held).count old = List.count old _
    rw [append_assoc, singleton_append, count_append, count_append, count_cons_of_ne hne]

theorem Accounts.updateDefaultTunnel_changed
    (hchanged : ¬ ContainerRun.KeepsDefault container order)
    (hnext : container.updateDefaultTunnel order = some (next, pointer)) :
    ∃ old, pointer ≠ some old ∧
      Overcounted next.heap (next.slots ++ (pointer.toList ++ held)) old := by
  obtain ⟨chosen, hchanged⟩ := Classical.not_forall.mp hchanged
  obtain ⟨hchosen, hchanged⟩ := Classical.not_imp.mp hchanged
  obtain ⟨tunnels, htunnels, hnext⟩ := bind_eq_some_iff.mp hnext
  obtain ⟨counted, hcounted, hnext⟩ := bind_eq_some_iff.mp hnext
  obtain ⟨changed, hset, hnext⟩ := bind_eq_some_iff.mp hnext
  obtain ⟨rfl, rfl⟩ := Prod.mk.inj (some.inj hnext)
  obtain rfl := some.inj (hchosen.symm.trans htunnels)
  have haccounts := h.addRefUnlessNull hcounted
  obtain ⟨heap, rfl⟩ := addRefUnlessNull_eq hcounted
  exact haccounts.setDefaultTunnel_changed hchanged hset

theorem Accounts.refreshDefaultTunnel_changed
    (hchanged : ¬ ContainerRun.KeepsDefault container order)
    (hnext : container.refreshDefaultTunnel order = some next) :
    ∃ old, Overcounted next.heap (next.slots ++ held) old := by
  obtain ⟨⟨updated, pointer⟩, hupdated, hnext⟩ := bind_eq_some_iff.mp hnext
  obtain ⟨old, hne, hover⟩ := h.updateDefaultTunnel_changed hchanged hupdated
  refine ⟨old, ?_⟩
  cases pointer with
  | none => exact some.inj hnext ▸ hover
  | some tunnel =>
    have hother : tunnel ≠ old := fun heq => hne (congrArg some heq)
    obtain ⟨heap, hheap, rfl⟩ := map_eq_some_iff.mp hnext
    refine (hover.release hheap hother).mono (Nat.le_of_eq ?_)
    show (updated.slots ++ held).count old = (updated.slots ++ ([tunnel] ++ held)).count old
    rw [count_append, count_append, singleton_append, count_cons_of_ne hother]

/-- A reference that `TunnelContainerUpdateTcpTunnel` takes is lost. -/
theorem Accounts.updateTcpTunnel_lost
    (hnext : container.updateTcpTunnel localEndpoint remoteEndpoint none order = some next) :
    ∃ lost, Overcounted next.heap (next.slots ++ held) lost := by
  obtain ⟨⟨found, tunnel, success⟩, hfound, hnext⟩ := bind_eq_some_iff.mp hnext
  have haccounts := h.findOrCreateTunnel hfound
  have hforget : ∀ {after : Bdt_TunnelContainer}, after.Accounts (tunnel :: held) →
      Overcounted after.heap (after.slots ++ held) tunnel :=
    fun h => (Balanced.perm h perm_middle).forget
  cases success with
  | false => exact ⟨tunnel, hforget (some.inj hnext ▸ haccounts)⟩
  | true =>
    by_cases hkept : ContainerRun.KeepsDefault found order
    · exact ⟨tunnel, hforget (haccounts.refreshDefaultTunnel hkept hnext)⟩
    obtain ⟨old, hover⟩ := haccounts.refreshDefaultTunnel_changed hkept hnext
    refine ⟨old, hover.mono ?_⟩
    rw [count_append, count_append]
    exact Nat.add_le_add_left count_le_count_cons _

end Bdt_TunnelContainer

/-! ## Runs -/

namespace ContainerRun

open Bdt_TunnelContainer

variable {run next : ContainerRun} {event : ContainerEvent}

theorem accounted_start : Accounted {} :=
  balanced_nil

theorem Accounted.handle (h : run.Accounted) (hkeeps : run.Careful event)
    (hnext : run.handle event = some next) : next.Accounted := by
  have hkeeps := hkeeps (hnext ▸ nofun)
  cases event with
  | createTunnel =>
    obtain ⟨created, hcreated, rfl⟩ := map_eq_some_iff.mp hnext
    exact Accounts.createTunnel h hcreated
  | removeTunnel =>
    obtain ⟨⟨removed, success⟩, hremoved, rfl⟩ := map_eq_some_iff.mp hnext
    exact Accounts.removeTunnel h hremoved
  | setDefaultTunnel =>
    simp only [ContainerRun.handle] at hnext
    split at hnext
    case isFalse => cases hnext
    case isTrue =>
      obtain ⟨container, hset, rfl⟩ := map_eq_some_iff.mp hnext
      exact Accounts.setDefaultTunnel h hkeeps hset
  | updateDefaultTunnel =>
    obtain ⟨⟨updated, pointer⟩, hupdated, rfl⟩ := map_eq_some_iff.mp hnext
    exact Accounts.updateDefaultTunnel h hkeeps hupdated
  | updateTcpTunnel _ _ tunnel =>
    obtain ⟨container, hupdated, rfl⟩ := map_eq_some_iff.mp hnext
    cases tunnel with
    | none => exact absurd rfl hkeeps
    | some => exact some.inj hupdated ▸ h
  | onTunnelDead =>
    obtain ⟨container, hdead, rfl⟩ := map_eq_some_iff.mp hnext
    obtain ⟨⟨removed, success⟩, hremoved, hdead⟩ := bind_eq_some_iff.mp hdead
    have haccounts := Accounts.removeTunnel h hremoved
    cases success with
    | false => exact some.inj hdead ▸ haccounts
    | true => exact haccounts.refreshDefaultTunnel (hkeeps removed hremoved) hdead
  | onHistoryLoad =>
    obtain ⟨container, hload, rfl⟩ := map_eq_some_iff.mp hnext
    obtain ⟨tcp, htcp, hload⟩ := bind_eq_some_iff.mp hload
    obtain ⟨udp, hudp, hload⟩ := bind_eq_some_iff.mp hload
    have haccounts := (Accounts.restoreTunnels h htcp).restoreTunnels hudp
    refine haccounts.refreshDefaultTunnel (hkeeps udp ?_) hload
    rw [htcp]
    exact hudp
  | getTunnelByEndpoint =>
    obtain ⟨⟨found, pointer⟩, hfound, rfl⟩ := map_eq_some_iff.mp hnext
    exact Accounts.getTunnelByEndpoint h hfound
  | getDefaultTunnel =>
    obtain ⟨⟨found, pointer⟩, hfound, rfl⟩ := map_eq_some_iff.mp hnext
    obtain ⟨counted, hcounted, heq⟩ := map_eq_some_iff.mp hfound
    obtain ⟨rfl, rfl⟩ := Prod.mk.inj heq
    exact Accounts.addRefUnlessNull h hcounted
  | release =>
    simp only [ContainerRun.handle] at hnext
    split at hnext
    case isFalse => cases hnext
    case isTrue hheld =>
      obtain ⟨container, hreleased, rfl⟩ := map_eq_some_iff.mp hnext
      exact Accounts.release (Accounts.perm h (perm_cons_erase hheld)) hreleased
  | update =>
    obtain ⟨container, hupdated, rfl⟩ := map_eq_some_iff.mp hnext
    obtain ⟨cell, hcell, rfl⟩ := map_eq_some_iff.mp hupdated
    exact Balanced.update h hcell _

theorem Accounted.not_handle (h : run.Accounted) (hloses : ¬ run.Careful event) :
    ∃ next, run.handle event = some next ∧ ¬ next.Accounted := by
  obtain ⟨hdefined, hloses⟩ := Classical.not_imp.mp hloses
  obtain ⟨next, hnext⟩ := ne_none_iff_exists'.mp hdefined
  refine ⟨next, hnext, ?_⟩
  suffices hover : ∃ tunnel, Overcounted next.container.heap next.references tunnel by
    obtain ⟨tunnel, hover⟩ := hover
    exact hover.not_balanced
  cases event with
  | setDefaultTunnel =>
    simp only [ContainerRun.handle] at hnext
    split at hnext
    case isFalse => cases hnext
    case isTrue =>
    obtain ⟨container, hset, rfl⟩ := map_eq_some_iff.mp hnext
    obtain ⟨old, -, hover⟩ := Accounts.setDefaultTunnel_changed h hloses hset
    exact ⟨old, hover⟩
  | updateDefaultTunnel =>
    obtain ⟨⟨updated, pointer⟩, hupdated, rfl⟩ := map_eq_some_iff.mp hnext
    obtain ⟨old, -, hover⟩ := Accounts.updateDefaultTunnel_changed h hloses hupdated
    exact ⟨old, hover⟩
  | updateTcpTunnel _ _ tunnel =>
    obtain rfl : tunnel = none := Classical.not_not.mp hloses
    obtain ⟨container, hupdated, rfl⟩ := map_eq_some_iff.mp hnext
    exact Accounts.updateTcpTunnel_lost h hupdated
  | onTunnelDead =>
    obtain ⟨removed, hloses⟩ := Classical.not_forall.mp hloses
    obtain ⟨hremoved, hloses⟩ := Classical.not_imp.mp hloses
    obtain ⟨container, hdead, rfl⟩ := map_eq_some_iff.mp hnext
    unfold Bdt_TunnelContainer.onTunnelDead at hdead
    rw [hremoved] at hdead
    exact (Accounts.removeTunnel h hremoved).refreshDefaultTunnel_changed hloses hdead
  | onHistoryLoad =>
    obtain ⟨udp, hloses⟩ := Classical.not_forall.mp hloses
    obtain ⟨hudp, hloses⟩ := Classical.not_imp.mp hloses
    obtain ⟨container, hload, rfl⟩ := map_eq_some_iff.mp hnext
    obtain ⟨tcp, htcp, hudp⟩ := bind_eq_some_iff.mp hudp
    unfold Bdt_TunnelContainer.onHistoryLoad at hload
    simp only [htcp, bind_eq_bind, bind_some, hudp] at hload
    exact ((Accounts.restoreTunnels h htcp).restoreTunnels hudp).refreshDefaultTunnel_changed hloses
      hload
  | _ => exact absurd trivial hloses

/-- The references are right in every run of calls that keep the default tunnel, and with
`TunnelContainerUpdateTcpTunnel` always given the tunnel, and in no other. -/
theorem tunnel_references_iff (events : List ContainerEvent) :
    Throughout ContainerRun.handle Accounted {} events ↔
      StepsMeet ContainerRun.handle Careful {} events :=
  throughout_iff accounted_start (fun _ h => h) (fun _ _ _ h hok hnext => h.handle hok hnext)
    fun _ _ _ _ h hnot => h.not_handle hnot

/-- A udp endpoint with this port. -/
def udpEndpoint (port : UInt16) : BdtEndpoint where
  flag := BDT_ENDPOINT_PROTOCOL_UDP ||| BDT_ENDPOINT_IP_VERSION_4
  port := port
  address := .ofList 16 [10, 0, 0, 1]

/-- A second udp tunnel becomes the default tunnel, and loses the reference that the first one should
lose. When it is removed from the map, it is freed, and is the default tunnel. -/
theorem default_tunnel_freed : ∃ t,
    exec ContainerRun.handle {}
        [.createTunnel (udpEndpoint 1) (udpEndpoint 9) 0, .release 0, .updateDefaultTunnel [0],
          .release 0, .createTunnel (udpEndpoint 2) (udpEndpoint 9) 0, .release 1,
          .updateDefaultTunnel [1, 0], .release 1, .removeTunnel 1 0] = some t ∧
      (t.container.defaultTunnel = some 1 ∧ live t.container.heap 1 = none) ∧ ¬ t.Accounted := by
  refine exists_of_test (fun t => t.container.defaultTunnel = some 1 ∧
    live t.container.heap 1 = none) (by decide +kernel) ?_
  rintro t - ⟨hdefault, hfreed⟩
  refine ⟨⟨hdefault, hfreed⟩, fun accounted => ?_⟩
  have hmem : 1 ∈ t.references := by
    refine mem_append_left _ (mem_append_right _ ?_)
    rw [hdefault]
    exact mem_singleton_self 1
  obtain ⟨cell, hlive⟩ := accounted.alive 1 hmem
  rw [hfreed] at hlive
  cases hlive

end ContainerRun

end Bdt
