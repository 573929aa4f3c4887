import Bdt.Tunnel.TcpTunnelCalls

/-!
# Dead tcp tunnels

`tcp_tunnel_dies_iff`: a tcp tunnel that is dead stays dead, `TunnelContainerOnTunnelDead` is called
once for it, and afterwards it is not in the map and not the default tunnel, in every run in which
`TcpTunnelOnTcpError` is not called for it and no thread makes it the default tunnel after that, and
in no other run.

`lastRecv` of a tcp tunnel never changes, since a package of a udp interface finds udp tunnels only,
so `TunnelContainerRemoveTunnel` finds it as it was.
-/

namespace Bdt

open Base Option
open List hiding choose

namespace Tunnels

variable {container next : Tunnels} {tunnel i : Nat}
  {lastRecv : UInt64} {localEndpoint remoteEndpoint : BdtEndpoint} {success added : Bool}
  {found : SocketTunnel}

/-! ## The map -/

/-- The map holds tunnels that were created, each under its endpoints. -/
structure Mapped (container : Tunnels) : Prop where
  nodes : ∀ node ∈ container.tunnels, ∃ found, container.heap[node.tunnel]? = some found ∧
    found.localEndpoint = node.localEndpoint ∧ found.remoteEndpoint = node.remoteEndpoint
  keys : (container.tunnels.map TunnelMap.key).Nodup
  flags : ∀ found ∈ container.heap,
    found.udp = decide (found.localEndpoint.flag &&& BDT_ENDPOINT_PROTOCOL_UDP ≠ 0)

theorem mapped_start : Mapped {} where
  nodes := fun _ hmem => nomatch hmem
  keys := nodup_nil
  flags := fun _ hmem => nomatch hmem

theorem lt_of_mapped (h : container.Mapped) (hmem : tunnel ∈ container.mapped) :
    tunnel < container.heap.length := by
  obtain ⟨node, hnode, rfl⟩ := mem_map.mp hmem
  obtain ⟨found, hfound, -⟩ := h.nodes node hnode
  exact (List.getElem?_eq_some_iff.mp hfound).1

theorem Mapped.find (h : container.Mapped) (hmem : tunnel ∈ container.mapped)
    (hfound : container.heap[tunnel]? = some found) :
    ∃ del, findMember TunnelMapCompare container.tunnels
        { localEndpoint := found.localEndpoint, remoteEndpoint := found.remoteEndpoint, tunnel } =
      some del ∧ del.tunnel = tunnel := by
  obtain ⟨node, hnode, rfl⟩ := mem_map.mp hmem
  obtain ⟨other, hother, hlocal, hremote⟩ := h.nodes node hnode
  obtain rfl := some.inj (hfound.symm.trans hother)
  refine ⟨node, (findMember_eq_some tunnelMap_comparesBy h.keys).mpr ⟨hnode, ?_⟩, rfl⟩
  rw [hlocal, hremote]

/-- What of a tunnel does not change. -/
def kind (found : SocketTunnel) : Bool × BdtEndpoint × BdtEndpoint :=
  (found.udp, found.localEndpoint, found.remoteEndpoint)

theorem Mapped.set (h : container.Mapped) {found other : SocketTunnel}
    (hfound : container.heap[i]? = some found) (hkind : kind other = kind found) :
    Mapped { container with heap := container.heap.set i other } where
  nodes := by
    intro node hnode
    obtain ⟨old, hold, hlocal, hremote⟩ := h.nodes node hnode
    obtain ⟨hudp, hrest⟩ := Prod.mk.inj hkind
    obtain ⟨hsameLocal, hsameRemote⟩ := Prod.mk.inj hrest
    by_cases heq : i = node.tunnel
    · subst heq
      obtain rfl := some.inj (hfound.symm.trans hold)
      exact ⟨other, getElem?_set_at hold other, hsameLocal.trans hlocal, hsameRemote.trans hremote⟩
    · exact ⟨old, (getElem?_set_ne heq).trans hold, hlocal, hremote⟩
  keys := h.keys
  flags := by
    intro old hmem
    rcases mem_or_eq_of_mem_set hmem with hmem | rfl
    · exact h.flags old hmem
    obtain ⟨hudp, hrest⟩ := Prod.mk.inj hkind
    obtain ⟨hsameLocal, -⟩ := Prod.mk.inj hrest
    rw [hudp, hsameLocal]
    exact h.flags found (mem_of_getElem? hfound)

theorem addTunnel_cases
    (hadd : container.addTunnel localEndpoint remoteEndpoint lastRecv = some (next, tunnel, added)) :
    (added = false ∧ next = container ∧ tunnel ∈ container.mapped ∧
        ∃ found ∈ container.tunnels, found.tunnel = tunnel ∧
          found.localEndpoint.key = localEndpoint.key) ∨
      ∃ created, SocketTunnel.create localEndpoint remoteEndpoint lastRecv = some created ∧
        added = true ∧ tunnel = container.heap.length ∧
        findMember TunnelMapCompare container.tunnels { localEndpoint, remoteEndpoint, tunnel } = none ∧
        next = { container with
          heap := container.heap ++ [created]
          tunnels := { localEndpoint, remoteEndpoint, tunnel } :: container.tunnels } := by
  obtain ⟨created, hcreated, heq⟩ := map_eq_some_iff.mp hadd
  simp only [addIfNotMember] at heq
  cases hfind : findMember TunnelMapCompare container.tunnels
      { localEndpoint, remoteEndpoint, tunnel := container.heap.length } with
  | some found =>
    simp only [hfind] at heq
    cases heq
    obtain ⟨hmem, hkey⟩ := findMember_mem tunnelMap_comparesBy hfind
    exact .inl ⟨rfl, rfl, mem_map.mpr ⟨found, hmem, rfl⟩, found, hmem, rfl,
      (congrArg Prod.fst hkey).symm⟩
  | none =>
    simp only [hfind] at heq
    cases heq
    exact .inr ⟨created, hcreated, rfl, rfl, hfind, rfl⟩

theorem create_cases {created : SocketTunnel}
    (h : SocketTunnel.create localEndpoint remoteEndpoint lastRecv = some created) :
    created.localEndpoint = localEndpoint ∧ created.remoteEndpoint = remoteEndpoint ∧
      created.state = .unknown ∧
      created.udp = decide (localEndpoint.flag &&& BDT_ENDPOINT_PROTOCOL_UDP ≠ 0) := by
  unfold SocketTunnel.create at h
  split at h
  case isTrue hudp =>
    cases h
    exact ⟨rfl, rfl, rfl, (decide_eq_true hudp).symm⟩
  case isFalse hudp =>
  split at h
  case isFalse => cases h
  case isTrue =>
    cases h
    exact ⟨rfl, rfl, rfl, (decide_eq_false hudp).symm⟩

theorem Mapped.addTunnel (h : container.Mapped)
    (hadd : container.addTunnel localEndpoint remoteEndpoint lastRecv = some (next, tunnel, added)) :
    next.Mapped := by
  rcases addTunnel_cases hadd with ⟨-, rfl, -⟩ | ⟨created, hcreated, -, rfl, hfind, rfl⟩
  · exact h
  obtain ⟨hlocal, hremote, -, hudp⟩ := create_cases hcreated
  refine ⟨fun node hnode => ?_, ?_, fun found hfound => ?_⟩
  · rcases mem_cons.mp hnode with rfl | hnode
    · exact ⟨created, getElem?_concat_length, hlocal, hremote⟩
    · obtain ⟨old, hold, hsame⟩ := h.nodes node hnode
      refine ⟨old, ?_, hsame⟩
      exact (getElem?_append_left (List.getElem?_eq_some_iff.mp hold).1).trans hold
  · exact nodup_cons tunnelMap_comparesBy h.keys hfind rfl
  rcases mem_concat.mp hfound with hfound | rfl
  · exact h.flags found hfound
  · rw [hlocal]
    exact hudp

theorem deleteTunnel_cases
    (hdelete : container.deleteTunnel tunnel lastRecv = some (next, success)) :
    (success = false ∧ next = container) ∨
      ∃ found del, container.heap[tunnel]? = some found ∧
        findMember TunnelMapCompare container.tunnels
          { localEndpoint := found.localEndpoint, remoteEndpoint := found.remoteEndpoint, tunnel } =
          some del ∧ del.tunnel = tunnel ∧ success = true ∧
        next = { container with
          tunnels := (deleteIfMember TunnelMapCompare container.tunnels del).1 } := by
  obtain ⟨found, hfound, hdelete⟩ := bind_eq_some_iff.mp hdelete
  obtain ⟨del, hdel, hdelete⟩ := bind_eq_some_iff.mp hdelete
  obtain ⟨other, -, hdelete⟩ := bind_eq_some_iff.mp hdelete
  split at hdelete
  case isTrue hsame =>
    obtain ⟨rfl, rfl⟩ := Prod.mk.inj (some.inj hdelete)
    exact .inr ⟨found, del, hfound, hdel, hsame.1, rfl, rfl⟩
  case isFalse =>
    obtain ⟨rfl, rfl⟩ := Prod.mk.inj (some.inj hdelete)
    exact .inl ⟨rfl, rfl⟩

section

variable (h : container.Mapped)
include h

theorem Mapped.deleteTunnel
    (hdelete : container.deleteTunnel tunnel lastRecv = some (next, success)) : next.Mapped := by
  rcases deleteTunnel_cases hdelete with ⟨-, rfl⟩ | ⟨found, del, -, -, -, -, rfl⟩
  · exact h
  · refine ⟨fun node hnode => ?_, nodup_delete h.keys, h.flags⟩
    exact h.nodes node (eraseP_subset hnode)

theorem Mapped.node_key {node other : TunnelMap}
    (hnode : node ∈ container.tunnels) (hother : other ∈ container.tunnels)
    (hsame : node.tunnel = other.tunnel) : node.key = other.key := by
  obtain ⟨found, hfound, hlocal, hremote⟩ := h.nodes node hnode
  obtain ⟨found', hfound', hlocal', hremote'⟩ := h.nodes other hother
  obtain rfl := some.inj (hfound.symm.trans (hsame ▸ hfound'))
  unfold TunnelMap.key
  rw [← hlocal, ← hremote, ← hlocal', ← hremote']

theorem Mapped.mem_deleteTunnel
    (hdelete : container.deleteTunnel i lastRecv = some (next, true)) (tunnel : Nat) :
    tunnel ∈ next.mapped ↔ tunnel ∈ container.mapped ∧ tunnel ≠ i := by
  rcases deleteTunnel_cases hdelete with ⟨hfalse, -⟩ | ⟨found, del, -, hdel, rfl, -, rfl⟩
  · cases hfalse
  have hmem : del ∈ container.tunnels := (findMember_mem tunnelMap_comparesBy hdel).1
  unfold mapped
  simp only [List.mem_map, mem_delete tunnelMap_comparesBy h.keys]
  constructor
  · intro hnode
    obtain ⟨node, ⟨hnode, hkey⟩, rfl⟩ := hnode
    exact ⟨⟨node, hnode, rfl⟩, fun hsame => hkey (h.node_key hmem hnode hsame.symm)⟩
  intro hnode
  obtain ⟨⟨node, hnode, rfl⟩, hne⟩ := hnode
  refine ⟨node, ⟨hnode, fun hkey => hne ?_⟩, rfl⟩
  rw [eq_of_key h.keys hmem hnode hkey]

theorem Mapped.deleteTunnel_success (hmem : tunnel ∈ container.mapped)
    (hlastRecv : (container.heap[tunnel]?).map (·.lastRecv) = some lastRecv)
    (hdelete : container.deleteTunnel tunnel lastRecv = some (next, success)) :
    success = true := by
  obtain ⟨found, hfound, hdelete⟩ := bind_eq_some_iff.mp hdelete
  obtain ⟨del, hdel, hdelete⟩ := bind_eq_some_iff.mp hdelete
  obtain ⟨other, hother, hdelete⟩ := bind_eq_some_iff.mp hdelete
  obtain ⟨node, hnode, hsame⟩ := h.find hmem hfound
  obtain rfl := some.inj (hdel.symm.trans hnode)
  rw [hsame] at hother
  obtain rfl := some.inj (hfound.symm.trans hother)
  rw [hfound] at hlastRecv
  rw [if_pos ⟨hsame, some.inj hlastRecv⟩] at hdelete
  exact (Prod.mk.inj (some.inj hdelete)).2.symm

theorem Mapped.found_udp {localEndpoint : BdtEndpoint}
    (hlocal : localEndpoint.flag &&& BDT_ENDPOINT_PROTOCOL_UDP ≠ 0) {node : TunnelMap}
    (hnode : node ∈ container.tunnels) (hkey : node.localEndpoint.key = localEndpoint.key) :
    container.isUdp node.tunnel = true := by
  obtain ⟨found, hfound, hsame, -⟩ := h.nodes node hnode
  have hflag : found.localEndpoint.compareFlag = localEndpoint.compareFlag := by
    rw [hsame]
    exact congrArg EndpointKey.flag hkey
  have hudp : ∀ endpoint : BdtEndpoint, endpoint.flag &&& BDT_ENDPOINT_PROTOCOL_UDP =
      endpoint.compareFlag &&& BDT_ENDPOINT_PROTOCOL_UDP := by
    intro endpoint
    unfold BdtEndpoint.compareFlag
    rw [UInt8.and_assoc]
    rfl
  unfold isUdp
  rw [hfound, any_some, h.flags found (mem_of_getElem? hfound), hudp, hflag, ← hudp]
  exact decide_eq_true hlocal

end

variable {behind : TcpTunnelState → List TunnelAction} {oldState newState : TcpTunnelState}

theorem compareAndSwap_cases {result : TunnelResult}
    (hresult : container.compareAndSwap i oldState newState behind = some result) :
    ∃ found, container.heap[i]? = some found ∧ result.more = behind found.state ∧
      ((found.state = oldState ∧
          result.next =
            { container with heap := container.heap.set i { found with state := newState } } ∧
          result.entries = [.entered i newState]) ∨
        (found.state ≠ oldState ∧ result.next = container ∧ result.entries = [])) := by
  obtain ⟨found, hfound, rfl⟩ := map_eq_some_iff.mp hresult
  refine ⟨found, hfound, ?_⟩
  split
  case isTrue hstate => exact ⟨rfl, .inl ⟨hstate, rfl, rfl⟩⟩
  case isFalse hstate => exact ⟨rfl, .inr ⟨hstate, rfl, rfl⟩⟩

end Tunnels

/-! ## What an action does to one tunnel -/

namespace TunnelRun

open Tunnels

variable {container next : Tunnels} {tunnel i : Nat} {action : TunnelAction} {result : TunnelResult}
  {lastRecv : UInt64} {localEndpoint remoteEndpoint : BdtEndpoint} {success added : Bool}
  {found : SocketTunnel}
  {seen : List (Nat × TcpTunnelState)}

/-- An action between the death of the tunnel and the end of `TunnelContainerOnTunnelDead`. -/
def ending (tunnel : Nat) : TunnelAction → Int
  | .getLastRecv other | .onTunnelDead other _ | .removeTunnel other _ true
  | .updateDefaultTunnel (some other) | .setDefaultTunnel _ (some other) =>
    if other = tunnel then 1 else 0
  | _ => 0

/-- How the container is when a call comes to an action. -/
def Ready (tunnel : Nat) (container : Tunnels) : TunnelAction → Prop
  | .getLastRecv other => other = tunnel → tunnel ∈ container.mapped
  | .onTunnelDead other lastRecv => other = tunnel → tunnel ∈ container.mapped ∧
      (container.heap[tunnel]?).map (·.lastRecv) = some lastRecv
  | .removeTunnel other lastRecv dead => other = tunnel → dead = true ∧
      tunnel ∈ container.mapped ∧ (container.heap[tunnel]?).map (·.lastRecv) = some lastRecv
  | .updateDefaultTunnel dead => dead = some tunnel →
      tunnel < container.heap.length ∧ tunnel ∉ container.mapped
  | .setDefaultTunnel chosen dead => dead = some tunnel →
      tunnel < container.heap.length ∧ tunnel ∉ container.mapped ∧ chosen ≠ some tunnel
  | .updateLastRecv other _ => other ≠ tunnel
  | .pushUdpPackage localEndpoint _ _ | .pushNewUdpPackage localEndpoint _ _ =>
    localEndpoint.flag &&& BDT_ENDPOINT_PROTOCOL_UDP ≠ 0
  | _ => True

/-- A tunnel that was created stays as it is, but for its state. -/
structure Keeps (tunnel : Nat) (container next : Tunnels) : Prop where
  length : container.heap.length ≤ next.heap.length
  lastRecv : tunnel < container.heap.length →
    (next.heap[tunnel]?).map (·.lastRecv) = (container.heap[tunnel]?).map (·.lastRecv)
  mapped : tunnel < container.heap.length → (tunnel ∈ next.mapped ↔ tunnel ∈ container.mapped)

/-- What an action does to the tunnel. -/
structure Advances (tunnel : Nat) (container : Tunnels) (action : TunnelAction)
    (result : TunnelResult) : Prop where
  single : result.entries.length ≤ 1
  final : ∀ state, .entered tunnel state ∈ result.entries → stateOf container tunnel = .dead →
    state = .dead
  dead : stateOf container tunnel = .dead ∨ .entered tunnel .dead ∈ result.entries →
    stateOf result.next tunnel = .dead
  called : (result.more.map (calling tunnel)).sum + result.entries.count (.called tunnel) +
    deaths container tunnel = calling tunnel action + deaths result.next tunnel
  ending : (result.more.map (ending tunnel)).sum + result.entries.count (.returned tunnel) +
    deaths container tunnel = ending tunnel action + deaths result.next tunnel
  kept : Keeps tunnel container result.next ∨ TunnelRun.ending tunnel action = 1
  ready : ∀ behind ∈ result.more, Ready tunnel result.next behind
  mapped : (tunnel < container.heap.length → stateOf container tunnel ≠ .dead →
      tunnel ∈ container.mapped) →
    tunnel < result.next.heap.length → stateOf result.next tunnel ≠ .dead →
    tunnel ∈ result.next.mapped
  gone : tunnel < container.heap.length → tunnel ∉ container.mapped → tunnel ∉ result.next.mapped
  chosen : result.next.defaultTunnel = some tunnel → container.defaultTunnel = some tunnel ∨
    ∃ dead, action = .setDefaultTunnel (some tunnel) dead
  returned : .returned tunnel ∈ result.entries → tunnel < container.heap.length ∧
    tunnel ∉ container.mapped ∧ result.next.defaultTunnel ≠ some tunnel

theorem keeps_refl (tunnel : Nat) (container : Tunnels) : Keeps tunnel container container where
  length := Nat.le_refl _
  lastRecv := fun _ => rfl
  mapped := fun _ => Iff.rfl

theorem deaths_congr (h : stateOf next tunnel = stateOf container tunnel) :
    deaths next tunnel = deaths container tunnel := by
  unfold deaths
  rw [h]

/-- An entry about the tunnel. -/
def About (tunnel : Nat) : TunnelEntry → Prop
  | .entered other _ | .called other | .returned other => other = tunnel

section

variable (hsingle : result.entries.length ≤ 1)
  (hentries : ∀ entry ∈ result.entries, ¬ About tunnel entry)
include hsingle hentries

theorem advances_quiet
    (hstate : stateOf result.next tunnel = stateOf container tunnel)
    (hkept : Keeps tunnel container result.next)
    (hnew : container.heap.length ≤ tunnel → tunnel < result.next.heap.length →
      tunnel ∈ result.next.mapped)
    (hchosen : result.next.defaultTunnel = container.defaultTunnel)
    (hcalled : (result.more.map (calling tunnel)).sum = calling tunnel action)
    (hending : (result.more.map (ending tunnel)).sum = ending tunnel action)
    (hready : ∀ behind ∈ result.more, Ready tunnel result.next behind) :
    Advances tunnel container action result where
  single := hsingle
  final := fun state hmem => absurd rfl (hentries _ hmem)
  dead := fun h => hstate.trans (h.resolve_right fun hmem => hentries _ hmem rfl)
  called := by
    have hnone : result.entries.count (.called tunnel) = 0 :=
      count_eq_zero.mpr fun hmem => hentries _ hmem rfl
    rw [hnone, deaths_congr hstate, hcalled, Int.natCast_zero, Int.add_zero]
  ending := by
    have hnone : result.entries.count (.returned tunnel) = 0 :=
      count_eq_zero.mpr fun hmem => hentries _ hmem rfl
    rw [hnone, deaths_congr hstate, hending, Int.natCast_zero, Int.add_zero]
  kept := .inl hkept
  ready := hready
  mapped := by
    intro hold hlt hne
    by_cases hcreated : tunnel < container.heap.length
    · exact (hkept.mapped hcreated).mpr (hold hcreated (hstate ▸ hne))
    · exact hnew (Nat.le_of_not_lt hcreated) hlt
  gone := fun hlt hnot hmem => hnot ((hkept.mapped hlt).mp hmem)
  chosen := fun h => .inl (hchosen ▸ h)
  returned := fun hmem => absurd rfl (hentries _ hmem)

theorem advances_still (hnext : result.next = container)
    (hcalled : (result.more.map (calling tunnel)).sum = calling tunnel action)
    (hending : (result.more.map (ending tunnel)).sum = ending tunnel action)
    (hready : ∀ behind ∈ result.more, Ready tunnel container behind) :
    Advances tunnel container action result := by
  refine advances_quiet hsingle hentries (by rw [hnext]) (hnext ▸ keeps_refl tunnel container)
    (fun hle hlt => ?_) (by rw [hnext]) hcalled hending (hnext ▸ hready)
  rw [hnext] at hlt
  exact absurd hle (Nat.not_le_of_lt hlt)

end

theorem stateOf_set (hfound : container.heap[i]? = some found) (other : SocketTunnel) (tunnel : Nat) :
    stateOf { container with heap := container.heap.set i other } tunnel =
      if i = tunnel then other.state else stateOf container tunnel := by
  unfold stateOf
  split
  case isTrue heq =>
    subst heq
    show ((container.heap.set i other)[i]?).elim _ _ = _
    rw [getElem?_set_at hfound]
    rfl
  case isFalse hne =>
    show ((container.heap.set i other)[tunnel]?).elim _ _ = _
    rw [getElem?_set_ne hne]

theorem keeps_set {found other : SocketTunnel} (hfound : container.heap[i]? = some found)
    (hlastRecv : i = tunnel → other.lastRecv = found.lastRecv) :
    Keeps tunnel container { container with heap := container.heap.set i other } where
  length := Nat.le_of_eq (length_set).symm
  lastRecv := by
    intro _
    show ((container.heap.set i other)[tunnel]?).map _ = _
    by_cases heq : i = tunnel
    · subst heq
      rw [getElem?_set_at hfound, hfound]
      exact congrArg some (hlastRecv rfl)
    · rw [getElem?_set_ne heq]
  mapped := fun _ => Iff.rfl

theorem lt_of_dead (h : stateOf container tunnel = .dead) : tunnel < container.heap.length := by
  by_contra hlt
  unfold stateOf at h
  rw [List.getElem?_eq_none (Nat.le_of_not_lt hlt)] at h
  cases h

theorem stateOf_eq (hfound : container.heap[tunnel]? = some found) :
    stateOf container tunnel = found.state := by
  unfold stateOf
  rw [hfound]
  rfl

theorem count_entry (entry other : TunnelEntry) (h : entry ≠ other) :
    (([entry].count other : Nat) : Int) = 0 :=
  congrArg Nat.cast (count_eq_zero.mpr fun hmem => h (mem_singleton.mp hmem).symm)

/-- A tunnel that is not dead enters a state, and if that is `dead` something is left to be done. -/
theorem advances_enters {newState : TcpTunnelState}
    (hfound : container.heap[i]? = some found) (hstate : found.state ≠ .dead)
    (hnext : result.next =
      { container with heap := container.heap.set i { found with state := newState } })
    (hentries : result.entries = [.entered i newState])
    (hcalled : (result.more.map (calling tunnel)).sum =
      calling tunnel action + if i = tunnel ∧ newState = .dead then 1 else 0)
    (hending : (result.more.map (ending tunnel)).sum =
      ending tunnel action + if i = tunnel ∧ newState = .dead then 1 else 0)
    (hready : (tunnel ∈ result.next.mapped ↔ tunnel ∈ container.mapped) →
      ∀ behind ∈ result.more, Ready tunnel result.next behind) :
    Advances tunnel container action result := by
  have hafter := stateOf_set hfound { found with state := newState } tunnel
  rw [← hnext] at hafter
  have halive : i = tunnel → stateOf container tunnel ≠ .dead := by
    intro heq
    subst heq
    rwa [stateOf_eq hfound]
  have hdeaths : deaths result.next tunnel =
      deaths container tunnel + if i = tunnel ∧ newState = .dead then 1 else 0 := by
    unfold deaths
    rw [hafter]
    by_cases heq : i = tunnel
    · simp [heq, halive heq]
    · simp [heq]
  have hkept : Keeps tunnel container result.next := hnext ▸ keeps_set hfound fun _ => rfl
  have hmap : tunnel ∈ result.next.mapped ↔ tunnel ∈ container.mapped := by rw [hnext]; rfl
  refine ⟨?_, fun state hmem hdead => ?_, fun hdead => ?_, ?_, ?_, .inl hkept, hready hmap,
    fun hmapped hlt hne => ?_, fun hlt hnot hmem => hnot (hmap.mp hmem),
    fun hdefault => .inl ((congrArg Tunnels.defaultTunnel hnext).symm.trans hdefault),
    fun hmem => ?_⟩
  · rw [hentries]
    exact Nat.le_refl 1
  · rw [hentries] at hmem
    obtain ⟨heq, -⟩ := TunnelEntry.entered.inj (mem_singleton.mp hmem)
    exact absurd hdead (halive heq.symm)
  · rw [hafter]
    split
    case isTrue heq =>
      have hmem := hdead.resolve_left (halive heq)
      rw [hentries] at hmem
      exact (TunnelEntry.entered.inj (mem_singleton.mp hmem)).2.symm
    case isFalse hne =>
    refine hdead.resolve_right fun hmem => ?_
    rw [hentries] at hmem
    exact hne (TunnelEntry.entered.inj (mem_singleton.mp hmem)).1.symm
  · rw [hcalled, hdeaths, hentries, count_entry (.entered i newState) (.called tunnel) nofun]
    omega
  · rw [hending, hdeaths, hentries, count_entry (.entered i newState) (.returned tunnel) nofun]
    omega
  · have hcreated : tunnel < container.heap.length := by
      rw [hnext] at hlt
      exact hlt.trans_eq length_set
    rw [hmap]
    refine hmapped hcreated ?_
    by_cases heq : i = tunnel
    · exact halive heq
    · rwa [hafter, if_neg heq] at hne
  · rw [hentries] at hmem
    cases mem_singleton.mp hmem

variable {behind : TcpTunnelState → List TunnelAction} {rest : List TunnelAction}
  {oldState newState : TcpTunnelState} {event : TunnelEvent}

theorem advances_swap (hresult : container.compareAndSwap i oldState newState behind = some result)
    (hold : oldState ≠ .dead) (hnew : newState ≠ .dead)
    (hcalled : calling tunnel action = 0) (hending : ending tunnel action = 0)
    (hbehind : ∀ state, ∀ next ∈ behind state, next = .firstPackageConnecting i) :
    Advances tunnel container action result := by
  obtain ⟨found, hfound, hmore, hcases⟩ := compareAndSwap_cases hresult
  have hnone : ∀ f : TunnelAction → Int, f (.firstPackageConnecting i) = 0 →
      (result.more.map f).sum = 0 := by
    intro f hf
    refine sum_eq_zero fun value hmem => ?_
    obtain ⟨next, hnext, rfl⟩ := mem_map.mp hmem
    rw [hbehind found.state next (hmore ▸ hnext), hf]
  have hready : ∀ next ∈ result.more, Ready tunnel result.next next := by
    intro next hnext
    rw [hbehind found.state next (hmore ▸ hnext)]
    trivial
  rcases hcases with ⟨hstate, hnext, hentries⟩ | ⟨-, hnext, hentries⟩
  · have hzero : (if i = tunnel ∧ newState = .dead then 1 else 0 : Int) = 0 :=
      if_neg fun h => hnew h.2
    exact advances_enters hfound (hstate ▸ hold) hnext hentries
      (by rw [hnone _ rfl, hcalled, hzero, Int.add_zero])
      (by rw [hnone _ rfl, hending, hzero, Int.add_zero]) fun _ => hready
  refine advances_still ?_ ?_ hnext ((hnone _ rfl).trans hcalled.symm)
    ((hnone _ rfl).trans hending.symm) (hnext ▸ hready)
  · rw [hentries]
    exact Nat.zero_le 1
  · rw [hentries]
    exact nofun

theorem advances_die {oldState : TcpTunnelState}
    (hresult : container.compareAndSwap i oldState .dead behind = some result)
    (hold : oldState ≠ .dead)
    (hcalled : calling tunnel action = 0) (hending : ending tunnel action = 0)
    (hmapped : tunnel < container.heap.length → stateOf container tunnel ≠ .dead →
      tunnel ∈ container.mapped)
    (hbehind : ∀ state, behind state = if state = oldState then [.getLastRecv i] else []) :
    Advances tunnel container action result := by
  obtain ⟨found, hfound, hmore, ⟨hstate, hnext, hentries⟩ | ⟨hstate, hnext, hentries⟩⟩ :=
    compareAndSwap_cases hresult
  · -- the tunnel dies with the call of `TunnelContainerOnTunnelDead` before it
    rw [hbehind, if_pos hstate] at hmore
    refine advances_enters hfound (hstate ▸ hold) hnext hentries ?_ ?_ fun hmap next hmem => ?_
    · rw [hmore, hcalled, map_singleton, sum_singleton, Int.zero_add]
      simp [calling]
    · rw [hmore, hending, map_singleton, sum_singleton, Int.zero_add]
      simp [TunnelRun.ending]
    rw [hmore] at hmem
    obtain rfl := mem_singleton.mp hmem
    intro heq
    subst heq
    refine hmap.mpr (hmapped (List.getElem?_eq_some_iff.mp hfound).1 ?_)
    rw [stateOf_eq hfound, hstate]
    exact hold
  rw [hbehind, if_neg hstate] at hmore
  refine advances_still ?_ ?_ hnext ?_ ?_ ?_
  · rw [hentries]
    exact Nat.zero_le 1
  · rw [hentries]
    exact nofun
  · rw [hmore, hcalled]
    rfl
  · rw [hmore, hending]
    rfl
  · intro next hmem
    rw [hmore] at hmem
    cases hmem

theorem sum_singleton_map (f : TunnelAction → Int) (action : TunnelAction) :
    ([action].map f).sum = f action := by
  rw [map_singleton, sum_singleton]

theorem keeps_deleteTunnel (hmap : container.Mapped)
    (hdelete : container.deleteTunnel i lastRecv = some (next, success)) (hne : i ≠ tunnel) :
    Keeps tunnel container next := by
  cases success with
  | true =>
    have hmem := hmap.mem_deleteTunnel hdelete tunnel
    rcases deleteTunnel_cases hdelete with ⟨hfalse, -⟩ | ⟨found, del, -, -, -, -, rfl⟩
    · cases hfalse
    · exact ⟨Nat.le_refl _, fun _ => rfl, fun _ => hmem.trans (and_iff_left hne.symm)⟩
  | false =>
    rcases deleteTunnel_cases hdelete with ⟨-, rfl⟩ | ⟨found, del, -, -, -, htrue, -⟩
    · exact keeps_refl tunnel next
    · cases htrue

theorem heap_deleteTunnel (hdelete : container.deleteTunnel i lastRecv = some (next, success)) :
    next.heap = container.heap ∧ next.defaultTunnel = container.defaultTunnel := by
  rcases deleteTunnel_cases hdelete with ⟨-, rfl⟩ | ⟨found, del, -, -, -, -, rfl⟩ <;> exact ⟨rfl, rfl⟩

theorem advances_removeTunnel (hmap : container.Mapped) {dead : Bool}
    (hready : Ready tunnel container (.removeTunnel i lastRecv dead))
    (hdead : ending tunnel (.removeTunnel i lastRecv dead) = 1 → stateOf container tunnel = .dead)
    (hresult : container.perform seen (.removeTunnel i lastRecv dead) = some result) :
    Advances tunnel container (.removeTunnel i lastRecv dead) result := by
  obtain ⟨⟨next, success⟩, hdelete, rfl⟩ := map_eq_some_iff.mp hresult
  obtain ⟨hheap, hdefault⟩ := heap_deleteTunnel hdelete
  have hstate : stateOf next tunnel = stateOf container tunnel := by
    unfold stateOf
    rw [hheap]
  have hnew : container.heap.length ≤ tunnel → tunnel < next.heap.length → tunnel ∈ next.mapped := by
    intro hle hlt
    rw [hheap] at hlt
    exact absurd hle (Nat.not_le_of_lt hlt)
  by_cases heq : i = tunnel
  · -- the tunnel is in the map, as it was when it died
    subst heq
    obtain ⟨rfl, hmem, hlastRecv⟩ := hready rfl
    obtain rfl := hmap.deleteTunnel_success hmem hlastRecv hdelete
    have hlt := lt_of_mapped hmap hmem
    have hnot : i ∉ next.mapped := fun hmem => ((hmap.mem_deleteTunnel hdelete i).mp hmem).2 rfl
    have hone : ending i (.removeTunnel i lastRecv true) = 1 := if_pos rfl
    show Advances i container _ { next, more := [.updateDefaultTunnel (some i)] }
    refine ⟨Nat.zero_le 1, nofun, fun h => hstate.trans (hdead hone), ?_, ?_, .inr hone, ?_, ?_,
      fun _ hnot => absurd hmem hnot, fun h => .inl (hdefault ▸ h), nofun⟩
    · rw [deaths_congr hstate, sum_singleton_map]
      rfl
    · rw [deaths_congr hstate, sum_singleton_map, hone]
      show (if i = i then 1 else 0) + ((0 : Nat) : Int) + _ = _
      rw [if_pos rfl, Int.natCast_zero, Int.add_zero]
    · intro behind hbehind
      obtain rfl := mem_singleton.mp hbehind
      intro _
      exact ⟨hheap ▸ hlt, hnot⟩
    · intro _ _ hne
      exact absurd (hstate.trans (hdead hone)) hne
  have hkept := keeps_deleteTunnel hmap hdelete heq
  have hother : (if i = tunnel then 1 else 0 : Int) = 0 := if_neg heq
  cases dead with
  | false => exact advances_quiet (Nat.zero_le 1) nofun hstate hkept hnew hdefault rfl rfl nofun
  | true =>
    cases success with
    | true =>
      show Advances tunnel container _ { next, more := [.updateDefaultTunnel (some i)] }
      refine advances_quiet (Nat.zero_le 1) nofun hstate hkept hnew hdefault
        (sum_singleton_map _ _) (sum_singleton_map _ _) fun behind hbehind => ?_
      obtain rfl := mem_singleton.mp hbehind
      exact fun hsome => absurd (some.inj hsome) heq
    | false =>
      show Advances tunnel container _ { next, entries := [.returned i] }
      refine advances_quiet (Nat.le_refl 1) (fun entry hentry => ?_) hstate hkept hnew hdefault
        rfl hother.symm nofun
      obtain rfl := mem_singleton.mp hentry
      exact heq

/-- `TunnelContainerCreateTunnel` gives the map a new tunnel. -/
theorem keeps_addTunnel
    (hadd : container.addTunnel localEndpoint remoteEndpoint lastRecv = some (next, i, added))
    (tunnel : Nat) : Keeps tunnel container next ∧ stateOf next tunnel = stateOf container tunnel ∧
      next.defaultTunnel = container.defaultTunnel ∧
      (container.heap.length ≤ tunnel → tunnel < next.heap.length → tunnel ∈ next.mapped) := by
  rcases addTunnel_cases hadd with ⟨-, rfl, -⟩ | ⟨created, hcreated, -, rfl, -, rfl⟩
  · exact ⟨keeps_refl tunnel next, rfl, rfl, fun hle hlt => absurd hle (Nat.not_le_of_lt hlt)⟩
  have hold : tunnel < container.heap.length →
      (container.heap ++ [created])[tunnel]? = container.heap[tunnel]? :=
    fun hlt => getElem?_append_left hlt
  refine ⟨⟨?_, fun hlt => ?_, fun hlt => ?_⟩, ?_, rfl, fun hle hlt => ?_⟩
  · exact length_append ▸ Nat.le_add_right _ _
  · exact congrArg _ (hold hlt)
  · exact mem_cons.trans (or_iff_right (Nat.ne_of_lt hlt))
  · unfold stateOf
    by_cases hlt : tunnel < container.heap.length
    · exact congrArg (Option.elim · _ _) (hold hlt)
    rw [List.getElem?_eq_none (Nat.le_of_not_lt hlt)]
    show ((container.heap ++ [created])[tunnel]?).elim _ _ = _
    by_cases heq : tunnel = container.heap.length
    · subst heq
      rw [getElem?_concat_length]
      exact (create_cases hcreated).2.2.1
    have hle : (container.heap ++ [created]).length ≤ tunnel := by
      rw [length_append, length_singleton]
      omega
    rw [List.getElem?_eq_none hle]
  have hlength : tunnel < (container.heap ++ [created]).length := hlt
  rw [length_append, length_singleton] at hlength
  obtain rfl : tunnel = container.heap.length := by omega
  exact mem_cons_self

theorem mapM_seen {tunnels : List (Nat × SocketTunnel)}
    (h : (seen.mapM fun (x : Nat × TcpTunnelState) =>
      (container.heap[x.1]?).map fun tunnel => (x.1, { tunnel with state := x.2 })) = some tunnels) :
    tunnels.map Prod.fst = seen.map Prod.fst := by
  induction seen generalizing tunnels with
  | nil => exact some.inj h ▸ rfl
  | cons first _ ih =>
    rw [mapM_cons] at h
    obtain ⟨tunnel, htunnel, h⟩ := bind_eq_some_iff.mp h
    obtain ⟨rest, hrest, h⟩ := bind_eq_some_iff.mp h
    cases h
    obtain ⟨found, -, rfl⟩ := map_eq_some_iff.mp htunnel
    exact congrArg (first.1 :: ·) (ih hrest)

theorem choose_mapped {chosen : Option Nat} (hchoose : container.choose seen = some chosen)
    (hsome : chosen = some tunnel) : tunnel ∈ container.mapped := by
  unfold choose at hchoose
  split at hchoose
  case isFalse => cases hchoose
  case isTrue hperm =>
  obtain ⟨tunnels, htunnels, heq⟩ := bind_eq_some_iff.mp hchoose
  cases heq
  rcases chooseTunnel_mem hsome with hmem | hnone | hnone
  · exact hperm.mem_iff.mp (mapM_seen htunnels ▸ hmem)
  · cases hnone
  · cases hnone

theorem ne_of_udp (htcp : container.isUdp tunnel = false) (hudp : container.isUdp i = true) :
    i ≠ tunnel := by
  intro heq
  rw [heq, htcp] at hudp
  cases hudp

theorem addTunnel_udp (hmap : container.Mapped)
    (hlocal : localEndpoint.flag &&& BDT_ENDPOINT_PROTOCOL_UDP ≠ 0)
    (hadd : container.addTunnel localEndpoint remoteEndpoint lastRecv = some (next, i, added)) :
    next.isUdp i = true := by
  rcases addTunnel_cases hadd with ⟨-, rfl, -, found, hfound, rfl, hkey⟩ |
    ⟨created, hcreated, -, rfl, -, rfl⟩
  · exact hmap.found_udp hlocal hfound hkey
  · unfold isUdp
    rw [getElem?_concat_length, any_some, (create_cases hcreated).2.2.2]
    exact decide_eq_true hlocal

theorem advances_onTunnelDead (hready : Ready tunnel container (.onTunnelDead i lastRecv))
    (hdead : ending tunnel (.onTunnelDead i lastRecv) = 1 → stateOf container tunnel = .dead) :
    Advances tunnel container (.onTunnelDead i lastRecv)
      { next := container, entries := [.called i], more := [.removeTunnel i lastRecv true] } := by
  by_cases heq : i = tunnel
  · subst heq
    have hstate := hdead (if_pos rfl)
    have hone : calling i (.onTunnelDead i lastRecv) = 1 := if_pos rfl
    refine ⟨Nat.le_refl 1, ?_, fun _ => hstate, ?_, ?_, .inl (keeps_refl i container), ?_,
      fun h => h, fun _ hnot => hnot, .inl, ?_⟩
    · intro state hmem
      cases mem_singleton.mp hmem
    · show ([TunnelAction.removeTunnel i lastRecv true].map (calling i)).sum +
        (([TunnelEntry.called i].count (.called i) : Nat) : Int) + _ = _
      rw [sum_singleton_map, hone, count_cons_self, count_nil]
      rfl
    · show ([TunnelAction.removeTunnel i lastRecv true].map (ending i)).sum +
        (([TunnelEntry.called i].count (.returned i) : Nat) : Int) + _ = _
      rw [sum_singleton_map, count_entry (.called i) (.returned i) nofun, Int.add_zero]
      rfl
    · intro behind hbehind
      obtain rfl := mem_singleton.mp hbehind
      exact fun _ => ⟨rfl, hready rfl⟩
    · intro hmem
      cases mem_singleton.mp hmem
  have hzero : (if i = tunnel then 1 else 0 : Int) = 0 := if_neg heq
  refine advances_still (Nat.le_refl 1) (fun entry hentry => ?_) rfl
    ((sum_singleton_map _ _).trans hzero.symm) (sum_singleton_map _ _) fun behind hbehind => ?_
  · obtain rfl := mem_singleton.mp hentry
    exact heq
  · obtain rfl := mem_singleton.mp hbehind
    exact fun hsame => absurd hsame heq

theorem advances_setDefaultTunnel {chosen dead : Option Nat}
    (hready : Ready tunnel container (.setDefaultTunnel chosen dead)) :
    Advances tunnel container (.setDefaultTunnel chosen dead)
      { next := { container with defaultTunnel := chosen }
        entries := (dead.map TunnelEntry.returned).toList } := by
  have hmem : ∀ {entry}, entry ∈ (dead.map TunnelEntry.returned).toList →
      ∃ other, dead = some other ∧ entry = .returned other := by
    intro entry hentry
    obtain ⟨other, hother, rfl⟩ := map_eq_some_iff.mp (mem_toList.mp hentry)
    exact ⟨other, hother, rfl⟩
  refine ⟨?_, ?_, ?_, ?_, ?_, .inl ⟨Nat.le_refl _, fun _ => rfl, fun _ => Iff.rfl⟩, nofun,
    fun h => h, fun _ hnot => hnot, ?_, ?_⟩
  · cases dead with
    | none => exact Nat.zero_le 1
    | some => exact Nat.le_refl 1
  · intro state hentry
    obtain ⟨other, -, heq⟩ := hmem hentry
    cases heq
  · intro h
    refine h.resolve_right fun hentry => ?_
    obtain ⟨other, -, heq⟩ := hmem hentry
    cases heq
  · have hnone : (dead.map TunnelEntry.returned).toList.count (.called tunnel) = 0 := by
      refine count_eq_zero.mpr fun hentry => ?_
      obtain ⟨other, -, heq⟩ := hmem hentry
      cases heq
    show (([] : List TunnelAction).map (calling tunnel)).sum +
      (((dead.map TunnelEntry.returned).toList.count (.called tunnel) : Nat) : Int) + _ = _
    rw [hnone]
    rfl
  · show (([] : List TunnelAction).map (ending tunnel)).sum +
      (((dead.map TunnelEntry.returned).toList.count (.returned tunnel) : Nat) : Int) +
        deaths container tunnel = ending tunnel (.setDefaultTunnel chosen dead) + deaths container tunnel
    have hcount : (((dead.map TunnelEntry.returned).toList.count (.returned tunnel) : Nat) : Int) =
        ending tunnel (.setDefaultTunnel chosen dead) := by
      cases dead with
      | none => rfl
      | some other =>
        by_cases heq : other = tunnel
        · subst heq
          show (([TunnelEntry.returned other].count (.returned other) : Nat) : Int) = _
          rw [count_cons_self, count_nil]
          exact (if_pos rfl).symm
        · have hne : TunnelEntry.returned other ≠ .returned tunnel :=
            fun h => heq (TunnelEntry.returned.inj h)
          exact (count_entry _ _ hne).trans (if_neg heq).symm
    rw [hcount, map_nil, sum_nil, Int.zero_add]
  · intro hchosen
    exact .inr ⟨dead, congrArg (TunnelAction.setDefaultTunnel · dead) hchosen⟩
  intro hentry
  obtain ⟨other, hdead, heq⟩ := hmem hentry
  obtain rfl := TunnelEntry.returned.inj heq
  exact hready hdead

theorem advances_updateLastRecv {now : UInt64}
    (hfound : container.heap[i]? = some found) (hne : i ≠ tunnel) :
    Advances tunnel container (.updateLastRecv i now)
      { next :=
          { container with heap := container.heap.set i { found with lastRecv := now } } } := by
  have hstate := stateOf_set hfound { found with lastRecv := now } tunnel
  rw [if_neg hne] at hstate
  refine advances_quiet (Nat.zero_le 1) nofun hstate (keeps_set hfound fun heq => absurd heq hne)
    (fun hle hlt => ?_) rfl rfl rfl nofun
  exact absurd hle (Nat.not_le_of_lt (hlt.trans_eq length_set))

theorem perform_advances (hmap : container.Mapped) (htcp : result.next.isUdp tunnel = false)
    (hbefore : container.isUdp tunnel = false)
    (hmapped : tunnel < container.heap.length → stateOf container tunnel ≠ .dead →
      tunnel ∈ container.mapped)
    (hready : Ready tunnel container action)
    (hdead : ending tunnel action = 1 → stateOf container tunnel = .dead)
    (herror : action ≠ .tcpError tunnel)
    (hresult : container.perform seen action = some result) :
    Advances tunnel container action result := by
  cases action with
  | connect | firstResp | firstPackageConnecting =>
    simp only [Tunnels.perform] at hresult
    exact advances_swap hresult nofun nofun rfl rfl fun _ _ hmem => nomatch hmem
  | connectTimeout | markDead =>
    simp only [Tunnels.perform] at hresult
    exact advances_die hresult nofun rfl rfl hmapped fun _ => rfl
  | firstPackage i =>
    simp only [Tunnels.perform] at hresult
    refine advances_swap hresult nofun nofun rfl rfl fun state next hmem => ?_
    exact mem_singleton.mp (mem_ite_nil_right.mp hmem).2
  | tcpError i =>
    -- the error is that of another tunnel
    obtain ⟨found, hfound, rfl⟩ := map_eq_some_iff.mp hresult
    have hne : i ≠ tunnel := fun heq => herror (congrArg _ heq)
    have hstate := stateOf_set hfound { found with state := .dead } tunnel
    rw [if_neg hne] at hstate
    refine advances_quiet (Nat.le_refl 1) (fun entry hentry => ?_) hstate
      (keeps_set hfound fun _ => rfl) (fun hle hlt => ?_) rfl ?_ ?_ fun behind hbehind => ?_
    · obtain rfl := mem_singleton.mp hentry
      exact hne
    · exact absurd hle (Nat.not_le_of_lt (hlt.trans_eq length_set))
    · split
      case isTrue => exact (sum_singleton_map _ _).trans (if_neg hne)
      case isFalse => rfl
    · split
      case isTrue => exact (sum_singleton_map _ _).trans (if_neg hne)
      case isFalse => rfl
    obtain rfl := mem_singleton.mp (mem_ite_nil_right.mp hbehind).2
    exact fun heq => absurd heq hne
  | establish =>
    cases hresult
    exact advances_still (Nat.zero_le 1) nofun rfl rfl rfl nofun
  | getLastRecv =>
    obtain ⟨found, hfound, rfl⟩ := map_eq_some_iff.mp hresult
    refine advances_still (Nat.zero_le 1) nofun rfl (sum_singleton_map _ _)
      (sum_singleton_map _ _) fun behind hbehind => ?_
    obtain rfl := mem_singleton.mp hbehind
    intro heq
    exact ⟨hready heq, by rw [← heq, hfound]; rfl⟩
  | onTunnelDead =>
    cases hresult
    exact advances_onTunnelDead hready hdead
  | removeTunnel => exact advances_removeTunnel hmap hready hdead hresult
  | updateDefaultTunnel dead =>
    obtain ⟨chosen, hchoose, rfl⟩ := map_eq_some_iff.mp hresult
    refine advances_still (Nat.zero_le 1) nofun rfl (sum_singleton_map _ _)
      ((sum_singleton_map _ _).trans ?_) fun behind hbehind => ?_
    · cases dead <;> rfl
    obtain rfl := mem_singleton.mp hbehind
    intro heq
    obtain ⟨hlt, hnot⟩ := hready heq
    exact ⟨hlt, hnot, fun hsome => hnot (choose_mapped hchoose hsome)⟩
  | setDefaultTunnel =>
    cases hresult
    exact advances_setDefaultTunnel hready
  | createTunnel localEndpoint remoteEndpoint lastRecv =>
    obtain ⟨⟨next, i, added⟩, hadd, rfl⟩ := map_eq_some_iff.mp hresult
    obtain ⟨hkept, hstate, hdefault, hnew⟩ := keeps_addTunnel hadd tunnel
    exact advances_quiet (Nat.zero_le 1) nofun hstate hkept hnew hdefault rfl rfl nofun
  | pushUdpPackage =>
    have hnext := some.inj hresult
    split at hnext
    case h_1 found hfind =>
      subst hnext
      refine advances_still (Nat.zero_le 1) nofun rfl rfl rfl fun behind hbehind => ?_
      obtain rfl := mem_singleton.mp hbehind
      obtain ⟨hmem, hkey⟩ := findMember_mem tunnelMap_comparesBy hfind
      exact ne_of_udp hbefore (hmap.found_udp hready hmem (congrArg Prod.fst hkey).symm)
    case h_2 =>
    subst hnext
    refine advances_still (Nat.zero_le 1) nofun rfl rfl rfl fun behind hbehind => ?_
    obtain rfl := mem_singleton.mp hbehind
    exact hready
  | pushNewUdpPackage localEndpoint remoteEndpoint now =>
    obtain ⟨⟨next, i, added⟩, hadd, rfl⟩ := map_eq_some_iff.mp hresult
    obtain ⟨hkept, hstate, hdefault, hnew⟩ := keeps_addTunnel hadd tunnel
    have hne := ne_of_udp htcp (addTunnel_udp hmap hready hadd)
    refine advances_quiet (Nat.zero_le 1) nofun hstate hkept hnew hdefault ?_ ?_
      fun behind hbehind => ?_
    · cases added <;> rfl
    · cases added <;> rfl
    rcases mem_cons.mp hbehind with rfl | hbehind
    · exact hne
    obtain rfl := mem_singleton.mp (mem_ite_nil_right.mp hbehind).2
    exact nofun
  | updateLastRecv =>
    obtain ⟨found, hfound, rfl⟩ := map_eq_some_iff.mp hresult
    exact advances_updateLastRecv hfound hready

/-! ## Runs -/

theorem ready_keeps (hmap : container.Mapped) (hkept : Keeps tunnel container next)
    (h : Ready tunnel container action) : Ready tunnel next action := by
  have hmem : tunnel ∈ container.mapped → tunnel ∈ next.mapped :=
    fun hmem => (hkept.mapped (lt_of_mapped hmap hmem)).mpr hmem
  have hlastRecv : ∀ {lastRecv}, (container.heap[tunnel]?).map (·.lastRecv) = some lastRecv →
      tunnel ∈ container.mapped → (next.heap[tunnel]?).map (·.lastRecv) = some lastRecv :=
    fun hsome hmem => (hkept.lastRecv (lt_of_mapped hmap hmem)).trans hsome
  cases action with
  | getLastRecv => exact fun heq => hmem (h heq)
  | onTunnelDead => exact fun heq => ⟨hmem (h heq).1, hlastRecv (h heq).2 (h heq).1⟩
  | removeTunnel =>
    intro heq
    obtain ⟨hdead, hin, hsame⟩ := h heq
    exact ⟨hdead, hmem hin, hlastRecv hsame hin⟩
  | updateDefaultTunnel =>
    intro heq
    obtain ⟨hlt, hnot⟩ := h heq
    exact ⟨Nat.lt_of_lt_of_le hlt hkept.length, fun hin => hnot ((hkept.mapped hlt).mp hin)⟩
  | setDefaultTunnel =>
    intro heq
    obtain ⟨hlt, hnot, hne⟩ := h heq
    exact ⟨Nat.lt_of_lt_of_le hlt hkept.length, fun hin => hnot ((hkept.mapped hlt).mp hin), hne⟩
  | updateLastRecv | pushUdpPackage | pushNewUdpPackage => exact h
  | _ => trivial

theorem ready_weightless (hzero : ending tunnel action = 0) (h : Ready tunnel container action) :
    Ready tunnel next action := by
  have hne : ∀ {other}, (if other = tunnel then 1 else 0 : Int) = 0 → other ≠ tunnel := by
    intro other hif heq
    rw [if_pos heq] at hif
    cases hif
  cases action with
  | getLastRecv => exact fun heq => absurd heq (hne hzero)
  | onTunnelDead => exact fun heq => absurd heq (hne hzero)
  | removeTunnel =>
    intro heq
    obtain ⟨rfl, -⟩ := h heq
    exact absurd heq (hne hzero)
  | updateDefaultTunnel =>
    intro heq
    subst heq
    exact absurd rfl (hne hzero)
  | setDefaultTunnel =>
    intro heq
    subst heq
    exact absurd rfl (hne hzero)
  | updateLastRecv | pushUdpPackage | pushNewUdpPackage => exact h
  | _ => trivial

/-- What the calls in flight know about a tunnel that is not a udp tunnel. -/
structure Tracked (tunnel : Nat) (run : TunnelRun) : Prop where
  final : Justified (StaysDead tunnel) run.history
  dead : .entered tunnel .dead ∈ run.history → stateOf run.container tunnel = .dead
  called : weight (calling tunnel) run.calls + run.history.count (.called tunnel) =
    deaths run.container tunnel
  ending : weight (ending tunnel) run.calls + run.history.count (.returned tunnel) =
    deaths run.container tunnel
  mapped : tunnel < run.container.heap.length → stateOf run.container tunnel ≠ .dead →
    tunnel ∈ run.container.mapped
  ready : ∀ action ∈ run.calls.flatten, Ready tunnel run.container action
  gone : .returned tunnel ∈ run.history →
    tunnel ∉ run.container.mapped ∧ run.container.defaultTunnel ≠ some tunnel

theorem Tracked.diesOnce {run : TunnelRun} (h : Tracked tunnel run) : run.DiesOnce tunnel where
  final := h.final
  called := h.called
  gone := h.gone

theorem ending_nonneg (tunnel : Nat) (action : TunnelAction) : 0 ≤ ending tunnel action := by
  unfold ending
  split
  all_goals first | exact Int.le_refl 0 | (split <;> decide)

theorem deaths_cases (container : Tunnels) (tunnel : Nat) :
    (stateOf container tunnel = .dead ∧ deaths container tunnel = 1) ∨
      (stateOf container tunnel ≠ .dead ∧ deaths container tunnel = 0) := by
  by_cases hdead : stateOf container tunnel = .dead
  · exact .inl ⟨hdead, if_pos hdead⟩
  · exact .inr ⟨hdead, if_neg hdead⟩

variable {run : TunnelRun}

/-- The end of a tunnel has begun only when it is dead. -/
theorem Tracked.dead_of_ending (h : Tracked tunnel run) (hmem : action ∈ run.calls.flatten)
    (hone : TunnelRun.ending tunnel action = 1) : stateOf run.container tunnel = .dead := by
  obtain ⟨actions, hactions, haction⟩ := mem_flatten.mp hmem
  have hle := le_weight (ending_nonneg tunnel) hactions haction
  have hweight := h.ending
  rcases deaths_cases run.container tunnel with ⟨hdead, -⟩ | ⟨-, hzero⟩
  · exact hdead
  · omega

theorem Tracked.dead_of_returned (h : Tracked tunnel run) (hmem : .returned tunnel ∈ run.history) :
    stateOf run.container tunnel = .dead := by
  have hpos := count_pos_iff.mpr hmem
  have hnonneg := weight_nonneg (ending_nonneg tunnel) run.calls
  have hweight := h.ending
  rcases deaths_cases run.container tunnel with ⟨hdead, -⟩ | ⟨-, hzero⟩
  · exact hdead
  · omega

theorem Tracked.step (h : Tracked tunnel run) (hmap : run.container.Mapped)
    (hcall : run.calls[i]? = some (action :: rest)) (hadvances : Advances tunnel run.container action result)
    (hchosen : ∀ dead, action = .setDefaultTunnel (some tunnel) dead → .returned tunnel ∉ run.history) :
    Tracked tunnel
      { container := result.next
        calls := advanceCall run.calls i result.more rest
        history := run.history ++ result.entries } := by
  have hcalling := weight_advance (calling tunnel) result.more hcall
  have hending := weight_advance (TunnelRun.ending tunnel) result.more hcall
  have hcalled := hadvances.called
  have hended := hadvances.ending
  have hwasCalled := h.called
  have hwasEnding := h.ending
  refine ⟨?_, ?_, ?_, ?_, hadvances.mapped h.mapped, fun other hmem => ?_, fun hmem => ?_⟩
  · refine h.final.extend fun front entry back heq state hentry hdead => ?_
    -- there is one entry at most
    have hlength := hadvances.single
    rw [heq, length_append, length_cons] at hlength
    obtain rfl : front = [] := length_eq_zero_iff.mp (by omega)
    rw [append_nil] at hdead
    refine hadvances.final state ?_ (h.dead hdead)
    rw [heq, hentry]
    exact mem_cons_self
  · intro hmem
    rcases mem_append.mp hmem with hmem | hmem
    · exact hadvances.dead (.inl (h.dead hmem))
    · exact hadvances.dead (.inr hmem)
  · show weight (calling tunnel) (advanceCall run.calls i result.more rest) +
      ((run.history ++ result.entries).count (.called tunnel) : Nat) = deaths result.next tunnel
    rw [count_append]
    omega
  · show weight (TunnelRun.ending tunnel) (advanceCall run.calls i result.more rest) +
      ((run.history ++ result.entries).count (.returned tunnel) : Nat) = deaths result.next tunnel
    rw [count_append]
    omega
  · rcases mem_advanceCall.mp hmem with hmem | hmem
    · exact hadvances.ready other hmem
    have hready := h.ready other (mem_of_advance hcall hmem)
    rcases hadvances.kept with hkept | hone
    · exact ready_keeps hmap hkept hready
    · refine ready_weightless (others_weightless (ending_nonneg tunnel) hcall ?_ hmem) hready
      rcases deaths_cases run.container tunnel with ⟨-, hdeaths⟩ | ⟨-, hdeaths⟩ <;> omega
  rcases mem_append.mp hmem with hmem | hmem
  · obtain ⟨hnot, hdefault⟩ := h.gone hmem
    refine ⟨hadvances.gone (lt_of_dead (h.dead_of_returned hmem)) hnot, fun hsome => ?_⟩
    rcases hadvances.chosen hsome with hsame | ⟨dead, heq⟩
    · exact hdefault hsame
    · exact hchosen dead heq hmem
  · obtain ⟨hlt, hnot, hdefault⟩ := hadvances.returned hmem
    exact ⟨hadvances.gone hlt hnot, hdefault⟩

theorem entry_ready (htcp : container.isUdp tunnel = false) (hentry : container.isEntry action = true) :
    calling tunnel action = 0 ∧ ending tunnel action = 0 ∧ Ready tunnel container action := by
  cases action with
  | connect | connectTimeout | markDead | tcpError | establish | firstResp | firstPackage |
      createTunnel => exact ⟨rfl, rfl, trivial⟩
  | onTunnelDead =>
    have hne := ne_of_udp htcp hentry
    exact ⟨if_neg hne, if_neg hne, fun heq => absurd heq hne⟩
  | removeTunnel _ _ dead =>
    cases dead with
    | true => cases hentry
    | false => exact ⟨rfl, rfl, fun heq => absurd heq (ne_of_udp htcp hentry)⟩
  | updateDefaultTunnel dead =>
    cases dead with
    | some => cases hentry
    | none => exact ⟨rfl, rfl, nofun⟩
  | pushUdpPackage localEndpoint =>
    have hlocal : decide (localEndpoint.flag &&& BDT_ENDPOINT_PROTOCOL_UDP ≠ 0) = true := hentry
    refine ⟨rfl, rfl, ?_⟩
    show localEndpoint.flag &&& BDT_ENDPOINT_PROTOCOL_UDP ≠ 0
    exact of_decide_eq_true hlocal
  | firstPackageConnecting | getLastRecv | setDefaultTunnel | pushNewUdpPackage | updateLastRecv =>
    cases hentry

theorem Tracked.call (h : Tracked tunnel run) (htcp : run.container.isUdp tunnel = false)
    (hentry : run.container.isEntry action = true) :
    Tracked tunnel { run with calls := run.calls ++ [[action]] } := by
  obtain ⟨hcalling, hending, hready⟩ := entry_ready htcp hentry
  refine ⟨h.final, h.dead, ?_, ?_, h.mapped, fun other hmem => ?_, h.gone⟩
  · show weight (calling tunnel) (run.calls ++ [[action]]) + _ = _
    rw [weight_begin, sum_singleton_map, hcalling, Int.add_zero]
    exact h.called
  · show weight (TunnelRun.ending tunnel) (run.calls ++ [[action]]) + _ = _
    rw [weight_begin, sum_singleton_map, hending, Int.add_zero]
    exact h.ending
  rcases mem_append.mp (flatten_append ▸ hmem) with hmem | hmem
  · exact h.ready other hmem
  · obtain rfl := mem_singleton.mp (flatten_singleton ▸ hmem)
    exact hready

theorem tracked_start (tunnel : Nat) : Tracked tunnel {} where
  final := justified_nil
  dead := nofun
  called := rfl
  ending := rfl
  mapped := fun hlt => absurd hlt (Nat.not_lt_zero tunnel)
  ready := nofun
  gone := nofun

/-- What was created stays, as a tunnel of the same kind. -/
def Extends (container next : Tunnels) : Prop :=
  ∀ (i : Nat) (found : SocketTunnel), container.heap[i]? = some found →
    ∃ other, next.heap[i]? = some other ∧ kind other = kind found

/-- The map stays as it should be, and what was created stays. -/
structure Grows (container next : Tunnels) : Prop where
  mapped : container.Mapped → next.Mapped
  kept : Extends container next

theorem grows_refl (container : Tunnels) : Grows container container :=
  ⟨id, fun _ found hfound => ⟨found, hfound, rfl⟩⟩

theorem grows_set {found other : SocketTunnel} (hfound : container.heap[i]? = some found)
    (hkind : kind other = kind found) :
    Grows container { container with heap := container.heap.set i other } := by
  refine ⟨fun h => h.set hfound hkind, fun j old hold => ?_⟩
  by_cases heq : i = j
  · subst heq
    obtain rfl := some.inj (hfound.symm.trans hold)
    exact ⟨other, getElem?_set_at hold other, hkind⟩
  · exact ⟨old, (getElem?_set_ne heq).trans hold, rfl⟩

theorem grows_swap (hresult : container.compareAndSwap i oldState newState behind = some result) :
    Grows container result.next := by
  obtain ⟨found, hfound, -, ⟨-, hnext, -⟩ | ⟨-, hnext, -⟩⟩ := compareAndSwap_cases hresult
  · exact hnext ▸ grows_set hfound rfl
  · exact hnext ▸ grows_refl container

theorem grows_addTunnel
    (hadd : container.addTunnel localEndpoint remoteEndpoint lastRecv = some (next, i, added)) :
    Grows container next := by
  refine ⟨fun h => h.addTunnel hadd, fun j found hfound => ⟨found, ?_, rfl⟩⟩
  rcases addTunnel_cases hadd with ⟨-, rfl, -⟩ | ⟨created, -, -, -, -, rfl⟩
  · exact hfound
  · exact (getElem?_append_left (List.getElem?_eq_some_iff.mp hfound).1).trans hfound

theorem perform_grows (hresult : container.perform seen action = some result) :
    Grows container result.next := by
  cases action with
  | connect | connectTimeout | markDead | firstResp | firstPackage | firstPackageConnecting =>
    simp only [perform] at hresult
    exact grows_swap hresult
  | tcpError | updateLastRecv =>
    obtain ⟨found, hfound, rfl⟩ := map_eq_some_iff.mp hresult
    exact grows_set hfound rfl
  | getLastRecv | updateDefaultTunnel =>
    obtain ⟨found, -, rfl⟩ := map_eq_some_iff.mp hresult
    exact grows_refl container
  | establish | onTunnelDead =>
    cases hresult
    exact grows_refl container
  | setDefaultTunnel =>
    cases hresult
    exact ⟨fun h => ⟨h.nodes, h.keys, h.flags⟩, fun i found hfound => ⟨found, hfound, rfl⟩⟩
  | removeTunnel tunnel lastRecv dead =>
    obtain ⟨⟨next, success⟩, hdelete, rfl⟩ := map_eq_some_iff.mp hresult
    have hnext : Grows container next := ⟨fun h => h.deleteTunnel hdelete, fun j found hfound =>
      ⟨found, (heap_deleteTunnel hdelete).1.symm ▸ hfound, rfl⟩⟩
    cases dead <;> cases success <;> exact hnext
  | createTunnel | pushNewUdpPackage =>
    obtain ⟨⟨next, tunnel, added⟩, hadd, rfl⟩ := map_eq_some_iff.mp hresult
    exact grows_addTunnel hadd
  | pushUdpPackage =>
    cases hresult
    split <;> exact grows_refl container

/-- An error of the tcp interface is not what another action leaves to be done. -/
theorem perform_noError (hresult : container.perform seen action = some result) (other : Nat) :
    .tcpError other ∉ result.more := by
  have hswap : ∀ {i oldState newState} {behind : TcpTunnelState → List TunnelAction},
      container.compareAndSwap i oldState newState behind = some result →
      (∀ state, .tcpError other ∉ behind state) → .tcpError other ∉ result.more := by
    intro i oldState newState behind hresult hbehind hmem
    obtain ⟨found, -, heq, -⟩ := compareAndSwap_cases hresult
    exact hbehind found.state (heq ▸ hmem)
  cases action with
  | connect | firstResp | firstPackageConnecting =>
    simp only [perform] at hresult
    exact hswap hresult fun _ => nofun
  | connectTimeout | markDead | firstPackage =>
    simp only [perform] at hresult
    refine hswap hresult fun state hmem => ?_
    cases mem_singleton.mp (mem_ite_nil_right.mp hmem).2
  | tcpError =>
    obtain ⟨found, -, rfl⟩ := map_eq_some_iff.mp hresult
    intro hmem
    cases mem_singleton.mp (mem_ite_nil_right.mp hmem).2
  | updateLastRecv | createTunnel =>
    obtain ⟨found, -, rfl⟩ := map_eq_some_iff.mp hresult
    exact nofun
  | getLastRecv | updateDefaultTunnel =>
    obtain ⟨found, -, rfl⟩ := map_eq_some_iff.mp hresult
    intro hmem
    cases mem_singleton.mp hmem
  | establish | setDefaultTunnel =>
    cases hresult
    exact nofun
  | onTunnelDead =>
    cases hresult
    intro hmem
    cases mem_singleton.mp hmem
  | removeTunnel tunnel lastRecv dead =>
    obtain ⟨⟨next, success⟩, -, rfl⟩ := map_eq_some_iff.mp hresult
    intro hmem
    cases dead <;> cases success <;> first | cases mem_singleton.mp hmem | cases hmem
  | pushNewUdpPackage =>
    obtain ⟨⟨next, tunnel, added⟩, -, rfl⟩ := map_eq_some_iff.mp hresult
    intro hmem
    rcases mem_cons.mp hmem with heq | hmem
    · cases heq
    · cases mem_singleton.mp (mem_ite_nil_right.mp hmem).2
  | pushUdpPackage =>
    cases hresult
    intro hmem
    split at hmem <;> cases mem_singleton.mp hmem

theorem isUdp_extends (h : Extends container next) (htcp : next.isUdp tunnel = false) :
    container.isUdp tunnel = false := by
  unfold isUdp at *
  cases hfound : container.heap[tunnel]? with
  | none => rfl
  | some found =>
    obtain ⟨other, hother, hkind⟩ := h tunnel found hfound
    rw [hother] at htcp
    exact (Prod.mk.inj hkind).1.symm.trans htcp

/-! ## Runs -/

theorem handle_step {next : TunnelRun} (hnext : run.handle (.step i seen) = some next) :
    ∃ action rest result, run.calls[i]? = some (action :: rest) ∧
      run.container.perform seen action = some result ∧
      next =
        { container := result.next
          calls := advanceCall run.calls i result.more rest
          history := run.history ++ result.entries } := by
  simp only [handle] at hnext
  split at hnext
  case h_1 action rest hcall =>
    obtain ⟨result, hresult, rfl⟩ := map_eq_some_iff.mp hnext
    exact ⟨action, rest, result, hcall, hresult, rfl⟩
  case h_2 => cases hnext

theorem handle_call {next : TunnelRun} (hnext : run.handle (.call action) = some next) :
    run.container.isEntry action = true ∧ next = { run with calls := run.calls ++ [[action]] } := by
  simp only [handle] at hnext
  split at hnext
  case isTrue hentry => exact ⟨hentry, (some.inj hnext).symm⟩
  case isFalse => cases hnext

/-- The tcp interface that reports an error has a tunnel. -/
def ErrorsCreated (run : TunnelRun) : Prop :=
  ∀ tunnel, .tcpError tunnel ∈ run.calls.flatten → tunnel < run.container.heap.length

theorem ErrorsCreated.handle {next : TunnelRun} (h : run.ErrorsCreated)
    (hnext : run.handle event = some next) : next.ErrorsCreated := by
  intro tunnel hmem
  cases event with
  | call =>
    obtain ⟨hentry, rfl⟩ := handle_call hnext
    rcases mem_append.mp (flatten_append ▸ hmem) with hmem | hmem
    · exact h tunnel hmem
    obtain rfl := mem_singleton.mp (flatten_singleton ▸ hmem)
    by_contra hlt
    have htcp : run.container.isTcp tunnel = true := hentry
    unfold isTcp at htcp
    rw [List.getElem?_eq_none (Nat.le_of_not_lt hlt)] at htcp
    cases htcp
  | step =>
    obtain ⟨action, rest, result, hcall, hresult, rfl⟩ := handle_step hnext
    rcases mem_advanceCall.mp hmem with hmem | hmem
    · exact absurd hmem (perform_noError hresult tunnel)
    have hlt := h tunnel (mem_of_advance hcall hmem)
    obtain ⟨other, hother, -⟩ :=
      (perform_grows hresult).kept tunnel _ (List.getElem?_eq_getElem hlt)
    exact (List.getElem?_eq_some_iff.mp hother).1

/-- What orderly steps keep. -/
structure Invariant (tunnel : Nat) (run : TunnelRun) : Prop where
  mapped : run.container.Mapped
  tracked : run.container.isUdp tunnel = false → Tracked tunnel run

theorem Invariant.dies (h : Invariant tunnel run) : Dies tunnel run :=
  fun htcp => (h.tracked htcp).diesOnce

theorem Invariant.handle {next : TunnelRun} (h : Invariant tunnel run)
    (horderly : run.Orderly tunnel event) (hnext : run.handle event = some next) :
    Invariant tunnel next := by
  cases event with
  | call =>
    obtain ⟨hentry, rfl⟩ := handle_call hnext
    exact ⟨h.mapped, fun htcp => (h.tracked htcp).call htcp hentry⟩
  | step =>
    obtain ⟨action, rest, result, hcall, hresult, rfl⟩ := handle_step hnext
    have hgrows := perform_grows hresult
    refine ⟨hgrows.mapped h.mapped, fun htcp => ?_⟩
    have hbefore := isUdp_extends hgrows.kept htcp
    have htracked := h.tracked hbefore
    obtain ⟨herror, hchosen⟩ := horderly hbefore action rest hcall
    have hmem : action ∈ run.calls.flatten :=
      mem_flatten.mpr ⟨_, mem_of_getElem? hcall, mem_cons_self⟩
    exact htracked.step h.mapped hcall
      (perform_advances h.mapped htcp hbefore htracked.mapped (htracked.ready action hmem)
        (htracked.dead_of_ending hmem) herror hresult) hchosen

/-- An error of the tcp interface is notified in the wrong case. -/
theorem tcpError_notDies (hdies : Dies tunnel run)
    (htcp : run.container.isUdp tunnel = false) (hlt : tunnel < run.container.heap.length)
    (hcall : run.calls[i]? = some (.tcpError tunnel :: rest)) :
    ∃ next, run.handle (.step i seen) = some next ∧ ¬ Dies tunnel next := by
  obtain ⟨found, hfound⟩ : ∃ found, run.container.heap[tunnel]? = some found :=
    ⟨_, List.getElem?_eq_getElem hlt⟩
  have hperform : run.container.perform seen (.tcpError tunnel) = some
      { next := { run.container with
          heap := run.container.heap.set tunnel { found with state := .dead } }
        entries := [.entered tunnel .dead]
        more := if found.state = .dead then [.getLastRecv tunnel] else [] } := by
    simp only [perform, hfound, map_some]
  refine ⟨_, by simp only [handle, hcall, hperform, map_some]; rfl, fun hnext => ?_⟩
  have hbefore := (hdies htcp).called
  have hudp : ({ run.container with
      heap := run.container.heap.set tunnel { found with state := .dead } } : Tunnels).isUdp tunnel =
        false := by
    unfold isUdp at htcp ⊢
    rw [hfound] at htcp
    rw [getElem?_set_self hlt]
    exact htcp
  have hafter := (hnext hudp).called
  have hweight := weight_advance (calling tunnel)
    (if found.state = .dead then [.getLastRecv tunnel] else []) hcall
  have hstate := stateOf_set hfound { found with state := .dead } tunnel
  rw [if_pos rfl] at hstate
  have hdeaths : deaths { run.container with
      heap := run.container.heap.set tunnel { found with state := .dead } } tunnel = 1 := if_pos hstate
  have hmore : ((if found.state = .dead then [TunnelAction.getLastRecv tunnel] else []).map
      (calling tunnel)).sum = deaths run.container tunnel := by
    unfold deaths
    rw [stateOf_eq hfound]
    split
    case isTrue => exact (sum_singleton_map _ _).trans (if_pos rfl)
    case isFalse => rfl
  have hcount : (run.history ++ [TunnelEntry.entered tunnel .dead]).count (.called tunnel) =
      run.history.count (.called tunnel) := by
    have hnone := count_entry (.entered tunnel .dead) (.called tunnel) nofun
    rw [count_append, Int.natCast_eq_zero.mp hnone, Nat.add_zero]
  have hzero : calling tunnel (.tcpError tunnel) = 0 := rfl
  simp only [hdeaths, hcount] at hafter
  rcases deaths_cases run.container tunnel with ⟨-, hdead⟩ | ⟨-, hdead⟩ <;> omega

theorem setDefaultTunnel_notDies {dead : Option Nat} (htcp : run.container.isUdp tunnel = false)
    (hcall : run.calls[i]? = some (.setDefaultTunnel (some tunnel) dead :: rest))
    (hreturned : .returned tunnel ∈ run.history) :
    ∃ next, run.handle (.step i seen) = some next ∧ ¬ Dies tunnel next := by
  refine ⟨_, by simp only [handle, hcall, perform, map_some]; rfl, fun hnext => ?_⟩
  exact ((hnext htcp).gone (mem_append_left _ hreturned)).2 rfl

theorem not_orderly (herrors : run.ErrorsCreated) (hdies : Dies tunnel run)
    (h : ¬ run.Orderly tunnel event) : ∃ next, run.handle event = some next ∧ ¬ Dies tunnel next := by
  cases event with
  | call => exact absurd trivial h
  | step =>
    simp only [Orderly, not_forall] at h
    obtain ⟨htcp, action, rest, hcall, h⟩ := h
    rcases not_and_or.mp h with herror | hchosen
    · obtain rfl := not_not.mp herror
      have hmem : .tcpError tunnel ∈ run.calls.flatten :=
        mem_flatten.mpr ⟨_, mem_of_getElem? hcall, mem_cons_self⟩
      exact tcpError_notDies hdies htcp (herrors tunnel hmem) hcall
    · simp only [not_forall] at hchosen
      obtain ⟨dead, rfl, hreturned⟩ := hchosen
      exact setDefaultTunnel_notDies htcp hcall (not_not.mp hreturned)

/-- A tcp tunnel dies once, throughout a run, if and only if no error of its tcp interface is
reported and no thread makes it the default tunnel after `TunnelContainerOnTunnelDead`. -/
theorem tcp_tunnel_dies_iff (tunnel : Nat) (events : List TunnelEvent) :
    Throughout TunnelRun.handle (Dies tunnel) {} events ↔
      StepsMeet TunnelRun.handle (Orderly tunnel) {} events := by
  have hstart : Invariant tunnel {} := ⟨mapped_start, fun _ => tracked_start tunnel⟩
  have herrors : ErrorsCreated {} := fun _ hmem => nomatch hmem
  refine throughout_iff hstart (fun run h => h.dies)
    (fun run event next h horderly hnext => h.handle horderly hnext)
    fun front run event hrun hdies h => not_orderly ?_ hdies h
  exact exec_preserves (fun run event next h hnext => h.handle hnext) herrors hrun

/-- The map is right in every state of every run, in whatever order the calls go on. -/
theorem tunnels_mapped (events : List TunnelEvent) :
    Throughout handle (fun run => run.container.Mapped) {} events := by
  refine throughout_of_inv mapped_start (fun _ h => h) fun run event next h hnext => ?_
  cases event with
  | call =>
    obtain ⟨-, rfl⟩ := handle_call hnext
    exact h
  | step =>
    obtain ⟨_, _, _, -, hresult, rfl⟩ := handle_step hnext
    exact (perform_grows hresult).mapped h

/-- A tcp endpoint with this port. -/
def tcpEndpoint (port : UInt16) : BdtEndpoint where
  flag := BDT_ENDPOINT_PROTOCOL_TCP ||| BDT_ENDPOINT_IP_VERSION_4
  port := port
  address := .ofList 16 [10, 0, 0, 1]

/-- A tunnel that is alive, and whose tcp interface reports an error. -/
def brokenTunnel : List TunnelEvent :=
  [.call (.createTunnel (tcpEndpoint 0) (tcpEndpoint 80) 0), .step 0 [], .call (.firstPackage 0), .step 1 [],
    .call (.tcpError 0), .step 2 []]

/-- It is dead, but nothing was called and nothing will be, and it is in the map. -/
theorem dead_tunnel_kept : ∃ run, exec handle {} brokenTunnel = some run ∧
    run.container.isUdp 0 = false ∧ stateOf run.container 0 = .dead ∧ run.calls.flatten = [] ∧
    run.history.count (.called 0) = 0 ∧ 0 ∈ run.container.mapped ∧ ¬ run.DiesOnce 0 := by
  refine exists_of_test (fun run => run.container.isUdp 0 = false ∧
    stateOf run.container 0 = .dead ∧ run.calls.flatten = [] ∧
    run.history.count (.called 0) = 0 ∧ 0 ∈ run.container.mapped) (by decide +kernel) ?_
  rintro run - ⟨hudp, hstate, hcalls, hcalled, hmapped⟩
  refine ⟨hudp, hstate, hcalls, hcalled, hmapped, fun h => ?_⟩
  have hone := h.called
  unfold weight deaths at hone
  rw [hcalls, hcalled, if_pos hstate] at hone
  cases hone

end TunnelRun

end Bdt
