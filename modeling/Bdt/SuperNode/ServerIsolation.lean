import Bdt.SuperNode.ServerRobustness

/-!
# Whose entries a super node changes

`isolated_iff`: in a run the entry of a peer is written for pings of this peer only, and a called
request is removed for a response of the peer that was called only, if and only if every ping that is
accepted has its own peerid in its peer info, every response that hits a request comes from the peer
that was called, and no call takes the sequence of a request that is still there. `Logged` says that
nothing else changes an entry or the queue, unless the manager forgets a peer or the timer gives up a
request.
-/

namespace Bdt

open Base List Option

namespace PeerManager

variable {manager : PeerManager} {peerid other : Peerid} {i : Nat}

/-- What the manager has for a peerid. -/
def entry (manager : PeerManager) (peerid : Peerid) : Option SnPeer :=
  (manager.getPeer peerid).bind (manager.peers[·]?)

/-- A peer is that of a peerid. -/
def Owns (manager : PeerManager) (peerid : Peerid) (i : Nat) : Prop :=
  ∃ peer, manager.peers[i]? = some peer ∧ peer.peerInfo.peerid = peerid

/-- Every peer is found by the peerid of its peer info. -/
structure Keyed (manager : PeerManager) : Prop where
  active : ∀ peerid i, mapGet manager.activePeers peerid = some i → manager.Owns peerid i
  knock : ∀ peerid i, mapGet manager.knockPeers peerid = some i → manager.Owns peerid i

theorem Keyed.getPeer (h : manager.Keyed) (hget : manager.getPeer peerid = some i) :
    manager.Owns peerid i := by
  rcases or_eq_some_iff.mp hget with hactive | ⟨-, hknock⟩
  · exact h.active peerid i hactive
  · exact h.knock peerid i hknock

/-- What leaves the entries of the other peers. -/
structure Frame (manager next : PeerManager) (peerid : Peerid) : Prop where
  keyed : next.Keyed
  entry : ∀ other, other ≠ peerid → next.entry other = manager.entry other

theorem frame_modify (h : manager.Keyed) (howns : manager.Owns peerid i) {f : SnPeer → SnPeer}
    (hf : ∀ peer, peer.peerInfo.peerid = peerid → (f peer).peerInfo.peerid = peerid) :
    Frame manager { manager with peers := manager.peers.modify i f } peerid ∧
      ({ manager with peers := manager.peers.modify i f } : PeerManager).Owns peerid i := by
  obtain ⟨peer, hpeer, hpeerid⟩ := howns
  have hother : ∀ other j, manager.Owns other j →
      ({ manager with peers := manager.peers.modify i f } : PeerManager).Owns other j := by
    rintro other j ⟨found, hfound, rfl⟩
    by_cases heq : i = j
    · subst heq
      obtain rfl := some.inj (hpeer.symm.trans hfound)
      refine ⟨f peer, ?_, (hf peer hpeerid).trans hpeerid.symm⟩
      rw [List.getElem?_modify_eq, hpeer]
      rfl
    · exact ⟨found, (List.getElem?_modify_ne f manager.peers heq).trans hfound, rfl⟩
  refine ⟨⟨⟨fun other j hget => hother other j (h.active other j hget),
    fun other j hget => hother other j (h.knock other j hget)⟩, fun other hne => ?_⟩,
    hother peerid i ⟨peer, hpeer, hpeerid⟩⟩
  unfold PeerManager.entry
  show (manager.getPeer other).bind _ = _
  cases hget : manager.getPeer other with
  | none => rfl
  | some j =>
    obtain ⟨found, hfound, hfoundid⟩ := h.getPeer hget
    have hij : i ≠ j := by
      rintro rfl
      obtain rfl := some.inj (hpeer.symm.trans hfound)
      exact hne (hfoundid.symm.trans hpeerid)
    exact List.getElem?_modify_ne f manager.peers hij

theorem Frame.trans {next last : PeerManager} (h : Frame manager next peerid)
    (hlast : Frame next last peerid) : Frame manager last peerid :=
  ⟨hlast.keyed, fun other hne => (hlast.entry other hne).trans (h.entry other hne)⟩

section

variable (h : manager.Keyed)
include h

theorem frame_append (peer : SnPeer) :
    Frame manager
        { manager with
          peers := manager.peers ++ [peer]
          activePeers := mapSet manager.activePeers peer.peerInfo.peerid manager.peers.length }
        peer.peerInfo.peerid := by
  have hget : ∀ other j, manager.Owns other j →
      (manager.peers ++ [peer])[j]? = manager.peers[j]? := by
    rintro other j ⟨found, hfound, -⟩
    exact getElem?_append_left (List.getElem?_eq_some_iff.mp hfound).1
  have howns : ∀ other j, manager.Owns other j →
      ∃ found, (manager.peers ++ [peer])[j]? = some found ∧ found.peerInfo.peerid = other := by
    intro other j hother
    obtain ⟨found, hfound, heq⟩ := id hother
    exact ⟨found, (hget other j hother).trans hfound, heq⟩
  refine ⟨⟨fun other j hactive => ?_, fun other j hknock => howns other j (h.knock other j hknock)⟩,
    fun other hne => ?_⟩
  · replace hactive : mapGet (mapSet manager.activePeers peer.peerInfo.peerid manager.peers.length)
      other = some j := hactive
    rw [mapGet_set] at hactive
    split at hactive
    case isTrue heq =>
      cases hactive
      exact ⟨peer, getElem?_concat_length, heq⟩
    case isFalse => exact howns other j (h.active other j hactive)
  unfold PeerManager.entry PeerManager.getPeer
  rw [mapGet_set, if_neg fun heq => hne heq.symm]
  show (manager.getPeer other).bind _ = (manager.getPeer other).bind _
  cases hfound : manager.getPeer other with
  | none => rfl
  | some j => exact hget other j (h.getPeer hfound)

theorem frame_activate (howns : manager.Owns peerid i) :
    Frame manager
        { manager with
          knockPeers := mapDelete manager.knockPeers peerid
          activePeers := mapSet manager.activePeers peerid i } peerid := by
  refine ⟨⟨fun other j hactive => ?_, fun other j hknock => ?_⟩, fun other hne => ?_⟩
  · replace hactive : mapGet (mapSet manager.activePeers peerid i) other = some j := hactive
    rw [mapGet_set] at hactive
    split at hactive
    case isTrue heq =>
      cases hactive
      exact heq ▸ howns
    case isFalse => exact h.active other j hactive
  · replace hknock : mapGet (mapDelete manager.knockPeers peerid) other = some j := hknock
    rw [mapGet_delete] at hknock
    split at hknock
    case isTrue => cases hknock
    case isFalse => exact h.knock other j hknock
  · have hne' : ¬ peerid = other := fun heq => hne heq.symm
    unfold PeerManager.entry PeerManager.getPeer
    rw [mapGet_set, mapGet_delete, if_neg hne', if_neg hne']

theorem makeSurePeer_frame (peerInfo : JsPeerInfo) (now : Nat) :
    Frame manager (manager.makeSurePeer peerInfo now).1 peerInfo.peerid ∧
      (manager.makeSurePeer peerInfo now).1.Owns peerInfo.peerid
        (manager.makeSurePeer peerInfo now).2 := by
  have hupdate : ∀ peer : SnPeer, peer.peerInfo.peerid = peerInfo.peerid →
      (peer.updatePeerInfo peerInfo).peerInfo.peerid = peerInfo.peerid := by
    intro peer hpeer
    unfold SnPeer.updatePeerInfo
    split
    · rfl
    · exact hpeer
  unfold makeSurePeer
  dsimp only
  split
  case h_1 i hactive => exact frame_modify h (h.active _ i hactive) hupdate
  case h_2 hnone =>
  split
  case h_1 i hknock =>
    obtain ⟨hframe, howns⟩ := frame_modify h (h.knock _ i hknock) hupdate
    exact ⟨hframe.trans (frame_activate hframe.keyed howns), howns⟩
  case h_2 =>
    exact ⟨frame_append h { peerInfo, lastActiveTime := now }, _, getElem?_concat_length, rfl⟩

theorem rotate_keyed (timeout now : Nat) :
    (manager.rotate timeout now).Keyed ∧
      (∀ peerid i, manager.Owns peerid i → (manager.rotate timeout now).Owns peerid i) ∧
      ∀ peerid, (manager.rotate timeout now).entry peerid = none ∨
        (manager.rotate timeout now).entry peerid = manager.entry peerid := by
  unfold rotate
  split
  case isFalse => exact ⟨h, fun _ _ howns => howns, fun _ => .inr rfl⟩
  case isTrue =>
  refine ⟨⟨fun _ _ hget => (by cases hget), h.active⟩, fun _ _ howns => howns, fun peerid => ?_⟩
  unfold PeerManager.entry PeerManager.getPeer
  rw [mapGet_nil, none_or]
  cases mapGet manager.activePeers peerid with
  | none => exact .inl rfl
  | some => exact .inr rfl

theorem peerHeartbeat_frame (timeout now : Nat) (peerInfo : JsPeerInfo) :
    (manager.peerHeartbeat timeout now peerInfo).1.Keyed ∧
      (manager.peerHeartbeat timeout now peerInfo).1.Owns peerInfo.peerid
        (manager.peerHeartbeat timeout now peerInfo).2 ∧
      ∀ other, other ≠ peerInfo.peerid →
        (manager.peerHeartbeat timeout now peerInfo).1.entry other = none ∨
          (manager.peerHeartbeat timeout now peerInfo).1.entry other = manager.entry other := by
  obtain ⟨hmade, howns⟩ := makeSurePeer_frame h peerInfo now
  obtain ⟨hframe, howns⟩ := frame_modify (f := (·.heartbeat now)) hmade.keyed howns
    fun _ hpeer => hpeer
  obtain ⟨hkeyed, hkept, hentry⟩ := rotate_keyed hframe.keyed timeout _
  refine ⟨hkeyed, hkept _ _ howns, fun other hne => (hentry other).imp_right fun heq => ?_⟩
  exact heq.trans ((hframe.entry other hne).trans (hmade.entry other hne))

end

end PeerManager

/-! ## What is logged -/

/-- An entry that is written for its own peer, a request that is removed by the peer that was called. -/
def SnEntry.Isolated : SnEntry → Prop
  | .heartbeat peerid own => own = some peerid
  | .removed toPeerid sender => sender = some toPeerid
  | _ => True

/-- What a step may change only if it says so. -/
structure SnServer.Logged (server next : SnServer) (entries : List SnEntry) : Prop where
  keyed : next.manager.Keyed
  /-- The entry of a peer is written by a heartbeat only, but it may be forgotten. -/
  entry : ∀ peerid, (∀ own, .heartbeat peerid own ∉ entries) →
    next.manager.entry peerid = none ∨ next.manager.entry peerid = server.manager.entry peerid
  request : ∀ sequence request, mapGet server.packages sequence = some request →
    (∀ sender, .removed request.toPeerid sender ∉ entries) → .givenUp request.toPeerid ∉ entries →
      ∃ kept, mapGet next.packages sequence = some kept ∧ kept.toPeerid = request.toPeerid

namespace SnServer

variable {config : SnConfig} {server next : SnServer} {package : JsPackage} {fromPeer : Option Nat}
  {transport now : Nat} {outcome : SnOutcome} {endpoints : BdtEndpoint × BdtEndpoint}
  {sender : Peerid} {entries : List SnEntry}

theorem Logged.of_kept (h : server.manager.Keyed) (hkept : KeptPeers server next)
    (entries : List SnEntry) : Logged server next entries where
  keyed := hkept.manager ▸ h
  entry peerid _ := .inr (by rw [hkept.manager])
  request sequence request hget _ _ := ⟨request, hkept.packages ▸ hget, rfl⟩

/-- What is done before a handler changes no entry and no request. -/
theorem Logged.after {before : SnServer} (hkept : KeptPeers before server)
    (h : Logged server next entries) (front : List SnEntry) : Logged before next (front ++ entries) where
  keyed := h.keyed
  entry peerid hnone := by
    rw [← hkept.manager]
    exact h.entry peerid fun own hmem => hnone own (mem_append_right _ hmem)
  request sequence request hget hremoved hgiven :=
    h.request sequence request (hkept.packages ▸ hget)
      (fun sender hmem => hremoved sender (mem_append_right _ hmem))
      fun hmem => hgiven (mem_append_right _ hmem)

section

variable (h : server.manager.Keyed)
include h

theorem logged_onPingReq
    (hping : onPingReq config server now package endpoints transport fromPeer = some outcome) :
    Logged server outcome.server outcome.entries := by
  unfold onPingReq at hping
  split at hping
  case h_2 => cases hping
  case h_1 fromPeerid peerInfo _ _ =>
  dsimp only at hping
  split at hping
  case isFalse => exact some.inj hping ▸ .of_kept h ⟨rfl, rfl, rfl⟩ _
  case isTrue =>
  cases hping
  obtain ⟨hkeyed, howns, hentry⟩ :=
    PeerManager.peerHeartbeat_frame h config.timeout now peerInfo
  have hpinged : ∀ peer : SnPeer, peer.peerInfo.peerid = peerInfo.peerid →
      (updatePinged package fromPeerid endpoints transport peer).peerInfo.peerid =
        peerInfo.peerid := by
    intro peer hpeer
    unfold updatePinged SnPeer.updateTransport
    split <;> exact hpeer
  obtain ⟨hframe, -⟩ := PeerManager.frame_modify hkeyed howns hpinged
  refine ⟨hframe.keyed, fun peerid hnone => ?_, fun _ request hget _ _ => ⟨request, hget, rfl⟩⟩
  have hne : peerid ≠ peerInfo.peerid := by
    rintro rfl
    exact hnone package.own (mem_append_right _ (mem_singleton_self _))
  exact (hentry peerid hne).imp (hframe.entry peerid hne).trans (hframe.entry peerid hne).trans

theorem logged_onCallReq (hcall : onCallReq config server now package = some outcome) :
    Logged server outcome.server outcome.entries := by
  unfold onCallReq at hcall
  split at hcall
  case h_1 => exact some.inj hcall ▸ .of_kept h ⟨rfl, rfl, rfl⟩ _
  case h_2 toPeerid fromPeerid peerInfo _ _ _ =>
    split at hcall
    case h_1 => exact some.inj hcall ▸ .of_kept h ⟨rfl, rfl, rfl⟩ _
    case h_2 targetPeer _ =>
    cases hcall
    refine ⟨h, fun _ _ => .inr rfl, fun sequence request hget hremoved _ => ?_⟩
    refine ⟨request, ?_, rfl⟩
    have hne : newSequence server.curSequence ≠ sequence := by
      rintro rfl
      refine hremoved none ?_
      rw [hget]
      exact mem_singleton_self _
    show mapGet (mapSet _ _ _) sequence = some request
    rw [mapGet_set, if_neg hne]
    exact hget
  case h_3 => cases hcall

theorem logged_onCalledResp (package : JsPackage) (sender : Peerid) :
    Logged server (server.onCalledResp package sender).server
      (server.onCalledResp package sender).entries := by
  refine ⟨h, fun _ _ => .inr rfl, fun sequence request hget hremoved _ => ⟨request, ?_, rfl⟩⟩
  have hne : package.sequence.toNat ≠ sequence := by
    rintro rfl
    refine hremoved (some sender) ?_
    unfold onCalledResp
    rw [hget]
    exact mem_singleton_self _
  show mapGet (mapDelete _ _) sequence = some request
  rw [mapGet_delete, if_neg hne]
  exact hget

theorem logged_handlePackage
    (hhandle : handlePackage config server now package sender endpoints transport fromPeer =
      some outcome) : Logged server outcome.server outcome.entries := by
  unfold handlePackage at hhandle
  split at hhandle
  case h_1 => exact logged_onPingReq h hhandle
  case h_2 => exact logged_onCallReq h hhandle
  case h_3 => exact some.inj hhandle ▸ logged_onCalledResp h package sender

theorem logged_perform {handling : SnHandling}
    (hperform : SnHandling.Performed config server now handling outcome) :
    Logged server outcome.server outcome.entries := by
  cases hperform with
  | dropped => exact .of_kept h ⟨rfl, rfl, rfl⟩ _
  | udp package _ endpoints prepared _ _ _ hupdate hhandle =>
    have hfound := findTransport_kept server package.fromPeerid endpoints
    have hkept := updateKey_kept hupdate
    have hall : KeptPeers server prepared.server :=
      ⟨hkept.manager.trans hfound.manager, hkept.packages.trans hfound.packages,
        hkept.curSequence.trans hfound.curSequence⟩
    exact (logged_handlePackage (hall.manager ▸ h) hhandle).after hall _
  | tcp _ _ _ _ _ _ _ _ hupdate hhandle =>
    have hkept := updateKey_kept hupdate
    exact (logged_onCallReq (hkept.manager ▸ h) hhandle).after hkept _

end

/-- A ping that is accepted has its own peerid in its peer info. -/
def PingIsolated (server : SnServer) (package : JsPackage) : Prop :=
  ∀ peerInfo, package.peerInfo = some peerInfo →
    acceptsPing ((package.fromPeerid.bind server.manager.getPeer).bind (server.manager.peers[·]?))
      package peerInfo → package.own = some peerInfo.peerid

/-- A call of a peer that is known does not take the sequence of another request. -/
def CallIsolated (server : SnServer) (package : JsPackage) : Prop :=
  ∀ toPeerid, package.toPeerid = some toPeerid → (server.manager.getPeer toPeerid).isSome →
    mapGet server.packages (newSequence server.curSequence) = none

/-- A response of a called peer comes from the peer that the request was for. -/
def ResponseIsolated (server : SnServer) (package : JsPackage) (sender : Peerid) : Prop :=
  ∀ request, mapGet server.packages package.sequence.toNat = some request → request.toPeerid = sender

theorem isolated_onPingReq
    (h : onPingReq config server now package endpoints transport
      (package.fromPeerid.bind server.manager.getPeer) = some outcome) :
    (∀ entry ∈ outcome.entries, entry.Isolated) ↔ PingIsolated server package := by
  unfold onPingReq at h
  split at h
  case h_2 => cases h
  case h_1 fromPeerid peerInfo _ hinfo =>
  dsimp only at h
  split at h
  case isTrue haccepts =>
    cases h
    constructor
    · intro hall other hother _
      obtain rfl := some.inj (hinfo.symm.trans hother)
      exact hall _ (mem_append_right _ (mem_singleton_self _))
    intro hisolated entry hmem
    rcases mem_concat.mp hmem with hmem | hmem
    · exact mem_missing hmem ▸ trivial
    · exact hmem ▸ hisolated peerInfo hinfo haccepts
  case isFalse haccepts =>
  cases h
  refine iff_of_true (fun entry hmem => mem_missing hmem ▸ trivial) fun other hother htrue => ?_
  obtain rfl := some.inj (hinfo.symm.trans hother)
  exact absurd htrue haccepts

theorem isolated_onCallReq (h : onCallReq config server now package = some outcome) :
    (∀ entry ∈ outcome.entries, entry.Isolated) ↔ CallIsolated server package := by
  unfold onCallReq at h
  split at h
  case h_1 hto _ =>
    refine iff_of_true (some.inj h ▸ nofun) fun toPeerid hsome => ?_
    rw [hto] at hsome
    cases hsome
  case h_2 toPeerid _ _ hto _ _ =>
    split at h
    case h_1 hnone =>
      refine iff_of_true (some.inj h ▸ nofun) fun other hother hknown => ?_
      obtain rfl := some.inj (hto.symm.trans hother)
      rw [hnone] at hknown
      cases hknown
    case h_2 targetPeer hknown =>
    cases h
    cases hget : mapGet server.packages (newSequence server.curSequence) with
    | none => exact iff_of_true nofun fun _ _ _ => hget
    | some =>
      refine iff_of_false (fun hall => ?_) fun hisolated => ?_
      · cases hall _ (mem_singleton_self _)
      · rw [hisolated toPeerid hto (by rw [hknown]; rfl)] at hget
        cases hget
  case h_3 => cases h

theorem isolated_onCalledResp (server : SnServer) (package : JsPackage) (sender : Peerid) :
    (∀ entry ∈ (server.onCalledResp package sender).entries, entry.Isolated) ↔
      ResponseIsolated server package sender := by
  unfold onCalledResp ResponseIsolated
  cases mapGet server.packages package.sequence.toNat with
  | none => exact iff_of_true nofun nofun
  | some confirmed =>
    constructor
    · intro hall request hrequest
      cases hrequest
      exact (some.inj (hall _ (mem_singleton_self _))).symm
    · intro hisolated entry hmem
      rw [mem_singleton.mp hmem]
      exact congrArg some (hisolated confirmed rfl).symm

end SnServer

/-- What a package may be for the peers to be isolated. -/
def SnHandling.Isolated (config : SnConfig) (server : SnServer) : SnHandling → Prop
  | .udp package sender _ => SnServer.drops config package = false →
      match package.cmdType with
      | .snPingReq => server.PingIsolated package
      | .snCallReq => server.CallIsolated package
      | .snCalledResp => server.ResponseIsolated package sender
  | .tcp _ package _ => SnServer.drops config package = false → server.CallIsolated package

namespace SnServer

variable {config : SnConfig} {server : SnServer} {package : JsPackage} {now : Nat}
  {outcome : SnOutcome}

theorem isolated_parts {prepared handled : SnOutcome} {accepted : Option Bool}
    {fromPeer : Option Nat} {transport : Nat} {tcp present : Bool}
    (hupdate : server.updateKey package fromPeer transport tcp present = some (prepared, accepted)) :
    (∀ entry ∈ prepared.entries ++ [.handled accepted] ++ handled.entries, entry.Isolated) ↔
      ∀ entry ∈ handled.entries, entry.Isolated := by
  refine ⟨fun hall entry hmem => hall entry (mem_append_right _ hmem), fun hall entry hmem => ?_⟩
  rcases mem_append.mp hmem with hmem | hmem
  · rcases mem_concat.mp hmem with hmem | hmem
    · obtain ⟨_, _, _, _, rfl⟩ := updateKey_entries hupdate entry hmem
      trivial
    · exact hmem ▸ trivial
  · exact hall entry hmem

theorem isolated_perform {handling : SnHandling}
    (hperform : SnHandling.Performed config server now handling outcome) :
    (∀ entry ∈ outcome.entries, entry.Isolated) ↔ handling.Isolated config server := by
  cases hperform with
  | dropped _ hdrop =>
    refine iff_of_true nofun ?_
    cases handling with
    | udp package | tcp _ package =>
      intro hkeep
      rw [show drops config package = true from hdrop] at hkeep
      cases hkeep
  | udp package _ endpoints _ _ _ hkeep hupdate hhandle =>
    have hfound := findTransport_kept server package.fromPeerid endpoints
    have hkept := updateKey_kept hupdate
    have hmanager := hkept.manager.trans hfound.manager
    have hpackages := hkept.packages.trans hfound.packages
    have hsequence := hkept.curSequence.trans hfound.curSequence
    rw [isolated_parts hupdate]
    unfold handlePackage at hhandle
    split at hhandle
    case h_1 hping =>
      unfold SnHandling.Isolated
      dsimp only
      rw [← hmanager] at hhandle
      rw [forall_prop_of_true hkeep, isolated_onPingReq hhandle, hping]
      unfold PingIsolated
      rw [hmanager]
    case h_2 hcall =>
      unfold SnHandling.Isolated
      dsimp only
      rw [forall_prop_of_true hkeep, isolated_onCallReq hhandle, hcall]
      unfold CallIsolated
      rw [hmanager, hpackages, hsequence]
    case h_3 hcalled =>
    unfold SnHandling.Isolated
    dsimp only
    cases hhandle
    rw [forall_prop_of_true hkeep, isolated_onCalledResp, hcalled]
    unfold ResponseIsolated
    rw [hpackages]
  | tcp _ _ _ _ _ _ hkeep _ hupdate hhandle =>
    have hkept := updateKey_kept hupdate
    rw [isolated_parts hupdate, isolated_onCallReq hhandle]
    unfold SnHandling.Isolated
    dsimp only
    rw [forall_prop_of_true hkeep]
    unfold CallIsolated
    rw [hkept.manager, hkept.packages, hkept.curSequence]

end SnServer

/-! ## Runs -/

namespace SnRun

variable {config : SnConfig} {run next : SnRun} {event : SnEvent}

/-- Every entry was written for its own peer, and every request was removed by the peer that was called,
or given up. -/
def Isolated (run : SnRun) : Prop :=
  ∀ entry ∈ run.history, entry.Isolated

/-- The same, where no request was given up. -/
def StrictlyIsolated (run : SnRun) : Prop :=
  ∀ entry ∈ run.history, entry.Isolated ∧ ∀ toPeerid, entry ≠ .givenUp toPeerid

/-- What an event handles is isolated. A handler that does not return has written nothing. -/
def IsolatedAt (config : SnConfig) (run : SnRun) (event : SnEvent) : Prop :=
  ∀ handling server now, run.crashed = false →
    run.handling event = some (handling, server, now) → handling.Returns config server →
      handling.Isolated config server

/-- The timer gives up no request. -/
def NoneGivenUpAt (config : SnConfig) (run : SnRun) (event : SnEvent) : Prop :=
  ∀ now, event = .timer now → run.crashed = false → run.work = [] →
    run.server.packages.givenUp config.maxTimes now = []

/-- What holds of the peers as long as the super node has not crashed. -/
structure Kept (run : SnRun) : Prop where
  sound : run.Sound
  keyed : run.server.manager.Keyed

/-- What a step writes: what a handling does, a request that is given up, or a key. -/
inductive Written (config : SnConfig) (run : SnRun) (event : SnEvent) : List SnEntry → Prop where
  | nothing : Written config run event []
  | handled (handling : SnHandling) (server : SnServer) (now : Nat) (outcome : SnOutcome)
      (hhandling : run.handling event = some (handling, server, now))
      (hperform : handling.perform config server now = some outcome) :
      Written config run event outcome.entries
  | timer (now : Nat) (hevent : event = .timer now) :
      Written config run event
        ((run.server.packages.givenUp config.maxTimes now).map fun pkgInfo =>
          .givenUp pkgInfo.toPeerid)
  | established (peerid : Peerid) (key : List UInt8) :
      Written config run event [.established peerid key]

theorem resend_toPeerid (now : Nat) (request : PackageInfo) :
    (ResendQueue.resend now request).toPeerid = request.toPeerid := by
  unfold ResendQueue.resend
  split <;> rfl

theorem onTimer_request (packages : ResendQueue) (maxTimes now : Nat) {sequence : Nat}
    {request : PackageInfo} (h : mapGet packages sequence = some request)
    (hkept : (ResendQueue.resend now request).times < maxTimes) :
    mapGet (packages.onTimer maxTimes now) sequence = some (ResendQueue.resend now request) := by
  unfold ResendQueue.onTimer
  induction packages with
  | nil => cases h
  | cons _ _ ih =>
    rw [mapGet_cons] at h
    rw [map_cons, filter_cons]
    split at h
    case isTrue heq =>
      cases h
      rw [if_pos (decide_eq_true hkept), mapGet_cons, if_pos heq]
    case isFalse hne =>
    split
    case isTrue => rw [mapGet_cons, if_neg hne, ih h]
    case isFalse => exact ih h

theorem Kept.step (h : run.Kept) (hcrashed : run.crashed = false)
    (hnext : handle config run event = some next) (hnot : next.crashed = false) :
    next.Kept ∧ ∃ entries, next.history = run.history ++ entries ∧
      SnServer.Logged run.server next.server entries ∧ Written config run event entries := by
  have hsound := h.sound.step hcrashed hnext hnot
  have hkept : SnServer.KeptPeers run.server next.server → ∀ entries,
      next.history = run.history ++ entries → Written config run event entries →
        next.Kept ∧ ∃ entries, next.history = run.history ++ entries ∧
          SnServer.Logged run.server next.server entries ∧ Written config run event entries := by
    intro hkept entries hhistory hwritten
    exact ⟨⟨hsound, hkept.manager ▸ h.keyed⟩, entries, hhistory, .of_kept h.keyed hkept entries,
      hwritten⟩
  rcases handle_alive hnext hnot with
    ⟨handling, server, now, outcome, hhandling, hperform, hby⟩ | ⟨hhandling, hother⟩
  · obtain ⟨-, hwell, hcalled⟩ := h.sound.handling hhandling
    obtain ⟨-, hserver, hhistory⟩ := hby.outcome outcome rfl
    have hperformed := SnHandling.perform_cases hwell hcalled hperform
    have hopen : SnServer.KeptPeers run.server server := by
      rcases (handling_arrival hhandling).2.2 with rfl | rfl <;> exact ⟨rfl, rfl, rfl⟩
    have hlogged := (SnServer.logged_perform (hopen.manager ▸ h.keyed) hperformed).after hopen []
    rw [← hserver] at hlogged
    exact ⟨⟨hsound, hlogged.keyed⟩, outcome.entries, hhistory, hlogged,
      .handled handling server now outcome hhandling hperform⟩
  cases hother with
  | quiet _ _ hserver hhistory =>
    refine hkept ?_ [] (hhistory.trans (append_nil _).symm) .nothing
    rw [hserver]
    exact ⟨rfl, rfl, rfl⟩
  | timer now =>
    refine ⟨⟨hsound, h.keyed⟩, _, rfl, ⟨h.keyed, fun _ _ => .inr rfl, ?_⟩, .timer now rfl⟩
    intro sequence request hget _ hgiven
    have htimes : (ResendQueue.resend now request).times < config.maxTimes := by
      by_contra htimes
      refine hgiven (mem_map.mpr ⟨ResendQueue.resend now request, ?_, ?_⟩)
      · refine mem_filter.mpr ⟨mem_map_of_mem ?_, decide_eq_true htimes⟩
        exact mem_map.mpr ⟨(sequence, request), mem_of_mapGet hget, rfl⟩
      · exact congrArg SnEntry.givenUp (resend_toPeerid now request)
    exact ⟨_, onTimer_request _ _ _ hget htimes, resend_toPeerid now request⟩
  | crash => cases hnot
  | received _ _ sender channel packages _ exchange _ hserver hhistory =>
    have hreceived : SnServer.KeptPeers run.server
        (run.receive sender channel packages exchange config.keyHash).server := by
      unfold receive
      split <;> exact ⟨rfl, rfl, rfl⟩
    unfold receive at hhistory
    split at hhistory
    case h_1 =>
      exact hkept (hserver ▸ hreceived) [] (hhistory.trans (append_nil _).symm) .nothing
    case h_2 peerid key _ =>
      exact hkept (hserver ▸ hreceived) _ hhistory (.established peerid key)

theorem kept_start (keys : StoredKeys) (curSequence now : Nat) :
    (start keys curSequence now).Kept where
  sound := sound_start keys curSequence now
  keyed := ⟨fun _ _ h => (by cases h), fun _ _ h => by cases h⟩

theorem kept_of_alive {keys : StoredKeys} {curSequence now : Nat}
    {events : List SnEvent} (hrun : exec (handle config) (start keys curSequence now) events = some run)
    (hcrashed : run.crashed = false) : run.Kept :=
  exec_alive (kept_start keys curSequence now)
    (fun _ _ _ hcrashed hkept hnext hnot => (hkept.step hcrashed hnext hnot).1) hrun hcrashed

/-- In every run without a crash the sessions, what waits and both tables are as they have to be. -/
theorem peers_kept (config : SnConfig) (keys : StoredKeys)
    (curSequence now : Nat) (events : List SnEvent) :
    Throughout (handle config) (fun run => run.crashed = false → run.Kept)
      (start keys curSequence now) events :=
  fun _ _ _ _ hfront => kept_of_alive hfront

theorem written_isolated {entries : List SnEntry} (h : Written config run event entries)
    (hsound : run.Sound) (hcrashed : run.crashed = false) (hok : IsolatedAt config run event) :
    ∀ entry ∈ entries, entry.Isolated := by
  cases h with
  | nothing => exact nofun
  | handled handling server now _ hhandling hperform =>
    obtain ⟨hserver, hwell, hcalled⟩ := hsound.handling hhandling
    have hreturns := (perform_isSome hserver hwell hcalled now).mp (by rw [hperform]; rfl)
    rw [SnServer.isolated_perform (SnHandling.perform_cases hwell hcalled hperform)]
    exact hok handling server now hcrashed hhandling hreturns
  | timer =>
    intro entry hmem
    obtain ⟨pkgInfo, -, rfl⟩ := mem_map.mp hmem
    trivial
  | established =>
    intro entry hmem
    exact mem_singleton.mp hmem ▸ trivial

/-- What a step writes, if the timer gives up nothing, is nothing that was given up. -/
theorem written_not_givenUp {entries : List SnEntry} (h : Written config run event entries)
    (hsound : run.Sound) (hok : NoneGivenUpAt config run event) (hcrashed : run.crashed = false)
    (hwork : ∀ now, event = .timer now → run.work = []) (toPeerid : Peerid) :
    .givenUp toPeerid ∉ entries := by
  cases h with
  | nothing => exact nofun
  | handled handling _ _ _ hhandling hperform =>
    obtain ⟨-, hwell, hcalled⟩ := hsound.handling hhandling
    intro hmem
    exact (SnHandling.perform_cases hwell hcalled hperform).ofHandling _ hmem
  | timer now hevent =>
    rw [hok now hevent hcrashed (hwork now hevent)]
    exact nofun
  | established =>
    intro hmem
    cases mem_singleton.mp hmem

theorem Kept.written (h : run.Kept) (hcrashed : run.crashed = false)
    (hnext : handle config run event = some next) :
    ∃ entries, next.history = run.history ++ entries ∧ Written config run event entries := by
  cases hnot : next.crashed with
  | false =>
    obtain ⟨-, entries, hhistory, -, hwritten⟩ := h.step hcrashed hnext hnot
    exact ⟨entries, hhistory, hwritten⟩
  | true =>
    refine ⟨[], ?_, .nothing⟩
    rw [append_nil]
    cases hhandling : run.handling event with
    | some handling =>
      obtain ⟨handling, server, now⟩ := handling
      obtain ⟨after, hafter, hby⟩ := handle_handling hcrashed hhandling
      obtain rfl := some.inj (hafter.symm.trans hnext)
      cases hperform : handling.perform config server now with
      | none => exact (hby.crashed hperform).2.1
      | some outcome =>
        rw [(hby.outcome outcome hperform).1] at hnot
        cases hnot
    | none =>
      cases handle_other hnext hhandling with
      | quiet _ _ _ hhistory => exact hhistory
      | timer now =>
        rw [show (run.onTimer config now).crashed = run.crashed from rfl, hcrashed] at hnot
        cases hnot
      | crash => rfl
      | received _ _ _ _ _ _ _ _ _ _ hother =>
        rw [hother] at hnot
        cases hnot

theorem not_isolated (h : run.crashed = false → run.Kept) (hok : ¬ IsolatedAt config run event) :
    ∃ next, handle config run event = some next ∧ ¬ next.Isolated := by
  unfold IsolatedAt at hok
  push Not at hok
  obtain ⟨handling, server, now, hcrashed, hhandling, hreturns, hnot⟩ := hok
  obtain ⟨hserver, hwell, hcalled⟩ := (h hcrashed).sound.handling hhandling
  obtain ⟨next, hnext, hby⟩ := handle_handling hcrashed hhandling
  obtain ⟨outcome, hperform⟩ := isSome_iff_exists.mp <|
    (perform_isSome hserver hwell hcalled now).mpr hreturns
  obtain ⟨-, -, hhistory⟩ := hby.outcome outcome hperform
  refine ⟨next, hnext, fun hisolated => hnot ?_⟩
  rw [← SnServer.isolated_perform (SnHandling.perform_cases hwell hcalled hperform)]
  intro entry hmem
  exact hisolated entry (hhistory ▸ mem_append_right _ hmem)

theorem not_noneGivenUp (hok : ¬ NoneGivenUpAt config run event) :
    ∃ next, handle config run event = some next ∧ ¬ next.StrictlyIsolated := by
  unfold NoneGivenUpAt at hok
  push Not at hok
  obtain ⟨now, rfl, hcrashed, hwork, hgiven⟩ := hok
  refine ⟨run.onTimer config now, ?_, fun hisolated => ?_⟩
  · unfold handle
    rw [if_neg (by rw [hcrashed]; exact Bool.false_ne_true), hwork]
  obtain ⟨pkgInfo, hmem⟩ := exists_mem_of_ne_nil _ hgiven
  have hhistory : .givenUp pkgInfo.toPeerid ∈ (run.onTimer config now).history :=
    mem_append_right _ (mem_map_of_mem hmem)
  exact (hisolated _ hhistory).2 _ rfl

/-- The invariant of a run that is isolated. -/
structure IsolatedRun (run : SnRun) : Prop where
  isolated : run.Isolated
  kept : run.crashed = false → run.Kept

structure StrictlyIsolatedRun (run : SnRun) : Prop where
  isolated : run.StrictlyIsolated
  kept : run.crashed = false → run.Kept

theorem kept_of_handle (h : run.crashed = false → run.Kept)
    (hnext : handle config run event = some next) (hnot : next.crashed = false) : next.Kept :=
  ((h (alive_of_handle hnext)).step (alive_of_handle hnext) hnext hnot).1

theorem work_of_timer {now : Nat} (hnext : handle config run (.timer now) = some next) :
    run.work = [] := by
  unfold handle at hnext
  rw [if_neg (by rw [alive_of_handle hnext]; exact Bool.false_ne_true)] at hnext
  cases hwork : run.work with
  | nil => rfl
  | cons =>
    rw [hwork] at hnext
    cases hnext

/-- In a run from the start, the entry of a peer is written only by pings with the peerid of the peer in
their own peer info, and a called request is removed only by a response of the peer that was called, if
and only if every ping that is accepted has its own peerid in `peerInfo`, every response with the
sequence of a request comes from the peer that was called, and no call of a peer that is known takes the
sequence of another request. If the requests that the timer gives up are removed, too, then it must give
up none. What is written, is all that changes. -/
theorem isolated_iff (config : SnConfig) (keys : StoredKeys)
    (curSequence now : Nat) (events : List SnEvent) :
    (Throughout (handle config) Isolated (start keys curSequence now) events ↔
      StepsMeet (handle config) (IsolatedAt config) (start keys curSequence now) events) ∧
    (Throughout (handle config) StrictlyIsolated (start keys curSequence now) events ↔
      StepsMeet (handle config) (fun run event => IsolatedAt config run event ∧
        NoneGivenUpAt config run event) (start keys curSequence now) events) ∧
    ∀ front event back run next, events = front ++ event :: back →
      exec (handle config) (start keys curSequence now) front = some run →
        handle config run event = some next → next.crashed = false →
          ∃ entries, next.history = run.history ++ entries ∧
            SnServer.Logged run.server next.server entries := by
  refine ⟨?_, ?_, ?_⟩
  · have hstart : IsolatedRun (start keys curSequence now) :=
      ⟨nofun, fun _ => kept_start keys curSequence now⟩
    refine throughout_iff hstart (fun _ h => h.isolated) ?_ ?_
    · intro run event next h hok hnext
      have hcrashed := alive_of_handle hnext
      obtain ⟨entries, hhistory, hwritten⟩ := (h.kept hcrashed).written hcrashed hnext
      refine ⟨fun entry hmem => ?_, kept_of_handle h.kept hnext⟩
      rw [hhistory] at hmem
      exact (mem_append.mp hmem).elim (h.isolated entry)
        (written_isolated hwritten (h.kept hcrashed).sound hcrashed hok entry)
    · intro front run event hrun _ hok
      exact not_isolated (kept_of_alive hrun) hok
  · have hstart : StrictlyIsolatedRun (start keys curSequence now) :=
      ⟨nofun, fun _ => kept_start keys curSequence now⟩
    refine throughout_iff hstart (fun _ h => h.isolated) ?_ ?_
    · rintro run event next h ⟨hok, hnone⟩ hnext
      have hcrashed := alive_of_handle hnext
      have hkept := h.kept hcrashed
      obtain ⟨entries, hhistory, hwritten⟩ := hkept.written hcrashed hnext
      refine ⟨fun entry hmem => ?_, kept_of_handle h.kept hnext⟩
      rw [hhistory] at hmem
      refine (mem_append.mp hmem).elim (h.isolated entry) fun hmem => ?_
      refine ⟨written_isolated hwritten hkept.sound hcrashed hok entry hmem, ?_⟩
      rintro toPeerid rfl
      exact written_not_givenUp hwritten hkept.sound hnone hcrashed
        (fun _ htimer => work_of_timer (htimer ▸ hnext)) toPeerid hmem
    intro front run event hrun _ hok
    by_cases hisolated : IsolatedAt config run event
    · exact not_noneGivenUp fun hnone => hok ⟨hisolated, hnone⟩
    · obtain ⟨next, hnext, hnot⟩ := not_isolated (kept_of_alive hrun) hisolated
      exact ⟨next, hnext, fun hstrict => hnot fun entry hmem => (hstrict entry hmem).1⟩
  intro front event back run next _ hrun hnext hnot
  have hcrashed := alive_of_handle hnext
  obtain ⟨-, entries, hhistory, hlogged, -⟩ :=
    (kept_of_alive hrun hcrashed).step hcrashed hnext hnot
  exact ⟨entries, hhistory, hlogged⟩

/-- A ping of one peer that names another one as its super node makes an entry of the other. -/
theorem ping_of_another : ∃ run,
    exec (handle smallConfig) (start [] 0 0)
      [.datagram (smallPeerid 2) (smallEndpoint 2024) (smallEndpoint 2025)
        (.plain [.snPing 1 (some (smallPeerid 1)) (some (smallPeerInfo 2))]), .dispatch 0] = some run ∧
    (run.server.manager.entry (smallPeerid 1)).isSome ∧ ¬ run.Isolated := by
  refine ⟨_, rfl, rfl, fun hisolated => ?_⟩
  have hown : some (smallPeerid 2) = some (smallPeerid 1) :=
    hisolated (.heartbeat (smallPeerid 1) (some (smallPeerid 2)))
      (mem_cons_of_mem _ (mem_singleton_self _))
  exact absurd hown (by decide)

end SnRun

end Bdt
