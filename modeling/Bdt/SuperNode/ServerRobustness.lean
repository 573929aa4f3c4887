import Bdt.Base.Transition
import Bdt.SuperNode.ServerSteps

/-!
# What makes a super node crash

`robust_iff`: in a run every handler returns if and only if every ping, call and exchange of a key
that is received has a peer info, the bridge has a place for each package of a box, every ping and
call that is encrypted with a key that is already known comes to a transport that has a session, and
all calls of a connection are of one peer. A field that is missing is used by a ping without a time
only.
-/

namespace Bdt

open Base Option List

namespace SnServer

variable {config : SnConfig} {server : SnServer} {package : JsPackage} {fromPeer : Option Nat}
  {transport now : Nat} {tcp present : Bool} {outcome : SnOutcome} {accepted : Option Bool}

/-! ## Sessions -/

/-- A session without a key, whose peerid is never equal to another. -/
structure KeylessSession (session : CryptoSession) : Prop where
  state : session.state = .none
  remote : ∃ peerid, session.remote = .buffer peerid

/-- The session of a peer, which is only there to be cloned. -/
structure FreshSession (session : CryptoSession) : Prop extends KeylessSession session where
  attached : session.attached = false

/-- The sessions of the transports have a key, and those of the peers have none. -/
structure Sound (server : SnServer) : Prop where
  transports : ∀ transport session, server.cryptoSession transport = some session →
    session.state = .keyExchanged
  peers : ∀ peer ∈ server.manager.peers, ∀ session, peer.cryptoSession = some session →
    FreshSession session

theorem fresh_buffer (peerid : Peerid) : FreshSession { remote := .buffer peerid } :=
  ⟨⟨rfl, peerid, rfl⟩, rfl⟩

/-- A ping or a call has a session to be received by. -/
theorem newSession_fresh (h : server.Sound) (hwell : package.WellFormed)
    (hcmd : package.cmdType ≠ .snCalledResp) (fromPeer : Option Nat) :
    ∃ session, server.newSession package fromPeer = some session ∧ FreshSession session := by
  obtain ⟨peerid, hpeerid⟩ := isSome_iff_exists.mp (hwell.own hcmd)
  obtain ⟨peerInfo, hinfo⟩ := isSome_iff_exists.mp (hwell.peerInfo hcmd)
  have hfrom := (hwell.fromPeerid hcmd).trans hpeerid
  unfold newSession
  rw [hfrom, hinfo]
  cases hpeer : fromPeer.bind (server.manager.peers[·]?) with
  | none => exact ⟨_, rfl, fresh_buffer peerid⟩
  | some peer =>
    obtain ⟨i, -, hget⟩ := bind_eq_some_iff.mp hpeer
    dsimp only
    cases hsession : peer.cryptoSession with
    | none => exact ⟨_, rfl, fresh_buffer peerid⟩
    | some session => exact ⟨session, rfl, h.peers peer (mem_of_getElem? hget) session hsession⟩

variable {session : CryptoSession} {fresh : CryptoSession}

theorem attach_fresh (h : FreshSession session) (stores : KeyStores) (tcp present : Bool) :
    ∃ attached, (session.clone.bind fun clone => clone.setInterface stores tcp present) =
        some (attached, stores) ∧ KeylessSession attached := by
  obtain ⟨⟨hstate, hremote⟩, hattached⟩ := h
  obtain ⟨remote, state, key, keyHash, attached⟩ := session
  obtain rfl : state = .none := hstate
  obtain rfl : attached = false := hattached
  exact ⟨⟨remote, .none, key, keyHash, present⟩, rfl, rfl, hremote⟩

theorem onRecvPackage_keyless (h : KeylessSession session)
    (stores : KeyStores) (tcp : Bool) (encrypt : PackageDecryptOptions) :
    (session.onRecvPackage stores tcp encrypt).isSome = encrypt.newKey := by
  obtain ⟨hstate, peerid, hremote⟩ := h
  unfold CryptoSession.onRecvPackage
  rw [hstate, hremote, if_pos nofun]
  cases hnew : encrypt.newKey with
  | true => rfl
  | false => rfl

theorem Sound.setCryptoSession (h : server.Sound) (transport : Nat)
    {session : Option CryptoSession} (hsession : ∀ other, session = some other →
      other.state = .keyExchanged) : (server.setCryptoSession transport session).Sound where
  transports other found hfound := by
    rw [cryptoSession_set] at hfound
    split at hfound
    · exact hsession found hfound
    · exact h.transports other found hfound
  peers := h.peers

theorem Sound.of_stores (h : server.Sound) (stores : KeyStores) :
    ({ server with stores } : SnServer).Sound :=
  ⟨h.transports, h.peers⟩

theorem Sound.openTransport (h : server.Sound) : server.openTransport.Sound where
  transports transport session hsession := by
    rw [cryptoSession_openTransport] at hsession
    exact h.transports transport session hsession
  peers := h.peers

/-! ## The session of a package -/

theorem newSession_called (hwell : package.WellFormed) (hcmd : package.cmdType = .snCalledResp) :
    server.newSession package none = none := by
  obtain ⟨hfrom, -⟩ := hwell.called hcmd
  unfold newSession
  rw [hfrom]
  rfl

theorem receiver_cases
    (hnew : server.newSession package fromPeer = some fresh) (hfresh : FreshSession fresh)
    (transport : Nat) (tcp present : Bool) :
    ∃ session, server.receiver package fromPeer transport tcp present =
        some (some (session, server.stores)) ∧
      (server.cryptoSession transport = some session ∨
        server.cryptoSession transport = none ∧ KeylessSession session) := by
  unfold receiver
  rw [hnew]
  dsimp only
  cases server.cryptoSession transport with
  | some existing => exact ⟨existing, rfl, .inl rfl⟩
  | none =>
    obtain ⟨attached, hattached, hkeyless⟩ := attach_fresh hfresh server.stores tcp present
    rw [hattached]
    exact ⟨attached, rfl, .inr ⟨rfl, hkeyless⟩⟩

theorem updateKey_unreceived (hnew : server.newSession package fromPeer = none) (transport : Nat)
    (tcp present : Bool) : (server.updateKey package fromPeer transport tcp present).isSome := by
  unfold updateKey onRecvEncryptPackage receiver
  rw [hnew]
  cases package.encrypt <;> rfl

/-- The key of a ping or a call is taken, unless it is an old one and there is no session yet. -/
theorem updateKey_isSome (h : server.Sound)
    (hnew : server.newSession package fromPeer = some fresh) (hfresh : FreshSession fresh)
    (transport : Nat) (tcp present : Bool) :
    (server.updateKey package fromPeer transport tcp present).isSome ↔
      ∀ encrypt, package.encrypt = some encrypt → encrypt.newKey = false →
        (server.cryptoSession transport).isSome := by
  unfold updateKey
  cases package.encrypt with
  | none => exact iff_of_true rfl nofun
  | some encrypt =>
    obtain ⟨session, hreceiver, hsession⟩ := receiver_cases hnew hfresh transport tcp present
    unfold onRecvEncryptPackage
    rw [hreceiver]
    rw [isSome_map]
    rcases hsession with hexisting | ⟨hnone, hkeyless⟩
    · rw [CryptoSession.onRecvPackage_exchanged (h.transports transport session hexisting),
        hexisting]
      exact iff_of_true rfl fun _ _ _ => rfl
    rw [onRecvPackage_keyless hkeyless, hnone]
    constructor
    · intro hkey other hother hold
      cases hother
      rw [hold] at hkey
      cases hkey
    · intro hkey
      by_contra hold
      cases hkey encrypt rfl (Bool.not_eq_true _ ▸ hold)

theorem updateKey_sound (h : server.Sound)
    (hfresh : ∀ session, server.newSession package fromPeer = some session → FreshSession session)
    (hupdate : server.updateKey package fromPeer transport tcp present = some (outcome, accepted)) :
    outcome.server.Sound := by
  cases updateKey_cases hupdate with
  | plain => exact h.setCryptoSession transport nofun
  | unreceived => exact h
  | received encrypt _ stores result _ hreceiver hresult =>
    refine (h.of_stores result.stores).setCryptoSession transport fun other hother => ?_
    cases hother
    cases hnew : server.newSession package fromPeer with
    | none =>
      unfold receiver at hreceiver
      rw [hnew] at hreceiver
      cases hreceiver
    | some fresh =>
      obtain ⟨found, hfound, hsession⟩ :=
        receiver_cases hnew (hfresh fresh hnew) transport tcp present
      rw [hfound] at hreceiver
      obtain ⟨rfl, rfl⟩ := Prod.mk.inj (some.inj (some.inj hreceiver))
      rcases hsession with hexisting | ⟨-, hkeyless⟩
      · have hexchanged := h.transports transport found hexisting
        rw [CryptoSession.onRecvPackage_exchanged hexchanged] at hresult
        exact some.inj hresult ▸ hexchanged
      have hkey := onRecvPackage_keyless hkeyless server.stores tcp encrypt
      rw [hresult] at hkey
      have hstate : found.state ≠ .keyExchanged := by
        rw [hkeyless.state]
        exact nofun
      obtain ⟨_, hreceived⟩ := CryptoSession.onRecvPackage_newKey hstate hkey.symm
      rw [hreceived] at hresult
      exact some.inj hresult ▸ rfl

/-! ## The handlers -/

theorem peerHeartbeat_sessions {manager : PeerManager} (timeout now : Nat) (peerInfo : JsPeerInfo)
    {peer : SnPeer} (h : peer ∈ (manager.peerHeartbeat timeout now peerInfo).1.peers) :
    peer.cryptoSession = none ∨ ∃ other ∈ manager.peers, peer.cryptoSession = other.cryptoSession := by
  have hmade : ∀ peer ∈ (manager.makeSurePeer peerInfo now).1.peers, peer.cryptoSession = none ∨
      ∃ other ∈ manager.peers, peer.cryptoSession = other.cryptoSession := by
    have hupdate : ∀ i, ∀ peer ∈ manager.peers.modify i (·.updatePeerInfo peerInfo),
        peer.cryptoSession = none ∨
          ∃ other ∈ manager.peers, peer.cryptoSession = other.cryptoSession := by
      intro i peer hmem
      rcases mem_of_mem_modify hmem with hsame | ⟨other, hother, rfl⟩
      · exact .inr ⟨peer, hsame, rfl⟩
      · refine .inr ⟨other, hother, ?_⟩
        unfold SnPeer.updatePeerInfo
        split <;> rfl
    intro peer hmem
    unfold PeerManager.makeSurePeer at hmem
    dsimp only at hmem
    split at hmem
    case h_1 => exact hupdate _ peer hmem
    case h_2 =>
    split at hmem
    case h_1 => exact hupdate _ peer hmem
    case h_2 =>
    rcases mem_concat.mp hmem with hmem | hmem
    · exact .inr ⟨peer, hmem, rfl⟩
    · exact .inl (hmem ▸ rfl)
  have hpeers : peer ∈ (manager.makeSurePeer peerInfo now).1.peers.modify
      (manager.makeSurePeer peerInfo now).2 (·.heartbeat now) := by
    unfold PeerManager.peerHeartbeat PeerManager.rotate at h
    dsimp only at h
    split at h <;> exact h
  rcases mem_of_mem_modify hpeers with hmem | ⟨other, hmem, rfl⟩
  · exact hmade peer hmem
  · exact hmade other hmem

variable {now : Nat}

variable {endpoints : BdtEndpoint × BdtEndpoint}

theorem onPingReq_sound (h : server.Sound)
    (hping : onPingReq config server now package endpoints transport fromPeer = some outcome) :
    outcome.server.Sound := by
  unfold onPingReq at hping
  split at hping
  case h_2 => cases hping
  case h_1 fromPeerid peerInfo _ _ =>
  dsimp only at hping
  split at hping
  case isFalse => exact some.inj hping ▸ h
  case isTrue =>
  cases hping
  refine ⟨h.transports, fun peer hmem session hsession => ?_⟩
  have hpeers : ∀ peer ∈ (server.manager.peerHeartbeat config.timeout now peerInfo).1.peers,
      ∀ session, peer.cryptoSession = some session → FreshSession session := by
    intro peer hmem session hsession
    rcases peerHeartbeat_sessions config.timeout now peerInfo hmem with hnone | ⟨other, hmem, heq⟩
    · rw [hnone] at hsession
      cases hsession
    · exact h.peers other hmem session (heq ▸ hsession)
  rcases mem_of_mem_modify hmem with hsame | ⟨other, hother, rfl⟩
  · exact hpeers peer hsame session hsession
  unfold updatePinged at hsession
  dsimp only at hsession
  split at hsession
  case isTrue => exact some.inj hsession ▸ fresh_buffer fromPeerid
  case isFalse =>
  refine hpeers other hother session ?_
  unfold SnPeer.updateTransport at hsession
  split at hsession <;> exact hsession

theorem onCallReq_sound (h : server.Sound)
    (hcall : onCallReq config server now package = some outcome) : outcome.server.Sound := by
  unfold onCallReq at hcall
  split at hcall
  case h_1 => exact some.inj hcall ▸ h
  case h_2 =>
    split at hcall
    case h_1 => exact some.inj hcall ▸ h
    case h_2 => exact some.inj hcall ▸ ⟨h.transports, h.peers⟩
  case h_3 => cases hcall

theorem handlePackage_sound {sender : Peerid}
    (h : server.Sound) (hhandle : handlePackage config server now package sender endpoints transport
      fromPeer = some outcome) : outcome.server.Sound := by
  unfold handlePackage at hhandle
  split at hhandle
  case h_1 => exact onPingReq_sound h hhandle
  case h_2 => exact onCallReq_sound h hhandle
  case h_3 => exact some.inj hhandle ▸ ⟨h.transports, h.peers⟩

theorem onCallReq_isSome (hwell : package.WellFormed) (hcmd : package.cmdType ≠ .snCalledResp)
    (now : Nat) : (onCallReq config server now package).isSome := by
  obtain ⟨peerid, hpeerid⟩ := isSome_iff_exists.mp (hwell.own hcmd)
  obtain ⟨peerInfo, hinfo⟩ := isSome_iff_exists.mp (hwell.peerInfo hcmd)
  have hfrom := (hwell.fromPeerid hcmd).trans hpeerid
  unfold onCallReq
  rw [hfrom, hinfo]
  cases package.toPeerid with
  | none => rfl
  | some =>
    dsimp only
    split <;> rfl

theorem handlePackage_isSome (hwell : package.WellFormed) (now : Nat) (sender : Peerid)
    (endpoints : BdtEndpoint × BdtEndpoint) :
    (handlePackage config server now package sender endpoints transport fromPeer).isSome := by
  unfold handlePackage
  cases hcmd : package.cmdType with
  | snCalledResp => rfl
  | snCallReq => exact onCallReq_isSome hwell (by rw [hcmd]; exact nofun) now
  | snPingReq =>
    have hne : package.cmdType ≠ .snCalledResp := by rw [hcmd]; exact nofun
    obtain ⟨peerid, hpeerid⟩ := isSome_iff_exists.mp (hwell.own hne)
    obtain ⟨peerInfo, hinfo⟩ := isSome_iff_exists.mp (hwell.peerInfo hne)
    have hfrom := (hwell.fromPeerid hne).trans hpeerid
    unfold onPingReq
    rw [hfrom, hinfo]
    dsimp only
    split <;> rfl

/-! ## UDP -/

theorem isSome_bind_of_forall {α β : Type*} {o : Option α} {f : α → Option β}
    (h : ∀ a, (f a).isSome) : (o.bind f).isSome = o.isSome := by
  cases o with
  | none => rfl
  | some a => exact h a

theorem findTransport_server (server : SnServer) (fromPeerid : Option Peerid)
    (endpoints : BdtEndpoint × BdtEndpoint) :
    (server.findTransport fromPeerid endpoints).1 = server ∨
      (server.findTransport fromPeerid endpoints).1 = server.openTransport := by
  unfold findTransport
  dsimp only
  split
  · exact .inl rfl
  · exact .inr rfl

theorem findTransport_sound (h : server.Sound) (fromPeerid : Option Peerid)
    (endpoints : BdtEndpoint × BdtEndpoint) :
    (server.findTransport fromPeerid endpoints).1.Sound := by
  rcases findTransport_server server fromPeerid endpoints with heq | heq
  · rw [heq]
    exact h
  · rw [heq]
    exact h.openTransport

theorem findTransport_session (server : SnServer) (fromPeerid : Option Peerid)
    (endpoints : BdtEndpoint × BdtEndpoint) (transport : Nat) :
    (server.findTransport fromPeerid endpoints).1.cryptoSession transport =
      server.cryptoSession transport := by
  rcases findTransport_server server fromPeerid endpoints with heq | heq
  · rw [heq]
  · rw [heq, cryptoSession_openTransport]

theorem findTransport_called {fromPeerid : Option Peerid} (endpoints : BdtEndpoint × BdtEndpoint)
    (hnone : fromPeerid = none) : (server.findTransport fromPeerid endpoints).2.1 = none := by
  rw [hnone]
  rfl

section

variable (h : server.Sound) (hwell : package.WellFormed)
include h hwell

theorem newSession_found
    (endpoints : BdtEndpoint × BdtEndpoint)
    (hnew : (server.findTransport package.fromPeerid endpoints).1.newSession package
      (package.fromPeerid.bind server.manager.getPeer) = some session) : FreshSession session := by
  have hsound := findTransport_sound h package.fromPeerid endpoints
  by_cases hcmd : package.cmdType = .snCalledResp
  · rw [(hwell.called hcmd).1, bind_none, newSession_called hwell hcmd] at hnew
    cases hnew
  obtain ⟨found, hfound, hfresh⟩ := newSession_fresh hsound hwell hcmd
    (package.fromPeerid.bind server.manager.getPeer)
  rw [hfound] at hnew
  exact some.inj hnew ▸ hfresh

/-- The handler of UDP returns, unless a ping or a call comes with a key that is known to a transport
without a session. -/
theorem handleUdp_isSome (now : Nat)
    (sender : Peerid) (endpoints : BdtEndpoint × BdtEndpoint) :
    (handleUdp config server now package sender endpoints).isSome ↔
      (package.cmdType ≠ .snCalledResp → ∀ encrypt, package.encrypt = some encrypt →
        encrypt.newKey = false → (server.cryptoSession
          (server.findTransport package.fromPeerid endpoints).2.2).isSome) := by
  unfold handleUdp
  rw [identify_eq hwell]
  split
  case isTrue hdrop =>
    refine iff_of_true rfl fun _ encrypt hencrypt _ => ?_
    unfold drops at hdrop
    rw [hencrypt] at hdrop
    simp at hdrop
  case isFalse =>
  have hhandled : ∀ prepared : SnOutcome × Option Nat × Nat × Option Bool,
      ((handlePackage config prepared.1.server now package sender endpoints prepared.2.2.1
        prepared.2.1).map fun outcome =>
          ({ server := outcome.server
             entries := prepared.1.entries ++ [.handled prepared.2.2.2] ++ outcome.entries } :
            SnOutcome)).isSome := by
    intro prepared
    rw [isSome_map]
    exact handlePackage_isSome hwell now sender endpoints
  show ((server.prepareUdp package endpoints).bind _).isSome ↔ _
  rw [isSome_bind_of_forall hhandled, prepareUdp, isSome_map]
  have hsound := findTransport_sound h package.fromPeerid endpoints
  by_cases hcmd : package.cmdType = .snCalledResp
  · refine iff_of_true ?_ fun hne => absurd hcmd hne
    apply updateKey_unreceived
    rw [findTransport_called endpoints (hwell.called hcmd).1]
    exact newSession_called hwell hcmd
  obtain ⟨session, hnew, hfresh⟩ := newSession_fresh hsound hwell hcmd
    (server.findTransport package.fromPeerid endpoints).2.1
  rw [updateKey_isSome hsound hnew hfresh, findTransport_session]
  exact ⟨fun hkey _ => hkey, fun hkey => hkey hcmd⟩

/-! ## TCP -/

/-- The handler of a connection returns, if all calls are of one peer and a key that is known comes to a
session. -/
theorem packageHandle_isSome
    (hcmd : package.cmdType ≠ .snCalledResp) (now : Nat) (handler : TcpHandler) (present : Bool) :
    (packageHandle config server now handler package present).isSome ↔
      (drops config package = false →
        (∀ peerid, handler.peerid = some peerid → package.fromPeerid = some peerid) ∧
          ∀ encrypt, package.encrypt = some encrypt → encrypt.newKey = false →
            (server.cryptoSession handler.transport).isSome) := by
  obtain ⟨peerid, hpeerid⟩ := isSome_iff_exists.mp (hwell.own hcmd)
  have hfrom := (hwell.fromPeerid hcmd).trans hpeerid
  unfold packageHandle
  rw [identifyTcp_eq hfrom, hfrom]
  split
  case isTrue hdrop => exact iff_of_true rfl fun hkeep => absurd hdrop (Bool.eq_false_iff.mp hkeep)
  case isFalse hkeep =>
  rw [Bool.not_eq_true] at hkeep
  split
  case isFalse hother =>
    refine iff_of_false nofun fun hreturns => hother fun other hknown => ?_
    exact (some.inj ((hreturns hkeep).1 other hknown)).symm
  case isTrue hother =>
  rw [bind_some, isSome_bind_of_forall]
  · obtain ⟨session, hnew, hfresh⟩ := newSession_fresh h hwell hcmd
      (if package.encrypt.isSome then
        handler.sourcePeer.or (Option.bind (some peerid) server.manager.getPeer)
      else handler.sourcePeer)
    rw [updateKey_isSome h hnew hfresh]
    constructor
    · intro hkey _
      exact ⟨fun other hknown => congrArg some (hother other hknown).symm, hkey⟩
    · intro hreturns
      exact (hreturns hkeep).2
  · intro prepared
    rw [isSome_map]
    exact onCallReq_isSome hwell hcmd now

end

/-! ## Missing fields -/

theorem missing_updateKey
    (h : server.updateKey package fromPeer transport tcp present = some (outcome, accepted)) :
    SnEntry.missingField ∉ outcome.entries := by
  intro hmem
  obtain ⟨_, _, _, _, heq⟩ := updateKey_entries h _ hmem
  cases heq

theorem missing_onPingReq
    (h : onPingReq config server now package endpoints transport fromPeer = some outcome) :
    .missingField ∈ outcome.entries ↔
      comparesMissing (fromPeer.bind (server.manager.peers[·]?)) package := by
  unfold onPingReq at h
  split at h
  case h_2 => cases h
  case h_1 fromPeerid peerInfo _ _ =>
  dsimp only at h
  split at h
  case isTrue =>
    cases h
    split <;> simp_all
  case isFalse =>
    cases h
    split <;> simp_all

/-- A call and a response of a called peer use no field that is missing. -/
theorem missing_onCallReq (h : onCallReq config server now package = some outcome) :
    SnEntry.missingField ∉ outcome.entries := by
  intro hmem
  obtain ⟨_, _, heq⟩ := onCallReq_entries h _ hmem
  cases heq

theorem missing_onCalledResp (sender : Peerid) :
    SnEntry.missingField ∉ (server.onCalledResp package sender).entries := by
  intro hmem
  obtain ⟨_, _, heq⟩ := onCalledResp_entries server package sender _ hmem
  cases heq

end SnServer

/-! ## Runs -/

/-- The handling of a package returns: a call on a connection is of the same peer as the first one, and
a ping or a call that is encrypted with an old key comes to a transport with a session. -/
def SnHandling.Returns (config : SnConfig) (server : SnServer) : SnHandling → Prop
  | .udp package _ endpoints =>
    package.cmdType ≠ .snCalledResp → ∀ encrypt, package.encrypt = some encrypt →
      encrypt.newKey = false → (server.cryptoSession
        (server.findTransport package.fromPeerid endpoints).2.2).isSome
  | .tcp handler package _ =>
    SnServer.drops config package = false →
      (∀ peerid, handler.peerid = some peerid → package.fromPeerid = some peerid) ∧
        ∀ encrypt, package.encrypt = some encrypt → encrypt.newKey = false →
          (server.cryptoSession handler.transport).isSome

namespace SnRun

variable {config : SnConfig} {run next : SnRun} {event : SnEvent}

/-- The bridge has a place for what an event brings, with all peer infos. -/
def decodable (run : SnRun) : SnEvent → Bool
  | .datagram _ _ _ box => box.decodable run.server.stores false
  | .firstBox _ _ box => box.decodable run.server.stores true
  | .nextBox _ _ packages => Bdt.decodable 0 packages
  | _ => true

/-- An event after which the super node goes on. -/
structure ReturnsAt (config : SnConfig) (run : SnRun) (event : SnEvent) : Prop where
  handling : ∀ handling server now, run.handling event = some (handling, server, now) →
    handling.Returns config server
  received : (run.receiving config event).isSome → run.decodable event

/-- No field is used that is missing in the package: a ping of a peer that is known has a time. -/
def FieldsPresentAt (config : SnConfig) (run : SnRun) (event : SnEvent) : Prop :=
  ∀ package sender endpoints server now,
    run.handling event = some (.udp package sender endpoints, server, now) →
      SnServer.drops config package = false → package.cmdType = .snPingReq →
        ((package.fromPeerid.bind server.manager.getPeer).bind (server.manager.peers[·]?)).isSome →
          package.sendTime.isSome

/-- All handlers have returned, and none has used a field that was missing. -/
structure Robust (run : SnRun) : Prop where
  returned : run.crashed = false
  present : .missingField ∉ run.history

/-- What holds as long as the super node has not crashed. -/
structure Sound (run : SnRun) : Prop where
  server : run.server.Sound
  arrivals : ∀ arrival ∈ run.arrivals, arrival.package.WellFormed

structure Running (run : SnRun) : Prop where
  alive : run.crashed = false
  sound : run.Sound

/-- The same, where no field was used that was missing. -/
structure RobustRunning (run : SnRun) : Prop extends Running run where
  present : .missingField ∉ run.history

variable {server : SnServer}

variable {now : Nat}

/-- Only a ping of a peer that is known uses a field that may be missing. -/
theorem missing_perform {handling : SnHandling} {outcome : SnOutcome}
    (h : SnHandling.Performed config server now handling outcome) :
    .missingField ∈ outcome.entries ↔ ∃ package sender endpoints,
      handling = .udp package sender endpoints ∧ SnServer.drops config package = false ∧
        package.cmdType = .snPingReq ∧
          SnServer.comparesMissing ((package.fromPeerid.bind server.manager.getPeer).bind
            (server.manager.peers[·]?)) package := by
  have hparts : ∀ {prepared handled : SnOutcome} {accepted : Option Bool},
      SnEntry.missingField ∉ prepared.entries →
        (.missingField ∈ prepared.entries ++ [.handled accepted] ++ handled.entries ↔
          .missingField ∈ handled.entries) := by
    intro prepared handled accepted hnot
    rw [mem_append, mem_append, mem_singleton]
    exact ⟨fun h => h.resolve_left fun h => h.elim hnot nofun, .inr⟩
  cases h with
  | dropped _ hdrop =>
    refine iff_of_false nofun ?_
    rintro ⟨package, sender, endpoints, rfl, hkeep, -⟩
    rw [show SnServer.drops config package = true from hdrop] at hkeep
    cases hkeep
  | udp package sender endpoints _ _ _ hkeep hupdate hhandle =>
    have hkept := SnServer.updateKey_kept hupdate
    have hfound := SnServer.findTransport_kept server package.fromPeerid endpoints
    rw [hparts (SnServer.missing_updateKey hupdate)]
    have hother : package.cmdType ≠ .snPingReq → ¬ ∃ package' sender' endpoints',
        SnHandling.udp package sender endpoints = .udp package' sender' endpoints' ∧
          SnServer.drops config package' = false ∧ package'.cmdType = .snPingReq ∧
            SnServer.comparesMissing ((package'.fromPeerid.bind server.manager.getPeer).bind
              (server.manager.peers[·]?)) package' := by
      rintro hne ⟨package', sender', endpoints', heq, -, hping, -⟩
      obtain ⟨rfl, rfl, rfl⟩ := SnHandling.udp.inj heq
      exact hne hping
    unfold SnServer.handlePackage at hhandle
    split at hhandle
    case h_1 hping =>
      rw [SnServer.missing_onPingReq hhandle, hkept.manager.trans hfound.manager]
      constructor
      · intro hmissing
        exact ⟨package, sender, endpoints, rfl, hkeep, hping, hmissing⟩
      · rintro ⟨package', sender', endpoints', heq, -, -, hmissing⟩
        obtain ⟨rfl, rfl, rfl⟩ := SnHandling.udp.inj heq
        exact hmissing
    case h_2 hcall =>
      exact iff_of_false (SnServer.missing_onCallReq hhandle) (hother (by rw [hcall]; exact nofun))
    case h_3 hcalled =>
      exact iff_of_false (some.inj hhandle ▸ SnServer.missing_onCalledResp sender)
        (hother (by rw [hcalled]; exact nofun))
  | tcp _ _ _ _ _ _ _ _ hupdate hhandle =>
    rw [hparts (SnServer.missing_updateKey hupdate)]
    refine iff_of_false (SnServer.missing_onCallReq hhandle) ?_
    rintro ⟨_, _, _, heq, -⟩
    cases heq

theorem perform_isSome {handling : SnHandling} (h : server.Sound)
    (hwell : handling.package.WellFormed) (hcalled : handling.Called) (now : Nat) :
    (handling.perform config server now).isSome ↔ handling.Returns config server := by
  cases handling with
  | udp _ sender endpoints => exact SnServer.handleUdp_isSome h hwell now sender endpoints
  | tcp handler package present =>
    have hcmd : package.cmdType ≠ .snCalledResp := by
      rw [show package.cmdType = .snCallReq from hcalled]
      exact nofun
    rw [SnHandling.perform, isSome_map]
    exact SnServer.packageHandle_isSome h hwell hcmd now handler present

theorem perform_sound {handling : SnHandling} {outcome : SnOutcome}
    (h : server.Sound) (hwell : handling.package.WellFormed) (hcalled : handling.Called)
    (hperform : handling.perform config server now = some outcome) : outcome.server.Sound := by
  cases SnHandling.perform_cases hwell hcalled hperform with
  | dropped => exact h
  | udp package _ endpoints _ handled _ _ hupdate hhandle =>
    have hsound := SnServer.updateKey_sound
      (SnServer.findTransport_sound h package.fromPeerid endpoints)
      (fun _ hnew => SnServer.newSession_found h hwell endpoints hnew) hupdate
    show handled.server.Sound
    exact SnServer.handlePackage_sound hsound hhandle
  | tcp handler package _ _ handled _ _ _ hupdate hhandle =>
    replace hwell : package.WellFormed := hwell
    have hcmd : package.cmdType ≠ .snCalledResp := by
      rw [show package.cmdType = .snCallReq from hcalled]
      exact nofun
    have hsound := SnServer.updateKey_sound h (fun session hnew => by
      obtain ⟨fresh, hfresh, his⟩ := SnServer.newSession_fresh h hwell hcmd
        (handler.sourceOf server package)
      rw [hfresh] at hnew
      exact some.inj hnew ▸ his) hupdate
    show handled.server.Sound
    exact SnServer.onCallReq_sound hsound hhandle

theorem Sound.handling {handling : SnHandling} (h : run.Sound)
    (hhandling : run.handling event = some (handling, server, now)) :
    server.Sound ∧ handling.package.WellFormed ∧ handling.Called := by
  obtain ⟨⟨arrival, hmem, heq⟩, hcalled, hserver⟩ := handling_arrival hhandling
  refine ⟨?_, heq ▸ h.arrivals arrival hmem, hcalled⟩
  rcases hserver with rfl | rfl
  · exact h.server
  · exact h.server.openTransport

theorem Sound.step (h : run.Sound) (hcrashed : run.crashed = false)
    (hnext : handle config run event = some next) (hnot : next.crashed = false) : next.Sound := by
  rcases handle_alive hnext hnot with
    ⟨handling, server, now, outcome, hhandling, hperform, hby⟩ | ⟨hhandling, hother⟩
  · obtain ⟨hserver, hwell, hcalled⟩ := h.handling hhandling
    obtain ⟨-, heq, -⟩ := hby.outcome outcome rfl
    refine ⟨heq ▸ perform_sound hserver hwell hcalled hperform, fun arrival hmem => ?_⟩
    exact h.arrivals arrival (hby.arrivals arrival hmem)
  cases hother with
  | quiet _ _ hserver _ _ harrivals =>
    exact ⟨hserver ▸ h.server, fun arrival hmem => h.arrivals arrival (harrivals arrival hmem)⟩
  | timer => exact ⟨⟨h.server.transports, h.server.peers⟩, h.arrivals⟩
  | crash => cases hnot
  | received _ _ _ _ _ _ _ hreceiving hserver _ _ harrivals =>
    obtain ⟨hwell, -⟩ := receiving_packages hreceiving
    refine ⟨?_, fun arrival hmem => ?_⟩
    · rw [hserver]
      unfold receive
      split
      · exact h.server
      · exact h.server.of_stores _
    · rcases harrivals arrival hmem with hold | hnew
      · exact h.arrivals arrival hold
      · exact (hwell arrival.package hnew).1

theorem receiving_crash {sender : Peerid} {channel : SnChannel} {decoded : SnDecoded}
    (h : run.receiving config event = some (sender, channel, decoded)) :
    decoded = .crash ↔ run.decodable event = false := by
  unfold receiving at h
  split at h
  case h_1 sender' localEndpoint remoteEndpoint box hwork =>
    obtain ⟨rfl, rfl, rfl⟩ := h
    exact decodeBox_crash config run.server.stores false box
  case h_2 sender' connection box hwork =>
    split at h
    case h_1 =>
      obtain ⟨rfl, rfl, rfl⟩ := h
      exact decodeBox_crash config run.server.stores true box
    case h_2 => cases h
  case h_3 sender' connection packages hwork =>
    split at h
    case h_1 encrypt hget =>
      obtain ⟨rfl, rfl, rfl⟩ := h
      exact decodePackages_crash packages encrypt
    case h_2 => cases h
  case h_4 => cases h

theorem receiving_of_handling {handling : SnHandling × SnServer × Nat}
    (h : run.handling event = some handling) : run.receiving config event = none := by
  cases event with
  | datagram | firstBox | nextBox => cases h
  | accept | timer | close | dispatch | immediate => cases run.work <;> rfl

/-- After an event that meets the condition, the super node has not crashed. -/
theorem not_crashed_of_returnsAt (h : run.Sound) (hcrashed : run.crashed = false)
    (hreturns : ReturnsAt config run event) (hnext : handle config run event = some next) :
    next.crashed = false := by
  cases hhandling : run.handling event with
  | some handling =>
    obtain ⟨handling, server, now⟩ := handling
    obtain ⟨hserver, hwell, hcalled⟩ := h.handling hhandling
    obtain ⟨after, hafter, hby⟩ := handle_handling hcrashed hhandling
    obtain rfl := some.inj (hafter.symm.trans hnext)
    obtain ⟨outcome, hperform⟩ := isSome_iff_exists.mp <|
      (perform_isSome hserver hwell hcalled now).mpr
        (hreturns.handling handling server now hhandling)
    exact (hby.outcome outcome hperform).1
  | none =>
    cases handle_other hnext hhandling with
    | quiet _ _ _ _ hnot => exact hnot
    | timer => exact hcrashed
    | crash _ _ _ hreceiving =>
      have hthere := hreturns.received (by rw [hreceiving]; rfl)
      rw [(receiving_crash hreceiving).mp rfl] at hthere
      cases hthere
    | received _ _ _ _ _ _ _ _ _ _ hnot => exact hnot

theorem crashed_of_not_returnsAt (h : run.Sound) (hcrashed : run.crashed = false)
    (hreturns : ¬ ReturnsAt config run event) :
    ∃ next, handle config run event = some next ∧ next.crashed = true := by
  cases hhandling : run.handling event with
  | some handling =>
    obtain ⟨handling, server, now⟩ := handling
    obtain ⟨hserver, hwell, hcalled⟩ := h.handling hhandling
    obtain ⟨next, hnext, hby⟩ := handle_handling hcrashed hhandling
    refine ⟨next, hnext, (hby.crashed ?_).1⟩
    by_contra hperform
    refine hreturns ⟨fun other server' now' heq => ?_, fun hsome => ?_⟩
    · rw [hhandling] at heq
      obtain ⟨rfl, rfl, rfl⟩ := heq
      exact (perform_isSome hserver hwell hcalled now).mp (isSome_iff_ne_none.mpr hperform)
    · rw [receiving_of_handling hhandling] at hsome
      cases hsome
  | none =>
    cases hreceiving : run.receiving config event with
    | none =>
      refine absurd ⟨fun handling server now heq => ?_, fun hsome => ?_⟩ hreturns
      · rw [hhandling] at heq
        cases heq
      · rw [hreceiving] at hsome
        cases hsome
    | some received =>
      obtain ⟨sender, channel, decoded⟩ := received
      by_cases hthere : run.decodable event = true
      · refine absurd ⟨fun handling server now heq => ?_, fun _ => hthere⟩ hreturns
        rw [hhandling] at heq
        cases heq
      · obtain rfl := (receiving_crash hreceiving).mpr (Bool.not_eq_true _ ▸ hthere)
        exact handle_crash hcrashed hreceiving

theorem sound_start (keys : StoredKeys) (curSequence now : Nat) :
    (start keys curSequence now).Sound where
  server :=
    { transports := fun _ _ h => by cases h
      peers := fun _ h => by cases h }
  arrivals := fun _ h => by cases h

/-- What every step that does not crash keeps holds in every run that has not crashed. -/
theorem exec_alive {inv : SnRun → Prop} {first : SnRun} {events : List SnEvent} (hstart : inv first)
    (hstep : ∀ run event next, run.crashed = false → inv run → handle config run event = some next →
      next.crashed = false → inv next)
    (hrun : exec (handle config) first events = some run) (hcrashed : run.crashed = false) :
    inv run := by
  have hkept : ∀ run event next, (run.crashed = false → inv run) →
      handle config run event = some next → next.crashed = false → inv next :=
    fun run event next h hnext =>
      hstep run event next (alive_of_handle hnext) (h (alive_of_handle hnext)) hnext
  exact exec_preserves hkept (fun _ => hstart) hrun hcrashed

theorem sound_of_alive (keys : StoredKeys) (curSequence now : Nat)
    {events : List SnEvent} (hrun : exec (handle config) (start keys curSequence now) events = some run)
    (hcrashed : run.crashed = false) : run.Sound :=
  exec_alive (sound_start keys curSequence now) (fun _ _ _ hcrashed hsound => hsound.step hcrashed)
    hrun hcrashed

theorem missing_step (h : run.Sound) (hcrashed : run.crashed = false)
    (hnext : handle config run event = some next) (hnot : next.crashed = false) :
    .missingField ∈ next.history ↔ .missingField ∈ run.history ∨ ¬ FieldsPresentAt config run event := by
  rcases handle_alive hnext hnot with
    ⟨handling, server, now, outcome, hhandling, hperform, hby⟩ | ⟨hhandling, hother⟩
  · obtain ⟨-, hwell, hcalled⟩ := h.handling hhandling
    obtain ⟨-, -, hhistory⟩ := hby.outcome outcome rfl
    rw [hhistory, mem_append]
    rw [missing_perform (SnHandling.perform_cases hwell hcalled hperform)]
    refine or_congr_right ?_
    constructor
    · rintro ⟨package, sender, endpoints, rfl, hkeep, hping, hmissing⟩ hfields
      obtain ⟨hknown, hnone⟩ := Bool.and_eq_true_iff.mp hmissing
      have hsome := hfields package sender endpoints server now hhandling hkeep hping hknown
      rw [isNone_iff_eq_none.mp hnone] at hsome
      cases hsome
    intro hfields
    by_contra hmissing
    refine hfields fun package sender endpoints server' now' heq hkeep hping hknown => ?_
    obtain ⟨rfl, rfl, rfl⟩ := hhandling.symm.trans heq
    by_contra hnone
    rw [Bool.not_eq_true, isSome_eq_false_iff] at hnone
    exact hmissing ⟨package, sender, endpoints, rfl, hkeep, hping,
      Bool.and_eq_true_iff.mpr ⟨hknown, hnone⟩⟩
  have hfields : FieldsPresentAt config run event := by
    intro package sender endpoints server now heq
    cases hhandling.symm.trans heq
  rw [iff_true_intro hfields, not_true, or_false]
  cases hother with
  | quiet _ _ _ hhistory => rw [hhistory]
  | timer =>
    unfold onTimer
    rw [mem_append]
    refine ⟨fun hmem => hmem.resolve_right fun hmem => ?_, .inl⟩
    obtain ⟨pkgInfo, -, heq⟩ := mem_map.mp hmem
    cases heq
  | crash => cases hnot
  | received _ _ _ _ _ _ _ _ _ hhistory =>
    rw [hhistory]
    unfold receive
    split
    · rfl
    · rw [mem_append]
      refine ⟨fun hmem => hmem.resolve_right fun hmem => ?_, .inl⟩
      cases mem_singleton.mp hmem

theorem handle_of_missing (hcrashed : run.crashed = false)
    (hfields : ¬ FieldsPresentAt config run event) : ∃ next, handle config run event = some next := by
  cases hhandling : run.handling event with
  | some handling =>
    obtain ⟨next, hnext, -⟩ := handle_handling hcrashed hhandling
    exact ⟨next, hnext⟩
  | none =>
    refine absurd ?_ hfields
    intro package sender endpoints server now heq
    cases hhandling.symm.trans heq

/-- In a run from the start, all handlers return if and only if every ping, call and exchange of a key
has a peer info, no box has more than 32 packages, every ping and call with an old key comes to a
transport with a session, and all calls of a connection are of one peer. Also, no missing field is used
if and only if, moreover, every ping of a peer that is known has a time. -/
theorem robust_iff (config : SnConfig) (keys : StoredKeys) (curSequence now : Nat)
    (events : List SnEvent) :
    (Throughout (handle config) (fun run => run.crashed = false) (start keys curSequence now) events ↔
      StepsMeet (handle config) (ReturnsAt config) (start keys curSequence now) events) ∧
    (Throughout (handle config) Robust (start keys curSequence now) events ↔
      StepsMeet (handle config) (fun run event => ReturnsAt config run event ∧
        FieldsPresentAt config run event) (start keys curSequence now) events) := by
  have hkeep : ∀ run event next, Running run → ReturnsAt config run event →
      handle config run event = some next → Running next := by
    intro run event next h hreturns hnext
    have hnot := not_crashed_of_returnsAt h.sound h.alive hreturns hnext
    exact ⟨hnot, h.sound.step h.alive hnext hnot⟩
  have hstart : Running (start keys curSequence now) := ⟨rfl, sound_start keys curSequence now⟩
  constructor
  · refine throughout_iff hstart (fun run h => h.alive) hkeep ?_
    intro front run event hrun hcrashed hreturns
    have h := sound_of_alive keys curSequence now hrun hcrashed
    obtain ⟨next, hnext, hnot⟩ := crashed_of_not_returnsAt h hcrashed hreturns
    exact ⟨next, hnext, by rw [hnot]; exact nofun⟩
  have hrobust : RobustRunning (start keys curSequence now) := ⟨hstart, nofun⟩
  refine throughout_iff hrobust (fun run h => ⟨h.alive, h.present⟩) ?_ ?_
  · rintro run event next h ⟨hreturns, hfields⟩ hnext
    have hnot := hkeep run event next h.toRunning hreturns hnext
    refine ⟨hnot, fun hmem => ?_⟩
    exact ((missing_step h.sound h.alive hnext hnot.alive).mp hmem).elim h.present
      fun hno => hno hfields
  intro front run event hrun hrobust hok
  have h := sound_of_alive keys curSequence now hrun hrobust.returned
  by_cases hreturns : ReturnsAt config run event
  · have hfields : ¬ FieldsPresentAt config run event := fun hfields => hok ⟨hreturns, hfields⟩
    obtain ⟨next, hnext⟩ := handle_of_missing hrobust.returned hfields
    have hnot := not_crashed_of_returnsAt h hrobust.returned hreturns hnext
    exact ⟨next, hnext, fun hgood => hgood.present <|
      (missing_step h hrobust.returned hnext hnot).mpr (.inr hfields)⟩
  obtain ⟨next, hnext, hnot⟩ := crashed_of_not_returnsAt h hrobust.returned hreturns
  refine ⟨next, hnext, fun hgood => ?_⟩
  rw [hgood.returned] at hnot
  cases hnot

/-- A ping without a peer info crashes the C bridge. -/
theorem ping_without_peerInfo : ∃ run,
    exec (handle smallConfig) (start [] 0 0)
      [.datagram (smallPeerid 1) (smallEndpoint 2024) (smallEndpoint 2025)
        (.plain [.snPing 1 none none])] = some run ∧
    run.crashed = true :=
  ⟨_, rfl, rfl⟩

end SnRun

end Bdt
