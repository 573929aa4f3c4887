import Bdt.SuperNode.ServerRobustness

/-!
# Whose key a session has

`bound_iff`: in a run every session with a key has one that its remote peer has established, it accepts
packages with this key only, and no package is handled that it rejects, if and only if every exchange
of a key that comes to a session without one is by its remote peer, and every package that comes to a
session with a key is encrypted with it. A package that is rejected leaves the stored keys.
-/

namespace Bdt

open Base List Option

/-- What a session writes, and that a handler is called. -/
def SnEntry.OfKey : SnEntry → Prop
  | .received _ _ _ _ | .handled _ => True
  | _ => False

namespace SnHandling

/-- The server after the transport of a package is found. -/
def base (server : SnServer) : SnHandling → SnServer
  | .udp package _ endpoints => (server.findTransport package.fromPeerid endpoints).1
  | .tcp _ _ _ => server

def transport (server : SnServer) : SnHandling → Nat
  | .udp package _ endpoints => (server.findTransport package.fromPeerid endpoints).2.2
  | .tcp handler _ _ => handler.transport

def fromPeer (server : SnServer) : SnHandling → Option Nat
  | .udp package _ _ => package.fromPeerid.bind server.manager.getPeer
  | .tcp handler package _ => handler.sourceOf server package

def isTcp : SnHandling → Bool
  | .udp _ _ _ => false
  | .tcp _ _ _ => true

/-- The package has its interface. -/
def present : SnHandling → Bool
  | .udp _ _ _ => true
  | .tcp _ _ present => present

/-- The session that receives the package. -/
def receiver (server : SnServer) (handling : SnHandling) :
    Option (Option (CryptoSession × KeyStores)) :=
  (handling.base server).receiver handling.package (handling.fromPeer server)
    (handling.transport server) handling.isTcp handling.present

variable {config : SnConfig} {server : SnServer} {now : Nat} {handling : SnHandling}
  {outcome : SnOutcome}

theorem base_session (server : SnServer) (handling : SnHandling) (transport : Nat) :
    (handling.base server).cryptoSession transport = server.cryptoSession transport := by
  cases handling with
  | udp package _ endpoints =>
    exact SnServer.findTransport_session server package.fromPeerid endpoints transport
  | tcp => rfl

theorem base_stores (server : SnServer) (handling : SnHandling) :
    (handling.base server).stores = server.stores := by
  cases handling with
  | udp package _ endpoints =>
    show (server.findTransport package.fromPeerid endpoints).1.stores = server.stores
    rcases SnServer.findTransport_server server package.fromPeerid endpoints with heq | heq
    · rw [heq]
    · rw [heq]
      rfl
  | tcp => rfl

/-- What a handling does with the key of the package. -/
structure Keyed (server : SnServer) (handling : SnHandling) (outcome prepared : SnOutcome)
    (accepted : Option Bool) : Prop where
  update : (handling.base server).updateKey handling.package (handling.fromPeer server)
    (handling.transport server) handling.isTcp handling.present = some (prepared, accepted)
  transports : outcome.server.transports = prepared.server.transports
  stores : outcome.server.stores = prepared.server.stores
  entries : ∀ entry, entry.OfKey →
    (entry ∈ outcome.entries ↔ entry ∈ prepared.entries ∨ entry = .handled accepted)

/-- The handlers of the commands leave the sessions and the keys. -/
structure SameKeys (server next : SnServer) (entries : List SnEntry) : Prop where
  transports : next.transports = server.transports
  stores : next.stores = server.stores
  entries : ∀ entry ∈ entries, ¬ entry.OfKey

variable {package : JsPackage}

variable {endpoints : BdtEndpoint × BdtEndpoint} {session : CryptoSession} {fromPeer : Option Nat}
  {transport : Nat}

theorem sameKeys_onPingReq
    (h : SnServer.onPingReq config server now package endpoints transport fromPeer = some outcome) :
    SameKeys server outcome.server outcome.entries := by
  have hentries : ∀ entry ∈ outcome.entries, ¬ entry.OfKey := by
    intro entry hmem
    rcases SnServer.onPingReq_entries h entry hmem with rfl | ⟨_, _, rfl⟩ <;> exact not_false
  unfold SnServer.onPingReq at h
  split at h
  case h_2 => cases h
  case h_1 =>
    dsimp only at h
    split at h <;> exact some.inj h ▸ ⟨rfl, rfl, some.inj h ▸ hentries⟩

theorem sameKeys_onCallReq (h : SnServer.onCallReq config server now package = some outcome) :
    SameKeys server outcome.server outcome.entries := by
  have hentries : ∀ entry ∈ outcome.entries, ¬ entry.OfKey := by
    intro entry hmem
    obtain ⟨_, _, rfl⟩ := SnServer.onCallReq_entries h entry hmem
    exact not_false
  unfold SnServer.onCallReq at h
  split at h
  case h_1 => exact ⟨some.inj h ▸ rfl, some.inj h ▸ rfl, hentries⟩
  case h_2 =>
    split at h
    case h_1 => exact ⟨some.inj h ▸ rfl, some.inj h ▸ rfl, hentries⟩
    case h_2 => exact ⟨some.inj h ▸ rfl, some.inj h ▸ rfl, hentries⟩
  case h_3 => cases h

theorem sameKeys_handlePackage {sender : Peerid}
    (h : SnServer.handlePackage config server now package sender endpoints transport fromPeer =
      some outcome) : SameKeys server outcome.server outcome.entries := by
  unfold SnServer.handlePackage at h
  split at h
  case h_1 => exact sameKeys_onPingReq h
  case h_2 => exact sameKeys_onCallReq h
  case h_3 =>
  cases h
  refine ⟨rfl, rfl, fun entry hmem => ?_⟩
  obtain ⟨_, _, rfl⟩ := SnServer.onCalledResp_entries server package sender entry hmem
  exact not_false

/-- A package that is not dropped has its key used. -/
theorem Performed.keyed (h : Performed config server now handling outcome)
    (hkeep : SnServer.drops config handling.package = false) :
    ∃ prepared accepted, Keyed server handling outcome prepared accepted := by
  have hparts : ∀ {prepared handled : SnOutcome} {accepted : Option Bool},
      SameKeys prepared.server handled.server handled.entries → ∀ entry : SnEntry, entry.OfKey →
        (entry ∈ prepared.entries ++ [.handled accepted] ++ handled.entries ↔
          entry ∈ prepared.entries ∨ entry = .handled accepted) := by
    intro prepared handled accepted hsame entry hkey
    rw [mem_append, mem_append, mem_singleton]
    exact ⟨fun h => h.resolve_right fun hmem => hsame.entries entry hmem hkey, .inl⟩
  cases h with
  | dropped _ hdrop =>
    rw [hdrop] at hkeep
    cases hkeep
  | udp _ _ _ prepared _ accepted _ hupdate hhandle =>
    have hsame := sameKeys_handlePackage hhandle
    exact ⟨prepared, accepted, hupdate, hsame.transports, hsame.stores, hparts hsame⟩
  | tcp _ _ _ prepared _ accepted _ _ hupdate hhandle =>
    have hsame := sameKeys_onCallReq hhandle
    exact ⟨prepared, accepted, hupdate, hsame.transports, hsame.stores, hparts hsame⟩

/-- The session that receives a package, and what it makes of it. -/
inductive Received (server : SnServer) (handling : SnHandling) (encrypt : PackageDecryptOptions) :
    CryptoSession → CryptoSession → Bool → Prop where
  /-- The session of the transport has a key. -/
  | exchanged (session : CryptoSession)
      (hsession : server.cryptoSession (handling.transport server) = some session)
      (hstate : session.state = .keyExchanged) :
      Received server handling encrypt session session (session.keyHash = some encrypt.keyHash)
  /-- A new session takes the key. -/
  | fresh (session : CryptoSession)
      (hnone : server.cryptoSession (handling.transport server) = none)
      (hstate : session.state = .none) (hnew : encrypt.newKey = true) :
      Received server handling encrypt session
        { session with
          state := .keyExchanged, key := some encrypt.key, keyHash := some encrypt.keyHash } true

section

variable (h : server.Sound) (hwell : handling.package.WellFormed) (hcalled : handling.Called)
include h hwell hcalled

theorem newSession_cases
    (hnew : (handling.base server).newSession handling.package (handling.fromPeer server) =
      some session) : SnServer.FreshSession session := by
  cases handling with
  | udp _ _ endpoints => exact SnServer.newSession_found h hwell endpoints hnew
  | tcp handler package =>
    replace hwell : package.WellFormed := hwell
    have hcmd : package.cmdType ≠ .snCalledResp := by
      rw [show package.cmdType = .snCallReq from hcalled]
      exact nofun
    obtain ⟨fresh, hfresh, his⟩ :=
      SnServer.newSession_fresh h hwell hcmd (handler.sourceOf server package)
    replace hnew : server.newSession package (handler.sourceOf server package) = some session := hnew
    rw [hfresh] at hnew
    exact some.inj hnew ▸ his

theorem receiver_session {stores : KeyStores}
    (hreceiver : handling.receiver server = some (some (session, stores))) :
    stores = server.stores ∧
      (server.cryptoSession (handling.transport server) = some session ∨
        server.cryptoSession (handling.transport server) = none ∧
          SnServer.KeylessSession session) := by
  unfold receiver at hreceiver
  cases hnew : (handling.base server).newSession handling.package (handling.fromPeer server) with
  | none =>
    unfold SnServer.receiver at hreceiver
    rw [hnew] at hreceiver
    cases hreceiver
  | some =>
    obtain ⟨found, hfound, hsession⟩ := SnServer.receiver_cases hnew
      (newSession_cases h hwell hcalled hnew) (handling.transport server) handling.isTcp
      handling.present
    rw [hfound] at hreceiver
    obtain ⟨rfl, rfl⟩ := Prod.mk.inj (some.inj (some.inj hreceiver))
    rw [base_session] at hsession
    exact ⟨base_stores server handling, hsession⟩

end

/-- What the key of a package does. -/
inductive KeyStep (server : SnServer) (handling : SnHandling) (outcome : SnOutcome) : Prop where
  /-- No session receives the package. -/
  | unreceived (hsession : ∀ transport session,
        outcome.server.cryptoSession transport = some session →
          server.cryptoSession transport = some session)
      (hstores : outcome.server.stores = server.stores)
      (hentries : ∀ entry : SnEntry, entry.OfKey →
        (entry ∈ outcome.entries → entry = .handled none))
      (hno : ∀ encrypt, handling.package.encrypt = some encrypt → ∀ session stores,
        handling.receiver server ≠ some (some (session, stores)))
  | received (encrypt : PackageDecryptOptions) (session next : CryptoSession) (accepted : Bool)
      (hencrypt : handling.package.encrypt = some encrypt)
      (hreceiver : handling.receiver server = some (some (session, server.stores)))
      (hreceived : Received server handling encrypt session next accepted)
      (hsession : ∀ transport other, outcome.server.cryptoSession transport = some other →
        other = next ∨ server.cryptoSession transport = some other)
      (hstores : accepted = false → outcome.server.stores = server.stores)
      (hentries : ∀ entry : SnEntry, entry.OfKey → (entry ∈ outcome.entries ↔
        entry = .received session.remote.value accepted next.key encrypt.key ∨
          entry = .handled (some accepted)))

theorem drops_encrypt (h : SnServer.drops config package = true) : package.encrypt = none := by
  exact isNone_iff_eq_none.mp (Bool.and_eq_true_iff.mp h).2

theorem session_of_transports {left right : SnServer} (h : left.transports = right.transports)
    (transport : Nat) : left.cryptoSession transport = right.cryptoSession transport := by
  unfold SnServer.cryptoSession
  rw [h]

theorem Performed.keyStep (hperformed : Performed config server now handling outcome)
    (h : server.Sound) (hwell : handling.package.WellFormed) (hcalled : handling.Called) :
    KeyStep server handling outcome := by
  cases hdrop : SnServer.drops config handling.package with
  | true =>
    have hnone := drops_encrypt hdrop
    have hsame : outcome = { server } := by
      cases hperformed with
      | dropped => rfl
      | udp _ _ _ _ _ _ hkeep =>
        exact absurd hdrop (Bool.eq_false_iff.mp hkeep)
      | tcp _ _ _ _ _ _ hkeep =>
        exact absurd hdrop (Bool.eq_false_iff.mp hkeep)
    subst hsame
    refine .unreceived (fun _ _ hsession => hsession) rfl (fun _ _ => nofun) fun encrypt hencrypt => ?_
    rw [hnone] at hencrypt
    cases hencrypt
  | false =>
    obtain ⟨prepared, accepted, hupdate, htransports, hstores, hentries⟩ :=
      hperformed.keyed hdrop
    have hsessions := session_of_transports htransports
    cases SnServer.updateKey_cases hupdate with
    | plain hplain =>
      refine .unreceived (fun transport session hsession => ?_)
        (hstores.trans (base_stores server handling)) (fun entry hkey hmem => ?_) ?_
      · rw [hsessions, SnServer.cryptoSession_set] at hsession
        split at hsession
        · cases hsession
        · rwa [base_session] at hsession
      · exact ((hentries entry hkey).mp hmem).resolve_left nofun
      · intro encrypt hencrypt
        rw [hplain] at hencrypt
        cases hencrypt
    | unreceived _ _ hreceiver =>
      refine .unreceived (fun transport session hsession => ?_)
        (hstores.trans (base_stores server handling)) (fun entry hkey hmem => ?_) ?_
      · rw [hsessions] at hsession
        rwa [← base_session]
      · exact ((hentries entry hkey).mp hmem).resolve_left nofun
      · intro _ _ session stores hsome
        cases hreceiver.symm.trans hsome
    | received encrypt session stores result hencrypt hreceiver hresult =>
      obtain ⟨rfl, hsession⟩ := receiver_session h hwell hcalled hreceiver
      obtain ⟨hremote, hreceived⟩ : result.session.remote = session.remote ∧
          Received server handling encrypt session result.session result.accepted := by
        rcases hsession with hexisting | ⟨hnone, hkeyless⟩
        · have hstate := h.transports _ session hexisting
          rw [CryptoSession.onRecvPackage_exchanged hstate] at hresult
          cases hresult
          exact ⟨rfl, .exchanged session hexisting hstate⟩
        have hnew := SnServer.onRecvPackage_keyless hkeyless server.stores handling.isTcp encrypt
        rw [hresult] at hnew
        have hstate : session.state ≠ .keyExchanged := by
          rw [hkeyless.state]
          exact nofun
        obtain ⟨_, htaken⟩ := CryptoSession.onRecvPackage_newKey hstate hnew.symm
        rw [htaken] at hresult
        cases hresult
        exact ⟨rfl, .fresh session hnone hkeyless.state hnew.symm⟩
      refine .received encrypt session result.session result.accepted hencrypt hreceiver hreceived
        (fun transport other hother => ?_) (fun hrejected => ?_) fun entry hkey => ?_
      · rw [hsessions, SnServer.cryptoSession_set] at hother
        split at hother
        · exact .inl (some.inj hother).symm
        · exact .inr ((base_session server handling transport).symm.trans hother)
      · exact hstores.trans (CryptoSession.stores_of_rejected hresult hrejected)
      · rw [hentries entry hkey, hremote, mem_singleton]

end SnHandling

/-! ## Runs -/

namespace SnRun

variable {config : SnConfig} {keys : StoredKeys} {run next : SnRun}
  {event : SnEvent}

/-- A peer has established a key: with an exchange, or the key was stored for it. -/
def Established (keys : StoredKeys) (history : List SnEntry) (peerid : Peerid)
    (key : List UInt8) : Prop :=
  .established peerid key ∈ history ∨
    ∃ hash stored, mapGet keys hash = some stored ∧ stored.peerid.value = peerid ∧ stored.key = key

theorem Established.append {history : List SnEntry} {peerid : Peerid} {key : List UInt8}
    (h : Established keys history peerid key) (entries : List SnEntry) :
    Established keys (history ++ entries) peerid key :=
  h.imp_left (mem_append_left _)

/-- Sessions have keys of their own peers, and what they reject is not handled. -/
structure Bound (keys : StoredKeys) (run : SnRun) : Prop where
  sessions : ∀ transport session, run.server.cryptoSession transport = some session →
    session.state = .keyExchanged → ∃ key, session.key = some key ∧
      Established keys run.history session.remote.value key
  received : ∀ remote sessionKey packageKey,
    .received remote true sessionKey packageKey ∈ run.history →
      sessionKey = some packageKey ∧ Established keys run.history remote packageKey
  handled : .handled (some false) ∉ run.history

/-- The exchange that comes to a session without a key is by its remote peer, or of a key that this peer
has established before, and what comes to a session with a key is encrypted with it. -/
def BoundAt (keys : StoredKeys) (config : SnConfig) (run : SnRun)
    (event : SnEvent) : Prop :=
  ∀ handling server now, run.crashed = false → run.handling event = some (handling, server, now) →
    handling.Returns config server → ∀ encrypt, handling.package.encrypt = some encrypt →
      ∀ session stores, handling.receiver server = some (some (session, stores)) →
        if session.state = .keyExchanged then
          session.keyHash = some encrypt.keyHash ∧ session.key = some encrypt.key
        else encrypt.peerid.value = session.remote.value ∨
          Established keys run.history session.remote.value encrypt.key

/-- Who has sent the keys that are in use. -/
structure KeysKnown (keys : StoredKeys) (run : SnRun) : Prop where
  sound : run.Sound
  arrivals : ∀ arrival ∈ run.arrivals, ∀ encrypt, arrival.package.encrypt = some encrypt →
    encrypt.newKey = true → Established keys run.history encrypt.peerid.value encrypt.key
  connections : ∀ tcp ∈ run.connections, ∀ encrypt, tcp.decryptoOption = some (some encrypt) →
    encrypt.newKey = true → Established keys run.history encrypt.peerid.value encrypt.key

theorem KeysKnown.step (h : run.KeysKnown keys) (hcrashed : run.crashed = false)
    (hnext : handle config run event = some next) (hnot : next.crashed = false) :
    next.KeysKnown keys := by
  have hsound := h.sound.step hcrashed hnext hnot
  have hkept : ∀ entries, next.history = run.history ++ entries →
      (∀ arrival ∈ next.arrivals, arrival ∈ run.arrivals) →
      (∀ tcp ∈ next.connections, tcp.decryptoOption = none ∨ ∃ other ∈ run.connections,
        tcp.decryptoOption = other.decryptoOption) → next.KeysKnown keys := by
    intro entries hhistory harrivals hdecrypto
    refine ⟨hsound, fun arrival hmem encrypt hencrypt hnew => ?_, fun tcp hmem encrypt hencrypt hnew => ?_⟩
    · rw [hhistory]
      exact (h.arrivals arrival (harrivals arrival hmem) encrypt hencrypt hnew).append entries
    rcases hdecrypto tcp hmem with hnone | ⟨other, hother, heq⟩
    · rw [hnone] at hencrypt
      cases hencrypt
    · rw [hhistory]
      exact (h.connections other hother encrypt (heq.symm.trans hencrypt) hnew).append entries
  rcases handle_alive hnext hnot with
    ⟨handling, server, now, outcome, hhandling, hperform, hby⟩ | ⟨hhandling, hother⟩
  · obtain ⟨-, -, hhistory⟩ := hby.outcome outcome rfl
    exact hkept outcome.entries hhistory hby.arrivals fun tcp hmem => .inr (hby.decrypto tcp hmem)
  cases hother with
  | quiet _ _ _ hhistory _ harrivals hdecrypto =>
    exact hkept [] (hhistory.trans (append_nil _).symm) harrivals hdecrypto
  | timer =>
    exact hkept _ rfl (fun _ hmem => hmem) fun tcp hmem => .inr ⟨tcp, hmem, rfl⟩
  | crash => cases hnot
  | received _ _ sender channel packages encrypt exchange hreceiving _ hhistory _ harrivals
      hdecrypto =>
      obtain ⟨hwell, hkey⟩ := receiving_packages hreceiving
      obtain ⟨entries, hentries⟩ : ∃ entries, next.history = run.history ++ entries := by
        rw [hhistory]
        unfold receive
        split
        · exact ⟨[], (append_nil _).symm⟩
        · exact ⟨_, rfl⟩
      have hestablished : ∀ other, encrypt = some other → other.newKey = true →
          Established keys next.history other.peerid.value other.key := by
        intro other hother hnew
        rcases hkey with ⟨-, hold⟩ | ⟨peerid, key, rfl, hexchanged⟩ | ⟨-, tcp, hmem, hdecrypt⟩
        · rw [hold other hother] at hnew
          cases hnew
        · obtain rfl := some.inj (hother.symm.trans hexchanged)
          rw [hhistory]
          exact .inl (mem_append_right _ (mem_singleton_self _))
        · rw [hentries]
          exact (h.connections tcp hmem other (hother ▸ hdecrypt) hnew).append entries
      refine ⟨hsound, fun arrival hmem other hother hnew => ?_, fun tcp hmem other hother hnew => ?_⟩
      · rcases harrivals arrival hmem with hold | hreceived
        · rw [hentries]
          exact (h.arrivals arrival hold other hother hnew).append entries
        · exact hestablished other ((hwell _ hreceived).2.symm.trans hother) hnew
      rcases hdecrypto tcp hmem with hsame | ⟨old, hold, heq⟩
      · exact hestablished other (some.inj (hsame.symm.trans hother)) hnew
      · rw [hentries]
        exact (h.connections old hold other (heq.symm.trans hother) hnew).append entries

/-- The sessions of the server that a package is handled by. -/
theorem handling_session {handling : SnHandling} {server : SnServer} {now : Nat}
    (h : run.handling event = some (handling, server, now)) (transport : Nat) :
    server.cryptoSession transport = run.server.cryptoSession transport := by
  rcases (handling_arrival h).2.2 with rfl | rfl
  · rfl
  · exact SnServer.cryptoSession_openTransport run.server transport

/-- A step that leaves the sessions, and in which none receives anything. -/
theorem Bound.same (h : run.Bound keys) (entries : List SnEntry)
    (hhistory : next.history = run.history ++ entries)
    (hsessions : ∀ transport session, next.server.cryptoSession transport = some session →
      run.server.cryptoSession transport = some session)
    (hentries : ∀ entry : SnEntry, entry.OfKey → entry ∈ entries → entry = .handled none) :
    next.Bound keys := by
  refine ⟨fun transport session hsession hstate => ?_, fun remote sessionKey packageKey hmem => ?_,
    fun hmem => ?_⟩
  · obtain ⟨key, hkey, hestablished⟩ :=
      h.sessions transport session (hsessions transport session hsession) hstate
    exact ⟨key, hkey, hhistory ▸ hestablished.append entries⟩
  · rw [hhistory] at hmem ⊢
    rcases mem_append.mp hmem with hold | hnew
    · obtain ⟨heq, hestablished⟩ := h.received remote sessionKey packageKey hold
      exact ⟨heq, hestablished.append entries⟩
    · cases hentries (.received remote true sessionKey packageKey) trivial hnew
  rw [hhistory] at hmem
  rcases mem_append.mp hmem with hold | hnew
  · exact h.handled hold
  · cases hentries (.handled (some false)) trivial hnew

theorem Bound.received_key (h : run.Bound keys) {server : SnServer}
    {outcome : SnOutcome} {encrypt : PackageDecryptOptions} {session after : CryptoSession}
    {accepted : Bool} (hhistory : next.history = run.history ++ outcome.entries)
    (hserver : next.server = outcome.server)
    (hsame : ∀ transport, server.cryptoSession transport = run.server.cryptoSession transport)
    (hsession : ∀ transport other, outcome.server.cryptoSession transport = some other →
      other = after ∨ server.cryptoSession transport = some other)
    (hentries : ∀ entry : SnEntry, entry.OfKey → (entry ∈ outcome.entries ↔
      entry = .received session.remote.value accepted after.key encrypt.key ∨
        entry = .handled (some accepted)))
    (haccepted : accepted = true) (hremote : after.remote = session.remote)
    (hkey : after.key = some encrypt.key)
    (hestablished : Established keys run.history session.remote.value encrypt.key) :
    next.Bound keys := by
  subst haccepted
  refine ⟨fun transport other hother hstate => ?_, fun remote sessionKey packageKey hmem => ?_,
    fun hmem => ?_⟩
  · rw [hserver] at hother
    rw [hhistory]
    rcases hsession transport other hother with rfl | hold
    · exact ⟨encrypt.key, hkey, hremote ▸ hestablished.append outcome.entries⟩
    · obtain ⟨key, heq, hest⟩ := h.sessions transport other ((hsame transport).symm.trans hold) hstate
      exact ⟨key, heq, hest.append outcome.entries⟩
  · rw [hhistory] at hmem ⊢
    rcases mem_append.mp hmem with hold | hnew
    · obtain ⟨heq, hest⟩ := h.received remote sessionKey packageKey hold
      exact ⟨heq, hest.append outcome.entries⟩
    rcases (hentries (.received remote true sessionKey packageKey) trivial).mp hnew with heq | heq
    · obtain ⟨rfl, -, rfl, rfl⟩ := SnEntry.received.inj heq
      exact ⟨hkey, hestablished.append outcome.entries⟩
    · cases heq
  rw [hhistory] at hmem
  rcases mem_append.mp hmem with hold | hnew
  · exact h.handled hold
  · rcases (hentries (.handled (some false)) trivial).mp hnew with heq | heq <;> cases heq

/-- A step that meets the condition keeps the sessions bound. -/
theorem Bound.step (h : run.Bound keys) (hknown : run.KeysKnown keys) (hcrashed : run.crashed = false)
    (hok : BoundAt keys config run event) (hnext : handle config run event = some next) :
    next.Bound keys := by
  cases hhandling : run.handling event with
  | some handling =>
    obtain ⟨handling, server, now⟩ := handling
    obtain ⟨after, hafter, hby⟩ := handle_handling hcrashed hhandling
    obtain rfl := some.inj (hafter.symm.trans hnext)
    obtain ⟨hsound, hwell, hcalled⟩ := hknown.sound.handling hhandling
    cases hperform : handling.perform config server now with
    | none =>
      obtain ⟨-, hhistory, hserver⟩ := hby.crashed hperform
      refine h.same [] (hhistory.trans (append_nil _).symm) ?_ fun _ _ => nofun
      rw [hserver]
      exact fun _ _ hsession => hsession
    | some outcome =>
      obtain ⟨-, hserver, hhistory⟩ := hby.outcome outcome hperform
      have hsame := handling_session hhandling
      cases (SnHandling.perform_cases hwell hcalled hperform).keyStep hsound hwell hcalled with
      | unreceived hsession _ hentries =>
        refine h.same outcome.entries hhistory (fun transport session hsome => ?_) hentries
        rw [← hsame]
        exact hsession transport session (hserver ▸ hsome)
      | received encrypt session last accepted hencrypt hreceiver hreceived hsession hstores
          hentries =>
          have hreturns := (perform_isSome hsound hwell hcalled now).mp (by rw [hperform]; rfl)
          have hkeys := hok handling server now hcrashed hhandling hreturns encrypt hencrypt session
            server.stores hreceiver
          cases hreceived with
          | exchanged hexisting hstate =>
            rw [if_pos hstate] at hkeys
            obtain ⟨hhash, hkey⟩ := hkeys
            rw [hsame] at hexisting
            obtain ⟨key, heq, hestablished⟩ := h.sessions _ session hexisting hstate
            obtain rfl := some.inj (heq.symm.trans hkey)
            exact h.received_key hhistory hserver hsame hsession hentries (decide_eq_true hhash)
              rfl hkey hestablished
          | fresh _ hstate hnew =>
            have hne : session.state ≠ .keyExchanged := by
              rw [hstate]
              exact nofun
            rw [if_neg hne] at hkeys
            have hestablished : Established keys run.history session.remote.value encrypt.key := by
              rcases hkeys with howner | hestablished
              · obtain ⟨arrival, hmem, heq⟩ := (handling_arrival hhandling).1
                rw [← howner]
                exact hknown.arrivals arrival hmem encrypt (heq ▸ hencrypt) hnew
              · exact hestablished
            exact h.received_key hhistory hserver hsame hsession hentries rfl rfl rfl hestablished
  | none =>
    have hquiet : ∀ entries, next.history = run.history ++ entries → next.server.transports =
        run.server.transports → (∀ entry ∈ entries, ¬ entry.OfKey) → next.Bound keys := by
      intro entries hhistory htransports hentries
      refine h.same entries hhistory (fun transport session hsession => ?_)
        fun entry hkey hmem => absurd hkey (hentries entry hmem)
      rwa [SnHandling.session_of_transports htransports] at hsession
    cases handle_other hnext hhandling with
    | quiet _ _ hserver hhistory =>
      exact hquiet [] (hhistory.trans (append_nil _).symm) (by rw [hserver]) nofun
    | timer =>
      refine hquiet _ rfl rfl fun entry hmem => ?_
      obtain ⟨pkgInfo, -, rfl⟩ := mem_map.mp hmem
      exact not_false
    | crash => exact hquiet [] (append_nil _).symm rfl nofun
    | received _ _ _ _ _ _ _ _ hserver hhistory =>
      unfold receive at hserver hhistory
      split at hhistory
      case h_1 => exact hquiet [] (hhistory.trans (append_nil _).symm) (by rw [hserver]) nofun
      case h_2 =>
        refine hquiet _ hhistory (by rw [hserver]) fun entry hmem => ?_
        exact mem_singleton.mp hmem ▸ not_false

/-- A step that does not meet it binds a session to the key of another peer, or handles a package that
is rejected. -/
theorem not_bound (hknown : run.crashed = false → run.KeysKnown keys)
    (hok : ¬ BoundAt keys config run event) :
    ∃ next, handle config run event = some next ∧ ¬ next.Bound keys := by
  unfold BoundAt at hok
  push Not at hok
  obtain ⟨handling, server, now, hcrashed, hhandling, hreturns, encrypt, hencrypt, session, stores,
    hreceiver, hnot⟩ := hok
  obtain ⟨hsound, hwell, hcalled⟩ := (hknown hcrashed).sound.handling hhandling
  obtain ⟨next, hnext, hby⟩ := handle_handling hcrashed hhandling
  obtain ⟨outcome, hperform⟩ := isSome_iff_exists.mp <|
    (perform_isSome hsound hwell hcalled now).mpr hreturns
  obtain ⟨-, -, hhistory⟩ := hby.outcome outcome hperform
  have hperformed := SnHandling.perform_cases hwell hcalled hperform
  refine ⟨next, hnext, fun hbound => ?_⟩
  cases hperformed.keyStep hsound hwell hcalled with
  | unreceived _ _ _ hno => exact hno encrypt hencrypt session stores hreceiver
  | received other found last accepted hother hfound hreceived _ _ hentries =>
    obtain rfl := some.inj (hencrypt.symm.trans hother)
    rw [hreceiver] at hfound
    obtain ⟨rfl, rfl⟩ := Prod.mk.inj (some.inj (some.inj hfound))
    have hreceivedEntry : .received session.remote.value accepted last.key encrypt.key ∈ next.history := by
      rw [hhistory]
      exact mem_append_right _ ((hentries (.received _ _ _ _) trivial).mpr (.inl rfl))
    cases hreceived with
    | exchanged _ hstate =>
      rw [if_pos hstate] at hnot
      by_cases hhash : session.keyHash = some encrypt.keyHash
      · rw [decide_eq_true hhash] at hreceivedEntry
        exact hnot ⟨hhash, (hbound.received _ _ _ hreceivedEntry).1⟩
      · refine hbound.handled ?_
        rw [hhistory, ← decide_eq_false hhash]
        exact mem_append_right _ ((hentries (.handled _) trivial).mpr (.inr rfl))
    | fresh _ hstate =>
      have hne : session.state ≠ .keyExchanged := by
        rw [hstate]
        exact nofun
      rw [if_neg hne] at hnot
      have hestablished := (hbound.received _ _ _ hreceivedEntry).2
      rw [hhistory] at hestablished
      refine hnot (.inr (hestablished.imp_left fun hmem => ?_))
      exact (mem_append.mp hmem).resolve_right fun hmem =>
        hperformed.ofHandling _ hmem

theorem KeysKnown.rejected (h : run.KeysKnown keys) (hcrashed : run.crashed = false)
    (hnext : handle config run event = some next) (hnot : next.crashed = false) :
    ∃ entries, next.history = run.history ++ entries ∧
      (.handled (some false) ∈ entries → next.server.stores = run.server.stores) := by
  have hother : ∀ entries, next.history = run.history ++ entries →
      SnEntry.handled (some false) ∉ entries → ∃ entries, next.history = run.history ++ entries ∧
        (.handled (some false) ∈ entries → next.server.stores = run.server.stores) :=
    fun entries hhistory hno => ⟨entries, hhistory, fun hmem => absurd hmem hno⟩
  rcases handle_alive hnext hnot with
    ⟨handling, server, now, outcome, hhandling, hperform, hby⟩ | ⟨hhandling, hother⟩
  · obtain ⟨hsound, hwell, hcalled⟩ := h.sound.handling hhandling
    obtain ⟨-, hserver, hhistory⟩ := hby.outcome outcome rfl
    have hstores : server.stores = run.server.stores := by
      rcases (handling_arrival hhandling).2.2 with rfl | rfl <;> rfl
    refine ⟨outcome.entries, hhistory, fun hmem => ?_⟩
    rw [hserver, ← hstores]
    cases (SnHandling.perform_cases hwell hcalled hperform).keyStep hsound hwell hcalled with
    | unreceived _ hsame => exact hsame
    | received _ _ _ _ _ _ _ _ hsame hentries =>
      rcases (hentries (.handled (some false)) trivial).mp hmem with heq | heq
      · cases heq
      · exact hsame (some.inj (SnEntry.handled.inj heq)).symm
  cases hother with
  | quiet _ _ _ hhistory =>
    exact hother [] (hhistory.trans (append_nil _).symm) nofun
  | timer =>
    refine hother _ rfl fun hmem => ?_
    obtain ⟨pkgInfo, -, heq⟩ := mem_map.mp hmem
    cases heq
  | crash => cases hnot
  | received _ _ _ _ _ _ _ _ _ hhistory =>
    unfold receive at hhistory
    split at hhistory
    case h_1 => exact hother [] (hhistory.trans (append_nil _).symm) nofun
    case h_2 =>
      refine hother _ hhistory fun hmem => ?_
      cases mem_singleton.mp hmem

theorem keysKnown_start (keys : StoredKeys) (curSequence now : Nat) :
    (start keys curSequence now).KeysKnown keys where
  sound := sound_start keys curSequence now
  arrivals := fun _ h => by cases h
  connections := fun _ h => by cases h

theorem keysKnown_of_alive {curSequence now : Nat} {events : List SnEvent}
    (hrun : exec (handle config) (start keys curSequence now) events = some run)
    (hcrashed : run.crashed = false) : run.KeysKnown keys :=
  exec_alive (keysKnown_start keys curSequence now)
    (fun _ _ _ hcrashed hknown hnext hnot => hknown.step hcrashed hnext hnot) hrun hcrashed

/-- Until a crash, each new key in use was stored, or sent by its peer. -/
theorem keys_known (config : SnConfig) (keys : StoredKeys)
    (curSequence now : Nat) (events : List SnEvent) :
    Throughout (handle config) (fun run => run.crashed = false → run.KeysKnown keys)
      (start keys curSequence now) events :=
  fun _ _ _ _ hfront => keysKnown_of_alive hfront

/-- The invariant of a run whose sessions are bound. -/
structure BoundRun (keys : StoredKeys) (run : SnRun) : Prop where
  bound : run.Bound keys
  known : run.crashed = false → run.KeysKnown keys

/-- In a run from the start, every session with a key has one that its remote peer has established, it
accepts only packages with this key, and no package is handled that a session has rejected, if and only
if every exchange of a key that comes to a session without one is by its remote peer or of a key that
this peer has established before, and every package that comes to a session with a key is encrypted
with it. A package that is rejected leaves the stored keys. -/
theorem bound_iff (config : SnConfig) (keys : StoredKeys)
    (curSequence now : Nat) (events : List SnEvent) :
    (Throughout (handle config) (Bound keys) (start keys curSequence now) events ↔
      StepsMeet (handle config) (BoundAt keys config) (start keys curSequence now) events) ∧
    ∀ front event back run next, events = front ++ event :: back →
      exec (handle config) (start keys curSequence now) front = some run →
        handle config run event = some next → next.crashed = false →
          ∃ entries, next.history = run.history ++ entries ∧
            (.handled (some false) ∈ entries → next.server.stores = run.server.stores) := by
  constructor
  · have hstart : BoundRun keys (start keys curSequence now) :=
      ⟨⟨fun _ _ h => (by cases h), nofun, nofun⟩, fun _ => keysKnown_start keys curSequence now⟩
    refine throughout_iff hstart (fun _ h => h.bound) ?_ ?_
    · intro run event next h hok hnext
      have hcrashed := alive_of_handle hnext
      have hknown := h.known hcrashed
      exact ⟨h.bound.step hknown hcrashed hok hnext, fun hnot => hknown.step hcrashed hnext hnot⟩
    · intro front run event hrun _ hok
      exact not_bound (keysKnown_of_alive hrun) hok
  · intro front event back run next _ hrun hnext hnot
    have hcrashed := alive_of_handle hnext
    exact (keysKnown_of_alive hrun hcrashed).rejected hcrashed hnext hnot

/-- An exchange of a key by one peer gives its key to the session of another one. -/
theorem exchange_of_another : ∃ run,
    exec (handle smallConfig) (start [] 0 0)
      [.datagram (smallPeerid 1) (smallEndpoint 2024) (smallEndpoint 2025)
        (.exchangeKey [7] [7] { peerInfo := some (smallPeerInfo 1), sendTime := 0 } true
          [.snPing 1 none (some (smallPeerInfo 2))]), .dispatch 0] = some run ∧
    (run.server.cryptoSession 0).map (fun session => (session.remote.value, session.state, session.key)) =
      some (smallPeerid 2, .keyExchanged, some [7]) ∧
    ¬ run.Bound [] := by
  refine ⟨_, rfl, rfl, fun hbound => ?_⟩
  have hestablished := (hbound.received (smallPeerid 2) (some [7]) [7]
    (mem_cons_of_mem _ mem_cons_self)).2
  rcases hestablished with hmem | ⟨hash, stored, hget, -⟩
  · replace hmem : SnEntry.established (smallPeerid 2) [7] ∈
      [.established (smallPeerid 1) [7], .received (smallPeerid 2) true (some [7]) [7],
        .handled (some true), .heartbeat (smallPeerid 2) (some (smallPeerid 2))] := hmem
    exact absurd hmem (by decide)
  · cases hget

end SnRun

end Bdt
