import Bdt.SuperNode.Server

/-!
# The steps of a super node

`SnRun.handling` says whether an event comes to the handling of a package, and of which one.
`handle_handling` and `handle_other` say what the events do, so that nothing has to look into the
dispatch of packages after that, and `updateKey_cases` says what a package does to the sessions.
-/

namespace Bdt

open Base List Option

theorem mem_of_mem_modify {α : Type*} {l : List α} {i : Nat} {f : α → α} {a : α}
    (h : a ∈ l.modify i f) : a ∈ l ∨ ∃ b ∈ l, a = f b := by
  obtain ⟨j, hj⟩ := mem_iff_getElem?.mp h
  rw [List.getElem?_modify] at hj
  obtain ⟨b, hb, rfl⟩ := map_eq_some_iff.mp hj
  have hmem := mem_of_getElem? hb
  split
  · exact .inr ⟨b, hmem, rfl⟩
  · exact .inl hmem

namespace SnServer

variable {config : SnConfig} {server : SnServer} {package : JsPackage} {fromPeer : Option Nat}
  {transport : Nat} {tcp present : Bool} {outcome : SnOutcome} {accepted : Option Bool}

/-- What a package does to the session of its transport. -/
inductive KeyUpdate (server : SnServer) (package : JsPackage) (fromPeer : Option Nat)
    (transport : Nat) (tcp present : Bool) : SnOutcome → Option Bool → Prop where
  | plain (hplain : package.encrypt = none) :
      KeyUpdate server package fromPeer transport tcp present
        { server := server.setCryptoSession transport none } none
  | unreceived (encrypt : PackageDecryptOptions) (hencrypt : package.encrypt = some encrypt)
      (hreceiver : server.receiver package fromPeer transport tcp present = some none) :
      KeyUpdate server package fromPeer transport tcp present { server } none
  | received (encrypt : PackageDecryptOptions) (session : CryptoSession) (stores : KeyStores)
      (result : RecvResult) (hencrypt : package.encrypt = some encrypt)
      (hreceiver : server.receiver package fromPeer transport tcp present =
        some (some (session, stores)))
      (hresult : session.onRecvPackage stores tcp encrypt = some result) :
      KeyUpdate server package fromPeer transport tcp present
        { server :=
            { server with stores := result.stores }.setCryptoSession transport (some result.session)
          entries :=
            [.received result.session.remote.value result.accepted result.session.key encrypt.key] }
        (some result.accepted)

theorem updateKey_cases
    (h : server.updateKey package fromPeer transport tcp present = some (outcome, accepted)) :
    KeyUpdate server package fromPeer transport tcp present outcome accepted := by
  unfold updateKey at h
  split at h
  case h_1 encrypt hencrypt =>
    unfold onRecvEncryptPackage at h
    split at h
    case h_1 => cases h
    case h_2 hreceiver =>
      obtain ⟨rfl, rfl⟩ := Prod.mk.inj (some.inj h)
      exact .unreceived encrypt hencrypt hreceiver
    case h_3 session stores hreceiver =>
    obtain ⟨result, hresult, h⟩ := map_eq_some_iff.mp h
    obtain ⟨rfl, rfl⟩ := Prod.mk.inj h
    exact .received encrypt session stores result hencrypt hreceiver hresult
  case h_2 hplain =>
    obtain ⟨rfl, rfl⟩ := Prod.mk.inj (some.inj h)
    exact .plain hplain

theorem cryptoSession_set (server : SnServer) (transport other : Nat)
    (session : Option CryptoSession) :
    (server.setCryptoSession transport session).cryptoSession other =
      if transport = other ∧ other < server.transports.length then session
      else server.cryptoSession other := by
  unfold cryptoSession setCryptoSession
  rw [List.getElem?_modify]
  by_cases hlt : other < server.transports.length
  · rw [List.getElem?_eq_getElem hlt]
    by_cases heq : transport = other <;> simp [heq, hlt]
  · rw [List.getElem?_eq_none (Nat.le_of_not_lt hlt)]
    simp [hlt]

@[simp] theorem cryptoSession_openTransport (server : SnServer) (transport : Nat) :
    server.openTransport.cryptoSession transport = server.cryptoSession transport := by
  unfold cryptoSession openTransport
  by_cases hlt : transport < server.transports.length
  · rw [getElem?_append_left hlt]
  rw [List.getElem?_eq_none (Nat.le_of_not_lt hlt)]
  by_cases heq : transport = server.transports.length
  · subst heq
    rw [getElem?_concat_length]
    rfl
  · rw [List.getElem?_eq_none (by rw [length_append, length_singleton]; omega)]

end SnServer

/-! ## The handling of a package -/

/-- The handling of a package, over UDP or by a handler of a connection. -/
inductive SnHandling where
  | udp (package : JsPackage) (sender : Peerid) (endpoints : BdtEndpoint × BdtEndpoint)
  | tcp (handler : TcpHandler) (package : JsPackage) (present : Bool)

namespace SnHandling

def package : SnHandling → JsPackage
  | .udp package _ _ | .tcp _ package _ => package

def perform (config : SnConfig) (server : SnServer) (now : Nat) : SnHandling → Option SnOutcome
  | .udp package sender endpoints => server.handleUdp config now package sender endpoints
  | .tcp handler package present =>
    (server.packageHandle config now handler package present).map (·.1)

/-- A handler of a connection is called with a call. -/
def Called : SnHandling → Prop
  | .udp _ _ _ => True
  | .tcp _ package _ => package.cmdType = .snCallReq

end SnHandling

/-! ## The parts of a handling -/

namespace SnServer

variable {server : SnServer} {package : JsPackage} {fromPeer : Option Nat} {transport : Nat}
  {tcp present : Bool} {outcome : SnOutcome} {accepted : Option Bool}

/-- The package that `identify` leaves. -/
theorem identify_eq (hwell : package.WellFormed) : identify package = (package, true) := by
  unfold identify
  cases hcmd : package.cmdType with
  | snCalledResp =>
    obtain ⟨hfrom, hinfo⟩ := hwell.called hcmd
    obtain ⟨cmdType, sequence, fromPeerid, toPeerid, peerInfo, sendTime, encrypt, own⟩ := package
    obtain rfl : fromPeerid = none := hfrom
    obtain rfl : peerInfo = none := hinfo
    obtain rfl : cmdType = .snCalledResp := hcmd
    rfl
  | snCallReq | snPingReq =>
    have hne : package.cmdType ≠ .snCalledResp := by rw [hcmd]; exact nofun
    obtain ⟨peerid, hpeerid⟩ := isSome_iff_exists.mp (hwell.own hne)
    rw [(hwell.fromPeerid hne).trans hpeerid]

theorem identifyTcp_eq {handler : TcpHandler} {peerid : Peerid}
    (hfrom : package.fromPeerid = some peerid) :
    identifyTcp handler package =
      if ∀ other, handler.peerid = some other → other = peerid then
        some ({ handler with peerid := some peerid }, package)
      else none := by
  obtain ⟨transport, known, sourcePeer⟩ := handler
  unfold identifyTcp
  rw [hfrom]
  cases known with
  | none => exact (if_pos nofun).symm
  | some known =>
    dsimp only
    by_cases heq : known = peerid
    · subst heq
      rw [if_pos rfl, if_pos fun _ hother => (some.inj hother).symm]
    · rw [if_neg heq, if_neg fun hall => heq (hall known rfl)]

theorem findTransport_peer (server : SnServer) (fromPeerid : Option Peerid)
    (endpoints : BdtEndpoint × BdtEndpoint) :
    (server.findTransport fromPeerid endpoints).2.1 = fromPeerid.bind server.manager.getPeer := by
  unfold findTransport
  dsimp only
  split <;> rfl

/-- Peers and requests are not what a key is about. -/
structure KeptPeers (server next : SnServer) : Prop where
  manager : next.manager = server.manager
  packages : next.packages = server.packages
  curSequence : next.curSequence = server.curSequence

theorem findTransport_kept (server : SnServer) (fromPeerid : Option Peerid)
    (endpoints : BdtEndpoint × BdtEndpoint) :
    KeptPeers server (server.findTransport fromPeerid endpoints).1 := by
  unfold findTransport
  dsimp only
  split <;> exact ⟨rfl, rfl, rfl⟩

variable (h : server.updateKey package fromPeer transport tcp present = some (outcome, accepted))
include h

theorem updateKey_kept
    :
    KeptPeers server outcome.server := by
  cases updateKey_cases h with
  | plain | unreceived | received => exact ⟨rfl, rfl, rfl⟩

/-- What the key of a package may add to the history. -/
theorem updateKey_entries
    :
    ∀ entry ∈ outcome.entries, ∃ remote accepted sessionKey packageKey,
      entry = .received remote accepted sessionKey packageKey := by
  cases updateKey_cases h with
  | plain | unreceived => exact nofun
  | received =>
    intro entry hmem
    exact ⟨_, _, _, _, mem_singleton.mp hmem⟩

end SnServer

/-- The peer that a handler of a connection has for a package. -/
def TcpHandler.sourceOf (handler : TcpHandler) (server : SnServer) (package : JsPackage) : Option Nat :=
  if package.encrypt.isSome then
    handler.sourcePeer.or (package.fromPeerid.bind server.manager.getPeer)
  else handler.sourcePeer

/-- What the handling of a package does: the package is dropped, or its key is used and then the handler
of the command is called. -/
inductive SnHandling.Performed (config : SnConfig) (server : SnServer) (now : Nat) :
    SnHandling → SnOutcome → Prop where
  | dropped (handling : SnHandling) (hdrop : SnServer.drops config handling.package = true) :
      Performed config server now handling { server }
  | udp (package : JsPackage) (sender : Peerid) (endpoints : BdtEndpoint × BdtEndpoint)
      (prepared handled : SnOutcome) (accepted : Option Bool)
      (hkeep : SnServer.drops config package = false)
      (hupdate : (server.findTransport package.fromPeerid endpoints).1.updateKey package
        (package.fromPeerid.bind server.manager.getPeer)
        (server.findTransport package.fromPeerid endpoints).2.2 false true =
          some (prepared, accepted))
      (hhandle : SnServer.handlePackage config prepared.server now package sender endpoints
        (server.findTransport package.fromPeerid endpoints).2.2
        (package.fromPeerid.bind server.manager.getPeer) = some handled) :
      Performed config server now (.udp package sender endpoints)
        { server := handled.server
          entries := prepared.entries ++ [.handled accepted] ++ handled.entries }
  | tcp (handler : TcpHandler) (package : JsPackage) (present : Bool)
      (prepared handled : SnOutcome) (accepted : Option Bool)
      (hkeep : SnServer.drops config package = false)
      (hpeerid : ∀ peerid, handler.peerid = some peerid → package.fromPeerid = some peerid)
      (hupdate : server.updateKey package (handler.sourceOf server package) handler.transport true
        present = some (prepared, accepted))
      (hhandle : SnServer.onCallReq config prepared.server now package = some handled) :
      Performed config server now (.tcp handler package present)
        { server := handled.server
          entries := prepared.entries ++ [.handled accepted] ++ handled.entries }

theorem SnHandling.perform_cases {config : SnConfig} {server : SnServer} {now : Nat}
    {handling : SnHandling} {outcome : SnOutcome} (hwell : handling.package.WellFormed)
    (hcalled : handling.Called) (h : handling.perform config server now = some outcome) :
    Performed config server now handling outcome := by
  cases handling with
  | udp package sender endpoints =>
    replace hwell : package.WellFormed := hwell
    replace h : SnServer.handleUdp config server now package sender endpoints = some outcome := h
    unfold SnServer.handleUdp at h
    rw [SnServer.identify_eq hwell] at h
    split at h
    case isTrue hdrop => exact some.inj h ▸ .dropped _ hdrop
    case isFalse hkeep =>
    have hpeer := SnServer.findTransport_peer server package.fromPeerid endpoints
    obtain ⟨⟨prepared, fromPeer, transport, accepted⟩, hprepare, h⟩ :=
      bind_eq_some_iff.mp h
    obtain ⟨handled, hhandled, rfl⟩ := map_eq_some_iff.mp h
    obtain ⟨⟨updated, result⟩, hupdate, heq⟩ := map_eq_some_iff.mp hprepare
    obtain ⟨rfl, rfl, rfl, rfl⟩ := heq
    replace hupdate : (server.findTransport package.fromPeerid endpoints).1.updateKey package
      (server.findTransport package.fromPeerid endpoints).2.1
      (server.findTransport package.fromPeerid endpoints).2.2 false true =
        some (prepared, accepted) := hupdate
    rw [hpeer] at hupdate
    replace hhandled : SnServer.handlePackage config prepared.server now package sender endpoints
      (server.findTransport package.fromPeerid endpoints).2.2
      (server.findTransport package.fromPeerid endpoints).2.1 = some handled := hhandled
    rw [hpeer] at hhandled
    exact .udp package sender endpoints prepared handled accepted (Bool.not_eq_true _ ▸ hkeep)
      hupdate hhandled
  | tcp handler package present =>
    have hcmd : package.cmdType ≠ .snCalledResp := by rw [hcalled]; exact nofun
    obtain ⟨peerid, hpeerid⟩ := isSome_iff_exists.mp (hwell.own hcmd)
    have hfrom : package.fromPeerid = some peerid := (hwell.fromPeerid hcmd).trans hpeerid
    obtain ⟨⟨handled, next⟩, hperform, rfl⟩ := map_eq_some_iff.mp h
    unfold SnServer.packageHandle at hperform
    rw [SnServer.identifyTcp_eq hfrom] at hperform
    split at hperform
    case isTrue hdrop =>
      obtain ⟨rfl, -⟩ := Prod.mk.inj (some.inj hperform)
      exact .dropped _ hdrop
    case isFalse hkeep =>
    obtain ⟨⟨found, identified⟩, hfound, hperform⟩ :=
      bind_eq_some_iff.mp hperform
    split at hfound
    case isFalse => cases hfound
    case isTrue hother =>
    obtain ⟨rfl, rfl⟩ := Prod.mk.inj (some.inj hfound)
    obtain ⟨⟨prepared, accepted⟩, hupdate, hperform⟩ :=
      bind_eq_some_iff.mp hperform
    obtain ⟨called, hcalled, heq⟩ := map_eq_some_iff.mp hperform
    obtain ⟨rfl, -⟩ := Prod.mk.inj heq
    refine .tcp handler package present prepared called accepted (Bool.not_eq_true _ ▸ hkeep)
      (fun other hknown => hfrom.trans (congrArg some (hother other hknown).symm)) ?_ hcalled
    unfold TcpHandler.sourceOf
    rw [hfrom]
    exact hupdate

/-! ## What a handling writes -/

namespace SnServer

variable {config : SnConfig} {server : SnServer} {package : JsPackage} {now : Nat}
  {outcome : SnOutcome}

theorem mem_missing {missing : Bool} {entry : SnEntry}
    (h : entry ∈ if missing then [SnEntry.missingField] else []) : entry = .missingField := by
  split at h
  · exact mem_singleton.mp h
  · cases h

theorem onPingReq_entries {endpoints : BdtEndpoint × BdtEndpoint} {transport : Nat}
    {fromPeer : Option Nat}
    (h : onPingReq config server now package endpoints transport fromPeer = some outcome) :
    ∀ entry ∈ outcome.entries, entry = .missingField ∨ ∃ peerid own, entry = .heartbeat peerid own := by
  unfold onPingReq at h
  split at h
  case h_2 => cases h
  case h_1 =>
  dsimp only at h
  split at h <;> cases h <;> intro entry hmem
  case isTrue =>
    rcases mem_append.mp hmem with hmem | hmem
    · exact .inl (mem_missing hmem)
    · exact .inr ⟨_, _, mem_singleton.mp hmem⟩
  case isFalse => exact .inl (mem_missing hmem)

theorem onCallReq_entries (h : onCallReq config server now package = some outcome) :
    ∀ entry ∈ outcome.entries, ∃ toPeerid sender, entry = .removed toPeerid sender := by
  unfold onCallReq at h
  split at h
  case h_1 => exact some.inj h ▸ nofun
  case h_2 =>
    split at h
    case h_1 => exact some.inj h ▸ nofun
    case h_2 =>
    cases h
    intro entry hmem
    split at hmem
    · exact ⟨_, _, mem_singleton.mp hmem⟩
    · cases hmem
  case h_3 => cases h

theorem onCalledResp_entries (server : SnServer) (package : JsPackage) (sender : Peerid) :
    ∀ entry ∈ (server.onCalledResp package sender).entries,
      ∃ toPeerid sender, entry = .removed toPeerid sender := by
  intro entry hmem
  unfold onCalledResp at hmem
  split at hmem
  · exact ⟨_, _, mem_singleton.mp hmem⟩
  · cases hmem

end SnServer

/-- What a handling may write. -/
def SnEntry.OfHandling : SnEntry → Prop
  | .established _ _ | .givenUp _ => False
  | _ => True

theorem SnHandling.Performed.ofHandling {config : SnConfig} {server : SnServer} {now : Nat}
    {handling : SnHandling} {outcome : SnOutcome} (h : Performed config server now handling outcome) :
    ∀ entry ∈ outcome.entries, entry.OfHandling := by
  have hparts : ∀ {server : SnServer} {package : JsPackage} {fromPeer : Option Nat} {transport : Nat}
      {tcp present : Bool} {prepared handled : SnOutcome} {accepted : Option Bool},
      server.updateKey package fromPeer transport tcp present = some (prepared, accepted) →
        (∀ entry ∈ handled.entries, entry.OfHandling) →
          ∀ entry ∈ prepared.entries ++ [.handled accepted] ++ handled.entries,
            entry.OfHandling := by
    intro server package fromPeer transport tcp present prepared handled accepted hupdate hall entry
      hmem
    rcases mem_append.mp hmem with hmem | hmem
    · rcases mem_append.mp hmem with hmem | hmem
      · obtain ⟨_, _, _, _, rfl⟩ := SnServer.updateKey_entries hupdate entry hmem
        trivial
      · exact mem_singleton.mp hmem ▸ trivial
    · exact hall entry hmem
  cases h with
  | dropped => exact nofun
  | udp package sender _ _ _ _ _ hupdate hhandle =>
    refine hparts hupdate fun entry hmem => ?_
    unfold SnServer.handlePackage at hhandle
    split at hhandle
    case h_1 =>
      rcases SnServer.onPingReq_entries hhandle entry hmem with rfl | ⟨_, _, rfl⟩ <;> trivial
    case h_2 =>
      obtain ⟨_, _, rfl⟩ := SnServer.onCallReq_entries hhandle entry hmem
      trivial
    case h_3 =>
    cases hhandle
    obtain ⟨_, _, rfl⟩ := SnServer.onCalledResp_entries _ package sender entry hmem
    trivial
  | tcp _ _ _ _ _ _ _ _ hupdate hhandle =>
    refine hparts hupdate fun entry hmem => ?_
    obtain ⟨_, _, rfl⟩ := SnServer.onCallReq_entries hhandle entry hmem
    trivial

namespace SnRun

variable {config : SnConfig} {run next : SnRun} {event : SnEvent}

/-- The handling that an event comes to, with the server and the time. -/
def handling (run : SnRun) : SnEvent → Option (SnHandling × SnServer × Nat)
  | .dispatch now =>
    match run.work with
    | [] => none
    | arrival :: _ =>
      match arrival.channel with
      | .udp localEndpoint remoteEndpoint =>
        some (.udp arrival.package arrival.sender (localEndpoint, remoteEndpoint), run.server, now)
      | .tcp connection =>
        match run.connections[connection]? with
        | some { listening := false, handlers := handler :: _, .. } =>
          if arrival.package.cmdType = .snCallReq then
            some (.tcp handler arrival.package false, run.server, now)
          else none
        | _ => none
  | .immediate now =>
    match run.work, run.immediates with
    | [], arrival :: _ =>
      match arrival.channel with
      | .udp _ _ => none
      | .tcp _ =>
        if arrival.package.cmdType = .snCallReq then
          some (.tcp { transport := run.server.transports.length } arrival.package true,
            run.server.openTransport, now)
        else none
    | _, _ => none
  | _ => none

/-- The packages that are not handled yet. -/
def arrivals (run : SnRun) : List Arrival :=
  run.work ++ run.immediates

variable {f : TcpConnection → TcpConnection} {handling : SnHandling}

/-- The handling is that of a package that has arrived. -/
theorem handling_arrival {server : SnServer} {now : Nat}
    (h : run.handling event = some (handling, server, now)) :
    (∃ arrival ∈ run.arrivals, handling.package = arrival.package) ∧ handling.Called ∧
      (server = run.server ∨ server = run.server.openTransport) := by
  cases event with
  | datagram | accept | firstBox | nextBox | timer | close => cases h
  | dispatch =>
    unfold SnRun.handling at h
    dsimp only at h
    split at h
    case h_1 => cases h
    case h_2 arrival rest hwork =>
    have hmem : arrival ∈ run.arrivals := by
      unfold arrivals
      rw [hwork]
      exact mem_cons_self
    split at h
    case h_1 =>
      obtain ⟨rfl, rfl, rfl⟩ := h
      exact ⟨⟨arrival, hmem, rfl⟩, trivial, .inl rfl⟩
    case h_2 =>
    split at h
    case h_2 => cases h
    case h_1 =>
    split at h
    case isFalse => cases h
    case isTrue hcall =>
      obtain ⟨rfl, rfl, rfl⟩ := h
      exact ⟨⟨arrival, hmem, rfl⟩, hcall, .inl rfl⟩
  | immediate =>
    unfold SnRun.handling at h
    dsimp only at h
    split at h
    case h_2 => cases h
    case h_1 arrival rest hwork himmediates =>
    have hmem : arrival ∈ run.arrivals := by
      unfold arrivals
      rw [himmediates]
      exact mem_append_right _ mem_cons_self
    split at h
    case h_1 => cases h
    case h_2 =>
    split at h
    case isFalse => cases h
    case isTrue hcall =>
      obtain ⟨rfl, rfl, rfl⟩ := h
      exact ⟨⟨arrival, hmem, rfl⟩, hcall, .inr rfl⟩

/-- What the handling of a package leaves: a crash, or what the handler has done. -/
structure HandledBy (run next : SnRun) (result : Option SnOutcome) : Prop where
  crashed : result = none → next.crashed = true ∧ next.history = run.history ∧
    next.server = run.server
  outcome : ∀ outcome, result = some outcome → next.crashed = false ∧
    next.server = outcome.server ∧ next.history = run.history ++ outcome.entries
  arrivals : ∀ arrival ∈ next.arrivals, arrival ∈ run.arrivals
  decrypto : ∀ tcp ∈ next.connections, ∃ other ∈ run.connections,
    tcp.decryptoOption = other.decryptoOption

/-- What the decoder makes of an event. -/
def receiving (config : SnConfig) (run : SnRun) (event : SnEvent) :
    Option (Peerid × SnChannel × SnDecoded) :=
  match event, run.work with
  | .datagram sender localEndpoint remoteEndpoint box, [] =>
    some (sender, .udp localEndpoint remoteEndpoint, decodeBox config run.server.stores false box)
  | .firstBox sender connection box, [] =>
    match run.connections[connection]? with
    | some { decryptoOption := none, .. } =>
      some (sender, .tcp connection, decodeBox config run.server.stores true box)
    | _ => none
  | .nextBox sender connection packages, [] =>
    match run.connections[connection]? with
    | some { decryptoOption := some encrypt, .. } =>
      some (sender, .tcp connection, decodePackages packages encrypt)
    | _ => none
  | _, _ => none

/-- What the other events do. -/
inductive OtherStep (config : SnConfig) (run : SnRun) : SnEvent → SnRun → Prop where
  /-- Nothing is received, and nothing is handled. -/
  | quiet (event : SnEvent) (next : SnRun) (hserver : next.server = run.server)
      (hhistory : next.history = run.history) (hcrashed : next.crashed = false)
      (harrivals : ∀ arrival ∈ next.arrivals, arrival ∈ run.arrivals)
      (hdecrypto : ∀ tcp ∈ next.connections, tcp.decryptoOption = none ∨
        ∃ other ∈ run.connections, tcp.decryptoOption = other.decryptoOption) :
      OtherStep config run event next
  | timer (now : Nat) : OtherStep config run (.timer now) (run.onTimer config now)
  /-- The C bridge crashes. -/
  | crash (event : SnEvent) (sender : Peerid) (channel : SnChannel)
      (hreceiving : run.receiving config event = some (sender, channel, .crash)) :
      OtherStep config run event { run with crashed := true }
  /-- Packages are received. -/
  | received (event : SnEvent) (next : SnRun) (sender : Peerid) (channel : SnChannel)
      (packages : List JsPackage) (encrypt : Option PackageDecryptOptions)
      (exchange : Option (Peerid × List UInt8))
      (hreceiving : run.receiving config event =
        some (sender, channel, .packages packages encrypt exchange))
      (hserver : next.server = (run.receive sender channel packages exchange config.keyHash).server)
      (hhistory : next.history =
        (run.receive sender channel packages exchange config.keyHash).history)
      (hcrashed : next.crashed = false)
      (harrivals : ∀ arrival ∈ next.arrivals, arrival ∈ run.arrivals ∨ arrival.package ∈ packages)
      (hdecrypto : ∀ tcp ∈ next.connections, tcp.decryptoOption = some encrypt ∨
        ∃ other ∈ run.connections, tcp.decryptoOption = other.decryptoOption) :
      OtherStep config run event next

/-- The connections after one of them is changed, with what is kept of it. -/
theorem mem_updateConnection {connection : Nat}
    {tcp : TcpConnection} (h : tcp ∈ (run.updateConnection connection f).connections) :
    tcp ∈ run.connections ∨ ∃ other ∈ run.connections, tcp = f other :=
  mem_of_mem_modify h

theorem handledBy_settle (run base : SnRun) (hserver : base.server = run.server)
    (hhistory : base.history = run.history)
    (hcrashed : base.crashed = false)
    (harrivals : ∀ arrival ∈ base.arrivals, arrival ∈ run.arrivals)
    (hdecrypto : ∀ tcp ∈ base.connections, ∃ other ∈ run.connections,
      tcp.decryptoOption = other.decryptoOption) (result : Option SnOutcome) :
    HandledBy run (base.settle result) result := by
  cases result with
  | none => exact ⟨fun _ => ⟨rfl, hhistory, hserver⟩, nofun, harrivals, hdecrypto⟩
  | some outcome =>
    refine ⟨nofun, fun other heq => ?_, harrivals, hdecrypto⟩
    cases heq
    exact ⟨hcrashed, rfl, congrArg (· ++ outcome.entries) hhistory⟩

/-- A handler of a connection that has done something, or has not returned. -/
theorem handledBy_connection (run base : SnRun) (hhistory : base.history = run.history)
    (hcrashed : base.crashed = false)
    (harrivals : ∀ arrival ∈ base.arrivals, arrival ∈ run.arrivals)
    (hconnections : base.connections = run.connections) (outcome : SnOutcome) (connection : Nat)
    (hf : ∀ tcp, (f tcp).decryptoOption = tcp.decryptoOption) :
    HandledBy run ((base.settle (some outcome)).updateConnection connection f) (some outcome) := by
  refine ⟨nofun, fun other heq => ?_, harrivals, fun tcp htcp => ?_⟩
  · cases heq
    exact ⟨hcrashed, rfl, congrArg (· ++ outcome.entries) hhistory⟩
  · rcases mem_updateConnection htcp with hmem | ⟨other, hmem, rfl⟩
    · exact ⟨tcp, hconnections ▸ hmem, rfl⟩
    · exact ⟨other, hconnections ▸ hmem, hf other⟩

theorem handle_handling {server : SnServer} {now : Nat} (hcrashed : run.crashed = false)
    (hhandling : run.handling event = some (handling, server, now)) :
    ∃ next, handle config run event = some next ∧
      HandledBy run next (handling.perform config server now) := by
  obtain ⟨server₀, connections, work, immediates, crashed, history⟩ := run
  obtain rfl : crashed = false := hcrashed
  have hrest : ∀ (arrival : Arrival) (rest : List Arrival), ∀ other ∈ rest ++ immediates,
      other ∈ arrival :: rest ++ immediates := fun _ _ _ hmem => mem_cons_of_mem _ hmem
  have hsame : ∀ tcp ∈ connections, ∃ other ∈ connections,
      tcp.decryptoOption = other.decryptoOption := fun tcp hmem => ⟨tcp, hmem, rfl⟩
  cases event with
  | datagram | accept | firstBox | nextBox | timer | close => cases hhandling
  | dispatch =>
    cases work with
    | nil => cases hhandling
    | cons arrival rest =>
    obtain ⟨package, sender, channel⟩ := arrival
    refine ⟨_, rfl, ?_⟩
    cases channel with
    | udp localEndpoint remoteEndpoint =>
      obtain ⟨rfl, rfl, rfl⟩ := hhandling
      exact handledBy_settle
        ⟨server₀, connections, ⟨package, sender, .udp localEndpoint remoteEndpoint⟩ :: rest,
          immediates, false, history⟩
        ⟨server₀, connections, rest, immediates, false, history⟩ rfl rfl rfl (hrest _ rest) hsame _
    | tcp connection =>
      unfold SnRun.handling at hhandling
      dsimp only at hhandling
      split at hhandling
      case h_2 => cases hhandling
      case h_1 handler handlers decryptoOption hget =>
      split at hhandling
      case isFalse => cases hhandling
      case isTrue hcall =>
      obtain ⟨rfl, rfl, rfl⟩ := hhandling
      unfold dispatch
      dsimp only
      rw [hget]
      dsimp only
      rw [if_neg Bool.false_ne_true, hcall]
      dsimp only [SnHandling.perform]
      have hothers := hrest ⟨package, sender, .tcp connection⟩ rest
      cases server.packageHandle config now handler package false with
      | none => exact ⟨fun _ => ⟨rfl, rfl, rfl⟩, nofun, hothers, hsame⟩
      | some result =>
        exact handledBy_connection
          ⟨server, connections, ⟨package, sender, .tcp connection⟩ :: rest, immediates,
            false, history⟩
          ⟨server, connections, rest, immediates, false, history⟩ rfl rfl hothers rfl
          result.1 connection fun _ => rfl
  | immediate =>
    cases work with
    | cons => cases hhandling
    | nil =>
    cases immediates with
    | nil => cases hhandling
    | cons arrival rest =>
    obtain ⟨package, sender, channel⟩ := arrival
    refine ⟨_, rfl, ?_⟩
    cases channel with
    | udp => cases hhandling
    | tcp connection =>
      unfold SnRun.handling at hhandling
      dsimp only at hhandling
      split at hhandling
      case isFalse => cases hhandling
      case isTrue hcall =>
      obtain ⟨rfl, rfl, rfl⟩ := hhandling
      have hrest : ∀ other ∈ rest, other ∈ (⟨package, sender, .tcp connection⟩ :: rest) :=
        fun other hmem => mem_cons_of_mem _ hmem
      unfold SnRun.immediate
      rw [hcall]
      dsimp only [SnHandling.perform]
      cases server₀.openTransport.packageHandle config now
        { transport := server₀.transports.length } package true with
      | none => exact ⟨fun _ => ⟨rfl, rfl, rfl⟩, nofun, hrest, hsame⟩
      | some result =>
        exact handledBy_connection
          ⟨server₀, connections, [], ⟨package, sender, .tcp connection⟩ :: rest, false, history⟩
          ⟨server₀, connections, [], rest, false, history⟩ rfl rfl hrest rfl result.1
          connection fun _ => rfl

/-- What is received is to be handled, and nothing else becomes of it. -/
theorem receive_eq (run : SnRun) (sender : Peerid) (channel : SnChannel) (packages : List JsPackage)
    (exchange : Option (Peerid × List UInt8)) (keyHash : List UInt8 → List UInt8) :
    (run.receive sender channel packages exchange keyHash).crashed = run.crashed ∧
      (run.receive sender channel packages exchange keyHash).connections = run.connections ∧
      (run.receive sender channel packages exchange keyHash).arrivals =
        packages.map (fun package => ⟨package, sender, channel⟩) ++ run.immediates := by
  cases exchange <;> exact ⟨rfl, rfl, rfl⟩

variable {sender : Peerid} {channel : SnChannel}

theorem otherStep_received {packages : List JsPackage}
    {encrypt : Option PackageDecryptOptions} {exchange : Option (Peerid × List UInt8)}
    (hcrashed : run.crashed = false)
    (hreceiving : run.receiving config event =
      some (sender, channel, .packages packages encrypt exchange))
    (hserver : next.server = (run.receive sender channel packages exchange config.keyHash).server)
    (hhistory : next.history = (run.receive sender channel packages exchange config.keyHash).history)
    (hnext : next.crashed = (run.receive sender channel packages exchange config.keyHash).crashed)
    (harrivals : next.arrivals =
      (run.receive sender channel packages exchange config.keyHash).arrivals)
    (hdecrypto : ∀ tcp ∈ next.connections, tcp.decryptoOption = some encrypt ∨
      tcp ∈ (run.receive sender channel packages exchange config.keyHash).connections) :
    OtherStep config run event next := by
  obtain ⟨hsame, hconnections, hall⟩ :=
    receive_eq run sender channel packages exchange config.keyHash
  refine .received event next sender channel packages encrypt exchange hreceiving hserver hhistory
    (hnext.trans (hsame.trans hcrashed)) (fun arrival hmem => ?_) fun tcp hmem => ?_
  · rw [harrivals, hall] at hmem
    rcases mem_append.mp hmem with hnew | hold
    · obtain ⟨package, hpackage, rfl⟩ := mem_map.mp hnew
      exact .inr hpackage
    · exact .inl (mem_append_right _ hold)
  · rw [hconnections] at hdecrypto
    exact (hdecrypto tcp hmem).imp_right fun hold => ⟨tcp, hold, rfl⟩

theorem otherStep_decoded {decoded : SnDecoded} (hcrashed : run.crashed = false)
    (hreceiving : run.receiving config event = some (sender, channel, decoded)) :
    OtherStep config run event (run.decoded config sender channel decoded) := by
  cases decoded with
  | crash => exact .crash event sender channel hreceiving
  | failed =>
    exact .quiet event run rfl rfl hcrashed (fun _ hmem => hmem) fun tcp hmem => .inr ⟨tcp, hmem, rfl⟩
  | packages =>
    exact otherStep_received hcrashed hreceiving rfl rfl rfl rfl fun _ hmem => .inr hmem

section

variable (hnext : handle config run event = some next)
include hnext

theorem alive_of_handle : run.crashed = false := by
  cases hcrashed : run.crashed with
  | false => rfl
  | true =>
    unfold handle at hnext
    rw [if_pos hcrashed] at hnext
    cases hnext

theorem handle_other (hhandling : run.handling event = none) : OtherStep config run event next := by
  have hcrashed := alive_of_handle hnext
  have hquiet : ∀ next : SnRun, next.server = run.server → next.history = run.history →
      next.crashed = false → next.connections = run.connections →
      (∀ arrival ∈ next.arrivals, arrival ∈ run.arrivals) → OtherStep config run event next := by
    intro next hserver hhistory hcrashed hconnections harrivals
    exact .quiet event next hserver hhistory hcrashed harrivals fun tcp hmem =>
      .inr ⟨tcp, hconnections ▸ hmem, rfl⟩
  unfold handle at hnext
  rw [if_neg (by rw [hcrashed]; exact Bool.false_ne_true)] at hnext
  split at hnext
  case h_1 now arrival rest hwork =>
    have hrest : ∀ other ∈ rest ++ run.immediates, other ∈ run.arrivals := by
      intro other hmem
      unfold arrivals
      rw [hwork]
      exact mem_cons_of_mem _ hmem
    unfold handling at hhandling
    rw [hwork] at hhandling
    obtain ⟨package, sender, channel⟩ := arrival
    unfold dispatch at hnext
    cases channel with
    | udp => cases hhandling
    | tcp connection =>
      dsimp only at hhandling hnext
      have hdone := hquiet { run with work := rest } rfl rfl hcrashed rfl hrest
      cases hget : run.connections[connection]? with
      | none =>
        rw [hget] at hnext
        exact some.inj hnext ▸ hdone
      | some tcp =>
        obtain ⟨listening, handlers, decryptoOption⟩ := tcp
        rw [hget] at hhandling hnext
        cases listening with
        | true =>
          cases hnext
          refine hquiet _ rfl rfl hcrashed rfl fun other hmem => ?_
          have hmove : other ∈ rest ++ (run.immediates ++ [⟨package, sender, .tcp connection⟩]) :=
            hmem
          rw [← append_assoc, mem_append, mem_singleton] at hmove
          rcases hmove with hold | rfl
          · exact hrest other hold
          · unfold arrivals
            rw [hwork]
            exact mem_cons_self
        | false =>
          cases handlers with
          | nil =>
            cases hcall : package.cmdType <;> rw [hcall] at hnext <;>
              exact some.inj hnext ▸ hdone
          | cons =>
            cases hcall : package.cmdType with
            | snCallReq =>
              dsimp only at hhandling
              rw [if_pos hcall] at hhandling
              cases hhandling
            | snCalledResp | snPingReq =>
              rw [hcall] at hnext
              exact some.inj hnext ▸ hdone
  case h_2 sender localEndpoint remoteEndpoint box hwork =>
    cases hnext
    refine otherStep_decoded hcrashed ?_
    unfold receiving
    rw [hwork]
  case h_3 hwork =>
    cases hnext
    refine .quiet _ _ rfl rfl hcrashed (fun _ hmem => hmem) fun tcp hmem => ?_
    rcases mem_append.mp hmem with hmem | hmem
    · exact .inr ⟨tcp, hmem, rfl⟩
    · obtain rfl := mem_singleton.mp hmem
      exact .inl rfl
  case h_4 sender connection box hwork =>
    split at hnext
    case h_2 => cases hnext
    case h_1 listening handlers hget =>
    have hreceiving : run.receiving config (.firstBox sender connection box) =
        some (sender, .tcp connection, decodeBox config run.server.stores true box) := by
      unfold receiving
      rw [hwork]
      dsimp only
      rw [hget]
    have hstep := otherStep_decoded hcrashed hreceiving
    cases hdecoded : decodeBox config run.server.stores true box with
    | crash | failed =>
      rw [hdecoded] at hnext hstep
      exact some.inj hnext ▸ hstep
    | packages =>
      rw [hdecoded] at hnext hstep hreceiving
      cases hnext
      refine otherStep_received hcrashed hreceiving rfl rfl rfl rfl fun tcp hmem => ?_
      rcases mem_updateConnection hmem with hsame | ⟨other, -, rfl⟩
      · exact .inr hsame
      · exact .inl rfl
  case h_5 sender connection packages hwork =>
    split at hnext
    case h_1 listening handlers encrypt hget =>
      cases hnext
      refine otherStep_decoded hcrashed ?_
      unfold receiving
      rw [hwork]
      dsimp only
      rw [hget]
    case h_2 => cases hnext
  case h_6 now hwork =>
    unfold handling at hhandling
    cases himmediates : run.immediates with
    | nil =>
      rw [himmediates] at hnext
      cases hnext
    | cons arrival rest =>
      obtain ⟨package, sender, channel⟩ := arrival
      have hrest : ∀ other ∈ run.work ++ rest, other ∈ run.arrivals := by
        intro other hmem
        unfold arrivals
        rw [himmediates]
        exact (mem_append.mp hmem).elim (mem_append_left _) fun hold =>
          mem_append_right _ (mem_cons_of_mem _ hold)
      have hdone := hquiet { run with immediates := rest } rfl rfl hcrashed rfl hrest
      rw [himmediates] at hnext
      rw [hwork, himmediates] at hhandling
      unfold immediate at hnext
      cases channel with
      | udp => exact some.inj hnext ▸ hdone
      | tcp =>
        cases hcall : package.cmdType with
        | snCallReq =>
          dsimp only at hhandling
          rw [if_pos hcall] at hhandling
          cases hhandling
        | snCalledResp | snPingReq =>
          dsimp only at hnext
          rw [hcall] at hnext
          exact some.inj hnext ▸ hdone
  case h_7 now hwork =>
    cases hnext
    exact .timer now
  case h_8 connection hwork =>
    cases hnext
    refine .quiet _ _ rfl rfl hcrashed (fun _ hmem => hmem) fun tcp hmem => ?_
    rcases mem_updateConnection hmem with hsame | ⟨other, hother, rfl⟩
    · exact .inr ⟨tcp, hsame, rfl⟩
    · exact .inr ⟨other, hother, rfl⟩
  case h_9 => cases hnext

theorem handle_alive (hnot : next.crashed = false) :
    (∃ handling server now outcome, run.handling event = some (handling, server, now) ∧
      handling.perform config server now = some outcome ∧ HandledBy run next (some outcome)) ∨
    run.handling event = none ∧ OtherStep config run event next := by
  cases hhandling : run.handling event with
  | none => exact .inr ⟨rfl, handle_other hnext hhandling⟩
  | some handling =>
    obtain ⟨handling, server, now⟩ := handling
    obtain ⟨after, hafter, hby⟩ := handle_handling (alive_of_handle hnext) hhandling
    obtain rfl := some.inj (hafter.symm.trans hnext)
    cases hperform : handling.perform config server now with
    | none =>
      rw [(hby.crashed hperform).1] at hnot
      cases hnot
    | some outcome => exact .inl ⟨handling, server, now, outcome, rfl, hperform, hperform ▸ hby⟩

end

theorem handle_crash (hcrashed : run.crashed = false)
    (hreceiving : run.receiving config event = some (sender, channel, .crash)) :
    ∃ next, handle config run event = some next ∧ next.crashed = true := by
  unfold handle
  rw [if_neg (by rw [hcrashed]; exact Bool.false_ne_true)]
  unfold receiving at hreceiving
  split at hreceiving
  case h_1 hwork =>
    have hdecoded := congrArg (·.2.2) (some.inj hreceiving)
    dsimp only at hdecoded
    rw [hwork]
    dsimp only
    rw [hdecoded]
    exact ⟨_, rfl, rfl⟩
  case h_2 hwork =>
    split at hreceiving
    case h_1 hget =>
      have hdecoded := congrArg (·.2.2) (some.inj hreceiving)
      dsimp only at hdecoded
      rw [hwork]
      dsimp only
      rw [hget]
      rw [hdecoded]
      exact ⟨_, rfl, rfl⟩
    case h_2 => cases hreceiving
  case h_3 hwork =>
    split at hreceiving
    case h_1 hget =>
      have hdecoded := congrArg (·.2.2) (some.inj hreceiving)
      dsimp only at hdecoded
      rw [hwork]
      dsimp only
      rw [hget]
      dsimp only
      rw [hdecoded]
      exact ⟨_, rfl, rfl⟩
    case h_2 => cases hreceiving
  case h_4 => cases hreceiving

end SnRun

/-! ## What is received -/

section Decoders

variable {config : SnConfig} {stores : KeyStores} {tcp : Bool} {box : SnBox}
  {packages : List JsPackage} {encrypt : Option PackageDecryptOptions}
  {exchange : Option (Peerid × List UInt8)}

/-- The packages of a box are well formed, and have its key. -/
def WellReceived (packages : List JsPackage) (encrypt : Option PackageDecryptOptions) : Prop :=
  ∀ package ∈ packages, package.WellFormed ∧ package.encrypt = encrypt

variable {objects : List JsPackage}

theorem wellReceived_fill
    (h : ∀ package ∈ objects, package.WellFormed) (encrypt : Option PackageDecryptOptions) :
    WellReceived (fillEncrypt encrypt objects) encrypt := by
  intro package hmem
  obtain ⟨object, hobject, rfl⟩ := mem_map.mp hmem
  have hwell := h object hobject
  exact ⟨⟨hwell.fromPeerid, hwell.own, hwell.peerInfo, hwell.called⟩, rfl⟩

theorem wellFormed_fillSendTime (h : ∀ package ∈ objects, package.WellFormed) (sendTime : UInt64) :
    ∀ package ∈ fillSendTime sendTime objects, package.WellFormed := by
  unfold fillSendTime
  dsimp only
  split
  case isTrue =>
    intro package hmem
    obtain ⟨object, hobject, rfl⟩ := mem_map.mp hmem
    have hwell := h object hobject
    exact ⟨hwell.fromPeerid, hwell.own, hwell.peerInfo, hwell.called⟩
  case isFalse => exact h

theorem decodePackages_packages {received : List SnPackage} {key : Option PackageDecryptOptions}
    (h : decodePackages received key = .packages packages encrypt exchange) :
    encrypt = key ∧ exchange = none ∧ WellReceived packages key := by
  unfold decodePackages at h
  split at h
  case h_1 => cases h
  case h_2 => cases h
  case h_3 objects _ hobjects =>
    obtain ⟨rfl, rfl, rfl⟩ := SnDecoded.packages.inj h
    exact ⟨rfl, rfl, wellReceived_fill (wellFormed_c2js (c2js_of_decode hobjects)) _⟩

/-- The key of a box is one that is stored, or comes with an exchange. -/
theorem decodeBox_packages
    (h : decodeBox config stores tcp box = .packages packages encrypt exchange) :
    WellReceived packages encrypt ∧
      ((exchange = none ∧ ∀ key, encrypt = some key → key.newKey = false) ∨
        ∃ peerid key, exchange = some (peerid, key) ∧
          encrypt = some
            { key, keyHash := config.keyHash key, peerid := .buffer peerid, newKey := true }) := by
  cases box with
  | plain =>
    obtain ⟨hencrypt, hexchange, hwell⟩ := decodePackages_packages h
    subst hencrypt hexchange
    exact ⟨hwell, .inl ⟨rfl, fun key heq => by cases heq⟩⟩
  | keyHash =>
    rw [decodeBox] at h
    split at h
    case h_1 => cases h
    case h_2 stored hstored =>
    split at h
    case h_1 => cases h
    case h_2 received hcontent =>
    obtain ⟨hencrypt, hexchange, hwell⟩ := decodePackages_packages h
    subst hencrypt hexchange
    exact ⟨hwell, .inl ⟨rfl, fun key heq => some.inj heq ▸ rfl⟩⟩
  | exchangeKey key =>
    rw [decodeBox] at h
    split at h
    case h_1 peerid sendTime objects hpeerid hobjects =>
      split at h
      case isTrue =>
        obtain ⟨rfl, rfl, rfl⟩ := SnDecoded.packages.inj h
        have hwell := wellFormed_fillSendTime (wellFormed_c2js (c2js_of_decode hobjects)) sendTime
        exact ⟨wellReceived_fill hwell _, .inr ⟨peerid, key, rfl, rfl⟩⟩
      case isFalse => cases h
    case h_2 => cases h

/-- The packages of an event have the key of their box, or that of the first box of the connection. -/
theorem SnRun.receiving_packages {run : SnRun} {event : SnEvent} {sender : Peerid}
    {channel : SnChannel}
    (h : run.receiving config event = some (sender, channel, .packages packages encrypt exchange)) :
    WellReceived packages encrypt ∧
      ((exchange = none ∧ ∀ key, encrypt = some key → key.newKey = false) ∨
        (∃ peerid key, exchange = some (peerid, key) ∧
          encrypt = some
            { key, keyHash := config.keyHash key, peerid := .buffer peerid, newKey := true }) ∨
        (exchange = none ∧ ∃ tcp ∈ run.connections, tcp.decryptoOption = some encrypt)) := by
  unfold SnRun.receiving at h
  split at h
  case h_1 =>
    obtain ⟨hwell, hkey⟩ := decodeBox_packages (congrArg (·.2.2) (some.inj h))
    exact ⟨hwell, hkey.imp_right .inl⟩
  case h_2 =>
    split at h
    case h_2 => cases h
    case h_1 =>
      obtain ⟨hwell, hkey⟩ := decodeBox_packages (congrArg (·.2.2) (some.inj h))
      exact ⟨hwell, hkey.imp_right .inl⟩
  case h_3 =>
    split at h
    case h_2 => cases h
    case h_1 key hget =>
      obtain ⟨rfl, rfl, hwell⟩ := decodePackages_packages (congrArg (·.2.2) (some.inj h))
      exact ⟨hwell, .inr (.inr ⟨rfl, _, mem_of_getElem? hget, rfl⟩)⟩
  case h_4 => cases h

/-- The bridge has a place for each package that the decoder finds, and no peer info is missing. -/
def SnBox.decodable (stores : KeyStores) (tcp : Bool) : SnBox → Bool
  | .plain packages => Bdt.decodable 0 packages
  | .keyHash hash content =>
    ((stores.queryKey tcp hash).bind (content ·.key)).all (Bdt.decodable 0)
  | .exchangeKey _ _ exchange _ packages => exchange.peerInfo.isSome && Bdt.decodable 1 packages

theorem decodePackages_crash (received : List SnPackage) (key : Option PackageDecryptOptions) :
    decodePackages received key = .crash ↔ decodable 0 received = false := by
  rw [← decode_isSome]
  unfold decodePackages
  split
  case h_1 hnone => rw [hnone]; exact iff_of_true rfl rfl
  case h_2 hnil => rw [hnil]; exact iff_of_false nofun nofun
  case h_3 hsome => rw [hsome]; exact iff_of_false nofun nofun

/-- The bridge crashes if and only if it has no place for a package, or a peer info is missing. -/
theorem decodeBox_crash (config : SnConfig) (stores : KeyStores) (tcp : Bool) (box : SnBox) :
    decodeBox config stores tcp box = .crash ↔ box.decodable stores tcp = false := by
  cases box with
  | plain received => exact decodePackages_crash received none
  | keyHash hash content =>
    rw [decodeBox, SnBox.decodable]
    cases stores.queryKey tcp hash with
    | none => simp
    | some stored =>
      dsimp only [bind_some]
      cases content stored.key with
      | none => simp
      | some received => exact decodePackages_crash received _
  | exchangeKey _ _ exchange _ received =>
    rw [decodeBox, SnBox.decodable, ← decode_isSome, exchangeKeyC2js]
    cases exchange.peerInfo with
    | none => exact iff_of_true rfl rfl
    | some =>
      cases decode 1 received with
      | none => exact iff_of_true rfl rfl
      | some =>
        dsimp only [map_some]
        split <;> simp

end Decoders

/-! ## A small super node -/

/-- Every key is its own hash. -/
def smallConfig : SnConfig where
  timeout := 60000
  defaultInterval := 500
  maxTimes := 4
  keyHash := id

/-- A peerid of equal bytes. -/
def smallPeerid (byte : UInt8) : Peerid :=
  ⟨List.replicate BDT_PEERID_LENGTH byte, length_replicate⟩

/-- 127.0.0.1 over UDP. -/
def smallEndpoint (port : UInt16) : BdtEndpoint where
  flag := 4 ||| BDT_ENDPOINT_IP_VERSION_4
  port := port
  address := ⟨[127, 0, 0, 1] ++ List.replicate 12 0, rfl⟩

def smallPeerInfo (byte : UInt8) : PeerInfo where
  fields :=
    { peerid := smallPeerid byte
      constInfo :=
        { areaCode := { continent := 0, country := 0, carrier := 0, city := 0, inner := 0 }
          deviceId := ⟨List.replicate BDT_MAX_DEVICE_ID_LENGTH 0, length_replicate⟩
          publicKeyType := 0
          publicKey := ⟨List.replicate BDT_PEER_PUBLIC_KEY_LENTGH_RSA3072 0, length_replicate⟩ }
      signature := ⟨List.replicate BDT_PEER_LENGTH_SIGNATRUE 0, length_replicate⟩ }
  snInfoList := []

end Bdt
