import Bdt.Base.InsertionMap
import Bdt.Base.Utf8
import Bdt.SuperNode.Package

/-!
# Crypto sessions

A model of `SingleKeyCryptoSession` in `crypto_helper.ts`, of the keys of the interfaces in
`udp_interface.ts` and `tcp_interface.ts`, and of `PeerHistoryManagerImpl.addKey` in
`peer_history.ts`. The UDP interfaces have their keys from the history, and all the same ones; the
TCP interfaces share those of the listener. What `none` stands for is said at each function.
-/

namespace Bdt

open Base

/-- `SingleKeyCryptoSessionState`. -/
inductive CryptoSessionState where
  | none
  | keyCreated
  | keyUntrust
  | keyExchanged
  deriving DecidableEq

/-- `SingleKeyCryptoSession`. -/
structure CryptoSession where
  remote : JsPeerid
  state : CryptoSessionState := .none
  key : Option (List UInt8) := Option.none
  keyHash : Option (List UInt8) := Option.none
  /-- `m_interface` is set. -/
  attached : Bool := false
  deriving DecidableEq

/-- A key with the peerid that it is stored for. -/
structure StoredKey where
  key : List UInt8
  peerid : JsPeerid
  deriving DecidableEq

/-- A map of keys by `keyHash.toString()`, which may be the same for several hashes. -/
abbrev StoredKeys : Type :=
  List (List Char × StoredKey)

/-- The keys of the history and of the interfaces. -/
structure KeyStores where
  hash2Keys : StoredKeys := []
  udpKeys : StoredKeys := []
  tcpKeys : StoredKeys := []
  deriving DecidableEq

namespace KeyStores

/-- A key is put where its hash is not known, as `UDPNetworkInterface.addKey` and the listener do. -/
def addMissing (keys : StoredKeys) (strHash : List Char) (stored : StoredKey) : StoredKeys :=
  if (mapGet keys strHash).isSome then keys else mapSet keys strHash stored

/-- `PeerHistoryManagerImpl.addKey`, with what `keyAdded` does. -/
def addKey (stores : KeyStores) (peerid : JsPeerid) (hash key : List UInt8) : KeyStores :=
  let strHash := decodeUtf8 hash
  if (mapGet stores.hash2Keys strHash).isSome then stores
  else
    { hash2Keys := mapSet stores.hash2Keys strHash { key, peerid }
      udpKeys := addMissing stores.udpKeys strHash { key, peerid }
      tcpKeys := addMissing stores.tcpKeys strHash { key, peerid } }

/-- `addKey` of an interface. That of TCP replaces a key. -/
def addInterfaceKey (stores : KeyStores) (tcp : Bool) (peerid : JsPeerid) (hash key : List UInt8) :
    KeyStores :=
  if tcp then { stores with tcpKeys := mapSet stores.tcpKeys (decodeUtf8 hash) { key, peerid } }
  else { stores with udpKeys := addMissing stores.udpKeys (decodeUtf8 hash) { key, peerid } }

/-- `queryKey` of an interface. -/
def queryKey (stores : KeyStores) (tcp : Bool) (hash : List UInt8) : Option StoredKey :=
  mapGet (if tcp then stores.tcpKeys else stores.udpKeys) (decodeUtf8 hash)

end KeyStores

/-- What `onRecvPackage` comes to. -/
structure RecvResult where
  session : CryptoSession
  stores : KeyStores
  /-- `ErrorCode.success`; the other result is `ErrorCode.invalidPkg`. -/
  accepted : Bool

namespace CryptoSession

/-- `clone`; `none` stands for its assertion. -/
def clone (session : CryptoSession) : Option CryptoSession :=
  if session.attached then .none else some { session with attached := false }

/-- `setInterface`, with an interface that may be `undefined`; `none` stands for its assertion, and for
an interface that is missing when it has to take the key. -/
def setInterface (session : CryptoSession) (stores : KeyStores) (tcp present : Bool) :
    Option (CryptoSession × KeyStores) :=
  if session.attached then .none
  else if session.state = .none then some ({ session with attached := present }, stores)
  else if present then
    some ({ session with attached := true },
      stores.addInterfaceKey tcp session.remote (session.keyHash.getD []) (session.key.getD []))
  else .none

/-- `onRecvPackage` of a package that is encrypted; `none` stands for the exception of `equal`. -/
def onRecvPackage (session : CryptoSession) (stores : KeyStores) (tcp : Bool)
    (encrypt : PackageDecryptOptions) : Option RecvResult :=
  if session.state ≠ .keyExchanged then
    let keyed := { session with key := some encrypt.key, keyHash := some encrypt.keyHash }
    let exchanged := { keyed with state := .keyExchanged }
    let attach (stores : KeyStores) :=
      if session.attached then
        stores.addInterfaceKey tcp encrypt.peerid encrypt.keyHash encrypt.key
      else stores
    if encrypt.newKey then
      some
        { session := exchanged
          stores := attach (stores.addKey session.remote encrypt.keyHash encrypt.key)
          accepted := true }
    else
      match session.remote.equal encrypt.peerid with
      | .none => .none
      | some false => some { session := keyed, stores, accepted := false }
      | some true => some { session := exchanged, stores := attach stores, accepted := true }
  else some { session, stores, accepted := session.keyHash = some encrypt.keyHash }

/-! ## What a package does to a session -/

variable {session : CryptoSession} {stores : KeyStores} {tcp : Bool} {encrypt : PackageDecryptOptions}
  {received : RecvResult}

theorem onRecvPackage_exchanged (h : session.state = .keyExchanged) :
    session.onRecvPackage stores tcp encrypt =
      some { session, stores, accepted := session.keyHash = some encrypt.keyHash } := by
  unfold onRecvPackage
  rw [if_neg (not_not_intro h)]

theorem onRecvPackage_newKey (h : session.state ≠ .keyExchanged) (hnew : encrypt.newKey = true) :
    ∃ stores', session.onRecvPackage stores tcp encrypt =
      some
        { session :=
            { session with
              state := .keyExchanged, key := some encrypt.key, keyHash := some encrypt.keyHash }
          stores := stores'
          accepted := true } := by
  unfold onRecvPackage
  rw [if_pos h]
  rw [if_pos hnew]
  exact ⟨_, rfl⟩

theorem stores_of_rejected (h : session.onRecvPackage stores tcp encrypt = some received)
    (hnot : received.accepted = false) : received.stores = stores := by
  unfold onRecvPackage at h
  split at h
  · dsimp only at h
    split at h
    · cases h
      cases hnot
    split at h
    · cases h
    · exact Option.some.inj h ▸ rfl
    · cases h
      cases hnot
  · exact Option.some.inj h ▸ rfl

end CryptoSession

end Bdt
