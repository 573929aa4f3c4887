import Bdt.Base.InsertionMap
import Bdt.Base.Transition
import Bdt.Base.Utf8
import Bdt.Global.Peerid

/-!
# The key stores of a super node

A model of the keys in `peer_history.ts`, `udp_interface.ts` and `tcp_interface.ts`, which are maps by
`keyHash.toString()`. What a buffer becomes by that is `decodeUtf8`, and `Buffer.from` of a string is
`encodeUtf8`. The peers are known by the hexadecimal digits of their peerids, which are as good as the
peerids.

`keyStores_iff` says when the stores find the keys that were added.
-/

namespace Bdt

open Base List

/-- `PackageCrypto.keyHashLength` bytes. -/
abbrev KeyHash : Type :=
  Bytes 8

/-- `keyHash.toString()`. -/
def KeyHash.toStr (keyHash : KeyHash) : List Char :=
  decodeUtf8 keyHash.1

structure PeerAndKey where
  peerid : Peerid
  key : List UInt8
  deriving DecidableEq

/-- A key of the map that `getKey` returns. -/
inductive KeysKey where
  | buffer (keyHash : KeyHash)
  | string (strHash : List Char)
  deriving DecidableEq

/-- `Buffer.from`. -/
def KeysKey.bufferFrom : KeysKey → List UInt8
  | .buffer keyHash => keyHash.1
  | .string strHash => encodeUtf8 strHash

/-! ## The history -/

/-- `PeerHistoryManagerImpl`. -/
structure PeerHistoryManagerImpl where
  hash2Keys : List (List Char × PeerAndKey) := []
  peerKeyHashes : List (Peerid × List (List Char)) := []

/-- What `createKey` returns. -/
structure CreateKeyResult where
  keyHash : List UInt8
  key : List UInt8
  newKey : Bool
  deriving DecidableEq

namespace PeerHistoryManagerImpl

/-- `getKey`; `none` stands for the exception of `undefined!.key`. With a peerid and a hash it looks
for the buffer of the hash in the map, whose keys are strings. -/
def getKey (manager : PeerHistoryManagerImpl) (peerid : Option Peerid) (keyHash : Option KeyHash) :
    Option (List (KeysKey × PeerAndKey)) :=
  match peerid with
  | some peerid =>
    match mapGet manager.peerKeyHashes peerid with
    | none => some []
    | some peerKeys =>
      match keyHash with
      | some keyHash => if keyHash.toStr ∈ peerKeys then none else some []
      | none =>
        peerKeys.mapM fun hash =>
          (mapGet manager.hash2Keys hash).map fun found =>
            (.string hash, { peerid, key := found.key })
  | none =>
    match keyHash with
    | some keyHash =>
      some ((mapGet manager.hash2Keys keyHash.toStr).toList.map fun found =>
        (.buffer keyHash, found))
    | none => some (manager.hash2Keys.map fun entry => (.string entry.1, entry.2))

/-- `addKey`. -/
def addKey (manager : PeerHistoryManagerImpl) (peerid : Peerid) (keyHash : KeyHash)
    (key : List UInt8) : PeerHistoryManagerImpl :=
  let strHash := keyHash.toStr
  if (mapGet manager.hash2Keys strHash).isSome then manager
  else
    let peerKeys := (mapGet manager.peerKeyHashes peerid).getD []
    { hash2Keys := mapSet manager.hash2Keys strHash { peerid, key }
      peerKeyHashes := mapSet manager.peerKeyHashes peerid
        (if strHash ∈ peerKeys then peerKeys else peerKeys ++ [strHash]) }

/-- `createKey`, with the random bytes for a key. -/
def createKey (hash : List UInt8 → KeyHash) (manager : PeerHistoryManagerImpl) (peerid : Peerid)
    (randomBytes : List UInt8) : Option (PeerHistoryManagerImpl × CreateKeyResult) :=
  (manager.getKey (some peerid) none).map fun keys =>
    match keys with
    | (keyHash, found) :: _ =>
      (manager, { keyHash := keyHash.bufferFrom, key := found.key, newKey := false })
    | [] =>
      (manager.addKey peerid (hash randomBytes) randomBytes,
        { keyHash := (hash randomBytes).1, key := randomBytes, newKey := true })

end PeerHistoryManagerImpl

/-! ## The interfaces -/

structure UDPKeyStub where
  key : List UInt8
  peerid : Peerid
  ref : Nat

/-- `m_keys` of a `UDPNetworkInterface`. -/
abbrev UDPKeys : Type :=
  List (List Char × UDPKeyStub)

namespace UDPKeys

def addKey (keys : UDPKeys) (peerid : Peerid) (keyHash : KeyHash) (key : List UInt8) : UDPKeys :=
  match mapGet keys keyHash.toStr with
  | some stub => mapSet keys keyHash.toStr { stub with ref := stub.ref + 1 }
  | none => mapSet keys keyHash.toStr { key, peerid, ref := 1 }

/-- `removeKey`; nothing is changed when it fails its assertion. -/
def removeKey (keys : UDPKeys) (keyHash : KeyHash) : UDPKeys :=
  match mapGet keys keyHash.toStr with
  | none => keys
  | some stub =>
    if stub.ref - 1 = 0 then mapDelete keys keyHash.toStr
    else mapSet keys keyHash.toStr { stub with ref := stub.ref - 1 }

def queryKey (keys : UDPKeys) (keyHash : KeyHash) : Option PeerAndKey :=
  (mapGet keys keyHash.toStr).map fun stub => { peerid := stub.peerid, key := stub.key }

/-- The references of a key, none where there is no stub. -/
def ref (keys : UDPKeys) (strHash : List Char) : Nat :=
  ((mapGet keys strHash).map (·.ref)).getD 0

/-- Every stub has a reference. -/
def Counted (keys : UDPKeys) : Prop :=
  ∀ strHash stub, mapGet keys strHash = some stub → 0 < stub.ref

variable {keys : UDPKeys} {peerid : Peerid} {keyHash : KeyHash} {key : List UInt8}

theorem ref_addKey (keys : UDPKeys) (peerid : Peerid) (keyHash : KeyHash) (key : List UInt8)
    (strHash : List Char) : (keys.addKey peerid keyHash key).ref strHash =
      keys.ref strHash + if keyHash.toStr = strHash then 1 else 0 := by
  unfold ref addKey
  by_cases heq : keyHash.toStr = strHash
  · subst heq
    cases mapGet keys keyHash.toStr <;> simp [mapGet_set]
  · cases mapGet keys keyHash.toStr <;> simp [mapGet_set, heq]

theorem Counted.addKey (h : keys.Counted) : (keys.addKey peerid keyHash key).Counted := by
  intro strHash stub hget
  unfold UDPKeys.addKey at hget
  split at hget <;> rw [mapGet_set] at hget <;> split at hget
  all_goals first
    | exact h strHash stub hget
    | cases hget; exact Nat.succ_pos _

theorem Counted.removeKey (h : keys.Counted) : (keys.removeKey keyHash).Counted := by
  intro strHash stub hget
  unfold UDPKeys.removeKey at hget
  split at hget
  · exact h strHash stub hget
  split at hget
  · rw [mapGet_delete] at hget
    split at hget
    · cases hget
    · exact h strHash stub hget
  case isFalse hlast =>
  rw [mapGet_set] at hget
  split at hget
  · cases hget
    exact Nat.pos_of_ne_zero hlast
  · exact h strHash stub hget

theorem Counted.ref_removeKey (h : keys.Counted) (keyHash : KeyHash) (strHash : List Char) :
    (keys.removeKey keyHash).ref strHash =
      keys.ref strHash - if keyHash.toStr = strHash then 1 else 0 := by
  unfold ref UDPKeys.removeKey
  by_cases heq : keyHash.toStr = strHash
  · subst heq
    cases hget : mapGet keys keyHash.toStr with
    | none => simp [hget]
    | some =>
      dsimp only
      split
      · simpa [mapGet_delete] using by omega
      · simp [mapGet_set]
  cases mapGet keys keyHash.toStr with
  | none => simp [heq]
  | some =>
    dsimp only
    split <;> simp [mapGet_set, mapGet_delete, heq]

theorem Counted.query (h : keys.Counted) (keyHash : KeyHash) :
    (keys.queryKey keyHash).isSome ↔ 0 < keys.ref keyHash.toStr := by
  unfold queryKey ref
  rw [Option.isSome_map]
  cases hget : mapGet keys keyHash.toStr with
  | none => simp
  | some => simpa using h _ _ hget

end UDPKeys

/-- `m_keys` of a `TCPNetworkInterface`. -/
abbrev TCPKeys : Type :=
  List (List Char × PeerAndKey)

namespace TCPKeys

def addKey (keys : TCPKeys) (peerid : Peerid) (keyHash : KeyHash) (key : List UInt8) : TCPKeys :=
  mapSet keys keyHash.toStr { peerid, key }

def queryKey (keys : TCPKeys) (keyHash : KeyHash) : Option PeerAndKey :=
  mapGet keys keyHash.toStr

end TCPKeys

/-! ## The runs -/

inductive KeyStoreCall where
  | addKey (peerid : Peerid) (keyHash : KeyHash) (key : List UInt8)
  | createKey (peerid : Peerid) (randomBytes : List UInt8)
  | getKey (peerid : Option Peerid) (keyHash : Option KeyHash)
  | udpAddKey (peerid : Peerid) (keyHash : KeyHash) (key : List UInt8)
  | udpRemoveKey (keyHash : KeyHash)
  | tcpAddKey (peerid : Peerid) (keyHash : KeyHash) (key : List UInt8)

/-- What a call has returned, with the keys that were there. -/
inductive KeyStoreAnswer where
  /-- `createKey`; `none` if it threw. -/
  | created (had : List (KeyHash × PeerAndKey)) (result : Option CreateKeyResult)
  /-- A lookup by a peerid and a hash: whether the map that it returned has a key. -/
  | found (had : Bool) (result : Option Bool)
  deriving DecidableEq

/-- A peer that has a key gets one that it has. -/
def KeyStoreAnswer.Right : KeyStoreAnswer → Prop
  | .created had result =>
    had ≠ [] → ∃ entry ∈ had, result =
      some { keyHash := entry.1.1, key := entry.2.key, newKey := false }
  | .found had result => result = some had

/-- The stores, the keys that were added by their hashes, and what was answered. A hash that the
history has keeps its key; the UDP interface has a hash as often as it was added and not removed. -/
structure KeyStoreRun where
  history : PeerHistoryManagerImpl := {}
  udpKeys : UDPKeys := []
  tcpKeys : TCPKeys := []
  added : List (KeyHash × PeerAndKey) := []
  udpAdded : List KeyHash := []
  tcpAdded : List KeyHash := []
  answers : List KeyStoreAnswer := []

namespace KeyStoreRun

/-- A key is added, unless there is one with its hash. -/
def addKept (added : List (KeyHash × PeerAndKey)) (keyHash : KeyHash) (found : PeerAndKey) :
    List (KeyHash × PeerAndKey) :=
  if (mapGet added keyHash).isSome then added else added ++ [(keyHash, found)]

/-- The keys of a peer among those that were added. -/
def ofPeer (added : List (KeyHash × PeerAndKey)) (peerid : Peerid) : List (KeyHash × PeerAndKey) :=
  added.filter fun entry => entry.2.peerid = peerid

def next (hash : List UInt8 → KeyHash) (run : KeyStoreRun) : KeyStoreCall → Option KeyStoreRun
  | .addKey peerid keyHash key =>
    some { run with
      history := run.history.addKey peerid keyHash key
      added := addKept run.added keyHash { peerid, key } }
  | .createKey peerid randomBytes =>
    let created := run.history.createKey hash peerid randomBytes
    some { run with
      history := (created.map (·.1)).getD run.history
      added :=
        if created.any (·.2.newKey) then
          addKept run.added (hash randomBytes) { peerid, key := randomBytes }
        else run.added
      answers := run.answers ++ [.created (ofPeer run.added peerid) (created.map (·.2))] }
  | .getKey (some peerid) (some keyHash) =>
    some { run with
      answers := run.answers ++ [.found ((ofPeer run.added peerid).any (·.1 = keyHash))
        ((run.history.getKey (some peerid) (some keyHash)).map fun keys => !keys.isEmpty)] }
  | .getKey _ _ => some run
  | .udpAddKey peerid keyHash key =>
    some { run with
      udpKeys := run.udpKeys.addKey peerid keyHash key
      udpAdded := run.udpAdded ++ [keyHash] }
  | .udpRemoveKey keyHash =>
    some { run with
      udpKeys := run.udpKeys.removeKey keyHash
      udpAdded := run.udpAdded.erase keyHash }
  | .tcpAddKey peerid keyHash key =>
    some { run with
      tcpKeys := run.tcpKeys.addKey peerid keyHash key
      tcpAdded := run.tcpAdded ++ [keyHash] }

/-- Every lookup by a hash finds the key that was added with it, and what was answered is right. -/
structure Sound (run : KeyStoreRun) : Prop where
  history : ∀ keyHash, run.history.getKey none (some keyHash) =
    some ((mapGet run.added keyHash).toList.map fun found => (.buffer keyHash, found))
  udp : ∀ keyHash, (run.udpKeys.queryKey keyHash).isSome ↔ keyHash ∈ run.udpAdded
  tcp : ∀ keyHash, (run.tcpKeys.queryKey keyHash).isSome ↔ keyHash ∈ run.tcpAdded
  answers : ∀ answer ∈ run.answers, answer.Right

/-- There is no U+FFFD in what `toString` makes of a hash: it is UTF-8, and has none itself. -/
def Textual (keyHash : KeyHash) : Prop :=
  replacementCharacter ∉ keyHash.toStr

/-- Only hashes that are text are added, and no key that a peer has is asked for with the peer. -/
def Keeps (hash : List UInt8 → KeyHash) (run : KeyStoreRun) : KeyStoreCall → Prop
  | .addKey _ keyHash _ | .udpAddKey _ keyHash _ | .tcpAddKey _ keyHash _ => Textual keyHash
  | .createKey peerid randomBytes => ofPeer run.added peerid = [] → Textual (hash randomBytes)
  | .getKey (some peerid) (some keyHash) => ∀ entry ∈ ofPeer run.added peerid, entry.1 ≠ keyHash
  | .getKey _ _ | .udpRemoveKey _ => True

/-! ## The hashes as strings -/

theorem toStr_inj {left right : KeyHash} (h : Textual left) (heq : right.toStr = left.toStr) :
    right = left := by
  have hright : Textual right := fun hmem => h (heq ▸ hmem)
  exact Subtype.ext ((encode_decode hright).symm.trans
    ((congrArg encodeUtf8 heq).trans (encode_decode h)))

variable {keyHash : KeyHash}

/-- A hash that is not text has the string of another one. -/
theorem exists_other (h : ¬ Textual keyHash) :
    ∃ other : KeyHash, other ≠ keyHash ∧ other.toStr = keyHash.toStr := by
  obtain ⟨other, hne, hlength, heq⟩ := exists_collision (Classical.not_not.mp h)
  exact ⟨⟨other, hlength.trans keyHash.2⟩, fun hsame => hne (congrArg Subtype.val hsame), heq⟩

variable {other : KeyHash}

theorem toStr_ne (h : Textual keyHash) (hother : ¬ Textual other) : keyHash.toStr ≠ other.toStr :=
  fun heq => hother fun hmem => h (heq ▸ hmem)

theorem toStr_eq_iff (h : Textual keyHash) : keyHash.toStr = other.toStr ↔ keyHash = other :=
  ⟨fun heq => (toStr_inj h heq.symm).symm, congrArg KeyHash.toStr⟩

/-! ## The keys of the history -/

variable {history : PeerHistoryManagerImpl} {added : List (KeyHash × PeerAndKey)}
  {peerid : Peerid} {keyHash : KeyHash} {key : List UInt8}

/-- The history has the keys that were added, and no two of their hashes are the same. -/
structure Stored (history : PeerHistoryManagerImpl) (added : List (KeyHash × PeerAndKey)) :
    Prop where
  textual : ∀ entry ∈ added, Textual entry.1
  nodup : (added.map (·.1)).Nodup
  hash2Keys : history.hash2Keys = added.map fun entry => (entry.1.toStr, entry.2)
  peerKeyHashes : ∀ peerid, (mapGet history.peerKeyHashes peerid).getD [] =
    (ofPeer added peerid).map (·.1.toStr)

theorem mapGet_toStr (h : ∀ entry ∈ added, Textual entry.1) (keyHash : KeyHash) :
    mapGet (added.map fun entry => (entry.1.toStr, entry.2)) keyHash.toStr =
      mapGet added keyHash := by
  induction added with
  | nil => rfl
  | cons entry _ ih =>
    rw [map_cons, mapGet_cons, mapGet_cons, ih fun other hmem => h other (.tail _ hmem)]
    simp only [toStr_eq_iff (h entry mem_cons_self)]

theorem Stored.get (h : Stored history added) (keyHash : KeyHash) :
    mapGet history.hash2Keys keyHash.toStr = mapGet added keyHash := by
  rw [h.hash2Keys, mapGet_toStr h.textual]

theorem mapGet_of_mem (h : (added.map (·.1)).Nodup) {entry : KeyHash × PeerAndKey}
    (hmem : entry ∈ added) : mapGet added entry.1 = some entry.2 := by
  induction added with
  | nil => cases hmem
  | cons first _ ih =>
    obtain ⟨hfirst, hrest⟩ := nodup_cons.mp h
    rw [mapGet_cons]
    rcases mem_cons.mp hmem with rfl | hmem
    · exact if_pos rfl
    have hne : first.1 ≠ entry.1 := fun heq =>
      hfirst (mem_map.mpr ⟨entry, hmem, heq.symm⟩)
    rw [if_neg hne]
    exact ih hrest hmem

theorem addKept_of_none (h : mapGet added keyHash = none) (found : PeerAndKey) :
    addKept added keyHash found = added ++ [(keyHash, found)] := by
  unfold addKept
  rw [h]
  rfl

/-- The keys that are there when one is added, and no others but that one. -/
theorem mapGet_addKept_ne (h : keyHash ≠ other) (found : PeerAndKey) :
    mapGet (addKept added keyHash found) other = mapGet added other := by
  unfold addKept
  split
  · rfl
  · rw [mapGet_append, mapGet_cons, if_neg h]
    exact Option.or_none

section

variable (h : Stored history added)
include h

theorem Stored.add (htext : Textual keyHash) :
    Stored (history.addKey peerid keyHash key) (addKept added keyHash { peerid, key }) := by
  unfold PeerHistoryManagerImpl.addKey
  dsimp only
  cases hget : mapGet added keyHash with
  | some =>
    rw [h.get, hget]
    simpa [addKept, hget] using h
  | none =>
    have hnew : ∀ entry ∈ added, entry.1 ≠ keyHash := by
      rintro entry hmem rfl
      rw [mapGet_of_mem h.nodup hmem] at hget
      cases hget
    rw [addKept_of_none hget, h.get, hget]
    constructor
    · intro entry hmem
      rcases mem_concat.mp hmem with hmem | hmem
      · exact h.textual entry hmem
      · exact hmem ▸ htext
    · rw [map_append]
      refine nodup_append.mpr ⟨h.nodup, by simp, ?_⟩
      intro other hother new hnewest heq
      obtain ⟨entry, hmem, rfl⟩ := mem_map.mp hother
      exact hnew entry hmem (heq.trans (mem_singleton.mp hnewest))
    · show mapSet _ _ _ = _
      unfold mapSet
      rw [h.get, hget, h.hash2Keys, map_append]
      rfl
    intro other
    have hfresh : keyHash.toStr ∉ (ofPeer added peerid).map (·.1.toStr) := by
      intro hmem
      obtain ⟨entry, hentry, heq⟩ := mem_map.mp hmem
      exact hnew entry (mem_filter.mp hentry).1 (toStr_inj htext heq)
    show (mapGet (mapSet _ _ _) other).getD [] = _
    rw [mapGet_set, h.peerKeyHashes, if_neg hfresh]
    have hother := h.peerKeyHashes other
    unfold ofPeer at *
    rw [filter_append, map_append]
    by_cases heq : peerid = other
    · subst heq
      simp
    · simpa [heq] using hother

theorem mapM_found :
    ((ofPeer added peerid).map (·.1.toStr)).mapM (fun hash =>
      (mapGet history.hash2Keys hash).map fun found =>
        (KeysKey.string hash, ({ peerid, key := found.key } : PeerAndKey))) =
      some ((ofPeer added peerid).map fun entry =>
        (KeysKey.string entry.1.toStr, { peerid, key := entry.2.key })) := by
  have hall : ∀ entry ∈ ofPeer added peerid, mapGet history.hash2Keys entry.1.toStr =
      some entry.2 := fun entry hmem =>
    (h.get _).trans (mapGet_of_mem h.nodup (mem_filter.mp hmem).1)
  generalize ofPeer added peerid = entries at hall ⊢
  induction entries with
  | nil => rfl
  | cons entry _ ih =>
    rw [map_cons, mapM_cons, hall entry mem_cons_self,
      ih fun other hmem => hall other (.tail _ hmem)]
    rfl

theorem Stored.getKey_peer (peerid : Peerid) :
    history.getKey (some peerid) none = some ((ofPeer added peerid).map fun entry =>
      (.string entry.1.toStr, { peerid, key := entry.2.key })) := by
  have hkeys := h.peerKeyHashes peerid
  unfold PeerHistoryManagerImpl.getKey
  dsimp only
  cases hget : mapGet history.peerKeyHashes peerid with
  | none =>
    rw [hget] at hkeys
    rw [map_eq_nil_iff.mp hkeys.symm]
    rfl
  | some peerKeys =>
    rw [hget] at hkeys
    obtain rfl : peerKeys = _ := hkeys
    exact mapM_found h

theorem Stored.getKey_both (peerid : Peerid) (keyHash : KeyHash) :
    history.getKey (some peerid) (some keyHash) =
      if (ofPeer added peerid).any (·.1 = keyHash) then none else some [] := by
  have hmem : keyHash.toStr ∈ (mapGet history.peerKeyHashes peerid).getD [] ↔
      (ofPeer added peerid).any (·.1 = keyHash) = true := by
    rw [h.peerKeyHashes, mem_map, any_eq_true]
    refine exists_congr fun entry => and_congr_right fun hentry => ?_
    rw [toStr_eq_iff (h.textual entry (mem_filter.mp hentry).1), decide_eq_true_iff]
  unfold PeerHistoryManagerImpl.getKey
  dsimp only
  cases hget : mapGet history.peerKeyHashes peerid with
  | none =>
    rw [hget] at hmem
    rw [if_neg fun hany => by cases hmem.mpr hany]
  | some =>
    rw [hget] at hmem
    simp only [← hmem, Option.getD_some]

theorem Stored.createKey_kept {entry : KeyHash × PeerAndKey}
    {rest : List (KeyHash × PeerAndKey)} (hkeys : ofPeer added peerid = entry :: rest)
    (hash : List UInt8 → KeyHash) (randomBytes : List UInt8) :
    history.createKey hash peerid randomBytes =
      some (history, { keyHash := entry.1.1, key := entry.2.key, newKey := false }) := by
  have hmem : entry ∈ ofPeer added peerid := hkeys ▸ mem_cons_self
  have hback : encodeUtf8 entry.1.toStr = entry.1.1 :=
    encode_decode (h.textual entry (mem_filter.mp hmem).1)
  unfold PeerHistoryManagerImpl.createKey
  rw [h.getKey_peer, hkeys, ← hback]
  rfl

theorem Stored.createKey_new (hkeys : ofPeer added peerid = [])
    (hash : List UInt8 → KeyHash) (randomBytes : List UInt8) :
    history.createKey hash peerid randomBytes =
      some (history.addKey peerid (hash randomBytes) randomBytes,
        { keyHash := (hash randomBytes).1, key := randomBytes, newKey := true }) := by
  unfold PeerHistoryManagerImpl.createKey
  rw [h.getKey_peer, hkeys]
  rfl

theorem Stored.mistakes (htext : ¬ Textual keyHash) (peerid : Peerid)
    (key : List UInt8) : ∃ other, (history.addKey peerid keyHash key).getKey none (some other) ≠
      some ((mapGet (addKept added keyHash { peerid, key }) other).toList.map fun found =>
        (.buffer other, found)) := by
  obtain ⟨other, hne, heq⟩ := exists_other htext
  have hother : mapGet added other = none := by
    by_contra hsome
    obtain ⟨found, hfound⟩ := Option.ne_none_iff_exists'.mp hsome
    exact toStr_ne (h.textual _ (mem_of_mapGet hfound)) htext heq
  refine ⟨other, ?_⟩
  rw [mapGet_addKept_ne (Ne.symm hne), hother]
  have hnone : mapGet history.hash2Keys keyHash.toStr = none := by
    rw [← heq, h.get, hother]
  unfold PeerHistoryManagerImpl.getKey PeerHistoryManagerImpl.addKey
  dsimp only
  rw [hnone, heq]
  simp [mapGet_set]

end

/-! ## The keys of the interfaces -/

variable {udpKeys : UDPKeys} {tcpKeys : TCPKeys} {hashes : List KeyHash}

/-- A UDP interface counts how often a hash was added and not removed. -/
structure UdpStored (udpKeys : UDPKeys) (hashes : List KeyHash) : Prop where
  textual : ∀ keyHash ∈ hashes, Textual keyHash
  counted : udpKeys.Counted
  refs : ∀ keyHash : KeyHash, udpKeys.ref keyHash.toStr = hashes.count keyHash

theorem UdpStored.query (h : UdpStored udpKeys hashes) (keyHash : KeyHash) :
    (udpKeys.queryKey keyHash).isSome ↔ keyHash ∈ hashes := by
  rw [h.counted.query, h.refs, List.count_pos_iff]

theorem UdpStored.add (h : UdpStored udpKeys hashes) (htext : Textual keyHash) :
    UdpStored (udpKeys.addKey peerid keyHash key) (hashes ++ [keyHash]) := by
  refine ⟨fun other hmem => ?_, h.counted.addKey, fun other => ?_⟩
  · rcases List.mem_append.mp hmem with hmem | hmem
    · exact h.textual other hmem
    · exact List.mem_singleton.mp hmem ▸ htext
  rw [UDPKeys.ref_addKey, h.refs, List.count_append]
  by_cases heq : keyHash = other
  · simp [heq]
  · simp [toStr_eq_iff htext, heq]

theorem UdpStored.remove (h : UdpStored udpKeys hashes) :
    UdpStored (udpKeys.removeKey keyHash) (hashes.erase keyHash) := by
  refine ⟨fun other hmem => h.textual other (List.mem_of_mem_erase hmem), h.counted.removeKey,
    fun other => ?_⟩
  rw [h.counted.ref_removeKey, h.refs]
  by_cases heq : keyHash = other
  · subst heq
    rw [if_pos rfl, List.count_erase_self]
  rw [List.count_erase_of_ne (Ne.symm heq)]
  split
  case isTrue hstr =>
    have hnot : keyHash ∉ hashes := fun hmem => heq ((toStr_eq_iff (h.textual _ hmem)).mp hstr)
    have hzero := h.refs keyHash
    rw [List.count_eq_zero.mpr hnot, hstr, h.refs] at hzero
    omega
  case isFalse => rfl

/-- A TCP interface has the hashes that were added. -/
structure TcpStored (tcpKeys : TCPKeys) (hashes : List KeyHash) : Prop where
  textual : ∀ keyHash ∈ hashes, Textual keyHash
  query : ∀ keyHash, (tcpKeys.queryKey keyHash).isSome ↔ keyHash ∈ hashes

theorem TcpStored.add (h : TcpStored tcpKeys hashes) (htext : Textual keyHash) :
    TcpStored (tcpKeys.addKey peerid keyHash key) (hashes ++ [keyHash]) := by
  constructor
  · intro other hmem
    rcases mem_concat.mp hmem with hmem | hmem
    · exact h.textual other hmem
    · exact hmem ▸ htext
  intro other
  have hquery := h.query other
  unfold TCPKeys.queryKey TCPKeys.addKey at *
  rw [mapGet_set, mem_append, mem_singleton]
  by_cases heq : keyHash = other
  · simp [heq]
  · simpa [toStr_eq_iff htext, heq, Ne.symm heq] using hquery

/-- A hash that is not text is found by another one on an interface, too. -/
theorem exists_mistaken (htext : ¬ Textual keyHash) (hhashes : ∀ other ∈ hashes, Textual other)
    {query : KeyHash → Bool} (hquery : ∀ other : KeyHash, other.toStr = keyHash.toStr →
      query other = true) :
    ¬ ∀ other, query other ↔ other ∈ hashes ++ [keyHash] := by
  intro hall
  obtain ⟨other, hne, heq⟩ := exists_other htext
  rcases mem_concat.mp ((hall other).mp (hquery other heq)) with hmem | hmem
  · exact toStr_ne (hhashes other hmem) htext heq
  · exact hne hmem

/-! ## The runs of the stores -/

variable {run next' : KeyStoreRun} {hash : List UInt8 → KeyHash} {call : KeyStoreCall}

/-- The stores have what was added, and all the hashes are text. -/
structure Inv (run : KeyStoreRun) : Prop where
  history : Stored run.history run.added
  udp : UdpStored run.udpKeys run.udpAdded
  tcp : TcpStored run.tcpKeys run.tcpAdded
  answers : ∀ answer ∈ run.answers, answer.Right

theorem inv_start : Inv {} := by
  constructor
  · exact ⟨forall_mem_nil _, .nil, rfl, fun _ => rfl⟩
  · exact ⟨forall_mem_nil _, fun _ _ hget => (by cases hget), fun _ => rfl⟩
  · exact ⟨forall_mem_nil _, fun _ => by simp [TCPKeys.queryKey]⟩
  · exact forall_mem_nil _

theorem Inv.sound (h : Inv run) : Sound run where
  history keyHash := by
    show some _ = _
    rw [h.history.get]
  udp := h.udp.query
  tcp := h.tcp.query
  answers := h.answers

theorem right_concat {answers : List KeyStoreAnswer} {answer : KeyStoreAnswer}
    (h : ∀ other ∈ answers, other.Right) (hanswer : answer.Right) :
    ∀ other ∈ answers ++ [answer], other.Right := by
  intro other hmem
  rcases mem_concat.mp hmem with hmem | hmem
  · exact h other hmem
  · exact hmem ▸ hanswer

theorem Inv.step (h : Inv run) (hkeeps : Keeps hash run call)
    (hnext : next hash run call = some next') : Inv next' := by
  cases call with
  | addKey =>
    cases hnext
    exact { h with history := h.history.add hkeeps }
  | createKey peerid randomBytes =>
    cases hnext
    cases hkeys : ofPeer run.added peerid with
    | nil =>
      have hcreate := h.history.createKey_new hkeys hash randomBytes
      refine { h with history := ?_, answers := right_concat h.answers fun hhad => absurd rfl hhad }
      simp only [hcreate]
      exact h.history.add (hkeeps hkeys)
    | cons entry =>
      have hcreate := h.history.createKey_kept hkeys hash randomBytes
      refine { h with history := ?_, answers := right_concat h.answers fun _ => ⟨entry, ?_, ?_⟩ }
      · simp only [hcreate]
        exact h.history
      · exact mem_cons_self
      · rw [hcreate]
        rfl
  | getKey peerid keyHash =>
    cases peerid with
    | none =>
      cases hnext
      exact h
    | some peerid =>
      cases keyHash with
      | none =>
        cases hnext
        exact h
      | some keyHash =>
        cases hnext
        have hnone : (ofPeer run.added peerid).any (·.1 = keyHash) = false :=
          any_eq_false.mpr fun entry hmem => by simpa using hkeeps entry hmem
        refine { h with answers := right_concat h.answers ?_ }
        show Option.map _ _ = some ((ofPeer run.added peerid).any _)
        rw [h.history.getKey_both, hnone]
        rfl
  | udpAddKey =>
    cases hnext
    exact { h with udp := h.udp.add hkeeps }
  | udpRemoveKey =>
    cases hnext
    exact { h with udp := h.udp.remove }
  | tcpAddKey =>
    cases hnext
    exact { h with tcp := h.tcp.add hkeeps }

theorem Inv.mistakes (h : Inv run) (hkeeps : ¬ Keeps hash run call) :
    ∃ after, next hash run call = some after ∧ ¬ Sound after := by
  cases call with
  | addKey peerid _ key =>
    refine ⟨_, rfl, fun hsound => ?_⟩
    obtain ⟨other, hother⟩ := h.history.mistakes hkeeps peerid key
    exact hother (hsound.history other)
  | createKey peerid randomBytes =>
    obtain ⟨hkeys, htext⟩ := Classical.not_imp.mp hkeeps
    refine ⟨_, rfl, fun hsound => ?_⟩
    obtain ⟨other, hother⟩ := h.history.mistakes htext peerid randomBytes
    have hcreate := h.history.createKey_new hkeys hash randomBytes
    have hhistory := hsound.history other
    simp only [hcreate] at hhistory
    exact hother hhistory
  | getKey peerid keyHash =>
    cases peerid with
    | none => exact absurd trivial hkeeps
    | some peerid =>
      cases keyHash with
      | none => exact absurd trivial hkeeps
      | some keyHash =>
        refine ⟨_, rfl, fun hsound => ?_⟩
        have hany : (ofPeer run.added peerid).any (·.1 = keyHash) = true := by
          by_contra hnone
          refine hkeeps fun entry hmem heq => hnone ?_
          exact any_eq_true.mpr ⟨entry, hmem, decide_eq_true heq⟩
        have hright : Option.map _ _ = some _ :=
          hsound.answers _ (mem_append_right _ mem_cons_self)
        rw [h.history.getKey_both, hany] at hright
        cases hright
  | udpAddKey _ keyHash =>
    refine ⟨_, rfl, fun hsound => exists_mistaken hkeeps h.udp.textual ?_ hsound.udp⟩
    intro other heq
    unfold UDPKeys.queryKey UDPKeys.addKey
    rw [heq]
    cases mapGet run.udpKeys keyHash.toStr <;> simp [mapGet_set]
  | udpRemoveKey => exact absurd trivial hkeeps
  | tcpAddKey =>
    refine ⟨_, rfl, fun hsound => exists_mistaken hkeeps h.tcp.textual ?_ hsound.tcp⟩
    intro other heq
    unfold TCPKeys.queryKey TCPKeys.addKey
    rw [heq]
    simp [mapGet_set]

/-- The stores find the keys that were added, and no others, as long as the hashes are text and no
key that a peer has is asked for with the peer. -/
theorem keyStores_iff (hash : List UInt8 → KeyHash) (calls : List KeyStoreCall) :
    Throughout (next hash) Sound {} calls ↔ StepsMeet (next hash) (Keeps hash) {} calls :=
  throughout_iff_of_inv inv_start (fun _ h => h.sound) (fun _ _ _ h hkeeps hnext => h.step hkeeps hnext)
    fun _ _ h hkeeps => h.mistakes hkeeps

/-- The eight bytes FF and the eight bytes FE are one key of the map, and what `createKey` returns is
neither. -/
theorem hash_replaced :
    let peerid : Peerid := ⟨List.replicate 32 1, rfl⟩
    let keyHash : KeyHash := ⟨List.replicate 8 0xFF, rfl⟩
    let other : KeyHash := ⟨List.replicate 8 0xFE, rfl⟩
    ∃ run, exec (next fun _ => other) {} [.addKey peerid keyHash [1], .createKey peerid [2]] =
        some run ∧
      run.added = [(keyHash, { peerid, key := [1] })] ∧
      run.history.getKey none (some other) = some [(.buffer other, { peerid, key := [1] })] ∧
      run.answers = [.created [(keyHash, { peerid, key := [1] })]
        (some { keyHash := (List.replicate 8 [0xEF, 0xBF, 0xBD]).flatten, key := [1],
                newKey := false })] :=
  ⟨_, rfl, by decide, by decide, by decide⟩

end KeyStoreRun

end Bdt
