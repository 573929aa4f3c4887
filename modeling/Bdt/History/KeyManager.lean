import Bdt.Base.Loop
import Bdt.Global.CryptoToolKit
import Bdt.History.PeerHistory

/-!
# The key manager

A model of `KeyManager.imp.inl`. A key has its original hash and the hashes with three minutes. It is in
one of two lists, and when the minute changes the keys of the first list go to the second one, from
where each search takes them one after the other until it finds its hash. The pointers of the lists are
those of the program, and those of a freed key are read as they were. An operation has no result where
the program would use the other members of a freed key, or where a search takes more passes than it is
allowed to: with wrong pointers it need not end.

`key_node_compare` finds all keys equal, as it does where assertions are left out.
-/

namespace Bdt

open Base

abbrev AesKey : Type :=
  Bytes BDT_AES_KEY_LENGTH

abbrev MixHash : Type :=
  Bytes BDT_MIX_HASH_LENGTH

def MIX_HASH_REDUNDANCY_MINUTES : UInt32 := 1

/-- `BDT_MICRO_SECONDS_2_MINUTES`. -/
def minutesOf (now : Nat) : UInt32 :=
  UInt32.ofNat (now / 60000000)

/-- `BDT_MICRO_SECONDS_2_SECONDS`. -/
def secondsOf (now : Nat) : Int :=
  (now / 1000000 : Nat)

/-! ## Hashes -/

structure MixHashInfo where
  hash : MixHash
  /-- The minutes that are appended to the key, and 0 in the original hash. -/
  minutes : UInt32
  deriving DecidableEq

/-- `CalcKeyHashImpl`, of a key alone or with the minutes. -/
abbrev CalcKeyHash : Type :=
  AesKey → Option UInt32 → MixHash

/-- The hashes of a key. -/
structure MixHashs where
  originalHash : MixHashInfo
  withAppend : Fin 3 → MixHashInfo
  nextUpdateHash : Fin 3

namespace MixHashs

def appended (calcKeyHash : CalcKeyHash) (aesKey : AesKey) (minutes : UInt32) : MixHashInfo where
  hash := calcKeyHash aesKey (some minutes)
  minutes := minutes

/-- `KeyManagerRehashAesKey`, for a key that has no hashes yet. -/
def create (calcKeyHash : CalcKeyHash) (aesKey : AesKey) (minutes : UInt32) : MixHashs where
  originalHash := { hash := calcKeyHash aesKey none, minutes := 0 }
  withAppend k := appended calcKeyHash aesKey
    (minutes - MIX_HASH_REDUNDANCY_MINUTES + UInt32.ofNat k.val)
  nextUpdateHash := 0

/-- The loop of `KeyManagerRehashAesKey`, with the hashes that are replaced and what replaces them. -/
def replace (calcKeyHash : CalcKeyHash) (aesKey : AesKey) (minMinutes : UInt32) :
    Nat → UInt32 → MixHashs → MixHashs × List (MixHashInfo × MixHashInfo)
  | 0, _, hashs => (hashs, [])
  | count + 1, minutes, hashs =>
    let dead := hashs.withAppend hashs.nextUpdateHash
    if minMinutes ≤ dead.minutes then (hashs, [])
    else
      let added := appended calcKeyHash aesKey minutes
      let (next, changes) := replace calcKeyHash aesKey minMinutes count (minutes + 1)
        { hashs with
          withAppend := Function.update hashs.withAppend hashs.nextUpdateHash added
          nextUpdateHash := hashs.nextUpdateHash + 1 }
      (next, (dead, added) :: changes)

/-- The hashes after one pass of the loop. -/
def advance (hashs : MixHashs) (added : MixHashInfo) : MixHashs :=
  { hashs with
    withAppend := Function.update hashs.withAppend hashs.nextUpdateHash added
    nextUpdateHash := hashs.nextUpdateHash + 1 }

/-- Where `KeyManagerRehashAesKey` looks for the newest hash. The difference is one of `uint32_t`. -/
def newestHashIndex (hashs : MixHashs) : Fin 3 :=
  Fin.ofNat 3 ((UInt32.ofNat hashs.nextUpdateHash.val - 1) % 3).toNat

/-- `KeyManagerRehashAesKey`. -/
def rehash (calcKeyHash : CalcKeyHash) (aesKey : AesKey) (minutes : UInt32) (hashs : MixHashs) :
    MixHashs × List (MixHashInfo × MixHashInfo) :=
  let minMinutes := minutes - MIX_HASH_REDUNDANCY_MINUTES
  let maxMinutes := minutes + MIX_HASH_REDUNDANCY_MINUTES
  let nextMinutes := (hashs.withAppend hashs.newestHashIndex).minutes + 1
  if nextMinutes < minMinutes then
    replace calcKeyHash aesKey minMinutes 3 (minutes - MIX_HASH_REDUNDANCY_MINUTES) hashs
  else if maxMinutes < nextMinutes then (hashs, [])
  else replace calcKeyHash aesKey minMinutes 3 minutes hashs

/-- The nodes of a key in the map. -/
def infos (hashs : MixHashs) : List MixHashInfo :=
  hashs.originalHash :: (List.finRange 3).map hashs.withAppend

end MixHashs

/-! ## Keys -/

/-- `BdtHistory_KeyInfo`. -/
structure KeyInfo where
  peerid : Peerid
  aesKey : AesKey
  isConfirmed : Bool
  isStorage : Bool
  expireTime : Int
  lastAccessTime : Int

structure KeyNode where
  keyInfo : KeyInfo
  hashs : MixHashs

/-- A node of the map of the hashes. -/
structure MixHashKey where
  keyNode : NodeId
  info : MixHashInfo
  deriving DecidableEq

/-- A node of the map of the peers, with the keys that belong to one peer. -/
structure PeeridKey where
  peerid : Peerid
  keyNodeList : List NodeId

def PeeridKey.compare (left right : PeeridKey) : Int :=
  memcmp left.peerid.1 right.peerid.1

theorem PeeridKey.comparesBy : ComparesBy PeeridKey.compare PeeridKey.peerid :=
  fun left right => (memcmp_eq_zero (left.peerid.2.trans right.peerid.2.symm)).trans Subtype.ext_iff.symm

/-- What is passed to `BdtHistory_StorageUpdateAesKey`. -/
structure KeyUpdate where
  peerid : Peerid
  aesKey : AesKey
  expireTime : Int
  isConfirmed : Bool
  lastAccessTime : Int
  isNew : Bool

/-- `KeyManagerUpdateKey`, with whether it changes the key. -/
def KeyInfo.update (keyInfo : KeyInfo) (confirmed : Bool) (expireTime : Int) : KeyInfo × Bool :=
  let isConfirming := confirmed && !keyInfo.isConfirmed
  let isExtending : Bool :=
    expireTime ≠ 0 ∧ (expireTime < keyInfo.expireTime ∨ 60 < expireTime - keyInfo.expireTime)
  ({ keyInfo with
      isConfirmed := keyInfo.isConfirmed || isConfirming
      expireTime := if isExtending then expireTime else keyInfo.expireTime },
    isConfirming || isExtending)

/-! ## The manager -/

/-- The nodes stand where they were allocated, and are `none` when they are freed. -/
structure KeyManager where
  /-- `config->activeTime`. -/
  activeTime : UInt32
  calcKeyHash : CalcKeyHash
  /-- Whether there is a storage. -/
  storage : Bool := false
  nodes : List (Option KeyNode) := []
  links : Links NodeId := {}
  mixHashKeyMap : List MixHashKey := []
  peeridKeyMap : List PeeridKey := []
  /-- `keyList.header`. -/
  header : Option NodeId := none
  /-- `keyList.tail`. -/
  tail : Option NodeId := none
  firstHashMinutes : UInt32 := 0
  rehashKeyList : Option NodeId := none
  /-- What the storage was given, the last one first. -/
  updates : List KeyUpdate := []

namespace KeyManager

variable (manager : KeyManager)

def node (i : NodeId) : Option KeyNode :=
  (manager.nodes[i]?).join

def setNode (i : NodeId) (node : KeyNode) : KeyManager :=
  { manager with nodes := manager.nodes.set i (some node) }

/-! ### The lists of the keys -/

/-- `KeyManagerMoveAllKeyToRehashNoLock`. -/
def moveAllKeyToRehash : KeyManager :=
  { manager with
    links := manager.links.join manager.tail manager.rehashKeyList
    rehashKeyList := manager.header
    header := none
    tail := none }

/-- A key goes before the header, and a first one is the tail too. -/
def addToHeader (i : NodeId) (minutes : UInt32) : KeyManager :=
  let (links, header) := manager.links.addBefore manager.header i
  let next := { manager with links, header }
  if manager.tail = none then { next with firstHashMinutes := minutes, tail := some i } else next

/-- A key goes after the tail, and a first one is the header too. -/
def addToTail (i : NodeId) (minutes : UInt32) : KeyManager :=
  let (links, tail) := manager.links.addAfter manager.tail i
  let next := { manager with links, tail }
  if manager.header = none then { next with firstHashMinutes := minutes, header := some i } else next

/-- `sglib_key_node_delete` from the key list. The tail is forgotten with the last key. -/
def deleteFromKeyList (i : NodeId) : KeyManager :=
  let (links, header) := manager.links.delete manager.header i
  { manager with links, header, tail := if header = none then none else manager.tail }

/-- `sglib_key_node_delete` from the list of the keys without hashes. -/
def deleteFromRehash (i : NodeId) : KeyManager :=
  let (links, rehashKeyList) := manager.links.delete manager.rehashKeyList i
  { manager with links, rehashKeyList }

/-- `KeyManagerRemoveKeyNodeFromList`. The list that is tested first is taken for the one of the key if
it has a key, and the key that its pointer is to is deleted. -/
def removeKeyNodeFromList (i : NodeId) (hashs : MixHashs)
    (minHashMinutes : UInt32) : KeyManager :=
  if (hashs.withAppend hashs.nextUpdateHash).minutes < minHashMinutes then
    match manager.rehashKeyList with
    | some first => manager.deleteFromRehash first
    | none => manager.deleteFromKeyList i
  else
    match manager.header with
    | some first => manager.deleteFromKeyList first
    | none => manager.deleteFromRehash i

/-! ### The maps -/

/-- Of the nodes with one hash the map finds any. Here it is the last one that was added. -/
def findByMixHashNoRehash (mixHash : MixHash) : Option NodeId :=
  (manager.mixHashKeyMap.find? (·.info.hash = mixHash)).map (·.keyNode)

/-- `KeyManagerFindKeyByPeeridNoLock`, with the keys of the peer. -/
def findKeyByPeerid (peerid : Peerid) : Option (List NodeId) :=
  (findMember PeeridKey.compare manager.peeridKeyMap { peerid, keyNodeList := [] }).map
    (·.keyNodeList)

/-- `KeyManagerFindAesKeyNoLock`. -/
def findAesKey (aesKey : AesKey) (peerid : Peerid) : Option NodeId :=
  ((manager.findKeyByPeerid peerid).getD []).find? fun i =>
    (manager.node i).any (·.keyInfo.aesKey = aesKey)

/-- The keys of a peer are changed, and the peer is added if it is new. -/
def addToPeer (peerid : Peerid) (i : NodeId) : KeyManager :=
  match manager.findKeyByPeerid peerid with
  | none =>
    { manager with peeridKeyMap := { peerid, keyNodeList := [i] } :: manager.peeridKeyMap }
  | some _ =>
    { manager with
      peeridKeyMap := updateMember PeeridKey.compare manager.peeridKeyMap
        { peerid, keyNodeList := [] }
        fun peer => { peer with keyNodeList := i :: peer.keyNodeList } }

def takeFromPeer (peerid : Peerid) (i : NodeId) : KeyManager :=
  { manager with
    peeridKeyMap := updateMember PeeridKey.compare manager.peeridKeyMap { peerid, keyNodeList := [] }
      fun peer => { peer with keyNodeList := peer.keyNodeList.erase i } }

/-- `KeyManagerDeletePeer`, of a peer without keys. -/
def deletePeer (peerid : Peerid) : KeyManager :=
  { manager with
    peeridKeyMap :=
      (deleteIfMember PeeridKey.compare manager.peeridKeyMap { peerid, keyNodeList := [] }).1 }

/-! ### Keys -/

/-- `KeyManagerDeleteKey`. -/
def deleteKey (i : NodeId) (minHashMinutes : UInt32) : Option KeyManager := do
  let node ← manager.node i
  let next :=
    { manager with
      mixHashKeyMap := node.hashs.infos.foldl (fun map info => map.erase { keyNode := i, info })
        manager.mixHashKeyMap }.removeKeyNodeFromList i node.hashs minHashMinutes
  some { next with nodes := next.nodes.set i none }

/-- The loop of `KeyManagerClearExpireKeyNoLock` over keys of a peer. -/
def clearExpireKeys (peerid : Peerid) (now : Nat) : List NodeId → KeyManager → Option KeyManager
  | [], manager => some manager
  | i :: rest, manager => do
    let node ← manager.node i
    let next ← if secondsOf now < node.keyInfo.expireTime then some manager
      else (manager.takeFromPeer peerid i).deleteKey i (minutesOf now - MIX_HASH_REDUNDANCY_MINUTES)
    clearExpireKeys peerid now rest next

/-- `KeyManagerClearExpireKeyNoLock`, of all keys of a peer. -/
def clearExpireKey (peerid : Peerid) (now : Nat) : Option KeyManager :=
  match manager.findKeyByPeerid peerid with
  | none => some manager
  | some keys => (clearExpireKeys peerid now keys manager).map fun next =>
    if next.findKeyByPeerid peerid = some [] then next.deletePeer peerid else next

/-- The node of a new key in `KeyManagerAddNewKeyNoLock`. -/
def createNode (aesKey : AesKey) (peerid : Peerid) (now : Nat) : KeyNode where
  keyInfo :=
    { peerid
      aesKey
      isConfirmed := false
      isStorage := false
      expireTime := secondsOf now + manager.activeTime.toNat
      lastAccessTime := secondsOf now }
  hashs := .create manager.calcKeyHash aesKey (minutesOf now)

/-- `KeyManagerAddNewKeyNoLock`, with the key and whether it is new. -/
def addNewKey (aesKey : AesKey) (peerid : Peerid) (now : Nat) : KeyManager × NodeId × Bool :=
  match manager.findAesKey aesKey peerid with
  | some i => (manager, i, false)
  | none =>
    let i := manager.nodes.length
    let node := manager.createNode aesKey peerid now
    let next :=
      ({ manager with nodes := manager.nodes ++ [some node] }.addToHeader i
        (minutesOf now)).addToPeer peerid i
    ({ next with
        mixHashKeyMap :=
          node.hashs.infos.reverse.map ({ keyNode := i, info := · }) ++ next.mixHashKeyMap },
      i, true)

/-- A hash of a key is replaced in the map of the hashes. -/
def replaceInMap (i : NodeId) (map : List MixHashKey) (change : MixHashInfo × MixHashInfo) :
    List MixHashKey :=
  { keyNode := i, info := change.2 } :: map.erase { keyNode := i, info := change.1 }

/-- `KeyManagerFindByMixHashInNextRehashNodeNoLock`, with the key if its new hashes are hit. -/
def findByMixHashInNextRehashNode (mixHash : MixHash) (minutes : UInt32) :
    Option (KeyManager × Option NodeId) :=
  match manager.rehashKeyList with
  | none => some (manager, none)
  | some i => (manager.node i).map fun node =>
    let (hashs, changes) := node.hashs.rehash manager.calcKeyHash node.keyInfo.aesKey minutes
    let next :=
      { manager.deleteFromRehash i with
        nodes := manager.nodes.set i (some { node with hashs })
        mixHashKeyMap := changes.foldl (replaceInMap i) manager.mixHashKeyMap }
    if changes.any fun (_, added) => added.hash = mixHash then
      (next.addToHeader i minutes, some i)
    else (next.addToTail i minutes, none)

/-! ### Operations -/

/-- What is done with a key that is found. `expireTime` is 0 if it is not touched. -/
def accessKey (i : NodeId) (confirmed : Bool) (expireTime : Int) (now : Nat) :
    Option (KeyManager × Bool) :=
  (manager.node i).map fun node =>
    let (keyInfo, changed) :=
      { node.keyInfo with lastAccessTime := secondsOf now }.update confirmed expireTime
    (manager.setNode i { node with keyInfo }, changed)

/-- When a key that is touched now expires. -/
def touchTime (touch : Bool) (now : Nat) : Int :=
  if touch then secondsOf now + manager.activeTime.toNat else 0

/-- `KeyManagerPrepareForStorage`, with what the storage then is given for the key. -/
def prepareForStorage (i : NodeId) : Option (KeyManager × KeyUpdate) :=
  (manager.node i).map fun node =>
    let keyInfo := node.keyInfo
    (manager.setNode i
        { node with keyInfo := { keyInfo with isStorage := keyInfo.isStorage || manager.storage } },
      { peerid := keyInfo.peerid
        aesKey := keyInfo.aesKey
        expireTime := keyInfo.expireTime
        isConfirmed := keyInfo.isConfirmed
        lastAccessTime := keyInfo.lastAccessTime
        isNew := manager.storage && !keyInfo.isStorage })

/-- `KeyManagerStorageUpdateAesKey`. A new key that the storage does not take is not marked. -/
def storageUpdateAesKey (update : KeyUpdate) (isTaken : Bool) : KeyManager :=
  let next := { manager with updates := update :: manager.updates }
  if update.isNew && !isTaken then
    match next.findAesKey update.aesKey update.peerid with
    | none => next
    | some i => ((next.node i).map fun node =>
      next.setNode i { node with keyInfo := { node.keyInfo with isStorage := false } }).getD next
  else next

/-- A key that is found in the map. -/
def useKey (i : NodeId) (confirmed : Bool) (expireTime : Int) (now : Nat)
    (isTaken : Bool) : Option (KeyManager × Option (AesKey × Peerid)) := do
  let (next, changed) ← manager.accessKey i confirmed expireTime now
  let (next, update) ← next.prepareForStorage i
  let found := some (update.aesKey, update.peerid)
  some (if changed && next.storage then next.storageUpdateAesKey update isTaken else next, found)

/-- The loop of `BdtHistory_KeyManagerFindByMixHash`. Each pass takes one key. -/
def rehashLoop (mixHash : MixHash) (minutes : UInt32) :
    Nat → KeyManager → Option (KeyManager × Option NodeId)
  | 0, manager => if manager.rehashKeyList = none then some (manager, none) else none
  | passes + 1, manager =>
    if manager.rehashKeyList = none then some (manager, none)
    else (manager.findByMixHashInNextRehashNode mixHash minutes).bind fun (next, found) =>
      match found with
      | some i => some (next, some i)
      | none => rehashLoop mixHash minutes passes next

/-- The keys go to the other list when the minute has changed. -/
def startRehash (minutes : UInt32) : KeyManager :=
  if minutes ≠ manager.firstHashMinutes ∧ manager.tail ≠ none then manager.moveAllKeyToRehash
  else manager

/-- `BdtHistory_KeyManagerFindByMixHash`, with the key and the peer if it is found. `isTaken` says
whether the storage takes what it is given. -/
def findByMixHash (mixHash : MixHash) (touch confirmedByRemote : Bool)
    (now : Nat) (isTaken : Bool) (passes : Nat) : Option (KeyManager × Option (AesKey × Peerid)) :=
  let expireTime := manager.touchTime touch now
  match manager.findByMixHashNoRehash mixHash with
  | some i => manager.useKey i confirmedByRemote expireTime now isTaken
  | none =>
    let started := manager.startRehash (minutesOf now)
    (rehashLoop mixHash (minutesOf now) passes started).bind fun (next, found) =>
      match found with
      | some i => do
        -- the storage is given nothing here
        let (next, _) ← next.accessKey i confirmedByRemote expireTime now
        let node ← next.node i
        some (next, some (node.keyInfo.aesKey, node.keyInfo.peerid))
      | none => match next.findByMixHashNoRehash mixHash with
        | some i => next.useKey i confirmedByRemote expireTime now isTaken
        | none => some (next, none)

/-- The key of a peer that was used last, the first one of those. -/
def lastAccessKey : List NodeId → Option NodeId
  | [] => none
  | i :: rest => some <| rest.foldl (fun last j =>
    if (manager.node last).any fun lastNode => (manager.node j).any fun node =>
        lastNode.keyInfo.lastAccessTime < node.keyInfo.lastAccessTime then j else last) i

/-- `KeyManagerFindLastAccessKeyByRemoteNoLock`, without the new access time. -/
def findLastAccessKeyByRemote (peerid : Peerid) (now : Nat) : Option NodeId :=
  (manager.lastAccessKey ((manager.findKeyByPeerid peerid).getD [])).filter fun i =>
    (manager.node i).any fun node => secondsOf now < node.keyInfo.expireTime

/-- `BdtHistory_KeyManagerGetKeyByRemote`. `aesKey` is the key that is generated if there is none, and if
`isNew` says so. -/
def getKeyByRemote (peerid : Peerid) (isNew touch : Bool) (aesKey : AesKey)
    (now : Nat) (isTaken : Bool) : Option (KeyManager × Option AesKey) :=
  match manager.findLastAccessKeyByRemote peerid now with
  | some i => do
    let (next, changed) ← manager.accessKey i false (manager.touchTime touch now) now
    let (next, update) ← next.prepareForStorage i
    let next ← if 1 < ((manager.findKeyByPeerid peerid).getD []).length then
        next.clearExpireKey peerid now
      else some next
    some (if changed && next.storage then next.storageUpdateAesKey update isTaken else next,
      some update.aesKey)
  | none =>
    if isNew then do
      let next ← manager.clearExpireKey peerid now
      let (next, i, _) := next.addNewKey aesKey peerid now
      let (next, update) ← next.prepareForStorage i
      some (if next.storage then next.storageUpdateAesKey { update with isNew := true } isTaken
        else next, some aesKey)
    else some (manager, none)

/-- What `BdtHistory_KeyManagerAddKey` does with a key that is not in the storage yet. -/
def addKeyAgain (aesKey : AesKey) (peerid : Peerid) (confirmedByRemote : Bool)
    (now : Nat) (isTaken : Bool) : Option KeyManager := do
  let (next, i, _) := manager.addNewKey aesKey peerid now
  let node ← next.node i
  let next := next.setNode i
    { node with
      keyInfo := { node.keyInfo with isConfirmed := node.keyInfo.isConfirmed || confirmedByRemote } }
  let (next, update) ← next.prepareForStorage i
  some (if next.storage then next.storageUpdateAesKey { update with isNew := true } isTaken else next)

/-- `BdtHistory_KeyManagerAddKey`. -/
def addKey (aesKey : AesKey) (peerid : Peerid) (confirmedByRemote : Bool)
    (now : Nat) (isTaken : Bool) : Option KeyManager :=
  match manager.findAesKey aesKey peerid with
  | none => manager.addKeyAgain aesKey peerid confirmedByRemote now isTaken
  | some i => do
    let (next, _) ← manager.accessKey i confirmedByRemote (manager.touchTime true now) now
    let (next, update) ← next.prepareForStorage i
    if next.storage then some (next.storageUpdateAesKey update isTaken)
    else next.addKeyAgain aesKey peerid confirmedByRemote now isTaken

/-- `KeyManagerAddOuterKey`. -/
def addOuterKey (outerKeyInfo : KeyInfo) (now : Nat) : Option KeyManager :=
  let (next, i, isNew) := manager.addNewKey outerKeyInfo.aesKey outerKeyInfo.peerid now
  if isNew then (next.node i).map fun node =>
    next.setNode i
      { node with
        keyInfo := { node.keyInfo with
          isConfirmed := outerKeyInfo.isConfirmed
          isStorage := true
          expireTime := outerKeyInfo.expireTime
          lastAccessTime := outerKeyInfo.lastAccessTime } }
  else some next

/-- `BdtHistory_KeyManagerOnLoadDone`, of a load that succeeded. -/
def onLoadDone (aesKeys : List KeyInfo) (now : Nat) : Option KeyManager :=
  aesKeys.foldlM (fun manager outerKeyInfo => manager.addOuterKey outerKeyInfo now)
    { manager with storage := true }

end KeyManager

/-! ## Runs -/

inductive KeyEvent where
  | addKey (aesKey : AesKey) (peerid : Peerid) (confirmedByRemote : Bool)
  | findByMixHash (mixHash : MixHash) (touch confirmedByRemote : Bool)
  /-- `aesKey` is what is generated. -/
  | getKeyByRemote (peerid : Peerid) (isNew touch : Bool) (aesKey : AesKey)
  | loadDone (aesKeys : List KeyInfo)

/-- An operation, when it is called, and what the storage answers. -/
structure KeyCall where
  event : KeyEvent
  now : Nat
  isTaken : Bool
  /-- How many passes a search may take. -/
  passes : Nat

/-- What a call does. -/
def KeyManager.next (manager : KeyManager) (call : KeyCall) : Option KeyManager :=
  match call.event with
  | .addKey aesKey peerid confirmedByRemote =>
    manager.addKey aesKey peerid confirmedByRemote call.now call.isTaken
  | .findByMixHash mixHash touch confirmedByRemote =>
    (manager.findByMixHash mixHash touch confirmedByRemote call.now call.isTaken call.passes).map
      (·.1)
  | .getKeyByRemote peerid isNew touch aesKey =>
    (manager.getKeyByRemote peerid isNew touch aesKey call.now call.isTaken).map (·.1)
  | .loadDone aesKeys => manager.onLoadDone aesKeys call.now

end Bdt
