import Mathlib.Data.Int.ConditionallyCompleteOrder
import Mathlib.Data.List.MinMax
import Mathlib.Order.ConditionallyCompleteLattice.Basic
import Bdt.History.KeyStorage

/-!
# Which key of a peer is got

`BdtHistory_KeyManagerGetKeyByRemote` looks at the key of the peer that was used last. If that key is
expired it takes the peer for one without keys, though another key may be valid: it then creates a key,
or finds none.

`getKeyByRemote_selects_iff`: a call gets the right key if and only if the key that was used last is
valid, or no key of the peer is, and what it touches or creates is given time.
-/

namespace Bdt

open Base List Option

namespace KeyManager

variable {manager next : KeyManager} {i j : NodeId} {node other : KeyNode} {peerid : Peerid}
  {aesKey : AesKey} {now : Nat} {isNew isTaken touch : Bool}

/-! ## Definitions -/

/-- A key of a peer whose expire time lies in the future. -/
def IsValid (manager : KeyManager) (peerid : Peerid) (now : Nat) (i : NodeId) (node : KeyNode) : Prop :=
  manager.node i = some node ∧ node.keyInfo.peerid = peerid ∧ secondsOf now < node.keyInfo.expireTime

def HasValid (manager : KeyManager) (peerid : Peerid) (now : Nat) : Prop :=
  ∃ i node, manager.IsValid peerid now i node

def lastAccess (manager : KeyManager) (i : NodeId) : Int :=
  ((manager.node i).map (·.keyInfo.lastAccessTime)).getD 0

/-- What `inoutNew` is when `BdtHistory_KeyManagerGetKeyByRemote` returns. -/
def outNew (manager : KeyManager) (peerid : Peerid) (isNew : Bool) (now : Nat) : Bool :=
  match manager.findLastAccessKeyByRemote peerid now with
  | some _ => false
  | none => isNew

/-- A key is created. -/
def Creates (manager next : KeyManager) : Prop :=
  manager.nodes.length < next.nodes.length

/-- What `BdtHistory_KeyManagerGetKeyByRemote` is to do. -/
structure Selects (manager : KeyManager) (peerid : Peerid) (isNew : Bool) (now : Nat)
    (next : KeyManager) (result : Option AesKey) : Prop where
  /-- It returns the valid key that was used last. -/
  lastUsed : manager.HasValid peerid now → ∃ i node, manager.IsValid peerid now i node ∧
    (∀ j other, manager.IsValid peerid now j other →
      other.keyInfo.lastAccessTime ≤ node.keyInfo.lastAccessTime) ∧
    result = some node.keyInfo.aesKey
  created : manager.Creates next ↔ isNew = true ∧ ¬ manager.HasValid peerid now
  reported : manager.outNew peerid isNew now = true ↔ manager.Creates next
  unexpired : ∀ key, result = some key →
    ∃ i node, next.IsValid peerid now i node ∧ node.keyInfo.aesKey = key

/-- The key that was used last is valid and stays so when it is touched, or no key is valid and a new
one will be. -/
def LastUsedValid (manager : KeyManager) (peerid : Peerid) (isNew touch : Bool) (now : Nat) : Prop :=
  (∃ i node, i ∈ (manager.keysOf peerid).argmax manager.lastAccess ∧
    manager.IsValid peerid now i node ∧
    (touch = true → manager.activeTime ≠ 0 ∨ secondsOf now = 0)) ∨
  (¬ manager.HasValid peerid now ∧ (isNew = true → manager.activeTime ≠ 0))

/-! ## The key that was used last -/

variable {keys : List NodeId} {last : KeyManager}

/-- Of the keys that were used last the first one is taken. -/
theorem lastAccessKey_eq (hkeys : ∀ i ∈ keys, ∃ node, manager.node i = some node) :
    manager.lastAccessKey keys = keys.argmax manager.lastAccess := by
  cases keys with
  | nil => rfl
  | cons first rest =>
    show some (rest.foldl _ first) = rest.foldl _ (some first)
    induction rest generalizing first with
    | nil => rfl
    | cons j rest ih =>
      obtain ⟨node, hnode⟩ := hkeys first mem_cons_self
      obtain ⟨other, hother⟩ := hkeys j (mem_cons_of_mem _ mem_cons_self)
      have hrest : ∀ k ∈ rest, ∃ node, manager.node k = some node := fun k hk =>
        hkeys k (mem_cons_of_mem _ (mem_cons_of_mem _ hk))
      have hlater : (manager.node first).any (fun lastNode => (manager.node j).any fun node =>
          lastNode.keyInfo.lastAccessTime < node.keyInfo.lastAccessTime) = true ↔
          manager.lastAccess first < manager.lastAccess j := by
        unfold lastAccess
        rw [hnode, hother]
        exact decide_eq_true_iff
      rw [foldl_cons, foldl_cons]
      show _ = rest.foldl _ (if manager.lastAccess first < manager.lastAccess j then some j
        else some first)
      by_cases h : manager.lastAccess first < manager.lastAccess j
      · rw [if_pos (hlater.mpr h), if_pos h]
        exact ih j (forall_mem_cons.mpr ⟨⟨other, hother⟩, hrest⟩)
      · rw [if_neg (mt hlater.mp h), if_neg h]
        exact ih first (forall_mem_cons.mpr ⟨⟨node, hnode⟩, hrest⟩)

theorem Sound.find_iff (h : manager.Sound) :
    manager.findLastAccessKeyByRemote peerid now = some i ↔
      i ∈ (manager.keysOf peerid).argmax manager.lastAccess ∧
        ∃ node, manager.IsValid peerid now i node := by
  have hkeys : ∀ i ∈ manager.keysOf peerid, ∃ node, manager.node i = some node := by
    intro i hi
    obtain ⟨node, hnode, -⟩ := (h.keys peerid i).mp hi
    exact ⟨node, hnode⟩
  unfold findLastAccessKeyByRemote
  rw [h.findKeyByPeerid, lastAccessKey_eq hkeys, filter_eq_some_iff]
  refine and_congr_right fun hlast => ?_
  obtain ⟨node, hnode, hpeerid⟩ := (h.keys peerid i).mp (argmax_mem hlast)
  rw [hnode]
  constructor
  · intro hvalid
    exact ⟨node, hnode, hpeerid, of_decide_eq_true hvalid⟩
  intro hfound
  obtain ⟨other, hother, -, hvalid⟩ := hfound
  obtain rfl := some.inj (hnode.symm.trans hother)
  exact decide_eq_true hvalid

theorem Sound.lastAccess_le (h : manager.Sound)
    (hlast : i ∈ (manager.keysOf peerid).argmax manager.lastAccess)
    (hnode : manager.node i = some node) (hother : manager.IsValid peerid now j other) :
    other.keyInfo.lastAccessTime ≤ node.keyInfo.lastAccessTime := by
  have hmem := (h.keys peerid j).mpr ⟨other, hother.1, hother.2.1⟩
  have hle := le_of_mem_argmax hmem hlast
  unfold lastAccess at hle
  rw [hnode, hother.1] at hle
  exact hle

/-! ## What stays -/

/-- No key is created, and the keys that are valid keep what the storage keeps of them. -/
structure Keeps (now : Nat) (manager next : KeyManager) : Prop where
  activeTime : next.activeTime = manager.activeTime
  length : next.nodes.length = manager.nodes.length
  node : ∀ i node, manager.node i = some node → secondsOf now < node.keyInfo.expireTime →
    ∃ new, next.node i = some new ∧ new.keyInfo.record = node.keyInfo.record

theorem Keeps.refl (now : Nat) (manager : KeyManager) : Keeps now manager manager :=
  ⟨rfl, rfl, fun _ node hnode _ => ⟨node, hnode, rfl⟩⟩

variable {keyInfo : KeyInfo}

variable {other : KeyInfo}

/-- The expire time is one of what the storage keeps. -/
theorem expireTime_of_record (h : keyInfo.record = other.record) :
    keyInfo.expireTime = other.expireTime :=
  congrArg (fun record : Peerid × AesKey × Bool × Int => record.2.2.2) h

theorem peerid_of_record (h : keyInfo.record = other.record) : keyInfo.peerid = other.peerid :=
  congrArg (fun record : Peerid × AesKey × Bool × Int => record.1) h

theorem aesKey_of_record (h : keyInfo.record = other.record) : keyInfo.aesKey = other.aesKey :=
  congrArg (fun record : Peerid × AesKey × Bool × Int => record.2.1) h

theorem Keeps.trans (h : Keeps now manager next) (hlast : Keeps now next last) :
    Keeps now manager last := by
  refine ⟨hlast.activeTime.trans h.activeTime, hlast.length.trans h.length,
    fun i node hnode hvalid => ?_⟩
  obtain ⟨new, hnew, hrecord⟩ := h.node i node hnode hvalid
  obtain ⟨third, hthird, hrecord'⟩ := hlast.node i new hnew (expireTime_of_record hrecord ▸ hvalid)
  exact ⟨third, hthird, hrecord'.trans hrecord⟩

theorem length_setNode (manager : KeyManager) (i : NodeId) (node : KeyNode) :
    (manager.setNode i node).nodes.length = manager.nodes.length :=
  length_set

theorem keeps_setNode (h : manager.node i = some node) {new : KeyNode}
    (hrecord : new.keyInfo.record = node.keyInfo.record) :
    Keeps now manager (manager.setNode i new) := by
  refine ⟨rfl, length_setNode manager i new, fun j other hother _ => ?_⟩
  rw [node_set (manager.setNode i new) h rfl]
  split
  case isTrue heq =>
    subst heq
    obtain rfl := some.inj (h.symm.trans hother)
    exact ⟨new, rfl, hrecord⟩
  case isFalse => exact ⟨other, hother, rfl⟩

theorem keeps_prepareForStorage {update : KeyUpdate}
    (h : manager.prepareForStorage i = some (next, update)) : Keeps now manager next := by
  obtain ⟨node, hnode, heq⟩ := map_eq_some_iff.mp h
  cases heq
  exact keeps_setNode hnode rfl

theorem keeps_storageUpdateAesKey (now : Nat) (manager : KeyManager) (update : KeyUpdate)
    (isTaken : Bool) : Keeps now manager (manager.storageUpdateAesKey update isTaken) := by
  have hpushed : Keeps now manager { manager with updates := update :: manager.updates } :=
    ⟨rfl, rfl, fun _ node hnode _ => ⟨node, hnode, rfl⟩⟩
  obtain heq | ⟨i, node, hnode, heq⟩ := manager.storageUpdateAesKey_cases update isTaken rfl <;>
    rw [heq]
  · exact hpushed
  · exact hpushed.trans (keeps_setNode hnode rfl)

theorem keeps_withoutKey (h : manager.node i = some node)
    (hexpired : ¬ secondsOf now < node.keyInfo.expireTime) (minHashMinutes : UInt32) :
    Keeps now manager (manager.withoutKey i node minHashMinutes) := by
  refine ⟨?_, ?_, fun j other hother hvalid => ?_⟩
  · unfold withoutKey
    rw [withoutHashs_relinks]
    rfl
  · unfold withoutKey
    rw [length_set, withoutHashs_relinks]
    rfl
  have hne : j ≠ i := by
    intro heq
    subst heq
    obtain rfl := some.inj (h.symm.trans hother)
    exact hexpired hvalid
  rw [node_withoutKey h, if_neg hne]
  exact ⟨other, hother, rfl⟩

/-- The loop goes over keys that are there, and leaves those of them that are valid. -/
theorem Sound.clearExpireKeys_spec (h : manager.Sound) (hnodup : keys.Nodup)
    (hkeys : ∀ i ∈ keys, ∃ node, manager.node i = some node ∧ node.keyInfo.peerid = peerid) :
    ∃ next, KeyManager.clearExpireKeys peerid now keys manager = some next ∧ Keeps now manager next ∧
      ∀ i ∈ keys, ∀ node, next.node i = some node → secondsOf now < node.keyInfo.expireTime := by
  induction keys generalizing manager with
  | nil => exact ⟨manager, rfl, .refl now manager, fun i hi => absurd hi not_mem_nil⟩
  | cons i rest ih =>
    obtain ⟨hi, hrest⟩ := nodup_cons.mp hnodup
    obtain ⟨node, hnode, hpeerid⟩ := hkeys i mem_cons_self
    have hothers := fun j hj => hkeys j (mem_cons_of_mem _ hj)
    unfold KeyManager.clearExpireKeys
    rw [hnode]
    dsimp only [bind_eq_bind, bind_some]
    by_cases hvalid : secondsOf now < node.keyInfo.expireTime
    · rw [if_pos hvalid]
      obtain ⟨next, hnext, hkeeps, hleft⟩ := ih h hrest hothers
      refine ⟨next, hnext, hkeeps, forall_mem_cons.mpr ⟨fun new hnew => ?_, hleft⟩⟩
      obtain ⟨kept, hkept, hrecord⟩ := hkeeps.node i node hnode hvalid
      obtain rfl := some.inj (hkept.symm.trans hnew)
      exact expireTime_of_record hrecord ▸ hvalid
    obtain rfl := hpeerid
    rw [if_neg hvalid, deleteKey_eq hnode]
    have hgone : ∀ j ∈ rest, ∃ other,
        (manager.withoutKey i node (minutesOf now - MIX_HASH_REDUNDANCY_MINUTES)).node j =
          some other ∧ other.keyInfo.peerid = node.keyInfo.peerid := by
      intro j hj
      obtain ⟨other, hother, hsame⟩ := hothers j hj
      have hne : j ≠ i := fun heq => hi (heq ▸ hj)
      refine ⟨other, ?_, hsame⟩
      rw [node_withoutKey hnode, if_neg hne]
      exact hother
    obtain ⟨next, hnext, hkeeps, hleft⟩ := ih (h.withoutKey hnode _) hrest hgone
    refine ⟨next, hnext, (keeps_withoutKey hnode hvalid _).trans hkeeps,
      forall_mem_cons.mpr ⟨fun new hnew => ?_, hleft⟩⟩
    -- the key is not there any more
    have hremoves := ((h.withoutKey hnode _).clearExpireKeys (fun j hj other hother => by
      obtain ⟨found, hfound, hsame⟩ := hgone j hj
      exact some.inj (hfound.symm.trans hother) ▸ hsame) hnext).2
    have hback := hremoves.node i new hnew
    rw [node_withoutKey hnode, if_pos rfl] at hback
    cases hback

theorem Sound.clearExpireKey_spec (h : manager.Sound) (peerid : Peerid) (now : Nat) :
    ∃ next, manager.clearExpireKey peerid now = some next ∧ Keeps now manager next ∧
      ∀ i node, next.node i = some node → node.keyInfo.peerid = peerid →
        secondsOf now < node.keyInfo.expireTime := by
  have hkeys := h.findKeyByPeerid peerid
  unfold KeyManager.clearExpireKey
  cases hfound : manager.findKeyByPeerid peerid with
  | none =>
    rw [hfound] at hkeys
    refine ⟨manager, rfl, .refl now manager, fun i node hnode hpeerid => ?_⟩
    have hmem := (h.keys peerid i).mpr ⟨node, hnode, hpeerid⟩
    rw [← hkeys] at hmem
    exact absurd hmem not_mem_nil
  | some keys =>
    obtain rfl : keys = manager.keysOf peerid := by
      rw [hfound] at hkeys
      exact hkeys
    obtain ⟨cleared, hcleared, hkeeps, hleft⟩ :=
      h.clearExpireKeys_spec (h.nodup peerid) fun i hi => (h.keys peerid i).mp hi
    have hremoves := (h.clearExpireKeys (h.peerid_of_found hfound) hcleared).2
    have hvalid : ∀ i node, cleared.node i = some node → node.keyInfo.peerid = peerid →
        secondsOf now < node.keyInfo.expireTime := fun i node hnode hpeerid =>
      hleft i ((h.keys peerid i).mpr ⟨node, hremoves.node i node hnode, hpeerid⟩) node hnode
    dsimp only
    rw [hcleared, map_some]
    split
    case isTrue => exact ⟨_, rfl, ⟨hkeeps.activeTime, hkeeps.length, hkeeps.node⟩, hvalid⟩
    case isFalse => exact ⟨_, rfl, hkeeps, hvalid⟩

/-! ## A key that is found -/

theorem update_expireTime (keyInfo : KeyInfo) (confirmed : Bool) (expireTime : Int) :
    (keyInfo.update confirmed expireTime).1.expireTime =
      if expireTime ≠ 0 ∧ (expireTime < keyInfo.expireTime ∨ 60 < expireTime - keyInfo.expireTime)
      then expireTime else keyInfo.expireTime := by
  unfold KeyInfo.update
  simp only [decide_eq_true_eq]

/-- A valid key stays valid when it is used, unless it is touched and gets no time. -/
theorem valid_touched_iff (hvalid : secondsOf now < keyInfo.expireTime)
    (manager : KeyManager) (touch : Bool) :
    secondsOf now < (keyInfo.update false (manager.touchTime touch now)).1.expireTime ↔
      (touch = true → manager.activeTime ≠ 0 ∨ secondsOf now = 0) := by
  rw [update_expireTime]
  unfold touchTime
  cases touch with
  | false => simp [hvalid]
  | true =>
    have hzero : manager.activeTime ≠ 0 ↔ manager.activeTime.toNat ≠ 0 :=
      not_congr UInt32.toNat_inj.symm
    rw [if_pos rfl, hzero]
    simp only [forall_const]
    split
    case isTrue => omega
    case isFalse => omega

/-- The records of the keys are those of before. -/
def Recalls (manager next : KeyManager) : Prop :=
  ∀ i node, next.node i = some node →
    ∃ old, manager.node i = some old ∧ old.keyInfo.record = node.keyInfo.record

theorem Recalls.trans (h : manager.Recalls next) (hlast : next.Recalls last) :
    manager.Recalls last := by
  intro i node hnode
  obtain ⟨new, hnew, hrecord⟩ := hlast i node hnode
  obtain ⟨old, hold, hrecord'⟩ := h i new hnew
  exact ⟨old, hold, hrecord'.trans hrecord⟩

theorem recalls_storageUpdateAesKey (manager : KeyManager) (update : KeyUpdate) (isTaken : Bool) :
    manager.Recalls (manager.storageUpdateAesKey update isTaken) :=
  (storageUpdateAesKey_record manager update isTaken).node

/-- The key that was used last is used, and the other ones are as before. -/
theorem Sound.getKeyByRemote_found (h : manager.Sound)
    (hfind : manager.findLastAccessKeyByRemote peerid now = some i)
    (hnode : manager.IsValid peerid now i node) (isNew touch : Bool) (aesKey : AesKey)
    (isTaken : Bool) :
    ∃ accessed next new,
      manager.getKeyByRemote peerid isNew touch aesKey now isTaken =
        some (next, some node.keyInfo.aesKey) ∧
      accessed.nodes.length = manager.nodes.length ∧ QuietBut i manager accessed ∧
      accessed.node i = some new ∧
      new.keyInfo.record = (node.keyInfo.update false (manager.touchTime touch now)).1.record ∧
      Keeps now accessed next ∧ accessed.Recalls next := by
  obtain ⟨⟨accessed, changed⟩, haccess⟩ :
      ∃ result, manager.accessKey i false (manager.touchTime touch now) now = some result := by
    unfold accessKey
    rw [hnode.1]
    exact ⟨_, rfl⟩
  obtain ⟨hbut, -, old, new, hold, hnew, -, hrecord⟩ := accessKey_record haccess
  obtain rfl := some.inj (hnode.1.symm.trans hold)
  obtain ⟨⟨prepared, update⟩, hprepare⟩ : ∃ result, accessed.prepareForStorage i = some result := by
    unfold prepareForStorage
    rw [hnew]
    exact ⟨_, rfl⟩
  obtain ⟨hquiet, last, hlast, hupdate⟩ := prepareForStorage_record hprepare
  have hkey : update.aesKey = node.keyInfo.aesKey := by
    obtain ⟨third, hthird, hsame⟩ := hquiet.node i last hlast
    obtain rfl := some.inj (hnew.symm.trans hthird)
    have hupdated : update.record = (node.keyInfo.update false (manager.touchTime touch now)).1.record :=
      hupdate.trans (hsame.symm.trans hrecord)
    exact congrArg (fun record : Peerid × AesKey × Bool × Int => record.2.1) hupdated
  have hsound : prepared.Sound :=
    (h.touches (accessKey_touches haccess)).touches (prepareForStorage_touches hprepare)
  have hlength : accessed.nodes.length = manager.nodes.length := by
    obtain ⟨found, -, heq⟩ := map_eq_some_iff.mp haccess
    cases heq
    exact length_setNode ..
  obtain ⟨cleared, hcleared, hkeeps, -⟩ := hsound.clearExpireKey_spec peerid now
  have hremoves := (hsound.clearExpireKey hcleared).2
  obtain ⟨kept, hkept, hkeptKeeps, hkeptRecalls⟩ : ∃ kept,
      (if 1 < ((manager.findKeyByPeerid peerid).getD []).length then
        prepared.clearExpireKey peerid now else some prepared) = some kept ∧
      Keeps now prepared kept ∧ prepared.Recalls kept := by
    split
    case isTrue => exact ⟨cleared, hcleared, hkeeps, hremoves.quiet.node⟩
    case isFalse => exact ⟨prepared, rfl, .refl now prepared, fun _ node hnode => ⟨node, hnode, rfl⟩⟩
  have hget : manager.getKeyByRemote peerid isNew touch aesKey now isTaken =
      some (if changed && kept.storage then kept.storageUpdateAesKey update isTaken else kept,
        some node.keyInfo.aesKey) := by
    unfold KeyManager.getKeyByRemote
    rw [hfind]
    dsimp only [bind_eq_bind]
    rw [haccess, bind_some, hprepare, bind_some]
    split
    case isTrue hmore =>
      rw [if_pos hmore] at hkept
      rw [hkept, bind_some, hkey]
    case isFalse hone =>
      rw [if_neg hone] at hkept
      rw [hkept, bind_some, hkey]
  have hbefore := (keeps_prepareForStorage hprepare).trans hkeptKeeps
  have hrecalls : accessed.Recalls kept := Recalls.trans hquiet.node hkeptRecalls
  refine ⟨accessed, _, new, hget, hlength, hbut, hnew, hrecord, ?_, ?_⟩
  · split
    case isTrue => exact hbefore.trans (keeps_storageUpdateAesKey ..)
    case isFalse => exact hbefore
  · split
    case isTrue => exact hrecalls.trans (recalls_storageUpdateAesKey kept update isTaken)
    case isFalse => exact hrecalls

/-! ## A key that is created -/

theorem Sound.getKeyByRemote_created (h : manager.Sound)
    (hfind : manager.findLastAccessKeyByRemote peerid now = none)
    (hvalid : ¬ manager.HasValid peerid now) (touch : Bool) (aesKey : AesKey) (isTaken : Bool) :
    ∃ added next new,
      manager.getKeyByRemote peerid true touch aesKey now isTaken = some (next, some aesKey) ∧
      added.nodes.length = manager.nodes.length + 1 ∧ QuietBut manager.nodes.length manager added ∧
      added.node manager.nodes.length = some new ∧
      new.keyInfo.record = (manager.createNode aesKey peerid now).keyInfo.record ∧
      Keeps now added next ∧ added.Recalls next := by
  obtain ⟨cleared, hcleared, hkeeps, hleft⟩ := h.clearExpireKey_spec peerid now
  obtain ⟨hsound, hremoves⟩ := h.clearExpireKey hcleared
  -- a key that is left would be a valid one of before
  have hnone : cleared.findAesKey aesKey peerid = none := by
    cases hfound : cleared.findAesKey aesKey peerid with
    | none => rfl
    | some j =>
      obtain ⟨other, hother, hpeerid, -⟩ := hsound.findAesKey_some hfound
      exact absurd ⟨j, other, hremoves.node j other hother, hpeerid, hleft j other hother hpeerid⟩
        hvalid
  have hadd := addNewKey_none hnone now
  have hbut := (hremoves.quiet.but _).trans (addNewKey_quietBut hadd)
  rw [hkeeps.length] at hadd hbut
  have hnew : (cleared.withNewKey aesKey peerid now).node manager.nodes.length =
      some (cleared.createNode aesKey peerid now) := by
    rw [node_withNewKey, if_pos hkeeps.length.symm]
  have hrecord : (cleared.createNode aesKey peerid now).keyInfo.record =
      (manager.createNode aesKey peerid now).keyInfo.record := by
    unfold createNode KeyInfo.record
    rw [hkeeps.activeTime]
  have hlength : (cleared.withNewKey aesKey peerid now).nodes.length = manager.nodes.length + 1 := by
    rw [withNewKey_same, withNewNode_relinks, ← hkeeps.length]
    exact length_append
  obtain ⟨⟨prepared, update⟩, hprepare⟩ : ∃ result,
      (cleared.withNewKey aesKey peerid now).prepareForStorage manager.nodes.length = some result := by
    unfold prepareForStorage
    rw [hnew]
    exact ⟨_, rfl⟩
  have hget : manager.getKeyByRemote peerid true touch aesKey now isTaken =
      some (if prepared.storage then prepared.storageUpdateAesKey { update with isNew := true } isTaken
        else prepared, some aesKey) := by
    unfold KeyManager.getKeyByRemote
    rw [hfind]
    dsimp only [bind_eq_bind]
    rw [if_pos rfl, hcleared, bind_some, hadd]
    rw [hprepare, bind_some]
  have hrecalls := (prepareForStorage_record hprepare).1.node
  refine ⟨_, _, _, hget, hlength, hbut, hnew, hrecord, ?_, ?_⟩
  · split
    case isTrue => exact (keeps_prepareForStorage hprepare).trans (keeps_storageUpdateAesKey ..)
    case isFalse => exact keeps_prepareForStorage hprepare
  · split
    case isTrue => exact Recalls.trans hrecalls (recalls_storageUpdateAesKey prepared _ isTaken)
    case isFalse => exact hrecalls

/-! ## The key that is got -/

theorem outNew_found (hfind : manager.findLastAccessKeyByRemote peerid now = some i) (isNew : Bool) :
    manager.outNew peerid isNew now = false := by
  unfold outNew
  rw [hfind]

theorem outNew_none (hfind : manager.findLastAccessKeyByRemote peerid now = none) (isNew : Bool) :
    manager.outNew peerid isNew now = isNew := by
  unfold outNew
  rw [hfind]

theorem Sound.selects_found (h : manager.Sound)
    (hfind : manager.findLastAccessKeyByRemote peerid now = some i)
    (hnode : manager.IsValid peerid now i node) (isNew touch : Bool) (aesKey : AesKey)
    (isTaken : Bool) :
    (∃ next result, manager.getKeyByRemote peerid isNew touch aesKey now isTaken = some (next, result) ∧
        manager.Selects peerid isNew now next result) ↔
      (touch = true → manager.activeTime ≠ 0 ∨ secondsOf now = 0) := by
  obtain ⟨accessed, next, new, hget, hlength, hbut, hnew, hrecord, hkeeps, hrecalls⟩ :=
    h.getKeyByRemote_found hfind hnode isNew touch aesKey isTaken
  have hexpire := expireTime_of_record hrecord
  rw [← valid_touched_iff hnode.2.2 manager touch, ← hexpire]
  constructor
  · intro hselected
    obtain ⟨next', result, hget', hselects⟩ := hselected
    obtain ⟨rfl, rfl⟩ := Prod.mk.inj (some.inj (hget.symm.trans hget'))
    obtain ⟨j, other, hother, hkey⟩ := hselects.unexpired _ rfl
    obtain ⟨old, hold, hsame⟩ := hrecalls j other hother.1
    -- no other key of the peer has these bytes
    have hj : j = i := by
      by_contra hne
      obtain ⟨first, hfirst, hsame'⟩ := hbut.node j old hne hold
      have hback := hsame'.trans hsame
      exact hne (h.distinct j first i node hfirst hnode.1 ((aesKey_of_record hback).trans hkey)
        ((peerid_of_record hback).trans (hother.2.1.trans hnode.2.1.symm)))
    subst hj
    obtain rfl := some.inj (hnew.symm.trans hold)
    exact expireTime_of_record hsame ▸ hother.2.2
  intro hvalid
  obtain ⟨last, hlast, hsame⟩ := hkeeps.node i new hnew hvalid
  have hall := hsame.trans hrecord
  have hcreates : ¬ manager.Creates next := by
    unfold Creates
    rw [hkeeps.length, hlength]
    exact Nat.lt_irrefl _
  refine ⟨next, _, hget, fun _ => ⟨i, node, hnode, fun j other hother => ?_, rfl⟩, ?_, ?_, ?_⟩
  · exact h.lastAccess_le (h.find_iff.mp hfind).1 hnode.1 hother
  · exact iff_of_false hcreates fun hnone => hnone.2 ⟨i, node, hnode⟩
  · rw [outNew_found hfind]
    exact iff_of_false Bool.false_ne_true hcreates
  intro key hkey
  cases hkey
  refine ⟨i, last, ⟨hlast, ?_, ?_⟩, (aesKey_of_record hall).trans rfl⟩
  · exact (peerid_of_record hall).trans hnode.2.1
  · exact expireTime_of_record hsame ▸ hvalid

/-- If no key is found, a valid one is passed over, or a new one is given time. -/
theorem Sound.selects_none (h : manager.Sound)
    (hfind : manager.findLastAccessKeyByRemote peerid now = none) (isNew touch : Bool) (aesKey : AesKey)
    (isTaken : Bool) :
    (∃ next result, manager.getKeyByRemote peerid isNew touch aesKey now isTaken = some (next, result) ∧
        manager.Selects peerid isNew now next result) ↔
      ¬ manager.HasValid peerid now ∧ (isNew = true → manager.activeTime ≠ 0) := by
  cases isNew with
  | false =>
    have hget : manager.getKeyByRemote peerid false touch aesKey now isTaken = some (manager, none) := by
      unfold KeyManager.getKeyByRemote
      rw [hfind]
      rfl
    have hcreates : ¬ manager.Creates manager := Nat.lt_irrefl _
    constructor
    · intro hselected
      obtain ⟨next, result, hget', hselects⟩ := hselected
      obtain ⟨rfl, rfl⟩ := Prod.mk.inj (some.inj (hget.symm.trans hget'))
      refine ⟨fun hvalid => ?_, nofun⟩
      obtain ⟨i, node, -, -, hresult⟩ := hselects.lastUsed hvalid
      cases hresult
    intro hnone
    refine ⟨manager, none, hget, fun hvalid => absurd hvalid hnone.1, ?_, ?_, nofun⟩
    · exact iff_of_false hcreates fun hnew => Bool.false_ne_true hnew.1
    · rw [outNew_none hfind]
      exact iff_of_false Bool.false_ne_true hcreates
  | true =>
    by_cases hvalid : manager.HasValid peerid now
    · -- it reports a new key though there is a valid one
      refine iff_of_false (fun hselected => ?_) fun hnone => hnone.1 hvalid
      obtain ⟨next, result, -, hselects⟩ := hselected
      have hcreates := hselects.reported.mp (outNew_none hfind true)
      exact (hselects.created.mp hcreates).2 hvalid
    obtain ⟨added, next, new, hget, hlength, hbut, hnew, hrecord, hkeeps, hrecalls⟩ :=
      h.getKeyByRemote_created hfind hvalid touch aesKey isTaken
    have hexpire : new.keyInfo.expireTime = secondsOf now + manager.activeTime.toNat :=
      expireTime_of_record hrecord
    have hzero : manager.activeTime ≠ 0 ↔ manager.activeTime.toNat ≠ 0 :=
      not_congr UInt32.toNat_inj.symm
    have htime : manager.activeTime ≠ 0 ↔ secondsOf now < new.keyInfo.expireTime := by
      rw [hzero, hexpire]
      omega
    rw [htime]
    constructor
    · intro hselected
      refine ⟨hvalid, fun _ => ?_⟩
      obtain ⟨next', result, hget', hselects⟩ := hselected
      obtain ⟨rfl, rfl⟩ := Prod.mk.inj (some.inj (hget.symm.trans hget'))
      obtain ⟨j, other, hother, hkey⟩ := hselects.unexpired _ rfl
      obtain ⟨old, hold, hsame⟩ := hrecalls j other hother.1
      have hj : j = manager.nodes.length := by
        by_contra hne
        obtain ⟨first, hfirst, hsame'⟩ := hbut.node j old hne hold
        have hback := hsame'.trans hsame
        exact hvalid ⟨j, first, hfirst, (peerid_of_record hback).trans hother.2.1,
          expireTime_of_record hback ▸ hother.2.2⟩
      subst hj
      obtain rfl := some.inj (hnew.symm.trans hold)
      exact expireTime_of_record hsame ▸ hother.2.2
    intro hnone
    obtain ⟨last, hlast, hsame⟩ := hkeeps.node _ new hnew (hnone.2 rfl)
    have hall := hsame.trans hrecord
    have hcreates : manager.Creates next := by
      unfold Creates
      rw [hkeeps.length, hlength]
      exact Nat.lt_succ_self _
    refine ⟨next, _, hget, fun hfound => absurd hfound hvalid, ?_, ?_, ?_⟩
    · exact iff_of_true hcreates ⟨rfl, hvalid⟩
    · exact iff_of_true (outNew_none hfind true) hcreates
    intro key hkey
    cases hkey
    refine ⟨_, last, ⟨hlast, peerid_of_record hall, ?_⟩, aesKey_of_record hall⟩
    exact expireTime_of_record hsame ▸ hnone.2 rfl

/-- In every state that is reached a call gets the right key if and only if the key of the peer that was
used last is valid, or no key of the peer is, and what it touches or creates is given time. -/
theorem getKeyByRemote_selects_iff {activeTime : UInt32} {calcKeyHash : CalcKeyHash}
    {calls : List KeyCall}
    (hrun : exec KeyManager.next { activeTime, calcKeyHash } calls = some manager) (peerid : Peerid)
    (isNew touch : Bool) (aesKey : AesKey) (now : Nat) (isTaken : Bool) :
    (∃ next result, manager.getKeyByRemote peerid isNew touch aesKey now isTaken = some (next, result) ∧
        manager.Selects peerid isNew now next result) ↔
      manager.LastUsedValid peerid isNew touch now := by
  have h := sound_exec hrun
  cases hfind : manager.findLastAccessKeyByRemote peerid now with
  | some i =>
    obtain ⟨hlast, node, hnode⟩ := h.find_iff.mp hfind
    rw [h.selects_found hfind hnode]
    constructor
    · intro htime
      exact .inl ⟨i, node, hlast, hnode, htime⟩
    intro hvalid
    rcases hvalid with ⟨_, _, _, _, htime⟩ | ⟨hnone, -⟩
    · exact htime
    · exact absurd ⟨i, node, hnode⟩ hnone
  | none =>
    rw [h.selects_none hfind]
    constructor
    · exact .inr
    intro hvalid
    rcases hvalid with ⟨i, node, hlast, hnode, -⟩ | hnone
    · have hfound := h.find_iff.mpr ⟨hlast, node, hnode⟩
      rw [hfind] at hfound
      cases hfound
    · exact hnone

/-- Two keys of a peer, which expire after 500 and `second` seconds, of which the second one was used
last. -/
def loadedKeys (second : Int) : List KeyCall :=
  [{ event := .loadDone
      [{ peerid := plainPeerid 1, aesKey := plainKey 1, isConfirmed := true, isStorage := true,
         expireTime := 500, lastAccessTime := 10 },
       { peerid := plainPeerid 1, aesKey := plainKey 2, isConfirmed := true, isStorage := true,
         expireTime := second, lastAccessTime := 20 }]
     now := 60000000, isTaken := true, passes := 0 }]

/-- Of two valid keys the one that was used last is taken and touched. -/
theorem getKeyByRemote_selects_last :
    ∃ manager,
      exec KeyManager.next { activeTime := 1000, calcKeyHash := plainKeyHash } (loadedKeys 400) =
        some manager ∧
      ∃ next result,
        manager.getKeyByRemote (plainPeerid 1) true true (plainKey 3) 60000000 true =
          some (next, result) ∧
        manager.Selects (plainPeerid 1) true 60000000 next result := by
  refine exists_of_test (fun manager => manager.activeTime ≠ 0 ∧
    manager.findLastAccessKeyByRemote (plainPeerid 1) 60000000 = some 1) (by decide +kernel) ?_
  rintro manager hrun ⟨hactive, hfind⟩
  obtain ⟨hlast, node, hnode⟩ := (sound_exec hrun).find_iff.mp hfind
  exact (getKeyByRemote_selects_iff hrun (plainPeerid 1) true true (plainKey 3)
    60000000 true).mpr (.inl ⟨1, node, hlast, hnode, fun _ => .inl hactive⟩)

/-- A key is loaded that was used last and is expired, and with it one that is valid. -/
theorem valid_key_passed_over :
    ¬ ∀ (activeTime : UInt32) (calcKeyHash : CalcKeyHash) (calls : List KeyCall)
        (manager : KeyManager),
      exec KeyManager.next { activeTime, calcKeyHash } calls = some manager →
      ∀ (peerid : Peerid) (isNew touch : Bool) (aesKey : AesKey) (now : Nat) (isTaken : Bool),
        ∃ next result,
          manager.getKeyByRemote peerid isNew touch aesKey now isTaken = some (next, result) ∧
          manager.Selects peerid isNew now next result := by
  intro h
  obtain ⟨manager, hrun, hnode, hfind⟩ : ∃ manager,
      exec KeyManager.next { activeTime := 1000, calcKeyHash := plainKeyHash } (loadedKeys 50) =
        some manager ∧
      (manager.node 0).any (fun node =>
        node.keyInfo.peerid = plainPeerid 1 ∧ 60 < node.keyInfo.expireTime) = true ∧
      (manager.findLastAccessKeyByRemote (plainPeerid 1) 60000000).isNone = true :=
    exists_of_test _ (by decide +kernel) fun _ _ => id
  obtain ⟨node, hnode, hvalid⟩ := exists_of_any hnode
  obtain ⟨hpeerid, hvalid⟩ := of_decide_eq_true hvalid
  obtain ⟨next, result, hget, hselects⟩ :=
    h 1000 plainKeyHash _ manager hrun (plainPeerid 1) false false (plainKey 3) 60000000 true
  obtain ⟨i, found, -, -, hresult⟩ := hselects.lastUsed ⟨0, node, hnode, hpeerid, hvalid⟩
  unfold KeyManager.getKeyByRemote at hget
  rw [isNone_iff_eq_none.mp hfind] at hget
  obtain ⟨-, rfl⟩ := Prod.mk.inj (some.inj hget)
  cases hresult

end KeyManager

end Bdt
