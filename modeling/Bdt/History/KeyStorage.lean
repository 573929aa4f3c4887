import Bdt.History.KeyLookup

/-!
# What the storage is given

Every operation that changes when a key expires, or that it is confirmed, gives the storage the new
values, except a search that rehashes: the key at which it stops is changed, and the storage is not told.

`key_persistence`: the last update of each key has the values of the key in every state of a run, if and
only if no search changes the key at which it stops.
-/

namespace Bdt

open Base Option

/-- What the storage keeps of a key. -/
def KeyInfo.record (keyInfo : KeyInfo) : Peerid × AesKey × Bool × Int :=
  (keyInfo.peerid, keyInfo.aesKey, keyInfo.isConfirmed, keyInfo.expireTime)

def KeyUpdate.record (update : KeyUpdate) : Peerid × AesKey × Bool × Int :=
  (update.peerid, update.aesKey, update.isConfirmed, update.expireTime)

/-- A call other than the load. -/
abbrev KeyUse : Type :=
  { call : KeyCall // ∀ aesKeys, call.event ≠ .loadDone aesKeys }

namespace KeyManager

/-- What a call does when the storage is attached. -/
def use (manager : KeyManager) (call : KeyUse) : Option KeyManager :=
  manager.next call.1

/-- The last update of a key. -/
def lastUpdate (updates : List KeyUpdate) (keyInfo : KeyInfo) : Option KeyUpdate :=
  updates.find? fun update => update.peerid = keyInfo.peerid ∧ update.aesKey = keyInfo.aesKey

/-- The last update of a key has its values, or they are those that it started with. -/
def Recorded (start : KeyManager) (updates : List KeyUpdate) (i : NodeId) (keyInfo : KeyInfo) : Prop :=
  match lastUpdate updates keyInfo with
  | some update => update.record = keyInfo.record
  | none => ∃ old, start.node i = some old ∧ old.keyInfo.record = keyInfo.record

/-- What the storage was given last is what every key has. -/
def Persisted (start manager : KeyManager) : Prop :=
  ∀ i node, manager.node i = some node → Recorded start manager.updates i node.keyInfo

/-- The key at which a search stops is not changed, if the search ends. -/
def SubmitsChange (manager : KeyManager) (call : KeyUse) : Prop :=
  match call.1.event with
  | .findByMixHash mixHash touch confirmedByRemote =>
    manager.findByMixHashNoRehash mixHash = none → (manager.use call).isSome = true →
      ∀ i node, Hits mixHash (minutesOf call.1.now) i
          (manager.startRehash (minutesOf call.1.now)) →
        manager.node i = some node →
        (node.keyInfo.update confirmedByRemote (manager.touchTime touch call.1.now)).2 = false
  | _ => True

variable {start manager next : KeyManager} {i j : NodeId} {node other : KeyNode} {mixHash : MixHash}
  {peerid : Peerid} {aesKey : AesKey} {now : Nat} {confirmed isTaken touch : Bool} {expireTime : Int}
  {update : KeyUpdate}

/-! ## Records -/

variable {keyInfo : KeyInfo}

variable {other : KeyInfo} {updates : List KeyUpdate} {isNew : Bool}

theorem lastUpdate_congr (h : keyInfo.record = other.record)
    (updates : List KeyUpdate) : lastUpdate updates keyInfo = lastUpdate updates other := by
  obtain ⟨hpeerid, h⟩ := Prod.mk.inj h
  unfold lastUpdate
  rw [hpeerid, (Prod.mk.inj h).1]

section

variable (h : Recorded start updates i keyInfo)
include h

theorem Recorded.congr (hrecord : keyInfo.record = other.record) :
    Recorded start updates i other := by
  unfold Recorded at h ⊢
  rw [lastUpdate_congr hrecord, hrecord] at h
  exact h

/-- An update of a key leaves what is recorded of the other keys. -/
theorem Recorded.cons
    (hne : ¬ (update.peerid = keyInfo.peerid ∧ update.aesKey = keyInfo.aesKey)) :
    Recorded start (update :: updates) i keyInfo := by
  unfold Recorded lastUpdate at h ⊢
  rw [List.find?_cons_of_neg]
  · exact h
  · exact fun hsame => hne (of_decide_eq_true hsame)

theorem Recorded.unique (hother : Recorded start updates i other)
    (hpeerid : keyInfo.peerid = other.peerid) (haesKey : keyInfo.aesKey = other.aesKey) :
    keyInfo.record = other.record := by
  have hlast : lastUpdate updates keyInfo = lastUpdate updates other := by
    unfold lastUpdate
    rw [hpeerid, haesKey]
  unfold Recorded at h hother
  rw [hlast] at h
  cases hfound : lastUpdate updates other with
  | some =>
    rw [hfound] at h hother
    exact h.symm.trans hother
  | none =>
    rw [hfound] at h hother
    obtain ⟨old, hold, hrecord⟩ := h
    obtain ⟨old', hold', hrecord'⟩ := hother
    obtain rfl := some.inj (hold.symm.trans hold')
    exact hrecord.symm.trans hrecord'

end

theorem recorded_of_update (h : update.record = keyInfo.record)
    (start : KeyManager) (updates : List KeyUpdate) (i : NodeId) :
    Recorded start (update :: updates) i keyInfo := by
  obtain ⟨hpeerid, hrest⟩ := Prod.mk.inj h
  unfold Recorded lastUpdate
  rw [List.find?_cons_of_pos]
  · exact h
  · exact decide_eq_true ⟨hpeerid, (Prod.mk.inj hrest).1⟩

theorem update_record (confirmed : Bool) (expireTime : Int) :
    (keyInfo.update confirmed expireTime).2 = false ↔
      (keyInfo.update confirmed expireTime).1.record = keyInfo.record := by
  by_cases hextending : expireTime ≠ 0 ∧
      (expireTime < keyInfo.expireTime ∨ 60 < expireTime - keyInfo.expireTime)
  · have hne : expireTime ≠ keyInfo.expireTime := by omega
    unfold KeyInfo.update KeyInfo.record
    simp [hextending, hne]
  have hconfirm : ∀ isConfirmed : Bool, (confirmed && !isConfirmed) = false ↔
      (isConfirmed || (confirmed && !isConfirmed)) = isConfirmed := by
    cases confirmed <;> decide
  unfold KeyInfo.update KeyInfo.record
  simp only [hextending, decide_false, Bool.or_false, Bool.false_eq_true, if_false, Prod.mk.injEq,
    true_and, and_true]
  exact hconfirm keyInfo.isConfirmed

/-! ## What is changed -/

/-- The records of the keys and the updates stay. -/
structure Quiet (manager next : KeyManager) : Prop where
  node : ∀ i node, next.node i = some node →
    ∃ old, manager.node i = some old ∧ old.keyInfo.record = node.keyInfo.record
  storage : next.storage = manager.storage
  updates : next.updates = manager.updates

/-- The records of all keys but one stay, and the updates. -/
structure QuietBut (i : NodeId) (manager next : KeyManager) : Prop where
  node : ∀ j node, j ≠ i → next.node j = some node →
    ∃ old, manager.node j = some old ∧ old.keyInfo.record = node.keyInfo.record
  storage : next.storage = manager.storage
  updates : next.updates = manager.updates

theorem Quiet.but (h : manager.Quiet next) (i : NodeId) : QuietBut i manager next :=
  ⟨fun j node _ => h.node j node, h.storage, h.updates⟩

variable {last prepared : KeyManager}

theorem Quiet.trans (h : manager.Quiet next) (hlast : next.Quiet last) : manager.Quiet last := by
  refine ⟨fun j node hnode => ?_, hlast.storage.trans h.storage, hlast.updates.trans h.updates⟩
  obtain ⟨new, hnew, hrecord⟩ := hlast.node j node hnode
  obtain ⟨old, hold, hrecord'⟩ := h.node j new hnew
  exact ⟨old, hold, hrecord'.trans hrecord⟩

theorem QuietBut.trans (h : QuietBut i manager next)
    (hlast : QuietBut i next last) : QuietBut i manager last := by
  refine ⟨fun j node hne hnode => ?_, hlast.storage.trans h.storage, hlast.updates.trans h.updates⟩
  obtain ⟨new, hnew, hrecord⟩ := hlast.node j node hne hnode
  obtain ⟨old, hold, hrecord'⟩ := h.node j new hne hnew
  exact ⟨old, hold, hrecord'.trans hrecord⟩

theorem quiet_relinks (h : manager.Relinks next) : manager.Quiet next := by
  rw [h]
  exact ⟨fun _ node hnode => ⟨node, hnode, rfl⟩, rfl, rfl⟩

theorem Removes.quiet (h : manager.Removes next) : manager.Quiet next :=
  ⟨fun i node hnode => ⟨node, h.node i node hnode, rfl⟩, h.storage, h.updates⟩

theorem quietBut_setNode (h : manager.node i = some node) (new : KeyNode) :
    QuietBut i manager (manager.setNode i new) := by
  refine ⟨fun j other hne hother => ?_, rfl, rfl⟩
  rw [node_set (manager.setNode i new) h rfl, if_neg hne] at hother
  exact ⟨other, hother, rfl⟩

theorem quiet_setNode (h : manager.node i = some node) {new : KeyNode}
    (hrecord : node.keyInfo.record = new.keyInfo.record) : manager.Quiet (manager.setNode i new) := by
  refine ⟨fun j other hother => ?_, rfl, rfl⟩
  rw [node_set (manager.setNode i new) h rfl] at hother
  split at hother
  case isTrue heq => exact heq ▸ ⟨node, h, some.inj hother ▸ hrecord⟩
  case isFalse => exact ⟨other, hother, rfl⟩

theorem node_setNode_self (h : manager.node i = some node) (new : KeyNode) :
    (manager.setNode i new).node i = some new :=
  (node_set _ h rfl i).trans (if_pos rfl)

theorem accessKey_record {changed : Bool}
    (h : manager.accessKey i confirmed expireTime now = some (next, changed)) :
    QuietBut i manager next ∧ (changed = false → manager.Quiet next) ∧
      ∃ old new, manager.node i = some old ∧ next.node i = some new ∧
        changed = (old.keyInfo.update confirmed expireTime).2 ∧
        new.keyInfo.record = (old.keyInfo.update confirmed expireTime).1.record := by
  obtain ⟨old, hold, heq⟩ := map_eq_some_iff.mp h
  obtain ⟨rfl, rfl⟩ := Prod.mk.inj heq
  refine ⟨quietBut_setNode hold _, fun hchanged => quiet_setNode hold ?_, old, _, hold,
    node_setNode_self hold _, rfl, rfl⟩
  exact ((update_record confirmed expireTime).mp hchanged).symm

theorem prepareForStorage_record (h : manager.prepareForStorage i = some (next, update)) :
    manager.Quiet next ∧ ∃ node, next.node i = some node ∧ update.record = node.keyInfo.record := by
  obtain ⟨old, hold, heq⟩ := map_eq_some_iff.mp h
  obtain ⟨rfl, rfl⟩ := Prod.mk.inj heq
  exact ⟨quiet_setNode hold rfl, _, node_setNode_self hold _, rfl⟩

theorem storageUpdateAesKey_record (manager : KeyManager) (update : KeyUpdate) (isTaken : Bool) :
    Quiet { manager with updates := update :: manager.updates }
      (manager.storageUpdateAesKey update isTaken) := by
  have hrefl : Quiet { manager with updates := update :: manager.updates }
      { manager with updates := update :: manager.updates } :=
    ⟨fun _ node hnode => ⟨node, hnode, rfl⟩, rfl, rfl⟩
  obtain heq | ⟨i, node, hnode, heq⟩ := manager.storageUpdateAesKey_cases update isTaken rfl <;>
    rw [heq]
  · exact hrefl
  · exact quiet_setNode hnode rfl

/-! ## What stays recorded -/

/-- The keys other than one are recorded. -/
def PersistedBut (start : KeyManager) (i : NodeId) (manager : KeyManager) : Prop :=
  ∀ j node, j ≠ i → manager.node j = some node → Recorded start manager.updates j node.keyInfo

theorem Persisted.quiet (h : start.Persisted manager) (hnext : manager.Quiet next) :
    start.Persisted next := by
  intro i node hnode
  obtain ⟨old, hold, hrecord⟩ := hnext.node i node hnode
  rw [hnext.updates]
  exact (h i old hold).congr hrecord

theorem PersistedBut.quiet (h : start.PersistedBut i manager) (hnext : QuietBut i manager next) :
    start.PersistedBut i next := by
  intro j node hne hnode
  obtain ⟨old, hold, hrecord⟩ := hnext.node j node hne hnode
  rw [hnext.updates]
  exact (h j old hne hold).congr hrecord

theorem Persisted.but (h : start.Persisted manager) (i : NodeId) : start.PersistedBut i manager :=
  fun j node _ => h j node

/-- The storage is given what a key has, which may be deleted by then. -/
theorem PersistedBut.submit (h : start.PersistedBut i manager)
    (hsound : prepared.Sound) (hnode : prepared.node i = some node)
    (hupdate : update.record = node.keyInfo.record) (hremoves : prepared.Removes manager)
    (isTaken : Bool) : start.Persisted (manager.storageUpdateAesKey update isTaken) := by
  have hpushed : start.Persisted { manager with updates := update :: manager.updates } := ?_
  · exact hpushed.quiet (storageUpdateAesKey_record manager update isTaken)
  intro j other hother
  have hold := hremoves.node j other hother
  by_cases hj : j = i
  · subst hj
    obtain rfl := some.inj (hnode.symm.trans hold)
    exact recorded_of_update hupdate start manager.updates j
  refine (h j other hj hother).cons fun ⟨hpeerid, haesKey⟩ => hj ?_
  obtain ⟨hpeerid', hrest⟩ := Prod.mk.inj hupdate
  refine hsound.distinct j other i node hold hnode ?_ ?_
  · exact haesKey.symm.trans (Prod.mk.inj hrest).1
  · exact hpeerid.symm.trans hpeerid'

/-! ## Operations -/

/-- The storage is attached, and has what the keys have. -/
structure Attached (start manager : KeyManager) : Prop where
  sound : manager.Sound
  stored : manager.storage = true ∧ start.Persisted manager

theorem storageUpdateAesKey_storage (manager : KeyManager) (update : KeyUpdate) (isTaken : Bool) :
    (manager.storageUpdateAesKey update isTaken).storage = manager.storage :=
  (storageUpdateAesKey_record manager update isTaken).storage

/-- A key that the map has is changed, others are removed, and the storage is told. -/
theorem Attached.told {accessed cleared : KeyManager} {changed : Bool} (h : start.Attached manager)
    (haccess : manager.accessKey i confirmed expireTime now = some (accessed, changed))
    (hprepare : accessed.prepareForStorage i = some (prepared, update))
    (hclear : prepared.Sound → prepared.Removes cleared)
    (heq : next = if changed && cleared.storage then cleared.storageUpdateAesKey update isTaken
      else cleared) : next.storage = true ∧ start.Persisted next := by
  obtain ⟨hbut, hsame, -⟩ := accessKey_record haccess
  obtain ⟨hquiet, node, hnode, hupdate⟩ := prepareForStorage_record hprepare
  have hsound : prepared.Sound :=
    (h.sound.touches (accessKey_touches haccess)).touches (prepareForStorage_touches hprepare)
  have hremoves := hclear hsound
  have hstorage : cleared.storage = true :=
    hremoves.storage.trans ((hbut.trans (hquiet.but i)).storage.trans h.stored.1)
  rw [heq, hstorage, Bool.and_true]
  cases changed with
  | true =>
    refine ⟨(storageUpdateAesKey_storage ..).trans hstorage, ?_⟩
    exact ((h.stored.2.but i).quiet ((hbut.trans (hquiet.but i)).trans
      (hremoves.quiet.but i))).submit hsound hnode hupdate hremoves isTaken
  | false => exact ⟨hstorage, h.stored.2.quiet (((hsame rfl).trans hquiet).trans hremoves.quiet)⟩

theorem Attached.useKey {found : Option (AesKey × Peerid)} (h : start.Attached manager)
    (huse : manager.useKey i confirmed expireTime now isTaken = some (next, found)) :
    start.Attached next := by
  refine ⟨h.sound.touches (useKey_touches huse), ?_⟩
  obtain ⟨⟨accessed, changed⟩, haccess, huse⟩ := bind_eq_some_iff.mp huse
  obtain ⟨⟨prepared, update⟩, hprepare, huse⟩ := bind_eq_some_iff.mp huse
  exact h.told haccess hprepare (fun _ => .refl prepared) (Prod.mk.inj (some.inj huse)).1.symm

theorem addNewKey_quietBut
    (hadd : manager.addNewKey aesKey peerid now = (next, i, isNew)) : QuietBut i manager next := by
  cases hfind : manager.findAesKey aesKey peerid with
  | none =>
    rw [addNewKey_none hfind] at hadd
    obtain ⟨hnext, hadd⟩ := Prod.mk.inj hadd
    obtain ⟨hi, -⟩ := Prod.mk.inj hadd
    subst hnext hi
    refine ⟨fun j node hne hnode => ?_, ?_, ?_⟩
    · rw [node_withNewKey, if_neg hne] at hnode
      exact ⟨node, hnode, rfl⟩
    · rw [withNewKey_same, withNewNode_relinks]
    · rw [withNewKey_same, withNewNode_relinks]
  | some =>
    rw [addNewKey_some hfind] at hadd
    obtain ⟨rfl, -⟩ := Prod.mk.inj hadd
    exact ⟨fun _ node _ hnode => ⟨node, hnode, rfl⟩, rfl, rfl⟩

theorem PersistedBut.prepare {added : KeyManager}
    (h : start.PersistedBut i added) (hsound : added.Sound)
    (hprepare : added.prepareForStorage i = some (prepared, update)) (isTaken : Bool) :
    start.Persisted (prepared.storageUpdateAesKey { update with isNew } isTaken) := by
  obtain ⟨hquiet, node, hnode, hupdate⟩ := prepareForStorage_record hprepare
  have hrecord : ({ update with isNew } : KeyUpdate).record = node.keyInfo.record := hupdate
  exact (h.quiet (hquiet.but i)).submit (hsound.touches (prepareForStorage_touches hprepare)) hnode
    hrecord (.refl prepared) isTaken

theorem Attached.addKeyAgain (h : start.Attached manager)
    (hnext : manager.addKeyAgain aesKey peerid confirmed now isTaken = some next) :
    start.Attached next := by
  refine ⟨sound_kept.addKeyAgain h.sound hnext, ?_⟩
  obtain ⟨added, i, isNew, node, confirming, prepared, update, hadd, hnode, hconfirm, hprepare, rfl⟩ :=
    addKeyAgain_cases hnext
  have hadded := addNewKey_quietBut hadd
  have hconfirming : QuietBut i added confirming := hconfirm ▸ quietBut_setNode hnode _
  have hsound : confirming.Sound :=
    (h.sound.addNewKey hadd).touches (hconfirm ▸ touches_setNode hnode rfl rfl)
  have hstorage : prepared.storage = true :=
    (prepareForStorage_record hprepare).1.storage.trans
      ((hadded.trans hconfirming).storage.trans h.stored.1)
  rw [if_pos hstorage]
  exact ⟨(storageUpdateAesKey_storage ..).trans hstorage,
    ((h.stored.2.but i).quiet (hadded.trans hconfirming)).prepare hsound hprepare isTaken⟩

theorem Attached.addKey (h : start.Attached manager)
    (hnext : manager.addKey aesKey peerid confirmed now isTaken = some next) :
    start.Attached next := by
  rcases addKey_cases hnext with ⟨-, hagain⟩ | hused
  · exact h.addKeyAgain hagain
  obtain ⟨i, accessed, changed, prepared, update, -, haccess, hprepare, hrest⟩ := hused
  obtain ⟨hbut, -⟩ := accessKey_record haccess
  have hsound := h.sound.touches (accessKey_touches haccess)
  have hstorage : prepared.storage = true :=
    (prepareForStorage_record hprepare).1.storage.trans (hbut.storage.trans h.stored.1)
  rcases hrest with ⟨-, rfl⟩ | ⟨hnone, -⟩
  · refine ⟨sound_kept.addKey h.sound hnext, (storageUpdateAesKey_storage ..).trans hstorage, ?_⟩
    exact ((h.stored.2.but i).quiet hbut).prepare hsound hprepare isTaken
  · exact absurd (hnone.symm.trans hstorage) Bool.false_ne_true

theorem Attached.getKeyByRemote {result : Option AesKey} (h : start.Attached manager)
    (hnext : manager.getKeyByRemote peerid isNew touch aesKey now isTaken = some (next, result)) :
    start.Attached next := by
  refine ⟨h.sound.getKeyByRemote hnext, ?_⟩
  rcases getKeyByRemote_cases hnext with hused | hadded | rfl
  · obtain ⟨i, accessed, changed, prepared, update, cleared, -, haccess, hprepare, hclear, heq⟩ := hused
    refine h.told haccess hprepare (fun hsound => ?_) heq
    rcases hclear with rfl | hclear
    · exact .refl cleared
    · exact (hsound.clearExpireKey hclear).2
  · obtain ⟨cleared, prepared, update, i, isAdded, added, hclear, hadd, hprepare, rfl⟩ := hadded
    obtain ⟨hsound, hremoves⟩ := h.sound.clearExpireKey hclear
    have hbut := (hremoves.quiet.but i).trans (addNewKey_quietBut hadd)
    have hstorage : prepared.storage = true :=
      (prepareForStorage_record hprepare).1.storage.trans (hbut.storage.trans h.stored.1)
    rw [if_pos hstorage]
    exact ⟨(storageUpdateAesKey_storage ..).trans hstorage,
      ((h.stored.2.but i).quiet hbut).prepare (hsound.addNewKey hadd) hprepare isTaken⟩
  · exact h.stored

theorem quiet_rehashLoop {minutes : UInt32} {passes : Nat} {found : Option NodeId}
    (hloop : rehashLoop mixHash minutes passes manager = some (next, found)) : manager.Quiet next := by
  refine rehashLoop_preserves manager.Quiet ?_ ⟨fun _ node hnode => ⟨node, hnode, rfl⟩, rfl, rfl⟩ hloop
  intro current i passed found h hfirst hpass
  obtain ⟨node, hnode, hrelinks⟩ := pass_relinks hfirst hpass
  have hrehashed : current.Quiet (current.rehashed i node minutes) := by
    refine ⟨fun j other hother => ?_, rfl, rfl⟩
    rw [node_rehashed hnode] at hother
    split at hother
    case isTrue heq => exact heq ▸ ⟨node, hnode, some.inj hother ▸ rfl⟩
    case isFalse => exact ⟨other, hother, rfl⟩
  exact h.trans (hrehashed.trans (quiet_relinks hrelinks))

theorem Attached.findByMixHash {passes : Nat} {result : Option (AesKey × Peerid)}
    (h : start.Attached manager)
    (hchange : manager.findByMixHashNoRehash mixHash = none → ∀ i node,
      Hits mixHash (minutesOf now) i (manager.startRehash (minutesOf now)) →
      manager.node i = some node →
      (node.keyInfo.update confirmed (manager.touchTime touch now)).2 = false)
    (hnext : manager.findByMixHash mixHash touch confirmed now isTaken passes = some (next, result)) :
    start.Attached next := by
  rcases findByMixHash_cases hnext with ⟨i, -, huse⟩ | ⟨hmiss, looped, found, hloop, hrest⟩
  · exact h.useKey huse
  have hquiet : manager.Quiet looped :=
    (quiet_relinks (startRehash_relinks manager (minutesOf now))).trans (quiet_rehashLoop hloop)
  have hlooped : start.Attached looped :=
    ⟨h.sound.looped hloop, hquiet.storage.trans h.stored.1, h.stored.2.quiet hquiet⟩
  rcases hrest with ⟨i, changed, node, rfl, haccess, -, -⟩ | ⟨i, -, -, huse⟩ | ⟨-, -, rfl, -⟩
  · obtain ⟨-, hsame, old, new, hold, -, hchanged, -⟩ := accessKey_record haccess
    obtain ⟨first, hfirst, heq⟩ := node_looped hloop hold
    have hhits := (rehashLoop_hits (follows_refl ..)).mp ⟨passes, looped, hloop⟩
    rw [← heq, hchange hmiss i first hhits hfirst] at hchanged
    have hsame := hsame hchanged
    exact ⟨hlooped.sound.touches (accessKey_touches haccess),
      hsame.storage.trans hlooped.stored.1, hlooped.stored.2.quiet hsame⟩
  · exact hlooped.useKey huse
  · exact hlooped

variable {call : KeyUse}

theorem Attached.use (h : start.Attached manager) (hchange : manager.SubmitsChange call)
    (hnext : manager.use call = some next) : start.Attached next := by
  obtain ⟨⟨event, now, isTaken, passes⟩, hload⟩ := call
  cases event with
  | addKey => exact h.addKey hnext
  | findByMixHash =>
    have hdone := hnext
    obtain ⟨⟨found, result⟩, hfind, rfl⟩ := map_eq_some_iff.mp hnext
    refine h.findByMixHash (fun hmiss => hchange hmiss ?_) hfind
    rw [hdone]
    rfl
  | getKeyByRemote =>
    obtain ⟨⟨got, result⟩, hget, rfl⟩ := map_eq_some_iff.mp hnext
    exact h.getKeyByRemote hget
  | loadDone aesKeys => exact absurd rfl (hload aesKeys)

/-- A search that changes the key at which it stops leaves the storage with other values. -/
theorem Attached.not_submitted (h : start.Attached manager)
    (hchange : ¬ manager.SubmitsChange call) :
    ∃ next, manager.use call = some next ∧ ¬ start.Persisted next := by
  obtain ⟨⟨event, now, isTaken, passes⟩, hload⟩ := call
  cases event with
  | addKey => exact absurd trivial hchange
  | getKeyByRemote => exact absurd trivial hchange
  | loadDone => exact absurd trivial hchange
  | findByMixHash mixHash touch confirmedByRemote =>
    simp only [SubmitsChange, not_forall] at hchange
    obtain ⟨hmiss, hdone, i, node, hhits, hnode, hchanged⟩ := hchange
    obtain ⟨next, hnext⟩ := isSome_iff_exists.mp hdone
    refine ⟨next, hnext, fun hpersisted => ?_⟩
    obtain ⟨⟨found, result⟩, hfind, rfl⟩ := map_eq_some_iff.mp hnext
    rcases findByMixHash_cases hfind with ⟨j, hfirst, -⟩ | ⟨-, looped, found, hloop, hrest⟩
    · cases hmiss.symm.trans hfirst
    obtain ⟨more, other, hmore⟩ := (rehashLoop_hits (follows_refl ..)).mpr hhits
    obtain ⟨-, rfl⟩ := Prod.mk.inj (rehashLoop_unique hloop hmore)
    rcases hrest with ⟨j, changed, third, hj, haccess, -, -⟩ | ⟨-, hnone, -⟩ | ⟨hnone, -⟩
    · cases hj
      obtain ⟨hbut, -, old, new, hold, hnew, -, hrecord⟩ := accessKey_record haccess
      obtain ⟨first, hfirst, heq⟩ := node_looped hloop hold
      obtain rfl := some.inj (hnode.symm.trans hfirst)
      have hupdates : found.updates = manager.updates :=
        hbut.updates.trans ((quiet_rehashLoop hloop).updates.trans
          (quiet_relinks (startRehash_relinks ..)).updates)
      have hafter := hpersisted i new hnew
      rw [hupdates] at hafter
      obtain ⟨hpeerid, hrest⟩ := Prod.mk.inj hrecord
      rw [← heq] at hpeerid hrest hrecord
      have hsame := hafter.unique (h.stored.2 i node hnode) hpeerid (Prod.mk.inj hrest).1
      rw [hrecord] at hsame
      exact hchanged ((update_record ..).mpr hsame)
    · cases hnone
    · cases hnone

theorem Touches.storage (h : manager.Touches next) : next.storage = manager.storage := by rw [h.same]

theorem addKeyAgain_storage
    (hnext : manager.addKeyAgain aesKey peerid confirmed now isTaken = some next) :
    next.storage = manager.storage := by
  obtain ⟨added, i, isNew, node, confirming, prepared, update, hadd, hnode, hconfirm, hprepare, rfl⟩ :=
    addKeyAgain_cases hnext
  have hconfirming : added.Touches confirming := hconfirm ▸ touches_setNode hnode rfl rfl
  have hprepared : prepared.storage = manager.storage :=
    (hconfirming.trans (prepareForStorage_touches hprepare)).storage.trans
      (addNewKey_quietBut hadd).storage
  split
  case isTrue => exact (storageUpdateAesKey_storage ..).trans hprepared
  case isFalse => exact hprepared

theorem use_storage (h : manager.Sound) (hnext : manager.use call = some next) :
    next.storage = manager.storage := by
  obtain ⟨⟨event, now, isTaken, passes⟩, hload⟩ := call
  cases event with
  | addKey =>
    rcases addKey_cases hnext with ⟨-, hagain⟩ | hused
    · exact addKeyAgain_storage hagain
    obtain ⟨i, accessed, changed, prepared, update, -, haccess, hprepare, hrest⟩ := hused
    have hprepared :=
      ((accessKey_touches haccess).trans (prepareForStorage_touches hprepare)).storage
    rcases hrest with ⟨-, rfl⟩ | ⟨-, hagain⟩
    · exact (storageUpdateAesKey_storage ..).trans hprepared
    · exact (addKeyAgain_storage hagain).trans hprepared
  | findByMixHash =>
    obtain ⟨⟨found, result⟩, hfind, rfl⟩ := map_eq_some_iff.mp hnext
    rcases findByMixHash_cases hfind with ⟨i, -, huse⟩ | ⟨-, looped, found, hloop, hrest⟩
    · exact (useKey_touches huse).storage
    have hlooped : looped.storage = manager.storage :=
      (quiet_rehashLoop hloop).storage.trans (quiet_relinks (startRehash_relinks ..)).storage
    rcases hrest with ⟨i, changed, node, -, haccess, -, -⟩ | ⟨i, -, -, huse⟩ | ⟨-, -, rfl, -⟩
    · exact (accessKey_touches haccess).storage.trans hlooped
    · exact (useKey_touches huse).storage.trans hlooped
    · exact hlooped
  | getKeyByRemote =>
    obtain ⟨⟨got, result⟩, hget, rfl⟩ := map_eq_some_iff.mp hnext
    have hupdate : ∀ (cleared : KeyManager) update (submits : Bool),
        cleared.storage = manager.storage →
        (if submits then cleared.storageUpdateAesKey update isTaken else cleared).storage =
          manager.storage := by
      intro cleared update submits hstorage
      split
      case isTrue => exact (storageUpdateAesKey_storage ..).trans hstorage
      case isFalse => exact hstorage
    rcases getKeyByRemote_cases hget with hused | hadded | rfl
    · obtain ⟨i, accessed, changed, prepared, update, cleared, -, haccess, hprepare, hclear, rfl⟩ :=
        hused
      have htouches := (accessKey_touches haccess).trans (prepareForStorage_touches hprepare)
      refine hupdate cleared update _ ?_
      rcases hclear with rfl | hclear
      · exact htouches.storage
      · exact ((h.touches htouches).clearExpireKey hclear).2.storage.trans htouches.storage
    · obtain ⟨cleared, prepared, update, i, isAdded, added, hclear, hadd, hprepare, rfl⟩ := hadded
      refine hupdate prepared _ _ ?_
      exact (prepareForStorage_touches hprepare).storage.trans
        ((addNewKey_quietBut hadd).storage.trans (h.clearExpireKey hclear).2.storage)
    · rfl
  | loadDone aesKeys => exact absurd rfl (hload aesKeys)

/-- From a state with the storage attached, the last update of each key has its values in every state,
if and only if no search changes the key at which it stops. -/
theorem key_persistence {activeTime : UInt32} {calcKeyHash : CalcKeyHash} {calls : List KeyCall}
    (hrun : exec KeyManager.next { activeTime, calcKeyHash } calls = some start)
    (hstorage : start.storage = true) (uses : List KeyUse) :
    Throughout use start.Persisted { start with updates := [] } uses ↔
      StepsMeet use SubmitsChange { start with updates := [] } uses := by
  have hsound := sound_exec hrun
  have hstart : start.Attached { start with updates := [] } :=
    ⟨hsound.touches ⟨rfl, fun _ => rfl⟩, hstorage, fun i node hnode => ⟨node, hnode, rfl⟩⟩
  have hstep : ∀ (manager : KeyManager) call next, start.Attached manager →
      manager.SubmitsChange call → manager.use call = some next → start.Attached next :=
    fun _ _ _ h hchange hnext => h.use hchange hnext
  refine throughout_iff hstart (fun _ h => h.stored.2) hstep ?_
  intro front manager call hfront hpersisted hchange
  have hkept : ∀ (manager : KeyManager) call next, manager.Sound ∧ manager.storage = true →
      manager.use call = some next → next.Sound ∧ next.storage = true :=
    fun _ _ _ h hnext => ⟨h.1.next_of hnext, (use_storage h.1 hnext).trans h.2⟩
  obtain ⟨hmanager, hattached⟩ :=
    exec_preserves hkept ⟨hstart.sound, hstart.stored.1⟩ hfront
  exact Attached.not_submitted ⟨hmanager, hattached, hpersisted⟩ hchange

/-- A key that is added after the load. -/
def plainUse : KeyUse :=
  ⟨{ event := .addKey (plainKey 1) (plainPeerid 1) false, now := 60000000, isTaken := true,
     passes := 0 }, nofun⟩

/-- The storage is given a key that is added. -/
theorem key_persistence_added :
    ∃ start : KeyManager, start.storage = true ∧
      Throughout use start.Persisted { start with updates := [] } [plainUse] := by
  obtain ⟨start, hrun, hstorage⟩ : ∃ start,
      exec KeyManager.next { activeTime := 1000, calcKeyHash := plainKeyHash }
        [{ event := .loadDone [], now := 0, isTaken := true, passes := 0 }] = some start ∧
      start.storage = true :=
    exists_of_any (by decide +kernel)
  exact ⟨start, hstorage, (key_persistence hrun hstorage [plainUse]).mpr
    (.cons trivial fun t _ => stepsMeet_nil SubmitsChange t)⟩

/-- A search four minutes later rehashes the key and confirms it, and the storage is not told. -/
theorem confirmed_key_not_stored :
    ¬ ∀ (activeTime : UInt32) (calcKeyHash : CalcKeyHash) (calls : List KeyCall)
        (start : KeyManager) (uses : List KeyUse),
      exec KeyManager.next { activeTime, calcKeyHash } calls = some start → start.storage = true →
      Throughout use start.Persisted { start with updates := [] } uses := by
  intro h
  obtain ⟨start, hrun, hstorage, hlater⟩ : ∃ start,
      exec KeyManager.next { activeTime := 1000, calcKeyHash := plainKeyHash }
        [{ event := .loadDone [], now := 0, isTaken := true, passes := 0 }] = some start ∧
      start.storage = true ∧ (exec use { start with updates := [] }
        [plainUse,
          ⟨{ event := .findByMixHash (plainKeyHash (plainKey 1) (some 5)) false true,
             now := 300000000, isTaken := true, passes := 1 }, nofun⟩]).any
        (fun manager => (manager.node 0).any fun node =>
          (lastUpdate manager.updates node.keyInfo).any fun update =>
            update.isConfirmed ≠ node.keyInfo.isConfirmed) = true :=
    exists_of_test _ (by decide +kernel) fun _ _ => id
  obtain ⟨manager, hlater, hnode⟩ := exists_of_any hlater
  obtain ⟨node, hnode, hupdate⟩ := exists_of_any hnode
  obtain ⟨update, hupdate, hne⟩ := exists_of_any hupdate
  have hrecorded := h 1000 plainKeyHash _ start _ hrun hstorage _ [] manager
    (List.append_nil _).symm hlater 0 node hnode
  unfold Recorded at hrecorded
  rw [hupdate] at hrecorded
  obtain ⟨-, hrest⟩ := Prod.mk.inj hrecorded
  obtain ⟨-, hrest⟩ := Prod.mk.inj hrest
  exact of_decide_eq_true hne (Prod.mk.inj hrest).1

end KeyManager

end Bdt
