import Bdt.History.KeyStructure

/-!
# The operations of the key manager

What each operation does, in cases, and that it keeps what is sound. `sound_exec` is what follows for
runs.
-/

namespace Bdt

open Base Option

namespace KeyManager

variable {manager next : KeyManager} {i : NodeId} {node : KeyNode} {peerid : Peerid} {aesKey : AesKey}
  {now : Nat}

/-! ## Keys that expire -/

theorem clearExpireKeys_cons {rest : List NodeId}
    (hpeerid : ∀ node, manager.node i = some node → node.keyInfo.peerid = peerid)
    (hnext : clearExpireKeys peerid now (i :: rest) manager = some next) :
    ∃ node, manager.node i = some node ∧
      clearExpireKeys peerid now rest (if secondsOf now < node.keyInfo.expireTime then manager
        else manager.withoutKey i node (minutesOf now - MIX_HASH_REDUNDANCY_MINUTES)) = some next := by
  obtain ⟨node, hnode, hnext⟩ := bind_eq_some_iff.mp hnext
  refine ⟨node, hnode, ?_⟩
  obtain rfl := hpeerid node hnode
  split at hnext
  case isTrue hkept => rwa [if_pos hkept]
  case isFalse hexpired =>
    rw [if_neg hexpired]
    rwa [deleteKey_eq hnode] at hnext

/-- Keys are removed, and the others are left as they are. -/
structure Removes (manager next : KeyManager) : Prop where
  node : ∀ i node, next.node i = some node → manager.node i = some node
  storage : next.storage = manager.storage
  updates : next.updates = manager.updates

theorem Removes.refl (manager : KeyManager) : manager.Removes manager :=
  ⟨fun _ _ h => h, rfl, rfl⟩

theorem Removes.trans {last : KeyManager} (h : manager.Removes next) (hlast : next.Removes last) :
    manager.Removes last :=
  ⟨fun i node hnode => h.node i node (hlast.node i node hnode), hlast.storage.trans h.storage,
    hlast.updates.trans h.updates⟩

theorem removes_withoutKey (h : manager.node i = some node) (minHashMinutes : UInt32) :
    manager.Removes (manager.withoutKey i node minHashMinutes) where
  node := by
    intro j other hj
    rw [node_withoutKey h] at hj
    split at hj
    case isTrue => cases hj
    case isFalse => exact hj
  storage := by
    unfold withoutKey
    rw [withoutHashs_relinks]
    rfl
  updates := by
    unfold withoutKey
    rw [withoutHashs_relinks]
    rfl

variable {result : Option (AesKey × Peerid)} {keys : List NodeId} {isNew : Bool}

theorem Sound.clearExpireKeys (h : manager.Sound)
    (hkeys : ∀ i ∈ keys, ∀ node, manager.node i = some node → node.keyInfo.peerid = peerid)
    (hnext : clearExpireKeys peerid now keys manager = some next) :
    next.Sound ∧ manager.Removes next := by
  induction keys generalizing manager with
  | nil => exact some.inj hnext ▸ ⟨h, .refl manager⟩
  | cons i _ ih =>
    have hrest := fun j hj => hkeys j (List.mem_cons_of_mem _ hj)
    obtain ⟨node, hnode, hnext⟩ := clearExpireKeys_cons (hkeys i List.mem_cons_self) hnext
    split at hnext
    case isTrue => exact ih h hrest hnext
    case isFalse =>
    have hremoves := removes_withoutKey hnode (minutesOf now - MIX_HASH_REDUNDANCY_MINUTES)
    obtain ⟨hsound, hremoved⟩ := ih (h.withoutKey hnode _)
      (fun j hj other hother => hrest j hj other (hremoves.node j other hother)) hnext
    exact ⟨hsound, hremoves.trans hremoved⟩

/-- The keys of a peer are among those that the map has for it. -/
theorem Sound.peerid_of_found (h : manager.Sound)
    (hfound : manager.findKeyByPeerid peerid = some keys) :
    ∀ i ∈ keys, ∀ node, manager.node i = some node → node.keyInfo.peerid = peerid := by
  intro i hi node hnode
  have hkeys := h.findKeyByPeerid peerid
  rw [hfound] at hkeys
  obtain ⟨other, hother, hpeerid⟩ := (h.keys peerid i).mp (hkeys ▸ hi)
  exact some.inj (hnode.symm.trans hother) ▸ hpeerid

theorem Sound.deletePeer (h : manager.Sound) (hkeys : manager.findKeyByPeerid peerid = some []) :
    (manager.deletePeer peerid).Sound :=
  { h with
    peerids := nodup_delete h.peerids
    keys := fun other i => (keysOf_deletePeer h.peerids hkeys other).symm ▸ h.keys other i
    nodup := fun other => (keysOf_deletePeer h.peerids hkeys other).symm ▸ h.nodup other }

theorem Sound.clearExpireKey (h : manager.Sound)
    (hnext : manager.clearExpireKey peerid now = some next) :
    next.Sound ∧ manager.Removes next := by
  unfold KeyManager.clearExpireKey at hnext
  split at hnext
  case h_1 => exact some.inj hnext ▸ ⟨h, .refl manager⟩
  case h_2 keys hfound =>
  obtain ⟨cleared, hcleared, rfl⟩ := map_eq_some_iff.mp hnext
  obtain ⟨hsound, hremoves⟩ := h.clearExpireKeys (h.peerid_of_found hfound) hcleared
  split
  case isTrue hnil => exact ⟨hsound.deletePeer hnil, hremoves.node, hremoves.storage, hremoves.updates⟩
  case isFalse => exact ⟨hsound, hremoves⟩

/-! ## Operations -/

variable {mixHash : MixHash} {minutes : UInt32} {confirmed isTaken touch : Bool} {expireTime : Int}

theorem Sound.addNewKey (h : manager.Sound)
    (hnext : manager.addNewKey aesKey peerid now = (next, i, isNew)) : next.Sound := by
  cases hfind : manager.findAesKey aesKey peerid with
  | none =>
    rw [addNewKey_none hfind] at hnext
    exact (Prod.mk.inj hnext).1 ▸ h.withNewKey hfind now
  | some =>
    rw [addNewKey_some hfind] at hnext
    exact (Prod.mk.inj hnext).1 ▸ h

theorem findByMixHashInNextRehashNode_eq (hfirst : manager.rehashKeyList = some i)
    (hnode : manager.node i = some node) (mixHash : MixHash) (minutes : UInt32) :
    manager.findByMixHashInNextRehashNode mixHash minutes =
      some (if node.hashs.computes manager.calcKeyHash node.keyInfo.aesKey mixHash minutes then
          (((manager.rehashed i node minutes).deleteFromRehash i).addToHeader i minutes, some i)
        else (((manager.rehashed i node minutes).deleteFromRehash i).addToTail i minutes, none)) := by
  unfold findByMixHashInNextRehashNode
  rw [hfirst]
  dsimp only
  rw [hnode]
  rfl

variable {found : Option NodeId} {passes : Nat}

theorem node_of_pass (hfirst : manager.rehashKeyList = some i)
    (hpass : manager.findByMixHashInNextRehashNode mixHash minutes = some (next, found)) :
    ∃ node, manager.node i = some node := by
  unfold findByMixHashInNextRehashNode at hpass
  rw [hfirst] at hpass
  obtain ⟨node, hnode, -⟩ := map_eq_some_iff.mp hpass
  exact ⟨node, hnode⟩

theorem relinks_deleteFromRehash (manager : KeyManager) (i : NodeId) :
    manager.Relinks (manager.deleteFromRehash i) :=
  rfl

theorem pass_relinks (hfirst : manager.rehashKeyList = some i)
    (hpass : manager.findByMixHashInNextRehashNode mixHash minutes = some (next, found)) :
    ∃ node, manager.node i = some node ∧ (manager.rehashed i node minutes).Relinks next := by
  obtain ⟨node, hnode⟩ := node_of_pass hfirst hpass
  rw [findByMixHashInNextRehashNode_eq hfirst hnode] at hpass
  refine ⟨node, hnode, (relinks_deleteFromRehash _ i).trans ?_⟩
  split at hpass
  case isTrue => exact (Prod.mk.inj (some.inj hpass)).1 ▸ relinks_addToHeader ..
  case isFalse => exact (Prod.mk.inj (some.inj hpass)).1 ▸ relinks_addToTail ..

theorem Sound.pass (h : manager.Sound) (hfirst : manager.rehashKeyList = some i)
    (hpass : manager.findByMixHashInNextRehashNode mixHash minutes = some (next, found)) :
    next.Sound := by
  obtain ⟨node, hnode, hrelinks⟩ := pass_relinks hfirst hpass
  exact (h.rehashed hnode minutes).relinks hrelinks

theorem rehashLoop_some (hfirst : manager.rehashKeyList = some i) (mixHash : MixHash)
    (minutes : UInt32) (passes : Nat) : rehashLoop mixHash minutes (passes + 1) manager =
      (manager.findByMixHashInNextRehashNode mixHash minutes).bind fun (next, found) =>
        match found with
        | some i => some (next, some i)
        | none => rehashLoop mixHash minutes passes next := by
  have hne : manager.rehashKeyList ≠ none := by
    rw [hfirst]
    exact some_ne_none i
  exact if_neg hne

theorem rehashLoop_none (hfirst : manager.rehashKeyList = none) (mixHash : MixHash)
    (minutes : UInt32) (passes : Nat) :
    rehashLoop mixHash minutes passes manager = some (manager, none) := by
  cases passes with
  | zero => exact if_pos hfirst
  | succ => exact if_pos hfirst

theorem rehashLoop_preserves (inv : KeyManager → Prop)
    (hpass : ∀ manager i next found, inv manager → manager.rehashKeyList = some i →
      manager.findByMixHashInNextRehashNode mixHash minutes = some (next, found) → inv next)
    (h : inv manager)
    (hloop : rehashLoop mixHash minutes passes manager = some (next, found)) : inv next := by
  induction passes generalizing manager with
  | zero =>
    rw [rehashLoop] at hloop
    split at hloop
    case isTrue => exact (Prod.mk.inj (some.inj hloop)).1 ▸ h
    case isFalse => cases hloop
  | succ _ ih =>
    cases hfirst : manager.rehashKeyList with
    | none =>
      rw [rehashLoop_none hfirst] at hloop
      exact (Prod.mk.inj (some.inj hloop)).1 ▸ h
    | some i =>
      rw [rehashLoop_some hfirst] at hloop
      obtain ⟨⟨passed, hit⟩, hpassed, hloop⟩ := bind_eq_some_iff.mp hloop
      have hinv := hpass manager i passed hit h hfirst hpassed
      cases hit with
      | none => exact ih hinv hloop
      | some => exact (Prod.mk.inj (some.inj hloop)).1 ▸ hinv

theorem startRehash_relinks (manager : KeyManager) (minutes : UInt32) :
    manager.Relinks (manager.startRehash minutes) := by
  unfold startRehash
  split
  case isTrue => rfl
  case isFalse => rfl

/-- How a search ends: at a key that the map has, at one that is hit in the loop, or nowhere. -/
theorem findByMixHash_cases
    (hnext : manager.findByMixHash mixHash touch confirmed now isTaken passes = some (next, result)) :
    (∃ i, manager.findByMixHashNoRehash mixHash = some i ∧
      manager.useKey i confirmed (manager.touchTime touch now) now isTaken = some (next, result)) ∨
    (manager.findByMixHashNoRehash mixHash = none ∧ ∃ looped found,
      rehashLoop mixHash (minutesOf now) passes (manager.startRehash (minutesOf now)) =
        some (looped, found) ∧
      ((∃ i changed node, found = some i ∧
          looped.accessKey i confirmed (manager.touchTime touch now) now = some (next, changed) ∧
          next.node i = some node ∧ result = some (node.keyInfo.aesKey, node.keyInfo.peerid)) ∨
        (∃ i, found = none ∧ looped.findByMixHashNoRehash mixHash = some i ∧
          looped.useKey i confirmed (manager.touchTime touch now) now isTaken = some (next, result)) ∨
        (found = none ∧ looped.findByMixHashNoRehash mixHash = none ∧ next = looped ∧
          result = none))) := by
  unfold findByMixHash at hnext
  dsimp only at hnext
  split at hnext
  case h_1 i hfind => exact .inl ⟨i, hfind, hnext⟩
  case h_2 hmiss =>
  obtain ⟨⟨looped, found⟩, hloop, hnext⟩ := bind_eq_some_iff.mp hnext
  refine .inr ⟨hmiss, looped, found, hloop, ?_⟩
  cases found with
  | some i =>
    obtain ⟨⟨accessed, changed⟩, haccess, hnext⟩ := bind_eq_some_iff.mp hnext
    obtain ⟨node, hnode, hnext⟩ := bind_eq_some_iff.mp hnext
    obtain ⟨rfl, rfl⟩ := Prod.mk.inj (some.inj hnext)
    exact .inl ⟨i, changed, node, rfl, haccess, hnode, rfl⟩
  | none =>
    cases hfind : looped.findByMixHashNoRehash mixHash with
    | some i =>
      rw [hfind] at hnext
      exact .inr (.inl ⟨i, rfl, rfl, hnext⟩)
    | none =>
      rw [hfind] at hnext
      obtain ⟨rfl, rfl⟩ := Prod.mk.inj (some.inj hnext)
      exact .inr (.inr ⟨rfl, rfl, rfl, rfl⟩)

theorem Sound.looped (h : manager.Sound)
    (hloop : rehashLoop mixHash minutes passes (manager.startRehash minutes) = some (next, found)) :
    next.Sound :=
  rehashLoop_preserves Sound (fun _ _ _ _ hsound hfirst hpass => hsound.pass hfirst hpass)
    (h.relinks (startRehash_relinks ..)) hloop

theorem Sound.findByMixHash (h : manager.Sound)
    (hnext : manager.findByMixHash mixHash touch confirmed now isTaken passes = some (next, result)) :
    next.Sound := by
  rcases findByMixHash_cases hnext with ⟨i, -, huse⟩ | ⟨-, looped, found, hloop, hrest⟩
  · exact h.touches (useKey_touches huse)
  have hlooped := h.looped hloop
  rcases hrest with ⟨i, changed, node, -, haccess, -, -⟩ | ⟨i, -, -, huse⟩ | ⟨-, -, rfl, -⟩
  · exact hlooped.touches (accessKey_touches haccess)
  · exact hlooped.touches (useKey_touches huse)
  · exact hlooped

/-- What `BdtHistory_KeyManagerGetKeyByRemote` does: it uses a key of the peer, it adds one, or it does
nothing. -/
theorem getKeyByRemote_cases {result : Option AesKey}
    (hnext : manager.getKeyByRemote peerid isNew touch aesKey now isTaken = some (next, result)) :
    (∃ i accessed changed prepared update cleared,
      manager.findLastAccessKeyByRemote peerid now = some i ∧
      manager.accessKey i false (manager.touchTime touch now) now = some (accessed, changed) ∧
      accessed.prepareForStorage i = some (prepared, update) ∧
      (cleared = prepared ∨ prepared.clearExpireKey peerid now = some cleared) ∧
      next = if changed && cleared.storage then cleared.storageUpdateAesKey update isTaken
        else cleared) ∨
    (∃ cleared prepared update i isAdded added, manager.clearExpireKey peerid now = some cleared ∧
      cleared.addNewKey aesKey peerid now = (added, i, isAdded) ∧
      added.prepareForStorage i = some (prepared, update) ∧
      next = if prepared.storage then
          prepared.storageUpdateAesKey { update with isNew := true } isTaken
        else prepared) ∨ next = manager := by
  unfold getKeyByRemote at hnext
  split at hnext
  case h_1 i hfind =>
    obtain ⟨⟨accessed, changed⟩, haccess, hnext⟩ := bind_eq_some_iff.mp hnext
    obtain ⟨⟨prepared, update⟩, hprepare, hnext⟩ := bind_eq_some_iff.mp hnext
    dsimp only at hnext
    split at hnext
    case isTrue =>
      obtain ⟨cleared, hclear, hnext⟩ := bind_eq_some_iff.mp hnext
      exact .inl ⟨i, accessed, changed, prepared, update, cleared, hfind, haccess, hprepare,
        .inr hclear, (Prod.mk.inj (some.inj hnext)).1.symm⟩
    case isFalse =>
      exact .inl ⟨i, accessed, changed, prepared, update, prepared, hfind, haccess, hprepare,
        .inl rfl, (Prod.mk.inj (some.inj hnext)).1.symm⟩
  case h_2 =>
  split at hnext
  case isTrue =>
    obtain ⟨cleared, hclear, hnext⟩ := bind_eq_some_iff.mp hnext
    obtain ⟨⟨prepared, update⟩, hprepare, hnext⟩ := bind_eq_some_iff.mp hnext
    exact .inr (.inl ⟨cleared, prepared, update, _, _, _, hclear, rfl, hprepare,
      (Prod.mk.inj (some.inj hnext)).1.symm⟩)
  case isFalse => exact .inr (.inr (Prod.mk.inj (some.inj hnext)).1.symm)

theorem addKeyAgain_cases
    (hnext : manager.addKeyAgain aesKey peerid confirmed now isTaken = some next) :
    ∃ added i isNew node confirming prepared update,
      manager.addNewKey aesKey peerid now = (added, i, isNew) ∧ added.node i = some node ∧
      confirming = added.setNode i { node with
        keyInfo := { node.keyInfo with isConfirmed := node.keyInfo.isConfirmed || confirmed } } ∧
      confirming.prepareForStorage i = some (prepared, update) ∧
      next = if prepared.storage then
          prepared.storageUpdateAesKey { update with isNew := true } isTaken
        else prepared := by
  obtain ⟨node, hnode, hnext⟩ := bind_eq_some_iff.mp hnext
  obtain ⟨⟨prepared, update⟩, hprepare, hnext⟩ := bind_eq_some_iff.mp hnext
  exact ⟨_, _, _, node, _, prepared, update, rfl, hnode, rfl, hprepare, (some.inj hnext).symm⟩

theorem addKey_cases (hnext : manager.addKey aesKey peerid confirmed now isTaken = some next) :
    manager.findAesKey aesKey peerid = none ∧
      manager.addKeyAgain aesKey peerid confirmed now isTaken = some next ∨
    ∃ i accessed changed prepared update, manager.findAesKey aesKey peerid = some i ∧
      manager.accessKey i confirmed (manager.touchTime true now) now = some (accessed, changed) ∧
      accessed.prepareForStorage i = some (prepared, update) ∧
      (prepared.storage = true ∧ next = prepared.storageUpdateAesKey update isTaken ∨
        prepared.storage = false ∧
          prepared.addKeyAgain aesKey peerid confirmed now isTaken = some next) := by
  unfold addKey at hnext
  split at hnext
  case h_1 hfind => exact .inl ⟨hfind, hnext⟩
  case h_2 i hfind =>
  obtain ⟨⟨accessed, changed⟩, haccess, hnext⟩ := bind_eq_some_iff.mp hnext
  obtain ⟨⟨prepared, update⟩, hprepare, hnext⟩ := bind_eq_some_iff.mp hnext
  refine .inr ⟨i, accessed, changed, prepared, update, hfind, haccess, hprepare, ?_⟩
  dsimp only at hnext
  split at hnext
  case isTrue hstorage => exact .inl ⟨hstorage, (some.inj hnext).symm⟩
  case isFalse hstorage => exact .inr ⟨Bool.eq_false_iff.mpr hstorage, hnext⟩

theorem addOuterKey_cases {outerKeyInfo : KeyInfo}
    (hnext : manager.addOuterKey outerKeyInfo now = some next) :
    ∃ added i isNew,
      manager.addNewKey outerKeyInfo.aesKey outerKeyInfo.peerid now = (added, i, isNew) ∧
      added.Touches next := by
  refine ⟨_, _, _, rfl, ?_⟩
  unfold addOuterKey at hnext
  dsimp only at hnext
  split at hnext
  case isTrue =>
    obtain ⟨node, hnode, rfl⟩ := map_eq_some_iff.mp hnext
    exact touches_setNode hnode rfl rfl
  case isFalse => exact some.inj hnext ▸ .refl _

/-- What changes of the keys, new keys and the storage keep. -/
structure KeptByKeys (inv : KeyManager → Prop) : Prop where
  touches : ∀ {manager next}, inv manager → manager.Touches next → inv next
  addNewKey : ∀ {manager next aesKey peerid now i isNew}, inv manager →
    manager.addNewKey aesKey peerid now = (next, i, isNew) → inv next
  store : ∀ {manager}, inv manager → inv { manager with storage := true }

namespace KeptByKeys

variable {inv : KeyManager → Prop}

variable (hinv : KeptByKeys inv)
include hinv

section

variable (h : inv manager)
include h

theorem storageUpdateAesKey (update : KeyUpdate) (submits isTaken : Bool) :
    inv (if submits then manager.storageUpdateAesKey update isTaken else manager) := by
  split
  case isTrue => exact hinv.touches h (storageUpdateAesKey_touches ..)
  case isFalse => exact h

theorem addKeyAgain
    (hnext : manager.addKeyAgain aesKey peerid confirmed now isTaken = some next) : inv next := by
  obtain ⟨added, i, isNew, node, confirming, prepared, update, hadd, hnode, hconfirm, hprepare, rfl⟩ :=
    addKeyAgain_cases hnext
  have hconfirming : added.Touches confirming := hconfirm ▸ touches_setNode hnode rfl rfl
  have hprepared := hconfirming.trans (prepareForStorage_touches hprepare)
  exact hinv.storageUpdateAesKey (hinv.touches (hinv.addNewKey h hadd) hprepared) ..

theorem addKey
    (hnext : manager.addKey aesKey peerid confirmed now isTaken = some next) : inv next := by
  rcases addKey_cases hnext with ⟨-, hagain⟩ | hused
  · exact hinv.addKeyAgain h hagain
  obtain ⟨i, accessed, changed, prepared, update, -, haccess, hprepare, hrest⟩ := hused
  have hprepared : inv prepared :=
    hinv.touches h ((accessKey_touches haccess).trans (prepareForStorage_touches hprepare))
  rcases hrest with ⟨-, rfl⟩ | ⟨-, hagain⟩
  · exact hinv.touches hprepared (storageUpdateAesKey_touches ..)
  · exact hinv.addKeyAgain hprepared hagain

theorem onLoadDone {aesKeys : List KeyInfo}
    (hnext : manager.onLoadDone aesKeys now = some next) : inv next := by
  have hstored := hinv.store h
  unfold KeyManager.onLoadDone at hnext
  generalize { manager with storage := true } = stored at hstored hnext
  induction aesKeys generalizing stored with
  | nil => exact some.inj hnext ▸ hstored
  | cons _ _ ih =>
    obtain ⟨loaded, hload, hnext⟩ := bind_eq_some_iff.mp hnext
    obtain ⟨added, i, isNew, hadd, htouches⟩ := addOuterKey_cases hload
    exact ih loaded (hinv.touches (hinv.addNewKey hstored hadd) htouches) hnext

/-- The keys of a peer are cleared after one of them was used, or before one is added. -/
theorem getKeyByRemote {isNew : Bool} {result : Option AesKey}
    (hused : ∀ i accessed changed prepared update cleared,
      manager.findLastAccessKeyByRemote peerid now = some i →
      manager.accessKey i false (manager.touchTime touch now) now = some (accessed, changed) →
      accessed.prepareForStorage i = some (prepared, update) → inv prepared →
      prepared.clearExpireKey peerid now = some cleared → inv cleared)
    (hclear : ∀ cleared, manager.clearExpireKey peerid now = some cleared → inv cleared)
    (hnext : manager.getKeyByRemote peerid isNew touch aesKey now isTaken = some (next, result)) :
    inv next := by
  rcases getKeyByRemote_cases hnext with hcase | hcase | rfl
  · obtain ⟨i, accessed, changed, prepared, update, cleared, hfind, haccess, hprepare, hcleared, rfl⟩ :=
      hcase
    have hprepared : inv prepared :=
      hinv.touches h ((accessKey_touches haccess).trans (prepareForStorage_touches hprepare))
    refine hinv.storageUpdateAesKey ?_ ..
    rcases hcleared with rfl | hcleared
    · exact hprepared
    · exact hused i accessed changed prepared update cleared hfind haccess hprepare hprepared hcleared
  · obtain ⟨cleared, prepared, update, i, isAdded, added, hcleared, hadd, hprepare, rfl⟩ := hcase
    refine hinv.storageUpdateAesKey ?_ ..
    exact hinv.touches (hinv.addNewKey (hclear cleared hcleared) hadd)
      (prepareForStorage_touches hprepare)
  · exact h

end

end KeptByKeys

theorem sound_kept : KeptByKeys Sound where
  touches h hnext := h.touches hnext
  addNewKey h hadd := h.addNewKey hadd
  store h := ⟨h.peerids, h.keys, h.nodup, h.hashs, h.valid, h.distinct⟩

theorem Sound.getKeyByRemote {isNew : Bool} {result : Option AesKey} (h : manager.Sound)
    (hnext : manager.getKeyByRemote peerid isNew touch aesKey now isTaken = some (next, result)) :
    next.Sound :=
  sound_kept.getKeyByRemote h (fun _ _ _ _ _ _ _ _ _ hprepared hclear => (hprepared.clearExpireKey hclear).1)
    (fun _ hclear => (h.clearExpireKey hclear).1) hnext

theorem Sound.next_of {call : KeyCall} (h : manager.Sound) (hnext : manager.next call = some next) :
    next.Sound := by
  unfold KeyManager.next at hnext
  split at hnext
  case h_1 => exact sound_kept.addKey h hnext
  case h_2 =>
    obtain ⟨⟨found, result⟩, hfind, rfl⟩ := map_eq_some_iff.mp hnext
    exact h.findByMixHash hfind
  case h_3 =>
    obtain ⟨⟨got, result⟩, hget, rfl⟩ := map_eq_some_iff.mp hnext
    exact h.getKeyByRemote hget
  case h_4 => exact sound_kept.onLoadDone h hnext

theorem sound_create (activeTime : UInt32) (calcKeyHash : CalcKeyHash) :
    Sound { activeTime, calcKeyHash } where
  peerids := List.nodup_nil
  keys _ _ := iff_of_false List.not_mem_nil fun ⟨_, hnode, _⟩ => nomatch hnode
  nodup _ := List.nodup_nil
  hashs _ _ := rfl
  valid _ _ hnode := nomatch hnode
  distinct _ _ _ _ hnode := nomatch hnode

theorem sound_exec {activeTime : UInt32} {calcKeyHash : CalcKeyHash} {calls : List KeyCall}
    (hrun : exec KeyManager.next { activeTime, calcKeyHash } calls = some manager) : manager.Sound :=
  exec_preserves (fun _ _ _ h hnext => Sound.next_of h hnext) (sound_create activeTime calcKeyHash) hrun

/-- The maps have the keys, and no two keys are the same, whatever is called and when. -/
theorem key_maps_sound (activeTime : UInt32) (calcKeyHash : CalcKeyHash) (calls : List KeyCall) :
    Throughout KeyManager.next Sound { activeTime, calcKeyHash } calls :=
  fun _ _ _ _ hfront => sound_exec hfront

end KeyManager

end Bdt
