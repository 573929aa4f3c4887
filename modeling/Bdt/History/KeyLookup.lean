import Bdt.History.KeyOperations

/-!
# Keys that are found by a hash

A search for a hash that the map does not have rehashes the keys that are in the second list, in the
order in which their pointers lead from one to the next. `Hits` says which key it stops at.

`mixHash_lookup`: the keys that a hash asks for are found if and only if each of them is the only one
with its AES key and either has the hash, or is the key at which the search stops.
-/

namespace Bdt

open Base List Option

namespace MixHashs

/-- A hash is among those of a key. -/
def Has (hashs : MixHashs) (mixHash : MixHash) : Prop :=
  ∃ info ∈ hashs.infos, info.hash = mixHash

theorem computes_rehash (hashs : MixHashs) (calcKeyHash : CalcKeyHash) (aesKey : AesKey)
    (mixHash : MixHash) (minutes : UInt32) :
    (hashs.rehash calcKeyHash aesKey minutes).1.computes calcKeyHash aesKey mixHash minutes =
      false := by
  unfold computes
  rw [rehash_rehash]
  rfl

end MixHashs

namespace KeyManager

variable {manager lists next : KeyManager} {i j : NodeId} {node other : KeyNode} {mixHash : MixHash}
  {minutes : UInt32}

/-! ## Where a search stops -/

/-- A key that is not the one goes to the end of the other list. -/
def passOver (manager : KeyManager) (i : NodeId) (minutes : UInt32) : KeyManager :=
  (manager.deleteFromRehash i).addToTail i minutes

/-- Whether the hashes that a key gets now have the one that is looked for. -/
def wouldHit (manager : KeyManager) (mixHash : MixHash) (minutes : UInt32) (i : NodeId) : Option Bool :=
  (manager.node i).map fun node =>
    node.hashs.computes manager.calcKeyHash node.keyInfo.aesKey mixHash minutes

/-- The first key that would be hit, in the order of the pointers, and no freed key comes before it. -/
inductive Hits (mixHash : MixHash) (minutes : UInt32) (i : NodeId) : KeyManager → Prop where
  | here {manager : KeyManager} (hfirst : manager.rehashKeyList = some i)
      (hhit : manager.wouldHit mixHash minutes i = some true) : Hits mixHash minutes i manager
  | later {manager : KeyManager} {j : NodeId} (hfirst : manager.rehashKeyList = some j)
      (hmiss : manager.wouldHit mixHash minutes j = some false)
      (hrest : Hits mixHash minutes i (manager.passOver j minutes)) : Hits mixHash minutes i manager

/-- The pointers that a search follows. -/
def pointers (manager : KeyManager) : Links NodeId × Option NodeId × Option NodeId × Option NodeId :=
  (manager.links, manager.header, manager.tail, manager.rehashKeyList)

theorem pointers_passOver (h : manager.pointers = lists.pointers) (i : NodeId) (minutes : UInt32) :
    (manager.passOver i minutes).pointers = (lists.passOver i minutes).pointers := by
  obtain ⟨hlinks, h⟩ := Prod.mk.inj h
  obtain ⟨hheader, h⟩ := Prod.mk.inj h
  obtain ⟨htail, hrehash⟩ := Prod.mk.inj h
  unfold passOver addToTail deleteFromRehash pointers
  dsimp only
  rw [hlinks, hheader, htail, hrehash]
  split
  case isTrue => rfl
  case isFalse => rfl

theorem wouldHit_passOver (manager : KeyManager) (mixHash : MixHash) (minutes : UInt32)
    (i j : NodeId) :
    (manager.passOver i minutes).wouldHit mixHash minutes j = manager.wouldHit mixHash minutes j := by
  unfold passOver
  rw [relinks_addToTail]
  rfl

/-- A key that was rehashed is not hit in the same minute. -/
theorem wouldHit_rehashed (hnode : manager.node i = some node) (mixHash : MixHash) (minutes : UInt32)
    (j : NodeId) : (manager.rehashed i node minutes).wouldHit mixHash minutes j =
      if j = i then some false else manager.wouldHit mixHash minutes j := by
  unfold wouldHit
  rw [node_rehashed hnode]
  split
  case isTrue =>
    exact congrArg some (node.hashs.computes_rehash manager.calcKeyHash node.keyInfo.aesKey mixHash
      minutes)
  case isFalse => rfl

/-- The keys of one manager would be hit like those of another one, with the same pointers. -/
structure Follows (mixHash : MixHash) (minutes : UInt32) (manager lists : KeyManager) : Prop where
  pointers : manager.pointers = lists.pointers
  wouldHit : ∀ i, manager.wouldHit mixHash minutes i = lists.wouldHit mixHash minutes i

theorem Follows.rehashKeyList (h : Follows mixHash minutes manager lists) :
    manager.rehashKeyList = lists.rehashKeyList :=
  (Prod.mk.inj (Prod.mk.inj (Prod.mk.inj h.pointers).2).2).2

theorem Follows.passOver (h : Follows mixHash minutes manager lists)
    (hnode : manager.node i = some node) (hmiss : lists.wouldHit mixHash minutes i = some false) :
    Follows mixHash minutes ((manager.rehashed i node minutes).passOver i minutes)
      (lists.passOver i minutes) := by
  have hpointers : (manager.rehashed i node minutes).pointers = lists.pointers := h.pointers
  refine ⟨pointers_passOver hpointers i minutes, fun j => ?_⟩
  rw [wouldHit_passOver, wouldHit_passOver, wouldHit_rehashed hnode]
  split
  case isTrue heq => exact heq ▸ hmiss.symm
  case isFalse => exact h.wouldHit j

theorem pass_eq {hit : Bool} (hfirst : manager.rehashKeyList = some i)
    (hhit : manager.wouldHit mixHash minutes i = some hit) :
    ∃ node, manager.node i = some node ∧
      manager.findByMixHashInNextRehashNode mixHash minutes =
        some (if hit then
            (((manager.rehashed i node minutes).deleteFromRehash i).addToHeader i minutes, some i)
          else ((manager.rehashed i node minutes).passOver i minutes, none)) := by
  obtain ⟨node, hnode, rfl⟩ := map_eq_some_iff.mp hhit
  exact ⟨node, hnode, findByMixHashInNextRehashNode_eq hfirst hnode mixHash minutes⟩

/-- The loop stops where the pointers lead to a hit, and does if it may take enough passes. -/
theorem rehashLoop_hits (h : Follows mixHash minutes manager lists) :
    (∃ passes next, rehashLoop mixHash minutes passes manager = some (next, some i)) ↔
      Hits mixHash minutes i lists := by
  constructor
  · intro ⟨passes, next, hloop⟩
    induction passes generalizing manager lists with
    | zero =>
      rw [rehashLoop] at hloop
      split at hloop
      case isTrue => cases hloop
      case isFalse => cases hloop
    | succ _ ih =>
      cases hfirst : manager.rehashKeyList with
      | none =>
        rw [rehashLoop_none hfirst] at hloop
        cases hloop
      | some j =>
        have hlists := h.rehashKeyList.symm.trans hfirst
        rw [rehashLoop_some hfirst] at hloop
        obtain ⟨⟨passed, found⟩, hpass, hloop⟩ := bind_eq_some_iff.mp hloop
        obtain ⟨node, hnode⟩ := node_of_pass hfirst hpass
        obtain ⟨hit, hhit⟩ : ∃ hit, manager.wouldHit mixHash minutes j = some hit :=
          ⟨_, congrArg _ hnode⟩
        obtain ⟨node, hnode, heq⟩ := pass_eq hfirst hhit
        rw [heq] at hpass
        rw [h.wouldHit] at hhit
        cases hit with
        | true =>
          obtain ⟨-, rfl⟩ := Prod.mk.inj (some.inj hpass)
          obtain ⟨-, hij⟩ := Prod.mk.inj (some.inj hloop)
          exact some.inj hij ▸ .here hlists hhit
        | false =>
          obtain ⟨rfl, rfl⟩ := Prod.mk.inj (some.inj hpass)
          exact .later hlists hhit (ih (h.passOver hnode hhit) hloop)
  intro hhits
  induction hhits generalizing manager with
  | here hlists hhit =>
    have hfirst := h.rehashKeyList.trans hlists
    rw [← h.wouldHit] at hhit
    obtain ⟨node, -, heq⟩ := pass_eq hfirst hhit
    refine ⟨1, ((manager.rehashed i node minutes).deleteFromRehash i).addToHeader i minutes, ?_⟩
    rw [rehashLoop_some hfirst, heq]
    rfl
  | later hlists hmiss _ ih =>
    have hfirst := h.rehashKeyList.trans hlists
    obtain ⟨node, hnode, heq⟩ := pass_eq hfirst ((h.wouldHit _).trans hmiss)
    obtain ⟨passes, next, hloop⟩ := ih (h.passOver hnode hmiss)
    refine ⟨passes + 1, next, ?_⟩
    rw [rehashLoop_some hfirst, heq]
    exact hloop

variable {passes : Nat}

theorem rehashLoop_keyInfo {found : Option NodeId}
    (hloop : rehashLoop mixHash minutes passes manager = some (next, found)) (i : NodeId) :
    (next.node i).map (·.keyInfo) = (manager.node i).map (·.keyInfo) := by
  refine rehashLoop_preserves
    (fun next => (next.node i).map (·.keyInfo) = (manager.node i).map (·.keyInfo)) ?_ rfl hloop
  intro current j passed found h hfirst hpass
  obtain ⟨node, hnode, hrelinks⟩ := pass_relinks hfirst hpass
  have hpassed : passed.node i = (current.rehashed j node minutes).node i := by rw [hrelinks]; rfl
  rw [← h, hpassed, node_rehashed hnode]
  split
  case isTrue heq =>
    rw [heq, hnode]
    rfl
  case isFalse => rfl

theorem findByMixHashNoRehash_none :
    manager.findByMixHashNoRehash mixHash = none ↔
      ∀ entry ∈ manager.mixHashKeyMap, entry.info.hash ≠ mixHash := by
  unfold findByMixHashNoRehash
  rw [map_eq_none_iff, find?_eq_none]
  exact forall₂_congr fun entry _ => not_congr decide_eq_true_iff

theorem mem_foldl_replaceInMap {i : NodeId} {changes : List (MixHashInfo × MixHashInfo)}
    {map : List MixHashKey} {entry : MixHashKey} (h : entry ∈ changes.foldl (replaceInMap i) map) :
    entry ∈ map ∨ ∃ change ∈ changes, entry.info = change.2 := by
  induction changes generalizing map with
  | nil => exact .inl h
  | cons change _ ih =>
    rcases ih h with hmap | ⟨later, hlater, hinfo⟩
    · rcases mem_cons.mp hmap with rfl | hold
      · exact .inr ⟨change, mem_cons_self, rfl⟩
      · exact .inl (mem_of_mem_erase hold)
    · exact .inr ⟨later, mem_cons_of_mem _ hlater, hinfo⟩

/-- A hash that is not in the map is not in it when the loop has ended without a hit. -/
theorem rehashLoop_miss (hmap : manager.findByMixHashNoRehash mixHash = none)
    (hloop : rehashLoop mixHash minutes passes manager = some (next, none)) :
    next.findByMixHashNoRehash mixHash = none := by
  induction passes generalizing manager with
  | zero =>
    rw [rehashLoop] at hloop
    split at hloop
    case isTrue => exact (Prod.mk.inj (some.inj hloop)).1 ▸ hmap
    case isFalse => cases hloop
  | succ _ ih =>
    cases hfirst : manager.rehashKeyList with
    | none =>
      rw [rehashLoop_none hfirst] at hloop
      exact (Prod.mk.inj (some.inj hloop)).1 ▸ hmap
    | some =>
      rw [rehashLoop_some hfirst] at hloop
      obtain ⟨⟨passed, found⟩, hpass, hloop⟩ := bind_eq_some_iff.mp hloop
      cases found with
      | some => cases hloop
      | none =>
        refine ih ?_ hloop
        obtain ⟨node, hnode⟩ := node_of_pass hfirst hpass
        rw [findByMixHashInNextRehashNode_eq hfirst hnode] at hpass
        split at hpass
        case isTrue => cases hpass
        case isFalse hmiss =>
        obtain rfl := (Prod.mk.inj (some.inj hpass)).1
        rw [relinks_addToTail]
        rw [findByMixHashNoRehash_none] at hmap ⊢
        intro entry hentry
        rcases mem_foldl_replaceInMap hentry with hold | ⟨change, hchange, hinfo⟩
        · exact hmap entry hold
        · intro hhash
          refine hmiss (any_eq_true.mpr ⟨change, hchange, ?_⟩)
          exact decide_eq_true (hinfo ▸ hhash)

/-! ## What a hash asks for -/

/-- A hash is the original one of a key, or the one for a minute in the window. -/
def Asks (calcKeyHash : CalcKeyHash) (aesKey : AesKey) (mixHash : MixHash) (minutes : UInt32) : Prop :=
  mixHash = calcKeyHash aesKey none ∨
    ∃ k : Fin 3, mixHash =
      calcKeyHash aesKey (some (minutes - MIX_HASH_REDUNDANCY_MINUTES + UInt32.ofNat k.val))

/-- No two AES keys have the hash that is looked for. -/
def DistinctHashes (manager : KeyManager) (mixHash : MixHash) : Prop :=
  ∀ i node j other, manager.node i = some node → manager.node j = some other →
    ∀ x y, manager.calcKeyHash node.keyInfo.aesKey x = mixHash →
      manager.calcKeyHash other.keyInfo.aesKey y = mixHash → node.keyInfo.aesKey = other.keyInfo.aesKey

/-- No other peer has the same AES key. -/
def Unshared (manager : KeyManager) (i : NodeId) (aesKey : AesKey) : Prop :=
  ∀ j other, manager.node j = some other → other.keyInfo.aesKey = aesKey → j = i

/-- A search finds a key and its peer, if it may take enough passes. -/
def Finds (manager : KeyManager) (mixHash : MixHash) (touch confirmed : Bool) (now : Nat)
    (isTaken : Bool) (keyInfo : KeyInfo) : Prop :=
  ∃ passes next, manager.findByMixHash mixHash touch confirmed now isTaken passes =
    some (next, some (keyInfo.aesKey, keyInfo.peerid))

theorem Asks.exists {calcKeyHash : CalcKeyHash} {aesKey : AesKey}
    (h : Asks calcKeyHash aesKey mixHash minutes) : ∃ x, calcKeyHash aesKey x = mixHash := by
  rcases h with h | ⟨k, h⟩
  · exact ⟨none, h.symm⟩
  · exact ⟨_, h.symm⟩

theorem Sound.hash_of_mem (h : manager.Sound) (hnode : manager.node i = some node) {info : MixHashInfo}
    (hinfo : info ∈ node.hashs.infos) :
    ∃ x, manager.calcKeyHash node.keyInfo.aesKey x = info.hash := by
  have hvalid := h.valid i node hnode
  rcases mem_cons.mp hinfo with rfl | hmem
  · rw [hvalid.originalHash]
    exact ⟨none, rfl⟩
  · obtain ⟨k, -, rfl⟩ := mem_map.mp hmem
    rw [hvalid.withAppend]
    exact ⟨some _, rfl⟩

theorem Sound.found (h : manager.Sound) (hfind : manager.findByMixHashNoRehash mixHash = some i) :
    ∃ node, manager.node i = some node ∧ node.hashs.Has mixHash := by
  obtain ⟨entry, hentry, rfl⟩ := map_eq_some_iff.mp hfind
  have hhash := find?_some hentry
  have hcount : 0 < manager.mixHashKeyMap.count { keyNode := entry.keyNode, info := entry.info } :=
    count_pos_iff.mpr (mem_of_find?_eq_some hentry)
  rw [h.hashs] at hcount
  unfold hashCount at hcount
  cases hnode : manager.node entry.keyNode with
  | none =>
    rw [hnode] at hcount
    cases hcount
  | some node =>
    rw [hnode] at hcount
    exact ⟨node, rfl, entry.info, count_pos_iff.mp hcount, of_decide_eq_true hhash⟩

theorem Sound.finds (h : manager.Sound) (hnode : manager.node i = some node)
    (hhas : node.hashs.Has mixHash) : ∃ j, manager.findByMixHashNoRehash mixHash = some j := by
  obtain ⟨info, hinfo, hhash⟩ := hhas
  cases hfind : manager.findByMixHashNoRehash mixHash with
  | some j => exact ⟨j, rfl⟩
  | none =>
    refine absurd hhash (findByMixHashNoRehash_none.mp hfind { keyNode := i, info } ?_)
    rw [← count_pos_iff, h.hashs]
    unfold hashCount
    rw [hnode]
    exact count_pos_iff.mpr hinfo

theorem useKey_result (hnode : manager.node i = some node) (confirmed : Bool) (expireTime : Int)
    (now : Nat) (isTaken : Bool) :
    ∃ next, manager.useKey i confirmed expireTime now isTaken =
      some (next, some (node.keyInfo.aesKey, node.keyInfo.peerid)) := by
  have haccess : ∃ accessed changed,
      manager.accessKey i confirmed expireTime now = some (accessed, changed) := by
    unfold accessKey
    rw [hnode]
    exact ⟨_, _, rfl⟩
  obtain ⟨accessed, changed, haccess⟩ := haccess
  obtain ⟨new, hnew, hpeerid, haesKey, -⟩ := (accessKey_touches haccess).node_to hnode
  unfold useKey
  rw [haccess]
  dsimp only [bind, Option.bind]
  unfold prepareForStorage
  rw [hnew]
  exact ⟨_, by rw [← hpeerid, ← haesKey]; rfl⟩

theorem useKey_found {confirmed isTaken : Bool} {expireTime : Int} {now : Nat}
    {found : Option (AesKey × Peerid)} (hnode : manager.node i = some node)
    (huse : manager.useKey i confirmed expireTime now isTaken = some (next, found)) :
    found = some (node.keyInfo.aesKey, node.keyInfo.peerid) := by
  obtain ⟨other, hother⟩ := useKey_result hnode confirmed expireTime now isTaken
  exact (Prod.mk.inj (some.inj (huse.symm.trans hother))).2

section

variable {found : Option NodeId}
  (hloop : rehashLoop mixHash minutes passes (manager.startRehash minutes) = some (next, found))
include hloop

theorem keyInfo_looped (i : NodeId) : (next.node i).map (·.keyInfo) = (manager.node i).map (·.keyInfo) := by
  rw [rehashLoop_keyInfo hloop, startRehash_relinks]
  rfl

theorem node_looped (hnode : next.node i = some node) :
    ∃ old, manager.node i = some old ∧ old.keyInfo = node.keyInfo := by
  have hsame := keyInfo_looped hloop i
  rw [hnode] at hsame
  exact map_eq_some_iff.mp hsame.symm

end

theorem follows_refl (mixHash : MixHash) (minutes : UInt32) (manager : KeyManager) :
    Follows mixHash minutes manager manager :=
  ⟨rfl, fun _ => rfl⟩

variable {touch confirmed isTaken : Bool} {now : Nat}

/-- A search that finds a key found one that has the hash, or stopped at one. -/
theorem Sound.of_finds (h : manager.Sound) {keyInfo : KeyInfo}
    (hfinds : manager.Finds mixHash touch confirmed now isTaken keyInfo) :
    ∃ i node, manager.node i = some node ∧ node.keyInfo.aesKey = keyInfo.aesKey ∧
      node.keyInfo.peerid = keyInfo.peerid ∧
      (node.hashs.Has mixHash ∨
        Hits mixHash (minutesOf now) i (manager.startRehash (minutesOf now))) := by
  obtain ⟨passes, next, hfind⟩ := hfinds
  rcases findByMixHash_cases hfind with ⟨i, hfirst, hused⟩ | ⟨hmiss, looped, found, hloop, hrest⟩
  · obtain ⟨node, hnode, hhas⟩ := h.found hfirst
    obtain ⟨haesKey, hpeerid⟩ := Prod.mk.inj (some.inj (useKey_found hnode hused))
    exact ⟨i, node, hnode, haesKey.symm, hpeerid.symm, .inl hhas⟩
  rcases hrest with ⟨i, changed, node, rfl, haccess, hnode, hresult⟩ | ⟨i, rfl, hagain, -⟩ |
    ⟨-, -, -, hresult⟩
  · obtain ⟨found, hfound, hpeerid, haesKey, -⟩ := (accessKey_touches haccess).node_of hnode
    obtain ⟨old, hold, hinfo⟩ := node_looped hloop hfound
    obtain ⟨haesKey', hpeerid'⟩ := Prod.mk.inj (some.inj hresult)
    refine ⟨i, old, hold, ?_, ?_, .inr ?_⟩
    · rw [hinfo, haesKey, haesKey']
    · rw [hinfo, hpeerid, hpeerid']
    · exact (rehashLoop_hits (follows_refl ..)).mp ⟨passes, looped, hloop⟩
  · have hnone : (manager.startRehash (minutesOf now)).findByMixHashNoRehash mixHash = none := by
      rw [startRehash_relinks]
      exact hmiss
    rw [rehashLoop_miss hnone hloop] at hagain
    cases hagain
  · cases hresult

theorem finds_of_map (hfind : manager.findByMixHashNoRehash mixHash = some i)
    (hnode : manager.node i = some node) (touch confirmed : Bool) (now : Nat) (isTaken : Bool) :
    manager.Finds mixHash touch confirmed now isTaken node.keyInfo := by
  obtain ⟨next, huse⟩ := useKey_result hnode confirmed (manager.touchTime touch now) now isTaken
  refine ⟨0, next, ?_⟩
  unfold findByMixHash
  rw [hfind]
  exact huse

theorem finds_of_hits (hmiss : manager.findByMixHashNoRehash mixHash = none)
    (hhits : Hits mixHash (minutesOf now) i (manager.startRehash (minutesOf now)))
    (hnode : manager.node i = some node) (touch confirmed isTaken : Bool) :
    manager.Finds mixHash touch confirmed now isTaken node.keyInfo := by
  obtain ⟨passes, looped, hloop⟩ := (rehashLoop_hits (follows_refl ..)).mpr hhits
  have hsame := keyInfo_looped hloop i
  rw [hnode] at hsame
  obtain ⟨found, hfound, hinfo⟩ := map_eq_some_iff.mp hsame
  have haccess : ∃ next changed, looped.accessKey i confirmed (manager.touchTime touch now) now =
      some (next, changed) := by
    unfold accessKey
    rw [hfound]
    exact ⟨_, _, rfl⟩
  obtain ⟨next, changed, haccess⟩ := haccess
  obtain ⟨new, hnew, hpeerid, haesKey, -⟩ := (accessKey_touches haccess).node_to hfound
  refine ⟨passes, next, ?_⟩
  unfold findByMixHash
  rw [hmiss]
  dsimp only
  rw [hloop]
  dsimp only [bind, Option.bind]
  rw [haccess]
  dsimp only
  rw [hnew]
  dsimp only
  rw [haesKey, hpeerid, hinfo]

/-- The loop ends in one way, however many passes it may take. -/
theorem rehashLoop_unique {more : Nat} {result other : KeyManager × Option NodeId}
    (h : rehashLoop mixHash minutes passes manager = some result)
    (hmore : rehashLoop mixHash minutes more manager = some other) : result = other := by
  induction passes generalizing manager more with
  | zero =>
    rw [rehashLoop] at h
    split at h
    case isTrue hfirst =>
      rw [rehashLoop_none hfirst] at hmore
      exact some.inj (h.symm.trans hmore)
    case isFalse => cases h
  | succ _ ih =>
    cases hfirst : manager.rehashKeyList with
    | none =>
      rw [rehashLoop_none hfirst] at h hmore
      exact some.inj (h.symm.trans hmore)
    | some =>
      cases more with
      | zero =>
        rw [rehashLoop, hfirst] at hmore
        cases hmore
      | succ =>
        rw [rehashLoop_some hfirst] at h hmore
        obtain ⟨⟨passed, found⟩, hpass, h⟩ := bind_eq_some_iff.mp h
        rw [hpass] at hmore
        cases found with
        | some => exact some.inj (h.symm.trans hmore)
        | none => exact ih h hmore

theorem findByMixHash_unique {more : Nat} {result other : KeyManager × Option (AesKey × Peerid)}
    (h : manager.findByMixHash mixHash touch confirmed now isTaken passes = some result)
    (hmore : manager.findByMixHash mixHash touch confirmed now isTaken more = some other) :
    result = other := by
  unfold findByMixHash at h hmore
  cases hfirst : manager.findByMixHashNoRehash mixHash with
  | some =>
    rw [hfirst] at h hmore
    exact some.inj (h.symm.trans hmore)
  | none =>
    rw [hfirst] at h hmore
    obtain ⟨looped, hloop, h⟩ := bind_eq_some_iff.mp h
    obtain ⟨looped', hloop', hmore⟩ := bind_eq_some_iff.mp hmore
    obtain rfl := rehashLoop_unique hloop hloop'
    exact some.inj (h.symm.trans hmore)

theorem finds_unique {keyInfo other : KeyInfo}
    (h : manager.Finds mixHash touch confirmed now isTaken keyInfo)
    (hother : manager.Finds mixHash touch confirmed now isTaken other) :
    keyInfo.aesKey = other.aesKey ∧ keyInfo.peerid = other.peerid := by
  obtain ⟨passes, next, h⟩ := h
  obtain ⟨more, final, hother⟩ := hother
  obtain ⟨-, hsame⟩ := Prod.mk.inj (findByMixHash_unique h hother)
  exact Prod.mk.inj (some.inj hsame)

/-- The keys that a hash asks for are found, if and only if each of them is the only one with its AES
key and either has the hash, or is the one at which the search stops. -/
theorem mixHash_lookup {activeTime : UInt32} {calcKeyHash : CalcKeyHash} {calls : List KeyCall}
    (hrun : exec KeyManager.next { activeTime, calcKeyHash } calls = some manager)
    (mixHash : MixHash) (hdistinct : manager.DistinctHashes mixHash)
    (touch confirmedByRemote : Bool) (now : Nat) (isTaken : Bool) :
    (∀ i node, manager.node i = some node →
      Asks manager.calcKeyHash node.keyInfo.aesKey mixHash (minutesOf now) →
      manager.Finds mixHash touch confirmedByRemote now isTaken node.keyInfo) ↔
    ∀ i node, manager.node i = some node →
      Asks manager.calcKeyHash node.keyInfo.aesKey mixHash (minutesOf now) →
      manager.Unshared i node.keyInfo.aesKey ∧
        (node.hashs.Has mixHash ∨
          Hits mixHash (minutesOf now) i (manager.startRehash (minutesOf now))) := by
  have hsound := sound_exec hrun
  constructor
  · intro hfinds i node hnode hasks
    have hfound := hfinds i node hnode hasks
    refine ⟨fun j other hother haesKey => ?_, ?_⟩
    · -- one search can not find two keys
      have hfound' := hfinds j other hother (haesKey ▸ hasks)
      have hpeerid := (finds_unique hfound hfound').2
      exact (hsound.distinct i node j other hnode hother haesKey.symm hpeerid).symm
    obtain ⟨k, third, hthird, haesKey, hpeerid, hcase⟩ := hsound.of_finds hfound
    obtain rfl := hsound.distinct k third i node hthird hnode haesKey hpeerid
    obtain rfl := some.inj (hthird.symm.trans hnode)
    exact hcase
  intro hcondition i node hnode hasks
  obtain ⟨hunshared, hcase⟩ := hcondition i node hnode hasks
  cases hfind : manager.findByMixHashNoRehash mixHash with
  | some j =>
    obtain ⟨other, hother, info, hinfo, hhash⟩ := hsound.found hfind
    obtain ⟨x, hx⟩ := hasks.exists
    obtain ⟨y, hy⟩ := hsound.hash_of_mem hother hinfo
    have haesKey := hdistinct i node j other hnode hother x y hx (hy.trans hhash)
    obtain rfl := hunshared j other hother haesKey.symm
    exact finds_of_map hfind hnode touch confirmedByRemote now isTaken
  | none =>
    rcases hcase with hhas | hhits
    · obtain ⟨j, hj⟩ := hsound.finds hnode hhas
      cases hfind.symm.trans hj
    · exact finds_of_hits hfind hhits hnode touch confirmedByRemote isTaken

/-- Hashes that are read off the key and the minutes. -/
def plainKeyHash : CalcKeyHash := fun aesKey minutes =>
  .ofList _ (aesKey.1.take 1 ++ [if minutes.isSome then 1 else 0, (minutes.getD 0).toUInt8])

def plainKey (first : UInt8) : AesKey :=
  .ofList _ [first]

def plainPeerid (first : UInt8) : Peerid :=
  .ofList _ [first]

theorem distinctHashes_of_length (h : manager.nodes.length = 1) (mixHash : MixHash) :
    manager.DistinctHashes mixHash := by
  intro i node j other hnode hother x y hx hy
  have hzero : ∀ k, k < manager.nodes.length → k = 0 := fun k hk => Nat.lt_one_iff.mp (h ▸ hk)
  obtain rfl := hzero i (lt_of_node hnode)
  obtain rfl := hzero j (lt_of_node hother)
  rw [some.inj (hnode.symm.trans hother)]

theorem plainKeyHash_inj {first second : UInt8} {x y : Option UInt32}
    (h : plainKeyHash (plainKey first) x = plainKeyHash (plainKey second) y) : first = second :=
  some.inj (congrArg (·.1.head?) h)

/-- Two keys of the first minute. -/
def twoKeys : List KeyCall :=
  [1, 2].map fun first =>
    { event := .addKey (plainKey first) (plainPeerid first) true, now := 60000000, isTaken := true,
      passes := 0 }

/-- The second of two keys is found by its hash for the third minute when the first one was tried. -/
theorem mixHash_lookup_second :
    ∃ manager, exec KeyManager.next { activeTime := 1000, calcKeyHash := plainKeyHash } twoKeys =
        some manager ∧ (manager.node 1).isSome ∧
      ∀ node, manager.node 1 = some node →
        manager.Finds (plainKeyHash (plainKey 2) (some 3)) false false 180000000 true node.keyInfo := by
  refine exists_of_test (fun manager =>
    manager.nodes.map (·.map (·.keyInfo.aesKey)) = [some (plainKey 1), some (plainKey 2)] ∧
    (manager.node 1).isSome = true ∧ (manager.startRehash 3).rehashKeyList = some 0 ∧
    (manager.startRehash 3).wouldHit (plainKeyHash (plainKey 2) (some 3)) 3 0 = some false ∧
    ((manager.startRehash 3).passOver 0 3).rehashKeyList = some 1 ∧
    ((manager.startRehash 3).passOver 0 3).wouldHit (plainKeyHash (plainKey 2) (some 3)) 3 1 =
      some true) (by decide +kernel) ?_
  rintro manager hrun ⟨hnodes, hnode, hfirst, hmiss, hsecond, hhit⟩
  have hcalc : manager.calcKeyHash = plainKeyHash := by
    have hsame : (exec KeyManager.next { activeTime := 1000, calcKeyHash := plainKeyHash } twoKeys).map
        (·.calcKeyHash) = some plainKeyHash := rfl
    rw [hrun] at hsame
    exact some.inj hsame
  have hkeys : ∀ i node, manager.node i = some node →
      (i = 0 ∧ node.keyInfo.aesKey = plainKey 1) ∨ (i = 1 ∧ node.keyInfo.aesKey = plainKey 2) := by
    intro i node hnode
    have hkey := congrArg (·[i]?) hnodes
    simp only [getElem?_map, join_eq_some_iff.mp hnode, map_some] at hkey
    match i with
    | 0 => exact .inl ⟨rfl, some.inj (some.inj hkey)⟩
    | 1 => exact .inr ⟨rfl, some.inj (some.inj hkey)⟩
  -- only the second key has the hash
  have honly : ∀ i node, manager.node i = some node → ∀ x,
      manager.calcKeyHash node.keyInfo.aesKey x = plainKeyHash (plainKey 2) (some 3) →
      i = 1 ∧ node.keyInfo.aesKey = plainKey 2 := by
    intro i node hnode x hx
    rcases hkeys i node hnode with ⟨-, hkey⟩ | hkey
    · rw [hcalc, hkey] at hx
      exact absurd (plainKeyHash_inj hx) (by decide)
    · exact hkey
  have hdistinct : manager.DistinctHashes (plainKeyHash (plainKey 2) (some 3)) :=
    fun i node j other hnode hother x y hx hy =>
      (honly i node hnode x hx).2.trans (honly j other hother y hy).2.symm
  refine ⟨hnode, fun node hnode => ?_⟩
  refine (mixHash_lookup hrun _ hdistinct false false 180000000 true).mpr ?_ 1 node hnode ?_
  · intro i other hother hasks
    obtain ⟨x, hx⟩ := hasks.exists
    obtain ⟨rfl, hkey⟩ := honly i other hother x hx
    refine ⟨fun j third hthird hsame => ?_, .inr (.later hfirst hmiss (.here hsecond hhit))⟩
    rcases hkeys j third hthird with ⟨-, hthird⟩ | ⟨hj, -⟩
    · exact absurd (hthird.symm.trans (hsame.trans hkey)) (by decide)
    · exact hj
  · rw [hcalc, (hkeys 1 node hnode).elim (fun h => absurd h.1 nofun) (·.2)]
    exact .inr ⟨1, rfl⟩

/-- A key of the first minute is looked up in the next one by its hash for the third one, which is in
the window. -/
theorem hash_in_window_not_found :
    ¬ ∀ (activeTime : UInt32) (calcKeyHash : CalcKeyHash) (calls : List KeyCall)
        (manager : KeyManager) (mixHash : MixHash) (touch confirmedByRemote : Bool) (now : Nat)
        (isTaken : Bool),
      exec KeyManager.next { activeTime, calcKeyHash } calls = some manager →
      (calls.map (·.now) ++ [now]).Pairwise (· ≤ ·) → manager.DistinctHashes mixHash →
      ∀ i node, manager.node i = some node →
        Asks manager.calcKeyHash node.keyInfo.aesKey mixHash (minutesOf now) →
        manager.Finds mixHash touch confirmedByRemote now isTaken node.keyInfo := by
  intro h
  obtain ⟨manager, hrun, hlength, hnode, hhash, hmissed⟩ : ∃ manager,
      exec KeyManager.next { activeTime := 1000, calcKeyHash := plainKeyHash }
        [{ event := .addKey (plainKey 1) (plainPeerid 1) true, now := 60000000, isTaken := true,
           passes := 0 }] = some manager ∧
      manager.nodes.length = 1 ∧
      (manager.node 0).any (fun node => node.keyInfo.aesKey = plainKey 1) = true ∧
      manager.calcKeyHash (plainKey 1) (some 3) = plainKeyHash (plainKey 1) (some 3) ∧
      (manager.findByMixHash (plainKeyHash (plainKey 1) (some 3)) false false 120000000 true 1).any
        (·.2.isNone) = true :=
    exists_of_test _ (by decide +kernel) fun _ _ => id
  obtain ⟨node, hnode, haesKey⟩ := exists_of_any hnode
  obtain ⟨⟨next, result⟩, hmissed, hnone⟩ := exists_of_any hmissed
  have hasks : Asks manager.calcKeyHash node.keyInfo.aesKey (plainKeyHash (plainKey 1) (some 3))
      (minutesOf 120000000) := by
    rw [of_decide_eq_true haesKey]
    exact .inr ⟨2, hhash.symm⟩
  obtain ⟨passes, final, hfound⟩ := h 1000 plainKeyHash _ manager _ false false 120000000 true hrun
    (by decide) (distinctHashes_of_length hlength _) 0 node hnode hasks
  obtain rfl := (Prod.mk.inj (findByMixHash_unique hmissed hfound)).2
  cases hnone

end KeyManager

end Bdt
