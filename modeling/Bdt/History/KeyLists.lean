import Bdt.History.KeyLookup

/-!
# The lists of the keys

Every key is in one of the two lists, as long as the program keeps their pointers by hand as it should.
It does not when a search misses a second key, when it moves keys before a pointer into the middle of the
other list, and when a key expires that the pointers are not to.

`key_manager_structured`: the lists and the maps have the keys in every state of a run whose calls stay
clear of that.
-/

namespace Bdt

open Base List

namespace KeyManager

/-- The pointers are into two lists, and the tail is the last key of the first one. -/
structure Lists (manager : KeyManager) (keys rehashs : List NodeId) : Prop where
  keyList : manager.links.Into manager.header keys
  tail : manager.tail = keys.getLast?
  rehashKeyList : manager.links.Into manager.rehashKeyList rehashs
  disjoint : ∀ i ∈ keys, i ∉ rehashs

/-- The keys in the two lists are those that there are. -/
def Placed (manager : KeyManager) : Prop :=
  ∃ keys rehashs, manager.Lists keys rehashs ∧
    ∀ i, i ∈ keys ∨ i ∈ rehashs ↔ ∃ node, manager.node i = some node

/-- Every key is in one of the lists and in the list of its peer, and nothing refers to a key that was
removed. -/
structure Structured (manager : KeyManager) : Prop where
  lists : manager.Placed
  peers : ∀ i node, manager.node i = some node →
    ∃ entry ∈ manager.peeridKeyMap, entry.peerid = node.keyInfo.peerid ∧ i ∈ entry.keyNodeList
  peerEntries : ∀ entry ∈ manager.peeridKeyMap, ∀ i ∈ entry.keyNodeList,
    ∃ node, manager.node i = some node
  hashEntries : ∀ entry ∈ manager.mixHashKeyMap, ∃ node, manager.node entry.keyNode = some node

/-- The keys are moved before the first key of the other list. -/
def MovesToFirst (manager : KeyManager) (minutes : UInt32) : Prop :=
  minutes ≠ manager.firstHashMinutes ∧ manager.tail ≠ none →
    ∀ i, manager.rehashKeyList = some i → manager.links.previous i = none

/-- A key that a search passes over is put into an empty list, and the next one is hit. -/
def PassesOne (manager : KeyManager) (mixHash : MixHash) (minutes : UInt32) : Prop :=
  ∀ i, manager.rehashKeyList = some i → manager.wouldHit mixHash minutes i = some false →
    manager.tail = none ∧ ∀ j, (manager.passOver i minutes).rehashKeyList = some j →
      (manager.passOver i minutes).wouldHit mixHash minutes j = some true

instance (manager : KeyManager) (minutes : UInt32) : Decidable (manager.MovesToFirst minutes) :=
  inferInstanceAs (Decidable (_ → ∀ i ∈ manager.rehashKeyList, _))

instance (manager : KeyManager) (mixHash : MixHash) (minutes : UInt32) :
    Decidable (manager.PassesOne mixHash minutes) :=
  inferInstanceAs (Decidable (∀ i ∈ manager.rehashKeyList, _ → _ ∧
    ∀ j ∈ (manager.passOver i minutes).rehashKeyList, _))

/-- The list in which a key that expires is looked for first is empty, or its pointer is to the key, and
the key is not the tail, or it is the only one. -/
def RemovesKey (manager : KeyManager) (i : NodeId) (hashs : MixHashs) (minHashMinutes : UInt32) : Prop :=
  (if (hashs.withAppend hashs.nextUpdateHash).minutes < minHashMinutes then
      ∀ first, manager.rehashKeyList = some first → first = i
    else ∀ first, manager.header = some first → first = i) ∧
  (manager.tail = some i → manager.links.previous i = none ∧ manager.links.next i = none)

/-- Each key that expires is removed from its list. -/
def ClearsKeys (now : Nat) : List NodeId → KeyManager → Prop
  | [], _ => True
  | i :: rest, manager => ∀ node, manager.node i = some node →
      if secondsOf now < node.keyInfo.expireTime then ClearsKeys now rest manager
      else
        manager.RemovesKey i node.hashs (minutesOf now - MIX_HASH_REDUNDANCY_MINUTES) ∧
          ClearsKeys now rest
            (manager.withoutKey i node (minutesOf now - MIX_HASH_REDUNDANCY_MINUTES))

def ClearsPeer (manager : KeyManager) (peerid : Peerid) (now : Nat) : Prop :=
  ∀ keys, manager.findKeyByPeerid peerid = some keys → ClearsKeys now keys manager

/-- A call keeps the pointers of the lists. -/
def KeepsLists (manager : KeyManager) (call : KeyCall) : Prop :=
  match call.event with
  | .addKey .. | .loadDone _ => True
  | .findByMixHash mixHash _ _ =>
    manager.findByMixHashNoRehash mixHash = none →
      manager.MovesToFirst (minutesOf call.now) ∧
        (manager.startRehash (minutesOf call.now)).PassesOne mixHash (minutesOf call.now)
  | .getKeyByRemote peerid _ touch _ =>
    manager.ClearsPeer peerid call.now ∧
      ∀ i accessed changed prepared update,
        manager.findLastAccessKeyByRemote peerid call.now = some i →
        manager.accessKey i false (manager.touchTime touch call.now) call.now =
          some (accessed, changed) →
        accessed.prepareForStorage i = some (prepared, update) →
        prepared.ClearsPeer peerid call.now

variable {manager next : KeyManager} {i j : NodeId} {node : KeyNode} {keys rehashs : List NodeId}
  {mixHash : MixHash} {minutes minHashMinutes : UInt32} {peerid : Peerid} {aesKey : AesKey} {now : Nat}

/-! ## The macros -/

theorem Lists.congr (h : manager.Lists keys rehashs) (hpointers : manager.pointers = next.pointers) :
    next.Lists keys rehashs := by
  obtain ⟨hlinks, hpointers⟩ := Prod.mk.inj hpointers
  obtain ⟨hheader, hpointers⟩ := Prod.mk.inj hpointers
  obtain ⟨htail, hrehash⟩ := Prod.mk.inj hpointers
  obtain ⟨hkeys, hlast, hrehashs, hdisjoint⟩ := h
  rw [hlinks, hheader] at hkeys
  rw [htail] at hlast
  rw [hlinks, hrehash] at hrehashs
  exact ⟨hkeys, hlast, hrehashs, hdisjoint⟩

theorem Lists.addToHeader (h : manager.Lists keys rehashs) (hkeys : i ∉ keys) (hrehashs : i ∉ rehashs)
    (minutes : UInt32) :
    ∃ added, (manager.addToHeader i minutes).Lists added rehashs ∧ added.Perm (i :: keys) := by
  obtain ⟨added, hadded, hperm, hlast⟩ := h.keyList.addBefore hkeys
  have hother := h.rehashKeyList.of_addBefore h.keyList h.disjoint hrehashs
  have hdisjoint : ∀ j ∈ added, j ∉ rehashs := by
    intro j hj
    rcases mem_cons.mp (hperm.mem_iff.mp hj) with rfl | hold
    · exact hrehashs
    · exact h.disjoint j hold
  rw [← h.tail] at hlast
  refine ⟨added, ?_, hperm⟩
  unfold KeyManager.addToHeader
  dsimp only
  split
  case isTrue hnone =>
    rw [hnone] at hlast
    exact ⟨hadded, hlast.symm, hother, hdisjoint⟩
  case isFalse hne =>
  obtain ⟨last, htail⟩ := Option.ne_none_iff_exists'.mp hne
  rw [htail] at hlast
  exact ⟨hadded, htail.trans hlast.symm, hother, hdisjoint⟩

theorem addToTail_eq (hheader : manager.header = none) (htail : manager.tail = none) (i : NodeId)
    (minutes : UInt32) : manager.addToTail i minutes = manager.addToHeader i minutes := by
  unfold addToTail addToHeader
  dsimp only
  rw [hheader, htail, if_pos rfl, if_pos rfl]
  rfl

theorem Lists.moveAll (h : manager.Lists keys rehashs) (htail : manager.tail ≠ none)
    (hfirst : ∀ i, manager.rehashKeyList = some i → manager.links.previous i = none) :
    manager.moveAllKeyToRehash.Lists [] (keys ++ rehashs) := by
  have hkeys : keys ≠ [] := fun hnil => htail (h.tail.trans (congrArg List.getLast? hnil))
  have hnodup : (keys ++ rehashs).Nodup :=
    nodup_append.mpr ⟨h.keyList.nodup, h.rehashKeyList.nodup,
      fun i hi j hj heq => h.disjoint i hi (heq ▸ hj)⟩
  refine ⟨.nil _, rfl, ?_, nofun⟩
  have hmoved := h.keyList.concat h.rehashKeyList hfirst hkeys hnodup
  rw [← h.tail] at hmoved
  exact hmoved

theorem Lists.deleteFromRehash (h : manager.Lists keys rehashs) (hi : i ∈ rehashs) :
    ∃ rest, (manager.deleteFromRehash i).Lists keys rest ∧ rehashs.Perm (i :: rest) := by
  obtain ⟨xs, ys, rfl⟩ := append_of_mem hi
  have hdisjoint : ∀ j ∈ xs ++ i :: ys, j ∉ keys := fun j hj hkeys => h.disjoint j hkeys hj
  refine ⟨xs ++ ys, ⟨?_, h.tail, h.rehashKeyList.delete, ?_⟩, perm_middle⟩
  · exact h.keyList.of_delete h.rehashKeyList hdisjoint
  · intro j hj hrest
    refine h.disjoint j hj (mem_append.mpr ?_)
    exact (mem_append.mp hrest).imp_right (mem_cons_of_mem _)

theorem Lists.deleteFromKeyList (h : manager.Lists keys rehashs) (hi : i ∈ keys)
    (hlast : manager.tail = some i → manager.links.previous i = none ∧ manager.links.next i = none) :
    ∃ rest, (manager.deleteFromKeyList i).Lists rest rehashs ∧ keys.Perm (i :: rest) := by
  obtain ⟨xs, ys, rfl⟩ := append_of_mem hi
  have hdeleted := h.keyList.delete
  refine ⟨xs ++ ys, ⟨hdeleted, ?_, ?_, ?_⟩, perm_middle⟩
  · show (if (manager.links.delete manager.header i).2 = none then none else manager.tail) = _
    split
    case isTrue hnone => rw [hdeleted.null.mp hnone]; rfl
    case isFalse hne =>
    rw [h.tail]
    rw [h.tail] at hlast
    cases ys with
    | nil =>
      -- the tail is deleted, so it is the only key
      obtain ⟨hprevious, -⟩ := hlast (by rw [getLast?_concat])
      rw [h.keyList.linked.previous, Option.or_none] at hprevious
      refine absurd (hdeleted.null.mpr ?_) hne
      rw [getLast?_eq_none_iff.mp hprevious]
      rfl
    | cons => rw [getLast?_append, getLast?_append, List.getLast?_cons_cons]
  · exact h.rehashKeyList.of_delete h.keyList h.disjoint
  · intro j hj
    refine h.disjoint j (mem_append.mpr ?_)
    exact (mem_append.mp hj).imp_right (mem_cons_of_mem _)

/-! ## Keys that are placed -/

theorem Placed.congr (h : manager.Placed) (hpointers : manager.pointers = next.pointers)
    (hlive : ∀ i, (∃ node, next.node i = some node) ↔ ∃ node, manager.node i = some node) :
    next.Placed := by
  obtain ⟨keys, rehashs, hlists, hall⟩ := h
  exact ⟨keys, rehashs, hlists.congr hpointers, fun i => (hall i).trans (hlive i).symm⟩

theorem Placed.touches (h : manager.Placed) (hnext : manager.Touches next) : next.Placed := by
  refine h.congr ?_ fun i => ⟨fun ⟨node, hnode⟩ => ?_, fun ⟨node, hnode⟩ => ?_⟩
  · rw [hnext.same]
    rfl
  · obtain ⟨old, hold, -⟩ := hnext.node_of hnode
    exact ⟨old, hold⟩
  · obtain ⟨new, hnew, -⟩ := hnext.node_to hnode
    exact ⟨new, hnew⟩

theorem Placed.withNewKey (h : manager.Placed) (aesKey : AesKey) (peerid : Peerid) (now : Nat) :
    (manager.withNewKey aesKey peerid now).Placed := by
  obtain ⟨keys, rehashs, hlists, hall⟩ := h
  have hfresh : ¬ (manager.nodes.length ∈ keys ∨ manager.nodes.length ∈ rehashs) := by
    rw [hall, node_length]
    exact nofun
  rw [not_or] at hfresh
  have hstart : Lists { manager with
      nodes := manager.nodes ++ [some (manager.createNode aesKey peerid now)] } keys rehashs :=
    hlists.congr rfl
  obtain ⟨added, hadded, hperm⟩ := hstart.addToHeader hfresh.1 hfresh.2 (minutesOf now)
  refine ⟨added, rehashs, hadded.congr ?_, fun i => ?_⟩
  · rw [withNewKey_same]
    rfl
  rw [hperm.mem_iff, mem_cons, or_assoc, hall, node_withNewKey]
  split
  case isTrue heq => exact iff_of_true (.inl heq) ⟨_, rfl⟩
  case isFalse hne => exact or_iff_right hne

theorem live_rehashed (hnode : manager.node i = some node) (minutes : UInt32) (j : NodeId) :
    (∃ other, (manager.rehashed i node minutes).node j = some other) ↔
      ∃ other, manager.node j = some other := by
  rw [node_rehashed hnode]
  split
  case isTrue heq => exact iff_of_true ⟨_, rfl⟩ ⟨node, heq ▸ hnode⟩
  case isFalse => exact Iff.rfl

section

variable (h : manager.Placed)
include h

section

variable (hfirst : manager.rehashKeyList = some i) (hnode : manager.node i = some node)
include hfirst hnode

/-- The first key of the second list goes before the header of the first one. -/
theorem Placed.hit (minutes : UInt32) :
    (((manager.rehashed i node minutes).deleteFromRehash i).addToHeader i minutes).Placed := by
  obtain ⟨keys, rehashs, hlists, hall⟩ := h
  have hi := hlists.rehashKeyList.mem i hfirst
  have hrehashed : (manager.rehashed i node minutes).Lists keys rehashs := hlists.congr rfl
  obtain ⟨rest, hrest, hperm⟩ := hrehashed.deleteFromRehash hi
  have hnodup := hperm.nodup_iff.mp hlists.rehashKeyList.nodup
  have hkeys : i ∉ keys := fun hmem => hlists.disjoint i hmem hi
  obtain ⟨added, hadded, hperm'⟩ := hrest.addToHeader hkeys (nodup_cons.mp hnodup).1 minutes
  refine ⟨added, rest, hadded, fun j => ?_⟩
  rw [relinks_addToHeader]
  refine Iff.trans ?_ ((hall j).trans (live_rehashed hnode minutes j).symm)
  rw [hperm'.mem_iff, hperm.mem_iff, mem_cons, mem_cons]
  tauto

/-- A key that is passed over goes into the first list, if that is empty. -/
theorem Placed.passOver (htail : manager.tail = none) (minutes : UInt32) :
    ((manager.rehashed i node minutes).passOver i minutes).Placed := by
  have hheader : manager.header = none := by
    obtain ⟨keys, rehashs, hlists, -⟩ := h
    exact hlists.keyList.null.mpr (getLast?_eq_none_iff.mp (hlists.tail.symm.trans htail))
  have hheader' : ((manager.rehashed i node minutes).deleteFromRehash i).header = none := hheader
  unfold KeyManager.passOver
  rw [addToTail_eq hheader' htail]
  exact h.hit hfirst hnode minutes

end

theorem Placed.rehashLoop {passes : Nat} {found : Option NodeId}
    (hpasses : manager.PassesOne mixHash minutes)
    (hloop : rehashLoop mixHash minutes passes manager = some (next, found)) : next.Placed := by
  -- a loop that hits at once
  have hhit : ∀ (manager : KeyManager) passes, manager.Placed →
      (∀ i, manager.rehashKeyList = some i → manager.wouldHit mixHash minutes i = some true) →
      KeyManager.rehashLoop mixHash minutes passes manager = some (next, found) → next.Placed := by
    intro manager passes h hhits hloop
    cases hfirst : manager.rehashKeyList with
    | none =>
      rw [rehashLoop_none hfirst] at hloop
      exact (Prod.mk.inj (Option.some.inj hloop)).1 ▸ h
    | some i =>
      cases passes with
      | zero =>
        rw [KeyManager.rehashLoop, hfirst] at hloop
        cases hloop
      | succ =>
        obtain ⟨node, hnode, heq⟩ := pass_eq hfirst (hhits i hfirst)
        rw [rehashLoop_some hfirst, heq] at hloop
        exact (Prod.mk.inj (Option.some.inj hloop)).1 ▸ h.hit hfirst hnode minutes
  cases passes with
  | zero =>
    rw [KeyManager.rehashLoop] at hloop
    split at hloop
    case isTrue => exact (Prod.mk.inj (Option.some.inj hloop)).1 ▸ h
    case isFalse => cases hloop
  | succ passes =>
    cases hfirst : manager.rehashKeyList with
    | none =>
      rw [rehashLoop_none hfirst] at hloop
      exact (Prod.mk.inj (Option.some.inj hloop)).1 ▸ h
    | some i =>
      cases hwould : manager.wouldHit mixHash minutes i with
      | none =>
        rw [rehashLoop_some hfirst] at hloop
        obtain ⟨⟨passed, found⟩, hpass, -⟩ := Option.bind_eq_some_iff.mp hloop
        obtain ⟨node, hnode⟩ := node_of_pass hfirst hpass
        rw [KeyManager.wouldHit, hnode] at hwould
        cases hwould
      | some hit =>
        cases hit with
        | true =>
          refine hhit manager (passes + 1) h (fun j hj => ?_) hloop
          exact Option.some.inj (hfirst.symm.trans hj) ▸ hwould
        | false =>
          obtain ⟨htail, hlater⟩ := hpasses i hfirst hwould
          obtain ⟨node, hnode, heq⟩ := pass_eq hfirst hwould
          rw [rehashLoop_some hfirst, heq] at hloop
          have hfollows := (follows_refl mixHash minutes manager).passOver hnode hwould
          refine hhit _ passes (h.passOver hfirst hnode htail minutes) (fun j hj => ?_) hloop
          rw [hfollows.wouldHit]
          exact hlater j (hfollows.rehashKeyList.symm.trans hj)

theorem Placed.startRehash (hfirst : manager.MovesToFirst minutes) :
    (manager.startRehash minutes).Placed := by
  unfold KeyManager.startRehash
  split
  case isTrue hmoves =>
    obtain ⟨keys, rehashs, hlists, hall⟩ := h
    refine ⟨[], keys ++ rehashs, hlists.moveAll hmoves.2 (hfirst hmoves), fun i => ?_⟩
    exact ((or_iff_right not_mem_nil).trans mem_append).trans (hall i)
  case isFalse => exact h

theorem Placed.withoutKey (hnode : manager.node i = some node)
    (hremoves : manager.RemovesKey i node.hashs minHashMinutes) :
    (manager.withoutKey i node minHashMinutes).Placed := by
  obtain ⟨keys, rehashs, hlists, hall⟩ := h
  have hstart : (manager.withoutHashs i node).Lists keys rehashs := hlists.congr rfl
  obtain ⟨hwhere, htail⟩ := hremoves
  have hi := (hall i).mpr ⟨node, hnode⟩
  -- the key is taken out of one of the lists
  have htaken : ∃ keys' rehashs',
      ((manager.withoutHashs i node).removeKeyNodeFromList i node.hashs minHashMinutes).Lists
        keys' rehashs' ∧ (keys ++ rehashs).Perm (i :: (keys' ++ rehashs')) := by
    have hrehash : i ∈ rehashs → ∃ keys' rehashs',
        ((manager.withoutHashs i node).deleteFromRehash i).Lists keys' rehashs' ∧
          (keys ++ rehashs).Perm (i :: (keys' ++ rehashs')) := by
      intro hmem
      obtain ⟨rest, hrest, hperm⟩ := hstart.deleteFromRehash hmem
      exact ⟨keys, rest, hrest, (hperm.append_left keys).trans perm_middle⟩
    have hkeyList : i ∈ keys → ∃ keys' rehashs',
        ((manager.withoutHashs i node).deleteFromKeyList i).Lists keys' rehashs' ∧
          (keys ++ rehashs).Perm (i :: (keys' ++ rehashs')) := by
      intro hmem
      obtain ⟨rest, hrest, hperm⟩ := hstart.deleteFromKeyList hmem htail
      exact ⟨rest, rehashs, hrest, hperm.append_right rehashs⟩
    unfold removeKeyNodeFromList
    split
    case isTrue hold =>
      rw [if_pos hold] at hwhere
      cases hfirst : manager.rehashKeyList with
      | some first =>
        have hrest : (manager.withoutHashs i node).rehashKeyList = some first := hfirst
        rw [hrest]
        obtain rfl := hwhere first hfirst
        exact hrehash (hlists.rehashKeyList.mem first hfirst)
      | none =>
        have hrest : (manager.withoutHashs i node).rehashKeyList = none := hfirst
        rw [hrest]
        obtain rfl := hlists.rehashKeyList.null.mp hfirst
        exact hkeyList (hi.resolve_right not_mem_nil)
    case isFalse hnew =>
    rw [if_neg hnew] at hwhere
    cases hfirst : manager.header with
    | some first =>
      have hrest : (manager.withoutHashs i node).header = some first := hfirst
      rw [hrest]
      obtain rfl := hwhere first hfirst
      exact hkeyList (hlists.keyList.mem first hfirst)
    | none =>
      have hrest : (manager.withoutHashs i node).header = none := hfirst
      rw [hrest]
      obtain rfl := hlists.keyList.null.mp hfirst
      exact hrehash (hi.resolve_left not_mem_nil)
  obtain ⟨keys', rehashs', hafter, hperm⟩ := htaken
  have hnodup : (keys ++ rehashs).Nodup :=
    nodup_append.mpr ⟨hlists.keyList.nodup, hlists.rehashKeyList.nodup,
      fun j hj k hk heq => hlists.disjoint j hj (heq ▸ hk)⟩
  have hgone := (nodup_cons.mp (hperm.nodup_iff.mp hnodup)).1
  refine ⟨keys', rehashs', hafter.congr rfl, fun j => ?_⟩
  rw [node_withoutKey hnode, ← mem_append]
  split
  case isTrue heq => exact iff_of_false (heq ▸ hgone) nofun
  case isFalse hne =>
    rw [← hall, ← mem_append, hperm.mem_iff, mem_cons]
    exact (or_iff_right hne).symm

/-! ## Operations -/

theorem Placed.clearExpireKeys {expired : List NodeId} (hclears : ClearsKeys now expired manager)
    (hkeys : ∀ i ∈ expired, ∀ node, manager.node i = some node → node.keyInfo.peerid = peerid)
    (hnext : clearExpireKeys peerid now expired manager = some next) : next.Placed := by
  induction expired generalizing manager with
  | nil => exact Option.some.inj hnext ▸ h
  | cons i _ ih =>
    have hrest := fun j hj => hkeys j (mem_cons_of_mem _ hj)
    obtain ⟨node, hnode, hnext⟩ := clearExpireKeys_cons (hkeys i mem_cons_self) hnext
    have hclear := hclears node hnode
    split at hnext
    case isTrue hkept =>
      rw [if_pos hkept] at hclear
      exact ih h hclear hrest hnext
    case isFalse hexpired =>
    rw [if_neg hexpired] at hclear
    have hremoves := removes_withoutKey hnode (minutesOf now - MIX_HASH_REDUNDANCY_MINUTES)
    exact ih (h.withoutKey hnode hclear.1) hclear.2
      (fun j hj other hother => hrest j hj other (hremoves.node j other hother)) hnext

theorem Placed.clearExpireKey (hsound : manager.Sound) (hclears : manager.ClearsPeer peerid now)
    (hnext : manager.clearExpireKey peerid now = some next) : next.Placed := by
  unfold KeyManager.clearExpireKey at hnext
  split at hnext
  case h_1 => exact Option.some.inj hnext ▸ h
  case h_2 expired hfound =>
  obtain ⟨cleared, hcleared, rfl⟩ := Option.map_eq_some_iff.mp hnext
  have hplaced := h.clearExpireKeys (hclears expired hfound) (hsound.peerid_of_found hfound) hcleared
  split
  case isTrue => exact hplaced.congr rfl fun _ => Iff.rfl
  case isFalse => exact hplaced

theorem Placed.addNewKey {isNew : Bool}
    (hadd : manager.addNewKey aesKey peerid now = (next, i, isNew)) : next.Placed := by
  cases hfind : manager.findAesKey aesKey peerid with
  | none =>
    rw [addNewKey_none hfind] at hadd
    exact (Prod.mk.inj hadd).1 ▸ h.withNewKey aesKey peerid now
  | some =>
    rw [addNewKey_some hfind] at hadd
    exact (Prod.mk.inj hadd).1 ▸ h

end

theorem placed_kept : KeptByKeys Placed where
  touches h hnext := h.touches hnext
  addNewKey h hadd := h.addNewKey hadd
  store h := h.congr rfl fun _ => Iff.rfl

theorem Placed.next_of {call : KeyCall} (h : manager.Placed) (hsound : manager.Sound)
    (hkeeps : manager.KeepsLists call) (hnext : manager.next call = some next) : next.Placed := by
  obtain ⟨event, now, isTaken, passes⟩ := call
  cases event with
  | addKey => exact placed_kept.addKey h hnext
  | loadDone => exact placed_kept.onLoadDone h hnext
  | findByMixHash =>
    obtain ⟨⟨found, result⟩, hfind, rfl⟩ := Option.map_eq_some_iff.mp hnext
    rcases findByMixHash_cases hfind with ⟨i, -, huse⟩ | ⟨hmiss, looped, found, hloop, hrest⟩
    · exact h.touches (useKey_touches huse)
    obtain ⟨hmoves, hpasses⟩ := hkeeps hmiss
    have hlooped := (h.startRehash hmoves).rehashLoop hpasses hloop
    rcases hrest with ⟨i, changed, node, -, haccess, -, -⟩ | ⟨i, -, -, huse⟩ | ⟨-, -, rfl, -⟩
    · exact hlooped.touches (accessKey_touches haccess)
    · exact hlooped.touches (useKey_touches huse)
    · exact hlooped
  | getKeyByRemote =>
    obtain ⟨⟨got, result⟩, hget, rfl⟩ := Option.map_eq_some_iff.mp hnext
    obtain ⟨hclears, hprepares⟩ := hkeeps
    refine placed_kept.getKeyByRemote h ?_ (fun _ => h.clearExpireKey hsound hclears) hget
    intro i accessed changed prepared update cleared hfind haccess hprepare hprepared
    have htouches := (accessKey_touches haccess).trans (prepareForStorage_touches hprepare)
    exact hprepared.clearExpireKey (hsound.touches htouches)
      (hprepares i accessed changed prepared update hfind haccess hprepare)

/-! ## Runs -/

theorem Sound.structured (h : manager.Sound) (hplaced : manager.Placed) : manager.Structured where
  lists := hplaced
  peers := by
    intro i node hnode
    have hmem := (h.keys node.keyInfo.peerid i).mpr ⟨node, hnode, rfl⟩
    obtain ⟨entry, hentry, hi⟩ := mem_flatMap.mp hmem
    split at hi
    case isTrue hpeerid => exact ⟨entry, hentry, hpeerid, hi⟩
    case isFalse => cases hi
  peerEntries := by
    intro entry hentry i hi
    have hmem : i ∈ manager.keysOf entry.peerid :=
      mem_flatMap.mpr ⟨entry, hentry, by rwa [if_pos rfl]⟩
    obtain ⟨node, hnode, -⟩ := (h.keys entry.peerid i).mp hmem
    exact ⟨node, hnode⟩
  hashEntries := by
    intro entry hentry
    have hcount : 0 < manager.mixHashKeyMap.count { keyNode := entry.keyNode, info := entry.info } :=
      count_pos_iff.mpr hentry
    rw [h.hashs] at hcount
    unfold hashCount at hcount
    cases hnode : manager.node entry.keyNode with
    | none =>
      rw [hnode] at hcount
      cases hcount
    | some node => exact ⟨node, rfl⟩

theorem placed_create (activeTime : UInt32) (calcKeyHash : CalcKeyHash) :
    Placed { activeTime, calcKeyHash } :=
  ⟨[], [], ⟨.nil _, rfl, .nil _, nofun⟩,
    fun _ => iff_of_false (or_self_iff.not.mpr not_mem_nil) fun ⟨_, hnode⟩ => nomatch hnode⟩

/-- In a run whose calls keep the pointers of the lists, every key is in one list and in the list of its
peer, and nothing refers to a key that was removed. -/
theorem key_manager_structured {activeTime : UInt32} {calcKeyHash : CalcKeyHash}
    {calls : List KeyCall} (h : StepsMeet KeyManager.next KeepsLists { activeTime, calcKeyHash } calls) :
    Throughout KeyManager.next Structured { activeTime, calcKeyHash } calls := by
  intro front back manager heq hfront
  subst heq
  have hkept : ∀ (manager : KeyManager) call next, manager.Sound ∧ manager.Placed →
      manager.KeepsLists call → manager.next call = some next → next.Sound ∧ next.Placed :=
    fun _ _ _ h hkeeps hnext => ⟨h.1.next_of hnext, h.2.next_of h.1 hkeeps hnext⟩
  obtain ⟨hsound, hplaced⟩ := h.front.preserves hkept
    ⟨sound_create activeTime calcKeyHash, placed_create activeTime calcKeyHash⟩ hfront
  exact hsound.structured hplaced

/-- Two keys are added; four minutes later a search passes over the first one and finds the second. -/
theorem key_manager_structured_found :
    Throughout KeyManager.next Structured { activeTime := 1000, calcKeyHash := plainKeyHash }
      [{ event := .addKey (plainKey 1) (plainPeerid 1) true, now := 60000000, isTaken := true,
         passes := 0 },
        { event := .addKey (plainKey 2) (plainPeerid 2) true, now := 60000000, isTaken := true,
          passes := 0 },
        { event := .findByMixHash (plainKeyHash (plainKey 2) (some 5)) true true, now := 300000000,
          isTaken := true, passes := 2 }] := by
  refine key_manager_structured (.cons trivial fun one hone => .cons trivial fun two htwo =>
    .cons (fun _ => ?_) fun found _ => stepsMeet_nil KeepsLists found)
  have hcheck : ((KeyManager.next { activeTime := 1000, calcKeyHash := plainKeyHash }
      { event := .addKey (plainKey 1) (plainPeerid 1) true, now := 60000000, isTaken := true,
        passes := 0 }).bind fun one => one.next
      { event := .addKey (plainKey 2) (plainPeerid 2) true, now := 60000000, isTaken := true,
        passes := 0 }).all (fun two => two.MovesToFirst 5 ∧
      (two.startRehash 5).PassesOne (plainKeyHash (plainKey 2) (some 5)) 5) = true := by
    decide +kernel
  rw [hone, Option.bind_some, htwo] at hcheck
  exact of_decide_eq_true hcheck

theorem Lists.next_tail (h : manager.Lists keys rehashs) (htail : manager.tail = some i) :
    manager.links.next i = none := by
  refine h.keyList.linked.last.1 i ?_
  rw [← h.tail, htail]
  rfl

/-- A search that misses two keys in a new minute puts the second one behind the tail. -/
theorem missed_key_behind_tail :
    ¬ ∀ (activeTime : UInt32) (calcKeyHash : CalcKeyHash) (calls : List KeyCall),
      (calls.map (·.now)).Pairwise (· ≤ ·) →
        Throughout KeyManager.next Structured { activeTime, calcKeyHash } calls := by
  intro h
  obtain ⟨manager, hrun, hcheck⟩ : ∃ manager,
      exec KeyManager.next { activeTime := 1000, calcKeyHash := plainKeyHash }
      [{ event := .addKey (plainKey 1) (plainPeerid 1) true, now := 60000000, isTaken := true,
         passes := 0 },
        { event := .addKey (plainKey 2) (plainPeerid 2) true, now := 60000000, isTaken := true,
          passes := 0 },
        { event := .findByMixHash (plainKeyHash (plainKey 3) none) false false, now := 300000000,
          isTaken := true, passes := 2 }] = some manager ∧
      manager.tail.any (fun i => (manager.links.next i).isSome) = true :=
    exists_of_any (by decide +kernel)
  obtain ⟨i, htail, hnext⟩ := exists_of_any hcheck
  obtain ⟨keys, rehashs, hlists, -⟩ := (h 1000 plainKeyHash _ (by decide) _ [] manager
    (append_nil _).symm hrun).lists
  rw [hlists.next_tail htail] at hnext
  cases hnext

end KeyManager

end Bdt
