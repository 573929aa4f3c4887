import Bdt.Base.References
import Bdt.Base.SearchTree
import Bdt.Base.Transition
import Bdt.Global.PeerInfo

/-!
# The peer finder

A model of `PeerFinder.c`. Peer infos are numbered in the order of their allocation, and each of them
counts its references; a run has the references that callers hold besides those of the finder. `none`
stands for the use of a peer info that was freed, and for a null pointer that is read.

`peerFinder_iff` says when the cache has the newest infos and the counts are right.
-/

namespace Bdt

open Base List Option

/-- Where a `const BdtPeerid*` points: into a peer info, or into memory of a caller. -/
inductive PeeridPointer where
  | inInfo (info : Nat)
  | outside (peerid : Peerid)

structure BdtPeerFinderStatic where
  peerid : PeeridPointer
  peer : Nat

structure BdtPeerFinderCached where
  peerid : PeeridPointer
  peer : Nat
  /-- A new node has none. -/
  expire : Option UInt64 := none

structure BdtPeerFinder where
  localPeer : Option Nat
  staticEntry : List BdtPeerFinderStatic := []
  cachedEntry : List BdtPeerFinderCached := []

abbrev PeerInfos : Type :=
  List (Counted PeerInfo)

namespace PeerInfos

/-- What a pointer to a peerid points to. -/
def peerid (infos : PeerInfos) : PeeridPointer → Peerid
  | .inInfo info => ((valueAt infos info).map (·.fields.peerid)).getD (.zero BDT_PEERID_LENGTH)
  | .outside peerid => peerid

/-- `BdtPeerInfoGetCreateTime`. -/
def createTime (infos : PeerInfos) (info : Nat) : UInt64 :=
  ((valueAt infos info).map (·.fields.createTime)).getD 0

end PeerInfos

variable (finder : BdtPeerFinder) (infos : PeerInfos)

/-- `bdt_peer_finder_static_compare`. -/
def BdtPeerFinderStatic.compare (left right : BdtPeerFinderStatic) : Int :=
  memcmp (infos.peerid left.peerid).1 (infos.peerid right.peerid).1

/-- `bdt_peer_finder_cached_compare`. -/
def BdtPeerFinderCached.compare (left right : BdtPeerFinderCached) : Int :=
  memcmp (infos.peerid left.peerid).1 (infos.peerid right.peerid).1

namespace BdtPeerFinder

/-- `BdtPeerFinderInit`. -/
def init (localPeer : Nat) : Option (PeerInfos × BdtPeerFinder) :=
  (addRef infos localPeer).map fun infos => (infos, { localPeer := some localPeer })

/-- `BdtPeerFinderAddStatic`. -/
def addStatic (peer : Nat) : Option (PeerInfos × BdtPeerFinder) :=
  match addIfNotMember (BdtPeerFinderStatic.compare infos) finder.staticEntry
      ⟨.inInfo peer, peer⟩ with
  | (_, some _) => some (infos, finder)
  | (staticEntry, none) => (addRef infos peer).map fun infos => (infos, { finder with staticEntry })

/-- The node of a peer in the tree of those that are cached. -/
def findCached (peerid : Peerid) : Option BdtPeerFinderCached :=
  findMember (BdtPeerFinderCached.compare infos) finder.cachedEntry ⟨.outside peerid, 0, none⟩

/-- A reference to what was found. -/
def share (found : Option Nat) : Option (PeerInfos × Option Nat) :=
  match found with
  | some peer => (addRef infos peer).map fun infos => (infos, some peer)
  | none => some (infos, none)

/-- `BdtPeerFinderGetStatic`. -/
def getStatic (peerid : Peerid) : Option (PeerInfos × Option Nat) :=
  share infos ((findMember (BdtPeerFinderStatic.compare infos) finder.staticEntry
    ⟨.outside peerid, 0⟩).map (·.peer))

/-- `BdtPeerFinderGetCached`. -/
def getCached (peerid : Peerid) : Option (PeerInfos × Option Nat) :=
  share infos ((finder.findCached infos peerid).map (·.peer))

/-- `BdtPeerFinderGetCachedOrStatic`. -/
def getCachedOrStatic (peerid : Peerid) : Option (PeerInfos × Option Nat) :=
  (finder.getCached infos peerid).bind fun (infos, remoteInfo) =>
    match remoteInfo with
    | some remoteInfo => some (infos, some remoteInfo)
    | none => finder.getStatic infos peerid

/-- `BdtPeerFinderAddCached`. -/
def addCached (peer : Nat) (expire : UInt64) : Option (PeerInfos × BdtPeerFinder) :=
  let newCached : BdtPeerFinderCached := ⟨.inInfo peer, peer, none⟩
  (addRef infos peer).bind fun (infos : PeerInfos) =>
    match addIfNotMember (BdtPeerFinderCached.compare infos) finder.cachedEntry newCached with
    | (cachedEntry, none) => some (infos, { finder with cachedEntry })
    | (cachedEntry, some existCached) =>
      -- `newCached` and its reference are left behind
      if infos.createTime existCached.peer < infos.createTime peer then some (infos, finder)
      else
        (release infos existCached.peer).map fun released =>
          (released,
            { finder with
              cachedEntry := updateMember (BdtPeerFinderCached.compare infos) cachedEntry newCached
                fun _ => ⟨.inInfo peer, peer, some expire⟩ })

/-- `BdtPeerFinderGetLocalPeer`. -/
def getLocalPeer : Option (PeerInfos × Option Nat) :=
  finder.localPeer.bind fun localPeer => share infos (some localPeer)

/-- `BdtPeerFinderUpdateLocalPeer`. Only an old peer info that is `NULL` is released. -/
def updateLocalPeer (localPeer : Nat) : Option (PeerInfos × BdtPeerFinder) :=
  (addRef infos localPeer).bind fun infos =>
    match finder.localPeer with
    | some _ => some (infos, { finder with localPeer := some localPeer })
    | none => none

/-- The references of the finder. -/
def references : List Nat :=
  finder.localPeer.toList ++ (finder.staticEntry.map (·.peer) ++ finder.cachedEntry.map (·.peer))

end BdtPeerFinder

/-! ## Runs -/

/-- A call of a function of the finder, and what callers do with their own references. -/
inductive PeerFinderCall where
  | create (info : PeerInfo)
  | addRef (info : Nat)
  | release (info : Nat)
  | addStatic (peer : Nat)
  | addCached (peer : Nat) (expire : UInt64)
  | getStatic (peerid : Peerid)
  | getCached (peerid : Peerid)
  | getCachedOrStatic (peerid : Peerid)
  | getLocalPeer
  | updateLocalPeer (localPeer : Nat)

/-- The finder, the peer infos, the references that callers hold, and the infos that
`BdtPeerFinderAddCached` was called with. -/
structure PeerFinderRun where
  infos : PeerInfos
  finder : BdtPeerFinder
  callers : List Nat
  added : List Nat := []

namespace PeerFinderRun

/-- After `BdtPeerFinderInit`, with the info of the local peer, which the caller holds too. -/
def start (localPeer : PeerInfo) : PeerFinderRun where
  infos := [{ Counted.new localPeer with refCount := 2 }]
  finder := { localPeer := some 0 }
  callers := [0]

theorem start_init (localPeer : PeerInfo) :
    BdtPeerFinder.init [.new localPeer] 0 =
      some ((start localPeer).infos, (start localPeer).finder) := rfl

/-- A function returns a peer info. -/
def received (run : PeerFinderRun) (result : Option (PeerInfos × Option Nat)) :
    Option PeerFinderRun :=
  result.map fun (infos, peer) => { run with infos, callers := peer.toList ++ run.callers }

/-- A function is called with a peer info that the caller holds. -/
def given (run : PeerFinderRun) (peer : Nat) (result : Option (PeerInfos × BdtPeerFinder)) :
    Option PeerFinderRun :=
  if peer ∈ run.callers then result.map fun (infos, finder) => { run with infos, finder } else none

def next (run : PeerFinderRun) : PeerFinderCall → Option PeerFinderRun
  | .create info =>
    some { run with
      infos := run.infos ++ [.new info]
      callers := run.infos.length :: run.callers }
  | .addRef info =>
    if info ∈ run.callers then run.received (BdtPeerFinder.share run.infos (some info)) else none
  | .release info =>
    if info ∈ run.callers then
      (Base.release run.infos info).map fun infos =>
        { run with infos, callers := run.callers.erase info }
    else none
  | .addStatic peer => run.given peer (run.finder.addStatic run.infos peer)
  | .addCached peer expire =>
    (run.given peer (run.finder.addCached run.infos peer expire)).map fun run =>
      { run with added := run.added ++ [peer] }
  | .getStatic peerid => run.received (run.finder.getStatic run.infos peerid)
  | .getCached peerid => run.received (run.finder.getCached run.infos peerid)
  | .getCachedOrStatic peerid => run.received (run.finder.getCachedOrStatic run.infos peerid)
  | .getLocalPeer => run.received (run.finder.getLocalPeer run.infos)
  | .updateLocalPeer localPeer =>
    run.given localPeer (run.finder.updateLocalPeer run.infos localPeer)

/-- What `BdtPeerFinderGetCached` should return for a peer: the newest info of it that was added. -/
def Newest (added : List Nat) (peerid : Peerid) : Option Nat → Prop
  | none => ∀ info ∈ added, infos.peerid (.inInfo info) ≠ peerid
  | some found =>
    found ∈ added ∧ infos.peerid (.inInfo found) = peerid ∧
      ∀ info ∈ added, infos.peerid (.inInfo info) = peerid →
        infos.createTime info ≤ infos.createTime found

/-- The cache has the newest info of every peer, in one node, whose key is in that info; and the
references of callers and of the finder are all that there are. -/
structure Sound (run : PeerFinderRun) : Prop where
  newest : ∀ peerid, ∃ infos found,
    run.finder.getCached run.infos peerid = some (infos, found) ∧
      Newest run.infos run.added peerid found
  oneNode : (run.finder.cachedEntry.map fun node => run.infos.peerid node.peerid).Nodup
  ownKey : ∀ node ∈ run.finder.cachedEntry, node.peerid = .inInfo node.peer
  counted : Balanced run.infos (run.callers ++ run.finder.references)

/-- An info of a peer that is cached is as old as the one in the cache, and the info of the local peer
is not changed. -/
def Keeps (run : PeerFinderRun) : PeerFinderCall → Prop
  | .addCached peer _ =>
    peer ∈ run.callers →
      ∀ node, run.finder.findCached run.infos (run.infos.peerid (.inInfo peer)) = some node →
        run.infos.createTime node.peer = run.infos.createTime peer
  | .updateLocalPeer localPeer => localPeer ∉ run.callers
  | _ => True

end PeerFinderRun

/-! ## What the calls do to the peer infos -/

namespace PeerInfos

variable {infos next : PeerInfos}

theorem peerid_congr (h : valueAt next = valueAt infos) : next.peerid = infos.peerid := by
  funext pointer
  cases pointer with
  | inInfo info => exact congrArg (fun value => (Option.map _ value).getD _) (congrFun h info)
  | outside => rfl

theorem createTime_congr (h : valueAt next = valueAt infos) : next.createTime = infos.createTime := by
  funext info
  exact congrArg (fun value => (Option.map _ value).getD _) (congrFun h info)

end PeerInfos

theorem BdtPeerFinderCached.comparesBy :
    ComparesBy (BdtPeerFinderCached.compare infos) fun node => infos.peerid node.peerid := by
  intro left right
  exact (memcmp_eq_zero ((infos.peerid left.peerid).2.trans (infos.peerid right.peerid).2.symm)).trans
    Subtype.ext_iff.symm

/-- A function returns a peer info with a reference for its caller. -/
def Hands (infos next : PeerInfos) (found : Option Nat) : Prop :=
  valueAt next = valueAt infos ∧
    ∀ references, Balanced infos references → Balanced next (found.toList ++ references)

namespace BdtPeerFinder

variable {finder : BdtPeerFinder} {infos next : PeerInfos} {found result : Option Nat}
  {peerid : Peerid} {peer : Nat}

theorem share_hands (h : share infos found = some (next, result)) :
    result = found ∧ Hands infos next result := by
  cases found with
  | none =>
    cases h
    exact ⟨rfl, rfl, fun _ hbalanced => hbalanced⟩
  | some =>
    obtain ⟨counted, hcounted, heq⟩ := map_eq_some_iff.mp h
    cases heq
    exact ⟨rfl, valueAt_addRef hcounted, fun _ hbalanced => hbalanced.addRef hcounted⟩

theorem getCachedOrStatic_hands (h : finder.getCachedOrStatic infos peerid = some (next, result)) :
    Hands infos next result := by
  obtain ⟨⟨shared, remoteInfo⟩, hshared, h⟩ := bind_eq_some_iff.mp h
  obtain ⟨-, hhands⟩ := share_hands hshared
  cases remoteInfo with
  | some =>
    cases h
    exact hhands
  | none =>
    obtain ⟨-, hstatic⟩ := share_hands h
    exact ⟨hstatic.1.trans hhands.1, fun references hbalanced =>
      hstatic.2 references (hhands.2 references hbalanced)⟩

theorem getLocalPeer_hands (h : finder.getLocalPeer infos = some (next, result)) :
    Hands infos next result := by
  obtain ⟨localPeer, -, h⟩ := bind_eq_some_iff.mp h
  exact (share_hands h).2

/-- The finder takes a reference to a peer info that it is given, or leaves it. -/
theorem addStatic_cases {after : BdtPeerFinder}
    (h : finder.addStatic infos peer = some (next, after)) :
    (next = infos ∧ after = finder) ∨
      addRef infos peer = some next ∧
        after = { finder with staticEntry := ⟨.inInfo peer, peer⟩ :: finder.staticEntry } := by
  unfold addStatic at h
  split at h
  case h_1 =>
    cases h
    exact .inl ⟨rfl, rfl⟩
  case h_2 staticEntry hadded =>
  obtain ⟨counted, hcounted, heq⟩ := map_eq_some_iff.mp h
  cases heq
  exact .inr ⟨hcounted, congrArg (fun staticEntry => { finder with staticEntry })
    (addIfNotMember_added hadded).2⟩

end BdtPeerFinder

/-! ## The cache -/

/-- The nodes of the cache, by the peer infos that they hold. -/
structure CacheInv (infos : PeerInfos) (cachedEntry : List BdtPeerFinderCached) (added : List Nat) :
    Prop where
  ownKey : ∀ node ∈ cachedEntry, node.peerid = .inInfo node.peer
  oneNode : (cachedEntry.map fun node => infos.peerid node.peerid).Nodup
  known : ∀ node ∈ cachedEntry, node.peer ∈ added
  covers : ∀ info ∈ added, ∃ node ∈ cachedEntry,
    infos.peerid node.peerid = infos.peerid (.inInfo info) ∧
      infos.createTime info ≤ infos.createTime node.peer

namespace CacheInv

variable {infos next : PeerInfos} {cachedEntry : List BdtPeerFinderCached} {added : List Nat}
  {node : BdtPeerFinderCached} {peer : Nat} {peerid : Peerid}

section

variable (h : CacheInv infos cachedEntry added)
include h

theorem congr (hvalues : valueAt next = valueAt infos) :
    CacheInv next cachedEntry added where
  ownKey := h.ownKey
  oneNode := PeerInfos.peerid_congr hvalues ▸ h.oneNode
  known := h.known
  covers := PeerInfos.peerid_congr hvalues ▸ PeerInfos.createTime_congr hvalues ▸ h.covers

/-- The node of a peer has the newest of the infos that were added for it. -/
theorem newest (peerid : Peerid) :
    PeerFinderRun.Newest infos added peerid ((findMember (BdtPeerFinderCached.compare infos)
      cachedEntry ⟨.outside peerid, 0, none⟩).map (·.peer)) := by
  cases hfound : findMember (BdtPeerFinderCached.compare infos) cachedEntry
      ⟨.outside peerid, 0, none⟩ with
  | none =>
    have hnone := (findMember_eq_none (BdtPeerFinderCached.comparesBy infos)).mp hfound
    intro info hinfo hpeer
    obtain ⟨node, hnode, hsame, -⟩ := h.covers info hinfo
    exact hnone node hnode (hpeer.symm.trans hsame.symm)
  | some node =>
    obtain ⟨hnode, hkey⟩ := findMember_mem (BdtPeerFinderCached.comparesBy infos) hfound
    have hpeer : infos.peerid (.inInfo node.peer) = peerid :=
      (congrArg infos.peerid (h.ownKey node hnode)).symm.trans hkey.symm
    refine ⟨h.known node hnode, hpeer, fun info hinfo hsame => ?_⟩
    obtain ⟨other, hother, hotherKey, hle⟩ := h.covers info hinfo
    have heq : other = node :=
      eq_of_key h.oneNode hother hnode (hotherKey.trans (hsame.trans hkey))
    exact heq ▸ hle

theorem add
    (hnone : findMember (BdtPeerFinderCached.compare infos) cachedEntry ⟨.inInfo peer, peer, none⟩ =
      none) : CacheInv infos (⟨.inInfo peer, peer, none⟩ :: cachedEntry) (added ++ [peer]) where
  ownKey := forall_mem_cons.mpr ⟨rfl, h.ownKey⟩
  oneNode := nodup_cons (BdtPeerFinderCached.comparesBy infos) h.oneNode hnone rfl
  known := forall_mem_cons.mpr ⟨mem_append_right _ mem_cons_self,
    fun node hnode => mem_append_left _ (h.known node hnode)⟩
  covers info hinfo := by
    rcases mem_concat.mp hinfo with hinfo | rfl
    · obtain ⟨node, hnode, hcovers⟩ := h.covers info hinfo
      exact ⟨node, mem_cons_of_mem _ hnode, hcovers⟩
    · exact ⟨_, mem_cons_self, rfl, UInt64.le_refl _⟩

end

theorem replace {front back : List BdtPeerFinderCached} {expire : UInt64}
    (h : CacheInv infos (front ++ node :: back) added)
    (hkey : infos.peerid (.inInfo peer) = infos.peerid node.peerid)
    (hle : infos.createTime node.peer ≤ infos.createTime peer) :
    CacheInv infos (front ++ ⟨.inInfo peer, peer, some expire⟩ :: back) (added ++ [peer]) where
  ownKey other hother := by
    rcases mem_append.mp hother with hother | hother
    · exact h.ownKey other (mem_append_left _ hother)
    · rcases mem_cons.mp hother with rfl | hother
      · rfl
      · exact h.ownKey other (mem_append_right _ (mem_cons_of_mem _ hother))
  oneNode := by
    have hnodup := h.oneNode
    rw [map_append, map_cons] at hnodup ⊢
    rwa [hkey]
  known other hother := by
    rcases mem_append.mp hother with hother | hother
    · exact mem_append_left _ (h.known other (mem_append_left _ hother))
    rcases mem_cons.mp hother with rfl | hother
    · exact mem_append_right _ mem_cons_self
    · exact mem_append_left _
        (h.known other (mem_append_right _ (mem_cons_of_mem _ hother)))
  covers info hinfo := by
    have hnew : (⟨.inInfo peer, peer, some expire⟩ : BdtPeerFinderCached) ∈
        front ++ ⟨.inInfo peer, peer, some expire⟩ :: back :=
      mem_append_right _ mem_cons_self
    rcases mem_concat.mp hinfo with hinfo | rfl
    · obtain ⟨other, hother, hsame, hcovers⟩ := h.covers info hinfo
      rcases mem_append.mp hother with hother | hother
      · exact ⟨other, mem_append_left _ hother, hsame, hcovers⟩
      · rcases mem_cons.mp hother with rfl | hother
        · exact ⟨_, hnew, hkey.trans hsame, UInt64.le_trans hcovers hle⟩
        · exact ⟨other, mem_append_right _ (mem_cons_of_mem _ hother), hsame, hcovers⟩
    · exact ⟨_, hnew, rfl, UInt64.le_refl _⟩

end CacheInv

theorem BdtPeerFinder.findCached_split {finder : BdtPeerFinder} {infos : PeerInfos} {peer : Nat}
    {node : BdtPeerFinderCached}
    (hfound : finder.findCached infos (infos.peerid (.inInfo peer)) = some node)
    (change : BdtPeerFinderCached → BdtPeerFinderCached) :
    infos.peerid (.inInfo peer) = infos.peerid node.peerid ∧
      ∃ front back, finder.cachedEntry = front ++ node :: back ∧
        updateMember (BdtPeerFinderCached.compare infos) finder.cachedEntry
          ⟨.inInfo peer, peer, none⟩ change = front ++ change node :: back := by
  have hmember : findMember (BdtPeerFinderCached.compare infos) finder.cachedEntry
      ⟨.inInfo peer, peer, none⟩ = some node := hfound
  exact ⟨(findMember_mem (BdtPeerFinderCached.comparesBy infos) hmember).2,
    updateMember_split change hmember⟩

theorem BdtPeerFinder.addCached_eq {finder : BdtPeerFinder} {infos counted : PeerInfos} {peer : Nat}
    (expire : UInt64) (hcounted : addRef infos peer = some counted) :
    finder.addCached infos peer expire =
      match finder.findCached infos (infos.peerid (.inInfo peer)) with
      | none =>
        some (counted,
          { finder with cachedEntry := ⟨.inInfo peer, peer, none⟩ :: finder.cachedEntry })
      | some node =>
        if infos.createTime node.peer < infos.createTime peer then some (counted, finder)
        else
          (release counted node.peer).map fun released =>
            (released,
              { finder with
                cachedEntry := updateMember (BdtPeerFinderCached.compare infos) finder.cachedEntry
                  ⟨.inInfo peer, peer, none⟩ fun _ => ⟨.inInfo peer, peer, some expire⟩ }) := by
  have hpeerid := PeerInfos.peerid_congr (valueAt_addRef hcounted)
  have hcompare : BdtPeerFinderCached.compare counted = BdtPeerFinderCached.compare infos := by
    unfold BdtPeerFinderCached.compare
    rw [hpeerid]
  have htime := PeerInfos.createTime_congr (valueAt_addRef hcounted)
  have hfind : finder.findCached infos (infos.peerid (.inInfo peer)) =
      findMember (BdtPeerFinderCached.compare infos) finder.cachedEntry
        ⟨.inInfo peer, peer, none⟩ := rfl
  unfold BdtPeerFinder.addCached
  rw [hcounted, bind_some, hcompare, htime, hfind]
  unfold addIfNotMember
  cases findMember (BdtPeerFinderCached.compare infos) finder.cachedEntry
      ⟨.inInfo peer, peer, none⟩ with
  | none => rfl
  | some node => rfl

/-! ## The run -/

namespace PeerFinderRun

/-- What holds between the calls. -/
structure Inv (run : PeerFinderRun) : Prop where
  cache : CacheInv run.infos run.finder.cachedEntry run.added
  counted : Balanced run.infos (run.callers ++ run.finder.references)
  localPeer : run.finder.localPeer.isSome
  added : ∀ info ∈ run.added, (valueAt run.infos info).isSome

variable {run after : PeerFinderRun} {peer : Nat}

variable {node : BdtPeerFinderCached}

theorem Inv.exists_share (h : run.Inv) (hnode : node ∈ run.finder.cachedEntry) :
    ∃ infos, BdtPeerFinder.share run.infos (some node.peer) = some (infos, some node.peer) := by
  have hmem : node.peer ∈ run.callers ++ run.finder.references :=
    mem_append_right _ (mem_append_right _
      (mem_append_right _ (mem_map_of_mem hnode)))
  obtain ⟨infos, hinfos, -⟩ := h.counted.exists_addRef hmem
  exact ⟨infos, congrArg (Option.map fun infos => (infos, some node.peer)) hinfos⟩

theorem Inv.sound (h : run.Inv) : run.Sound := { h with
  newest peerid := by
    have hnewest := h.cache.newest peerid
    unfold BdtPeerFinder.getCached BdtPeerFinder.findCached
    cases hfound : findMember (BdtPeerFinderCached.compare run.infos) run.finder.cachedEntry
        ⟨.outside peerid, 0, none⟩ with
    | none =>
      rw [hfound] at hnewest
      exact ⟨run.infos, none, rfl, hnewest⟩
    | some node =>
      rw [hfound] at hnewest
      obtain ⟨hnode, -⟩ := findMember_mem (BdtPeerFinderCached.comparesBy run.infos) hfound
      obtain ⟨infos, hinfos⟩ := h.exists_share hnode
      exact ⟨infos, some node.peer, hinfos, hnewest⟩
  oneNode := h.cache.oneNode
  ownKey := h.cache.ownKey }

/-- The cache stays, and the references are counted again. -/
theorem Inv.frame (h : run.Inv) (hvalues : valueAt after.infos = valueAt run.infos)
    (hcached : after.finder.cachedEntry = run.finder.cachedEntry)
    (hlocal : after.finder.localPeer = run.finder.localPeer) (hadded : after.added = run.added)
    (hcounted : Balanced after.infos (after.callers ++ after.finder.references)) : after.Inv where
  cache := hcached ▸ hadded ▸ h.cache.congr hvalues
  counted := hcounted
  localPeer := hlocal ▸ h.localPeer
  added := hadded ▸ hvalues ▸ h.added

theorem Inv.received (h : run.Inv) {result : Option (PeerInfos × Option Nat)}
    (hhands : ∀ infos found, result = some (infos, found) → Hands run.infos infos found)
    (hafter : run.received result = some after) : after.Inv := by
  obtain ⟨⟨infos, found⟩, hresult, rfl⟩ := map_eq_some_iff.mp hafter
  obtain ⟨hvalues, hcounted⟩ := hhands infos found hresult
  refine h.frame hvalues rfl rfl rfl ?_
  rw [append_assoc]
  exact hcounted _ h.counted

theorem given_eq_some {result : Option (PeerInfos × BdtPeerFinder)}
    (h : run.given peer result = some after) :
    peer ∈ run.callers ∧ ∃ infos finder, result = some (infos, finder) ∧
      after = { run with infos, finder } := by
  unfold given at h
  split at h
  case isFalse => cases h
  case isTrue hmem =>
    obtain ⟨⟨infos, finder⟩, hresult, rfl⟩ := map_eq_some_iff.mp h
    exact ⟨hmem, infos, finder, hresult, rfl⟩

variable {infos : PeerInfos} {finder : BdtPeerFinder}

theorem given_of_mem (h : peer ∈ run.callers) :
    run.given peer (some (infos, finder)) = some { run with infos, finder } :=
  if_pos h

theorem Inv.create (h : run.Inv) (info : PeerInfo) :
    Inv { run with
      infos := run.infos ++ [.new info]
      callers := run.infos.length :: run.callers } := by
  have hvalue : ∀ other ∈ run.added,
      valueAt (run.infos ++ [.new info]) other = valueAt run.infos other :=
    fun other hother => valueAt_alloc info (h.added other hother)
  have hpeerid : ∀ other ∈ run.added,
      PeerInfos.peerid (run.infos ++ [.new info]) (.inInfo other) =
        run.infos.peerid (.inInfo other) :=
    fun other hother => congrArg (fun value => (Option.map _ value).getD _) (hvalue other hother)
  have htime : ∀ other ∈ run.added,
      PeerInfos.createTime (run.infos ++ [.new info]) other = run.infos.createTime other :=
    fun other hother => congrArg (fun value => (Option.map _ value).getD _) (hvalue other hother)
  have hnode : ∀ node ∈ run.finder.cachedEntry,
      PeerInfos.peerid (run.infos ++ [.new info]) node.peerid = run.infos.peerid node.peerid := by
    intro node hnode
    rw [h.cache.ownKey node hnode]
    exact hpeerid node.peer (h.cache.known node hnode)
  refine ⟨⟨h.cache.ownKey, ?_, h.cache.known, fun other hother => ?_⟩, ?_, h.localPeer, ?_⟩
  · rw [map_congr_left hnode]
    exact h.cache.oneNode
  · obtain ⟨node, hmem, hkey, hle⟩ := h.cache.covers other hother
    exact ⟨node, hmem, (hnode node hmem).trans (hkey.trans (hpeerid other hother).symm),
      (htime other hother).symm ▸ (htime node.peer (h.cache.known node hmem)).symm ▸ hle⟩
  · exact h.counted.alloc info
  · exact fun other hother => (hvalue other hother).symm ▸ h.added other hother

theorem Inv.release (h : run.Inv) {info : Nat} (hmem : info ∈ run.callers)
    (hreleased : Base.release run.infos info = some infos) :
    Inv { run with infos, callers := run.callers.erase info } := by
  refine h.frame (valueAt_release hreleased) rfl rfl rfl ?_
  exact (h.counted.perm ((perm_cons_erase hmem).append_right _)).release hreleased

theorem Inv.addStatic (h : run.Inv)
    (hadded : run.finder.addStatic run.infos peer = some (infos, finder)) :
    Inv { run with infos, finder } := by
  obtain ⟨rfl, rfl⟩ | ⟨hcounted, rfl⟩ := BdtPeerFinder.addStatic_cases hadded
  · exact h
  refine h.frame (valueAt_addRef hcounted) rfl rfl rfl ?_
  refine (h.counted.addRef hcounted).perm ?_
  -- the new reference stands behind those of the callers and of the local peer
  rw [BdtPeerFinder.references, ← append_assoc]
  have hmiddle : (peer :: (run.callers ++ run.finder.localPeer.toList ++
      (run.finder.staticEntry.map (·.peer) ++ run.finder.cachedEntry.map (·.peer)))).Perm
        (run.callers ++ run.finder.localPeer.toList ++
          peer :: (run.finder.staticEntry.map (·.peer) ++ run.finder.cachedEntry.map (·.peer))) :=
    perm_middle.symm
  rwa [append_assoc run.callers _ (peer :: _)] at hmiddle

theorem references_replace {front back : List BdtPeerFinderCached}
    (new : BdtPeerFinderCached) (callers : List Nat)
    (h : finder.cachedEntry = front ++ node :: back) :
    (new.peer :: (callers ++ finder.references)).Perm
      (node.peer :: (callers ++
        { finder with cachedEntry := front ++ new :: back }.references)) := by
  have hsplit : ∀ entry : BdtPeerFinderCached,
      (callers ++ { finder with cachedEntry := front ++ entry :: back }.references).Perm
        (entry.peer :: (callers ++ { finder with cachedEntry := front ++ back }.references)) := by
    intro entry
    unfold BdtPeerFinder.references
    rw [map_append, map_cons, map_append, ← append_assoc, ← append_assoc,
      ← append_assoc, ← append_assoc, ← append_assoc, ← append_assoc]
    exact perm_middle
  have hsame : finder = { finder with cachedEntry := front ++ node :: back } := by rw [← h]
  rw [hsame]
  exact ((hsplit node).cons new.peer).trans
    ((List.Perm.swap _ _ _).trans ((hsplit new).symm.cons node.peer))

theorem Inv.addCached (h : run.Inv) {expire : UInt64} (hmem : peer ∈ run.callers)
    (hsame : ∀ node, run.finder.findCached run.infos (run.infos.peerid (.inInfo peer)) = some node →
      run.infos.createTime node.peer = run.infos.createTime peer)
    (hadded : run.finder.addCached run.infos peer expire = some (infos, finder)) :
    Inv { run with infos, finder, added := run.added ++ [peer] } := by
  obtain ⟨counted, hcounted, hbalanced⟩ := h.counted.exists_addRef (mem_append_left _ hmem)
  have hvalues := valueAt_addRef hcounted
  have hknown : ∀ info ∈ run.added ++ [peer], (valueAt run.infos info).isSome := by
    intro info hinfo
    rcases mem_concat.mp hinfo with hinfo | hinfo
    · exact h.added info hinfo
    · obtain ⟨cell, hcell⟩ := h.counted.alive peer (mem_append_left _ hmem)
      exact hinfo ▸ isSome_of_eq_some (valueAt_live hcell)
  rw [BdtPeerFinder.addCached_eq expire hcounted] at hadded
  cases hfound : run.finder.findCached run.infos (run.infos.peerid (.inInfo peer)) with
  | none =>
    rw [hfound] at hadded
    cases hadded
    refine ⟨(h.cache.add hfound).congr hvalues, hbalanced.perm ?_, h.localPeer, hvalues ▸ hknown⟩
    -- the new reference stands behind all but those of the other nodes
    show (peer :: (run.callers ++ run.finder.references)).Perm (run.callers ++
      (run.finder.localPeer.toList ++ (run.finder.staticEntry.map (·.peer) ++
        peer :: run.finder.cachedEntry.map (·.peer))))
    unfold BdtPeerFinder.references
    rw [← append_assoc, ← append_assoc, ← append_assoc, ← append_assoc]
    exact perm_middle.symm
  | some node =>
    have htime := hsame node hfound
    obtain ⟨hkey, front, back, hsplit, hupdated⟩ :=
      BdtPeerFinder.findCached_split hfound fun _ => ⟨.inInfo peer, peer, some expire⟩
    rw [hfound] at hadded
    dsimp only at hadded
    rw [if_neg (htime ▸ UInt64.lt_irrefl _), hupdated] at hadded
    obtain ⟨released, hreleased, heq⟩ := map_eq_some_iff.mp hadded
    cases heq
    have hreleasedValues := (valueAt_release hreleased).trans hvalues
    exact {
      cache := ((hsplit ▸ h.cache).replace hkey (UInt64.le_of_eq htime)).congr hreleasedValues
      counted := (hbalanced.perm (references_replace ⟨.inInfo peer, peer, some expire⟩ run.callers
        hsplit)).release hreleased
      localPeer := h.localPeer
      added := hreleasedValues ▸ hknown }

theorem Inv.next {call : PeerFinderCall} (h : run.Inv) (hkeeps : run.Keeps call)
    (hnext : run.next call = some after) : after.Inv := by
  cases call with
  | create info =>
    cases hnext
    exact h.create info
  | addRef info =>
    dsimp only [PeerFinderRun.next] at hnext
    split at hnext
    case isTrue => exact h.received (fun _ _ heq => (BdtPeerFinder.share_hands heq).2) hnext
    case isFalse => cases hnext
  | release info =>
    dsimp only [PeerFinderRun.next] at hnext
    split at hnext
    case isTrue hmem =>
      obtain ⟨infos, hreleased, rfl⟩ := map_eq_some_iff.mp hnext
      exact h.release hmem hreleased
    case isFalse => cases hnext
  | addStatic =>
    obtain ⟨-, infos, finder, hadded, rfl⟩ := given_eq_some hnext
    exact h.addStatic hadded
  | addCached =>
    obtain ⟨given, hgiven, rfl⟩ := map_eq_some_iff.mp hnext
    obtain ⟨hmem, infos, finder, hadded, rfl⟩ := given_eq_some hgiven
    exact h.addCached hmem (hkeeps hmem) hadded
  | getStatic | getCached =>
    exact h.received (fun _ _ heq => (BdtPeerFinder.share_hands heq).2) hnext
  | getCachedOrStatic =>
    exact h.received (fun _ _ heq => BdtPeerFinder.getCachedOrStatic_hands heq) hnext
  | getLocalPeer => exact h.received (fun _ _ heq => BdtPeerFinder.getLocalPeer_hands heq) hnext
  | updateLocalPeer =>
    obtain ⟨hmem, -⟩ := given_eq_some hnext
    exact absurd hmem hkeeps

/-- The new info of the local peer is counted for the finder, and the old one too. -/
theorem Inv.updateLocalPeer_leaks (h : run.Inv) (hmem : peer ∈ run.callers) :
    ∃ after, run.next (.updateLocalPeer peer) = some after ∧ ¬ after.Sound := by
  obtain ⟨counted, hcounted, hbalanced⟩ := h.counted.exists_addRef (mem_append_left _ hmem)
  obtain ⟨old, hold⟩ := isSome_iff_exists.mp h.localPeer
  refine ⟨{ run with infos := counted, finder := { run.finder with localPeer := some peer } },
    ?_, fun hsound => ?_⟩
  · show run.given peer (run.finder.updateLocalPeer run.infos peer) = _
    unfold BdtPeerFinder.updateLocalPeer
    rw [hcounted, bind_some, hold]
    exact given_of_mem hmem
  -- `old` is the reference that nobody gives back
  have hperm : (peer :: (run.callers ++ run.finder.references)).Perm
      (old :: (run.callers ++
        { run.finder with localPeer := some peer }.references)) := by
    unfold BdtPeerFinder.references
    rw [hold]
    exact (perm_middle.cons peer).trans
      ((List.Perm.swap old peer _).trans (perm_middle.symm.cons old))
  exact (hbalanced.perm hperm).forget.not_balanced hsound.counted

/-- An info that is older than the one in the cache replaces it, and a newer one is rejected with the
reference that was taken for it. -/
theorem Inv.addCached_fails (h : run.Inv) {expire : UInt64} (hmem : peer ∈ run.callers)
    (hfound : run.finder.findCached run.infos (run.infos.peerid (.inInfo peer)) = some node)
    (htime : run.infos.createTime node.peer ≠ run.infos.createTime peer) :
    ∃ after, run.next (.addCached peer expire) = some after ∧ ¬ after.Sound := by
  obtain ⟨counted, hcounted, hbalanced⟩ := h.counted.exists_addRef (mem_append_left _ hmem)
  have hadded := run.finder.addCached_eq expire hcounted
  rw [hfound] at hadded
  by_cases hlt : run.infos.createTime node.peer < run.infos.createTime peer
  · refine ⟨{ run with infos := counted, added := run.added ++ [peer] }, ?_, fun hsound =>
      hbalanced.forget.not_balanced hsound.counted⟩
    show (run.given peer (run.finder.addCached run.infos peer expire)).map _ = _
    rw [hadded]
    dsimp only
    rw [if_pos hlt, given_of_mem hmem]
    rfl
  obtain ⟨hkey, front, back, hsplit, hupdated⟩ :=
    BdtPeerFinder.findCached_split hfound fun _ => ⟨.inInfo peer, peer, some expire⟩
  obtain ⟨released, hreleased, -⟩ :=
    (hbalanced.perm (references_replace ⟨.inInfo peer, peer, some expire⟩ run.callers
      hsplit)).exists_release
  refine ⟨{ run with
    infos := released
    finder := { run.finder with
      cachedEntry := front ++ ⟨.inInfo peer, peer, some expire⟩ :: back }
    added := run.added ++ [peer] }, ?_, fun hsound => ?_⟩
  · show (run.given peer (run.finder.addCached run.infos peer expire)).map _ = _
    rw [hadded]
    dsimp only
    rw [if_neg hlt, hupdated, hreleased]
    exact congrArg (Option.map _) (given_of_mem hmem)
  have hvalues := (valueAt_release hreleased).trans (valueAt_addRef hcounted)
  have hpeerid := PeerInfos.peerid_congr hvalues
  have hcreated := PeerInfos.createTime_congr hvalues
  have hnode : node ∈ run.finder.cachedEntry :=
    hsplit ▸ mem_append_right _ mem_cons_self
  obtain ⟨infos, found, hgot, hnewest⟩ :=
    hsound.newest (run.infos.peerid (.inInfo peer))
  obtain ⟨rfl, -⟩ := BdtPeerFinder.share_hands hgot
  -- the node of the peer holds the older info now
  have hmember : findMember (BdtPeerFinderCached.compare released)
      (front ++ ⟨.inInfo peer, peer, some expire⟩ :: back)
      ⟨.outside (run.infos.peerid (.inInfo peer)), 0, none⟩ =
        some ⟨.inInfo peer, peer, some expire⟩ :=
    (findMember_eq_some (BdtPeerFinderCached.comparesBy released) hsound.oneNode).mpr
      ⟨mem_append_right _ mem_cons_self, (congrFun hpeerid (.inInfo peer)).symm⟩
  have hfoundAfter : ({ run.finder with
      cachedEntry := front ++ ⟨.inInfo peer, peer, some expire⟩ :: back } :
        BdtPeerFinder).findCached released (run.infos.peerid (.inInfo peer)) =
          some ⟨.inInfo peer, peer, some expire⟩ := hmember
  rw [hfoundAfter] at hnewest
  have hle := hnewest.2.2 node.peer (mem_append_left _ (h.cache.known node hnode)) (by
    rw [hpeerid, hkey, h.cache.ownKey node hnode])
  rw [hcreated] at hle
  exact htime (UInt64.le_antisymm hle (UInt64.not_lt.mp hlt))

theorem start_inv (localPeer : PeerInfo) : (start localPeer).Inv where
  cache := ⟨nofun, nodup_nil, nofun, nofun⟩
  counted := (balanced_nil.alloc localPeer).addRef rfl
  localPeer := rfl
  added := nofun

/-- The cache has the newest infos and the counts of references are right throughout a run, if and
only if no info is added for a peer that is cached with another time, and the info of the local peer
stays. -/
theorem peerFinder_iff (localPeer : PeerInfo) (calls : List PeerFinderCall) :
    Throughout next Sound (start localPeer) calls ↔ StepsMeet next Keeps (start localPeer) calls := by
  refine throughout_iff_of_inv (start_inv localPeer) (fun _ h => h.sound)
    (fun _ _ _ h hkeeps hnext => h.next hkeeps hnext) fun run call h hnot => ?_
  cases call with
  | addCached =>
    simp only [Keeps, Classical.not_imp, not_forall] at hnot
    obtain ⟨hmem, node, hfound, htime⟩ := hnot
    exact h.addCached_fails hmem hfound htime
  | updateLocalPeer => exact h.updateLocalPeer_leaks (not_not.mp hnot)
  | create | addRef | release | addStatic | getStatic | getCached | getCachedOrStatic | getLocalPeer =>
    exact absurd trivial hnot

/-- An info of the peer with the peerid of zeros. -/
def infoOf (createTime : UInt64) : PeerInfo where
  fields :=
    { peerid := .zero BDT_PEERID_LENGTH
      constInfo := ⟨⟨0, 0, 0, 0, 0⟩, .zero _, 0, .zero _⟩
      signature := .zero _
      createTime }
  snInfoList := []

/-- Of two infos of one peer the older one is kept, the reference that was taken for the newer one is
left, and so is that for the info of the local peer. -/
theorem older_info_kept :
    ¬ Throughout next Sound (start (infoOf 0))
      [.create (infoOf 1), .create (infoOf 2), .addCached 1 0, .addCached 2 0] ∧
    ¬ Throughout next Sound (start (infoOf 0))
      [.create (infoOf 2), .create (infoOf 1), .addCached 1 0, .addCached 2 0] ∧
    ¬ Throughout next Sound (start (infoOf 0)) [.create (infoOf 1), .updateLocalPeer 1] := by
  refine ⟨fun h => ?_, fun h => ?_, fun h => ?_⟩
  · have hcount := (h _ [] _ (append_nil _).symm rfl).counted.count 2 _ rfl
    exact absurd hcount (by decide)
  · obtain ⟨infos, found, hgot, hnewest⟩ :=
      (h _ [] _ (append_nil _).symm rfl).newest (.zero BDT_PEERID_LENGTH)
    cases hgot
    exact absurd (hnewest.2.2 1 (by decide) rfl) (by decide)
  · have hcount := (h _ [] _ (append_nil _).symm rfl).counted.count 0 _ rfl
    exact absurd hcount (by decide)

end PeerFinderRun

end Bdt
