import Bdt.Base.Collecting
import Bdt.Global.PeerInfoBuilder

/-!
# The super nodes of a builder

`builder_listsAll_iff`: a builder has every super node that was added once, and every info that came
with one once, if and only if the first added one with the same `SIZEOF_ENDPOINT` bytes is the same
super node, and comes with an info where a later one does.
-/

namespace Bdt

open Base List

/-- A super node that is added, with or without its info. -/
inductive AddedSn where
  | bare (peerid : Peerid)
  | full (peerInfo : PeerInfo)

namespace AddedSn

def peerid : AddedSn → Peerid
  | bare peerid => peerid
  | full peerInfo => peerInfo.fields.peerid

def info : AddedSn → Option PeerInfo
  | bare _ => none
  | full peerInfo => some peerInfo

/-- The bytes that are compared. -/
def bytes (entry : AddedSn) : List UInt8 :=
  entry.peerid.1.take SIZEOF_ENDPOINT

end AddedSn

/-- A call of `BdtPeerInfoAddSn` or of `BdtPeerInfoAddSnInfo`. -/
inductive SnOp where
  | addSn (peerid : Option Peerid)
  | addSnInfo (peerInfo : Option PeerInfo)

/-- What an operation adds, with these flags. -/
def SnOp.entry (flags : BuildFlags) : SnOp → Option AddedSn
  | addSn peerid => if flags.hasSnList then peerid.map .bare else none
  | addSnInfo peerInfo => if flags.hasSnInfo then peerInfo.map .full else none

namespace PeerInfoBuilder

def runSnOp (builder : PeerInfoBuilder) : SnOp → PeerInfoBuilder
  | .addSn peerid => builder.addSn peerid
  | .addSnInfo peerInfo => builder.addSnInfo peerInfo

/-- The lists have each super node that was added once, and its info. -/
structure ListsAll (builder : PeerInfoBuilder) (entries : List AddedSn) : Prop where
  peerids : ∀ entry ∈ entries, entry.peerid ∈ builder.snList
  nodup : builder.snList.Nodup
  infos : ∀ entry ∈ entries, entry.info ≠ none →
    (builder.snInfoList.map (·.fields.peerid)).count entry.peerid = 1

/-- The lists are those of these entries. -/
def Holds (builder : PeerInfoBuilder) (kept : List AddedSn) : Prop :=
  builder.snList = kept.map (·.peerid) ∧ builder.snInfoList = kept.filterMap (·.info)

variable {builder : PeerInfoBuilder} {entries kept : List AddedSn}

/-- An entry comes behind those that are kept, unless one has the same bytes. -/
def addEntry : List AddedSn → AddedSn → List AddedSn :=
  addNew fun entry other => entry.bytes = other.bytes

theorem Holds.runSnOp (h : builder.Holds kept) (op : SnOp) :
    (builder.runSnOp op).Holds ((op.entry builder.flags).toList.foldl addEntry kept) ∧
      (builder.runSnOp op).flags = builder.flags := by
  obtain ⟨hlist, hinfos⟩ := h
  have hhas (entry : AddedSn) : builder.hasSn entry.peerid =
      kept.any fun other => other.bytes = entry.bytes := by
    rw [hasSn, hlist, any_map]
    rfl
  rcases op with (- | peerid) | (- | peerInfo)
  · simp [PeerInfoBuilder.runSnOp, addSn, SnOp.entry, Holds, hlist, hinfos]
  · have hhas : builder.hasSn peerid = _ := hhas (.bare peerid)
    cases hflag : builder.flags.hasSnList <;>
      cases hany : kept.any fun other => other.bytes = (AddedSn.bare peerid).bytes <;>
      simp [PeerInfoBuilder.runSnOp, addSn, SnOp.entry, Holds, hlist, hinfos, hflag, addEntry,
        addNew, hhas, hany, AddedSn.peerid, AddedSn.info]
  · simp [PeerInfoBuilder.runSnOp, addSnInfo, SnOp.entry, Holds, hlist, hinfos]
  · have hhas : builder.hasSn peerInfo.fields.peerid = _ := hhas (.full peerInfo)
    cases hflag : builder.flags.hasSnInfo <;>
      cases hany : kept.any fun other => other.bytes = (AddedSn.full peerInfo).bytes <;>
      simp [PeerInfoBuilder.runSnOp, addSnInfo, SnOp.entry, Holds, hlist, hinfos, hflag, addEntry,
        addNew, hhas, hany, AddedSn.peerid, AddedSn.info]

theorem Holds.runSnOps (h : builder.Holds kept) (ops : List SnOp) :
    (ops.foldl PeerInfoBuilder.runSnOp builder).Holds
      ((ops.filterMap (·.entry builder.flags)).foldl addEntry kept) := by
  induction ops generalizing builder kept with
  | nil => exact h
  | cons op _ ih =>
    obtain ⟨hop, hflags⟩ := h.runSnOp op
    have hrest := ih hop
    rw [hflags] at hrest
    rw [filterMap_cons]
    cases hentry : op.entry builder.flags with
    | none =>
      rw [hentry] at hrest
      exact hrest
    | some =>
      rw [hentry] at hrest
      exact hrest

/-- The first entry with the bytes of each entry is of the same super node, and brings the info. -/
def FirstHasAll (entries : List AddedSn) : Prop :=
  ∀ entry ∈ entries, ∀ first, entries.find? (·.bytes = entry.bytes) = some first →
    first.peerid = entry.peerid ∧ (entry.info ≠ none → first.info ≠ none)

theorem peerid_of_info {entry : AddedSn} {info : PeerInfo} (h : entry.info = some info) :
    entry.peerid = info.fields.peerid := by
  cases entry with
  | bare => cases h
  | full =>
    cases h
    rfl

theorem infos_sublist (kept : List AddedSn) :
    ((kept.filterMap (·.info)).map (·.fields.peerid)).Sublist (kept.map (·.peerid)) := by
  induction kept with
  | nil => exact .slnil
  | cons entry _ ih =>
    cases entry with
    | bare => exact ih.cons _
    | full => exact ih.cons_cons _

theorem Holds.listsAll_iff (h : builder.Holds (entries.foldl addEntry [])) :
    builder.ListsAll entries ↔ FirstHasAll entries := by
  have hdistinct : ((entries.foldl addEntry []).map (·.bytes)).Nodup :=
    pairwise_foldl_addNew entries .nil
  have hfind (bytes : List UInt8) : (entries.foldl addEntry []).find? (·.bytes = bytes) =
      entries.find? (·.bytes = bytes) := find?_foldl_addNew entries [] bytes
  obtain ⟨hlist, hinfos⟩ := h
  generalize entries.foldl addEntry [] = kept at *
  have hnodup : builder.snList.Nodup := by
    rw [hlist]
    exact .of_map (·.1.take SIZEOF_ENDPOINT) (by rwa [map_map])
  have hsublist : (builder.snInfoList.map (·.fields.peerid)).Sublist builder.snList := by
    rw [hlist, hinfos]
    exact infos_sublist kept
  constructor
  · intro hall entry hentry first hfirst
    rw [← hfind] at hfirst
    have hsame : ∀ other ∈ kept, other.peerid = entry.peerid → first = other := by
      intro other hother hpeerid
      refine inj_on_of_nodup_map hdistinct (mem_of_find?_eq_some hfirst) hother ?_
      have hbytes := find?_some hfirst
      rw [decide_eq_true_eq] at hbytes
      rw [hbytes, AddedSn.bytes, AddedSn.bytes, hpeerid]
    refine ⟨?_, fun hinfo => ?_⟩
    · obtain ⟨other, hother, hpeerid⟩ := mem_map.mp (hlist ▸ hall.peerids entry hentry)
      rw [hsame other hother hpeerid, hpeerid]
    · have hcount := hall.infos entry hentry hinfo
      obtain ⟨info, hmem, hpeerid⟩ := mem_map.mp (count_pos_iff.mp (hcount ▸ Nat.one_pos))
      obtain ⟨other, hother, hbrings⟩ := mem_filterMap.mp (hinfos ▸ hmem)
      rw [hsame other hother ((peerid_of_info hbrings).trans hpeerid), hbrings]
      exact Option.some_ne_none info
  · intro hfirst
    have hkept : ∀ entry ∈ entries, ∃ first ∈ kept, first.peerid = entry.peerid ∧
        (entry.info ≠ none → first.info ≠ none) := by
      intro entry hentry
      have hsome : (entries.find? (·.bytes = entry.bytes)).isSome :=
        find?_isSome.mpr ⟨entry, hentry, decide_eq_true rfl⟩
      obtain ⟨first, hfound⟩ := Option.isSome_iff_exists.mp hsome
      exact ⟨first, mem_of_find?_eq_some ((hfind _).trans hfound), hfirst entry hentry first hfound⟩
    refine ⟨fun entry hentry => ?_, hnodup, fun entry hentry hinfo => ?_⟩
    · obtain ⟨first, hmem, hpeerid, -⟩ := hkept entry hentry
      rw [hlist]
      exact mem_map.mpr ⟨first, hmem, hpeerid⟩
    · obtain ⟨first, hmem, hpeerid, hhas⟩ := hkept entry hentry
      obtain ⟨info, hbrings⟩ := Option.ne_none_iff_exists'.mp (hhas hinfo)
      refine count_eq_one_of_mem (hnodup.sublist hsublist) (mem_map.mpr ⟨info, ?_, ?_⟩)
      · rw [hinfos]
        exact mem_filterMap.mpr ⟨first, hmem, hbrings⟩
      · rw [← hpeerid, peerid_of_info hbrings]

end PeerInfoBuilder

/-- The lists of a builder have all super nodes and infos exactly when none comes late. -/
theorem builder_listsAll_iff (builder : PeerInfoBuilder) (ops : List SnOp) :
    (ops.foldl PeerInfoBuilder.runSnOp { builder with snList := [], snInfoList := [] }).ListsAll
        (ops.filterMap (·.entry builder.flags)) ↔
      PeerInfoBuilder.FirstHasAll (ops.filterMap (·.entry builder.flags)) := by
  have hempty : PeerInfoBuilder.Holds { builder with snList := [], snInfoList := [] } [] :=
    ⟨rfl, rfl⟩
  exact (hempty.runSnOps ops).listsAll_iff

/-- A super node is taken for another one whose last byte is not the same. -/
theorem addSn_loses_superNode :
    ¬ (([.addSn (some (.zero 32)), .addSn (some (.ofList 32 (replicate 31 0 ++ [1])))].foldl
      PeerInfoBuilder.runSnOp
      (builderBegin { hasSecret := false, hasSnList := true, hasSnInfo := false })).ListsAll
        [.bare (.zero 32), .bare (.ofList 32 (replicate 31 0 ++ [1]))]) :=
  fun h => absurd (h.peerids _ (.tail _ (.head _))) (by decide)

end Bdt
