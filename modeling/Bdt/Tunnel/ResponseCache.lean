import Bdt.Base.Recency

/-!
# Cached responses

A model of `TunnelContainerGetCachedResponse` and `BdtTunnel_SetCachedResponse`. An item has a
sequence number and its response, and is in a tree and in a list at once, by its address. The list is
in the order of the last use; where the cache is full, its first item is taken for the new response.
The confirmation of a builder, behind the cache, is left out.
-/

namespace Bdt

open Base List

/-- `RespMap`, without the links; a response is the number of a package. -/
structure RespMap where
  seq : UInt32
  resp : Nat

def respMapCompare (left right : RespMap) : Int :=
  if left.seq = right.seq then 0 else if left.seq > right.seq then 1 else -1

/-- The members that `respCacheLock` protects, and the items that were allocated. -/
structure ResponseCache where
  items : Nat → RespMap := fun _ => { seq := 0, resp := 0 }
  allocated : Nat := 0
  /-- The front first. -/
  respList : List Nat := []
  respMap : List Nat := []

namespace ResponseCache

/-- `sglib_resp_map_find_member`, of a node with the sequence number. -/
def findMember (cache : ResponseCache) (seq : UInt32) : Option Nat :=
  cache.respMap.find? fun item => respMapCompare { seq, resp := 0 } (cache.items item) = 0

/-- `sglib_resp_map_delete`. -/
def deleteMember (cache : ResponseCache) (item : Nat) : List Nat :=
  cache.respMap.eraseP fun other => respMapCompare (cache.items item) (cache.items other) = 0

/-- `BfxListErase` and `BfxListPushBack`. -/
def moveToBack (cache : ResponseCache) (item : Nat) : List Nat :=
  cache.respList.erase item ++ [item]

/-- `TunnelContainerGetCachedResponse`. The reference that it adds is the caller's. -/
def getCachedResponse (cache : ResponseCache) (seq : UInt32) : ResponseCache × Option Nat :=
  match cache.findMember seq with
  | some item => ({ cache with respList := cache.moveToBack item }, some (cache.items item).resp)
  | none => (cache, none)

/-- `BdtTunnel_SetCachedResponse`, with `toRelease`. It has no result when it uses the null pointer
that the empty list gives. -/
def setCachedResponse (respCacheSize : Nat) (cache : ResponseCache) (seq : UInt32) (resp : Nat) :
    Option (ResponseCache × Option Nat) :=
  match cache.findMember seq with
  | some item =>
    some
      ({ cache with
          items := Function.update cache.items item { cache.items item with resp }
          respList := cache.moveToBack item },
        some (cache.items item).resp)
  | none =>
    if cache.respList.length < respCacheSize then
      some
        ({ items := Function.update cache.items cache.allocated { seq, resp }
           allocated := cache.allocated + 1
           respList := cache.respList ++ [cache.allocated]
           respMap := cache.allocated :: cache.respMap },
          none)
    else
      match cache.respList with
      | [] => none
      | item :: rest =>
        some
          ({ cache with
              items := Function.update cache.items item { seq, resp }
              respList := rest ++ [item]
              respMap := item :: cache.deleteMember item },
            some (cache.items item).resp)

/-- The sequence number and the response of an item. -/
def entry (cache : ResponseCache) (item : Nat) : UInt32 × Nat :=
  ((cache.items item).seq, (cache.items item).resp)

/-- The entries in the order of the list. -/
def entries (cache : ResponseCache) : List (UInt32 × Nat) :=
  cache.respList.map cache.entry

/-- The tree and the list have the same items, with different sequence numbers. -/
structure SameEntries (cache : ResponseCache) : Prop where
  items : cache.respMap.Perm cache.respList
  nodup : cache.respList.Nodup
  allocated : ∀ item ∈ cache.respList, item < cache.allocated
  seqs : (cache.entries.map (·.1)).Nodup

end ResponseCache

/-- A call of one of the two functions. -/
inductive CacheCall where
  | set (seq : UInt32) (resp : Nat)
  | get (seq : UInt32)

/-- A cache, and what has happened to it. -/
structure ResponseRun where
  cache : ResponseCache := {}
  /-- The sequence numbers that were set, or asked for while they had a response. -/
  uses : List UInt32 := []
  /-- The responses that `BdtTunnel_SetCachedResponse` has added a reference to. -/
  added : List Nat := []
  /-- Those that it has released. -/
  released : List Nat := []

def ResponseRun.step (respCacheSize : Nat) (run : ResponseRun) : CacheCall → Option ResponseRun
  | .set seq resp =>
    (run.cache.setCachedResponse respCacheSize seq resp).map fun (cache, toRelease) =>
      { cache
        uses := run.uses ++ [seq]
        added := run.added ++ [resp]
        released := run.released ++ toRelease.toList }
  | .get seq =>
    match run.cache.getCachedResponse seq with
    | (cache, some _) => some { run with cache, uses := run.uses ++ [seq] }
    | (cache, none) => some { run with cache }

def runCacheCalls (respCacheSize : Nat) (calls : List CacheCall) : Option ResponseRun :=
  calls.foldlM (ResponseRun.step respCacheSize) {}

/-- A call is an access to a cache of entries. -/
def CacheCall.access : CacheCall → Access UInt32 Nat
  | .set seq resp => .put seq resp
  | .get seq => .use seq

namespace ResponseCache

variable {cache : ResponseCache} {seq : UInt32} {item : Nat}

theorem respMapCompare_eq_zero {left right : RespMap} :
    respMapCompare left right = 0 ↔ left.seq = right.seq := by
  unfold respMapCompare
  split
  case isTrue h => exact iff_of_true rfl h
  case isFalse h => split <;> exact iff_of_false nofun h

/-- Two items of a cache with the same sequence number are the same. -/
theorem SameEntries.item_eq (h : cache.SameEntries) {other : Nat} (hitem : item ∈ cache.respList)
    (hother : other ∈ cache.respList) (hseq : (cache.items item).seq = (cache.items other).seq) :
    item = other := by
  have hseqs := h.seqs
  rw [entries, map_map] at hseqs
  exact inj_on_of_nodup_map hseqs hitem hother hseq

theorem SameEntries.findMember_eq_some (h : cache.SameEntries) :
    cache.findMember seq = some item ↔ item ∈ cache.respList ∧ (cache.items item).seq = seq := by
  have hmember {found : Nat} (hfound : cache.findMember seq = some found) :
      found ∈ cache.respList ∧ (cache.items found).seq = seq := by
    refine ⟨h.items.mem_iff.mp (mem_of_find?_eq_some hfound), ?_⟩
    have hcompare := find?_some hfound
    exact (respMapCompare_eq_zero.mp (of_decide_eq_true hcompare)).symm
  constructor
  · exact hmember
  rintro ⟨hmem, hseq⟩
  cases hfound : cache.findMember seq with
  | none =>
    have hnot := find?_eq_none.mp hfound item (h.items.mem_iff.mpr hmem)
    exact absurd (decide_eq_true (respMapCompare_eq_zero.mpr hseq.symm)) hnot
  | some =>
    obtain ⟨hfoundMem, hfoundSeq⟩ := hmember hfound
    rw [h.item_eq hfoundMem hmem (hfoundSeq.trans hseq.symm)]

theorem SameEntries.entryOf_eq (h : cache.SameEntries) (seq : UInt32) :
    entryOf cache.entries seq = (cache.findMember seq).map cache.entry := by
  cases hfound : cache.findMember seq with
  | none =>
    refine entryOf_eq_none.mpr fun entry hmem hseq => ?_
    obtain ⟨item, hitem, rfl⟩ := mem_map.mp hmem
    cases hfound.symm.trans (h.findMember_eq_some.mpr ⟨hitem, hseq⟩)
  | some item =>
    obtain ⟨hmem, hseq⟩ := h.findMember_eq_some.mp hfound
    have hentry : cache.entry item ∈ cache.entries := mem_map.mpr ⟨item, hmem, rfl⟩
    have hof := entryOf_of_mem h.seqs hentry
    rwa [show (cache.entry item).1 = seq from hseq] at hof

theorem SameEntries.withoutKey_eq (h : cache.SameEntries) (hitem : item ∈ cache.respList)
    (hseq : (cache.items item).seq = seq) :
    withoutKey cache.entries seq = (cache.respList.erase item).map cache.entry := by
  rw [withoutKey, entries, filter_map, h.nodup.erase_eq_filter]
  congr 1
  refine filter_congr fun other hother => ?_
  rw [Function.comp_apply]
  show decide ((cache.items other).seq ≠ seq) = (other != item)
  rw [Bool.eq_iff_iff, decide_eq_true_eq, bne_iff_ne, ← hseq]
  refine not_congr ⟨fun hsame => h.item_eq hother hitem hsame, ?_⟩
  exact fun hsame => by rw [hsame]

theorem map_entry_update {items : List Nat} (hnot : item ∉ items) (value : RespMap)
    (allocated : Nat) (respList respMap : List Nat) :
    items.map
        (entry { items := Function.update cache.items item value, allocated, respList, respMap }) =
      items.map cache.entry := by
  refine map_congr_left fun other hother => ?_
  have hne : other ≠ item := fun hsame => hnot (hsame ▸ hother)
  unfold entry
  simp only [Function.update_of_ne hne]

theorem entry_update (value : RespMap) (allocated : Nat) (respList respMap : List Nat) :
    entry { items := Function.update cache.items item value, allocated, respList, respMap } item =
      (value.seq, value.resp) := by
  unfold entry
  simp

theorem moveToBack_perm (hitem : item ∈ cache.respList) :
    (cache.moveToBack item).Perm cache.respList :=
  (perm_append_singleton _ _).trans (perm_cons_erase hitem).symm

theorem SameEntries.deleteMember_perm (h : cache.SameEntries) (hitem : item ∈ cache.respList) :
    (item :: cache.deleteMember item).Perm cache.respMap := by
  have hmap := h.items.mem_iff.mpr hitem
  obtain ⟨other, front, back, _, hother, hsplit, hdelete⟩ :=
    exists_of_eraseP
      (p := fun other => respMapCompare (cache.items item) (cache.items other) = 0)
      hmap (decide_eq_true (respMapCompare_eq_zero.mpr rfl))
  have hmem : other ∈ cache.respList := h.items.mem_iff.mp (by rw [hsplit]; simp)
  obtain rfl : item = other :=
    h.item_eq hitem hmem (respMapCompare_eq_zero.mp (of_decide_eq_true hother))
  rw [deleteMember, hdelete, hsplit]
  exact perm_middle.symm

theorem SameEntries.get (h : cache.SameEntries) (seq : UInt32) :
    (cache.getCachedResponse seq).1.SameEntries ∧
      (cache.getCachedResponse seq).1.entries = (useEntry cache.entries seq).1 ∧
      (cache.getCachedResponse seq).2 = (entryOf cache.entries seq).map (·.2) := by
  have hkeys := nodup_useEntry h.seqs seq
  unfold useEntry at hkeys ⊢
  unfold getCachedResponse
  rw [h.entryOf_eq] at hkeys ⊢
  cases hfound : cache.findMember seq with
  | none => exact ⟨h, rfl, rfl⟩
  | some item =>
    obtain ⟨hitem, hseq⟩ := h.findMember_eq_some.mp hfound
    have hperm := moveToBack_perm hitem
    have hentries : (cache.moveToBack item).map cache.entry =
        withoutKey cache.entries seq ++ [cache.entry item] := by
      rw [moveToBack, map_append, h.withoutKey_eq hitem hseq, map_singleton]
    simp only [hfound, Option.map_some] at hkeys
    refine ⟨⟨h.items.trans hperm.symm, hperm.nodup_iff.mpr h.nodup, ?_, ?_⟩, hentries, rfl⟩
    · exact fun other hother => h.allocated other (hperm.mem_iff.mp hother)
    · rw [← hentries] at hkeys
      exact hkeys

theorem SameEntries.set {respCacheSize : Nat} (hsize : 0 < respCacheSize) (h : cache.SameEntries)
    (seq : UInt32) (resp : Nat) :
    ∃ after toRelease,
      cache.setCachedResponse respCacheSize seq resp = some (after, toRelease) ∧
        after.SameEntries ∧ after.entries = (putEntry respCacheSize cache.entries seq resp).1 ∧
        toRelease = (putEntry respCacheSize cache.entries seq resp).2 := by
  have hkeys := nodup_putEntry h.seqs respCacheSize seq resp
  have hlength : cache.entries.length = cache.respList.length := length_map _
  unfold putEntry at hkeys ⊢
  unfold setCachedResponse
  rw [h.entryOf_eq, hlength] at hkeys ⊢
  cases hfound : cache.findMember seq with
  | some item =>
    obtain ⟨hitem, hseq⟩ := h.findMember_eq_some.mp hfound
    have hperm := moveToBack_perm hitem
    simp only [hfound, Option.map_some] at hkeys
    refine ⟨_, _, rfl, ?_⟩
    have hentries : entries
        { cache with
          items := Function.update cache.items item { cache.items item with resp }
          respList := cache.moveToBack item } =
        withoutKey cache.entries seq ++ [(seq, resp)] := by
      rw [entries, moveToBack, map_append, map_singleton, entry_update,
        map_entry_update h.nodup.not_mem_erase, h.withoutKey_eq hitem hseq, hseq]
    refine ⟨⟨h.items.trans hperm.symm, hperm.nodup_iff.mpr h.nodup, ?_, ?_⟩, hentries, rfl⟩
    · exact fun other hother => h.allocated other (hperm.mem_iff.mp hother)
    · rw [hentries]
      exact hkeys
  | none =>
    simp only [hfound, Option.map_none] at hkeys ⊢
    by_cases hroom : cache.respList.length < respCacheSize
    · simp only [if_pos hroom] at hkeys ⊢
      refine ⟨_, _, rfl, ?_⟩
      have hnew : cache.allocated ∉ cache.respList := fun hmem =>
        Nat.lt_irrefl _ (h.allocated _ hmem)
      have hentries : entries
          { items := Function.update cache.items cache.allocated { seq, resp }
            allocated := cache.allocated + 1
            respList := cache.respList ++ [cache.allocated]
            respMap := cache.allocated :: cache.respMap } =
          cache.entries ++ [(seq, resp)] := by
        rw [entries, map_append, map_singleton, entry_update, map_entry_update hnew]
        rfl
      refine ⟨⟨?_, ?_, ?_, ?_⟩, hentries, rfl⟩
      · exact (h.items.cons _).trans (perm_append_singleton _ _).symm
      · exact nodup_append.mpr ⟨h.nodup, nodup_singleton _, fun other hother new hnewMem hsame =>
          hnew (mem_singleton.mp hnewMem ▸ hsame ▸ hother)⟩
      · intro other hother
        rcases mem_append.mp hother with hother | hother
        · exact Nat.lt_succ_of_lt (h.allocated other hother)
        · rw [mem_singleton.mp hother]
          exact Nat.lt_succ_self _
      · rw [hentries]
        exact hkeys
    simp only [if_neg hroom] at hkeys ⊢
    obtain ⟨item, rest, hlist⟩ :=
      exists_cons_of_length_pos (Nat.lt_of_lt_of_le hsize (Nat.not_lt.mp hroom))
    have hitem : item ∈ cache.respList := by
      rw [hlist]
      exact mem_cons_self
    have hnodup := h.nodup
    rw [hlist, List.nodup_cons] at hnodup
    simp only [hlist]
    refine ⟨_, _, rfl, ?_⟩
    have hentries : entries
        { cache with
          items := Function.update cache.items item { seq, resp }
          respList := rest ++ [item]
          respMap := item :: cache.deleteMember item } =
        cache.entries.tail ++ [(seq, resp)] := by
      rw [entries, map_append, map_singleton, entry_update,
        map_entry_update hnodup.1, entries, hlist]
      rfl
    have hperm : (rest ++ [item]).Perm cache.respList := by
      rw [hlist]
      exact perm_append_singleton _ _
    refine ⟨⟨?_, hperm.nodup_iff.mpr h.nodup, ?_, ?_⟩, hentries, ?_⟩
    · exact (h.deleteMember_perm hitem).trans (h.items.trans hperm.symm)
    · exact fun other hother => h.allocated other (hperm.mem_iff.mp hother)
    · rw [hentries]
      exact hkeys
    · rw [entries, hlist]
      rfl

end ResponseCache

/-- A run of the code is the run of a cache of entries. -/
structure ResponseRun.Refines (run : ResponseRun) (abstract : CacheRun UInt32 Nat) : Prop where
  same : run.cache.SameEntries
  entries : run.cache.entries = abstract.entries
  uses : run.uses = abstract.uses
  added : run.added = abstract.stored
  released : run.released = abstract.released

theorem ResponseRun.Refines.step {respCacheSize : Nat} (hsize : 0 < respCacheSize)
    {run : ResponseRun} {abstract : CacheRun UInt32 Nat} (h : run.Refines abstract)
    (call : CacheCall) :
    ∃ after, run.step respCacheSize call = some after ∧
      after.Refines (abstract.step respCacheSize call.access) := by
  cases call with
  | set seq resp =>
    obtain ⟨after, toRelease, hset, hsame, hentries, hrelease⟩ := h.same.set hsize seq resp
    rw [h.entries] at hentries hrelease
    refine ⟨_, by rw [ResponseRun.step, hset, Option.map_some], ?_⟩
    refine ⟨hsame, hentries, ?_, ?_, ?_⟩
    · exact congrArg (· ++ [seq]) h.uses
    · exact congrArg (· ++ [resp]) h.added
    · show run.released ++ toRelease.toList = _
      rw [h.released, hrelease]
      rfl
  | get seq =>
    obtain ⟨hsame, hentries, hresp⟩ := h.same.get seq
    rw [h.entries] at hentries hresp
    cases hget : run.cache.getCachedResponse seq with
    | mk _ resp =>
      rw [hget] at hsame hentries hresp
      cases hof : entryOf abstract.entries seq with
      | none =>
        have hstep : abstract.step respCacheSize (.use seq) = abstract := by
          simp only [CacheRun.step, hof]
        rw [hof] at hresp
        obtain rfl : resp = none := hresp
        refine ⟨_, by simp only [ResponseRun.step, hget]; rfl, ?_⟩
        rw [CacheCall.access, hstep]
        exact ⟨hsame, by rw [hentries, useEntry, hof], h.uses, h.added, h.released⟩
      | some entry =>
        have hstep : abstract.step respCacheSize (.use seq) =
            { abstract with
              entries := (useEntry abstract.entries seq).1
              uses := abstract.uses ++ [seq] } := by
          simp only [CacheRun.step, hof]
        rw [hof] at hresp
        obtain rfl : resp = some entry.2 := hresp
        refine ⟨_, by simp only [ResponseRun.step, hget]; rfl, ?_⟩
        rw [CacheCall.access, hstep]
        exact ⟨hsame, hentries, congrArg (· ++ [seq]) h.uses, h.added, h.released⟩

/-- No call uses the null pointer, and the cache is the one of the accesses. -/
theorem runCacheCalls_refines {respCacheSize : Nat} (hsize : 0 < respCacheSize)
    (calls : List CacheCall) :
    ∃ run, runCacheCalls respCacheSize calls = some run ∧
      run.Refines (runAccesses respCacheSize (calls.map CacheCall.access)) := by
  induction calls using List.reverseRecOn with
  | nil => exact ⟨{}, rfl, ⟨.nil, nodup_nil, nofun, nodup_nil⟩, rfl, rfl, rfl, rfl⟩
  | append_singleton calls call ih =>
    obtain ⟨run, hrun, hrefines⟩ := ih
    obtain ⟨after, hstep, hafter⟩ := hrefines.step hsize call
    refine ⟨after, ?_, ?_⟩
    · rw [runCacheCalls, foldlM_append]
      show (runCacheCalls respCacheSize calls).bind _ = _
      rw [hrun]
      show (run.step respCacheSize call).bind _ = _
      rw [hstep]
      rfl
    · rw [map_append, runAccesses, foldl_append]
      exact hafter

/-- The cache holds what was used last: a response that was set is found until as many other sequence
numbers as it has room for were used since, and the responses that were released or are held are the
ones that were set. -/
theorem response_cache_recent {respCacheSize : Nat} (hsize : 0 < respCacheSize)
    (calls : List CacheCall) :
    ∃ run, runCacheCalls respCacheSize calls = some run ∧ run.cache.SameEntries ∧
      run.cache.respList.length ≤ respCacheSize ∧
      (∀ seq,
        (run.cache.getCachedResponse seq).2 = lastPut (calls.map CacheCall.access) seq ∨
          (run.cache.getCachedResponse seq).2 = none ∧
            respCacheSize ≤ (usedSince run.uses seq).dedup.length) ∧
      (run.released ++ run.cache.entries.map (·.2)).Perm run.added := by
  obtain ⟨run, hrun, h⟩ := runCacheCalls_refines hsize calls
  have hrecent := recent_run hsize (calls.map CacheCall.access)
  refine ⟨run, hrun, h.same, ?_, ?_, ?_⟩
  · have hbounded := hrecent.bounded
    rwa [← h.entries, ResponseCache.entries, length_map] at hbounded
  · intro seq
    rw [(h.same.get seq).2.2, h.entries, h.uses]
    cases hof : entryOf (runAccesses respCacheSize (calls.map CacheCall.access)).entries seq with
    | some entry =>
      obtain ⟨hmem, hkey⟩ := entryOf_mem hof
      have hcurrent := hrecent.current entry hmem
      rw [hkey] at hcurrent
      exact .inl hcurrent.symm
    | none =>
      by_cases hlast : lastPut (calls.map CacheCall.access) seq = none
      · exact .inl hlast.symm
      · exact .inr ⟨rfl, hrecent.missing seq hlast hof⟩
  · rw [h.entries, h.added, h.released]
    exact hrecent.balance

/-- Two responses in a cache for one: the second takes the place of the first. -/
theorem response_cache_recent_two :
    ∃ run, runCacheCalls 1 [.set 7 70, .set 8 80, .get 8] = some run ∧ run.cache.SameEntries ∧
      run.cache.respList.length ≤ 1 ∧
      (∀ seq,
        (run.cache.getCachedResponse seq).2 =
            lastPut ([.set 7 70, .set 8 80, .get 8].map CacheCall.access) seq ∨
          (run.cache.getCachedResponse seq).2 = none ∧ 1 ≤ (usedSince run.uses seq).dedup.length) ∧
      (run.released ++ run.cache.entries.map (·.2)).Perm run.added :=
  response_cache_recent Nat.one_pos _

end Bdt
