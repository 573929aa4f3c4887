import Mathlib.Data.List.Dedup
import Mathlib.Data.List.Induction
import Mathlib.Data.List.Perm.Subperm

/-!
# Caches that keep what was used last

A cache of a limited number of entries is a list in the order of their last use. An entry that is used
goes to the end, and where there is no room for another one the first goes. `Recent` says what holds
after any accesses: an entry has the value that was put last, and one that is missing was followed by
uses of as many other keys as the cache has room for.
-/

namespace Bdt.Base

open List

variable {κ ν : Type} [DecidableEq κ]

/-- The entry of a key. -/
def entryOf (entries : List (κ × ν)) (key : κ) : Option (κ × ν) :=
  entries.find? (·.1 = key)

/-- The entries of the other keys. -/
def withoutKey (entries : List (κ × ν)) (key : κ) : List (κ × ν) :=
  entries.filter (·.1 ≠ key)

/-- The entry of a key is used. -/
def useEntry (entries : List (κ × ν)) (key : κ) : List (κ × ν) × Option ν :=
  match entryOf entries key with
  | some entry => (withoutKey entries key ++ [entry], some entry.2)
  | none => (entries, none)

/-- A value is put for a key, with the value that leaves the cache for it. -/
def putEntry (limit : Nat) (entries : List (κ × ν)) (key : κ) (value : ν) :
    List (κ × ν) × Option ν :=
  match entryOf entries key with
  | some entry => (withoutKey entries key ++ [(key, value)], some entry.2)
  | none =>
    if entries.length < limit then (entries ++ [(key, value)], none)
    else (entries.tail ++ [(key, value)], entries.head?.map (·.2))

/-- An access to a cache. -/
inductive Access (κ ν : Type) where
  | put (key : κ) (value : ν)
  | use (key : κ)

/-- A cache, and what has happened to it. -/
structure CacheRun (κ ν : Type) where
  entries : List (κ × ν) := []
  /-- The keys that were put, or used while they had an entry. -/
  uses : List κ := []
  stored : List ν := []
  released : List ν := []

def CacheRun.step (limit : Nat) (run : CacheRun κ ν) : Access κ ν → CacheRun κ ν
  | .put key value =>
    { entries := (putEntry limit run.entries key value).1
      uses := run.uses ++ [key]
      stored := run.stored ++ [value]
      released := run.released ++ (putEntry limit run.entries key value).2.toList }
  | .use key =>
    match entryOf run.entries key with
    | some _ => { run with entries := (useEntry run.entries key).1, uses := run.uses ++ [key] }
    | none => run

def runAccesses (limit : Nat) (accesses : List (Access κ ν)) : CacheRun κ ν :=
  accesses.foldl (CacheRun.step limit) {}

/-- The value that was put last for a key. -/
def lastPut (accesses : List (Access κ ν)) (key : κ) : Option ν :=
  accesses.foldl (fun last access =>
    match access with
    | .put other value => if other = key then some value else last
    | .use _ => last) none

/-- The uses since the last one of a key, the last one first. -/
def usedSince (uses : List κ) (key : κ) : List κ :=
  uses.reverse.takeWhile (· ≠ key)

/-- What holds after accesses. -/
structure Recent (limit : Nat) (accesses : List (Access κ ν)) (run : CacheRun κ ν) : Prop where
  nodup : (run.entries.map (·.1)).Nodup
  bounded : run.entries.length ≤ limit
  current : ∀ entry ∈ run.entries, lastPut accesses entry.1 = some entry.2
  ordered : run.entries.Pairwise fun a b => b.1 ∈ usedSince run.uses a.1
  missing : ∀ key, lastPut accesses key ≠ none → entryOf run.entries key = none →
    limit ≤ (usedSince run.uses key).dedup.length
  balance : (run.released ++ run.entries.map (·.2)).Perm run.stored

section

variable {entries : List (κ × ν)} {key other : κ} {value : ν} {entry : κ × ν} {limit : Nat}

theorem entryOf_mem (h : entryOf entries key = some entry) : entry ∈ entries ∧ entry.1 = key :=
  ⟨mem_of_find?_eq_some h, by simpa using find?_some h⟩

theorem entryOf_eq_none : entryOf entries key = none ↔ ∀ entry ∈ entries, entry.1 ≠ key := by
  unfold entryOf
  rw [find?_eq_none]
  simp

theorem entryOf_of_mem (hnodup : (entries.map (·.1)).Nodup) (h : entry ∈ entries) :
    entryOf entries entry.1 = some entry := by
  cases hfound : entryOf entries entry.1 with
  | none => exact absurd rfl (entryOf_eq_none.mp hfound entry h)
  | some =>
    obtain ⟨hmem, hkey⟩ := entryOf_mem hfound
    rw [inj_on_of_nodup_map hnodup hmem h hkey]

theorem mem_withoutKey : entry ∈ withoutKey entries key ↔ entry ∈ entries ∧ entry.1 ≠ key := by
  unfold withoutKey
  rw [mem_filter, decide_eq_true_eq]

/-- The entries are the one of the key and the others. -/
theorem perm_withoutKey (hnodup : (entries.map (·.1)).Nodup) (h : entryOf entries key = some entry) :
    entries.Perm (entry :: withoutKey entries key) := by
  unfold entryOf at h
  unfold withoutKey
  induction entries with
  | nil => cases h
  | cons head entries ih =>
    rw [map_cons, nodup_cons] at hnodup
    by_cases hhead : head.1 = key
    · rw [List.find?_cons_of_pos (by simpa using hhead)] at h
      cases h
      have hrest : entries.filter (·.1 ≠ key) = entries := by
        refine filter_eq_self.mpr fun other hother => decide_eq_true fun hsame => ?_
        exact hnodup.1 (mem_map.mpr ⟨other, hother, hsame.trans hhead.symm⟩)
      rw [filter_cons_of_neg (by simpa using hhead), hrest]
    · rw [List.find?_cons_of_neg (by simpa using hhead)] at h
      rw [filter_cons_of_pos (by simpa using hhead)]
      exact ((ih hnodup.2 h).cons head).trans (.swap entry head _)

theorem usedSince_concat (uses : List κ) (used key : κ) :
    usedSince (uses ++ [used]) key = if used = key then [] else used :: usedSince uses key := by
  unfold usedSince
  rw [reverse_append, reverse_singleton, singleton_append]
  by_cases hsame : used = key
  · rw [if_pos hsame, takeWhile_cons_of_neg (by simpa using hsame)]
  · rw [if_neg hsame, takeWhile_cons_of_pos (by simpa using hsame)]

theorem lastPut_put (accesses : List (Access κ ν)) (put : κ) (value : ν) (key : κ) :
    lastPut (accesses ++ [.put put value]) key =
      if put = key then some value else lastPut accesses key := by
  unfold lastPut
  rw [foldl_append]
  rfl

theorem lastPut_use (accesses : List (Access κ ν)) (used key : κ) :
    lastPut (accesses ++ [.use used]) key = lastPut accesses key := by
  unfold lastPut
  rw [foldl_append]
  rfl

/-- Different values of a list are among its different values. -/
theorem length_le_dedup {α : Type} [DecidableEq α] {l m : List α} (hnodup : l.Nodup)
    (hsub : ∀ a ∈ l, a ∈ m) : l.length ≤ m.dedup.length :=
  (hnodup.subperm fun a hmem => mem_dedup.mpr (hsub a hmem)).length_le

theorem dedup_le_cons {α : Type} [DecidableEq α] (a : α) (l : List α) :
    l.dedup.length ≤ (a :: l).dedup.length :=
  length_le_dedup (nodup_dedup l) fun b hmem => mem_cons_of_mem _ (mem_dedup.mp hmem)

/-- The keys of some entries, with a key that none of them has at the end. -/
theorem nodup_concat_key {kept : List (κ × ν)} (hkept : kept.Sublist entries)
    (hnodup : (entries.map (·.1)).Nodup) (hnot : ∀ entry ∈ kept, entry.1 ≠ key)
    (hkey : entry.1 = key) : ((kept ++ [entry]).map (·.1)).Nodup := by
  rw [map_append, nodup_append]
  refine ⟨hnodup.sublist (hkept.map _), nodup_singleton _, ?_⟩
  intro a ha b hb
  obtain ⟨other, hother, rfl⟩ := mem_map.mp ha
  rw [map_singleton, mem_singleton] at hb
  rw [hb, hkey]
  exact hnot other hother

section

variable (hnodup : (entries.map (·.1)).Nodup)
include hnodup

theorem nodup_withoutKey_concat (hkey : entry.1 = key) :
    ((withoutKey entries key ++ [entry]).map (·.1)).Nodup :=
  nodup_concat_key filter_sublist hnodup (fun _ hmem => (mem_withoutKey.mp hmem).2) hkey

theorem nodup_useEntry (key : κ) :
    ((useEntry entries key).1.map (·.1)).Nodup := by
  unfold useEntry
  split
  case h_1 entry hfound => exact nodup_withoutKey_concat hnodup (entryOf_mem hfound).2
  case h_2 => exact hnodup

theorem nodup_putEntry (limit : Nat) (key : κ) (value : ν) :
    ((putEntry limit entries key value).1.map (·.1)).Nodup := by
  unfold putEntry
  split
  case h_1 => exact nodup_withoutKey_concat hnodup rfl
  case h_2 hnone =>
  have hnew := entryOf_eq_none.mp hnone
  split
  case isTrue => exact nodup_concat_key (List.Sublist.refl _) hnodup hnew rfl
  case isFalse =>
    have htail := tail_sublist entries
    exact nodup_concat_key htail hnodup (fun entry hmem => hnew entry (htail.subset hmem)) rfl

end

variable {accesses : List (Access κ ν)} {run : CacheRun κ ν}

/-- The order of use, when a key is used: what was in front of its entry stays there. -/
theorem Recent.ordered_concat (h : Recent limit accesses run) {kept : List (κ × ν)}
    (hkept : kept.Sublist run.entries) (hnot : ∀ entry ∈ kept, entry.1 ≠ key)
    (hkey : entry.1 = key) :
    (kept ++ [entry]).Pairwise fun a b => b.1 ∈ usedSince (run.uses ++ [key]) a.1 := by
  have hsince (a : κ × ν) (ha : a ∈ kept) :
      usedSince (run.uses ++ [key]) a.1 = key :: usedSince run.uses a.1 := by
    rw [usedSince_concat, if_neg (hnot a ha).symm]
  refine pairwise_append.mpr ⟨?_, pairwise_singleton _ _, ?_⟩
  · refine (h.ordered.sublist hkept).imp_of_mem fun {a b} ha _ hb => ?_
    rw [hsince a ha]
    exact mem_cons_of_mem _ hb
  · intro a ha b hb
    rw [mem_singleton.mp hb, hsince a ha, hkey]
    exact mem_cons_self

/-- A key that was missing is still missing for as long. -/
theorem Recent.missing_concat (h : Recent limit accesses run) (hne : other ≠ key)
    (hlast : lastPut accesses other ≠ none) (hnone : entryOf run.entries other = none) :
    limit ≤ (usedSince (run.uses ++ [key]) other).dedup.length := by
  rw [usedSince_concat, if_neg hne.symm]
  exact Nat.le_trans (h.missing other hlast hnone) (dedup_le_cons _ _)

theorem ne_of_missing {kept : List (κ × ν)} {value : ν}
    (h : entryOf (kept ++ [(key, value)]) other = none) : other ≠ key :=
  fun hsame => entryOf_eq_none.mp h (key, value) (mem_append_right _ mem_cons_self) hsame.symm

theorem entryOf_withoutKey_concat (hne : other ≠ key)
    (hnone : entryOf (withoutKey entries key ++ [entry]) other = none) :
    entryOf entries other = none := by
  refine entryOf_eq_none.mpr fun found hmem hsame => ?_
  refine entryOf_eq_none.mp hnone found (mem_append_left _ ?_) hsame
  exact mem_withoutKey.mpr ⟨hmem, by rw [hsame]; exact hne⟩

theorem Recent.replace (h : Recent limit accesses run) (value : ν)
    (hfound : entryOf run.entries key = some entry) :
    ((withoutKey run.entries key ++ [(key, value)]).map (·.1)).Nodup ∧
      (withoutKey run.entries key ++ [(key, value)]).length ≤ limit ∧
      (withoutKey run.entries key ++ [(key, value)]).Pairwise
        fun a b => b.1 ∈ usedSince (run.uses ++ [key]) a.1 := by
  have hperm := perm_withoutKey h.nodup hfound
  refine ⟨nodup_withoutKey_concat h.nodup rfl, ?_, h.ordered_concat filter_sublist
    (fun entry hmem => (mem_withoutKey.mp hmem).2) rfl⟩
  have hlength := hperm.length_eq
  have hbounded := h.bounded
  rw [length_cons] at hlength
  rw [length_append, length_singleton]
  omega

theorem Recent.use (h : Recent limit accesses run) (key : κ) :
    Recent limit (accesses ++ [.use key]) (run.step limit (.use key)) := by
  cases hfound : entryOf run.entries key with
  | none =>
    simp only [CacheRun.step, hfound]
    exact
      { h with
        current := fun entry hmem => by rw [lastPut_use]; exact h.current entry hmem
        missing := fun other hlast hnone => by
          rw [lastPut_use] at hlast
          exact h.missing other hlast hnone }
  | some entry =>
    obtain ⟨hmem, hkey⟩ := entryOf_mem hfound
    obtain ⟨value, rfl⟩ : ∃ value, entry = (key, value) := ⟨entry.2, by rw [← hkey]⟩
    obtain ⟨hnodup, hbounded, hordered⟩ := h.replace value hfound
    simp only [CacheRun.step, useEntry, hfound]
    refine ⟨hnodup, hbounded, ?_, hordered, ?_, ?_⟩
    · intro entry hentry
      rw [lastPut_use]
      rcases mem_append.mp hentry with hentry | hentry
      · exact h.current entry (mem_withoutKey.mp hentry).1
      · rw [mem_singleton.mp hentry]
        exact h.current (key, value) hmem
    · intro other hlast hnone
      rw [lastPut_use] at hlast
      have hsame := ne_of_missing hnone
      exact h.missing_concat hsame hlast (entryOf_withoutKey_concat hsame hnone)
    · refine Perm.trans (List.Perm.append_left _ ?_) h.balance
      refine List.Perm.map _ ?_
      exact (perm_append_singleton _ _).trans (perm_withoutKey h.nodup hfound).symm

theorem Recent.put (hlimit : 0 < limit) (h : Recent limit accesses run) (key : κ) (value : ν) :
    Recent limit (accesses ++ [.put key value]) (run.step limit (.put key value)) := by
  have hother {other : κ} (hne : other ≠ key) :
      lastPut (accesses ++ [.put key value]) other = lastPut accesses other := by
    rw [lastPut_put, if_neg hne.symm]
  have hlast : lastPut (accesses ++ [.put key value]) key = some value := by
    rw [lastPut_put, if_pos rfl]
  have hcurrent {kept : List (κ × ν)} (hkept : ∀ entry ∈ kept, entry ∈ run.entries ∧ entry.1 ≠ key) :
      ∀ entry ∈ kept ++ [(key, value)],
        lastPut (accesses ++ [.put key value]) entry.1 = some entry.2 := by
    intro entry hentry
    rcases mem_append.mp hentry with hentry | hentry
    · obtain ⟨hmem, hne⟩ := hkept entry hentry
      rw [hother hne]
      exact h.current entry hmem
    · rw [mem_singleton.mp hentry]
      exact hlast
  cases hfound : entryOf run.entries key with
  | some entry =>
    obtain ⟨hnodup, hbounded, hordered⟩ := h.replace value hfound
    simp only [CacheRun.step, putEntry, hfound]
    refine ⟨hnodup, hbounded, hcurrent fun entry hmem => mem_withoutKey.mp hmem, hordered, ?_, ?_⟩
    · intro other hput hnone
      have hsame := ne_of_missing hnone
      rw [hother hsame] at hput
      exact h.missing_concat hsame hput (entryOf_withoutKey_concat hsame hnone)
    have hperm := (perm_withoutKey h.nodup hfound).map (·.2)
    rw [map_append, Option.toList_some, append_assoc, singleton_append]
    refine Perm.trans ?_ (h.balance.append_right [value])
    rw [append_assoc]
    exact List.Perm.append_left _ (hperm.symm.append_right [value])
  | none =>
    have hnew := entryOf_eq_none.mp hfound
    by_cases hroom : run.entries.length < limit
    · simp only [CacheRun.step, putEntry, hfound, if_pos hroom]
      refine ⟨?_, ?_, hcurrent fun entry hmem => ⟨hmem, hnew entry hmem⟩,
        h.ordered_concat (List.Sublist.refl _) hnew rfl, ?_, ?_⟩
      · exact nodup_concat_key (List.Sublist.refl _) h.nodup hnew rfl
      · rw [length_append, length_singleton]
        omega
      · intro other hput hnone
        have hsame := ne_of_missing hnone
        rw [hother hsame] at hput
        refine h.missing_concat hsame hput (entryOf_eq_none.mpr fun entry hmem => ?_)
        exact entryOf_eq_none.mp hnone entry (mem_append_left _ hmem)
      · rw [map_append, Option.toList_none, append_nil, ← append_assoc]
        exact h.balance.append_right [value]
    have hfull : run.entries.length = limit := Nat.le_antisymm h.bounded (Nat.not_lt.mp hroom)
    obtain ⟨head, rest, hentries⟩ := exists_cons_of_length_pos (hfull ▸ hlimit)
    simp only [CacheRun.step, putEntry, hfound, if_neg hroom]
    rw [hentries, tail_cons, List.head?_cons, Option.map_some, Option.toList_some]
    have hrest : ∀ entry ∈ rest, entry ∈ run.entries ∧ entry.1 ≠ key := fun entry hmem => by
      have hentry : entry ∈ run.entries := by
        rw [hentries]
        exact mem_cons_of_mem _ hmem
      exact ⟨hentry, hnew entry hentry⟩
    have hnodup := h.nodup
    have hordered := h.ordered
    have hbalance := h.balance
    rw [hentries, map_cons, nodup_cons] at hnodup
    rw [hentries, pairwise_cons] at hordered
    rw [hentries, map_cons] at hbalance
    rw [hentries, length_cons] at hfull
    have hkeys : ((rest ++ [(key, value)]).map (·.1)).Nodup :=
      nodup_concat_key (List.Sublist.refl _) hnodup.2 (fun entry hmem => (hrest entry hmem).2) rfl
    refine ⟨hkeys, ?_, hcurrent hrest,
      h.ordered_concat (hentries ▸ sublist_cons_self head rest)
        (fun entry hmem => (hrest entry hmem).2) rfl, ?_, ?_⟩
    · rw [length_append, length_singleton]
      omega
    · intro other hput hnone
      have hsame := ne_of_missing hnone
      rw [hother hsame] at hput
      by_cases hhead : other = head.1
      · -- the others in the cache were used since, and now the new key
        rw [usedSince_concat, if_neg (Ne.symm hsame), hhead]
        have hlength : ((rest ++ [(key, value)]).map (·.1)).length = limit := by
          rw [length_map, length_append, length_singleton, hfull]
        rw [← hlength]
        refine length_le_dedup hkeys fun a ha => ?_
        rw [map_append, map_singleton] at ha
        rcases mem_append.mp ha with ha | ha
        · obtain ⟨entry, hmem, rfl⟩ := mem_map.mp ha
          exact mem_cons_of_mem _ (hordered.1 entry hmem)
        · rw [mem_singleton.mp ha]
          exact mem_cons_self
      refine h.missing_concat hsame hput (entryOf_eq_none.mpr fun entry hmem => ?_)
      rw [hentries] at hmem
      rcases mem_cons.mp hmem with rfl | hmem
      · exact Ne.symm hhead
      · exact entryOf_eq_none.mp hnone entry (mem_append_left _ hmem)
    rw [map_append, append_assoc, singleton_append]
    refine Perm.trans ?_ (hbalance.append_right [value])
    rw [append_assoc]
    rfl

/-- After any accesses the cache has what was used last. -/
theorem recent_run (hlimit : 0 < limit) (accesses : List (Access κ ν)) :
    Recent limit accesses (runAccesses limit accesses) := by
  induction accesses using List.reverseRecOn with
  | nil => exact ⟨nodup_nil, Nat.zero_le _, nofun, .nil, fun _ h => absurd rfl h, .nil⟩
  | append_singleton _ access ih =>
    rw [runAccesses, foldl_append]
    cases access with
    | put key value => exact ih.put hlimit key value
    | use key => exact ih.use key

end

end Bdt.Base
