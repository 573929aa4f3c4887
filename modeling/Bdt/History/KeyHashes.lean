import Bdt.History.KeyManager

/-!
# The hashes of a key

What the map has of the hashes of a key while they are replaced, and what is replaced.
-/

namespace Bdt

open Base List

namespace MixHashs

open KeyManager

variable {calcKeyHash : CalcKeyHash} {aesKey : AesKey} {minMinutes minutes : UInt32}
  {hashs next : MixHashs} {changes : List (MixHashInfo × MixHashInfo)}

theorem count_update (hashs : MixHashs) (k next : Fin 3) (added info : MixHashInfo) :
    ({ hashs with
        withAppend := Function.update hashs.withAppend k added
        nextUpdateHash := next } : MixHashs).infos.count info +
        (if hashs.withAppend k = info then 1 else 0) =
      hashs.infos.count info + if added = info then 1 else 0 := by
  have hrange : List.finRange 3 = [0, 1, 2] := rfl
  unfold infos
  rw [hrange]
  simp only [map_cons, map_nil, count_cons, count_nil, beq_iff_eq]
  obtain rfl | rfl | rfl : k = 0 ∨ k = 1 ∨ k = 2 := by omega
  all_goals
    simp [Function.update]
    try omega

theorem withAppend_mem (hashs : MixHashs) (k : Fin 3) : hashs.withAppend k ∈ hashs.infos :=
  mem_cons_of_mem _ (mem_map_of_mem (mem_finRange k))

theorem advance_withAppend (hashs : MixHashs) (added : MixHashInfo) (k : Fin 3) :
    (hashs.advance added).withAppend k =
      Function.update hashs.withAppend hashs.nextUpdateHash added k :=
  rfl

theorem advance_nextUpdateHash (hashs : MixHashs) (added : MixHashInfo) :
    (hashs.advance added).nextUpdateHash = hashs.nextUpdateHash + 1 :=
  rfl

theorem replace_succ (calcKeyHash : CalcKeyHash) (aesKey : AesKey) (minMinutes minutes : UInt32)
    (count : Nat) (hashs : MixHashs) :
    replace calcKeyHash aesKey minMinutes (count + 1) minutes hashs =
      if minMinutes ≤ (hashs.withAppend hashs.nextUpdateHash).minutes then (hashs, [])
      else
        let result := replace calcKeyHash aesKey minMinutes count (minutes + 1)
          (hashs.advance (appended calcKeyHash aesKey minutes))
        (result.1, (hashs.withAppend hashs.nextUpdateHash, appended calcKeyHash aesKey minutes) ::
          result.2) :=
  rfl

theorem key_beq (i j : NodeId) (info info' : MixHashInfo) :
    (({ keyNode := i, info } : MixHashKey) == { keyNode := j, info := info' }) =
      decide (i = j ∧ info = info') := by
  rw [Bool.eq_iff_iff, beq_iff_eq, decide_eq_true_iff, MixHashKey.mk.injEq]

variable {i : NodeId} {map : List MixHashKey}

theorem count_replaceInMap {dead : MixHashInfo}
    (h : { keyNode := i, info := dead } ∈ map) (added info : MixHashInfo) :
    (replaceInMap i map (dead, added)).count { keyNode := i, info } +
        (if dead = info then 1 else 0) =
      map.count { keyNode := i, info } + if added = info then 1 else 0 := by
  have hpos : 0 < map.count { keyNode := i, info := dead } := count_pos_iff.mpr h
  unfold replaceInMap
  rw [count_cons, count_erase, key_beq, key_beq]
  simp only [true_and, decide_eq_true_eq]
  by_cases hdead : dead = info
  · subst hdead
    rw [if_pos rfl]
    omega
  · rw [if_neg hdead]
    omega

/-- The hashes that are computed are new enough to stop a loop that comes again. -/
theorem min_le_minutes (h : ¬ minutes + MIX_HASH_REDUNDANCY_MINUTES < minMinutes)
    (hmin : minMinutes = minutes - MIX_HASH_REDUNDANCY_MINUTES) : minMinutes ≤ minutes := by
  subst hmin
  rw [UInt32.lt_iff_toNat_lt, UInt32.toNat_sub, UInt32.toNat_add] at h
  rw [UInt32.le_iff_toNat_le, UInt32.toNat_sub]
  have hone : MIX_HASH_REDUNDANCY_MINUTES.toNat = 1 := rfl
  rw [hone] at h ⊢
  omega

theorem rehash_cases (hashs : MixHashs) (calcKeyHash : CalcKeyHash) (aesKey : AesKey)
    (minutes : UInt32) :
    hashs.rehash calcKeyHash aesKey minutes = (hashs, []) ∨
    ∃ start, minutes - MIX_HASH_REDUNDANCY_MINUTES ≤ start ∧
      hashs.rehash calcKeyHash aesKey minutes =
        replace calcKeyHash aesKey (minutes - MIX_HASH_REDUNDANCY_MINUTES) 3 start hashs := by
  unfold rehash
  dsimp only
  split
  case isTrue => exact .inr ⟨_, UInt32.le_refl _, rfl⟩
  case isFalse hnew =>
  split
  case isTrue => exact .inl rfl
  case isFalse hold =>
    refine .inr ⟨minutes, min_le_minutes (fun hlt => ?_) rfl, rfl⟩
    exact hnew (UInt32.lt_of_le_of_lt (UInt32.not_lt.mp hold) hlt)

/-- The map has the hashes of a key. -/
def InMap (hashs : MixHashs) (i : NodeId) (map : List MixHashKey) : Prop :=
  ∀ info, map.count { keyNode := i, info } = hashs.infos.count info

theorem InMap.advance (h : hashs.InMap i map) (added : MixHashInfo) :
    (hashs.advance added).InMap i
      (replaceInMap i map (hashs.withAppend hashs.nextUpdateHash, added)) := by
  intro info
  have hdead : { keyNode := i, info := hashs.withAppend hashs.nextUpdateHash } ∈ map := by
    rw [← count_pos_iff, h]
    exact count_pos_iff.mpr (hashs.withAppend_mem _)
  have hreplaced := count_replaceInMap hdead added info
  have hadvanced := hashs.count_update hashs.nextUpdateHash (hashs.nextUpdateHash + 1) added info
  rw [h info] at hreplaced
  unfold MixHashs.advance
  omega

theorem count_replaceInMap_ne {j : NodeId} (hne : j ≠ i) (map : List MixHashKey)
    (change : MixHashInfo × MixHashInfo) (info : MixHashInfo) :
    (replaceInMap i map change).count { keyNode := j, info } =
      map.count { keyNode := j, info } := by
  have hkey : ∀ info' : MixHashInfo, ({ keyNode := i, info := info' } : MixHashKey) ≠
      { keyNode := j, info } := fun info' heq => hne (congrArg MixHashKey.keyNode heq).symm
  unfold replaceInMap
  rw [count_cons_of_ne (hkey _), count_erase_of_ne (hkey _).symm]

theorem InMap.replace {count : Nat} (h : hashs.InMap i map) :
    (replace calcKeyHash aesKey minMinutes count minutes hashs).1.InMap i
      ((replace calcKeyHash aesKey minMinutes count minutes hashs).2.foldl (replaceInMap i) map) := by
  induction count generalizing minutes hashs map with
  | zero => exact h
  | succ _ ih =>
    rw [replace_succ]
    split
    case isTrue => exact h
    case isFalse => exact ih (h.advance _)

theorem InMap.rehash (h : hashs.InMap i map) :
    (hashs.rehash calcKeyHash aesKey minutes).1.InMap i
      ((hashs.rehash calcKeyHash aesKey minutes).2.foldl (replaceInMap i) map) := by
  rcases hashs.rehash_cases calcKeyHash aesKey minutes with hsame | ⟨start, -, hreplace⟩
  · exact hsame ▸ h
  · exact hreplace ▸ h.replace

theorem count_foldl_replaceInMap {j : NodeId} (hne : j ≠ i)
    (changes : List (MixHashInfo × MixHashInfo)) (map : List MixHashKey) (info : MixHashInfo) :
    (changes.foldl (replaceInMap i) map).count { keyNode := j, info } =
      map.count { keyNode := j, info } := by
  induction changes generalizing map with
  | nil => rfl
  | cons change _ ih => exact (ih _).trans (count_replaceInMap_ne hne map change info)

theorem count_foldl_erase (i j : NodeId) (infos : List MixHashInfo) (map : List MixHashKey)
    (info : MixHashInfo) :
    (infos.foldl (fun map info => map.erase { keyNode := i, info }) map).count
        { keyNode := j, info } =
      map.count { keyNode := j, info } - if i = j then infos.count info else 0 := by
  induction infos generalizing map with
  | nil =>
    rw [count_nil, ite_self]
    rfl
  | cons _ _ ih =>
    refine (ih _).trans ?_
    rw [count_erase, key_beq, count_cons]
    simp only [decide_eq_true_eq, beq_iff_eq]
    by_cases hij : i = j
    · simp only [hij, true_and, if_true]
      omega
    · simp only [hij, false_and, if_false]
      omega

/-! ## Valid hashes -/

/-- The hashes are those of a key. -/
structure Valid (hashs : MixHashs) (calcKeyHash : CalcKeyHash) (aesKey : AesKey) : Prop where
  originalHash : hashs.originalHash = { hash := calcKeyHash aesKey none, minutes := 0 }
  withAppend : ∀ k, hashs.withAppend k = appended calcKeyHash aesKey (hashs.withAppend k).minutes

theorem valid_create (calcKeyHash : CalcKeyHash) (aesKey : AesKey) (minutes : UInt32) :
    (create calcKeyHash aesKey minutes).Valid calcKeyHash aesKey :=
  ⟨rfl, fun _ => rfl⟩

section

variable (h : hashs.Valid calcKeyHash aesKey)
include h

theorem Valid.advance (minutes : UInt32) :
    (hashs.advance (appended calcKeyHash aesKey minutes)).Valid calcKeyHash aesKey := by
  refine ⟨h.originalHash, fun k => ?_⟩
  rw [advance_withAppend]
  by_cases hk : k = hashs.nextUpdateHash
  · rw [hk, Function.update_self]
    rfl
  · rw [Function.update_of_ne hk]
    exact h.withAppend k

theorem Valid.replace {count : Nat} :
    (replace calcKeyHash aesKey minMinutes count minutes hashs).1.Valid calcKeyHash aesKey := by
  induction count generalizing minutes hashs with
  | zero => exact h
  | succ _ ih =>
    rw [replace_succ]
    split
    case isTrue => exact h
    case isFalse => exact ih (h.advance minutes)

theorem Valid.rehash :
    (hashs.rehash calcKeyHash aesKey minutes).1.Valid calcKeyHash aesKey := by
  rcases hashs.rehash_cases calcKeyHash aesKey minutes with hsame | ⟨start, -, hreplace⟩
  · exact hsame ▸ h
  · exact hreplace ▸ h.replace

end

/-- A hash is among those that the key gets now. -/
def computes (hashs : MixHashs) (calcKeyHash : CalcKeyHash) (aesKey : AesKey) (mixHash : MixHash)
    (minutes : UInt32) : Bool :=
  (hashs.rehash calcKeyHash aesKey minutes).2.any fun (_, added) => added.hash = mixHash

/-! ## Hashes that are replaced twice -/

theorem replace_of_le (h : minMinutes ≤ (hashs.withAppend hashs.nextUpdateHash).minutes)
    (count : Nat) : replace calcKeyHash aesKey minMinutes count minutes hashs = (hashs, []) := by
  cases count with
  | zero => rfl
  | succ =>
    rw [replace_succ]
    exact if_pos h

/-- The loop stops at a hash that is new enough, or when all hashes are. -/
theorem replace_next (hminutes : minMinutes ≤ minutes)
    (hnext : (replace calcKeyHash aesKey minMinutes 3 minutes hashs).1 = next) :
    minMinutes ≤ (next.withAppend next.nextUpdateHash).minutes := by
  iterate 3
    rw [replace_succ] at hnext
    split at hnext
    case isTrue h => exact hnext ▸ h
  -- the hash that was replaced first is the next one again
  have hring : ∀ k : Fin 3, k + 1 + 1 + 1 = k ∧ k ≠ k + 1 + 1 ∧ k ≠ k + 1 := by decide
  obtain ⟨hagain, hsecond, hfirst⟩ := hring hashs.nextUpdateHash
  subst hnext
  show minMinutes ≤ (Function.update (Function.update (Function.update hashs.withAppend _ _) _ _)
    (hashs.nextUpdateHash + 1 + 1) _ (hashs.nextUpdateHash + 1 + 1 + 1)).minutes
  rw [hagain, Function.update_of_ne hsecond]
  rw [advance_nextUpdateHash, Function.update_of_ne hfirst, Function.update_self]
  exact hminutes

theorem rehash_rehash (hashs : MixHashs) (calcKeyHash : CalcKeyHash) (aesKey : AesKey)
    (minutes : UInt32) :
    ((hashs.rehash calcKeyHash aesKey minutes).1.rehash calcKeyHash aesKey minutes).2 = [] := by
  rcases hashs.rehash_cases calcKeyHash aesKey minutes with hsame | ⟨start, hstart, hreplace⟩
  · rw [hsame, hsame]
  have hnext := replace_next hstart (congrArg Prod.fst hreplace.symm)
  rcases (hashs.rehash calcKeyHash aesKey minutes).1.rehash_cases calcKeyHash aesKey minutes with
    hsame | ⟨again, -, hagain⟩
  · rw [hsame]
  · rw [hagain, replace_of_le hnext]

end MixHashs

end Bdt
