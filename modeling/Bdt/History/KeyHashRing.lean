import Bdt.History.KeyLookup

/-!
# The ring of the hashes of a key

`KeyManagerRehashAesKey` should leave the hashes of the minute before, of this one and of the next one.
The slot of the newest hash is one before that of the next update, but the difference is one of
`uint32_t`, so that slot 0 is taken for the newest one when the ring has come round. And the loop starts
at this minute where only a part of the hashes is replaced, instead of behind the newest hash.

`hashRing_iff`: the ring is right after every call if and only if each call comes in the minute of the
one before or at least three minutes later.
-/

namespace Bdt

open Base

namespace MixHashs

variable {calcKeyHash : CalcKeyHash} {aesKey : AesKey} {minutes last : UInt32} {hashs : MixHashs}

/-! ## Definitions -/

/-- `KeyManagerRehashAesKey`, with the new hashes and the dead ones in whose slots they are. A key has no
hashes before the first call. -/
def rehashAesKey (calcKeyHash : CalcKeyHash) (aesKey : AesKey) (minutes : UInt32) :
    Option MixHashs → MixHashs × List (Option MixHashInfo × MixHashInfo)
  | none =>
    let hashs := create calcKeyHash aesKey minutes
    (hashs, hashs.infos.map fun added => (none, added))
  | some hashs =>
    let (next, changes) := hashs.rehash calcKeyHash aesKey minutes
    (next, changes.map fun (dead, added) => (some dead, added))

/-- The hashes of a key after a call. -/
def nextHashs (calcKeyHash : CalcKeyHash) (aesKey : AesKey) (hashs : Option MixHashs)
    (minutes : UInt32) : Option (Option MixHashs) :=
  some (some (rehashAesKey calcKeyHash aesKey minutes hashs).1)

/-- The minutes of the hashes, slot by slot. -/
def slotMinutes (hashs : MixHashs) : List UInt32 :=
  (List.finRange 3).map fun k => (hashs.withAppend k).minutes

/-- What a call is to leave and to return. -/
structure RingStep (calcKeyHash : CalcKeyHash) (aesKey : AesKey) (hashs : Option MixHashs)
    (minutes : UInt32) : Prop where
  window : ((rehashAesKey calcKeyHash aesKey minutes hashs).1.slotMinutes).Perm
    [minutes - MIX_HASH_REDUNDANCY_MINUTES, minutes, minutes + MIX_HASH_REDUNDANCY_MINUTES]
  valid : (rehashAesKey calcKeyHash aesKey minutes hashs).1.Valid calcKeyHash aesKey
  oldest : let next := (rehashAesKey calcKeyHash aesKey minutes hashs).1
    (next.withAppend next.nextUpdateHash).minutes = minutes - MIX_HASH_REDUNDANCY_MINUTES
  /-- The nodes that are left and the dead ones are those of before and the new ones. -/
  changes : let result := rehashAesKey calcKeyHash aesKey minutes hashs
    (result.1.infos ++ result.2.filterMap Prod.fst).Perm
      ((hashs.elim [] infos) ++ result.2.map Prod.snd)

/-- A call comes in the minute of the one before, or when none of its hashes is left. -/
def Keeps (last minutes : UInt32) : Prop :=
  minutes = last ∨ (last ≠ 0 ∧ last.toNat + 3 ≤ minutes.toNat)

/-! ## Minutes -/

theorem create_minutes (calcKeyHash : CalcKeyHash) (aesKey : AesKey) (minutes : UInt32) (k : Fin 3) :
    ((create calcKeyHash aesKey minutes).withAppend k).minutes =
      minutes - MIX_HASH_REDUNDANCY_MINUTES + UInt32.ofNat k.val :=
  rfl

theorem before_toNat (h : minutes ≠ 0) :
    (minutes - MIX_HASH_REDUNDANCY_MINUTES).toNat = minutes.toNat - 1 := by
  have hpos : minutes.toNat ≠ 0 := fun heq => h (UInt32.toNat_inj.mp heq)
  have hlt := minutes.toNat_lt
  rw [UInt32.toNat_sub]
  show (4294967296 - 1 + minutes.toNat) % 4294967296 = _
  omega

theorem behind_toNat (h : minutes.toNat + 1 < 4294967296) :
    (minutes + MIX_HASH_REDUNDANCY_MINUTES).toNat = minutes.toNat + 1 := by
  rw [UInt32.toNat_add]
  show (minutes.toNat + 1) % 4294967296 = _
  omega

theorem rehash_of_le (h : minutes - MIX_HASH_REDUNDANCY_MINUTES ≤
    (hashs.withAppend hashs.nextUpdateHash).minutes) :
    hashs.rehash calcKeyHash aesKey minutes = (hashs, []) := by
  rcases hashs.rehash_cases calcKeyHash aesKey minutes with hsame | ⟨start, -, hreplace⟩
  · exact hsame
  · rw [hreplace, replace_of_le h]

/-! ## What the loop replaces -/

theorem advance_self (hashs : MixHashs) (added : MixHashInfo) :
    (hashs.advance added).withAppend hashs.nextUpdateHash = added :=
  Function.update_self ..

theorem advance_of_ne {k : Fin 3} (h : k ≠ hashs.nextUpdateHash) (added : MixHashInfo) :
    (hashs.advance added).withAppend k = hashs.withAppend k :=
  Function.update_of_ne h ..

section Loop

variable {minMinutes start : UInt32} {count : Nat}

theorem replace_pass (h : ¬ minMinutes ≤ (hashs.withAppend hashs.nextUpdateHash).minutes) :
    replace calcKeyHash aesKey minMinutes (count + 1) start hashs =
      let result := replace calcKeyHash aesKey minMinutes count (start + 1)
        (hashs.advance (appended calcKeyHash aesKey start))
      (result.1, (hashs.withAppend hashs.nextUpdateHash, appended calcKeyHash aesKey start) ::
        result.2) := by
  rw [replace_succ, if_neg h]

theorem replace_once (hnext : hashs.nextUpdateHash = 0)
    (hfirst : ¬ minMinutes ≤ (hashs.withAppend 0).minutes)
    (hsecond : minMinutes ≤ (hashs.withAppend 1).minutes) :
    (replace calcKeyHash aesKey minMinutes 3 start hashs).1 =
      hashs.advance (appended calcKeyHash aesKey start) := by
  have hnext' : (hashs.advance (appended calcKeyHash aesKey start)).nextUpdateHash = 1 := by
    rw [advance_nextUpdateHash, hnext]
    rfl
  have hother : (1 : Fin 3) ≠ hashs.nextUpdateHash := by
    rw [hnext]
    decide
  rw [replace_pass (hnext.symm ▸ hfirst)]
  dsimp only
  rw [replace_of_le]
  rw [hnext', advance_of_ne hother]
  exact hsecond

theorem replace_second (calcKeyHash : CalcKeyHash) (aesKey : AesKey) (start : UInt32)
    (hnext : hashs.nextUpdateHash = 0)
    (hfirst : ¬ minMinutes ≤ (hashs.withAppend 0).minutes)
    (hsecond : ¬ minMinutes ≤ (hashs.withAppend 1).minutes) :
    ∃ next, next = (hashs.advance (appended calcKeyHash aesKey start)).advance
        (appended calcKeyHash aesKey (start + 1)) ∧
      next.nextUpdateHash = 2 ∧ next.withAppend 2 = hashs.withAppend 2 ∧
      replace calcKeyHash aesKey minMinutes 3 start hashs =
        let result := replace calcKeyHash aesKey minMinutes 1 (start + 1 + 1) next
        (result.1, (hashs.withAppend 0, appended calcKeyHash aesKey start) ::
          (hashs.withAppend 1, appended calcKeyHash aesKey (start + 1)) :: result.2) := by
  have hnext' : (hashs.advance (appended calcKeyHash aesKey start)).nextUpdateHash = 1 := by
    rw [advance_nextUpdateHash, hnext]
    rfl
  have hothers : (1 : Fin 3) ≠ hashs.nextUpdateHash ∧ (2 : Fin 3) ≠ hashs.nextUpdateHash := by
    rw [hnext]
    decide
  have hthird : (2 : Fin 3) ≠ (hashs.advance (appended calcKeyHash aesKey start)).nextUpdateHash := by
    rw [hnext']
    decide
  refine ⟨_, rfl, ?_, ?_, ?_⟩
  · rw [advance_nextUpdateHash, hnext']
    rfl
  · rw [advance_of_ne hthird, advance_of_ne hothers.2]
  rw [replace_pass (hnext.symm ▸ hfirst)]
  dsimp only
  rw [replace_pass]
  · dsimp only
    rw [hnext', advance_of_ne hothers.1, hnext]
  · rw [hnext', advance_of_ne hothers.1]
    exact hsecond

end Loop

/-! ## What a call leaves -/

section

variable (calcKeyHash : CalcKeyHash) (aesKey : AesKey) (minutes : UInt32)

theorem create_oldest :
    ((create calcKeyHash aesKey minutes).withAppend
      (create calcKeyHash aesKey minutes).nextUpdateHash).minutes =
      minutes - MIX_HASH_REDUNDANCY_MINUTES :=
  UInt32.add_zero _

theorem create_next :
    (create calcKeyHash aesKey minutes).nextUpdateHash = 0 :=
  rfl

theorem create_newestHashIndex :
    (create calcKeyHash aesKey minutes).newestHashIndex = 0 := by
  unfold newestHashIndex
  show Fin.ofNat 3 ((UInt32.ofNat 0 - 1) % 3).toNat = 0
  decide

theorem create_slots :
    appended calcKeyHash aesKey (minutes - MIX_HASH_REDUNDANCY_MINUTES) =
        (create calcKeyHash aesKey minutes).withAppend 0 ∧
      appended calcKeyHash aesKey (minutes - MIX_HASH_REDUNDANCY_MINUTES + 1) =
        (create calcKeyHash aesKey minutes).withAppend 1 ∧
      appended calcKeyHash aesKey (minutes - MIX_HASH_REDUNDANCY_MINUTES + 1 + 1) =
        (create calcKeyHash aesKey minutes).withAppend 2 := by
  refine ⟨?_, rfl, ?_⟩
  · show appended _ _ _ = appended _ _ (_ + 0)
    rw [UInt32.add_zero]
  · show appended _ _ _ = appended _ _ (_ + (1 + 1))
    rw [UInt32.add_assoc]

end

theorem create_toNat (h : minutes ≠ 0) (calcKeyHash : CalcKeyHash) (aesKey : AesKey) :
    ((create calcKeyHash aesKey minutes).withAppend 0).minutes.toNat = minutes.toNat - 1 ∧
      ((create calcKeyHash aesKey minutes).withAppend 1).minutes = minutes ∧
      ((create calcKeyHash aesKey minutes).withAppend 2).minutes =
        minutes + MIX_HASH_REDUNDANCY_MINUTES := by
  refine ⟨?_, ?_, ?_⟩
  · rw [create_minutes]
    show (minutes - MIX_HASH_REDUNDANCY_MINUTES + 0).toNat = _
    rw [UInt32.add_zero, before_toNat h]
  · exact UInt32.sub_add_cancel minutes 1
  · show minutes - 1 + (1 + 1) = minutes + 1
    rw [← UInt32.add_assoc, UInt32.sub_add_cancel]

section

variable (calcKeyHash : CalcKeyHash) (aesKey : AesKey)

theorem create_nextMinutes (minutes : UInt32) :
    ((create calcKeyHash aesKey minutes).withAppend
      (create calcKeyHash aesKey minutes).newestHashIndex).minutes + 1 = minutes := by
  rw [create_newestHashIndex, create_minutes]
  show minutes - 1 + 0 + 1 = minutes
  rw [UInt32.add_zero, UInt32.sub_add_cancel]

/-- Three passes leave nothing of the hashes but the original one. -/
theorem advance_create (last minutes : UInt32)
    {first second third : MixHashInfo}
    (hfirst : first = (create calcKeyHash aesKey minutes).withAppend 0)
    (hsecond : second = (create calcKeyHash aesKey minutes).withAppend 1)
    (hthird : third = (create calcKeyHash aesKey minutes).withAppend 2) :
    (((create calcKeyHash aesKey last).advance first).advance second).advance third =
      create calcKeyHash aesKey minutes := by
  have hnext : ((create calcKeyHash aesKey last).advance first).nextUpdateHash = 1 := rfl
  have hnext' : (((create calcKeyHash aesKey last).advance first).advance second).nextUpdateHash = 2 :=
    rfl
  have hslots : ((((create calcKeyHash aesKey last).advance first).advance second).advance
      third).withAppend = (create calcKeyHash aesKey minutes).withAppend := by
    funext k
    have hk : k = 0 ∨ k = 1 ∨ k = 2 := by omega
    rcases hk with rfl | rfl | rfl
    · rw [advance_of_ne (hnext' ▸ by decide), advance_of_ne (hnext ▸ by decide), ← hfirst]
      exact advance_self (create calcKeyHash aesKey last) first
    · rw [advance_of_ne (hnext' ▸ by decide), ← hsecond]
      exact hnext ▸ advance_self ((create calcKeyHash aesKey last).advance first) second
    · rw [← hthird]
      exact hnext' ▸ advance_self (((create calcKeyHash aesKey last).advance first).advance second) third
  show MixHashs.mk _ _ _ = MixHashs.mk _ _ _
  rw [MixHashs.mk.injEq]
  refine ⟨rfl, hslots, ?_⟩
  rw [hnext']
  rfl

/-- The first two passes, when they begin behind the newest minute. -/
theorem rehash_newer (hlast : last ≠ 0)
    (hgap : last.toNat + 2 ≤ minutes.toNat) {first : UInt32}
    (hfirst : first = minutes - MIX_HASH_REDUNDANCY_MINUTES) :
    first.toNat = minutes.toNat - 1 ∧
    ∃ next, next = ((create calcKeyHash aesKey last).advance (appended calcKeyHash aesKey first)).advance
        (appended calcKeyHash aesKey (first + 1)) ∧
      next.nextUpdateHash = 2 ∧
      next.withAppend 2 = (create calcKeyHash aesKey last).withAppend 2 ∧
      (next.withAppend 2).minutes.toNat = last.toNat + 1 ∧
      (create calcKeyHash aesKey last).rehash calcKeyHash aesKey minutes =
        let result := replace calcKeyHash aesKey first 1 (first + 1 + 1) next
        (result.1, ((create calcKeyHash aesKey last).withAppend 0, appended calcKeyHash aesKey first) ::
          ((create calcKeyHash aesKey last).withAppend 1, appended calcKeyHash aesKey (first + 1)) ::
          result.2) := by
  have hminutes : minutes ≠ 0 := by
    rintro rfl
    exact absurd hgap (Nat.not_le.mpr (Nat.succ_pos _))
  obtain ⟨hzero, hsecond, hthird⟩ := create_toNat hlast calcKeyHash aesKey
  have hmin : first.toNat = minutes.toNat - 1 := hfirst ▸ before_toNat hminutes
  have hlt := minutes.toNat_lt
  have hnewer : last < first := by
    rw [UInt32.lt_iff_toNat_lt, hmin]
    omega
  have hreplaced : ¬ first ≤ ((create calcKeyHash aesKey last).withAppend 0).minutes := by
    rw [UInt32.le_iff_toNat_le, hzero, hmin]
    omega
  obtain ⟨next, hnext, hindex, hslot, hreplace⟩ := replace_second calcKeyHash aesKey first rfl
    hreplaced (UInt32.not_le.mpr (hsecond.symm ▸ hnewer : _ < first))
  refine ⟨hmin, next, hnext, hindex, hslot, ?_, ?_⟩
  · rw [hslot, hthird]
    exact behind_toNat (by omega)
  rw [← hreplace]
  unfold rehash
  dsimp only
  rw [create_nextMinutes, ← hfirst, if_pos hnewer]

end

theorem rehash_create (hlast : last ≠ 0) (hlate : last.toNat + 3 ≤ minutes.toNat) :
    (create calcKeyHash aesKey last).rehash calcKeyHash aesKey minutes =
      (create calcKeyHash aesKey minutes,
        (List.finRange 3).map fun k => ((create calcKeyHash aesKey last).withAppend k,
          (create calcKeyHash aesKey minutes).withAppend k)) := by
  obtain ⟨hmin, next, hnext, hindex, hslot, hbehind, hrehash⟩ :=
    rehash_newer calcKeyHash aesKey hlast (Nat.le_of_succ_le hlate) rfl
  have hpass : ¬ minutes - MIX_HASH_REDUNDANCY_MINUTES ≤
      (next.withAppend next.nextUpdateHash).minutes := by
    rw [hindex, UInt32.le_iff_toNat_le, hmin, hbehind]
    omega
  have hslots := create_slots calcKeyHash aesKey minutes
  rw [hrehash, replace_pass hpass, hindex, hslot, hnext, hslots.1, hslots.2.1, hslots.2.2]
  exact Prod.ext (advance_create calcKeyHash aesKey last minutes rfl rfl rfl) rfl

/-- If some of the hashes are left, the one of the next minute is missing, or the oldest one is left. -/
theorem window_broken (hsorted : last ≤ minutes) (hbroken : ¬ Keeps last minutes) :
    ¬ RingStep calcKeyHash aesKey (some (create calcKeyHash aesKey last)) minutes := by
  intro h
  have hne : minutes ≠ last := fun heq => hbroken (.inl heq)
  have hlt : last.toNat < minutes.toNat :=
    Nat.lt_of_le_of_ne (UInt32.le_iff_toNat_le.mp hsorted) fun heq => hne (UInt32.toNat_inj.mp heq).symm
  -- nothing is replaced
  have hunchanged : (create calcKeyHash aesKey last).rehash calcKeyHash aesKey minutes ≠
      (create calcKeyHash aesKey last, []) := by
    intro hsame
    have holdest := h.oldest
    unfold rehashAesKey at holdest
    simp only [hsame] at holdest
    have hminutes : last - MIX_HASH_REDUNDANCY_MINUTES + 0 = minutes - MIX_HASH_REDUNDANCY_MINUTES :=
      holdest
    rw [UInt32.add_zero] at hminutes
    have hcancel := congrArg (fun first => first + MIX_HASH_REDUNDANCY_MINUTES) hminutes
    rw [UInt32.sub_add_cancel, UInt32.sub_add_cancel] at hcancel
    exact hne hcancel.symm
  have hlast : last ≠ 0 := by
    intro hzero
    refine hunchanged (rehash_of_le ?_)
    have hwrapped : (0 - MIX_HASH_REDUNDANCY_MINUTES).toNat = 4294967295 := by decide
    have hbound := (minutes - MIX_HASH_REDUNDANCY_MINUTES).toNat_lt
    rw [create_oldest, hzero, UInt32.le_iff_toNat_le, hwrapped]
    omega
  have hminutes : minutes ≠ 0 := by
    intro hzero
    rw [hzero] at hlt
    exact Nat.not_lt_zero _ hlt
  obtain ⟨hfirst, hsecond, hthird⟩ := create_toNat hlast calcKeyHash aesKey
  have hmin := before_toNat hminutes
  have hbound := minutes.toNat_lt
  have hbehind : (last + MIX_HASH_REDUNDANCY_MINUTES).toNat = last.toNat + 1 :=
    behind_toNat (by omega)
  have hreplaced : ¬ minutes - MIX_HASH_REDUNDANCY_MINUTES ≤
      ((create calcKeyHash aesKey last).withAppend 0).minutes := by
    rw [UInt32.le_iff_toNat_le, hfirst, hmin]
    have hpos : last.toNat ≠ 0 := fun heq => hlast (UInt32.toNat_inj.mp heq)
    omega
  -- the hash of the next minute is none of these
  have hmissing : ∀ slot : UInt32, slot.toNat ≤ minutes.toNat → slot.toNat + 2 ≥ minutes.toNat →
      slot ≠ minutes + MIX_HASH_REDUNDANCY_MINUTES := by
    intro slot hle hge heq
    have hslot := congrArg UInt32.toNat heq
    rw [UInt32.toNat_add] at hslot
    have hone : MIX_HASH_REDUNDANCY_MINUTES.toNat = 1 := rfl
    rw [hone] at hslot
    omega
  obtain ⟨k, -, hk⟩ : ∃ k ∈ List.finRange 3,
      (((create calcKeyHash aesKey last).rehash calcKeyHash aesKey minutes).1.withAppend k).minutes =
        minutes + MIX_HASH_REDUNDANCY_MINUTES :=
    List.mem_map.mp (h.window.symm.subset
      (List.mem_cons_of_mem _ (List.mem_cons_of_mem _ List.mem_cons_self)))
  have hnear : minutes.toNat = last.toNat + 1 ∨ minutes.toNat = last.toNat + 2 := by
    have hgap : ¬ last.toNat + 3 ≤ minutes.toNat := fun hlate => hbroken (.inr ⟨hlast, hlate⟩)
    omega
  rcases hnear with hone | htwo
  · have hsame : minutes - MIX_HASH_REDUNDANCY_MINUTES = last := by
      rw [← UInt32.toNat_inj, hmin, hone]
      rfl
    have hkept : minutes - MIX_HASH_REDUNDANCY_MINUTES ≤
        ((create calcKeyHash aesKey last).withAppend 1).minutes := by
      rw [hsame, hsecond]
      exact UInt32.le_refl last
    have hrehash : (create calcKeyHash aesKey last).rehash calcKeyHash aesKey minutes =
        replace calcKeyHash aesKey (minutes - MIX_HASH_REDUNDANCY_MINUTES) 3 minutes
          (create calcKeyHash aesKey last) := by
      have hunfold : (create calcKeyHash aesKey last).rehash calcKeyHash aesKey minutes =
          if minutes + MIX_HASH_REDUNDANCY_MINUTES < last then (create calcKeyHash aesKey last, [])
          else replace calcKeyHash aesKey (minutes - MIX_HASH_REDUNDANCY_MINUTES) 3 minutes
            (create calcKeyHash aesKey last) := by
        unfold rehash
        rw [create_nextMinutes, if_neg (hsame ▸ UInt32.lt_irrefl last)]
      rw [hunfold, if_neg]
      intro hpast
      rw [if_pos hpast] at hunfold
      exact hunchanged hunfold
    rw [hrehash, replace_once rfl hreplaced hkept] at hk
    have hcases : k = 0 ∨ k = 1 ∨ k = 2 := by omega
    rcases hcases with rfl | rfl | rfl
    · have hslot := advance_self (create calcKeyHash aesKey last) (appended calcKeyHash aesKey minutes)
      exact hmissing minutes (Nat.le_refl _) (Nat.le_add_right _ _)
        ((congrArg MixHashInfo.minutes hslot).symm.trans hk)
    · rw [advance_of_ne (by rw [create_next]; decide), hsecond] at hk
      exact hmissing last (by omega) (by omega) hk
    · rw [advance_of_ne (by rw [create_next]; decide), hthird] at hk
      exact hmissing _ (by omega) (by omega) hk
  obtain ⟨-, next, hnext, hindex, hslot, hlater, hrehash⟩ :=
    rehash_newer calcKeyHash aesKey hlast (Nat.le_of_eq htwo.symm) rfl
  have hkept : minutes - MIX_HASH_REDUNDANCY_MINUTES ≤
      (next.withAppend next.nextUpdateHash).minutes := by
    rw [hindex, UInt32.le_iff_toNat_le, hmin, hlater]
    omega
  rw [hrehash, replace_of_le hkept] at hk
  have hcases : k = 0 ∨ k = 1 ∨ k = 2 := by omega
  rcases hcases with rfl | rfl | rfl
  · have hzero : (next.withAppend 0).minutes = minutes - MIX_HASH_REDUNDANCY_MINUTES := by
      have hother : (0 : Fin 3) ≠ ((create calcKeyHash aesKey last).advance (appended calcKeyHash aesKey
          (minutes - MIX_HASH_REDUNDANCY_MINUTES))).nextUpdateHash := by
        rw [advance_nextUpdateHash, create_next]
        decide
      rw [hnext, advance_of_ne hother]
      exact congrArg MixHashInfo.minutes (advance_self (create calcKeyHash aesKey last) _)
    rw [hzero] at hk
    exact hmissing _ (by omega) (by omega) hk
  · have hone : (next.withAppend 1).minutes = minutes := by
      have hself := advance_self ((create calcKeyHash aesKey last).advance (appended calcKeyHash aesKey
        (minutes - MIX_HASH_REDUNDANCY_MINUTES))) (appended calcKeyHash aesKey
        (minutes - MIX_HASH_REDUNDANCY_MINUTES + 1))
      rw [hnext]
      exact (congrArg MixHashInfo.minutes hself).trans (UInt32.sub_add_cancel minutes 1)
    rw [hone] at hk
    exact hmissing minutes (Nat.le_refl _) (Nat.le_add_right _ _) hk
  · rw [hslot, hthird] at hk
    exact hmissing _ (by omega) (by omega) hk

/-! ## Runs -/

section

variable (calcKeyHash : CalcKeyHash) (aesKey : AesKey)

theorem create_slotMinutes (minutes : UInt32) :
    (create calcKeyHash aesKey minutes).slotMinutes =
      [minutes - MIX_HASH_REDUNDANCY_MINUTES, minutes, minutes + MIX_HASH_REDUNDANCY_MINUTES] := by
  obtain ⟨hfirst, hsecond, hthird⟩ := create_slots calcKeyHash aesKey minutes
  have hslots : (create calcKeyHash aesKey minutes).slotMinutes =
      [((create calcKeyHash aesKey minutes).withAppend 0).minutes,
       ((create calcKeyHash aesKey minutes).withAppend 1).minutes,
       ((create calcKeyHash aesKey minutes).withAppend 2).minutes] := rfl
  rw [hslots, ← hfirst, ← hsecond, ← hthird]
  unfold appended
  dsimp only
  show [_, minutes - 1 + 1, minutes - 1 + 1 + 1] = [_, minutes, minutes + 1]
  rw [UInt32.sub_add_cancel]

theorem ringStep_first (minutes : UInt32) :
    RingStep calcKeyHash aesKey none minutes where
  window := .of_eq (create_slotMinutes calcKeyHash aesKey minutes)
  valid := valid_create calcKeyHash aesKey minutes
  oldest := create_oldest calcKeyHash aesKey minutes
  changes := .of_eq rfl

/-- A later call keeps it, and it is the one of a new key again. -/
theorem ringStep_keeps (h : Keeps last minutes) :
    (rehashAesKey calcKeyHash aesKey minutes (some (create calcKeyHash aesKey last))).1 =
        create calcKeyHash aesKey minutes ∧
      RingStep calcKeyHash aesKey (some (create calcKeyHash aesKey last)) minutes := by
  have hstep : ∀ changes, rehashAesKey calcKeyHash aesKey minutes
        (some (create calcKeyHash aesKey last)) = (create calcKeyHash aesKey minutes, changes) →
      ((create calcKeyHash aesKey minutes).infos ++ changes.filterMap Prod.fst).Perm
        ((create calcKeyHash aesKey last).infos ++ changes.map Prod.snd) →
      RingStep calcKeyHash aesKey (some (create calcKeyHash aesKey last)) minutes := by
    intro changes hresult hchanges
    refine ⟨?_, ?_, ?_, ?_⟩
    · rw [hresult]
      exact .of_eq (create_slotMinutes calcKeyHash aesKey minutes)
    · rw [hresult]
      exact valid_create calcKeyHash aesKey minutes
    · rw [hresult]
      exact create_oldest calcKeyHash aesKey minutes
    · rw [hresult]
      exact hchanges
  rcases h with rfl | ⟨hlast, hlate⟩
  · have hresult : rehashAesKey calcKeyHash aesKey minutes (some (create calcKeyHash aesKey minutes)) =
        (create calcKeyHash aesKey minutes, []) := by
      unfold rehashAesKey
      dsimp only
      rw [rehash_of_le (UInt32.le_of_eq (create_oldest calcKeyHash aesKey minutes).symm)]
      rfl
    exact ⟨congrArg Prod.fst hresult, hstep [] hresult (.of_eq rfl)⟩
  have hresult : rehashAesKey calcKeyHash aesKey minutes (some (create calcKeyHash aesKey last)) =
      (create calcKeyHash aesKey minutes,
        (List.finRange 3).map fun k => (some ((create calcKeyHash aesKey last).withAppend k),
          (create calcKeyHash aesKey minutes).withAppend k)) := by
    unfold rehashAesKey
    dsimp only
    rw [rehash_create hlast hlate]
    rfl
  refine ⟨congrArg Prod.fst hresult, hstep _ hresult ?_⟩
  -- the original hash stays, and the others change their places
  exact List.perm_append_comm.cons _

theorem stepsMeet_create {calls : List UInt32}
    (hsorted : (last :: calls).Pairwise (· ≤ ·)) :
    StepsMeet (nextHashs calcKeyHash aesKey) (RingStep calcKeyHash aesKey)
        (some (create calcKeyHash aesKey last)) calls ↔ (last :: calls).IsChain Keeps := by
  induction calls generalizing last with
  | nil => exact iff_of_true (stepsMeet_nil _ _) (.singleton last)
  | cons minutes calls ih =>
    obtain ⟨hle, hrest⟩ := List.pairwise_cons.mp hsorted
    rw [List.isChain_cons_cons]
    by_cases hkeeps : Keeps last minutes
    · obtain ⟨hnext, hstep⟩ := ringStep_keeps calcKeyHash aesKey hkeeps
      have hcalled : nextHashs calcKeyHash aesKey (some (create calcKeyHash aesKey last)) minutes =
          some (some (create calcKeyHash aesKey minutes)) := by
        unfold nextHashs
        rw [hnext]
      constructor
      · intro hmeet
        exact ⟨hkeeps, (ih hrest).mp (hmeet.rest hcalled)⟩
      intro hchain
      refine .cons hstep fun t ht => ?_
      obtain rfl := Option.some.inj (hcalled.symm.trans ht)
      exact (ih hrest).mpr hchain.2
    · refine iff_of_false (fun hmeet => ?_) fun hchain => hkeeps hchain.1
      exact window_broken (hle minutes List.mem_cons_self) hkeeps (hmeet [] minutes calls _ rfl rfl)

/-- Over calls at minutes that do not decrease, the ring is right after each of them if and only if each
comes in the minute of the one before or at least three minutes later. -/
theorem hashRing_iff {calls : List UInt32}
    (hsorted : calls.Pairwise (· ≤ ·)) :
    StepsMeet (nextHashs calcKeyHash aesKey) (RingStep calcKeyHash aesKey) none calls ↔
      calls.IsChain Keeps := by
  cases calls with
  | nil => exact iff_of_true (stepsMeet_nil _ _) .nil
  | cons first =>
    rw [← stepsMeet_create calcKeyHash aesKey hsorted]
    constructor
    · intro hmeet
      exact hmeet.rest rfl
    intro hmeet
    refine .cons (ringStep_first calcKeyHash aesKey first) fun t ht => ?_
    cases ht
    exact hmeet

end

/-- A key is rehashed twice in a minute, and again four minutes later. -/
theorem hashRing_far :
    StepsMeet (nextHashs KeyManager.plainKeyHash (KeyManager.plainKey 1))
      (RingStep KeyManager.plainKeyHash (KeyManager.plainKey 1)) none [10, 10, 14] :=
  (hashRing_iff KeyManager.plainKeyHash (KeyManager.plainKey 1) (by decide)).mpr
    (.cons_cons (.inl rfl) (.cons_cons (.inr ⟨by decide, by decide⟩) (.singleton 14)))

/-- In the next minute the hash of the oldest minute is replaced by one of this minute, which there is
already. -/
theorem next_minute_missing :
    ¬ ∀ (calcKeyHash : CalcKeyHash) (aesKey : AesKey) (calls : List UInt32),
      calls.Pairwise (· ≤ ·) →
      StepsMeet (nextHashs calcKeyHash aesKey) (RingStep calcKeyHash aesKey) none calls := by
  intro h
  have hmeet := h KeyManager.plainKeyHash (KeyManager.plainKey 1) [10, 11] (by decide)
  have hbroken : ¬ Keeps 10 11 := by
    intro hkeeps
    rcases hkeeps with heq | ⟨-, hlate⟩
    · exact absurd heq (by decide)
    · exact absurd hlate (by decide)
  exact window_broken (by decide) hbroken (hmeet [10] 11 [] _ rfl rfl)

end MixHashs

end Bdt
