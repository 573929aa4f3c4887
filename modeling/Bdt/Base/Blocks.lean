import Mathlib.Data.List.GetD
import Mathlib.Data.List.Infix

/-!
# Numbered blocks in a stream

Blocks are written into a stream one after the other, and every element of the stream keeps the
number of its block. `InBlocks` says that a stream is made of whole blocks, each of them there once
or not at all and in their order, and ends with the beginning of a later one.

`inBlocks_of_part`: a part of the stream of all blocks is in blocks. `InBlocks.count_le`: what is in
blocks has no element twice.
-/

namespace Bdt.Base

open List

variable {α : Type*}

/-- An element of a block with this number. -/
structure Numbered (α : Type*) where
  block : Nat
  value : α
  deriving DecidableEq

/-- The block with this number. -/
def numbered (number : Nat) (block : List α) : List (Numbered α) :=
  block.map (Numbered.mk number)

/-- All the blocks, one after the other. -/
def blockStream (blocks : List (List α)) : List (Numbered α) :=
  (blocks.mapIdx numbered).flatten

/-- Whole blocks, and the beginning of a later one. -/
def InBlocks (blocks : List (List α)) (stream : List (Numbered α)) : Prop :=
  ∃ numbers number part, (numbers ++ [number]).Pairwise (· < ·) ∧
    part <+: blocks.getD number [] ∧
    stream = (numbers.flatMap fun k => numbered k (blocks.getD k [])) ++ numbered number part

/-- How many elements of the block are in the stream. -/
def blockCount (number : Nat) (stream : List (Numbered α)) : Nat :=
  stream.countP fun x => x.block = number

@[simp] theorem length_numbered (number : Nat) (block : List α) :
    (numbered number block).length = block.length :=
  length_map _

@[simp] theorem blockStream_concat (blocks : List (List α)) (block : List α) :
    blockStream (blocks ++ [block]) = blockStream blocks ++ numbered blocks.length block := by
  unfold blockStream
  rw [mapIdx_concat, flatten_append, flatten_singleton]

@[simp] theorem blockCount_append (number : Nat) (stream more : List (Numbered α)) :
    blockCount number (stream ++ more) = blockCount number stream + blockCount number more :=
  countP_append

theorem blockCount_numbered (number : Nat) (block : List α) :
    blockCount number (numbered number block) = block.length := by
  unfold blockCount numbered
  rw [countP_map, countP_eq_length.mpr]
  intro x _
  exact decide_eq_true rfl

variable {number : Nat}

theorem blockCount_numbered_ne {other : Nat} (h : other ≠ number) (block : List α) :
    blockCount number (numbered other block) = 0 := by
  unfold blockCount numbered
  rw [countP_map, countP_eq_zero]
  intro x _ heq
  exact h (of_decide_eq_true heq)

/-- The stream of the blocks has no element of a block behind them. -/
theorem blockCount_blockStream (blocks : List (List α)) (h : blocks.length ≤ number) :
    blockCount number (blockStream blocks) = 0 := by
  induction blocks using List.reverseRecOn with
  | nil => rfl
  | append_singleton _ block ih =>
    rw [length_append, length_singleton] at h
    rw [blockStream_concat, blockCount_append, ih (by omega),
      blockCount_numbered_ne (by omega) block]

variable {blocks : List (List α)}

variable {stream : List (Numbered α)}

/-- A part of the stream of the blocks is the first of them, and the beginning of the next. -/
theorem prefix_blockStream
    (h : stream <+: blockStream blocks) : ∃ number part, number ≤ blocks.length ∧
      part <+: blocks.getD number [] ∧
      stream = blockStream (blocks.take number) ++ numbered number part := by
  induction blocks using List.reverseRecOn with
  | nil =>
    obtain rfl := prefix_nil.mp h
    exact ⟨0, [], Nat.le_refl 0, nil_prefix, rfl⟩
  | append_singleton blocks block ih =>
    obtain ⟨tail, htail⟩ := h
    rw [blockStream_concat] at htail
    rcases append_eq_append_iff.mp htail with ⟨rest, hrest, -⟩ | ⟨rest, rfl, hrest⟩
    · -- the stream ends before the last block
      obtain ⟨number, part, hle, hpart, rfl⟩ := ih ⟨rest, hrest.symm⟩
      refine ⟨number, part, ?_, ?_, ?_⟩
      · exact Nat.le_trans hle (length_append ▸ Nat.le_add_right _ _)
      · rcases Nat.lt_or_eq_of_le hle with hlt | rfl
        · rwa [getD_append _ _ _ _ hlt]
        · rw [getD_eq_default _ _ (Nat.le_refl _)] at hpart
          rw [prefix_nil.mp hpart]
          exact nil_prefix
      · rw [take_append_of_le_length hle]
    have hpart : rest <+: numbered blocks.length block := ⟨tail, hrest.symm⟩
    obtain ⟨part, hprefix, rfl⟩ := prefix_map_iff.mp hpart
    refine ⟨blocks.length, part, ?_, ?_, ?_⟩
    · exact length_append ▸ Nat.le_add_right _ _
    · rw [getD_append_right _ _ _ _ (Nat.le_refl _), Nat.sub_self]
      exact hprefix
    · rw [take_left']
      · rfl
      · rfl

theorem blockStream_take (h : number ≤ blocks.length) :
    blockStream (blocks.take number) =
      (List.range number).flatMap fun k => numbered k (blocks.getD k []) := by
  induction number with
  | zero => rfl
  | succ number ih =>
    have hlt : number < blocks.length := h
    rw [take_add_one, List.getElem?_eq_getElem hlt, Option.toList_some, blockStream_concat,
      ih (Nat.le_of_lt h), range_succ, flatMap_append, flatMap_singleton,
      length_take, Nat.min_eq_left (Nat.le_of_lt hlt), getD_eq_getElem _ _ hlt]

/-- A part of the stream of the blocks is in blocks. -/
theorem inBlocks_of_part (h : stream <+: blockStream blocks) : InBlocks blocks stream := by
  obtain ⟨number, part, hle, hpart, rfl⟩ := prefix_blockStream h
  refine ⟨List.range number, number, part, ?_, hpart, ?_⟩
  · rw [← range_succ]
    exact pairwise_lt_range
  · rw [blockStream_take hle]

/-- Chunks with increasing numbers have the elements of each number once. -/
theorem blockCount_flatMap_le {numbers : List Nat} (h : numbers.Pairwise (· < ·))
    (chunk : Nat → List α) (number : Nat) :
    blockCount number (numbers.flatMap fun k => numbered k (chunk k)) ≤ (chunk number).length := by
  induction numbers with
  | nil => exact Nat.zero_le _
  | cons first numbers ih =>
    obtain ⟨hfirst, hrest⟩ := pairwise_cons.mp h
    rw [flatMap_cons, blockCount_append]
    by_cases heq : first = number
    · subst heq
      have hzero : blockCount first (numbers.flatMap fun k => numbered k (chunk k)) = 0 := by
        refine countP_eq_zero.mpr fun x hmem hx => ?_
        obtain ⟨k, hk, hmem⟩ := mem_flatMap.mp hmem
        obtain ⟨value, -, rfl⟩ := mem_map.mp hmem
        have hlt := hfirst k hk
        have heq := of_decide_eq_true hx
        exact Nat.ne_of_gt hlt heq
      rw [blockCount_numbered, hzero]
      exact Nat.le_refl _
    · rw [blockCount_numbered_ne heq, Nat.zero_add]
      exact ih hrest

theorem InBlocks.count_le (h : InBlocks blocks stream) (number : Nat) :
    blockCount number stream ≤ (blocks.getD number []).length := by
  obtain ⟨numbers, last, part, hnumbers, hpart, rfl⟩ := h
  have hchunks : (numbers.flatMap fun k => numbered k (blocks.getD k [])) ++ numbered last part =
      (numbers ++ [last]).flatMap fun k =>
        numbered k (if k = last then part else blocks.getD k []) := by
    rw [flatMap_append, flatMap_singleton, if_pos rfl]
    congr 1
    refine flatMap_congr fun k hk => ?_
    have hlt := (pairwise_append.mp hnumbers).2.2 k hk last (mem_singleton_self last)
    rw [if_neg (Nat.ne_of_lt hlt)]
  rw [hchunks]
  refine Nat.le_trans (blockCount_flatMap_le hnumbers _ number) ?_
  split
  case isTrue heq => exact heq ▸ hpart.length_le
  case isFalse => exact Nat.le_refl _

end Bdt.Base
