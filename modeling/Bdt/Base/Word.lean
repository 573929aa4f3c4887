import Mathlib.Algebra.Order.Ring.Int

/-!
# Unsigned machine words

`word bits n` is the value that an unsigned variable of `bits` bits holds after `n` is stored in it,
and `wordSub` is the unsigned subtraction of two such values, with its borrow. The lemmas say when
they do what the numbers do.
-/

namespace Bdt.Base

/-- The value of an unsigned variable of `bits` bits after a store. -/
@[irreducible] def word (bits n : Nat) : Nat :=
  n % 2 ^ bits

/-- `left - right` for unsigned variables of `bits` bits. -/
@[irreducible] def wordSub (bits left right : Nat) : Nat :=
  if right ≤ left then left - right else left + 2 ^ bits - right

theorem word_of_lt {bits n : Nat} (h : n < 2 ^ bits) : word bits n = n := by
  rw [word, Nat.mod_eq_of_lt h]

/-- A subtraction that needs no borrow gives the difference. -/
theorem wordSub_of_le {bits left right : Nat} (hle : right ≤ left) :
    wordSub bits left right = left - right := by
  rw [wordSub, if_pos hle]

end Bdt.Base
