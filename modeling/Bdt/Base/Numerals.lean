import Mathlib.Algebra.Order.Ring.Int
import Mathlib.Data.List.TakeWhile

/-!
# Printed numbers

The numbers that `printf` writes with `%u` and `%x`, and what `atoi` makes of a string. A number is
printed digit by digit, and `digitsValue` of the digits is the number again.
-/

namespace Bdt.Base

open List

/-- `%u`. -/
def decimal (n : Nat) : List Char :=
  Nat.toDigits 10 n

/-- `%x`. -/
def hexadecimal (n : Nat) : List Char :=
  Nat.toDigits 16 n

/-- The number with these digits, the highest one first. -/
def digitsValue (base : Nat) (digits : List Nat) : Nat :=
  digits.foldl (fun value digit => base * value + digit) 0

/-- `isspace`. -/
def isSpace (c : Char) : Bool :=
  c = ' ' || (9 ≤ c.toNat && c.toNat ≤ 13)

def decimalDigit (c : Char) : Nat :=
  c.toNat - '0'.toNat

/-- The number at the front of a string. -/
def leadingNumber (str : List Char) : Nat :=
  digitsValue 10 ((str.takeWhile Char.isDigit).map decimalDigit)

/-- `atoi`. -/
def atoi (str : List Char) : Int :=
  match str.dropWhile isSpace with
  | '-' :: digits => -(leadingNumber digits)
  | '+' :: digits => leadingNumber digits
  | digits => leadingNumber digits

theorem digitsValue_concat (base : Nat) (digits : List Nat) (digit : Nat) :
    digitsValue base (digits ++ [digit]) = base * digitsValue base digits + digit := by
  rw [digitsValue, foldl_append]
  rfl

variable {n : Nat}

variable {c : Char}

theorem mem_toDigits {base : Nat} (hbase : 1 < base) (h : c ∈ Nat.toDigits base n) :
    ∃ digit < base, c = Nat.digitChar digit := by
  induction n using Nat.strongRecOn with
  | ind n ih =>
    rw [Nat.toDigits_eq_if hbase] at h
    split at h
    case isTrue hlt => exact ⟨n, hlt, mem_singleton.mp h⟩
    case isFalse hge =>
    rcases mem_append.mp h with h | h
    · exact ih (n / base) (Nat.div_lt_self (by omega) hbase) h
    · exact ⟨n % base, Nat.mod_lt _ (by omega), mem_singleton.mp h⟩

theorem digitsValue_toDigits {base : Nat} (hbase : 1 < base) (value : Char → Nat)
    (hvalue : ∀ digit < base, value (Nat.digitChar digit) = digit) (n : Nat) :
    digitsValue base ((Nat.toDigits base n).map value) = n := by
  induction n using Nat.strongRecOn with
  | ind n ih =>
    rw [Nat.toDigits_eq_if hbase]
    split
    case isTrue hlt =>
      show base * 0 + value (Nat.digitChar n) = n
      rw [hvalue n hlt, Nat.mul_zero, Nat.zero_add]
    case isFalse hge =>
    rw [map_append, map_singleton, digitsValue_concat,
      ih (n / base) (Nat.div_lt_self (by omega) hbase),
      hvalue _ (Nat.mod_lt _ (by omega))]
    exact Nat.div_add_mod n base

theorem length_decimal_le {k : Nat} (hk : 0 < k) (h : n < 10 ^ k) : (decimal n).length ≤ k :=
  (Nat.length_toDigits_le_iff (by decide) hk).mpr h

theorem length_hexadecimal_le {k : Nat} (hk : 0 < k) (h : n < 16 ^ k) :
    (hexadecimal n).length ≤ k :=
  (Nat.length_toDigits_le_iff (by decide) hk).mpr h

theorem mem_decimal (h : c ∈ decimal n) : ∃ digit < 10, c = Nat.digitChar digit :=
  mem_toDigits (by decide) h

theorem decimal_ne_nil (n : Nat) : decimal n ≠ [] :=
  Nat.toDigits_ne_nil

theorem hexadecimal_ne_nil (n : Nat) : hexadecimal n ≠ [] :=
  Nat.toDigits_ne_nil

theorem isDigit_of_mem_decimal (h : c ∈ decimal n) : c.isDigit = true := by
  obtain ⟨digit, hlt, rfl⟩ := mem_decimal h
  have hall : ∀ digit < 10, (Nat.digitChar digit).isDigit = true := by decide
  exact hall digit hlt

theorem leadingNumber_decimal (n : Nat) : leadingNumber (decimal n) = n := by
  rw [leadingNumber, takeWhile_eq_self_iff.mpr fun c h => isDigit_of_mem_decimal h]
  exact digitsValue_toDigits (by decide) decimalDigit (by decide) n

/-- `atoi` of a number that was printed. -/
theorem atoi_decimal (n : Nat) : atoi (decimal n) = n := by
  obtain ⟨c, rest, hcons⟩ := exists_cons_of_ne_nil (decimal_ne_nil n)
  have hc : ∃ digit < 10, c = Nat.digitChar digit :=
    mem_decimal (n := n) (by rw [hcons]; exact mem_cons_self)
  obtain ⟨digit, hlt, rfl⟩ := hc
  have hall : ∀ digit < 10, isSpace (Nat.digitChar digit) = false ∧
      Nat.digitChar digit ≠ '-' ∧ Nat.digitChar digit ≠ '+' := by
    decide
  obtain ⟨hspace, hminus, hplus⟩ := hall digit hlt
  have hdrop : (decimal n).dropWhile isSpace = decimal n := by
    rw [hcons]
    exact dropWhile_cons_of_neg (by rw [hspace]; exact Bool.false_ne_true)
  unfold atoi
  rw [hdrop]
  split
  case h_1 digits heq => exact absurd (cons.inj (hcons.symm.trans heq)).1 hminus
  case h_2 digits heq => exact absurd (cons.inj (hcons.symm.trans heq)).1 hplus
  case h_3 => exact congrArg Nat.cast (leadingNumber_decimal n)

end Bdt.Base
