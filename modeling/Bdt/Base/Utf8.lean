import Mathlib.Tactic.Common

/-!
# UTF-8 with replacement characters

Bytes that are read as UTF-8 where everything that is not a character becomes U+FFFD: a byte that
begins no character, and the longest part of a character that is not complete.

`encode_decode` says that the bytes can be had back if there is no U+FFFD, and `exists_collision`
that there are other bytes with the same characters if there is one.
-/

namespace Bdt.Base

open List

/-- U+FFFD. -/
def replacementCharacter : Char := '\uFFFD'

/-- What the first byte of a character says: its part of the number, how many bytes follow, and the
bounds of the one that is next. -/
structure Utf8Lead where
  part : Nat
  more : Nat
  low : UInt8 := 0x80
  high : UInt8 := 0xBF

def utf8Lead (byte : UInt8) : Option Utf8Lead :=
  if byte < 0x80 then some { part := byte.toNat, more := 0 }
  else if byte < 0xC2 then none
  else if byte < 0xE0 then some { part := byte.toNat - 0xC0, more := 1 }
  else if byte = 0xE0 then some { part := 0, more := 2, low := 0xA0 }
  else if byte = 0xED then some { part := 0xD, more := 2, high := 0x9F }
  else if byte < 0xF0 then some { part := byte.toNat - 0xE0, more := 2 }
  else if byte = 0xF0 then some { part := 0, more := 3, low := 0x90 }
  else if byte = 0xF4 then some { part := 4, more := 3, high := 0x8F }
  else if byte < 0xF4 then some { part := byte.toNat - 0xF0, more := 3 }
  else none

/-- The bytes that go on with a character. -/
def utf8Tail : Nat → UInt8 → UInt8 → List UInt8 → List UInt8
  | 0, _, _, _ => []
  | _, _, _, [] => []
  | more + 1, low, high, byte :: bytes =>
    if low ≤ byte ∧ byte ≤ high then byte :: utf8Tail more 0x80 0xBF bytes else []

/-- The character that begins with a byte, and the bytes of it that follow. -/
def utf8First (byte : UInt8) (bytes : List UInt8) : Char × List UInt8 :=
  match utf8Lead byte with
  | none => (replacementCharacter, [])
  | some lead =>
    let tail := utf8Tail lead.more lead.low lead.high bytes
    if tail.length = lead.more then
      (.ofNat (tail.foldl (fun number byte => number * 64 + (byte.toNat - 0x80)) lead.part), tail)
    else (replacementCharacter, tail)

/-- The characters behind some bytes. -/
def decodeFrom : Nat → List UInt8 → List Char
  | _, [] => []
  | skip + 1, _ :: bytes => decodeFrom skip bytes
  | 0, byte :: bytes =>
    (utf8First byte bytes).1 :: decodeFrom (utf8First byte bytes).2.length bytes

def decodeUtf8 (bytes : List UInt8) : List Char :=
  decodeFrom 0 bytes

def encodeUtf8 (chars : List Char) : List UInt8 :=
  chars.flatMap String.utf8EncodeChar

example : decodeUtf8 [0x41, 0xC3, 0xA9, 0xE1, 0x80, 0x42, 0xFF, 0xF0, 0x9F, 0x98, 0x80, 0xED] =
    ['A', 'é', '\uFFFD', 'B', '\uFFFD', '😀', '\uFFFD'] := by decide

variable {bytes rest : List UInt8} {byte low high : UInt8} {more skip : Nat} {lead : Utf8Lead}

theorem decodeFrom_eq (skip : Nat) (bytes : List UInt8) :
    decodeFrom skip bytes = decodeUtf8 (bytes.drop skip) := by
  induction bytes generalizing skip with
  | nil => cases skip <;> rfl
  | cons _ _ ih =>
    cases skip with
    | zero => rfl
    | succ skip => exact ih skip

theorem decodeUtf8_cons (byte : UInt8) (bytes : List UInt8) :
    decodeUtf8 (byte :: bytes) =
      (utf8First byte bytes).1 :: decodeUtf8 (bytes.drop (utf8First byte bytes).2.length) :=
  congrArg ((utf8First byte bytes).1 :: ·) (decodeFrom_eq _ bytes)

theorem utf8Tail_cons (more : Nat) (low high byte : UInt8) (bytes : List UInt8) :
    utf8Tail (more + 1) low high (byte :: bytes) =
      if low ≤ byte ∧ byte ≤ high then byte :: utf8Tail more 0x80 0xBF bytes else [] := rfl

@[simp] theorem utf8Tail_zero (low high : UInt8) (bytes : List UInt8) :
    utf8Tail 0 low high bytes = [] := by
  cases bytes <;> rfl

theorem utf8Tail_prefix (more : Nat) (low high : UInt8) (bytes : List UInt8) :
    utf8Tail more low high bytes <+: bytes := by
  induction bytes generalizing more low high with
  | nil => cases more <;> exact nil_prefix
  | cons byte _ ih =>
    cases more with
    | zero => exact nil_prefix
    | succ more =>
      unfold utf8Tail
      split
      case isTrue => exact (prefix_cons_inj byte).mpr (ih more 0x80 0xBF)
      case isFalse => exact nil_prefix

theorem utf8Tail_length_le (more : Nat) (low high : UInt8) (bytes : List UInt8) :
    (utf8Tail more low high bytes).length ≤ more := by
  induction bytes generalizing more low high with
  | nil => cases more <;> exact Nat.zero_le _
  | cons _ _ ih =>
    cases more with
    | zero => exact Nat.le_refl _
    | succ more =>
      unfold utf8Tail
      split
      case isTrue => exact Nat.succ_le_succ (ih more 0x80 0xBF)
      case isFalse => exact Nat.zero_le _

/-- A byte that goes on with a character, and those behind it. -/
theorem utf8Tail_eq_cons {tail : List UInt8} (h : utf8Tail more low high bytes = byte :: tail) :
    low ≤ byte ∧ byte ≤ high ∧ ∃ less after, more = less + 1 ∧ bytes = byte :: after ∧
      utf8Tail less 0x80 0xBF after = tail := by
  cases more with
  | zero => cases bytes <;> cases h
  | succ less =>
    cases bytes with
    | nil => cases h
    | cons _ after =>
      unfold utf8Tail at h
      split at h
      case isTrue hbounds =>
        obtain ⟨rfl, htail⟩ := cons.inj h
        exact ⟨hbounds.1, hbounds.2, less, after, rfl, rfl, htail⟩
      case isFalse => cases h

/-! ## The bytes of a character -/

theorem encode_ofNat {number : Nat} (h : number.isValidChar) :
    String.utf8EncodeChar (.ofNat number) =
      if number ≤ 0x7f then [UInt8.ofNat number]
      else if number ≤ 0x7ff then
        [UInt8.ofNat (number / 64 % 0x20 + 0xc0), UInt8.ofNat (number % 64 + 0x80)]
      else if number ≤ 0xffff then
        [UInt8.ofNat (number / 4096 % 0x10 + 0xe0), UInt8.ofNat (number / 64 % 64 + 0x80),
          UInt8.ofNat (number % 64 + 0x80)]
      else
        [UInt8.ofNat (number / 262144 % 0x08 + 0xf0), UInt8.ofNat (number / 4096 % 64 + 0x80),
          UInt8.ofNat (number / 64 % 64 + 0x80), UInt8.ofNat (number % 64 + 0x80)] := by
  have hnumber : (Char.ofNat number).val.toNat = number := by
    unfold Char.ofNat
    rw [dif_pos h]
    rfl
  unfold String.utf8EncodeChar
  rw [hnumber]

theorem ofNat_eq (byte : UInt8) {number : Nat} (h : number = byte.toNat) : UInt8.ofNat number = byte := by
  rw [h, UInt8.ofNat_toNat]

variable {first second : UInt8}

/-- The number of a character that is complete, and its bytes. -/
theorem encode_two (hfirst : 0xC2 ≤ first.toNat ∧ first.toNat < 0xE0)
    (hsecond : 0x80 ≤ second.toNat ∧ second.toNat ≤ 0xBF) :
    String.utf8EncodeChar (.ofNat ((first.toNat - 0xC0) * 64 + (second.toNat - 0x80))) =
      [first, second] := by
  rw [encode_ofNat (.inl (by omega)), if_neg (by omega), if_pos (by omega),
    ofNat_eq first (by omega), ofNat_eq second (by omega)]

theorem encode_three {part : Nat} {third : UInt8} (hpart : first.toNat = 0xE0 + part)
    (hsecond : 0x80 ≤ second.toNat ∧ second.toNat ≤ 0xBF)
    (hthird : 0x80 ≤ third.toNat ∧ third.toNat ≤ 0xBF) (hless : part < 16)
    (hlow : part = 0 → 0xA0 ≤ second.toNat) (hhigh : part = 13 → second.toNat ≤ 0x9F) :
    String.utf8EncodeChar
        (.ofNat ((part * 64 + (second.toNat - 0x80)) * 64 + (third.toNat - 0x80))) =
      [first, second, third] := by
  have hvalid : ((part * 64 + (second.toNat - 0x80)) * 64 + (third.toNat - 0x80)).isValidChar := by
    omega
  rw [encode_ofNat hvalid, if_neg (by omega), if_neg (by omega), if_pos (by omega),
    ofNat_eq first (by omega), ofNat_eq second (by omega),
    ofNat_eq third (by omega)]

theorem encode_four {part : Nat} {third fourth : UInt8}
    (hpart : first.toNat = 0xF0 + part) (hsecond : 0x80 ≤ second.toNat ∧ second.toNat ≤ 0xBF)
    (hthird : 0x80 ≤ third.toNat ∧ third.toNat ≤ 0xBF)
    (hfourth : 0x80 ≤ fourth.toNat ∧ fourth.toNat ≤ 0xBF) (hless : part < 5)
    (hlow : part = 0 → 0x90 ≤ second.toNat) (hhigh : part = 4 → second.toNat ≤ 0x8F) :
    String.utf8EncodeChar (.ofNat (((part * 64 + (second.toNat - 0x80)) * 64 +
        (third.toNat - 0x80)) * 64 + (fourth.toNat - 0x80))) = [first, second, third, fourth] := by
  have hvalid : (((part * 64 + (second.toNat - 0x80)) * 64 + (third.toNat - 0x80)) * 64 +
      (fourth.toNat - 0x80)).isValidChar := by
    omega
  rw [encode_ofNat hvalid, if_neg (by omega), if_neg (by omega), if_neg (by omega),
    ofNat_eq first (by omega), ofNat_eq second (by omega),
    ofNat_eq third (by omega), ofNat_eq fourth (by omega)]

theorem utf8Lead_cases (h : utf8Lead byte = some lead) :
    (lead.more = 0 ∧ lead.part = byte.toNat ∧ byte.toNat < 0x80) ∨
    (lead.more = 1 ∧ lead.part = byte.toNat - 0xC0 ∧ 0xC2 ≤ byte.toNat ∧ byte.toNat < 0xE0 ∧
      lead.low = 0x80 ∧ lead.high = 0xBF) ∨
    (lead.more = 2 ∧ byte.toNat = 0xE0 + lead.part ∧ lead.part < 16 ∧
      0x80 ≤ lead.low.toNat ∧ lead.high.toNat ≤ 0xBF ∧
      (lead.part = 0 → 0xA0 ≤ lead.low.toNat) ∧ (lead.part = 13 → lead.high.toNat ≤ 0x9F)) ∨
    (lead.more = 3 ∧ byte.toNat = 0xF0 + lead.part ∧ lead.part < 5 ∧
      0x80 ≤ lead.low.toNat ∧ lead.high.toNat ≤ 0xBF ∧
      (lead.part = 0 → 0x90 ≤ lead.low.toNat) ∧ (lead.part = 4 → lead.high.toNat ≤ 0x8F)) := by
  unfold utf8Lead at h
  simp only [UInt8.lt_iff_toNat_lt, ← UInt8.toNat_inj, UInt8.reduceToNat] at h
  split_ifs at h with hone hnone htwo he0 hed hthree hf0 hf4 hfour
  all_goals obtain rfl := Option.some.inj h
  · exact .inl ⟨rfl, rfl, hone⟩
  · exact .inr (.inl ⟨rfl, rfl, by omega, by omega, rfl, rfl⟩)
  all_goals simp only [UInt8.reduceToNat]
  iterate 3 exact .inr (.inr (.inl ⟨trivial, by omega, by omega, by omega, by omega, by omega,
    by omega⟩))
  iterate 3 exact .inr (.inr (.inr ⟨trivial, by omega, by omega, by omega, by omega, by omega,
    by omega⟩))

/-- The first of the bytes that go on with a character is within the bounds, and the others are bytes
of a tail. -/
theorem utf8Tail_succ (h : (utf8Tail (more + 1) low high bytes).length = more + 1) :
    ∃ byte after, utf8Tail (more + 1) low high bytes = byte :: utf8Tail more 0x80 0xBF after ∧
      low.toNat ≤ byte.toNat ∧ byte.toNat ≤ high.toNat ∧
      (utf8Tail more 0x80 0xBF after).length = more := by
  cases htail : utf8Tail (more + 1) low high bytes with
  | nil =>
    rw [htail] at h
    cases h
  | cons byte =>
    obtain ⟨hlow, hhigh, less, after, hmore, -, hafter⟩ := utf8Tail_eq_cons htail
    cases hmore
    rw [htail, length_cons] at h
    exact ⟨byte, after, by rw [hafter], UInt8.le_iff_toNat_le.mp hlow,
      UInt8.le_iff_toNat_le.mp hhigh, by rw [hafter]; omega⟩

/-- A character that is complete has the bytes that it was read from. -/
theorem encode_complete (hlead : utf8Lead byte = some lead)
    (hlength : (utf8Tail lead.more lead.low lead.high bytes).length = lead.more) :
    String.utf8EncodeChar (.ofNat ((utf8Tail lead.more lead.low lead.high bytes).foldl
        (fun number byte => number * 64 + (byte.toNat - 0x80)) lead.part)) =
      byte :: utf8Tail lead.more lead.low lead.high bytes := by
  obtain ⟨hmore, hpart, hbyte⟩ | ⟨hmore, hpart, hle, hlt, hlow, hhigh⟩ |
    ⟨hmore, hbyte, hless, hlow, hhigh, hfirst, hlast⟩ |
    ⟨hmore, hbyte, hless, hlow, hhigh, hfirst, hlast⟩ := utf8Lead_cases hlead
  · have htail : utf8Tail lead.more lead.low lead.high bytes = [] :=
      eq_nil_of_length_eq_zero (hlength.trans hmore)
    rw [htail, hpart]
    show String.utf8EncodeChar (.ofNat byte.toNat) = [byte]
    rw [encode_ofNat (.inl (by omega)), if_pos (by omega), UInt8.ofNat_toNat]
  · rw [hmore] at hlength ⊢
    obtain ⟨second, after, htail, hsecond⟩ := utf8Tail_succ hlength
    rw [hlow, hhigh] at hsecond
    rw [htail, hpart]
    exact encode_two ⟨hle, hlt⟩ ⟨hsecond.1, hsecond.2.1⟩
  · rw [hmore] at hlength ⊢
    obtain ⟨second, after, htail, hsecondLow, hsecondHigh, hafter⟩ := utf8Tail_succ hlength
    obtain ⟨third, last, hthird, hthirdLow, hthirdHigh, -⟩ := utf8Tail_succ hafter
    rw [htail, hthird]
    exact encode_three hbyte ⟨by omega, by omega⟩ ⟨hthirdLow, hthirdHigh⟩ hless
      (fun h => Nat.le_trans (hfirst h) hsecondLow) (fun h => Nat.le_trans hsecondHigh (hlast h))
  rw [hmore] at hlength ⊢
  obtain ⟨second, after, htail, hsecondLow, hsecondHigh, hafter⟩ := utf8Tail_succ hlength
  obtain ⟨third, last, hthird, hthirdLow, hthirdHigh, hlast'⟩ := utf8Tail_succ hafter
  obtain ⟨fourth, rest, hfourth, hfourthLow, hfourthHigh, -⟩ := utf8Tail_succ hlast'
  rw [htail, hthird, hfourth]
  exact encode_four hbyte ⟨by omega, by omega⟩ ⟨hthirdLow, hthirdHigh⟩ ⟨hfourthLow, hfourthHigh⟩
    hless (fun h => Nat.le_trans (hfirst h) hsecondLow)
    (fun h => Nat.le_trans hsecondHigh (hlast h))

theorem utf8First_split (byte : UInt8) (bytes : List UInt8) :
    ∃ rest, bytes = (utf8First byte bytes).2 ++ rest ∧
      decodeUtf8 (byte :: bytes) = (utf8First byte bytes).1 :: decodeUtf8 rest := by
  have hprefix : (utf8First byte bytes).2 <+: bytes := by
    unfold utf8First
    split
    · exact nil_prefix
    · dsimp only
      split <;> exact utf8Tail_prefix _ _ _ bytes
  obtain ⟨rest, hrest⟩ := hprefix
  have hdrop : bytes.drop (utf8First byte bytes).2.length = rest := by
    have : ((utf8First byte bytes).2 ++ rest).drop (utf8First byte bytes).2.length = rest :=
      drop_left
    rwa [hrest] at this
  exact ⟨rest, hrest.symm, (decodeUtf8_cons byte bytes).trans (by rw [hdrop])⟩

/-- A byte begins a character that is complete, or an U+FFFD. -/
theorem utf8First_cases (byte : UInt8) (bytes : List UInt8) :
    (∃ lead, utf8Lead byte = some lead ∧
      (utf8First byte bytes).2 = utf8Tail lead.more lead.low lead.high bytes ∧
      (utf8First byte bytes).2.length = lead.more ∧
      String.utf8EncodeChar (utf8First byte bytes).1 = byte :: (utf8First byte bytes).2) ∨
    (utf8First byte bytes).1 = replacementCharacter ∧
      ((utf8First byte bytes).2 = [] ∨ ∃ lead, utf8Lead byte = some lead ∧
        (utf8First byte bytes).2 = utf8Tail lead.more lead.low lead.high bytes ∧
        (utf8First byte bytes).2.length < lead.more) := by
  unfold utf8First
  cases hlead : utf8Lead byte with
  | none => exact .inr ⟨rfl, .inl rfl⟩
  | some lead =>
    dsimp only
    split
    case isTrue hlength => exact .inl ⟨lead, rfl, rfl, hlength, encode_complete hlead hlength⟩
    case isFalse hlength =>
      refine .inr ⟨rfl, .inr ⟨lead, rfl, rfl, Nat.lt_of_le_of_ne ?_ hlength⟩⟩
      exact utf8Tail_length_le _ _ _ bytes

/-- Bytes without an U+FFFD can be had back from their characters. -/
theorem encode_decode (h : replacementCharacter ∉ decodeUtf8 bytes) :
    encodeUtf8 (decodeUtf8 bytes) = bytes := by
  induction hlength : bytes.length using Nat.strongRecOn generalizing bytes with
  | _ length ih =>
    subst hlength
    cases bytes with
    | nil => rfl
    | cons byte bytes =>
      obtain ⟨rest, hbytes, hdecode⟩ := utf8First_split byte bytes
      rw [hdecode] at h ⊢
      obtain ⟨hfirst, hrest⟩ := not_or.mp (mem_cons.not.mp h)
      obtain ⟨lead, -, -, -, hencode⟩ | ⟨hreplaced, -⟩ := utf8First_cases byte bytes
      · have hlt : rest.length < (byte :: bytes).length := by
          rw [hbytes, length_cons, length_append]
          omega
        show String.utf8EncodeChar _ ++ encodeUtf8 (decodeUtf8 rest) = _
        rw [hencode, ih _ hlt hrest rfl, cons_append, ← hbytes]
      · exact absurd hreplaced.symm hfirst

/-! ## Other bytes with the same characters -/

/-- A byte of a tail does not begin a character. -/
def StartsCharacter (bytes : List UInt8) : Prop :=
  ∀ byte after, bytes = byte :: after → ¬ (0x80 ≤ byte ∧ byte ≤ 0xBF)

theorem utf8Tail_of_starts (h : StartsCharacter bytes) : utf8Tail more 0x80 0xBF bytes = [] := by
  cases more with
  | zero => rfl
  | succ =>
    cases bytes with
    | nil => rfl
    | cons byte after => exact if_neg (h byte after rfl)

/-- A tail that is not complete ends at a byte that is none of a tail. -/
theorem utf8Tail_stops (h : (utf8Tail more 0x80 0xBF bytes).length < more)
    (hbytes : bytes = utf8Tail more 0x80 0xBF bytes ++ rest) : StartsCharacter rest := by
  induction more generalizing bytes with
  | zero => exact absurd h (Nat.not_lt_zero _)
  | succ more ih =>
    cases htail : utf8Tail (more + 1) 0x80 0xBF bytes with
    | nil =>
      rw [htail, nil_append] at hbytes
      subst hbytes
      rintro byte after rfl hbounds
      rw [utf8Tail_cons, if_pos hbounds] at htail
      cases htail
    | cons =>
      obtain ⟨-, -, less, after, hless, rfl, hafter⟩ := utf8Tail_eq_cons htail
      cases hless
      rw [htail, length_cons] at h
      rw [htail] at hbytes
      subst hafter
      exact ih (by omega) (cons.inj hbytes).2

/-- A character that is complete does not depend on what is behind it. -/
theorem utf8Tail_append (h : (utf8Tail more low high bytes).length = more) (other : List UInt8) :
    utf8Tail more low high (utf8Tail more low high bytes ++ other) =
      utf8Tail more low high bytes := by
  induction more generalizing low high bytes with
  | zero => simp
  | succ _ ih =>
    obtain ⟨byte, after, htail, hlow, hhigh, hafter⟩ := utf8Tail_succ h
    rw [htail, cons_append, utf8Tail_cons,
      if_pos ⟨UInt8.le_iff_toNat_le.mpr hlow, UInt8.le_iff_toNat_le.mpr hhigh⟩, ih hafter]

theorem decode_complete (hlead : utf8Lead byte = some lead)
    (htail : (utf8First byte bytes).2 = utf8Tail lead.more lead.low lead.high bytes)
    (hlength : (utf8First byte bytes).2.length = lead.more) (other : List UInt8) :
    decodeUtf8 (byte :: ((utf8First byte bytes).2 ++ other)) =
      (utf8First byte bytes).1 :: decodeUtf8 other := by
  have hsame : utf8First byte ((utf8First byte bytes).2 ++ other) = utf8First byte bytes := by
    rw [htail] at hlength ⊢
    unfold utf8First
    rw [hlead]
    dsimp only
    rw [utf8Tail_append hlength]
  rw [decodeUtf8_cons, hsame, drop_left]

theorem decode_one (h : byte = 0xFE ∨ byte = 0xFF) (rest : List UInt8) :
    decodeUtf8 (byte :: rest) = replacementCharacter :: decodeUtf8 rest := by
  have hfirst : utf8First byte rest = (replacementCharacter, []) := by
    rcases h with rfl | rfl <;> rfl
  rw [decodeUtf8_cons, hfirst]
  rfl

theorem decode_two (second : UInt8) (hsecond : 0x80 ≤ second ∧ second ≤ 0xBF)
    (hrest : StartsCharacter rest) :
    decodeUtf8 (0xE1 :: second :: rest) = replacementCharacter :: decodeUtf8 rest := by
  have htail : utf8Tail 2 0x80 0xBF (second :: rest) = [second] := by
    rw [utf8Tail_cons, if_pos hsecond, utf8Tail_of_starts hrest]
  have hfirst : utf8First 0xE1 (second :: rest) = (replacementCharacter, [second]) := by
    show (if (utf8Tail 2 0x80 0xBF (second :: rest)).length = 2 then _ else _) = _
    rw [htail]
    rfl
  rw [decodeUtf8_cons, hfirst]
  rfl

theorem decode_three (second third : UInt8) (hsecond : 0x80 ≤ second ∧ second ≤ 0xBF)
    (hthird : 0x80 ≤ third ∧ third ≤ 0xBF) (hrest : StartsCharacter rest) :
    decodeUtf8 (0xF1 :: second :: third :: rest) = replacementCharacter :: decodeUtf8 rest := by
  have htail : utf8Tail 3 0x80 0xBF (second :: third :: rest) = [second, third] := by
    rw [utf8Tail_cons, if_pos hsecond, utf8Tail_cons, if_pos hthird, utf8Tail_of_starts hrest]
  have hfirst : utf8First 0xF1 (second :: third :: rest) =
      (replacementCharacter, [second, third]) := by
    show (if (utf8Tail 3 0x80 0xBF (second :: third :: rest)).length = 3 then _ else _) = _
    rw [htail]
    rfl
  rw [decodeUtf8_cons, hfirst]
  rfl

/-- Bytes that become one U+FFFD can be replaced by others. -/
theorem exists_replacement (byte : UInt8) {tail : List UInt8} (hlength : tail.length ≤ 2)
    (hrest : tail = [] ∨ StartsCharacter rest) :
    ∃ other, other ≠ byte :: tail ∧ other.length = (byte :: tail).length ∧
      decodeUtf8 (other ++ rest) = replacementCharacter :: decodeUtf8 rest := by
  have hlow : (0x80 : UInt8) ≤ 0x80 ∧ (0x80 : UInt8) ≤ 0xBF := by decide
  have hnext : (0x80 : UInt8) ≤ 0x81 ∧ (0x81 : UInt8) ≤ 0xBF := by decide
  match tail, hlength with
  | [], _ =>
    by_cases hff : byte = 0xFF
    · exact ⟨[0xFE], by simp [hff], rfl, decode_one (.inl rfl) rest⟩
    · exact ⟨[0xFF], by simpa using fun h => hff h.symm, rfl, decode_one (.inr rfl) rest⟩
  | [second], _ =>
    have hrest := hrest.resolve_left (cons_ne_nil _ _)
    by_cases hsecond : second = 0x80
    · exact ⟨[0xE1, 0x81], by simp [hsecond], rfl, decode_two 0x81 hnext hrest⟩
    · exact ⟨[0xE1, 0x80], by simpa using fun _ h => hsecond h.symm, rfl,
        decode_two 0x80 hlow hrest⟩
  | [second, third], _ =>
    have hrest := hrest.resolve_left (cons_ne_nil _ _)
    by_cases hthird : third = 0x80
    · exact ⟨[0xF1, 0x80, 0x81], by simp [hthird], rfl, decode_three 0x80 0x81 hlow hnext hrest⟩
    · exact ⟨[0xF1, 0x80, 0x80], by simpa using fun _ _ h => hthird h.symm, rfl,
        decode_three 0x80 0x80 hlow hlow hrest⟩

theorem starts_of_decode (h : replacementCharacter ∉ decodeUtf8 rest) : StartsCharacter rest := by
  rintro byte after rfl ⟨hlow, hhigh⟩
  have hlead : utf8Lead byte = none := by
    unfold utf8Lead
    rw [if_neg (UInt8.not_lt.mpr (UInt8.le_iff_toNat_le.mpr hlow)),
      if_pos (UInt8.lt_iff_toNat_lt.mpr (Nat.lt_of_le_of_lt hhigh (by decide)))]
  refine h ?_
  rw [decodeUtf8_cons]
  refine mem_cons.mpr (.inl ?_)
  unfold utf8First
  rw [hlead]

/-- Where there is an U+FFFD, other bytes have the same characters. -/
theorem exists_collision (h : replacementCharacter ∈ decodeUtf8 bytes) :
    ∃ other, other ≠ bytes ∧ other.length = bytes.length ∧ decodeUtf8 other = decodeUtf8 bytes := by
  induction hlength : bytes.length using Nat.strongRecOn generalizing bytes with
  | _ length ih =>
    subst hlength
    cases bytes with
    | nil => cases h
    | cons byte bytes =>
      obtain ⟨rest, hbytes, hdecode⟩ := utf8First_split byte bytes
      have hsame : byte :: bytes = (byte :: (utf8First byte bytes).2) ++ rest :=
        congrArg (byte :: ·) hbytes
      have hsize := congrArg List.length hsame
      rw [length_append] at hsize
      have hreplace : (utf8First byte bytes).1 = replacementCharacter →
          (utf8First byte bytes).2.length ≤ 2 →
          ((utf8First byte bytes).2 = [] ∨ StartsCharacter rest) →
          ∃ other, other ≠ byte :: bytes ∧ other.length = (byte :: bytes).length ∧
            decodeUtf8 other = decodeUtf8 (byte :: bytes) := by
        intro hfirst htwo hrest
        obtain ⟨other, hne, hlength, hother⟩ := exists_replacement byte htwo hrest
        refine ⟨other ++ rest, fun heq => hne ?_, ?_, ?_⟩
        · exact append_cancel_right (heq.trans hsame)
        · rw [length_append, hlength, hsize]
        · rw [hother, hdecode, hfirst]
      obtain ⟨lead, hlead, htail, hfull, hencode⟩ | ⟨hfirst, hstop⟩ := utf8First_cases byte bytes
      · by_cases hmem : replacementCharacter ∈ decodeUtf8 rest
        · -- The character stays, and the bytes behind it are replaced.
          have hlt : rest.length < (byte :: bytes).length := by
            rw [hsize, length_cons]
            omega
          obtain ⟨other, hne, hlength, hother⟩ := ih _ hlt hmem rfl
          refine ⟨byte :: ((utf8First byte bytes).2 ++ other), fun heq => hne ?_, ?_, ?_⟩
          · exact append_cancel_left (cons.inj (heq.trans hsame)).2
          · rw [hsize, ← hlength, ← length_append, cons_append]
          · rw [decode_complete hlead htail hfull, hdecode, hother]
        -- It is U+FFFD itself, and what is behind it begins a character.
        rw [hdecode, mem_cons, or_iff_left hmem] at h
        rw [← h] at hencode
        have htwo : (utf8First byte bytes).2 = [0xBF, 0xBD] := (cons.inj hencode).2.symm
        exact hreplace h.symm (by rw [htwo]; exact Nat.le_refl _) (.inr (starts_of_decode hmem))
      rcases hstop with hnil | ⟨lead, hlead, htail, hshort⟩
      · exact hreplace hfirst (by rw [hnil]; exact Nat.zero_le _) (.inl hnil)
      have hmore : lead.more ≤ 3 := by
        rcases utf8Lead_cases hlead with hmore | hmore | hmore | hmore <;> omega
      refine hreplace hfirst (by omega) ?_
      cases hnext : (utf8First byte bytes).2 with
      | nil => exact .inl rfl
      | cons =>
        rw [htail] at hnext hshort hbytes
        obtain ⟨-, -, less, after, hless, hafter, hless'⟩ := utf8Tail_eq_cons hnext
        rw [hnext, hless, length_cons] at hshort
        rw [hnext, hafter] at hbytes
        subst hless'
        exact .inr (utf8Tail_stops (by omega) (cons.inj hbytes).2)

end Bdt.Base
