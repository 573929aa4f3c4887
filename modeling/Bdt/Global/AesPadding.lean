import Bdt.Global.CryptoToolKit
import Mathlib.Data.FinEnum
import Mathlib.Data.List.GetD

/-!
# The padding functions in full

A model of `AesMbedtls.imp.inl` with the results and the reads of its functions, and of the loops of
`mbedtls_aes_crypt_cbc` in `aes.c` over the blocks; the cipher on one block is the parameter `AesEcb`.
`decrypt_abstract` says how these functions and those of `CryptoToolKit` agree.

`sound_iff` says when the padding is taken off as it was put on.
-/

namespace Bdt

namespace AesMbedtls

/-! ## The cipher -/

/-- The state of the cipher. -/
abbrev Block := Vector UInt8 16

/-- `mbedtls_aes_crypt_ecb` with the keys of `mbedtls_aes_setkey_enc` and of
`mbedtls_aes_setkey_dec`. -/
structure AesEcb where
  encrypt : List UInt8 → Block → Block
  decrypt : List UInt8 → Block → Block
  decrypt_encrypt (aesKey : List UInt8) (block : Block) :
    decrypt aesKey (encrypt aesKey block) = block

/-- The first 16 bytes at an address. -/
def readBlock (input : List UInt8) : Block :=
  Vector.ofFn fun i => input.getD i 0

def xorBlock (block iv : Block) : Block :=
  Vector.zipWith (· ^^^ ·) block iv

/-- `uint8_t iv[16] = { 0 }`. -/
def zeroIv : Block :=
  Vector.replicate 16 0

/-- The loop of `mbedtls_aes_crypt_cbc` in `MBEDTLS_AES_ENCRYPT`. -/
def cbcEncrypt (aes : AesEcb) (aesKey : List UInt8) : Nat → Block → List UInt8 → List UInt8
  | 0, _, _ => []
  | count + 1, iv, input =>
    let output := aes.encrypt aesKey (xorBlock (readBlock input) iv)
    output.toList ++ cbcEncrypt aes aesKey count output (input.drop 16)

/-- The loop of `mbedtls_aes_crypt_cbc` in `MBEDTLS_AES_DECRYPT`. -/
def cbcDecrypt (aes : AesEcb) (aesKey : List UInt8) : Nat → Block → List UInt8 → List UInt8
  | 0, _, _ => []
  | count + 1, iv, input =>
    let temp := readBlock input
    (xorBlock (aes.decrypt aesKey temp) iv).toList ++
      cbcDecrypt aes aesKey count temp (input.drop 16)

def MBEDTLS_ERR_AES_INVALID_INPUT_LENGTH : Int := -0x22

/-- `mbedtls_aes_crypt_cbc` with one of its loops: what it returns, and what it writes. -/
def cryptCbc (loop : Nat → Block → List UInt8 → List UInt8) (iv : Block) (input : List UInt8) :
    Int × List UInt8 :=
  if input.length % 16 ≠ 0 then (MBEDTLS_ERR_AES_INVALID_INPUT_LENGTH, [])
  else (0, loop (input.length / 16) iv input)

/-! ## The padding -/

/-- `(int)` of a `size_t`. -/
def toInt (n : Nat) : Int :=
  if n % 4294967296 < 2147483648 then n % 4294967296 else n % 4294967296 - 4294967296

/-- `Bdt_AesEncryptDataWithPadding`: what it returns, and what it writes. `input` has `iLen` bytes,
of which `data` are the first `dataLen`, and `output` has `oLen`. -/
def encryptDataWithPadding (aes : AesEcb) (aesKey data : List UInt8) (iLen oLen : Nat) :
    Int × List UInt8 :=
  let targetLen := (data.length / 16 + 1) * 16
  if oLen < targetLen ∨ iLen < targetLen then (-1, [])
  else
    let padding := UInt8.ofNat (targetLen - data.length)
    let (ret, output) :=
      cryptCbc (cbcEncrypt aes aesKey) zeroIv (data ++ List.replicate padding.toNat padding)
    if ret ≠ 0 then (ret, output) else (toInt targetLen, output)

/-- What comes of a call of `Bdt_AesDecryptDataWithPadding`. -/
inductive DecryptResult where
  /-- A read outside the bytes that were written to the output. -/
  | outside
  | returns (ret : Int) (output : List UInt8)
  deriving DecidableEq, Repr

/-- The loop over the padding from `i` on, for `count` more bytes: whether all of them are the
padding. -/
def checkPadding (output : List UInt8) (padding : UInt8) : Nat → Nat → Option Bool
  | _, 0 => some true
  | i, count + 1 =>
    if output.length ≤ i then none
    else if output.getD (output.length - 1 - i) 0 ≠ padding then some false
    else checkPadding output padding (i + 1) count

/-- `Bdt_AesDecryptDataWithPadding`. -/
def decryptDataWithPadding (aes : AesEcb) (aesKey input : List UInt8) (oLen : Nat) : DecryptResult :=
  if oLen < input.length then .returns (-1) []
  else
    let (ret, output) := cryptCbc (cbcDecrypt aes aesKey) zeroIv input
    if ret ≠ 0 then .returns ret output
    else
      match output.getLast? with
      | none => .outside
      | some padding =>
        match checkPadding output padding 0 padding.toNat with
        | none => .outside
        | some false => .returns (-1) output
        | some true => .returns (toInt (input.length - padding.toNat)) output

/-! ## The property -/

/-- What the two functions are given: a plaintext with buffers for the encryption and for the
decryption of what comes out, or a ciphertext from somewhere. -/
inductive Given where
  | plaintext (aesKey data : List UInt8) (iLen oLen decryptLen : Nat)
  | ciphertext (aesKey input : List UInt8) (oLen : Nat)
  deriving DecidableEq, Repr

/-- The bytes of a plaintext with its padding. -/
def targetLen (data : List UInt8) : Nat :=
  (data.length / 16 + 1) * 16

/-- The decryption of what the encryption has put out gives the plaintext back. -/
def GivesBack (aes : AesEcb) (aesKey data : List UInt8) (iLen oLen decryptLen : Nat) : Prop :=
  let (ret, encrypted) := encryptDataWithPadding aes aesKey data iLen oLen
  0 ≤ ret ∧ ∃ output,
    decryptDataWithPadding aes aesKey (encrypted.take ret.toNat) decryptLen =
        .returns data.length output ∧
      output.take data.length = data

/-- The result is an error, or it leaves out a tail of 1 to 16 bytes that say how many they are. -/
def TakesOff (iLen : Nat) : DecryptResult → Prop
  | .outside => False
  | .returns ret output =>
    ret < 0 ∨ ∃ count : Nat, 1 ≤ count ∧ count ≤ 16 ∧ ret + count = iLen ∧
      output.drop (iLen - count) = List.replicate count (UInt8.ofNat count)

/-- A plaintext comes back when the buffers fit, and a ciphertext has its padding taken off. -/
def Sound (aes : AesEcb) : Given → Prop
  | .plaintext aesKey data iLen oLen decryptLen =>
    targetLen data ≤ iLen → targetLen data ≤ oLen → targetLen data ≤ decryptLen →
      GivesBack aes aesKey data iLen oLen decryptLen
  | .ciphertext aesKey input oLen =>
    TakesOff input.length (decryptDataWithPadding aes aesKey input oLen)

/-- The last `padding` bytes are this number; all bytes, where there are not so many. -/
def EndsWith (output : List UInt8) (padding : UInt8) : Prop :=
  ∀ byte ∈ output.drop (output.length - padding.toNat), byte = padding

/-- When the two functions are sound. Behind `oLen < input.length` it is about the blocks that the
cipher makes of the ciphertext: there is one, and a last byte that the bytes before it agree with
counts 1 to 16 of them. Lengths that an `int` does not hold are on their own. -/
def Proper (aes : AesEcb) : Given → Prop
  | .plaintext _ data iLen oLen decryptLen =>
    targetLen data ≤ iLen → targetLen data ≤ oLen → targetLen data ≤ decryptLen →
      targetLen data < 2147483648
  | .ciphertext aesKey input oLen =>
    oLen < input.length ∨ input.length % 16 ≠ 0 ∨
      ∃ padding,
        (cbcDecrypt aes aesKey (input.length / 16) zeroIv input).getLast? = some padding ∧
        (EndsWith (cbcDecrypt aes aesKey (input.length / 16) zeroIv input) padding →
          padding.toNat ≤ input.length ∧
            (1 ≤ padding.toNat ∧ padding.toNat ≤ 16 ∧ input.length - padding.toNat < 2147483648 ∨
              2147483648 ≤ (input.length - padding.toNat) % 4294967296))

/-! ## The cipher undone -/

open List

theorem readBlock_append (block : Block) (rest : List UInt8) :
    readBlock (block.toList ++ rest) = block := by
  refine Vector.ext fun i hi => ?_
  have hlength : i < block.toList.length := by simpa using hi
  unfold readBlock
  rw [Vector.getElem_ofFn, getD_append _ _ _ _ hlength, getD_eq_getElem _ _ hlength]
  exact Vector.getElem_toList hlength

theorem drop_append (block : Block) (rest : List UInt8) : (block.toList ++ rest).drop 16 = rest :=
  drop_left' (Vector.length_toList)

variable {input output : List UInt8}

theorem toList_readBlock (h : 16 ≤ input.length) : (readBlock input).toList = input.take 16 := by
  refine ext_getElem (by simp [h]) fun i hi htake => ?_
  have hlength : i < input.length := by
    rw [Vector.length_toList] at hi
    omega
  rw [Vector.getElem_toList, getElem_take, ← getD_eq_getElem _ 0 hlength]
  exact Vector.getElem_ofFn _

theorem xorBlock_xorBlock (block iv : Block) : xorBlock (xorBlock block iv) iv = block := by
  refine Vector.ext fun i hi => ?_
  simp only [xorBlock, Vector.getElem_zipWith]
  rw [UInt8.xor_assoc, UInt8.xor_self, UInt8.xor_zero]

variable (aes : AesEcb) (aesKey : List UInt8)

variable (count : Nat) (data : List UInt8) (iv : Block)

theorem length_cbcEncrypt (input : List UInt8) :
    (cbcEncrypt aes aesKey count iv input).length = 16 * count := by
  induction count generalizing iv input with
  | zero => rfl
  | succ _ ih =>
    simp only [cbcEncrypt, length_append, Vector.length_toList, ih]
    omega

theorem length_cbcDecrypt (input : List UInt8) :
    (cbcDecrypt aes aesKey count iv input).length = 16 * count := by
  induction count generalizing iv input with
  | zero => rfl
  | succ _ ih =>
    simp only [cbcDecrypt, length_append, Vector.length_toList, ih]
    omega

/-- Whole blocks come back: each is deciphered and freed from the block before it, which both loops
have as their vector. -/
theorem cbcDecrypt_cbcEncrypt (h : input.length = 16 * count) :
    cbcDecrypt aes aesKey count iv (cbcEncrypt aes aesKey count iv input) = input := by
  induction count generalizing iv input with
  | zero => exact (eq_nil_of_length_eq_zero h).symm
  | succ _ ih =>
    simp only [cbcEncrypt, cbcDecrypt, readBlock_append, drop_append, aes.decrypt_encrypt,
      xorBlock_xorBlock]
    rw [ih _ (by rw [length_drop]; omega), toList_readBlock (by omega), take_append_drop]

/-! ## The loop over the padding -/

/-- The bytes that the loop still has to look at, from the last one on. -/
theorem checkPadding_eq (output : List UInt8) (padding : UInt8) (i count : Nat) :
    checkPadding output padding i count =
      if ∀ byte ∈ (output.reverse.drop i).take count, byte = padding then
        if count = 0 ∨ i + count ≤ output.length then some true else none
      else some false := by
  induction count generalizing i with
  | zero => simp [checkPadding]
  | succ count ih =>
    unfold checkPadding
    by_cases hend : output.length ≤ i
    · rw [if_pos hend, drop_eq_nil_of_le (by simpa using hend), take_nil,
        if_pos (by simp), if_neg (by omega)]
    have hi : i < output.reverse.length := by
      rw [length_reverse]
      omega
    have hbyte : output.getD (output.length - 1 - i) 0 = output.reverse[i] := by
      rw [getElem_reverse, getD_eq_getElem]
    rw [if_neg hend, hbyte, drop_eq_getElem_cons hi, take_succ_cons, ih]
    by_cases hequal : output.reverse[i] = padding
    · rw [if_neg (not_not_intro hequal)]
      simp only [forall_mem_cons, hequal, true_and]
      have hbound : (count = 0 ∨ i + 1 + count ≤ output.length) ↔
          (count + 1 = 0 ∨ i + (count + 1) ≤ output.length) := by
        omega
      simp only [hbound]
    · rw [if_pos hequal, if_neg]
      rintro hall
      exact hequal (hall _ mem_cons_self)

theorem checkPadding_endsWith (output : List UInt8) (padding : UInt8) 
    [Decidable (EndsWith output padding)] :
    checkPadding output padding 0 padding.toNat =
      if EndsWith output padding then
        if padding.toNat ≤ output.length then some true else none
      else some false := by
  have hends : EndsWith output padding ↔
      ∀ byte ∈ (output.reverse.drop 0).take padding.toNat, byte = padding := by
    rw [drop_zero, take_reverse]
    simp [EndsWith]
  have hbound : (padding.toNat = 0 ∨ 0 + padding.toNat ≤ output.length) ↔
      padding.toNat ≤ output.length := by
    omega
  rw [checkPadding_eq]
  simp only [hends, hbound]

/-! ## A ciphertext -/

theorem toInt_lt (n : Nat) : toInt n < 2147483648 := by
  unfold toInt
  split <;> omega

theorem toInt_neg_iff (n : Nat) : toInt n < 0 ↔ 2147483648 ≤ n % 4294967296 := by
  unfold toInt
  split <;> omega

theorem toInt_of_lt {n : Nat} (h : n < 2147483648) : toInt n = n := by
  unfold toInt
  rw [if_pos (by omega)]
  omega

open Classical in
/-- What the decryption comes to, on the blocks that the cipher makes. -/
theorem decrypt_eq (input : List UInt8) (oLen : Nat) :
    decryptDataWithPadding aes aesKey input oLen =
      if oLen < input.length then .returns (-1) []
      else if input.length % 16 ≠ 0 then .returns MBEDTLS_ERR_AES_INVALID_INPUT_LENGTH []
      else
        let output := cbcDecrypt aes aesKey (input.length / 16) zeroIv input
        match output.getLast? with
        | none => .outside
        | some padding =>
          if EndsWith output padding then
            if padding.toNat ≤ output.length then
              .returns (toInt (input.length - padding.toNat)) output
            else .outside
          else .returns (-1) output := by
  unfold decryptDataWithPadding
  split
  case isTrue => rfl
  case isFalse =>
  unfold cryptCbc
  by_cases hlength : input.length % 16 ≠ 0
  · rw [if_pos hlength, if_pos hlength]
    rfl
  rw [if_neg hlength, if_neg hlength]
  simp only [ne_eq, not_true_eq_false, if_false]
  cases (cbcDecrypt aes aesKey (input.length / 16) zeroIv input).getLast? with
  | none => rfl
  | some padding =>
    simp only [checkPadding_endsWith]
    by_cases hends : EndsWith (cbcDecrypt aes aesKey (input.length / 16) zeroIv input) padding
    · rw [if_pos hends, if_pos hends]
      by_cases hle : padding.toNat ≤ (cbcDecrypt aes aesKey (input.length / 16) zeroIv input).length
      · rw [if_pos hle, if_pos hle]
      · rw [if_neg hle, if_neg hle]
    · rw [if_neg hends, if_neg hends]

variable {aes aesKey}

theorem returns_lt {oLen : Nat} {ret : Int}
    (h : decryptDataWithPadding aes aesKey input oLen = .returns ret output) : ret < 2147483648 := by
  rw [decrypt_eq] at h
  split at h
  · cases h
    decide
  split at h
  · cases h
    decide
  dsimp only at h
  split at h
  · cases h
  split at h
  · split at h
    · cases h
      exact toInt_lt _
    · cases h
  · cases h
    decide

theorem drop_of_endsWith {padding : UInt8} (h : EndsWith output padding)
    (hle : padding.toNat ≤ output.length) :
    output.drop (output.length - padding.toNat) = List.replicate padding.toNat padding := by
  rw [eq_replicate_iff]
  refine ⟨?_, h⟩
  rw [length_drop]
  omega

/-- A result without an error is right when the last byte counts the bytes that it leaves out. -/
theorem takesOff_returns {padding : UInt8}
    (hlast : output.getLast? = some padding) (hends : EndsWith output padding)
    (hle : padding.toNat ≤ output.length) :
    TakesOff output.length (.returns (toInt (output.length - padding.toNat)) output) ↔
      (1 ≤ padding.toNat ∧ padding.toNat ≤ 16 ∧ output.length - padding.toNat < 2147483648 ∨
        2147483648 ≤ (output.length - padding.toNat) % 4294967296) := by
  show toInt _ < 0 ∨ _ ↔ _
  rw [toInt_neg_iff, or_comm]
  refine or_congr_left ?_
  constructor
  · intro ⟨count, hone, hmany, hret, htail⟩
    have hcount : padding = UInt8.ofNat count := by
      have hmem : padding ∈ output.drop (output.length - count) := by
        have hlength := congrArg List.length htail
        rw [length_drop, length_replicate] at hlength
        have hlast' : (output.drop (output.length - count)).getLast? = some padding := by
          rw [List.getLast?_drop, if_neg (by omega)]
          exact hlast
        exact mem_of_getLast? hlast'
      rw [htail] at hmem
      exact eq_of_mem_replicate hmem
    have hnat : padding.toNat = count := by
      rw [hcount, UInt8.toNat_ofNat']
      omega
    have hbound := toInt_lt (output.length - padding.toNat)
    exact ⟨by omega, by omega, by omega⟩
  intro ⟨hone, hmany, hbound⟩
  refine ⟨padding.toNat, hone, hmany, ?_, ?_⟩
  · rw [toInt_of_lt hbound]
    omega
  · rw [drop_of_endsWith hends hle, UInt8.ofNat_toNat]

theorem ciphertext_sound (aes : AesEcb) (aesKey input : List UInt8) (oLen : Nat) :
    Sound aes (.ciphertext aesKey input oLen) ↔ Proper aes (.ciphertext aesKey input oLen) := by
  have herror {ret : Int} (hret : ret < 0) : TakesOff input.length (.returns ret []) := .inl hret
  show TakesOff _ _ ↔ _ ∨ _ ∨ _
  rw [decrypt_eq]
  by_cases hfits : oLen < input.length
  · rw [if_pos hfits]
    exact iff_of_true (herror (by decide)) (.inl hfits)
  rw [if_neg hfits, or_iff_right hfits]
  by_cases hlength : input.length % 16 ≠ 0
  · rw [if_pos hlength]
    exact iff_of_true (herror (by decide)) (.inl hlength)
  rw [if_neg hlength, or_iff_right hlength]
  have hwritten : (cbcDecrypt aes aesKey (input.length / 16) zeroIv input).length = input.length := by
    rw [length_cbcDecrypt]
    omega
  dsimp only
  generalize cbcDecrypt aes aesKey (input.length / 16) zeroIv input = output at hwritten ⊢
  rw [← hwritten]
  cases hlast : output.getLast? with
  | none => exact iff_of_false id fun ⟨_, hnone, _⟩ => nomatch hnone
  | some padding =>
    simp only [Option.some.injEq, exists_eq_left']
    by_cases hends : EndsWith output padding
    · simp only [hends, if_true, true_imp_iff]
      by_cases hle : padding.toNat ≤ output.length
      · rw [if_pos hle, takesOff_returns hlast hends hle]
        exact (and_iff_right hle).symm
      · rw [if_neg hle]
        exact iff_of_false id fun h => hle h.1
    · rw [if_neg hends]
      exact iff_of_true (.inl (by decide)) fun h => absurd h hends

/-! ## A plaintext -/

/-- A plaintext with its padding. -/
def padded (data : List UInt8) : List UInt8 :=
  data ++ List.replicate (targetLen data - data.length) (UInt8.ofNat (targetLen data - data.length))

theorem length_padded : (padded data).length = targetLen data := by
  unfold padded targetLen
  rw [length_append, length_replicate]
  omega

theorem toNat_padding :
    (UInt8.ofNat (targetLen data - data.length)).toNat = targetLen data - data.length := by
  rw [UInt8.toNat_ofNat']
  unfold targetLen
  omega

theorem getLast?_padded :
    (padded data).getLast? = some (UInt8.ofNat (targetLen data - data.length)) := by
  have hpos : targetLen data - data.length ≠ 0 := by
    unfold targetLen
    omega
  unfold padded
  rw [getLast?_append, List.getLast?_replicate, if_neg hpos, Option.some_or]

theorem endsWith_padded : EndsWith (padded data) (UInt8.ofNat (targetLen data - data.length)) := by
  have hlength : data.length ≤ targetLen data := by
    unfold targetLen
    omega
  intro byte hbyte
  rw [length_padded, toNat_padding, Nat.sub_sub_self hlength, padded, drop_left] at hbyte
  exact eq_of_mem_replicate hbyte

theorem encrypt_eq {iLen oLen : Nat} (hiLen : targetLen data ≤ iLen)
    (hoLen : targetLen data ≤ oLen) :
    encryptDataWithPadding aes aesKey data iLen oLen =
      (toInt (targetLen data), cbcEncrypt aes aesKey (targetLen data / 16) zeroIv (padded data)) := by
  have hlength := length_padded data
  have hpadding := toNat_padding data
  unfold encryptDataWithPadding
  dsimp only
  rw [show (data.length / 16 + 1) * 16 = targetLen data from rfl, if_neg (by omega), hpadding]
  rw [show data ++ List.replicate _ _ = padded data from rfl]
  have hwhole : ¬ targetLen data % 16 ≠ 0 := by
    unfold targetLen
    omega
  unfold cryptCbc
  rw [hlength, if_neg hwhole]
  rfl

theorem decrypt_encrypted {decryptLen : Nat} (h : targetLen data ≤ decryptLen) :
    decryptDataWithPadding aes aesKey
        (cbcEncrypt aes aesKey (targetLen data / 16) zeroIv (padded data)) decryptLen =
      .returns (toInt data.length) (padded data) := by
  have hblocks : targetLen data = 16 * (targetLen data / 16) := by
    unfold targetLen
    omega
  have hlength : data.length ≤ targetLen data := by
    unfold targetLen
    omega
  have hwritten : (cbcEncrypt aes aesKey (targetLen data / 16) zeroIv (padded data)).length =
      targetLen data :=
    (length_cbcEncrypt _ _ _ _ _).trans hblocks.symm
  have hback := cbcDecrypt_cbcEncrypt aes aesKey (targetLen data / 16) zeroIv
    ((length_padded data).trans hblocks)
  rw [decrypt_eq, hwritten, if_neg (by omega), if_neg (by omega)]
  dsimp only
  rw [hback, getLast?_padded]
  simp only [endsWith_padded, if_true, toNat_padding, length_padded]
  rw [if_pos (by omega), Nat.sub_sub_self hlength]

theorem plaintext_sound (aes : AesEcb) (aesKey data : List UInt8) (iLen oLen decryptLen : Nat) :
    Sound aes (.plaintext aesKey data iLen oLen decryptLen) ↔
      Proper aes (.plaintext aesKey data iLen oLen decryptLen) := by
  refine imp_congr_right fun hiLen => imp_congr_right fun hoLen => imp_congr_right fun hdecrypt => ?_
  unfold GivesBack
  rw [encrypt_eq data hiLen hoLen]
  constructor
  · intro ⟨hret, output, hreturns, _⟩
    have hlength := returns_lt hreturns
    by_contra hlarge
    -- only the result of the encryption is too large for an `int` then
    have htarget : targetLen data = 2147483648 := by
      unfold targetLen at hlarge ⊢
      omega
    rw [htarget] at hret
    exact absurd hret (by decide)
  intro hbound
  have hlength : data.length ≤ targetLen data := by
    unfold targetLen
    omega
  have hwritten := length_cbcEncrypt aes aesKey (targetLen data / 16) zeroIv (padded data)
  dsimp only
  rw [toInt_of_lt hbound, Int.toNat_natCast, take_of_length_le (by omega)]
  refine ⟨Int.natCast_nonneg _, padded data, ?_, take_left⟩
  rw [decrypt_encrypted data hdecrypt, toInt_of_lt (by omega)]

/-- The padding is taken off as it was put on exactly when what is decrypted ends properly. -/
theorem sound_iff (aes : AesEcb) (given : Given) : Sound aes given ↔ Proper aes given := by
  cases given with
  | plaintext aesKey data iLen oLen decryptLen =>
    exact plaintext_sound aes aesKey data iLen oLen decryptLen
  | ciphertext aesKey input oLen => exact ciphertext_sound aes aesKey input oLen

/-- A cipher that changes nothing. -/
def plainEcb : AesEcb where
  encrypt _ block := block
  decrypt _ block := block
  decrypt_encrypt _ _ := rfl

/-- Without a byte, the padding is read in front of the output; and a block that ends with zero is
taken for a plaintext of its own length. -/
theorem zero_padding_accepted :
    ¬ Sound plainEcb (.ciphertext [] [] 0) ∧
      ¬ Sound plainEcb (.ciphertext [] (List.replicate 16 0) 16) := by
  refine ⟨id, fun h => ?_⟩
  have htail : TakesOff 16 (decryptDataWithPadding plainEcb [] (List.replicate 16 0) 16) := h
  have hdecrypt : decryptDataWithPadding plainEcb [] (List.replicate 16 0) 16 =
      .returns 16 (List.replicate 16 0) := by
    decide +kernel
  rw [hdecrypt] at htail
  rcases htail with hneg | ⟨count, hone, -, hret, -⟩
  · exact absurd hneg (by decide)
  · omega

/-! ## The functions without their results -/

/-- The cipher as the other models have it. -/
def AesEcb.toAes (aes : AesEcb) : Aes where
  encryptCbc aesKey data :=
    if data.length % 16 = 0 then cbcEncrypt aes aesKey (data.length / 16) zeroIv data else data
  decryptCbc aesKey data := cbcDecrypt aes aesKey (data.length / 16) zeroIv data
  length_encryptCbc aesKey data := by
    split
    · rw [length_cbcEncrypt]
      omega
    · rfl

/-- The loops of the decryption come to what the package model takes it for. -/
theorem decrypt_abstract (aes : AesEcb) (aesKey input : List UInt8) (oLen : Nat)
    (h : input.length < 2147483648) :
    Bdt_AesDecryptDataWithPadding aes.toAes aesKey input oLen =
      match decryptDataWithPadding aes aesKey input oLen with
      | .outside => none
      | .returns ret output => if 0 < ret then some (output.take ret.toNat) else none := by
  classical
  unfold Bdt_AesDecryptDataWithPadding
  rw [decrypt_eq]
  by_cases hfits : oLen < input.length
  · rw [if_pos (.inl hfits), if_pos hfits]
    rfl
  by_cases hlength : input.length % 16 ≠ 0
  · rw [if_pos (.inr (.inr hlength)), if_neg hfits, if_pos hlength]
    rfl
  rw [if_neg hfits, if_neg hlength]
  have hwritten : (cbcDecrypt aes aesKey (input.length / 16) zeroIv input).length = input.length := by
    rw [length_cbcDecrypt]
    omega
  show _ = match (match (cbcDecrypt aes aesKey (input.length / 16) zeroIv input).getLast? with
    | none => DecryptResult.outside
    | some padding => _) with
    | .outside => none
    | .returns ret output => _
  by_cases hempty : input.length = 0
  · rw [if_pos (.inr (.inl hempty))]
    rw [eq_nil_of_length_eq_zero (hwritten.trans hempty)]
    rfl
  rw [if_neg (by omega)]
  have hcipher : aes.toAes.decryptCbc aesKey input =
      cbcDecrypt aes aesKey (input.length / 16) zeroIv input := rfl
  rw [hcipher]
  generalize cbcDecrypt aes aesKey (input.length / 16) zeroIv input = output at hwritten ⊢
  obtain ⟨padding, hlast⟩ : ∃ padding, output.getLast? = some padding := by
    cases hlast : output.getLast? with
    | none => exact absurd (hwritten ▸ congrArg List.length (getLast?_eq_none_iff.mp hlast)) hempty
    | some padding => exact ⟨padding, rfl⟩
  have hall : ((output.drop (output.length - padding.toNat)).all
      fun byte => byte.toNat = padding.toNat) = true ↔ EndsWith output padding := by
    simp [EndsWith, UInt8.toNat_inj]
  dsimp only
  rw [hlast, Option.getD_some]
  dsimp only
  by_cases hends : EndsWith output padding
  · rw [if_pos hends, if_pos (hall.mpr hends)]
    by_cases hle : padding.toNat ≤ output.length
    · rw [if_pos hle]
      dsimp only
      rw [toInt_of_lt (by omega), ← hwritten]
      by_cases hless : output.length ≤ padding.toNat
      · rw [if_pos hless, if_neg (by omega)]
      · rw [if_neg hless, if_pos (by omega), Int.toNat_natCast]
    · rw [if_neg hle, if_pos (by omega)]
  · rw [if_neg hends, if_neg fun hcheck => hends (hall.mp hcheck), ite_self]
    rfl

/-- A block with one byte of padding. -/
theorem decrypt_abstract_fifteen :
    Bdt_AesDecryptDataWithPadding plainEcb.toAes [] (List.replicate 16 1) 16 =
      some (List.replicate 15 1) :=
  (decrypt_abstract plainEcb [] (List.replicate 16 1) 16 (by decide)).trans (by decide +kernel)

end AesMbedtls

end Bdt
