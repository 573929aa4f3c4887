import Mathlib.Data.List.Basic

/-!
# Padding around the block cipher

`AesMbedtls.imp.inl` pads its input and hands it to the CBC cipher of the vendored mbedtls, for which
`Aes` stands. The cipher keeps the length, and decryption undoes encryption.
-/

namespace Bdt

/-- `BDT_AES_KEY_LENGTH`. -/
def BDT_AES_KEY_LENGTH : Nat := 32

def BDT_MIX_HASH_LENGTH : Nat := 8

/-- `mbedtls_aes_crypt_cbc` with a zero initial vector, in both directions. -/
structure Aes where
  encryptCbc : List UInt8 → List UInt8 → List UInt8
  decryptCbc : List UInt8 → List UInt8 → List UInt8
  length_encryptCbc (aesKey data : List UInt8) : (encryptCbc aesKey data).length = data.length

/-- `Bdt_AesEncryptDataWithPadding`, for input and output buffers of `size` bytes; `none` stands for
the result -1. -/
def Bdt_AesEncryptDataWithPadding (aes : Aes) (aesKey data : List UInt8) (size : Nat) :
    Option (List UInt8) :=
  let targetLen := (data.length / 16 + 1) * 16
  if size < targetLen then none
  else
    let padding := targetLen - data.length
    some (aes.encryptCbc aesKey (data ++ List.replicate padding (UInt8.ofNat padding)))

/-- `Bdt_AesDecryptDataWithPadding`; `none` stands for the results that are not positive. The length
of the input has no sign, and the cipher wants whole blocks. -/
def Bdt_AesDecryptDataWithPadding (aes : Aes) (aesKey input : List UInt8) (oLen : Nat) :
    Option (List UInt8) :=
  if oLen < input.length ∨ input.length = 0 ∨ input.length % 16 ≠ 0 then none
  else
    let output := aes.decryptCbc aesKey input
    let padding := (output.getLast?.getD 0).toNat
    if output.length ≤ padding then none
    else if (output.drop (output.length - padding)).all fun byte => byte.toNat = padding then
      some (output.take (output.length - padding))
    else none

/-- `BDT_PEER_PUBLIC_KEY_TYPE_*`. -/
inductive PeerKeyType where
  | rsa1024
  | rsa2048
  | rsa3072
  deriving DecidableEq, Repr

/-- The bytes of a modulus, which `Bdt_RsaDecrypt` gives back as `outKeyBytes`. -/
def PeerKeyType.keyBytes : PeerKeyType → Nat
  | rsa1024 => 128
  | rsa2048 => 256
  | rsa3072 => 384

/-- What the parsers ask of the stack: the secret of the local peer, and the keys that the key
manager has for a mix hash, with their peers. -/
structure StackKeys where
  keyType : PeerKeyType
  rsaDecrypt : List UInt8 → Option (List UInt8)
  checkAesKeyHash : List UInt8 → List UInt8 → Bool
  findByMixHash : List UInt8 → Option (List UInt8 × List UInt8)

/-- Keys of a peer that nobody has exchanged a key with. -/
def StackKeys.empty : StackKeys where
  keyType := .rsa1024
  rsaDecrypt _ := none
  checkAesKeyHash _ _ := false
  findByMixHash _ := none

theorem aesEncryptDataWithPadding_some (aes : Aes) (aesKey : List UInt8) {data : List UInt8}
    {size : Nat} (h : data.length + 16 ≤ size) :
    ∃ encrypted, Bdt_AesEncryptDataWithPadding aes aesKey data size = some encrypted ∧
      encrypted.length = (data.length / 16 + 1) * 16 := by
  unfold Bdt_AesEncryptDataWithPadding
  rw [if_neg (by omega)]
  refine ⟨_, rfl, ?_⟩
  rw [aes.length_encryptCbc, List.length_append, List.length_replicate]
  omega

end Bdt
