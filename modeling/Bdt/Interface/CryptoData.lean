import Bdt.Global.AesPadding
import Mathlib.Algebra.Order.Ring.Int

/-!
# Records of chunks

A model of the functions of `TcpInterface.imp.inl` that encrypt a record chunk by chunk.

`chunkedRecord_iff`: the record is that of all bytes at once if and only if there is memory behind the
context for all that mbedtls writes to it, and every chunk has whole blocks. What is left of a chunk
does not move the offset, and the next chunk is written over it.
-/

namespace Bdt

open List AesMbedtls

/-- `Bdt_TcpInterfaceCryptoDataContext`, with the bytes behind the header of the buffer. What is in
`aesContext`, the last member, are the keys that Begin has put there. -/
structure CryptoDataContext where
  data : List UInt8
  dataOffset : Nat := 0
  iv : Block := zeroIv

/-- `sizeof(mbedtls_aes_context)` with pointers of 64 bits: `nr`, `rk` and the 68 words of `buf`. -/
def sizeofAesContext : Nat := 8 + 8 + 4 * 68

/-- The bytes from `aesContext` on to the end of a context: the 100 of the array, and the padding. -/
def sizeofAesArray : Nat := 100 + 4

/-- `Bdt_TcpInterfaceBeginCryptoData`, for a context that owns so many bytes from `aesContext` on.
`mbedtls_aes_init` sets a whole `mbedtls_aes_context` there, and `none` stands for a write behind
them. -/
def beginCryptoData (aesContext : Nat) (buffer : List UInt8) : Option CryptoDataContext :=
  if sizeofAesContext ≤ aesContext then some { data := buffer } else none

/-- The vector that the loop of `mbedtls_aes_crypt_cbc` leaves. -/
def lastBlock : Nat → Block → List UInt8 → Block
  | 0, iv, _ => iv
  | count + 1, _, output => lastBlock count (readBlock output) (output.drop 16)

namespace CryptoDataContext

def write (context : CryptoDataContext) (offset : Nat) (bytes : List UInt8) : CryptoDataContext :=
  { context with
    data := context.data.take offset ++ (bytes ++ context.data.drop (offset + bytes.length)) }

variable (aes : AesEcb) (aesKey : List UInt8)

/-- A call of `mbedtls_aes_crypt_cbc` that puts its output at `offset`. -/
def crypt (context : CryptoDataContext) (offset : Nat) (input : List UInt8) : CryptoDataContext :=
  let (_, output) := cryptCbc (cbcEncrypt aes aesKey) context.iv input
  { context.write offset output with iv := lastBlock (output.length / 16) context.iv output }

/-- The block at the offset is encrypted in its place. -/
def cryptInPlace (context : CryptoDataContext) : CryptoDataContext :=
  context.crypt aes aesKey context.dataOffset ((context.data.drop context.dataOffset).take 16)

/-- The start of `Bdt_TcpInterfaceAppendCryptoData`, with the bytes that are left. -/
def fillBlock (context : CryptoDataContext) (data : List UInt8) :
    CryptoDataContext × List UInt8 :=
  let nextBlock := context.dataOffset / 16 * 16 + 16
  let toCopy := min (nextBlock - context.dataOffset) data.length
  let copied := { context.write context.dataOffset (data.take toCopy) with
    dataOffset := context.dataOffset + toCopy }
  (if copied.dataOffset = nextBlock then copied.cryptInPlace aes aesKey else copied, data.drop toCopy)

/-- The whole blocks of `Bdt_TcpInterfaceAppendCryptoData`, which go to `thisBlock`. -/
def appendBlocks (context : CryptoDataContext) (thisBlock : Nat) (data : List UInt8) :
    CryptoDataContext × List UInt8 :=
  let appendBlock := data.length / 16 * 16
  if appendBlock = 0 then (context, data)
  else ({ context.crypt aes aesKey thisBlock (data.take appendBlock) with
    dataOffset := context.dataOffset + appendBlock }, data.drop appendBlock)

/-- `Bdt_TcpInterfaceAppendCryptoData`. What is left of the data does not move the offset. -/
def append (context : CryptoDataContext) (data : List UInt8) : CryptoDataContext :=
  if data = [] then context
  else
    let thisBlock := context.dataOffset / 16 * 16
    let (context, data) :=
      if context.dataOffset ≠ thisBlock then context.fillBlock aes aesKey data else (context, data)
    if data = [] then context
    else
      let (context, data) := context.appendBlocks aes aesKey thisBlock data
      if data = [] then context else context.write context.dataOffset data

/-- `Bdt_TcpInterfaceFinishCryptoData`: the length field and the bytes of the record. -/
def finish (context : CryptoDataContext) : UInt16 × List UInt8 :=
  let nextBlock := (context.dataOffset / 16 + 1) * 16
  let padding := UInt8.ofNat (nextBlock - context.dataOffset)
  let crypted :=
    (context.write context.dataOffset (replicate padding.toNat padding)).cryptInPlace aes aesKey
  (.ofNat nextBlock, crypted.data.take nextBlock)

end CryptoDataContext

variable (aes : AesEcb) (aesKey : List UInt8)

/-- The record of chunks, with the memory that the context has from `aesContext` on, and the buffer
behind its header. -/
def chunkedRecord (aesContext : Nat) (buffer : List UInt8) (chunks : List (List UInt8)) :
    Option (UInt16 × List UInt8) :=
  (beginCryptoData aesContext buffer).map fun context =>
    (chunks.foldl (·.append aes aesKey) context).finish aes aesKey

/-- `Bdt_TcpInterfaceBoxCryptoData`: the length field and the bytes of the record. -/
def boxCryptoData (data : List UInt8) (bufferLen : Nat) : UInt16 × List UInt8 :=
  let (len, output) := encryptDataWithPadding aes aesKey data bufferLen bufferLen
  (.ofInt len, output)

/-- Blocks are encrypted one part behind the other. -/
theorem cbcEncrypt_append (count more : Nat) (iv : Block) {input : List UInt8} (rest : List UInt8)
    (h : input.length = 16 * count) :
    cbcEncrypt aes aesKey (count + more) iv (input ++ rest) =
      cbcEncrypt aes aesKey count iv input ++
        cbcEncrypt aes aesKey more (lastBlock count iv (cbcEncrypt aes aesKey count iv input)) rest := by
  induction count generalizing iv input with
  | zero =>
    rw [eq_nil_of_length_eq_zero h, Nat.zero_add]
    rfl
  | succ count ih =>
    obtain ⟨block, input, rfl⟩ : ∃ block : Block, ∃ tail, input = block.toList ++ tail :=
      ⟨readBlock input, input.drop 16, by rw [toList_readBlock (by omega), take_append_drop]⟩
    have hinput : input.length = 16 * count := by
      rw [length_append, Vector.length_toList] at h
      omega
    rw [Nat.succ_add, append_assoc]
    simp only [cbcEncrypt, lastBlock, readBlock_append, AesMbedtls.drop_append]
    rw [ih _ hinput, append_assoc]

/-- The whole blocks of a chunk. -/
def wholeBlocks (data : List UInt8) : List UInt8 :=
  data.take (data.length / 16 * 16)

/-- The blocks are encrypted at the start of the buffer, and others can be put behind them. -/
structure Encrypted (aes : AesEcb) (aesKey : List UInt8) (context : CryptoDataContext)
    (blocks : List UInt8) (count : Nat) : Prop where
  length : blocks.length = 16 * count
  dataOffset : context.dataOffset = 16 * count
  continues : ∀ more rest, cbcEncrypt aes aesKey (count + more) zeroIv (blocks ++ rest) =
    context.data.take (16 * count) ++ cbcEncrypt aes aesKey more context.iv rest

namespace Encrypted

variable {aes aesKey} {context : CryptoDataContext} {blocks : List UInt8} {count : Nat}

section

variable (h : Encrypted aes aesKey context blocks count)
include h

theorem take_data : context.data.take (16 * count) = cbcEncrypt aes aesKey count zeroIv blocks := by
  have hnone := h.continues 0 []
  rw [append_nil] at hnone
  exact (append_nil _).symm.trans hnone.symm

theorem length_take : (context.data.take (16 * count)).length = 16 * count := by
  rw [h.take_data, length_cbcEncrypt]

/-- Whole blocks are encrypted behind those that are there. -/
theorem crypt {input : List UInt8} {added : Nat} (hinput : input.length = 16 * added) :
    Encrypted aes aesKey
      { context.crypt aes aesKey (16 * count) input with dataOffset := 16 * (count + added) }
      (blocks ++ input) (count + added) := by
  have houtput : cryptCbc (cbcEncrypt aes aesKey) context.iv input =
      (0, cbcEncrypt aes aesKey added context.iv input) := by
    rw [cryptCbc, if_neg (by omega), show input.length / 16 = added by omega]
  have hlength := length_cbcEncrypt aes aesKey added context.iv input
  refine ⟨by rw [length_append, h.length, hinput]; omega, rfl, fun more rest => ?_⟩
  rw [CryptoDataContext.crypt, houtput]
  dsimp only [CryptoDataContext.write]
  rw [hlength, Nat.mul_div_cancel_left _ (by decide), append_assoc, Nat.add_assoc,
    h.continues, cbcEncrypt_append aes aesKey added more context.iv rest hinput, ← append_assoc,
    ← append_assoc, take_left']
  rw [length_append, h.length_take, hlength]
  omega

/-- What is behind the blocks is free to be written. -/
theorem write (bytes : List UInt8) :
    Encrypted aes aesKey (context.write context.dataOffset bytes) blocks count := by
  refine { h with continues := fun more rest => ?_ }
  show _ = (context.data.take context.dataOffset ++ _).take _ ++ _
  rw [h.dataOffset, take_left' h.length_take]
  exact h.continues more rest

theorem append (data : List UInt8) :
    Encrypted aes aesKey (context.append aes aesKey data) (blocks ++ wholeBlocks data)
      (count + data.length / 16) := by
  have hblock : context.dataOffset / 16 * 16 = 16 * count := by
    rw [h.dataOffset]
    omega
  unfold CryptoDataContext.append
  by_cases hnil : data = []
  · rw [if_pos hnil, hnil]
    simpa [wholeBlocks] using h
  rw [if_neg hnil]
  dsimp only
  rw [if_neg (not_not.mpr (h.dataOffset.trans hblock.symm)), if_neg hnil, hblock]
  have hblocks : Encrypted aes aesKey (context.appendBlocks aes aesKey (16 * count) data).1
      (blocks ++ wholeBlocks data) (count + data.length / 16) := by
    unfold CryptoDataContext.appendBlocks
    dsimp only
    split
    case isTrue hnone =>
      rw [wholeBlocks, hnone, take_zero, append_nil, show data.length / 16 = 0 by omega]
      exact h
    case isFalse =>
      have hinput : (wholeBlocks data).length = 16 * (data.length / 16) := by
        rw [wholeBlocks, List.length_take]
        omega
      have hcrypt := h.crypt hinput
      rw [Nat.mul_add, ← h.dataOffset, Nat.mul_comm 16 (data.length / 16)] at hcrypt
      rw [← h.dataOffset]
      exact hcrypt
  split
  case isTrue => exact hblocks
  case isFalse => exact hblocks.write _

/-- A block of padding is put behind the last whole block of a chunk. -/
theorem finish : context.finish aes aesKey = (.ofNat (16 * (count + 1)),
    cbcEncrypt aes aesKey (count + 1) zeroIv (blocks ++ replicate 16 16)) := by
  have hpadding : (context.dataOffset / 16 + 1) * 16 = 16 * (count + 1) := by
    rw [h.dataOffset]
    omega
  have hpad : UInt8.ofNat ((context.dataOffset / 16 + 1) * 16 - context.dataOffset) = 16 := by
    rw [hpadding, h.dataOffset, show 16 * (count + 1) - 16 * count = 16 by omega]
    rfl
  have hread : ((context.write context.dataOffset (replicate 16 16)).data.drop
      context.dataOffset).take 16 = replicate 16 16 := by
    show ((context.data.take context.dataOffset ++ (replicate 16 16 ++ _)).drop _).take 16 = _
    rw [drop_left' (h.dataOffset ▸ h.length_take), take_left']
    rfl
  have hinput : (replicate 16 (16 : UInt8)).length = 16 * 1 := rfl
  have hcrypt := ((h.write (replicate 16 16)).crypt hinput).take_data
  unfold CryptoDataContext.finish CryptoDataContext.cryptInPlace
  dsimp only
  rw [hpad, hpadding]
  refine Prod.ext rfl ?_
  show ((context.write context.dataOffset (replicate 16 16)).crypt aes aesKey context.dataOffset
    (((context.write context.dataOffset (replicate 16 16)).data.drop context.dataOffset).take
      16)).data.take _ = _
  rw [hread]
  rw [← h.dataOffset] at hcrypt
  exact hcrypt

theorem foldl (chunks : List (List UInt8)) :
    ∃ count, Encrypted aes aesKey (chunks.foldl (·.append aes aesKey) context)
      (blocks ++ chunks.flatMap wholeBlocks) count := by
  induction chunks generalizing context blocks count with
  | nil => exact ⟨count, by rwa [flatMap_nil, append_nil]⟩
  | cons data chunks ih =>
    rw [flatMap_cons, ← append_assoc]
    exact ih (h.append data)

end

end Encrypted

theorem length_whole (chunks : List (List UInt8)) :
    (chunks.flatMap wholeBlocks).length + (chunks.map (·.length % 16)).sum =
      chunks.flatten.length := by
  induction chunks with
  | nil => rfl
  | cons data chunks ih =>
    rw [flatMap_cons, flatten_cons, map_cons, sum_cons, length_append, length_append, wholeBlocks,
      length_take]
    omega

theorem whole_iff (chunks : List (List UInt8)) :
    chunks.flatMap wholeBlocks = chunks.flatten ↔ ∀ data ∈ chunks, data.length % 16 = 0 := by
  refine ⟨fun h => ?_, fun h => ?_⟩
  · have hlength := length_whole chunks
    rw [h, Nat.add_eq_left, List.sum_eq_zero_iff_forall_eq_nat] at hlength
    exact fun data hdata => hlength _ (mem_map_of_mem hdata)
  rw [← flatMap_id]
  refine flatMap_congr fun data hdata => take_of_length_le ?_
  have hmod := h data hdata
  omega

theorem ofInt_toInt (n : Nat) : UInt16.ofInt (toInt n) = UInt16.ofNat n := by
  rw [← UInt16.toNat_inj, UInt16.ofInt, toInt, UInt16.toNat_ofNat', UInt16.toNat_ofNat']
  split <;> omega

/-- The record of the chunks is that of their concatenation when the context owns the memory that is
written, and each chunk has whole blocks. A context of its own type never does. -/
theorem chunkedRecord_iff (aesContext : Nat) (buffer : List UInt8) (chunks : List (List UInt8))
    (h : targetLen chunks.flatten ≤ buffer.length) :
    chunkedRecord aes aesKey aesContext buffer chunks =
        some (boxCryptoData aes aesKey chunks.flatten buffer.length) ↔
      sizeofAesContext ≤ aesContext ∧ ∀ data ∈ chunks, data.length % 16 = 0 := by
  unfold chunkedRecord beginCryptoData
  by_cases hroom : sizeofAesContext ≤ aesContext
  case neg =>
    rw [if_neg hroom]
    exact iff_of_false nofun fun hok => hroom hok.1
  have hstart : Encrypted aes aesKey { data := buffer } [] 0 :=
    ⟨rfl, rfl, fun more rest => by rw [Nat.zero_add]; rfl⟩
  obtain ⟨count, hchunks⟩ := hstart.foldl chunks
  rw [if_pos hroom, Option.map_some, Option.some_inj, and_iff_right hroom, ← whole_iff,
    hchunks.finish, boxCryptoData, encrypt_eq _ h h]
  dsimp only
  rw [ofInt_toInt, nil_append, Prod.mk.injEq]
  have hcount := hchunks.length
  rw [nil_append] at hcount
  generalize chunks.flatMap wholeBlocks = blocks at *
  generalize chunks.flatten = data at *
  constructor
  · rintro ⟨-, houtput⟩
    have hblocks : count + 1 = targetLen data / 16 := by
      have hlength := congrArg length houtput
      rw [length_cbcEncrypt, length_cbcEncrypt] at hlength
      omega
    have hplain := congrArg (cbcDecrypt aes aesKey (count + 1) zeroIv) houtput
    rw [cbcDecrypt_cbcEncrypt, hblocks, cbcDecrypt_cbcEncrypt] at hplain
    · have hlast := congrArg getLast? hplain
      rw [getLast?_padded, getLast?_append] at hlast
      have hpad := congrArg UInt8.toNat (Option.some.inj hlast)
      rw [toNat_padding] at hpad
      rw [padded, ← hpad] at hplain
      exact append_cancel_right hplain
    · rw [length_padded]
      unfold targetLen
      omega
    · rw [length_append, hcount]
      rfl
  · rintro rfl
    have htarget : targetLen blocks = 16 * (count + 1) := by
      unfold targetLen
      omega
    have hpadded : padded blocks = blocks ++ replicate 16 16 := by
      rw [padded, htarget, hcount, show 16 * (count + 1) - 16 * count = 16 by omega]
      rfl
    rw [htarget, hpadded, Nat.mul_div_cancel_left _ (by decide)]
    exact ⟨rfl, rfl⟩

/-- Two blocks with a context that has the room of the library's own type. -/
theorem chunkedRecord_block :
    chunkedRecord plainEcb [] 288 (replicate 48 0) [replicate 16 1, replicate 16 2] =
      some (boxCryptoData plainEcb [] [replicate 16 1, replicate 16 2].flatten 48) :=
  (chunkedRecord_iff plainEcb [] 288 (replicate 48 0) _ (by decide)).mpr (by decide)

/-- A context of its own type is too short for any record, and the only byte of a chunk is not in
it. -/
theorem chunkedRecord_loses :
    chunkedRecord plainEcb [] sizeofAesArray (replicate 32 0) [replicate 16 1] = none ∧
      chunkedRecord plainEcb [] 288 (replicate 16 0) [[1]] ≠
        some (boxCryptoData plainEcb [] [[1]].flatten 16) := by
  decide +kernel

end Bdt
