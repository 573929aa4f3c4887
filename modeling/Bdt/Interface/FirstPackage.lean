import Mathlib.Data.List.GetD
import Bdt.Interface.BoxParser

/-!
# The first package of an accepted interface

`FirstGuess` is what the chunks of a new interface come to, up to the first box or the first error.
`Recognized` says that they come to what the whole stream comes to in one chunk, and that every call
of the parser reports the bytes that it has taken from its chunk. The parser keeps this exactly when
the first chunk holds the header of the box, and the box is not one of a known key
(`recognized_iff`): a part of a header goes to the cache without being counted, the branch of the
known key counts its header twice, and the parameters that say how a box began do not outlive the
call that read its header.
-/

namespace Bdt

open List

namespace TcpInterface

/-- An interface that was accepted. -/
def accepted : TcpInterface := { state := .waitFirstPackage }

end TcpInterface

/-- The calls of the parser for the chunks of a stream: the length of the chunk and the bytes used
in each call before the last, and the last call. -/
structure FirstGuess where
  earlier : List (Nat × Nat) := []
  lastLength : Nat
  last : UnboxOutput
  deriving DecidableEq, Repr

/-- `BdtPushTcpSocketData` for the chunks of a stream, up to the first box or the first error. The
first parameters are cleared for every chunk. -/
def firstGuess (keys : StackKeys) (ti : TcpInterface) (chunk : List UInt8) :
    List (List UInt8) → Option FirstGuess
  | [] =>
    (ti.unboxParserPushData keys {} chunk TCP_MAX_BOX_LEN).map fun output =>
      { lastLength := chunk.length, last := output }
  | next :: chunks =>
    match ti.unboxParserPushData keys {} chunk TCP_MAX_BOX_LEN with
    | none => none
    | some output =>
      if output.result ≠ .success ∨ output.boxes ≠ [] then
        some { lastLength := chunk.length, last := output }
      else
        (firstGuess keys output.tcpInterface next chunks).map fun guess =>
          { guess with earlier := (chunk.length, output.used) :: guess.earlier }

/-- What the first box was taken for: how it is encrypted, its length, and, when all of it is there,
the bytes that are decrypted and the parameters that go with them. -/
structure FirstBox where
  result : UnboxResult
  isCrypto : Bool
  aesKey : List UInt8
  boxSize : Nat
  box : Option (List UInt8 × TcpInterfaceFirstParams)
  deriving DecidableEq, Repr

namespace FirstGuess

def firstBox (guess : FirstGuess) : FirstBox where
  result := guess.last.result
  isCrypto := guess.last.tcpInterface.isCrypto
  aesKey := guess.last.tcpInterface.aesKey
  boxSize := guess.last.tcpInterface.boxSize
  box := guess.last.boxes.head?.map fun box => (box, guess.last.firstParams)

/-- The header of a box of the kind that was recognized. -/
def headerSize (keys : StackKeys) (guess : FirstGuess) : Nat :=
  if guess.last.firstParams.isStartWithExchangeKey then
    keys.keyType.keyBytes + BDT_MIX_HASH_LENGTH + 2
  else if guess.last.tcpInterface.isCrypto then BDT_MIX_HASH_LENGTH + 2
  else 2 + 2

/-- Every call without a box has used its chunk, and the call with the box has used its chunk up to
the end of the box. An error uses nothing. -/
structure ReportsUsed (keys : StackKeys) (guess : FirstGuess) : Prop where
  earlier : ∀ call ∈ guess.earlier, call.2 = call.1
  part : guess.last.result = .success → guess.last.boxes = [] → guess.last.used = guess.lastLength
  box : ∀ box, guess.last.result = .success → guess.last.boxes.head? = some box →
    (guess.earlier.map Prod.fst).sum + guess.last.used = guess.headerSize keys + box.length

end FirstGuess

/-- The chunks are recognized as their stream is, and every call reports what it used. -/
def Recognized (keys : StackKeys) (first : List UInt8) (chunks : List (List UInt8)) : Prop :=
  ∃ parts whole, firstGuess keys .accepted first chunks = some parts ∧
    firstGuess keys .accepted (first ++ chunks.flatten) [] = some whole ∧
    parts.firstBox = whole.firstBox ∧ parts.ReportsUsed keys

/-- The first chunk of a stream of `total` bytes holds the header of a box without encryption, or
the header of a box behind an exchanged key; then the box ends in this chunk too, or it does not end
in the stream. A key that cannot be decrypted is an error at once. -/
def HeaderInFirstChunk (keys : StackKeys) (first : List UInt8) (total : Nat) : Prop :=
  TCP_FIRST_PACKAGE_SIZE ≤ first.length ∧
    (TcpInterface.isPlainFirstPackage first = true ∨
      TCP_FIRST_EXCHANGE_SIZE ≤ first.length ∧
        keys.findByMixHash (first.take BDT_MIX_HASH_LENGTH) = none ∧
        keys.keyType.keyBytes ≤ first.length ∧
        ∀ aesKey, keys.rsaDecrypt (first.take keys.keyType.keyBytes) = some aesKey →
          let header := keys.keyType.keyBytes + 8 + 2
          let size := readUInt16 first (keys.keyType.keyBytes + 8)
          header ≤ first.length ∧
            keys.checkAesKeyHash aesKey ((first.drop keys.keyType.keyBytes).take 8) = true ∧
            (header < first.length ∧ header + size ≤ first.length ∨
              total = header ∨ total < header + size))

namespace TcpInterface

variable {keys : StackKeys} {ti : TcpInterface} {firstParams : TcpInterfaceFirstParams}
  {data : List UInt8} {slots fuel : Nat}

/-! ## The body of the first box -/

/-- What a call makes of `data` when it reads the body of the first box. -/
def bodyOutput (ti : TcpInterface) (firstParams : TcpInterfaceFirstParams) (data : List UInt8) :
    UnboxOutput :=
  if data = [] then { tcpInterface := ti, firstParams }
  else if ti.boxSize ≤ ti.cache.length + data.length then
    { tcpInterface := { ti with unboxState := .readingLength, cache := [] }, firstParams
      boxes := [ti.cache ++ data.take (ti.boxSize - ti.cache.length)]
      used := ti.boxSize - ti.cache.length }
  else
    { tcpInterface := { ti with cache := ti.cache ++ data }, firstParams, used := data.length }

theorem firstReadingBody_eq (h : ti.Framed) (hunbox : ti.unboxState = .readingBody)
    (hdata : data ≠ []) :
    ti.firstReadingBody firstParams data = some (.leave (ti.bodyOutput firstParams data)) := by
  have hsize := h.size
  unfold firstReadingBody bodyOutput
  rw [if_neg hdata]
  by_cases hempty : ti.cache = []
  · have hzero : ti.cache.length = 0 := by rw [hempty]; rfl
    rw [if_neg (by omega)]
    by_cases hfull : data.length ≥ ti.boxSize
    · rw [if_pos hfull, if_pos (by omega)]
      simp [hempty]
    · rw [if_neg hfull, if_neg (by omega), appendCache_eq ti data (by omega), Option.map_some]
  have hgot : ti.cache.length < ti.boxSize := (h.body hunbox).resolve_left hempty
  have hpos : ti.cache.length ≠ 0 := by simpa using hempty
  rw [if_pos hpos, tryFillCache_eq (by omega) hsize]
  simp only
  by_cases hfull : ti.boxSize ≤ ti.cache.length + data.length
  · rw [if_pos hfull, if_pos (by rw [length_append, length_take]; omega),
      Nat.min_eq_right (by omega)]
  · rw [if_neg hfull, if_neg (by rw [length_append, length_take]; omega),
      Nat.min_eq_left (by omega), take_of_length_le (by omega)]

theorem runActivations_body (h : ti.Framed) (hstate : ti.state = .waitFirstPackage)
    (hunbox : ti.unboxState = .readingBody) (hslots : 0 < slots) :
    runActivations keys (fuel + 1) ti firstParams data slots =
      some (ti.bodyOutput firstParams data) := by
  unfold runActivations
  rw [if_neg (by omega)]
  by_cases hdata : data = []
  · rw [if_pos hdata, bodyOutput, if_pos hdata]
  rw [if_neg hdata]
  have hactivation : ti.activation keys firstParams data slots =
      some (.leave (ti.bodyOutput firstParams data)) := by
    rw [← firstReadingBody_eq h hunbox hdata, activation, hstate, hunbox]
  rw [hactivation]

/-- The output of a call whose first activations have counted `count` bytes. -/
def counted (count : Nat) (output : UnboxOutput) : UnboxOutput :=
  { output with used := count + output.used }

variable {output : UnboxOutput} {firstBlockSize : Nat}

/-- An activation that puts out no box, and the body behind it. -/
theorem runActivations_again_body {skip : Nat} (hslots : 0 < slots)
    (hdata : data ≠ []) (hskip : skip ≤ data.length) (hboxes : output.boxes = [])
    (hactivation : ti.activation keys firstParams data slots = some (.again output skip))
    (h : output.tcpInterface.Framed) (hstate : output.tcpInterface.state = .waitFirstPackage)
    (hunbox : output.tcpInterface.unboxState = .readingBody) :
    runActivations keys (fuel + 2) ti firstParams data slots =
      some (counted output.used
        (output.tcpInterface.bodyOutput output.firstParams (data.drop skip))) := by
  unfold runActivations
  rw [if_neg (by omega), if_neg hdata, hactivation]
  simp only
  rw [if_neg (by omega), hboxes, runActivations_body h hstate hunbox (by simpa using hslots)]
  rfl

/-! ## The header of the first box -/

/-- An interface that has read the header of a box without encryption. -/
def plainBody (data : List UInt8) : TcpInterface :=
  { accepted with boxSize := readUInt16 data 2, unboxState := .readingBody }

/-- An interface that has not found the magic number, or a known key. -/
def guessing (firstBlockSize : Nat) : TcpInterface :=
  { accepted with firstBlockSize }

/-- An interface that has read the header of a box of a known key. -/
def knownBody (aesKey data : List UInt8) : TcpInterface :=
  { guessing TCP_FIRST_MIXHASH_SIZE with
    aesKey, isCrypto := true, boxSize := readUInt16 data BDT_MIX_HASH_LENGTH
    unboxState := .readingBody }

/-- An interface that has read the header of a box behind an exchanged key. -/
def exchangeBody (keys : StackKeys) (aesKey data : List UInt8) : TcpInterface :=
  { guessing TCP_FIRST_EXCHANGE_SIZE with
    aesKey, isCrypto := true, boxSize := readUInt16 data (keys.keyType.keyBytes + 8)
    unboxState := .readingBody }

/-- What a first call with `data` does. -/
inductive FirstCall (keys : StackKeys) (data : List UInt8) : Option UnboxOutput → Prop where
  /-- The header is not complete: it is cached, and nothing is counted. -/
  | cached {output : UnboxOutput} (hshort : data.length < TCP_FIRST_PACKAGE_SIZE ∨
        isPlainFirstPackage data = false ∧ data.length < TCP_FIRST_EXCHANGE_SIZE)
      (hresult : output.result = .success) (hboxes : output.boxes = [])
      (hused : output.used = 0) : FirstCall keys data (some output)
  | plain (hlen : TCP_FIRST_PACKAGE_SIZE ≤ data.length) (hplain : isPlainFirstPackage data = true) :
      FirstCall keys data
        (some (counted 4 ((plainBody data).bodyOutput {} (data.drop 4))))
  | known {aesKey remotePeerid : List UInt8} (hlen : TCP_FIRST_MIXHASH_SIZE ≤ data.length)
      (hplain : isPlainFirstPackage data = false)
      (hfind : keys.findByMixHash (data.take BDT_MIX_HASH_LENGTH) = some (aesKey, remotePeerid)) :
      FirstCall keys data
        (some (counted 20 ((knownBody aesKey data).bodyOutput { remotePeerid } (data.drop 10))))
  | beyond (hlen : TCP_FIRST_EXCHANGE_SIZE ≤ data.length) (hplain : isPlainFirstPackage data = false)
      (hfind : keys.findByMixHash (data.take BDT_MIX_HASH_LENGTH) = none)
      (hbeyond : keys.keyType.keyBytes ≤ data.length → ∃ aesKey,
        keys.rsaDecrypt (data.take keys.keyType.keyBytes) = some aesKey ∧
          data.length < keys.keyType.keyBytes + 8 + 2) : FirstCall keys data none
  | error (hlen : TCP_FIRST_EXCHANGE_SIZE ≤ data.length) (hplain : isPlainFirstPackage data = false)
      (hfind : keys.findByMixHash (data.take BDT_MIX_HASH_LENGTH) = none)
      (hkey : keys.keyType.keyBytes ≤ data.length)
      (hdecrypt : keys.rsaDecrypt (data.take keys.keyType.keyBytes) = none) :
      FirstCall keys data
        (some { result := .invalidFormat, tcpInterface := guessing TCP_FIRST_EXCHANGE_SIZE
                firstParams := {} })
  | mismatch {aesKey : List UInt8} (hlen : TCP_FIRST_EXCHANGE_SIZE ≤ data.length)
      (hplain : isPlainFirstPackage data = false)
      (hfind : keys.findByMixHash (data.take BDT_MIX_HASH_LENGTH) = none)
      (hkey : keys.keyType.keyBytes + 8 + 2 ≤ data.length)
      (hdecrypt : keys.rsaDecrypt (data.take keys.keyType.keyBytes) = some aesKey)
      (hcheck : keys.checkAesKeyHash aesKey ((data.drop keys.keyType.keyBytes).take 8) = false) :
      FirstCall keys data
        (some { tcpInterface := { guessing TCP_FIRST_EXCHANGE_SIZE with aesKey }, firstParams := {} })
  | exchange {aesKey : List UInt8} (hlen : TCP_FIRST_EXCHANGE_SIZE ≤ data.length)
      (hplain : isPlainFirstPackage data = false)
      (hfind : keys.findByMixHash (data.take BDT_MIX_HASH_LENGTH) = none)
      (hkey : keys.keyType.keyBytes + 8 + 2 ≤ data.length)
      (hdecrypt : keys.rsaDecrypt (data.take keys.keyType.keyBytes) = some aesKey)
      (hcheck : keys.checkAesKeyHash aesKey ((data.drop keys.keyType.keyBytes).take 8) = true) :
      FirstCall keys data
        (some (counted (keys.keyType.keyBytes + 8 + 2)
          ((exchangeBody keys aesKey data).bodyOutput { isStartWithExchangeKey := true }
            (data.drop (keys.keyType.keyBytes + 8 + 2)))))

theorem runActivations_retry (hslots : 0 < slots) (hdata : data ≠ [])
    {ti' : TcpInterface}
    (hactivation : ti.activation keys firstParams data slots =
      some (.again { tcpInterface := ti', firstParams } 0)) :
    runActivations keys (fuel + 1) ti firstParams data slots =
      runActivations keys fuel ti' firstParams data slots := by
  conv_lhs => unfold runActivations
  rw [if_neg (by omega), if_neg hdata, hactivation]
  simp only [Nat.not_lt_zero, if_false, drop_zero, length_nil, Nat.sub_zero,
    nil_append, Nat.zero_add]
  cases runActivations keys fuel ti' firstParams data slots <;> rfl

theorem runActivations_leave (hslots : 0 < slots) (hdata : data ≠ [])
    (hactivation : ti.activation keys firstParams data slots = some (.leave output)) :
    runActivations keys (fuel + 1) ti firstParams data slots = some output := by
  unfold runActivations
  rw [if_neg (by omega), if_neg hdata, hactivation]

theorem framed_body {ti : TcpInterface} (hunbox : ti.unboxState = .readingBody)
    (hcache : ti.cache = []) (hsize : ti.boxSize < TCP_INTERFACE_CACHE_SIZE) : ti.Framed :=
  ⟨fun h => absurd (hunbox.symm.trans h) nofun, fun _ => .inl hcache, hsize⟩

theorem activation_short (hshort : data.length < firstBlockSize)
    (hsize : firstBlockSize ≤ TCP_FIRST_BLCOK_SIZE) :
    (guessing firstBlockSize).activation keys firstParams data slots =
      some (.leave { tcpInterface := { guessing firstBlockSize with cache := data }, firstParams }) := by
  have hcache : (guessing firstBlockSize).cache.length + data.length < TCP_INTERFACE_CACHE_SIZE := by
    show 0 + data.length < 64 * 1024
    have : firstBlockSize ≤ 138 := hsize
    omega
  show (guessing firstBlockSize).firstReadingLength keys firstParams data = _
  have hempty : ¬ 0 < (guessing firstBlockSize).cache.length := Nat.lt_irrefl 0
  have hpart : data.length < (guessing firstBlockSize).firstBlockSize := hshort
  unfold firstReadingLength
  rw [if_neg hempty, if_pos hpart, appendCache_eq _ _ hcache]
  rfl

theorem activation_guess (hlen : firstBlockSize ≤ data.length) :
    (guessing firstBlockSize).activation keys firstParams data slots =
      (guessing firstBlockSize).guess keys firstParams data data false 0 := by
  show (guessing firstBlockSize).firstReadingLength keys firstParams data = _
  have hempty : ¬ 0 < (guessing firstBlockSize).cache.length := Nat.lt_irrefl 0
  have hwhole : ¬ data.length < (guessing firstBlockSize).firstBlockSize := Nat.not_lt.mpr hlen
  unfold firstReadingLength
  rw [if_neg hempty, if_neg hwhole]

section

variable (keys : StackKeys) (hdata : data ≠ [])
include hdata

theorem firstCall_exchange (hslots : 0 < slots)
    (hplain : isPlainFirstPackage data = false)
    (hfind : keys.findByMixHash (data.take BDT_MIX_HASH_LENGTH) = none) :
    FirstCall keys data
      (runActivations keys (fuel + 2) (guessing TCP_FIRST_EXCHANGE_SIZE) {} data slots) := by
  by_cases hshort : data.length < TCP_FIRST_EXCHANGE_SIZE
  · rw [runActivations_leave hslots hdata (activation_short hshort (Nat.le_refl _))]
    exact .cached (.inr ⟨hplain, hshort⟩) rfl rfl rfl
  have hlen : TCP_FIRST_EXCHANGE_SIZE ≤ data.length := Nat.le_of_not_lt hshort
  have hguess : (guessing TCP_FIRST_EXCHANGE_SIZE).activation keys {} data slots =
      (guessing TCP_FIRST_EXCHANGE_SIZE).guessExchange keys {} data false 0 :=
    activation_guess hlen
  unfold guessExchange at hguess
  by_cases hkey : data.length < keys.keyType.keyBytes
  · rw [if_pos hkey] at hguess
    have hnone : runActivations keys (fuel + 2) (guessing TCP_FIRST_EXCHANGE_SIZE) {} data slots =
        none := by
      unfold runActivations
      rw [if_neg (by omega), if_neg hdata, hguess]
    rw [hnone]
    exact .beyond hlen hplain hfind fun h => by omega
  rw [if_neg hkey] at hguess
  cases hdecrypt : keys.rsaDecrypt (data.take keys.keyType.keyBytes) with
  | none =>
    rw [hdecrypt] at hguess
    rw [runActivations_leave hslots hdata hguess]
    exact .error hlen hplain hfind (Nat.le_of_not_lt hkey) hdecrypt
  | some aesKey =>
    rw [hdecrypt] at hguess
    simp only at hguess
    by_cases hhash : data.length < keys.keyType.keyBytes + 8 + 2
    · rw [if_pos hhash] at hguess
      have hnone : runActivations keys (fuel + 2) (guessing TCP_FIRST_EXCHANGE_SIZE) {} data
          slots = none := by
        unfold runActivations
        rw [if_neg (by omega), if_neg hdata, hguess]
      rw [hnone]
      exact .beyond hlen hplain hfind fun _ => ⟨aesKey, hdecrypt, hhash⟩
    rw [if_neg hhash] at hguess
    have hheader : keys.keyType.keyBytes + 8 + 2 ≤ data.length := Nat.le_of_not_lt hhash
    cases hcheck : keys.checkAesKeyHash aesKey ((data.drop keys.keyType.keyBytes).take 8) with
    | false =>
      rw [hcheck, if_neg nofun] at hguess
      rw [runActivations_leave hslots hdata hguess]
      exact .mismatch hlen hplain hfind hheader hdecrypt hcheck
    | true =>
      rw [hcheck, if_pos rfl, if_neg nofun] at hguess
      rw [runActivations_again_body hslots hdata hheader rfl hguess
        (framed_body rfl rfl (readUInt16_lt _ _)) rfl rfl]
      exact .exchange hlen hplain hfind hheader hdecrypt hcheck

theorem firstCall_mixHash (hslots : 0 < slots)
    (hplain : isPlainFirstPackage data = false) :
    FirstCall keys data
      (runActivations keys (fuel + 3) (guessing TCP_FIRST_MIXHASH_SIZE) {} data slots) := by
  by_cases hshort : data.length < TCP_FIRST_MIXHASH_SIZE
  · have hshort138 : data.length < TCP_FIRST_EXCHANGE_SIZE := Nat.lt_trans hshort (by decide)
    rw [runActivations_leave hslots hdata (activation_short hshort (by decide))]
    exact .cached (.inr ⟨hplain, hshort138⟩) rfl rfl rfl
  have hlen : TCP_FIRST_MIXHASH_SIZE ≤ data.length := Nat.le_of_not_lt hshort
  have hlen10 : 10 ≤ data.length := hlen
  have hguess : (guessing TCP_FIRST_MIXHASH_SIZE).activation keys {} data slots =
      (guessing TCP_FIRST_MIXHASH_SIZE).guessMixHash keys {} data data false 0 :=
    activation_guess hlen
  unfold guessMixHash at hguess
  have hhash : ¬ data.length < BDT_MIX_HASH_LENGTH := by
    show ¬ data.length < 8
    omega
  rw [if_neg hhash] at hguess
  cases hfind : keys.findByMixHash (data.take BDT_MIX_HASH_LENGTH) with
  | some =>
    rw [hfind] at hguess
    rw [runActivations_again_body hslots hdata hlen10 rfl hguess
      (framed_body rfl rfl (readUInt16_lt _ _)) rfl rfl]
    exact .known hlen hplain hfind
  | none =>
    rw [hfind] at hguess
    rw [runActivations_retry hslots hdata hguess]
    exact firstCall_exchange keys hdata hslots hplain hfind

theorem firstCall :
    FirstCall keys data (accepted.unboxParserPushData keys {} data TCP_MAX_BOX_LEN) := by
  have hslots : 0 < TCP_MAX_BOX_LEN := by decide
  show FirstCall keys data (runActivations keys (2 * data.length + 4)
    (guessing TCP_FIRST_PACKAGE_SIZE) {} data TCP_MAX_BOX_LEN)
  by_cases hpackage : data.length < TCP_FIRST_PACKAGE_SIZE
  · rw [runActivations_leave hslots hdata (activation_short hpackage (by decide))]
    exact .cached (.inl hpackage) rfl rfl rfl
  have hlen : TCP_FIRST_PACKAGE_SIZE ≤ data.length := Nat.le_of_not_lt hpackage
  have hlen6 : 6 ≤ data.length := hlen
  have hguess : (guessing TCP_FIRST_PACKAGE_SIZE).activation keys {} data TCP_MAX_BOX_LEN =
      some ((guessing TCP_FIRST_PACKAGE_SIZE).guessPlain {} data false 0) :=
    activation_guess hlen
  cases hplain : isPlainFirstPackage data with
  | true =>
    rw [guessPlain, if_pos hplain, if_neg nofun] at hguess
    rw [runActivations_again_body hslots hdata (by omega) rfl hguess
      (framed_body rfl rfl (readUInt16_lt _ _)) rfl rfl]
    exact .plain hlen hplain
  | false =>
    rw [guessPlain, if_neg (by rw [hplain]; nofun), if_neg nofun] at hguess
    rw [runActivations_retry hslots hdata hguess]
    exact firstCall_mixHash keys hdata hslots hplain

end

/-! ## The body in parts -/

/-- `data` completes the box. -/
def Completes (ti : TcpInterface) (data : List UInt8) : Prop :=
  data ≠ [] ∧ ti.boxSize ≤ ti.cache.length + data.length

theorem bodyOutput_completes (h : ti.Completes data) :
    ti.bodyOutput firstParams data =
      { tcpInterface := { ti with unboxState := .readingLength, cache := [] }, firstParams
        boxes := [ti.cache ++ data.take (ti.boxSize - ti.cache.length)]
        used := ti.boxSize - ti.cache.length } := by
  rw [bodyOutput, if_neg h.1, if_pos h.2]

theorem bodyOutput_part (h : ¬ ti.Completes data) :
    ti.bodyOutput firstParams data =
      { tcpInterface := { ti with cache := ti.cache ++ data }, firstParams
        used := data.length } := by
  unfold bodyOutput
  by_cases hdata : data = []
  · rw [if_pos hdata, hdata, append_nil]
    rfl
  · rw [if_neg hdata, if_neg fun hle => h ⟨hdata, hle⟩]

/-- A part that does not complete the box changes nothing for the rest. -/
theorem bodyOutput_append (firstParams : TcpInterfaceFirstParams) (h : ¬ ti.Completes data)
    (rest : List UInt8) :
    ti.bodyOutput firstParams (data ++ rest) =
      counted data.length (({ ti with cache := ti.cache ++ data }).bodyOutput firstParams rest) := by
  have hlength : (ti.cache ++ data).length = ti.cache.length + data.length := length_append
  by_cases hdata : data = []
  · subst hdata
    simp [counted]
  by_cases hrest : rest = []
  · subst hrest
    rw [append_nil, bodyOutput_part h, bodyOutput, if_pos rfl]
    rfl
  have hpart : ti.cache.length + data.length < ti.boxSize :=
    Nat.lt_of_not_le fun hle => h ⟨hdata, hle⟩
  have hsame : ti.Completes (data ++ rest) ↔
      ({ ti with cache := ti.cache ++ data } : TcpInterface).Completes rest := by
    show _ ∧ ti.boxSize ≤ _ ↔ _ ∧ ti.boxSize ≤ (ti.cache ++ data).length + rest.length
    rw [hlength, length_append, Nat.add_assoc]
    exact and_congr_left' (by simp [hrest])
  by_cases hdone : ti.Completes (data ++ rest)
  · rw [bodyOutput_completes hdone, bodyOutput_completes (hsame.mp hdone)]
    have htake : (data ++ rest).take (ti.boxSize - ti.cache.length) =
        data ++ rest.take (ti.boxSize - (ti.cache ++ data).length) := by
      rw [take_append, take_of_length_le (by omega), hlength, Nat.sub_sub]
    have hused : ti.boxSize - ti.cache.length =
        data.length + (ti.boxSize - (ti.cache ++ data).length) := by omega
    simp only [counted, htake, append_assoc]
    rw [← hused]
  · rw [bodyOutput_part hdone, bodyOutput_part fun hafter => hdone (hsame.mpr hafter)]
    simp [counted, append_assoc]

theorem Framed.part (h : ti.Framed) (hunbox : ti.unboxState = .readingBody)
    (hpart : ¬ ti.Completes data) :
    ({ ti with cache := ti.cache ++ data } : TcpInterface).Framed := by
  refine ⟨fun hlength => absurd (hunbox.symm.trans hlength) nofun, fun _ => ?_, h.size⟩
  by_cases hdata : data = []
  · rw [hdata]
    simpa using h.body hunbox
  refine .inr ?_
  show (ti.cache ++ data).length < ti.boxSize
  rw [length_append]
  exact Nat.lt_of_not_le fun hle => hpart ⟨hdata, hle⟩

end TcpInterface

open TcpInterface

/-! ## Guesses -/

section

variable {keys : StackKeys} {ti : TcpInterface} {chunk : List UInt8} {chunks : List (List UInt8)}
  {output : UnboxOutput}

section

variable (hcall : ti.unboxParserPushData keys {} chunk TCP_MAX_BOX_LEN = some output)
include hcall

theorem firstGuess_last (h : output.result ≠ .success ∨ output.boxes ≠ [] ∨ chunks = []) :
    firstGuess keys ti chunk chunks = some { lastLength := chunk.length, last := output } := by
  cases chunks with
  | nil => simp only [firstGuess, hcall, Option.map_some]
  | cons =>
    have hstop : output.result ≠ .success ∨ output.boxes ≠ [] := by simpa using h
    simp only [firstGuess, hcall]
    rw [if_pos hstop]

theorem firstGuess_next {next : List UInt8}
    (hresult : output.result = .success) (hboxes : output.boxes = []) :
    firstGuess keys ti chunk (next :: chunks) =
      (firstGuess keys output.tcpInterface next chunks).map fun guess =>
        { guess with earlier := (chunk.length, output.used) :: guess.earlier } := by
  simp only [firstGuess, hcall]
  rw [if_neg (by simp [hresult, hboxes])]

theorem not_reportsUsed {guess : FirstGuess}
    (hresult : output.result = .success) (hboxes : output.boxes = [])
    (hused : output.used ≠ chunk.length) (hguess : firstGuess keys ti chunk chunks = some guess) :
    ¬ guess.ReportsUsed keys := by
  intro hreports
  cases chunks with
  | nil =>
    rw [firstGuess_last hcall (.inr (.inr rfl))] at hguess
    cases hguess
    exact hused (hreports.part hresult hboxes)
  | cons =>
    rw [firstGuess_next hcall hresult hboxes, Option.map_eq_some_iff] at hguess
    obtain ⟨rest, _, rfl⟩ := hguess
    exact hused (hreports.earlier _ mem_cons_self)

end

theorem push_body (keys : StackKeys) (data : List UInt8) (h : ti.Framed)
    (hstate : ti.state = .waitFirstPackage) (hunbox : ti.unboxState = .readingBody) :
    ti.unboxParserPushData keys {} data TCP_MAX_BOX_LEN = some (ti.bodyOutput {} data) :=
  runActivations_body h hstate hunbox (by decide)

theorem bodyOutput_fields (ti : TcpInterface) (firstParams : TcpInterfaceFirstParams)
    (data : List UInt8) :
    (ti.bodyOutput firstParams data).result = .success ∧
      (ti.bodyOutput firstParams data).firstParams = firstParams ∧
      (ti.bodyOutput firstParams data).tcpInterface.isCrypto = ti.isCrypto ∧
      (ti.bodyOutput firstParams data).tcpInterface.aesKey = ti.aesKey ∧
      (ti.bodyOutput firstParams data).tcpInterface.boxSize = ti.boxSize := by
  unfold bodyOutput
  split
  · exact ⟨rfl, rfl, rfl, rfl, rfl⟩
  · split <;> exact ⟨rfl, rfl, rfl, rfl, rfl⟩

/-- What the body of the box comes to in parts: every part is counted, and they come to what all of
them come to at once, but for the parameters that went with the header. -/
structure BodyGuess (whole : UnboxOutput) (guess : FirstGuess) : Prop where
  earlier : ∀ call ∈ guess.earlier, call.2 = call.1
  result : guess.last.result = .success
  firstParams : guess.last.firstParams = {}
  tcpInterface : guess.last.tcpInterface = whole.tcpInterface
  boxes : guess.last.boxes = whole.boxes
  part : guess.last.boxes = [] → guess.last.used = guess.lastLength
  box : guess.last.boxes ≠ [] → (guess.earlier.map Prod.fst).sum + guess.last.used = whole.used

variable {firstParams : TcpInterfaceFirstParams}

/-- More bytes do not change a box that is complete. -/
theorem bodyOutput_completes_append {data : List UInt8}
    (h : ti.Completes data) (rest : List UInt8) :
    ti.bodyOutput firstParams (data ++ rest) = ti.bodyOutput firstParams data := by
  have hle := h.2
  have hall : ti.Completes (data ++ rest) :=
    ⟨by simp [h.1], by rw [length_append]; omega⟩
  rw [bodyOutput_completes h, bodyOutput_completes hall, take_append_of_le_length (by omega)]

theorem bodyOutput_boxes (h : ti.Completes chunk) (firstParams : TcpInterfaceFirstParams) :
    (ti.bodyOutput firstParams chunk).boxes ≠ [] := by
  rw [bodyOutput_completes h]
  exact cons_ne_nil _ _

theorem firstGuess_body (keys : StackKeys) (ti : TcpInterface) (chunk : List UInt8)
    (chunks : List (List UInt8)) (h : ti.Framed) (hstate : ti.state = .waitFirstPackage)
    (hunbox : ti.unboxState = .readingBody) :
    ∃ guess, firstGuess keys ti chunk chunks = some guess ∧
      BodyGuess (ti.bodyOutput {} (chunk ++ chunks.flatten)) guess := by
  induction chunks generalizing ti chunk with
  | nil =>
    have hcall := push_body keys chunk h hstate hunbox
    obtain ⟨hresult, hparams, -⟩ := bodyOutput_fields ti {} chunk
    rw [flatten_nil, append_nil]
    refine ⟨_, firstGuess_last hcall (.inr (.inr rfl)), nofun, hresult, hparams, rfl, rfl,
      fun hnone => ?_, fun _ => Nat.zero_add _⟩
    have hpart : ¬ ti.Completes chunk := fun hdone => bodyOutput_boxes hdone {} hnone
    rw [bodyOutput_part hpart]
  | cons next chunks ih =>
    have hcall := push_body keys chunk h hstate hunbox
    obtain ⟨hresult, hparams, -⟩ := bodyOutput_fields ti {} chunk
    by_cases hdone : ti.Completes chunk
    · -- the box ends in this chunk, and what follows does not matter
      have hboxes := bodyOutput_boxes hdone {}
      rw [bodyOutput_completes_append hdone]
      exact ⟨_, firstGuess_last hcall (.inr (.inl hboxes)), nofun, hresult, hparams, rfl, rfl,
        fun hnone => absurd hnone hboxes, fun _ => Nat.zero_add _⟩
    rw [bodyOutput_part hdone] at hcall
    obtain ⟨guess, hguess, hbody⟩ := ih { ti with cache := ti.cache ++ chunk } next
      (h.part hunbox hdone) hstate hunbox
    rw [bodyOutput_append _ hdone, flatten_cons]
    refine ⟨_, (firstGuess_next hcall rfl rfl).trans (congrArg _ hguess), ?_, hbody.result,
      hbody.firstParams, hbody.tcpInterface, hbody.boxes, hbody.part, fun hboxes => ?_⟩
    · intro call hmem
      rcases mem_cons.mp hmem with rfl | hmem
      · rfl
      · exact hbody.earlier call hmem
    · show chunk.length + (guess.earlier.map Prod.fst).sum + guess.last.used =
        chunk.length + _
      rw [← hbody.box hboxes, Nat.add_assoc]

/-! ## Streams whose first chunk holds the header -/

/-- The header of the box is in the first chunk, and the parser has counted it. -/
structure HeaderRead (keys : StackKeys) (ti : TcpInterface) (firstParams : TcpInterfaceFirstParams)
    (header : Nat) : Prop where
  framed : ti.Framed
  state : ti.state = .waitFirstPackage
  unboxState : ti.unboxState = .readingBody
  cache : ti.cache = []
  size : (if firstParams.isStartWithExchangeKey then keys.keyType.keyBytes + BDT_MIX_HASH_LENGTH + 2
    else if ti.isCrypto then BDT_MIX_HASH_LENGTH + 2 else 2 + 2) = header

theorem bodyOutput_params (ti : TcpInterface) (firstParams : TcpInterfaceFirstParams)
    (data : List UInt8) :
    ti.bodyOutput firstParams data = { ti.bodyOutput {} data with firstParams } := by
  unfold bodyOutput
  split
  · rfl
  · split <;> rfl

variable {header : Nat} {first : List UInt8}

/-- The call that completes the box has used the header and the box. -/
theorem HeaderRead.counted_box
    {data box : List UInt8} (h : HeaderRead keys ti firstParams header) (hdone : ti.Completes data)
    (hbox : (ti.bodyOutput firstParams data).boxes.head? = some box) :
    (ti.bodyOutput firstParams data).used = box.length := by
  rw [bodyOutput_completes hdone] at hbox ⊢
  have hle := hdone.2
  rw [h.cache] at hbox hle ⊢
  cases hbox
  show ti.boxSize - 0 = ([] ++ data.take (ti.boxSize - 0)).length
  rw [nil_append, length_take, length_nil] at *
  omega

theorem HeaderRead.recognized_completes (h : HeaderRead keys ti firstParams header)
    (hfirst : accepted.unboxParserPushData keys {} first TCP_MAX_BOX_LEN =
      some (counted header (ti.bodyOutput firstParams (first.drop header))))
    (hwhole : accepted.unboxParserPushData keys {} (first ++ chunks.flatten) TCP_MAX_BOX_LEN =
      some (counted header (ti.bodyOutput firstParams (first.drop header ++ chunks.flatten))))
    (hdone : ti.Completes (first.drop header)) : Recognized keys first chunks := by
  have hboxes := bodyOutput_boxes hdone firstParams
  obtain ⟨-, hparams, hcrypto, -⟩ := bodyOutput_fields ti firstParams (first.drop header)
  rw [bodyOutput_completes_append hdone] at hwhole
  refine ⟨_, _, firstGuess_last hfirst (.inr (.inl hboxes)),
    firstGuess_last hwhole (.inr (.inr rfl)), rfl, nofun, fun _ hnone => absurd hnone hboxes,
    fun box _ hbox => ?_⟩
  have hused := h.counted_box hdone hbox
  show 0 + (header + (ti.bodyOutput firstParams (first.drop header)).used) =
    (if (ti.bodyOutput firstParams (first.drop header)).firstParams.isStartWithExchangeKey then _
      else if (ti.bodyOutput firstParams (first.drop header)).tcpInterface.isCrypto then _ else _) +
      box.length
  rw [hparams, hcrypto, hused, h.size, Nat.zero_add]

theorem recognized_guesses {parts whole : FirstGuess}
    (hparts : firstGuess keys .accepted first chunks = some parts)
    (hwhole : firstGuess keys .accepted (first ++ chunks.flatten) [] = some whole) :
    Recognized keys first chunks ↔ parts.firstBox = whole.firstBox ∧ parts.ReportsUsed keys := by
  constructor
  · rintro ⟨_, _, hp, hw, h⟩
    cases hparts.symm.trans hp
    cases hwhole.symm.trans hw
    exact h
  · exact fun h => ⟨parts, whole, hparts, hwhole, h⟩

/-- A box that ends in a call without its header goes with parameters that say nothing. -/
theorem firstBox_eq_iff (parts whole : FirstGuess)
    (hresult : parts.last.result = whole.last.result)
    (htcp : parts.last.tcpInterface = whole.last.tcpInterface)
    (hboxes : parts.last.boxes = whole.last.boxes) (hparams : parts.last.firstParams = {}) :
    parts.firstBox = whole.firstBox ↔ whole.last.boxes = [] ∨ whole.last.firstParams = {} := by
  unfold FirstGuess.firstBox
  rw [hresult, htcp, hboxes, hparams]
  cases hlast : whole.last.boxes with
  | nil => simp
  | cons => simp [eq_comm]

/-- Such a stream is recognized unless its box ends in a later chunk and the parameters of its
header are gone. -/
theorem HeaderRead.recognized_cases (h : HeaderRead keys ti firstParams header)
    (hheader : header ≤ first.length)
    (hfirst : accepted.unboxParserPushData keys {} first TCP_MAX_BOX_LEN =
      some (counted header (ti.bodyOutput firstParams (first.drop header))))
    (hwhole : accepted.unboxParserPushData keys {} (first ++ chunks.flatten) TCP_MAX_BOX_LEN =
      some (counted header (ti.bodyOutput firstParams ((first ++ chunks.flatten).drop header)))) :
    Recognized keys first chunks ↔ ti.Completes (first.drop header) ∨
      ¬ ti.Completes ((first ++ chunks.flatten).drop header) ∨ firstParams = {} := by
  rw [drop_append_of_le_length hheader] at hwhole ⊢
  by_cases hdone : ti.Completes (first.drop header)
  · exact iff_of_true (h.recognized_completes hfirst hwhole hdone) (.inl hdone)
  rw [bodyOutput_part hdone] at hfirst
  have hused : header + (first.drop header).length = first.length := by
    rw [length_drop]
    omega
  have hlast : firstGuess keys accepted _ [] = _ := firstGuess_last hwhole (.inr (.inr rfl))
  cases chunks with
  | nil =>
    have hall : first.drop header ++ [].flatten = first.drop header := append_nil _
    rw [recognized_guesses (firstGuess_last hfirst (.inr (.inr rfl))) hlast, hall,
      bodyOutput_part hdone]
    exact iff_of_true ⟨rfl, nofun, fun _ _ => hused, nofun⟩ (.inr (.inl hdone))
  | cons next chunks =>
    obtain ⟨guess, hguess, hbody⟩ := firstGuess_body keys
      { ti with cache := ti.cache ++ first.drop header } next chunks
      (h.framed.part h.unboxState hdone) h.state h.unboxState
    have hparts := (firstGuess_next hfirst rfl rfl).trans (congrArg _ hguess)
    rw [recognized_guesses hparts hlast]
    -- the calls behind the first one, seen from the header
    have hall := bodyOutput_append firstParams hdone (next :: chunks).flatten
    rw [bodyOutput_params { ti with cache := ti.cache ++ first.drop header }] at hall
    obtain ⟨hresult, hparams, hcrypto, -⟩ :=
      bodyOutput_fields ti firstParams (first.drop header ++ (next :: chunks).flatten)
    generalize hwholeBody : ti.bodyOutput firstParams (first.drop header ++
      (next :: chunks).flatten) = body at hall hlast hresult hparams hcrypto ⊢
    have hboxes : guess.last.boxes = body.boxes := by
      rw [hall]
      exact hbody.boxes
    have htcp : guess.last.tcpInterface = body.tcpInterface := by
      rw [hall]
      exact hbody.tcpInterface
    have hiff := firstBox_eq_iff
      { guess with earlier := (first.length, header + (first.drop header).length) :: guess.earlier }
      { lastLength := (first ++ (next :: chunks).flatten).length, last := counted header body }
      (hbody.result.trans hresult.symm) htcp hboxes hbody.firstParams
    refine ⟨fun hrecognized => .inr ?_, fun hor => ⟨hiff.mpr ?_, ?_⟩⟩
    · rcases hiff.mp hrecognized.1 with hnone | hempty
      · refine .inl fun hcompletes => bodyOutput_boxes hcompletes firstParams ?_
        rw [hwholeBody]
        exact hnone
      · exact .inr (hparams.symm.trans hempty)
    · rcases hor.resolve_left hdone with hpart | hempty
      · rw [bodyOutput_part hpart] at hwholeBody
        exact .inl (congrArg UnboxOutput.boxes hwholeBody.symm)
      · exact .inr (hparams.trans hempty)
    refine ⟨fun call hmem => ?_, fun _ => hbody.part, fun box _ hbox => ?_⟩
    · rcases mem_cons.mp hmem with rfl | hmem
      · exact hused
      · exact hbody.earlier call hmem
    -- the box is there, so its parameters are those of the header
    have hhead : guess.last.boxes.head? = some box := hbox
    have hsome : guess.last.boxes ≠ [] := by
      intro hnone
      rw [hnone] at hhead
      cases hhead
    have hcompletes : ti.Completes (first.drop header ++ (next :: chunks).flatten) := by
      by_contra hpart
      rw [bodyOutput_part hpart] at hwholeBody
      exact hsome (hboxes.trans (congrArg UnboxOutput.boxes hwholeBody.symm))
    have hempty : firstParams = {} :=
      (hor.resolve_left hdone).resolve_left fun hpart => hpart hcompletes
    have hcount : body.used = box.length := by
      rw [← hwholeBody]
      exact h.counted_box hcompletes (by rw [hwholeBody, ← hboxes, hhead])
    have hrest := hbody.box hsome
    have hsplit := congrArg UnboxOutput.used hall
    have hsize := h.size
    rw [hempty] at hsize
    show first.length + (guess.earlier.map Prod.fst).sum + guess.last.used =
      (if guess.last.firstParams.isStartWithExchangeKey then _
        else if guess.last.tcpInterface.isCrypto then _ else _) + box.length
    rw [hbody.firstParams, htcp, hcrypto, hsize, ← hcount, hsplit, ← hused]
    show header + (first.drop header).length + _ + _ = header + ((first.drop header).length +
      (bodyOutput _ {} (next ++ chunks.flatten)).used)
    rw [← hrest]
    omega

/-! ## Headers in a prefix -/

section

variable {data : List UInt8} {r : Option UnboxOutput}

theorem readUInt16_append {offset : Nat} (h : offset + 2 ≤ data.length) (rest : List UInt8) :
    readUInt16 (data ++ rest) offset = readUInt16 data offset := by
  unfold readUInt16
  rw [getD_append _ _ _ _ (by omega), getD_append _ _ _ _ (by omega)]

theorem isPlainFirstPackage_append (h : TCP_FIRST_PACKAGE_SIZE ≤ data.length)
    (rest : List UInt8) : isPlainFirstPackage (data ++ rest) = isPlainFirstPackage data := by
  have hlen : 6 ≤ data.length := h
  unfold isPlainFirstPackage
  rw [readUInt16_append (by omega), readUInt16_append (by omega),
    getD_append _ _ _ _ (by omega), getD_append _ _ _ _ (by omega)]

/-- The header decides what a first call does, once it is long enough. -/
theorem TcpInterface.FirstCall.unique {other : Option UnboxOutput} (h : FirstCall keys data r)
    (hother : FirstCall keys data other) (hlen : TCP_FIRST_PACKAGE_SIZE ≤ data.length)
    (hlong : isPlainFirstPackage data = false → TCP_FIRST_EXCHANGE_SIZE ≤ data.length) :
    r = other := by
  have hcached : ¬ (data.length < TCP_FIRST_PACKAGE_SIZE ∨
      isPlainFirstPackage data = false ∧ data.length < TCP_FIRST_EXCHANGE_SIZE) := by
    rintro (hshort | ⟨hplain, hshort⟩)
    · omega
    · exact absurd (hlong hplain) (Nat.not_le.mpr hshort)
  -- two different headers disagree in one of the checks
  cases h <;> cases hother <;> first
    | exact absurd ‹_ ∨ _› hcached
    | rfl
    | simp_all <;> omega

end

/-! ## Recognition -/

/-- A first call that has counted less than its chunk, without a box. -/
theorem not_recognized {first : List UInt8}
    (hcall : accepted.unboxParserPushData keys {} first TCP_MAX_BOX_LEN = some output)
    (hresult : output.result = .success) (hboxes : output.boxes = [])
    (hused : output.used ≠ first.length) : ¬ Recognized keys first chunks := by
  rintro ⟨parts, _, hparts, _, _, hreports⟩
  exact not_reportsUsed hcall hresult hboxes hused hparts hreports

theorem not_recognized_known {first aesKey remotePeerid : List UInt8}
    (hlen : TCP_FIRST_MIXHASH_SIZE ≤ first.length)
    (hcall : accepted.unboxParserPushData keys {} first TCP_MAX_BOX_LEN =
      some (counted 20 ((knownBody aesKey first).bodyOutput { remotePeerid } (first.drop 10)))) :
    ¬ Recognized keys first chunks := by
  by_cases hdone : (knownBody aesKey first).Completes (first.drop 10)
  · rw [bodyOutput_completes hdone] at hcall
    rintro ⟨parts, _, hparts, _, _, hreports⟩
    rw [firstGuess_last hcall (.inr (.inl (cons_ne_nil _ _)))] at hparts
    cases hparts
    have hle := hdone.2
    have hbox := hreports.box _ rfl rfl
    change 0 + (20 + ((knownBody aesKey first).boxSize - 0)) = 10 +
      ([] ++ (first.drop 10).take ((knownBody aesKey first).boxSize - 0)).length at hbox
    change (knownBody aesKey first).boxSize ≤ 0 + (first.drop 10).length at hle
    rw [nil_append, length_take] at hbox
    omega
  rw [bodyOutput_part hdone] at hcall
  refine not_recognized hcall rfl rfl ?_
  show 20 + (first.drop 10).length ≠ first.length
  rw [length_drop]
  omega

theorem headerRead_plain (data : List UInt8) : HeaderRead keys (plainBody data) {} 4 :=
  ⟨framed_body rfl rfl (readUInt16_lt _ _), rfl, rfl, rfl, rfl⟩

theorem headerRead_exchange (aesKey data : List UInt8) :
    HeaderRead keys (exchangeBody keys aesKey data) { isStartWithExchangeKey := true }
      (keys.keyType.keyBytes + 8 + 2) :=
  ⟨framed_body rfl rfl (readUInt16_lt _ _), rfl, rfl, rfl, rfl⟩

theorem HeaderRead.completes_iff {firstParams : TcpInterfaceFirstParams} {header : Nat}
    (h : HeaderRead keys ti firstParams header) (data : List UInt8) :
    ti.Completes (data.drop header) ↔ header < data.length ∧ header + ti.boxSize ≤ data.length := by
  unfold Completes
  rw [h.cache, length_nil, length_drop, Ne, drop_eq_nil_iff]
  omega

end

/-- The guess of the first box does not depend on where the stream is cut, and reports the bytes
used, exactly when the first chunk holds the header of a box without encryption or of a box behind
an exchanged key. -/
theorem recognized_iff (keys : StackKeys) (first : List UInt8) (hfirst : first ≠ [])
    (chunks : List (List UInt8)) :
    Recognized keys first chunks ↔
      HeaderInFirstChunk keys first (first ++ chunks.flatten).length := by
  have hcall := firstCall keys hfirst
  have hall := firstCall keys (show first ++ chunks.flatten ≠ [] by simp [hfirst])
  have hpos : 0 < first.length := length_pos_iff.mpr hfirst
  have hmore : first.length ≤ (first ++ chunks.flatten).length := by
    rw [length_append]
    omega
  generalize hr : accepted.unboxParserPushData keys {} first TCP_MAX_BOX_LEN = r at hcall
  cases hcall with
  | cached hshort hresult hboxes =>
    refine iff_of_false (not_recognized hr hresult hboxes (by omega)) ?_
    rintro ⟨hlen, hplain | ⟨hlarge, -⟩⟩
    · rcases hshort with hshort | ⟨hno, -⟩
      · omega
      · cases hno.symm.trans hplain
    · rcases hshort with hshort | ⟨-, hshort⟩ <;> omega
  | plain hlen hplain =>
    have hplain' := (isPlainFirstPackage_append hlen chunks.flatten).trans hplain
    have hwhole := hall.unique (.plain (Nat.le_trans hlen hmore) hplain') (Nat.le_trans hlen hmore)
      fun hno => by cases hno.symm.trans hplain'
    have hlen6 : 6 ≤ first.length := hlen
    have hbody : plainBody (first ++ chunks.flatten) = plainBody first := by
      unfold plainBody
      rw [readUInt16_append (by omega)]
    rw [hbody] at hwhole
    exact iff_of_true (((headerRead_plain first).recognized_cases (by omega) hr hwhole).mpr
      (.inr (.inr rfl))) ⟨hlen, .inl hplain⟩
  | known hlen hplain hfind =>
    refine iff_of_false (not_recognized_known hlen hr) ?_
    rintro ⟨-, hyes | ⟨-, hnone, -⟩⟩
    · cases hyes.symm.trans hplain
    · cases hnone.symm.trans hfind
  | beyond _ hplain _ hbeyond =>
    refine iff_of_false ?_ ?_
    · rintro ⟨parts, _, hparts, -⟩
      cases chunks <;> simp [firstGuess, hr] at hparts
    rintro ⟨-, hyes | ⟨-, -, hkey, hdecrypts⟩⟩
    · cases hyes.symm.trans hplain
    · obtain ⟨aesKey, hdecrypt, hshort⟩ := hbeyond hkey
      have hheader := (hdecrypts aesKey hdecrypt).1
      omega
  | error hlen hplain hfind hkey hdecrypt =>
    have hlen6 : TCP_FIRST_PACKAGE_SIZE ≤ first.length := Nat.le_trans (by decide) hlen
    have hlen8 : BDT_MIX_HASH_LENGTH ≤ first.length := Nat.le_trans (by decide) hlen
    have hwhole := hall.unique (.error (Nat.le_trans hlen hmore)
      ((isPlainFirstPackage_append hlen6 _).trans hplain)
      (by rw [take_append_of_le_length hlen8, hfind]) (Nat.le_trans hkey hmore)
      (by rw [take_append_of_le_length hkey, hdecrypt])) (Nat.le_trans hlen6 hmore)
      fun _ => Nat.le_trans hlen hmore
    refine iff_of_true ⟨_, _, firstGuess_last hr (.inl nofun),
      firstGuess_last hwhole (.inl nofun), rfl, nofun, nofun, nofun⟩
      ⟨hlen6, .inr ⟨hlen, hfind, hkey, fun aesKey hsome => ?_⟩⟩
    cases hsome.symm.trans hdecrypt
  | @mismatch aesKey hlen hplain hfind hkey hdecrypt hcheck =>
    refine iff_of_false (not_recognized hr rfl rfl (by show 0 ≠ _; omega)) ?_
    rintro ⟨-, hyes | ⟨-, -, -, hdecrypts⟩⟩
    · cases hyes.symm.trans hplain
    · cases (hdecrypts aesKey hdecrypt).2.1.symm.trans hcheck
  | @exchange aesKey hlen hplain hfind hkey hdecrypt hcheck =>
    have hlen6 : TCP_FIRST_PACKAGE_SIZE ≤ first.length := Nat.le_trans (by decide) hlen
    have hlen8 : BDT_MIX_HASH_LENGTH ≤ first.length := Nat.le_trans (by decide) hlen
    have hkey' : keys.keyType.keyBytes ≤ first.length := by omega
    have hwhole := hall.unique (.exchange (Nat.le_trans hlen hmore)
      ((isPlainFirstPackage_append hlen6 _).trans hplain)
      (by rw [take_append_of_le_length hlen8, hfind]) (Nat.le_trans hkey hmore)
      (by rw [take_append_of_le_length hkey', hdecrypt])
      (by rw [drop_append_of_le_length hkey',
        take_append_of_le_length (by rw [length_drop]; omega), hcheck])) (Nat.le_trans hlen6 hmore)
      fun _ => Nat.le_trans hlen hmore
    have hbody : exchangeBody keys aesKey (first ++ chunks.flatten) =
        exchangeBody keys aesKey first := by
      unfold exchangeBody
      rw [readUInt16_append (by omega)]
    rw [hbody] at hwhole
    have hread : HeaderRead keys (exchangeBody keys aesKey first) _ _ :=
      headerRead_exchange aesKey first
    rw [hread.recognized_cases hkey hr hwhole, hread.completes_iff first,
      hread.completes_iff (first ++ chunks.flatten)]
    show _ ∨ ¬ (keys.keyType.keyBytes + 8 + 2 < _ ∧
      keys.keyType.keyBytes + 8 + 2 + readUInt16 first (keys.keyType.keyBytes + 8) ≤ _) ∨ _ ↔ _
    constructor
    · intro hor
      refine ⟨hlen6, .inr ⟨hlen, hfind, hkey', fun aesKey' hsome => ?_⟩⟩
      cases hdecrypt.symm.trans hsome
      refine ⟨hkey, hcheck, hor.imp_right fun hor => ?_⟩
      rcases hor with hpart | hparams
      · omega
      · cases hparams
    · rintro ⟨-, hyes | ⟨-, -, -, hdecrypts⟩⟩
      · cases hyes.symm.trans hplain
      · exact (hdecrypts aesKey hdecrypt).2.2.imp_right fun hpart => .inl (by omega)

/-- A package of 41 bytes without encryption, cut behind its header. -/
theorem recognized_iff_two_chunks :
    Recognized .empty [0, 128, 41, 0, 41, 0, 7] [List.replicate 20 7, List.replicate 18 7] :=
  (recognized_iff .empty _ (cons_ne_nil _ _) _).mpr ⟨by decide, .inl (by decide)⟩

/-- The same package, with its header cut behind the third byte. The first call counts nothing, and
the second one counts 45 bytes of a chunk of 42, so it skips three bytes of whatever follows. -/
theorem plain_header_cut :
    firstGuess .empty .accepted [0, 128, 41] [[0, 41, 0] ++ List.replicate 39 7] =
        some
          { earlier := [(3, 0)], lastLength := 42
            last :=
              { tcpInterface := { state := .waitFirstPackage, boxSize := 41 }, firstParams := {}
                boxes := [[41, 0] ++ List.replicate 39 7], used := 45 } } ∧
      ¬ Recognized .empty [0, 128, 41] [[0, 41, 0] ++ List.replicate 39 7] := by
  have hguess : firstGuess .empty .accepted [0, 128, 41] [[0, 41, 0] ++ List.replicate 39 7] =
      some
        { earlier := [(3, 0)], lastLength := 42
          last :=
            { tcpInterface := { state := .waitFirstPackage, boxSize := 41 }, firstParams := {}
              boxes := [[41, 0] ++ List.replicate 39 7], used := 45 } } := by
    decide +kernel
  refine ⟨hguess, ?_⟩
  rintro ⟨parts, _, hparts, _, _, hreports⟩
  rw [hguess] at hparts
  cases hparts
  exact absurd (hreports.earlier (3, 0) mem_cons_self) nofun

end Bdt
