import Bdt.Global.CryptoToolKit
import Bdt.Global.Peerid

/-!
# The box parser of a tcp interface

A model of `TcpInterfaceUnboxParserPushData` in `TcpInterface.imp.inl`, in every state of the
interface. A chunk that the socket received is cut into boxes; what is left of a header or of a box
stays in the cache. One activation of the function either returns or calls itself behind the bytes
that it has read; `unboxParserPushData` runs the activations.

`none` stands for an assertion that fails and for a read or a length beyond the received bytes.
-/

namespace Bdt

def TCP_INTERFACE_CACHE_SIZE : Nat := 64 * 1024
def TCP_FIRST_PACKAGE_SIZE : Nat := 6
def TCP_FIRST_MIXHASH_SIZE : Nat := BDT_MIX_HASH_LENGTH + 2
def TCP_FIRST_EXCHANGE_SIZE : Nat := 138
def TCP_FIRST_BLCOK_SIZE : Nat := 138
def TCP_FIRST_PACKAGE_MAX_SIZE : Nat := 4096
def TCP_FIRST_PACKAGE_MIN_SIZE : Nat := 40
def TCP_MAX_BOX_LEN : Nat := 32
def BDT_PROTOCOL_UDP_MAGIC_NUM_0 : UInt8 := 0x00
def BDT_PROTOCOL_UDP_MAGIC_NUM_1 : UInt8 := 0x80

/-- `Bdt_TcpInterfaceState`. -/
inductive TcpInterfaceState where
  | none
  | connecting
  | establish
  | waitFirstPackage
  | waitFirstResp
  | package
  | stream
  | streamRecvClosed
  | streamClosing
  | closed
  deriving DecidableEq, Repr

/-- `TcpIntefaceUnboxState`. -/
inductive UnboxState where
  | readingLength
  | readingBody
  deriving DecidableEq, Repr

/-- The results of the parser: `BFX_RESULT_SUCCESS` and `BFX_RESULT_INVALID_FORMAT`. -/
inductive UnboxResult where
  | success
  | invalidFormat
  deriving DecidableEq, Repr

/-- The members of `Bdt_TcpInterface` that the parser uses. `cache` is the first `cacheLength` bytes
of the cache. -/
structure TcpInterface where
  state : TcpInterfaceState
  cache : List UInt8 := []
  isCrypto : Bool := false
  aesKey : List UInt8 := []
  firstBlockSize : Nat := TCP_FIRST_PACKAGE_SIZE
  unboxState : UnboxState := .readingLength
  boxSize : Nat := 0
  deriving DecidableEq, Repr

/-- `TcpInterfaceFirstParams`. -/
structure TcpInterfaceFirstParams where
  isStartWithExchangeKey : Bool := false
  remotePeerid : List UInt8 := List.replicate BDT_PEERID_LENGTH 0
  deriving DecidableEq, Repr

/-- `BfxBufferReadUInt16` at an offset. -/
def readUInt16 (data : List UInt8) (offset : Nat) : Nat :=
  (data.getD offset 0).toNat + 256 * (data.getD (offset + 1) 0).toNat

/-- What the parser hands to its caller. `used` is what `*pUsed` has grown by. -/
structure UnboxOutput where
  result : UnboxResult := .success
  tcpInterface : TcpInterface
  firstParams : TcpInterfaceFirstParams
  boxes : List (List UInt8) := []
  used : Nat := 0
  deriving DecidableEq, Repr

/-- One activation of the parser: it returns, or it calls itself `skip` bytes further on, with the
slots that its own box leaves. -/
inductive UnboxActivation where
  | leave (output : UnboxOutput)
  | again (output : UnboxOutput) (skip : Nat)
  deriving DecidableEq, Repr

namespace TcpInterface

/-! ## The cache -/

variable (keys : StackKeys) (ti : TcpInterface) (firstParams : TcpInterfaceFirstParams)

/-- `TcpInterfaceAppendCache`. -/
def appendCache (data : List UInt8) : Option TcpInterface :=
  if ti.cache.length + data.length < TCP_INTERFACE_CACHE_SIZE then
    some { ti with cache := ti.cache ++ data }
  else none

/-- `TcpInterfaceTryFillCache`, with the number of bytes that it copied. -/
def tryFillCache (targetLength : Nat) (data : List UInt8) : Option (TcpInterface × Nat) :=
  if data.length + ti.cache.length ≥ targetLength then
    if targetLength < ti.cache.length then none
    else
      let copysize := targetLength - ti.cache.length
      (ti.appendCache (data.take copysize)).map fun ti => (ti, copysize)
  else (ti.appendCache data).map fun ti => (ti, data.length)

/-! ## The first package of an accepted interface -/

/-- A package without encryption: magic number, length, and the length of its first package, which
is not longer. The command type behind them is not looked at. -/
def isPlainFirstPackage (pData : List UInt8) : Bool :=
  pData.getD 0 0 = BDT_PROTOCOL_UDP_MAGIC_NUM_0 ∧ pData.getD 1 0 = BDT_PROTOCOL_UDP_MAGIC_NUM_1 ∧
    readUInt16 pData 2 < TCP_FIRST_PACKAGE_MAX_SIZE ∧
    TCP_FIRST_PACKAGE_MIN_SIZE < readUInt16 pData 2 ∧ readUInt16 pData 4 ≤ readUInt16 pData 2

/-- The guess with `TCP_FIRST_PACKAGE_SIZE` bytes. `pData` is the cache when the header came in
parts, and `readed` is what this chunk added to it. -/
def guessPlain (pData : List UInt8)
    (cached : Bool) (readed : Nat) : UnboxActivation :=
  if isPlainFirstPackage pData then
    let ti := { ti with
      isCrypto := false, boxSize := readUInt16 pData 2, unboxState := .readingBody }
    if cached then
      -- `*pUsed += readed` stands before the test and again behind it
      .again
        { tcpInterface := { ti with cache := ti.cache.drop (2 + 2) }, firstParams
          used := readed + readed }
        readed
    else .again { tcpInterface := ti, firstParams, used := readed + 4 } 4
  else
    let ti := { ti with firstBlockSize := TCP_FIRST_MIXHASH_SIZE }
    if cached then .again { tcpInterface := ti, firstParams, used := readed } readed
    else .again { tcpInterface := ti, firstParams } 0

/-- The guess with `TCP_FIRST_MIXHASH_SIZE` bytes. The key is looked up with the bytes of the chunk,
also when the header is in the cache. -/
def guessMixHash
    (data pData : List UInt8) (cached : Bool) (readed : Nat) : Option UnboxActivation :=
  if data.length < BDT_MIX_HASH_LENGTH then none
  else
    match keys.findByMixHash (data.take BDT_MIX_HASH_LENGTH) with
    | some (aesKey, remotePeerid) =>
      let readed := BDT_MIX_HASH_LENGTH + 2
      let ti := { ti with
        aesKey, isCrypto := true, boxSize := readUInt16 pData BDT_MIX_HASH_LENGTH
        unboxState := .readingBody }
      let ti := if cached then { ti with cache := ti.cache.drop (BDT_MIX_HASH_LENGTH + 2) } else ti
      -- either way `*pUsed += readed` is there twice
      some (.again
        { tcpInterface := ti, firstParams := { firstParams with remotePeerid }
          used := readed + readed }
        readed)
    | none =>
      let ti := { ti with firstBlockSize := TCP_FIRST_EXCHANGE_SIZE }
      if cached then some (.again { tcpInterface := ti, firstParams, used := readed } readed)
      else some (.again { tcpInterface := ti, firstParams } 0)

/-- The guess with `TCP_FIRST_EXCHANGE_SIZE` bytes. The length of the stream behind the key,
`TCP_FIRST_BLCOK_SIZE - inLen`, has no sign: with the longer keys it bounds nothing. -/
def guessExchange
    (pData : List UInt8) (cached : Bool) (readed : Nat) : Option UnboxActivation :=
  let inLen := keys.keyType.keyBytes
  if pData.length < inLen then none
  else
    match keys.rsaDecrypt (pData.take inLen) with
    | none => some (.leave { result := .invalidFormat, tcpInterface := ti, firstParams })
    | some aesKey =>
      let olen := aesKey.length
      let ti := { ti with aesKey }
      if pData.length < inLen + 8 + 2 then none
      else if keys.checkAesKeyHash aesKey ((pData.drop inLen).take 8) then
        let firstParams := { firstParams with isStartWithExchangeKey := true }
        let ti := { ti with
          boxSize := readUInt16 pData (inLen + 8), isCrypto := true, unboxState := .readingBody }
        if cached then
          some (.again
            { tcpInterface := { ti with cache := ti.cache.drop (olen + 8 + 2) }, firstParams
              used := readed }
            readed)
        else
          let readed := inLen + 8 + 2
          some (.again { tcpInterface := ti, firstParams, used := readed } readed)
      else some (.leave { tcpInterface := ti, firstParams })

/-- `BDT_TCP_UNBOX_STATE_READING_LENGTH` in `BDT_TCP_INTERFACE_STATE_WAIT_FIRST_PACKAGE`, once
`pData` has `firstBlockSize` bytes. -/
def guess
    (data pData : List UInt8) (cached : Bool) (readed : Nat) : Option UnboxActivation :=
  if ti.firstBlockSize = TCP_FIRST_PACKAGE_SIZE then
    some (ti.guessPlain firstParams pData cached readed)
  else if ti.firstBlockSize = TCP_FIRST_MIXHASH_SIZE then
    ti.guessMixHash keys firstParams data pData cached readed
  else if ti.firstBlockSize = TCP_FIRST_EXCHANGE_SIZE then
    ti.guessExchange keys firstParams pData cached readed
  else some (.leave { tcpInterface := ti, firstParams })

/-- `BDT_TCP_UNBOX_STATE_READING_LENGTH` in `BDT_TCP_INTERFACE_STATE_WAIT_FIRST_PACKAGE`. A header
that is not complete goes to the cache, and `*pUsed` stays as it is. -/
def firstReadingLength
    (data : List UInt8) : Option UnboxActivation :=
  if 0 < ti.cache.length then
    match ti.tryFillCache ti.firstBlockSize data with
    | none => none
    | some (ti, readed) =>
      if ti.cache.length = ti.firstBlockSize then
        ti.guess keys firstParams data ti.cache true readed
      else some (.leave { tcpInterface := ti, firstParams })
  else if data.length < ti.firstBlockSize then
    (ti.appendCache data).map fun ti => .leave { tcpInterface := ti, firstParams }
  else ti.guess keys firstParams data data false 0

/-- `BDT_TCP_UNBOX_STATE_READING_BODY` in `BDT_TCP_INTERFACE_STATE_WAIT_FIRST_PACKAGE`. -/
def firstReadingBody
    (data : List UInt8) : Option UnboxActivation :=
  if ti.cache.length ≠ 0 then
    match ti.tryFillCache ti.boxSize data with
    | none => none
    | some (ti, copysize) =>
      if ti.cache.length = ti.boxSize then
        some (.leave
          { tcpInterface := { ti with unboxState := .readingLength, cache := [] }, firstParams
            boxes := [ti.cache], used := copysize })
      else some (.leave { tcpInterface := ti, firstParams, used := copysize })
  else if data.length ≥ ti.boxSize then
    some (.leave
      { tcpInterface := { ti with unboxState := .readingLength }, firstParams
        boxes := [data.take ti.boxSize], used := ti.boxSize })
  else
    (ti.appendCache data).map fun ti =>
      .leave { tcpInterface := ti, firstParams, used := data.length }

/-! ## Boxes with a length in front -/

/-- `BDT_TCP_UNBOX_STATE_READING_LENGTH` in the other states that read boxes. -/
def readingLength (data : List UInt8) : Option UnboxActivation :=
  if 0 < ti.cache.length then
    if ti.cache.length ≠ 1 then none
    else
      let cache := ti.cache ++ data.take 1
      some (.again
        { tcpInterface :=
            { ti with boxSize := readUInt16 cache 0, cache := [], unboxState := .readingBody }
          firstParams, used := 1 }
        1)
  else if data.length > 1 then
    some (.again
      { tcpInterface :=
          { ti with boxSize := readUInt16 data 0, cache := [], unboxState := .readingBody }
        firstParams, used := 2 }
      2)
  else (ti.appendCache data).map fun ti => .leave { tcpInterface := ti, firstParams, used := 1 }

/-- Behind a complete box: `BDT_TCP_INTERFACE_STATE_WAIT_FIRST_RESP` takes one box at a time, the
other states go on as long as there is a slot. -/
def nextBox (slots : Nat) (output : UnboxOutput) : UnboxActivation :=
  if output.tcpInterface.state = .waitFirstResp then .leave output
  else if 1 < slots then .again output output.used
  else .leave output

/-- `BDT_TCP_UNBOX_STATE_READING_BODY` in the other states that read boxes. -/
def readingBody (data : List UInt8)
    (slots : Nat) : Option UnboxActivation :=
  if ti.cache.length ≠ 0 then
    match ti.tryFillCache ti.boxSize data with
    | none => none
    | some (ti, copysize) =>
      if ti.cache.length ≥ ti.boxSize then
        some (nextBox slots
          { tcpInterface := { ti with unboxState := .readingLength, cache := [] }, firstParams
            boxes := [ti.cache], used := copysize })
      else some (.leave { tcpInterface := ti, firstParams, used := copysize })
  else if data.length ≥ ti.boxSize then
    some (nextBox slots
      { tcpInterface := { ti with unboxState := .readingLength }, firstParams
        boxes := [data.take ti.boxSize], used := ti.boxSize })
  else
    (ti.appendCache data).map fun ti =>
      .leave { tcpInterface := ti, firstParams, used := data.length }

/-! ## The parser -/

/-- One activation of `TcpInterfaceUnboxParserPushData`, for `data` that is not empty. -/
def activation
    (data : List UInt8) (slots : Nat) : Option UnboxActivation :=
  match ti.state, ti.unboxState with
  | .waitFirstPackage, .readingLength => ti.firstReadingLength keys firstParams data
  | .waitFirstPackage, .readingBody => ti.firstReadingBody firstParams data
  | .package, .readingLength
  | .stream, .readingLength
  | .waitFirstResp, .readingLength => ti.readingLength firstParams data
  | .package, .readingBody
  | .stream, .readingBody
  | .waitFirstResp, .readingBody => ti.readingBody firstParams data slots
  | _, _ => some (.leave { tcpInterface := ti, firstParams })

/-- Run the activations of the parser, at most `fuel` of them. -/
def runActivations (keys : StackKeys) : Nat → TcpInterface → TcpInterfaceFirstParams → List UInt8 →
    Nat → Option UnboxOutput
  | 0, _, _, _, _ => none
  | fuel + 1, ti, firstParams, data, slots =>
    if slots = 0 then none
    else if data = [] then some { tcpInterface := ti, firstParams }
    else
      match ti.activation keys firstParams data slots with
      | none => none
      | some (.leave output) => some output
      | some (.again output skip) =>
        if data.length < skip then none
        else
          (runActivations keys fuel output.tcpInterface output.firstParams (data.drop skip)
            (slots - output.boxes.length)).map fun rest =>
              { rest with
                boxes := output.boxes ++ rest.boxes
                used := output.used + rest.used }

/-- `TcpInterfaceUnboxParserPushData`: an activation reads a byte, or it goes from one guess to the
next or from the body of a box to the length of the next one. -/
def unboxParserPushData
    (data : List UInt8) (slots : Nat) : Option UnboxOutput :=
  runActivations keys (2 * data.length + 4) ti firstParams data slots

end TcpInterface

end Bdt
