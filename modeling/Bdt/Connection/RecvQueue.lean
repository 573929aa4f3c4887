import Bdt.Base.Word
import Bdt.Protocol.SessionDataPackage

/-!
# The receive queue

A model of `RecvQueue.imp.inl`. `RecvStream` holds the users' buffers, which lie one behind another
from `readStreamPos` on and receive the payload in place. `RecvBlocks` holds the position up to
which the stream is received without a gap, and the ranges received beyond it.

A user's buffer is its address and its contents. Blocks have an address too, because `latest` points
to one of them.
-/

namespace Bdt

open Base

/-- `RecvPackageType`. -/
inductive RecvPackageType where
  | none
  | old
  | outOfBuffer
  | inOrder
  | lostOrder
  | part
  deriving DecidableEq, Repr

/-- `RecvBlockRelativePos`, without the value that no function returns. -/
inductive RecvBlockRelativePos where
  | prev
  | intersect
  | include
  | next
  deriving DecidableEq, Repr

/-- `RecvQueueRecvBlock`. -/
structure RecvQueueRecvBlock where
  address : Nat
  startStreamPos : Nat
  endStreamPos : Nat
  deriving DecidableEq, Repr

/-- `RecvQueueRecvBuffer`. The two positions are zero until the buffer is used. -/
structure RecvQueueRecvBuffer where
  address : Nat
  data : List UInt8
  startStreamPos : Nat := 0
  endStreamPos : Nat := 0
  userData : Nat
  deriving DecidableEq, Repr

/-- `buffer->len`. -/
def RecvQueueRecvBuffer.len (buffer : RecvQueueRecvBuffer) : Nat :=
  buffer.data.length

/-- `recvBlock`. -/
structure RecvBlocks where
  ackStreamPos : Nat
  latest : Option Nat := none
  blocks : List RecvQueueRecvBlock := []
  nextAddress : Nat := 0
  deriving DecidableEq, Repr

/-- `recvStream`. -/
structure RecvStream where
  readStreamPos : Nat
  endStreamPos : Nat
  buffers : List RecvQueueRecvBuffer := []
  deriving DecidableEq, Repr

/-- `RecvQueue`. -/
structure RecvQueue where
  recvBlock : RecvBlocks
  recvStream : RecvStream
  deriving DecidableEq, Repr

/-- `RecvQueueCreate`. -/
def RecvQueue.create (streamPos : Nat) : RecvQueue where
  recvBlock := { ackStreamPos := streamPos }
  recvStream := { readStreamPos := streamPos, endStreamPos := streamPos }

/-! ## Saving the payload -/

/-- `memcpy` into a buffer at an offset. -/
def overwrite (data : List UInt8) (offset : Nat) (bytes : List UInt8) : List UInt8 :=
  data.take offset ++ bytes ++ data.drop (offset + bytes.length)

namespace RecvStream

/-- The copy loop of `RecvQueueSavePayload`, from the first buffer that holds `streamPos`: the
number of bytes copied, the buffers, and the new `endStreamPos` of the stream. -/
def copyLoop : Nat → Nat → List UInt8 → Nat → List RecvQueueRecvBuffer →
    Nat × List RecvQueueRecvBuffer × Nat
  | _, _, _, endStreamPos, [] => (0, [], endStreamPos)
  | bufferBeginPos, streamPos, data, endStreamPos, buffer :: rest =>
    if data = [] then (0, buffer :: rest, endStreamPos)
    else
      let nCopy := min data.length (buffer.len - (streamPos - bufferBeginPos))
      let buffer' : RecvQueueRecvBuffer :=
        { buffer with
          data := overwrite buffer.data (streamPos - bufferBeginPos) (data.take nCopy)
          endStreamPos := max buffer.endStreamPos (streamPos + nCopy) }
      let (save, buffers, endStreamPos) :=
        copyLoop (bufferBeginPos + buffer.len) (streamPos + nCopy) (data.drop nCopy)
          (max endStreamPos buffer'.endStreamPos) rest
      (nCopy + save, buffer' :: buffers, endStreamPos)

/-- The search of `RecvQueueSavePayload` for the buffer that holds `streamPos`, and the copy. -/
def saveFrom : Nat → Nat → List UInt8 → Nat → List RecvQueueRecvBuffer →
    Nat × List RecvQueueRecvBuffer × Nat
  | _, _, _, endStreamPos, [] => (0, [], endStreamPos)
  | bufferBeginPos, streamPos, data, endStreamPos, buffer :: rest =>
    if bufferBeginPos ≤ streamPos ∧ streamPos < bufferBeginPos + buffer.len then
      copyLoop bufferBeginPos streamPos data endStreamPos (buffer :: rest)
    else
      let (save, buffers, endStreamPos) :=
        saveFrom (bufferBeginPos + buffer.len) streamPos data endStreamPos rest
      (save, buffer :: buffers, endStreamPos)

/-- The part of `RecvQueueSavePayload` after the bytes that were already read. -/
def saveUnread (s : RecvStream) (streamPos : Nat) (data : List UInt8) : Nat × RecvStream :=
  let (save, buffers, endStreamPos) :=
    saveFrom s.readStreamPos streamPos data s.endStreamPos s.buffers
  (save, { s with buffers := buffers, endStreamPos := endStreamPos })

/-- `RecvQueueSavePayload`: the number of bytes at the front of the payload that are already read or
are now in a buffer. -/
def savePayload (s : RecvStream) (streamPos : Nat) (data : List UInt8) : Nat × RecvStream :=
  if streamPos < s.readStreamPos then
    let skip := s.readStreamPos - streamPos
    if skip < data.length then
      let (save, s') := s.saveUnread s.readStreamPos (data.drop skip)
      (skip + save, s')
    else (data.length, s)
  else s.saveUnread streamPos data

/-- The loop of `RecvQueuePopCompleteBuffers`: the buffers popped and the stream. -/
def popLoop (force : Bool) (ackStreamPos endStreamPos : Nat) :
    Nat → List RecvQueueRecvBuffer → List RecvQueueRecvBuffer × Nat × List RecvQueueRecvBuffer
  | readStreamPos, [] => ([], readStreamPos, [])
  | readStreamPos, buffer :: rest =>
    if (buffer.endStreamPos = readStreamPos + buffer.len ∧ buffer.endStreamPos ≤ ackStreamPos) ∨
        (force ∧ buffer.endStreamPos ≠ 0 ∧ endStreamPos ≤ ackStreamPos) then
      let (popped, readStreamPos', rest) :=
        popLoop force ackStreamPos endStreamPos buffer.endStreamPos rest
      ({ buffer with startStreamPos := readStreamPos } :: popped, readStreamPos', rest)
    else ([], readStreamPos, buffer :: rest)

end RecvStream

/-! ## The ranges received -/

/-- `RecvQueueRecvBlockCalcRelaPos`. Ranges that touch intersect. -/
def calcRelaPos (baseStart baseEnd otherStart otherEnd : Nat) : RecvBlockRelativePos :=
  let maxOffset := max baseEnd otherEnd - min baseStart otherStart
  let totallen := baseEnd - baseStart + (otherEnd - otherStart)
  let maxLen := max (baseEnd - baseStart) (otherEnd - otherStart)
  if maxOffset ≤ totallen then
    if maxOffset = maxLen then .include else .intersect
  else if otherStart < baseStart then .prev
  else .next

/-- The assertion of `RecvQueueRecvBlockCalcRelaPos`. -/
def calcRelaPosAsserts (baseStart baseEnd otherStart otherEnd : Nat) : Bool :=
  max (baseEnd - baseStart) (otherEnd - otherStart) ≤ max baseEnd otherEnd - min baseStart otherStart

/-- The result is `INCLUDE` or `INTERSECT`. -/
def RecvBlockRelativePos.overlaps : RecvBlockRelativePos → Bool
  | .include => true
  | .intersect => true
  | _ => false

namespace RecvBlocks

/-- One direction of `RecvQueueBlocksMerge`: absorb the neighbours of a block, nearest first, as
long as they overlap it. `latest` is cleared when its block is absorbed. -/
def mergeRun (block : RecvQueueRecvBlock) (latest : Option Nat) :
    List RecvQueueRecvBlock → RecvQueueRecvBlock × Option Nat × List RecvQueueRecvBlock
  | [] => (block, latest, [])
  | n :: rest =>
    if (calcRelaPos block.startStreamPos block.endStreamPos n.startStreamPos
        n.endStreamPos).overlaps then
      mergeRun
        { block with
          startStreamPos := min block.startStreamPos n.startStreamPos
          endStreamPos := max block.endStreamPos n.endStreamPos }
        (if latest = some n.address then none else latest) rest
    else (block, latest, n :: rest)

/-- `RecvQueueBlocksMerge` for a block between `before` and `after`. -/
def blocksMerge (r : RecvBlocks) (latest : Option Nat) (before : List RecvQueueRecvBlock)
    (block : RecvQueueRecvBlock) (after : List RecvQueueRecvBlock) : RecvBlocks :=
  let (block, latest, after) := mergeRun block latest after
  let (block, latest, before) := mergeRun block latest before.reverse
  { r with latest := latest, blocks := before.reverse ++ block :: after }

/-- `RecvQueueRecvBlockNew`, made the latest block. -/
def newBlock (r : RecvBlocks) (startStreamPos endStreamPos : Nat)
    (place : RecvQueueRecvBlock → List RecvQueueRecvBlock) : RecvBlocks :=
  { r with
    latest := some r.nextAddress
    nextAddress := r.nextAddress + 1
    blocks := place ⟨r.nextAddress, startStreamPos, endStreamPos⟩ }

/-- The loop of `RecvQueueAddToBlocks`. `before` are the blocks in front of the one looked at, and
`prevBlock` tells whether the loop has already gone past one. The flag of the result is the return
value: the range is old. -/
def addLoop (r : RecvBlocks) (startStreamPos endStreamPos : Nat) :
    List RecvQueueRecvBlock → Bool → List RecvQueueRecvBlock → Bool × RecvBlocks
  | before, _, [] => (false, r.newBlock startStreamPos endStreamPos fun n => before ++ [n])
  | before, prevBlock, block :: rest =>
    let joined : RecvQueueRecvBlock :=
      { block with
        startStreamPos := min startStreamPos block.startStreamPos
        endStreamPos := max endStreamPos block.endStreamPos }
    match calcRelaPos block.startStreamPos block.endStreamPos startStreamPos endStreamPos with
    | .include =>
      if block.startStreamPos ≤ startStreamPos ∧ endStreamPos ≤ block.endStreamPos then (true, r)
      else (false, r.blocksMerge (some block.address) before joined rest)
    | .intersect => (false, r.blocksMerge r.latest before joined rest)
    | .next => addLoop r startStreamPos endStreamPos (before ++ [block]) true rest
    | .prev =>
      (false, r.newBlock startStreamPos endStreamPos fun n =>
        if prevBlock then before ++ n :: block :: rest else n :: (before ++ block :: rest))

/-- `RecvQueueAddToBlocks`, which starts at the latest block unless the range ends before it. -/
def addToBlocks (r : RecvBlocks) (startStreamPos endStreamPos : Nat) : Bool × RecvBlocks :=
  match r.blocks.find? (fun b => r.latest = some b.address) with
  | some latest =>
    if endStreamPos < latest.startStreamPos then
      r.addLoop startStreamPos endStreamPos [] false r.blocks
    else
      r.addLoop startStreamPos endStreamPos
        (r.blocks.takeWhile fun b => r.latest ≠ some b.address) false
        (r.blocks.dropWhile fun b => r.latest ≠ some b.address)
  | none => r.addLoop startStreamPos endStreamPos [] false r.blocks

/-- `RecvQueueUpdateStreamPos`. -/
def updateStreamPos (r : RecvBlocks) (startStreamPos endStreamPos : Nat) :
    RecvPackageType × RecvBlocks :=
  if endStreamPos ≤ r.ackStreamPos then (.old, r)
  else if startStreamPos ≤ r.ackStreamPos then
    match r.blocks with
    | [] => (.inOrder, { r with ackStreamPos := endStreamPos })
    | block :: rest =>
      if (calcRelaPos block.startStreamPos block.endStreamPos startStreamPos
          endStreamPos).overlaps then
        (.inOrder, { r with
          ackStreamPos := max endStreamPos block.endStreamPos
          latest := if r.latest = some block.address then none else r.latest
          blocks := rest })
      else (.inOrder, { r with ackStreamPos := endStreamPos })
  else
    let (bOld, r') := r.addToBlocks startStreamPos endStreamPos
    (if bOld then .old else .lostOrder, r')

/-- The range that a block contributes to the sack array. -/
def sackRange (block : RecvQueueRecvBlock) : BdtStreamRange :=
  ⟨block.startStreamPos, word 32 (block.endStreamPos - block.startStreamPos)⟩

/-- The loop of `RecvQueueGetAckInfo` over the blocks: the ranges written, and whether the latest
block is one of them. -/
def sackLoop (latest : Option Nat) (count : Nat) :
    Nat → Bool → List RecvQueueRecvBlock → List BdtStreamRange × Bool
  | _, bAddLatestBlock, [] => ([], bAddLatestBlock)
  | index, bAddLatestBlock, block :: rest =>
    if index < count then
      let bAddLatestBlock := bAddLatestBlock || latest == some block.address
      if index + 1 = count - 1 ∧ !bAddLatestBlock then ([sackRange block], bAddLatestBlock)
      else
        let (ranges, bAddLatestBlock) := sackLoop latest count (index + 1) bAddLatestBlock rest
        (sackRange block :: ranges, bAddLatestBlock)
    else ([], bAddLatestBlock)

/-- The sack array of `RecvQueueGetAckInfo`; `none` is the null pointer. -/
def sackArray (r : RecvBlocks) : Option (List BdtStreamRange) :=
  if r.blocks = [] then none
  else
    let count := min r.blocks.length PACKAGE_SESSIONDATA_SACK_RANGE_MAX_COUNT
    let (ranges, bAddLatestBlock) := sackLoop r.latest count 0 r.latest.isNone r.blocks
    if bAddLatestBlock then some ranges
    else
      some (ranges ++ ((r.blocks.find? fun b => r.latest = some b.address).map sackRange).toList)

end RecvBlocks

/-! ## The operations of the queue -/

namespace RecvQueue

/-- `RecvQueueWriteData`. -/
def writeData (queue : RecvQueue) (streamPos : Nat) (payload : List UInt8) :
    RecvPackageType × RecvQueue :=
  if streamPos + payload.length ≤ queue.recvBlock.ackStreamPos then (.old, queue)
  else if payload = [] then (.inOrder, queue)
  else
    let (saveLen, recvStream) := queue.recvStream.savePayload streamPos payload
    if saveLen = 0 then (.outOfBuffer, { queue with recvStream := recvStream })
    else
      let (recvType, recvBlock) := queue.recvBlock.updateStreamPos streamPos (streamPos + saveLen)
      (if saveLen < payload.length then .part else recvType, { recvBlock, recvStream })

/-- `RecvQueuePopCompleteBuffers`. -/
def popCompleteBuffers (queue : RecvQueue) (force : Bool) : List RecvQueueRecvBuffer × RecvQueue :=
  let (popped, readStreamPos, buffers) :=
    RecvStream.popLoop force queue.recvBlock.ackStreamPos queue.recvStream.endStreamPos
      queue.recvStream.readStreamPos queue.recvStream.buffers
  (popped, { queue with recvStream := { queue.recvStream with readStreamPos, buffers } })

/-- `RecvQueuePopAllBuffers`. -/
def popAllBuffers (queue : RecvQueue) : List RecvQueueRecvBuffer × RecvQueue :=
  (queue.recvStream.buffers, { queue with recvStream := { queue.recvStream with buffers := [] } })

/-- `RecvQueueGetAckInfo`: the ack position and the sack array. -/
def getAckInfo (queue : RecvQueue) : Nat × Option (List BdtStreamRange) :=
  (queue.recvBlock.ackStreamPos, queue.recvBlock.sackArray)

/-- `RecvQueueAddBuffer`; `none` is `BFX_RESULT_INVALID_PARAM` or `BFX_RESULT_ALREADY_EXISTS`. -/
def addBuffer (queue : RecvQueue) (address : Nat) (data : List UInt8) (userData : Nat) :
    Option RecvQueue :=
  if data = [] then none
  else if queue.recvStream.buffers.any (fun b => b.address = address) then none
  else
    some { queue with
      recvStream := { queue.recvStream with
        buffers := queue.recvStream.buffers ++ [{ address, data, userData }] } }

end RecvQueue

end Bdt
