import Bdt.Base.Sorted
import Bdt.Base.Word
import Bdt.Connection.Config
import Bdt.Protocol.SessionDataPackage

/-!
# The send queue

A model of `SendQueue.imp.inl`. The queue keeps the user's buffers (`SendingBuffers`), cuts them
into blocks, and holds every block that has been handed out and not yet acknowledged on one of two
lists, `flightBlocks` and `lostBlocks` (`SendContext`).

Stream positions are natural numbers: a stream of 2^64 bytes is out of reach. The 32-bit `flight`
counter and the 8-bit `dupAckTimes` counter wrap as in C. A block's `data` pointer is the bytes it
points to. The fields named `underflow` are not in the source: they record that a counter was asked
to go below zero.
-/

namespace Bdt

open Base

/-- A user's buffer in the send queue, `SendQueueSendBuffer`. `offsetStreamPos` is the position of
the next byte to cut into a block. -/
structure SendQueueSendBuffer where
  data : List UInt8
  startStreamPos : Nat
  offsetStreamPos : Nat
  endStreamPos : Nat
  userData : Nat
  deriving DecidableEq, Repr

/-- `buffer->len`. -/
def SendQueueSendBuffer.len (buffer : SendQueueSendBuffer) : Nat :=
  buffer.data.length

/-- A range of the stream that was handed out in one package, `SendQueueSendBlock`. -/
structure SendQueueSendBlock where
  startStreamPos : Nat
  endStreamPos : Nat
  sendTime : Nat
  data : List UInt8
  deriving DecidableEq, Repr

variable (ctx : SendContext) (queue : SendQueue) (block : SendQueueSendBlock)

/-- `block->endStreamPos - block->startStreamPos`. -/
def SendQueueSendBlock.len : Nat :=
  block.endStreamPos - block.startStreamPos

/-- `SendBlockCheckState`. -/
inductive SendBlockCheckState where
  | lost
  | ack
  | prev
  | outOfRange
  deriving DecidableEq, Repr

/-- The `curr` pointer of the sending buffers. A queued buffer is identified by its start position;
`dangling` is the pointer left behind when the buffer it pointed to is moved to another list. -/
inductive SendCursor where
  | null
  | buffer (startStreamPos : Nat)
  | dangling
  deriving DecidableEq, Repr

/-- The blocks handed out and the acknowledgement state, `sendContext`. -/
structure SendContext where
  ackStreamPos : Nat
  streamPos : Nat
  lostBlocks : List SendQueueSendBlock := []
  lost : Nat := 0
  flightBlocks : List SendQueueSendBlock := []
  flight : Nat := 0
  latestAckStreamPos : Nat := 0
  prevDupAckStreamPos : Nat := 0
  dupAckTimes : Nat := 0
  underflow : Bool := false
  deriving DecidableEq, Repr

/-- The users' buffers, `sendingBuffers`. -/
structure SendingBuffers where
  streamPos : Nat
  unSendLength : Nat := 0
  curr : SendCursor := .null
  buffers : List SendQueueSendBuffer := []
  underflow : Bool := false
  deriving DecidableEq, Repr

/-- `SendQueue`, without the send cache, which no operation uses. -/
structure SendQueue where
  sendContext : SendContext
  sendingBuffers : SendingBuffers
  mtu : Nat
  deriving DecidableEq, Repr

/-- `SendQueueCreate`. -/
def SendQueue.create (streamPos : Nat) (config : BdtPackageConnectionConfig) : SendQueue where
  sendContext := { ackStreamPos := streamPos, streamPos := streamPos }
  sendingBuffers := { streamPos := streamPos }
  mtu := config.mtu

/-! ## Buffers -/

namespace SendingBuffers

/-- `SendQueueAddBuffer`, for arguments that pass its null checks. -/
def addBuffer (s : SendingBuffers) (data : List UInt8) (userData : Nat) : SendingBuffers :=
  { s with
    buffers := s.buffers ++
      [{ data := data, startStreamPos := s.streamPos, offsetStreamPos := s.streamPos,
         endStreamPos := s.streamPos + data.length, userData := userData }]
    unSendLength := s.unSendLength + data.length
    curr := if s.curr = .null then .buffer s.streamPos else s.curr
    streamPos := s.streamPos + data.length }

/-- The buffer `curr` points to, none when the pointer is null or its buffer is not queued. -/
def deref (s : SendingBuffers) : Option SendQueueSendBuffer :=
  match s.curr with
  | .buffer start => s.buffers.find? (fun b => b.startStreamPos = start)
  | _ => none

/-- `BfxListNext` from the buffer that starts at `start`. -/
def nextBuffer (start : Nat) : List SendQueueSendBuffer → SendCursor
  | [] => .null
  | b :: rest =>
    if b.startStreamPos = start then
      match rest with
      | [] => .null
      | next :: _ => .buffer next.startStreamPos
    else nextBuffer start rest

/-- Set the offset of the buffer that starts at `start`. -/
def setOffset (start offset : Nat) (buffers : List SendQueueSendBuffer) :
    List SendQueueSendBuffer :=
  buffers.map fun b => if b.startStreamPos = start then { b with offsetStreamPos := offset } else b

/-- The block that `SendQueueGenerateBlock` cuts off the current buffer, at most `len` bytes. -/
def cutBlock (curr : SendQueueSendBuffer) (len : Nat) : SendQueueSendBlock :=
  let leftLen := curr.endStreamPos - curr.offsetStreamPos
  { startStreamPos := curr.offsetStreamPos
    endStreamPos := curr.offsetStreamPos + min leftLen len
    sendTime := 0
    data := (curr.data.drop (curr.len - leftLen)).take (min leftLen len) }

/-- The buffers after that block is cut: `curr` moves on when nothing is left of its buffer. -/
def advance (s : SendingBuffers) (curr : SendQueueSendBuffer) (len : Nat) : SendingBuffers :=
  let block := cutBlock curr len
  { s with
    buffers := setOffset curr.startStreamPos block.endStreamPos s.buffers
    curr := if curr.endStreamPos - curr.offsetStreamPos ≤ len then
        nextBuffer curr.startStreamPos s.buffers
      else s.curr
    unSendLength := s.unSendLength - block.len
    underflow := s.underflow || decide (s.unSendLength < block.len) }

/-- `SendQueueGenerateBlock`. `none` when the code follows a null or stale `curr` pointer, or its
`assert(leftLen)` fails. -/
def generateBlock (s : SendingBuffers) (len : Nat) :
    Option (Option SendQueueSendBlock × SendingBuffers) :=
  if s.unSendLength = 0 then some (none, s)
  else
    match s.deref with
    | none => none
    | some curr =>
      if curr.endStreamPos - curr.offsetStreamPos = 0 then none
      else some (some (cutBlock curr len), s.advance curr len)

/-- The loop of `SendQueuePopCompleteBuffers`: the buffers popped, those that stay, and `curr`,
which is left dangling when its own buffer is popped. -/
def popLoop (ackStreamPos : Nat) :
    List SendQueueSendBuffer → SendCursor →
      List SendQueueSendBuffer × List SendQueueSendBuffer × SendCursor
  | [], curr => ([], [], curr)
  | b :: rest, curr =>
    if b.endStreamPos > ackStreamPos then ([], b :: rest, curr)
    else
      let curr := if curr = .buffer b.startStreamPos then .dangling else curr
      let (popped, stay, curr) := popLoop ackStreamPos rest curr
      (b :: popped, stay, curr)

end SendingBuffers

/-! ## Blocks -/

/-- The walk of `CheckBlockStateByAck` over the sack array, which ends at the first range of length
zero. -/
def checkBlockStateBySack (block : SendQueueSendBlock) : List BdtStreamRange → SendBlockCheckState
  | [] => .outOfRange
  | range :: rest =>
    if range.length = 0 then .outOfRange
    else if block.endStreamPos ≤ range.pos then .prev
    else if block.startStreamPos ≥ range.pos ∧
        block.endStreamPos ≤ range.pos + range.length then .ack
    else checkBlockStateBySack block rest

/-- `CheckBlockStateByAck`. -/
def checkBlockStateByAck (ackStreamPos : Nat)
    (sackArray : Option (List BdtStreamRange)) : SendBlockCheckState :=
  if block.endStreamPos ≤ ackStreamPos then .ack
  else if block.startStreamPos < ackStreamPos then .lost
  else checkBlockStateBySack block (sackArray.getD [])

/-- `sackArray && sackArray[0].length`. -/
def hasSack (sackArray : Option (List BdtStreamRange)) : Bool :=
  match sackArray with
  | some (range :: _) => range.length ≠ 0
  | _ => false

namespace SendContext

/-- `flight -= (uint32_t)len`. -/
def subFlight (len : Nat) : SendContext :=
  { ctx with
    flight := wordSub 32 ctx.flight (word 32 len)
    underflow := ctx.underflow || decide (ctx.flight < len) }

/-- `flight += (uint32_t)len`. -/
def addFlight (len : Nat) : SendContext :=
  { ctx with flight := word 32 (ctx.flight + len) }

/-- `lost -= len`. -/
def subLost (len : Nat) : SendContext :=
  { ctx with
    lost := ctx.lost - len
    underflow := ctx.underflow || decide (ctx.lost < len) }

/-- `lost += len`. -/
def addLost (len : Nat) : SendContext :=
  { ctx with lost := ctx.lost + len }

/-- The duplicate-ack bookkeeping at the head of `SendQueueConfirmRange`. -/
def countDupAck (ackStreamPos : Nat) : SendContext :=
  if ctx.prevDupAckStreamPos < ackStreamPos then
    if ctx.latestAckStreamPos < ackStreamPos then
      { ctx with latestAckStreamPos := ackStreamPos, dupAckTimes := 1 }
    else if ctx.latestAckStreamPos = ackStreamPos then
      { ctx with dupAckTimes := word 8 (ctx.dupAckTimes + 1) }
    else ctx
  else ctx

/-- The block that the loop of `SendQueueConfirmRange` looks at next, whether it is in flight, and
the blocks left after it. -/
def nextBlock :
    List SendQueueSendBlock → List SendQueueSendBlock →
      Option (SendQueueSendBlock × Bool × List SendQueueSendBlock × List SendQueueSendBlock)
  | [], [] => none
  | f :: fs, [] => some (f, true, fs, [])
  | [], l :: ls => some (l, false, [], ls)
  | f :: fs, l :: ls =>
    if f.startStreamPos < l.startStreamPos then some (f, true, fs, l :: ls)
    else some (l, false, f :: fs, ls)

/-- The state of one block: the fourth ack of its start position marks it lost, otherwise the ack
and the sack array decide. -/
def checkBlock
    (sackArray : Option (List BdtStreamRange)) : SendBlockCheckState × SendContext :=
  if block.startStreamPos = ctx.latestAckStreamPos ∧ ctx.dupAckTimes = 4 then
    (.lost, { ctx with prevDupAckStreamPos := ctx.latestAckStreamPos, latestAckStreamPos := 0,
                       dupAckTimes := 0 })
  else (checkBlockStateByAck block ctx.ackStreamPos sackArray, ctx)

/-- The blocks not looked at go back behind those that were kept. -/
def putBack (flightBlocks lostBlocks : List SendQueueSendBlock) : SendContext :=
  { ctx with flightBlocks := ctx.flightBlocks ++ flightBlocks
             lostBlocks := ctx.lostBlocks ++ lostBlocks }

/-- `SEND_BLOCK_CHECK_STATE_ACK`: the block leaves its list. -/
def ackBlock (bFlight : Bool) : SendContext :=
  if bFlight then ctx.subFlight block.len else ctx.subLost block.len

/-- `SEND_BLOCK_CHECK_STATE_PREV`: the block stays where it is. -/
def keepBlock (bFlight : Bool) : SendContext :=
  if bFlight then { ctx with flightBlocks := ctx.flightBlocks ++ [block] }
  else { ctx with lostBlocks := ctx.lostBlocks ++ [block] }

/-- `SEND_BLOCK_CHECK_STATE_LOST`: the block goes to the lost list. -/
def loseBlock (bFlight : Bool) : SendContext :=
  let ctx := { ctx with lostBlocks := ctx.lostBlocks ++ [block] }
  if bFlight then (ctx.subFlight block.len).addLost block.len else ctx

/-- The loop of `SendQueueConfirmRange`. `flightBlocks` and `lostBlocks` are the local lists the
blocks were swapped into; `count` bounds the iterations by the number of blocks. -/
def confirmLoop (sackArray : Option (List BdtStreamRange)) :
    Nat → SendContext → List SendQueueSendBlock → List SendQueueSendBlock → Nat → SendContext × Nat
  | 0, ctx, flightBlocks, lostBlocks, outAcked => (ctx.putBack flightBlocks lostBlocks, outAcked)
  | count + 1, ctx, flightBlocks, lostBlocks, outAcked =>
    match nextBlock flightBlocks lostBlocks with
    | none => (ctx.putBack flightBlocks lostBlocks, outAcked)
    | some (block, bFlight, flightRest, lostRest) =>
      match ctx.checkBlock block sackArray with
      | (.outOfRange, ctx) => (ctx.putBack flightBlocks lostBlocks, outAcked)
      | (.ack, ctx) =>
        confirmLoop sackArray count (ctx.ackBlock block bFlight) flightRest lostRest
          (word 32 (outAcked + block.len))
      | (.prev, ctx) =>
        confirmLoop sackArray count (ctx.keepBlock block bFlight) flightRest lostRest outAcked
      | (.lost, ctx) =>
        confirmLoop sackArray count (ctx.loseBlock block bFlight) flightRest lostRest outAcked

/-- `SendQueueConfirmRange` past its early return: the new context and `outAcked`. -/
def confirm (ackStreamPos : Nat) (sackArray : Option (List BdtStreamRange)) : SendContext × Nat :=
  let ctx := ctx.countDupAck ackStreamPos
  let ctx := { ctx with ackStreamPos := max ctx.ackStreamPos ackStreamPos }
  confirmLoop sackArray (ctx.flightBlocks.length + ctx.lostBlocks.length)
    { ctx with flightBlocks := [], lostBlocks := [] } ctx.flightBlocks ctx.lostBlocks 0

/-- `SendQueueMoveLostToFlight`: insert before the first flight block that starts later. -/
def moveLostToFlight (lostBlock : SendQueueSendBlock) (flightBlocks : List SendQueueSendBlock) :
    List SendQueueSendBlock :=
  insertBy (fun b => lostBlock.startStreamPos < b.startStreamPos) lostBlock flightBlocks

/-- `SendQueueFillPayload` for a lost block: it is sent again. -/
def resend (lostRest : List SendQueueSendBlock)
    (now : Nat) : SendContext :=
  { ((ctx.addFlight block.len).subLost block.len) with
    lostBlocks := lostRest
    flightBlocks := moveLostToFlight { block with sendTime := now } ctx.flightBlocks }

/-- `SendQueueFillPayload` for a block that was just cut. -/
def sendNew (now : Nat) : SendContext :=
  { ctx.addFlight block.len with
    flightBlocks := ctx.flightBlocks ++ [{ block with sendTime := now }]
    streamPos := ctx.streamPos + block.len }

/-- `MoveFlightToLost`: insert each block before the first lost block it ends at or before. The
search for the next block goes on from where the last one was inserted. -/
def moveFlightToLost : List SendQueueSendBlock → List SendQueueSendBlock → List SendQueueSendBlock
  | [], queue => queue
  | blockInsert :: blocks, queue =>
    queue.takeWhile (fun b => !decide (blockInsert.endStreamPos ≤ b.startStreamPos)) ++
      blockInsert ::
        moveFlightToLost blocks
          (queue.dropWhile (fun b => !decide (blockInsert.endStreamPos ≤ b.startStreamPos)))

/-- The test of `SendQueueMarkRangeTimeout`; the unsigned subtraction wraps when the clock is behind
the block's send time. -/
def isTimeout (force : Bool) (rto now : Nat) (block : SendQueueSendBlock) : Bool :=
  force || decide (wordSub 64 now block.sendTime > rto)

/-- `SendQueueMarkRangeTimeout`: the new context and the number of bytes marked lost. -/
def markRangeTimeout (force : Bool) (rto now : Nat) : SendContext × Nat :=
  let timedOut := ctx.flightBlocks.filter (isTimeout force rto now)
  let totalTimeout := word 32 (timedOut.map SendQueueSendBlock.len).sum
  let ctx := { ctx with flightBlocks := ctx.flightBlocks.filter (fun b => !isTimeout force rto now b) }
  if totalTimeout > 0 then
    ((({ ctx with lostBlocks := moveFlightToLost timedOut ctx.lostBlocks }).subFlight
      totalTimeout).addLost totalTimeout, totalTimeout)
  else (ctx, totalTimeout)

end SendContext

/-! ## The operations of the queue -/

/-- What a fill hands out: the fields it writes into the package. -/
structure Fill where
  streamPos : Nat
  payload : Option (List UInt8)
  deriving DecidableEq, Repr

namespace SendQueue

/-- `SendQueueAddBuffer`; `none` is `BFX_RESULT_INVALID_PARAM`. -/
def addBuffer (queue : SendQueue) (data : List UInt8) (userData : Nat) : Option SendQueue :=
  if data = [] then none
  else some { queue with sendingBuffers := queue.sendingBuffers.addBuffer data userData }

/-- `SendQueueAddBuffer` returns `BFX_RESULT_PENDING`, not `BFX_RESULT_SUCCESS`: bytes were waiting
before. -/
def addsPending : Bool := decide (0 < queue.sendingBuffers.unSendLength)

/-- `SendQueueAddCloseOperation`: the end position of the stream, and whether all of it has been
acknowledged (`BFX_RESULT_SUCCESS`). -/
def addCloseOperation : Nat × Bool :=
  (queue.sendingBuffers.streamPos,
    decide (queue.sendingBuffers.streamPos = queue.sendContext.ackStreamPos))

/-- `SendQueueConfirmRange`: the new queue and `outAcked`, which is zero exactly when the code
returns `BFX_RESULT_NOT_CHANGED`. -/
def confirmRange (ackStreamPos : Nat)
    (sackArray : Option (List BdtStreamRange)) : SendQueue × Nat :=
  if ackStreamPos < queue.sendContext.ackStreamPos ∧ ¬ hasSack sackArray then (queue, 0)
  else
    let (ctx, outAcked) := queue.sendContext.confirm ackStreamPos sackArray
    ({ queue with sendContext := ctx }, outAcked)

/-- `SendQueueFillPayload`: resend the first lost block, or else cut and send a new one. The flag is
false for `BFX_RESULT_NOT_CHANGED`; `none` as in `generateBlock`. -/
def fillPayload (now : Nat) : Option (Bool × Fill × SendQueue) :=
  match queue.sendContext.lostBlocks with
  | [] =>
    match queue.sendingBuffers.generateBlock queue.mtu with
    | none => none
    | some (some block, sendingBuffers) =>
      some (true, { streamPos := block.startStreamPos, payload := some block.data },
        { queue with
          sendingBuffers := sendingBuffers
          sendContext := queue.sendContext.sendNew block now })
    | some (none, sendingBuffers) =>
      some (false, { streamPos := queue.sendContext.streamPos, payload := none },
        { queue with sendingBuffers := sendingBuffers })
  | block :: lostRest =>
    some (true, { streamPos := block.startStreamPos, payload := some block.data },
      { queue with sendContext := queue.sendContext.resend block lostRest now })

/-- `SendQueueFillPayloadFromNew`, which the send drive only calls with a null payload: it reads the
next send position. -/
def fillPayloadFromNew : Nat :=
  queue.sendContext.streamPos

/-- `SendQueuePopCompleteBuffers`: the buffers that are wholly acknowledged, and the queue. -/
def popCompleteBuffers : List SendQueueSendBuffer × SendQueue :=
  let (popped, stay, curr) :=
    SendingBuffers.popLoop queue.sendContext.ackStreamPos queue.sendingBuffers.buffers
      queue.sendingBuffers.curr
  (popped, { queue with sendingBuffers := { queue.sendingBuffers with buffers := stay, curr := curr } })

/-- `SendQueuePopAllBuffers`, which leaves `curr` at a buffer that is no longer queued. -/
def popAllBuffers : List SendQueueSendBuffer × SendQueue :=
  (queue.sendingBuffers.buffers,
    { queue with
      sendingBuffers :=
        { queue.sendingBuffers with
          buffers := []
          curr := if queue.sendingBuffers.curr = .null then .null else .dangling } })

/-- `SendQueueMarkRangeTimeout`. -/
def markRangeTimeout (queue : SendQueue) (force : Bool) (rto now : Nat) : SendQueue × Nat :=
  let (ctx, totalTimeout) := queue.sendContext.markRangeTimeout force rto now
  ({ queue with sendContext := ctx }, totalTimeout)

@[simp] theorem markRangeTimeout_sendContext (force : Bool) (rto now : Nat) :
    (queue.markRangeTimeout force rto now).1.sendContext =
      (queue.sendContext.markRangeTimeout force rto now).1 := rfl

/-- `SendQueueGetFilght`. -/
def getFilght : Nat :=
  queue.sendContext.flight

/-- `SendQueueGetUnsendSize`. -/
def getUnsendSize : Nat :=
  queue.sendingBuffers.unSendLength

/-- `SendQueueGetLostSize`. -/
def getLostSize : Nat :=
  queue.sendContext.lost

end SendQueue

end Bdt
