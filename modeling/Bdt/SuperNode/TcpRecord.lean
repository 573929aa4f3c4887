import Bdt.Base.Reader
import Bdt.Base.Transition

/-!
# Records of a tcp stream

A model of `tcp_record.ts`: the two encoders, which give records to a callback that takes as many of
their bytes as it wants, and the two decoders. The answers of the callback are given with each call of
a method, one for each record that the method offers; a method that offers more has no result. The
bytes of a buffer do not change, so that `zeroCopy` makes no difference.
-/

namespace Bdt

open Base

/-- A `Buffer`: its bytes, and where they begin in the memory behind it. -/
structure NodeBuffer where
  byteOffset : Nat
  bytes : List UInt8

/-- `slice` with one argument; a negative one counts from the end. -/
def sliceFrom (bytes : List UInt8) (start : Int) : List UInt8 :=
  if start < 0 then bytes.drop (bytes.length - start.natAbs) else bytes.drop start.toNat

/-- The cipher with a key. `decrypt` has no result where `final` throws. -/
structure RecordCipher where
  encrypt : List UInt8 → List UInt8
  decrypt : List UInt8 → Option (List UInt8)
  inverts : ∀ data, decrypt (encrypt data) = some data

/-- What an encoder and its decoder are created with; without a cipher they are a `NoneRecordEncoder`
and a `NoneRecordDecoder`. -/
structure RecordOptions where
  recordSize : Nat
  cipher : Option RecordCipher

/-- The members of an encoder. Those behind `remain` are of the `EncryptRecordEncoder`. -/
structure RecordEncoder where
  closed : Bool := false
  remain : Option (List UInt8) := none
  naglingTimer : Bool := false
  pending : List (List UInt8) := []
  pendingSize : Nat := 0

/-- An encoder after a method, with the bytes that the callback has taken, and the size that `push`
returns. -/
structure RecordCalls where
  encoder : RecordEncoder
  emitted : List UInt8 := []
  size : Nat := 0
  /-- The callback was called with an empty buffer. -/
  ended : Bool := false

/-- How many bytes of a record the callback takes. -/
def takenOf (answer : Nat) (record : List UInt8) : Nat :=
  min answer record.length

/-! ## The encoders -/

variable (options : RecordOptions) (encoder : RecordEncoder) (cipher : RecordCipher)

/-- `continue`, the same in both. -/
def RecordEncoder.continue (answers : List Nat) : Option RecordCalls :=
  match encoder.remain with
  | none => some { encoder }
  | some record =>
    match answers with
    | [] => none
    | answer :: _ =>
      let done := takenOf answer record
      if done < record.length then
        some
          { encoder := { encoder with remain := some (record.drop done) }
            emitted := record.take done }
      else
        some
          { encoder := { encoder with remain := none }
            emitted := record.take done
            ended := encoder.closed }

namespace NoneRecordEncoder

/-- The loop of `push`. -/
def pushFrom (recordSize : Nat) (data : List UInt8) (encoder : RecordEncoder) :
    List Nat → Nat → List UInt8 → Option RecordCalls
  | [], _, _ => none
  | answer :: answers, offset, emitted =>
    let record := (data.drop offset).take recordSize
    let done := takenOf answer record
    let emitted := emitted ++ record.take done
    if done < record.length then
      some
        { encoder := { encoder with remain := some (record.drop done) }
          emitted := emitted
          size := offset + record.length }
    else if offset + record.length ≥ data.length then
      some { encoder := { encoder with remain := none }, emitted := emitted, size := data.length }
    else pushFrom recordSize data encoder answers (offset + record.length) emitted

def push (recordSize : Nat) (encoder : RecordEncoder) (data : NodeBuffer) (answers : List Nat) :
    Option RecordCalls :=
  if encoder.remain.isSome then some { encoder }
  else pushFrom recordSize data.bytes encoder answers 0 []

def close : RecordCalls :=
  if encoder.closed then { encoder }
  else { encoder := { encoder with closed := true }, ended := encoder.remain.isNone }

end NoneRecordEncoder

namespace EncryptRecordEncoder

/-- `_encodeRecord`. The header is not the size of what it stands before. -/
def encodeRecord (recordSize : Nat) (data : List (List UInt8)) : List UInt8 :=
  toLe 2 recordSize ++ cipher.encrypt data.flatten

/-- The pending buffers are a record. -/
def flush (recordSize : Nat) (encoder : RecordEncoder) :
    List Nat → Option RecordCalls
  | [] => none
  | answer :: _ =>
    let record := encodeRecord cipher recordSize encoder.pending
    let done := takenOf answer record
    some
      { encoder := { encoder with
          pending := []
          pendingSize := 0
          remain := if done < record.length then some (record.drop done) else encoder.remain }
        emitted := record.take done }

/-- The loop of `push`. -/
def pushFrom (cipher : RecordCipher) (recordSize : Nat) (data : NodeBuffer)
    (encoder : RecordEncoder) (answers : List Nat) (remain : List UInt8) (encoded : Nat)
    (emitted : List UInt8) : Option RecordCalls :=
  if encoder.pendingSize + remain.length < recordSize then
    some
      { encoder := { encoder with
          pending := encoder.pending ++ [remain]
          pendingSize := encoder.pendingSize + remain.length
          naglingTimer := true }
        emitted := emitted
        size := encoded + remain.length }
  else
    match answers with
    | [] => none
    | answer :: answers =>
      let lastSize := recordSize - encoder.pendingSize
      let record := encodeRecord cipher recordSize (encoder.pending ++ [remain.take lastSize])
      let encoder := { encoder with pending := [], pendingSize := 0 }
      let encoded := encoded + lastSize
      let done := takenOf answer record
      if done < record.length then
        some
          { encoder := { encoder with remain := some (record.drop done) }
            emitted := emitted ++ record.take done
            size := encoded }
      else
        -- the offset of the buffer is taken for a position in it
        let remain := sliceFrom data.bytes (encoded - data.byteOffset)
        if remain.length = 0 then
          some { encoder, emitted := emitted ++ record.take done, size := encoded }
        else
          pushFrom cipher recordSize data encoder answers remain encoded
            (emitted ++ record.take done)

def push (recordSize : Nat) (encoder : RecordEncoder) (data : NodeBuffer)
    (answers : List Nat) : Option RecordCalls :=
  if encoder.remain.isSome then some { encoder }
  else pushFrom cipher recordSize data encoder answers data.bytes 0 []

/-- The callback of the nagling timer, if it is set. -/
def nagling (recordSize : Nat) (encoder : RecordEncoder)
    (answers : List Nat) : Option RecordCalls :=
  if encoder.naglingTimer then
    flush cipher recordSize { encoder with naglingTimer := false } answers
  else none

def close (recordSize : Nat) (encoder : RecordEncoder)
    (answers : List Nat) : Option RecordCalls :=
  if encoder.closed then some { encoder }
  else if encoder.remain.isNone then
    some { encoder := { encoder with closed := true }, ended := true }
  else if encoder.pendingSize ≠ 0 then
    flush cipher recordSize { encoder with closed := true } answers
  else some { encoder := { encoder with closed := true } }

def uninit : RecordEncoder :=
  { encoder with naglingTimer := false }

end EncryptRecordEncoder

/-! ## The decoders -/

/-- `EncryptRecordDecodeState`, with what `m_pending` is in it. -/
inductive EncryptRecordDecoder where
  | wait
  | header (headerBuffer : List UInt8)
  | record (recordSize : Nat) (buffers : List (List UInt8)) (size : Nat)

/-- The states in the order in which the loop of `push` leaves them without a byte. -/
def EncryptRecordDecoder.rank : EncryptRecordDecoder → Nat
  | .wait => 1
  | .header headerBuffer => if headerBuffer.length < 2 then 0 else 2
  | .record .. => 2

/-- The loop of `push`. It has no result when it throws. -/
def decodeFrom (cipher : RecordCipher) (decoder : EncryptRecordDecoder) (remain data : List UInt8) :
    Option (EncryptRecordDecoder × List UInt8) :=
  match decoder with
  | .wait => decodeFrom cipher (.header []) remain data
  | .header headerBuffer =>
    if hheader : remain.length + headerBuffer.length < 2 then
      some (.header (headerBuffer ++ remain), data)
    else
      -- the header bytes are taken from behind the header
      let behind := remain.drop (2 - headerBuffer.length)
      let header := headerBuffer ++ behind.take (2 - headerBuffer.length)
      if header.length < 2 then none
      else if behind.length > ofLe (header.take 2) then
        match cipher.decrypt (behind.take (ofLe (header.take 2))) with
        | none => none
        | some sub =>
          decodeFrom cipher .wait (behind.drop (ofLe (header.take 2))) (data ++ sub)
      else some (.record (ofLe (header.take 2)) [headerBuffer, behind] behind.length, data)
  | .record recordSize buffers size =>
    if remain.length + size > recordSize then
      match cipher.decrypt (buffers ++ [remain.take (recordSize - size)]).flatten with
      | none => none
      | some sub => decodeFrom cipher .wait (remain.drop (recordSize - size)) (data ++ sub)
    else some (.record recordSize (buffers ++ [remain]) (size + remain.length), data)
termination_by 3 * remain.length + decoder.rank
decreasing_by
  · show 3 * remain.length + 0 < 3 * remain.length + 1
    omega
  · simp only [List.length_drop, EncryptRecordDecoder.rank, behind]
    split <;> omega
  · simp only [List.length_drop, EncryptRecordDecoder.rank]
    omega

/-- The calls of `push` of an `EncryptRecordDecoder`, and what they give. -/
def decodeAll (cipher : RecordCipher) :
    EncryptRecordDecoder → List UInt8 → List (List UInt8) → Option (List UInt8)
  | _, data, [] => some data
  | decoder, data, chunk :: chunks =>
    (decodeFrom cipher decoder chunk data).bind fun (decoder, data) =>
      decodeAll cipher decoder data chunks

/-- What the decoder gives for chunks; a `NoneRecordDecoder` gives them as they are. -/
def decodeChunks (chunks : List (List UInt8)) : Option (List UInt8) :=
  match options.cipher with
  | none => some chunks.flatten
  | some cipher => decodeAll cipher .wait [] chunks

/-! ## Runs -/

inductive RecordCall where
  | push (data : NodeBuffer)
  | continue
  /-- The nagling timer fires. -/
  | nagling
  | close
  | uninit

/-- An encoder, the bytes that the callback has taken, and those that `push` has accepted. -/
structure RecordRun where
  encoder : RecordEncoder := {}
  emitted : List UInt8 := []
  accepted : List UInt8 := []

def RecordOptions.push (options : RecordOptions) (encoder : RecordEncoder) (data : NodeBuffer)
    (answers : List Nat) : Option RecordCalls :=
  match options.cipher with
  | none => NoneRecordEncoder.push options.recordSize encoder data answers
  | some cipher => EncryptRecordEncoder.push cipher options.recordSize encoder data answers

def RecordOptions.close (options : RecordOptions) (encoder : RecordEncoder) (answers : List Nat) :
    Option RecordCalls :=
  match options.cipher with
  | none => some (NoneRecordEncoder.close encoder)
  | some cipher => EncryptRecordEncoder.close cipher options.recordSize encoder answers

def RecordOptions.nagling (options : RecordOptions) (encoder : RecordEncoder)
    (answers : List Nat) : Option RecordCalls :=
  match options.cipher with
  | none => none
  | some cipher => EncryptRecordEncoder.nagling cipher options.recordSize encoder answers

def RecordOptions.uninit (options : RecordOptions) (encoder : RecordEncoder) : RecordEncoder :=
  match options.cipher with
  | none => encoder
  | some _ => EncryptRecordEncoder.uninit encoder

/-- A call, with the answers of the callback. -/
def RecordRun.step (run : RecordRun) :
    RecordCall × List Nat → Option RecordRun
  | (.push data, answers) => (options.push run.encoder data answers).map fun calls =>
    { encoder := calls.encoder
      emitted := run.emitted ++ calls.emitted
      accepted := run.accepted ++ data.bytes.take calls.size }
  | (.continue, answers) => (run.encoder.continue answers).map fun calls =>
    { run with encoder := calls.encoder, emitted := run.emitted ++ calls.emitted }
  | (.nagling, answers) => (options.nagling run.encoder answers).map fun calls =>
    { run with encoder := calls.encoder, emitted := run.emitted ++ calls.emitted }
  | (.close, answers) => (options.close run.encoder answers).map fun calls =>
    { run with encoder := calls.encoder, emitted := run.emitted ++ calls.emitted }
  | (.uninit, _) => some { run with encoder := options.uninit run.encoder }

/-- Nothing waits to be given to the callback. -/
def RecordEncoder.Flushed : Prop :=
  encoder.remain = none ∧ encoder.pending.flatten = []

/-- However the stream comes to the decoder, it gives the first of the accepted bytes, and all of
them once everything is flushed. -/
def RoundTripsRecords (run : RecordRun) : Prop :=
  ∀ chunks, chunks.flatten = run.emitted →
    ∃ decoded, decodeChunks options chunks = some decoded ∧ decoded <+: run.accepted ∧
      (run.encoder.Flushed → decoded = run.accepted)

/-- `push` comes to an end, whatever the callback answers. -/
def PushTerminates : Prop :=
  ∀ (encoder : RecordEncoder) (data : NodeBuffer) (answers : Nat → Nat),
    ∃ count calls, options.push encoder data ((List.range count).map answers) = some calls

end Bdt
