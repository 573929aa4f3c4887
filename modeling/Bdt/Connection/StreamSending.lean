import Bdt.Connection.StreamConnection

/-!
# What a stream connection sends

`stream_sending`: the plaintexts of the records are, one behind the other, a prefix of the buffers
that `StreamConnectionSend` took; no record is longer than `maxRecordSize`; `sendRequestSize` is the
number of bytes that wait in the queue; the socket gets the records in order; and no assertion of a
handler fails. A record goes into the buffer only when the one before has left it (`Wired.free`),
whatever part of a record the socket takes at a time.
-/

namespace Bdt

open Base List

namespace StreamEntry

/-! ## Histories -/

/-- The bytes that `StreamConnectionSend` took. -/
def acceptedBytes (history : List StreamEntry) : List UInt8 :=
  history.flatMap fun
    | .accept buffer => buffer
    | _ => []

/-- The plaintexts of the records. -/
def records (history : List StreamEntry) : List (List UInt8) :=
  history.filterMap fun
    | .record plain => some plain
    | _ => none

/-- The bytes that the socket took. -/
def wireBytes (history : List StreamEntry) : List UInt8 :=
  history.flatMap fun
    | .wire bytes => bytes
    | _ => []

/-- A callback, or the end of the interface. -/
def isNotice : StreamEntry → Bool
  | .callback _ _ _ => true
  | .closeInterface => true
  | _ => false

variable {history more : List StreamEntry}

theorem acceptedBytes_append (history more : List StreamEntry) :
    acceptedBytes (history ++ more) = acceptedBytes history ++ acceptedBytes more :=
  flatMap_append

theorem records_append (history more : List StreamEntry) :
    records (history ++ more) = records history ++ records more :=
  filterMap_append

theorem wireBytes_append (history more : List StreamEntry) :
    wireBytes (history ++ more) = wireBytes history ++ wireBytes more :=
  flatMap_append

/-- What a request that is accepted adds to the history. -/
theorem history_accept (history : List StreamEntry) (buffer : List UInt8) :
    acceptedBytes (history ++ [.accept buffer]) = acceptedBytes history ++ buffer ∧
      records (history ++ [.accept buffer]) = records history ∧
      wireBytes (history ++ [.accept buffer]) = wireBytes history := by
  rw [acceptedBytes_append, records_append, wireBytes_append]
  exact ⟨congrArg (acceptedBytes history ++ ·) (append_nil _), append_nil _, append_nil _⟩

theorem notices (h : ∀ entry ∈ more, entry.isNotice = true) :
    acceptedBytes more = [] ∧ records more = [] ∧ wireBytes more = [] := by
  refine ⟨flatMap_eq_nil_iff.mpr fun entry hmem => ?_,
    filterMap_eq_nil_iff.mpr fun entry hmem => ?_,
    flatMap_eq_nil_iff.mpr fun entry hmem => ?_⟩ <;>
  · have hentry := h entry hmem
    cases entry <;> first | rfl | cases hentry

end StreamEntry

open StreamEntry

/-! ## The queue -/

namespace StreamConnectionSendRequestListItem

theorem length_rest (item : StreamConnectionSendRequestListItem) :
    item.rest.length = item.length - item.offset :=
  length_drop

end StreamConnectionSendRequestListItem

namespace StreamConnection

variable {env : StreamEnv} {c d : StreamConnection}

/-- The bytes of the queued requests that are not in a record yet. -/
def unsent (items : List StreamConnectionSendRequestListItem) : List UInt8 :=
  items.flatMap (·.rest)

theorem unsent_cons (item : StreamConnectionSendRequestListItem)
    (items : List StreamConnectionSendRequestListItem) :
    unsent (item :: items) = item.rest ++ unsent items :=
  flatMap_cons

theorem unsent_append (items more : List StreamConnectionSendRequestListItem) :
    unsent (items ++ more) = unsent items ++ unsent more :=
  flatMap_append

theorem length_unsent (items : List StreamConnectionSendRequestListItem) :
    (unsent items).length = (items.map fun item => item.length - item.offset).sum := by
  induction items with
  | nil => rfl
  | cons item _ ih =>
    rw [unsent_cons, length_append, ih, item.length_rest]
    rfl

/-- Offsets lie inside their buffers. -/
def OffsetsInside (items : List StreamConnectionSendRequestListItem) : Prop :=
  ∀ item ∈ items, item.offset ≤ item.length

variable {toRecordSize : Nat} {rest : List StreamConnectionSendRequestListItem}

variable {toRecord : List StreamConnectionSendRequestListItem} {callbacks : List StreamEntry}
  {b : StreamConnection} {size : Nat} {buffer : List UInt8}

/-- The loop takes the bytes that the record lacks, and leaves the others. -/
theorem takeLoop_spec {recordSize : Nat} {items : List StreamConnectionSendRequestListItem}
    (h : takeLoop toRecordSize recordSize items = (toRecord, rest)) (hinside : OffsetsInside items)
    (hle : recordSize ≤ toRecordSize) (hlen : toRecordSize ≤ recordSize + (unsent items).length) :
    unsent toRecord ++ unsent rest = unsent items ∧
      recordSize + (unsent toRecord).length = toRecordSize ∧ OffsetsInside rest := by
  induction items generalizing recordSize toRecord rest with
  | nil =>
    cases h
    exact ⟨rfl, Nat.le_antisymm hle hlen, hinside⟩
  | cons item items ih =>
    have hinside' : OffsetsInside items := fun other hmem => hinside other (mem_cons_of_mem _ hmem)
    have hrest := item.length_rest
    unfold takeLoop at h
    split at h
    case isTrue hover =>
      -- the request does not fit: a part of it fills the record
      obtain ⟨rfl, rfl⟩ := h
      have hpart : (item.buffer.take (item.offset + (toRecordSize - recordSize))).drop item.offset =
          item.rest.take (toRecordSize - recordSize) := by
        rw [List.drop_take, Nat.add_sub_cancel_left]
        rfl
      have hleft : item.buffer.drop (item.offset + (toRecordSize - recordSize)) =
          item.rest.drop (toRecordSize - recordSize) := by
        unfold StreamConnectionSendRequestListItem.rest
        rw [drop_drop]
      refine ⟨?_, ?_, ?_⟩
      · rw [unsent_cons, unsent_cons, unsent_cons]
        show ((item.buffer.take _).drop item.offset ++ []) ++ (item.buffer.drop _ ++ unsent items) = _
        rw [hpart, hleft, append_nil, ← append_assoc, take_append_drop]
      · rw [unsent_cons]
        show recordSize + ((item.buffer.take _).drop item.offset ++ []).length = _
        rw [hpart, append_nil, length_take, hrest]
        omega
      intro other hmem
      rcases mem_cons.mp hmem with rfl | hmem
      · show item.offset + (toRecordSize - recordSize) ≤ item.length
        omega
      · exact hinside' other hmem
    case isFalse hfits =>
    generalize htake : takeLoop toRecordSize (recordSize + (item.length - item.offset)) items =
      taken at h
    obtain ⟨rfl, rfl⟩ := h
    rw [unsent_cons, length_append] at hlen
    obtain ⟨hconcat, hsize, hleft⟩ := ih htake hinside' (by omega) (by omega)
    refine ⟨?_, ?_, hleft⟩
    · rw [unsent_cons, unsent_cons, append_assoc, hconcat]
    · rw [unsent_cons, length_append]
      omega

/-- The queue and the records: together they are what was accepted. -/
structure Queued (env : StreamEnv) (c : StreamConnection) : Prop where
  size : c.sendRequestSize = (unsent c.sendRequests).length
  inside : OffsetsInside c.sendRequests
  concat : (records c.history).flatten ++ unsent c.sendRequests <+: acceptedBytes c.history
  whole : c.sendClosed = false →
    (records c.history).flatten ++ unsent c.sendRequests = acceptedBytes c.history
  bounded : ∀ plain ∈ records c.history, plain.length ≤ env.config.maxRecordSize

/-! ## The record buffer -/

/-- The bytes of a box, with its header. -/
def boxBytes (env : StreamEnv) (plain : List UInt8) : List UInt8 :=
  match boxCryptoData env plain with
  | none => []
  | some (header, box) => header ++ box

/-- The bytes of the record buffer that the socket has not taken yet. -/
def pendingBytes (c : StreamConnection) : List UInt8 :=
  (c.recordBuffer.drop c.recordOffset).take c.pendingRecordSize

/-- The record buffer and the socket: together they are the boxes of the records. -/
structure Wired (env : StreamEnv) (c : StreamConnection) : Prop where
  wire : wireBytes c.history <+: (records c.history).flatMap (boxBytes env)
  whole : c.interfaceClosed = false →
    wireBytes c.history ++ c.pendingBytes = (records c.history).flatMap (boxBytes env)
  pending : c.interfaceClosed = false → c.pendingRecordSize = c.pendingBytes.length
  /-- There is no record only when the buffer is free, or when no record will follow. -/
  free : c.interfaceClosed = false → c.recordSize = 0 →
    c.pendingRecordSize = 0 ∨ c.sendClosed = true ∧ c.sendRequestSize = 0

variable {plain : List UInt8}

theorem boxCryptoData_some (h : plain.length ≤ env.config.maxRecordSize) :
    ∃ header box, boxCryptoData env plain = some (header, box) ∧ header.length = 2 := by
  obtain ⟨encrypted, hencrypted, _⟩ := aesEncryptDataWithPadding_some env.aes env.aesKey
    (show plain.length + 16 ≤ recordBufferLength env by
      unfold recordBufferLength STREAM_CONNECTION_ENCRYPT_MAX_HEADER_SIZE
        STREAM_CONNECTION_ENCRYPT_MAX_PADDING_SIZE
      omega)
  unfold boxCryptoData
  rw [hencrypted]
  exact ⟨_, _, rfl, rfl⟩

/-- What `putRecord` changes. -/
structure Put (env : StreamEnv) (plain : List UInt8) (c d : StreamConnection) : Prop where
  pendingBytes : d.pendingBytes = boxBytes env plain
  pendingRecordSize : d.pendingRecordSize = (boxBytes env plain).length
  accepted : acceptedBytes d.history = acceptedBytes c.history
  records : records d.history = records c.history ++ [plain]
  wire : wireBytes d.history = wireBytes c.history
  recordSize : d.recordSize = c.recordSize
  sendRequestSize : d.sendRequestSize = c.sendRequestSize
  sendRequests : d.sendRequests = c.sendRequests
  sendClosed : d.sendClosed = c.sendClosed
  interfaceClosed : d.interfaceClosed = c.interfaceClosed

theorem sentCallbacks_notice (items : List StreamConnectionSendRequestListItem) :
    ∀ entry ∈ sentCallbacks items, entry.isNotice = true := by
  intro entry hmem
  obtain ⟨item, _, hentry⟩ := mem_filterMap.mp hmem
  obtain ⟨userData, _, rfl⟩ := Option.map_eq_some_iff.mp hentry
  rfl

theorem putRecord_put (env : StreamEnv) (c : StreamConnection)
    (hfits : plain.length ≤ env.config.maxRecordSize)
    (hcallbacks : ∀ entry ∈ callbacks, entry.isNotice = true) :
    ∃ d, c.putRecord env plain callbacks = some d ∧ Put env plain c d := by
  obtain ⟨header, box, hbox, hheader⟩ := boxCryptoData_some hfits
  obtain ⟨haccepted, hrecords, hwire⟩ := notices hcallbacks
  have hbytes : boxBytes env plain = header ++ box := by
    unfold boxBytes
    rw [hbox]
  unfold putRecord encodeRecord
  rw [hbox]
  refine ⟨_, rfl, ?_, ?_, ?_, ?_, ?_, rfl, rfl, rfl, rfl, rfl⟩
  · show List.take (box.length + header.length)
      (List.drop _ (List.replicate _ 0 ++ header ++ box)) = _
    rw [append_assoc, drop_left' (length_replicate), hbytes]
    exact take_of_length_le (by rw [length_append]; omega)
  · rw [hbytes, length_append]
    exact Nat.add_comm _ _
  · show acceptedBytes (c.history ++ [StreamEntry.record plain] ++ callbacks) = _
    rw [acceptedBytes_append, acceptedBytes_append, haccepted, append_nil]
    exact append_nil _
  · show StreamEntry.records (c.history ++ [StreamEntry.record plain] ++ callbacks) = _
    rw [records_append, records_append, hrecords, append_nil]
    rfl
  · show wireBytes (c.history ++ [StreamEntry.record plain] ++ callbacks) = _
    rw [wireBytes_append, wireBytes_append, hwire, append_nil]
    exact append_nil _

/-! ## The invariant -/

/-- What holds of a stream connection between its events. -/
structure Sending (env : StreamEnv) (c : StreamConnection) : Prop where
  queued : c.Queued env
  wired : c.Wired env

theorem sending_create (env : StreamEnv) : Sending env {} where
  queued :=
    { size := rfl
      inside := by intro item hmem; cases hmem
      concat := prefix_refl _
      whole := fun _ => rfl
      bounded := by intro plain hmem; cases hmem }
  wired :=
    { wire := prefix_refl _
      whole := fun _ => rfl
      pending := fun _ => rfl
      free := fun _ _ => .inl rfl }

/-! ## The handlers -/

/-- A step that leaves the record buffer and the records alone. -/
theorem Wired.frame (h : c.Wired env) (hpending : d.pendingBytes = c.pendingBytes)
    (hsize : d.pendingRecordSize = c.pendingRecordSize)
    (hwire : wireBytes d.history = wireBytes c.history)
    (hrecords : records d.history = records c.history)
    (hclosed : d.interfaceClosed = c.interfaceClosed)
    (hfree : c.interfaceClosed = false → d.recordSize = 0 →
      c.pendingRecordSize = 0 ∨ d.sendClosed = true ∧ d.sendRequestSize = 0) : d.Wired env := by
  refine ⟨?_, fun hopen => ?_, fun hopen => ?_, fun hopen hzero => ?_⟩
  · rw [hwire, hrecords]
    exact h.wire
  · rw [hwire, hpending, hrecords]
    exact h.whole (hclosed ▸ hopen)
  · rw [hsize, hpending]
    exact h.pending (hclosed ▸ hopen)
  · rw [hsize]
    exact hfree (hclosed ▸ hopen) hzero

theorem Wired.put (h : c.Wired env) (hput : Put env plain b d) (hrec : c.recordSize = 0)
    (hmore : ¬ (c.sendClosed = true ∧ c.sendRequestSize = 0)) (hsize : b.recordSize ≠ 0)
    (hwire : wireBytes b.history = wireBytes c.history)
    (hrecords : records b.history = records c.history)
    (hclosed : b.interfaceClosed = c.interfaceClosed) : d.Wired env := by
  have hboxes : (records d.history).flatMap (boxBytes env) =
      (records c.history).flatMap (boxBytes env) ++ boxBytes env plain := by
    rw [hput.records, hrecords, flatMap_append]
    simp
  refine ⟨?_, fun hopen => ?_, fun _ => ?_, fun _ hzero => ?_⟩
  · rw [hput.wire, hwire, hboxes]
    exact h.wire.trans (prefix_append _ _)
  · have hopen : c.interfaceClosed = false := by
      rw [← hclosed, ← hput.interfaceClosed]
      exact hopen
    -- the record before has left the buffer
    have hnone : c.pendingBytes = [] := by
      have hfree := (h.free hopen hrec).resolve_right hmore
      unfold pendingBytes
      rw [hfree]
      rfl
    have hwhole := h.whole hopen
    rw [hnone, append_nil] at hwhole
    rw [hput.wire, hwire, hput.pendingBytes, hboxes, hwhole]
  · rw [hput.pendingRecordSize, hput.pendingBytes]
  · exact absurd (hput.recordSize ▸ hzero) hsize

/-- The bytes that the socket takes leave the buffer. -/
theorem Wired.sendPending (h : c.Wired env) (sent : Nat) : (c.sendPending sent).Wired env := by
  unfold StreamConnection.sendPending
  split
  case isTrue => exact h
  case isFalse hpending =>
  unfold tcpInterfaceSend
  by_cases hclosed : c.interfaceClosed = true
  · -- nothing more gets to the wire
    rw [if_pos hclosed]
    have hnot : c.interfaceClosed ≠ false := by simp [hclosed]
    refine ⟨?_, fun hopen => absurd hopen hnot, fun hopen => absurd hopen hnot,
      fun hopen => absurd hopen hnot⟩
    show wireBytes (c.history ++ []) <+: (records (c.history ++ [])).flatMap _
    rw [append_nil]
    exact h.wire
  have hopen : c.interfaceClosed = false := Bool.eq_false_iff.mpr hclosed
  rw [if_neg hclosed]
  have hlen := h.pending hopen
  have hwhole := h.whole hopen
  have htaken : (c.pendingBytes.take sent).length ≤ c.pendingRecordSize := by
    rw [length_take, hlen]
    exact Nat.min_le_right _ _
  -- what is left is the buffer behind the bytes taken
  have hleft : (c.recordBuffer.drop (c.recordOffset + (c.pendingBytes.take sent).length)).take
      (c.pendingRecordSize - (c.pendingBytes.take sent).length) =
        c.pendingBytes.drop (c.pendingBytes.take sent).length := by
    unfold pendingBytes
    rw [List.drop_take, drop_drop]
  have hboth : c.pendingBytes.take sent ++
      c.pendingBytes.drop (c.pendingBytes.take sent).length = c.pendingBytes := by
    rw [length_take]
    rcases Nat.le_total sent c.pendingBytes.length with hle | hle
    · rw [Nat.min_eq_left hle, take_append_drop]
    · rw [Nat.min_eq_right hle, take_of_length_le hle, drop_length, append_nil]
  have hrecords : records (c.history ++ [StreamEntry.wire (c.pendingBytes.take sent)]) =
      records c.history := by
    rw [records_append]
    exact append_nil _
  have hwire : wireBytes (c.history ++ [StreamEntry.wire (c.pendingBytes.take sent)]) =
      wireBytes c.history ++ c.pendingBytes.take sent := by
    rw [wireBytes_append]
    exact congrArg (wireBytes c.history ++ ·) (append_nil _)
  have hsub : wordSub 64 c.pendingRecordSize (c.pendingBytes.take sent).length =
      c.pendingRecordSize - (c.pendingBytes.take sent).length := wordSub_of_le htaken
  refine ⟨?_, fun _ => ?_, fun _ => ?_, fun _ hzero => ?_⟩
  · show wireBytes (c.history ++ [StreamEntry.wire (c.pendingBytes.take sent)]) <+:
      (records (c.history ++ [StreamEntry.wire (c.pendingBytes.take sent)])).flatMap _
    rw [hrecords, hwire, ← hwhole]
    exact prefix_append_right_inj _ |>.mpr (List.take_prefix _ _)
  · show wireBytes (c.history ++ [StreamEntry.wire (c.pendingBytes.take sent)]) ++
      (c.recordBuffer.drop (c.recordOffset + (c.pendingBytes.take sent).length)).take
        (wordSub 64 c.pendingRecordSize (c.pendingBytes.take sent).length) =
      (records (c.history ++ [StreamEntry.wire (c.pendingBytes.take sent)])).flatMap _
    rw [hrecords, hwire, hsub, hleft, append_assoc, hboth, hwhole]
  · show wordSub 64 c.pendingRecordSize (c.pendingBytes.take sent).length =
      ((c.recordBuffer.drop (c.recordOffset + (c.pendingBytes.take sent).length)).take
        (wordSub 64 c.pendingRecordSize (c.pendingBytes.take sent).length)).length
    rw [hsub, hleft, length_drop, ← hlen]
  · exact (h.free hopen hzero).imp_left fun hnone => absurd hnone hpending

theorem sendPending_queue (sent : Nat) (c : StreamConnection) :
    acceptedBytes (c.sendPending sent).history = acceptedBytes c.history ∧
      records (c.sendPending sent).history = records c.history ∧
      (c.sendPending sent).sendRequests = c.sendRequests ∧
      (c.sendPending sent).sendRequestSize = c.sendRequestSize ∧
      (c.sendPending sent).sendClosed = c.sendClosed := by
  unfold sendPending tcpInterfaceSend
  split
  · exact ⟨rfl, rfl, rfl, rfl, rfl⟩
  by_cases hclosed : c.interfaceClosed = true
  · rw [if_pos hclosed]
    exact ⟨congrArg acceptedBytes (append_nil _), congrArg records (append_nil _), rfl, rfl, rfl⟩
  · rw [if_neg hclosed]
    refine ⟨(acceptedBytes_append _ _).trans (append_nil _),
      (records_append _ _).trans (append_nil _), rfl, rfl, rfl⟩

theorem Queued.frame (h : c.Queued env) (haccepted : acceptedBytes d.history = acceptedBytes c.history)
    (hrecords : records d.history = records c.history) (hqueue : d.sendRequests = c.sendRequests)
    (hsize : d.sendRequestSize = c.sendRequestSize)
    (hclosed : d.sendClosed = false → c.sendClosed = false) : d.Queued env where
  size := by rw [hsize, hqueue]; exact h.size
  inside := hqueue ▸ h.inside
  concat := by rw [haccepted, hrecords, hqueue]; exact h.concat
  whole hopen := by rw [haccepted, hrecords, hqueue]; exact h.whole (hclosed hopen)
  bounded := hrecords ▸ h.bounded

section

variable (h : c.Sending env)
include h

/-- Entries that are no records, no buffers and no bytes of the wire are added. -/
theorem Sending.notice {more : List StreamEntry}
    (hmore : ∀ entry ∈ more, entry.isNotice = true) :
    Sending env { c with history := c.history ++ more } := by
  obtain ⟨haccepted, hrecords, hwire⟩ := notices hmore
  have hr : records (c.history ++ more) = records c.history := by
    rw [records_append, hrecords, append_nil]
  refine ⟨h.queued.frame ?_ hr rfl rfl id, h.wired.frame rfl rfl ?_ hr rfl h.wired.free⟩
  · show acceptedBytes (c.history ++ more) = _
    rw [acceptedBytes_append, haccepted, append_nil]
  · show wireBytes (c.history ++ more) = _
    rw [wireBytes_append, hwire, append_nil]

theorem Sending.sendRecord (sent : Nat) : (c.sendRecord sent).Sending env := by
  obtain ⟨haccepted, hrecords, hqueue, hsize, hclosed⟩ := sendPending_queue sent c
  have hsent : (c.sendPending sent).Sending env :=
    ⟨h.queued.frame haccepted hrecords hqueue hsize (fun hopen => hclosed ▸ hopen),
      h.wired.sendPending sent⟩
  unfold StreamConnection.sendRecord
  generalize c.sendPending sent = e at hsent
  simp only
  split
  case isFalse => exact hsent
  case isTrue hnone =>
  have hfree : Sending env { e with recordSize := 0 } :=
    ⟨hsent.queued.frame rfl rfl rfl rfl id,
      hsent.wired.frame rfl rfl rfl rfl rfl fun _ _ => .inl hnone⟩
  split
  · exact hfree.notice (by simp [isNotice])
  · exact ⟨hfree.queued.frame rfl rfl rfl rfl id, hfree.wired.frame rfl rfl rfl rfl rfl
      hfree.wired.free⟩

theorem Sending.close : c.close.Sending env := by
  unfold StreamConnection.close
  split
  · exact h
  have hclosed : Sending env { c with sendClosed := true } :=
    ⟨h.queued.frame rfl rfl rfl rfl nofun, h.wired.frame rfl rfl rfl rfl rfl fun hopen hzero =>
      (h.wired.free hopen hzero).imp_right fun hdone => ⟨rfl, hdone.2⟩⟩
  simp only
  split
  · exact hclosed.notice (by simp [isNotice])
  · exact hclosed

theorem Sending.cancelPendingSend : c.cancelPendingSend.Sending env := by
  have hdropped : Sending env { c with
      sendClosed := true, sendRequests := [], sendRequestSize := 0, recordSize := 0 } := by
    refine ⟨⟨rfl, (by intro item hmem; cases hmem), ?_, nofun, h.queued.bounded⟩,
      h.wired.frame rfl rfl rfl rfl rfl fun _ _ => .inr ⟨rfl, rfl⟩⟩
    show (records c.history).flatten ++ [] <+: _
    rw [append_nil]
    exact (prefix_append _ _).trans h.queued.concat
  refine hdropped.notice fun entry hmem => ?_
  obtain ⟨item, _, hentry⟩ := mem_filterMap.mp hmem
  obtain ⟨userData, _, rfl⟩ := Option.map_eq_some_iff.mp hentry
  rfl

theorem Sending.push (hopen : c.sendClosed = false) (now : Int)
    (buffer : List UInt8) (userData : Nat) :
    Sending env (({ c with history := c.history ++ [StreamEntry.accept buffer] }).pushRequest
      { buffer := buffer, callback := some userData, postTime := now }) := by
  obtain ⟨haccepted, hrecords, hwire⟩ := history_accept c.history buffer
  have hunsent : unsent (c.sendRequests ++ [{ buffer, callback := some userData, postTime := now }]) =
      unsent c.sendRequests ++ buffer := by
    rw [unsent_append]
    exact congrArg (unsent c.sendRequests ++ ·) (append_nil _)
  have hwhole : (records (c.history ++ [StreamEntry.accept buffer])).flatten ++
      unsent (c.sendRequests ++ [{ buffer, callback := some userData, postTime := now }]) =
        acceptedBytes (c.history ++ [StreamEntry.accept buffer]) := by
    rw [hrecords, hunsent, haccepted, ← append_assoc, h.queued.whole hopen]
  refine ⟨⟨?_, ?_, ?_, fun _ => hwhole, ?_⟩, h.wired.frame rfl rfl hwire hrecords rfl ?_⟩
  · show c.sendRequestSize + buffer.length = (unsent (c.sendRequests ++ [_])).length
    rw [hunsent, length_append, h.queued.size]
  · intro item hmem
    rcases mem_concat.mp hmem with hmem | hmem
    · exact h.queued.inside item hmem
    · rw [hmem]
      exact Nat.zero_le _
  · exact hwhole ▸ prefix_refl _
  · intro plain hmem
    exact h.queued.bounded plain (hrecords ▸ hmem)
  · intro hifopen hzero
    have hnot : ¬ (c.sendClosed = true ∧ c.sendRequestSize = 0) := by simp [hopen]
    exact .inl ((h.wired.free hifopen hzero).resolve_right hnot)

end

/-- A record takes bytes off the front of what was not sent. -/
theorem Queued.put (h : c.Queued env)
    (more : List UInt8) (hput : Put env plain b d) (hfits : plain.length ≤ env.config.maxRecordSize)
    (hsize : b.sendRequestSize = (unsent b.sendRequests).length) (hinside : OffsetsInside b.sendRequests)
    (hplain : plain ++ unsent b.sendRequests = unsent c.sendRequests ++ more)
    (haccepted : acceptedBytes b.history = acceptedBytes c.history ++ more)
    (hrecords : records b.history = records c.history) (hclosed : b.sendClosed = c.sendClosed)
    (hmore : c.sendClosed = true → more = []) : d.Queued env := by
  have hconcat : (records d.history).flatten ++ unsent d.sendRequests =
      (records c.history).flatten ++ unsent c.sendRequests ++ more := by
    rw [hput.records, hput.sendRequests, hrecords, flatten_append, append_assoc,
      append_assoc, ← hplain]
    simp
  refine ⟨?_, hput.sendRequests ▸ hinside, ?_, fun hopen => ?_, ?_⟩
  · rw [hput.sendRequestSize, hput.sendRequests]
    exact hsize
  · rw [hconcat, hput.accepted, haccepted]
    by_cases hc : c.sendClosed = true
    · rw [hmore hc, append_nil, append_nil]
      exact h.concat
    · rewrite [h.whole (Bool.eq_false_iff.mpr hc)]
      exact prefix_refl _
  · rw [hconcat, hput.accepted, haccepted, h.whole]
    rw [← hclosed, ← hput.sendClosed]
    exact hopen
  intro other hmem
  rw [hput.records, hrecords] at hmem
  rcases mem_concat.mp hmem with hmem | hmem
  · exact h.bounded other hmem
  · rw [hmem]
    exact hfits

theorem nagleDelay_pos {now postTime : Int} (h : nagleDelay env now postTime ≠ 0) :
    0 < nagleDelay env now postTime := by
  unfold nagleDelay at *
  simp only at *
  split at h
  · exact absurd rfl h
  case isFalse hdelay =>
    rw [if_neg hdelay]
    omega

/-- The record takes the whole queue, or as much as it may, or nothing, with a timer for the rest. -/
theorem planRecord_cases {now delay : Int}
    (hplan : c.planRecord env now = (toRecordSize, toRecord, rest, delay)) :
    (c.sendRequestSize ≤ env.config.maxRecordSize ∧ toRecordSize = c.sendRequestSize ∧
        toRecord = c.sendRequests ∧ rest = []) ∨
      (env.config.maxRecordSize ≤ c.sendRequestSize ∧ toRecordSize = env.config.maxRecordSize ∧
        takeLoop env.config.maxRecordSize 0 c.sendRequests = (toRecord, rest)) ∨
      (toRecordSize = 0 ∧ toRecord = [] ∧ rest = c.sendRequests ∧
        (c.sendRequestSize ≠ 0 → c.sendRequests ≠ [] → 0 < delay)) := by
  have hbounds := env.config.min_le_max
  unfold StreamConnection.planRecord at hplan
  split at hplan
  · split at hplan
    case isTrue hless =>
      obtain ⟨rfl, rfl, rfl, -⟩ := hplan
      exact .inl ⟨Nat.le_of_lt hless, rfl, rfl, rfl⟩
    case isFalse hmany =>
      obtain ⟨rfl, rfl, rfl, -⟩ := hplan
      exact .inr (.inl ⟨Nat.not_lt.mp hmany, rfl, rfl⟩)
  case isFalse hfew =>
  split at hplan
  case h_1 =>
    split at hplan
    case isTrue =>
      simp only at hplan
      split at hplan
      case isTrue =>
        obtain ⟨rfl, rfl, rfl, -⟩ := hplan
        exact .inl ⟨by omega, rfl, rfl, rfl⟩
      case isFalse hdelay =>
        obtain ⟨rfl, rfl, rfl, rfl⟩ := hplan
        exact .inr (.inr ⟨rfl, rfl, rfl, fun _ _ => nagleDelay_pos hdelay⟩)
    case isFalse hnone =>
      obtain ⟨rfl, rfl, rfl, -⟩ := hplan
      exact .inr (.inr ⟨rfl, rfl, rfl, fun hsome => absurd (Nat.pos_of_ne_zero hsome) hnone⟩)
  case h_2 hqueue =>
    obtain ⟨rfl, rfl, rfl, -⟩ := hplan
    exact .inr (.inr ⟨rfl, rfl, rfl, fun _ hsome => absurd hqueue hsome⟩)

/-- What the section under the lock takes off the queue is as long as planned. -/
theorem Queued.planRecord (h : c.Queued env) {now delay : Int}
    (hplan : c.planRecord env now = (toRecordSize, toRecord, rest, delay)) :
    unsent toRecord ++ unsent rest = unsent c.sendRequests ∧
      (unsent toRecord).length = toRecordSize ∧ toRecordSize ≤ env.config.maxRecordSize ∧
      toRecordSize ≤ c.sendRequestSize ∧ OffsetsInside rest := by
  have hsize := h.size
  obtain ⟨hle, rfl, rfl, rfl⟩ | ⟨hle, rfl, htake⟩ | ⟨rfl, rfl, rfl, -⟩ := planRecord_cases hplan
  · exact ⟨append_nil _, hsize.symm, hle, Nat.le_refl _, nofun⟩
  · obtain ⟨hconcat, hlen, hinside⟩ := takeLoop_spec htake h.inside (Nat.zero_le _) (by omega)
    exact ⟨hconcat, by omega, Nat.le_refl _, hle, hinside⟩
  · exact ⟨rfl, rfl, Nat.zero_le _, Nat.zero_le _, h.inside⟩

theorem Sending.checkPendingSend (h : c.Sending env) (now : Int) :
    ∃ d, c.checkPendingSend env now = some d ∧ d.Sending env := by
  unfold StreamConnection.checkPendingSend
  split
  · exact ⟨c, rfl, h⟩
  case isFalse hrec =>
  rw [Decidable.not_not] at hrec
  generalize hplan : c.planRecord env now = plan
  obtain ⟨toRecordSize, toRecord, rest, delay⟩ := plan
  obtain ⟨hconcat, hlen, hfits, hle, hinside⟩ := h.queued.planRecord hplan
  have hsub : wordSub 64 c.sendRequestSize toRecordSize = c.sendRequestSize - toRecordSize :=
    wordSub_of_le hle
  have hsize : wordSub 64 c.sendRequestSize toRecordSize = (unsent rest).length := by
    have htotal := congrArg List.length hconcat
    rw [length_append, ← h.queued.size] at htotal
    omega
  simp only
  split
  case isTrue hsome =>
    unfold putRequests
    rw [if_pos (show (toRecord.flatMap (·.rest)).length = toRecordSize from hlen)]
    obtain ⟨d, hd, hput⟩ := putRecord_put env { c with
        sendRequests := rest
        sendRequestSize := wordSub 64 c.sendRequestSize toRecordSize
        recordSize := toRecordSize }
      (show (unsent toRecord).length ≤ _ by omega) (sentCallbacks_notice toRecord)
    refine ⟨d, hd, ?_, ?_⟩
    · refine h.queued.put [] hput (by omega) hsize hinside ?_ ?_ rfl rfl fun _ => rfl
      · rw [append_nil]
        exact hconcat
      · exact (append_nil _).symm
    · exact h.wired.put hput hrec (by rintro ⟨_, hzero⟩; omega) hsome rfl rfl rfl
  case isFalse hzero =>
  -- no record: the queue is as it was, but for requests of which nothing is left
  rw [Decidable.not_not] at hzero
  have hrest : unsent rest = unsent c.sendRequests := by
    rw [← hconcat, length_eq_zero_iff.mp (hlen.trans hzero), nil_append]
  have hkept : Sending env { c with
      sendRequests := rest
      sendRequestSize := wordSub 64 c.sendRequestSize toRecordSize
      recordSize := toRecordSize } := by
    refine ⟨⟨hsize, hinside, ?_, fun hopen => ?_, h.queued.bounded⟩,
      h.wired.frame rfl rfl rfl rfl rfl fun hifopen _ => ?_⟩
    · show (records c.history).flatten ++ unsent rest <+: _
      rw [hrest]
      exact h.queued.concat
    · show (records c.history).flatten ++ unsent rest = _
      rw [hrest]
      exact h.queued.whole hopen
    · refine (h.wired.free hifopen hrec).imp_right fun hdone => ⟨hdone.1, ?_⟩
      show wordSub 64 c.sendRequestSize toRecordSize = 0
      rw [hsub, hdone.2, Nat.zero_sub]
  split
  · exact ⟨_, rfl, hkept.queued.frame rfl rfl rfl rfl id,
      hkept.wired.frame rfl rfl rfl rfl rfl hkept.wired.free⟩
  · exact ⟨_, rfl, hkept⟩

/-- The record that a new buffer fills up, and what is left of the buffer. -/
theorem putWithBuffer_put (hsize : size = (unsent toRecord).length)
    (hroom : size < toRecordSize ∧ toRecordSize - size ≤ buffer.length)
    (hfits : toRecordSize ≤ env.config.maxRecordSize)
    (hrest : unsent rest = buffer.drop (toRecordSize - size))
    (hcallbacks : ∀ entry ∈ callbacks, entry.isNotice = true) :
    ∃ plain d, c.putWithBuffer env toRecordSize toRecord buffer callbacks = some d ∧
      c.putRecord env plain (sentCallbacks toRecord ++ callbacks) = some d ∧ Put env plain c d ∧
      plain ++ unsent rest = unsent toRecord ++ buffer ∧
      plain.length ≤ env.config.maxRecordSize := by
  subst hsize
  have hlen : (unsent toRecord ++
      buffer.take (toRecordSize - (unsent toRecord).length)).length = toRecordSize := by
    rw [length_append, length_take]
    omega
  have hnotices : ∀ entry ∈ sentCallbacks toRecord ++ callbacks, entry.isNotice = true := by
    intro entry hmem
    exact (mem_append.mp hmem).elim (sentCallbacks_notice _ entry) (hcallbacks entry)
  have hplain := Nat.le_trans (Nat.le_of_eq hlen) hfits
  obtain ⟨d, hd, hput⟩ := putRecord_put env c hplain hnotices
  refine ⟨_, d, (if_pos hroom).trans hd, hd, hput, ?_, hplain⟩
  rw [hrest, append_assoc, take_append_drop]

/-- A new buffer fills up a record with what was queued before; what is left of it is queued. -/
theorem Sending.putWithBuffer (h : c.Sending env) (hopen : c.sendClosed = false)
    (hrec : c.recordSize = 0) (hlt : c.sendRequestSize < toRecordSize)
    (hle : toRecordSize - c.sendRequestSize ≤ buffer.length)
    (hfits : toRecordSize ≤ env.config.maxRecordSize)
    (hrest : unsent rest = buffer.drop (toRecordSize - c.sendRequestSize))
    (hsize : size = (unsent rest).length) (hinside : OffsetsInside rest)
    (hcallbacks : ∀ entry ∈ callbacks, entry.isNotice = true) :
    ∃ d, ({ c with
        history := c.history ++ [StreamEntry.accept buffer]
        sendRequests := rest
        sendRequestSize := size
        recordSize := toRecordSize }).putWithBuffer env toRecordSize c.sendRequests buffer callbacks =
      some d ∧ d.Sending env := by
  obtain ⟨haccepted, hrecords, hwire⟩ := history_accept c.history buffer
  obtain ⟨plain, d, hd, -, hput, hwhole, hplain⟩ :=
    putWithBuffer_put h.queued.size ⟨hlt, hle⟩ hfits hrest hcallbacks
  refine ⟨d, hd, ?_, ?_⟩
  · exact h.queued.put buffer hput hplain hsize hinside hwhole haccepted hrecords rfl (by simp [hopen])
  · refine h.wired.put hput hrec (by simp [hopen]) ?_ hwire hrecords rfl
    show toRecordSize ≠ 0
    omega

theorem wordSub_full {max length : Nat} (hsize : size ≤ max) (hfull : max ≤ size + length) :
    wordSub 64 max size = max - size ∧ wordSub 64 length (max - size) = length - (max - size) :=
  ⟨wordSub_of_le hsize, wordSub_of_le (by omega)⟩

theorem Sending.send (h : c.Sending env) (now : Int) (buffer : List UInt8) (userData : Nat) :
    ∃ d, c.send env now buffer userData = some d ∧ d.Sending env := by
  have hbounds := env.config.min_le_max
  have hpush := fun hopen => h.push hopen now buffer userData
  unfold StreamConnection.send
  split
  · exact ⟨c, rfl, h⟩
  case isFalse hopen =>
  rw [Bool.not_eq_true] at hopen
  simp only
  split
  · exact ⟨_, rfl, hpush hopen⟩
  case isFalse hrec =>
  rw [Decidable.not_not] at hrec
  split
  case isFalse => exact ⟨_, rfl, hpush hopen⟩
  case isTrue hfew =>
  split
  case isFalse =>
    exact ⟨_, rfl, (hpush hopen).queued.frame rfl rfl rfl rfl id,
      (hpush hopen).wired.frame rfl rfl rfl rfl rfl (hpush hopen).wired.free⟩
  case isTrue henough =>
  have henough : env.config.minRecordSize ≤ c.sendRequestSize + buffer.length := henough
  split
  case isTrue hless =>
    -- the record takes everything
    refine h.putWithBuffer hopen hrec (show _ < c.sendRequestSize + buffer.length by omega)
      ?_ (Nat.le_of_lt hless) ?_ rfl (by intro item hmem; cases hmem) (by simp [isNotice])
    · show c.sendRequestSize + buffer.length - c.sendRequestSize ≤ buffer.length
      omega
    · show [] = buffer.drop (c.sendRequestSize + buffer.length - c.sendRequestSize)
      rw [Nat.add_sub_cancel_left, drop_length]
  case isFalse hfull =>
  -- a part of the buffer stays behind
  have hfull : env.config.maxRecordSize ≤ c.sendRequestSize + buffer.length :=
    Nat.not_lt.mp hfull
  obtain ⟨hsub, hleft⟩ := wordSub_full (by omega) hfull
  refine h.putWithBuffer hopen hrec (by omega) (by omega) (Nat.le_refl _) ?_ ?_ ?_
    (by simp)
  · show buffer.drop (wordSub 64 _ _) ++ [] = _
    rw [hsub, append_nil]
  · show wordSub 64 buffer.length (wordSub 64 _ _) =
      (buffer.drop (wordSub 64 _ _) ++ []).length
    rw [hsub, hleft, append_nil, length_drop]
  intro item hmem
  rw [mem_singleton.mp hmem]
  show wordSub 64 _ _ ≤ buffer.length
  rw [hsub]
  omega

/-- Every handler keeps the invariant, and none of its assertions fails. -/
theorem Sending.handle (h : c.Sending env) (now : Int) (event : StreamEvent) :
    ∃ d, c.handle env now event = some d ∧ d.Sending env := by
  have hframe : ∀ {e : StreamConnection}, e.Sending env → ∀ (due immediates : Nat) (timer : Bool),
      Sending env { e with sendRecordDue := due, immediates := immediates, nagleTimer := timer } :=
    fun he _ _ _ => ⟨he.queued.frame rfl rfl rfl rfl id,
      he.wired.frame rfl rfl rfl rfl rfl he.wired.free⟩
  cases event with
  | send buffer userData => exact h.send now buffer userData
  | sendRecord sent => exact ⟨_, rfl, (hframe h _ c.immediates c.nagleTimer).sendRecord sent⟩
  | drain sent => exact ⟨_, rfl, h.sendRecord sent⟩
  | syncSent => exact (hframe h c.sendRecordDue _ c.nagleTimer).checkPendingSend now
  | nagleTimer => exact (hframe h c.sendRecordDue c.immediates false).checkPendingSend now
  | close => exact ⟨_, rfl, h.close⟩
  | cancelPendingSend => exact ⟨_, rfl, h.cancelPendingSend⟩
  | interfaceClosed =>
    exact ⟨_, rfl, h.queued.frame rfl rfl rfl rfl id, h.wired.wire, nofun, nofun, nofun⟩

theorem Reachable.sending (h : Reachable env c) : c.Sending env := by
  refine Reach.invariant (fun s hs => hs ▸ sending_create env) (fun s event t _ hs hstep => ?_) h
  obtain ⟨_, now, hstep⟩ := hstep
  obtain ⟨d, hd, hsending⟩ := hs.handle now event
  rw [hstep] at hd
  exact Option.some.inj hd ▸ hsending

/-- What is sent over a stream connection: the records are a prefix of what was accepted, none is too
long, the counter of the queue is right, the socket gets the boxes of the records, and the handlers
do not fail. -/
theorem stream_sending (h : Reachable env c) :
    (records c.history).flatten <+: acceptedBytes c.history ∧
    (∀ plain ∈ records c.history, plain.length ≤ env.config.maxRecordSize) ∧
    c.sendRequestSize = (c.sendRequests.map fun item => item.length - item.offset).sum ∧
    wireBytes c.history <+: (records c.history).flatMap (boxBytes env) ∧
    ∀ now event, c.handle env now event ≠ none := by
  have hsending := h.sending
  refine ⟨(prefix_append _ _).trans hsending.queued.concat, hsending.queued.bounded, ?_,
    hsending.wired.wire, fun now event hnone => ?_⟩
  · rw [hsending.queued.size, length_unsent]
  · obtain ⟨d, hd, _⟩ := hsending.handle now event
    rw [hnone] at hd
    cases hd

/-- The handler of an event that can happen. -/
def advance (env : StreamEnv) (c : StreamConnection) (event : Int × StreamEvent) :
    Option StreamConnection :=
  if c.enabled event.2 then c.handle env event.1 event.2 else none

theorem Reachable.exec {events : List (Int × StreamEvent)} (h : Reachable env c)
    (hrun : exec (advance env) c events = some d) : Reachable env d := by
  refine exec_preserves (fun s event t hs hstep => ?_) h hrun
  unfold advance at hstep
  split at hstep
  case isTrue henabled => exact .next hs ⟨henabled, event.1, hstep⟩
  case isFalse => cases hstep

/-- The cipher under a key of zeros, on the two padded plaintexts below. -/
def zeroKeyAes : Aes where
  encryptCbc aesKey data :=
    if aesKey = List.replicate BDT_AES_KEY_LENGTH 0 ∧ data = [1, 2, 3, 4] ++ List.replicate 12 12 then
      [153, 51, 94, 36, 206, 189, 75, 160, 31, 146, 74, 142, 151, 135, 201, 131]
    else if aesKey = List.replicate BDT_AES_KEY_LENGTH 0 ∧ data = [5, 6] ++ List.replicate 14 14 then
      [142, 214, 94, 119, 42, 124, 236, 104, 168, 67, 88, 175, 121, 21, 114, 170]
    else data
  decryptCbc _ data := data
  length_encryptCbc aesKey data := by
    split
    case isTrue h => rw [h.2]; rfl
    · split
      case isTrue h => rw [h.2]; rfl
      case isFalse => rfl

/-- A connection with records of at most four bytes. -/
def fourByteEnv : StreamEnv where
  config := { minRecordSize := 1, maxRecordSize := 4, maxNagleDelay := 0, min_le_max := by decide }
  aes := zeroKeyAes
  aesKey := List.replicate BDT_AES_KEY_LENGTH 0

/-- Six bytes go out in two records; the socket takes the first one in two parts. -/
theorem stream_sending_split : ∃ c, Reachable fourByteEnv c ∧
    records c.history = [[1, 2, 3, 4], [5, 6]] ∧ (wireBytes c.history).length = 18 ∧
    wireBytes c.history <+: (records c.history).flatMap (boxBytes fourByteEnv) := by
  obtain ⟨c, hrun, hc⟩ := exists_of_any
    (o := exec (advance fourByteEnv) {}
      [(0, .send [1, 2, 3, 4, 5, 6] 0), (0, .sendRecord 3), (0, .drain 100), (0, .syncSent)])
    (p := fun c => records c.history = [[1, 2, 3, 4], [5, 6]] ∧ (wireBytes c.history).length = 18)
    (by decide +kernel)
  obtain ⟨hrecords, hwire⟩ := of_decide_eq_true hc
  have hreach : Reachable fourByteEnv c := Reachable.exec (.start rfl) hrun
  exact ⟨c, hreach, hrecords, hwire, (stream_sending hreach).2.2.2.1⟩

end StreamConnection

end Bdt
