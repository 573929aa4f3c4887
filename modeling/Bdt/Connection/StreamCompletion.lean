import Bdt.Base.History
import Bdt.Connection.StreamSending

/-!
# The callbacks of a stream connection

Every buffer that `StreamConnectionSend` takes should get its callback once: with success when all of
its bytes are in records, or with an error when the connection was closed before. A run keeps the
requests that it took beside the connection (`StreamRun`), and `Completed` says what the callbacks owe
them. The code pays, as long as it puts no request into the queue of which no byte is left:
`stream_completion_iff`.
-/

namespace Bdt

open Base List

/-- A request that `StreamConnectionSend` took. -/
structure SendRequest where
  buffer : List UInt8
  userData : Nat
  deriving DecidableEq, Repr

/-- The callback of a request. An error reports no bytes. -/
def SendRequest.notice (success : Bool) (request : SendRequest) : StreamEntry :=
  .callback success request.userData (if success then request.buffer.length else 0)

/-- The user data of the callbacks, in order. -/
def StreamEntry.completed (history : List StreamEntry) : List Nat :=
  history.filterMap fun
    | .callback _ userData _ => some userData
    | _ => none

/-- The request that an item stands for; none for a part of a request. -/
def StreamConnectionSendRequestListItem.request (item : StreamConnectionSendRequestListItem) :
    Option SendRequest :=
  item.callback.map fun userData => { buffer := item.buffer, userData := userData }

open StreamEntry StreamConnection

/-- A stream connection, and the requests that it has taken. -/
structure StreamRun where
  requests : List SendRequest := []
  connection : StreamConnection := {}
  deriving DecidableEq, Repr

namespace StreamConnection

/-- The request that a handler takes. -/
def takenBy (c : StreamConnection) : StreamEvent → List SendRequest
  | .send buffer userData => if c.sendClosed then [] else [{ buffer, userData }]
  | _ => []

/-- A run takes a step. -/
def advanceRun (env : StreamEnv) (r : StreamRun) (event : Int × StreamEvent) : Option StreamRun :=
  (advance env r.connection event).map fun c =>
    { requests := r.requests ++ r.connection.takenBy event.2, connection := c }

/-- Something will happen to the connection: a call or a timer is due, or the socket has not taken
all of a record. -/
def Awaited (c : StreamConnection) : Prop :=
  0 < c.sendRecordDue ∨ 0 < c.immediates ∨ c.nagleTimer = true ∨ c.pendingRecordSize ≠ 0

/-- A callback with success is that of the next request, with its length, and its bytes and those of
all requests before it are in records. -/
def Succeeds (requests : List SendRequest) (front : List StreamEntry) : StreamEntry → Prop
  | .callback true userData length =>
    ∃ request, requests[(completed front).length]? = some request ∧
      userData = request.userData ∧ length = request.buffer.length ∧
      (requests.take ((completed front).length + 1)).flatMap (·.buffer) <+:
        (records front).flatten
  | _ => True

/-- What the callbacks owe to the requests. -/
structure Completed (r : StreamRun) : Prop where
  /-- A request has got its callback, or it waits in the queue, where every item has one. -/
  once : completed r.connection.history ++ r.connection.sendRequests.filterMap (·.callback) =
    r.requests.map (·.userData)
  success : Justified (Succeeds r.requests) r.connection.history
  failure : ∀ userData length, .callback false userData length ∈ r.connection.history →
    r.connection.sendClosed = true
  /-- No request waits when no byte does. -/
  drained : r.connection.sendRequestSize = 0 → r.connection.sendRequests = []
  awaited : r.connection.sendRequests ≠ [] → r.connection.Awaited

/-- A request that is queued leaves bytes in the queue: it is not empty while the queue has no bytes,
and it does not fill up a record exactly. -/
def LeavesBytes (env : StreamEnv) (c : StreamConnection) : StreamEvent → Prop
  | .send buffer _ => c.sendClosed = false →
      (c.sendRequestSize = 0 → buffer ≠ []) ∧
      (c.recordSize = 0 → c.sendRequestSize < env.config.minRecordSize →
        c.sendRequestSize + buffer.length ≠ env.config.maxRecordSize)
  | _ => True

variable {env : StreamEnv} {c d : StreamConnection}

/-! ## Histories -/

theorem completed_append (history more : List StreamEntry) :
    completed (history ++ more) = completed history ++ completed more :=
  filterMap_append

theorem completed_notices (success : Bool) (requests : List SendRequest) :
    completed (requests.map (SendRequest.notice success)) = requests.map (·.userData) := by
  induction requests with
  | nil => rfl
  | cons request _ ih => exact congrArg (request.userData :: ·) ih

theorem notice_isNotice (success : Bool) (requests : List SendRequest) :
    ∀ entry ∈ requests.map (SendRequest.notice success), entry.isNotice = true := by
  intro entry hmem
  obtain ⟨request, _, rfl⟩ := mem_map.mp hmem
  rfl

/-- Without callbacks there are none in the history. -/
theorem not_mem_of_completed_eq_nil {history : List StreamEntry} (h : completed history = [])
    (success : Bool) (userData length : Nat) : .callback success userData length ∉ history := by
  intro hmem
  have hnone := filterMap_eq_nil_iff.mp h _ hmem
  cases hnone

theorem sentCallbacks_eq (items : List StreamConnectionSendRequestListItem) :
    sentCallbacks items = (items.filterMap (·.request)).map (SendRequest.notice true) := by
  unfold sentCallbacks
  rw [map_filterMap]
  congr 1
  funext item
  unfold StreamConnectionSendRequestListItem.request
  cases item.callback <;> rfl

/-! ## The queue -/

/-- The items of a queue stand for these requests. -/
def Waiting (items : List StreamConnectionSendRequestListItem) (waiting : List SendRequest) : Prop :=
  items.map (·.request) = waiting.map some

/-- All the bytes put together. -/
def bytesOf (requests : List SendRequest) : List UInt8 :=
  requests.flatMap (·.buffer)

theorem bytesOf_append (requests more : List SendRequest) :
    bytesOf (requests ++ more) = bytesOf requests ++ bytesOf more :=
  flatMap_append

variable {items : List StreamConnectionSendRequestListItem} {waiting : List SendRequest}
  {plain : List UInt8}

theorem Waiting.filterMap (h : Waiting items waiting) : items.filterMap (·.request) = waiting := by
  have hid : (items.map (·.request)).filterMap id = (waiting.map some).filterMap id := by rw [h]
  rw [filterMap_map, filterMap_map] at hid
  exact hid.trans filterMap_some

theorem Waiting.callbacks (h : Waiting items waiting) :
    items.filterMap (·.callback) = waiting.map (·.userData) := by
  have hmap : (items.filterMap (·.request)).map (·.userData) = items.filterMap (·.callback) := by
    rw [map_filterMap]
    congr 1
    funext item
    unfold StreamConnectionSendRequestListItem.request
    cases item.callback <;> rfl
  rw [← hmap, h.filterMap]

theorem Waiting.cons_inv {item : StreamConnectionSendRequestListItem}
    (h : Waiting (item :: items) waiting) :
    ∃ request rest, waiting = request :: rest ∧ item.request = some request ∧
      Waiting items rest := by
  cases waiting with
  | nil => cases h
  | cons request rest =>
    obtain ⟨hhead, htail⟩ := cons.inj h
    exact ⟨request, rest, rfl, hhead, htail⟩

theorem Waiting.length_unsent_le (h : Waiting items waiting) :
    (unsent items).length ≤ (bytesOf waiting).length := by
  induction items generalizing waiting with
  | nil => exact Nat.zero_le _
  | cons item _ ih =>
    obtain ⟨request, rest, rfl, hrequest, hrest⟩ := h.cons_inv
    obtain ⟨userData, _, rfl⟩ := Option.map_eq_some_iff.mp hrequest
    rw [unsent_cons, length_append, item.length_rest]
    show _ ≤ (item.buffer ++ bytesOf rest).length
    rw [length_append]
    exact Nat.add_le_add (Nat.sub_le _ _) (ih hrest)

theorem Waiting.append {more : List StreamConnectionSendRequestListItem}
    {rest : List SendRequest} (h : Waiting items waiting) (hmore : Waiting more rest) :
    Waiting (items ++ more) (waiting ++ rest) := by
  unfold Waiting at *
  rw [map_append, map_append, h, hmore]

/-- The loop calls back for the requests that it takes off the queue, and leaves the others. -/
theorem takeLoop_waiting {toRecordSize recordSize : Nat}
    {toRecord rest : List StreamConnectionSendRequestListItem}
    (h : takeLoop toRecordSize recordSize items = (toRecord, rest)) (hwaiting : Waiting items waiting) :
    ∃ taken left, waiting = taken ++ left ∧ Waiting rest left ∧
      toRecord.filterMap (·.request) = taken := by
  induction items generalizing recordSize toRecord rest waiting with
  | nil =>
    cases h
    exact ⟨[], waiting, rfl, hwaiting, rfl⟩
  | cons item items ih =>
    obtain ⟨request, waiting, rfl, hrequest, hitems⟩ := hwaiting.cons_inv
    unfold takeLoop at h
    split at h
    case isTrue =>
      obtain ⟨rfl, rfl⟩ := h
      exact ⟨[], request :: waiting, rfl, hwaiting, rfl⟩
    case isFalse =>
    generalize htake : takeLoop toRecordSize (recordSize + (item.length - item.offset)) items =
      taken at h
    obtain ⟨rfl, rfl⟩ := h
    obtain ⟨taken, left, rfl, hleft, htaken⟩ := ih htake hitems
    refine ⟨request :: taken, left, rfl, hleft, ?_⟩
    rw [filterMap_cons_some hrequest, htaken]

/-- The loop empties a queue that has just the bytes that the record lacks. -/
theorem takeLoop_exact {toRecordSize recordSize : Nat}
    (hinside : OffsetsInside items)
    (h : recordSize + (unsent items).length = toRecordSize) :
    (takeLoop toRecordSize recordSize items).2 = [] := by
  induction items generalizing recordSize with
  | nil => rfl
  | cons item _ ih =>
    rw [unsent_cons, length_append, item.length_rest] at h
    unfold takeLoop
    rw [if_neg (by omega)]
    exact ih (fun other hmem => hinside other (mem_cons_of_mem _ hmem)) (by omega)

/-! ## What a handler hands over -/

/-- The records and the queue together are what was accepted. -/
def Whole (c : StreamConnection) : Prop :=
  (records c.history).flatten ++ unsent c.sendRequests = acceptedBytes c.history

/-- A step gives the callbacks of the requests `taken`, which are the first of those that waited and
of the new ones; `left` wait behind it. -/
structure Handed (success : Bool) (new waiting taken left : List SendRequest)
    (c d : StreamConnection) : Prop where
  requests : waiting ++ new = taken ++ left
  queue : Waiting d.sendRequests left
  history : ∃ before after, d.history =
      c.history ++ before ++ taken.map (SendRequest.notice success) ++ after ∧
    completed before = [] ∧ completed after = [] ∧ records after = []
  accepted : acceptedBytes d.history = acceptedBytes c.history ++ bytesOf new
  refused : c.sendClosed = true → new = []
  closed : c.sendClosed = true → d.sendClosed = true
  whole : success = true → c.Whole → d.Whole
  failed : success = false → d.sendClosed = true ∧ left = []

/-- A step that adds no callbacks, records and buffers, and leaves the queue alone. -/
theorem Handed.frame {more : List StreamEntry}
    (hwaiting : Waiting c.sendRequests waiting) (hqueue : d.sendRequests = c.sendRequests)
    (hhistory : d.history = c.history ++ more) (hcompleted : completed more = [])
    (hrecords : records more = []) (haccepted : acceptedBytes more = [])
    (hclosed : c.sendClosed = true → d.sendClosed = true) :
    Handed true [] waiting [] waiting c d where
  requests := append_nil _
  queue := hqueue ▸ hwaiting
  history := ⟨more, [], by simp [hhistory], hcompleted, rfl, rfl⟩
  accepted := by
    rw [hhistory, acceptedBytes_append, haccepted]
    rfl
  refused _ := rfl
  closed := hclosed
  whole _ hwhole := by
    unfold Whole at *
    rw [hhistory, hqueue, records_append, acceptedBytes_append, hrecords, haccepted,
      append_nil, append_nil]
    exact hwhole
  failed := nofun

theorem handed_sendPending (hwaiting : Waiting c.sendRequests waiting)
    (sent : Nat) : Handed true [] waiting [] waiting c (c.sendPending sent) := by
  unfold sendPending tcpInterfaceSend
  split
  · exact .frame hwaiting rfl (append_nil _).symm rfl rfl rfl id
  by_cases hclosed : c.interfaceClosed = true
  · rw [if_pos hclosed]
    exact .frame hwaiting rfl rfl rfl rfl rfl id
  · rw [if_neg hclosed]
    exact .frame hwaiting rfl rfl rfl rfl rfl id

theorem Handed.trans_frame {e : StreamConnection}
    {more : List StreamEntry} (h : Handed true [] waiting [] waiting c d)
    (hqueue : e.sendRequests = d.sendRequests) (hhistory : e.history = d.history ++ more)
    (hcompleted : completed more = []) (hrecords : records more = [])
    (haccepted : acceptedBytes more = []) (hclosed : d.sendClosed = true → e.sendClosed = true) :
    Handed true [] waiting [] waiting c e := by
  have hframe := Handed.frame h.queue hqueue hhistory hcompleted hrecords haccepted hclosed
  obtain ⟨before, after, heq, hbefore, hafter, hnone⟩ := h.history
  refine ⟨h.requests, hframe.queue, ⟨before, after ++ more, ?_, hbefore, ?_, ?_⟩, ?_, h.refused,
    fun hc => hclosed (h.closed hc), fun hs hc => hframe.whole hs (h.whole hs hc), nofun⟩
  · rw [hhistory, heq]
    simp
  · rw [completed_append, hafter, hcompleted]
    rfl
  · rw [records_append, hnone, hrecords]
    rfl
  · rw [hframe.accepted, h.accepted]
    simp [bytesOf]

section

variable (hwaiting : Waiting c.sendRequests waiting)
include hwaiting

theorem handed_sendRecord
    (sent : Nat) : Handed true [] waiting [] waiting c (c.sendRecord sent) := by
  have hpending := handed_sendPending hwaiting sent
  unfold sendRecord
  simp only
  split
  · split
    · exact hpending.trans_frame rfl rfl rfl rfl rfl id
    · exact hpending.trans_frame rfl (append_nil _).symm rfl rfl rfl id
  · exact hpending

theorem handed_close : Handed true [] waiting [] waiting c c.close := by
  unfold close
  split
  · exact .frame hwaiting rfl (append_nil _).symm rfl rfl rfl id
  simp only
  split
  · exact .frame hwaiting rfl rfl rfl rfl rfl fun _ => rfl
  · exact .frame hwaiting rfl (append_nil _).symm rfl rfl rfl fun _ => rfl

/-- `StreamConnectionCancelPendingSend` calls back for every request. -/
theorem handed_cancelPendingSend : Handed false [] waiting waiting [] c c.cancelPendingSend := by
  have hcallbacks : (c.sendRequests.filterMap fun item =>
      item.callback.map fun userData => StreamEntry.callback false userData 0) =
        waiting.map (SendRequest.notice false) := by
    rw [← hwaiting.filterMap, map_filterMap]
    congr 1
    funext item
    unfold StreamConnectionSendRequestListItem.request
    cases item.callback <;> rfl
  have hnotices := notices (notice_isNotice false waiting)
  refine ⟨rfl, rfl, ⟨[], [], ?_, rfl, rfl, rfl⟩, ?_, fun _ => rfl, fun _ => rfl, nofun,
    fun _ => ⟨rfl, rfl⟩⟩
  · show c.history ++ _ = _
    rw [hcallbacks, append_nil, append_nil]
  · show acceptedBytes (c.history ++ _) = _
    rw [hcallbacks, acceptedBytes_append, hnotices.1]
    rfl

end

variable {callbacks : List StreamEntry}

theorem putRecord_history (h : c.putRecord env plain callbacks = some d) :
    d.history = c.history ++ [.record plain] ++ callbacks := by
  unfold putRecord encodeRecord at h
  cases hbox : boxCryptoData env plain with
  | none => rw [hbox] at h; cases h
  | some =>
    rw [hbox] at h
    exact Option.some.inj h ▸ rfl

theorem Handed.put {b : StreamConnection} {new taken left : List SendRequest}
    (h : b.putRecord env plain (taken.map (SendRequest.notice true)) = some d)
    (hput : Put env plain b d) (hqueue : Waiting b.sendRequests left)
    (hrequests : waiting ++ new = taken ++ left)
    (hplain : plain ++ unsent b.sendRequests = unsent c.sendRequests ++ bytesOf new)
    (hhistory : b.history = c.history ++ new.map fun request => .accept request.buffer)
    (hclosed : b.sendClosed = c.sendClosed) (hnew : c.sendClosed = true → new = []) :
    Handed true new waiting taken left c d := by
  have haccepts : acceptedBytes (new.map fun request => .accept request.buffer) = bytesOf new := by
    unfold acceptedBytes bytesOf
    rw [flatMap_map]
  have hnone : completed (new.map fun request => .accept request.buffer) = [] := by
    unfold completed
    rw [filterMap_map]
    exact filterMap_eq_nil_iff.mpr fun _ _ => rfl
  have hrecords : records (new.map fun request => .accept request.buffer) = [] := by
    unfold records
    rw [filterMap_map]
    exact filterMap_eq_nil_iff.mpr fun _ _ => rfl
  have hd := putRecord_history h
  have haccepted : acceptedBytes d.history = acceptedBytes c.history ++ bytesOf new := by
    rw [hput.accepted, hhistory, acceptedBytes_append, haccepts]
  refine ⟨hrequests, hput.sendRequests ▸ hqueue, ⟨(new.map fun request => .accept request.buffer) ++
    [.record plain], [], ?_, ?_, rfl, rfl⟩, haccepted, hnew, fun hc => ?_, fun _ hwhole => ?_, nofun⟩
  · rw [hd, hhistory]
    simp
  · rw [completed_append, hnone]
    rfl
  · rw [hput.sendClosed, hclosed]
    exact hc
  unfold Whole at *
  rw [haccepted, hput.records, hput.sendRequests, hhistory, records_append, hrecords,
    append_nil, flatten_append, flatten_singleton, append_assoc, hplain,
    ← append_assoc, hwhole]

/-! ## What is due -/

/-- A connection with requests has bytes to send, and one with a record has it in the buffer. -/
structure Filled (c : StreamConnection) : Prop where
  drained : c.sendRequestSize = 0 → c.sendRequests = []
  buffered : c.recordSize ≠ 0 → c.pendingRecordSize ≠ 0

/-- A connection with requests will go on to send them. -/
structure Due (c : StreamConnection) : Prop extends Filled c where
  awaited : c.sendRequests ≠ [] → c.Awaited

/-- A record goes into the buffer, and `StreamConnectionSendRecord` will be called. -/
theorem putRecord_due (h : c.putRecord env plain callbacks = some d) :
    d.pendingRecordSize ≠ 0 ∧ d.sendRecordDue = c.sendRecordDue + 1 := by
  unfold putRecord encodeRecord boxCryptoData at h
  cases hencrypted : Bdt_AesEncryptDataWithPadding env.aes env.aesKey plain
      (recordBufferLength env) with
  | none => rw [hencrypted] at h; cases h
  | some encrypted =>
    rw [hencrypted] at h
    exact Option.some.inj h ▸ ⟨Nat.succ_ne_zero _, rfl⟩

theorem Put.due {b : StreamConnection}
    (hput : Put env plain b d) (h : b.putRecord env plain callbacks = some d)
    (hdrained : b.sendRequestSize = 0 → b.sendRequests = []) : d.Due := by
  obtain ⟨hpending, hdue⟩ := putRecord_due h
  refine ⟨⟨fun hzero => ?_, fun _ => hpending⟩, fun _ => .inr (.inr (.inr hpending))⟩
  rw [hput.sendRequests]
  exact hdrained (hput.sendRequestSize ▸ hzero)

section Plan

variable {now delay : Int} {toRecordSize : Nat}
  {toRecord rest : List StreamConnectionSendRequestListItem} {waiting : List SendRequest}

/-- The record takes the first requests off the queue. -/
theorem planRecord_waiting (hplan : c.planRecord env now = (toRecordSize, toRecord, rest, delay))
    (hwaiting : Waiting c.sendRequests waiting) :
    ∃ taken left, waiting = taken ++ left ∧ Waiting rest left ∧
      toRecord.filterMap (·.request) = taken := by
  obtain ⟨-, -, rfl, rfl⟩ | ⟨-, -, htake⟩ | ⟨-, rfl, rfl, -⟩ := planRecord_cases hplan
  · exact ⟨waiting, [], (append_nil _).symm, rfl, hwaiting.filterMap⟩
  · exact takeLoop_waiting htake hwaiting
  · exact ⟨[], waiting, rfl, hwaiting, rfl⟩

/-- No record: the queue stays, and a timer is set for it. -/
theorem Filled.planRecord_none (hfilled : c.Filled) (hmin : 0 < env.config.minRecordSize)
    (hplan : c.planRecord env now = (0, toRecord, rest, delay)) :
    rest = c.sendRequests ∧ (rest ≠ [] → 0 < delay) := by
  have hbounds := env.config.min_le_max
  obtain ⟨-, hzero, -, rfl⟩ | ⟨-, hzero, -⟩ | ⟨-, -, rfl, hdelay⟩ := planRecord_cases hplan
  · exact ⟨(hfilled.drained hzero.symm).symm, fun hsome => absurd rfl hsome⟩
  · omega
  · exact ⟨rfl, fun hsome => hdelay (fun hzero => hsome (hfilled.drained hzero)) hsome⟩

theorem Queued.planRecord_exact (h : c.Queued env)
    (hplan : c.planRecord env now = (toRecordSize, toRecord, rest, delay))
    (hsome : toRecordSize ≠ 0) (hexact : c.sendRequestSize = toRecordSize) : rest = [] := by
  obtain ⟨-, -, -, hrest⟩ | ⟨-, rfl, htake⟩ | ⟨hzero, -⟩ := planRecord_cases hplan
  · exact hrest
  · have hlength : 0 + (unsent c.sendRequests).length = env.config.maxRecordSize := by
      rw [← h.size, hexact, Nat.zero_add]
    have hempty := takeLoop_exact h.inside hlength
    rw [htake] at hempty
    exact hempty
  · exact absurd hzero hsome

end Plan

theorem served_checkPendingSend (hs : c.Sending env) (hfilled : c.Filled)
    (hmin : 0 < env.config.minRecordSize) {waiting : List SendRequest}
    (hwaiting : Waiting c.sendRequests waiting) {now : Int}
    (h : c.checkPendingSend env now = some d) :
    (∃ taken left, Handed true [] waiting taken left c d) ∧ d.Due := by
  unfold checkPendingSend at h
  split at h
  case isTrue hrecord =>
    cases h
    exact ⟨⟨[], waiting, .frame hwaiting rfl (append_nil _).symm rfl rfl rfl id⟩,
      hfilled, fun _ => .inr (.inr (.inr (hfilled.buffered hrecord)))⟩
  generalize hplan : c.planRecord env now = plan at h
  obtain ⟨toRecordSize, toRecord, rest, delay⟩ := plan
  simp only at h
  split at h
  case isTrue hsome =>
    obtain ⟨taken, left, rfl, hleft, htaken⟩ := planRecord_waiting hplan hwaiting
    obtain ⟨hconcat, hlen, hfits, hle, hinside⟩ := hs.queued.planRecord hplan
    unfold putRequests at h
    rw [if_pos (show (toRecord.flatMap (·.rest)).length = toRecordSize from hlen),
      sentCallbacks_eq, htaken] at h
    obtain ⟨e, he, hput⟩ := putRecord_put env { c with
        sendRequests := rest
        sendRequestSize := wordSub 64 c.sendRequestSize toRecordSize
        recordSize := toRecordSize }
      (show (unsent toRecord).length ≤ _ by omega) (notice_isNotice true taken)
    cases he.symm.trans h
    constructor
    · refine ⟨taken, left, .put h hput hleft (append_nil _) ?_ (append_nil _).symm rfl
        fun _ => rfl⟩
      exact hconcat.trans (append_nil _).symm
    refine hput.due h fun hzero => hs.queued.planRecord_exact hplan hsome ?_
    have hsub : wordSub 64 c.sendRequestSize toRecordSize = 0 := hzero
    rw [wordSub_of_le hle] at hsub
    omega
  case isFalse hzero =>
  obtain rfl := Decidable.not_not.mp hzero
  obtain ⟨rfl, hdelay⟩ := hfilled.planRecord_none hmin hplan
  have hkept : Filled { c with
      sendRequestSize := wordSub 64 c.sendRequestSize 0
      recordSize := 0 } := by
    refine ⟨fun hsize => hfilled.drained ?_, fun hne => absurd rfl hne⟩
    rw [← hsize]
    exact (wordSub_of_le (Nat.zero_le _)).symm
  split at h <;> cases h <;>
    refine ⟨⟨[], waiting, .frame hwaiting rfl (append_nil _).symm rfl rfl rfl id⟩, ?_⟩
  case isTrue => exact ⟨⟨hkept.drained, hkept.buffered⟩, fun _ => .inr (.inr (.inl rfl))⟩
  case isFalse hnone => exact ⟨hkept, fun hsome => absurd (hdelay hsome) hnone⟩

theorem due_sendRecord (hfilled : c.Filled) (sent : Nat) : (c.sendRecord sent).Due := by
  have hqueue : (c.sendPending sent).sendRequests = c.sendRequests ∧
      (c.sendPending sent).sendRequestSize = c.sendRequestSize :=
    ⟨(sendPending_queue sent c).2.2.1, (sendPending_queue sent c).2.2.2.1⟩
  have hdrained : (c.sendPending sent).sendRequestSize = 0 → (c.sendPending sent).sendRequests = [] := by
    rw [hqueue.1, hqueue.2]
    exact hfilled.drained
  unfold sendRecord
  generalize c.sendPending sent = e at hdrained
  simp only
  split
  case isFalse hpending =>
    exact ⟨⟨hdrained, fun _ => hpending⟩, fun _ => .inr (.inr (.inr hpending))⟩
  case isTrue =>
  split
  case isTrue hdone =>
    exact ⟨⟨hdrained, fun hne => absurd rfl hne⟩, fun hsome => absurd (hdrained hdone.1) hsome⟩
  case isFalse =>
    exact ⟨⟨hdrained, fun hne => absurd rfl hne⟩, fun _ => .inr (.inl (Nat.succ_pos _))⟩

/-! ## `StreamConnectionSend` -/

section Send

variable {buffer : List UInt8} {userData : Nat} {now : Int} {waiting : List SendRequest}

theorem takenBy_send (hopen : c.sendClosed = false) :
    c.takenBy (.send buffer userData) = [{ buffer, userData }] := by
  unfold takenBy
  rw [hopen]
  rfl

theorem takenBy_closed (hclosed : c.sendClosed = true) :
    c.takenBy (.send buffer userData) = [] := by
  unfold takenBy
  rw [hclosed]
  rfl

theorem handed_push (hs : c.Sending env) (hopen : c.sendClosed = false)
    (hwaiting : Waiting c.sendRequests waiting) (buffer : List UInt8) (userData : Nat) (now : Int)
    (timer : Bool) :
    Handed true [⟨buffer, userData⟩] waiting [] (waiting ++ [⟨buffer, userData⟩]) c
      { ({ c with history := c.history ++ [StreamEntry.accept buffer] }).pushRequest
          { buffer := buffer, callback := some userData, postTime := now } with
        nagleTimer := timer } := by
  have hpushed := hs.push hopen now buffer userData
  refine ⟨rfl, hwaiting.append rfl, ⟨[.accept buffer], [], ?_, rfl, rfl, rfl⟩, ?_, by simp [hopen],
    id, fun _ _ => hpushed.queued.whole hopen, nofun⟩
  · exact (append_nil _).symm.trans (congrArg (· ++ []) (append_nil _).symm)
  · exact acceptedBytes_append _ _

theorem putWithBuffer_some (hs : c.Sending env) {toRecordSize : Nat} {next : StreamConnection}
    {callbacks : List StreamEntry}
    (h : next.putWithBuffer env toRecordSize c.sendRequests buffer callbacks = some d)
    (hfits : toRecordSize ≤ env.config.maxRecordSize)
    (hrest : unsent next.sendRequests = buffer.drop (toRecordSize - c.sendRequestSize))
    (hcallbacks : ∀ entry ∈ callbacks, entry.isNotice = true) :
    ∃ plain, next.putRecord env plain (sentCallbacks c.sendRequests ++ callbacks) = some d ∧
      Put env plain next d ∧ plain ++ unsent next.sendRequests = unsent c.sendRequests ++ buffer := by
  have hroom : c.sendRequestSize < toRecordSize ∧
      toRecordSize - c.sendRequestSize ≤ buffer.length := by
    rw [hs.queued.size]
    by_contra hfull
    cases (if_neg hfull).symm.trans h
  obtain ⟨plain, e, he, hrecord, hput, hwhole, -⟩ :=
    putWithBuffer_put hs.queued.size hroom hfits hrest hcallbacks
  cases he.symm.trans h
  exact ⟨plain, hrecord, hput, hwhole⟩

theorem served_send (hs : c.Sending env) (hdue : c.Due) (hmin : 0 < env.config.minRecordSize)
    (hleaves : c.LeavesBytes env (.send buffer userData)) (hwaiting : Waiting c.sendRequests waiting)
    (h : c.send env now buffer userData = some d) :
    (∃ taken left, Handed true (c.takenBy (.send buffer userData)) waiting taken left c d) ∧
      d.Due := by
  unfold send at h
  split at h
  case isTrue hclosed =>
    cases h
    refine ⟨⟨[], waiting, ?_⟩, hdue⟩
    rw [takenBy_closed hclosed]
    exact .frame hwaiting rfl (append_nil _).symm rfl rfl rfl id
  case isFalse hopen =>
  rw [Bool.not_eq_true] at hopen
  rw [takenBy_send hopen]
  obtain ⟨hnonempty, hexact⟩ := hleaves hopen
  have hsome : c.sendRequestSize + buffer.length ≠ 0 := by
    intro hzero
    exact hnonempty (by omega) (length_eq_zero_iff.mp (by omega))
  have hfilled : Filled (({ c with history := c.history ++ [StreamEntry.accept buffer] }).pushRequest
      { buffer := buffer, callback := some userData, postTime := now }) :=
    ⟨fun hzero => absurd hzero hsome, hdue.buffered⟩
  have hhanded := handed_push hs hopen hwaiting buffer userData now
  simp only at h
  split at h
  case isTrue hrecord =>
    cases h
    exact ⟨⟨_, _, hhanded c.nagleTimer⟩, hfilled,
      fun _ => .inr (.inr (.inr (hdue.buffered hrecord)))⟩
  case isFalse hrecord =>
  rw [Decidable.not_not] at hrecord
  split at h
  case isFalse hmany =>
    -- bytes were waiting already, so a check is on its way
    cases h
    refine ⟨⟨_, _, hhanded c.nagleTimer⟩, hfilled, fun _ => hdue.awaited fun hnone => ?_⟩
    have hsize := hs.queued.size
    rw [hnone] at hsize
    have hzero : c.sendRequestSize = 0 := hsize
    omega
  case isTrue hfew =>
  split at h
  case isFalse =>
    cases h
    exact ⟨⟨_, _, hhanded true⟩, ⟨hfilled.drained, hfilled.buffered⟩,
      fun _ => .inr (.inr (.inl rfl))⟩
  case isTrue henough =>
  split at h
  case isTrue hless =>
    -- the record takes everything
    have hrest : unsent [] = buffer.drop (c.sendRequestSize + buffer.length -
        c.sendRequestSize) := by
      rw [Nat.add_sub_cancel_left, drop_length]
      rfl
    obtain ⟨plain, hd, hput, hplain⟩ := putWithBuffer_some hs h (Nat.le_of_lt hless) hrest
      (by simp [isNotice])
    have hcallbacks : sentCallbacks c.sendRequests ++
        [StreamEntry.callback true userData buffer.length] =
          (waiting ++ [SendRequest.mk buffer userData]).map (SendRequest.notice true) := by
      rw [sentCallbacks_eq, hwaiting.filterMap, map_append]
      rfl
    refine ⟨⟨waiting ++ [⟨buffer, userData⟩], [], ?_⟩, hput.due hd fun _ => rfl⟩
    refine .put (hcallbacks ▸ hd) hput rfl (append_nil _).symm ?_ rfl rfl (by simp [hopen])
    rw [hplain]
    exact congrArg (_ ++ ·) (append_nil _).symm
  case isFalse hfull =>
  -- a part of the buffer stays behind
  have hbounds := env.config.min_le_max
  have hfull : env.config.maxRecordSize ≤ c.sendRequestSize + buffer.length :=
    Nat.not_lt.mp hfull
  obtain ⟨hsub, hleft⟩ := wordSub_full (by omega) hfull
  obtain ⟨plain, hd, hput, hplain⟩ := putWithBuffer_some hs h (Nat.le_refl _) (by
    show buffer.drop (wordSub 64 _ _) ++ [] = _
    rw [hsub, append_nil]) (by simp)
  have hcallbacks : sentCallbacks c.sendRequests ++ [] = waiting.map (SendRequest.notice true) := by
    rw [sentCallbacks_eq, hwaiting.filterMap, append_nil]
  refine ⟨⟨waiting, [⟨buffer, userData⟩], ?_⟩, hput.due hd fun hzero => ?_⟩
  · refine .put (hcallbacks ▸ hd) hput rfl rfl ?_ rfl rfl (by simp [hopen])
    rw [hplain]
    exact congrArg (_ ++ ·) (append_nil _).symm
  have hnone : wordSub 64 buffer.length (wordSub 64 env.config.maxRecordSize
      c.sendRequestSize) = 0 := hzero
  rw [hsub, hleft] at hnone
  omega

end Send

/-! ## Runs -/

variable {taken left : List SendRequest}

variable {success : Bool} {new waiting : List SendRequest} {event : Int × StreamEvent}
  {history : List StreamEntry} {t : StreamRun}

theorem Handed.start {b : StreamConnection} (h : Handed success new waiting taken left b d)
    (hhistory : b.history = c.history) (hqueue : b.sendRequests = c.sendRequests)
    (hclosed : b.sendClosed = c.sendClosed) : Handed success new waiting taken left c d := { h with
  history := hhistory ▸ h.history
  accepted := hhistory ▸ h.accepted
  refused := hclosed ▸ h.refused
  closed := hclosed ▸ h.closed
  whole hs hwhole := h.whole hs (by
    unfold Whole
    rw [hhistory, hqueue]
    exact hwhole) }

theorem due_close (h : c.Due) : c.close.Due := by
  unfold close
  split
  · exact h
  · simp only
    split <;> exact ⟨⟨h.drained, h.buffered⟩, h.awaited⟩

theorem served_handle (hs : c.Sending env) (hdue : c.Due) (hmin : 0 < env.config.minRecordSize)
    {event : StreamEvent} (hleaves : c.LeavesBytes env event)
    (hwaiting : Waiting c.sendRequests waiting) {now : Int} (h : c.handle env now event = some d) :
    (∃ success taken left, Handed success (c.takenBy event) waiting taken left c d) ∧ d.Due := by
  have hframe : ∀ (immediates : Nat) (timer : Bool),
      Sending env { c with immediates := immediates, nagleTimer := timer } :=
    fun _ _ => ⟨hs.queued.frame rfl rfl rfl rfl id,
      hs.wired.frame rfl rfl rfl rfl rfl hs.wired.free⟩
  have hcheck : ∀ {immediates : Nat} {timer : Bool},
      ({ c with immediates := immediates, nagleTimer := timer }).checkPendingSend env now = some d →
      (∃ success taken left, Handed success [] waiting taken left c d) ∧ d.Due := by
    intro immediates timer h
    have hfilled : Filled { c with immediates := immediates, nagleTimer := timer } :=
      ⟨hdue.drained, hdue.buffered⟩
    obtain ⟨⟨taken, left, hhanded⟩, hd⟩ :=
      served_checkPendingSend (hframe _ _) hfilled hmin hwaiting h
    exact ⟨⟨true, taken, left, hhanded.start rfl rfl rfl⟩, hd⟩
  cases event with
  | send =>
    obtain ⟨⟨taken, left, hhanded⟩, hd⟩ := served_send hs hdue hmin hleaves hwaiting h
    exact ⟨⟨true, taken, left, hhanded⟩, hd⟩
  | sendRecord sent =>
    cases h
    have hhanded := handed_sendRecord (c := { c with sendRecordDue := c.sendRecordDue - 1 })
      hwaiting sent
    have hfilled : Filled { c with sendRecordDue := c.sendRecordDue - 1 } :=
      ⟨hdue.drained, hdue.buffered⟩
    exact ⟨⟨true, [], waiting, hhanded.start rfl rfl rfl⟩, due_sendRecord hfilled sent⟩
  | drain sent =>
    cases h
    exact ⟨⟨true, [], waiting, handed_sendRecord hwaiting sent⟩, due_sendRecord hdue.toFilled sent⟩
  | syncSent => exact hcheck h
  | nagleTimer => exact hcheck h
  | close =>
    cases h
    exact ⟨⟨true, [], waiting, handed_close hwaiting⟩, due_close hdue⟩
  | cancelPendingSend =>
    cases h
    exact ⟨⟨false, waiting, [], handed_cancelPendingSend hwaiting⟩,
      ⟨fun _ => rfl, fun hne => absurd rfl hne⟩, fun hsome => absurd rfl hsome⟩
  | interfaceClosed =>
    cases h
    exact ⟨⟨true, [], waiting, .frame hwaiting rfl (append_nil _).symm rfl rfl rfl id⟩,
      ⟨hdue.drained, hdue.buffered⟩, hdue.awaited⟩

/-- The requests of a run: those served, and those that wait. -/
structure Serving (env : StreamEnv) (r : StreamRun) (served waiting : List SendRequest) : Prop where
  sending : r.connection.Sending env
  due : r.connection.Due
  requests : r.requests = served ++ waiting
  queue : Waiting r.connection.sendRequests waiting
  completed : completed r.connection.history = served.map (·.userData)
  accepted : acceptedBytes r.connection.history = bytesOf r.requests
  success : Justified (Succeeds r.requests) r.connection.history
  failure : ∀ userData length, .callback false userData length ∈ r.connection.history →
    r.connection.sendClosed = true
  /-- Nothing is lost before the queue is cancelled. -/
  whole : r.connection.Whole ∨ r.connection.sendClosed = true ∧ waiting = []

theorem serving_create (env : StreamEnv) : Serving env {} [] [] where
  sending := sending_create env
  due := ⟨⟨fun _ => rfl, fun hne => absurd rfl hne⟩, fun hsome => absurd rfl hsome⟩
  requests := rfl
  queue := rfl
  completed := rfl
  accepted := rfl
  success := justified_nil
  failure _ _ hmem := by cases hmem
  whole := .inl rfl

variable {requests : List SendRequest}

theorem Succeeds.mono {front : List StreamEntry} {entry : StreamEntry}
    (h : Succeeds requests front entry) (more : List SendRequest) :
    Succeeds (requests ++ more) front entry := by
  unfold Succeeds at *
  split at h
  · obtain ⟨request, hget, huser, hlength, hbytes⟩ := h
    have hlt : (StreamEntry.completed front).length < requests.length :=
      (List.getElem?_eq_some_iff.mp hget).1
    refine ⟨request, ?_, huser, hlength, ?_⟩
    · rw [getElem?_append_left hlt]
      exact hget
    · rw [take_append_of_le_length hlt]
      exact hbytes
  · trivial

variable {r : StreamRun} {served waiting : List SendRequest}

theorem bytesOf_served (hwhole : c.Whole) (haccepted : acceptedBytes c.history = bytesOf (served ++ waiting))
    (hqueue : Waiting c.sendRequests waiting) : bytesOf served <+: (records c.history).flatten := by
  have hboth : (records c.history).flatten ++ unsent c.sendRequests = bytesOf served ++ bytesOf waiting := by
    rw [← bytesOf_append, ← haccepted]
    exact hwhole
  refine prefix_of_prefix_length_le (prefix_append _ (bytesOf waiting)) ?_ ?_
  · rw [← hboth]
    exact prefix_append _ _
  have hlength := congrArg List.length hboth
  rw [length_append, length_append] at hlength
  have hless := hqueue.length_unsent_le
  omega

theorem justified_quiet {more : List StreamEntry}
    (h : Justified (Succeeds requests) history) (hmore : StreamEntry.completed more = []) :
    Justified (Succeeds requests) (history ++ more) := by
  refine h.extend fun front x back heq => ?_
  unfold Succeeds
  split
  case h_1 userData length =>
    exact absurd (heq ▸ mem_append_right front mem_cons_self)
      (not_mem_of_completed_eq_nil hmore true userData length)
  case h_2 => trivial

theorem justified_served (h : Justified (Succeeds requests) history)
    (hrequests : requests = served ++ taken ++ left)
    (hcompleted : StreamEntry.completed history = served.map (·.userData))
    (hbytes : taken ≠ [] → bytesOf (served ++ taken) <+: (records history).flatten) :
    Justified (Succeeds requests) (history ++ taken.map (SendRequest.notice true)) := by
  refine h.extend fun front x back heq => ?_
  obtain ⟨before, rest, rfl, hfront, hrest⟩ := map_eq_append_iff.mp heq
  obtain ⟨request, after, rfl, rfl, -⟩ := map_eq_cons_iff.mp hrest
  have hlength : (StreamEntry.completed (history ++ front)).length = (served ++ before).length := by
    rw [completed_append, hcompleted, ← hfront, completed_notices, ← map_append, length_map]
  have hsplit : requests = (served ++ before) ++ request :: (after ++ left) := by
    rw [hrequests]
    simp
  refine ⟨request, ?_, rfl, rfl, ?_⟩
  · rw [hlength, hsplit, getElem?_append_right (Nat.le_refl _), Nat.sub_self]
    rfl
  have htake : requests.take ((StreamEntry.completed (history ++ front)).length + 1) =
      served ++ before ++ [request] := by
    rw [hlength, hsplit, take_length_add_append]
    rfl
  have hrecords : records (history ++ front) = records history := by
    rw [records_append, ← hfront, (notices (notice_isNotice true before)).2.1, append_nil]
  have hmore : bytesOf (served ++ (before ++ request :: after)) =
      bytesOf (served ++ before ++ [request]) ++ bytesOf after := by
    rw [← bytesOf_append]
    simp
  rw [htake, hrecords]
  exact (prefix_append _ (bytesOf after)).trans (hmore ▸ hbytes (by simp))

theorem Serving.step (h : Serving env r served waiting) (hs : d.Sending env) (hd : d.Due)
    (hhanded : Handed success new waiting taken left r.connection d) :
    Serving env { requests := r.requests ++ new, connection := d } (served ++ taken) left := by
  obtain ⟨before, after, hhistory, hbefore, hafter, hrecords⟩ := hhanded.history
  have hrequests : r.requests ++ new = served ++ taken ++ left := by
    rw [h.requests, append_assoc, hhanded.requests, append_assoc]
  have hcompleted : StreamEntry.completed (r.connection.history ++ before) =
      served.map (·.userData) := by
    rw [completed_append, hbefore, h.completed, append_nil]
  have haccepted : acceptedBytes d.history = bytesOf (r.requests ++ new) := by
    rw [hhanded.accepted, h.accepted, bytesOf_append]
  have hold : Justified (Succeeds (r.requests ++ new)) (r.connection.history ++ before) :=
    justified_quiet (fun front x back heq => (h.success front x back heq).mono new) hbefore
  -- a connection that lost requests takes and serves no more
  have hlost : r.connection.sendClosed = true ∧ waiting = [] → taken = [] ∧ left = [] := by
    intro hlost
    have hnone := hhanded.requests
    rw [hlost.2, hhanded.refused hlost.1] at hnone
    exact append_eq_nil_iff.mp hnone.symm
  refine ⟨hs, hd, hrequests, hhanded.queue, ?_, haccepted, ?_, ?_, ?_⟩
  · show StreamEntry.completed d.history = _
    rw [hhistory, completed_append, completed_append, hcompleted, completed_notices, hafter,
      append_nil, map_append]
  · show Justified (Succeeds (r.requests ++ new)) d.history
    rw [hhistory]
    refine justified_quiet ?_ hafter
    cases success with
    | false =>
      refine hold.extend fun front x back heq => ?_
      have hmem : x ∈ taken.map (SendRequest.notice false) :=
        heq ▸ mem_append_right front mem_cons_self
      obtain ⟨request, _, rfl⟩ := mem_map.mp hmem
      trivial
    | true =>
      refine justified_served hold hrequests hcompleted fun hsome => ?_
      have hwhole : d.Whole := by
        rcases h.whole with hwhole | hgone
        · exact hhanded.whole rfl hwhole
        · exact absurd (hlost hgone).1 hsome
      have hsame : records d.history = records (r.connection.history ++ before) := by
        rw [hhistory, records_append, records_append, (notices (notice_isNotice true taken)).2.1,
          hrecords, append_nil, append_nil]
      rw [← hsame]
      exact bytesOf_served hwhole (hrequests ▸ haccepted) hhanded.queue
  · intro userData length hmem
    show d.sendClosed = true
    rw [hhistory] at hmem
    rcases mem_append.mp hmem with hmem | hmem
    · rcases mem_append.mp hmem with hmem | hmem
      · rcases mem_append.mp hmem with hmem | hmem
        · exact hhanded.closed (h.failure userData length hmem)
        · exact absurd hmem (not_mem_of_completed_eq_nil hbefore _ _ _)
      obtain ⟨request, _, heq⟩ := mem_map.mp hmem
      cases success with
      | false => exact (hhanded.failed rfl).1
      | true => cases heq
    · exact absurd hmem (not_mem_of_completed_eq_nil hafter _ _ _)
  cases success with
  | false => exact .inr (hhanded.failed rfl)
  | true =>
    refine h.whole.imp (hhanded.whole rfl) fun hgone => ⟨hhanded.closed hgone.1, (hlost hgone).2⟩

/-- A run pays its callbacks, if its steps leave bytes where they queue a request. -/
theorem Serving.completed_run (h : Serving env r served waiting) : Completed r := { h with
  once := by rw [h.completed, h.queue.callbacks, h.requests, map_append]
  drained := h.due.drained
  awaited := h.due.awaited }

theorem advanceRun_cases (h : advanceRun env r event = some t) :
    ∃ d, r.connection.handle env event.1 event.2 = some d ∧
      t = { requests := r.requests ++ r.connection.takenBy event.2, connection := d } := by
  obtain ⟨d, hd, rfl⟩ := Option.map_eq_some_iff.mp h
  unfold advance at hd
  split at hd
  case isTrue => exact ⟨d, hd, rfl⟩
  case isFalse => cases hd

/-- The requests of the run can be split into those served and those that wait. -/
def Served (env : StreamEnv) (r : StreamRun) : Prop :=
  ∃ served waiting, Serving env r served waiting

theorem Served.step (h : Served env r)
    (hmin : 0 < env.config.minRecordSize) (hleaves : r.connection.LeavesBytes env event.2)
    (hstep : advanceRun env r event = some t) : Served env t := by
  obtain ⟨served, waiting, hserving⟩ := h
  obtain ⟨d, hd, rfl⟩ := advanceRun_cases hstep
  obtain ⟨⟨success, taken, left, hhanded⟩, hdue⟩ :=
    served_handle hserving.sending hserving.due hmin hleaves hserving.queue hd
  obtain ⟨e, he, hsending⟩ := hserving.sending.handle event.1 event.2
  cases he.symm.trans hd
  exact ⟨served ++ taken, left, hserving.step hsending hdue hhanded⟩

/-- A request that leaves no bytes where it is queued stays behind. -/
theorem not_drained_send (hs : c.Sending env) (hmin : 0 < env.config.minRecordSize) {now : Int}
    {buffer : List UInt8} {userData : Nat} (hleaves : ¬ c.LeavesBytes env (.send buffer userData))
    (h : c.send env now buffer userData = some d) :
    d.sendRequestSize = 0 ∧ d.sendRequests ≠ [] := by
  have hbounds := env.config.min_le_max
  unfold LeavesBytes at hleaves
  simp only [Classical.not_imp, not_and_or, Classical.not_not] at hleaves
  obtain ⟨hopen, ⟨hzero, rfl⟩ | ⟨hrecord, hfew, hexact⟩⟩ := hleaves
  · unfold send at h
    rw [if_neg (by simp [hopen])] at h
    simp only at h
    split at h
    · cases h
      exact ⟨hzero, by simp [pushRequest]⟩
    split at h
    case isFalse hmany => omega
    case isTrue =>
    split at h
    case isTrue henough =>
      have henough : env.config.minRecordSize ≤ c.sendRequestSize + 0 := henough
      omega
    case isFalse =>
      cases h
      exact ⟨hzero, by simp [pushRequest]⟩
  unfold send at h
  rw [if_neg (by simp [hopen])] at h
  simp only at h
  split at h
  case isTrue hne => exact absurd hrecord hne
  case isFalse =>
  split at h
  case isFalse hless =>
    have hless : ¬ c.sendRequestSize + buffer.length ≥ env.config.minRecordSize := hless
    omega
  case isTrue =>
  split at h
  case isTrue hless =>
    have hless : c.sendRequestSize + buffer.length < env.config.maxRecordSize := hless
    omega
  case isFalse =>
  have hsub : wordSub 64 env.config.maxRecordSize c.sendRequestSize =
      env.config.maxRecordSize - c.sendRequestSize := wordSub_of_le (by omega)
  obtain ⟨plain, _, hput, _⟩ := putWithBuffer_some hs h (Nat.le_refl _) (by
    show buffer.drop (wordSub 64 _ _) ++ [] = _
    rw [hsub, append_nil]) (by simp)
  rw [hput.sendRequestSize, hput.sendRequests]
  refine ⟨?_, by simp⟩
  show wordSub 64 buffer.length (wordSub 64 _ _) = 0
  rw [hsub, wordSub_of_le (by omega)]
  omega

theorem advanceRun_sending {events : List (Int × StreamEvent)}
    (h : exec (advanceRun env) {} events = some r) : r.connection.Sending env := by
  have hstep : ∀ (s : StreamRun) event t, s.connection.Sending env →
      advanceRun env s event = some t → t.connection.Sending env := by
    intro s event t hs hstep
    obtain ⟨d, hd, rfl⟩ := advanceRun_cases hstep
    obtain ⟨e, he, hsending⟩ := hs.handle event.1 event.2
    cases he.symm.trans hd
    exact hsending
  exact exec_preserves hstep (sending_create env) h

/-- Every request that a stream connection takes gets its callback, in order and once, if and only if
no request is queued that leaves no bytes: no empty request while the queue has no bytes, and none
that fills up a record exactly. -/
theorem stream_completion_iff (hmin : 0 < env.config.minRecordSize)
    (events : List (Int × StreamEvent)) :
    (∀ front back s, events = front ++ back → exec (advanceRun env) {} front = some s →
      Completed s) ↔
    ∀ front event back s, events = front ++ event :: back →
      exec (advanceRun env) {} front = some s → s.connection.LeavesBytes env event.2 := by
  have hstart : Served env {} := ⟨[], [], serving_create env⟩
  refine throughout_iff hstart (fun u hu => ?_)
    (fun s event t hs hleaves hstep => hs.step hmin hleaves hstep)
    fun front u event hfront hu hleaves => ?_
  · obtain ⟨served, waiting, hserving⟩ := hu
    exact hserving.completed_run
  obtain ⟨now, event⟩ := event
  -- only a request can leave no bytes, and the state behind it has it in the queue
  cases event with
  | send buffer userData =>
    obtain ⟨d, hd, _⟩ := (advanceRun_sending hfront).send now buffer userData
    obtain ⟨hzero, hsome⟩ := not_drained_send (advanceRun_sending hfront) hmin hleaves hd
    refine ⟨{ requests := u.requests ++ u.connection.takenBy (.send buffer userData),
              connection := d }, ?_, fun hdone => hsome (hdone.drained hzero)⟩
    show (u.connection.send env now buffer userData).map _ = _
    rw [hd]
    rfl
  | _ => exact absurd trivial hleaves

/-- The connections of a stack whose tcp interfaces use the key of zeros. -/
def zeroKeyEnv : StreamEnv where
  config := streamConConfig
  aes := zeroKeyAes
  aesKey := List.replicate BDT_AES_KEY_LENGTH 0

/-- Three bytes go into a record at once, and get their callback. -/
theorem stream_completion_three : ∃ r, exec (advanceRun zeroKeyEnv) {}
      [(0, .send [1, 2, 3] 7), (0, .sendRecord 100)] = some r ∧
    completed r.connection.history = [7] ∧ Completed r := by
  refine exists_of_test (fun r => completed r.connection.history = [7]) (by decide +kernel) ?_
  refine fun r hrun hdone => ⟨hdone, ?_⟩
  have hmeet : StepsMeet (advanceRun zeroKeyEnv) (fun r event => r.connection.LeavesBytes zeroKeyEnv event.2)
      {} [(0, .send [1, 2, 3] 7), (0, .sendRecord 100)] :=
    .cons (fun _ => ⟨fun _ => cons_ne_nil _ _, fun _ _ => by decide⟩)
      fun _ _ => .cons trivial fun _ _ => stepsMeet_nil _ _
  exact (stream_completion_iff (show 0 < zeroKeyEnv.config.minRecordSize from Nat.one_pos) _).mpr hmeet
    _ [] r (append_nil _).symm hrun

/-- A request of 2048 bytes fills up a record exactly. It is queued with no bytes left, and nothing
will take it off the queue: when the connection is closed it gets no callback. -/
theorem send_exact_uncalled : ∃ r, exec (advanceRun zeroKeyEnv) {}
      [(0, .send (List.replicate 2048 1) 7), (0, .sendRecord 3000), (0, .syncSent), (0, .close)] =
        some r ∧
    r.requests.map (·.userData) = [7] ∧ completed r.connection.history = [] ∧
    r.connection.history.getLast? = some .closeInterface ∧ ¬ r.connection.Awaited ∧
    ¬ Completed r := by
  refine exists_of_test (fun r => r.requests.map (·.userData) = [7] ∧
    completed r.connection.history = [] ∧ r.connection.history.getLast? = some .closeInterface ∧
    r.connection.sendRecordDue = 0 ∧ r.connection.immediates = 0 ∧
    r.connection.nagleTimer = false ∧ r.connection.pendingRecordSize = 0 ∧
    r.connection.sendRequestSize = 0 ∧ r.connection.sendRequests ≠ []) (by decide +kernel) ?_
  rintro r - ⟨huser, hnone, hclosed, hdue, himmediates, htimer, hpending, hzero, hsome⟩
  refine ⟨huser, hnone, hclosed, ?_, fun h => hsome (h.drained hzero)⟩
  unfold Awaited
  simp [hdue, himmediates, htimer, hpending]

end StreamConnection

end Bdt
