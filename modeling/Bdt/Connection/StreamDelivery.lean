import Bdt.Connection.StreamReceiving
import Mathlib.Data.List.TakeWhile

/-!
# What a stream connection delivers

`stream_receiving`: the bytes of the recv callbacks, in their order, and after them the bytes that
wait in requests and buffers, are the bytes of the stream, whatever the chunks, the requests and the
threads that make the callbacks; the callbacks are those of the first requests, each once and in
order; requests and data never wait for each other; and no assertion fails.
-/

namespace Bdt

open Base List

namespace StreamRecvEntry

/-- All the bytes that the tcp interface handed over. -/
def receivedBytes (history : List StreamRecvEntry) : List UInt8 :=
  history.flatMap fun
    | .data bytes => bytes
    | _ => []

/-- An entry after which no more bytes are taken. -/
def isEnd : StreamRecvEntry → Bool
  | .data bytes => bytes = []
  | .cancel => true
  | _ => false

/-- The bytes handed over before the end of the stream. -/
def streamBytes (history : List StreamRecvEntry) : List UInt8 :=
  receivedBytes (history.takeWhile fun entry => !entry.isEnd)

/-- The bytes that the callbacks reported. -/
def deliveredBytes (history : List StreamRecvEntry) : List UInt8 :=
  history.flatMap fun
    | .callback _ bytes => bytes
    | _ => []

/-- The user data of the requests. -/
def requested (history : List StreamRecvEntry) : List Nat :=
  history.filterMap fun
    | .request userData _ => some userData
    | _ => none

/-- The user data of the callbacks. -/
def completed (history : List StreamRecvEntry) : List Nat :=
  history.filterMap fun
    | .callback userData _ => some userData
    | _ => none

variable {history more : List StreamRecvEntry}

theorem receivedBytes_append (history more : List StreamRecvEntry) :
    receivedBytes (history ++ more) = receivedBytes history ++ receivedBytes more :=
  flatMap_append

theorem deliveredBytes_append (history more : List StreamRecvEntry) :
    deliveredBytes (history ++ more) = deliveredBytes history ++ deliveredBytes more :=
  flatMap_append

theorem requested_append (history more : List StreamRecvEntry) :
    requested (history ++ more) = requested history ++ requested more :=
  filterMap_append

theorem completed_append (history more : List StreamRecvEntry) :
    completed (history ++ more) = completed history ++ completed more :=
  filterMap_append

/-- The stream has ended. -/
def ended (history : List StreamRecvEntry) : Bool :=
  history.any isEnd

theorem ended_append (history more : List StreamRecvEntry) :
    ended (history ++ more) = (ended history || ended more) :=
  any_append

/-- What comes behind the end does not belong to the stream. -/
theorem streamBytes_ended (h : ended history = true) :
    streamBytes (history ++ more) = streamBytes history := by
  unfold streamBytes
  induction history with
  | nil => cases h
  | cons entry history ih =>
    rw [cons_append, takeWhile_cons, takeWhile_cons]
    cases hend : entry.isEnd with
    | true => rfl
    | false =>
      have hrest : ended history = true := by
        unfold ended at h
        rw [any_cons, hend, Bool.false_or] at h
        exact h
      show receivedBytes (entry :: List.takeWhile _ (history ++ more)) =
        receivedBytes (entry :: List.takeWhile _ history)
      rw [← singleton_append, receivedBytes_append, ih hrest, ← receivedBytes_append]
      rfl

theorem streamBytes_open (h : ended history = false) :
    streamBytes (history ++ more) = streamBytes history ++ streamBytes more := by
  have hall : ∀ entry ∈ history, (!entry.isEnd) = true := by
    intro entry hmem
    rw [Bool.not_eq_true', ← Bool.not_eq_true]
    exact fun hend => Bool.false_ne_true (h.symm.trans (any_eq_true.mpr ⟨entry, hmem, hend⟩))
  unfold streamBytes
  rw [takeWhile_append_of_pos hall, takeWhile_eq_self_iff.mpr hall, receivedBytes_append]

theorem streamBytes_first (history : List StreamRecvEntry) :
    streamBytes history <+: receivedBytes history := by
  refine ⟨receivedBytes (history.dropWhile fun entry => !entry.isEnd), ?_⟩
  unfold streamBytes
  rw [← receivedBytes_append, takeWhile_append_dropWhile]

theorem not_cancel_of_open (h : ended history = false) : .cancel ∉ history :=
  fun hmem => Bool.false_ne_true (h.symm.trans (any_eq_true.mpr ⟨_, hmem, rfl⟩))

end StreamRecvEntry

open StreamRecvEntry

/-! ## The loops -/

namespace StreamConnectionRecvBuffer

theorem rest_advance (recvBuffer : StreamConnectionRecvBuffer) (copySize : Nat)
    (h : copySize ≤ recvBuffer.size - recvBuffer.pos) :
    recvBuffer.rest.take copySize ++ (recvBuffer.advance copySize h).rest = recvBuffer.rest := by
  have hrest : (recvBuffer.advance copySize h).rest = recvBuffer.rest.drop copySize := by
    unfold rest advance
    rw [drop_drop]
  rw [hrest, take_append_drop]

theorem length_rest (recvBuffer : StreamConnectionRecvBuffer) :
    recvBuffer.rest.length = recvBuffer.size - recvBuffer.pos :=
  length_drop

theorem rest_eq_nil {recvBuffer : StreamConnectionRecvBuffer} (h : recvBuffer.pos = recvBuffer.size) :
    recvBuffer.rest = [] :=
  drop_eq_nil_of_le (Nat.le_of_eq h.symm)

end StreamConnectionRecvBuffer

namespace StreamReceiver

variable {recvTimeout : Nat} {c d : StreamReceiver}

/-- The bytes in the requests. -/
def requestBytes (requests : List StreamConnectionRecvRequest) : List UInt8 :=
  requests.flatMap (·.data)

/-- The bytes in the buffers that are not copied yet. -/
def bufferBytes (buffers : List StreamConnectionRecvBuffer) : List UInt8 :=
  buffers.flatMap (·.rest)

theorem requestBytes_append (requests more : List StreamConnectionRecvRequest) :
    requestBytes (requests ++ more) = requestBytes requests ++ requestBytes more :=
  flatMap_append

theorem bufferBytes_append (buffers more : List StreamConnectionRecvBuffer) :
    bufferBytes (buffers ++ more) = bufferBytes buffers ++ bufferBytes more :=
  flatMap_append

theorem requestBytes_fresh {requests : List StreamConnectionRecvRequest}
    (h : ∀ req ∈ requests, req.data = []) : requestBytes requests = [] :=
  flatMap_eq_nil_iff.mpr h

variable {buffers : List StreamConnectionRecvBuffer} {more : List StreamRecvEntry}

/-- The loop copies from the front of the buffers, until the request is full or no bytes are left. -/
theorem drainLoop_spec {len : Nat} {now firstRecvTime leftTime leftTime' : Int}
    {data data' : List UInt8} {buffers' : List StreamConnectionRecvBuffer}
    (h : drainLoop recvTimeout len now data firstRecvTime leftTime buffers =
      (data', leftTime', buffers')) (hle : data.length ≤ len) :
    data' ++ bufferBytes buffers' = data ++ bufferBytes buffers ∧ data'.length ≤ len ∧
      (data'.length = len ∨ buffers' = []) := by
  induction buffers generalizing data firstRecvTime leftTime with
  | nil =>
    cases h
    exact ⟨rfl, hle, .inr rfl⟩
  | cons recvBuffer buffers ih =>
    unfold drainLoop at h
    split at h
    case isFalse hfull =>
      cases h
      exact ⟨rfl, hle, .inl (by omega)⟩
    case isTrue hroom =>
    simp only at h
    have hcopy : min (len - data.length) (recvBuffer.size - recvBuffer.pos) ≤
        recvBuffer.size - recvBuffer.pos := Nat.min_le_right _ _
    have hlength : (data ++ recvBuffer.rest.take
        (min (len - data.length) (recvBuffer.size - recvBuffer.pos))).length =
          data.length + min (len - data.length) (recvBuffer.size - recvBuffer.pos) := by
      rw [length_append, length_take, recvBuffer.length_rest, Nat.min_eq_left hcopy]
    have hbytes : data ++ recvBuffer.rest.take
        (min (len - data.length) (recvBuffer.size - recvBuffer.pos)) ++
        ((recvBuffer.advance _ hcopy).rest ++ bufferBytes buffers) =
          data ++ bufferBytes (recvBuffer :: buffers) := by
      rw [append_assoc, ← append_assoc (recvBuffer.rest.take _), recvBuffer.rest_advance]
      rfl
    split at h
    case isTrue hdone =>
      obtain ⟨heq, hfits, hend⟩ := ih h (by omega)
      refine ⟨?_, hfits, hend⟩
      rw [heq, ← hbytes, StreamConnectionRecvBuffer.rest_eq_nil hdone]
      rfl
    case isFalse hpart =>
    cases h
    refine ⟨hbytes, by omega, .inl ?_⟩
    -- the request took less than the buffer had
    have hpos := recvBuffer.pos_le
    have hless : recvBuffer.pos + min (len - data.length) (recvBuffer.size - recvBuffer.pos) ≠
      recvBuffer.size := hpart
    unfold StreamConnectionRecvBuffer.size at *
    omega

/-- The loop fills the requests from the front, until they are full or no bytes are left. -/
theorem fillLoop_spec (data : List UInt8) {waiting : List StreamConnectionRecvRequest}
    (hfresh : ∀ req ∈ waiting.tail, req.data = []) :
    requestBytes ((fillLoop data waiting).completed ++ (fillLoop data waiting).waiting) ++
        (fillLoop data waiting).data = requestBytes waiting ++ data ∧
      ((fillLoop data waiting).completed ++ (fillLoop data waiting).waiting).map (·.userData) =
        waiting.map (·.userData) ∧
      ((fillLoop data waiting).data = [] ∨ (fillLoop data waiting).waiting = []) ∧
      ∀ req ∈ (fillLoop data waiting).waiting.tail, req.data = [] := by
  induction waiting generalizing data with
  | nil => exact ⟨rfl, rfl, .inr rfl, hfresh⟩
  | cons req waiting ih =>
    have hrest : requestBytes waiting = [] := requestBytes_fresh hfresh
    unfold fillLoop
    split
    case isTrue hnone => exact ⟨rfl, rfl, .inl hnone, hfresh⟩
    case isFalse =>
    simp only
    split
    case isTrue =>
      obtain ⟨hbytes, huser, hend, htail⟩ := ih (data.drop (min data.length (req.size - req.pos)))
        fun other hmem => hfresh other (mem_of_mem_tail hmem)
      refine ⟨?_, congrArg (req.userData :: ·) huser, hend, htail⟩
      show (req.data ++ data.take _) ++ requestBytes (_ ++ _) ++ _ = _
      rw [append_assoc, hbytes, hrest, nil_append, append_assoc, take_append_drop]
      show _ = req.data ++ requestBytes waiting ++ data
      rw [hrest, append_nil]
    case isFalse hpart =>
    -- the request has room for all the bytes
    have hall : data.length ≤ min data.length (req.size - req.pos) := by
      have hpos := req.pos_le
      have hless : (req.data ++ data.take (min data.length (req.size - req.pos))).length ≠
        req.size := hpart
      rw [length_append, length_take] at hless
      unfold StreamConnectionRecvRequest.pos at *
      omega
    refine ⟨?_, rfl, .inl (drop_eq_nil_of_le hall), hfresh⟩
    show (req.data ++ data.take _ ++ requestBytes waiting) ++ data.drop _ =
      req.data ++ requestBytes waiting ++ data
    rw [hrest, append_nil, append_nil, append_assoc, take_append_drop]

/-! ## The invariant -/

/-- The requests whose callbacks are still to come. -/
def pendingRequests (c : StreamReceiver) : List StreamConnectionRecvRequest :=
  c.toCallbackQueue ++ c.completeRecvRequests ++ c.recvRequestQueue

/-- The bytes that were handed over and not delivered yet. -/
def held (c : StreamReceiver) : List UInt8 :=
  requestBytes c.pendingRequests ++ bufferBytes c.recvBuffersQueue

/-- What holds of the receiving side between its events. -/
structure Receiving (c : StreamReceiver) : Prop where
  stream : deliveredBytes c.history ++ c.held <+: streamBytes c.history
  whole : .cancel ∉ c.history → deliveredBytes c.history ++ c.held = streamBytes c.history
  requests : completed c.history ++ c.pendingRequests.map (·.userData) = requested c.history
  apart : c.recvBuffersQueue = [] ∨ c.recvRequestQueue = []
  closed : c.recvClosed = ended c.history
  closedQueue : c.recvClosed = true → c.recvRequestQueue = []
  /-- Only the first request has got some of its bytes. -/
  fresh : ∀ req ∈ c.recvRequestQueue.tail, req.data = []

theorem receiving_create : Receiving {} where
  stream := prefix_refl _
  whole _ := rfl
  requests := rfl
  apart := .inl rfl
  closed := rfl
  closedQueue _ := rfl
  fresh _ hmem := by cases hmem

section

variable (h : c.Receiving)
include h

/-- A step that moves bytes and requests on, and loses bytes only when it cancels. -/
theorem Receiving.step (lost : List UInt8)
    (hhistory : d.history = c.history ++ more)
    (hheld : deliveredBytes more ++ d.held ++ lost =
      c.held ++ if c.recvClosed then [] else streamBytes more)
    (hlost : .cancel ∉ more → lost = [])
    (hrequests : completed more ++ d.pendingRequests.map (·.userData) =
      c.pendingRequests.map (·.userData) ++ requested more)
    (hapart : d.recvBuffersQueue = [] ∨ d.recvRequestQueue = [])
    (hclosed : d.recvClosed = (c.recvClosed || ended more))
    (hclosedQueue : d.recvClosed = true → d.recvRequestQueue = [])
    (hfresh : ∀ req ∈ d.recvRequestQueue.tail, req.data = []) : d.Receiving := by
  have hbytes : ∀ stream, deliveredBytes c.history ++ c.held = stream →
      (deliveredBytes d.history ++ d.held) ++ lost =
        stream ++ if c.recvClosed then [] else streamBytes more := by
    intro stream hstream
    rw [hhistory, deliveredBytes_append, append_assoc, append_assoc, ← append_assoc _ _ lost,
      hheld, ← append_assoc, hstream]
  have hopen : c.recvClosed = false → streamBytes d.history =
      streamBytes c.history ++ if c.recvClosed then [] else streamBytes more := by
    intro hopen
    rw [hhistory, streamBytes_open (h.closed ▸ hopen), hopen]
    rfl
  have hended : c.recvClosed = true → streamBytes d.history =
      streamBytes c.history ++ if c.recvClosed then [] else streamBytes more := by
    intro hended
    rw [hhistory, streamBytes_ended (h.closed ▸ hended), hended]
    exact (append_nil _).symm
  have hstream : streamBytes d.history =
      streamBytes c.history ++ if c.recvClosed then [] else streamBytes more := by
    cases hc : c.recvClosed with
    | true => exact hc ▸ hended hc
    | false => exact hc ▸ hopen hc
  refine ⟨?_, fun hcancel => ?_, ?_, hapart, ?_, hclosedQueue, hfresh⟩
  · have hprefix : deliveredBytes d.history ++ d.held <+:
        deliveredBytes c.history ++ c.held ++ if c.recvClosed then [] else streamBytes more :=
      ⟨lost, hbytes _ rfl⟩
    refine hprefix.trans ?_
    cases hc : c.recvClosed with
    | true =>
      rw [hended hc, hc]
      simpa using h.stream
    | false =>
      rewrite [hopen hc, hc, h.whole (not_cancel_of_open (h.closed ▸ hc))]
      exact prefix_refl _
  · have hsplit : .cancel ∉ c.history ∧ .cancel ∉ more := by
      rw [hhistory, mem_append, not_or] at hcancel
      exact hcancel
    have heq := hbytes _ (h.whole hsplit.1)
    rw [hlost hsplit.2, append_nil] at heq
    rw [heq, hstream]
  · rw [hhistory, completed_append, requested_append, append_assoc, hrequests,
      ← append_assoc, h.requests]
  · rw [hclosed, hhistory, ended_append, h.closed]

/-- A step that at most moves requests on towards their callbacks. -/
theorem Receiving.frame (hhistory : d.history = c.history ++ more)
    (hquiet : ∀ entry ∈ more, entry = .pause ∨ entry = .resume)
    (hbuffers : d.recvBuffersQueue = c.recvBuffersQueue)
    (hwaiting : ∃ taken, c.recvRequestQueue = taken ++ d.recvRequestQueue)
    (hpending : d.pendingRequests = c.pendingRequests) (hclosed : d.recvClosed = c.recvClosed) :
    d.Receiving := by
  have hheld : d.held = c.held := by
    unfold held
    rw [hpending, hbuffers]
  have hdelivered : deliveredBytes more = [] := by
    refine flatMap_eq_nil_iff.mpr fun entry hmem => ?_
    rcases hquiet entry hmem with rfl | rfl <;> rfl
  have hcompleted : completed more = [] := by
    refine filterMap_eq_nil_iff.mpr fun entry hmem => ?_
    rcases hquiet entry hmem with rfl | rfl <;> rfl
  have hrequested : requested more = [] := by
    refine filterMap_eq_nil_iff.mpr fun entry hmem => ?_
    rcases hquiet entry hmem with rfl | rfl <;> rfl
  have hended : ended more = false := by
    refine any_eq_false.mpr fun entry hmem => ?_
    rcases hquiet entry hmem with rfl | rfl <;> exact Bool.false_ne_true
  have hstream : streamBytes more = [] := by
    have hprefix := streamBytes_first more
    rw [show receivedBytes more = [] from flatMap_eq_nil_iff.mpr fun entry hmem => by
      rcases hquiet entry hmem with rfl | rfl <;> rfl] at hprefix
    exact prefix_nil.mp hprefix
  obtain ⟨taken, htaken⟩ := hwaiting
  have hempty : c.recvRequestQueue = [] → d.recvRequestQueue = [] := by
    intro hnone
    rw [hnone] at htaken
    exact (append_eq_nil_iff.mp htaken.symm).2
  refine h.step [] hhistory ?_ (fun _ => rfl) ?_ ?_ ?_ ?_ ?_
  · rw [hdelivered, hheld, hstream]
    simp
  · rw [hcompleted, hpending, hrequested]
    exact (append_nil _).symm
  · rw [hbuffers]
    exact h.apart.imp_right hempty
  · rw [hclosed, hended, Bool.or_false]
  · rw [hclosed]
    exact fun hc => hempty (h.closedQueue hc)
  intro req hmem
  refine h.fresh req ?_
  cases taken with
  | nil =>
    rw [htaken]
    exact hmem
  | cons _ taken =>
    rw [htaken]
    exact mem_append_right taken (mem_of_mem_tail hmem)

/-! ## The handlers -/

theorem Receiving.recv (now : Int) (userData : Nat) {len : Nat} (hlen : 0 < len) :
    ∃ d, c.recv recvTimeout now userData len = some d ∧ d.Receiving := by
  unfold StreamReceiver.recv
  rw [if_neg (Nat.pos_iff_ne_zero.mp hlen)]
  generalize hdrain : drainLoop recvTimeout len now [] 0 0 c.recvBuffersQueue = drained
  obtain ⟨data, leftTime, buffers⟩ := drained
  obtain ⟨hbytes, hpos, hend⟩ := drainLoop_spec hdrain (Nat.zero_le _)
  rw [nil_append] at hbytes
  -- no request waits when there are bytes for this one
  have hwaiting : data ≠ [] → c.recvRequestQueue = [] := by
    intro hsome
    refine h.apart.resolve_left fun hnone => hsome ?_
    rw [hnone] at hbytes
    exact (append_eq_nil_iff.mp hbytes).1
  have hnonempty : data.length = len → data ≠ [] := by
    rintro heq rfl
    exact Nat.ne_of_lt hlen heq
  have hheld : requestBytes [(⟨userData, len, data, hpos⟩ : StreamConnectionRecvRequest)] ++
      bufferBytes buffers = bufferBytes c.recvBuffersQueue := by
    rw [← hbytes]
    exact congrArg (· ++ bufferBytes buffers) (append_nil data)
  simp only
  rw [dif_pos hpos]
  split
  case isTrue hdone =>
    have hclear : c.recvRequestQueue = [] := by
      rcases hdone with hfull | hclosed | ⟨hsome, _⟩
      · exact hwaiting (hnonempty hfull)
      · exact h.closedQueue hclosed
      · exact hwaiting (ne_nil_of_length_pos hsome)
    have hassert : 0 < data.length ∨ c.recvClosed = true := by
      rcases hdone with hfull | hclosed | ⟨hsome, _⟩
      · exact .inl (length_pos_iff.mpr (hnonempty hfull))
      · exact .inr hclosed
      · exact .inl hsome
    rw [if_pos hassert]
    refine ⟨_, rfl, h.step [] rfl ?_ (fun _ => rfl) ?_ (.inr hclear) (Bool.or_false _).symm
      (fun _ => hclear) h.fresh⟩
    · show requestBytes (c.toCallbackQueue ++ (c.completeRecvRequests ++ [_]) ++ c.recvRequestQueue) ++
        bufferBytes buffers ++ [] = _
      rw [hclear, append_nil, append_nil, ← append_assoc, requestBytes_append, append_assoc, hheld]
      unfold held pendingRequests
      rw [hclear, append_nil]
      split <;> exact (append_nil _).symm
    show (c.toCallbackQueue ++ (c.completeRecvRequests ++ [_]) ++ c.recvRequestQueue).map _ = _
    unfold pendingRequests
    rw [hclear, append_nil, append_nil, ← append_assoc, map_append]
    rfl
  case isFalse hmore =>
  have hdrained : buffers = [] := hend.resolve_left fun hfull => hmore (.inl hfull)
  have hopen : c.recvClosed = false := Bool.eq_false_iff.mpr fun hclosed => hmore (.inr (.inl hclosed))
  refine ⟨_, rfl, h.step [] rfl ?_ (fun _ => rfl) ?_ (.inl hdrained) (Bool.or_false _).symm
    (fun hclosed => absurd (hopen.symm.trans hclosed) Bool.false_ne_true) fun req hmem => ?_⟩
  · show requestBytes (c.toCallbackQueue ++ c.completeRecvRequests ++ (c.recvRequestQueue ++ [_])) ++
      bufferBytes buffers ++ [] = _
    rw [append_nil, ← append_assoc, requestBytes_append, append_assoc, hheld]
    split <;> exact (append_nil _).symm
  · show (c.toCallbackQueue ++ c.completeRecvRequests ++ (c.recvRequestQueue ++ [_])).map _ = _
    rw [← append_assoc, map_append]
    rfl
  cases hqueue : c.recvRequestQueue with
  | nil =>
    rw [hqueue] at hmem
    cases hmem
  | cons =>
    -- another request waits, so there were no bytes for this one
    have hnone : data = [] := by
      by_contra hsome
      rw [hwaiting hsome] at hqueue
      cases hqueue
    rw [hqueue] at hmem
    rcases mem_concat.mp hmem with hmem | hmem
    · exact h.fresh req (by rw [hqueue]; exact hmem)
    · rw [hmem]
      exact hnone

/-- The requests that wait are done, whether the buffers are kept or not. -/
theorem Receiving.completeAll {entry : StreamRecvEntry} (lost : List UInt8)
    (hentry : entry = .data [] ∧ lost = [] ∨ entry = .cancel)
    (hlost : bufferBytes buffers ++ lost = bufferBytes c.recvBuffersQueue) :
    Receiving { c.completeAll with
      recvBuffersQueue := buffers
      history := c.history ++ [entry] } := by
  have hquiet : deliveredBytes [entry] = [] ∧ completed [entry] = [] ∧ requested [entry] = [] ∧
      streamBytes [entry] = [] ∧ ended [entry] = true := by
    rcases hentry with ⟨rfl, _⟩ | rfl <;> exact ⟨rfl, rfl, rfl, rfl, rfl⟩
  obtain ⟨hdelivered, hcompleted, hrequested, hstream, hended⟩ := hquiet
  have hpending : pendingRequests { c.completeAll with
      recvBuffersQueue := buffers
      history := c.history ++ [entry] } = c.pendingRequests := by
    show c.toCallbackQueue ++ (c.completeRecvRequests ++ c.recvRequestQueue) ++ [] = _
    rw [append_nil, ← append_assoc]
    rfl
  refine h.step lost rfl ?_ (fun hcancel => ?_) ?_ (.inr rfl) ?_ (fun _ => rfl) nofun
  · rw [hdelivered, hstream, nil_append]
    unfold held
    rw [hpending, append_assoc, hlost]
    split <;> exact (append_nil _).symm
  · rcases hentry with hentry | rfl
    · exact hentry.2
    · exact absurd mem_cons_self hcancel
  · rw [hpending, hcompleted, hrequested, append_nil]
    rfl
  · rw [hended, Bool.or_true]
    rfl

theorem Receiving.onTcpData (now : Int) (data : List UInt8) :
    ∃ d, c.onTcpData now data = some d ∧ d.Receiving := by
  unfold StreamReceiver.onTcpData
  simp only
  split
  case isTrue hnone =>
    subst hnone
    exact ⟨_, rfl, h.completeAll [] (.inl ⟨rfl, rfl⟩) (append_nil _)⟩
  case isFalse hsome =>
  have hended : ended [StreamRecvEntry.data data] = false := by simp [ended, isEnd, hsome]
  split
  case isTrue hclosed =>
    refine ⟨_, rfl, h.step [] rfl ?_ (fun _ => rfl) ?_ h.apart ?_ h.closedQueue h.fresh⟩
    · rw [hclosed]
      show c.held ++ [] = c.held ++ []
      rfl
    · exact (append_nil _).symm
    · rw [hended, Bool.or_false]
  case isFalse hopen =>
  have hopen : c.recvClosed = false := Bool.eq_false_iff.mpr hopen
  rw [if_neg (by rcases h.apart with hnone | hnone <;> simp [hnone])]
  obtain ⟨hbytes, huser, hend, hfresh⟩ := fillLoop_spec data h.fresh
  generalize fillLoop data c.recvRequestQueue = fill at hbytes huser hend hfresh
  rw [if_neg (by rcases hend with hnone | hnone <;> simp [hnone])]
  have hstream : streamBytes [StreamRecvEntry.data data] = data := by
    simp [streamBytes, receivedBytes, isEnd, hsome]
  have hheld : requestBytes (fill.completed ++ fill.waiting) ++ bufferBytes
      (if fill.data = [] then c.recvBuffersQueue
        else c.recvBuffersQueue ++ [.create now fill.data]) =
        requestBytes c.recvRequestQueue ++ bufferBytes c.recvBuffersQueue ++ data ∧
      ((if fill.data = [] then c.recvBuffersQueue
        else c.recvBuffersQueue ++ [.create now fill.data]) = [] ∨ fill.waiting = []) := by
    rcases h.apart with hnone | hnone
    · rw [hnone]
      split
      case isTrue hall =>
        rw [hall, append_nil] at hbytes
        refine ⟨?_, .inl rfl⟩
        show _ ++ [] = _ ++ [] ++ data
        rw [hbytes, append_nil, append_nil]
      case isFalse hmore =>
      refine ⟨?_, .inr (hend.resolve_left hmore)⟩
      show requestBytes _ ++ (fill.data ++ []) = requestBytes _ ++ [] ++ data
      rw [append_nil, append_nil, hbytes]
    -- without requests everything is kept
    rw [hnone] at huser hbytes ⊢
    obtain ⟨hcompleted, hwaiting⟩ :=
      append_eq_nil_iff.mp (map_eq_nil_iff.mp huser)
    rw [hcompleted, hwaiting] at hbytes
    have hdata : fill.data = data := hbytes
    rw [hcompleted, hwaiting, hdata, if_neg hsome, bufferBytes_append]
    refine ⟨?_, .inr rfl⟩
    show bufferBytes _ ++ (data ++ []) = bufferBytes _ ++ data
    rw [append_nil]
  refine ⟨_, rfl, h.step [] rfl ?_ (fun _ => rfl) ?_ hheld.2 ?_
    (fun hclosed => absurd (hopen.symm.trans hclosed) Bool.false_ne_true) hfresh⟩
  · rw [hopen, hstream]
    show requestBytes (c.toCallbackQueue ++ (c.completeRecvRequests ++ fill.completed) ++
      fill.waiting) ++ bufferBytes _ ++ [] = c.held ++ data
    unfold held pendingRequests
    rw [append_nil, ← append_assoc c.toCallbackQueue, append_assoc _ fill.completed,
      requestBytes_append, append_assoc, hheld.1, requestBytes_append (_ ++ _)]
    simp only [append_assoc]
  · show (c.toCallbackQueue ++ (c.completeRecvRequests ++ fill.completed) ++ fill.waiting).map _ =
      c.pendingRequests.map _ ++ []
    unfold pendingRequests
    rw [append_nil, ← append_assoc c.toCallbackQueue, append_assoc _ fill.completed,
      map_append, huser, ← map_append]
  · rw [hended, Bool.or_false]

end

theorem takePartial_append (c : StreamReceiver) :
    c.takePartial.1 ++ c.takePartial.2 = c.recvRequestQueue := by
  unfold takePartial
  split
  · rfl
  · split
    · split <;> simp_all
    · simp_all

theorem Receiving.takeCompleted (h : c.Receiving) (hfree : c.toCallbackQueue = []) :
    c.takeCompleted.Receiving := by
  have hqueue := c.takePartial_append
  unfold StreamReceiver.takeCompleted
  generalize c.takePartial = taken at hqueue
  obtain ⟨part, waiting⟩ := taken
  refine h.frame (append_nil _).symm nofun rfl ⟨part, hqueue.symm⟩ ?_ rfl
  show c.completeRecvRequests ++ part ++ [] ++ waiting = _
  unfold pendingRequests
  rw [hfree, ← hqueue, append_nil, append_assoc]
  rfl

theorem Receiving.recvRequestDone (h : c.Receiving) (hsome : c.toCallbackQueue ≠ []) :
    ∃ d, c.recvRequestDone = some d ∧ d.Receiving := by
  unfold StreamReceiver.recvRequestDone
  cases hqueue : c.toCallbackQueue with
  | nil => exact absurd hqueue hsome
  | cons req toCallback =>
    refine ⟨_, rfl, h.step [] rfl ?_ (fun _ => rfl) ?_ h.apart (Bool.or_false _).symm h.closedQueue
      h.fresh⟩
    · show (req.data ++ []) ++ (requestBytes (toCallback ++ c.completeRecvRequests ++ c.recvRequestQueue) ++
        bufferBytes c.recvBuffersQueue) ++ [] = _
      unfold held pendingRequests
      rw [hqueue, append_nil, append_nil, ← append_assoc]
      show requestBytes (req :: toCallback ++ c.completeRecvRequests ++ c.recvRequestQueue) ++ _ = _
      split <;> exact (append_nil _).symm
    show req.userData :: (toCallback ++ c.completeRecvRequests ++ c.recvRequestQueue).map _ = _
    unfold pendingRequests
    rw [hqueue]
    exact (append_nil _).symm

/-- Every handler keeps the invariant, and none of its assertions fails. -/
theorem Receiving.handle (h : c.Receiving) (now : Int) {event : StreamRecvEvent}
    (henabled : c.enabled event = true) :
    ∃ d, c.handle recvTimeout now event = some d ∧ d.Receiving := by
  have hkept : ∀ {e : StreamReceiver}, e.history = c.history → e.recvBuffersQueue = c.recvBuffersQueue →
      e.recvRequestQueue = c.recvRequestQueue → e.pendingRequests = c.pendingRequests →
      e.recvClosed = c.recvClosed → e.Receiving := fun hhistory hbuffers hqueue hpending hclosed =>
    h.frame (hhistory.trans (append_nil _).symm) nofun hbuffers ⟨[], hqueue.symm⟩ hpending hclosed
  cases event with
  | recv userData => exact h.recv now userData (of_decide_eq_true henabled)
  | tcpData bytes => exact h.onTcpData now bytes
  | notifyAll => exact ⟨_, rfl, hkept rfl rfl rfl rfl rfl⟩
  | notify => exact ⟨_, rfl, hkept rfl rfl rfl rfl rfl⟩
  | takeCompleted => exact ⟨_, rfl, h.takeCompleted (of_decide_eq_true henabled).2⟩
  | callback => exact h.recvRequestDone (of_decide_eq_true henabled)
  | pause =>
    refine ⟨_, rfl, h.frame (append_assoc _ _ _) (fun entry hmem => ?_) rfl ⟨[], rfl⟩ rfl rfl⟩
    split at hmem <;> simp_all
  | resume => exact ⟨_, rfl, h.frame rfl (by simp) rfl ⟨[], rfl⟩ rfl rfl⟩
  | dataNotifyTimer => exact ⟨_, rfl, hkept rfl rfl rfl rfl rfl⟩
  | cancelPendingRecv =>
    exact ⟨_, rfl, h.completeAll (bufferBytes c.recvBuffersQueue) (.inr rfl) (nil_append _)⟩

theorem Reachable.receiving (h : Reachable recvTimeout c) : c.Receiving := by
  refine Reach.invariant (fun s hs => hs ▸ receiving_create) (fun s event t _ hs hstep => ?_) h
  unfold advance at hstep
  split at hstep
  case isTrue henabled =>
    obtain ⟨d, hd, hreceiving⟩ := hs.handle event.1 henabled
    cases hd.symm.trans hstep
    exact hreceiving
  case isFalse => cases hstep

/-- What is received over a stream connection: the callbacks hand over the bytes received from the
first on, in order; what they have not handed over is held, unless the connection was reset; the
callbacks are those of the first requests, in order and once each; requests never wait beside data;
and the handlers do not fail. -/
theorem stream_receiving (h : Reachable recvTimeout c) :
    deliveredBytes c.history <+: receivedBytes c.history ∧
    (.cancel ∉ c.history → deliveredBytes c.history ++ c.held = streamBytes c.history) ∧
    completed c.history ++ c.pendingRequests.map (·.userData) = requested c.history ∧
    (c.recvBuffersQueue = [] ∨ c.recvRequestQueue = []) ∧
    ∀ now event, c.enabled event = true → c.handle recvTimeout now event ≠ none := by
  have hreceiving := h.receiving
  refine ⟨?_, hreceiving.whole, hreceiving.requests, hreceiving.apart,
    fun now event henabled hnone => ?_⟩
  · exact (prefix_append _ _).trans (hreceiving.stream.trans (streamBytes_first _))
  · obtain ⟨d, hd, _⟩ := hreceiving.handle now henabled
    rw [hnone] at hd
    cases hd

/-- Five bytes arrive in two chunks, before and behind the requests that take them. -/
theorem stream_receiving_chunks : ∃ c, Reachable 0 c ∧
    deliveredBytes c.history = [1, 2, 3, 4] ∧ c.held = [5] ∧
    deliveredBytes c.history <+: receivedBytes c.history := by
  obtain ⟨c, hrun, hc⟩ := exists_of_any
    (o := exec (advance 0) {}
      [(0, .tcpData [1, 2, 3]), (0, .recv 7 2), (0, .notify), (0, .takeCompleted), (0, .callback),
        (0, .recv 8 2), (0, .takeCompleted), (0, .callback), (0, .recv 9 1), (0, .tcpData [4, 5]),
        (0, .takeCompleted), (0, .callback)])
    (p := fun c => deliveredBytes c.history = [1, 2, 3, 4] ∧ c.held = [5]) (by decide +kernel)
  obtain ⟨hdelivered, hheld⟩ := of_decide_eq_true hc
  have hreach : Reachable 0 c := Reach.exec (fun _ _ _ hstep => hstep) (.start rfl) hrun
  exact ⟨c, hreach, hdelivered, hheld, (stream_receiving hreach).1⟩

end StreamReceiver

end Bdt
