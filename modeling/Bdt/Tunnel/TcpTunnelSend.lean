import Bdt.Base.Blocks
import Bdt.Base.Calls
import Bdt.Base.History
import Bdt.Base.Word
import Bdt.Tunnel.TunnelContainer

/-!
# Sending on a tcp tunnel

A model of `TcpTunnelSend` and `TcpTunnelOnTcpDrain`. `sendBufferLock` is declared for the send buffer
and never taken, so the two functions are cut at their accesses to the buffer, and calls in several
threads interleave.

`Bdt_TcpInterfaceBoxPackage` and `Bdt_TcpInterfaceSend` are given by what they return: the bytes of
the box, and whether the tcp interface took all, some or none of the bytes that it was given. An
interface that is closed does not say how many it took. The bytes in the buffer are numbered by the
package list whose box they are of.
-/

namespace Bdt

open Base List

/-- `TcpTunnelSendBuffer`. -/
structure TcpTunnelSendBuffer where
  boxBuffer : List (Numbered UInt8) := []
  boxBufferLength : Nat := 0
  boxBufferUsed : Nat := 0
  deriving DecidableEq

namespace TcpTunnelSendBuffer

/-- `TcpTunnelSendBufferIsEmpty`. -/
def isEmpty (sendBuffer : TcpTunnelSendBuffer) : Bool :=
  sendBuffer.boxBufferLength = 0

/-- `TcpTunnelSendBufferUseData`. -/
def useData (sendBuffer : TcpTunnelSendBuffer) (boxBufferUsed : Nat) : TcpTunnelSendBuffer :=
  if sendBuffer.boxBufferLength = sendBuffer.boxBufferUsed + boxBufferUsed then
    { sendBuffer with boxBufferUsed := 0, boxBufferLength := 0 }
  else { sendBuffer with boxBufferUsed := sendBuffer.boxBufferUsed + boxBufferUsed }

/-- A box is written over the beginning of the buffer. -/
def fill (sendBuffer : TcpTunnelSendBuffer) (box : List (Numbered UInt8)) : TcpTunnelSendBuffer :=
  { sendBuffer with boxBuffer := box ++ sendBuffer.boxBuffer.drop box.length }

/-- `length` bytes of the buffer from an offset on. -/
def data (sendBuffer : TcpTunnelSendBuffer) (offset length : Nat) : List (Numbered UInt8) :=
  (sendBuffer.boxBuffer.drop offset).take length

end TcpTunnelSendBuffer

/-- What `Bdt_TcpInterfaceSend` does. -/
inductive InterfaceSend where
  /-- So many bytes were taken, and `*outSent` says so. -/
  | sent (success : Bool) (count : Nat)
  /-- `BFX_RESULT_INVALID_STATE`, with `*outSent` left as it was. -/
  | closed (leftover : Nat)
  deriving DecidableEq

inductive TunnelSendEntry where
  /-- A package list was put into the buffer. -/
  | boxed (box : List UInt8)
  | wrote (bytes : List (Numbered UInt8))
  | dropped
  deriving DecidableEq

/-- What `TcpTunnelSend` and `TcpTunnelTrySend` do between two accesses to the buffer. -/
inductive TunnelSendAction where
  /-- `TcpTunnelSend`, where `Bdt_TcpInterfaceBoxPackage` makes this box, if it can. An interface
  without encryption leaves the length at 0. -/
  | send (box : Option (List UInt8))
  | boxPackage (box : Option (List UInt8))
  | setLength (writeBytes : Nat)
  | sendBox (writeBytes : Nat)
  /-- `TcpTunnelTrySend`, for the event `TcpTunnelOnTcpDrain`. -/
  | trySend
  | getData
  | sendData (offset datalen : Nat)
  | useData (sent : Nat)
  deriving DecidableEq

/-- A buffer after an action, what the action did, and what it leaves to be done. -/
structure TunnelSendResult where
  sendBuffer : TcpTunnelSendBuffer
  closed : Bool
  entries : List TunnelSendEntry := []
  more : List TunnelSendAction := []

/-- The boxes that were put into the buffer. -/
def boxesOf (history : List TunnelSendEntry) : List (List UInt8) :=
  history.filterMap fun
    | .boxed box => some box
    | _ => none

/-- The bytes that the tcp interface took. -/
def wireOf (history : List TunnelSendEntry) : List (Numbered UInt8) :=
  history.flatMap fun
    | .wrote bytes => bytes
    | _ => []

/-- A tunnel, the calls in flight, and what they did. -/
structure TunnelSendRun where
  state : TcpTunnelState := .alive
  sendBuffer : TcpTunnelSendBuffer := {}
  /-- The tcp interface is closed. -/
  closed : Bool := false
  calls : List (List TunnelSendAction) := []
  history : List TunnelSendEntry := []

inductive TunnelSendEvent where
  | call (action : TunnelSendAction)
  /-- One of the calls goes on, with what `Bdt_TcpInterfaceSend` does if it calls it. -/
  | step (i : Nat) (outcome : InterfaceSend)
  /-- Another function sets the state of the tunnel. -/
  | setState (state : TcpTunnelState)
  deriving DecidableEq

namespace TunnelSendRun

/-- The call goes on, and the buffer stays as it is. -/
def unchanged (run : TunnelSendRun) (more : List TunnelSendAction) : TunnelSendResult where
  sendBuffer := run.sendBuffer
  closed := run.closed
  more := more

/-- `Bdt_TcpInterfaceSend`, and what the caller does with its result. -/
def interfaceSend (run : TunnelSendRun) (outcome : InterfaceSend) (offset length : Nat)
    (behind : Option Bool → Nat → List TunnelSendAction) : Option TunnelSendResult :=
  match outcome with
  | .sent success count =>
    if run.closed = true ∨ length < count then none
    else some
      { run.unchanged (behind (some success) count) with
        entries := [.wrote (run.sendBuffer.data offset count)] }
  | .closed leftover => some { run.unchanged (behind none leftover) with closed := true }

def perform (run : TunnelSendRun) (outcome : InterfaceSend) :
    TunnelSendAction → Option TunnelSendResult
  | .send box => some <|
      match run.state with
      | .alive =>
        if run.sendBuffer.isEmpty then run.unchanged [.boxPackage box]
        else { run.unchanged [] with entries := [.dropped] }
      -- `TcpTunnelConnect`, or `BFX_RESULT_INVALID_STATE`, or nothing
      | .unknown | .dead | .connecting => run.unchanged []
  | .boxPackage none => some (run.unchanged [])
  | .boxPackage (some box) => some
      { run.unchanged [.setLength box.length] with
        sendBuffer := run.sendBuffer.fill (numbered (boxesOf run.history).length box)
        entries := [.boxed box] }
  | .setLength writeBytes => some
      { run.unchanged [.sendBox writeBytes] with
        sendBuffer := { run.sendBuffer with boxBufferLength := writeBytes } }
  | .sendBox writeBytes => run.interfaceSend outcome 0 writeBytes fun result sent =>
    -- what was sent completely is not taken out of the buffer
    if result = some true ∧ sent ≠ writeBytes then [.useData sent] else []
  | .trySend => some (run.unchanged (if run.sendBuffer.isEmpty then [] else [.getData]))
  | .getData => some (run.unchanged
      [.sendData run.sendBuffer.boxBufferUsed
        (wordSub 64 run.sendBuffer.boxBufferLength run.sendBuffer.boxBufferUsed)])
  | .sendData offset datalen => run.interfaceSend outcome offset datalen fun _ sent =>
    if 0 < sent then [.useData sent] else []
  | .useData sent => some { run.unchanged [] with sendBuffer := run.sendBuffer.useData sent }

/-- The two functions that are called from outside. -/
def isEntry : TunnelSendAction → Bool
  | .send _ | .trySend => true
  | _ => false

def handle (run : TunnelSendRun) : TunnelSendEvent → Option TunnelSendRun
  | .call action => if isEntry action then some { run with calls := run.calls ++ [[action]] } else none
  | .setState state => some { run with state := state }
  | .step i outcome =>
    match run.calls[i]? with
    | some (action :: rest) => (run.perform outcome action).map fun result =>
      { run with
        sendBuffer := result.sendBuffer
        closed := result.closed
        calls := advanceCall run.calls i result.more rest
        history := run.history ++ result.entries }
    | _ => none

/-! ## What the tunnel promises -/

/-- A package list is dropped only while the box before it is not sent completely. -/
def Dropped (front : List TunnelSendEntry) : TunnelSendEntry → Prop
  | .dropped => ∃ boxes box, boxesOf front = boxes ++ [box] ∧
      blockCount boxes.length (wireOf front) < box.length
  | _ => True

/-- The tcp interface gets whole boxes, each once or not at all, and the beginning of the box that is
being sent; and no list is dropped for a box that was sent. -/
structure Delivers (run : TunnelSendRun) : Prop where
  boxes : InBlocks (boxesOf run.history) (wireOf run.history)
  dropped : Justified Dropped run.history

/-! ## When it keeps the promise -/

/-- An action of a call that uses the buffer. -/
def inside : TunnelSendAction → Int
  | .send _ | .trySend => 0
  | _ => 1

/-- An action goes on to use the buffer. -/
def Enters (run : TunnelSendRun) : TunnelSendAction → Prop
  | .send _ => run.state = .alive ∧ run.sendBuffer.isEmpty
  | .trySend => ¬ run.sendBuffer.isEmpty
  | _ => False

/-- An action drops its package list. -/
def Drops (run : TunnelSendRun) : TunnelSendAction → Prop
  | .send _ => run.state = .alive ∧ ¬ run.sendBuffer.isEmpty
  | _ => False

/-- No call is about to take the last bytes out of the buffer. -/
def Unfinished (run : TunnelSendRun) : Prop :=
  ∀ sent, .useData sent ∈ run.calls.flatten →
    run.sendBuffer.boxBufferUsed + sent ≠ run.sendBuffer.boxBufferLength

/-- A call that goes on to use the buffer is the only one that does, and none drops its list while
another call has sent the rest of the box and not yet taken it out. -/
def Alone (run : TunnelSendRun) : TunnelSendEvent → Prop
  | .step i _ => ∀ action rest, run.calls[i]? = some (action :: rest) →
      (run.Enters action → weight inside run.calls = 0) ∧ (run.Drops action → run.Unfinished)
  | _ => True

/-- A box that `TcpTunnelSend` itself gives to the tcp interface is taken in part with success, or
not at all. -/
def Partial : InterfaceSend → Nat → Prop
  | .sent true count, writeBytes => count < writeBytes ∨ writeBytes = 0
  | .sent false count, _ => count = 0
  | .closed _, _ => True

def SendsPartly (run : TunnelSendRun) : TunnelSendEvent → Prop
  | .step i outcome => ∀ writeBytes rest,
      run.calls[i]? = some (.sendBox writeBytes :: rest) → Partial outcome writeBytes
  | _ => True

end TunnelSendRun

/-! ## Histories -/

variable {history : List TunnelSendEntry} {boxes : List (List UInt8)} {box : List UInt8}

@[simp] theorem boxesOf_append (history more : List TunnelSendEntry) :
    boxesOf (history ++ more) = boxesOf history ++ boxesOf more :=
  filterMap_append

@[simp] theorem wireOf_append (history more : List TunnelSendEntry) :
    wireOf (history ++ more) = wireOf history ++ wireOf more :=
  flatMap_append

@[simp] theorem wireOf_wrote (bytes : List (Numbered UInt8)) : wireOf [.wrote bytes] = bytes :=
  append_nil bytes

/-- The last box is not sent completely. -/
def Unsent (history : List TunnelSendEntry) : Prop :=
  ∃ boxes box, boxesOf history = boxes ++ [box] ∧
    blockCount boxes.length (wireOf history) < box.length

/-! ## What is in the buffer -/

/-- The last box is at the beginning of the buffer, and so many of its bytes were written. -/
@[mk_iff]
structure Holding (sendBuffer : TcpTunnelSendBuffer) (history : List TunnelSendEntry)
    (boxes : List (List UInt8)) (box : List UInt8) (written : Nat) : Prop where
  boxed : boxesOf history = boxes ++ [box]
  content : sendBuffer.boxBuffer.take box.length = numbered boxes.length box
  wire : wireOf history = blockStream boxes ++ (numbered boxes.length box).take written

/-- The tcp interface is closed, and a buffer of this length is not sent. -/
@[mk_iff]
structure Stopped (closed : Bool) (history : List TunnelSendEntry) (length : Nat) : Prop where
  closed : closed = true
  wire : wireOf history <+: blockStream (boxesOf history)
  unsent : length ≠ 0 → Unsent history

/-- No call uses the buffer. -/
@[mk_iff]
inductive Idle (sendBuffer : TcpTunnelSendBuffer) (closed : Bool) (history : List TunnelSendEntry) :
    Prop where
  | empty (hopen : closed = false) (hlength : sendBuffer.boxBufferLength = 0)
      (hused : sendBuffer.boxBufferUsed = 0)
      (hwire : wireOf history = blockStream (boxesOf history))
  | sending {boxes : List (List UInt8)} {box : List UInt8} (hopen : closed = false)
      (holding : Holding sendBuffer history boxes box sendBuffer.boxBufferUsed)
      (hlength : sendBuffer.boxBufferLength = box.length)
      (hused : sendBuffer.boxBufferUsed < box.length)
  | stopped (h : Stopped closed history sendBuffer.boxBufferLength)

/-- A box of this length was just put into the buffer. -/
@[mk_iff]
inductive Filled (sendBuffer : TcpTunnelSendBuffer) (closed : Bool) (history : List TunnelSendEntry)
    (writeBytes : Nat) : Prop where
  | fresh {boxes : List (List UInt8)} {box : List UInt8} (hopen : closed = false)
      (holding : Holding sendBuffer history boxes box 0) (hlength : writeBytes = box.length)
      (hused : sendBuffer.boxBufferUsed = 0)
  | stopped (h : Stopped closed history writeBytes)

/-- Bytes were written, and are to be taken out of the buffer. -/
@[mk_iff]
inductive Taking (sendBuffer : TcpTunnelSendBuffer) (closed : Bool) (history : List TunnelSendEntry)
    (sent : Nat) : Prop where
  | sent {boxes : List (List UInt8)} {box : List UInt8} {written : Nat} (hopen : closed = false)
      (holding : Holding sendBuffer history boxes box written)
      (hlength : sendBuffer.boxBufferLength = box.length)
      (hused : sendBuffer.boxBufferUsed + sent = written) (hle : written ≤ box.length)
  | stopped (h : Stopped closed history sendBuffer.boxBufferLength)

/-- How the buffer is when the only call that uses it comes to an action. -/
def Fits (sendBuffer : TcpTunnelSendBuffer) (closed : Bool) (history : List TunnelSendEntry) :
    TunnelSendAction → Prop
  | .send _ | .trySend => True
  | .boxPackage _ => Idle sendBuffer closed history ∧ sendBuffer.boxBufferLength = 0
  | .setLength writeBytes =>
    Filled sendBuffer closed history writeBytes ∧ sendBuffer.boxBufferLength = 0
  | .sendBox writeBytes =>
    Filled sendBuffer closed history writeBytes ∧ sendBuffer.boxBufferLength = writeBytes
  | .getData => Idle sendBuffer closed history ∧ sendBuffer.boxBufferLength ≠ 0
  | .sendData offset datalen => Idle sendBuffer closed history ∧
      sendBuffer.boxBufferLength ≠ 0 ∧ (closed = false → offset = sendBuffer.boxBufferUsed ∧
        sendBuffer.boxBufferUsed + datalen = sendBuffer.boxBufferLength)
  | .useData sent => Taking sendBuffer closed history sent

variable {sendBuffer : TcpTunnelSendBuffer} {closed : Bool} {written : Nat}

section

variable (h : Holding sendBuffer history boxes box written)
include h

theorem Holding.prefix_stream : wireOf history <+: blockStream (boxesOf history) := by
  rw [h.wire, h.boxed, blockStream_concat]
  exact prefix_append_right_inj _ |>.mpr (List.take_prefix _ _)

theorem Holding.blockCount :
    Base.blockCount boxes.length (wireOf history) = min written box.length := by
  have hpart : (numbered boxes.length box).take written =
      numbered boxes.length (box.take written) := map_take.symm
  rw [h.wire, blockCount_append, blockCount_blockStream boxes (Nat.le_refl _), hpart,
    blockCount_numbered, length_take, Nat.zero_add]

theorem Holding.unsent (hlt : written < box.length) : Unsent history := by
  refine ⟨boxes, box, h.boxed, ?_⟩
  rw [h.blockCount]
  omega

theorem Holding.write {count : Nat} (hle : written + count ≤ box.length) :
    Holding sendBuffer (history ++ [.wrote (sendBuffer.data written count)]) boxes box
      (written + count) where
  boxed := by
    rw [boxesOf_append]
    exact (append_nil _).trans h.boxed
  content := h.content
  wire := by
    have htake : ∀ k ≤ box.length,
        (numbered boxes.length box).take k = sendBuffer.boxBuffer.take k := by
      intro k hk
      rw [← h.content, take_take, Nat.min_eq_left hk]
    rw [wireOf_append, wireOf_wrote, h.wire, append_assoc, htake _ hle,
      htake written (by omega), take_add]
    rfl

end

theorem Idle.prefix_stream (h : Idle sendBuffer closed history) :
    wireOf history <+: blockStream (boxesOf history) := by
  cases h with
  | empty _ _ _ hwire => exact hwire ▸ prefix_rfl
  | sending _ holding => exact holding.prefix_stream
  | stopped h => exact h.wire

theorem Idle.unsent (h : Idle sendBuffer closed history) (hlength : sendBuffer.boxBufferLength ≠ 0) :
    Unsent history := by
  cases h with
  | empty _ hzero => exact absurd hzero hlength
  | sending _ holding _ hused => exact holding.unsent hused
  | stopped h => exact h.unsent hlength

/-! A list that is dropped changes nothing. -/

@[simp] theorem boxesOf_drop (history : List TunnelSendEntry) :
    boxesOf (history ++ [.dropped]) = boxesOf history :=
  (boxesOf_append _ _).trans (append_nil _)

@[simp] theorem wireOf_drop (history : List TunnelSendEntry) :
    wireOf (history ++ [.dropped]) = wireOf history :=
  (wireOf_append _ _).trans (append_nil _)

theorem Idle.drop (h : Idle sendBuffer closed history) :
    Idle sendBuffer closed (history ++ [.dropped]) := by
  simpa only [idle_iff, holding_iff, stopped_iff, Unsent, boxesOf_drop, wireOf_drop] using h

variable {action : TunnelSendAction} {run : TunnelSendRun} {outcome : InterfaceSend}
  {result : TunnelSendResult}

theorem fits_drop (h : Fits sendBuffer closed history action) :
    Fits sendBuffer closed (history ++ [.dropped]) action := by
  cases action <;> simpa only [Fits, idle_iff, filled_iff, taking_iff, holding_iff, stopped_iff, Unsent,
    boxesOf_drop, wireOf_drop] using h

/-- A buffer that a call uses is not sent, unless the call is to take the last bytes out. -/
theorem fits_unsent (h : Fits sendBuffer closed history action)
    (hinside : TunnelSendRun.inside action = 1) (hlength : sendBuffer.boxBufferLength ≠ 0)
    (hrest : ∀ sent, action = .useData sent →
      sendBuffer.boxBufferUsed + sent ≠ sendBuffer.boxBufferLength) : Unsent history := by
  cases action with
  | send | trySend => cases hinside
  | boxPackage => exact absurd h.2 hlength
  | setLength => exact absurd h.2 hlength
  | sendBox =>
    obtain ⟨hfilled, hbox⟩ := h
    cases hfilled with
    | fresh _ holding => exact holding.unsent (by omega)
    | stopped h => exact h.unsent (hbox ▸ hlength)
  | getData => exact h.1.unsent hlength
  | sendData => exact h.1.unsent hlength
  | useData sent =>
    have hne := hrest sent rfl
    cases h with
    | sent _ holding => exact holding.unsent (by omega)
    | stopped h => exact h.unsent hlength

/-! ## What an action does to the buffer -/

/-- The call is done with the buffer, or goes on with it. -/
def GoesOn (result : TunnelSendResult) (history : List TunnelSendEntry) : Prop :=
  (result.more = [] ∧ Idle result.sendBuffer result.closed history) ∨
    ∃ action, result.more = [action] ∧ TunnelSendRun.inside action = 1 ∧
      Fits result.sendBuffer result.closed history action

variable {writeBytes : Nat}

theorem Idle.fill (h : Idle sendBuffer closed history) (hempty : sendBuffer.boxBufferLength = 0)
    (box : List UInt8) :
    Filled (sendBuffer.fill (numbered (boxesOf history).length box)) closed
      (history ++ [.boxed box]) box.length := by
  have hboxes : boxesOf (history ++ [.boxed box]) = boxesOf history ++ [box] := boxesOf_append _ _
  have hwire : wireOf (history ++ [.boxed box]) = wireOf history :=
    (wireOf_append _ _).trans (append_nil _)
  cases h with
  | empty hopen _ hused hall =>
    refine .fresh hopen ⟨hboxes, ?_, ?_⟩ rfl hused
    · show List.take box.length (numbered _ box ++ _) = _
      rw [take_left' (length_numbered _ box)]
    · rw [hwire, hall, take_zero, append_nil]
  | sending => omega
  | stopped h =>
    refine .stopped ⟨h.closed, ?_, fun hne => ⟨boxesOf history, box, hboxes, ?_⟩⟩
    · rw [hwire, hboxes, blockStream_concat]
      exact h.wire.trans (prefix_append _ _)
    rw [hwire]
    have hle : blockCount (boxesOf history).length (wireOf history) ≤
        blockCount (boxesOf history).length (blockStream (boxesOf history)) :=
      h.wire.sublist.countP_le
    rw [blockCount_blockStream _ (Nat.le_refl _)] at hle
    omega

theorem Holding.idle (h : Holding sendBuffer history boxes box 0) (hopen : closed = false)
    (hlength : sendBuffer.boxBufferLength = box.length) (hused : sendBuffer.boxBufferUsed = 0) :
    Idle sendBuffer closed history := by
  by_cases hzero : box.length = 0
  · refine .empty hopen (hlength.trans hzero) hused ?_
    obtain rfl := length_eq_zero_iff.mp hzero
    rw [h.wire, h.boxed, blockStream_concat]
    rfl
  · exact .sending hopen (hused ▸ h) hlength (hused ▸ Nat.pos_of_ne_zero hzero)

theorem Filled.send (h : Filled run.sendBuffer run.closed run.history writeBytes)
    (hlength : run.sendBuffer.boxBufferLength = writeBytes)
    (hpart : TunnelSendRun.Partial outcome writeBytes)
    (hresult : run.perform outcome (.sendBox writeBytes) = some result) :
    GoesOn result (run.history ++ result.entries) := by
  cases outcome with
  | closed =>
    cases hresult
    have hstopped : Stopped true run.history run.sendBuffer.boxBufferLength := by
      cases h with
      | fresh _ holding hbox =>
        refine ⟨rfl, holding.prefix_stream, fun hne => holding.unsent ?_⟩
        rw [← hbox, ← hlength]
        exact Nat.pos_of_ne_zero hne
      | stopped h => exact ⟨rfl, h.wire, fun hne => h.unsent (hlength ▸ hne)⟩
    refine .inl ⟨rfl, .stopped ?_⟩
    show Stopped true (run.history ++ []) run.sendBuffer.boxBufferLength
    rw [append_nil]
    exact hstopped
  | sent success count =>
    simp only [TunnelSendRun.perform, TunnelSendRun.interfaceSend] at hresult
    split at hresult
    case isTrue => cases hresult
    case isFalse hguard =>
    rw [not_or, Nat.not_lt] at hguard
    cases hresult
    cases h with
    | stopped h => exact absurd h.closed hguard.1
    | fresh hopen holding hbox hused =>
      have hcount : 0 + count ≤ _ := (Nat.zero_add count).trans_le (hbox ▸ hguard.2)
      have hwrite := holding.write hcount
      rw [Nat.zero_add] at hwrite
      by_cases hpending : some success = some true ∧ count ≠ writeBytes
      · refine .inr ⟨.useData count, if_pos hpending, rfl, ?_⟩
        refine .sent hopen hwrite (hlength.trans hbox) ?_ (hbox ▸ hguard.2)
        show run.sendBuffer.boxBufferUsed + count = count
        rw [hused, Nat.zero_add]
      have hzero : count = 0 := by
        cases success with
        | false => exact hpart
        | true =>
          have heq : count = writeBytes := by
            by_contra hne
            exact hpending ⟨rfl, hne⟩
          have hpart : count < writeBytes ∨ writeBytes = 0 := hpart
          omega
      subst hzero
      exact .inl ⟨if_neg hpending, hwrite.idle hopen (hlength.trans hbox) hused⟩

/-- Bytes of the box that is being sent are written. -/
theorem Idle.sendData (h : Idle run.sendBuffer run.closed run.history)
    (hlength : run.sendBuffer.boxBufferLength ≠ 0) {offset datalen : Nat}
    (hdata : run.closed = false → offset = run.sendBuffer.boxBufferUsed ∧
      run.sendBuffer.boxBufferUsed + datalen = run.sendBuffer.boxBufferLength)
    (hresult : run.perform outcome (.sendData offset datalen) = some result) :
    GoesOn result (run.history ++ result.entries) := by
  cases outcome with
  | closed leftover =>
    cases hresult
    have hstopped : Stopped true run.history run.sendBuffer.boxBufferLength :=
      ⟨rfl, h.prefix_stream, h.unsent⟩
    rw [← append_nil run.history] at hstopped
    by_cases hpos : 0 < leftover
    · exact .inr ⟨.useData leftover, if_pos hpos, rfl, .stopped hstopped⟩
    · exact .inl ⟨if_neg hpos, .stopped hstopped⟩
  | sent _ count =>
    simp only [TunnelSendRun.perform, TunnelSendRun.interfaceSend] at hresult
    split at hresult
    case isTrue => cases hresult
    case isFalse hguard =>
    rw [not_or, Nat.not_lt] at hguard
    cases hresult
    cases h with
    | empty _ hzero => exact absurd hzero hlength
    | stopped h => exact absurd h.closed hguard.1
    | sending hopen holding hbox hused =>
      obtain ⟨rfl, hsum⟩ := hdata hopen
      have hcount : run.sendBuffer.boxBufferUsed + count ≤ _ :=
        Nat.le_trans (Nat.add_le_add_left hguard.2 _) (Nat.le_of_eq (hsum.trans hbox))
      have hwrite := holding.write hcount
      by_cases hpos : 0 < count
      · exact .inr ⟨.useData count, if_pos hpos, rfl, .sent hopen hwrite hbox rfl hcount⟩
      · obtain rfl := Nat.eq_zero_of_not_pos hpos
        exact .inl ⟨rfl, .sending hopen hwrite hbox hused⟩

theorem Taking.useData {sent : Nat} (h : Taking sendBuffer closed history sent) :
    Idle (sendBuffer.useData sent) closed history := by
  unfold TcpTunnelSendBuffer.useData
  cases h with
  | sent hopen holding hlength hused hle =>
    split
    case isTrue hall =>
      refine .empty hopen rfl rfl ?_
      rw [holding.wire, holding.boxed, blockStream_concat, ← hused, ← hall, hlength,
        take_of_length_le (Nat.le_of_eq (length_numbered _ _))]
    case isFalse hrest =>
    subst hused
    refine .sending hopen ⟨holding.boxed, holding.content, holding.wire⟩ hlength ?_
    exact Nat.lt_of_le_of_ne hle fun heq => hrest (hlength.trans heq.symm)
  | stopped h =>
    split
    case isTrue => exact .stopped ⟨h.closed, h.wire, fun hne => absurd rfl hne⟩
    case isFalse => exact .stopped h

namespace TunnelSendRun

variable {run next : TunnelSendRun} {event : TunnelSendEvent} {outcome : InterfaceSend}
  {action : TunnelSendAction} {result : TunnelSendResult}

theorem perform_inside (hresult : run.perform outcome action = some result)
    (hinside : inside action = 1)
    (hpart : ∀ writeBytes, action = .sendBox writeBytes → Partial outcome writeBytes)
    (hfits : Fits run.sendBuffer run.closed run.history action) :
    GoesOn result (run.history ++ result.entries) := by
  cases action with
  | send | trySend => cases hinside
  | boxPackage box =>
    cases box with
    | none =>
      cases hresult
      exact .inl ⟨rfl, (append_nil run.history).symm ▸ hfits.1⟩
    | some box =>
      cases hresult
      exact .inr ⟨.setLength box.length, rfl, rfl, hfits.1.fill hfits.2 box, hfits.2⟩
  | setLength writeBytes =>
    cases hresult
    refine .inr ⟨.sendBox writeBytes, rfl, rfl, ?_, rfl⟩
    show Filled _ _ (run.history ++ []) writeBytes
    rw [append_nil]
    cases hfits.1 with
    | fresh hopen holding hlength hused =>
      exact .fresh hopen ⟨holding.boxed, holding.content, holding.wire⟩ hlength hused
    | stopped h => exact .stopped h
  | sendBox writeBytes =>
    exact hfits.1.send hfits.2 (hpart writeBytes rfl) hresult
  | getData =>
    cases hresult
    refine .inr ⟨_, rfl, rfl, ?_⟩
    show Fits run.sendBuffer run.closed (run.history ++ []) (.sendData _ _)
    rw [append_nil]
    refine ⟨hfits.1, hfits.2, fun hopen => ⟨rfl, ?_⟩⟩
    cases hfits.1 with
    | empty _ hzero => exact absurd hzero hfits.2
    | sending =>
      rw [wordSub_of_le (by omega)]
      omega
    | stopped h => exact absurd (h.closed.symm.trans hopen) nofun
  | sendData =>
    exact hfits.1.sendData hfits.2.1 hfits.2.2 hresult
  | useData =>
    cases hresult
    have hidle := Taking.useData hfits
    rw [← append_nil run.history] at hidle
    exact .inl ⟨rfl, hidle⟩

variable {sendBuffer : TcpTunnelSendBuffer} {history : List TunnelSendEntry}

theorem isEmpty_iff : sendBuffer.isEmpty = true ↔ sendBuffer.boxBufferLength = 0 :=
  decide_eq_true_iff

theorem perform_enters (hresult : run.perform outcome action = some result)
    (henters : run.Enters action) (hidle : Idle run.sendBuffer run.closed run.history) :
    GoesOn result (run.history ++ result.entries) := by
  rw [← append_nil run.history] at hidle
  cases action with
  | send box =>
    obtain ⟨hstate, hempty⟩ : run.state = .alive ∧ _ := henters
    cases hresult
    simp only [hstate, hempty, if_true]
    exact .inr ⟨.boxPackage box, rfl, rfl, hidle, isEmpty_iff.mp hempty⟩
  | trySend =>
    cases hresult
    exact .inr ⟨.getData, if_neg henters, rfl, hidle, mt isEmpty_iff.mpr henters⟩
  | _ => exact absurd henters fun h => h

theorem perform_drops (hresult : run.perform outcome action = some result)
    (hdrops : run.Drops action) :
    result = { run.unchanged [] with entries := [.dropped] } ∧ run.sendBuffer.boxBufferLength ≠ 0 := by
  cases action with
  | send =>
    obtain ⟨hstate, hfull⟩ : run.state = .alive ∧ _ := hdrops
    cases hresult
    simp only [hstate]
    exact ⟨if_neg hfull, mt isEmpty_iff.mpr hfull⟩
  | _ => exact absurd hdrops fun h => h

theorem interfaceSend_entries {offset length : Nat}
    {behind : Option Bool → Nat → List TunnelSendAction}
    (hresult : run.interfaceSend outcome offset length behind = some result) :
    .dropped ∉ result.entries := by
  unfold interfaceSend at hresult
  split at hresult
  · split at hresult
    · cases hresult
    · cases hresult
      intro hmem
      cases mem_singleton.mp hmem
  · cases hresult
    exact not_mem_nil

theorem perform_justified (hresult : run.perform outcome action = some result)
    (hkeeps : ¬ run.Drops action) (hjustified : Justified Dropped run.history) :
    Justified Dropped (run.history ++ result.entries) := by
  have hentries : .dropped ∉ result.entries := by
    intro hmem
    cases action with
    | send =>
      cases hresult
      cases hstate : run.state <;> simp only [hstate] at hmem
      case alive =>
        split at hmem
        case isTrue => cases hmem
        case isFalse hfull => exact hkeeps ⟨hstate, hfull⟩
      all_goals cases hmem
    | boxPackage box =>
      cases box with
      | none =>
        cases hresult
        cases hmem
      | some =>
        cases hresult
        cases mem_singleton.mp hmem
    | sendBox | sendData =>
      simp only [perform] at hresult
      exact interfaceSend_entries hresult hmem
    | trySend | setLength | getData | useData =>
      cases hresult
      cases hmem
  refine hjustified.extend fun front entry back heq => ?_
  cases entry with
  | dropped => exact absurd (heq ▸ mem_append_right front mem_cons_self) hentries
  | boxed | wrote => trivial

/-- An action that neither uses the buffer nor goes on to, and drops nothing, does nothing. -/
theorem perform_nothing (hresult : run.perform outcome action = some result)
    (hinside : inside action = 0) (hstays : ¬ run.Enters action) (hkeeps : ¬ run.Drops action) :
    result = run.unchanged [] := by
  cases action with
  | send =>
    cases hresult
    cases hstate : run.state with
    | alive =>
      by_cases hempty : run.sendBuffer.isEmpty
      · exact absurd ⟨hstate, hempty⟩ hstays
      · exact absurd ⟨hstate, hempty⟩ hkeeps
    | _ => rfl
  | trySend =>
    cases hresult
    rw [if_pos (Classical.not_not.mp hstays)]
  | _ => cases hinside

/-! ## Runs -/

/-- One call at most uses the buffer, and finds it as it is to be. -/
structure Buffered (run : TunnelSendRun) : Prop where
  single : weight inside run.calls ≤ 1
  fits : ∀ action ∈ run.calls.flatten, inside action = 1 →
    Fits run.sendBuffer run.closed run.history action
  idle : weight inside run.calls = 0 → Idle run.sendBuffer run.closed run.history
  wire : wireOf run.history <+: blockStream (boxesOf run.history)
  dropped : Justified Dropped run.history

theorem Buffered.delivers (h : run.Buffered) : run.Delivers where
  boxes := inBlocks_of_part h.wire
  dropped := h.dropped

theorem inside_nonneg (action : TunnelSendAction) : 0 ≤ inside action := by
  unfold inside
  split <;> omega

theorem inside_le_one (action : TunnelSendAction) : inside action ≤ 1 := by
  unfold inside
  split <;> omega

/-- How far the wire is goes with the action that comes next. -/
theorem fits_stream {closed : Bool} (h : Fits sendBuffer closed history action)
    (hinside : inside action = 1) : wireOf history <+: blockStream (boxesOf history) := by
  have hfilled : ∀ {writeBytes}, Filled sendBuffer closed history writeBytes →
      wireOf history <+: blockStream (boxesOf history) := by
    intro writeBytes h
    cases h with
    | fresh _ holding => exact holding.prefix_stream
    | stopped h => exact h.wire
  cases action with
  | send | trySend => cases hinside
  | boxPackage => exact h.1.prefix_stream
  | setLength => exact hfilled h.1
  | sendBox => exact hfilled h.1
  | getData => exact h.1.prefix_stream
  | sendData => exact h.1.prefix_stream
  | useData =>
    cases h with
    | sent _ holding => exact holding.prefix_stream
    | stopped h => exact h.wire

theorem goesOn_stream (h : GoesOn result history) :
    wireOf history <+: blockStream (boxesOf history) := by
  rcases h with ⟨-, hidle⟩ | ⟨action, -, hinside, hfits⟩
  · exact hidle.prefix_stream
  · exact fits_stream hfits hinside

variable {i : Nat} {rest : List TunnelSendAction}

theorem buffered_step (hcall : run.calls[i]? = some (action :: rest))
    (hwhole : weight inside run.calls = inside action)
    (hgoes : GoesOn result (run.history ++ result.entries))
    (hdropped : Justified Dropped (run.history ++ result.entries)) :
    Buffered { run with
      sendBuffer := result.sendBuffer
      closed := result.closed
      calls := advanceCall run.calls i result.more rest
      history := run.history ++ result.entries } := by
  have hweight := weight_advance inside result.more hcall
  refine ⟨?_, ?_, ?_, goesOn_stream hgoes, hdropped⟩
  · show weight inside (advanceCall run.calls i result.more rest) ≤ 1
    rcases hgoes with ⟨hmore, -⟩ | ⟨next, hmore, hinside, -⟩
    · rw [hmore, map_nil, sum_nil] at hweight
      rw [hmore]
      omega
    · rw [hmore, map_singleton, sum_singleton, hinside] at hweight
      rw [hmore]
      omega
  · intro other hmem hinside
    rcases mem_advanceCall.mp hmem with hmem | hmem
    · rcases hgoes with ⟨hmore, -⟩ | ⟨next, hmore, -, hfits⟩
      · rw [hmore] at hmem
        cases hmem
      · rw [hmore] at hmem
        exact mem_singleton.mp hmem ▸ hfits
    · have hzero := others_weightless inside_nonneg hcall (Int.le_of_eq hwhole) hmem
      omega
  intro hzero
  have hzero : weight inside (advanceCall run.calls i result.more rest) = 0 := hzero
  rcases hgoes with ⟨-, hidle⟩ | ⟨next, hmore, hinside, -⟩
  · exact hidle
  · rw [hmore, map_singleton, sum_singleton, hinside] at hweight
    rw [hmore] at hzero
    omega

theorem Buffered.leave (h : run.Buffered)
    (hcall : run.calls[i]? = some (action :: rest)) (hinside : inside action = 0) :
    Buffered { run with calls := advanceCall run.calls i [] rest } := by
  have hweight := weight_advance inside [] hcall
  rw [map_nil, sum_nil, hinside, Int.add_zero, Int.add_zero] at hweight
  have hall : ∀ actions ∈ advanceCall run.calls i [] rest, ∀ other ∈ actions,
      inside other = 1 → Fits run.sendBuffer run.closed run.history other := by
    refine forall_advance (fun actions hactions other hother => ?_) fun other hother => ?_
    · exact h.fits other (mem_flatten.mpr ⟨actions, hactions, hother⟩)
    · exact h.fits other (mem_flatten.mpr
        ⟨_, mem_of_getElem? hcall, mem_cons_of_mem _ hother⟩)
  refine ⟨hweight.trans_le h.single, fun other hother => ?_, fun hzero => ?_, h.wire, h.dropped⟩
  · obtain ⟨actions, hactions, hother⟩ := mem_flatten.mp hother
    exact hall actions hactions other hother
  · exact h.idle (hweight.symm.trans hzero)

theorem Buffered.unsent (h : run.Buffered) (hunfinished : run.Unfinished)
    (hlength : run.sendBuffer.boxBufferLength ≠ 0) : Unsent run.history := by
  by_cases hzero : weight inside run.calls = 0
  · exact (h.idle hzero).unsent hlength
  obtain ⟨action, hmem, hne⟩ := exists_of_weight hzero
  have hinside : inside action = 1 := by
    have hnonneg := inside_nonneg action
    have hle := inside_le_one action
    omega
  refine fits_unsent (h.fits action hmem hinside) hinside hlength fun sent heq => ?_
  exact hunfinished sent (heq ▸ hmem)

theorem Buffered.drop (h : run.Buffered) (hunsent : Unsent run.history) :
    Buffered { run with history := run.history ++ [.dropped] } where
  single := h.single
  fits := fun other hmem hinside => fits_drop (h.fits other hmem hinside)
  idle := fun hzero => (h.idle hzero).drop
  wire := by
    show wireOf (run.history ++ _) <+: blockStream (boxesOf (run.history ++ _))
    rw [boxesOf_drop, wireOf_drop]
    exact h.wire
  dropped := h.dropped.concat hunsent

/-- The calls do not overlap in the buffer, and no box is sent completely at once. -/
def Good (run : TunnelSendRun) (event : TunnelSendEvent) : Prop :=
  run.Alone event ∧ run.SendsPartly event

theorem entry_outside (h : isEntry action) : inside action = 0 := by
  cases action with
  | send | trySend => rfl
  | _ => cases h

theorem Buffered.handle (h : run.Buffered) (good : run.Good event)
    (hnext : run.handle event = some next) : next.Buffered := by
  cases event with
  | setState =>
    cases hnext
    exact ⟨h.single, h.fits, h.idle, h.wire, h.dropped⟩
  | call action =>
    simp only [TunnelSendRun.handle] at hnext
    split at hnext
    case isFalse => cases hnext
    case isTrue hentry =>
    cases hnext
    have houtside := entry_outside hentry
    have hweight : weight inside (run.calls ++ [[action]]) = weight inside run.calls := by
      rw [weight_begin, map_singleton, sum_singleton, houtside, Int.add_zero]
    refine ⟨hweight.trans_le h.single, fun other hmem hinside => ?_, fun hzero => ?_, h.wire,
      h.dropped⟩
    · rw [flatten_append, flatten_singleton] at hmem
      rcases mem_concat.mp hmem with hmem | hmem
      · exact h.fits other hmem hinside
      · rw [hmem, houtside] at hinside
        cases hinside
    · exact h.idle (hweight.symm.trans hzero)
  | step =>
    simp only [TunnelSendRun.handle] at hnext
    split at hnext
    case h_2 => cases hnext
    case h_1 action rest hcall =>
    obtain ⟨result, hresult, rfl⟩ := Option.map_eq_some_iff.mp hnext
    have hmem : action ∈ run.calls.flatten :=
      mem_flatten.mpr ⟨_, mem_of_getElem? hcall, mem_cons_self⟩
    obtain ⟨halone, hunfinished⟩ := good.1 action rest hcall
    by_cases hinside : inside action = 1
    · -- it is the only call that uses the buffer
      have hle := le_weight inside_nonneg (mem_of_getElem? hcall) mem_cons_self
      have hsingle := h.single
      have hkeeps : ¬ run.Drops action := by
        intro hdrops
        cases action with
        | send => cases hinside
        | _ => exact hdrops
      refine buffered_step hcall (by omega) ?_ (perform_justified hresult hkeeps h.dropped)
      refine perform_inside hresult hinside (fun writeBytes heq => ?_) (h.fits action hmem hinside)
      exact good.2 writeBytes rest (heq ▸ hcall)
    have hnone : inside action = 0 := by
      have hnonneg := inside_nonneg action
      have hle := inside_le_one action
      omega
    by_cases hdrops : run.Drops action
    · obtain ⟨rfl, hlength⟩ := perform_drops hresult hdrops
      exact (h.drop (h.unsent (hunfinished hdrops) hlength)).leave hcall hnone
    by_cases henters : run.Enters action
    · have hzero := halone henters
      exact buffered_step hcall (hzero.trans hnone.symm)
        (perform_enters hresult henters (h.idle hzero))
        (perform_justified hresult hdrops h.dropped)
    obtain rfl := perform_nothing hresult hnone henters hdrops
    have hleave := h.leave hcall hnone
    rw [← append_nil run.history] at hleave
    exact hleave

theorem buffered_start : Buffered {} where
  single := Int.zero_le_ofNat 1
  fits := fun _ hmem => nomatch hmem
  idle := fun _ => .empty rfl rfl rfl rfl
  wire := nil_prefix
  dropped := justified_nil

/-! ## A box that is sent at once -/

theorem handle_step (hcall : run.calls[i]? = some (action :: rest))
    (hresult : run.perform outcome action = some result) :
    run.handle (.step i outcome) = some { run with
      sendBuffer := result.sendBuffer
      closed := result.closed
      calls := advanceCall run.calls i result.more rest
      history := run.history ++ result.entries } := by
  simp only [TunnelSendRun.handle, hcall, hresult]
  rfl

/-- A drain writes a buffer that nothing was taken out of. -/
theorem drain_written {length : Nat} (hopen : run.closed = false)
    (hlength : run.sendBuffer.boxBufferLength = length) (hpos : length ≠ 0)
    (hused : run.sendBuffer.boxBufferUsed = 0) (outcome : InterfaceSend) :
    ∃ t, exec TunnelSendRun.handle run [.call .trySend, .step run.calls.length outcome,
      .step run.calls.length outcome, .step run.calls.length (.sent true length)] = some t ∧
      t.history = run.history ++ [.wrote (run.sendBuffer.data 0 length)] := by
  let called : TunnelSendRun := { run with calls := run.calls ++ [[.trySend]] }
  have hcalled : called.calls[run.calls.length]? = some [.trySend] := getElem?_concat_length
  have hlooks : called.perform outcome .trySend = some (called.unchanged [.getData]) := by
    have hfull : ¬ run.sendBuffer.isEmpty = true := fun h => hpos (hlength ▸ isEmpty_iff.mp h)
    exact congrArg (fun more => some (called.unchanged more)) (if_neg hfull)
  have hgetting := getElem?_advanceCall hcalled [.getData]
  let getting : TunnelSendRun :=
    { called with
      calls := advanceCall called.calls run.calls.length [.getData] []
      history := run.history ++ [] }
  have hsends : getting.perform outcome .getData = some (getting.unchanged [.sendData 0 length]) := by
    have hdata : wordSub 64 run.sendBuffer.boxBufferLength run.sendBuffer.boxBufferUsed = length := by
      rw [wordSub_of_le (hused ▸ Nat.zero_le _), hused, hlength, Nat.sub_zero]
    show some (getting.unchanged [.sendData run.sendBuffer.boxBufferUsed (wordSub 64 _ _)]) = _
    rw [hdata, hused]
  have hsending := getElem?_advanceCall hgetting [.sendData 0 length]
  let sending : TunnelSendRun :=
    { getting with
      calls := advanceCall getting.calls run.calls.length [.sendData 0 length] []
      history := run.history ++ [] ++ [] }
  have hwrites : ∃ result, sending.perform (.sent true length) (.sendData 0 length) = some result ∧
      result.entries = [.wrote (run.sendBuffer.data 0 length)] := by
    refine ⟨_, if_neg ?_, rfl⟩
    rintro (hclosed | hlt)
    · exact absurd (hopen.symm.trans hclosed) nofun
    · exact Nat.lt_irrefl _ hlt
  obtain ⟨result, hresult, hentries⟩ := hwrites
  refine ⟨_, Option.bind_eq_some_iff.mpr ⟨called, rfl, Option.bind_eq_some_iff.mpr
    ⟨getting, handle_step hcalled hlooks, Option.bind_eq_some_iff.mpr
      ⟨sending, handle_step hgetting hsends, Option.bind_eq_some_iff.mpr
        ⟨_, handle_step hsending hresult, rfl⟩⟩⟩⟩, ?_⟩
  show run.history ++ [] ++ [] ++ result.entries = _
  rw [hentries, append_nil, append_nil]

/-- A box whose bytes `TcpTunnelSend` wrote without taking them out of the buffer is written again
by a drain. -/
theorem Buffered.not_partial (h : run.Buffered) {writeBytes : Nat}
    (hcall : run.calls[i]? = some (.sendBox writeBytes :: rest))
    (hnext : run.handle (.step i outcome) = some next) (hnot : ¬ Partial outcome writeBytes) :
    ∃ t, exec TunnelSendRun.handle next [.call .trySend, .step next.calls.length outcome,
      .step next.calls.length outcome, .step next.calls.length (.sent true writeBytes)] = some t ∧
      ¬ t.Delivers := by
  cases outcome with
  | closed => exact absurd trivial hnot
  | sent success count =>
    simp only [TunnelSendRun.handle, hcall, perform, interfaceSend] at hnext
    split at hnext
    case isTrue => cases hnext
    case isFalse hguard =>
    rw [not_or, Nat.not_lt] at hguard
    have hnext := Option.some.inj hnext
    have hbuffer : next.sendBuffer = run.sendBuffer :=
      (congrArg TunnelSendRun.sendBuffer hnext).symm
    have hclosed : next.closed = run.closed := (congrArg TunnelSendRun.closed hnext).symm
    have hhistory : next.history = run.history ++ [.wrote (run.sendBuffer.data 0 count)] :=
      (congrArg TunnelSendRun.history hnext).symm
    obtain ⟨hfilled, hlength⟩ := h.fits (.sendBox writeBytes)
      (mem_flatten.mpr ⟨_, mem_of_getElem? hcall, mem_cons_self⟩) rfl
    cases hfilled with
    | stopped h => exact absurd h.closed hguard.1
    | @fresh boxes box hopen holding hbox hused =>
      have hcount : count ≠ 0 := by
        intro hzero
        cases success with
        | false => exact hnot hzero
        | true => exact hnot (by show count < writeBytes ∨ writeBytes = 0; omega)
      have hpos : writeBytes ≠ 0 := by omega
      obtain ⟨t, hrun, ht⟩ := drain_written (hclosed.trans hopen)
        ((congrArg _ hbuffer).trans hlength) hpos ((congrArg _ hbuffer).trans hused)
        (.sent success count)
      refine ⟨t, hrun, fun delivers => ?_⟩
      have hwrite := holding.write ((Nat.zero_add count).trans_le (hbox ▸ hguard.2))
      have hle := delivers.boxes.count_le boxes.length
      rw [ht, hbuffer, hhistory, boxesOf_append, hwrite.boxed, wireOf_append, wireOf_wrote,
        blockCount_append, hwrite.blockCount] at hle
      have hagain : run.sendBuffer.data 0 writeBytes = numbered boxes.length box :=
        hbox ▸ holding.content
      have hlast : (boxes ++ [box] ++ boxesOf [.wrote (numbered boxes.length box)]).getD
          boxes.length [] = box := by
        show (boxes ++ [box] ++ []).getD boxes.length [] = box
        rw [append_nil, getD_append_right _ _ _ _ (Nat.le_refl _), Nat.sub_self]
        rfl
      rw [hagain, blockCount_numbered, hlast] at hle
      omega

/-- As long as calls do not overlap in their use of the buffer, and each box is taken by its first
`Bdt_TcpInterfaceSend` in part with success or not at all, the tunnel delivers the boxes; and a box
that is taken otherwise, the first time that one is, has bytes that a drain writes again. -/
theorem tunnel_sends_boxes (events : List TunnelSendEvent) :
    (StepsMeet TunnelSendRun.handle Good {} events →
      Throughout TunnelSendRun.handle Delivers {} events) ∧
    ∀ run i outcome next, StepsMeet TunnelSendRun.handle Good {} events →
      exec TunnelSendRun.handle {} events = some run →
      run.handle (.step i outcome) = some next → ¬ run.SendsPartly (.step i outcome) →
      ∃ more t, exec TunnelSendRun.handle next more = some t ∧ ¬ t.Delivers := by
  constructor
  · intro h front back u heq hfront
    refine Buffered.delivers ?_
    exact (heq ▸ h).front.preserves (fun s e t hs hok hstep => hs.handle hok hstep) buffered_start
      hfront
  intro run i outcome next hgood hrun hnext hnot
  have hbuffered : run.Buffered :=
    hgood.preserves (fun s e t hs hok hstep => hs.handle hok hstep) buffered_start hrun
  obtain ⟨writeBytes, hnot⟩ := Classical.not_forall.mp hnot
  obtain ⟨rest, hnot⟩ := Classical.not_forall.mp hnot
  obtain ⟨hcall, hnot⟩ := Classical.not_imp.mp hnot
  obtain ⟨t, hrun, hnot⟩ := hbuffered.not_partial hcall hnext hnot
  exact ⟨_, t, hrun, hnot⟩

/-- A box that is taken in two parts, the second one by a drain. -/
theorem tunnel_sends_boxes_drained :
    Throughout TunnelSendRun.handle Delivers {}
      [.call (.send (some [7, 8, 9])), .step 0 (.closed 0), .step 0 (.closed 0), .step 0 (.closed 0),
        .step 0 (.sent true 2), .step 0 (.closed 0), .call .trySend, .step 1 (.closed 0),
        .step 1 (.closed 0), .step 1 (.sent true 1)] := by
  refine (tunnel_sends_boxes _).1 ?_
  refine .cons ⟨trivial, trivial⟩ fun _ h => ?_
  cases h
  -- the buffer is empty, and no call uses it
  refine .cons ⟨fun _ _ h => by cases h; exact ⟨fun _ => rfl, fun h => absurd rfl h.2⟩,
    fun _ _ h => by cases h⟩ fun _ h => ?_
  cases h
  refine .cons ⟨fun _ _ h => by cases h; exact ⟨nofun, nofun⟩, fun _ _ h => by cases h⟩ fun _ h => ?_
  cases h
  refine .cons ⟨fun _ _ h => by cases h; exact ⟨nofun, nofun⟩, fun _ _ h => by cases h⟩ fun _ h => ?_
  cases h
  refine .cons ⟨fun _ _ h => by cases h; exact ⟨nofun, nofun⟩,
    fun _ _ h => by cases h; exact .inl (Nat.lt_succ_self 2)⟩ fun _ h => ?_
  cases h
  refine .cons ⟨fun _ _ h => by cases h; exact ⟨nofun, nofun⟩, fun _ _ h => by cases h⟩ fun _ h => ?_
  cases h
  refine .cons ⟨trivial, trivial⟩ fun _ h => ?_
  cases h
  -- the rest of the box is in the buffer, and no call uses it
  refine .cons ⟨fun _ _ h => by cases h; exact ⟨fun _ => rfl, nofun⟩, fun _ _ h => by cases h⟩
    fun _ h => ?_
  cases h
  refine .cons ⟨fun _ _ h => by cases h; exact ⟨nofun, nofun⟩, fun _ _ h => by cases h⟩ fun _ h => ?_
  cases h
  exact .cons ⟨fun _ _ h => by cases h; exact ⟨nofun, nofun⟩, fun _ _ h => by cases h⟩
    fun _ _ => stepsMeet_nil _ _

/-- A box that is taken at once stays in the buffer: the next list is dropped, and a drain writes the
box again. -/
theorem sent_box_written_again : ∃ t,
    exec TunnelSendRun.handle {}
        [.call (.send (some [7, 8])), .step 0 (.closed 0), .step 0 (.closed 0), .step 0 (.closed 0),
          .step 0 (.sent true 2), .call (.send (some [9])), .step 1 (.closed 0), .call .trySend,
          .step 2 (.closed 0), .step 2 (.closed 0), .step 2 (.sent true 2)] = some t ∧
      (.dropped ∈ t.history ∧ (wireOf t.history).map Numbered.value = [7, 8, 7, 8]) ∧
      ¬ t.Delivers := by
  refine exists_of_test (fun t => boxesOf t.history = [[7, 8]] ∧
    blockCount 0 (wireOf t.history) = 4 ∧ .dropped ∈ t.history ∧
    (wireOf t.history).map Numbered.value = [7, 8, 7, 8]) (by decide +kernel) ?_
  rintro t - ⟨hboxes, hcount, hdone⟩
  refine ⟨hdone, fun delivers => ?_⟩
  have hle := delivers.boxes.count_le 0
  rw [hboxes, hcount] at hle
  exact absurd hle (by decide)

end TunnelSendRun

end Bdt
