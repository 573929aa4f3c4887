import Bdt.Base.Transducer
import Bdt.Interface.TcpInterface

/-!
# Boxes with a length in front

What the box parser of a tcp interface makes of a stream, in `BDT_TCP_INTERFACE_STATE_PACKAGE`,
`BDT_TCP_INTERFACE_STATE_STREAM` and `BDT_TCP_INTERFACE_STATE_WAIT_FIRST_RESP`. `Unboxing.next` is a
machine that takes one byte at a time. Every activation of the parser, on its direct and on its
cached path, does what the machine does on the bytes that it reads (`activation_spec`), so the calls
that `BdtPushTcpSocketData` makes for a chunk do what the machine does on the chunk, and it does not
matter where a stream is cut (`unboxChunks_flatten`).
-/

namespace Bdt

open Base List

/-! ## The machine -/

/-- Where a stream of boxes stands: in front of a box, between the two bytes of its length, or in a
box of `size` bytes with `got` behind. -/
inductive Unboxing where
  | length
  | lengthHigh (low : UInt8)
  | body (size : Nat) (got : List UInt8)
  deriving DecidableEq, Repr

namespace Unboxing

/-- Take one byte. A box is put out with its last byte, an empty box with the byte behind it. -/
def next : Unboxing → UInt8 → Unboxing × List (List UInt8)
  | .length, byte => (.lengthHigh byte, [])
  | .lengthHigh low, byte => (.body (low.toNat + 256 * byte.toNat) [], [])
  | .body size got, byte =>
    if size = 0 then (.lengthHigh byte, [[]])
    else if got.length + 1 < size then (.body size (got ++ [byte]), [])
    else (.length, [got ++ [byte]])

variable {size : Nat} {got data : List UInt8}

theorem feed_body_part (h : got.length + data.length < size) :
    feed next (.body size got) data = (.body size (got ++ data), []) := by
  induction data generalizing got with
  | nil => simp [feed]
  | cons byte rest ih =>
    rw [length_cons] at h
    have hnext : next (.body size got) byte = (.body size (got ++ [byte]), []) := by
      show (if size = 0 then _ else _) = _
      rw [if_neg (by omega), if_pos (by omega)]
    rw [feed_cons, hnext, emit_nil, ih (by simp; omega), append_assoc]
    rfl

theorem feed_body_full (hgot : got.length < size) (h : got.length + data.length = size) :
    feed next (.body size got) data = (.length, [got ++ data]) := by
  induction data generalizing got with
  | nil => simp at h; omega
  | cons byte rest ih =>
    rw [length_cons] at h
    by_cases hlast : got.length + 1 < size
    · have hnext : next (.body size got) byte = (.body size (got ++ [byte]), []) := by
        show (if size = 0 then _ else _) = _
        rw [if_neg (by omega), if_pos hlast]
      rw [feed_cons, hnext, emit_nil, ih (by simpa using hlast) (by simp; omega), append_assoc]
      rfl
    have hnext : next (.body size got) byte = (.length, [got ++ [byte]]) := by
      show (if size = 0 then _ else _) = _
      rw [if_neg (by omega), if_neg hlast]
    have hrest : rest = [] := length_eq_zero_iff.mp (by omega)
    subst hrest
    rw [feed_cons, hnext]
    rfl

theorem feed_body_empty (hdata : data ≠ []) :
    feed next (.body 0 []) data = emit [[]] (feed next .length data) := by
  cases data with
  | nil => exact absurd rfl hdata
  | cons => rfl

end Unboxing

open Unboxing

namespace TcpInterface

/-- Where the parser stands. -/
def unboxing (ti : TcpInterface) : Unboxing :=
  match ti.unboxState with
  | .readingLength =>
    match ti.cache with
    | [] => .length
    | low :: _ => .lengthHigh low
  | .readingBody => .body ti.boxSize ti.cache

/-- The cache holds a part of a header or of a box, never the whole of it. -/
structure Framed (ti : TcpInterface) : Prop where
  length : ti.unboxState = .readingLength → ti.cache.length ≤ 1
  body : ti.unboxState = .readingBody → ti.cache = [] ∨ ti.cache.length < ti.boxSize
  size : ti.boxSize < TCP_INTERFACE_CACHE_SIZE

/-- Work that is left: a body that has been announced may be empty. -/
def pending (ti : TcpInterface) : Nat :=
  if ti.unboxState = .readingBody then 1 else 0

end TcpInterface

/-- The states in which the parser reads boxes with a length in front. -/
inductive BoxState where
  | waitFirstResp
  | package
  | stream
  deriving DecidableEq, Repr

def BoxState.toState : BoxState → TcpInterfaceState
  | waitFirstResp => .waitFirstResp
  | package => .package
  | stream => .stream

/-- What an activation, or a call of the parser, does: it reads what the machine reads. -/
structure Unboxes (ti : TcpInterface) (data : List UInt8) (output : UnboxOutput) : Prop where
  reads : Reads next ti.unboxing data output.used output.tcpInterface.unboxing output.boxes
  framed : output.tcpInterface.Framed
  result : output.result = .success
  state : output.tcpInterface.state = ti.state
  progress :
    2 * (data.length - output.used) + output.tcpInterface.pending < 2 * data.length + ti.pending

theorem readUInt16_lt (data : List UInt8) (offset : Nat) :
    readUInt16 data offset < TCP_INTERFACE_CACHE_SIZE := by
  have hlow := (data.getD offset 0).toNat_lt
  have hhigh := (data.getD (offset + 1) 0).toNat_lt
  show _ + 256 * _ < 65536
  omega

namespace TcpInterface

variable {keys : StackKeys} {ti : TcpInterface} {firstParams : TcpInterfaceFirstParams}
  {data : List UInt8} {slots : Nat} {output : UnboxOutput}

/-! ## Activations -/

/-- The activation returns, with a box or with all the bytes read, or it goes on behind what it has
read. -/
inductive ActivationSpec (ti : TcpInterface) (data : List UInt8) (slots : Nat) :
    Option UnboxActivation → Prop where
  | leave {output : UnboxOutput} (unboxes : Unboxes ti data output)
      (all : output.boxes = [] → output.used = data.length) :
      ActivationSpec ti data slots (some (.leave output))
  | again {output : UnboxOutput} (unboxes : Unboxes ti data output)
      (slot : output.boxes.length < slots) :
      ActivationSpec ti data slots (some (.again output output.used))

theorem appendCache_eq (ti : TcpInterface) (data : List UInt8)
    (h : ti.cache.length + data.length < TCP_INTERFACE_CACHE_SIZE) :
    ti.appendCache data = some { ti with cache := ti.cache ++ data } :=
  if_pos h

/-- The cache takes what the target length still needs. -/
theorem tryFillCache_eq {targetLength : Nat} (hcache : ti.cache.length ≤ targetLength)
    (htarget : targetLength < TCP_INTERFACE_CACHE_SIZE) :
    ti.tryFillCache targetLength data =
      some ({ ti with cache := ti.cache ++ data.take (targetLength - ti.cache.length) },
        min data.length (targetLength - ti.cache.length)) := by
  unfold tryFillCache
  by_cases hfull : data.length + ti.cache.length ≥ targetLength
  · have htake : (data.take (targetLength - ti.cache.length)).length =
        targetLength - ti.cache.length := by
      rw [length_take]
      omega
    rw [if_pos hfull, if_neg (by omega), Nat.min_eq_right (by omega)]
    show (ti.appendCache (data.take (targetLength - ti.cache.length))).map _ = _
    rw [appendCache_eq ti _ (by rw [htake]; omega), Option.map_some]
  · rw [if_neg hfull, appendCache_eq ti data (by omega), Option.map_some,
      Nat.min_eq_left (by omega), take_of_length_le (by omega)]

theorem unboxing_body (ti : TcpInterface) (h : ti.unboxState = .readingBody) :
    ti.unboxing = .body ti.boxSize ti.cache := by
  rw [unboxing, h]

theorem unboxing_length (ti : TcpInterface) (h : ti.unboxState = .readingLength) (hcache : ti.cache = []) :
    ti.unboxing = .length := by
  rw [unboxing, h, hcache]

theorem nextBox_spec (hunboxes : Unboxes ti data output)
    (hbox : output.boxes.length = 1) : ActivationSpec ti data slots (some (nextBox slots output)) := by
  have hleave : output.boxes = [] → output.used = data.length := by
    intro h
    rw [h] at hbox
    cases hbox
  unfold nextBox
  split
  · exact .leave hunboxes hleave
  · split
    · exact .again hunboxes (by omega)
    · exact .leave hunboxes hleave

theorem readingLength_spec (firstParams : TcpInterfaceFirstParams) (h : ti.Framed)
    (hunbox : ti.unboxState = .readingLength) (hdata : data ≠ []) (hslots : 0 < slots) :
    ActivationSpec ti data slots (ti.readingLength firstParams data) := by
  have hcache := h.length hunbox
  unfold readingLength
  by_cases hempty : ti.cache = []
  · rw [if_neg (by rw [hempty]; decide)]
    have hstart : ti.unboxing = .length := unboxing_length ti hunbox hempty
    split
    · -- both bytes of the length are here
      next hmore =>
      obtain ⟨low, high, rest, rfl⟩ : ∃ low high rest, data = low :: high :: rest := by
        obtain _ | ⟨low, _ | ⟨high, rest⟩⟩ := data
        · cases hmore
        · simp at hmore
        · exact ⟨low, high, rest, rfl⟩
      refine .again ⟨Reads.of_feed (by simp) ?_,
        ⟨fun hlength => (by cases hlength), fun _ => .inl rfl, readUInt16_lt _ _⟩, rfl, rfl, ?_⟩ hslots
      · rw [hstart]
        rfl
      · show 2 * ((low :: high :: rest).length - 2) + 1 < _
        omega
    -- the low byte goes to the cache
    next hone =>
    obtain ⟨low, rfl⟩ : ∃ low, data = [low] := by
      obtain _ | ⟨low, _ | ⟨high, rest⟩⟩ := data
      · exact absurd rfl hdata
      · exact ⟨low, rfl⟩
      · exact absurd (by simp) hone
    rw [appendCache_eq ti [low] (by rw [hempty]; exact (by decide : 1 < 65536)), Option.map_some]
    refine .leave ⟨Reads.of_feed (Nat.le_refl _) ?_, ⟨fun _ => ?_, fun hbody => ?_, h.size⟩, rfl,
      rfl, ?_⟩ fun _ => rfl
    · rw [hstart]
      simp [unboxing, hunbox, hempty, feed, emit, Unboxing.next]
    · simp [hempty]
    · cases hunbox.symm.trans hbody
    · show 2 * (1 - 1) + (if _ then 1 else 0) < 2 * 1 + _
      rw [hunbox, if_neg (by decide)]
      omega
  -- the low byte is in the cache
  obtain ⟨low, hlow⟩ : ∃ low, ti.cache = [low] :=
    length_eq_one_iff.mp (Nat.le_antisymm hcache (length_pos_iff.mpr hempty))
  obtain ⟨high, rest, rfl⟩ := exists_cons_of_ne_nil hdata
  rw [if_pos (by simp [hlow]), if_neg (by simp [hlow])]
  refine .again ⟨Reads.of_feed (by simp) ?_,
    ⟨fun hlength => (by cases hlength), fun _ => .inl rfl, readUInt16_lt _ _⟩, rfl, rfl, ?_⟩ hslots
  · have hstart : ti.unboxing = .lengthHigh low := by rw [unboxing, hunbox, hlow]
    rw [hstart, hlow]
    rfl
  · show 2 * ((high :: rest).length - 1) + 1 < _
    simp only [length_cons]
    omega

theorem readingBody_spec (firstParams : TcpInterfaceFirstParams) (slots : Nat) (h : ti.Framed)
    (hunbox : ti.unboxState = .readingBody) (hdata : data ≠ []) :
    ActivationSpec ti data slots (ti.readingBody firstParams data slots) := by
  have hstart := unboxing_body ti hunbox
  have hlength : 0 < data.length := length_pos_iff.mpr hdata
  have hpending : ti.pending = 1 := by
    show (if _ then 1 else 0) = 1
    rw [hunbox, if_pos rfl]
  unfold readingBody
  by_cases hempty : ti.cache = []
  · rw [if_neg (by rw [hempty]; decide)]
    split
    · -- the box is in the chunk
      next hfull =>
      refine nextBox_spec ⟨⟨hfull, ?_⟩, ⟨fun _ => ?_, nofun, h.size⟩, rfl, rfl, ?_⟩ rfl
      · show feed next ti.unboxing data = emit [data.take ti.boxSize] (feed next
          (unboxing { ti with unboxState := .readingLength }) (data.drop ti.boxSize))
        rw [unboxing_length { ti with unboxState := .readingLength } rfl hempty, hstart, hempty]
        by_cases hzero : ti.boxSize = 0
        · rw [hzero]
          exact feed_body_empty hdata
        · refine (Reads.of_feed hfull ?_).feed_rest
          rw [feed_body_full (by simp; omega) (by simp; omega), nil_append]
      · simp [hempty]
      · show 2 * (data.length - ti.boxSize) + 0 < _
        omega
    -- the box begins in the chunk
    next hpart =>
    have hsize := h.size
    have hcache : ti.cache ++ data = data := by rw [hempty, nil_append]
    rw [appendCache_eq ti data (by rw [hempty]; simp; omega), Option.map_some, hcache]
    refine .leave ⟨Reads.of_feed (Nat.le_refl _) ?_, ⟨fun hlen => ?_, fun _ => .inr ?_, hsize⟩,
      rfl, rfl, ?_⟩ fun _ => rfl
    · rw [hstart, hempty, take_length, feed_body_part (by simp; omega), nil_append]
      exact congrArg (·, []) (unboxing_body { ti with cache := data } hunbox).symm
    · cases hunbox.symm.trans hlen
    · show data.length < ti.boxSize
      omega
    · show 2 * (data.length - data.length) + (if _ then 1 else 0) < _
      split <;> omega
  have hgot : ti.cache.length < ti.boxSize := (h.body hunbox).resolve_left hempty
  have hsize := h.size
  rw [if_pos (by simpa using hempty), tryFillCache_eq (by omega) hsize]
  simp only
  split
  · -- the chunk completes the box
    next hfull =>
    rw [length_append, length_take] at hfull
    have hused : min data.length (ti.boxSize - ti.cache.length) =
        ti.boxSize - ti.cache.length := by omega
    rw [hused]
    have hle : ti.boxSize - ti.cache.length ≤ data.length := by omega
    refine nextBox_spec ⟨Reads.of_feed hle ?_, ⟨fun _ => by simp, nofun, hsize⟩, rfl, rfl, ?_⟩ rfl
    · have htake : (data.take (ti.boxSize - ti.cache.length)).length =
          ti.boxSize - ti.cache.length := length_take_of_le hle
      rw [hstart]
      exact feed_body_full hgot (by rw [htake]; omega)
    · show 2 * (data.length - (ti.boxSize - ti.cache.length)) + 0 < _
      omega
  -- the chunk is a part of the box
  next hpart =>
  rw [length_append, length_take] at hpart
  have hused : min data.length (ti.boxSize - ti.cache.length) = data.length := by omega
  have htake : data.take (ti.boxSize - ti.cache.length) = data :=
    take_of_length_le (by omega)
  rw [hused, htake]
  refine .leave ⟨Reads.of_feed (Nat.le_refl _) ?_, ⟨fun hlen => ?_, fun _ => .inr ?_, hsize⟩,
    rfl, rfl, ?_⟩ fun _ => rfl
  · rw [hstart, take_length, feed_body_part (by omega)]
    exact congrArg (·, []) (unboxing_body { ti with cache := ti.cache ++ data } hunbox).symm
  · cases hunbox.symm.trans hlen
  · show (ti.cache ++ data).length < ti.boxSize
    rw [length_append]
    omega
  · show 2 * (data.length - data.length) + (if _ then 1 else 0) < _
    split <;> omega

theorem activation_spec (keys : StackKeys) (firstParams : TcpInterfaceFirstParams)
    {state : BoxState} (h : ti.Framed) (hstate : ti.state = state.toState)
    (hdata : data ≠ []) (hslots : 0 < slots) :
    ActivationSpec ti data slots (ti.activation keys firstParams data slots) := by
  cases hunbox : ti.unboxState with
  | readingLength =>
    have hspec := readingLength_spec firstParams h hunbox hdata hslots
    unfold activation
    rw [hstate, hunbox]
    cases state <;> exact hspec
  | readingBody =>
    have hspec := readingBody_spec firstParams slots h hunbox hdata
    unfold activation
    rw [hstate, hunbox]
    cases state <;> exact hspec

end TcpInterface

/-! ## Calls -/

/-- What a call of the parser does. A call without a box has read all the bytes. -/
structure UnboxCall (ti : TcpInterface) (data : List UInt8) (output : UnboxOutput) : Prop where
  reads : Reads next ti.unboxing data output.used output.tcpInterface.unboxing output.boxes
  framed : output.tcpInterface.Framed
  result : output.result = .success
  state : output.tcpInterface.state = ti.state
  all : output.boxes = [] → output.used = data.length
  work :
    2 * (data.length - output.used) + output.tcpInterface.pending ≤ 2 * data.length + ti.pending
  progress : data ≠ [] →
    2 * (data.length - output.used) + output.tcpInterface.pending < 2 * data.length + ti.pending

theorem UnboxCall.nil {ti : TcpInterface} (h : ti.Framed) (firstParams : TcpInterfaceFirstParams) :
    UnboxCall ti [] { tcpInterface := ti, firstParams } :=
  ⟨.refl _ _, h, rfl, rfl, fun _ => rfl, Nat.le_refl _, fun hdata => absurd rfl hdata⟩

theorem Unboxes.call {ti : TcpInterface} {data : List UInt8} {output rest : UnboxOutput}
    (h : Unboxes ti data output)
    (hrest : UnboxCall output.tcpInterface (data.drop output.used) rest) :
    UnboxCall ti data
      { rest with boxes := output.boxes ++ rest.boxes, used := output.used + rest.used } := by
  have hle : output.used ≤ data.length := h.reads.le
  have hdrop : (data.drop output.used).length = data.length - output.used := length_drop
  have hprogress : 2 * (data.length - (output.used + rest.used)) + rest.tcpInterface.pending <
      2 * data.length + ti.pending := by
    have hfirst := h.progress
    have hsecond := hrest.work
    rw [hdrop] at hsecond
    omega
  refine ⟨h.reads.trans hrest.reads, hrest.framed, hrest.result, hrest.state.trans h.state,
    fun hnone => ?_, Nat.le_of_lt hprogress, fun _ => hprogress⟩
  show output.used + rest.used = data.length
  rw [hrest.all (append_eq_nil_iff.mp hnone).2, hdrop]
  omega

namespace TcpInterface

variable {ti : TcpInterface} {data : List UInt8} {slots : Nat}

/-- A call returns when it may make as many activations as there is work. -/
theorem runActivations_spec (keys : StackKeys) {state : BoxState} (fuel : Nat) (ti : TcpInterface)
    (firstParams : TcpInterfaceFirstParams) (data : List UInt8) (slots : Nat) (h : ti.Framed)
    (hstate : ti.state = state.toState) (hslots : 0 < slots)
    (hfuel : 2 * data.length + ti.pending < fuel) :
    ∃ output, runActivations keys fuel ti firstParams data slots = some output ∧
      UnboxCall ti data output := by
  induction fuel generalizing ti firstParams data slots with
  | zero => omega
  | succ _ ih =>
    show ∃ output, (if slots = 0 then none else if data = [] then _ else _) = _ ∧ _
    rw [if_neg (by omega)]
    by_cases hdata : data = []
    · subst hdata
      exact ⟨_, if_pos rfl, .nil h firstParams⟩
    rw [if_neg hdata]
    have hspec := activation_spec keys firstParams h hstate hdata hslots
    revert hspec
    generalize ti.activation keys firstParams data slots = result
    intro hspec
    cases hspec with
    | leave unboxes all =>
      exact ⟨_, rfl, unboxes.reads, unboxes.framed, unboxes.result, unboxes.state, all,
        Nat.le_of_lt unboxes.progress, fun _ => unboxes.progress⟩
    | @again output unboxes slot =>
      have hle : output.used ≤ data.length := unboxes.reads.le
      have hprogress := unboxes.progress
      obtain ⟨rest, hrun, hrest⟩ := ih output.tcpInterface output.firstParams
        (data.drop output.used) (slots - output.boxes.length) unboxes.framed
        (unboxes.state.trans hstate) (by omega) (by rw [length_drop]; omega)
      refine ⟨_, ?_, unboxes.call hrest⟩
      show (if data.length < output.used then none else _) = _
      rw [if_neg (by omega), hrun]
      rfl

theorem unboxParserPushData_spec (keys : StackKeys) (firstParams : TcpInterfaceFirstParams)
    {state : BoxState} (h : ti.Framed) (hstate : ti.state = state.toState) (hslots : 0 < slots) :
    ∃ output, ti.unboxParserPushData keys firstParams data slots = some output ∧
      UnboxCall ti data output := by
  refine runActivations_spec keys _ ti firstParams data slots h hstate hslots ?_
  show 2 * data.length + (if _ then 1 else 0) < _
  split <;> omega

end TcpInterface

/-! ## Received chunks -/

/-- The owner of a tcp interface: it is handed the boxes, and it may put the interface into another
one of the states. -/
structure BoxOwner (σ : Type) where
  state : σ → BoxState
  onBoxes : σ → List (List UInt8) → σ

/-- What received chunks have come to. -/
structure Unboxed (σ : Type) where
  owner : σ
  tcpInterface : TcpInterface
  result : UnboxResult := .success
  boxes : List (List UInt8) := []
  used : Nat := 0

variable {σ : Type}

/-- `BdtPushTcpSocketData` from the call of the parser on, at most `fuel` times: what the parser
leaves behind a box is pushed again. An error of the parser resets the interface. -/
def pushSocketData (keys : StackKeys) (callbacks : BoxOwner σ) : Nat → σ → TcpInterface → List UInt8 →
    Option (Unboxed σ)
  | 0, _, _, _ => none
  | fuel + 1, owner, ti, data =>
    let ti := { ti with state := (callbacks.state owner).toState }
    match ti.unboxParserPushData keys {} data TCP_MAX_BOX_LEN with
    | none => none
    | some output =>
      if output.result ≠ .success ∨ output.boxes = [] then
        some
          { owner, tcpInterface := output.tcpInterface, result := output.result
            used := output.used }
      else
        let owner := callbacks.onBoxes owner output.boxes
        if output.used < data.length then
          (pushSocketData keys callbacks fuel owner output.tcpInterface
            (data.drop output.used)).map fun rest =>
              { rest with
                boxes := output.boxes ++ rest.boxes
                used := output.used + rest.used }
        else
          some
            { owner, tcpInterface := output.tcpInterface, boxes := output.boxes
              used := output.used }

/-- The chunks of a stream, one behind the other, up to the first error. -/
def pushChunks (keys : StackKeys) (callbacks : BoxOwner σ) :
    σ → TcpInterface → List (List UInt8) → Option (Unboxed σ)
  | owner, ti, [] => some { owner, tcpInterface := ti }
  | owner, ti, chunk :: chunks =>
    match pushSocketData keys callbacks (2 * chunk.length + 2) owner ti chunk with
    | none => none
    | some first =>
      if first.result ≠ .success then some first
      else
        (pushChunks keys callbacks first.owner first.tcpInterface chunks).map fun rest =>
          { rest with boxes := first.boxes ++ rest.boxes, used := first.used + rest.used }

/-- What a part of a stream comes to: all of it is taken, without an error, and the boxes are those
of the machine. -/
structure UnboxesAll (ti : TcpInterface) (data : List UInt8) (unboxed : Unboxed σ) : Prop where
  result : unboxed.result = .success
  used : unboxed.used = data.length
  framed : unboxed.tcpInterface.Framed
  feed : feed next ti.unboxing data = (unboxed.tcpInterface.unboxing, unboxed.boxes)

/-- The parser does not ask which of the states the interface is in. -/
theorem TcpInterface.Framed.withState {ti : TcpInterface} (h : ti.Framed)
    (state : TcpInterfaceState) : ({ ti with state } : TcpInterface).Framed :=
  ⟨h.length, h.body, h.size⟩

section

variable (keys : StackKeys) (callbacks : BoxOwner σ)

/-- The calls for one chunk, by induction on their number. -/
theorem pushSocketData_spec (fuel : Nat) (owner : σ) (ti : TcpInterface) (data : List UInt8)
    (h : ti.Framed) (hfuel : 2 * data.length + ti.pending < fuel) :
    ∃ unboxed, pushSocketData keys callbacks fuel owner ti data = some unboxed ∧
      UnboxesAll ti data unboxed := by
  induction fuel generalizing owner ti data with
  | zero => omega
  | succ fuel ih =>
    obtain ⟨output, hrun, hcall⟩ := TcpInterface.unboxParserPushData_spec keys {}
      (h.withState (callbacks.state owner).toState) rfl (show 0 < TCP_MAX_BOX_LEN by decide)
    have hreads : Reads next ti.unboxing data output.used output.tcpInterface.unboxing
        output.boxes := hcall.reads
    unfold pushSocketData
    simp only [hrun]
    by_cases hnone : output.boxes = []
    · rw [if_pos (.inr hnone)]
      have hused := hcall.all hnone
      rw [hused, hnone] at hreads
      exact ⟨_, rfl, hcall.result, hused, hcall.framed, hreads.feed_eq⟩
    rw [if_neg (by rw [hcall.result]; simpa using hnone)]
    by_cases hmore : output.used < data.length
    · -- what is left is pushed again
      have hwork : 2 * (data.length - output.used) + output.tcpInterface.pending <
          2 * data.length + ti.pending := hcall.progress (by rintro rfl; simp at hmore)
      obtain ⟨rest, hrest, hall⟩ := ih (callbacks.onBoxes owner output.boxes)
        output.tcpInterface (data.drop output.used) hcall.framed
        (by rw [length_drop]; omega)
      rw [if_pos hmore, hrest]
      refine ⟨_, rfl, hall.result, ?_, hall.framed, ?_⟩
      · show output.used + rest.used = data.length
        rw [hall.used, length_drop]
        omega
      · rw [hreads.feed_rest, hall.feed]
        rfl
    have hused : output.used = data.length := by
      have hle := hreads.le
      omega
    rw [if_neg hmore]
    rw [hused] at hreads
    exact ⟨_, rfl, rfl, hused, hcall.framed, hreads.feed_eq⟩

theorem pushChunks_spec (owner : σ) (ti : TcpInterface) (chunks : List (List UInt8))
    (h : ti.Framed) :
    ∃ unboxed, pushChunks keys callbacks owner ti chunks = some unboxed ∧
      UnboxesAll ti chunks.flatten unboxed := by
  induction chunks generalizing owner ti with
  | nil => exact ⟨_, rfl, rfl, rfl, h, rfl⟩
  | cons chunk _ ih =>
    have hpending : ti.pending ≤ 1 := by
      show (if _ then 1 else 0) ≤ 1
      split <;> omega
    obtain ⟨first, hpush, hfirst⟩ := pushSocketData_spec keys callbacks (2 * chunk.length + 2)
      owner ti chunk h (by omega)
    obtain ⟨rest, hrun, hrest⟩ := ih first.owner first.tcpInterface hfirst.framed
    unfold pushChunks
    simp only [hpush]
    rw [if_neg (by rw [hfirst.result]; simp), hrun]
    refine ⟨_, rfl, hrest.result, ?_, hrest.framed, ?_⟩
    · show first.used + rest.used = _
      rw [hfirst.used, hrest.used, flatten_cons, length_append]
    · rw [flatten_cons, feed_append, hfirst.feed, hrest.feed]
      rfl

end

theorem TcpInterface.framed_new (state : TcpInterfaceState) : ({ state } : TcpInterface).Framed :=
  ⟨fun _ => Nat.zero_le _, nofun, (by decide : 0 < 64 * 1024)⟩

/-- An owner that keeps the interface in one state. -/
def BoxOwner.constant (state : BoxState) : BoxOwner Unit where
  state _ := state
  onBoxes _ _ := ()

end Bdt
