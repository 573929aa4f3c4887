import Bdt.Global.Endpoint

/-!
# Arrays of endpoints

A model of `Bdt_BufferWriteEndpointArray` and `Bdt_BufferReadEndpointArray`. A reader that runs into an
assertion of the stream reads past the buffer where there are no assertions. `endpointArray_iff` says
which arrays are read back, and for which bytes the reader stays inside the buffer: it asks for 6 bytes
for each endpoint in advance, and no endpoint has less than 7.
-/

namespace Bdt

open Base List

/-- `BdtEndpointArrayIsEqual`. -/
def BdtEndpointArrayIsEqual (left right : List BdtEndpoint) : Bool :=
  left.length = right.length && (left.zip right).all fun (l, r) => BdtEndpointCompare l r false = 0

/-- The bytes of the union that an entry has. -/
def BdtEndpoint.entryAddress (endpoint : BdtEndpoint) : List UInt8 :=
  if endpoint.flag &&& BDT_ENDPOINT_IP_VERSION_4 ≠ 0 then endpoint.address.1.take 4
  else endpoint.address.1

def writeEntry (endpoint : BdtEndpoint) : List UInt8 :=
  [endpoint.flag] ++ (toLe 2 endpoint.port.toNat ++ endpoint.entryAddress)

/-- `Bdt_BufferWriteEndpointArray`, into a buffer that is long enough. -/
def writeEndpointArray (endpoints : List BdtEndpoint) : List UInt8 :=
  toLe 2 (endpoints.length % 2 ^ 16) ++ endpoints.flatMap writeEntry

variable (uninitialized : Bytes 16)

/-- An entry behind its flag. -/
def readBehindFlag (flag : UInt8) : Reader BdtEndpoint := do
  let port ← Reader.number 2
  if flag &&& BDT_ENDPOINT_IP_VERSION_4 ≠ 0 then
    let address ← Reader.bytes 4
    pure { flag, port := .ofNat port, address := uninitialized.overwrite address address_le }
  else
    let address ← Reader.bytes 16
    pure { flag, port := .ofNat port, address }

def readEntry : Reader BdtEndpoint := do
  let flag ← Reader.byte
  readBehindFlag uninitialized flag

/-- `Bdt_BufferReadEndpointArray`. -/
def readEndpointArray : Reader (List BdtEndpoint) := do
  let arraySize ← Reader.number 2
  fun stream =>
    if stream.length < arraySize * 6 then .error .failed
    else Reader.times arraySize (readEntry uninitialized) stream

/-! ## Reading what was written -/

/-- An endpoint as it is read back. -/
def BdtEndpoint.rereadEntry (endpoint : BdtEndpoint) : BdtEndpoint :=
  { endpoint with
    address :=
      if endpoint.flag &&& BDT_ENDPOINT_IP_VERSION_4 ≠ 0 then
        uninitialized.overwrite ⟨endpoint.address.1.take 4, endpoint.length_take_address⟩ address_le
      else endpoint.address }

theorem readEntry_on (endpoint : BdtEndpoint) :
    Reader.On (readEntry uninitialized) (writeEntry endpoint)
      (.ok (endpoint.rereadEntry uninitialized)) := by
  refine (Reader.On.byte endpoint.flag).bind
    ((Reader.On.number (show _ < 256 ^ 2 from endpoint.port.toNat_lt)).bind ?_)
  rw [UInt16.ofNat_toNat]
  unfold BdtEndpoint.rereadEntry BdtEndpoint.entryAddress
  by_cases hv4 : endpoint.flag &&& BDT_ENDPOINT_IP_VERSION_4 ≠ 0
  · simp only [hv4, ne_eq, not_false_eq_true, if_true]
    exact (Reader.On.bytes (n := 4) ⟨endpoint.address.1.take 4,
      endpoint.length_take_address⟩).bind_pure (c := true) _
  · simp only [hv4, if_false]
    exact (Reader.On.bytes endpoint.address).bind_pure (c := true) _

theorem rereadEntry_compare (endpoint : BdtEndpoint) :
    BdtEndpointCompare (endpoint.rereadEntry uninitialized) endpoint false = 0 := by
  refine (endpoint_comparesBy _ _).mpr (EndpointKey.ext rfl ?_ rfl)
  have hmask : endpoint.compareFlag &&& BDT_ENDPOINT_IP_VERSION_4 =
      endpoint.flag &&& BDT_ENDPOINT_IP_VERSION_4 := UInt8.and_assoc ..
  show (if endpoint.compareFlag &&& BDT_ENDPOINT_IP_VERSION_4 ≠ 0 then _ else _) =
    if endpoint.compareFlag &&& BDT_ENDPOINT_IP_VERSION_4 ≠ 0 then _ else _
  rw [hmask]
  unfold BdtEndpoint.rereadEntry
  split
  · exact Bytes.take_overwrite _ _ (by decide)
  · rfl

theorem entries_length (endpoints : List BdtEndpoint) :
    endpoints.length * 6 ≤ (endpoints.flatMap writeEntry).length := by
  induction endpoints with
  | nil => exact Nat.le_refl _
  | cons endpoint =>
    have hlength : 6 ≤ (writeEntry endpoint).length := by
      unfold writeEntry BdtEndpoint.entryAddress
      have := endpoint.address.2
      split <;> simp <;> omega
    rw [length_cons, flatMap_cons, length_append]
    omega

/-- The reader takes as many endpoints as the count of 16 bits says. -/
theorem readEndpointArray_written (endpoints : List BdtEndpoint) (rest : List UInt8) :
    readEndpointArray uninitialized (writeEndpointArray endpoints ++ rest) =
      .ok ((endpoints.take (endpoints.length % 2 ^ 16)).map (·.rereadEntry uninitialized),
        (endpoints.drop (endpoints.length % 2 ^ 16)).flatMap writeEntry ++ rest) := by
  have hcount : endpoints.length % 2 ^ 16 ≤ endpoints.length := Nat.mod_le _ _
  have hnumber : endpoints.length % 2 ^ 16 < 256 ^ 2 := Nat.mod_lt _ (by decide)
  generalize hk : endpoints.length % 2 ^ 16 = k at hcount hnumber
  unfold readEndpointArray writeEndpointArray
  rw [hk, Reader.bind_apply, append_assoc, Reader.On.number hnumber]
  show (if _ < k * 6 then _ else _) = _
  have hlength := entries_length endpoints
  rw [if_neg (by rw [length_append]; omega)]
  have htimes := Reader.On.times_checked writeEntry (fun _ => true) (·.rereadEntry uninitialized)
    (endpoints.take k) fun endpoint _ => readEntry_on uninitialized endpoint
  rw [length_take_of_le hcount, show (endpoints.take k).all (fun _ => true) = true by simp] at htimes
  have hsplit : endpoints.flatMap writeEntry =
      (endpoints.take k).flatMap writeEntry ++ (endpoints.drop k).flatMap writeEntry := by
    rw [← flatMap_append, take_append_drop]
  rw [hsplit, append_assoc]
  exact htimes _

/-! ## Reading any bytes -/

/-- The bytes of an entry. -/
def entrySize (flag : UInt8) : Nat :=
  if flag &&& BDT_ENDPOINT_IP_VERSION_4 ≠ 0 then 7 else 19

/-- There are enough bytes for so many entries. -/
def Entries : Nat → List UInt8 → Prop
  | 0, _ => True
  | count + 1, bytes => entrySize (bytes.headD 0) ≤ bytes.length ∧
    Entries count (bytes.drop (entrySize (bytes.headD 0)))

/-- The reader takes so many bytes of any stream, or an assertion fails. -/
def Reader.Takes {α : Type} (reader : Reader α) (size : Nat) : Prop :=
  ∀ stream, size ≤ stream.length ∧ (∃ value, reader stream = .ok (value, stream.drop size)) ∨
    stream.length < size ∧ reader stream = .error .aborted

theorem Reader.takes_bytes (n : Nat) : (Reader.bytes n).Takes n := by
  intro stream
  by_cases h : n ≤ stream.length
  · exact .inl ⟨h, _, dif_pos h⟩
  · exact .inr ⟨Nat.not_le.mp h, dif_neg h⟩

theorem Reader.Takes.bind {α β : Type} {reader : Reader α} {next : α → Reader β} {first second : Nat}
    (h : reader.Takes first) (hnext : ∀ value, (next value).Takes second) :
    (reader >>= next).Takes (first + second) := by
  intro stream
  rw [Reader.bind_apply]
  rcases h stream with ⟨hle, value, hread⟩ | ⟨hlt, hread⟩
  · rw [hread]
    have hrest := hnext value (stream.drop first)
    rw [length_drop, drop_drop] at hrest
    exact hrest.imp (And.imp_left fun h => by omega) (And.imp_left fun h => by omega)
  · rw [hread]
    exact .inr ⟨by omega, rfl⟩

theorem Reader.takes_pure {α : Type} (value : α) : (pure value : Reader α).Takes 0 :=
  fun _ => .inl ⟨Nat.zero_le _, value, rfl⟩

theorem readBehindFlag_takes (flag : UInt8) :
    (readBehindFlag uninitialized flag).Takes (entrySize flag - 1) := by
  have hnumber : (Reader.number 2).Takes 2 :=
    (Reader.takes_bytes 2).bind fun array => Reader.takes_pure (ofLe array.1)
  unfold readBehindFlag entrySize
  split
  · exact hnumber.bind fun _ => (Reader.takes_bytes 4).bind fun _ => Reader.takes_pure _
  · exact hnumber.bind fun _ => (Reader.takes_bytes 16).bind fun _ => Reader.takes_pure _

theorem readEntry_eq (stream : List UInt8) :
    entrySize (stream.headD 0) ≤ stream.length ∧ (∃ endpoint, readEntry uninitialized stream =
      .ok (endpoint, stream.drop (entrySize (stream.headD 0)))) ∨
    stream.length < entrySize (stream.headD 0) ∧
      readEntry uninitialized stream = .error .aborted := by
  cases stream with
  | nil => exact .inr ⟨by decide, rfl⟩
  | cons flag rest =>
    have hread : readEntry uninitialized (flag :: rest) = readBehindFlag uninitialized flag rest := by
      unfold readEntry
      rw [Reader.bind_apply, show Reader.byte (flag :: rest) = .ok (flag, rest) from
        Reader.On.byte flag rest]
      rfl
    have hsize : entrySize flag = entrySize flag - 1 + 1 := by
      unfold entrySize
      split <;> rfl
    rw [hread, headD_cons, length_cons, hsize, drop_succ_cons]
    exact (readBehindFlag_takes uninitialized flag rest).imp (And.imp_left Nat.succ_le_succ)
      (And.imp_left Nat.succ_lt_succ)

theorem times_readEntry (count : Nat) (stream : List UInt8) :
    Reader.times count (readEntry uninitialized) stream ≠ .error .aborted ↔ Entries count stream := by
  induction count generalizing stream with
  | zero => exact iff_of_true nofun trivial
  | succ count ih =>
    show (readEntry uninitialized >>= fun endpoint => Reader.times count (readEntry uninitialized) >>=
      fun endpoints => pure (endpoint :: endpoints)) stream ≠ _ ↔ _
    rw [Reader.bind_apply]
    rcases readEntry_eq uninitialized stream with ⟨hle, endpoint, hread⟩ | ⟨hlt, hread⟩
    · rw [hread, Entries, and_iff_right hle, ← ih]
      show (Reader.times count (readEntry uninitialized) >>= _) _ ≠ _ ↔ _
      rw [Reader.bind_apply]
      cases Reader.times count (readEntry uninitialized) (stream.drop (entrySize (stream.headD 0))) with
      | error => exact Iff.rfl
      | ok => exact iff_of_true nofun nofun
    · rw [hread]
      exact iff_of_false (fun h => h rfl) fun h => absurd h.1 (Nat.not_le.mpr hlt)

/-- The count is there, and enough bytes for the entries, or less than 6 for each. -/
def Sufficient (bytes : List UInt8) : Prop :=
  2 ≤ bytes.length ∧ ((bytes.drop 2).length < ofLe (bytes.take 2) * 6 ∨
    Entries (ofLe (bytes.take 2)) (bytes.drop 2))

/-- An array is read back if and only if its length fits in 16 bits, and the reader stays inside the
buffer if and only if there are enough bytes for the entries, or fewer than the test in advance asks
for. -/
theorem endpointArray_iff (endpoints : List BdtEndpoint) (bytes : List UInt8) :
    ((∀ rest, ∃ read, readEndpointArray uninitialized (writeEndpointArray endpoints ++ rest) =
        .ok (read, rest) ∧ BdtEndpointArrayIsEqual read endpoints = true) ↔
      endpoints.length < 2 ^ 16) ∧
    (readEndpointArray uninitialized bytes ≠ .error .aborted ↔ Sufficient bytes) := by
  constructor
  · simp only [readEndpointArray_written]
    constructor
    · intro h
      obtain ⟨read, hread, hequal⟩ := h []
      obtain ⟨rfl, -⟩ := Prod.mk.inj (Except.ok.inj hread)
      simp only [BdtEndpointArrayIsEqual, Bool.and_eq_true, decide_eq_true_eq] at hequal
      have hlength := hequal.1
      rw [length_map, length_take_of_le (Nat.mod_le _ _)] at hlength
      exact hlength ▸ Nat.mod_lt _ (by decide)
    intro hlt rest
    rw [Nat.mod_eq_of_lt hlt, take_length, drop_length]
    refine ⟨_, rfl, ?_⟩
    unfold BdtEndpointArrayIsEqual
    rw [length_map, decide_eq_true rfl, Bool.true_and, all_eq_true, ← map_prod_right_eq_zip]
    refine fun pair hmem => decide_eq_true ?_
    obtain ⟨endpoint, -, rfl⟩ := mem_map.mp hmem
    exact rereadEntry_compare uninitialized endpoint
  have hnumber : (Reader.number 2) bytes = if 2 ≤ bytes.length then
      .ok (ofLe (bytes.take 2), bytes.drop 2) else .error .aborted := by
    show (Reader.bytes 2 >>= fun array => pure (ofLe array.1)) bytes = _
    rw [Reader.bind_apply, Reader.bytes]
    split <;> rfl
  unfold readEndpointArray Sufficient
  rw [Reader.bind_apply, hnumber]
  by_cases hcount : 2 ≤ bytes.length
  · rw [if_pos hcount, and_iff_right hcount, ← times_readEntry uninitialized]
    show (if _ then _ else _) ≠ _ ↔ _
    split
    case isTrue hshort => exact iff_of_true nofun (.inl hshort)
    case isFalse hlong => exact (or_iff_right hlong).symm
  · rw [if_neg hcount]
    exact iff_of_false (fun h => h rfl) fun h => hcount h.1

/-- Six bytes behind the count are enough for the test in advance, but not for an endpoint. -/
theorem six_bytes_overread : readEndpointArray (.zero 16) [1, 0, 8, 0, 0, 1, 2, 3] = .error .aborted := by
  decide +kernel

end Bdt
