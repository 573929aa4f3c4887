import Mathlib.Data.List.Infix
import Bdt.SuperNode.TcpRecord

/-!
# What comes through the record stream

The invariants of the two encoders. What the callback has taken of a `NoneRecordEncoder`, with what
remains, is what was accepted. An `EncryptRecordEncoder` of which the callback has taken less than two
bytes has either encoded no record, or still has the record that it encoded.

`record_round_trip_iff`: what was decoded is what was accepted, and `push` comes to an end, for the
encoder and the decoder that do not encrypt; with a cipher only until the second byte of the stream,
which no decoder reads the header with.
-/

namespace Bdt

open Base List Option

/-! ## Without a cipher -/

variable {recordSize : Nat} {emitted : List UInt8} {encoder : RecordEncoder} {answers : List Nat}
  {calls : RecordCalls} {run : RecordRun} {cipher : RecordCipher}

variable {offset : Nat} {remain : List UInt8}

variable {data : List UInt8} {event : RecordCall × List Nat} {chunks : List (List UInt8)}
  {headerBuffer : List UInt8} {record : List UInt8} {next : RecordRun} {encoded : Nat}

theorem NoneRecordEncoder.pushFrom_carries
    (h : pushFrom recordSize data encoder answers offset emitted = some calls)
    (hoffset : offset ≤ data.length) : offset ≤ calls.size ∧ calls.size ≤ data.length ∧
      calls.emitted ++ calls.encoder.remain.getD [] =
        emitted ++ (data.take calls.size).drop offset := by
  induction answers generalizing offset emitted with
  | nil => cases h
  | cons answer _ ih =>
    -- the record is the part of the data from the offset on
    have hfront : (data.drop offset).take recordSize <+: data.drop offset := take_prefix _ _
    rw [pushFrom] at h
    generalize (data.drop offset).take recordSize = record at h hfront
    have hlength := hfront.length_le
    rw [length_drop] at hlength
    have hrecord : (data.take (offset + record.length)).drop offset = record := by
      rw [List.drop_take, Nat.add_sub_cancel_left]
      exact (prefix_iff_eq_take.mp hfront).symm
    split at h
    case isTrue =>
      cases h
      refine ⟨Nat.le_add_right _ _, by show offset + record.length ≤ _; omega, ?_⟩
      show emitted ++ record.take _ ++ record.drop _ = _
      rw [append_assoc, take_append_drop, hrecord]
    case isFalse hdone =>
    have htaken : record.take (takenOf answer record) = record :=
      take_of_length_le (Nat.not_lt.mp hdone)
    rw [htaken] at h
    split at h
    case isTrue hlast =>
      cases h
      refine ⟨hoffset, Nat.le_refl _, ?_⟩
      have hend : offset + record.length = data.length := by omega
      rw [hend] at hrecord
      show emitted ++ record ++ [] = _
      rw [append_nil, hrecord]
    case isFalse hmore =>
    obtain ⟨hle, hsize, hcarries⟩ := ih h (by omega)
    refine ⟨by omega, hsize, ?_⟩
    have hfirst : ((data.take calls.size).drop offset).take record.length = record := by
      rw [take_drop, take_take, Nat.min_eq_left hle, hrecord]
    rw [hcarries, append_assoc, ← drop_drop]
    nth_rewrite 1 [← hfirst]
    rw [take_append_drop]

theorem NoneRecordEncoder.pushFrom_pending
    (h : pushFrom recordSize data encoder answers offset emitted = some calls) :
    calls.encoder.pending = encoder.pending := by
  induction answers generalizing offset emitted with
  | nil => cases h
  | cons _ _ ih =>
    rw [pushFrom] at h
    split at h
    case isTrue =>
      cases h
      rfl
    case isFalse =>
    split at h
    case isTrue =>
      cases h
      rfl
    case isFalse => exact ih h

theorem RecordEncoder.continue_carries (h : encoder.continue answers = some calls) :
    calls.emitted ++ calls.encoder.remain.getD [] = encoder.remain.getD [] ∧
      calls.encoder.pending = encoder.pending := by
  unfold RecordEncoder.continue at h
  cases hremain : encoder.remain with
  | none =>
    simp only [hremain] at h
    cases h
    exact ⟨by rw [hremain]; rfl, rfl⟩
  | some record =>
    simp only [hremain] at h
    cases answers with
    | nil => cases h
    | cons =>
      simp only at h
      split at h
      case isTrue =>
        cases h
        exact ⟨take_append_drop _ _, rfl⟩
      case isFalse hdone =>
      cases h
      refine ⟨?_, rfl⟩
      show record.take _ ++ [] = record
      rw [append_nil, take_of_length_le (Nat.not_lt.mp hdone)]

/-- What was taken and what remains is what was accepted. -/
structure Carries (run : RecordRun) : Prop where
  carries : run.emitted ++ run.encoder.remain.getD [] = run.accepted
  pending : run.encoder.pending = []

theorem Carries.step
    (h : Carries run) (hnext : run.step ⟨recordSize, none⟩ event = some next) : Carries next := by
  obtain ⟨call, answers⟩ := event
  obtain ⟨hcarries, hpending⟩ := h
  cases call with
  | push data =>
    obtain ⟨calls, hcalls, rfl⟩ := map_eq_some_iff.mp hnext
    replace hcalls : NoneRecordEncoder.push recordSize run.encoder data answers = some calls :=
      hcalls
    unfold NoneRecordEncoder.push at hcalls
    split at hcalls
    case isTrue =>
      cases hcalls
      refine ⟨?_, hpending⟩
      show run.emitted ++ [] ++ _ = run.accepted ++ data.bytes.take 0
      rw [take_zero, append_nil, append_nil, hcarries]
    case isFalse hremain =>
    obtain ⟨-, -, hpush⟩ := NoneRecordEncoder.pushFrom_carries hcalls (Nat.zero_le _)
    refine ⟨?_, (NoneRecordEncoder.pushFrom_pending hcalls).trans hpending⟩
    rw [not_isSome_iff_eq_none.mp hremain] at hcarries
    show run.emitted ++ calls.emitted ++ _ = _
    rw [append_assoc, hpush, ← hcarries, nil_append, drop_zero]
    exact congrArg (· ++ _) (append_nil _).symm
  | «continue» =>
    obtain ⟨calls, hcalls, rfl⟩ := map_eq_some_iff.mp hnext
    obtain ⟨hcontinue, hsame⟩ := RecordEncoder.continue_carries hcalls
    refine ⟨?_, hsame.trans hpending⟩
    show run.emitted ++ calls.emitted ++ _ = _
    rw [append_assoc, hcontinue, hcarries]
  | nagling => cases hnext
  | close =>
    simp only [RecordRun.step, RecordOptions.close, map_some] at hnext
    cases hnext
    unfold NoneRecordEncoder.close
    split <;> exact ⟨by rw [append_nil]; exact hcarries, hpending⟩
  | uninit =>
    cases hnext
    exact ⟨hcarries, hpending⟩

/-! ## With a cipher -/

theorem EncryptRecordEncoder.two_le_length (cipher : RecordCipher) (recordSize : Nat)
    (data : List (List UInt8)) : 2 ≤ (encodeRecord cipher recordSize data).length := by
  rw [encodeRecord, length_append, length_toLe]
  exact Nat.le_add_right _ _

/-- The callback has taken less than two bytes, so that it has not taken the whole record. -/
theorem offered_record {answer : Nat} (hlength : 2 ≤ emitted.length + record.length)
    (hfew : (emitted ++ record.take (takenOf answer record)).length < 2) :
    takenOf answer record < record.length ∧
      2 ≤ (emitted ++ record.take (takenOf answer record)).length +
        (record.drop (takenOf answer record)).length := by
  have hle : takenOf answer record ≤ record.length := Nat.min_le_right _ _
  rw [length_append, length_take, Nat.min_eq_left hle] at hfew ⊢
  rw [length_drop]
  omega

theorem EncryptRecordEncoder.pushFrom_emitted {data : NodeBuffer}
    (h : pushFrom cipher recordSize data encoder answers remain encoded emitted = some calls) :
    emitted <+: calls.emitted := by
  induction answers generalizing encoder remain encoded emitted with
  | nil =>
    rw [pushFrom] at h
    split at h
    case isTrue =>
      cases h
      exact prefix_refl _
    case isFalse => cases h
  | cons _ _ ih =>
    rw [pushFrom] at h
    split at h
    case isTrue =>
      cases h
      exact prefix_refl _
    case isFalse =>
    simp only at h
    split at h
    case isTrue =>
      cases h
      exact prefix_append _ _
    case isFalse =>
    split at h
    case isTrue =>
      cases h
      exact prefix_append _ _
    case isFalse => exact (prefix_append _ _).trans (ih h)

/-- Of less than two bytes: there was no record, or the encoder has what remains of it. -/
def Withholds (run : RecordRun) : Prop :=
  run.emitted.length < 2 →
    run.encoder.remain = none ∧ run.emitted = [] ∧
        run.accepted = run.encoder.pending.flatten ∨
      ∃ record, run.encoder.remain = some record ∧ 2 ≤ run.emitted.length + record.length

theorem withholds_offered (answer : Nat) (hlength : 2 ≤ emitted.length + record.length)
    (hemitted : run.emitted = emitted ++ record.take (takenOf answer record))
    (hremain : takenOf answer record < record.length →
      run.encoder.remain = some (record.drop (takenOf answer record))) : Withholds run := by
  intro hfew
  rw [hemitted] at hfew ⊢
  obtain ⟨hpart, htotal⟩ := offered_record hlength hfew
  exact .inr ⟨_, hremain hpart, htotal⟩

theorem withholds_flush {accepted : List UInt8}
    (h : EncryptRecordEncoder.flush cipher recordSize encoder answers = some calls) :
    Withholds { encoder := calls.encoder, emitted := emitted ++ calls.emitted, accepted } := by
  cases answers with
  | nil => cases h
  | cons answer =>
    have hlength := EncryptRecordEncoder.two_le_length cipher recordSize encoder.pending
    cases h
    refine withholds_offered answer (Nat.le_trans hlength (Nat.le_add_left _ _)) rfl ?_
    exact fun hpart => if_pos hpart

theorem Withholds.push {data : NodeBuffer} (h : Withholds run)
    (hcalls : EncryptRecordEncoder.push cipher recordSize run.encoder data answers = some calls) :
    Withholds
      { encoder := calls.encoder
        emitted := run.emitted ++ calls.emitted
        accepted := run.accepted ++ data.bytes.take calls.size } := by
  unfold EncryptRecordEncoder.push at hcalls
  split at hcalls
  case isTrue =>
    cases hcalls
    simp only [append_nil, take_zero]
    exact h
  case isFalse hremain =>
  rw [not_isSome_iff_eq_none] at hremain
  intro hfew
  have hbefore : run.emitted.length < 2 :=
    Nat.lt_of_le_of_lt (prefix_append _ _).length_le hfew
  obtain ⟨-, hemitted, haccepted⟩ | ⟨record, hrecord, -⟩ := h hbefore
  case inr => cases hremain.symm.trans hrecord
  case inl =>
  unfold EncryptRecordEncoder.pushFrom at hcalls
  split at hcalls
  case isTrue =>
    cases hcalls
    refine .inl ⟨hremain, ?_, ?_⟩
    · show run.emitted ++ [] = []
      rw [hemitted, append_nil]
    · show run.accepted ++ data.bytes.take (0 + data.bytes.length) = _
      rw [Nat.zero_add, take_length, haccepted, flatten_append, flatten_singleton]
  case isFalse =>
  cases answers with
  | nil => cases hcalls
  | cons answer =>
    simp only [nil_append] at hcalls
    -- the first record is offered, and not taken as a whole
    have hlength := EncryptRecordEncoder.two_le_length cipher recordSize
      (run.encoder.pending ++ [data.bytes.take (recordSize - run.encoder.pendingSize)])
    generalize EncryptRecordEncoder.encodeRecord cipher recordSize
      (run.encoder.pending ++ [data.bytes.take (recordSize - run.encoder.pendingSize)]) =
        record at hcalls hlength
    have hwhole (hdone : ¬ takenOf answer record < record.length)
        (hfront : record.take (takenOf answer record) <+: calls.emitted) : False := by
      have hle := hfront.length_le
      rw [take_of_length_le (Nat.not_lt.mp hdone)] at hle
      rw [length_append] at hfew
      omega
    split at hcalls
    case isTrue =>
      cases hcalls
      exact withholds_offered answer (Nat.le_trans hlength (Nat.le_add_left _ _)) rfl
        (fun _ => rfl) hfew
    case isFalse hdone =>
    split at hcalls
    case isTrue =>
      cases hcalls
      exact (hwhole hdone (prefix_refl _)).elim
    case isFalse =>
      exact (hwhole hdone (EncryptRecordEncoder.pushFrom_emitted hcalls)).elim

theorem Withholds.continue
    (h : Withholds run) (hcalls : run.encoder.continue answers = some calls) :
    Withholds { run with encoder := calls.encoder, emitted := run.emitted ++ calls.emitted } := by
  unfold RecordEncoder.continue at hcalls
  cases hremain : run.encoder.remain with
  | none =>
    simp only [hremain] at hcalls
    cases hcalls
    simp only [append_nil]
    exact h
  | some record =>
    simp only [hremain] at hcalls
    cases answers with
    | nil => cases hcalls
    | cons answer =>
      intro hfew
      have hbefore : run.emitted.length < 2 :=
        Nat.lt_of_le_of_lt (prefix_append _ _).length_le hfew
      obtain ⟨hnone, -⟩ | ⟨other, hother, hlength⟩ := h hbefore
      case inl => cases hremain.symm.trans hnone
      case inr =>
      obtain rfl : record = other := some.inj (hremain.symm.trans hother)
      simp only at hcalls
      split at hcalls
      case isTrue =>
        cases hcalls
        exact withholds_offered answer hlength rfl (fun _ => rfl) hfew
      case isFalse hdone =>
        cases hcalls
        exact withholds_offered answer hlength rfl (fun hpart => absurd hpart hdone) hfew

theorem Withholds.step (h : Withholds run)
    (hnext : run.step ⟨recordSize, some cipher⟩ event = some next) : Withholds next := by
  obtain ⟨call, answers⟩ := event
  cases call with
  | push =>
    obtain ⟨calls, hcalls, rfl⟩ := map_eq_some_iff.mp hnext
    exact h.push hcalls
  | «continue» =>
    obtain ⟨calls, hcalls, rfl⟩ := map_eq_some_iff.mp hnext
    exact h.continue hcalls
  | nagling =>
    obtain ⟨calls, hcalls, rfl⟩ := map_eq_some_iff.mp hnext
    replace hcalls : EncryptRecordEncoder.nagling cipher recordSize run.encoder answers =
      some calls := hcalls
    unfold EncryptRecordEncoder.nagling at hcalls
    split at hcalls
    case isTrue => exact withholds_flush hcalls
    case isFalse => cases hcalls
  | close =>
    obtain ⟨calls, hcalls, rfl⟩ := map_eq_some_iff.mp hnext
    replace hcalls : EncryptRecordEncoder.close cipher recordSize run.encoder answers =
      some calls := hcalls
    unfold EncryptRecordEncoder.close at hcalls
    split at hcalls
    case isTrue =>
      cases hcalls
      simp only [append_nil]
      exact h
    case isFalse =>
    split at hcalls
    case isTrue =>
      cases hcalls
      simp only [append_nil]
      exact h
    case isFalse =>
    split at hcalls
    case isTrue => exact withholds_flush hcalls
    case isFalse =>
    cases hcalls
    simp only [append_nil]
    exact h
  | uninit =>
    cases hnext
    exact h

/-! ## The decoder -/

theorem decodeFrom_short (cipher : RecordCipher)
    (hshort : remain.length + headerBuffer.length < 2) (data : List UInt8) :
    decodeFrom cipher (.header headerBuffer) remain data =
      some (.header (headerBuffer ++ remain), data) := by
  rw [decodeFrom, dif_pos hshort]

theorem decodeAll_short (cipher : RecordCipher)
    (hshort : chunks.flatten.length + headerBuffer.length < 2) :
    decodeAll cipher (.header headerBuffer) [] chunks = some [] := by
  induction chunks generalizing headerBuffer with
  | nil => rfl
  | cons _ _ ih =>
    rw [flatten_cons, length_append] at hshort
    rw [decodeAll, decodeFrom_short cipher (by omega)]
    refine ih ?_
    rw [length_append]
    omega

theorem decodeAll_wait_short (cipher : RecordCipher)
    (hshort : chunks.flatten.length < 2) : decodeAll cipher .wait [] chunks = some [] := by
  cases chunks with
  | nil => rfl
  | cons chunk chunks =>
    rw [decodeAll, decodeFrom]
    show decodeAll cipher (.header []) [] (chunk :: chunks) = some []
    exact decodeAll_short cipher hshort

/-- A chunk that ends with the header: there is nothing behind it to be read. -/
theorem decodeFrom_header (cipher : RecordCipher) {chunk : List UInt8} (hlength : chunk.length = 2)
    (data : List UInt8) : decodeFrom cipher .wait chunk data = none := by
  have hbehind : chunk.drop 2 = [] := drop_eq_nil_of_le (Nat.le_of_eq hlength)
  rw [decodeFrom, decodeFrom, dif_neg (by rw [hlength]; exact Nat.lt_irrefl 2)]
  simp only [length_nil, Nat.sub_zero, hbehind, take_nil, append_nil]
  exact if_pos Nat.two_pos

/-! ## The end of the loops -/

theorem NoneRecordEncoder.pushFrom_isSome (hsize : recordSize ≠ 0)
    (hoffset : offset ≤ data.length) (hanswers : data.length < offset + answers.length) :
    ∃ calls, pushFrom recordSize data encoder answers offset emitted = some calls := by
  induction answers generalizing offset emitted with
  | nil => exact absurd hoffset (Nat.not_le.mpr hanswers)
  | cons _ _ ih =>
    rw [length_cons] at hanswers
    have hrecord : ((data.drop offset).take recordSize).length =
        min recordSize (data.length - offset) := by
      rw [length_take, length_drop]
    rw [pushFrom]
    generalize (data.drop offset).take recordSize = record at hrecord ⊢
    split
    case isTrue => exact ⟨_, rfl⟩
    case isFalse =>
    split
    case isTrue => exact ⟨_, rfl⟩
    case isFalse hmore => exact ih (by omega) (by omega)

theorem NoneRecordEncoder.pushFrom_zero (answers : List Nat) (hdata : data ≠ []) :
    pushFrom 0 data encoder answers 0 emitted = none := by
  induction answers generalizing emitted with
  | nil => rfl
  | cons _ _ ih =>
    rw [pushFrom]
    simp only [take_zero, length_nil, Nat.not_lt_zero, if_false, Nat.add_zero,
      ge_iff_le, Nat.le_zero_eq, length_eq_zero_iff, hdata]
    exact ih

theorem length_sliceFrom (bytes : List UInt8) (start : Int) :
    (sliceFrom bytes start).length ≠ 0 → start < bytes.length := by
  intro hne
  by_contra hle
  refine hne ?_
  have hnonneg : ¬ start < 0 := by omega
  rw [sliceFrom, if_neg hnonneg, length_drop]
  omega

theorem EncryptRecordEncoder.pushFrom_isSome {data : NodeBuffer}
    (hsize : recordSize ≠ 0) (hpending : encoder.pendingSize = 0)
    (hencoded : encoded ≤ data.bytes.length + data.byteOffset)
    (hanswers : data.bytes.length + data.byteOffset < encoded + answers.length) : ∃ calls,
      pushFrom cipher recordSize data encoder answers remain encoded emitted = some calls := by
  induction answers generalizing encoder remain encoded emitted with
  | nil => exact absurd hencoded (Nat.not_le.mpr hanswers)
  | cons _ _ ih =>
    rw [length_cons] at hanswers
    rw [pushFrom]
    split
    case isTrue => exact ⟨_, rfl⟩
    case isFalse =>
    simp only
    split
    case isTrue => exact ⟨_, rfl⟩
    case isFalse =>
    split
    case isTrue => exact ⟨_, rfl⟩
    case isFalse hmore =>
    have hlt := length_sliceFrom _ _ hmore
    rw [hpending] at hlt ⊢
    exact ih rfl (by omega) (by omega)

theorem EncryptRecordEncoder.push_isSome {data : NodeBuffer} (hsize : recordSize ≠ 0)
    (hanswers : data.bytes.length + data.byteOffset + 1 < answers.length) :
    ∃ calls, push cipher recordSize encoder data answers = some calls := by
  unfold push
  split
  case isTrue => exact ⟨_, rfl⟩
  case isFalse =>
  cases answers with
  | nil => exact absurd hanswers (Nat.not_lt_zero _)
  | cons =>
    rw [length_cons] at hanswers
    rw [pushFrom]
    split
    case isTrue => exact ⟨_, rfl⟩
    case isFalse =>
    simp only
    split
    case isTrue => exact ⟨_, rfl⟩
    case isFalse =>
    split
    case isTrue => exact ⟨_, rfl⟩
    case isFalse hmore =>
      exact pushFrom_isSome hsize rfl (by omega) (by omega)

/-- Records of no data: the callback takes them, and the data is still there. -/
theorem EncryptRecordEncoder.pushFrom_zero
    (hanswers : ∀ answer ∈ answers, answer = (encodeRecord cipher 0 [[]]).length)
    (encoded : Nat) (hencoded : encoded = 0) :
    pushFrom cipher 0 ⟨0, [0]⟩ {} answers [0] encoded emitted = none := by
  induction answers generalizing emitted encoded with
  | nil => rw [pushFrom, if_neg (Nat.not_lt_zero _)]
  | cons answer _ ih =>
    subst hencoded
    obtain rfl := hanswers answer mem_cons_self
    have hwhole : ¬ takenOf (encodeRecord cipher 0 [[]]).length (encodeRecord cipher 0 [[]]) <
        (encodeRecord cipher 0 [[]]).length := by
      rw [takenOf, Nat.min_self]
      exact Nat.lt_irrefl _
    rw [pushFrom, if_neg (Nat.not_lt_zero _)]
    refine (if_neg hwhole).trans ((if_neg Nat.one_ne_zero).trans ?_)
    exact ih (fun other hmem => hanswers other (mem_cons_of_mem _ hmem)) _ rfl

theorem pushTerminates_iff (options : RecordOptions) :
    PushTerminates options ↔ options.recordSize ≠ 0 := by
  obtain ⟨recordSize, cipher⟩ := options
  constructor
  · rintro hterminates (rfl : recordSize = 0)
    cases cipher with
    | none =>
      obtain ⟨count, calls, hcalls⟩ := hterminates {} ⟨0, [0]⟩ fun _ => 0
      replace hcalls : NoneRecordEncoder.pushFrom 0 [0] {} _ 0 [] = some calls := hcalls
      rw [NoneRecordEncoder.pushFrom_zero _ (cons_ne_nil _ _)] at hcalls
      cases hcalls
    | some cipher =>
      obtain ⟨count, calls, hcalls⟩ := hterminates {} ⟨0, [0]⟩
        fun _ => (EncryptRecordEncoder.encodeRecord cipher 0 [[]]).length
      replace hcalls : EncryptRecordEncoder.pushFrom cipher 0 ⟨0, [0]⟩ {} _ [0] 0 [] = some calls :=
        hcalls
      rw [EncryptRecordEncoder.pushFrom_zero (fun answer hmem => ?_) 0 rfl] at hcalls
      · cases hcalls
      · obtain ⟨_, -, rfl⟩ := mem_map.mp hmem
        rfl
  intro hsize encoder data answers
  have hlength (count : Nat) : ((List.range count).map answers).length = count := by
    rw [length_map, length_range]
  cases cipher with
  | none =>
    refine ⟨data.bytes.length + 1, ?_⟩
    show ∃ calls, NoneRecordEncoder.push recordSize encoder data _ = some calls
    unfold NoneRecordEncoder.push
    split
    case isTrue => exact ⟨_, rfl⟩
    case isFalse =>
      exact NoneRecordEncoder.pushFrom_isSome hsize (Nat.zero_le _)
        (by rw [hlength, Nat.zero_add]; exact Nat.lt_succ_self _)
  | some =>
    refine ⟨data.bytes.length + data.byteOffset + 2, ?_⟩
    exact EncryptRecordEncoder.push_isSome hsize (by rw [hlength]; exact Nat.lt_succ_self _)

/-! ## The round trip -/

theorem roundTripsRecords_none (h : Carries run) : RoundTripsRecords ⟨recordSize, none⟩ run := by
  intro chunks hchunks
  refine ⟨run.emitted, congrArg some hchunks, ?_, ?_⟩
  · rw [← h.carries]
    exact prefix_append _ _
  · rintro ⟨hremain, -⟩
    rw [← h.carries, hremain]
    exact (append_nil _).symm

theorem roundTripsRecords_some (h : Withholds run) :
    RoundTripsRecords ⟨recordSize, some cipher⟩ run ↔ run.emitted.length < 2 := by
  constructor
  · intro htrips
    by_contra hmany
    obtain ⟨decoded, hdecoded, -⟩ := htrips [run.emitted.take 2, run.emitted.drop 2]
      (by rw [flatten_cons, flatten_singleton, take_append_drop])
    have hlength : (run.emitted.take 2).length = 2 := by
      rw [length_take]
      omega
    replace hdecoded : decodeAll cipher .wait [] _ = some decoded := hdecoded
    rw [decodeAll, decodeFrom_header cipher hlength] at hdecoded
    cases hdecoded
  intro hfew chunks hchunks
  refine ⟨[], decodeAll_wait_short cipher (hchunks ▸ hfew), nil_prefix, ?_⟩
  rintro ⟨hremain, hpending⟩
  obtain ⟨-, -, haccepted⟩ | ⟨record, hrecord, -⟩ := h hfew
  · rw [haccepted, hpending]
  · cases hremain.symm.trans hrecord

/-- `push` comes to an end and what was decoded is what was accepted, in every run of the classes
that do not encrypt, for records that are not empty; and in a run of the others exactly as long as the
callback has taken at most one byte. -/
theorem record_round_trip_iff (options : RecordOptions) (events : List (RecordCall × List Nat)) :
    ∀ run ∈ exec (RecordRun.step options) {} events,
      (PushTerminates options ∧ RoundTripsRecords options run ↔
        options.recordSize ≠ 0 ∧ (options.cipher = none ∨ run.emitted.length < 2)) := by
  intro run hrun
  refine and_congr (pushTerminates_iff options) ?_
  obtain ⟨recordSize, cipher⟩ := options
  cases cipher with
  | none =>
    have hcarries : Carries run :=
      exec_preserves (fun _ _ _ h hstep => h.step hstep) ⟨rfl, rfl⟩ hrun
    exact iff_of_true (roundTripsRecords_none hcarries) (.inl rfl)
  | some =>
    have hwithholds : Withholds run :=
      exec_preserves (fun _ _ _ h hstep => h.step hstep) (fun _ => .inl ⟨rfl, rfl, rfl⟩) hrun
    rw [roundTripsRecords_some hwithholds]
    exact (or_iff_right nofun).symm

/-- Two records of which the callback takes the first: what remains is the second. -/
theorem record_round_trip_two :
    ∃ run ∈ exec (RecordRun.step ⟨2, none⟩) {} [(.push ⟨0, [1, 2, 3]⟩, [2, 0])],
      run.emitted = [1, 2] ∧ PushTerminates ⟨2, none⟩ ∧ RoundTripsRecords ⟨2, none⟩ run := by
  refine ⟨_, rfl, rfl, ?_⟩
  exact (record_round_trip_iff ⟨2, none⟩ [(.push ⟨0, [1, 2, 3]⟩, [2, 0])] _ rfl).mpr
    ⟨Nat.succ_ne_zero 1, .inl rfl⟩

/-- The padding of the cipher alone, to a multiple of its block of 16 bytes. -/
def paddingCipher : RecordCipher where
  encrypt data := data ++ List.replicate (16 - data.length % 16) (.ofNat (16 - data.length % 16))
  decrypt data := data.getLast?.map fun last => data.take (data.length - last.toNat)
  inverts := by
    intro data
    obtain ⟨count, hcount⟩ : ∃ count, 16 - data.length % 16 = count + 1 :=
      ⟨15 - data.length % 16, by omega⟩
    rw [hcount, getLast?_append, List.getLast?_replicate, if_neg (Nat.succ_ne_zero count)]
    have hvalue : (UInt8.ofNat (count + 1)).toNat = count + 1 := by
      rw [UInt8.toNat_ofNat']
      omega
    show some (List.take _ _) = _
    rw [hvalue, length_append, length_replicate, Nat.add_sub_cancel, take_left' rfl]

/-- One whole record, which the callback takes: the decoder does not find the data again. -/
theorem record_header_misread :
    ∃ run ∈ exec (RecordRun.step ⟨4, some paddingCipher⟩) {} [(.push ⟨0, [1, 2, 3, 4]⟩, [100])],
      run.accepted = [1, 2, 3, 4] ∧ ¬ RoundTripsRecords ⟨4, some paddingCipher⟩ run := by
  refine ⟨_, rfl, rfl, fun htrips => ?_⟩
  have hstart : Withholds {} := fun _ => .inl ⟨rfl, rfl, rfl⟩
  have hwithholds := hstart.step
    (show RecordRun.step ⟨4, some paddingCipher⟩ {} (.push ⟨0, [1, 2, 3, 4]⟩, [100]) = some _ from rfl)
  have hfew := (roundTripsRecords_some hwithholds).mp htrips
  exact absurd hfew (Nat.not_lt.mpr (Nat.le_add_left 2 16))

end Bdt
