import Mathlib.Algebra.Order.Ring.Int

/-!
# Readers of byte streams

Arrays of bytes, little endian numbers, and readers that take bytes from the front of a stream. A
reader stops in two ways: it gives up, or an assertion of the stream fails because there are too few
bytes. `Reader.On` says what a reader makes of given bytes whatever comes behind them, and has one
rule for each way to put readers together.
-/

namespace Bdt

open List

/-- An array of `n` bytes. -/
abbrev Bytes (n : Nat) : Type :=
  { bytes : List UInt8 // bytes.length = n }

namespace Bytes

/-- The first bytes of a list, and zeros where there are none. -/
def ofList (n : Nat) (bytes : List UInt8) : Bytes n :=
  ⟨(bytes ++ List.replicate n 0).take n, by simp⟩

theorem take_ofList {n : Nat} {bytes : List UInt8} (h : bytes.length ≤ n) :
    (ofList n bytes).1.take bytes.length = bytes := by
  rw [ofList, take_take, Nat.min_eq_left h, take_left']
  rfl

/-- An array of zeros. -/
def zero (n : Nat) : Bytes n :=
  ⟨List.replicate n 0, length_replicate⟩

/-- The first `k` bytes are overwritten. -/
def overwrite {n k : Nat} (array : Bytes n) (bytes : Bytes k) (h : k ≤ n) : Bytes n :=
  ⟨bytes.1 ++ array.1.drop k, by simp [bytes.2, array.2, h]⟩

theorem take_overwrite {n k : Nat} (array : Bytes n) (bytes : Bytes k) (h : k ≤ n) :
    (array.overwrite bytes h).1.take k = bytes.1 := by
  rw [overwrite, take_append_of_le_length (Nat.le_of_eq bytes.2.symm),
    take_of_length_le (Nat.le_of_eq bytes.2)]

end Bytes

/-! ## Little endian numbers -/

/-- The lowest `width` bytes of a number. -/
def toLe : Nat → Nat → List UInt8
  | 0, _ => []
  | width + 1, value => UInt8.ofNat value :: toLe width (value / 256)

def ofLe : List UInt8 → Nat
  | [] => 0
  | byte :: bytes => byte.toNat + 256 * ofLe bytes

@[simp] theorem length_toLe (width value : Nat) : (toLe width value).length = width := by
  induction width generalizing value with
  | zero => rfl
  | succ _ ih => rw [toLe, length_cons, ih]

theorem ofLe_toLe {width value : Nat} (h : value < 256 ^ width) : ofLe (toLe width value) = value := by
  induction width generalizing value with
  | zero =>
    rw [Nat.pow_zero] at h
    rw [toLe, ofLe]
    omega
  | succ width ih =>
    have hrest : value / 256 < 256 ^ width := by
      rw [Nat.pow_succ] at h
      omega
    rw [toLe, ofLe, ih hrest, UInt8.toNat_ofNat']
    omega

/-! ## Readers -/

/-- Why a reader stops. -/
inductive ReadError where
  /-- An assertion fails. -/
  | aborted
  | failed
  deriving DecidableEq, Repr

/-- A reader takes bytes from the front of a stream. -/
abbrev Reader (α : Type) : Type :=
  StateT (List UInt8) (Except ReadError) α

namespace Reader

variable {α β : Type}

def fail : Reader α :=
  fun _ => .error .failed

/-- An array, which has to be there. -/
def bytes (n : Nat) : Reader (Bytes n) := fun stream =>
  if h : n ≤ stream.length then .ok (⟨stream.take n, length_take_of_le h⟩, stream.drop n)
  else .error .aborted

def byte : Reader UInt8 :=
  (fun array => array.1.headD 0) <$> bytes 1

/-- A number of `width` bytes. -/
def number (width : Nat) : Reader Nat :=
  (fun array => ofLe array.1) <$> bytes width

/-- `count` values, one behind the other. -/
def times : Nat → Reader α → Reader (List α)
  | 0, _ => pure []
  | count + 1, reader => do
    let value ← reader
    let values ← times count reader
    pure (value :: values)

/-- Values behind a byte that counts them. -/
def counted (reader : Reader α) : Reader (List α) := do
  let count ← byte
  times count.toNat reader

/-- A value with the bytes that it is read from. -/
def consumed (reader : Reader α) : Reader (α × List UInt8) := fun stream =>
  (reader stream).map fun (value, rest) =>
    ((value, stream.take (stream.length - rest.length)), rest)

/-- A value that is there under a condition. -/
def checked (condition : Bool) (value : α) : Except ReadError α :=
  if condition then .ok value else .error .failed

/-- What a reader makes of `written`, whatever comes behind. -/
def On (reader : Reader α) (written : List UInt8) (outcome : Except ReadError α) : Prop :=
  ∀ rest, reader (written ++ rest) = outcome.map fun value => (value, rest)

section

variable {reader : Reader α} {next : α → Reader β} {written behind : List UInt8} {value : α}
  {outcome : Except ReadError β} {error : ReadError}

theorem bind_apply (reader : Reader α) (next : α → Reader β) (stream : List UInt8) :
    (reader >>= next) stream = (reader stream).bind fun (value, rest) => next value rest := by
  show Except.bind _ _ = _
  cases reader stream <;> rfl

theorem On.pure (value : α) : On (pure value : Reader α) [] (.ok value) :=
  fun _ => rfl

theorem On.fail : On (fail : Reader α) [] (.error .failed) :=
  fun _ => rfl

theorem On.bind (h : On reader written (.ok value)) (hnext : On (next value) behind outcome) :
    On (reader >>= next) (written ++ behind) outcome := by
  intro rest
  rw [bind_apply, append_assoc, h]
  exact hnext rest

theorem On.bind_error (h : On reader written (.error error)) (behind : List UInt8) :
    On (reader >>= next) (written ++ behind) (.error error) := by
  intro rest
  rw [bind_apply, append_assoc, h]
  rfl

variable {c : Bool}

variable {result : β}

theorem On.bind_checked {d : Bool} (h : On reader written (checked c value))
    (hnext : On (next value) behind (checked d result)) :
    On (reader >>= next) (written ++ behind) (checked (c && d) result) := by
  cases c with
  | true => exact On.bind h hnext
  | false => exact On.bind_error h behind

theorem On.bind_done (h : On reader written (checked c value))
    (hnext : On (next value) [] (.ok result)) :
    On (reader >>= next) written (checked c result) := by
  rw [← append_nil written, ← Bool.and_true c]
  exact h.bind_checked hnext

theorem On.bind_pure (f : α → β) (h : On reader written (checked c value)) :
    On (reader >>= fun value => Pure.pure (f value)) written (checked c (f value)) :=
  h.bind_done (On.pure (f value))

theorem On.map (f : α → β) (h : On reader written (.ok value)) :
    On (f <$> reader) written (.ok (f value)) := by
  intro rest
  show Except.map _ (reader (written ++ rest)) = _
  rw [h]
  rfl

theorem On.bytes {n : Nat} (array : Bytes n) : On (bytes n) array.1 (.ok array) := by
  intro rest
  obtain ⟨list, rfl⟩ := array
  have hlength : list.length ≤ (list ++ rest).length := by
    rw [length_append]
    exact Nat.le_add_right _ _
  unfold Reader.bytes
  simp only [hlength, dif_pos, take_left', drop_left']
  rfl

theorem On.byte (value : UInt8) : On byte [value] (.ok value) :=
  (On.bytes ⟨[value], rfl⟩).map _

theorem On.number {width value : Nat} (h : value < 256 ^ width) :
    On (number width) (toLe width value) (.ok value) := by
  have hread := (On.bytes ⟨toLe width value, length_toLe width value⟩).map fun array => ofLe array.1
  rw [ofLe_toLe h] at hread
  exact hread

/-- Values that are written one behind the other, when every one of them is there. -/
theorem On.times_checked {γ : Type} (write : γ → List UInt8) (condition : γ → Bool) (read : γ → α)
    (values : List γ)
    (h : ∀ value ∈ values, On reader (write value) (checked (condition value) (read value))) :
    On (times values.length reader) (values.flatMap write)
      (checked (values.all condition) (values.map read)) := by
  induction values with
  | nil => exact .pure []
  | cons value values ih =>
    have hrest := ih fun value hmem => h value (mem_cons_of_mem _ hmem)
    rw [flatMap_cons, all_cons, map_cons]
    refine (h value mem_cons_self).bind_checked ?_
    rw [← append_nil (values.flatMap write), ← Bool.and_true (values.all condition)]
    exact hrest.bind_checked (On.pure (read value :: values.map read))

theorem On.counted_checked {γ : Type} (write : γ → List UInt8) (condition : γ → Bool) (read : γ → α)
    (values : List γ) (hlength : values.length < 256)
    (h : ∀ value ∈ values, On reader (write value) (checked (condition value) (read value))) :
    On (counted reader) ([UInt8.ofNat values.length] ++ values.flatMap write)
      (checked (values.all condition) (values.map read)) := by
  refine (On.byte _).bind ?_
  rw [UInt8.toNat_ofNat', Nat.mod_eq_of_lt hlength]
  exact On.times_checked write condition read values h

theorem On.counted {γ : Type} (write : γ → List UInt8) (read : γ → α) (values : List γ)
    (hlength : values.length < 256)
    (h : ∀ value ∈ values, On reader (write value) (.ok (read value))) :
    On (Reader.counted reader) ([UInt8.ofNat values.length] ++ values.flatMap write)
      (.ok (values.map read)) := by
  have hall := On.counted_checked write (fun _ => true) read values hlength h
  rwa [show values.all (fun _ => true) = true by simp] at hall

theorem On.consumed (h : On reader written (.ok value)) :
    On (consumed reader) written (.ok (value, written)) := by
  intro rest
  unfold Reader.consumed
  rw [h]
  show Except.ok _ = Except.ok _
  simp

theorem On.consumed_checked (h : On reader written (checked c value)) :
    On (Reader.consumed reader) written (checked c (value, written)) := by
  cases c with
  | true => exact On.consumed h
  | false =>
    intro rest
    unfold Reader.consumed
    rw [h]
    rfl

/-! ### What a reader yields -/

theorem bind_eq_ok {stream rest : List UInt8} :
    (reader >>= next) stream = .ok (result, rest) ↔
      ∃ value middle, reader stream = .ok (value, middle) ∧
        next value middle = .ok (result, rest) := by
  rw [bind_apply]
  cases hread : reader stream with
  | error =>
    constructor
    · intro h
      cases h
    · rintro ⟨value, middle, h, -⟩
      cases h
  | ok read =>
    obtain ⟨value, middle⟩ := read
    constructor
    · intro h
      exact ⟨value, middle, rfl, h⟩
    · rintro ⟨value', middle', h, hnext⟩
      cases h
      exact hnext

/-- Whatever the stream is, a value that is read has the property. -/
def Yields (reader : Reader α) (property : α → Prop) : Prop :=
  ∀ stream value rest, reader stream = .ok (value, rest) → property value

variable {property : α → Prop} {conclusion : β → Prop}

theorem Yields.pure (h : property value) : Yields (pure value : Reader α) property := by
  intro stream value rest hread
  cases hread
  exact h

theorem Yields.fail : Yields (fail : Reader α) property := by
  intro stream value rest hread
  cases hread

theorem Yields.bind (h : Yields reader property)
    (hnext : ∀ value, property value → Yields (next value) conclusion) :
    Yields (reader >>= next) conclusion := by
  intro stream result rest hread
  obtain ⟨value, middle, hvalue, hresult⟩ := bind_eq_ok.mp hread
  exact hnext value (h stream value middle hvalue) middle result rest hresult

theorem Yields.bind_some {reader : Reader (Option α)} {next : Option α → Reader α}
    (h : Yields reader fun result => ∀ value ∈ result, property value) (hnone : next none = Reader.fail)
    (hsome : ∀ value, next (some value) = Pure.pure value) : Yields (reader >>= next) property := by
  refine h.bind fun result hresult => ?_
  cases result with
  | none => exact hnone ▸ .fail
  | some value => exact hsome value ▸ .pure (hresult value rfl)

/-- Of a value that is read nothing needs to be known. -/
theorem Yields.trivial (reader : Reader α) : Yields reader fun _ => True :=
  fun _ _ _ _ => True.intro

theorem Yields.times (h : Yields reader property) (count : Nat) :
    Yields (times count reader) fun values =>
      values.length = count ∧ ∀ value ∈ values, property value := by
  induction count with
  | zero => exact .pure ⟨rfl, nofun⟩
  | succ _ ih =>
    refine h.bind fun value hvalue => ih.bind fun values hvalues => .pure ⟨?_, ?_⟩
    · rw [length_cons, hvalues.1]
    · exact forall_mem_cons.mpr ⟨hvalue, hvalues.2⟩

theorem Yields.counted (h : Yields reader property) :
    Yields (counted reader) fun values =>
      values.length < 256 ∧ ∀ value ∈ values, property value := by
  refine (Yields.trivial byte).bind fun count _ => ?_
  intro stream values rest hread
  obtain ⟨hlength, hvalues⟩ := h.times count.toNat stream values rest hread
  exact ⟨by rw [hlength]; exact count.toNat_lt, hvalues⟩

theorem Yields.consumed (h : Yields reader property) :
    Yields (consumed reader) fun value => property value.1 := by
  intro stream value rest hread
  unfold Reader.consumed at hread
  cases hvalue : reader stream with
  | error =>
    rw [hvalue] at hread
    cases hread
  | ok read =>
    rw [hvalue] at hread
    cases hread
    exact h stream read.1 read.2 hvalue

end

end Reader

end Bdt
