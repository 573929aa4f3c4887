import Bdt.Interface.TcpInterface

/-!
# The package list decoder

A model of `Bdt_DecodePackage` in `PackageDecoder.imp.inl`. The decoders of the single packages,
which `packages.js` generates for the most part, are the parameter `PackageCodec`. The decoder writes
what it has decoded to an array of the caller and does not say how many entries it has written;
`decodePackage_eq` says what it leaves in the array.
-/

namespace Bdt

open List

def BDT_MAX_PACKAGE_MERGE_LENGTH : Nat := 32
def BDT_PROTOCOL_MIN_PACKAGE_LENGTH : Nat := 8
def BDT_EXCHANGEKEY_PACKAGE : UInt8 := 0

/-- `Bdt_GetPackageMinSize`. -/
def Bdt_GetPackageMinSize (cmdtype : UInt8) : Nat :=
  if cmdtype = BDT_EXCHANGEKEY_PACKAGE then 94 else 2

/-- What `DecodeSinglePackage` comes to. -/
inductive SingleResult (P : Type) where
  /-- An assertion fails. -/
  | aborted
  /-- `NULL`. -/
  | null
  /-- A package, with the bytes that were read. -/
  | package (package : P) (used : Nat)

/-- The decoders of the packages. A package that refers to fields of another one is decoded with
it. -/
structure PackageCodec (P : Type) where
  cmdtype : P → UInt8
  /-- `Bdt_IsSnPackage`. -/
  isSnPackage : P → Bool
  /-- `DecodeSinglePackage`, with the length behind the header and the rest of the stream. -/
  decodeSinglePackage : UInt8 → Nat → List UInt8 → Option P → SingleResult P
  /-- `Bdt_ExchangeKeyPackageCreate` and `DecodeExchangeKeyPackage`: the package is there also when
  the decoder fails. -/
  decodeExchangeKeyPackage : List UInt8 → Option P → Option (P × Option Nat)
  /-- `Bdt_ExchangeKeyPackageInit` sets the command. -/
  cmdtype_exchange (buffer : List UInt8) (refPackage : Option P) (exchange : P × Option Nat) :
    decodeExchangeKeyPackage buffer refPackage = some exchange →
      cmdtype exchange.1 = BDT_EXCHANGEKEY_PACKAGE
  /-- `BdtPeerInfoGetPeerid` of the peer info of an exchange key package. -/
  exchangePeerid : P → List UInt8

/-- An entry of the array of the caller. -/
inductive Slot (P : Type) where
  /-- What the caller had there. -/
  | caller
  | null
  | package (package : P)
  deriving DecidableEq, Repr

/-- What `Bdt_DecodePackage` leaves: the array, the number of entries that it wrote, which it tells
nobody, and whether its result is zero. -/
structure DecodeOutput (P : Type) where
  results : List (Slot P)
  count : Nat
  success : Bool
  deriving DecidableEq, Repr

variable {P : Type}

/-- `refPackage ? refPackage : result[0]`. -/
def reference (refPackage : Option P) (results : List (Slot P)) : Option P :=
  match refPackage, results with
  | some package, _ => some package
  | none, .package package :: _ => some package
  | none, _ => none

/-- The loop of `Bdt_DecodePackage`, at most `fuel` times; `none` stands for an assertion that fails
and for an entry beyond the array. -/
def decodeLoop (codec : PackageCodec P) (refPackage : Option P) :
    Nat → List UInt8 → List (Slot P) → Nat → Option (DecodeOutput P)
  | 0, _, _, _ => none
  | fuel + 1, stream, results, resultPos =>
    if stream.length ≤ 3 then some { results, count := resultPos, success := true }
    else
      let totallen := readUInt16 stream 0
      let cmdtype := stream.getD 2 0
      let tail := stream.drop 3
      -- `totallen - 3` is compared without a sign
      if totallen < Bdt_GetPackageMinSize cmdtype ∨ totallen < 3 ∨ totallen - 3 > tail.length then
        some { results, count := resultPos, success := false }
      else
        match codec.decodeSinglePackage cmdtype (totallen - 3) tail
          (reference refPackage results) with
        | .aborted => none
        | .null => some { results, count := resultPos, success := false }
        | .package package used =>
          if resultPos < results.length then
            decodeLoop codec refPackage fuel (tail.drop used)
              (results.set resultPos (.package package)) (resultPos + 1)
          else none

/-- `Bdt_DecodePackage`. -/
def decodePackage (codec : PackageCodec P) (buffer : List UInt8) (refPackage : Option P)
    (results : List (Slot P)) (isStartWithExchangeKey : Bool) : Option (DecodeOutput P) :=
  let results := results.set 0 .null
  if isStartWithExchangeKey then
    match codec.decodeExchangeKeyPackage buffer refPackage with
    | none => none
    | some (package, none) =>
      some { results := results.set 0 (.package package), count := 1, success := false }
    | some (package, some used) =>
      decodeLoop codec refPackage (buffer.length + 1) (buffer.drop used)
        (results.set 0 (.package package)) 1
  else decodeLoop codec refPackage (buffer.length + 1) buffer results 0

/-! ## The packages without the array -/

/-- The packages that a decode yields, and whether its result is zero. -/
structure Decoded (P : Type) where
  packages : List P
  success : Bool
  deriving DecidableEq, Repr

/-- The loop, on the packages that are decoded so far. -/
def decodedLoop (codec : PackageCodec P) (refPackage : Option P) :
    Nat → List UInt8 → List P → Option (Decoded P)
  | 0, _, _ => none
  | fuel + 1, stream, packages =>
    if stream.length ≤ 3 then some { packages, success := true }
    else
      let totallen := readUInt16 stream 0
      let cmdtype := stream.getD 2 0
      let tail := stream.drop 3
      if totallen < Bdt_GetPackageMinSize cmdtype ∨ totallen < 3 ∨ totallen - 3 > tail.length then
        some { packages, success := false }
      else
        match codec.decodeSinglePackage cmdtype (totallen - 3) tail
          (refPackage.or packages.head?) with
        | .aborted => none
        | .null => some { packages, success := false }
        | .package package used =>
          if packages.length < BDT_MAX_PACKAGE_MERGE_LENGTH then
            decodedLoop codec refPackage fuel (tail.drop used) (packages ++ [package])
          else none

/-- The packages of a buffer. -/
def decoded (codec : PackageCodec P) (buffer : List UInt8) (refPackage : Option P)
    (isStartWithExchangeKey : Bool) : Option (Decoded P) :=
  if isStartWithExchangeKey then
    match codec.decodeExchangeKeyPackage buffer refPackage with
    | none => none
    | some (package, none) => some { packages := [package], success := false }
    | some (package, some used) =>
      decodedLoop codec refPackage (buffer.length + 1) (buffer.drop used) [package]
  else decodedLoop codec refPackage (buffer.length + 1) buffer []

/-- An array with the packages of a decode written to it: the first entry is cleared before. -/
def place (packages : List P) (results : List (Slot P)) : List (Slot P) :=
  packages.map .package ++ (results.set 0 .null).drop packages.length

section

variable {packages : List P} {results : List (Slot P)}

theorem length_place (h : packages.length ≤ results.length) :
    (place packages results).length = results.length := by
  simp [place]
  omega

theorem place_nil (results : List (Slot P)) : place [] results = results.set 0 .null :=
  rfl

/-- The next package goes behind those that are there. -/
theorem set_place (h : packages.length < results.length) (package : P) :
    (place packages results).set packages.length (.package package) =
      place (packages ++ [package]) results := by
  have hrest : packages.length < (results.set 0 .null).length := by
    rw [length_set]
    exact h
  unfold place
  rw [drop_eq_getElem_cons hrest, set_append_right _ _ (by simp), length_map,
    Nat.sub_self, set_cons_zero, map_append, append_assoc, length_append]
  rfl

/-- The packages refer to the first one, unless the caller has given another one. -/
theorem reference_place (hresults : results ≠ []) (refPackage : Option P) :
    reference refPackage (place packages results) = refPackage.or packages.head? := by
  obtain ⟨slot, rest, rfl⟩ := exists_cons_of_ne_nil hresults
  cases refPackage with
  | some => rfl
  | none => cases packages <;> rfl

theorem decodeLoop_eq (codec : PackageCodec P) (refPackage : Option P) (fuel : Nat)
    (stream : List UInt8) (packages : List P) (hresults : results.length = BDT_MAX_PACKAGE_MERGE_LENGTH) :
    decodeLoop codec refPackage fuel stream (place packages results) packages.length =
      (decodedLoop codec refPackage fuel stream packages).map fun d =>
        { results := place d.packages results, count := d.packages.length, success := d.success } := by
  have hne : results ≠ [] := by
    rintro rfl
    cases hresults
  induction fuel generalizing stream packages with
  | zero => rfl
  | succ fuel ih =>
    unfold decodeLoop decodedLoop
    rw [reference_place hne]
    split
    · rfl
    simp only
    split
    · rfl
    split
    · rfl
    · rfl
    next package used _ =>
    by_cases hspace : packages.length < BDT_MAX_PACKAGE_MERGE_LENGTH
    · rw [if_pos hspace, if_pos (by rw [length_place (by omega)]; omega),
        set_place (by omega)]
      have hnext := ih (stream.drop 3 |>.drop used) (packages ++ [package])
      rw [length_append] at hnext
      exact hnext
    have hfull : ¬ packages.length < (place packages results).length := by
      unfold place
      simp only [length_append, length_map, length_drop, length_set]
      omega
    rw [if_neg hspace, if_neg hfull]
    rfl

theorem decodePackage_eq (codec : PackageCodec P) (buffer : List UInt8) (refPackage : Option P)
    (isStartWithExchangeKey : Bool) (hresults : results.length = BDT_MAX_PACKAGE_MERGE_LENGTH) :
    decodePackage codec buffer refPackage results isStartWithExchangeKey =
      (decoded codec buffer refPackage isStartWithExchangeKey).map fun d =>
        { results := place d.packages results, count := d.packages.length, success := d.success } := by
  have hloop (stream : List UInt8) (packages : List P) :=
    decodeLoop_eq codec refPackage (buffer.length + 1) stream packages hresults
  unfold decodePackage decoded
  cases isStartWithExchangeKey with
  | false => exact hloop buffer []
  | true =>
    -- the entry that was cleared takes the exchange key package
    have hfirst (package : P) :
        (results.set 0 .null).set 0 (.package package) = place [package] results := by
      obtain ⟨slot, rest, rfl⟩ := exists_cons_of_ne_nil (show results ≠ [] by
        rintro rfl
        cases hresults)
      rfl
    rw [if_pos rfl, if_pos rfl]
    cases codec.decodeExchangeKeyPackage buffer refPackage with
    | none => rfl
    | some exchange =>
      obtain ⟨package, used⟩ := exchange
      cases used with
      | none => exact congrArg (fun slots => some (DecodeOutput.mk slots 1 false)) (hfirst package)
      | some used =>
        show decodeLoop codec refPackage _ _ ((results.set 0 .null).set 0 _) 1 = _
        rw [hfirst]
        exact hloop (buffer.drop used) [package]

variable {d : Decoded P} {codec : PackageCodec P} {refPackage : Option P} {buffer : List UInt8}

theorem decodedLoop_prefix (codec : PackageCodec P) (refPackage : Option P) (fuel : Nat)
    (stream : List UInt8) (packages : List P)
    (h : decodedLoop codec refPackage fuel stream packages = some d) : packages <+: d.packages := by
  induction fuel generalizing stream packages with
  | zero => cases h
  | succ _ ih =>
    unfold decodedLoop at h
    split at h
    · cases h
      exact prefix_rfl
    simp only at h
    split at h
    · cases h
      exact prefix_rfl
    split at h
    · cases h
    · cases h
      exact prefix_rfl
    · split at h
      · exact (prefix_append _ _).trans (ih _ _ h)
      · cases h

/-- A buffer that starts with an exchange key package yields it first. -/
theorem decoded_exchange (h : decoded codec buffer refPackage true = some d) :
    ∃ package rest, d.packages = package :: rest ∧
      codec.cmdtype package = BDT_EXCHANGEKEY_PACKAGE := by
  unfold decoded at h
  rw [if_pos rfl] at h
  cases hexchange : codec.decodeExchangeKeyPackage buffer refPackage with
  | none => simp [hexchange] at h
  | some exchange =>
    have hcmdtype := codec.cmdtype_exchange buffer refPackage exchange hexchange
    obtain ⟨package, used⟩ := exchange
    cases used with
    | none =>
      simp only [hexchange, Option.some.injEq] at h
      exact ⟨package, [], by rw [← h], hcmdtype⟩
    | some =>
      simp only [hexchange] at h
      obtain ⟨rest, hrest⟩ := decodedLoop_prefix codec refPackage _ _ _ h
      exact ⟨package, rest, hrest.symm, hcmdtype⟩

theorem decodedLoop_length (codec : PackageCodec P) (refPackage : Option P) (fuel : Nat)
    (stream : List UInt8) (packages : List P)
    (hpackages : packages.length ≤ BDT_MAX_PACKAGE_MERGE_LENGTH)
    (h : decodedLoop codec refPackage fuel stream packages = some d) :
    d.packages.length ≤ BDT_MAX_PACKAGE_MERGE_LENGTH := by
  induction fuel generalizing stream packages with
  | zero => cases h
  | succ fuel ih =>
    unfold decodedLoop at h
    split at h
    · cases h
      exact hpackages
    simp only at h
    split at h
    · cases h
      exact hpackages
    split at h
    · cases h
    · cases h
      exact hpackages
    next package used _ =>
    split at h
    · next hspace => exact ih _ _ (by rw [length_append]; exact hspace) h
    · cases h

theorem decoded_length {start : Bool} (h : decoded codec buffer refPackage start = some d) :
    d.packages.length ≤ BDT_MAX_PACKAGE_MERGE_LENGTH := by
  unfold decoded at h
  split at h
  · split at h
    · cases h
    · cases h
      exact (by decide : 1 ≤ 32)
    · exact decodedLoop_length codec refPackage _ _ [_] (by decide : 1 ≤ 32) h
  · exact decodedLoop_length codec refPackage _ _ [] (Nat.zero_le _) h

end

/-- A codec for the ping of a tunnel without fields, which is nothing but its flags. -/
def pingCodec : PackageCodec UInt8 where
  cmdtype package := package
  isSnPackage _ := false
  decodeSinglePackage cmdtype totallen tail _ :=
    if cmdtype = 4 ∧ totallen = 2 ∧ tail.take 2 = [0, 0] then .package cmdtype 2 else .null
  decodeExchangeKeyPackage _ _ := some (BDT_EXCHANGEKEY_PACKAGE, none)
  cmdtype_exchange := by
    rintro _ _ _ ⟨⟩
    rfl
  exchangePeerid _ := []

end Bdt
