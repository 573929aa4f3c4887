import Bdt.Global.PeerInfo
import Bdt.Protocol.EndpointArray
import Bdt.Protocol.PackageDecoder
import Bdt.Protocol.SessionDataPackage

/-!
# The lengths of packages

`Bdt_DecodePackage` as far as it counts bytes. The decoders of the packages are the one that
`packages.js` generates, for the fields of each package; those that are written by hand have the same
shape. `precise_iff` says when all bytes of the input belong to packages that were read as long as they
say, with their flags and all fields that are there.
-/

namespace Bdt

open Base List

/-- The result of a reader, from `totallen`, `readlen` and the rest of the stream, which is zero where
the source has an error; `none` stands for an assertion that fails. -/
abbrev FieldReader := Nat → Nat → List UInt8 → Option Nat

/-- A field, as the decoder of its package counts it. -/
structure PackageField where
  /-- Its flag is set, or it has none and is always there. -/
  haveField : UInt16 → Bool
  read : FieldReader

/-- The fields that are there, in order: whether all were read, `readlen`, and how many were read. -/
def decodeFields (cmdflags : UInt16) (totallen : Nat) :
    List PackageField → Nat → List UInt8 → Option (Bool × Nat × Nat)
  | [], readlen, _ => some (true, readlen, 0)
  | field :: fields, readlen, stream =>
    if field.haveField cmdflags then
      match field.read totallen readlen stream with
      | none => none
      | some 0 => some (false, readlen, 0)
      | some r =>
        (decodeFields cmdflags totallen fields (readlen + r) (stream.drop r)).map
          fun (success, readlen, count) => (success, readlen, count + 1)
    else decodeFields cmdflags totallen fields readlen stream

/-- `cmdflags` and the fields behind it, with the flags that were read. -/
def decodeFlagged (fields : List PackageField) (totallen readlen : Nat) (stream : List UInt8) :
    Option (Bool × Nat × Option UInt16 × Nat) :=
  if stream.length < 2 then none
  else
    let cmdflags := UInt16.ofNat (readUInt16 stream 0)
    (decodeFields cmdflags totallen fields (readlen + 2) (stream.drop 2)).map
      fun (success, readlen, count) => (success, readlen, some cmdflags, count)

/-- A package with its header: the bytes that it announces, those that it was decoded from, if it was
accepted, its flags, if they were read, and the number of fields that were. -/
structure DecodedPackage where
  cmdtype : UInt8
  announced : Nat
  used : Nat := 0
  cmdflags : Option UInt16 := none
  count : Nat := 0
  deriving DecidableEq, Repr

/-- `DecodeSinglePackage`, which has no case for an exchange of keys. -/
def decodeSingle (schema : UInt8 → Option (List PackageField)) (cmdtype : UInt8) (totallen : Nat)
    (stream : List UInt8) : SingleResult DecodedPackage :=
  match if cmdtype = BDT_EXCHANGEKEY_PACKAGE then none else schema cmdtype with
  | none => .null
  | some fields =>
    -- where the length is too small, `r` is still zero, which is `BFX_RESULT_SUCCESS`
    match if totallen < Bdt_GetPackageMinSize cmdtype then some (true, 0, none, 0)
      else decodeFlagged fields totallen 0 stream with
    | none => .aborted
    | some (success, readlen, cmdflags, count) =>
      if totallen ≠ readlen then .null
      else if success then
        .package { cmdtype, announced := totallen + 3, used := readlen + 3, cmdflags, count } readlen
      else .null

/-- `DecodeExchangeKeyPackage`. Its length counts its own two bytes. -/
def decodeExchange (fields : List PackageField) (buffer : List UInt8) :
    Option (DecodedPackage × Option Nat) :=
  if buffer.length < 2 then none
  else
    let totallen := readUInt16 buffer 0
    let package := { cmdtype := BDT_EXCHANGEKEY_PACKAGE, announced := totallen }
    if buffer.length - 2 < totallen ∨ totallen < Bdt_GetPackageMinSize BDT_EXCHANGEKEY_PACKAGE then
      some (package, none)
    else
      (decodeFlagged fields totallen 2 (buffer.drop 2)).map fun (success, readlen, cmdflags, count) =>
        if success ∧ totallen = readlen then
          ({ package with used := readlen, cmdflags, count }, some readlen)
        else (package, none)

/-- Every field that is there was read if all could be. -/
theorem decodeFields_count {cmdflags : UInt16} {totallen readlen readlen' count : Nat}
    {fields : List PackageField} {stream : List UInt8}
    (h : decodeFields cmdflags totallen fields readlen stream = some (true, readlen', count)) :
    count = fields.countP (·.haveField cmdflags) := by
  induction fields generalizing readlen stream count with
  | nil =>
    cases h
    rfl
  | cons _ _ ih =>
    unfold decodeFields at h
    split at h
    case isFalse hno =>
      rw [countP_cons_of_neg (by simpa using hno)]
      exact ih h
    case isTrue hhave =>
    split at h
    · cases h
    · cases h
    · obtain ⟨⟨success, readlen, count⟩, hrest, hcount⟩ := Option.map_eq_some_iff.mp h
      cases hcount
      rw [countP_cons_of_pos (by simpa using hhave), ih hrest]

/-- The flags of a package were read, and every field that is there with them. -/
def DecodedPackage.Fields (package : DecodedPackage) (fields : List PackageField) : Prop :=
  ∃ cmdflags, package.cmdflags = some cmdflags ∧ package.count = fields.countP (·.haveField cmdflags)

theorem decodeExchange_cmdtype {fields : List PackageField} {buffer : List UInt8}
    {exchange : DecodedPackage × Option Nat} (h : decodeExchange fields buffer = some exchange) :
    exchange.1.cmdtype = BDT_EXCHANGEKEY_PACKAGE ∧
      (exchange.2.isSome → exchange.2 = some exchange.1.announced ∧
        exchange.1.used = exchange.1.announced ∧ exchange.1.Fields fields ∧
        exchange.1.announced ≤ buffer.length) ∧
      (exchange.2 = none → exchange.1.used = 0) := by
  unfold decodeExchange at h
  split at h
  · cases h
  simp only at h
  split at h
  · cases h
    exact ⟨rfl, nofun, fun _ => rfl⟩
  case isFalse hlen =>
  obtain ⟨⟨success, readlen, cmdflags⟩, hflagged, rfl⟩ := Option.map_eq_some_iff.mp h
  unfold decodeFlagged at hflagged
  split at hflagged
  · cases hflagged
  obtain ⟨⟨success, readlen, count⟩, hfields, hread⟩ := Option.map_eq_some_iff.mp hflagged
  cases hread
  dsimp only
  split
  case isTrue hall =>
    obtain ⟨hsuccess, hlen⟩ := hall
    cases success
    · cases hsuccess
    refine ⟨rfl, fun _ => ?_, nofun⟩
    refine ⟨congrArg some hlen.symm, hlen.symm, ⟨_, rfl, decodeFields_count hfields⟩, ?_⟩
    show readUInt16 buffer 0 ≤ _
    omega
  case isFalse => exact ⟨rfl, nofun, fun _ => rfl⟩

/-- The codec that counts. -/
def lengthCodec (schema : UInt8 → Option (List PackageField)) (exchange : List PackageField) :
    PackageCodec DecodedPackage where
  cmdtype package := package.cmdtype
  isSnPackage package := decide (0x20 ≤ package.cmdtype ∧ package.cmdtype ≤ 0x25)
  decodeSinglePackage cmdtype totallen stream _ := decodeSingle schema cmdtype totallen stream
  decodeExchangeKeyPackage buffer _ := decodeExchange exchange buffer
  cmdtype_exchange _ _ _ h := (decodeExchange_cmdtype h).1
  exchangePeerid _ := []

section

variable (schema : UInt8 → Option (List PackageField)) (exchange : List PackageField)

/-- If it was accepted it was decoded from the bytes that it announces, with its flags and fields. -/
def DecodedPackage.Read (package : DecodedPackage) : Prop :=
  0 < package.used → package.used = package.announced ∧
    package.Fields (if package.cmdtype = BDT_EXCHANGEKEY_PACKAGE then exchange
      else (schema package.cmdtype).getD [])

/-- Every package that was accepted was read, and if the call succeeds the packages are all of the
input. -/
def Precise (buffer : List UInt8) (d : Decoded DecodedPackage) : Prop :=
  (∀ package ∈ d.packages, package.Read schema exchange) ∧
  (d.success = true → (d.packages.map (·.announced)).sum = buffer.length)

end

/-- The packages are longer than their header as long as they are accepted, and the last of them ends
with the stream. -/
def EndsExactly (schema : UInt8 → Option (List PackageField)) : Nat → List UInt8 → Prop
  | 0, _ => True
  | fuel + 1, stream =>
    if stream.length ≤ 3 then stream = []
    else
      let totallen := readUInt16 stream 0
      let cmdtype := stream.getD 2 0
      let tail := stream.drop 3
      if totallen < Bdt_GetPackageMinSize cmdtype ∨ totallen < 3 ∨ totallen - 3 > tail.length then True
      else
        match decodeSingle schema cmdtype (totallen - 3) tail with
        | .package _ _ => 3 < totallen ∧ EndsExactly schema fuel (tail.drop (totallen - 3))
        | _ => True

variable {schema : UInt8 → Option (List PackageField)} {exchange : List PackageField}

theorem decodeSingle_package {cmdtype : UInt8} {totallen used : Nat} {stream : List UInt8}
    {package : DecodedPackage} (h : decodeSingle schema cmdtype totallen stream = .package package used) :
    used = totallen ∧ package.announced = totallen + 3 ∧
      (package.Read schema exchange ↔ totallen ≠ 0) := by
  unfold decodeSingle at h
  split at h
  · cases h
  next fields hschema =>
  split at hschema
  · cases hschema
  next hcmdtype =>
  split at h
  · cases h
  next success readlen cmdflags count hread =>
  split at h
  · cases h
  case isFalse hlen =>
  split at h
  case isFalse => cases h
  case isTrue hsuccess =>
  cases h
  simp only [ne_eq, not_not] at hlen
  subst hlen
  refine ⟨rfl, rfl, ?_⟩
  unfold DecodedPackage.Read
  rw [if_neg hcmdtype, hschema, Option.getD_some]
  split at hread
  case isTrue hsmall =>
    -- nothing was read of a package that is too small, and it is accepted if it is empty
    cases hread
    refine iff_of_false (fun hfields => ?_) fun h => h rfl
    obtain ⟨_, hflags, -⟩ := (hfields (Nat.succ_pos _)).2
    cases hflags
  case isFalse hsize =>
    have hmin : 2 ≤ Bdt_GetPackageMinSize cmdtype := by
      unfold Bdt_GetPackageMinSize
      split <;> decide
    unfold decodeFlagged at hread
    split at hread
    · cases hread
    obtain ⟨⟨_, _, _⟩, hfields, hread⟩ := Option.map_eq_some_iff.mp hread
    cases hread
    subst hsuccess
    exact iff_of_true (fun _ => ⟨rfl, _, rfl, decodeFields_count hfields⟩) (by omega)

theorem decodedLoop_precise (refPackage : Option DecodedPackage) (fuel : Nat) (stream : List UInt8)
    (packages : List DecodedPackage) {d : Decoded DecodedPackage} {buffer : List UInt8}
    (hpackages : ∀ package ∈ packages, package.Read schema exchange)
    (hbuffer : (packages.map (·.announced)).sum + stream.length = buffer.length)
    (h : decodedLoop (lengthCodec schema exchange) refPackage fuel stream packages = some d) :
    Precise schema exchange buffer d ↔ EndsExactly schema fuel stream := by
  induction fuel generalizing stream packages with
  | zero => cases h
  | succ _ ih =>
    unfold decodedLoop at h
    unfold EndsExactly
    split at h
    case isTrue hshort =>
      cases h
      rw [if_pos hshort, ← length_eq_zero_iff]
      have hsum : (packages.map (·.announced)).sum = buffer.length ↔ stream.length = 0 := by omega
      exact ⟨fun hprecise => hsum.mp (hprecise.2 rfl), fun hend => ⟨hpackages, fun _ => hsum.mpr hend⟩⟩
    case isFalse hlong =>
    rw [if_neg hlong]
    simp only at h ⊢
    have hfailed : Precise schema exchange buffer ⟨packages, false⟩ := ⟨hpackages, nofun⟩
    split at h
    case isTrue hrefused =>
      cases h
      rw [if_pos hrefused]
      exact iff_of_true hfailed trivial
    case isFalse hheader =>
    rw [if_neg hheader]
    rw [show (lengthCodec schema exchange).decodeSinglePackage (stream.getD 2 0) _ _ _ =
      decodeSingle schema (stream.getD 2 0) (readUInt16 stream 0 - 3) (stream.drop 3) from rfl] at h
    cases hsingle : decodeSingle schema (stream.getD 2 0) (readUInt16 stream 0 - 3) (stream.drop 3) with
    | aborted =>
      rw [hsingle] at h
      cases h
    | null =>
      rw [hsingle] at h
      cases h
      exact iff_of_true hfailed trivial
    | package package =>
      rw [hsingle] at h
      simp only at h ⊢
      split at h
      case isFalse => cases h
      obtain ⟨rfl, hannounced, hread⟩ := @decodeSingle_package _ exchange _ _ _ _ _ hsingle
      by_cases hempty : 3 < readUInt16 stream 0
      · have hread : package.Read schema exchange := hread.mpr (by omega)
        rw [and_iff_right hempty]
        refine ih _ _ (forall_mem_append.mpr ⟨hpackages, forall_mem_singleton.mpr hread⟩) ?_ h
        simp only [map_append, sum_append, map_cons, map_nil, sum_singleton, length_drop] at hbuffer hheader ⊢
        omega
      · refine iff_of_false (fun hprecise => ?_) fun hends => hempty hends.1
        have hfront := decodedLoop_prefix _ refPackage _ _ _ h
        have hmem := hfront.subset (mem_append_right packages (mem_singleton_self package))
        exact hread.mp (hprecise.1 _ hmem) (by omega)

/-- `Bdt_DecodePackage` is precise if no package that it accepts announces three bytes, and the last
one ends with the input if nothing was refused. -/
theorem precise_iff {buffer : List UInt8} {refPackage : Option DecodedPackage} {start : Bool}
    {d : Decoded DecodedPackage}
    (h : decoded (lengthCodec schema exchange) buffer refPackage start = some d) :
    Precise schema exchange buffer d ↔
      if start then
        match decodeExchange exchange buffer with
        | some (_, some used) => EndsExactly schema (buffer.length + 1) (buffer.drop used)
        | _ => True
      else EndsExactly schema (buffer.length + 1) buffer := by
  cases start with
  | false => exact decodedLoop_precise refPackage _ buffer [] nofun (Nat.zero_add _) h
  | true =>
    unfold decoded at h
    rw [if_pos rfl, show (lengthCodec schema exchange).decodeExchangeKeyPackage buffer refPackage =
      decodeExchange exchange buffer from rfl] at h
    rw [if_pos rfl]
    cases hexchange : decodeExchange exchange buffer with
    | none => simp [hexchange] at h
    | some result =>
      obtain ⟨hcmdtype, hread, hunread⟩ := decodeExchange_cmdtype hexchange
      obtain ⟨package, used⟩ := result
      rw [hexchange] at h
      cases used with
      | none =>
        cases h
        refine iff_of_true ⟨fun package hmem hused => ?_, nofun⟩ trivial
        rw [mem_singleton.mp hmem, hunread rfl] at hused
        omega
      | some used =>
        obtain ⟨hlen, hused, hflags, hbuffer⟩ := hread rfl
        have hlen : used = package.announced := Option.some.inj hlen
        subst hlen
        refine decodedLoop_precise refPackage _ _ [package]
          (forall_mem_singleton.mpr fun _ => ⟨hused, ?_⟩) ?_ h
        · rwa [if_pos hcmdtype]
        simp only [map_cons, map_nil, sum_singleton, length_drop] at hbuffer ⊢
        omega

/-! ## The fields of the packages -/

def BDT_SEQ_AND_KEY_SIGN_LENGTH : Nat := 128

namespace FieldReader

/-- A reader that leaves the stream behind what it has read. -/
def of {α : Type} (reader : Reader α) : FieldReader := fun _ _ stream =>
  match reader stream with
  | .ok (_, rest) => some (stream.length - rest.length)
  | .error .failed => some 0
  | .error .aborted => none

/-- `BfxBufferReadUInt8` and the other readers of as many bytes as a field has. -/
def fixed (size : Nat) : FieldReader :=
  of (Reader.bytes size)

/-- `Bdt_BufferReadPeerid`. -/
def peerid : FieldReader :=
  fixed BDT_PEERID_LENGTH

/-- `BufferReadPeerInfo`. -/
def peerInfo (env : PeerEnv) : FieldReader :=
  of (bufferReadPeerInfo env)

/-- `Bdt_BufferReadEndpointArray`. -/
def endpointArray (env : PeerEnv) : FieldReader :=
  of (readEndpointArray env.uninitialized)

/-- `BfxBufferReadByteArrayBeginWithU16Length`. -/
def buffer : FieldReader :=
  of do
    let len ← Reader.number 2
    let short ← fun stream => .ok (decide (stream.length < len), stream)
    if short then Reader.fail else Reader.times len Reader.byte

/-- The sack array, which has between one and ten ranges. -/
def sackArray : FieldReader :=
  of do
    let count ← Reader.byte
    if count.toNat > PACKAGE_SESSIONDATA_SACK_RANGE_MAX_COUNT ∨ count = 0 then Reader.fail
    else Reader.times count.toNat (Reader.bytes (6 + 4))

/-- The rest of the package, of which there has to be some. -/
def datalen : FieldReader := fun totallen readlen stream =>
  let datalen := (totallen + 2 ^ 16 - readlen % 2 ^ 16) % 2 ^ 16
  if datalen = 0 ∨ stream.length < datalen then none else some datalen

end FieldReader

namespace PackageField

def always (read : FieldReader) : PackageField :=
  { haveField := fun _ => true, read }

def when (haveField : CmdFlags → Bool) (read : FieldReader) : PackageField :=
  { haveField := fun cmdflags => haveField cmdflags.toBitVec, read }

/-- A field with a flag of its own. -/
def flag (bit : Nat) (read : FieldReader) : PackageField :=
  when (·.hasFlag bit) read

end PackageField

section Packages

open PackageField FieldReader

variable (env : PeerEnv)

def DecodeExchangeKeyPackage : List PackageField :=
  [always (fixed 4), always (fixed BDT_SEQ_AND_KEY_SIGN_LENGTH), flag 2 peerid, flag 3 (peerInfo env),
    always (fixed 8)]

def DecodeSynTunnelPackage : List PackageField :=
  [flag 0 peerid, flag 1 peerid, flag 2 peerid, flag 3 (peerInfo env), flag 4 (fixed 4),
    flag 5 (fixed 4), flag 6 (peerInfo env), flag 7 (fixed 8)]

def DecodeAckTunnelPackage : List PackageField :=
  [flag 0 (fixed 8), flag 1 (fixed 4), flag 2 (fixed 4), flag 3 (fixed 4), flag 4 (fixed 1),
    flag 5 (peerInfo env), flag 6 (fixed 8), flag 7 (fixed 2)]

def DecodeAckAckTunnelPackage : List PackageField :=
  [flag 0 (fixed 4), flag 1 (fixed 4)]

def DecodePingTunnelPackage : List PackageField :=
  [flag 3 (fixed 4), flag 0 (fixed 4), flag 1 (fixed 8), flag 2 (fixed 8)]

def DecodePingTunnelRespPackage : List PackageField :=
  DecodePingTunnelPackage

def DecodeSnCallPackage : List PackageField :=
  [flag 0 (fixed 4), flag 3 peerid, flag 1 peerid, flag 2 peerid, flag 4 (endpointArray env),
    flag 5 (peerInfo env), flag 6 buffer]

def DecodeSnCalledPackage : List PackageField :=
  DecodeSnCallPackage env

def DecodeSnCallRespPackage : List PackageField :=
  [flag 0 (fixed 4), flag 1 peerid, flag 2 (fixed 1), flag 3 (peerInfo env)]

def DecodeSnCalledRespPackage : List PackageField :=
  [flag 0 (fixed 4), flag 2 peerid, flag 1 (fixed 1)]

def DecodeSnPingPackage : List PackageField :=
  [flag 0 (fixed 4), flag 2 peerid, flag 1 peerid, flag 3 (peerInfo env)]

def DecodeSnPingRespPackage : List PackageField :=
  [flag 0 (fixed 4), flag 1 peerid, flag 2 (fixed 1), flag 3 (peerInfo env),
    flag 4 (endpointArray env)]

/-- The signature of the data has no reader: `r` is zero. -/
def DecodeDataGramPackage : List PackageField :=
  [flag 0 (fixed 4), flag 1 (fixed 4), flag 2 (fixed 1), flag 3 (fixed 2), flag 4 (fixed 4),
    flag 5 (fixed 8), flag 6 peerid, flag 7 (peerInfo env), flag 8 (fixed 0), flag 9 (fixed 1),
    flag 10 datalen]

def DecodeTcpSynConnectionPackage : List PackageField :=
  [flag 0 (fixed 4), flag 1 (fixed 1), flag 2 (fixed 2), flag 3 (fixed 4), flag 4 peerid,
    flag 5 peerid, flag 6 peerid, flag 7 (peerInfo env), flag 9 (endpointArray env), flag 8 buffer]

def DecodeTcpAckConnectionPackage : List PackageField :=
  [flag 0 (fixed 4), flag 1 (fixed 4), flag 2 (fixed 1), flag 3 (peerInfo env), flag 4 buffer]

def DecodeTcpAckAckConnectionPackage : List PackageField :=
  [flag 0 (fixed 4), flag 1 (fixed 1)]

/-- The ids of the package and of the other session depend on two flags each. -/
def DecodeSessionDataPackage : List PackageField :=
  [always (fixed 4), always (fixed 6), flag SessionDataFlag.SYN (fixed (4 + 1 + 1 + 2 + 4)),
    when (fun flags => flags.hasFlag SessionDataFlag.PACKAGEID ||
      flags.hasFlag SessionDataFlag.ACK_PACKAGEID) (fixed (4 + 6)),
    flag SessionDataFlag.ACK (fixed 6), flag SessionDataFlag.SACK sackArray,
    when (fun flags => flags.hasFlag SessionDataFlag.SYN && flags.hasFlag SessionDataFlag.ACK)
      (fixed 4),
    flag SessionDataFlag.SPEEDLIMIT (fixed 4), flag SessionDataFlag.SENDTIME (fixed 8),
    flag SessionDataFlag.PAYLOAD datalen]

/-- The cases of `DecodeSinglePackage`. -/
def packageSchema (cmdtype : UInt8) : Option (List PackageField) :=
  match cmdtype.toNat with
  | 1 => some (DecodeSynTunnelPackage env)
  | 2 => some (DecodeAckTunnelPackage env)
  | 3 => some DecodeAckAckTunnelPackage
  | 4 => some DecodePingTunnelPackage
  | 5 => some DecodePingTunnelRespPackage
  | 0x20 => some (DecodeSnCallPackage env)
  | 0x21 => some (DecodeSnCallRespPackage env)
  | 0x22 => some (DecodeSnCalledPackage env)
  | 0x23 => some DecodeSnCalledRespPackage
  | 0x24 => some (DecodeSnPingPackage env)
  | 0x25 => some (DecodeSnPingRespPackage env)
  | 0x30 => some (DecodeDataGramPackage env)
  | 0x40 => some DecodeSessionDataPackage
  | 0x41 => some (DecodeTcpSynConnectionPackage env)
  | 0x42 => some (DecodeTcpAckConnectionPackage env)
  | 0x43 => some DecodeTcpAckAckConnectionPackage
  | _ => none

end Packages

/-- An environment for packages without peer infos. -/
def noPeerEnv : PeerEnv where
  rsaSignMd5 _ _ := none
  rsaVerifyMd5 _ _ _ := false
  sha256Hash _ := .zero _
  uninitialized := .zero _

/-- A ping with the id of its container, and two bytes of a session behind it. -/
theorem ping_tunnel_precise :
    let buffer := [9, 0, 4, 8, 0, 1, 2, 3, 4] ++ [17, 0, 0x40, 0x80, 0] ++ replicate 10 7 ++ [5, 6]
    Precise (packageSchema noPeerEnv) (DecodeExchangeKeyPackage noPeerEnv) buffer
      ⟨[⟨4, 9, 9, some 8, 1⟩, ⟨0x40, 17, 17, some 0x80, 3⟩], true⟩ :=
  (@precise_iff _ _ _ none false _ (by decide)).mpr ⟨by decide, by decide, rfl⟩

/-- Four bytes are a success with a package that has no flags, and one of them is never read. -/
theorem four_bytes_not_precise :
    decoded (lengthCodec (packageSchema noPeerEnv) []) [3, 0, 4, 0] none false =
        some ⟨[⟨4, 3, 3, none, 0⟩], true⟩ ∧
      ¬ Precise (packageSchema noPeerEnv) [] [3, 0, 4, 0] ⟨[⟨4, 3, 3, none, 0⟩], true⟩ := by
  refine ⟨by decide, fun hprecise => ?_⟩
  obtain ⟨_, hflags, -⟩ := (hprecise.1 _ (mem_singleton_self _) (by decide)).2
  cases hflags

end Bdt
