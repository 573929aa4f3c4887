import Bdt.Global.CryptoToolKit
import Bdt.Global.PeerInfo

/-!
# The packages of the super node

A model of `decode` in `protocol.c`, which makes JS objects of the packages of the C decoder, and of
what the decoders of `udp_decode.ts` and `decode.ts` add to them. Only the packages that the super
node has handlers for become objects, and the exchange of a key, which is always the first one.

What no handler of the super node looks at is left out.
-/

namespace Bdt

/-- A package that `Bdt_DecodePackage` leaves. Its super node is there if a flag says so, and its peer
info may be missing; it may also be the one of the first package. -/
inductive SnPackage where
  | snPing (seq : UInt32) (snPeerid : Option Peerid) (peerInfo : Option PeerInfo)
  | snCall (seq : UInt32) (toPeerid : Peerid) (snPeerid : Option Peerid) (peerInfo : Option PeerInfo)
  | snCalledResp (seq : UInt32)
  /-- A package that is not made an object. -/
  | other

/-- `Bdt_ExchangeKeyPackage`. -/
structure ExchangeKeyPackage where
  peerInfo : Option PeerInfo
  sendTime : UInt64

/-- The values of `cmdType` that have a handler. -/
inductive PackageCommand where
  | snCallReq
  | snCalledResp
  | snPingReq
  deriving DecidableEq

/-- `PeerInfo`. -/
structure JsPeerInfo where
  peerid : Peerid
  /-- The other fields are those of a peer info of C. -/
  info : PeerInfo

/-- `signature` is there if `BDT_PEER_INFO_FLAG_SIGNED` is set. -/
def JsPeerInfo.signature (peerInfo : JsPeerInfo) : Bool :=
  peerInfo.info.fields.signed

/-- Both parts of `createTime`, which `compareUint64` compares. -/
def JsPeerInfo.createTime (peerInfo : JsPeerInfo) : UInt64 :=
  peerInfo.info.fields.createTime

/-- A peerid in JS: the bytes, or an object of the class `Peerid`. -/
inductive JsPeerid where
  | buffer (peerid : Peerid)
  | object (peerid : Peerid)
  deriving DecidableEq

namespace JsPeerid

/-- The bytes. -/
def value : JsPeerid → Peerid
  | .buffer peerid | .object peerid => peerid

/-- `equal`, a method of `Peerid` that reads `m_buffer` of its argument. A buffer has neither, and
`none` stands for the exception. -/
def equal : JsPeerid → JsPeerid → Option Bool
  | .object left, .object right => some (left = right)
  | _, _ => none

end JsPeerid

/-- `PackageDecryptOptions`. -/
structure PackageDecryptOptions where
  key : List UInt8
  keyHash : List UInt8
  peerid : JsPeerid
  newKey : Bool
  deriving DecidableEq

/-- A package in JS. -/
structure JsPackage where
  cmdType : PackageCommand
  sequence : UInt32
  fromPeerid : Option Peerid := none
  toPeerid : Option Peerid := none
  peerInfo : Option JsPeerInfo := none
  sendTime : Option Nat := none
  encrypt : Option PackageDecryptOptions := none
  /-- The peerid in the peer info of the package itself, which JS does not see. -/
  own : Option Peerid := none

/-! ## The C bridge -/

/-- `peerinfo_c2js`. -/
def peerinfoC2js (peerInfo : PeerInfo) (jsPeerid : Peerid) : JsPeerInfo where
  peerid := jsPeerid
  info := peerInfo

/-- `sn_ping_c2js`. It reads the peerid of a peer info that may be `NULL`, and `none` stands for the
crash. -/
def snPingC2js (seq : UInt32) (snPeerid : Option Peerid) (peerInfo : Option PeerInfo) :
    Option JsPackage :=
  peerInfo.map fun peerInfo =>
    let fromPeerid := peerInfo.fields.peerid
    -- `jsField` is the peerid of the peer, or that of the super node when it was there
    let jsField := snPeerid.getD fromPeerid
    { cmdType := .snPingReq
      sequence := seq
      fromPeerid := some fromPeerid
      peerInfo := some (peerinfoC2js peerInfo jsField)
      own := some peerInfo.fields.peerid }

/-- `sn_call_c2js`. -/
def snCallC2js (seq : UInt32) (toPeerid : Peerid) (snPeerid : Option Peerid)
    (peerInfo : Option PeerInfo) : Option JsPackage :=
  peerInfo.map fun peerInfo =>
    let fromPeerid := peerInfo.fields.peerid
    let jsField := snPeerid.getD fromPeerid
    { cmdType := .snCallReq
      sequence := seq
      fromPeerid := some fromPeerid
      toPeerid := some toPeerid
      peerInfo := some (peerinfoC2js peerInfo jsField)
      own := some peerInfo.fields.peerid }

/-- `sn_called_resp_c2js`. -/
def snCalledRespC2js (seq : UInt32) : JsPackage where
  cmdType := .snCalledResp
  sequence := seq

/-- The loop of `decode` over the packages: the objects, or `none` when it crashes. -/
def packagesC2js : List SnPackage → Option (List JsPackage)
  | [] => some []
  | .snPing seq snPeerid peerInfo :: rest => do
    let package ← snPingC2js seq snPeerid peerInfo
    return package :: (← packagesC2js rest)
  | .snCall seq toPeerid snPeerid peerInfo :: rest => do
    let package ← snCallC2js seq toPeerid snPeerid peerInfo
    return package :: (← packagesC2js rest)
  | .snCalledResp seq :: rest => do
    return snCalledRespC2js seq :: (← packagesC2js rest)
  | .other :: rest => packagesC2js rest

/-- `decode` of the packages behind so many exchanges of a key. `Bdt_DecodePackage` writes them all to
`pkgs`, an array of `BDT_AES_KEY_LENGTH` places on the stack, and `none` stands for a write behind it,
too. -/
def decode (exchanges : Nat) (packages : List SnPackage) : Option (List JsPackage) :=
  if exchanges + packages.length ≤ BDT_AES_KEY_LENGTH then packagesC2js packages else none

/-- `exchange_key_c2js`: the peerid, which is also that of the peer info, and the time. -/
def exchangeKeyC2js (package : ExchangeKeyPackage) : Option (Peerid × UInt64) :=
  package.peerInfo.map fun peerInfo => (peerInfo.fields.peerid, package.sendTime)

/-- `(double)`, to the nearest number of 53 bits. -/
def toDouble (value : Nat) : Nat :=
  let exponent := value.log2 - 52
  let quotient := value / 2 ^ exponent
  let remainder := 2 * (value % 2 ^ exponent)
  if exponent = 0 then value
  else if remainder > 2 ^ exponent ∨ remainder = 2 ^ exponent ∧ quotient % 2 = 1 then
    (quotient + 1) * 2 ^ exponent
  else quotient * 2 ^ exponent

/-- What the decoders add to the packages behind an exchange of a key: its time, if it is not 0. -/
def fillSendTime (exchangeTime : UInt64) (packages : List JsPackage) : List JsPackage :=
  let sendTime := toDouble exchangeTime.toNat
  if sendTime > 0 then packages.map fun package => { package with sendTime := some sendTime }
  else packages

/-- `__encrypt` of all packages. -/
def fillEncrypt (encrypt : Option PackageDecryptOptions) (packages : List JsPackage) :
    List JsPackage :=
  packages.map fun package => { package with encrypt }

/-- A datagram or a box, by the way in which it was read. -/
inductive SnBox where
  | plain (packages : List SnPackage)
  /-- The content is what a key makes of it, if it fits. -/
  | keyHash (hash : List UInt8) (content : List UInt8 → Option (List SnPackage))
  /-- The key after `rsa.decrypt`, and whether `rsa.verify` accepts the signature of the exchange. -/
  | exchangeKey (key hash : List UInt8) (exchange : ExchangeKeyPackage) (verified : Bool)
      (packages : List SnPackage)

/-! ## What becomes of a package -/

/-- A package has its peer info if it needs one. -/
def SnPackage.hasPeerInfo : SnPackage → Bool
  | .snPing _ _ peerInfo | .snCall _ _ _ peerInfo => peerInfo.isSome
  | .snCalledResp _ | .other => true

/-- The bridge comes to an end if and only if no peer info is missing. -/
theorem packagesC2js_isSome (packages : List SnPackage) :
    (packagesC2js packages).isSome = packages.all SnPackage.hasPeerInfo := by
  induction packages with
  | nil => rfl
  | cons package rest ih =>
    rw [List.all_cons, ← ih]
    cases package with
    | snPing _ _ peerInfo =>
      cases peerInfo <;> cases hrest : packagesC2js rest <;>
        simp [packagesC2js, snPingC2js, SnPackage.hasPeerInfo, hrest]
    | snCall _ _ _ peerInfo =>
      cases peerInfo <;> cases hrest : packagesC2js rest <;>
        simp [packagesC2js, snCallC2js, SnPackage.hasPeerInfo, hrest]
    | snCalledResp =>
      cases hrest : packagesC2js rest <;> simp [packagesC2js, SnPackage.hasPeerInfo, hrest]
    | other => rfl

/-- There is a place for every package, and no peer info is missing. -/
def decodable (exchanges : Nat) (packages : List SnPackage) : Bool :=
  exchanges + packages.length ≤ BDT_AES_KEY_LENGTH && packages.all SnPackage.hasPeerInfo

theorem decode_isSome (exchanges : Nat) (packages : List SnPackage) :
    (decode exchanges packages).isSome = decodable exchanges packages := by
  unfold decode decodable
  rw [← packagesC2js_isSome]
  split <;> rename_i hfits <;> simp [hfits]

theorem c2js_of_decode {exchanges : Nat} {packages : List SnPackage} {objects : List JsPackage}
    (h : decode exchanges packages = some objects) : packagesC2js packages = some objects :=
  (Option.ite_none_right_eq_some.mp h).2

/-- What the handlers may rely on: a ping and a call have a peerid and a peer info, which is that of
the peerid unless a super node was there. -/
structure JsPackage.WellFormed (package : JsPackage) : Prop where
  fromPeerid : package.cmdType ≠ .snCalledResp → package.fromPeerid = package.own
  own : package.cmdType ≠ .snCalledResp → package.own.isSome = true
  peerInfo : package.cmdType ≠ .snCalledResp → package.peerInfo.isSome = true
  called : package.cmdType = .snCalledResp → package.fromPeerid = none ∧ package.peerInfo = none

theorem wellFormed_c2js {packages : List SnPackage} {objects : List JsPackage}
    (h : packagesC2js packages = some objects) : ∀ package ∈ objects, package.WellFormed := by
  induction packages generalizing objects with
  | nil =>
    cases h
    exact List.forall_mem_nil _
  | cons package rest ih =>
    have hcons : ∀ first others, first.WellFormed → packagesC2js rest = some others →
        first :: others = objects → ∀ package ∈ objects, package.WellFormed := by
      rintro first others hfirst hrest rfl package hmem
      rcases List.mem_cons.mp hmem with rfl | hmem
      · exact hfirst
      · exact ih hrest package hmem
    cases package with
    | snPing | snCall =>
      obtain ⟨first, hfirst, h⟩ := Option.bind_eq_some_iff.mp h
      obtain ⟨others, hrest, h⟩ := Option.bind_eq_some_iff.mp h
      obtain ⟨info, -, rfl⟩ := Option.map_eq_some_iff.mp hfirst
      exact hcons _ others ⟨fun _ => rfl, fun _ => rfl, fun _ => rfl, fun heq => by cases heq⟩
        hrest (Option.some.inj h)
    | snCalledResp =>
      obtain ⟨others, hrest, h⟩ := Option.bind_eq_some_iff.mp h
      exact hcons _ others ⟨fun hne => absurd rfl hne, fun hne => absurd rfl hne,
        fun hne => absurd rfl hne, fun _ => ⟨rfl, rfl⟩⟩ hrest (Option.some.inj h)
    | other => exact ih h

end Bdt
