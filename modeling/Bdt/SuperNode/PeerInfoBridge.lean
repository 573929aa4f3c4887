import Bdt.Base.Collecting
import Bdt.Global.EndpointString
import Bdt.Global.PeerInfoCodec

/-!
# The bridge of peer infos

A model of `peerinfo_c2js` and `peerinfo_js2c` in `protocol.c`: a peer info becomes a JS object with
strings, numbers and buffers, and a builder makes a peer info of the object again. `relayPeerInfo` is
one after the other, with `BdtPeerInfoBuilderFinish` without a secret. `relayPeerInfo_decoded` says
what it makes of a peer info that came from the network.
-/

namespace Bdt

open Base List Option

/-! ## Objects -/

/-- What `endpoint_c2js` makes. -/
structure EndpointObject where
  str : List Char
  flag : UInt32
  isStaticWan : Bool

structure AreaObject where
  continent : UInt32
  country : UInt32
  carrier : UInt32
  city : UInt32
  inner : UInt32

structure ConstInfoObject where
  areaCode : AreaObject
  deviceId : List UInt8
  publicKeyType : UInt32
  publicKey : List UInt8

/-- What `uint64_c2js` makes. -/
structure Uint64Object where
  h : UInt32
  l : UInt32

/-- What `peerinfo_c2js_no_sn` makes. -/
structure PeerInfoObject where
  peerid : List UInt8
  constInfo : ConstInfoObject
  endpointArray : List EndpointObject
  signature : Option (List UInt8)
  createTime : Uint64Object

/-- What `peerinfo_c2js` makes. -/
structure RelayObject where
  info : PeerInfoObject
  snList : List (List UInt8)
  snInfoList : List PeerInfoObject

/-! ## From C to JS -/

def endpointIsStaticWan (ep : BdtEndpoint) : Bool :=
  if ep.flag &&& BDT_ENDPOINT_FLAG_STATIC_WAN = 0 then false
  else if ep.flag &&& BDT_ENDPOINT_IP_VERSION_6 ≠ 0 then true
  else if ep.address.1.getD 0 0 = 10 then false
  else if ep.address.1.getD 0 0 = 172 then ep.address.1.getD 1 0 > 31
  else if ep.address.1.getD 0 0 = 192 then ep.address.1.getD 1 0 ≠ 168
  else true

def endpointC2js (ep : BdtEndpoint) : EndpointObject where
  str := BdtEndpointToString ep
  flag := ep.flag.toUInt32
  isStaticWan := endpointIsStaticWan ep

def peerAreacodeC2js (area : PeerArea) : AreaObject where
  continent := area.continent.toUInt32
  country := area.country.toUInt32
  carrier := area.carrier.toUInt32
  city := area.city.toUInt32
  inner := area.inner.toUInt32

/-- The default of the switch is the whole union. -/
def peerConstinfoC2js (constInfo : PeerConstInfo) : ConstInfoObject where
  areaCode := peerAreacodeC2js constInfo.areaCode
  deviceId := constInfo.deviceId.1
  publicKeyType := constInfo.publicKeyType.toUInt32
  publicKey :=
    match publicKeyLength constInfo.publicKeyType with
    | some length => constInfo.publicKey.1.take length
    | none => constInfo.publicKey.1

def uint64C2js (u64 : UInt64) : Uint64Object where
  h := (u64 >>> 32).toUInt32
  l := (u64 &&& 0xFFFFFFFF).toUInt32

/-- `BdtPeerInfoGetSignature`. -/
def BdtPeerInfoGetSignature (fields : PeerFields) : Option (List UInt8) :=
  if fields.signed then some fields.signature.1 else none

def peerinfoC2jsNoSn (fields : PeerFields) : PeerInfoObject where
  peerid := fields.peerid.1
  constInfo := peerConstinfoC2js fields.constInfo
  endpointArray := fields.endpoints.map endpointC2js
  signature := BdtPeerInfoGetSignature fields
  createTime := uint64C2js fields.createTime

/-- The super nodes of the super nodes are left out. -/
def relayC2js (peerInfo : PeerInfo) : RelayObject where
  info := peerinfoC2jsNoSn peerInfo.fields
  snList := peerInfo.fields.snList.map (·.1)
  snInfoList := peerInfo.snInfoList.map fun snInfo => peerinfoC2jsNoSn snInfo.fields

/-! ## From JS to C -/

/-- What is in the variables of the stack before they are written. -/
structure BridgeMemory where
  constInfo : PeerConstInfo
  peerid : Peerid

/-- `memcpy` of as many bytes as fit. -/
def copyInto {n : Nat} (array : Bytes n) (buffer : List UInt8) : Bytes n :=
  array.overwrite ⟨buffer.take n, rfl⟩ (length_take_le n buffer)

/-- `endpoint_js2c`; `none` is a result that is not `BFX_RESULT_SUCCESS`. -/
def endpointJs2c (ep : EndpointObject) : Option BdtEndpoint :=
  (BdtEndpointFromString ep.str).map fun cEp =>
    if ep.flag ≠ 0 then
      { cEp with
        flag := cEp.flag |||
          (ep.flag.toUInt8 &&& (BDT_ENDPOINT_FLAG_SIGNED ||| BDT_ENDPOINT_FLAG_STATIC_WAN)) }
    else cEp

def peerEndpointListJs2c (eplist : List EndpointObject) : List BdtEndpoint :=
  eplist.filterMap endpointJs2c

def peerAreacodeJs2c (area : AreaObject) : PeerArea where
  continent := area.continent.toUInt8
  country := area.country.toUInt8
  carrier := area.carrier.toUInt8
  city := area.city.toUInt16
  inner := area.inner.toUInt8

def peerConstinfoJs2c (memory : PeerConstInfo) (constInfo : ConstInfoObject) : PeerConstInfo where
  areaCode := peerAreacodeJs2c constInfo.areaCode
  deviceId := copyInto memory.deviceId constInfo.deviceId
  publicKeyType := constInfo.publicKeyType.toUInt8
  publicKey := copyInto memory.publicKey constInfo.publicKey

def uint64Js2c (u64 : Uint64Object) : UInt64 :=
  u64.h.toUInt64 <<< 32 ||| u64.l.toUInt64

section

variable (env : PeerEnv) (memory : BridgeMemory)

/-- `peerinfo_js2c_no_sn`; `none` is the assertion of `BdtPeerInfoSetSignature`. The peerid of the
object is read but not used. -/
def peerinfoJs2cNoSn (info : PeerInfoObject) (infoBuilder : PeerInfoBuilder) :
    Option PeerInfoBuilder :=
  let infoBuilder := infoBuilder.setConstInfo env (peerConstinfoJs2c memory.constInfo info.constInfo)
  let infoBuilder := (peerEndpointListJs2c info.endpointArray).foldl
    (fun infoBuilder ep => infoBuilder.addEndpoint (some ep)) infoBuilder
  let signed :=
    match info.signature with
    | some signature => infoBuilder.setSignature signature
    | none => some infoBuilder
  signed.map fun infoBuilder => infoBuilder.setCreateTime (uint64Js2c info.createTime)

/-- The peer infos of the super nodes, each from a builder of its own. The clock says what time it is
when so many of them are left. -/
def snInfosJs2c (clock : Nat → UInt64) :
    List PeerInfoObject → PeerInfoBuilder → Option PeerInfoBuilder
  | [], infoBuilder => some infoBuilder
  | snInfo :: snInfoList, infoBuilder =>
    (peerinfoJs2cNoSn env memory snInfo
      (builderBegin { hasSecret := false, hasSnList := false, hasSnInfo := false })).bind
        fun snPeerInfoBuilder =>
          (snPeerInfoBuilder.finish env (clock (snInfoList.length + 1)) none).bind
            fun snPeerInfo =>
              snInfosJs2c clock snInfoList (infoBuilder.addSnInfo (some snPeerInfo))

/-- `peerinfo_js2c`. -/
def relayJs2c (clock : Nat → UInt64) (object : RelayObject) : Option PeerInfoBuilder :=
  (peerinfoJs2cNoSn env memory object.info (builderBegin
    { hasSecret := false, hasSnList := object.snList ≠ [], hasSnInfo := object.snInfoList ≠ [] })).bind
      fun infoBuilder =>
        snInfosJs2c env memory clock object.snInfoList
          (object.snList.foldl
            (fun infoBuilder snPeerid =>
              infoBuilder.addSn (some (copyInto memory.peerid snPeerid))) infoBuilder)

/-- A peer info that is made an object, and a peer info again. -/
def relayPeerInfo (clock : Nat → UInt64) (peerInfo : PeerInfo) : Option PeerInfo :=
  (relayJs2c env memory clock (relayC2js peerInfo)).bind fun infoBuilder =>
    infoBuilder.finish env (clock 0) none

end

/-! ## Peer infos from the network -/

/-- Whether the flag in front of a written peer info says that it is signed. -/
def MarkedSigned (stream : List UInt8) : Prop :=
  stream.headD 0 &&& BDT_PEER_INFO_FLAG_SIGNED ≠ 0

/-- What holds of the fields of every peer info that is read. -/
structure DecodedFields (env : PeerEnv) (fields : PeerFields) : Prop where
  key : (publicKeyLength fields.constInfo.publicKeyType).isSome
  constInfo : fields.constInfo.reread = fields.constInfo
  peerid : fields.peerid = peeridFromConstInfo env.sha256Hash fields.constInfo
  /-- The flag is not taken over. -/
  unsigned : fields.signed = false
  endpointCount : fields.endpoints.length < 256
  snListCount : fields.snList.length < 256

inductive DecodedInfo (env : PeerEnv) : PeerInfo → Prop where
  | mk {fields : PeerFields} {snInfoList : List PeerInfo} :
      DecodedFields env fields → (snInfoList ≠ [] → fields.snList = []) →
        snInfoList.length < 256 → (∀ snInfo ∈ snInfoList, DecodedInfo env snInfo) →
          DecodedInfo env ⟨fields, snInfoList⟩

section

variable {env : PeerEnv}

theorem readConstInfo_yields :
    Reader.Yields readConstInfo fun constInfo =>
      (publicKeyLength constInfo.publicKeyType).isSome ∧ constInfo.reread = constInfo := by
  refine (Reader.Yields.trivial _).bind fun continent _ => ?_
  refine (Reader.Yields.trivial _).bind fun country _ => ?_
  refine (Reader.Yields.trivial _).bind fun carrier _ => ?_
  refine (Reader.Yields.trivial _).bind fun city _ => ?_
  refine (Reader.Yields.trivial _).bind fun inner _ => ?_
  refine (Reader.Yields.trivial _).bind fun deviceId _ => ?_
  refine (Reader.Yields.trivial _).bind fun publicKeyType _ => ?_
  cases hlength : publicKeyLength publicKeyType with
  | none => exact .fail
  | some length =>
    refine (Reader.Yields.trivial _).bind fun key _ => .pure ⟨by rw [hlength]; rfl, ?_⟩
    have hkey : (Bytes.ofList BDT_PEER_PUBLIC_KEY_LENTGH_RSA3072 key.1).1.take length = key.1 := by
      have hle : key.1.length ≤ BDT_PEER_PUBLIC_KEY_LENTGH_RSA3072 := by
        rw [key.2]
        exact publicKeyLength_le hlength
      have htake := Bytes.take_ofList hle
      rwa [key.2] at htake
    unfold PeerConstInfo.reread PeerConstInfo.key
    simp only [hlength, getD_some, hkey]

/-- What is known of the super nodes that are read. -/
structure DecodedSn (env : PeerEnv) (sn : SnField) : Prop where
  either : sn.snInfoList ≠ [] → sn.snList = []
  snListCount : sn.snList.length < 256
  snInfoCount : sn.snInfoList.length < 256
  decoded : ∀ snInfo ∈ sn.snInfoList, DecodedInfo env snInfo

variable {readSnInfo : Reader (Option PeerInfo)}

section

variable (flags : UInt8)
  (h : Reader.Yields readSnInfo fun result => ∀ snInfo ∈ result, DecodedInfo env snInfo)
include h

theorem readSnField_yields :
    Reader.Yields (readSnField flags readSnInfo) (DecodedSn env) := by
  unfold readSnField
  split
  case isTrue =>
    refine Reader.Yields.bind (.counted (h.bind_some rfl fun _ => rfl))
      fun snInfoList hinfos => .pure ?_
    exact ⟨fun _ => rfl, Nat.zero_lt_succ _, hinfos.1, hinfos.2⟩
  case isFalse =>
  split
  case isTrue =>
    exact (Reader.Yields.trivial _).counted.bind fun snList hsnList =>
      .pure ⟨fun h => absurd rfl h, hsnList.1, Nat.zero_lt_succ _, forall_mem_nil _⟩
  case isFalse =>
    exact .pure ⟨fun _ => rfl, Nat.zero_lt_succ _, Nat.zero_lt_succ _, forall_mem_nil _⟩

theorem readSignField_yields :
    Reader.Yields (readSignField env flags readSnInfo) fun field =>
      field.endpoints.length < 256 ∧ DecodedSn env field.sn := by
  refine (Reader.Yields.trivial _).consumed.counted.bind fun endpoints hendpoints => ?_
  have hbehind : Reader.Yields (readSnField flags readSnInfo >>= fun sn =>
      Reader.number 8 >>= fun createTime => pure (sn, createTime)) fun field =>
        DecodedSn env field.1 :=
    (readSnField_yields flags h).bind fun sn hsn =>
      (Reader.Yields.trivial _).bind fun createTime _ => .pure hsn
  refine hbehind.consumed.bind fun field hfield => .pure ⟨?_, hfield⟩
  rw [length_map]
  exact hendpoints.1

end

theorem readSignature_yields (flags : UInt8) (constInfo : PeerConstInfo) (data : List UInt8) :
    Reader.Yields (readSignature env flags constInfo data) fun signature =>
      flags &&& BDT_PEER_INFO_FLAG_SIGNED = 0 → signature = .zero _ := by
  unfold readSignature
  split
  case isTrue hflag =>
    refine (Reader.Yields.trivial _).bind fun signature _ => ?_
    split
    case isTrue => exact .pure fun h => absurd h hflag
    case isFalse => exact .fail
  case isFalse => exact .pure fun _ => rfl

/-- A peer info that is read, and its signature when the flag does not say that it is signed. -/
theorem readPeerInfo_decoded (depth : Nat) {stream rest : List UInt8} {peerInfo : PeerInfo}
    (hread : readPeerInfo env depth stream = .ok (some peerInfo, rest)) :
    DecodedInfo env peerInfo ∧ (¬ MarkedSigned stream → peerInfo.fields.signature = .zero _) := by
  induction depth generalizing stream rest peerInfo with
  | zero => cases hread
  | succ depth ih =>
    have hnested : Reader.Yields (readPeerInfo env depth) fun result =>
        ∀ snInfo ∈ result, DecodedInfo env snInfo := by
      intro stream result rest hresult snInfo hmem
      rw [mem_def.mp hmem] at hresult
      exact (ih hresult).1
    obtain ⟨flags, body, hflags, hread⟩ := Reader.bind_eq_ok.mp hread
    have hhead : stream.headD 0 = flags := by
      cases stream with
      | nil => cases hflags
      | cons =>
        cases hflags
        rfl
    split at hread
    case isTrue => cases hread
    case isFalse =>
    obtain ⟨constInfo, afterConst, hconst, hread⟩ := Reader.bind_eq_ok.mp hread
    obtain ⟨field, afterField, hfield, hread⟩ := Reader.bind_eq_ok.mp hread
    obtain ⟨signature, afterSignature, hsignature, hread⟩ := Reader.bind_eq_ok.mp hread
    cases hread
    obtain ⟨hkey, hreread⟩ := readConstInfo_yields _ _ _ hconst
    obtain ⟨hendpoints, hsn⟩ := readSignField_yields flags hnested _ _ _ hfield
    have hzero := readSignature_yields flags constInfo field.signed _ _ _ hsignature
    refine ⟨.mk ⟨hkey, hreread, rfl, rfl, hendpoints, hsn.snListCount⟩ hsn.either hsn.snInfoCount
      hsn.decoded, fun hunmarked => hzero ?_⟩
    rw [MarkedSigned, hhead] at hunmarked
    exact Classical.not_not.mp hunmarked

end

/-! ## What the builder makes -/

/-- An endpoint that is made an object, and an endpoint again. -/
def BdtEndpoint.relayed (endpoint : BdtEndpoint) : BdtEndpoint :=
  { endpoint.throughString with
    flag := endpoint.throughString.flag |||
      (endpoint.flag &&& (BDT_ENDPOINT_FLAG_SIGNED ||| BDT_ENDPOINT_FLAG_STATIC_WAN)) }

theorem endpointJs2c_endpointC2js (endpoint : BdtEndpoint) :
    endpointJs2c (endpointC2js endpoint) = some endpoint.relayed := by
  unfold endpointJs2c endpointC2js
  rw [fromString_toString, map_some]
  have hflag : endpoint.flag.toUInt32.toUInt8 = endpoint.flag := UInt8.toUInt8_toUInt32 _
  simp only [hflag]
  split
  case isTrue => rfl
  case isFalse hzero =>
  have hzero : endpoint.flag = 0 := by
    rw [← hflag, Classical.not_not.mp hzero]
    rfl
  unfold BdtEndpoint.relayed
  rw [hzero]
  simp

theorem peerEndpointListJs2c_map (endpoints : List BdtEndpoint) :
    peerEndpointListJs2c (endpoints.map endpointC2js) = endpoints.map (·.relayed) := by
  induction endpoints with
  | nil => rfl
  | cons endpoint _ ih =>
    rw [map_cons, map_cons, peerEndpointListJs2c,
      filterMap_cons_some (endpointJs2c_endpointC2js endpoint)]
    exact congrArg _ ih

/-- The list of the builder behind another endpoint. -/
def collectEndpoint (endpoints : List BdtEndpoint) (endpoint : BdtEndpoint) : List BdtEndpoint :=
  (PeerInfoBuilder.addToEndpoints endpoint endpoints).1

theorem collects_endpoints :
    Collects (fun a b => PeerInfoBuilder.isSameEndpoint a b = true) collectEndpoint where
  fresh := by
    intro endpoints endpoint hnew
    unfold collectEndpoint
    induction endpoints with
    | nil => rfl
    | cons exist endpoints ih =>
      obtain ⟨hhead, hrest⟩ := forall_mem_cons.mp hnew
      rw [PeerInfoBuilder.addToEndpoints, if_neg hhead]
      show exist :: (PeerInfoBuilder.addToEndpoints endpoint endpoints).1 = _
      rw [ih hrest]
      rfl
  known := by
    intro endpoints endpoint other hmem hsame
    unfold collectEndpoint
    induction endpoints with
    | nil => cases hmem
    | cons exist endpoints ih =>
      rw [PeerInfoBuilder.addToEndpoints]
      split
      case isTrue =>
        split
        case isTrue => rfl
        case isFalse => rfl
      case isFalse hne =>
      have hmem : other ∈ endpoints := by
        rcases mem_cons.mp hmem with rfl | hmem
        · exact absurd hsame hne
        · exact hmem
      show (exist :: (PeerInfoBuilder.addToEndpoints endpoint endpoints).1).length = _
      rw [length_cons, length_cons, ih hmem]

theorem addToEndpoints_unchanged {endpoint : BdtEndpoint} {endpoints : List BdtEndpoint}
    (h : (PeerInfoBuilder.addToEndpoints endpoint endpoints).2 = false) :
    (PeerInfoBuilder.addToEndpoints endpoint endpoints).1 = endpoints := by
  induction endpoints with
  | nil => cases h
  | cons exist endpoints ih =>
    rw [PeerInfoBuilder.addToEndpoints] at h ⊢
    split at h
    case isTrue hsame =>
      rw [if_pos hsame]
      split at h
      case isTrue => cases h
      case isFalse hflag => rw [if_neg hflag]
    case isFalse hsame =>
    rw [if_neg hsame]
    show exist :: (PeerInfoBuilder.addToEndpoints endpoint endpoints).1 = _
    rw [ih h]

/-- A builder that was given a constant part, and has not signed anything. -/
structure PlainBuilder (env : PeerEnv) (constInfo : PeerConstInfo) (builder : PeerInfoBuilder) :
    Prop where
  peerid : builder.result.peerid = peeridFromConstInfo env.sha256Hash constInfo
  constInfo : builder.result.constInfo = constInfo
  unsigned : builder.result.signed = false
  secret : builder.result.secret = none
  createTime : builder.result.createTime = 0

section

variable {env : PeerEnv} {constInfo : PeerConstInfo} {builder : PeerInfoBuilder}

theorem PlainBuilder.begin (env : PeerEnv) (flags : BuildFlags) (constInfo : PeerConstInfo) :
    PlainBuilder env constInfo ((builderBegin flags).setConstInfo env constInfo) :=
  ⟨rfl, rfl, rfl, rfl, rfl⟩

variable (h : PlainBuilder env constInfo builder)
include h

/-- The builder after an endpoint: only its list is another one. -/
theorem PlainBuilder.addEndpoint (endpoint : BdtEndpoint) :
    PlainBuilder env constInfo (builder.addEndpoint (some endpoint)) ∧
      (builder.addEndpoint (some endpoint)).endpoints = collectEndpoint builder.endpoints endpoint ∧
      (builder.addEndpoint (some endpoint)).flags = builder.flags ∧
      (builder.addEndpoint (some endpoint)).snList = builder.snList ∧
      (builder.addEndpoint (some endpoint)).snInfoList = builder.snInfoList := by
  cases hadd : PeerInfoBuilder.addToEndpoints endpoint builder.endpoints with
  | mk _ changed =>
    simp only [PeerInfoBuilder.addEndpoint, collectEndpoint, hadd]
    cases changed with
    | true => exact ⟨⟨h.peerid, h.constInfo, h.unsigned, h.secret, rfl⟩, rfl, rfl, rfl, rfl⟩
    | false =>
      have hsame := addToEndpoints_unchanged (congrArg Prod.snd hadd)
      rw [hadd] at hsame
      exact ⟨h, hsame.symm, rfl, rfl, rfl⟩

theorem PlainBuilder.addEndpoints (endpoints : List BdtEndpoint) :
    ∃ result, endpoints.foldl (fun builder ep => builder.addEndpoint (some ep)) builder = result ∧
      PlainBuilder env constInfo result ∧
      result.endpoints = endpoints.foldl collectEndpoint builder.endpoints ∧
      result.flags = builder.flags ∧ result.snList = builder.snList ∧
      result.snInfoList = builder.snInfoList := by
  induction endpoints generalizing builder with
  | nil => exact ⟨builder, rfl, h, rfl, rfl, rfl, rfl⟩
  | cons endpoint _ ih =>
    obtain ⟨hplain, hendpoints, hflags, hsnList, hsnInfoList⟩ := h.addEndpoint endpoint
    obtain ⟨result, hresult, hplain, hall, hflagsAll, hsnAll, hinfosAll⟩ := ih hplain
    refine ⟨result, hresult, hplain, ?_, hflagsAll.trans hflags, hsnAll.trans hsnList,
      hinfosAll.trans hsnInfoList⟩
    rw [hall, hendpoints]
    rfl

/-- Whether two peerids are taken for the same. -/
def sameSn (a b : Peerid) : Bool :=
  a.1.take SIZEOF_ENDPOINT = b.1.take SIZEOF_ENDPOINT

theorem PlainBuilder.addSns (hflag : builder.flags.hasSnList = true) (snList : List Peerid) :
    ∃ result, snList.foldl (fun builder sn => builder.addSn (some sn)) builder = result ∧
      PlainBuilder env constInfo result ∧
      result.snList = snList.foldl (addNew sameSn) builder.snList ∧
      result.endpoints = builder.endpoints ∧ result.snInfoList = builder.snInfoList ∧
      result.createTime = builder.createTime := by
  induction snList generalizing builder with
  | nil => exact ⟨builder, rfl, h, rfl, rfl, rfl, rfl⟩
  | cons sn snList ih =>
    rw [foldl_cons, foldl_cons]
    have hadd : builder.addSn (some sn) = if builder.hasSn sn then builder else
        { builder with
          snList := builder.snList ++ [sn]
          result := { builder.result with signed := false, createTime := 0 } } := by
      rw [PeerInfoBuilder.addSn, hflag, if_neg Bool.noConfusion]
    have hhas : builder.hasSn sn = builder.snList.any (sameSn · sn) := rfl
    rw [hadd, hhas, addNew]
    by_cases hknown : builder.snList.any (sameSn · sn) = true
    · rw [if_pos hknown, if_pos hknown]
      exact ih h hflag
    rw [if_neg hknown, if_neg hknown]
    exact @ih { builder with
        snList := builder.snList ++ [sn]
        result := { builder.result with signed := false, createTime := 0 } }
      ⟨h.peerid, h.constInfo, rfl, h.secret, rfl⟩ hflag

/-- Whether the peerids of two peer infos are taken for the same. -/
def sameSnInfo (a b : PeerInfo) : Bool :=
  sameSn a.fields.peerid b.fields.peerid

theorem PlainBuilder.addSnInfos (hflag : builder.flags.hasSnInfo = true)
    (hlists : builder.snList = builder.snInfoList.map (·.fields.peerid))
    (snInfoList : List PeerInfo) :
    ∃ result, snInfoList.foldl (fun builder sn => builder.addSnInfo (some sn)) builder = result ∧
      PlainBuilder env constInfo result ∧
      result.snInfoList = snInfoList.foldl (addNew sameSnInfo) builder.snInfoList ∧
      result.endpoints = builder.endpoints ∧ result.createTime = builder.createTime := by
  induction snInfoList generalizing builder with
  | nil => exact ⟨builder, rfl, h, rfl, rfl, rfl⟩
  | cons sn snInfoList ih =>
    rw [foldl_cons, foldl_cons]
    have hadd : builder.addSnInfo (some sn) = if builder.hasSn sn.fields.peerid then builder else
        { builder with
          snList := builder.snList ++ [sn.fields.peerid]
          snInfoList := builder.snInfoList ++ [sn]
          result := { builder.result with signed := false, createTime := 0 } } := by
      rw [PeerInfoBuilder.addSnInfo, hflag, if_neg Bool.noConfusion]
    have hhas : builder.hasSn sn.fields.peerid = builder.snInfoList.any (sameSnInfo · sn) := by
      rw [PeerInfoBuilder.hasSn, hlists, List.any_map]
      rfl
    rw [hadd, hhas, addNew]
    by_cases hknown : builder.snInfoList.any (sameSnInfo · sn) = true
    · rw [if_pos hknown, if_pos hknown]
      exact ih h hflag hlists
    rw [if_neg hknown, if_neg hknown]
    exact @ih { builder with
        snList := builder.snList ++ [sn.fields.peerid]
        snInfoList := builder.snInfoList ++ [sn]
        result := { builder.result with signed := false, createTime := 0 } }
      ⟨h.peerid, h.constInfo, rfl, h.secret, rfl⟩ hflag (by
        show builder.snList ++ [sn.fields.peerid] = (builder.snInfoList ++ [sn]).map _
        rw [hlists, map_append]
        rfl)

end

/-! ## The constant part and the times -/

theorem copyInto_self {n : Nat} (array bytes : Bytes n) : copyInto array bytes.1 = bytes := by
  apply Subtype.ext
  show bytes.1.take n ++ array.1.drop (bytes.1.take n).length = bytes.1
  have htake : bytes.1.take n = bytes.1 := take_of_length_le (Nat.le_of_eq bytes.2)
  rw [htake, bytes.2, drop_of_length_le (Nat.le_of_eq array.2), append_nil]

theorem take_copyInto {n : Nat} (array : Bytes n) {buffer : List UInt8} (h : buffer.length ≤ n) :
    (copyInto array buffer).1.take buffer.length = buffer := by
  show (buffer.take n ++ array.1.drop (buffer.take n).length).take buffer.length = buffer
  rw [take_of_length_le h, take_left]

theorem peerAreacodeJs2c_c2js (area : PeerArea) :
    peerAreacodeJs2c (peerAreacodeC2js area) = area := by
  simp [peerAreacodeJs2c, peerAreacodeC2js]

/-- The constant part that is made of the object is written with the same bytes. -/
theorem peerConstinfoJs2c_c2js (memory : PeerConstInfo) {constInfo : PeerConstInfo}
    (hkey : (publicKeyLength constInfo.publicKeyType).isSome) :
    (peerConstinfoJs2c memory (peerConstinfoC2js constInfo)).reread = constInfo.reread ∧
      (peerConstinfoJs2c memory (peerConstinfoC2js constInfo)).publicKeyType =
        constInfo.publicKeyType := by
  obtain ⟨length, hlength⟩ := isSome_iff_exists.mp hkey
  have htype : constInfo.publicKeyType.toUInt32.toUInt8 = constInfo.publicKeyType :=
    UInt8.toUInt8_toUInt32 _
  have hbuffer : (peerConstinfoC2js constInfo).publicKey = constInfo.key := by
    show (match publicKeyLength constInfo.publicKeyType with
      | some length => constInfo.publicKey.1.take length
      | none => constInfo.publicKey.1) = _
    rw [hlength, PeerConstInfo.key, hlength]
    rfl
  have hcopied : (peerConstinfoJs2c memory (peerConstinfoC2js constInfo)).key = constInfo.key := by
    show (copyInto memory.publicKey (peerConstinfoC2js constInfo).publicKey).1.take
      ((publicKeyLength constInfo.publicKeyType.toUInt32.toUInt8).getD 0) = constInfo.key
    have hle : constInfo.key.length ≤ BDT_PEER_PUBLIC_KEY_LENTGH_RSA3072 := by
      rw [length_key hlength]
      exact publicKeyLength_le hlength
    rw [htype, hlength, hbuffer, getD_some, ← length_key hlength, take_copyInto _ hle]
  refine ⟨?_, htype⟩
  unfold PeerConstInfo.reread
  rw [hcopied]
  show PeerConstInfo.mk (peerAreacodeJs2c (peerAreacodeC2js constInfo.areaCode))
    (copyInto memory.deviceId constInfo.deviceId.1) constInfo.publicKeyType.toUInt32.toUInt8 _ = _
  rw [peerAreacodeJs2c_c2js, copyInto_self, htype]

theorem uint64Js2c_c2js (u64 : UInt64) : uint64Js2c (uint64C2js u64) = u64 := by
  have hlt := u64.toNat_lt
  have hlow : u64.toNat % 4294967296 &&& 4294967295 = u64.toNat % 4294967296 := by
    rw [show (4294967295 : Nat) = 2 ^ 32 - 1 from rfl, Nat.and_two_pow_sub_one_eq_mod]
    omega
  have hhigh : (u64.toNat >>> 32 % 4294967296) <<< 32 % 18446744073709551616 =
      (u64.toNat / 4294967296) <<< 32 := by
    rw [Nat.shiftRight_eq_div_pow, Nat.shiftLeft_eq, Nat.shiftLeft_eq]
    omega
  apply UInt64.toNat_inj.mp
  simp only [uint64Js2c, uint64C2js, UInt64.toUInt64_toUInt32, UInt64.toUInt32_and,
    UInt64.toUInt32_ofNat, UInt32.toUInt64_and, Nat.lt_add_one, UInt32.toUInt64_ofNat,
    UInt64.toNat_or, UInt64.toNat_shiftLeft, UInt64.toNat_mod, UInt64.toNat_shiftRight,
    UInt64.reduceToNat, Nat.reduceMod, Nat.reducePow, UInt64.toNat_and]
  rw [hlow, hhigh, ← Nat.shiftLeft_add_eq_or_of_lt (by omega), Nat.shiftLeft_eq]
  omega

/-! ## What is made of a peer info that was read -/

/-- The fields that the builder leaves, but for the super nodes. -/
structure RelayedFields (env : PeerEnv) (now : UInt64) (fields relayed : PeerFields) : Prop where
  constInfo : relayed.constInfo.reread = fields.constInfo
  key : (publicKeyLength relayed.constInfo.publicKeyType).isSome
  peerid : relayed.peerid = fields.peerid
  unsigned : relayed.writesSigned = false
  endpoints : relayed.endpoints = (fields.endpoints.map (·.relayed)).foldl collectEndpoint []
  createTime : relayed.createTime = if fields.createTime ≠ 0 then fields.createTime else now

section

variable {env : PeerEnv} {memory : BridgeMemory} {fields : PeerFields}

theorem peerinfoJs2cNoSn_c2js (memory : BridgeMemory) (hdecoded : DecodedFields env fields)
    (flags : BuildFlags) :
    ∃ builder, peerinfoJs2cNoSn env memory (peerinfoC2jsNoSn fields) (builderBegin flags) =
        some builder ∧
      PlainBuilder env (peerConstinfoJs2c memory.constInfo (peerConstinfoC2js fields.constInfo))
        builder ∧
      builder.endpoints = (fields.endpoints.map (·.relayed)).foldl collectEndpoint [] ∧
      builder.flags = flags ∧ builder.snList = [] ∧ builder.snInfoList = [] ∧
      builder.createTime = fields.createTime := by
  obtain ⟨result, hresult, hplain, hendpoints, hflags, hsnList, hsnInfoList⟩ :=
    (PlainBuilder.begin env flags (peerConstinfoJs2c memory.constInfo
      (peerConstinfoC2js fields.constInfo))).addEndpoints (fields.endpoints.map (·.relayed))
  refine ⟨result.setCreateTime fields.createTime, ?_,
    ⟨hplain.peerid, hplain.constInfo, hplain.unsigned, hplain.secret, hplain.createTime⟩, hendpoints,
    hflags, hsnList, hsnInfoList, rfl⟩
  have hsignature : (peerinfoC2jsNoSn fields).signature = none := by
    show (if fields.signed then some fields.signature.1 else none) = none
    rw [hdecoded.unsigned]
    rfl
  unfold peerinfoJs2cNoSn
  have hlist : peerEndpointListJs2c (peerinfoC2jsNoSn fields).endpointArray =
      fields.endpoints.map (·.relayed) :=
    peerEndpointListJs2c_map fields.endpoints
  have htime : uint64Js2c (peerinfoC2jsNoSn fields).createTime = fields.createTime :=
    uint64Js2c_c2js fields.createTime
  simp only [hlist, hsignature, htime, map_some]
  exact congrArg (fun builder => some (PeerInfoBuilder.setCreateTime builder fields.createTime))
    hresult

theorem PlainBuilder.assemble {builder : PeerInfoBuilder} (hdecoded : DecodedFields env fields)
    (h : PlainBuilder env (peerConstinfoJs2c memory.constInfo (peerConstinfoC2js fields.constInfo))
      builder)
    (hendpoints : builder.endpoints = (fields.endpoints.map (·.relayed)).foldl collectEndpoint [])
    (htime : builder.createTime = fields.createTime) (now : UInt64) :
    RelayedFields env now fields (builder.assemble now).fields ∧
      (builder.assemble now).fields.snList = builder.snList ∧
      (builder.assemble now).snInfoList = builder.snInfoList := by
  obtain ⟨hreread, htype⟩ := peerConstinfoJs2c_c2js memory.constInfo hdecoded.key
  have hkey : (publicKeyLength (peerConstinfoJs2c memory.constInfo
      (peerConstinfoC2js fields.constInfo)).publicKeyType).isSome := by
    rw [htype]
    exact hdecoded.key
  have hpeerid : peeridFromConstInfo env.sha256Hash
      (peerConstinfoJs2c memory.constInfo (peerConstinfoC2js fields.constInfo)) = fields.peerid := by
    have hkept (constInfo : PeerConstInfo) (h : (publicKeyLength constInfo.publicKeyType).isSome) :
        peeridFromConstInfo env.sha256Hash constInfo =
          peeridFromConstInfo env.sha256Hash constInfo.reread := by
      unfold peeridFromConstInfo
      simp only [key_reread h]
      rfl
    rw [hkept _ hkey, hreread, hdecoded.constInfo, hdecoded.peerid]
  have hmade : ∀ result : PeerFields, result.peerid = builder.result.peerid →
      result.constInfo = builder.result.constInfo → result.writesSigned = false →
      result.endpoints = builder.endpoints →
      result.createTime = (if fields.createTime ≠ 0 then fields.createTime else now) →
      RelayedFields env now fields result := by
    intro result hresultPeerid hconst hunsigned hlist hresultTime
    refine ⟨?_, ?_, ?_, hunsigned, hlist.trans hendpoints, hresultTime⟩
    · rw [hconst, h.constInfo, hreread, hdecoded.constInfo]
    · rw [hconst, h.constInfo]
      exact hkey
    · rw [hresultPeerid, h.peerid, hpeerid]
  have hunsigned (signed : Bool) (hsigned : signed = false) :
      (signed || builder.result.secret.isSome) = false := by
    rw [hsigned, h.secret]
    rfl
  unfold PeerInfoBuilder.assemble
  rw [htime]
  by_cases hzero : fields.createTime ≠ 0
  · simp only [if_pos hzero]
    exact ⟨hmade _ rfl rfl (hunsigned _ h.unsigned) rfl (if_pos hzero).symm, True.intro, True.intro⟩
  · simp only [if_neg hzero, h.createTime, if_pos]
    exact ⟨hmade _ rfl rfl (hunsigned _ rfl) rfl (if_neg hzero).symm, True.intro, True.intro⟩

/-- The peer infos of super nodes, and what is made of each when so many are left. -/
inductive NestedRelayed (env : PeerEnv) (clock : Nat → UInt64) :
    List PeerInfo → List PeerInfo → Prop where
  | nil : NestedRelayed env clock [] []
  | cons {snInfo relayed : PeerInfo} {snInfoList others : List PeerInfo} :
      DecodedFields env snInfo.fields →
      RelayedFields env (clock (snInfoList.length + 1)) snInfo.fields relayed.fields →
      relayed.fields.snList = [] → relayed.snInfoList = [] →
      NestedRelayed env clock snInfoList others →
        NestedRelayed env clock (snInfo :: snInfoList) (relayed :: others)

theorem snInfosJs2c_c2js (clock : Nat → UInt64) {snInfoList : List PeerInfo}
    (hdecoded : ∀ snInfo ∈ snInfoList, DecodedFields env snInfo.fields) (builder : PeerInfoBuilder) :
    ∃ others, NestedRelayed env clock snInfoList others ∧
      snInfosJs2c env memory clock (snInfoList.map fun snInfo => peerinfoC2jsNoSn snInfo.fields)
          builder =
        some (others.foldl (fun builder sn => builder.addSnInfo (some sn)) builder) := by
  induction snInfoList generalizing builder with
  | nil => exact ⟨[], .nil, rfl⟩
  | cons _ snInfoList ih =>
    obtain ⟨hhead, hrest⟩ := forall_mem_cons.mp hdecoded
    obtain ⟨sn, hsn, hplain, hendpoints, -, hsnList, hsnInfoList, htime⟩ :=
      peerinfoJs2cNoSn_c2js memory hhead
        { hasSecret := false, hasSnList := false, hasSnInfo := false }
    obtain ⟨hfields, hlist, hinfos⟩ :=
      hplain.assemble hhead hendpoints htime (clock (snInfoList.length + 1))
    obtain ⟨others, hothers, hjs⟩ := ih hrest
      (builder.addSnInfo (some (sn.assemble (clock (snInfoList.length + 1)))))
    refine ⟨sn.assemble (clock (snInfoList.length + 1)) :: others,
      .cons hhead hfields (hlist.trans hsnList) (hinfos.trans hsnInfoList) hothers, ?_⟩
    rw [map_cons, snInfosJs2c, hsn, bind_some, length_map]
    exact hjs

/-- What `relayPeerInfo` makes. -/
structure RelayedInfo (env : PeerEnv) (clock : Nat → UInt64) (peerInfo relayed : PeerInfo) :
    Prop where
  fields : RelayedFields env (clock 0) peerInfo.fields relayed.fields
  snList : peerInfo.snInfoList = [] →
    relayed.fields.snList = peerInfo.fields.snList.foldl (addNew sameSn) []
  snInfoList : ∃ others, NestedRelayed env clock peerInfo.snInfoList others ∧
    relayed.snInfoList = others.foldl (addNew sameSnInfo) []

theorem relayPeerInfo_decoded (memory : BridgeMemory) (clock : Nat → UInt64) {peerInfo : PeerInfo}
    (hdecoded : DecodedInfo env peerInfo) :
    ∃ relayed, relayPeerInfo env memory clock peerInfo = some relayed ∧
      RelayedInfo env clock peerInfo relayed := by
  cases hdecoded with
  | @mk fields snInfoList hfields heither hcount hinfos =>
    have hnested : ∀ snInfo ∈ snInfoList, DecodedFields env snInfo.fields := by
      intro snInfo hmem
      cases hinfos snInfo hmem with
      | mk h => exact h
    obtain ⟨builder, hbuilder, hplain, hendpoints, hflags, hsnList, hsnInfoList, htime⟩ :=
      peerinfoJs2cNoSn_c2js memory hfields
        { hasSecret := false
          hasSnList := (fields.snList.map (·.1)) ≠ []
          hasSnInfo := (snInfoList.map fun snInfo => peerinfoC2jsNoSn snInfo.fields) ≠ [] }
    have hrelay : relayPeerInfo env memory clock ⟨fields, snInfoList⟩ =
        (snInfosJs2c env memory clock
          (snInfoList.map fun snInfo => peerinfoC2jsNoSn snInfo.fields)
          ((fields.snList.map (·.1)).foldl (fun infoBuilder snPeerid =>
            infoBuilder.addSn (some (copyInto memory.peerid snPeerid))) builder)).bind
            fun infoBuilder => some (infoBuilder.assemble (clock 0)) := by
      show Option.bind (Option.bind (peerinfoJs2cNoSn env memory (peerinfoC2jsNoSn fields)
        (builderBegin
          { hasSecret := false
            hasSnList := (fields.snList.map (·.1)) ≠ []
            hasSnInfo := (snInfoList.map fun snInfo => peerinfoC2jsNoSn snInfo.fields) ≠ [] }))
        _) _ = _
      rw [hbuilder]
      rfl
    have hcopied : (fields.snList.map (·.1)).foldl (fun infoBuilder snPeerid =>
          infoBuilder.addSn (some (copyInto memory.peerid snPeerid))) builder =
        fields.snList.foldl (fun builder sn => builder.addSn (some sn)) builder := by
      rw [foldl_map]
      simp only [copyInto_self]
    rw [hrelay, hcopied]
    by_cases hne : snInfoList = []
    · subst hne
      by_cases hsn : fields.snList = []
      · obtain ⟨hmade, hlist, hinfoList⟩ := hplain.assemble hfields hendpoints htime (clock 0)
        rw [hsn]
        refine ⟨builder.assemble (clock 0), rfl, hmade, fun _ => ?_, [], .nil, ?_⟩
        · show _ = fields.snList.foldl _ _
          rw [hlist, hsnList, hsn]
          rfl
        · rw [hinfoList, hsnInfoList]
          rfl
      have hflag : builder.flags.hasSnList = true := by
        rw [hflags]
        exact decide_eq_true (mt map_eq_nil_iff.mp hsn)
      obtain ⟨result, hresult, hplain, hadded, hkept, hkeptInfos, hkeptTime⟩ :=
        hplain.addSns hflag fields.snList
      obtain ⟨hmade, hlist, hinfoList⟩ := hplain.assemble hfields (hkept.trans hendpoints)
        (hkeptTime.trans htime) (clock 0)
      rw [hresult]
      refine ⟨result.assemble (clock 0), rfl, hmade, fun _ => ?_, [], .nil, ?_⟩
      · rw [hlist, hadded, hsnList]
      · rw [hinfoList, hkeptInfos, hsnInfoList]
        rfl
    have hflag : builder.flags.hasSnInfo = true := by
      rw [hflags]
      exact decide_eq_true (mt map_eq_nil_iff.mp hne)
    rw [heither hne, foldl_nil]
    obtain ⟨others, hothers, hjs⟩ := snInfosJs2c_c2js clock hnested builder
    obtain ⟨result, hresult, hplain, hadded, hkept, hkeptTime⟩ :=
      hplain.addSnInfos hflag (by rw [hsnList, hsnInfoList]; rfl) others
    obtain ⟨hmade, -, hinfoList⟩ := hplain.assemble hfields (hkept.trans hendpoints)
      (hkeptTime.trans htime) (clock 0)
    rw [hjs, hresult]
    refine ⟨result.assemble (clock 0), rfl, hmade, fun h => absurd h hne, others, hothers, ?_⟩
    rw [hinfoList, hadded, hsnInfoList]

end

end Bdt
