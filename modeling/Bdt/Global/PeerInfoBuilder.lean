import Bdt.Global.PeerInfo

/-!
# The builder of peer infos

A model of the operations on `BdtPeerInfoBuilder` in `PeerInfo.imp.inl`. A builder starts empty or
takes over a peer info that is there; `finish` decides from the flags and the times that the
operations have left whether the peer info is signed again.
-/

namespace Bdt

/-- The buffer that a peer info is written to before it is signed. -/
def SIGN_BUFFER_SIZE : Nat := 2048

/-- `sizeof(BdtEndpoint)`, the number of bytes of a peerid that are compared. -/
def SIZEOF_ENDPOINT : Nat := 20

/-- The flags of `BdtPeerInfoBuilderBegin`. -/
structure BuildFlags where
  hasSecret : Bool
  hasSnList : Bool
  hasSnInfo : Bool
  deriving DecidableEq

/-- `BdtPeerInfoBuilder`. The lists of `result` stay empty until the end. -/
structure PeerInfoBuilder where
  flags : BuildFlags
  result : PeerFields
  endpoints : List BdtEndpoint := []
  snList : List Peerid := []
  snInfoList : List PeerInfo := []
  createTime : UInt64 := 0

/-- `CreatePeerInfo`. -/
def createPeerInfo : PeerFields where
  peerid := .zero _
  constInfo :=
    { areaCode := { continent := 0, country := 0, carrier := 0, city := 0, inner := 0 }
      deviceId := .zero _, publicKeyType := 0, publicKey := .zero _ }
  signature := .zero _

/-- `BdtPeerInfoBuilderBegin`. -/
def builderBegin (flags : BuildFlags) : PeerInfoBuilder where
  flags
  result := createPeerInfo

namespace PeerInfoBuilder

variable (builder : PeerInfoBuilder)

/-- `BdtPeerInfoClone`. -/
def clone (proto : PeerInfo) : PeerInfoBuilder :=
  { builder with
    result :=
      { builder.result with
        peerid := proto.fields.peerid
        constInfo := proto.fields.constInfo
        signUpdate := proto.fields.signUpdate
        signed := proto.fields.signed
        signature := proto.fields.signature
        secret :=
          if builder.flags.hasSecret && proto.fields.secret.isSome then proto.fields.secret
          else builder.result.secret
        createTime := proto.fields.createTime }
    endpoints := proto.fields.endpoints
    snList :=
      if builder.flags.hasSnList = true ∧ proto.fields.snList ≠ [] then proto.fields.snList
      else builder.snList
    snInfoList :=
      if builder.flags.hasSnInfo = true ∧ proto.snInfoList ≠ [] then proto.snInfoList
      else builder.snInfoList }

/-- `BdtPeerInfoSetConstInfo`. -/
def setConstInfo (env : PeerEnv) (builder : PeerInfoBuilder) (constInfo : PeerConstInfo) :
    PeerInfoBuilder :=
  { builder with
    result :=
      { builder.result with constInfo, peerid := peeridFromConstInfo env.sha256Hash constInfo } }

/-- The flags of an endpoint that tell it from others. -/
def plainFlag (flag : UInt8) : UInt8 :=
  flag &&& ~~~(BDT_ENDPOINT_FLAG_STATIC_WAN ||| BDT_ENDPOINT_FLAG_SIGNED)

/-- The comparison in the loop of `BdtPeerInfoAddEndpoint`. -/
def isSameEndpoint (existEndpoint endpoint : BdtEndpoint) : Bool :=
  plainFlag existEndpoint.flag = plainFlag endpoint.flag &&
    (existEndpoint.port = endpoint.port &&
      (plainFlag existEndpoint.flag &&& BDT_ENDPOINT_IP_VERSION_4 ≠ 0 &&
          existEndpoint.address.1.take 4 = endpoint.address.1.take 4 ||
        existEndpoint.address = endpoint.address))

/-- An endpoint that is there already takes over whether the new one is static. -/
def mergeFlag (existEndpoint endpoint : BdtEndpoint) : BdtEndpoint :=
  { existEndpoint with
    flag := (existEndpoint.flag ||| plainFlag endpoint.flag) &&& ~~~BDT_ENDPOINT_FLAG_STATIC_WAN |||
      (endpoint.flag &&& BDT_ENDPOINT_FLAG_STATIC_WAN) }

/-- The loop of `BdtPeerInfoAddEndpoint`, with whether something changes. -/
def addToEndpoints (endpoint : BdtEndpoint) : List BdtEndpoint → List BdtEndpoint × Bool
  | [] => ([endpoint], true)
  | existEndpoint :: endpoints =>
    if isSameEndpoint existEndpoint endpoint then
      if existEndpoint.flag ≠ endpoint.flag then
        (mergeFlag existEndpoint endpoint :: endpoints, true)
      else (existEndpoint :: endpoints, false)
    else
      let (endpoints, changed) := addToEndpoints endpoint endpoints
      (existEndpoint :: endpoints, changed)

/-- `BdtPeerInfoAddEndpoint`; the endpoint may be `NULL`. -/
def addEndpoint : Option BdtEndpoint → PeerInfoBuilder
  | none => builder
  | some endpoint =>
    match addToEndpoints endpoint builder.endpoints with
    | (endpoints, true) =>
      { builder with
        endpoints, result := { builder.result with signUpdate := true, createTime := 0 } }
    | (_, false) => builder

/-- `BdtPeerInfoClearEndpoint`. -/
def clearEndpoint : PeerInfoBuilder :=
  if builder.endpoints ≠ [] then
    { builder with
      endpoints := [], result := { builder.result with signed := false, createTime := 0 } }
  else builder

/-- Whether a super node is taken for one that is there already. -/
def hasSn (peerid : Peerid) : Bool :=
  builder.snList.any fun sn => sn.1.take SIZEOF_ENDPOINT = peerid.1.take SIZEOF_ENDPOINT

/-- `BdtPeerInfoAddSn`. -/
def addSn : Option Peerid → PeerInfoBuilder
  | none => builder
  | some peerid =>
    if builder.flags.hasSnList = false then builder
    else if builder.hasSn peerid then builder
    else
      { builder with
        snList := builder.snList ++ [peerid]
        result := { builder.result with signed := false, createTime := 0 } }

/-- `BdtPeerInfoAddSnInfo`. -/
def addSnInfo : Option PeerInfo → PeerInfoBuilder
  | none => builder
  | some peerInfo =>
    if builder.flags.hasSnInfo = false then builder
    else if builder.hasSn peerInfo.fields.peerid then builder
    else
      { builder with
        snList := builder.snList ++ [peerInfo.fields.peerid]
        snInfoList := builder.snInfoList ++ [peerInfo]
        result := { builder.result with signed := false, createTime := 0 } }

/-- `BdtPeerInfoSetSecret`. -/
def setSecret (secret : List UInt8) : PeerInfoBuilder :=
  if builder.flags.hasSecret = true ∧ builder.result.secret ≠ some secret then
    { builder with
      result := { builder.result with secret := some secret, signed := false, createTime := 0 } }
  else builder

/-- `BdtPeerInfoSetCreateTime`. -/
def setCreateTime (createTime : UInt64) : PeerInfoBuilder :=
  { builder with createTime }

/-- `BdtPeerInfoSetSignature`; `none` is the assertion about the length. -/
def setSignature (signature : List UInt8) : Option PeerInfoBuilder :=
  if h : signature.length ≤ BDT_PEER_LENGTH_SIGNATRUE then
    some
      { builder with
        result :=
          { builder.result with
            signature := builder.result.signature.overwrite ⟨signature, rfl⟩ h, signed := true } }
  else none

/-- The first part of `BdtPeerInfoBuilderFinish`: the peer info as it is when it is not signed. -/
def assemble (now : UInt64) : PeerInfo where
  fields :=
    let result :=
      { builder.result with endpoints := builder.endpoints, snList := builder.snList }
    if builder.createTime ≠ 0 then { result with createTime := builder.createTime }
    else if result.createTime = 0 then { result with createTime := now, signed := false }
    else result
  snInfoList := builder.snInfoList

end PeerInfoBuilder

/-- What `rsa_sign_wrap`, which does not look at the size of its output, makes of the fields: a signature
that is longer than its array goes on over `createTime`, which is the last field of `BdtPeerInfo`. What
is behind it in memory is not modelled. -/
def PeerFields.writeSignature (fields : PeerFields) (signature : List UInt8) : PeerFields :=
  let front := signature.take BDT_PEER_LENGTH_SIGNATRUE
  let behind := signature.drop BDT_PEER_LENGTH_SIGNATRUE
  { fields with
    signature := fields.signature.overwrite ⟨front, rfl⟩ (List.length_take_le _ _)
    createTime :=
      if behind = [] then fields.createTime
      else .ofNat (ofLe (behind.take 8 ++ (toLe 8 fields.createTime.toNat).drop behind.length)) }

variable (env : PeerEnv)

/-- `BdtPeerInfoSign`: the peer info afterwards. -/
def peerInfoSign (signSecret : List UInt8) (fields : PeerFields)
    (data : List UInt8) : Option PeerFields :=
  if fields.signed then some fields
  else (env.rsaSignMd5 data signSecret).map fields.writeSignature

/-- The endpoint when it is covered by a signature. -/
def BdtEndpoint.markSigned (endpoint : BdtEndpoint) : BdtEndpoint :=
  { endpoint with flag := endpoint.flag ||| BDT_ENDPOINT_FLAG_SIGNED }

/-- The second part of `BdtPeerInfoBuilderFinish`. -/
def resign (signSecret : List UInt8) (peerInfo : PeerInfo) : Option PeerInfo :=
  match writeSnInfos peerInfo.snInfoList with
  | none => none
  | some snInfos =>
    if (writeUnsignedField peerInfo.fields true).length +
        (writeSignField peerInfo.fields snInfos true).length ≤ SIGN_BUFFER_SIZE then
      (peerInfoSign env signSecret peerInfo.fields
        (writeSignField peerInfo.fields snInfos true)).map fun fields =>
          { peerInfo with
            fields :=
              { fields with
                endpoints := peerInfo.fields.endpoints.map (·.markSigned)
                signed := true
                signUpdate := false } }
    else none

/-- `BdtPeerInfoBuilderFinish`; `none` stands for `NULL` and for an assertion that fails. -/
def PeerInfoBuilder.finish (now : UInt64) (builder : PeerInfoBuilder)
    (signSecret : Option (List UInt8)) : Option PeerInfo :=
  match signSecret with
  | none => some (builder.assemble now)
  | some secret =>
    let peerInfo := (builder.setSecret secret).assemble now
    if peerInfo.fields.signed = false ∨ peerInfo.fields.signUpdate = true then
      resign env secret peerInfo
    else some peerInfo

/-- The operations on a builder. -/
inductive BuilderOp where
  | clone (proto : PeerInfo)
  | setConstInfo (constInfo : PeerConstInfo)
  | addEndpoint (endpoint : Option BdtEndpoint)
  | clearEndpoint
  | addSn (peerid : Option Peerid)
  | addSnInfo (peerInfo : Option PeerInfo)
  | setSecret (secret : List UInt8)
  | setCreateTime (createTime : UInt64)
  | setSignature (signature : List UInt8)

namespace PeerInfoBuilder

def step (builder : PeerInfoBuilder) : BuilderOp → Option PeerInfoBuilder
  | .clone proto => some (builder.clone proto)
  | .setConstInfo constInfo => some (builder.setConstInfo env constInfo)
  | .addEndpoint endpoint => some (builder.addEndpoint endpoint)
  | .clearEndpoint => some builder.clearEndpoint
  | .addSn peerid => some (builder.addSn peerid)
  | .addSnInfo peerInfo => some (builder.addSnInfo peerInfo)
  | .setSecret secret => some (builder.setSecret secret)
  | .setCreateTime createTime => some (builder.setCreateTime createTime)
  | .setSignature signature => builder.setSignature signature

/-- Operations one behind the other. -/
def run (env : PeerEnv) : PeerInfoBuilder → List BuilderOp → Option PeerInfoBuilder
  | builder, [] => some builder
  | builder, op :: ops => (builder.step env op).bind fun builder => run env builder ops

end PeerInfoBuilder

/-- The peer info of a builder that runs through `ops`. -/
def buildPeerInfo (now : UInt64) (flags : BuildFlags) (ops : List BuilderOp)
    (signSecret : Option (List UInt8)) : Option PeerInfo :=
  (builderBegin flags).run env ops |>.bind fun builder => builder.finish env now signSecret

end Bdt
