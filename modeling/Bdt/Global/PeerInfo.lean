import Bdt.Global.Peerid

/-!
# Peer infos

A model of `BufferWritePeerInfo` and `BufferReadPeerInfo` in `PeerInfo.imp.inl`. A peer info is
written with its endpoints in two parts: those that are not covered by the signature, and then, in
the part that is, the other ones, the super nodes and the time. The lists of a peer info are `NULL`
when they are empty; the buffer that is written to is as long as it has to be.
-/

namespace Bdt

def BDT_PEER_LENGTH_SIGNATRUE : Nat := 128

def BDT_ENDPOINT_IP_VERSION_4 : UInt8 := 8
def BDT_ENDPOINT_IP_VERSION_6 : UInt8 := 16
def BDT_ENDPOINT_FLAG_STATIC_WAN : UInt8 := 64
def BDT_ENDPOINT_FLAG_SIGNED : UInt8 := 128

def BDT_PEER_INFO_BUILD_FLAG_NULL : UInt8 := 1
def BDT_PEER_INFO_BUILD_FLAG_HAS_SN_LIST : UInt8 := 4
def BDT_PEER_INFO_BUILD_FLAG_HAS_SN_INFO : UInt8 := 8
def BDT_PEER_INFO_FLAG_SIGNED : UInt8 := 16

structure BdtEndpoint where
  flag : UInt8
  port : UInt16
  /-- The union of `address` and `addressV6`. -/
  address : Bytes 16
  deriving DecidableEq

/-- `address` is part of the union. -/
theorem address_le : 4 ≤ 16 := by decide

theorem BdtEndpoint.length_take_address (endpoint : BdtEndpoint) :
    (endpoint.address.1.take 4).length = 4 :=
  List.length_take_of_le (by rw [endpoint.address.2]; decide)

/-- `BdtPeerInfo` without its `snInfoList`. -/
structure PeerFields where
  /-- `BDT_PEER_INFO_FLAG_SIGN_UPDATE` of `flags`. -/
  signUpdate : Bool := false
  /-- `BDT_PEER_INFO_FLAG_SIGNED` of `flags`. -/
  signed : Bool := false
  peerid : Peerid
  constInfo : PeerConstInfo
  endpoints : List BdtEndpoint := []
  snList : List Peerid := []
  /-- The first `secretLength` bytes of a secret. -/
  secret : Option (List UInt8) := none
  signature : Bytes BDT_PEER_LENGTH_SIGNATRUE
  createTime : UInt64 := 0

/-- `BdtPeerInfo`. -/
structure PeerInfo where
  fields : PeerFields
  snInfoList : List PeerInfo

/-- What is not in this repository, or not in this file: the RSA primitives, the hash in a peerid,
and what is in memory that was allocated. -/
structure PeerEnv where
  /-- `Bdt_RsaSignMd5`, of the data and a secret. -/
  rsaSignMd5 : List UInt8 → List UInt8 → Option (List UInt8)
  /-- `Bdt_RsaVerifyMd5`, of a signature, a public key and the data. -/
  rsaVerifyMd5 : List UInt8 → List UInt8 → List UInt8 → Bool
  sha256Hash : List UInt8 → Bytes 32
  uninitialized : Bytes 16

/-! ## The writer -/

/-- `BdtPeerInfoWriteEndpoint`. -/
def writeEndpoint (endpoint : BdtEndpoint) (flag : UInt8) : List UInt8 :=
  [flag] ++ (toLe 2 endpoint.port.toNat ++
    if endpoint.flag &&& BDT_ENDPOINT_IP_VERSION_4 ≠ 0 then endpoint.address.1.take 4
    else if endpoint.flag &&& BDT_ENDPOINT_IP_VERSION_6 ≠ 0 then endpoint.address.1
    else [])

def BdtEndpoint.isSigned (endpoint : BdtEndpoint) : Bool :=
  endpoint.flag &&& BDT_ENDPOINT_FLAG_SIGNED ≠ 0

/-- The conversion of a length to `uint8_t`. -/
def writeCount (length : Nat) : Nat :=
  length % 256

/-- `BdtPeerInfoWriteEndpointsWithoutFlag`, for `BDT_ENDPOINT_FLAG_SIGNED`. -/
def writeEndpointsWithoutFlag (endpoints : List BdtEndpoint) (endpointCount : Nat) : List UInt8 :=
  ((endpoints.take endpointCount).filter (!·.isSigned)).flatMap fun ep => writeEndpoint ep ep.flag

/-- The endpoints in the part that is signed. -/
def writeSignedEndpoints (endpoints : List BdtEndpoint) (endpointCount : Nat) (isWillResign : Bool) :
    List UInt8 :=
  ((endpoints.take endpointCount).filter fun ep => isWillResign || ep.isSigned).flatMap fun ep =>
    writeEndpoint ep (ep.flag ||| BDT_ENDPOINT_FLAG_SIGNED)

/-- `BdtPeerInfoWriteSignFieldToBuffer`: what stands before the part that is signed. -/
def writeUnsignedField (fields : PeerFields) (isWillResign : Bool) : List UInt8 :=
  [UInt8.ofNat (writeCount fields.endpoints.length)] ++
    if isWillResign then []
    else writeEndpointsWithoutFlag fields.endpoints (writeCount fields.endpoints.length)

/-- The super nodes. -/
def writeSnField (fields : PeerFields) (snInfos : List (List UInt8)) : List UInt8 :=
  if snInfos ≠ [] then
    [UInt8.ofNat (writeCount snInfos.length)] ++ (snInfos.take (writeCount snInfos.length)).flatten
  else if fields.snList ≠ [] then
    [UInt8.ofNat (writeCount fields.snList.length)] ++
      (fields.snList.take (writeCount fields.snList.length)).flatMap (·.1)
  else []

/-- `BdtPeerInfoWriteSignFieldToBuffer`: the part that is signed. -/
def writeSignField (fields : PeerFields) (snInfos : List (List UInt8)) (isWillResign : Bool) :
    List UInt8 :=
  writeSignedEndpoints fields.endpoints (writeCount fields.endpoints.length) isWillResign ++
    (writeSnField fields snInfos ++ toLe 8 fields.createTime.toNat)

/-- Whether a peer info is written with a signature. -/
def PeerFields.writesSigned (fields : PeerFields) : Bool :=
  fields.signed || fields.secret.isSome

def wireFlags (fields : PeerFields) (hasSnInfo : Bool) : UInt8 :=
  (if hasSnInfo then BDT_PEER_INFO_BUILD_FLAG_HAS_SN_INFO
    else if fields.snList ≠ [] then BDT_PEER_INFO_BUILD_FLAG_HAS_SN_LIST else 0) |||
    if fields.writesSigned then BDT_PEER_INFO_FLAG_SIGNED else 0

def writeArea (areaCode : PeerArea) : List UInt8 :=
  [areaCode.continent] ++ ([areaCode.country] ++ ([areaCode.carrier] ++
    (toLe 2 areaCode.city.toNat ++ [areaCode.inner])))

def writeConstInfo (constInfo : PeerConstInfo) : List UInt8 :=
  writeArea constInfo.areaCode ++
    (constInfo.deviceId.1 ++ ([constInfo.publicKeyType] ++ constInfo.key))

/-- A peer info with what its super nodes are written as. -/
def writeFields (fields : PeerFields) (snInfos : List (List UInt8)) : List UInt8 :=
  [wireFlags fields (snInfos ≠ [])] ++ (writeConstInfo fields.constInfo ++
    ((writeUnsignedField fields false ++ writeSignField fields snInfos false) ++
      if fields.writesSigned then fields.signature.1 else []))

mutual

/-- `BufferWritePeerInfo`; `none` is `BFX_RESULT_UNKNOWN_TYPE`. -/
def bufferWritePeerInfo : PeerInfo → Option (List UInt8)
  | ⟨fields, snInfoList⟩ =>
    (publicKeyLength fields.constInfo.publicKeyType).bind fun _ =>
      (writeSnInfos snInfoList).map (writeFields fields)

/-- The super nodes, each as it is written. -/
def writeSnInfos : List PeerInfo → Option (List (List UInt8))
  | [] => some []
  | snInfo :: snInfoList =>
    (bufferWritePeerInfo snInfo).bind fun written =>
      (writeSnInfos snInfoList).map (written :: ·)

end

/-! ## The reader -/

/-- `BdtPeerInfoReadEndpoint`. -/
def readEndpoint (env : PeerEnv) : Reader BdtEndpoint := do
  let flag ← Reader.byte
  let port ← Reader.number 2
  if flag &&& BDT_ENDPOINT_IP_VERSION_4 ≠ 0 then
    let address ← Reader.bytes 4
    pure { flag, port := .ofNat port, address := env.uninitialized.overwrite address address_le }
  else if flag &&& BDT_ENDPOINT_IP_VERSION_6 ≠ 0 then
    let address ← Reader.bytes 16
    pure { flag, port := .ofNat port, address }
  else pure { flag, port := .ofNat port, address := env.uninitialized }

/-- `BufferReadPeerInfo` up to the key. -/
def readConstInfo : Reader PeerConstInfo := do
  let continent ← Reader.byte
  let country ← Reader.byte
  let carrier ← Reader.byte
  let city ← Reader.number 2
  let inner ← Reader.byte
  let deviceId ← Reader.bytes BDT_MAX_DEVICE_ID_LENGTH
  let publicKeyType ← Reader.byte
  match publicKeyLength publicKeyType with
  | none => Reader.fail
  | some length =>
    let key ← Reader.bytes length
    pure
      { areaCode := { continent, country, carrier, city := .ofNat city, inner }
        deviceId, publicKeyType, publicKey := .ofList _ key.1 }

/-- The super nodes of a peer info. -/
structure SnField where
  snInfoList : List PeerInfo := []
  snList : List Peerid := []

/-- The super nodes in `BdtPeerInfoReadSignFieldFromBuffer`. -/
def readSnField (flags : UInt8) (readSnInfo : Reader (Option PeerInfo)) : Reader SnField :=
  if flags &&& BDT_PEER_INFO_BUILD_FLAG_HAS_SN_INFO ≠ 0 then do
    let snInfoList ← Reader.counted do
      match ← readSnInfo with
      | none => Reader.fail
      | some snInfo => pure snInfo
    pure { snInfoList }
  else if flags &&& BDT_PEER_INFO_BUILD_FLAG_HAS_SN_LIST ≠ 0 then do
    let snList ← Reader.counted (Reader.bytes BDT_PEERID_LENGTH)
    pure { snList }
  else pure {}

/-- What `BdtPeerInfoReadSignFieldFromBuffer` reads. -/
structure SignField where
  endpoints : List BdtEndpoint
  sn : SnField
  createTime : UInt64
  /-- The bytes from the first endpoint on that is flagged as signed. -/
  signed : List UInt8

/-- `BdtPeerInfoReadSignFieldFromBuffer`. -/
def readSignField (env : PeerEnv) (flags : UInt8) (readSnInfo : Reader (Option PeerInfo)) :
    Reader SignField := do
  let endpoints ← Reader.counted (Reader.consumed (readEndpoint env))
  let ((sn, createTime), behind) ← Reader.consumed do
    let sn ← readSnField flags readSnInfo
    let createTime ← Reader.number 8
    pure (sn, createTime)
  pure
    { endpoints := endpoints.map (·.1), sn, createTime := .ofNat createTime
      signed := (endpoints.dropWhile (!·.1.isSigned)).flatMap (·.2) ++ behind }

/-- `BdtPeerInfoVerify`. -/
def peerInfoVerify (env : PeerEnv) (constInfo : PeerConstInfo)
    (signature : Bytes BDT_PEER_LENGTH_SIGNATRUE) (data : List UInt8) : Bool :=
  env.rsaVerifyMd5 signature.1 constInfo.key data

/-- The signature of a peer info, which has to verify. -/
def readSignature (env : PeerEnv) (flags : UInt8) (constInfo : PeerConstInfo) (data : List UInt8) :
    Reader (Bytes BDT_PEER_LENGTH_SIGNATRUE) :=
  if flags &&& BDT_PEER_INFO_FLAG_SIGNED ≠ 0 then do
    let signature ← Reader.bytes BDT_PEER_LENGTH_SIGNATRUE
    if peerInfoVerify env constInfo signature data then pure signature else Reader.fail
  else pure (.zero _)

/-- `BufferReadPeerInfo`, with peer infos inside of peer infos down to `depth`. -/
def readPeerInfo (env : PeerEnv) : Nat → Reader (Option PeerInfo)
  | 0 => Reader.fail
  | depth + 1 => do
    let flags ← Reader.byte
    if flags = BDT_PEER_INFO_BUILD_FLAG_NULL then pure none
    else
      let constInfo ← readConstInfo
      let field ← readSignField env flags (readPeerInfo env depth)
      let signature ← readSignature env flags constInfo field.signed
      pure (some
        { fields :=
            { peerid := peeridFromConstInfo env.sha256Hash constInfo
              constInfo, signature
              endpoints := field.endpoints
              snList := field.sn.snList
              createTime := field.createTime }
          snInfoList := field.sn.snInfoList })

/-- `BufferReadPeerInfo`: the peer info, which may be `NULL`, and the rest of the stream. -/
def bufferReadPeerInfo (env : PeerEnv) (stream : List UInt8) :
    Except ReadError (Option PeerInfo × List UInt8) :=
  readPeerInfo env (stream.length + 1) stream

end Bdt
