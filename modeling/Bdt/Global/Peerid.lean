import Bdt.Base.Reader

/-!
# Peerids

A model of `Peerid.imp.inl`: the constant part of a peer info, and the peerid that it has.
-/

namespace Bdt

def BDT_PEERID_LENGTH : Nat := 32
def BDT_MAX_DEVICE_ID_LENGTH : Nat := 128
/-- The size of `publicKey`: that of its longest member. -/
def BDT_PEER_PUBLIC_KEY_LENTGH_RSA3072 : Nat := 422

abbrev Peerid : Type :=
  Bytes BDT_PEERID_LENGTH

structure PeerArea where
  continent : UInt8
  country : UInt8
  carrier : UInt8
  city : UInt16
  inner : UInt8
  deriving DecidableEq

structure PeerConstInfo where
  areaCode : PeerArea
  deviceId : Bytes BDT_MAX_DEVICE_ID_LENGTH
  publicKeyType : UInt8
  publicKey : Bytes BDT_PEER_PUBLIC_KEY_LENTGH_RSA3072
  deriving DecidableEq

/-- `BdtGetPublicKeyLength`, and `none` beyond `s_bdtKeyLengthMap`. -/
def publicKeyLength (publicKeyType : UInt8) : Option Nat :=
  [162, 294, 422][publicKeyType.toNat]?

/-- The bytes of the key in the union. -/
def PeerConstInfo.key (constInfo : PeerConstInfo) : List UInt8 :=
  constInfo.publicKey.1.take ((publicKeyLength constInfo.publicKeyType).getD 0)

/-- `_encode`, the first five bytes. -/
def PeerArea.encode (areaCode : PeerArea) : List UInt8 :=
  [areaCode.continent <<< 2 ||| areaCode.country >>> 6,
    areaCode.country <<< 2 ||| areaCode.carrier >>> 2,
    areaCode.carrier <<< 6 ||| (areaCode.city >>> 8).toUInt8,
    areaCode.city.toUInt8,
    areaCode.inner]

/-- `BdtGetPeeridFromConstInfo`. -/
def peeridFromConstInfo (sha256Hash : List UInt8 → Bytes 32) (constInfo : PeerConstInfo) : Peerid :=
  ⟨constInfo.areaCode.encode ++ (sha256Hash constInfo.key).1.take 27, by
    rw [List.length_append, List.length_take, (sha256Hash constInfo.key).2]
    rfl⟩

end Bdt
