import Bdt.Base.SearchTree
import Bdt.Global.PeerInfo

/-!
# Endpoints

A model of `BdtEndpointCompare`. It compares the flags of the protocol and of the IP version, the
bytes of the address that this version has, and the port.
-/

namespace Bdt

open Base

def BDT_ENDPOINT_PROTOCOL_TCP : UInt8 := 2
def BDT_ENDPOINT_PROTOCOL_UDP : UInt8 := 4

/-- `BDT_ENDPOINT_COMPARE_FLAG`: the unknown protocol and IP version are one bit. -/
def BDT_ENDPOINT_COMPARE_FLAG : UInt8 :=
  BDT_ENDPOINT_IP_VERSION_4 ||| BDT_ENDPOINT_IP_VERSION_6 ||| 1 ||| BDT_ENDPOINT_PROTOCOL_TCP |||
    BDT_ENDPOINT_PROTOCOL_UDP

/-- The flags that are compared. -/
def BdtEndpoint.compareFlag (endpoint : BdtEndpoint) : UInt8 :=
  endpoint.flag &&& BDT_ENDPOINT_COMPARE_FLAG

/-- The addresses of two endpoints, of the IP version of the left one. -/
def compareAddress (left right : BdtEndpoint) : Int :=
  if left.compareFlag &&& BDT_ENDPOINT_IP_VERSION_4 ≠ 0 then
    memcmp (left.address.1.take 4) (right.address.1.take 4)
  else memcmp left.address.1 right.address.1

def BdtEndpointCompare (left right : BdtEndpoint) (ignorePort : Bool) : Int :=
  if left.compareFlag < right.compareFlag then -1
  else if left.compareFlag > right.compareFlag then 1
  else if compareAddress left right ≠ 0 then compareAddress left right
  else if ignorePort then compareAddress left right
  else if left.port = right.port then 0
  else if left.port > right.port then 1 else -1

/-- What two endpoints that compare equal have in common. -/
@[ext] structure EndpointKey where
  flag : UInt8
  address : List UInt8
  port : UInt16
  deriving DecidableEq

def BdtEndpoint.key (endpoint : BdtEndpoint) : EndpointKey where
  flag := endpoint.compareFlag
  address :=
    if endpoint.compareFlag &&& BDT_ENDPOINT_IP_VERSION_4 ≠ 0 then endpoint.address.1.take 4
    else endpoint.address.1
  port := endpoint.port

/-- What they have in common when their ports are ignored. -/
def BdtEndpoint.host (endpoint : BdtEndpoint) : UInt8 × List UInt8 :=
  (endpoint.key.flag, endpoint.key.address)

theorem compareAddress_eq_zero {left right : BdtEndpoint}
    (hflag : left.compareFlag = right.compareFlag) :
    compareAddress left right = 0 ↔ left.key.address = right.key.address := by
  unfold compareAddress BdtEndpoint.key
  simp only [← hflag]
  have hlength : left.address.1.length = right.address.1.length :=
    left.address.2.trans right.address.2.symm
  split
  case isTrue => exact memcmp_eq_zero (by rw [List.length_take, List.length_take, hlength])
  case isFalse => exact memcmp_eq_zero hlength

theorem host_comparesBy : ComparesBy (BdtEndpointCompare · · true) BdtEndpoint.host := by
  intro left right
  show BdtEndpointCompare left right true = 0 ↔ _
  unfold BdtEndpointCompare BdtEndpoint.host
  rw [Prod.mk.injEq]
  split
  case isTrue hlt => exact ⟨nofun, fun h => absurd h.1 (UInt8.ne_of_lt hlt)⟩
  case isFalse hle =>
  split
  case isTrue hgt => exact ⟨nofun, fun h => absurd h.1 (UInt8.ne_of_lt hgt).symm⟩
  case isFalse hge =>
  have hflag := UInt8.le_antisymm (UInt8.not_lt.mp hge) (UInt8.not_lt.mp hle)
  rw [if_pos rfl, ite_self, compareAddress_eq_zero hflag]
  exact (and_iff_right hflag).symm

theorem compare_port (left right : BdtEndpoint) :
    BdtEndpointCompare left right false =
      if BdtEndpointCompare left right true ≠ 0 then BdtEndpointCompare left right true
      else if left.port = right.port then 0 else if left.port > right.port then 1 else -1 := by
  unfold BdtEndpointCompare
  by_cases hlt : left.compareFlag < right.compareFlag
  · rw [if_pos hlt, if_pos hlt, if_pos nofun]
  by_cases hgt : left.compareFlag > right.compareFlag
  · rw [if_neg hlt, if_neg hlt, if_pos hgt, if_pos hgt, if_pos nofun]
  · rw [if_neg hlt, if_neg hlt, if_neg hgt, if_neg hgt, if_pos rfl, ite_self,
      if_neg Bool.false_ne_true]

theorem endpoint_comparesBy : ComparesBy (BdtEndpointCompare · · false) BdtEndpoint.key := by
  intro left right
  have hhost : BdtEndpointCompare left right true = 0 ↔ left.host = right.host :=
    host_comparesBy left right
  have hkey : left.key = right.key ↔ left.host = right.host ∧ left.port = right.port := by
    rw [EndpointKey.ext_iff, ← and_assoc, BdtEndpoint.host, BdtEndpoint.host, Prod.mk.injEq]
    rfl
  show BdtEndpointCompare left right false = 0 ↔ _
  rw [hkey, compare_port]
  split
  case isTrue hne => exact ⟨fun h => absurd h hne, fun h => absurd (hhost.mpr h.1) hne⟩
  case isFalse heq =>
  have hsame := hhost.mp (Classical.not_not.mp heq)
  split
  case isTrue hport => exact ⟨fun _ => ⟨hsame, hport⟩, fun _ => rfl⟩
  case isFalse hport =>
    refine ⟨fun h => ?_, fun h => absurd h.2 hport⟩
    split at h <;> cases h

end Bdt
