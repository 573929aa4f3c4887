import Mathlib.Tactic.Common

/-!
# Session-data packages

The command flags and the fields of `Bdt_SessionDataPackage`, as `Package.h` declares them. A field
that C holds behind a pointer is an `Option`; the sack array, which C ends with a range of length
zero, is the list of the ranges before that one. Command flags are 16-bit words, tested and changed
bit by bit through `hasFlag`, `setFlag` and `clearFlag`.
-/

namespace Bdt

/-- The 16-bit `cmdflags` word of a package. -/
abbrev CmdFlags := BitVec 16

namespace CmdFlags

/-- `cmdflags & (1 << bit)`. -/
def hasFlag (flags : CmdFlags) (bit : Nat) : Bool :=
  flags.getLsbD bit

/-- `cmdflags | (1 << bit)`. -/
def setFlag (flags : CmdFlags) (bit : Nat) : CmdFlags :=
  flags ||| BitVec.twoPow 16 bit

@[simp] theorem hasFlag_setFlag (flags : CmdFlags) (bit other : Nat) :
    (flags.setFlag bit).hasFlag other =
      (flags.hasFlag other || (decide (other < 16) && decide (bit = other))) := by
  simp [hasFlag, setFlag]
  grind

@[simp] theorem hasFlag_zero (bit : Nat) : hasFlag 0#16 bit = false := by
  simp [hasFlag]

end CmdFlags

/-- `BDT_SESSION_DATA_PACKAGE`. -/
def BDT_SESSION_DATA_PACKAGE : Nat := 0x40

/-! ## `BDT_SESSIONDATA_PACKAGE_FLAG_*`, by bit number -/

namespace SessionDataFlag

def PACKAGEID : Nat := 0
def ACK_PACKAGEID : Nat := 1
def SYN : Nat := 2
def ACK : Nat := 3
def SACK : Nat := 4
def SPEEDLIMIT : Nat := 5
def SENDTIME : Nat := 6
def PAYLOAD : Nat := 7
def FIN : Nat := 10
def FINACK : Nat := 11
def RESET : Nat := 12

end SessionDataFlag

/-- `PACKAGE_SESSIONDATA_SACK_RANGE_MAX_COUNT`. -/
def PACKAGE_SESSIONDATA_SACK_RANGE_MAX_COUNT : Nat := 10

/-- `BdtStreamRange`: `length` bytes of a stream from position `pos`. -/
structure BdtStreamRange where
  pos : Nat
  length : Nat
  deriving DecidableEq, Repr

/-- `Bdt_SessionDataSynPart`. -/
structure Bdt_SessionDataSynPart where
  synSeq : Nat
  synControl : Nat
  ccType : Nat
  toVPort : Nat
  fromSessionId : Nat
  deriving DecidableEq, Repr

/-- `Bdt_SessionDataPackageIdPart`. -/
structure Bdt_SessionDataPackageIdPart where
  packageId : Nat
  totalRecv : Nat
  deriving DecidableEq, Repr

/-- `Bdt_SessionDataPackage`. The default values are those of a zeroed structure. -/
structure Bdt_SessionDataPackage where
  cmdtype : Nat := BDT_SESSION_DATA_PACKAGE
  cmdflags : CmdFlags := 0#16
  sessionId : Nat := 0
  streamPos : Nat := 0
  ackStreamPos : Nat := 0
  toSessionId : Nat := 0
  sackArray : Option (List BdtStreamRange) := none
  recvSpeedlimit : Nat := 0
  sendTime : Nat := 0
  payload : Option (List UInt8) := none
  synPart : Option Bdt_SessionDataSynPart := none
  packageIDPart : Option Bdt_SessionDataPackageIdPart := none
  deriving DecidableEq, Repr

namespace Bdt_SessionDataPackage

/-- The bytes of the payload, none when the pointer is null. -/
def payloadBytes (package : Bdt_SessionDataPackage) : List UInt8 :=
  package.payload.getD []

/-- `payloadLength`. -/
def payloadLength (package : Bdt_SessionDataPackage) : Nat :=
  package.payloadBytes.length

/-- `cmdflags & (1 << bit)`. -/
def hasFlag (package : Bdt_SessionDataPackage) (bit : Nat) : Bool :=
  package.cmdflags.hasFlag bit

end Bdt_SessionDataPackage

end Bdt
