import Mathlib.Algebra.Order.Ring.Int

/-!
# The configuration of a package connection

The fields of `BdtPackageConnectionConfig` that the connection computes with. The lengths of the
timers only say when a timer fires, and the model lets it fire at any time; the two buffer limits
size a cache that no operation uses. The bounds are those that the 16-bit and 32-bit variables the
fields are copied into rely on.
-/

namespace Bdt

/-- `BdtPackageConnectionConfig`. -/
structure BdtPackageConnectionConfig where
  mtu : Nat
  mss : Nat
  halfOpen : Bool
  mtu_pos : 0 < mtu
  mtu_lt : mtu < 2 ^ 16
  mtu_le : mtu ≤ 2 * mss
  mss_lt : 2 * mss < 2 ^ 32

/-- The configuration that `Stack.c` gives every connection. -/
def pkgConConfig : BdtPackageConnectionConfig where
  mtu := 1308
  mss := 1308
  halfOpen := true
  mtu_pos := by decide
  mtu_lt := by decide
  mtu_le := by decide
  mss_lt := by decide

end Bdt
