import Mathlib.Algebra.Group.Int.Defs
import Mathlib.Algebra.GroupWithZero.Nat

/-!
# Fixed-width integers

Unsigned machine integers are natural numbers below `2 ^ w`.  Arithmetic that
can leave this range is written with the conversions below: release builds wrap,
casts between integers truncate, and casts from floats saturate.
-/

namespace AuroraGateway.Foundation

def u32Max : Nat := 2 ^ 32 - 1

def u64Max : Nat := 2 ^ 64 - 1

/-- Wrapping 32-bit arithmetic, and `as u32` on an unsigned integer. -/
def wrapU32 (n : Nat) : Nat := n % 2 ^ 32

def wrapU64 (n : Nat) : Nat := n % 2 ^ 64

/-- `as u32` on a signed integer. -/
def truncU32 (z : Int) : Nat := (z % 2 ^ 32).toNat

def truncU64 (z : Int) : Nat := (z % 2 ^ 64).toNat

/-- `as u32` on the integral part of a float. -/
def satU32 (z : Int) : Nat := min z.toNat u32Max

def satU64 (z : Int) : Nat := min z.toNat u64Max

def nextPowerOfTwo (n : Nat) : Nat := if n ≤ 1 then 1 else 2 ^ ((n - 1).log2 + 1)

theorem wrapU64_of_lt {n : Nat} (h : n < 2 ^ 64) : wrapU64 n = n :=
  Nat.mod_eq_of_lt h

theorem wrapU32_of_lt {n : Nat} (h : n < 2 ^ 32) : wrapU32 n = n :=
  Nat.mod_eq_of_lt h

end AuroraGateway.Foundation
