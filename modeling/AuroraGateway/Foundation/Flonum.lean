import Mathlib.Data.Rat.Floor

/-!
# Arithmetic of floating point quantities

Programs that compute with 64-bit floats are modelled over an arbitrary type
with the operations they use.  Exact rational arithmetic is one instance.
-/

namespace AuroraGateway.Foundation

/-- The operations on `f64` and on script numbers that the models use. -/
class Flonum (F : Type) extends Add F, Sub F, Mul F, Div F, LE F where
  /-- Conversion of an unsigned integer. -/
  ofNat : Nat → F
  decLE : DecidableRel fun a b : F => a ≤ b
  floor : F → F
  ceil : F → F
  trunc : F → Int

namespace Flonum

variable {F : Type} [Flonum F]

instance instDecidableLE (a b : F) : Decidable (a ≤ b) := Flonum.decLE a b

def min (a b : F) : F := if a ≤ b then a else b

def max (a b : F) : F := if a ≤ b then b else a

instance instRat : Flonum ℚ where
  ofNat n := n
  decLE := fun a b => inferInstanceAs (Decidable (a ≤ b))
  floor x := (⌊x⌋ : ℤ)
  ceil x := (⌈x⌉ : ℤ)
  trunc x := if 0 ≤ x then ⌊x⌋ else ⌈x⌉

theorem ofNat_rat (n : Nat) : (ofNat n : ℚ) = n := rfl

theorem min_rat (a b : ℚ) : Flonum.min a b = Min.min a b := by
  rw [Flonum.min, min_def]

theorem max_rat (a b : ℚ) : Flonum.max a b = Max.max a b := by
  rw [Flonum.max, max_def]

end Flonum

end AuroraGateway.Foundation
