import Mathlib.Data.List.Basic

/-!
# Masks that are gathered from a list
-/

namespace AuroraGateway.Foundation

theorem foldl_and_ne_zero {α : Type*} {width : Nat} (f : α → BitVec width) (l : List α)
    (mask bit : BitVec width) :
    l.foldl (fun mask a => mask ||| f a) mask &&& bit ≠ 0 ↔
      mask &&& bit ≠ 0 ∨ ∃ a ∈ l, f a &&& bit ≠ 0 := by
  induction l generalizing mask with
  | nil => simp
  | cons a l ih =>
    have hor : ∀ x y : BitVec width, x ||| y ≠ 0 ↔ x ≠ 0 ∨ y ≠ 0 := fun x y =>
      (not_congr BitVec.or_eq_zero_iff).trans not_and_or
    rw [List.foldl_cons, ih, BitVec.and_comm (mask ||| f a), BitVec.and_or_distrib_left, hor,
      BitVec.and_comm bit mask, BitVec.and_comm bit (f a), or_assoc]
    simp only [List.mem_cons, exists_eq_or_imp]

end AuroraGateway.Foundation
