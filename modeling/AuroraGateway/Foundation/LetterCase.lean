import AuroraGateway.Foundation.Bytes
import Mathlib.Tactic.SplitIfs

/-!
# Letters of either case
-/

namespace AuroraGateway.Foundation

variable {left right : Bytes} {byte : UInt8}

def isLetter (byte : UInt8) : Bool := isAsciiUppercase byte || isAsciiLowercase byte

theorem isAsciiUppercase_iff :
    isAsciiUppercase byte = true ↔ 65 ≤ byte.toNat ∧ byte.toNat ≤ 90 := by
  simp [isAsciiUppercase, UInt8.le_iff_toNat_le]

theorem isAsciiLowercase_iff :
    isAsciiLowercase byte = true ↔ 97 ≤ byte.toNat ∧ byte.toNat ≤ 122 := by
  simp [isAsciiLowercase, UInt8.le_iff_toNat_le]

theorem lower_of_upper (h : isAsciiUppercase byte = true) :
    isAsciiLowercase (byte + 32) = true := by
  rw [isAsciiUppercase_iff] at h
  rw [isAsciiLowercase_iff]
  simp
  omega

theorem toAsciiLowercase_of_not_upper (h : ∀ byte ∈ left, isAsciiUppercase byte = false) :
    toAsciiLowercase left = left := by
  refine (List.map_congr_left fun byte hbyte => ?_).trans (List.map_id _)
  rw [h byte hbyte]
  rfl

theorem not_upper_of_mem_lower (h : byte ∈ toAsciiLowercase left) :
    isAsciiUppercase byte = false := by
  obtain ⟨byte, -, rfl⟩ := List.mem_map.mp h
  split_ifs with hupper
  · have hlower := lower_of_upper hupper
    rw [isAsciiLowercase_iff] at hlower
    rw [← Bool.not_eq_true, isAsciiUppercase_iff]
    omega
  · simpa using hupper

theorem toAsciiLowercase_idem (left : Bytes) :
    toAsciiLowercase (toAsciiLowercase left) = toAsciiLowercase left :=
  toAsciiLowercase_of_not_upper fun _ => not_upper_of_mem_lower

theorem eqIgnoreAsciiCase_lower (left right : Bytes) :
    eqIgnoreAsciiCase left (toAsciiLowercase right) = eqIgnoreAsciiCase left right := by
  rw [eqIgnoreAsciiCase, toAsciiLowercase_idem, eqIgnoreAsciiCase]

theorem eq_of_eqIgnoreAsciiCase (hright : ∀ byte ∈ right, isLetter byte = false)
    (h : eqIgnoreAsciiCase left right = true) : left = right := by
  have hlower : toAsciiLowercase right = right :=
    toAsciiLowercase_of_not_upper fun byte hbyte => (Bool.or_eq_false_iff.mp (hright byte hbyte)).1
  have heq : toAsciiLowercase left = right := (eq_of_beq h).trans hlower
  refine (toAsciiLowercase_of_not_upper fun byte hbyte => ?_).symm.trans heq
  by_contra hupper
  rw [Bool.not_eq_false] at hupper
  have hmem : byte + 32 ∈ right :=
    heq ▸ List.mem_map.mpr ⟨byte, hbyte, by rw [if_pos hupper]⟩
  have hletter := hright _ hmem
  have hlowercase := lower_of_upper hupper
  rw [isLetter, Bool.or_eq_false_iff] at hletter
  simp [hletter.2] at hlowercase

def toAsciiUppercase (bytes : Bytes) : Bytes :=
  bytes.map fun byte => if isAsciiLowercase byte then byte - 32 else byte

theorem toNat_sub_of_lower {byte : UInt8} (h : isAsciiLowercase byte = true) :
    (byte - 32).toNat = byte.toNat - 32 := by
  rw [isAsciiLowercase_iff] at h
  exact UInt8.toNat_sub_of_le _ _ (by rw [UInt8.le_iff_toNat_le]; simp; omega)

theorem not_lower_of_mem_upper {text : Bytes} {byte : UInt8} (h : byte ∈ toAsciiUppercase text) :
    isAsciiLowercase byte = false := by
  obtain ⟨byte, -, rfl⟩ := List.mem_map.mp h
  split_ifs with hlower
  · rw [← Bool.not_eq_true, isAsciiLowercase_iff, toNat_sub_of_lower hlower]
    rw [isAsciiLowercase_iff] at hlower
    omega
  · simpa using hlower

theorem eqIgnoreAsciiCase_upper (text : Bytes) :
    eqIgnoreAsciiCase (toAsciiUppercase text) text = true := by
  simp only [eqIgnoreAsciiCase, toAsciiUppercase, toAsciiLowercase, List.map_map, beq_iff_eq]
  refine List.map_congr_left fun byte _ => ?_
  rw [Function.comp_apply]
  by_cases hlower : isAsciiLowercase byte = true
  · have hupper : isAsciiUppercase (byte - 32) = true := by
      rw [isAsciiUppercase_iff, toNat_sub_of_lower hlower]
      rw [isAsciiLowercase_iff] at hlower
      omega
    have hnot : ¬ isAsciiUppercase byte = true := by
      rw [isAsciiUppercase_iff]
      rw [isAsciiLowercase_iff] at hlower
      omega
    rw [if_pos hlower, if_pos hupper, if_neg hnot, UInt8.sub_add_cancel]
  · rw [if_neg hlower]

end AuroraGateway.Foundation
