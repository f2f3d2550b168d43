import AuroraGateway.Foundation.AsciiText
import AuroraGateway.ResourceLimit.Snapshot
import Mathlib.Data.UInt

/-!
# The three comparisons of the limits

The comparison for SSE 4.2 is signed and holds no limit above the greatest signed number.
The one for NEON shifts the lane of the payload too little, so that a payload that is too
large sets the bit of the header as well.
-/

namespace AuroraGateway.ResourceLimit

open Engine Foundation

structure LimitedRule where
  input : ResourceLimitRuleInput
  compiled : CompiledResourceRule
  compiles : compileRule input = .ok compiled

namespace LimitedRule

variable (rule : LimitedRule) (header payload : UInt64)

abbrev HeaderOver : Prop := Exceeds rule.input.headerLimit header.toNat

abbrev PayloadOver : Prop := Exceeds rule.input.payloadLimit payload.toNat

def mask (comparator : Comparator) : Fin 4 :=
  rule.compiled.checkLimitsSimd comparator header.toNat payload.toNat

/-- Bit 0 is the header and bit 1 the payload. -/
def Exact (comparator : Comparator) : Prop :=
  ((rule.mask header payload comparator).val.testBit 0 = true ↔ rule.HeaderOver header) ∧
    ((rule.mask header payload comparator).val.testBit 1 = true ↔ rule.PayloadOver payload)

theorem mask_sse42 :
    rule.mask header payload .sse42 =
      (if rule.PayloadOver payload ∧ rule.input.payloadLimit.toNat < i64Max then 2 else 0) +
        (if rule.HeaderOver header ∧ rule.input.headerLimit.toNat < i64Max then 1 else 0) := by
  have hcompiles := compiles_of_ok rule.compiles
  simp only [mask, CompiledResourceRule.checkLimitsSimd, hcompiles.effectiveHeaderLimit,
    hcompiles.effectivePayloadLimit, effectiveLimit_lt_iff, HeaderOver, PayloadOver]

theorem mask_neon :
    rule.mask header payload .neon =
      (if rule.PayloadOver payload then 3 else 0) |||
        (if rule.HeaderOver header then 1 else 0) := by
  have hcompiles := compiles_of_ok rule.compiles
  simp only [mask, CompiledResourceRule.checkLimitsSimd, hcompiles.rawHeaderLimit,
    hcompiles.rawPayloadLimit, rawLimit_lt_iff _ (UInt64.toNat_lt _), HeaderOver, PayloadOver]

theorem mask_portable :
    rule.mask header payload .portable =
      (if rule.PayloadOver payload then 2 else 0) +
        (if rule.HeaderOver header then 1 else 0) := by
  have hcompiles := compiles_of_ok rule.compiles
  simp only [mask, CompiledResourceRule.checkLimitsSimd, hcompiles.rawHeaderLimit,
    hcompiles.rawPayloadLimit, rawLimit_lt_iff _ (UInt64.toNat_lt _), HeaderOver, PayloadOver]

theorem exact_sse42_iff :
    rule.Exact header payload .sse42 ↔
      (rule.input.headerLimit.toNat < i64Max ∨ ¬rule.HeaderOver header) ∧
        (rule.input.payloadLimit.toNat < i64Max ∨ ¬rule.PayloadOver payload) := by
  rw [Exact, mask_sse42]
  by_cases hheader : rule.HeaderOver header <;> by_cases hpayload : rule.PayloadOver payload <;>
    by_cases hlow : rule.input.headerLimit.toNat < i64Max <;>
    by_cases hlow' : rule.input.payloadLimit.toNat < i64Max <;>
    simp only [hheader, hpayload, hlow, hlow', and_self, and_true, and_false, if_true, if_false] <;>
    decide

theorem exact_neon_iff :
    rule.Exact header payload .neon ↔ rule.HeaderOver header ∨ ¬rule.PayloadOver payload := by
  rw [Exact, mask_neon]
  by_cases hheader : rule.HeaderOver header <;> by_cases hpayload : rule.PayloadOver payload <;>
    simp only [hheader, hpayload, if_true, if_false] <;> decide

theorem exact_portable : rule.Exact header payload .portable := by
  rw [Exact, mask_portable]
  by_cases hheader : rule.HeaderOver header <;> by_cases hpayload : rule.PayloadOver payload <;>
    simp only [hheader, hpayload, if_true, if_false] <;> decide

/-- The comparisons say which limits are exceeded, and so agree, exactly if the payload is not
too large alone and a limit that is exceeded is one that a signed number can exceed. -/
theorem comparators_exact_iff :
    (∀ comparator : Comparator, rule.Exact header payload comparator) ↔
      (rule.HeaderOver header ∨ ¬rule.PayloadOver payload) ∧
        (rule.input.headerLimit.toNat < i64Max ∨ ¬rule.HeaderOver header) ∧
        (rule.input.payloadLimit.toNat < i64Max ∨ ¬rule.PayloadOver payload) := by
  rw [← exact_neon_iff, ← exact_sse42_iff]
  constructor
  · intro h
    exact ⟨h .neon, h .sse42⟩
  · rintro ⟨hneon, hsse⟩ comparator
    cases comparator with
    | sse42 => exact hsse
    | neon => exact hneon
    | portable => exact rule.exact_portable header payload

end LimitedRule

/-! ## Two requests -/

def limitedTo (headerLimit payloadLimit : UInt64) : ResourceLimitRuleInput where
  id := .ofAscii "upload"
  priority := 100
  origin := wildcardText
  pathPrefix := rootText
  headerLimit := headerLimit
  payloadLimit := payloadLimit
  rejectedCodeHeader := 431
  rejectedCodePayload := 413
  responseBodyHeader := .ofAscii ""
  responseBodyPayload := .ofAscii ""

def uploadLimit : LimitedRule := ⟨limitedTo 1000 1000, _, rfl⟩

def statuses (rule : ResourceLimitRuleInput) (header payload : Nat) : List (Option Nat) :=
  [.sse42, .neon, .portable].map fun comparator =>
    (compileRule rule).toOption.map fun compiled =>
      (ResourceLimiter.evaluate ⟨1, [compiled], comparator⟩
        ⟨ascii "example.com", ascii "/", header, payload⟩).statusCode

/-- A payload of 2000 bytes with 100 bytes of headers, and headers above a limit of `2 ^ 63`. -/
theorem comparators_differ :
    statuses (limitedTo 1000 1000) 100 2000 = [some 413, some 431, some 413] ∧
      statuses (limitedTo (2 ^ 63) 1000) (2 ^ 63 + 1) 100 =
        [some 200, some 431, some 431] := by
  decide +kernel

end AuroraGateway.ResourceLimit
