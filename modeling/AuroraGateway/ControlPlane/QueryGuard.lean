import AuroraGateway.Foundation.Results
import Mathlib.Tactic.Linarith

/-!
# The guard of analytics queries

Before a range query goes to the provider, its times are filled in and its step
is raised until a series has no more than a thousand points.
-/

namespace AuroraGateway.ControlPlane

open Foundation

structure RangeRequest where
  start : Int64
  stop : Int64
  step : Int64
  deriving DecidableEq

inductive GuardError where
  | endNotAfterStart
  | rangeTooLong
  deriving DecidableEq

namespace RangeRequest

def withDefaults (now : Int64) (req : RangeRequest) : RangeRequest where
  start := if req.start ≤ 0 then now - 3600 else req.start
  stop := if req.stop ≤ 0 then now else req.stop
  step := req.step

variable (req : RangeRequest)

def timeDiff : Int64 := req.stop - req.start

def chosenStep : Int64 :=
  if req.step ≤ 0 then if req.timeDiff / 300 < 15 then 15 else req.timeDiff / 300
  else if req.step < 5 then 5
  else req.step

def guardedStep : Int64 :=
  if 1000 < req.timeDiff / req.chosenStep then req.timeDiff / 1000 else req.chosenStep

/-- What the provider is called with; only `Query` has a longest range. -/
def guarded (longest : Option Int64) (now : Int64) (req : RangeRequest) :
    Except GuardError RangeRequest := do
  let req := req.withDefaults now
  refuseIf (decide (req.stop ≤ req.start)) .endNotAfterStart
  refuseIf (longest.any fun limit => limit < req.timeDiff) .rangeTooLong
  .ok { req with step := req.guardedStep }

def query : Int64 → RangeRequest → Except GuardError RangeRequest := guarded (some (90 * 86400))

def queryRaw : Int64 → RangeRequest → Except GuardError RangeRequest := guarded none

/-! ## Points of a series -/

def seconds : Int := req.stop.toInt - req.start.toInt

def Bounded : Prop :=
  5 ≤ req.step.toInt ∧ req.seconds / req.step.toInt ≤ 1000

theorem five_le_chosenStep : 5 ≤ req.chosenStep.toInt := by
  unfold chosenStep
  split_ifs with hstep hsmall hsmall
  · decide
  · exact Int.le_trans (by decide) (Int64.le_iff_toInt_le.mp (Int64.not_lt.mp hsmall))
  · decide
  · exact Int64.le_iff_toInt_le.mp (Int64.not_lt.mp hsmall)

theorem toInt_div {a b : Int64} (hb : 0 < b.toInt) : (a / b).toInt = a.toInt.tdiv b.toInt := by
  refine Int64.toInt_div_of_ne_right a b ?_
  rintro rfl
  exact absurd hb (by decide)

theorem toInt_div_of_nonneg {a b : Int64} (ha : 0 ≤ a.toInt) (hb : 0 < b.toInt) :
    (a / b).toInt = a.toInt / b.toInt := by
  rw [toInt_div hb, Int.tdiv_eq_ediv_of_nonneg ha]

theorem toInt_div_nonpos {a b : Int64} (ha : a.toInt < 0) (hb : 0 < b.toInt) :
    (a / b).toInt ≤ 0 := by
  have hnonneg := Int.tdiv_nonneg (Int.neg_nonneg_of_nonpos ha.le) hb.le
  rw [Int.neg_tdiv] at hnonneg
  rw [toInt_div hb]
  omega

variable {req : RangeRequest}

theorem toInt_timeDiff (h : 0 < req.seconds) :
    req.timeDiff.toInt = if req.seconds < 2 ^ 63 then req.seconds else req.seconds - 2 ^ 64 := by
  have hstop := req.stop.toInt_lt
  have hstart := req.start.le_toInt
  rw [timeDiff, Int64.toInt_sub]
  unfold seconds at h ⊢
  simp only [Int.bmod]
  omega

/-- The quotient of the correction is rounded down, so that it can be too small. -/
theorem guardedStep_bounded_iff (h : 0 < req.seconds) :
    Bounded { req with step := req.guardedStep } ↔
      req.seconds / req.chosenStep.toInt ≤ 1000 ∨
        req.seconds < 2 ^ 63 ∧ req.seconds % 1000 < req.seconds / 1000 := by
  have hfive := req.five_le_chosenStep
  have hdiff := toInt_timeDiff h
  change 5 ≤ req.guardedStep.toInt ∧ req.seconds / req.guardedStep.toInt ≤ 1000 ↔ _
  simp only [guardedStep, Int64.lt_iff_toInt_lt]
  split_ifs at hdiff with hfits
  · rw [toInt_div_of_nonneg (by omega) (by omega), hdiff]
    split_ifs with hmany
    · have hthousand : (req.timeDiff / 1000).toInt = req.seconds / 1000 := by
        rw [toInt_div_of_nonneg (by omega) (by decide), hdiff]
        rfl
      change 1000 < req.seconds / req.chosenStep.toInt at hmany
      have hlong : 1001 * 5 ≤ req.seconds :=
        (Int.mul_le_mul (by omega) hfive (by omega) (by omega)).trans
          (Int.ediv_mul_le _ (by omega))
      have hpoints : req.seconds / (req.seconds / 1000) ≤ 1000 ↔
          req.seconds % 1000 < req.seconds / 1000 := by
        rw [← Int.lt_add_one_iff, Int.ediv_lt_iff_lt_mul (by omega)]
        omega
      rw [hthousand, hpoints]
      omega
    · have hfew : req.seconds / req.chosenStep.toInt ≤ 1000 := not_lt.mp hmany
      simp only [hfive, hfew, true_and, true_or]
  · have hnonpos := toInt_div_nonpos (show req.timeDiff.toInt < 0 by
      have := req.stop.toInt_lt
      have := req.start.le_toInt
      unfold seconds at hdiff
      omega) (show 0 < req.chosenStep.toInt by omega)
    have hfew : ¬(1000 : Int64).toInt < (req.timeDiff / req.chosenStep).toInt :=
      not_lt.mpr (hnonpos.trans (by decide))
    rw [if_neg hfew]
    simp only [hfive, hfits, true_and, false_and, or_false]

end RangeRequest

structure GuardedCall where
  longest : Option Int64
  now : Int64
  request : RangeRequest
  passed : RangeRequest
  guarded : request.guarded longest now = .ok passed

namespace GuardedCall

def filled (c : GuardedCall) : RangeRequest := c.request.withDefaults c.now

theorem bounded_iff (c : GuardedCall) :
    c.passed.Bounded ↔
      c.filled.seconds / c.filled.chosenStep.toInt ≤ 1000 ∨
        c.filled.seconds < 2 ^ 63 ∧ c.filled.seconds % 1000 < c.filled.seconds / 1000 := by
  obtain ⟨hafter, h⟩ := of_refuseIf c.guarded
  obtain ⟨-, h⟩ := of_refuseIf h
  rw [← Except.ok.inj h]
  have hstart := Int64.lt_iff_toInt_lt.mp (Int64.not_le.mp (of_decide_eq_false hafter))
  exact RangeRequest.guardedStep_bounded_iff (sub_pos.mpr hstart)

end GuardedCall

theorem short_step_kept : ∃ passed,
    RangeRequest.query 1700000000 ⟨1699990000, 1699995999, 5⟩ = .ok passed ∧
      passed.step = 5 ∧ passed.seconds / passed.step.toInt = 1199 ∧ ¬passed.Bounded :=
  ⟨⟨1699990000, 1699995999, 5⟩, by decide, rfl, by decide, fun h => absurd h.2 (by decide)⟩

end AuroraGateway.ControlPlane
