import AuroraGateway.RateLimit.Algorithm
import Mathlib.Tactic.Linarith
import Mathlib.Tactic.Ring

/-!
# Leaky and token buckets

In exact arithmetic the two bucket algorithms are one: the water of a leaky
bucket is what a token bucket of the same capacity lacks.
-/

namespace AuroraGateway.RateLimit

open Foundation
open Flonum

inductive Mirror (rule : CompiledRule) : AlgorithmState ℚ → AlgorithmState ℚ → Prop where
  | intro {waterLevel tokens : ℚ} {lastMs : Nat}
      (hlevel : waterLevel = rule.burst - tokens) :
      Mirror rule (.leakyBucket waterLevel lastMs) (.tokenBucket tokens lastMs)

theorem mirror_init (rule : CompiledRule) (nowSecs nowMs : Nat) :
    Mirror rule (.init .leakyBucket rule nowSecs nowMs)
      (.init .tokenBucket rule nowSecs nowMs) := by
  refine .intro ?_
  change ((0 : ℕ) : ℚ) = (rule.burst : ℚ) - (rule.burst : ℚ)
  simp

theorem mirror_clamp (capacity tokens refill : ℚ) :
    Max.max (capacity - tokens - refill) 0 =
      capacity - Min.min (tokens + refill) capacity := by
  rcases le_total (tokens + refill) capacity with h | h
  · rw [min_eq_left h, max_eq_left (by linarith)]
    ring
  · rw [min_eq_right h, max_eq_right (by linarith)]
    ring

theorem mirror_advance {rule : CompiledRule} {leaky token : AlgorithmState ℚ}
    (h : Mirror rule leaky token) (nowSecs nowMs : Nat) :
    (leaky.advance rule nowSecs nowMs).2 = (token.advance rule nowSecs nowMs).2 ∧
      Mirror rule (leaky.advance rule nowSecs nowMs).1
        (token.advance rule nowSecs nowMs).1 := by
  obtain @⟨waterLevel, tokens, lastMs, rfl⟩ := h
  simp only [AlgorithmState.advance, AlgorithmState.advanceLeakyBucket,
    AlgorithmState.advanceTokenBucket, min_rat, max_rat, ofNat_rat,
    Nat.cast_zero, Nat.cast_one, mirror_clamp]
  generalize Min.min (tokens + ((nowMs - lastMs : ℕ) : ℚ) / ((1000 : ℕ) : ℚ) *
    ((rule.rate : ℚ) / (rule.periodSecs : ℚ))) (rule.burst : ℚ) = level
  have hguard : (rule.burst : ℚ) - level + 1 ≤ rule.burst ↔ 1 ≤ level := by
    constructor <;> intro h <;> linarith
  have hremaining : (rule.burst : ℚ) - (rule.burst - level + 1) = level - 1 := by ring
  have hmissing : (rule.burst : ℚ) - (level - 1) = rule.burst - level + 1 := by ring
  have hwait : (rule.burst : ℚ) - level + 1 - rule.burst = 1 - level := by ring
  by_cases hlevel : 1 ≤ level
  · rw [if_pos (hguard.mpr hlevel), if_pos hlevel, hremaining, hmissing]
    exact ⟨rfl, .intro hmissing.symm⟩
  · rw [if_neg (mt hguard.mp hlevel), if_neg hlevel, hwait]
    exact ⟨rfl, .intro rfl⟩

theorem mirror_advanceAll {rule : CompiledRule} {leaky token : AlgorithmState ℚ}
    (h : Mirror rule leaky token) (times : List (Nat × Nat)) :
    (leaky.advanceAll rule times).2 = (token.advanceAll rule times).2 ∧
      Mirror rule (leaky.advanceAll rule times).1 (token.advanceAll rule times).1 := by
  induction times generalizing leaky token with
  | nil => exact ⟨rfl, h⟩
  | cons time times ih =>
    obtain ⟨nowSecs, nowMs⟩ := time
    obtain ⟨hdecision, hnext⟩ := mirror_advance h nowSecs nowMs
    obtain ⟨hdecisions, hlast⟩ := ih hnext
    exact ⟨congrArg₂ List.cons hdecision hdecisions, hlast⟩

/--
Created at the same instant and called at the same instants, a leaky bucket and
a token bucket decide alike, and the water level stays the capacity less the
tokens.
-/
theorem leakyBucket_bisimilar_tokenBucket (rule : CompiledRule)
    (initSecs initMs : Nat) (times : List (Nat × Nat)) :
    ((AlgorithmState.init .leakyBucket rule initSecs initMs :
          AlgorithmState ℚ).advanceAll rule times).2 =
        ((AlgorithmState.init .tokenBucket rule initSecs initMs :
          AlgorithmState ℚ).advanceAll rule times).2 ∧
      Mirror rule
        ((AlgorithmState.init .leakyBucket rule initSecs initMs).advanceAll rule times).1
        ((AlgorithmState.init .tokenBucket rule initSecs initMs).advanceAll rule times).1 :=
  mirror_advanceAll (mirror_init rule initSecs initMs) times

end AuroraGateway.RateLimit
