import AuroraGateway.Foundation.Flonum
import AuroraGateway.RateLimit.Types

/-!
# The rate limiting algorithms

One counter of the limiter and the four ways to advance it.  Bucket levels and
the weighted window count are floats, over an arbitrary arithmetic `F`.
-/

namespace AuroraGateway.RateLimit

open Engine Foundation
open Flonum

variable {F : Type}

inductive AlgorithmState (F : Type) where
  | tokenBucket (tokens : F) (lastRefillMs : Nat)
  | leakyBucket (waterLevel : F) (lastLeakMs : Nat)
  | fixedWindow (windowId count : Nat)
  | slidingWindow (windowId currentCount previousCount : Nat)
  deriving DecidableEq

def buildExceededDecision (rule : CompiledRule) (retryAfter resetEpoch : Nat) :
    RateLimitDecision :=
  let (allowed, action, statusCode) :=
    match rule.actionOnExceeded with
    | .audit => (true, ActionOnExceeded.audit, 200)
    | .block => (false, .block, rule.rejectedCode)
    | .throttle => (false, .throttle, rule.rejectedCode)
    | .customResponse => (false, .customResponse, rule.rejectedCode)
  { allowed := allowed
    action := action
    statusCode := statusCode
    retryAfterSecs := retryAfter
    remaining := 0
    resetEpochSecs := resetEpoch
    customReason := none
    headers := []
    body := none }

theorem buildExceededDecision_withinQuota (rule : CompiledRule)
    (retryAfter resetEpoch : Nat) :
    (buildExceededDecision rule retryAfter resetEpoch).withinQuota = false := by
  cases h : rule.actionOnExceeded <;>
    simp [buildExceededDecision, RateLimitDecision.withinQuota, h]

theorem allow_withinQuota (remaining resetEpoch : Nat) :
    (RateLimitDecision.allow remaining resetEpoch).withinQuota = true := rfl

theorem allow_resetEpochSecs (remaining resetEpoch : Nat) :
    (RateLimitDecision.allow remaining resetEpoch).resetEpochSecs = resetEpoch := rfl

namespace AlgorithmState

variable [Flonum F]

def init (algorithm : RateLimitAlgorithm) (rule : CompiledRule)
    (nowSecs nowMs : Nat) : AlgorithmState F :=
  match algorithm with
  | .tokenBucket => .tokenBucket (ofNat rule.burst) nowMs
  | .leakyBucket => .leakyBucket (ofNat 0) nowMs
  | .fixedWindow => .fixedWindow (nowSecs / rule.periodSecs) 0
  | .slidingWindow => .slidingWindow (nowSecs / rule.periodSecs) 0 0

def advanceTokenBucket (tokens : F) (lastRefillMs : Nat) (rule : CompiledRule)
    (nowSecs nowMs : Nat) : AlgorithmState F × RateLimitDecision :=
  let capacity : F := ofNat rule.burst
  let refillRate : F := ofNat rule.rate / ofNat rule.periodSecs
  let elapsedSecs : F := ofNat (nowMs - lastRefillMs) / ofNat 1000
  let tokens := Flonum.min (tokens + elapsedSecs * refillRate) capacity
  if ofNat 1 ≤ tokens then
    let tokens := tokens - ofNat 1
    let remaining := satU32 (trunc (floor tokens))
    let resetEpoch :=
      wrapU64 (nowSecs + satU64 (trunc (ceil ((capacity - tokens) / refillRate))))
    (.tokenBucket tokens nowMs, .allow remaining resetEpoch)
  else
    let retryAfter :=
      satU32 (trunc (Flonum.max (ceil ((ofNat 1 - tokens) / refillRate)) (ofNat 1)))
    (.tokenBucket tokens nowMs,
      buildExceededDecision rule retryAfter (wrapU64 (nowSecs + retryAfter)))

def advanceLeakyBucket (waterLevel : F) (lastLeakMs : Nat) (rule : CompiledRule)
    (nowSecs nowMs : Nat) : AlgorithmState F × RateLimitDecision :=
  let capacity : F := ofNat rule.burst
  let leakRate : F := ofNat rule.rate / ofNat rule.periodSecs
  let elapsedSecs : F := ofNat (nowMs - lastLeakMs) / ofNat 1000
  let waterLevel := Flonum.max (waterLevel - elapsedSecs * leakRate) (ofNat 0)
  if waterLevel + ofNat 1 ≤ capacity then
    let waterLevel := waterLevel + ofNat 1
    let remaining := satU32 (trunc (floor (capacity - waterLevel)))
    let resetEpoch := wrapU64 (nowSecs + satU64 (trunc (ceil (waterLevel / leakRate))))
    (.leakyBucket waterLevel nowMs, .allow remaining resetEpoch)
  else
    let retryAfter :=
      satU32 (trunc (Flonum.max
        (ceil ((waterLevel + ofNat 1 - capacity) / leakRate)) (ofNat 1)))
    (.leakyBucket waterLevel nowMs,
      buildExceededDecision rule retryAfter (wrapU64 (nowSecs + retryAfter)))

def advanceFixedWindow (windowId count : Nat) (rule : CompiledRule) (nowSecs : Nat) :
    AlgorithmState F × RateLimitDecision :=
  let currentWindow := nowSecs / rule.periodSecs
  let (windowId, count) :=
    if windowId ≠ currentWindow then (currentWindow, 0) else (windowId, count)
  let resetEpoch := wrapU64 ((windowId + 1) * rule.periodSecs)
  if count < rule.rate then
    let count := count + 1
    let remaining := wrapU32 (rule.rate - count)
    (.fixedWindow windowId count, .allow remaining resetEpoch)
  else
    let retryAfter := wrapU32 (max (resetEpoch - nowSecs) 1)
    (.fixedWindow windowId count, buildExceededDecision rule retryAfter resetEpoch)

def carriedCount (windowId count currentWindow : Nat) : Nat :=
  if windowId = currentWindow then count else 0

omit [Flonum F] in
theorem advanceFixedWindow_eq (windowId count : Nat) (rule : CompiledRule)
    (nowSecs : Nat) :
    (advanceFixedWindow windowId count rule nowSecs :
        AlgorithmState F × RateLimitDecision) =
      let carried := carriedCount windowId count (nowSecs / rule.periodSecs)
      let resetEpoch := wrapU64 ((nowSecs / rule.periodSecs + 1) * rule.periodSecs)
      if carried < rule.rate then
        (.fixedWindow (nowSecs / rule.periodSecs) (carried + 1),
          .allow (wrapU32 (rule.rate - (carried + 1))) resetEpoch)
      else
        (.fixedWindow (nowSecs / rule.periodSecs) carried,
          buildExceededDecision rule (wrapU32 (max (resetEpoch - nowSecs) 1))
            resetEpoch) := by
  by_cases hwindow : windowId = nowSecs / rule.periodSecs
  · simp [advanceFixedWindow, carriedCount, hwindow]
  · simp [advanceFixedWindow, carriedCount, hwindow]

def advanceSlidingWindow (windowId currentCount previousCount : Nat)
    (rule : CompiledRule) (nowSecs : Nat) : AlgorithmState F × RateLimitDecision :=
  let currentWindow := nowSecs / rule.periodSecs
  let (windowId, currentCount, previousCount) :=
    if windowId ≠ currentWindow then
      (currentWindow, 0,
        if currentWindow = wrapU64 (windowId + 1) then currentCount else 0)
    else (windowId, currentCount, previousCount)
  let timeIntoWindow : F := ofNat (nowSecs % rule.periodSecs)
  let weight := ofNat 1 - timeIntoWindow / ofNat rule.periodSecs
  let estimatedCount := ofNat previousCount * weight + ofNat currentCount
  let resetEpoch := wrapU64 ((windowId + 1) * rule.periodSecs)
  if estimatedCount + ofNat 1 ≤ ofNat rule.rate then
    let remaining :=
      satU32 (trunc (Flonum.max (ofNat rule.rate - estimatedCount - ofNat 1) (ofNat 0)))
    (.slidingWindow windowId (wrapU64 (currentCount + 1)) previousCount,
      .allow remaining resetEpoch)
  else
    let retryAfter := wrapU32 (max (resetEpoch - nowSecs) 1)
    (.slidingWindow windowId currentCount previousCount,
      buildExceededDecision rule retryAfter resetEpoch)

def advance (state : AlgorithmState F) (rule : CompiledRule) (nowSecs nowMs : Nat) :
    AlgorithmState F × RateLimitDecision :=
  match state with
  | .tokenBucket tokens lastRefillMs =>
    advanceTokenBucket tokens lastRefillMs rule nowSecs nowMs
  | .leakyBucket waterLevel lastLeakMs =>
    advanceLeakyBucket waterLevel lastLeakMs rule nowSecs nowMs
  | .fixedWindow windowId count =>
    advanceFixedWindow windowId count rule nowSecs
  | .slidingWindow windowId currentCount previousCount =>
    advanceSlidingWindow windowId currentCount previousCount rule nowSecs

theorem advance_decision (state : AlgorithmState F) (rule : CompiledRule)
    (nowSecs nowMs : Nat) :
    (∃ remaining resetEpoch,
      (state.advance rule nowSecs nowMs).2 = .allow remaining resetEpoch) ∨
    ∃ retryAfter resetEpoch, (state.advance rule nowSecs nowMs).2 =
      buildExceededDecision rule retryAfter resetEpoch := by
  cases state with
  | tokenBucket tokens lastRefillMs =>
    simp only [advance, advanceTokenBucket]
    split
    · exact .inl ⟨_, _, rfl⟩
    · exact .inr ⟨_, _, rfl⟩
  | leakyBucket waterLevel lastLeakMs =>
    simp only [advance, advanceLeakyBucket]
    split
    · exact .inl ⟨_, _, rfl⟩
    · exact .inr ⟨_, _, rfl⟩
  | fixedWindow windowId count =>
    simp only [advance, advanceFixedWindow_eq]
    split
    · exact .inl ⟨_, _, rfl⟩
    · exact .inr ⟨_, _, rfl⟩
  | slidingWindow windowId currentCount previousCount =>
    simp only [advance, advanceSlidingWindow]
    generalize (if windowId ≠ nowSecs / rule.periodSecs then _ else _ :
      Nat × Nat × Nat) = window
    split
    · exact .inl ⟨_, _, rfl⟩
    · exact .inr ⟨_, _, rfl⟩

def advanceAll (rule : CompiledRule) :
    AlgorithmState F → List (Nat × Nat) → AlgorithmState F × List RateLimitDecision
  | state, [] => (state, [])
  | state, (nowSecs, nowMs) :: times =>
    let (next, decision) := state.advance rule nowSecs nowMs
    let (last, decisions) := advanceAll rule next times
    (last, decision :: decisions)

end AlgorithmState

end AuroraGateway.RateLimit
