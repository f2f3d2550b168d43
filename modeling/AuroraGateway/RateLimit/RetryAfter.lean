import AuroraGateway.RateLimit.TokenBucketQuota

/-!
# The time to retry after

A refused request is told when to come again.  A bucket then has a token, and a
fixed window has started over.  A sliding window still counts the window before,
with its full weight at the instant that is told, so that the answer is honest
only if that window was not exhausted itself.
-/

namespace AuroraGateway.RateLimit

open Foundation AlgorithmState
open Flonum

/-! ## The algorithm of a counter -/

section Algorithm

variable {F : Type} [Flonum F]

def AlgorithmState.algorithm : AlgorithmState F → RateLimitAlgorithm
  | .tokenBucket _ _ => .tokenBucket
  | .leakyBucket _ _ => .leakyBucket
  | .fixedWindow _ _ => .fixedWindow
  | .slidingWindow _ _ _ => .slidingWindow

def AlgorithmState.windowCount : AlgorithmState F → Nat → Nat
  | .slidingWindow windowId currentCount _, window => carriedCount windowId currentCount window
  | _, _ => 0

theorem algorithm_init (algorithm : RateLimitAlgorithm) (rule : CompiledRule)
    (nowSecs nowMs : Nat) :
    (init algorithm rule nowSecs nowMs : AlgorithmState F).algorithm =
      algorithm := by
  cases algorithm <;> rfl

theorem advanceSlidingWindow_eq (windowId currentCount previousCount : Nat)
    (rule : CompiledRule) (nowSecs : Nat) :
    ∃ previous, (nowSecs / rule.periodSecs ≠ windowId →
        previous = if nowSecs / rule.periodSecs = wrapU64 (windowId + 1) then currentCount else 0) ∧
      (advanceSlidingWindow windowId currentCount previousCount rule nowSecs :
          AlgorithmState F × RateLimitDecision) =
        let count := carriedCount windowId currentCount (nowSecs / rule.periodSecs)
        let resetEpoch := wrapU64 ((nowSecs / rule.periodSecs + 1) * rule.periodSecs)
        let estimated : F := ofNat previous *
          (ofNat 1 - ofNat (nowSecs % rule.periodSecs) / ofNat rule.periodSecs) + ofNat count
        if estimated + ofNat 1 ≤ ofNat rule.rate then
          (.slidingWindow (nowSecs / rule.periodSecs) (wrapU64 (count + 1)) previous,
            .allow (satU32 (trunc (Flonum.max (ofNat rule.rate - estimated - ofNat 1) (ofNat 0))))
              resetEpoch)
        else
          (.slidingWindow (nowSecs / rule.periodSecs) count previous,
            buildExceededDecision rule (wrapU32 (max (resetEpoch - nowSecs) 1)) resetEpoch) := by
  by_cases hwindow : windowId = nowSecs / rule.periodSecs
  · refine ⟨previousCount, fun hne => absurd hwindow.symm hne, ?_⟩
    simp [advanceSlidingWindow, carriedCount, hwindow]
  · refine ⟨_, fun _ => rfl, ?_⟩
    simp [advanceSlidingWindow, carriedCount, hwindow]

theorem algorithm_advance (state : AlgorithmState F) (rule : CompiledRule)
    (nowSecs nowMs : Nat) : (state.advance rule nowSecs nowMs).1.algorithm = state.algorithm := by
  cases state with
  | tokenBucket tokens lastRefillMs =>
    simp only [advance, advanceTokenBucket]
    split <;> rfl
  | leakyBucket waterLevel lastLeakMs =>
    simp only [advance, advanceLeakyBucket]
    split <;> rfl
  | fixedWindow windowId count =>
    simp only [advance, advanceFixedWindow_eq]
    split <;> rfl
  | slidingWindow windowId currentCount previousCount =>
    obtain ⟨previous, -, heq⟩ :=
      @advanceSlidingWindow_eq F _ windowId currentCount previousCount rule nowSecs
    simp only [advance, heq]
    split <;> rfl

theorem algorithm_advanceAll (state : AlgorithmState F) (rule : CompiledRule)
    (times : List (Nat × Nat)) : (state.advanceAll rule times).1.algorithm = state.algorithm := by
  induction times generalizing state with
  | nil => rfl
  | cons time times ih =>
    exact (ih _).trans (algorithm_advance state rule time.1 time.2)

end Algorithm

/-! ## Buckets -/

theorem buildExceededDecision_retryAfterSecs (rule : CompiledRule) (retryAfter resetEpoch : Nat) :
    (buildExceededDecision rule retryAfter resetEpoch).retryAfterSecs = retryAfter := rfl

theorem buildExceededDecision_allowed (rule : CompiledRule) (retryAfter resetEpoch : Nat) :
    (buildExceededDecision rule retryAfter resetEpoch).allowed = true ↔
      rule.actionOnExceeded = .audit := by
  cases h : rule.actionOnExceeded <;> simp [buildExceededDecision, h]

theorem le_bucketWait (rule : CompiledRule) {level : ℚ} (hlevel : 0 ≤ level) :
    (1 - level) / ((rule.rate : ℚ) / rule.periodSecs) ≤ bucketWait rule level := by
  have hrate : (1 : ℚ) ≤ rule.rate := by exact_mod_cast rule.rate_pos
  have hday : (rule.periodSecs : ℚ) ≤ 86400 := by exact_mod_cast rule.period_le
  set wait := (1 - level) / ((rule.rate : ℚ) / rule.periodSecs) with hwait
  have hmost : wait ≤ 86400 := by
    rw [hwait, div_div_eq_mul_div, div_le_iff₀ (by linarith)]
    nlinarith
  have hceil : ⌈wait⌉ ≤ 86400 := Int.ceil_le.mpr (by exact_mod_cast hmost)
  have hsecs : bucketWait rule level = (max ⌈wait⌉ 1).toNat := by
    have htrunc : trunc (Flonum.max (ceil wait) 1 : ℚ) = max ⌈wait⌉ 1 := by
      have hcast : (Flonum.max (ceil wait) 1 : ℚ) = ((max ⌈wait⌉ 1 : ℤ) : ℚ) := by
        push_cast
        rfl
      have hpos : (0 : ℚ) ≤ ((max ⌈wait⌉ 1 : ℤ) : ℚ) := by
        exact_mod_cast le_trans (by decide : (0 : ℤ) ≤ 1) (le_max_right _ _)
      rw [hcast]
      change (if (0 : ℚ) ≤ ((max ⌈wait⌉ 1 : ℤ) : ℚ) then ⌊((max ⌈wait⌉ 1 : ℤ) : ℚ)⌋ else _) = _
      rw [if_pos hpos, Int.floor_intCast]
    rw [bucketWait, htrunc, satU32, u32Max]
    omega
  rw [hsecs]
  have hnat : (((max ⌈wait⌉ 1).toNat : ℤ) : ℚ) = ((max ⌈wait⌉ 1 : ℤ) : ℚ) := by
    rw [Int.toNat_of_nonneg (le_trans (by decide) (le_max_right _ _))]
  calc wait ≤ (⌈wait⌉ : ℚ) := Int.le_ceil wait
    _ ≤ ((max ⌈wait⌉ 1 : ℤ) : ℚ) := by exact_mod_cast le_max_left _ _
    _ = ((max ⌈wait⌉ 1).toNat : ℚ) := by rw [← hnat, Int.cast_natCast]

variable {rule : CompiledRule} {nowMs laterMs : Nat}

theorem tokenBucket_retry {tokens : ℚ} {lastMs nowSecs laterSecs : Nat} (htokens : 0 ≤ tokens)
    (hclock : lastMs ≤ nowMs)
    (hrefused : (advance (.tokenBucket tokens lastMs) rule nowSecs nowMs).2.allowed = false)
    (hlater : nowMs + 1000 * (advance (.tokenBucket tokens lastMs) rule nowSecs
      nowMs).2.retryAfterSecs ≤ laterMs) :
    ((advance (.tokenBucket tokens lastMs) rule nowSecs nowMs).1.advance rule
      laterSecs laterMs).2.allowed = true := by
  have hleast := @tokenLevel_nonneg rule tokens lastMs nowMs htokens hclock
  rw [advance_tokenBucket hclock] at hrefused hlater ⊢
  generalize tokenLevel rule tokens lastMs nowMs = level at hrefused hlater hleast ⊢
  by_cases hone : 1 ≤ level
  · rw [if_pos hone] at hrefused
    cases hrefused
  · rw [if_neg hone] at hlater ⊢
    have hrate : (1 : ℚ) ≤ rule.rate := by exact_mod_cast rule.rate_pos
    have hperiod : (0 : ℚ) < rule.periodSecs := by exact_mod_cast rule.period_pos
    have hburst : (1 : ℚ) ≤ rule.burst := by
      exact_mod_cast le_trans rule.rate_pos rule.rate_le_burst
    have hwaited : (nowMs : ℚ) + 1000 * bucketWait rule level ≤ laterMs := by exact_mod_cast hlater
    have henough : 1 - level ≤ refill rule nowMs laterMs := by
      have hwait := le_bucketWait rule hleast
      rw [div_le_iff₀ (by positivity)] at hwait
      calc 1 - level ≤ bucketWait rule level * ((rule.rate : ℚ) / rule.periodSecs) := hwait
        _ = rule.rate * (1000 * bucketWait rule level) / (rule.periodSecs * 1000) := by
            field_simp
        _ ≤ refill rule nowMs laterMs := by
            unfold refill
            gcongr
            linarith
    have hfull : 1 ≤ tokenLevel rule level nowMs laterMs := le_min (by linarith) hburst
    rw [advance_tokenBucket (by omega)]
    rw [if_pos hfull]
    rfl

theorem leakyBucket_retry {waterLevel : ℚ} {lastMs nowSecs laterSecs : Nat}
    (hwater : waterLevel ≤ rule.burst) (hclock : lastMs ≤ nowMs)
    (hrefused : (advance (.leakyBucket waterLevel lastMs) rule nowSecs nowMs).2.allowed = false)
    (hlater : nowMs + 1000 * (advance (.leakyBucket waterLevel lastMs) rule nowSecs
      nowMs).2.retryAfterSecs ≤ laterMs) :
    ((advance (.leakyBucket waterLevel lastMs) rule nowSecs nowMs).1.advance rule
      laterSecs laterMs).2.allowed = true := by
  have hmirror : Mirror rule (.leakyBucket waterLevel lastMs)
      (.tokenBucket (rule.burst - waterLevel) lastMs) := .intro (by ring)
  obtain ⟨hdecision, hnext⟩ := mirror_advance hmirror nowSecs nowMs
  rw [hdecision] at hrefused hlater
  rw [(mirror_advance hnext laterSecs laterMs).1]
  exact tokenBucket_retry (by linarith) hclock hrefused hlater

/-! ## Windows -/

theorem windowEnd_lt (rule : CompiledRule) (hlt : nowMs < 2 ^ 64) :
    (nowMs / 1000 / rule.periodSecs + 1) * rule.periodSecs < 2 ^ 64 := by
  have hperiod := rule.period_le
  have hmul := Nat.div_mul_le_self (nowMs / 1000) rule.periodSecs
  rw [Nat.add_mul]
  omega

theorem windowEnd_bounds (rule : CompiledRule) (secs : Nat) :
    secs < (secs / rule.periodSecs + 1) * rule.periodSecs ∧
      (secs / rule.periodSecs + 1) * rule.periodSecs ≤ secs + 86400 := by
  have hperiod := rule.period_le
  have hmul := Nat.div_mul_le_self secs rule.periodSecs
  have hlt := Nat.lt_div_mul_add (a := secs) rule.period_pos
  rw [Nat.add_mul]
  omega

theorem windowWait_eq (rule : CompiledRule) (hlt : nowMs < 2 ^ 64) :
    wrapU32 (max (wrapU64 ((nowMs / 1000 / rule.periodSecs + 1) * rule.periodSecs) -
        nowMs / 1000) 1) =
      (nowMs / 1000 / rule.periodSecs + 1) * rule.periodSecs - nowMs / 1000 := by
  obtain ⟨hlater, hday⟩ := windowEnd_bounds rule (nowMs / 1000)
  rw [wrapU64_of_lt (windowEnd_lt rule hlt), max_eq_left (by omega), wrapU32_of_lt (by omega)]

theorem window_lt_of_waited (rule : CompiledRule)
    (hlater : nowMs + 1000 * ((nowMs / 1000 / rule.periodSecs + 1) * rule.periodSecs -
      nowMs / 1000) ≤ laterMs) :
    nowMs / 1000 / rule.periodSecs + 1 ≤ laterMs / 1000 / rule.periodSecs := by
  rw [Nat.le_div_iff_mul_le rule.period_pos]
  omega

theorem fixedWindow_retry {F : Type} [Flonum F]
    {windowId count : Nat} (hlt : nowMs < 2 ^ 64)
    (hrefused : (advance (.fixedWindow windowId count : AlgorithmState F) rule
      (nowMs / 1000) nowMs).2.allowed = false)
    (hlater : nowMs + 1000 * (advance (.fixedWindow windowId count :
      AlgorithmState F) rule (nowMs / 1000) nowMs).2.retryAfterSecs ≤ laterMs) :
    ((advance (.fixedWindow windowId count : AlgorithmState F) rule
      (nowMs / 1000) nowMs).1.advance rule (laterMs / 1000) laterMs).2.allowed = true := by
  simp only [advance, advanceFixedWindow_eq] at hrefused hlater ⊢
  split at hrefused
  · cases hrefused
  · rename_i hfull
    rw [if_neg hfull] at hlater ⊢
    rw [windowWait_eq rule hlt] at hlater
    have hwindow := window_lt_of_waited rule hlater
    have hcarried : carriedCount (nowMs / 1000 / rule.periodSecs)
        (carriedCount windowId count (nowMs / 1000 / rule.periodSecs))
        (laterMs / 1000 / rule.periodSecs) = 0 := by
      rw [carriedCount, if_neg (by omega)]
    simp only [hcarried]
    rw [if_pos rule.rate_pos]
    rfl

/-! ## Sliding windows -/

section Sliding

variable {rule : CompiledRule} {windowId currentCount previousCount nowMs laterMs : Nat}

theorem weight_bounds (rule : CompiledRule) (secs : Nat) :
    0 ≤ 1 - ((secs % rule.periodSecs : ℕ) : ℚ) / rule.periodSecs ∧
      1 - ((secs % rule.periodSecs : ℕ) : ℚ) / rule.periodSecs ≤ 1 := by
  have hperiod : (0 : ℚ) < rule.periodSecs := by exact_mod_cast rule.period_pos
  have hmod : ((secs % rule.periodSecs : ℕ) : ℚ) ≤ rule.periodSecs := by
    exact_mod_cast (Nat.mod_lt secs rule.period_pos).le
  constructor
  · rw [sub_nonneg, div_le_one hperiod]
    exact hmod
  · rw [sub_le_self_iff]
    positivity

theorem advance_slidingWindow (rule : CompiledRule)
    (windowId currentCount previousCount nowSecs nowMs : Nat) :
    ∃ previous, (nowSecs / rule.periodSecs ≠ windowId →
        previous = if nowSecs / rule.periodSecs = wrapU64 (windowId + 1) then currentCount else 0) ∧
      let count := carriedCount windowId currentCount (nowSecs / rule.periodSecs)
      let estimated : ℚ := previous * (1 - ((nowSecs % rule.periodSecs : ℕ) : ℚ) /
        rule.periodSecs) + count
      let next := advance
        (.slidingWindow windowId currentCount previousCount : AlgorithmState ℚ) rule nowSecs nowMs
      (estimated + 1 ≤ rule.rate → next.2.allowed = true) ∧
        (¬estimated + 1 ≤ rule.rate → next =
          (.slidingWindow (nowSecs / rule.periodSecs) count previous,
            buildExceededDecision rule (wrapU32 (max (wrapU64 ((nowSecs / rule.periodSecs + 1) *
              rule.periodSecs) - nowSecs) 1))
              (wrapU64 ((nowSecs / rule.periodSecs + 1) * rule.periodSecs)))) := by
  obtain ⟨previous, hprevious, heq⟩ :=
    @advanceSlidingWindow_eq ℚ _ windowId currentCount previousCount rule nowSecs
  refine ⟨previous, hprevious, fun hle => ?_, fun hgt => ?_⟩
  · simp only [advance, heq]
    rw [if_pos (by simpa [ofNat_rat] using hle)]
    rfl
  · simp only [advance, heq]
    rw [if_neg (by simpa [ofNat_rat] using hgt)]

variable {state : AlgorithmState ℚ}
  (hstate : state = .slidingWindow windowId currentCount previousCount) (hlt : nowMs < 2 ^ 64)
include hstate hlt

theorem slidingWindow_refused
    (hrefused : (state.advance rule (nowMs / 1000) nowMs).2.allowed = false) :
    ∃ previous decision, state.advance rule (nowMs / 1000) nowMs =
      (.slidingWindow (nowMs / 1000 / rule.periodSecs)
        (carriedCount windowId currentCount (nowMs / 1000 / rule.periodSecs))
        previous, decision) ∧
      decision.retryAfterSecs =
        (nowMs / 1000 / rule.periodSecs + 1) * rule.periodSecs - nowMs / 1000 := by
  subst hstate
  obtain ⟨previous, -, hallowed, hexceeded⟩ :=
    advance_slidingWindow rule windowId currentCount previousCount (nowMs / 1000) nowMs
  have heq := hexceeded fun hle => by
    rw [hallowed hle] at hrefused
    cases hrefused
  refine ⟨previous, _, heq, ?_⟩
  rw [buildExceededDecision_retryAfterSecs, windowWait_eq rule hlt]

theorem slidingWindow_retry
    (hcount : carriedCount windowId currentCount (nowMs / 1000 / rule.periodSecs) < rule.rate)
    (hrefused : (state.advance rule (nowMs / 1000) nowMs).2.allowed = false)
    (hlater : nowMs + 1000 * (state.advance rule (nowMs / 1000) nowMs).2.retryAfterSecs ≤
      laterMs) :
    ((state.advance rule (nowMs / 1000) nowMs).1.advance rule (laterMs / 1000)
      laterMs).2.allowed = true := by
  obtain ⟨previous, decision, heq, hwait⟩ := slidingWindow_refused hstate hlt hrefused
  rw [heq] at hlater ⊢
  rw [hwait] at hlater
  have hwindow := window_lt_of_waited rule hlater
  generalize carriedCount windowId currentCount (nowMs / 1000 / rule.periodSecs) =
    count at hcount ⊢
  obtain ⟨before, hbefore, hallowed, -⟩ := advance_slidingWindow rule
    (nowMs / 1000 / rule.periodSecs) count previous (laterMs / 1000) laterMs
  -- The count of the refusing window weighs at most one, or nothing any more.
  have hleast : before ≤ count := by
    rw [hbefore (by omega)]
    split <;> omega
  have hcarried : carriedCount (nowMs / 1000 / rule.periodSecs) count
      (laterMs / 1000 / rule.periodSecs) = 0 := by
    rw [carriedCount, if_neg (by omega)]
  apply hallowed
  obtain ⟨hnonneg, hone⟩ := weight_bounds rule (laterMs / 1000)
  have hbeforeCount : (before : ℚ) ≤ count := by exact_mod_cast hleast
  have hroom : (count : ℚ) + 1 ≤ rule.rate := by exact_mod_cast hcount
  have hweighted : (before : ℚ) * (1 - ((laterMs / 1000 % rule.periodSecs : ℕ) : ℚ) /
      rule.periodSecs) ≤ before := mul_le_of_le_one_right (Nat.cast_nonneg _) hone
  rw [hcarried]
  linarith

theorem slidingWindow_still_refused
    (hcount : rule.rate ≤ carriedCount windowId currentCount (nowMs / 1000 / rule.periodSecs))
    (haction : rule.actionOnExceeded ≠ .audit) :
    let next := state.advance rule (nowMs / 1000) nowMs
    let laterMs := nowMs + 1000 * next.2.retryAfterSecs
    next.2.allowed = false ∧
      laterMs = 1000 * ((nowMs / 1000 / rule.periodSecs + 1) * rule.periodSecs) + nowMs % 1000 ∧
      (next.1.advance rule (laterMs / 1000) laterMs).2.allowed = false := by
  have hexceeded : ∀ retryAfter resetEpoch,
      (buildExceededDecision rule retryAfter resetEpoch).allowed = false := by
    intro retryAfter resetEpoch
    rw [Bool.eq_false_iff, Ne, buildExceededDecision_allowed]
    exact haction
  dsimp only
  have hrefused : (state.advance rule (nowMs / 1000) nowMs).2.allowed = false := by
    obtain ⟨previous, -, -, hover⟩ :=
      advance_slidingWindow rule windowId currentCount previousCount (nowMs / 1000) nowMs
    rw [hstate, hover ?_]
    · exact hexceeded _ _
    · have hfull : (rule.rate : ℚ) ≤ carriedCount windowId currentCount
          (nowMs / 1000 / rule.periodSecs) := by exact_mod_cast hcount
      have hweighted := mul_nonneg (Nat.cast_nonneg previous : (0 : ℚ) ≤ previous)
        (weight_bounds rule (nowMs / 1000)).1
      linarith
  obtain ⟨previous, decision, heq, hwait⟩ := slidingWindow_refused hstate hlt hrefused
  obtain ⟨hafter, -⟩ := windowEnd_bounds rule (nowMs / 1000)
  have hinstant : nowMs + 1000 * decision.retryAfterSecs =
      1000 * ((nowMs / 1000 / rule.periodSecs + 1) * rule.periodSecs) + nowMs % 1000 := by
    rw [hwait]
    omega
  refine ⟨hrefused, by rw [heq]; exact hinstant, ?_⟩
  rw [heq]
  dsimp only
  rw [hinstant]
  generalize hcarried : carriedCount windowId currentCount
    (nowMs / 1000 / rule.periodSecs) = count at hcount
  -- At the boundary nothing of the new window has passed.
  have hsecs : (1000 * ((nowMs / 1000 / rule.periodSecs + 1) * rule.periodSecs) + nowMs % 1000) /
      1000 = (nowMs / 1000 / rule.periodSecs + 1) * rule.periodSecs := by omega
  rw [hsecs]
  obtain ⟨before, hbefore, -, hover⟩ := advance_slidingWindow rule
    (nowMs / 1000 / rule.periodSecs) count previous
    ((nowMs / 1000 / rule.periodSecs + 1) * rule.periodSecs)
    (1000 * ((nowMs / 1000 / rule.periodSecs + 1) * rule.periodSecs) + nowMs % 1000)
  rw [Nat.mul_div_cancel _ rule.period_pos] at hbefore
  have hsmall : nowMs / 1000 / rule.periodSecs + 1 < 2 ^ 64 :=
    lt_of_le_of_lt (Nat.le_mul_of_pos_right _ rule.period_pos) (windowEnd_lt rule hlt)
  have hcounts : before = count := by
    rw [hbefore (by omega), wrapU64_of_lt hsmall, if_pos rfl]
  rw [hover ?_]
  · exact hexceeded _ _
  · rw [hcounts, Nat.mul_mod_left, Nat.cast_zero, zero_div]
    have hfull : (rule.rate : ℚ) ≤ count := by exact_mod_cast hcount
    linarith

end Sliding

/-! ## Runs -/

/-- Calls of a counter, from its creation to the one that is looked at; the clock is read in
milliseconds. -/
structure RetryRun where
  algorithm : RateLimitAlgorithm
  rule : CompiledRule
  initMs : Nat
  times : List Nat
  nowMs : Nat
  clock : (initMs :: (times ++ [nowMs])).Pairwise (· ≤ ·)
  nowMs_lt : nowMs < 2 ^ 64

namespace RetryRun

variable (run : RetryRun)

def advanceAt (rule : CompiledRule) (state : AlgorithmState ℚ) (ms : Nat) :
    AlgorithmState ℚ × RateLimitDecision :=
  state.advance rule (ms / 1000) ms

def created : AlgorithmState ℚ :=
  .init run.algorithm run.rule (run.initMs / 1000) run.initMs

def readings : List (Nat × Nat) := run.times.map fun ms => (ms / 1000, ms)

def state : AlgorithmState ℚ :=
  (run.created.advanceAll run.rule run.readings).1

def decision : RateLimitDecision := (advanceAt run.rule run.state run.nowMs).2

def next : AlgorithmState ℚ := (advanceAt run.rule run.state run.nowMs).1

/-- If the call is refused, the next one is allowed at every instant from the one told on. -/
def Honest : Prop :=
  run.decision.allowed = false → ∀ laterMs < 2 ^ 64,
    run.nowMs + 1000 * run.decision.retryAfterSecs ≤ laterMs →
      (advanceAt run.rule run.next laterMs).2.allowed = true

def window : Nat := run.nowMs / 1000 / run.rule.periodSecs

/-- The end of the window of the call, in milliseconds, and as far into its second. -/
def windowEndMs : Nat := 1000 * ((run.window + 1) * run.rule.periodSecs) + run.nowMs % 1000

theorem readings_snd : run.readings.map Prod.snd = run.times := by
  rw [readings, List.map_map]
  exact List.map_id _

theorem tokenBucket_state :
    ∃ tokens lastMs,
      ((init .tokenBucket run.rule (run.initMs / 1000) run.initMs :
        AlgorithmState ℚ).advanceAll run.rule run.readings).1 = .tokenBucket tokens lastMs ∧
      0 ≤ tokens ∧ lastMs ≤ run.nowMs := by
  have hclock := run.clock
  rw [← List.cons_append, List.pairwise_append] at hclock
  obtain ⟨hbefore, -, hnow⟩ := hclock
  obtain ⟨tokens, hstate, hleast, -, -⟩ :=
    @advanceAll_tokenBucket run.rule run.rule.burst run.initMs run.readings (Nat.cast_nonneg _)
      le_rfl (by rw [readings_snd]; exact hbefore)
  refine ⟨tokens, lastTime run.initMs run.readings, hstate, hleast, ?_⟩
  rw [lastTime, readings_snd]
  exact hnow _ List.getLastD_mem_cons _ (List.mem_singleton_self _)

theorem honest_tokenBucket (h : run.algorithm = .tokenBucket) : run.Honest := by
  obtain ⟨tokens, lastMs, hrun, hleast, hclock⟩ := run.tokenBucket_state
  have hstate : run.state = .tokenBucket tokens lastMs := by
    rw [state, created, h]
    exact hrun
  intro hrefused laterMs _ hlater
  rw [decision, hstate] at hrefused hlater
  rw [next, hstate]
  exact tokenBucket_retry hleast hclock hrefused hlater

theorem honest_leakyBucket (h : run.algorithm = .leakyBucket) : run.Honest := by
  obtain ⟨tokens, lastMs, hrun, hleast, hclock⟩ := run.tokenBucket_state
  have hmirror : Mirror run.rule run.state (.tokenBucket tokens lastMs) := by
    rw [state, created, h, ← hrun]
    exact (mirror_advanceAll (mirror_init run.rule _ _) run.readings).2
  obtain ⟨waterLevel, hwater, hstate⟩ : ∃ waterLevel, waterLevel ≤ (run.rule.burst : ℚ) ∧
      run.state = .leakyBucket waterLevel lastMs := by
    generalize hstate : run.state = state at hmirror
    cases hmirror with
    | intro hlevel => exact ⟨_, by linarith, rfl⟩
  intro hrefused laterMs _ hlater
  rw [decision, hstate] at hrefused hlater
  rw [next, hstate]
  exact leakyBucket_retry hwater hclock hrefused hlater

theorem algorithm_state : run.state.algorithm = run.algorithm := by
  rw [state, algorithm_advanceAll, created, algorithm_init]

theorem honest_slidingWindow {windowId currentCount previousCount : Nat}
    (hstate : run.state = .slidingWindow windowId currentCount previousCount) :
    run.Honest ↔ carriedCount windowId currentCount run.window < run.rule.rate ∨
      run.rule.actionOnExceeded = .audit ∨ 2 ^ 64 ≤ run.windowEndMs := by
  constructor
  · intro hhonest
    by_contra hnot
    obtain ⟨hcount, hnot⟩ := not_or.mp hnot
    obtain ⟨haction, hend⟩ := not_or.mp hnot
    obtain ⟨hrefused, hinstant, hstill⟩ :=
      slidingWindow_still_refused hstate run.nowMs_lt (Nat.le_of_not_lt hcount) haction
    have hallowed := hhonest hrefused _ (hinstant.trans_lt (Nat.lt_of_not_le hend)) le_rfl
    exact Bool.noConfusion (hstill.symm.trans hallowed)
  · intro hcond hrefused laterMs hlt hlater
    rw [decision, advanceAt] at hrefused hlater
    rcases hcond with hcount | haction | hend
    · exact slidingWindow_retry hstate run.nowMs_lt hcount hrefused hlater
    · obtain ⟨_, _, hallow⟩ | ⟨_, _, hexceeded⟩ :=
        advance_decision run.state run.rule (run.nowMs / 1000) run.nowMs
      · rw [hallow] at hrefused
        cases hrefused
      · rw [hexceeded, (buildExceededDecision_allowed run.rule _ _).mpr haction] at hrefused
        cases hrefused
    · -- There is no later reading of the clock.
      obtain ⟨previous, decision, heq, hwait⟩ :=
        slidingWindow_refused hstate run.nowMs_lt hrefused
      rw [heq, hwait] at hlater
      unfold windowEndMs window at hend
      omega

/-- A refused request is told honestly when to come again exactly if the window that it falls in is
not exhausted, where the window slides; or else the rule only audits, or the clock ends before the
window does. -/
theorem retry_after_honest_iff (run : RetryRun) :
    run.Honest ↔ run.state.windowCount run.window < run.rule.rate ∨
      run.rule.actionOnExceeded = .audit ∨ 2 ^ 64 ≤ run.windowEndMs := by
  have halgorithm := run.algorithm_state
  cases hstate : run.state with
  | tokenBucket tokens lastRefillMs =>
    rw [hstate] at halgorithm
    exact ⟨fun _ => .inl run.rule.rate_pos, fun _ => run.honest_tokenBucket halgorithm.symm⟩
  | leakyBucket waterLevel lastLeakMs =>
    rw [hstate] at halgorithm
    exact ⟨fun _ => .inl run.rule.rate_pos, fun _ => run.honest_leakyBucket halgorithm.symm⟩
  | fixedWindow windowId count =>
    refine ⟨fun _ => .inl run.rule.rate_pos, fun _ hrefused laterMs _ hlater => ?_⟩
    rw [decision, hstate] at hrefused hlater
    rw [next, hstate]
    exact fixedWindow_retry run.nowMs_lt hrefused hlater
  | slidingWindow windowId currentCount previousCount =>
    exact run.honest_slidingWindow hstate

def exhausted : RetryRun where
  algorithm := .slidingWindow
  rule := .oncePerPeriod .throttle
  initMs := 0
  times := [0]
  nowMs := 0
  clock := by decide
  nowMs_lt := by decide

theorem exhausted_not_honest :
    exhausted.decision.allowed = false ∧ exhausted.decision.retryAfterSecs = 60 ∧
      (advanceAt exhausted.rule exhausted.next 60000).2.allowed = false ∧ ¬exhausted.Honest := by
  have hrefused : exhausted.decision.allowed = false := by decide +kernel
  have hwait : exhausted.decision.retryAfterSecs = 60 := by decide +kernel
  have hstill : (advanceAt exhausted.rule exhausted.next 60000).2.allowed = false := by
    decide +kernel
  refine ⟨hrefused, hwait, hstill, fun hhonest => ?_⟩
  have hallowed := hhonest hrefused 60000 (by decide) (by rw [hwait]; decide)
  rw [hstill] at hallowed
  cases hallowed

end RetryRun

end AuroraGateway.RateLimit
