import AuroraGateway.RateLimit.Buckets
import Mathlib.Tactic.FieldSimp
import Mathlib.Tactic.Positivity

/-!
# The quota of a token bucket

Over any stretch of calls a token bucket of exact numbers lets at most its
capacity pass, and what it is refilled with between the first and the last of
them.  The tokens left are the potential: a call that finds quota takes one.
-/

namespace AuroraGateway.RateLimit

open Foundation AlgorithmState
open Flonum

/-! ## Stretches of a run -/

section Stretches

variable {F : Type} [Flonum F] (rule : CompiledRule)

theorem take_advanceAll (state : AlgorithmState F) (times : List (Nat × Nat)) (n : Nat) :
    (state.advanceAll rule times).2.take n = (state.advanceAll rule (times.take n)).2 := by
  induction times generalizing state n with
  | nil => simp [advanceAll]
  | cons time times ih =>
    cases n with
    | zero => rfl
    | succ n => exact congrArg (List.cons _) (ih _ n)

theorem drop_advanceAll (state : AlgorithmState F) (times : List (Nat × Nat)) (n : Nat) :
    (state.advanceAll rule times).2.drop n =
      ((state.advanceAll rule (times.take n)).1.advanceAll rule (times.drop n)).2 := by
  induction times generalizing state n with
  | nil => simp [advanceAll]
  | cons time times ih =>
    cases n with
    | zero => rfl
    | succ n => exact ih _ n

variable {rule : CompiledRule}

theorem allowed_advance (haction : rule.actionOnExceeded ≠ .audit) (state : AlgorithmState F)
    (nowSecs nowMs : Nat) : (state.advance rule nowSecs nowMs).2.allowed =
      (state.advance rule nowSecs nowMs).2.withinQuota := by
  rcases state.advance_decision rule nowSecs nowMs with ⟨_, _, hallow⟩ | ⟨_, _, hexceeded⟩
  · rw [hallow]
    rfl
  · rw [hexceeded, buildExceededDecision_withinQuota]
    cases hkind : rule.actionOnExceeded with
    | audit => exact absurd hkind haction
    | _ => simp [buildExceededDecision, hkind]

theorem allowed_eq_withinQuota (haction : rule.actionOnExceeded ≠ .audit) {state : AlgorithmState F}
    {times : List (Nat × Nat)} {decision : RateLimitDecision}
    (h : decision ∈ (state.advanceAll rule times).2) : decision.allowed = decision.withinQuota := by
  induction times generalizing state with
  | nil => cases h
  | cons time times ih =>
    have hcases : decision = (state.advance rule time.1 time.2).2 ∨
        decision ∈ ((state.advance rule time.1 time.2).1.advanceAll rule times).2 :=
      List.mem_cons.mp h
    rcases hcases with hhead | htail
    · rw [hhead]
      exact allowed_advance haction state time.1 time.2
    · exact ih htail

end Stretches

/-! ## One call -/

def refill (rule : CompiledRule) (fromMs toMs : Nat) : ℚ :=
  rule.rate * ((toMs : ℚ) - fromMs) / (rule.periodSecs * 1000)

variable (rule : CompiledRule)

theorem refill_self (ms : Nat) : refill rule ms ms = 0 := by
  simp [refill]

theorem refill_add (a b c : Nat) :
    refill rule a b + refill rule b c = refill rule a c := by
  unfold refill
  ring

theorem refill_nonneg {fromMs toMs : Nat} (h : fromMs ≤ toMs) :
    0 ≤ refill rule fromMs toMs := by
  have hle : (0 : ℚ) ≤ (toMs : ℚ) - fromMs := by
    rw [sub_nonneg]
    exact_mod_cast h
  unfold refill
  positivity

def tokenLevel (rule : CompiledRule) (tokens : ℚ) (lastMs nowMs : Nat) : ℚ :=
  Min.min (tokens + refill rule lastMs nowMs) rule.burst

def bucketWait (rule : CompiledRule) (level : ℚ) : Nat :=
  satU32 (trunc (Flonum.max (ceil ((1 - level) / ((rule.rate : ℚ) / rule.periodSecs))) 1))

variable {rule : CompiledRule} {tokens : ℚ} {lastMs : Nat} {times : List (Nat × Nat)}

theorem tokenLevel_nonneg {nowMs : Nat} (htokens : 0 ≤ tokens) (hclock : lastMs ≤ nowMs) :
    0 ≤ tokenLevel rule tokens lastMs nowMs := by
  have hrefill := refill_nonneg rule hclock
  exact le_min (by linarith) (Nat.cast_nonneg _)

variable {nowSecs : Nat}

theorem advance_tokenBucket {nowMs : Nat} (hclock : lastMs ≤ nowMs) :
    advance (.tokenBucket tokens lastMs) rule nowSecs nowMs =
      let level := tokenLevel rule tokens lastMs nowMs
      if 1 ≤ level then
        (.tokenBucket (level - 1) nowMs,
          .allow (satU32 (trunc (floor (level - 1))))
            (wrapU64 (nowSecs + satU64 (trunc (ceil ((rule.burst - (level - 1)) /
              ((rule.rate : ℚ) / rule.periodSecs)))))))
      else
        (.tokenBucket level nowMs, buildExceededDecision rule (bucketWait rule level)
          (wrapU64 (nowSecs + bucketWait rule level))) := by
  have hrefill : ((nowMs - lastMs : ℕ) : ℚ) / ((1000 : ℕ) : ℚ) *
      ((rule.rate : ℚ) / (rule.periodSecs : ℚ)) = refill rule lastMs nowMs := by
    rw [refill, Nat.cast_sub hclock]
    ring
  simp only [advance, advanceTokenBucket, min_rat, ofNat_rat,
    Nat.cast_one, hrefill, tokenLevel, bucketWait]
  rfl

theorem advance_tokenBucket_pays {nowMs : Nat} (htokens : 0 ≤ tokens) (hclock : lastMs ≤ nowMs) :
    ∃ left decision, advance (.tokenBucket tokens lastMs) rule nowSecs nowMs =
        (.tokenBucket left nowMs, decision) ∧
      0 ≤ left ∧
      (if decision.withinQuota then 1 else 0) + left ≤ tokens + refill rule lastMs nowMs ∧
      (if decision.withinQuota then 1 else 0) + left ≤ rule.burst := by
  have hleast := @tokenLevel_nonneg rule tokens lastMs nowMs htokens hclock
  have hrefilled : tokenLevel rule tokens lastMs nowMs ≤ tokens + refill rule lastMs nowMs :=
    min_le_left _ _
  have hcapacity : tokenLevel rule tokens lastMs nowMs ≤ rule.burst := min_le_right _ _
  have hadvance := @advance_tokenBucket rule tokens lastMs nowSecs nowMs hclock
  by_cases hone : 1 ≤ tokenLevel rule tokens lastMs nowMs
  · rw [if_pos hone] at hadvance
    refine ⟨_, _, hadvance, by linarith, ?_, ?_⟩
    all_goals
      rw [allow_withinQuota, if_pos rfl]
      linarith
  · rw [if_neg hone] at hadvance
    refine ⟨_, _, hadvance, hleast, ?_, ?_⟩
    all_goals
      rw [buildExceededDecision_withinQuota, if_neg Bool.false_ne_true]
      linarith

/-! ## Runs -/

def admitted (decisions : List RateLimitDecision) : Nat :=
  decisions.countP RateLimitDecision.withinQuota

theorem admitted_cons (decision : RateLimitDecision) (decisions : List RateLimitDecision) :
    (admitted (decision :: decisions) : ℚ) =
      (if decision.withinQuota then 1 else 0) + admitted decisions := by
  rw [admitted, List.countP_cons, add_comm]
  split <;> simp [admitted]

def lastTime (lastMs : Nat) (times : List (Nat × Nat)) : Nat :=
  (times.map Prod.snd).getLastD lastMs

theorem advanceAll_tokenBucket (htokens : 0 ≤ tokens) (hburst : tokens ≤ rule.burst)
    (hclock : (lastMs :: times.map Prod.snd).Pairwise (· ≤ ·)) :
    ∃ left, (advanceAll rule (.tokenBucket tokens lastMs) times).1 =
        .tokenBucket left (lastTime lastMs times) ∧
      0 ≤ left ∧ left ≤ rule.burst ∧
      admitted (advanceAll rule (.tokenBucket tokens lastMs) times).2 + left ≤
        tokens + refill rule lastMs (lastTime lastMs times) := by
  induction times generalizing tokens lastMs with
  | nil =>
    refine ⟨tokens, rfl, htokens, hburst, ?_⟩
    rw [lastTime, List.map_nil, List.getLastD_nil, refill_self]
    simp [advanceAll, admitted]
  | cons time times ih =>
    obtain ⟨nowSecs, nowMs⟩ := time
    rw [List.pairwise_cons] at hclock
    obtain ⟨hfirst, hrest⟩ := hclock
    obtain ⟨left, decision, hadvance, hleft, hpays, hcapacity⟩ :=
      @advance_tokenBucket_pays rule tokens lastMs nowSecs nowMs htokens
        (hfirst nowMs List.mem_cons_self)
    have hfull : left ≤ rule.burst := by
      split at hcapacity <;> linarith
    obtain ⟨last, hstate, hlast, hlastFull, hcount⟩ := ih hleft hfull hrest
    have htime : lastTime lastMs ((nowSecs, nowMs) :: times) = lastTime nowMs times := by
      rw [lastTime, List.map_cons, List.getLastD_cons, lastTime]
    simp only [advanceAll, hadvance, htime, admitted_cons]
    refine ⟨last, hstate, hlast, hlastFull, ?_⟩
    rw [← refill_add rule lastMs nowMs]
    linarith

/-- However full the bucket was, the first call of a stretch finds it no fuller than its
capacity. -/
theorem admitted_stretch_le {nowMs : Nat} (htokens : 0 ≤ tokens)
    (hclock : (lastMs :: nowMs :: times.map Prod.snd).Pairwise (· ≤ ·)) :
    (admitted (advanceAll rule (.tokenBucket tokens lastMs)
      ((nowSecs, nowMs) :: times)).2 : ℚ) ≤
        rule.burst + refill rule nowMs (lastTime nowMs times) := by
  rw [List.pairwise_cons] at hclock
  obtain ⟨hfirst, hrest⟩ := hclock
  obtain ⟨left, decision, hadvance, hleft, -, hcapacity⟩ :=
    @advance_tokenBucket_pays rule tokens lastMs nowSecs nowMs htokens
      (hfirst nowMs List.mem_cons_self)
  have hfull : left ≤ rule.burst := by
    split at hcapacity <;> linarith
  obtain ⟨last, -, hlast, -, hcount⟩ := advanceAll_tokenBucket hleft hfull hrest
  simp only [advanceAll, hadvance, admitted_cons]
  linarith

structure TokenBucketRun where
  rule : CompiledRule
  initSecs : Nat
  initMs : Nat
  times : List (Nat × Nat)
  clock : (initMs :: times.map Prod.snd).Pairwise (· ≤ ·)

namespace TokenBucketRun

variable (run : TokenBucketRun)

def created : AlgorithmState ℚ := .init .tokenBucket run.rule run.initSecs run.initMs

def state (k : Nat) : AlgorithmState ℚ := (run.created.advanceAll run.rule (run.times.take k)).1

def decisions : List RateLimitDecision := (run.created.advanceAll run.rule run.times).2

def stretch (i j : Fin run.times.length) : List RateLimitDecision :=
  (run.decisions.drop i).take (j + 1 - i)

def timeMs (i : Fin run.times.length) : Nat := (run.times.get i).2

theorem state_eq (k : Nat) : ∃ tokens, run.state k =
      .tokenBucket tokens (lastTime run.initMs (run.times.take k)) ∧
    0 ≤ tokens ∧ tokens ≤ run.rule.burst := by
  have hclock : (run.initMs :: (run.times.take k).map Prod.snd).Pairwise (· ≤ ·) := by
    refine run.clock.sublist ?_
    rw [List.map_take]
    exact (List.take_sublist k _).cons_cons _
  obtain ⟨tokens, hstate, hleast, hmost, -⟩ :=
    @advanceAll_tokenBucket run.rule run.rule.burst run.initMs (run.times.take k)
      (Nat.cast_nonneg _) le_rfl hclock
  exact ⟨tokens, hstate, hleast, hmost⟩

theorem stretch_eq (i j : Fin run.times.length) :
    run.stretch i j =
      ((run.state i).advanceAll run.rule ((run.times.drop i).take (j + 1 - i))).2 := by
  rw [stretch, decisions, drop_advanceAll, take_advanceAll, state]

variable {i j : Fin run.times.length}

theorem times_stretch (h : i ≤ j) :
    (run.times.drop i).take (j + 1 - i) =
      run.times.get i :: (run.times.drop (i + 1)).take (j - i) := by
  have hlength : (j : Nat) + 1 - i = j - i + 1 := Nat.succ_sub h
  rw [List.drop_eq_getElem_cons i.isLt, hlength]
  rfl

theorem lastTime_stretch (h : i ≤ j) :
    lastTime (run.timeMs i) ((run.times.drop (i + 1)).take (j - i)) = run.timeMs j := by
  have hcons : lastTime (run.timeMs i) ((run.times.drop (i + 1)).take (j - i)) =
      lastTime 0 ((run.times.drop i).take (j + 1 - i)) := by
    rw [run.times_stretch h, lastTime, lastTime, List.map_cons, List.getLastD_cons]
    rfl
  have hle : (i : Nat) ≤ j := h
  have hj := j.isLt
  have hlength : ((run.times.drop i).take (j + 1 - i)).length = j - i + 1 := by
    rw [List.length_take, List.length_drop]
    omega
  have hget : ((run.times.drop i).take (j + 1 - i))[(j : Nat) - i]? = some (run.times.get j) := by
    rw [List.getElem?_take_of_lt (by omega), List.getElem?_drop, Nat.add_sub_cancel' hle,
      List.getElem?_eq_getElem hj]
    rfl
  rw [hcons, lastTime, List.getLastD_eq_getLast?, List.getLast?_map, List.getLast?_eq_getElem?,
    hlength, Nat.add_sub_cancel, hget]
  rfl

theorem clock_stretch :
    (lastTime run.initMs (run.times.take i) :: run.timeMs i ::
      ((run.times.drop (i + 1)).take (j - i)).map Prod.snd).Pairwise (· ≤ ·) := by
  have hsplit : run.initMs :: run.times.map Prod.snd =
      (run.initMs :: (run.times.take i).map Prod.snd) ++ (run.times.drop i).map Prod.snd := by
    rw [List.cons_append, ← List.map_append, List.take_append_drop]
  have hclock := run.clock
  rw [hsplit, List.pairwise_append] at hclock
  obtain ⟨-, hlater, hacross⟩ := hclock
  have hsublist : (run.timeMs i :: ((run.times.drop (i + 1)).take (j - i)).map Prod.snd).Sublist
      ((run.times.drop i).map Prod.snd) := by
    rw [List.drop_eq_getElem_cons i.isLt]
    exact ((List.take_sublist _ _).map _).cons_cons _
  refine List.pairwise_cons.mpr ⟨fun later hmem => ?_, hlater.sublist hsublist⟩
  exact hacross _ List.getLastD_mem_cons later (hsublist.subset hmem)

theorem admitted_stretch (h : i ≤ j) :
    (admitted (run.stretch i j) : ℚ) ≤
      run.rule.burst + refill run.rule (run.timeMs i) (run.timeMs j) := by
  obtain ⟨tokens, hstate, hleast, -⟩ := run.state_eq i
  rw [stretch_eq, times_stretch run h, hstate, ← run.lastTime_stretch h]
  exact admitted_stretch_le hleast run.clock_stretch

/-- The level stays within the bucket, and over every stretch of the run the calls that find
quota are at most the capacity and what the bucket is refilled with.  They are the calls that are
allowed, unless the rule only audits. -/
theorem tokenBucket_admits_at_most (run : TokenBucketRun) :
    (∀ k, ∃ tokens lastMs, run.state k = .tokenBucket tokens lastMs ∧
      0 ≤ tokens ∧ tokens ≤ run.rule.burst) ∧
    ∀ i j, i ≤ j →
      ((run.stretch i j).countP RateLimitDecision.withinQuota : ℚ) ≤
          run.rule.burst + run.rule.rate * ((run.timeMs j : ℚ) - run.timeMs i) /
            (run.rule.periodSecs * 1000) ∧
        (run.rule.actionOnExceeded ≠ .audit →
          ((run.stretch i j).countP RateLimitDecision.allowed : ℚ) ≤
            run.rule.burst + run.rule.rate * ((run.timeMs j : ℚ) - run.timeMs i) /
              (run.rule.periodSecs * 1000)) := by
  refine ⟨fun k => ?_, fun i j hle => ⟨run.admitted_stretch hle, fun haction => ?_⟩⟩
  · obtain ⟨tokens, hstate, hleast, hmost⟩ := run.state_eq k
    exact ⟨tokens, _, hstate, hleast, hmost⟩
  · have hsame : (run.stretch i j).countP RateLimitDecision.allowed =
        admitted (run.stretch i j) := by
      refine List.countP_congr fun decision hmem => ?_
      rw [stretch_eq] at hmem
      rw [allowed_eq_withinQuota haction hmem]
    rw [hsame]
    exact run.admitted_stretch hle

def audited : TokenBucketRun where
  rule := .oncePerPeriod .audit
  initSecs := 0
  initMs := 0
  times := [(0, 0), (0, 0)]
  clock := by decide

theorem audited_admits_more :
    ∃ i j : Fin audited.times.length, i ≤ j ∧
      ¬((audited.stretch i j).countP RateLimitDecision.allowed : ℚ) ≤
        audited.rule.burst + audited.rule.rate * ((audited.timeMs j : ℚ) - audited.timeMs i) /
          (audited.rule.periodSecs * 1000) := by
  have hcount : (audited.stretch ⟨0, by decide⟩ ⟨1, by decide⟩).countP
      RateLimitDecision.allowed = 2 := by decide +kernel
  refine ⟨⟨0, by decide⟩, ⟨1, by decide⟩, by decide, ?_⟩
  rw [hcount]
  norm_num [audited, timeMs, CompiledRule.oncePerPeriod, CompiledRule.catchAll]

end TokenBucketRun

end AuroraGateway.RateLimit
