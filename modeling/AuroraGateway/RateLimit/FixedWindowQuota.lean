import AuroraGateway.RateLimit.Interleaving

/-!
# The quota of a fixed window under concurrency

As long as no shard is full a counter is never lost.  Its quota holds for every
window if no call reaches a counter with a clock reading from a window before
the one that the counter is in: a counter starts over whenever the windows
differ, also when the call is late.
-/

namespace AuroraGateway.RateLimit

open Engine Foundation Redis AlgorithmState

variable {F : Type} [Flonum F]

/-! ## Counters without eviction -/

def entryAt (shards : Shards F) (key : RateLimitKey) : Option (ShardEntry F) :=
  (shards (hashKey key.1 key.2)).entries.get? key

theorem evaluateShardBy_of_room (ttl : Nat → Shard F → Shard F) (order : ShardOrder F)
    {cfg : ShardConfig} {shard : Shard F} (hroom : shard.entries.len < cfg.maxKeysPerShard)
    (mapKey : RateLimitKey) (rule : CompiledRule) (nowSecs nowMs : Nat) :
    evaluateShardBy ttl order cfg shard mapKey rule nowSecs nowMs =
      storeTouched (shard.lower nowSecs) mapKey rule nowSecs nowMs
        ((shard.entries.get? mapKey).getD (newEntry cfg rule nowSecs nowMs)) := by
  cases hget : shard.entries.get? mapKey with
  | some entry =>
    rw [evaluateShardBy_hit ttl order cfg rule nowSecs nowMs hget]
    simp [storeTouched, Shard.lower]
  | none =>
    have hmake : makeRoom ttl order cfg rule nowSecs (shard.lower nowSecs) =
        (shard.lower nowSecs, none) :=
      if_neg (Nat.not_le_of_lt hroom)
    rw [evaluateShardBy_tracked ttl order cfg rule nowSecs nowMs hget hmake]
    rfl

section Room

variable (order : ShardOrder F) {cfg : ShardConfig} {shards : Shards F} {ruleIdx : Nat}
  {identifier : Bytes}
  (hroom : (shards (hashKey ruleIdx identifier)).entries.len < cfg.maxKeysPerShard)
  (rule : CompiledRule) (nowSecs nowMs : Nat)

include hroom

theorem evaluateRuleShard_decision_of_room :
    (evaluateRuleShard order cfg shards ruleIdx rule identifier nowSecs nowMs).2 =
      (touchEntry ((entryAt shards (ruleIdx, identifier)).getD
        (newEntry cfg rule nowSecs nowMs)) rule nowSecs nowMs).2 := by
  simp only [evaluateRuleShard, evaluateRuleShardBy, evaluateShardBy_of_room _ _ hroom]
  rfl

theorem entryAt_evaluateRuleShard_self :
    entryAt (evaluateRuleShard order cfg shards ruleIdx rule identifier nowSecs nowMs).1
        (ruleIdx, identifier) =
      some (touchEntry ((entryAt shards (ruleIdx, identifier)).getD
        (newEntry cfg rule nowSecs nowMs)) rule nowSecs nowMs).1 := by
  simp only [entryAt, evaluateRuleShard, evaluateRuleShardBy,
    evaluateShardBy_of_room _ _ hroom, if_true]
  exact HashTable.get?_insert_self _ _ _

theorem entryAt_evaluateRuleShard_of_ne {key : RateLimitKey}
    (hne : key ≠ (ruleIdx, identifier)) :
    entryAt (evaluateRuleShard order cfg shards ruleIdx rule identifier nowSecs nowMs).1
        key = entryAt shards key := by
  simp only [entryAt, evaluateRuleShard, evaluateRuleShardBy,
    evaluateShardBy_of_room _ _ hroom]
  by_cases hshard : hashKey key.1 key.2 = hashKey ruleIdx identifier
  · rw [if_pos hshard, hshard]
    exact HashTable.get?_insert_of_ne _ _ hne
  · rw [if_neg hshard]

end Room

/-! ## One counter -/

def issuedIn (log : List Issued) (item : IndexedRule) (identifier : Bytes)
    (window : Nat) : Nat :=
  log.countP fun issued =>
    issued.idx == item.idx && issued.identifier == identifier &&
      issued.decision.withinQuota &&
      issued.decision.resetEpochSecs == (window + 1) * item.rule.periodSecs

/-- A counter has counted what was issued for its window, and no later window
has been issued for. -/
def WindowInv (rule : CompiledRule) (issued : Nat → Nat) :
    Option (ShardEntry F) → Prop
  | none => ∀ w, issued w = 0
  | some entry => ∃ windowId count, entry.state = .fixedWindow windowId count ∧
      issued windowId ≤ count ∧ (∀ w, issued w ≤ rule.rate) ∧
      ∀ w, windowId < w → issued w = 0

variable {entry : ShardEntry F} {issued : Nat → Nat}

theorem touchEntry_of_fixedWindow {windowId count : Nat}
    (hstate : entry.state = .fixedWindow windowId count) (rule : CompiledRule)
    (nowSecs nowMs : Nat) :
    (touchEntry entry rule nowSecs nowMs).1.state =
        (advanceFixedWindow windowId count rule nowSecs).1 ∧
      (touchEntry entry rule nowSecs nowMs).2 =
        (advanceFixedWindow windowId count rule nowSecs :
          AlgorithmState F × RateLimitDecision).2 := by
  simp [touchEntry, hstate, advance]

variable {nowSecs : Nat} {rules : List CompiledRule} {engine : RateLimitEngine F}

theorem resetEpoch_eq_iff (rule : CompiledRule) (hlt : nowSecs < 2 ^ 63)
    (w : Nat) :
    wrapU64 ((nowSecs / rule.periodSecs + 1) * rule.periodSecs) =
        (w + 1) * rule.periodSecs ↔ w = nowSecs / rule.periodSecs := by
  have hperiod := rule.period_le
  have hmul := Nat.div_mul_le_self nowSecs rule.periodSecs
  have hbound : (nowSecs / rule.periodSecs + 1) * rule.periodSecs < 2 ^ 64 := by
    rw [Nat.add_mul]
    omega
  rw [wrapU64_of_lt hbound, Nat.mul_left_inj (Nat.pos_iff_ne_zero.mp rule.period_pos)]
  omega

variable {rule : CompiledRule} {env : Environment} {bytes : Bytes} {snapshot : Snapshot}

omit [Flonum F] in
theorem windowInv_advance {windowId count : Nat} (hcount : issued windowId ≤ count)
    (hquota : ∀ w, issued w ≤ rule.rate) (hlater : ∀ w, windowId < w → issued w = 0)
    (hlt : nowSecs < 2 ^ 63) (horder : windowId ≤ nowSecs / rule.periodSecs)
    {decision : RateLimitDecision}
    (hstate : entry.state = (advanceFixedWindow windowId count rule nowSecs).1)
    (hdecision : decision = (advanceFixedWindow windowId count rule nowSecs : AlgorithmState F ×
      RateLimitDecision).2) : WindowInv rule (fun w => issued w +
      if decision.withinQuota && decision.resetEpochSecs == (w + 1) * rule.periodSecs
      then 1 else 0) (some entry) := by
  rw [advanceFixedWindow_eq] at hstate hdecision
  have hcarried : issued (nowSecs / rule.periodSecs) ≤
      carriedCount windowId count (nowSecs / rule.periodSecs) := by
    unfold carriedCount
    split
    · rename_i heq
      exact heq ▸ hcount
    · exact (hlater _ (by omega)).le
  generalize carriedCount windowId count (nowSecs / rule.periodSecs) = carried at *
  dsimp only at hstate hdecision
  split at hstate
  · rename_i hroom
    rw [if_pos hroom] at hdecision
    have hissued : ∀ w, (decision.withinQuota &&
        decision.resetEpochSecs == (w + 1) * rule.periodSecs) =
          decide (w = nowSecs / rule.periodSecs) := by
      intro w
      rw [hdecision, Bool.eq_iff_iff]
      simp only [allow_withinQuota, allow_resetEpochSecs, Bool.true_and, beq_iff_eq,
        decide_eq_true_eq]
      exact resetEpoch_eq_iff rule hlt w
    simp only [hissued, decide_eq_true_eq]
    refine ⟨_, _, hstate, ?_, ?_, ?_⟩
    · dsimp only
      rw [if_pos rfl]
      omega
    · intro w
      have := hquota w
      dsimp only
      split
      · subst w
        omega
      · exact this
    · intro w hw
      dsimp only
      rw [if_neg (Nat.ne_of_gt hw), hlater w (by omega)]
  · rename_i hfull
    rw [if_neg hfull] at hdecision
    have hnone : decision.withinQuota = false := by
      subst hdecision
      exact buildExceededDecision_withinQuota _ _ _
    refine ⟨_, _, hstate, ?_, ?_, ?_⟩
    · simpa [hnone] using hcarried
    · simpa [hnone] using hquota
    · intro w hw
      simpa [hnone] using hlater w (by omega)

theorem windowInv_touchEntry {cfg : ShardConfig} (halgorithm : cfg.algorithm = .fixedWindow)
    {entry : Option (ShardEntry F)} (hinv : WindowInv rule issued entry) (nowMs : Nat)
    (hlt : nowSecs < 2 ^ 63)
    (horder : ∀ e windowId count, entry = some e → e.state = .fixedWindow windowId count → windowId
      ≤ nowSecs / rule.periodSecs) : WindowInv rule (fun w => issued w +
        if (touchEntry (entry.getD (newEntry cfg rule nowSecs nowMs)) rule nowSecs
              nowMs).2.withinQuota &&
            (touchEntry (entry.getD (newEntry cfg rule nowSecs nowMs)) rule nowSecs
              nowMs).2.resetEpochSecs == (w + 1) * rule.periodSecs
        then 1 else 0)
      (some (touchEntry (entry.getD (newEntry cfg rule nowSecs nowMs)) rule nowSecs
        nowMs).1) := by
  cases entry with
  | none =>
    have hnew : (newEntry cfg rule nowSecs nowMs : ShardEntry F).state =
        .fixedWindow (nowSecs / rule.periodSecs) 0 := by
      simp [newEntry, halgorithm, init]
    obtain ⟨hstate, hdecision⟩ := touchEntry_of_fixedWindow hnew rule nowSecs nowMs
    exact windowInv_advance (hinv _).le (fun w => (hinv w).le.trans rule.rate_pos.le)
      (fun w _ => hinv w) hlt (Nat.le_refl _) hstate hdecision
  | some e =>
    obtain ⟨windowId, count, hwindow, hcount, hquota, hlater⟩ := hinv
    obtain ⟨hstate, hdecision⟩ := touchEntry_of_fixedWindow hwindow rule nowSecs nowMs
    exact windowInv_advance hcount hquota hlater hlt
      (horder e windowId count rfl hwindow) hstate hdecision

/-! ## All counters -/

def NotFull (cfg : ShardConfig) (s : System F) : Prop :=
  ∀ i, (s.counters.shards i).entries.len < cfg.maxKeysPerShard

instance (cfg : ShardConfig) (s : System F) : Decidable (NotFull cfg s) :=
  inferInstanceAs (Decidable (∀ _, _ < _))

/-- A call that reaches a counter has read the clock in the window of the counter
or in a later one. -/
def InOrder (s : System F) : Action F → Prop
  | .visit i => ∀ call item rest vars identifier entry windowId count,
      s.pending[i]? = some ⟨call, item :: rest, vars⟩ →
      countedUnder call vars item = some identifier →
      entryAt s.counters.shards (item.idx, identifier) = some entry →
      entry.state = .fixedWindow windowId count →
      windowId ≤ call.nowSecs / item.rule.periodSecs
  | _ => True

structure QuotaInv (rules : List CompiledRule) (s : System F) : Prop where
  pending : ∀ p ∈ s.pending, ∀ item ∈ p.remaining,
    rules[item.idx]? = some item.rule
  counters : ∀ item : IndexedRule, rules[item.idx]? = some item.rule →
    ∀ identifier, WindowInv item.rule (issuedIn s.log item identifier)
      (entryAt s.counters.shards (item.idx, identifier))

theorem issuedIn_append_single (log : List Issued) (issued : Issued) (item : IndexedRule)
    (identifier : Bytes) (window : Nat) :
    issuedIn (log ++ [issued]) item identifier window =
      issuedIn log item identifier window +
        if issued.idx == item.idx && issued.identifier == identifier &&
          issued.decision.withinQuota &&
          issued.decision.resetEpochSecs == (window + 1) * item.rule.periodSecs
        then 1 else 0 := by
  simp [issuedIn, List.countP_append, List.countP_cons]

omit [Flonum F] in
theorem quotaInv_initial (haccepted : Accepted env bytes snapshot rules engine) (store : Store F) :
    QuotaInv rules (System.initial engine store) := by
  refine ⟨by simp [System.initial], ?_⟩
  intro item _ identifier
  have hnone : entryAt engine.shards (item.idx, identifier) = none := by
    rw [haccepted.shards]
    rfl
  simp [System.initial, hnone, WindowInv, issuedIn]

theorem quotaInv_visit
    (hmode : engine.mode = .localOnly)
    (halgorithm : engine.shardCfg.algorithm = .fixedWindow) {s : System F}
    (hinv : QuotaInv rules s) (hroom : NotFull engine.shardCfg s)
    {call : RateLimitCall F} {item : IndexedRule}
    (hitem : rules[item.idx]? = some item.rule) {vars : EvalVars}
    (horder : ∀ identifier entry windowId count,
      countedUnder call vars item = some identifier →
      entryAt s.counters.shards (item.idx, identifier) = some entry →
      entry.state = .fixedWindow windowId count →
      windowId ≤ call.nowSecs / item.rule.periodSecs)
    (other : IndexedRule) (hother : rules[other.idx]? = some other.rule)
    (identifier : Bytes) :
    WindowInv other.rule
      (issuedIn (s.log ++ issuedBy engine call vars item s.counters) other identifier)
      (entryAt (evaluateStep engine call (vars, s.counters) item).2.shards
        (other.idx, identifier)) := by
  rw [evaluateStep_counters, issuedBy]
  cases hcounted : countedUnder call vars item with
  | none => simpa using hinv.counters other hother identifier
  | some counted =>
    simp only [evaluateRule_of_local hmode, evaluateLocal]
    have hshard := hroom (hashKey item.idx counted)
    by_cases hkey : (other.idx, identifier) = (item.idx, counted)
    · obtain ⟨hidx, rfl⟩ := Prod.mk.inj hkey
      obtain rfl : other = item := by
        obtain ⟨idx, rule⟩ := other
        simp only at hidx hother hitem
        subst hidx
        rw [hother] at hitem
        rw [Option.some.inj hitem]
      have hstep := windowInv_touchEntry halgorithm
        (hinv.counters other hother identifier) call.nowMs call.now.secs_lt
        (fun e windowId count he => horder identifier e windowId count hcounted he)
      rw [entryAt_evaluateRuleShard_self _ hshard]
      refine (congrArg (fun issued => WindowInv other.rule issued _) ?_).mp hstep
      funext w
      rw [issuedIn_append_single, evaluateRuleShard_decision_of_room _ hshard]
      simp [RateLimitCall.nowSecs, nowEpochSecsAndMs]
    · rw [entryAt_evaluateRuleShard_of_ne _ hshard _ _ _ hkey]
      refine (congrArg (fun issued => WindowInv other.rule issued _) ?_).mp
        (hinv.counters other hother identifier)
      funext w
      rw [issuedIn_append_single, if_neg, Nat.add_zero]
      simp only [Bool.and_eq_true, beq_iff_eq, not_and]
      rintro ⟨⟨hidx, hidentifier⟩, -⟩
      exact absurd (Prod.ext hidx.symm hidentifier.symm) hkey

theorem quotaInv_step (haccepted : Accepted env bytes snapshot rules engine)
    (hmode : engine.mode = .localOnly) (halgorithm : engine.shardCfg.algorithm = .fixedWindow)
    {s t : System F} {a : Action F} (hinv : QuotaInv rules s)
    (hok : NotFull engine.shardCfg s ∧ InOrder s a) (hstep : s.step engine a = some t) :
    QuotaInv rules t := by
  cases System.step_outcome hstep with
  | @start call =>
    refine ⟨?_, hinv.counters⟩
    intro p hp item hitem
    rcases List.mem_append.mp hp with hp | hp
    · exact hinv.pending p hp item hitem
    · obtain rfl := List.mem_singleton.mp hp
      obtain ⟨_, hinserted, -⟩ := BuiltTree.mem_matching.mp hitem
      rw [haccepted.tree] at hinserted
      exact (mem_ruleTree.mp hinserted).1
  | @visit i call item rest vars hpending =>
    have hmem := List.mem_of_getElem? hpending
    refine ⟨?_, quotaInv_visit hmode halgorithm hinv hok.1
      (hinv.pending _ hmem item List.mem_cons_self) ?_⟩
    · intro p hp item' hitem'
      rcases List.mem_or_eq_of_mem_set hp with hp | rfl
      · exact hinv.pending p hp item' hitem'
      · exact hinv.pending _ hmem item' (List.mem_cons_of_mem _ hitem')
    · intro identifier entry windowId count hcounted hentry hstate
      exact hok.2 call item rest vars identifier entry windowId count hpending
        hcounted hentry hstate
  | finish =>
    exact ⟨fun p hp => hinv.pending p (List.mem_of_mem_eraseIdx hp), hinv.counters⟩

/--
In every run without a full shard in which calls reach their counters in the
order of the windows, no window of a counter is issued more decisions within
quota than the rate of its rule.
-/
theorem fixedWindow_quota_of_inOrder {env : Environment} {bytes : Bytes}
    {engine : RateLimitEngine F}
    (haccept : RateLimitEngine.fromSnapshot env bytes = .ok engine)
    (hmode : engine.mode = .localOnly)
    (halgorithm : engine.shardCfg.algorithm = .fixedWindow) (store : Store F)
    {actions : List (Action F)} {s : System F}
    (hrun : RunsUnder (System.step engine)
      (fun s a => NotFull engine.shardCfg s ∧ InOrder s a)
      (System.initial engine store) actions s)
    {p : Bytes} {item : IndexedRule} (hitem : (p, item) ∈ engine.rules.inserted)
    (identifier : Bytes) (window : Nat) :
    issuedIn s.log item identifier window ≤ item.rule.rate := by
  obtain ⟨snapshot, rules, haccepted⟩ := RateLimitEngine.fromSnapshot_ok haccept
  have hinv : QuotaInv rules s :=
    hrun.invariant (fun hinv hok hstep =>
      quotaInv_step haccepted hmode halgorithm hinv hok hstep)
      (quotaInv_initial haccepted store)
  rw [haccepted.tree] at hitem
  have hwindow := hinv.counters item (mem_ruleTree.mp hitem).1 identifier
  cases hentry : entryAt s.counters.shards (item.idx, identifier) with
  | none =>
    rw [hentry] at hwindow
    exact (hwindow window).le.trans (Nat.zero_le _)
  | some entry =>
    rw [hentry] at hwindow
    obtain ⟨-, -, -, -, hquota, -⟩ := hwindow
    exact hquota window

/-! ## A late call -/

def oncePerMinute : Environment :=
  .constant { singleRuleSnapshot .fixedWindow .evictAndTrack
    (catchAllRule 1 none .throttle) with maxKeys := 32 }

def oncePerMinuteRule : CompiledRule := .oncePerPeriod .throttle

def oncePerMinuteEngine : RateLimitEngine ℚ where
  generation := 1
  mode := .localOnly
  shardCfg := ⟨2, .lru, .evictAndTrack, .fixedWindow⟩
  rules := ruleTree [oncePerMinuteRule]
  shards := fun _ => .new
  redis := none

omit [Flonum F] in
theorem inOrder_visit {s : System F} {i : Nat} {p : Pending F} (hpending : s.pending[i]? = some p)
    (h : ∀ item ∈ p.remaining.head?, ∀ identifier ∈ countedUnder p.call p.vars item,
      ∀ entry ∈ entryAt s.counters.shards (item.idx, identifier), ∃ windowId count,
        entry.state = .fixedWindow windowId count ∧
          windowId ≤ p.call.nowSecs / item.rule.periodSecs) :
    InOrder s (.visit i) := by
  intro call item rest vars identifier entry windowId count hpending' hcounted hentry hstate
  obtain rfl := Option.some.inj (hpending.symm.trans hpending')
  obtain ⟨windowId', count', hstate', hle⟩ := h item rfl identifier hcounted entry hentry
  rw [hstate'] at hstate
  cases hstate
  exact hle

/-- Three calls start before any of them reaches the counter.  The second finds it in the window
before its own, the third in its own. -/
def threeCalls : List (Action ℚ) :=
  [ .start (plainCall (ascii "10.0.0.1") 59 (by decide)),
    .start (plainCall (ascii "10.0.0.1") 60 (by decide)),
    .start (plainCall (ascii "10.0.0.1") 61 (by decide)),
    .visit 0, .visit 1, .visit 2 ]

theorem threeCalls_inOrder :
    ∃ s, RunsUnder (System.step oncePerMinuteEngine)
        (fun s a => NotFull oncePerMinuteEngine.shardCfg s ∧ InOrder s a)
        (System.initial oncePerMinuteEngine .empty) threeCalls s ∧ s.log.length = 3 := by
  refine ⟨_, .cons ⟨by decide, trivial⟩ rfl (.cons ⟨by decide, trivial⟩ rfl
    (.cons ⟨by decide, trivial⟩ rfl (.cons ⟨by decide, inOrder_visit rfl ?_⟩ rfl
      (.cons ⟨by decide, inOrder_visit rfl ?_⟩ rfl
        (.cons ⟨by decide, inOrder_visit rfl ?_⟩ rfl (.nil _)))))), rfl⟩
  · rintro item ⟨⟩ identifier ⟨⟩ entry ⟨⟩
  · rintro item ⟨⟩ identifier ⟨⟩ entry ⟨⟩
    exact ⟨_, _, rfl, by decide⟩
  · rintro item ⟨⟩ identifier ⟨⟩ entry ⟨⟩
    exact ⟨_, _, rfl, by decide⟩

theorem fixedWindow_quota_three_calls :
    ∃ s, RunsUnder (System.step oncePerMinuteEngine)
        (fun s a => NotFull oncePerMinuteEngine.shardCfg s ∧ InOrder s a)
        (System.initial oncePerMinuteEngine .empty) threeCalls s ∧ s.log.length = 3 ∧
      issuedIn s.log ⟨0, oncePerMinuteRule⟩ (ascii "10.0.0.1") 1 ≤ 1 := by
  have haccept : RateLimitEngine.fromSnapshot oncePerMinute [0] =
      .ok oncePerMinuteEngine := rfl
  obtain ⟨s, hrun, hlog⟩ := threeCalls_inOrder
  exact ⟨s, hrun, hlog, fixedWindow_quota_of_inOrder haccept rfl rfl .empty hrun
    (mem_ruleTree.mpr ⟨rfl, rfl⟩) _ _⟩

/-- Calls that read the clock in the windows 1, 0 and 1 and arrive in this order
are all within quota, so that window 1 is issued twice its rate. -/
theorem fixedWindow_quota_exceeded_by_late_call :
    ∃ s, RateLimitEngine.fromSnapshot oncePerMinute [0] = .ok oncePerMinuteEngine ∧
      RunsUnder (System.step oncePerMinuteEngine)
        (fun s _ => NotFull oncePerMinuteEngine.shardCfg s)
        (System.initial oncePerMinuteEngine .empty)
        [ .start (plainCall (ascii "10.0.0.1") 60 (by decide)),
          .start (plainCall (ascii "10.0.0.1") 59 (by decide)),
          .start (plainCall (ascii "10.0.0.1") 61 (by decide)),
          .visit 0, .visit 1, .visit 2 ] s ∧
      (ascii "/", (⟨0, oncePerMinuteRule⟩ : IndexedRule)) ∈
        oncePerMinuteEngine.rules.inserted ∧
      issuedIn s.log ⟨0, oncePerMinuteRule⟩ (ascii "10.0.0.1") 1 = 2 ∧
      oncePerMinuteRule.rate = 1 := by
  refine ⟨_, rfl, .cons (by decide) rfl (.cons (by decide) rfl (.cons (by decide) rfl
    (.cons (by decide) rfl (.cons (by decide) rfl (.cons (by decide) rfl (.nil _)))))),
    mem_ruleTree.mpr ⟨rfl, rfl⟩, by decide, rfl⟩

end AuroraGateway.RateLimit
