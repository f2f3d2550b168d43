import AuroraGateway.RateLimit.Engine

/-!
# Audit rules

A rule with the action `audit` is meant to watch and not to refuse.  The local
algorithms keep to this.  A request is refused nevertheless where a decision is
made outside of them: when a full shard drops a new key, when the server counts
the request as exceeded, and when a failed call to the server blocks.
-/

namespace AuroraGateway.RateLimit

open Engine Foundation Redis
open Flonum

variable {F : Type} [Flonum F]

/-! ## Local decisions -/

variable {rule : CompiledRule} {item : IndexedRule} {vars : EvalVars}

theorem buildExceededDecision_allowed_of_audit
    (haudit : rule.actionOnExceeded = .audit) (retryAfter resetEpoch : Nat) :
    (buildExceededDecision rule retryAfter resetEpoch).allowed = true := by
  simp [buildExceededDecision, haudit]

theorem advance_allowed_of_audit
    (haudit : rule.actionOnExceeded = .audit) (state : AlgorithmState F)
    (nowSecs nowMs : Nat) : (state.advance rule nowSecs nowMs).2.allowed = true := by
  rcases state.advance_decision rule nowSecs nowMs with
    ⟨remaining, resetEpoch, hdecision⟩ | ⟨retryAfter, resetEpoch, hdecision⟩
  · rw [hdecision]
    rfl
  · rw [hdecision]
    exact buildExceededDecision_allowed_of_audit haudit _ _

/-- A new key meets a shard that stays full after its sweep and drops new keys. -/
def DropsNewKey (cfg : ShardConfig) (rule : CompiledRule) (nowSecs : Nat)
    (mapKey : RateLimitKey) (shard : Shard F) : Prop :=
  cfg.overflowStrategy = .dropNew ∧ shard.entries.get? mapKey = none ∧
    cfg.maxKeysPerShard ≤ shard.entries.len ∧
    cfg.maxKeysPerShard ≤
      (ttlSweep (nowSecs - rule.periodSecs * 2) (shard.lower nowSecs)).entries.len

omit [Flonum F] in
theorem makeRoom_refusal_iff (order : ShardOrder F) (cfg : ShardConfig)
    (rule : CompiledRule) (nowSecs : Nat) (shard : Shard F) :
    (∃ decision, (makeRoom ttlSweep order cfg rule nowSecs (shard.lower nowSecs)).2 =
        some decision ∧ decision.allowed = false) ↔
      cfg.overflowStrategy = .dropNew ∧ cfg.maxKeysPerShard ≤ shard.entries.len ∧
        cfg.maxKeysPerShard ≤
          (ttlSweep (nowSecs - rule.periodSecs * 2) (shard.lower nowSecs)).entries.len := by
  have hlower : (shard.lower nowSecs).entries.len = shard.entries.len := rfl
  unfold makeRoom applyOverflow
  rw [hlower]
  by_cases hfull : cfg.maxKeysPerShard ≤ shard.entries.len
  · rw [if_pos hfull]
    by_cases hstill : cfg.maxKeysPerShard ≤
        (ttlSweep (nowSecs - rule.periodSecs * 2) (shard.lower nowSecs)).entries.len
    · rw [if_pos hstill]
      cases cfg.overflowStrategy with
      | bypassNew => simp [RateLimitDecision.allow]
      | dropNew => simp [hfull, hstill, dropNewDecision]
      | evictAndTrack =>
        dsimp only
        split <;> simp
    · simp [hstill]
  · simp [hfull]

theorem evaluateShard_allowed_iff
    (haudit : rule.actionOnExceeded = .audit) (order : ShardOrder F) (cfg : ShardConfig)
    (shard : Shard F) (mapKey : RateLimitKey) (nowSecs nowMs : Nat) :
    (evaluateShardBy ttlSweep order cfg shard mapKey rule nowSecs nowMs).2.allowed = true ↔
      ¬ DropsNewKey cfg rule nowSecs mapKey shard := by
  have hroom := makeRoom_refusal_iff order cfg rule nowSecs shard
  have houtcome :=
    evaluateShardBy_outcome ttlSweep order cfg shard mapKey rule nowSecs nowMs
  generalize evaluateShardBy ttlSweep order cfg shard mapKey rule nowSecs nowMs =
    result at houtcome ⊢
  cases houtcome with
  | @hit entry hentry =>
    simp [DropsNewKey, hentry, storeTouched, touchEntry,
      advance_allowed_of_audit haudit]
  | @refused shard' decision habsent hmake =>
    rw [hmake] at hroom
    simp only [DropsNewKey, habsent, true_and]
    rw [← hroom]
    simp
  | @tracked shard' habsent hmake =>
    rw [hmake] at hroom
    simp only [DropsNewKey, habsent, true_and]
    rw [← hroom]
    simp [storeTouched, touchEntry, advance_allowed_of_audit haudit]

/-! ## Decisions of the server -/

/-- Whether a script counts the request as within quota; `none` if the key has a
value that the script does not work on. -/
def scriptVerdict (algorithm : RateLimitAlgorithm) (args : ScriptArgs) (store : Store F) :
    Option Bool :=
  match algorithm with
  | .tokenBucket => (store.hashFields args.key).map fun data =>
    decide (ofNat 1 ≤ scriptTokens args data)
  | .leakyBucket => (store.hashFields args.key).map fun data =>
    decide (scriptWatermark args data + ofNat 1 ≤ ofNat args.burst)
  | .fixedWindow =>
    (store.incr (windowKey args.key (scriptWindow args : F))).map fun (_, count) =>
      decide ((ofReply count : F) ≤ scriptLimit args)
  | .slidingWindow => (store.members args.key).map fun members =>
    decide (¬ (scriptLimit args : F) ≤ ofNat (liveMembers args members).len)

theorem decisionOfReply_scriptReply (rule : CompiledRule) (allowed : Bool)
    (remaining retryAfter resetEpoch : F) :
    (decisionOfReply rule (scriptReply allowed remaining retryAfter resetEpoch)).map
      RateLimitDecision.allowed = some allowed := by
  cases allowed <;> rfl

theorem builtinScript_verdict (algorithm : RateLimitAlgorithm) (args : ScriptArgs)
    (store : Store F) (rule : CompiledRule) :
    ((builtinScript algorithm args store).2.bind (decisionOfReply rule)).map
        RateLimitDecision.allowed = scriptVerdict algorithm args store := by
  cases algorithm with
  | tokenBucket =>
    simp only [scriptVerdict, builtinScript, tokenBucketScript]
    cases store.hashFields args.key with
    | none => rfl
    | some data => exact decisionOfReply_scriptReply rule _ _ _ _
  | leakyBucket =>
    simp only [scriptVerdict, builtinScript, leakyBucketScript]
    cases store.hashFields args.key with
    | none => rfl
    | some data => exact decisionOfReply_scriptReply rule _ _ _ _
  | fixedWindow =>
    simp only [scriptVerdict, builtinScript, fixedWindowScript]
    cases store.incr (windowKey args.key (scriptWindow args : F)) with
    | none => rfl
    | some result => exact decisionOfReply_scriptReply rule _ _ _ _
  | slidingWindow =>
    simp only [scriptVerdict, builtinScript, slidingWindowScript]
    cases store.members args.key with
    | none => rfl
    | some members => exact decisionOfReply_scriptReply rule _ _ _ _

def serverVerdict (limiter : RedisRateLimiter) (call : RateLimitCall F)
    (item : IndexedRule) (identifier : Bytes) (store : Store F) : Option Bool :=
  match call.fate item.idx, limiter.script with
  | .answered, .builtin algorithm =>
    scriptVerdict algorithm (limiter.args item.rule identifier call.nowMs) store
  | _, _ => none

theorem redisEvaluate_verdict {limiter : RedisRateLimiter} {algorithm : RateLimitAlgorithm}
    (hscript : limiter.script = .builtin algorithm) (call : RateLimitCall F)
    (item : IndexedRule) (identifier : Bytes) (store : Store F) :
    (limiter.evaluate call.customScript (call.fate item.idx) item.rule identifier
        call.nowMs store).2.map RateLimitDecision.allowed =
      serverVerdict limiter call item identifier store := by
  simp only [serverVerdict, RedisRateLimiter.evaluate, RedisRateLimiter.run, hscript]
  cases call.fate item.idx with
  | lostRequest => rfl
  | lostReply => rfl
  | answered => exact builtinScript_verdict algorithm _ store item.rule

/-! ## One rule -/

def Admits (engine : RateLimitEngine F) (call : RateLimitCall F) (item : IndexedRule)
    (identifier : Bytes) (counters : Counters F) : Prop :=
  let keeps := ¬ DropsNewKey engine.shardCfg item.rule call.nowSecs
    (item.idx, identifier) (counters.shards (hashKey item.idx identifier))
  match engine.activeRedis with
  | some limiter =>
    match serverVerdict limiter call item identifier counters.store with
    | some verdict => verdict = true
    | none =>
      match limiter.onError with
      | .fallbackLocal => keeps
      | .pass => True
      | .block => False
  | none => keeps

def OwnScripts (engine : RateLimitEngine F) : Prop :=
  ∀ limiter, engine.redis = some limiter →
    ∃ algorithm, limiter.script = .builtin algorithm

theorem evaluateLocal_allowed_iff (engine : RateLimitEngine F) (call : RateLimitCall F)
    (haudit : item.rule.actionOnExceeded = .audit)
    (identifier : Bytes) (counters : Counters F) :
    (evaluateLocal engine call item identifier counters).2.allowed = true ↔
      ¬ DropsNewKey engine.shardCfg item.rule call.nowSecs (item.idx, identifier)
        (counters.shards (hashKey item.idx identifier)) :=
  evaluateShard_allowed_iff haudit _ _ _ _ _ _

variable {engine : RateLimitEngine F} {decision : RateLimitDecision}

theorem evaluateRule_allowed_iff (hown : OwnScripts engine) (call : RateLimitCall F)
    (haudit : item.rule.actionOnExceeded = .audit) (identifier : Bytes) (counters : Counters F) :
    (evaluateRule engine call item identifier counters).2.allowed = true ↔
      Admits engine call item identifier counters := by
  cases hredis : engine.activeRedis with
  | none =>
    simp only [evaluateRule, Admits, hredis]
    exact evaluateLocal_allowed_iff engine call haudit identifier _
  | some limiter =>
    obtain ⟨algorithm, hscript⟩ : ∃ algorithm, limiter.script = .builtin algorithm := by
      unfold RateLimitEngine.activeRedis at hredis
      split at hredis
      · exact hown limiter hredis
      · simp at hredis
    have hverdict := redisEvaluate_verdict hscript call item identifier counters.store
    simp only [evaluateRule, Admits, hredis, ← hverdict]
    rcases limiter.evaluate call.customScript (call.fate item.idx) item.rule
        identifier call.nowMs counters.store with ⟨store, reply⟩
    cases reply with
    | some decision => exact Iff.rfl
    | none =>
      cases limiter.onError with
      | fallbackLocal =>
        exact evaluateLocal_allowed_iff engine call haudit identifier _
      | pass => simp [RateLimitDecision.allow]
      | block => simp [onErrorBlockDecision]

/-! ## One request -/

def AllAdmit (engine : RateLimitEngine F) (call : RateLimitCall F) :
    List IndexedRule → Counters F → Prop
  | [], _ => True
  | item :: items, counters =>
    if hostMatches item.rule.host call.host then
      match ruleIdentifier call item.rule with
      | none => True
      | some identifier =>
        Admits engine call item identifier counters ∧
          AllAdmit engine call items
            (evaluateRule engine call item identifier counters).1
    else AllAdmit engine call items counters

theorem foldl_evaluateStep_of_done (engine : RateLimitEngine F) (call : RateLimitCall F)
    (items : List IndexedRule) (counters : Counters F)
    (hdone : (vars.evalErr.isSome || vars.blockedDecision.isSome) = true) :
    items.foldl (evaluateStep engine call) (vars, counters) = (vars, counters) := by
  induction items with
  | nil => rfl
  | cons item items ih =>
    have hstep : evaluateStep engine call (vars, counters) item = (vars, counters) := by
      simp only [evaluateStep]
      rw [if_pos hdone]
    rw [List.foldl_cons, hstep, ih]

structure Unrefused (vars : EvalVars) : Prop where
  evalErr : vars.evalErr = none
  blockedDecision : vars.blockedDecision = none
  auditDecision : ∀ decision, vars.auditDecision = some decision → decision.allowed = true

theorem unrefused_initial : Unrefused EvalVars.initial := ⟨rfl, rfl, by simp [EvalVars.initial]⟩

theorem Unrefused.recordDecision (h : Unrefused vars) (rule : CompiledRule)
    (hallowed : decision.allowed = true) :
    Unrefused (recordDecision { vars with matchedAny := true } rule decision) := by
  simp only [RateLimit.recordDecision, hallowed, if_true]
  refine ⟨h.evalErr, h.blockedDecision, ?_⟩
  intro d hd
  split at hd
  · obtain rfl := Option.some.inj hd
    exact hallowed
  · exact h.auditDecision d hd

theorem Unrefused.result_allowed (h : Unrefused vars) :
    ∃ decision, vars.result = .ok decision ∧ decision.allowed = true := by
  simp only [EvalVars.result, h.evalErr, h.blockedDecision]
  cases haudit : vars.auditDecision with
  | some audit => exact ⟨_, rfl, h.auditDecision audit haudit⟩
  | none =>
    dsimp only
    split
    · exact ⟨_, rfl, rfl⟩
    · exact ⟨_, rfl, rfl⟩

theorem foldl_evaluateStep_allowed_iff (hown : OwnScripts engine) (call : RateLimitCall F)
    (items : List IndexedRule)
    (haudit : ∀ item ∈ items, hostMatches item.rule.host call.host = true →
      item.rule.actionOnExceeded = .audit) (hvars : Unrefused vars) (counters : Counters F)
    (hresult : (items.foldl (evaluateStep engine call) (vars, counters)).1.result = .ok decision) :
    decision.allowed = true ↔ AllAdmit engine call items counters := by
  induction items generalizing vars counters with
  | nil =>
    obtain ⟨decision', hok, hallowed⟩ := hvars.result_allowed
    rw [List.foldl_nil, hok] at hresult
    obtain rfl := Except.ok.inj hresult
    simp [hallowed, AllAdmit]
  | cons item items ih =>
    have hitems := fun i hi => haudit i (List.mem_cons_of_mem _ hi)
    have hgo : (vars.evalErr.isSome || vars.blockedDecision.isSome) = false := by
      simp [hvars.evalErr, hvars.blockedDecision]
    rw [List.foldl_cons] at hresult
    simp only [evaluateStep, hgo, Bool.false_eq_true, if_false] at hresult
    cases hhost : hostMatches item.rule.host call.host with
    | false =>
      simp only [hhost, Bool.not_false, if_true] at hresult
      simp only [AllAdmit, hhost, Bool.false_eq_true, if_false]
      exact ih hitems hvars counters hresult
    | true =>
      simp only [hhost, Bool.not_true, Bool.false_eq_true, if_false] at hresult
      simp only [AllAdmit, hhost, if_true]
      cases hidentifier : ruleIdentifier call item.rule with
      | none =>
        rw [hidentifier] at hresult
        rw [foldl_evaluateStep_of_done _ _ _ _ (by simp)] at hresult
        simp [EvalVars.result] at hresult
      | some identifier =>
        rw [hidentifier] at hresult
        dsimp only at hresult ⊢
        rw [← evaluateRule_allowed_iff hown call
          (haudit item List.mem_cons_self hhost) identifier counters]
        cases hallowed :
            (evaluateRule engine call item identifier counters).2.allowed with
        | true =>
          simp only [true_and]
          exact ih hitems (hvars.recordDecision item.rule hallowed) _ hresult
        | false =>
          -- The refusal is the result, whatever rules come later.
          rw [foldl_evaluateStep_of_done _ _ _ _
            (by simp [recordDecision, hallowed])] at hresult
          simp only [recordDecision, hallowed, EvalVars.result, hvars.evalErr,
            Bool.false_eq_true, if_false, Except.ok.injEq] at hresult
          simp [← hresult, applyCustomResponse, hallowed]

/--
A request all of whose matching rules are audit rules is allowed if and only if
no matching rule drops its key in a full shard, finds it over quota on the
server, or blocks because the call to the server failed.
-/
theorem audit_evaluate_allowed_iff {engine : RateLimitEngine F}
    (hown : OwnScripts engine) (shards : Shards F) (store : Store F)
    (call : RateLimitCall F)
    (haudit : ∀ item ∈ engine.rules.matching call.path,
      hostMatches item.rule.host call.host = true → item.rule.actionOnExceeded = .audit)
    {decision : RateLimitDecision}
    (hok : (RateLimitEngine.evaluate { engine with shards := shards } call store).2.2 =
      .ok decision) :
    decision.allowed = true ↔
      AllAdmit engine call (engine.rules.matching call.path) ⟨shards, store⟩ := by
  unfold RateLimitEngine.evaluate at hok
  split at hok
  · simp at hok
  · rw [BuiltTree.forEachMatch_eq] at hok
    exact foldl_evaluateStep_allowed_iff hown call _ haudit unrefused_initial _ hok

/-! ## A dropped key -/

def auditPolicy : Environment :=
  .constant (singleRuleSnapshot .fixedWindow .dropNew (catchAllRule 1 none .audit))

def auditEngine : RateLimitEngine ℚ where
  generation := 1
  mode := .localOnly
  shardCfg := ⟨1, .lru, .dropNew, .fixedWindow⟩
  rules := ruleTree [.oncePerPeriod .audit]
  shards := fun _ => .new
  redis := none

theorem auditEngine_rules_audit {path : Bytes}
    (h : item ∈ auditEngine.rules.matching path) :
    item.rule.actionOnExceeded = .audit := by
  obtain ⟨p, hinserted, -⟩ := BuiltTree.mem_matching.mp h
  have hmem := List.mem_of_getElem? (mem_ruleTree.mp hinserted).1
  rw [List.mem_singleton.mp hmem]
  rfl

theorem audit_first_client_allowed :
    ∃ decision : RateLimitDecision,
      (auditEngine.evaluate (plainCall (ascii "10.0.0.1") 100 (by decide))
        .empty).2.2 = .ok decision ∧
      (decision.allowed = true ↔
        AllAdmit auditEngine (plainCall (ascii "10.0.0.1") 100 (by decide))
          (auditEngine.rules.matching (ascii "/")) ⟨auditEngine.shards, .empty⟩) :=
  ⟨_, rfl, audit_evaluate_allowed_iff (fun _ h => by simp [auditEngine] at h)
    auditEngine.shards .empty _ (fun _ h _ => auditEngine_rules_audit h) rfl⟩

/-- The second client has a counter in the same shard and is refused. -/
theorem audit_second_client_refused :
    RateLimitEngine.fromSnapshot auditPolicy [0] = .ok auditEngine ∧
      (∀ item ∈ auditEngine.rules.matching (ascii "/"),
        item.rule.actionOnExceeded = .audit) ∧
      ((auditEngine.evaluate (plainCall (ascii "10.0.0.1") 100 (by decide))
          .empty).1.evaluate (plainCall (ascii "10.0.0.12") 101 (by decide))
            .empty).2.2.toOption.map RateLimitDecision.allowed = some false :=
  ⟨rfl, fun _ h => auditEngine_rules_audit h, by decide⟩

end AuroraGateway.RateLimit
