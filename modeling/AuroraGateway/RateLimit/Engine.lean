import AuroraGateway.Engine.Policy
import AuroraGateway.Engine.RadixRefinement
import AuroraGateway.Foundation.Results
import AuroraGateway.RateLimit.Redis
import AuroraGateway.RateLimit.Shard

/-!
# The rate limit engine

Compilation of a policy, and the evaluation of a request against every rule
whose path prefix and host match it.  The clock, the order of iteration over
hash tables and the fate of calls to Redis are inputs of an evaluation.
-/

namespace AuroraGateway.RateLimit

open Engine Foundation Redis

variable {F : Type}

/-! ## Compilation -/

structure Environment where
  parseSnapshot : Bytes → Option Snapshot
  pools : PoolRegistry

structure IndexedRule where
  idx : Nat
  rule : CompiledRule

structure RateLimitEngine (F : Type) where
  generation : Nat
  mode : RateLimitMode
  shardCfg : ShardConfig
  rules : BuiltTree IndexedRule
  shards : Shards F
  redis : Option RedisRateLimiter

variable (rule : RuleInput)

def compileRejectedCode : Except Error Nat :=
  compileCode 429 rule.rejectedCode rule.actionOnExceeded

def compileResponseHeaders : Except Error (List CompiledHeader) :=
  compileHeaderTable (fun _ => true) rule.responseHeaders

def compileLimitBy : Except Error (LimitBy × Option Bytes) :=
  compileIdentifier rule.limitBy rule.headerName

def compileBurst : Except Error { burst : Nat // rule.rate.toNat ≤ burst ∧ burst < 2 ^ 64 } :=
  match rule.burst with
  | some burst =>
    if burst = 0 then .error .invalidPolicy
    else if h : burst.toNat < rule.rate.toNat then .error .invalidPolicy
    else .ok ⟨burst.toNat, Nat.le_of_not_lt h, burst.toNat_lt⟩
  | none => .ok ⟨rule.rate.toNat, Nat.le_refl _, rule.rate.toNat_lt⟩

def scopeValid : Bool :=
  hostValid rule.host.bytes && !rule.host.bytes.isEmpty &&
    rule.host.bytes.length ≤ 253 && (ascii "/").isPrefixOf rule.pathPrefix.bytes &&
    rule.pathPrefix.bytes.length ≤ 8192 &&
    !rule.pathPrefix.bytes.any fun b => b ≤ 32 || 127 ≤ b

def compileRule : Except Error CompiledRule := do
  let rejectedCode ← compileRejectedCode rule
  if hquota : 0 < rule.rate.toNat ∧ 0 < rule.periodSecs.toNat ∧
      rule.periodSecs.toNat ≤ 86400 then
    if !scopeValid rule then .error .invalidPolicy
    else if rule.customMessage.any fun msg => 2048 < msg.bytes.length then
      .error .invalidPolicy
    else
      let responseHeaders ← compileResponseHeaders rule
      let (limitBy, headerName) ← compileLimitBy rule
      let burst ← compileBurst rule
      .ok
        { id := rule.id
          host := rule.host.bytes
          pathPrefix := rule.pathPrefix.bytes
          limitBy := limitBy
          headerName := headerName
          rate := rule.rate.toNat
          periodSecs := rule.periodSecs.toNat
          burst := burst.1
          actionOnExceeded := rule.actionOnExceeded
          rejectedCode := rejectedCode
          customMessage := rule.customMessage.map Text.bytes
          responseHeaders := responseHeaders
          rate_pos := hquota.1
          period_pos := hquota.2.1
          period_le := hquota.2.2
          rate_le_burst := burst.2.1
          burst_lt := burst.2.2 }
  else .error .invalidPolicy

def ruleOrder : RuleOrder :=
  ruleOrderKey rule.priority rule.host.bytes rule.id.bytes

def budgetValid (snapshot : Snapshot) : Bool :=
  snapshot.schemaVersion == 1 && snapshot.generation.toNat ≤ 2 ^ 63 - 1 &&
    !snapshot.rules.isEmpty && snapshot.rules.length ≤ maxRateLimitRules &&
    0 < snapshot.memorySizeMb.toNat && snapshot.memorySizeMb.toNat ≤ 1024 &&
    16 ≤ snapshot.maxKeys.toNat && snapshot.maxKeys.toNat ≤ 5000000 &&
    snapshot.maxKeys.toNat ≤ snapshot.memorySizeMb.toNat * 1024 * 1024 / 128 &&
    snapshot.maxKeys.toNat / numShards != 0

def compileRedis (env : Environment) (snapshot : Snapshot) :
    Except Error (Option RedisRateLimiter) :=
  if snapshot.mode = .distributed then
    match snapshot.redis with
    | none => .error .invalidPolicy
    | some cfg => do
        let limiter ← RedisRateLimiter.new env.pools cfg snapshot.algorithm
        .ok (some limiter)
  else .ok none

def ruleTree (rules : List CompiledRule) : BuiltTree IndexedRule :=
  .ofList (rules.zipIdx.map fun (rule, idx) => (rule.pathPrefix, ⟨idx, rule⟩))

def compileSnapshot (env : Environment) (snapshot : Snapshot) :
    Except Error (RateLimitEngine F) := do
  if !budgetValid snapshot then .error .invalidPolicy
  else if !checkIds [] (snapshot.rules.map fun rule => rule.id.bytes) then .error .invalidPolicy
  else
    let rules ← (sortByKey ruleOrder snapshot.rules).mapM compileRule
    let redis ← compileRedis env snapshot
    .ok
      { generation := snapshot.generation.toNat
        mode := snapshot.mode
        shardCfg :=
          { maxKeysPerShard := snapshot.maxKeys.toNat / numShards
            evictionPolicy := snapshot.evictionPolicy
            overflowStrategy := snapshot.overflowStrategy
            algorithm := snapshot.algorithm }
        rules := ruleTree rules
        shards := fun _ => .new
        redis := redis }

def RateLimitEngine.fromSnapshot (env : Environment) (bytes : Bytes) :
    Except Error (RateLimitEngine F) :=
  if bytes.isEmpty || maxRateLimitPolicyBytes < bytes.length then
    .error .invalidPolicy
  else
    match env.parseSnapshot bytes with
    | none => .error .invalidPolicy
    | some snapshot => compileSnapshot env snapshot

structure Accepted (env : Environment) (bytes : Bytes) (snapshot : Snapshot)
    (rules : List CompiledRule) (engine : RateLimitEngine F) : Prop where
  parsed : env.parseSnapshot bytes = some snapshot
  budget : budgetValid snapshot = true
  ids : checkIds [] (snapshot.rules.map fun rule => rule.id.bytes) = true
  compiled : (sortByKey ruleOrder snapshot.rules).mapM compileRule = .ok rules
  redis : compileRedis env snapshot = .ok engine.redis
  mode : engine.mode = snapshot.mode
  maxKeysPerShard : engine.shardCfg.maxKeysPerShard = snapshot.maxKeys.toNat / numShards
  tree : engine.rules = ruleTree rules
  shards : engine.shards = fun _ => .new

theorem RateLimitEngine.fromSnapshot_ok {env : Environment} {bytes : Bytes}
    {engine : RateLimitEngine F} (h : fromSnapshot env bytes = .ok engine) :
    ∃ snapshot rules, Accepted env bytes snapshot rules engine := by
  obtain ⟨-, h⟩ := of_check h
  split at h
  · cases h
  · rename_i snapshot hparse
    obtain ⟨hbudget, h⟩ := of_check h
    obtain ⟨hids, h⟩ := of_check h
    obtain ⟨rules, hrules, h⟩ := exists_of_bind_ok h
    obtain ⟨redis, hredis, h⟩ := exists_of_bind_ok h
    obtain rfl := Except.ok.inj h
    exact ⟨snapshot, rules, hparse, by simpa using hbudget, by simpa using hids, hrules, hredis,
      rfl, rfl, rfl, rfl⟩

theorem mem_ruleTree {rules : List CompiledRule} {p : Bytes} {item : IndexedRule} :
    (p, item) ∈ (ruleTree rules).inserted ↔
      rules[item.idx]? = some item.rule ∧ p = item.rule.pathPrefix := by
  simp only [ruleTree, BuiltTree.ofList_inserted, List.mem_map, Prod.exists,
    List.mem_zipIdx_iff_getElem?]
  constructor
  · rintro ⟨rule, idx, hget, heq⟩
    obtain ⟨rfl, rfl⟩ := Prod.mk.inj heq
    exact ⟨hget, rfl⟩
  · rintro ⟨hget, rfl⟩
    exact ⟨item.rule, item.idx, hget, rfl⟩

def catchAllRule (rate : UInt64) (burst : Option UInt64) (action : ActionOnExceeded) :
    RuleInput where
  id := plainRuleId
  priority := 0
  host := wildcardText
  pathPrefix := rootText
  limitBy := clientIpText
  headerName := none
  rate := rate
  periodSecs := 60
  burst := burst
  actionOnExceeded := action
  rejectedCode := none
  customMessage := none
  responseHeaders := none

def singleRuleSnapshot (algorithm : RateLimitAlgorithm) (strategy : OverflowStrategy)
    (rule : RuleInput) : Snapshot where
  schemaVersion := 1
  generation := 1
  mode := .localOnly
  algorithm := algorithm
  memorySizeMb := 1
  maxKeys := 16
  evictionPolicy := .lru
  overflowStrategy := strategy
  redis := none
  rules := [rule]

def Environment.constant (snapshot : Snapshot) : Environment where
  parseSnapshot := fun _ => some snapshot
  pools := fun _ _ _ => true

/-! ## Custom responses -/

def templateVars (decision : RateLimitDecision) (rule : CompiledRule) :
    List (Bytes × Bytes) :=
  let retryAfter := decimal decision.retryAfterSecs
  let remaining := decimal decision.remaining
  let resetEpoch := decimal decision.resetEpochSecs
  let limit := decimal rule.burst
  let rate := decimal rule.rate
  let burst := decimal rule.burst
  let statusCode := decimal decision.statusCode
  let customReason := decision.customReason.getD []
  [ (ascii "$\x7bretry_after\x7d", retryAfter), (ascii "$retry_after", retryAfter),
    (ascii "$\x7bremaining\x7d", remaining), (ascii "$remaining", remaining),
    (ascii "$\x7breset_epoch\x7d", resetEpoch), (ascii "$reset_epoch", resetEpoch),
    (ascii "$\x7blimit\x7d", limit), (ascii "$limit", limit),
    (ascii "$\x7brate\x7d", rate), (ascii "$rate", rate),
    (ascii "$\x7bburst\x7d", burst), (ascii "$burst", burst),
    (ascii "$\x7bstatus_code\x7d", statusCode), (ascii "$status_code", statusCode),
    (ascii "$\x7bcustom_reason\x7d", customReason),
    (ascii "$custom_reason", customReason) ]

def renderHeaders (headers : List CompiledHeader) (vars : List (Bytes × Bytes)) :
    List ResolvedHeader :=
  (headers.map fun h =>
    (⟨renderTemplate h.name vars, renderTemplate h.value vars⟩ : ResolvedHeader)).filter
      fun h => !h.name.isEmpty

def applyCustomResponse (decision : RateLimitDecision) (rule : CompiledRule) :
    RateLimitDecision :=
  let vars := templateVars decision rule
  let headers :=
    if rule.responseHeaders.isEmpty then decision.headers
    else renderHeaders rule.responseHeaders vars
  let body :=
    match rule.customMessage with
    | some message => some (renderTemplate message vars)
    | none =>
      match decision.customReason.filter fun reason => !reason.isEmpty with
      | some reason => some reason
      | none => decision.body
  { decision with
    headers := headers
    body := body }

/-! ## Evaluation -/

/-- A reading of the wall clock, as the time since the epoch. -/
structure Duration where
  secs : Nat
  nanos : Nat
  secs_lt : secs < 2 ^ 63
  nanos_lt : nanos < 10 ^ 9

def Duration.epoch : Duration := ⟨0, 0, by decide, by decide⟩

def nowEpochSecsAndMs (now : Duration) : Nat × Nat :=
  (now.secs, wrapU64 (now.secs * 1000 + now.nanos / 1000000))

structure RateLimitCall (F : Type) where
  host : Bytes
  path : Bytes
  clientIp : Bytes
  headerLookup : Bytes → Option Bytes
  now : Duration
  order : Nat → ShardOrder F
  fate : Nat → CallFate
  customScript : Text → Script F

def RateLimitCall.nowSecs (call : RateLimitCall F) : Nat :=
  (nowEpochSecsAndMs call.now).1

def RateLimitCall.nowMs (call : RateLimitCall F) : Nat :=
  (nowEpochSecsAndMs call.now).2

def plainCall (clientIp : Bytes) (secs : Nat) (h : secs < 2 ^ 63) : RateLimitCall F where
  host := ascii "a"
  path := ascii "/"
  clientIp := clientIp
  headerLookup := fun _ => none
  now := ⟨secs, 0, h, by decide⟩
  order := fun _ => .asStored _ _
  fate := fun _ => .answered
  customScript := fun _ _ store => (store, none)

structure EvalVars where
  matchedAny : Bool
  minRemaining : Nat
  maxResetEpoch : Nat
  auditDecision : Option RateLimitDecision
  blockedDecision : Option RateLimitDecision
  evalErr : Option Error

def EvalVars.initial : EvalVars := ⟨false, u32Max, 0, none, none, none⟩

structure Counters (F : Type) where
  shards : Shards F
  store : Store F

def invalidRequest (host path clientIp : Bytes) : Bool :=
  253 < host.length || host.contains 0 || path.isEmpty ||
    maxPathBytes < path.length || path.head? != some slash || path.contains 0 ||
    clientIp.isEmpty || 64 < clientIp.length || clientIp.contains 0

def ruleIdentifier (call : RateLimitCall F) (rule : CompiledRule) : Option Bytes :=
  match rule.limitBy with
  | .clientIp => some call.clientIp
  | .routePath => some call.path
  | .header =>
    (rule.headerName.bind call.headerLookup).filter fun value => !value.isEmpty

def onErrorBlockDecision (rule : CompiledRule) (nowSecs : Nat) : RateLimitDecision where
  allowed := false
  action := rule.actionOnExceeded
  statusCode := rule.rejectedCode
  retryAfterSecs := 1
  remaining := 0
  resetEpochSecs := wrapU64 (nowSecs + 1)
  customReason := none
  headers := []
  body := none

def recordDecision (vars : EvalVars) (rule : CompiledRule) (decision : RateLimitDecision) :
    EvalVars :=
  if decision.allowed then
    { vars with
      minRemaining := min vars.minRemaining decision.remaining
      maxResetEpoch := max vars.maxResetEpoch decision.resetEpochSecs
      auditDecision :=
        if decision.action = .audit then some decision else vars.auditDecision }
  else { vars with blockedDecision := some (applyCustomResponse decision rule) }

section Evaluate

variable [Flonum F] (engine : RateLimitEngine F) (call : RateLimitCall F)

def evaluateLocal (item : IndexedRule) (identifier : Bytes) (counters : Counters F) :
    Counters F × RateLimitDecision :=
  let (shards, decision) :=
    evaluateRuleShard (call.order item.idx) engine.shardCfg counters.shards item.idx
      item.rule identifier call.nowSecs call.nowMs
  ({ counters with shards := shards }, decision)

def RateLimitEngine.activeRedis : Option RedisRateLimiter :=
  if engine.mode = .distributed then engine.redis else none

def evaluateRule (item : IndexedRule) (identifier : Bytes) (counters : Counters F) :
    Counters F × RateLimitDecision :=
  match engine.activeRedis with
  | some limiter =>
    match limiter.evaluate call.customScript (call.fate item.idx) item.rule identifier
        call.nowMs counters.store with
    | (store, some decision) => ({ counters with store := store }, decision)
    | (store, none) =>
      match limiter.onError with
      | .fallbackLocal =>
        evaluateLocal engine call item identifier { counters with store := store }
      | .pass => ({ counters with store := store }, .allow u32Max 0)
      | .block =>
        ({ counters with store := store },
          onErrorBlockDecision item.rule call.nowSecs)
  | none => evaluateLocal engine call item identifier counters

/-- The closure that runs for every rule whose path prefix matches. -/
def evaluateStep (state : EvalVars × Counters F) (item : IndexedRule) : EvalVars × Counters F :=
  let (vars, counters) := state
  if vars.evalErr.isSome || vars.blockedDecision.isSome then (vars, counters)
  else if !hostMatches item.rule.host call.host then (vars, counters)
  else
    let vars := { vars with matchedAny := true }
    match ruleIdentifier call item.rule with
    | none => ({ vars with evalErr := some .invalidRequest }, counters)
    | some identifier =>
      let (counters, decision) := evaluateRule engine call item identifier counters
      (recordDecision vars item.rule decision, counters)

def EvalVars.result (vars : EvalVars) : Except Error RateLimitDecision :=
  match vars.evalErr, vars.blockedDecision, vars.auditDecision with
  | some err, _, _ => .error err
  | none, some decision, _ => .ok decision
  | none, none, some audit =>
    .ok { audit with
      remaining := vars.minRemaining
      resetEpochSecs := vars.maxResetEpoch }
  | none, none, none =>
    if vars.matchedAny then .ok (.allow vars.minRemaining vars.maxResetEpoch)
    else .ok (.allow u32Max 0)

def RateLimitEngine.evaluate (store : Store F) :
    RateLimitEngine F × Store F × Except Error RateLimitDecision :=
  if invalidRequest call.host call.path call.clientIp then
    (engine, store, .error .invalidRequest)
  else
    let (vars, counters) :=
      engine.rules.forEachMatch call.path (evaluateStep engine call)
        (EvalVars.initial, ⟨engine.shards, store⟩)
    ({ engine with shards := counters.shards }, counters.store, vars.result)

end Evaluate

end AuroraGateway.RateLimit
