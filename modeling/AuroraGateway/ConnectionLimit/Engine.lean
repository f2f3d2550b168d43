import AuroraGateway.ConnectionLimit.Redis
import AuroraGateway.ConnectionLimit.Tracker
import AuroraGateway.Engine.Policy
import AuroraGateway.Foundation.Results
import AuroraGateway.Foundation.StableSort

/-!
# The connection limit engine

Compilation of a policy, and the acquisition and release of connections.  A
request takes a slot of the first rule that matches it.
-/

namespace AuroraGateway.ConnectionLimit

open Engine Foundation Redis

variable {F : Type}

/-! ## Compilation -/

structure Environment where
  parseSnapshot : Bytes → Option ConnLimitSnapshot
  pools : PoolRegistry

structure ConnectionLimitEngine where
  generation : Nat
  mode : ConnLimitMode
  rules : List CompiledRule
  localTracker : ShardedConnTracker
  redis : Option RedisConnectionLimiter

variable (rule : RuleInput)

def compileRejectedCode : Except Error Nat :=
  compileCode 503 rule.rejectedCode rule.actionOnExceeded

def compileResponseHeaders : Except Error (List CompiledHeader) :=
  compileHeaderTable (fun name => name.all isHeaderNameByte) rule.responseHeaders

def compileLimitBy : Except Error (LimitBy × Option Bytes) :=
  compileIdentifier rule.limitBy rule.headerName

def scopeValid : Bool :=
  hostValid rule.host.bytes && !rule.host.bytes.isEmpty &&
    rule.host.bytes.length ≤ 253 && (ascii "/").isPrefixOf rule.pathPrefix.bytes &&
    rule.pathPrefix.bytes.length ≤ maxPathBytes

def compileRule : Except Error CompiledRule := do
  let rejectedCode ← compileRejectedCode rule
  if hmax : 0 < rule.maxConnections.toNat then
    if !scopeValid rule then .error .invalidPolicy
    else
      let responseHeaders ← compileResponseHeaders rule
      let (limitBy, headerName) ← compileLimitBy rule
      .ok
        { id := rule.id
          host := rule.host.bytes
          pathPrefix := rule.pathPrefix.bytes
          limitBy := limitBy
          headerName := headerName
          maxConnections := rule.maxConnections.toNat
          actionOnExceeded := rule.actionOnExceeded
          rejectedCode := rejectedCode
          responseHeaders := responseHeaders
          responseBody := rule.responseBody.map Text.bytes
          max_pos := hmax
          max_lt := rule.maxConnections.toNat_lt }
  else .error .invalidPolicy

def ruleOrder : RuleOrder :=
  ruleOrderKey rule.priority rule.host.bytes rule.id.bytes

def compileRedis (env : Environment) (snapshot : ConnLimitSnapshot) :
    Except Error (Option RedisConnectionLimiter) :=
  match snapshot.mode with
  | .localOnly => .ok none
  | .distributed =>
    match snapshot.redis with
    | none => .error .invalidPolicy
    | some cfg => do
        let limiter ← RedisConnectionLimiter.new env.pools cfg
        .ok (some limiter)

def compileSnapshot (env : Environment) (snapshot : ConnLimitSnapshot) :
    Except Error ConnectionLimitEngine := do
  if snapshot.schemaVersion ≠ 1 then .error .invalidPolicy
  else if maxConnLimitRules < snapshot.rules.length then .error .invalidPolicy
  else if !checkIds [] (snapshot.rules.map fun rule => rule.id.bytes) then
    .error .invalidPolicy
  else
    let rules ← (sortByKey ruleOrder snapshot.rules).mapM compileRule
    let redis ← compileRedis env snapshot
    .ok
      { generation := snapshot.generation.toNat
        mode := snapshot.mode
        rules := rules
        localTracker := .new
        redis := redis }

def ConnectionLimitEngine.fromSnapshot (env : Environment) (bytes : Bytes) :
    Except Error ConnectionLimitEngine :=
  if bytes.isEmpty || maxConnLimitPolicyBytes < bytes.length then .error .invalidPolicy
  else
    match env.parseSnapshot bytes with
    | none => .error .invalidPolicy
    | some snapshot => compileSnapshot env snapshot

theorem compileRule_id {input : RuleInput} {rule : CompiledRule}
    (h : compileRule input = .ok rule) : rule.id = input.id := by
  obtain ⟨code, -, h⟩ := exists_of_bind_ok h
  split at h
  · obtain ⟨-, h⟩ := of_check h
    obtain ⟨headers, -, h⟩ := exists_of_bind_ok h
    obtain ⟨limit, -, h⟩ := exists_of_bind_ok h
    obtain rfl := Except.ok.inj h
    rfl
  · cases h

theorem map_id_of_mapM_compileRule {inputs : List RuleInput} {rules : List CompiledRule}
    (h : inputs.mapM compileRule = .ok rules) :
    (rules.map fun rule => rule.id.bytes) = inputs.map fun input => input.id.bytes := by
  have hcompiled := forall₂_of_mapM_ok h
  clear h
  induction hcompiled with
  | nil => rfl
  | cons hrule _ ih => rw [List.map_cons, List.map_cons, ih, compileRule_id hrule]

structure Accepted (env : Environment) (snapshot : ConnLimitSnapshot)
    (engine : ConnectionLimitEngine) : Prop where
  mode : engine.mode = snapshot.mode
  tracker : engine.localTracker = .new
  ids : (engine.rules.map fun rule => rule.id.bytes).Nodup
  redis : compileRedis env snapshot = .ok engine.redis

theorem ConnectionLimitEngine.fromSnapshot_ok {env : Environment} {bytes : Bytes}
    {engine : ConnectionLimitEngine} (h : fromSnapshot env bytes = .ok engine) :
    ∃ snapshot, env.parseSnapshot bytes = some snapshot ∧ Accepted env snapshot engine := by
  obtain ⟨-, h⟩ := of_check h
  split at h
  · cases h
  · rename_i snapshot hparse
    obtain ⟨-, h⟩ := of_check h
    obtain ⟨-, h⟩ := of_check h
    obtain ⟨hids, h⟩ := of_check h
    obtain ⟨rules, hrules, h⟩ := exists_of_bind_ok h
    obtain ⟨redis, hredis, h⟩ := exists_of_bind_ok h
    obtain rfl := Except.ok.inj h
    have hnodup := (nodup_of_checkIds (by simpa using hids)).1
    have hperm := (sortByKey_perm ruleOrder snapshot.rules).map
      fun rule : RuleInput => rule.id.bytes
    rw [← map_id_of_mapM_compileRule hrules] at hperm
    exact ⟨snapshot, hparse, rfl, rfl, hperm.nodup_iff.mpr hnodup, hredis⟩

def teamId : Text := ⟨ascii "team", by decide⟩

def userHeader : Text := ⟨ascii "x-user", by decide⟩

def headerRule (id : Text) (priority : UInt32) (pathPrefix headerName : Text)
    (maxConnections : UInt32) : RuleInput where
  id := id
  priority := priority
  host := wildcardText
  pathPrefix := pathPrefix
  limitBy := ⟨ascii "header", by decide⟩
  headerName := some headerName
  maxConnections := maxConnections
  actionOnExceeded := .throttle
  rejectedCode := none
  responseHeaders := none
  responseBody := none

def Environment.constant (snapshot : ConnLimitSnapshot) : Environment where
  parseSnapshot := fun _ => some snapshot
  pools := fun _ _ _ => true

def distributedSnapshot : ConnLimitSnapshot where
  schemaVersion := 1
  generation := 1
  mode := .distributed
  redis := some ⟨⟨ascii "redis:6379", by decide⟩, none, none, 50, 8, .fallbackLocal, 60, none⟩
  rules := [headerRule teamId 0 rootText userHeader 1]

/-! ## Requests -/

structure ConnLimitCall where
  host : Bytes
  path : Bytes
  clientIp : Bytes
  headerLookup : Bytes → Option Bytes

def aliceCall : ConnLimitCall where
  host := ascii "example.com"
  path := ascii "/"
  clientIp := ascii "10.0.0.1"
  headerLookup := fun _ => some (ascii "alice")

def pathMatches (pathPrefix path : Bytes) : Bool :=
  pathPrefix.isPrefixOf path &&
    ((ascii "/").isSuffixOf pathPrefix || path.length == pathPrefix.length ||
      path[pathPrefix.length]? == some slash)

def invalidRequest (call : ConnLimitCall) : Bool :=
  call.host.isEmpty || 253 < call.host.length || call.path.isEmpty ||
    maxPathBytes < call.path.length || !(ascii "/").isPrefixOf call.path ||
    call.clientIp.isEmpty || 64 < call.clientIp.length

def ConnectionLimitEngine.selectRule (engine : ConnectionLimitEngine)
    (call : ConnLimitCall) : Option CompiledRule :=
  engine.rules.find? fun rule =>
    hostMatches rule.host call.host && pathMatches rule.pathPrefix call.path

def ruleIdentifier (rule : CompiledRule) (call : ConnLimitCall) : Bytes :=
  match rule.limitBy with
  | .clientIp => call.clientIp
  | .routePath => call.path
  | .header =>
    match rule.headerName with
    | some hName => (call.headerLookup hName).getD call.clientIp
    | none => call.clientIp

/-! ## Keys -/

def stackKey (ruleId identifier : Bytes) : Bytes :=
  let buffer := copyFromSlice (List.replicate 128 0) 0 ruleId
  let buffer := copyFromSlice buffer ruleId.length (ascii ":")
  let buffer := copyFromSlice buffer (ruleId.length + 1) identifier
  buffer.take (ruleId.length + 1 + identifier.length)

def trackerKey (ruleId identifier : Bytes) : Bytes :=
  if ruleId.length + 1 + identifier.length ≤ 128 then stackKey ruleId identifier
  else ruleId ++ ascii ":" ++ identifier

theorem trackerKey_eq (ruleId identifier : Bytes) :
    trackerKey ruleId identifier = ruleId ++ ascii ":" ++ identifier := by
  have hcolon : (ascii ":").length = 1 := rfl
  unfold trackerKey
  split
  · have hid : (copyFromSlice (List.replicate 128 0) 0 ruleId).take ruleId.length =
        ruleId := by
      simp [copyFromSlice]
    have hsep : (copyFromSlice (copyFromSlice (List.replicate 128 0) 0 ruleId)
        ruleId.length (ascii ":")).take (ruleId.length + 1) = ruleId ++ ascii ":" := by
      rw [copyFromSlice, hid]
      exact List.take_left' (by simp [hcolon])
    rw [stackKey, copyFromSlice, hsep]
    exact List.take_left' (by simp [hcolon, Nat.add_assoc])
  · rfl

/-! ## Decisions -/

def applyCustomResponse (decision : ConnLimitDecision) (rule : CompiledRule)
    (currentConnections : Nat) : ConnLimitDecision :=
  if rule.responseHeaders.isEmpty && rule.responseBody.isNone then decision
  else
    let limit := decimal rule.maxConnections
    let current := decimal currentConnections
    let statusCode := decimal decision.statusCode
    let vars :=
      [ (ascii "$\x7blimit\x7d", limit), (ascii "$limit", limit),
        (ascii "$\x7bcurrent_connections\x7d", current),
        (ascii "$current_connections", current),
        (ascii "$\x7brejected_code\x7d", statusCode), (ascii "$rejected_code", statusCode),
        (ascii "$\x7brule_id\x7d", rule.id.bytes), (ascii "$rule_id", rule.id.bytes) ]
    { decision with
      headers := rule.responseHeaders.map fun h => ⟨h.name, renderTemplate h.value vars⟩
      body :=
        match rule.responseBody with
        | some template => some (renderTemplate template vars)
        | none => decision.body }

def grantedDecision (rule : CompiledRule) (identifier : Bytes) (current : Nat)
    (isRedis : Bool) : ConnLimitDecision where
  allowed := true
  action := .throttle
  statusCode := 200
  currentConnections := current
  maxConnections := rule.maxConnections
  token := some ⟨rule.id.bytes, identifier, isRedis⟩
  headers := []
  body := none

def refusedDecision (rule : CompiledRule) (current : Nat) : ConnLimitDecision :=
  applyCustomResponse
    { allowed := false
      action := rule.actionOnExceeded
      statusCode := rule.rejectedCode
      currentConnections := current
      maxConnections := rule.maxConnections
      token := none
      headers := []
      body := none } rule current

def unmatchedDecision : ConnLimitDecision where
  allowed := true
  action := .throttle
  statusCode := 200
  currentConnections := 0
  maxConnections := 0
  token := none
  headers := []
  body := none

@[simp] theorem applyCustomResponse_allowed (decision : ConnLimitDecision)
    (rule : CompiledRule) (current : Nat) :
    (applyCustomResponse decision rule current).allowed = decision.allowed := by
  unfold applyCustomResponse
  split <;> rfl

@[simp] theorem applyCustomResponse_token (decision : ConnLimitDecision)
    (rule : CompiledRule) (current : Nat) :
    (applyCustomResponse decision rule current).token = decision.token := by
  unfold applyCustomResponse
  split <;> rfl

/-! ## Acquisition and release -/

/-- What one acquisition has found: the verdict, the connections, and whether the
server counts the slot. -/
structure Slot where
  allowed : Bool
  current : Nat
  isRedis : Bool

def ConnectionLimitEngine.acquireLocal (engine : ConnectionLimitEngine)
    (rule : CompiledRule) (identifier : Bytes) : ShardedConnTracker × Slot :=
  let (tracker, ok, cur) :=
    engine.localTracker.acquire (trackerKey rule.id.bytes identifier) rule.maxConnections
  (tracker, ⟨ok, cur, false⟩)

section Operations

variable [Flonum F] (engine : ConnectionLimitEngine)

def ConnectionLimitEngine.acquireSlot (fate : CallFate) (rule : CompiledRule) (identifier : Bytes)
    (store : Store F) : ShardedConnTracker × Store F × Slot :=
  match engine.mode, engine.redis with
  | .distributed, some redis =>
    match redis.acquire fate rule.id.bytes identifier rule.maxConnections store with
    | (store, some (ok, cur)) => (engine.localTracker, store, ⟨ok, cur, true⟩)
    | (store, none) =>
      match redis.onError with
      | .fallbackLocal =>
        let (tracker, slot) := engine.acquireLocal rule identifier
        (tracker, store, slot)
      | .pass => (engine.localTracker, store, ⟨true, 0, false⟩)
      | .block => (engine.localTracker, store, ⟨false, rule.maxConnections, false⟩)
  | _, _ =>
    let (tracker, slot) := engine.acquireLocal rule identifier
    (tracker, store, slot)

def Slot.decision (slot : Slot) (rule : CompiledRule) (identifier : Bytes) :
    ConnLimitDecision :=
  if slot.allowed then grantedDecision rule identifier slot.current slot.isRedis
  else refusedDecision rule slot.current

def ConnectionLimitEngine.acquire (fate : CallFate) (call : ConnLimitCall) (store : Store F) :
    ConnectionLimitEngine × Store F × Except Error ConnLimitDecision :=
  if invalidRequest call then (engine, store, .error .invalidRequest)
  else
    match engine.selectRule call with
    | none => (engine, store, .ok unmatchedDecision)
    | some rule =>
      let identifier := ruleIdentifier rule call
      let (tracker, store, slot) := engine.acquireSlot fate rule identifier store
      ({ engine with localTracker := tracker }, store, .ok (slot.decision rule identifier))

def ConnectionLimitEngine.releaseLocal (token : ConnLimitToken) : ConnectionLimitEngine :=
  { engine with
    localTracker := engine.localTracker.release (trackerKey token.ruleId token.identifier) }

/-- A token of the server is released there; when that fails, or for another
token, the tracker is told. -/
def ConnectionLimitEngine.release (fate : CallFate) (token : ConnLimitToken) (store : Store F) :
    ConnectionLimitEngine × Store F :=
  match token.isRedis, engine.redis with
  | true, some redis =>
    match redis.release fate token.ruleId token.identifier store with
    | (store, true) => (engine, store)
    | (store, false) => (engine.releaseLocal token, store)
  | _, _ => (engine.releaseLocal token, store)

end Operations

end AuroraGateway.ConnectionLimit
