import AuroraGateway.Foundation.HashTable
import AuroraGateway.RateLimit.Algorithm
import Mathlib.Data.List.MinMax

/-!
# Shards of the rate limiter

The counters live in sixteen shards.  A shard that is full first drops the
counters that have not been used for two periods, unless a lower bound on the
last accesses shows that there are none, and then applies the overflow strategy.
-/

namespace AuroraGateway.RateLimit

open Foundation

variable {F : Type} [Flonum F]

structure ShardConfig where
  maxKeysPerShard : Nat
  evictionPolicy : EvictionPolicy
  overflowStrategy : OverflowStrategy
  algorithm : RateLimitAlgorithm
  deriving DecidableEq

structure ShardEntry (F : Type) where
  state : AlgorithmState F
  lastAccessSecs : Nat
  accessCount : Nat
  createdAtSecs : Nat
  deriving DecidableEq

abbrev RateLimitKey := Nat × Bytes

structure Shard (F : Type) where
  entries : HashTable RateLimitKey (ShardEntry F)
  oldestAccessLowerBound : Nat
  deriving DecidableEq

def Shard.new : Shard F := ⟨.empty, u64Max⟩

def Shard.lower (shard : Shard F) (nowSecs : Nat) : Shard F :=
  { shard with oldestAccessLowerBound := min shard.oldestAccessLowerBound nowSecs }

abbrev Shards (F : Type) := Fin numShards → Shard F

abbrev ShardOrder (F : Type) := IterationOrder RateLimitKey (ShardEntry F)

def hashStep (h : UInt64) (word : UInt64) : UInt64 := (h ^^^ word) * 0x100000001b3

/-- The source unrolls the loop over the bytes four times. -/
def hashKey (ruleIdx : Nat) (key : Bytes) : Fin numShards :=
  let h := hashStep 0xcbf29ce484222325 (UInt64.ofNat ruleIdx)
  let h := key.foldl (fun h byte => hashStep h byte.toUInt64) h
  Fin.ofNat numShards (h &&& UInt64.ofNat (numShards - 1)).toNat

/-! ## Insertion -/

def sweep (ttlThreshold : Nat) (shard : Shard F) : Shard F :=
  let kept := shard.entries.retain fun e => ¬ e.2.lastAccessSecs ≤ ttlThreshold
  { entries := kept
    oldestAccessLowerBound :=
      kept.entries.foldl (fun oldest e => min oldest e.2.lastAccessSecs) u64Max }

def ttlSweep (ttlThreshold : Nat) (shard : Shard F) : Shard F :=
  if shard.oldestAccessLowerBound ≤ ttlThreshold then sweep ttlThreshold shard
  else shard

def evictionKey (policy : EvictionPolicy) (entry : ShardEntry F) : Nat :=
  match policy with
  | .lru => entry.lastAccessSecs
  | .lfu => entry.accessCount
  | .fifo => entry.createdAtSecs

def victimKey (policy : EvictionPolicy) (order : ShardOrder F) (shard : Shard F) :
    Option RateLimitKey :=
  ((order.order shard.entries.entries).argmin fun e => evictionKey policy e.2).map
    Prod.fst

def dropNewDecision (rule : CompiledRule) (nowSecs : Nat) : RateLimitDecision where
  allowed := false
  action := rule.actionOnExceeded
  statusCode := rule.rejectedCode
  retryAfterSecs := wrapU32 rule.periodSecs
  remaining := 0
  resetEpochSecs := wrapU64 (nowSecs + rule.periodSecs)
  customReason := none
  headers := []
  body := none

variable (ttl : Nat → Shard F → Shard F) (order : ShardOrder F)

/-- The second stage for a full shard: refuse the new key or evict an old one. -/
def applyOverflow (cfg : ShardConfig) (rule : CompiledRule) (nowSecs : Nat) (shard : Shard F) :
    Shard F × Option RateLimitDecision :=
  if cfg.maxKeysPerShard ≤ shard.entries.len then
    match cfg.overflowStrategy with
    | .bypassNew => (shard, some (.allow 1 (wrapU64 (nowSecs + rule.periodSecs))))
    | .dropNew => (shard, some (dropNewDecision rule nowSecs))
    | .evictAndTrack =>
      match victimKey cfg.evictionPolicy order shard with
      | some key => ({ shard with entries := shard.entries.erase key }, none)
      | none => (shard, none)
  else (shard, none)

def makeRoom (cfg : ShardConfig) (rule : CompiledRule) (nowSecs : Nat) (shard : Shard F) :
    Shard F × Option RateLimitDecision :=
  if cfg.maxKeysPerShard ≤ shard.entries.len then
    applyOverflow order cfg rule nowSecs
      (ttl (nowSecs - rule.periodSecs * 2) shard)
  else (shard, none)

def newEntry (cfg : ShardConfig) (rule : CompiledRule) (nowSecs nowMs : Nat) :
    ShardEntry F where
  state := .init cfg.algorithm rule nowSecs nowMs
  lastAccessSecs := nowSecs
  accessCount := 0
  createdAtSecs := nowSecs

/-- `insert_shard_entry`, over the first stage `ttl`. -/
def insertShardEntryBy (shard : Shard F) (mapKey : RateLimitKey) (rule : CompiledRule)
    (cfg : ShardConfig) (nowSecs nowMs : Nat) : Shard F × Except RateLimitDecision (ShardEntry F) :=
  match makeRoom ttl order cfg rule nowSecs shard with
  | (shard, some refusal) => (shard, .error refusal)
  | (shard, none) =>
    let entry := newEntry cfg rule nowSecs nowMs
    let shard := shard.lower nowSecs
    ({ shard with entries := shard.entries.insert mapKey entry }, .ok entry)

def insertShardEntry (shard : Shard F) (mapKey : RateLimitKey) (rule : CompiledRule)
    (cfg : ShardConfig) (nowSecs nowMs : Nat) : Shard F × Except RateLimitDecision (ShardEntry F) :=
  insertShardEntryBy ttlSweep order shard mapKey rule cfg nowSecs nowMs

/-! ## Evaluation of one rule -/

def touchEntry (entry : ShardEntry F) (rule : CompiledRule) (nowSecs nowMs : Nat) :
    ShardEntry F × RateLimitDecision :=
  let (state, decision) := entry.state.advance rule nowSecs nowMs
  ({ entry with
      state := state
      lastAccessSecs := nowSecs
      accessCount := wrapU64 (entry.accessCount + 1) }, decision)

/-- The part of `evaluate_rule_shard` that runs under the lock of the shard. -/
def evaluateShardBy (cfg : ShardConfig) (shard : Shard F) (mapKey : RateLimitKey)
    (rule : CompiledRule) (nowSecs nowMs : Nat) : Shard F × RateLimitDecision :=
  let shard := shard.lower nowSecs
  match shard.entries.get? mapKey with
  | some entry =>
    let (entry, decision) := touchEntry entry rule nowSecs nowMs
    ({ shard with entries := shard.entries.insert mapKey entry }, decision)
  | none =>
    match insertShardEntryBy ttl order shard mapKey rule cfg nowSecs nowMs with
    | (shard, .ok entry) =>
      let (entry, decision) := touchEntry entry rule nowSecs nowMs
      ({ shard with entries := shard.entries.insert mapKey entry }, decision)
    | (shard, .error decision) => (shard, decision)

section Outcome

variable (ttl : Nat → Shard F → Shard F) (order : ShardOrder F) (cfg : ShardConfig)
  (shard : Shard F) (mapKey : RateLimitKey) (rule : CompiledRule) (nowSecs nowMs : Nat)

def storeTouched (entry : ShardEntry F) : Shard F × RateLimitDecision :=
  ({ shard.lower nowSecs with
      entries := shard.entries.insert mapKey (touchEntry entry rule nowSecs nowMs).1 },
    (touchEntry entry rule nowSecs nowMs).2)

variable {shard mapKey}

theorem evaluateShardBy_hit {entry : ShardEntry F}
    (hentry : shard.entries.get? mapKey = some entry) :
    evaluateShardBy ttl order cfg shard mapKey rule nowSecs nowMs =
      storeTouched shard mapKey rule nowSecs nowMs entry := by
  simp only [evaluateShardBy, Shard.lower, hentry]
  rfl

theorem evaluateShardBy_refused (habsent : shard.entries.get? mapKey = none)
    {shard' : Shard F} {decision : RateLimitDecision}
    (hroom : makeRoom ttl order cfg rule nowSecs (shard.lower nowSecs) =
      (shard', some decision)) :
    evaluateShardBy ttl order cfg shard mapKey rule nowSecs nowMs =
      (shard', decision) := by
  have hget : (shard.lower nowSecs).entries.get? mapKey = none := habsent
  simp only [evaluateShardBy, hget, insertShardEntryBy, hroom]

theorem evaluateShardBy_tracked (habsent : shard.entries.get? mapKey = none)
    {shard' : Shard F}
    (hroom : makeRoom ttl order cfg rule nowSecs (shard.lower nowSecs) =
      (shard', none)) :
    evaluateShardBy ttl order cfg shard mapKey rule nowSecs nowMs =
      storeTouched shard' mapKey rule nowSecs nowMs
        (newEntry cfg rule nowSecs nowMs) := by
  have hget : (shard.lower nowSecs).entries.get? mapKey = none := habsent
  simp only [evaluateShardBy, hget, insertShardEntryBy, hroom]
  simp only [storeTouched, Shard.lower, HashTable.insert_insert]

variable (shard mapKey)

inductive ShardOutcome : Shard F × RateLimitDecision → Prop where
  | hit {entry : ShardEntry F} (hentry : shard.entries.get? mapKey = some entry) :
      ShardOutcome (storeTouched shard mapKey rule nowSecs nowMs entry)
  | refused {shard' : Shard F} {decision : RateLimitDecision}
      (habsent : shard.entries.get? mapKey = none)
      (hroom : makeRoom ttl order cfg rule nowSecs (shard.lower nowSecs) =
        (shard', some decision)) :
      ShardOutcome (shard', decision)
  | tracked {shard' : Shard F} (habsent : shard.entries.get? mapKey = none)
      (hroom : makeRoom ttl order cfg rule nowSecs (shard.lower nowSecs) =
        (shard', none)) :
      ShardOutcome (storeTouched shard' mapKey rule nowSecs nowMs
        (newEntry cfg rule nowSecs nowMs))

theorem evaluateShardBy_outcome :
    ShardOutcome ttl order cfg shard mapKey rule nowSecs nowMs
      (evaluateShardBy ttl order cfg shard mapKey rule nowSecs nowMs) := by
  cases hget : shard.entries.get? mapKey with
  | some entry =>
    rw [evaluateShardBy_hit ttl order cfg rule nowSecs nowMs hget]
    exact .hit hget
  | none =>
    rcases hroom : makeRoom ttl order cfg rule nowSecs (shard.lower nowSecs)
      with ⟨shard', refusal⟩
    cases refusal with
    | some decision =>
      rw [evaluateShardBy_refused ttl order cfg rule nowSecs nowMs hget hroom]
      exact .refused hget hroom
    | none =>
      rw [evaluateShardBy_tracked ttl order cfg rule nowSecs nowMs hget hroom]
      exact .tracked hget hroom

end Outcome

def evaluateRuleShardBy (ttl : Nat → Shard F → Shard F) (order : ShardOrder F)
    (cfg : ShardConfig) (shards : Shards F) (ruleIdx : Nat) (rule : CompiledRule)
    (identifier : Bytes) (nowSecs nowMs : Nat) : Shards F × RateLimitDecision :=
  let shardIdx := hashKey ruleIdx identifier
  let (shard, decision) :=
    evaluateShardBy ttl order cfg (shards shardIdx) (ruleIdx, identifier) rule
      nowSecs nowMs
  (fun i => if i = shardIdx then shard else shards i, decision)

def evaluateRuleShard (order : ShardOrder F) (cfg : ShardConfig) (shards : Shards F)
    (ruleIdx : Nat) (rule : CompiledRule) (identifier : Bytes) (nowSecs nowMs : Nat) :
    Shards F × RateLimitDecision :=
  evaluateRuleShardBy ttlSweep order cfg shards ruleIdx rule identifier nowSecs nowMs

end AuroraGateway.RateLimit
