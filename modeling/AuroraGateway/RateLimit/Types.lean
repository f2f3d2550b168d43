import AuroraGateway.Engine.Limits
import AuroraGateway.Foundation.MachineInt

/-!
# Types of the rate limiter

The policy as it is decoded, the compiled rules and the decisions.  A compiled
rule carries the bounds that the compilation of a policy has checked.
-/

namespace AuroraGateway.RateLimit

open Engine Foundation Redis

def numShards : Nat := 16

instance : NeZero numShards := ⟨by decide⟩

def maxRateLimitRules : Nat := 64

def maxRateLimitPolicyBytes : Nat := 131072

inductive RateLimitAlgorithm where
  | tokenBucket
  | leakyBucket
  | fixedWindow
  | slidingWindow
  deriving DecidableEq, Repr

inductive EvictionPolicy where
  | lru
  | lfu
  | fifo
  deriving DecidableEq, Repr

inductive OverflowStrategy where
  | evictAndTrack
  | dropNew
  | bypassNew
  deriving DecidableEq, Repr

inductive RateLimitMode where
  | localOnly
  | distributed
  deriving DecidableEq, Repr

structure RedisConfigInput where
  endpoint : Text
  password : Option Text
  db : Option Int
  timeoutMs : UInt64
  poolSize : UInt64
  onError : OnErrorAction
  customLuaScript : Option Text
  tls : Option TlsConfigInput

structure RuleInput where
  id : Text
  priority : UInt32
  host : Text
  pathPrefix : Text
  limitBy : Text
  headerName : Option Text
  rate : UInt64
  periodSecs : UInt64
  burst : Option UInt64
  actionOnExceeded : ActionOnExceeded
  rejectedCode : Option UInt16
  customMessage : Option Text
  responseHeaders : Option (List HeaderInput)

structure Snapshot where
  schemaVersion : UInt32
  generation : UInt64
  mode : RateLimitMode
  algorithm : RateLimitAlgorithm
  memorySizeMb : UInt32
  maxKeys : UInt64
  evictionPolicy : EvictionPolicy
  overflowStrategy : OverflowStrategy
  redis : Option RedisConfigInput
  rules : List RuleInput

structure CompiledRule where
  id : Text
  host : Bytes
  pathPrefix : Bytes
  limitBy : LimitBy
  headerName : Option Bytes
  rate : Nat
  periodSecs : Nat
  burst : Nat
  actionOnExceeded : ActionOnExceeded
  rejectedCode : Nat
  customMessage : Option Bytes
  responseHeaders : List CompiledHeader
  rate_pos : 0 < rate
  period_pos : 0 < periodSecs
  period_le : periodSecs ≤ 86400
  rate_le_burst : rate ≤ burst
  burst_lt : burst < 2 ^ 64

def plainRuleId : Text := ⟨ascii "r", by decide⟩

def CompiledRule.catchAll (rate burst : Nat) (action : ActionOnExceeded)
    (hrate : 0 < rate) (hburst : rate ≤ burst) (hlt : burst < 2 ^ 64) :
    CompiledRule where
  id := plainRuleId
  host := ascii "*"
  pathPrefix := ascii "/"
  limitBy := .clientIp
  headerName := none
  rate := rate
  periodSecs := 60
  burst := burst
  actionOnExceeded := action
  rejectedCode :=
    match action with
    | .throttle => 429
    | .block => 403
    | .audit => 200
    | .customResponse => 429
  customMessage := none
  responseHeaders := []
  rate_pos := hrate
  period_pos := by decide
  period_le := by decide
  rate_le_burst := hburst
  burst_lt := hlt

def CompiledRule.oncePerPeriod (action : ActionOnExceeded) : CompiledRule :=
  .catchAll 1 1 action (by decide) (by decide) (by decide)

structure ResolvedHeader where
  name : Bytes
  value : Bytes
  deriving DecidableEq

structure RateLimitDecision where
  allowed : Bool
  action : ActionOnExceeded
  statusCode : Nat
  retryAfterSecs : Nat
  remaining : Nat
  resetEpochSecs : Nat
  customReason : Option Bytes
  headers : List ResolvedHeader
  body : Option Bytes
  deriving DecidableEq

def RateLimitDecision.allow (remaining resetEpochSecs : Nat) : RateLimitDecision where
  allowed := true
  action := .throttle
  statusCode := 200
  retryAfterSecs := 0
  remaining := remaining
  resetEpochSecs := resetEpochSecs
  customReason := none
  headers := []
  body := none

def RateLimitDecision.withinQuota (decision : RateLimitDecision) : Bool :=
  decision.allowed && decision.action != .audit

end AuroraGateway.RateLimit
