import AuroraGateway.RateLimit.Algorithm
import AuroraGateway.Redis.Store

/-!
# Distributed rate limiting

In distributed mode a counter lives on a Redis server and a script advances it.
A script that applies a command to a value of another type fails before it has
changed anything.
-/

namespace AuroraGateway.RateLimit

open Engine Foundation Redis
open Flonum

variable {F : Type}

section Scripts

variable [Flonum F]

def scriptReply (allowed : Bool) (remaining retryAfter resetEpoch : F) : Value :=
  .array (.int (if allowed then 1 else 0) ::
    List.map (fun x : F => .int (replyInt (trunc x))) [remaining, retryAfter, resetEpoch])

structure ScriptArgs where
  key : Bytes
  rate : Nat
  periodSecs : Nat
  burst : Nat
  nowMs : Nat

abbrev Script (F : Type) := ScriptArgs → Store F → Store F × Option Value

variable (args : ScriptArgs)

def scriptNowSecs : F := floor (ofNat args.nowMs / ofNat 1000)

def periodTtl : Int :=
  trunc (ofNat args.periodSecs * ofNat 2 + ofNat 1 : F)

def scriptFlow (lastMs : F) : F :=
  let elapsedMs := Flonum.max (ofNat 0) (ofNat args.nowMs - lastMs)
  elapsedMs * ofNat args.rate / (ofNat args.periodSecs * ofNat 1000)

def scriptRetryAfter (missing : F) : F :=
  let waitMs := ceil (missing * ofNat args.periodSecs * ofNat 1000 / ofNat args.rate)
  Flonum.max (ofNat 1) (ceil (waitMs / ofNat 1000))

def scriptTokens (data : HashTable Bytes F) : F :=
  match data.get? (ascii "tokens"), data.get? (ascii "last_updated_ms") with
  | some tokens, some lastUpdatedMs =>
    Flonum.min (ofNat args.burst) (tokens + scriptFlow args lastUpdatedMs)
  | _, _ => ofNat args.burst

def tokenBucketScript : Script F := fun args store =>
  match store.hashFields args.key with
  | none => (store, none)
  | some data =>
    let tokens := scriptTokens args data
    let allowed := decide (ofNat 1 ≤ tokens)
    let (tokens, retryAfter) :=
      if allowed then (tokens - ofNat 1, ofNat 0)
      else (tokens, scriptRetryAfter args (ofNat 1 - tokens))
    let data := (data.insert (ascii "tokens") tokens).insert
      (ascii "last_updated_ms") (ofNat args.nowMs)
    let store := (store.write args.key (.hash data)).expire args.key
      (periodTtl (F := F) args)
    (store, some (scriptReply allowed (floor (Flonum.max (ofNat 0) tokens)) retryAfter
      (scriptNowSecs args + ofNat args.periodSecs)))

def scriptWatermark (data : HashTable Bytes F) : F :=
  let watermark := (data.get? (ascii "watermark")).getD (ofNat 0)
  let lastLeakMs := (data.get? (ascii "last_leak_ms")).getD (ofNat args.nowMs)
  Flonum.max (ofNat 0) (watermark - scriptFlow args lastLeakMs)

def leakyBucketScript : Script F := fun args store =>
  match store.hashFields args.key with
  | none => (store, none)
  | some data =>
    let watermark := scriptWatermark args data
    let allowed := decide (watermark + ofNat 1 ≤ ofNat args.burst)
    let (watermark, retryAfter) :=
      if allowed then (watermark + ofNat 1, ofNat 0)
      else (watermark, scriptRetryAfter args (watermark + ofNat 1 - ofNat args.burst))
    let data := (data.insert (ascii "watermark") watermark).insert
      (ascii "last_leak_ms") (ofNat args.nowMs)
    let store := (store.write args.key (.hash data)).expire args.key
      (periodTtl (F := F) args)
    (store, some (scriptReply allowed
      (floor (Flonum.max (ofNat 0) (ofNat args.burst - watermark))) retryAfter
      (scriptNowSecs args + ofNat args.periodSecs)))

/-- `burst > 0 and burst or rate`. -/
def scriptLimit : F :=
  if (ofNat args.burst : F) ≤ ofNat 0 then ofNat args.rate else ofNat args.burst

def scriptWindow : F :=
  floor (scriptNowSecs args / ofNat args.periodSecs)

def windowKey (key : Bytes) (window : F) : Bytes :=
  key ++ ascii ":" ++ scriptText window

def fixedWindowScript : Script F := fun args store =>
  let window : F := scriptWindow args
  match store.incr (windowKey args.key window) with
  | none => (store, none)
  | some (store, count) =>
    let store :=
      if count = 1 then
        store.expire (windowKey args.key window) (periodTtl (F := F) args)
      else store
    let current : F := ofReply count
    let limit : F := scriptLimit args
    let resetEpoch := (window + ofNat 1) * ofNat args.periodSecs
    let allowed := decide (current ≤ limit)
    let (remaining, retryAfter) :=
      if allowed then (Flonum.max (ofNat 0) (limit - current), ofNat 0)
      else (ofNat 0, Flonum.max (ofNat 1) (resetEpoch - scriptNowSecs args))
    (store, some (scriptReply allowed remaining retryAfter resetEpoch))

def oldestScore (members : HashTable Bytes F) : Option F :=
  match members.entries with
  | [] => none
  | (_, score) :: rest => some (rest.foldl (fun least e => Flonum.min least e.2) score)

def scriptWindowMs : F := ofNat args.periodSecs * ofNat 1000

def liveMembers (members : HashTable Bytes F) : HashTable Bytes F :=
  members.retain fun e =>
    ¬ (ofNat 0 ≤ e.2 ∧ e.2 ≤ ofNat args.nowMs - scriptWindowMs args)

def slidingWindowScript : Script F := fun args store =>
  match store.members args.key with
  | none => (store, none)
  | some members =>
    let nowMs : F := ofNat args.nowMs
    let members := liveMembers args members
    let current : F := ofNat members.len
    let limit : F := scriptLimit args
    let allowed := decide (¬ limit ≤ current)
    let (members, remaining, retryAfter) :=
      if allowed then
        (members.insert
            (scriptText nowMs ++ ascii "-" ++ scriptText (current + ofNat 1)) nowMs,
          Flonum.max (ofNat 0) (limit - current - ofNat 1), ofNat 0)
      else
        (members, ofNat 0,
          match oldestScore members with
          | some oldestMs =>
            Flonum.max (ofNat 1)
              (ceil ((oldestMs + scriptWindowMs args - nowMs) / ofNat 1000))
          | none => ofNat 1)
    -- A sorted set that has become empty is no longer a key.
    let store :=
      if members.len = 0 then store.erase args.key
      else (store.write args.key (.sortedSet members)).expire args.key
        (periodTtl (F := F) args)
    (store, some (scriptReply allowed remaining retryAfter
      (scriptNowSecs args + ofNat args.periodSecs)))

end Scripts

/-! ## The client side -/

inductive RateLimitScript where
  | builtin (algorithm : RateLimitAlgorithm)
  | custom (text : Text)
  deriving DecidableEq

structure RedisRateLimiter where
  onError : OnErrorAction
  script : RateLimitScript
  algoTag : Bytes

def algorithmTag : RateLimitAlgorithm → Bytes
  | .tokenBucket => ascii "tb"
  | .leakyBucket => ascii "lb"
  | .fixedWindow => ascii "fw"
  | .slidingWindow => ascii "sw"

def RedisConfigInput.poolKey (cfg : RedisConfigInput) : RedisPoolKey :=
  Engine.poolKey cfg.endpoint cfg.db cfg.password cfg.tls

def RedisRateLimiter.new (pools : PoolRegistry) (cfg : RedisConfigInput)
    (algorithm : RateLimitAlgorithm) : Except Error RedisRateLimiter := do
  let timeout := max 1 (min cfg.timeoutMs.toNat 5000)
  let maxPoolSize := max 1 (min cfg.poolSize.toNat 64)
  let script ←
    match cfg.customLuaScript with
    | some customLua =>
      if (trim customLua.bytes).isEmpty then .error .invalidPolicy
      else .ok (RateLimitScript.custom customLua)
    | none => .ok (.builtin algorithm)
  let algoTag :=
    if cfg.customLuaScript.isSome then ascii "custom" else algorithmTag algorithm
  if pools cfg.poolKey timeout maxPoolSize then
    .ok ⟨cfg.onError, script, algoTag⟩
  else .error .invalidPolicy

def replyReason : Value → Option Bytes
  | .bulkString data => if validUtf8 data then some data else none
  | .simpleString data => some data
  | .int i => some (if i < 0 then ascii "-" ++ decimal i.natAbs else decimal i.natAbs)
  | _ => none

def decisionOfReply (rule : CompiledRule) : Value → Option RateLimitDecision
  | .array (allowedItem :: remainingItem :: retryItem :: resetItem :: rest) =>
    let allowedInt := (replyItem allowedItem).getD 0
    let remaining := (replyItem remainingItem).getD 0
    let retryAfter := (replyItem retryItem).getD 0
    let resetEpoch := (replyItem resetItem).getD 0
    let allowed := allowedInt == 1
    some
      { allowed := allowed
        action := if allowed then .throttle else rule.actionOnExceeded
        statusCode := if allowed then 200 else rule.rejectedCode
        retryAfterSecs := truncU32 retryAfter
        remaining := truncU32 remaining
        resetEpochSecs := truncU64 resetEpoch
        customReason := rest.head?.bind replyReason
        headers := []
        body := none }
  | _ => none

def RedisRateLimiter.key (limiter : RedisRateLimiter) (rule : CompiledRule)
    (identifier : Bytes) : Bytes :=
  ascii "aurora:rl:" ++ limiter.algoTag ++ ascii ":" ++ rule.id.bytes ++ ascii ":" ++
    fromUtf8Lossy identifier

def RedisRateLimiter.args (limiter : RedisRateLimiter) (rule : CompiledRule)
    (identifier : Bytes) (nowMs : Nat) : ScriptArgs where
  key := limiter.key rule identifier
  rate := rule.rate
  periodSecs := rule.periodSecs
  burst := rule.burst
  nowMs := nowMs

section Evaluate

variable [Flonum F]

def builtinScript : RateLimitAlgorithm → Script F
  | .tokenBucket => tokenBucketScript
  | .leakyBucket => leakyBucketScript
  | .fixedWindow => fixedWindowScript
  | .slidingWindow => slidingWindowScript

/-- The script of a limiter; `custom` is the meaning of a script of the policy. -/
def RedisRateLimiter.run (limiter : RedisRateLimiter) (custom : Text → Script F) :
    Script F :=
  match limiter.script with
  | .builtin algorithm => builtinScript algorithm
  | .custom text => custom text

def RedisRateLimiter.evaluate (limiter : RedisRateLimiter) (custom : Text → Script F)
    (fate : CallFate) (rule : CompiledRule) (identifier : Bytes) (nowMs : Nat)
    (store : Store F) : Store F × Option RateLimitDecision :=
  let (store, reply) := fate.invoke store
    (limiter.run custom (limiter.args rule identifier nowMs))
  (store, reply.bind (decisionOfReply rule))

end Evaluate

end AuroraGateway.RateLimit
