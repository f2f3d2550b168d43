import AuroraGateway.ConnectionLimit.Types
import AuroraGateway.Redis.Store

/-!
# Distributed connection limiting

In distributed mode the connections of a key are counted on a Redis server.  A
failed call tells the gateway nothing about what the server has done.
-/

namespace AuroraGateway.ConnectionLimit

open Engine Foundation Redis
open Flonum

variable {F : Type}

structure RedisConnectionLimiter where
  onError : OnErrorAction
  leaseTtlSecs : Nat
  deriving DecidableEq

def RedisConfigInput.poolKey (cfg : RedisConfigInput) : RedisPoolKey :=
  Engine.poolKey cfg.endpoint cfg.db cfg.password cfg.tls

namespace RedisConnectionLimiter

def new (pools : PoolRegistry) (cfg : RedisConfigInput) :
    Except Error RedisConnectionLimiter :=
  let timeout := max 1 (min cfg.timeoutMs.toNat 5000)
  let maxPoolSize := max 1 (min cfg.poolSize.toNat 64)
  if pools cfg.poolKey timeout maxPoolSize then
    .ok ⟨cfg.onError, max 5 (min cfg.leaseTtlSecs.toNat 86400)⟩
  else .error .invalidPolicy

def key (ruleId identifier : Bytes) : Bytes :=
  ascii "aurora:cl:" ++ ruleId ++ ascii ":" ++ fromUtf8Lossy identifier

end RedisConnectionLimiter

section Scripts

variable [Flonum F]

def connLimitAcquireScript (key : Bytes) (limit ttlSecs : Nat) (store : Store F) :
    Store F × Option Value :=
  let limitReply := Value.int (replyInt (trunc (ofNat limit : F)))
  match store.number key with
  | none => (store, none)
  | some current =>
    if current ≤ ofNat limit ∧ ¬ ofNat limit ≤ current then
      match store.incr key with
      | none => (store, none)
      | some (store, newVal) =>
        (store.expire key ttlSecs,
          some (.array [.int 1, .int (replyInt (trunc (ofReply newVal : F))),
            limitReply]))
    else (store, some (.array [.int 0, .int (replyInt (trunc current)), limitReply]))

def connLimitReleaseScript (key : Bytes) (store : Store F) : Store F × Option Value :=
  match store.number key with
  | none => (store, none)
  | some current =>
    if current ≤ ofNat 1 then (store.erase key, some (.int 0))
    else
      match store.decr key with
      | none => (store, none)
      | some (store, newVal) => (store, some (.int (replyInt (trunc (ofReply newVal : F)))))

namespace RedisConnectionLimiter

def acquireReply : Value → Option (Bool × Nat)
  | .array (allowed :: current :: _) =>
    some ((replyItem allowed).getD 0 == 1, truncU32 (max ((replyItem current).getD 0) 0))
  | _ => none

def acquire (limiter : RedisConnectionLimiter) (fate : CallFate) (ruleId identifier : Bytes)
    (maxConnections : Nat) (store : Store F) : Store F × Option (Bool × Nat) :=
  let (store, reply) := fate.invoke store
    (connLimitAcquireScript (key ruleId identifier) maxConnections limiter.leaseTtlSecs)
  (store, reply.bind acquireReply)

def release (_limiter : RedisConnectionLimiter) (fate : CallFate)
    (ruleId identifier : Bytes) (store : Store F) : Store F × Bool :=
  let (store, reply) := fate.invoke store (connLimitReleaseScript (key ruleId identifier))
  (store, reply.isSome)

end RedisConnectionLimiter

end Scripts

end AuroraGateway.ConnectionLimit
