import AuroraGateway.Engine.Limits
import AuroraGateway.Foundation.MachineInt

/-!
# Types of the connection limiter

The policy as it is decoded, the compiled rules, the tokens that stand for
connections in use, and the decisions.
-/

namespace AuroraGateway.ConnectionLimit

open Engine Foundation Redis

def numShards : Nat := 16

instance : NeZero numShards := ⟨by decide⟩

def maxConnLimitRules : Nat := 64

def maxConnLimitPolicyBytes : Nat := 131072

inductive ConnLimitMode where
  | localOnly
  | distributed
  deriving DecidableEq, Repr

structure RedisConfigInput where
  endpoint : Text
  password : Option Text
  db : Option Int
  timeoutMs : UInt64
  poolSize : UInt64
  onError : OnErrorAction
  leaseTtlSecs : UInt32
  tls : Option TlsConfigInput

structure RuleInput where
  id : Text
  priority : UInt32
  host : Text
  pathPrefix : Text
  limitBy : Text
  headerName : Option Text
  maxConnections : UInt32
  actionOnExceeded : ActionOnExceeded
  rejectedCode : Option UInt16
  responseHeaders : Option (List HeaderInput)
  responseBody : Option Text

structure ConnLimitSnapshot where
  schemaVersion : UInt32
  generation : UInt64
  mode : ConnLimitMode
  redis : Option RedisConfigInput
  rules : List RuleInput

structure CompiledRule where
  id : Text
  host : Bytes
  pathPrefix : Bytes
  limitBy : LimitBy
  headerName : Option Bytes
  maxConnections : Nat
  actionOnExceeded : ActionOnExceeded
  rejectedCode : Nat
  responseHeaders : List CompiledHeader
  responseBody : Option Bytes
  max_pos : 0 < maxConnections
  max_lt : maxConnections < 2 ^ 32

structure ConnLimitToken where
  ruleId : Bytes
  identifier : Bytes
  isRedis : Bool
  deriving DecidableEq, Repr

structure ResolvedHeader where
  name : Bytes
  value : Bytes
  deriving DecidableEq

structure ConnLimitDecision where
  allowed : Bool
  action : ActionOnExceeded
  statusCode : Nat
  currentConnections : Nat
  maxConnections : Nat
  token : Option ConnLimitToken
  headers : List ResolvedHeader
  body : Option Bytes
  deriving DecidableEq

end AuroraGateway.ConnectionLimit
