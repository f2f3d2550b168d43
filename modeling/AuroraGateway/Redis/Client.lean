import AuroraGateway.Foundation.Utf8

/-!
# The Redis client

The engines in distributed mode share connection pools and run scripts on the
server.  Opening a pool and invoking a script depend on the world outside the
gateway; what the gateway sees of it is given by the types below.
-/

namespace AuroraGateway.Redis

open Foundation

structure RedisPoolKey where
  endpoint : Text
  db : Option Int
  username : Option Text
  password : Option Text
  tlsEnabled : Bool
  insecureSkipVerify : Bool
  caCert : Option Text
  clientCert : Option Text
  clientKey : Option Text
  deriving DecidableEq

/-- The registry of pools: whether a pool for the key, with the given timeout in
milliseconds and the given size, exists or can be created. -/
abbrev PoolRegistry := RedisPoolKey → Nat → Nat → Bool

structure TlsConfigInput where
  enabled : Bool
  caCertPem : Option Text
  clientCertPem : Option Text
  clientKeyPem : Option Text
  insecureSkipVerify : Bool
  deriving DecidableEq

inductive Value where
  | nil
  | int (n : Int)
  | bulkString (data : Bytes)
  | simpleString (data : Bytes)
  | array (items : List Value)

/-- What becomes of one script invocation.  Without a connection the script does
not run; a lost reply leaves the effects of the script on the server. -/
inductive CallFate where
  | answered
  | lostRequest
  | lostReply
  deriving DecidableEq, Repr

def CallFate.invoke {σ α : Type} (fate : CallFate) (store : σ)
    (script : σ → σ × Option α) : σ × Option α :=
  match fate with
  | .answered => script store
  | .lostRequest => (store, none)
  | .lostReply => ((script store).1, none)

end AuroraGateway.Redis
