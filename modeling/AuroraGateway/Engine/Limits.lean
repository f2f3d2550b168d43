import AuroraGateway.Engine.Policy
import AuroraGateway.Redis.Client

/-!
# Policies of the limiters

What the policies of the rate limiter and of the connection limiter have in common.
-/

namespace AuroraGateway.Engine

open Foundation Redis

inductive ActionOnExceeded where
  | throttle
  | block
  | audit
  | customResponse
  deriving DecidableEq, Repr

inductive LimitBy where
  | clientIp
  | header
  | routePath
  deriving DecidableEq, Repr

inductive OnErrorAction where
  | fallbackLocal
  | pass
  | block
  deriving DecidableEq, Repr

structure HeaderInput where
  name : Text
  value : Text

structure CompiledHeader where
  name : Bytes
  value : Bytes
  deriving DecidableEq

/-- The status of a refusal; `throttled` is the default of the limiter. -/
def compileCode (throttled : Nat) (rejectedCode : Option UInt16) (action : ActionOnExceeded) :
    Except Error Nat :=
  match rejectedCode with
  | some code =>
    if 200 ≤ code.toNat ∧ code.toNat ≤ 599 then .ok code.toNat
    else .error .invalidPolicy
  | none =>
    .ok (match action with
      | .throttle => throttled
      | .block => 403
      | .audit => 200
      | .customResponse => throttled)

section Headers

variable (nameValid : Bytes → Bool)

def compileHeaders : List HeaderInput → Except Error (List CompiledHeader)
  | [] => .ok []
  | h :: headers => do
      if (trim h.name.bytes).isEmpty || 64 < h.name.bytes.length ||
          256 < h.value.bytes.length || !nameValid h.name.bytes then
        .error .invalidPolicy
      else
        let compiled ← compileHeaders headers
        .ok (⟨h.name.bytes, h.value.bytes⟩ :: compiled)

def compileHeaderTable : Option (List HeaderInput) → Except Error (List CompiledHeader)
  | some headers =>
    if 8 < headers.length then .error .invalidPolicy else compileHeaders nameValid headers
  | none => .ok []

end Headers

def compileIdentifier (limitBy : Text) (headerName : Option Text) :
    Except Error (LimitBy × Option Bytes) :=
  let limitBy := toAsciiLowercase (trim limitBy.bytes)
  if limitBy = ascii "client_ip" then .ok (.clientIp, none)
  else if limitBy = ascii "route_path" then .ok (.routePath, none)
  else if limitBy = ascii "header" then
    match (headerName.map fun s => toAsciiLowercase (trim s.bytes)).filter
        (fun s => !s.isEmpty) with
    | none => .error .invalidPolicy
    | some hName =>
      if 64 < hName.length || !hName.all isHeaderNameByte then .error .invalidPolicy
      else .ok (.header, some hName)
  else .error .invalidPolicy

def poolKey (endpoint : Text) (db : Option Int) (password : Option Text)
    (tls : Option TlsConfigInput) : RedisPoolKey where
  endpoint := endpoint
  db := db
  username := none
  password := password
  tlsEnabled := (tls.map TlsConfigInput.enabled).getD false
  insecureSkipVerify := (tls.map TlsConfigInput.insecureSkipVerify).getD false
  caCert := tls.bind TlsConfigInput.caCertPem
  clientCert := tls.bind TlsConfigInput.clientCertPem
  clientKey := tls.bind TlsConfigInput.clientKeyPem

end AuroraGateway.Engine
