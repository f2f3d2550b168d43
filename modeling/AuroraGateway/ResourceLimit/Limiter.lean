import AuroraGateway.Engine.Policy

/-!
# The resource limiter

Bounds on the size of the header and of the payload of a request.  The
comparison has one implementation for each processor.
-/

namespace AuroraGateway.ResourceLimit

open Engine Foundation

inductive Comparator where
  | sse42
  | neon
  | portable
  deriving DecidableEq, Repr

structure CompiledResourceRule where
  id : Bytes
  priority : Nat
  host : HostMatcher
  pathPrefix : Bytes
  rawHeaderLimit : Nat
  rawPayloadLimit : Nat
  effectiveHeaderLimit : Int
  effectivePayloadLimit : Int
  statusTable : Fin 4 → Nat
  responseBodyHeader : Bytes
  responseBodyPayload : Bytes

structure ResourceLimitDecision where
  allowed : Bool
  statusCode : Nat
  responseBody : Bytes
  ruleId : Bytes
  deriving DecidableEq

def ResourceLimitDecision.allow : ResourceLimitDecision := ⟨true, 200, [], []⟩

def ResourceLimitDecision.reject (statusCode : Nat) (responseBody ruleId : Bytes) :
    ResourceLimitDecision :=
  ⟨false, statusCode, responseBody, ruleId⟩

def i64Max : Nat := 2 ^ 63 - 1

/-- The violations: bit 0 for the header, bit 1 for the payload. -/
def CompiledResourceRule.checkLimitsSimd (rule : CompiledResourceRule)
    (comparator : Comparator) (headerBytes payloadBytes : Nat) : Fin 4 :=
  match comparator with
  | .sse42 =>
    let h : Int := min headerBytes i64Max
    let p : Int := min payloadBytes i64Max
    (if rule.effectivePayloadLimit < p then 2 else 0) +
      (if rule.effectiveHeaderLimit < h then 1 else 0)
  | .neon =>
    -- The lane of the payload is shifted by one bit less, so both bits remain.
    let hMask : Fin 4 := if rule.rawHeaderLimit < headerBytes then 1 else 0
    let pMask : Fin 4 := if rule.rawPayloadLimit < payloadBytes then 3 else 0
    pMask ||| hMask
  | .portable =>
    (if rule.rawPayloadLimit < payloadBytes then 2 else 0) +
      (if rule.rawHeaderLimit < headerBytes then 1 else 0)

def CompiledResourceRule.selectBody (rule : CompiledResourceRule) (mask : Fin 4) : Bytes :=
  match mask with
  | 1 | 3 => rule.responseBodyHeader
  | 2 => rule.responseBodyPayload
  | _ => []

structure ResourceLimiter where
  generation : Nat
  rules : List CompiledResourceRule
  comparator : Comparator

structure ResourceLimitRequest where
  origin : Bytes
  path : Bytes
  headerBytes : Nat
  payloadBytes : Nat

namespace ResourceLimiter

def invalidRequest (req : ResourceLimitRequest) : Bool :=
  req.origin.isEmpty || 253 < req.origin.length || req.path.isEmpty ||
    maxPathBytes < req.path.length || !(ascii "/").isPrefixOf req.path

def evaluate (limiter : ResourceLimiter) (req : ResourceLimitRequest) :
    ResourceLimitDecision :=
  if invalidRequest req then .allow
  else
    match limiter.rules.find? fun rule =>
        rule.host.matches req.origin && matchesPath rule.pathPrefix req.path with
    | none => .allow
    | some rule =>
      let violationMask :=
        rule.checkLimitsSimd limiter.comparator req.headerBytes req.payloadBytes
      if violationMask ≠ 0 then
        .reject (rule.statusTable violationMask) (rule.selectBody violationMask) rule.id
      else .allow

def evaluateCtx (limiter : ResourceLimiter) (ctx : RequestContext) :
    ResourceLimitDecision :=
  limiter.evaluate ⟨ctx.host, ctx.path, ctx.headerLength, ctx.contentLength⟩

end ResourceLimiter

end AuroraGateway.ResourceLimit
