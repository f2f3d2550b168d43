import AuroraGateway.Engine.Request

/-!
# The request termination engine

Requests that match a rule are answered by the gateway itself, unless they carry
a bypass header.
-/

namespace AuroraGateway.RequestTermination

open Engine Foundation

def methodOther : BitVec 16 := 1 <<< 15

def methodToMask : Bytes → BitVec 16 := methodBit methodOther

structure CompiledTerminationRule where
  id : Bytes
  origin : Bytes
  pathPrefix : Bytes
  methodMask : BitVec 16
  statusCode : Nat
  contentType : Bytes
  body : Bytes
  headers : List (Bytes × Bytes)
  bypassHeaders : List (Bytes × Bytes)

structure TerminationDecision where
  matched : Bool
  shouldTerminate : Bool
  statusCode : Nat
  contentType : Bytes
  body : Bytes
  headers : List (Bytes × Bytes)
  ruleId : Bytes
  deriving DecidableEq

def TerminationDecision.default : TerminationDecision := ⟨false, false, 0, [], [], [], []⟩

structure RequestTerminationEngine where
  generation : Nat
  rules : List CompiledTerminationRule

structure RequestTerminationEvalRequest where
  host : Bytes
  path : Bytes
  method : Bytes
  headers : List (Bytes × Bytes)

def CompiledTerminationRule.matches (rule : CompiledTerminationRule)
    (req : RequestTerminationEvalRequest) : Bool :=
  (rule.origin == ascii "*" || hostMatches rule.origin req.host) &&
    rule.pathPrefix.isPrefixOf req.path &&
    !(!(ascii "/").isSuffixOf rule.pathPrefix && rule.pathPrefix.length < req.path.length &&
      req.path[rule.pathPrefix.length]? != some slash) &&
    (rule.methodMask &&& methodToMask req.method) != 0

def CompiledTerminationRule.bypassed (rule : CompiledTerminationRule)
    (req : RequestTerminationEvalRequest) : Bool :=
  rule.bypassHeaders.any fun bypass =>
    req.headers.any fun header =>
      eqIgnoreAsciiCase header.1 bypass.1 && header.2 == bypass.2

namespace RequestTerminationEngine

def evaluate (engine : RequestTerminationEngine) (req : RequestTerminationEvalRequest) :
    TerminationDecision :=
  match engine.rules.find? fun rule => rule.matches req with
  | none => .default
  | some rule =>
    { matched := true
      shouldTerminate := !rule.bypassed req
      statusCode := rule.statusCode
      contentType := rule.contentType
      body := rule.body
      headers := rule.headers
      ruleId := rule.id }

/-- The access phase passes no headers. -/
def evaluateCtx (engine : RequestTerminationEngine) (ctx : RequestContext) :
    TerminationDecision :=
  engine.evaluate ⟨ctx.host, ctx.path, ctx.method, []⟩

end RequestTerminationEngine

end AuroraGateway.RequestTermination
