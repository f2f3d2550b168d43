import AuroraGateway.ConnectionLimit.Engine
import AuroraGateway.IpRestriction.Engine
import AuroraGateway.RateLimit.Engine
import AuroraGateway.RequestTermination.Engine
import AuroraGateway.ResourceLimit.Limiter

/-!
# The access phase

Admission, authentication, limits and routing of one request, in this order.
The engines that authenticate, shape and route are given by their answers; the
results hold for all of them.
-/

namespace AuroraGateway.Access

open ConnectionLimit (ConnectionLimitEngine)
open Engine Foundation
open IpRestriction (IpRestrictionEngine)
open RateLimit (Duration RateLimitEngine Script ShardOrder)
open Redis
open RequestTermination (RequestTerminationEngine)
open ResourceLimit (ResourceLimiter)

variable {F : Type}

/-! ## Engines -/

abbrev HeaderLookup := Bytes → Option Bytes

abbrev HeaderList := List (Bytes × Bytes)

inductive JwtDecision where
  | allow (forwardedHeaders : HeaderList)
  | unauthorized
  deriving DecidableEq

structure ShaperDecision where
  matched : Bool
  rateBytesPerSec : Nat
  burstBytes : Nat
  deriving DecidableEq

structure RoutingDecision where
  matched : Bool
  upstream : Bytes
  headers : Option HeaderList
  deriving DecidableEq

structure AccessPhaseEngines (F : Type) where
  ipRestriction : Option IpRestrictionEngine
  jwt : Option (RequestContext → HeaderLookup → Except Error JwtDecision)
  rateLimit : Option (RateLimitEngine F)
  connectionLimit : Option ConnectionLimitEngine
  trafficShaper : Option (RequestContext → HeaderLookup → ShaperDecision)
  resourceLimit : Option ResourceLimiter
  requestTermination : Option RequestTerminationEngine
  trafficSplit : Option (RequestContext → HeaderLookup → RoutingDecision)
  canaryRelease : Option (RequestContext → HeaderLookup → RoutingDecision)
  blueGreen : Option (RequestContext → HeaderLookup → RoutingDecision)

def AccessPhaseEngines.none : AccessPhaseEngines F where
  ipRestriction := .none
  jwt := .none
  rateLimit := .none
  connectionLimit := .none
  trafficShaper := .none
  resourceLimit := .none
  requestTermination := .none
  trafficSplit := .none
  canaryRelease := .none
  blueGreen := .none

/-- What an evaluation meets outside: the clock, the order of hash tables, the server
of each limiter, and the fate of the calls to it. -/
structure Surroundings (F : Type) where
  now : Duration
  order : Nat → ShardOrder F
  rateServer : Nat
  rateFate : Nat → CallFate
  connectionServer : Nat
  connectionFate : CallFate
  customScript : Text → Script F

abbrev Servers (F : Type) := Nat → Store F

/-! ## Admission -/

def denied (status : Nat) : AccessDenial := ⟨status, false, none, none⟩

variable (engines : AccessPhaseEngines F) (ctx : RequestContext)

def admitIp : Option AccessDenial :=
  match engines.ipRestriction with
  | none => none
  | some ipEng =>
    match ipEng.evaluateCtx ctx with
    -- An error of the engine is not looked at.
    | .error _ => none
    | .ok decision => if decision.action = 1 then some (denied 403) else none

def admitResources : Option AccessDenial :=
  match engines.resourceLimit with
  | none => none
  | some resLimiter =>
    let decision := resLimiter.evaluateCtx ctx
    if decision.allowed then none
    else
      some ⟨decision.statusCode, false, none,
        if decision.responseBody.isEmpty then none else some decision.responseBody⟩

def admitTermination : Option AccessDenial :=
  match engines.requestTermination with
  | none => none
  | some termEng =>
    let decision := termEng.evaluateCtx ctx
    if decision.matched && decision.shouldTerminate then
      some ⟨decision.statusCode, false,
        if decision.contentType.isEmpty then none else some decision.contentType,
        if decision.body.isEmpty then none else some decision.body⟩
    else none

def checkAdmission : Option AccessDenial :=
  (admitIp engines ctx).or ((admitResources engines ctx).or (admitTermination engines ctx))

/-! ## Authentication -/

def checkAuthentication (headerLookup : HeaderLookup) : Except AccessDenial (Option HeaderList) :=
  match engines.jwt with
  | none => .ok none
  | some jwtEng =>
    match jwtEng ctx headerLookup with
    | .ok (.allow forwarded) => .ok (if forwarded.isEmpty then none else some forwarded)
    | .ok .unauthorized => .error ⟨401, true, none, none⟩
    | .error _ => .error (denied 503)

/-! ## Limits -/

section Limits

variable [Flonum F] (engines : AccessPhaseEngines F) (ctx : RequestContext)

def limitRate (headerLookup : HeaderLookup) (world : Surroundings F) (servers : Servers F) :
    AccessPhaseEngines F × Servers F × Except AccessDenial Unit :=
  match engines.rateLimit with
  | none => (engines, servers, .ok ())
  | some rlEng =>
    let (rlEng, store, result) := rlEng.evaluate
      ⟨ctx.host, ctx.path, ctx.clientIp, headerLookup, world.now, world.order,
        world.rateFate, world.customScript⟩ (servers world.rateServer)
    ({ engines with rateLimit := some rlEng },
      Function.update servers world.rateServer store,
      match result with
      | .ok decision =>
        if decision.allowed then .ok () else .error (denied decision.statusCode)
      | .error _ => .error (denied 500))

def limitConnections (headerLookup : HeaderLookup) (world : Surroundings F) (servers : Servers F) :
    AccessPhaseEngines F × Servers F × Except AccessDenial (Option ConnectionToken) :=
  match engines.connectionLimit with
  | none => (engines, servers, .ok none)
  | some clEng =>
    let (clEng, store, result) := clEng.acquire world.connectionFate
      ⟨ctx.host, ctx.path, ctx.clientIp, headerLookup⟩ (servers world.connectionServer)
    ({ engines with connectionLimit := some clEng },
      Function.update servers world.connectionServer store,
      match result with
      | .ok decision =>
        if decision.allowed then
          .ok (decision.token.map fun token =>
            ⟨token.isRedis, token.ruleId, fromUtf8Lossy token.identifier⟩)
        else .error (denied decision.statusCode)
      | .error _ => .error (denied 500))

def shape (headerLookup : HeaderLookup) : Nat × Nat :=
  match engines.trafficShaper with
  | none => (0, 0)
  | some tsEng =>
    let decision := tsEng ctx headerLookup
    if decision.matched then (decision.rateBytesPerSec, decision.burstBytes) else (0, 0)

def checkLimits (headerLookup : HeaderLookup) (world : Surroundings F) (servers : Servers F) :
    AccessPhaseEngines F × Servers F ×
      Except AccessDenial (Option ConnectionToken × Nat × Nat) :=
  match limitRate engines ctx headerLookup world servers with
  | (engines, servers, .error denial) => (engines, servers, .error denial)
  | (engines, servers, .ok ()) =>
    match limitConnections engines ctx headerLookup world servers with
    | (engines, servers, .error denial) => (engines, servers, .error denial)
    | (engines, servers, .ok connToken) =>
      (engines, servers, .ok (connToken, shape engines ctx headerLookup))

end Limits

/-! ## Routing -/

def applyRouting (decision : RoutingDecision) (route : Option Bytes × Option HeaderList) :
    Option Bytes × Option HeaderList :=
  if decision.matched && !decision.upstream.isEmpty then
    (some decision.upstream, decision.headers.or route.2)
  else route

def resolveRouting (engines : AccessPhaseEngines F) (ctx : RequestContext)
    (headerLookup : HeaderLookup) : Option Bytes × Option HeaderList :=
  let route : Option Bytes × Option HeaderList :=
    match engines.trafficSplit with
    | some tsEng => applyRouting { tsEng ctx headerLookup with headers := none } (none, none)
    | none => (none, none)
  let route :=
    match engines.canaryRelease with
    | some canaryEng => applyRouting (canaryEng ctx headerLookup) route
    | none => route
  match engines.blueGreen with
  | some bgEng => applyRouting (bgEng ctx headerLookup) route
  | none => route

def combineHeaders (authHeaders routingHeaders : Option HeaderList) : Option HeaderList :=
  match authHeaders, routingHeaders with
  | some ah, some rh => some (ah ++ rh)
  | some ah, none => some ah
  | none, some rh => some rh
  | none, none => none

/-! ## Evaluation -/

variable [Flonum F]

def evaluate (engines : AccessPhaseEngines F) (ctx : RequestContext)
    (headerLookup : HeaderLookup) (world : Surroundings F) (servers : Servers F) :
    AccessPhaseEngines F × Servers F × AccessDecision :=
  match checkAdmission engines ctx with
  | some denial => (engines, servers, denial.toDecision)
  | none =>
    match checkAuthentication engines ctx headerLookup with
    | .error denial => (engines, servers, denial.toDecision)
    | .ok authHeaders =>
      match checkLimits engines ctx headerLookup world servers with
      | (engines, servers, .error denial) => (engines, servers, denial.toDecision)
      | (engines, servers, .ok (connToken, rateLimitBytesPerSec, _)) =>
        let (targetUpstream, routingHeaders) := resolveRouting engines ctx headerLookup
        (engines, servers,
          .allow (combineHeaders authHeaders routingHeaders) targetUpstream
            rateLimitBytesPerSec connToken)

end AuroraGateway.Access
