import AuroraGateway.Access.Space

/-!
# Errors of the engines

A phase that fails closed lets a request through only when every loaded engine
evaluated it and permitted it.  The access phase does so for the errors of every
engine but one: it does not look at an error of the IP restriction engine.
-/

namespace AuroraGateway.Access

open Engine Foundation
open IpRestriction (IpRestrictionEngine parseClientIp methodAll)

variable {F : Type}

/-! ## Verdicts -/

inductive Guard where
  | ipRestriction
  | resourceLimit
  | requestTermination
  | jwt
  | rateLimit
  | connectionLimit
  deriving DecidableEq, Repr

inductive Verdict where
  | permit
  | refuse
  | err
  deriving DecidableEq, Repr

def Verdict.ofPermits (permits : Bool) : Verdict := if permits then .permit else .refuse

def Verdict.ofResult {α : Type} (permits : α → Bool) : Except Error α → Verdict
  | .ok decision => .ofPermits (permits decision)
  | .error _ => .err

open Verdict

theorem Verdict.ofPermits_eq_permit (permits : Bool) :
    ofPermits permits = .permit ↔ permits = true := by
  cases permits <;> decide

theorem Verdict.ofResult_eq_err {α : Type} (permits : α → Bool) (result : Except Error α) :
    ofResult permits result = .err ↔ ∃ err, result = .error err := by
  cases result with
  | error err => exact ⟨fun _ => ⟨err, rfl⟩, fun _ => rfl⟩
  | ok decision => cases hpermits : permits decision <;>
      simp [ofResult, ofPermits, hpermits]

variable [Flonum F]

def verdict (engines : AccessPhaseEngines F) (ctx : RequestContext)
    (headerLookup : HeaderLookup) (world : Surroundings F) (servers : Servers F) :
    Guard → Option Verdict
  | .ipRestriction => engines.ipRestriction.map fun ipEng =>
    .ofResult (fun decision => decision.action != 1) (ipEng.evaluateCtx ctx)
  | .resourceLimit => engines.resourceLimit.map fun resLimiter =>
    .ofPermits (resLimiter.evaluateCtx ctx).allowed
  | .requestTermination => engines.requestTermination.map fun termEng =>
    .ofPermits
      (!((termEng.evaluateCtx ctx).matched && (termEng.evaluateCtx ctx).shouldTerminate))
  | .jwt => engines.jwt.map fun jwtEng =>
    .ofResult (fun decision => decision != .unauthorized) (jwtEng ctx headerLookup)
  | .rateLimit => engines.rateLimit.map fun rlEng =>
    .ofResult (fun decision => decision.allowed) (rlEng.evaluate
      ⟨ctx.host, ctx.path, ctx.clientIp, headerLookup, world.now, world.order,
        world.rateFate, world.customScript⟩ (servers world.rateServer)).2.2
  | .connectionLimit => engines.connectionLimit.map fun clEng =>
    -- The rate limiter has run before, perhaps on the same server.
    let servers := (limitRate engines ctx headerLookup world servers).2.1
    .ofResult (fun decision => decision.allowed) (clEng.acquire world.connectionFate
      ⟨ctx.host, ctx.path, ctx.clientIp, headerLookup⟩
      (servers world.connectionServer)).2.2

def Passes (answer : Option Verdict) : Prop := ∀ v ∈ answer, v = .permit

def AccessDecision.isAllow : AccessDecision → Bool
  | .allow .. => true
  | .deny .. => false

/-- An error of a loaded engine ends in a denial, and a request goes through only with
the permission of every loaded engine. -/
structure FailsClosed (engines : AccessPhaseEngines F) (ctx : RequestContext)
    (headerLookup : HeaderLookup) (world : Surroundings F) (servers : Servers F) : Prop where
  deny_of_err : ∀ guard, verdict engines ctx headerLookup world servers guard = some .err →
    AccessDecision.isAllow (evaluate engines ctx headerLookup world servers).2.2 = false
  passes_of_allow :
    AccessDecision.isAllow (evaluate engines ctx headerLookup world servers).2.2 = true →
    ∀ guard, Passes (verdict engines ctx headerLookup world servers guard)

/-- The IP restriction engine, if it is loaded, evaluates the request: the request has the
form that it asks for and an address that it can read. -/
def IpEvaluates (engines : AccessPhaseEngines F) (ctx : RequestContext) : Prop :=
  engines.ipRestriction.isSome = true →
    IpRestrictionEngine.invalidRequest ⟨ctx.clientIp, ctx.host, ctx.path, ctx.method⟩ = false ∧
      (parseClientIp ctx.clientIp).isSome = true

/-! ## Stages -/

section Stages

variable (engines : AccessPhaseEngines F) (ctx : RequestContext)
  (headerLookup : HeaderLookup) (world : Surroundings F) (servers : Servers F)

theorem admitIp_eq_none :
    admitIp engines ctx = none ↔
      Passes (verdict engines ctx headerLookup world servers .ipRestriction) ∨
        verdict engines ctx headerLookup world servers .ipRestriction = some .err := by
  simp only [admitIp, verdict, Passes]
  cases engines.ipRestriction with
  | none => simp
  | some ipEng =>
    cases hresult : ipEng.evaluateCtx ctx with
    | error err => simp [hresult, ofResult]
    | ok decision =>
      by_cases haction : decision.action = 1 <;>
        simp [hresult, ofResult, ofPermits, haction]

theorem admitResources_eq_none :
    admitResources engines ctx = none ↔
      Passes (verdict engines ctx headerLookup world servers .resourceLimit) := by
  simp only [admitResources, verdict, Passes]
  cases engines.resourceLimit with
  | none => simp
  | some resLimiter => simp [ofPermits_eq_permit]

theorem admitTermination_eq_none :
    admitTermination engines ctx = none ↔
      Passes (verdict engines ctx headerLookup world servers .requestTermination) := by
  simp only [admitTermination, verdict, Passes]
  cases engines.requestTermination with
  | none => simp
  | some termEng =>
    cases hmatched : (termEng.evaluateCtx ctx).matched <;>
      simp [hmatched, ofPermits_eq_permit]

omit [Flonum F] in
theorem checkAdmission_eq_none :
    checkAdmission engines ctx = none ↔
      admitIp engines ctx = none ∧ admitResources engines ctx = none ∧
        admitTermination engines ctx = none := by
  simp only [checkAdmission, Option.or_eq_none_iff]

theorem checkAuthentication_isOk :
    (checkAuthentication engines ctx headerLookup).isOk = true ↔
      Passes (verdict engines ctx headerLookup world servers .jwt) := by
  simp only [checkAuthentication, verdict, Passes]
  cases engines.jwt with
  | none => simp [Except.isOk, Except.toBool]
  | some jwtEng =>
    cases hresult : jwtEng ctx headerLookup with
    | error err => simp [hresult, ofResult, Except.isOk, Except.toBool]
    | ok decision =>
      cases decision <;>
        simp [hresult, ofResult, ofPermits, Except.isOk, Except.toBool]

theorem limitRate_isOk :
    (limitRate engines ctx headerLookup world servers).2.2.isOk = true ↔
      Passes (verdict engines ctx headerLookup world servers .rateLimit) := by
  simp only [limitRate, verdict, Passes]
  cases engines.rateLimit with
  | none => simp [Except.isOk, Except.toBool]
  | some rlEng =>
    dsimp only [Option.map_some]
    generalize (rlEng.evaluate _ _).2.2 = result
    cases result with
    | error err => simp [ofResult, Except.isOk, Except.toBool]
    | ok decision =>
      by_cases hallowed : decision.allowed = true <;>
        simp [hallowed, ofResult, ofPermits, Except.isOk, Except.toBool]

theorem limitRate_connectionLimit :
    (limitRate engines ctx headerLookup world servers).1.connectionLimit =
      engines.connectionLimit := by
  unfold limitRate
  split <;> rfl

theorem limitConnections_isOk :
    (limitConnections (limitRate engines ctx headerLookup world servers).1 ctx headerLookup
      world (limitRate engines ctx headerLookup world servers).2.1).2.2.isOk = true ↔
      Passes (verdict engines ctx headerLookup world servers .connectionLimit) := by
  simp only [limitConnections, verdict, Passes, limitRate_connectionLimit]
  generalize (limitRate engines ctx headerLookup world servers).2.1 = servers
  cases engines.connectionLimit with
  | none => simp [Except.isOk, Except.toBool]
  | some clEng =>
    dsimp only [Option.map_some]
    generalize (clEng.acquire _ _ (servers _)).2.2 = result
    cases result with
    | error err => simp [ofResult, Except.isOk, Except.toBool]
    | ok decision =>
      by_cases hallowed : decision.allowed = true <;>
        simp [hallowed, ofResult, ofPermits, Except.isOk, Except.toBool]

theorem checkLimits_isOk :
    (checkLimits engines ctx headerLookup world servers).2.2.isOk = true ↔
      (limitRate engines ctx headerLookup world servers).2.2.isOk = true ∧
      (limitConnections (limitRate engines ctx headerLookup world servers).1 ctx headerLookup
        world (limitRate engines ctx headerLookup world servers).2.1).2.2.isOk = true := by
  unfold checkLimits
  rcases hrate : limitRate engines ctx headerLookup world servers with ⟨engines', servers', result⟩
  cases result with
  | error denial => simp [Except.isOk, Except.toBool]
  | ok _ =>
    rcases hconn : limitConnections engines' ctx headerLookup world servers'
      with ⟨engines'', servers'', result⟩
    cases result <;> simp [hconn, Except.isOk, Except.toBool]

theorem evaluate_isAllow :
    AccessDecision.isAllow (evaluate engines ctx headerLookup world servers).2.2 = true ↔
      checkAdmission engines ctx = none ∧
      (checkAuthentication engines ctx headerLookup).isOk = true ∧
      (checkLimits engines ctx headerLookup world servers).2.2.isOk = true := by
  unfold evaluate
  cases hadmission : checkAdmission engines ctx with
  | some denial => simp [AccessDenial.toDecision, AccessDecision.isAllow]
  | none =>
    cases hauth : checkAuthentication engines ctx headerLookup with
    | error denial =>
      simp [AccessDenial.toDecision, AccessDecision.isAllow, Except.isOk, Except.toBool]
    | ok authHeaders =>
      rcases hlimits : checkLimits engines ctx headerLookup world servers
        with ⟨engines', servers', result⟩
      cases result <;>
        simp [AccessDenial.toDecision, AccessDecision.isAllow, Except.isOk, Except.toBool]

/-- A request goes through when every engine permits it, where an error of the IP
restriction engine counts as a permission. -/
theorem evaluate_isAllow_iff_verdict :
    AccessDecision.isAllow (evaluate engines ctx headerLookup world servers).2.2 = true ↔
      (Passes (verdict engines ctx headerLookup world servers .ipRestriction) ∨
        verdict engines ctx headerLookup world servers .ipRestriction = some .err) ∧
      ∀ guard, guard ≠ .ipRestriction →
        Passes (verdict engines ctx headerLookup world servers guard) := by
  rw [evaluate_isAllow, checkAdmission_eq_none, admitIp_eq_none _ _ headerLookup world servers,
    admitResources_eq_none _ _ headerLookup world servers,
    admitTermination_eq_none _ _ headerLookup world servers,
    checkAuthentication_isOk _ _ _ world servers, checkLimits_isOk, limitRate_isOk,
    limitConnections_isOk]
  constructor
  · rintro ⟨⟨hip, hresource, htermination⟩, hjwt, hrate, hconn⟩
    refine ⟨hip, fun guard hguard => ?_⟩
    cases guard with
    | ipRestriction => exact absurd rfl hguard
    | resourceLimit => exact hresource
    | requestTermination => exact htermination
    | jwt => exact hjwt
    | rateLimit => exact hrate
    | connectionLimit => exact hconn
  · rintro ⟨hip, hothers⟩
    exact ⟨⟨hip, hothers _ nofun, hothers _ nofun⟩, hothers _ nofun, hothers _ nofun,
      hothers _ nofun⟩

theorem ipEvaluates_iff :
    IpEvaluates engines ctx ↔
      verdict engines ctx headerLookup world servers .ipRestriction ≠ some .err := by
  simp only [IpEvaluates, verdict]
  cases engines.ipRestriction with
  | none => simp
  | some ipEng =>
    have herror := ipEng.evaluateCtx_isError_iff ctx
    simp only [Option.isSome_some, forall_const, Option.map_some, ne_eq, Option.some.injEq,
      ofResult_eq_err, herror, not_or, Bool.not_eq_true, Option.isSome_iff_ne_none]

end Stages

/-! ## Failing closed -/

/-- The phase fails closed on a request exactly when the IP restriction engine can evaluate
it or another engine turns it away. -/
theorem failsClosed_iff (engines : AccessPhaseEngines F) (ctx : RequestContext)
    (headerLookup : HeaderLookup) (world : Surroundings F) (servers : Servers F) :
    FailsClosed engines ctx headerLookup world servers ↔
      IpEvaluates engines ctx ∨
        ∃ guard, guard ≠ .ipRestriction ∧
          ¬Passes (verdict engines ctx headerLookup world servers guard) := by
  have hallow := evaluate_isAllow_iff_verdict engines ctx headerLookup world servers
  rw [ipEvaluates_iff engines ctx headerLookup world servers]
  constructor
  · intro hclosed
    by_contra hopen
    push Not at hopen
    obtain ⟨herr, hothers⟩ := hopen
    have hdeny := hclosed.deny_of_err _ herr
    rw [hallow.mpr ⟨.inr herr, hothers⟩] at hdeny
    exact Bool.noConfusion hdeny
  · intro hcondition
    have hpasses :
        AccessDecision.isAllow (evaluate engines ctx headerLookup world servers).2.2 = true →
        ∀ guard, Passes (verdict engines ctx headerLookup world servers guard) := by
      intro hgoes guard
      obtain ⟨hip, hothers⟩ := hallow.mp hgoes
      by_cases hguard : guard = .ipRestriction
      · rcases hcondition with hevaluates | ⟨other, hother, hrefuses⟩
        · exact hguard ▸ hip.resolve_right hevaluates
        · exact absurd (hothers other hother) hrefuses
      · exact hothers guard hguard
    refine ⟨fun guard herr => ?_, hpasses⟩
    by_contra hgoes
    have hpermit := hpasses (Bool.eq_true_of_not_eq_false hgoes) guard .err herr
    exact Verdict.noConfusion hpermit

def blockAll : IpRestrictionEngine where
  generation := 1
  rulesV4 :=
    [{ mask := 0, network := 0, prefixLen := 0, priority := 0, isBlock := true, ruleId := 1,
       methodMask := methodAll, host := .any, pathPrefix := ascii "/", log := false }]
  rulesV6 :=
    [{ mask := 0, network := 0, prefixLen := 0, priority := 0, isBlock := true, ruleId := 2,
       methodMask := methodAll, host := .any, pathPrefix := ascii "/", log := false }]
  isWhitelistStrict := false

def requestWithMethod (method : Bytes) : RequestContext where
  clientIp := ascii "203.0.113.7"
  host := ascii "example.com"
  path := ascii "/admin"
  method := method
  query := []
  contentLength := 0
  headerLength := 0
  randomSeed := 0
  nowMs := 0

def Surroundings.calm : Surroundings F where
  now := .epoch
  order := fun _ => .asStored _ _
  rateServer := 0
  rateFate := fun _ => .answered
  connectionServer := 0
  connectionFate := .answered
  customScript := fun _ _ store => (store, none)

/-- A method of 17 bytes passes the policy that blocks every address. -/
theorem overlong_method_not_blocked :
    AccessDecision.isAllow
        (evaluate (F := ℚ) { AccessPhaseEngines.none with ipRestriction := some blockAll }
          (requestWithMethod (ascii "VERSION-CONTROL-X")) (fun _ => none) .calm
          fun _ => .empty).2.2 = true ∧
      ¬FailsClosed (F := ℚ) { AccessPhaseEngines.none with ipRestriction := some blockAll }
        (requestWithMethod (ascii "VERSION-CONTROL-X")) (fun _ => none) .calm
        fun _ => .empty := by
  refine ⟨by decide, fun hclosed => ?_⟩
  have hdeny := hclosed.deny_of_err .ipRestriction (by decide)
  revert hdeny
  decide

end AuroraGateway.Access
