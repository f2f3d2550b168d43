import AuroraGateway.Access.Space
import AuroraGateway.RequestTermination.Methods

/-!
# Bypass headers in the access phase

The access phase evaluates a request as if it had no headers, so that none of them is
found to be a bypass header.
-/

namespace AuroraGateway.RequestTermination

open Engine Foundation

namespace RequestTerminationEngine

variable (engine : RequestTerminationEngine) (ctx : RequestContext)
  (headers : List (Bytes × Bytes))

def actualRequest : RequestTerminationEvalRequest := ⟨ctx.host, ctx.path, ctx.method, headers⟩

def matching : Option CompiledTerminationRule :=
  engine.rules.find? fun rule => rule.matches (actualRequest ctx headers)

theorem evaluateCtx_eq :
    engine.evaluateCtx ctx =
      match engine.matching ctx headers with
      | none => .default
      | some rule =>
        ⟨true, true, rule.statusCode, rule.contentType, rule.body, rule.headers, rule.id⟩ := by
  have hmatches : (fun rule : CompiledTerminationRule => rule.matches (actualRequest ctx [])) =
      fun rule => rule.matches (actualRequest ctx headers) := rfl
  have hbypassed : ∀ rule : CompiledTerminationRule,
      rule.bypassed (actualRequest ctx []) = false := by
    simp [CompiledTerminationRule.bypassed, actualRequest]
  rw [evaluateCtx, ← actualRequest, evaluate, matching, hmatches]
  cases engine.rules.find? fun rule => rule.matches (actualRequest ctx headers) with
  | none => rfl
  | some rule => simp only [hbypassed, Bool.not_false]

/-- The access phase decides as the headers demand exactly if the request carries no bypass
header of the rule that it matches. -/
theorem evaluateCtx_eq_evaluate_iff :
    engine.evaluateCtx ctx = engine.evaluate (actualRequest ctx headers) ↔
      ((engine.matching ctx headers).all fun rule =>
        !rule.bypassed (actualRequest ctx headers)) = true := by
  rw [engine.evaluateCtx_eq ctx headers, evaluate, ← matching]
  cases engine.matching ctx headers with
  | none => simp
  | some rule =>
    cases hbypassed : rule.bypassed (actualRequest ctx headers) <;> simp [hbypassed]

end RequestTerminationEngine

def staffRequest : RequestContext where
  clientIp := ascii "192.0.2.1"
  host := ascii "example.com"
  path := ascii "/"
  method := ascii "GET"
  query := []
  contentLength := 0
  headerLength := 0
  randomSeed := 0
  nowMs := 0

/-- The request has the bypass header of the rule, and is refused. -/
theorem bypass_refused :
    ((maintenanceEngine []).evaluate (RequestTerminationEngine.actualRequest staffRequest
        [(ascii "X-Bypass", ascii "staff")])).shouldTerminate = false ∧
      Access.checkAdmission
          { Access.AccessPhaseEngines.none with
            requestTermination := some (maintenanceEngine []) : Access.AccessPhaseEngines Nat }
          staffRequest =
        some ⟨503, false, some (ascii "text/plain"), some (ascii "back soon")⟩ := by
  decide +kernel

end AuroraGateway.RequestTermination
