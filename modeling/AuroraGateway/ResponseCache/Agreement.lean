import AuroraGateway.ResponseCache.Tenants

/-!
# Storing and looking up

Whether a route is switched off is asked when a response is looked up, and not when it is
stored.
-/

namespace AuroraGateway.ResponseCache

open Engine Foundation ResponseCacheEngine

/-- A response that was stored, and a later request for it while an entry under its key is in
the store and has not expired. -/
structure StoredAccess (platform : Platform) where
  config : ResponseCacheConfig
  before : List EngineCall
  record : UpstreamResponseRecord
  storeClock : Nat
  accepted : (((ResponseCacheEngine.new platform config).run platform before).storeResponse platform
    record storeClock).2 = true
  between : List EngineCall
  ctx : RequestContext
  method_eq : ctx.method = record.method
  host_eq : ctx.host = record.host
  path_eq : ctx.path = record.path
  query_eq : ctx.query = record.query
  acceptEncoding : Option Bytes
  cacheControl : Option Bytes
  unforced : (cacheControl.any fun cc =>
    hasDirective cc (ascii "no-cache") || hasDirective cc (ascii "no-store")) = false
  accessClock : Nat
  present : (((ResponseCacheEngine.new platform config).run platform
    (before ++ .store record storeClock :: between)).storage.get
      ((ResponseCacheEngine.new platform config).keyOf record.method record.host record.path
        record.query) (ResponseCacheEngine.nowSec ctx accessClock)).2.isSome = true

/-- No request for the path is ever answered from the store, or looked up in it. -/
def AlwaysBypassed (platform : Platform) (config : ResponseCacheConfig) (path : Bytes) : Prop :=
  ∀ (calls : List EngineCall) (ctx : RequestContext) (acceptEncoding cacheControl : Option Bytes)
    (clockSec : Nat), ctx.path = path →
      (((new platform config).run platform calls).evaluateAccess platform ctx
        acceptEncoding cacheControl clockSec).2 = .bypass

namespace StoredAccess

variable {platform : Platform} (access : StoredAccess platform)

def engine : ResponseCacheEngine :=
  (new platform access.config).run platform
    (access.before ++ .store access.record access.storeClock :: access.between)

def answer : CacheLookupResult :=
  (access.engine.evaluateAccess platform access.ctx access.acceptEncoding access.cacheControl
    access.accessClock).2

theorem bypasses_eq :
    access.engine.bypasses access.ctx.method access.ctx.path access.cacheControl =
      ((new platform access.config).routeEnabled access.record.path ==
        some false) := by
  have hstored := policy_congr (@run_config_routeTrie platform
    (new platform access.config) access.before)
  have hpolicy := policy_congr (@run_config_routeTrie platform
    (new platform access.config)
    (access.before ++ .store access.record access.storeClock :: access.between))
  have hstorable := storeResponse_eq_true_iff.mp access.accepted
  rw [hstored.1, storableTtl] at hstorable
  split at hstorable
  · exact absurd rfl hstorable
  rename_i henabled
  split at hstorable
  · exact absurd rfl hstorable
  rename_i hmethod
  simp only [Bool.not_eq_true', Bool.not_eq_false, Bool.or_eq_true, not_or] at henabled hmethod
  rw [engine, hpolicy.2.1, bypasses, access.method_eq, access.path_eq,
    access.unforced, henabled, hmethod.1]
  simp

theorem hit_iff :
    (∃ outcome, access.answer = .hit outcome) ↔
      (new platform access.config).routeEnabled access.record.path ≠
        some false := by
  have hpolicy := policy_congr (@run_config_routeTrie platform
    (new platform access.config)
    (access.before ++ .store access.record access.storeClock :: access.between))
  have hpresent := access.present
  rw [answer, evaluateAccess_hit_iff, servedArc, access.bypasses_eq]
  rw [engine, hpolicy.2.2, access.method_eq, access.host_eq, access.path_eq, access.query_eq]
  by_cases hroute : (new platform access.config).routeEnabled
      access.record.path = some false
  · simp [hroute]
  · rw [if_neg (by simpa using hroute)]
    exact iff_of_true hpresent hroute

end StoredAccess

def accountOffConfig : ResponseCacheConfig :=
  { ResponseCacheConfig.default with
    routesOverride := [⟨⟨ascii "/account", by decide⟩, some false, none, none⟩] }

def switchedOff : StoredAccess plainPlatform where
  config := accountOffConfig
  before := []
  record := tenantResponse
  storeClock := 1000
  accepted := by decide +kernel
  between := []
  ctx := accountContext
  method_eq := rfl
  host_eq := rfl
  path_eq := rfl
  query_eq := rfl
  acceptEncoding := none
  cacheControl := none
  unforced := rfl
  accessClock := 0
  present := by decide +kernel

end AuroraGateway.ResponseCache
