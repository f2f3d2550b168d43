import AuroraGateway.Access.Space
import AuroraGateway.ResponseCache.MemoryBound

/-!
# Responses that are shared between requests

A stored response answers every later request with its key.  The header names that
a policy lists for the key are compiled and carried along, and are not part of it.
-/

namespace AuroraGateway.ResponseCache

open Access (HeaderLookup)
open ResponseCacheEngine
open Engine Foundation ResponseCompression

/-! ## Answers and the entries they are made of -/

def ResponseCacheEngine.servedArc (engine : ResponseCacheEngine) (ctx : RequestContext)
    (cacheControl : Option Bytes) (clockSec : Nat) : Option Arc :=
  if engine.bypasses ctx.method ctx.path cacheControl then none
  else
    (engine.storage.get (engine.keyOf ctx.method ctx.host ctx.path ctx.query)
      (nowSec ctx clockSec)).2

section Answers

variable {platform : Platform} {engine : ResponseCacheEngine} {ctx : RequestContext}
  {cacheControl : Option Bytes} {clockSec : Nat}

theorem evaluateAccess_hit_iff (acceptEncoding : Option Bytes) :
    (∃ outcome, (engine.evaluateAccess platform ctx acceptEncoding cacheControl clockSec).2 =
        .hit outcome) ↔
      (engine.servedArc ctx cacheControl clockSec).isSome := by
  unfold evaluateAccess servedArc
  by_cases hbypass : engine.bypasses ctx.method ctx.path cacheControl = true
  · simp [hbypass]
  · rw [if_neg hbypass, if_neg hbypass]
    dsimp only
    generalize engine.storage.get _ _ = result
    obtain ⟨storage, found⟩ := result
    cases found <;> simp

theorem eagerVariants_key_expiresAt (entry : CacheEntry) :
    (engine.eagerVariants platform entry).key = entry.key ∧
      (engine.eagerVariants platform entry).expiresAtEpochSec = entry.expiresAtEpochSec := by
  have hone : ∀ (entry : CacheEntry) algo,
      (eagerVariant platform.encoders entry algo).key = entry.key ∧
        (eagerVariant platform.encoders entry algo).expiresAtEpochSec =
          entry.expiresAtEpochSec := by
    intro entry algo
    unfold eagerVariant
    split <;> simp
  unfold eagerVariants
  split
  · generalize [CompressionAlgorithm.zstd, .brotli, .gzip] = algos
    induction algos generalizing entry with
    | nil => simp
    | cons algo algos ih =>
      obtain ⟨hkey, hexpires⟩ := ih (eagerVariant platform.encoders entry algo)
      rw [List.foldl_cons, hkey, hexpires]
      exact hone entry algo
  · simp

theorem entryFor_key_expiresAt (record : UpstreamResponseRecord) (ttlSecs storeClock : Nat) :
    (engine.entryFor platform record ttlSecs storeClock).key =
        engine.keyOf record.method record.host record.path record.query ∧
      (engine.entryFor platform record ttlSecs storeClock).expiresAtEpochSec =
        min (storeClock + ttlSecs) u64Max :=
  eagerVariants_key_expiresAt _

theorem get_insert_self {cache : ShardedLruCache} {entry : CacheEntry} {nowSec : Nat}
    (hfresh : nowSec < entry.expiresAtEpochSec) :
    ((cache.insert entry).get entry.key nowSec).2 = some cache.next := by
  have hresident : ((cache.insert entry).shardOf entry.key).entries.get? entry.key =
      some cache.next := by
    rw [show (cache.insert entry).shardOf entry.key = _ from
      ShardedLruCache.insert_shards_self entry]
    simp [ShardState.push]
  rw [get_eq_some_iff, ShardedLruCache.insert_heap_next]
  exact ⟨hresident, hfresh⟩

variable {record : UpstreamResponseRecord}

theorem servedArc_storeResponse {ttlSecs storeClock : Nat}
    (hstorable : engine.storableTtl record = some ttlSecs)
    (hbypass : engine.bypasses ctx.method ctx.path cacheControl = false)
    (hkey : engine.keyOf ctx.method ctx.host ctx.path ctx.query = engine.keyOf record.method
      record.host record.path record.query)
    (hfresh : nowSec ctx clockSec < min (storeClock + ttlSecs) u64Max) :
    (engine.storeResponse platform record storeClock).1.servedArc ctx cacheControl clockSec =
      some engine.storage.next := by
  obtain ⟨hentryKey, hexpires⟩ :=
    @entryFor_key_expiresAt platform engine record ttlSecs storeClock
  have hserved := @get_insert_self engine.storage
    (engine.entryFor platform record ttlSecs storeClock)
    (nowSec ctx clockSec) (hexpires ▸ hfresh)
  rw [hentryKey, ← hkey] at hserved
  rw [storeResponse, hstorable, servedArc, if_neg]
  · exact hserved
  · exact ne_of_eq_of_ne hbypass Bool.false_ne_true

theorem run_config_routeTrie (calls : List EngineCall) :
    (engine.run platform calls).config = engine.config ∧
      (engine.run platform calls).routeTrie = engine.routeTrie := by
  have hcall : ∀ (engine : ResponseCacheEngine) c,
      (engine.call platform c).config = engine.config ∧
        (engine.call platform c).routeTrie = engine.routeTrie := by
    intro engine c
    cases c with
    | store record clockSec =>
      simp only [call, storeResponse]
      split <;> simp
    | access ctx acceptEncoding cacheControl clockSec =>
      simp only [call, evaluateAccess]
      split
      · simp
      · split <;> simp
  induction calls generalizing engine with
  | nil => exact ⟨rfl, rfl⟩
  | cons c calls ih =>
    obtain ⟨hconfig, hroutes⟩ := @ih (engine.call platform c)
    exact ⟨hconfig.trans (hcall engine c).1, hroutes.trans (hcall engine c).2⟩

theorem policy_congr {engine engine' : ResponseCacheEngine}
    (h : engine'.config = engine.config ∧ engine'.routeTrie = engine.routeTrie) :
    engine'.storableTtl = engine.storableTtl ∧ engine'.bypasses = engine.bypasses ∧
      engine'.keyOf = engine.keyOf := by
  cases engine
  obtain ⟨rfl, rfl⟩ := h
  exact ⟨rfl, rfl, rfl⟩

theorem storableTtl_pos {ttlSecs : Nat} (h : engine.storableTtl record = some ttlSecs) :
    0 < ttlSecs := by
  unfold storableTtl at h
  split_ifs at h
  obtain ⟨fromDirectives, -, hroutes⟩ := Option.bind_eq_some_iff.mp h
  dsimp only at hroutes
  split_ifs at hroutes with hzero
  obtain rfl := Option.some.inj hroutes
  exact Nat.pos_of_ne_zero hzero

theorem storeResponse_eq_true_iff {storeClock : Nat} :
    (engine.storeResponse platform record storeClock).2 = true ↔
      engine.storableTtl record ≠ none := by
  unfold storeResponse
  split <;> simp_all

end Answers

/-! ## Configured key headers -/

/-- The header names that the policy lists for the key of a path: its own, and those of the
longest route that covers the path. -/
def ResponseCacheConfig.keyHeaders (config : ResponseCacheConfig) (path : Bytes) : List Text :=
  config.cacheKeyHeaders.getD [] ++
    ((((BuiltTree.ofList (config.routesOverride.map fun r => (r.pathPrefix.bytes, r))).matching
      path).getLast?.bind (·.cacheKeyHeaders)).getD [])

/-- Two requests for one target whose values of a configured header differ, and a response
to the first. -/
structure TenantPair (config : ResponseCacheConfig) where
  response : UpstreamResponseRecord
  header : Text
  configured : header ∈ config.keyHeaders response.path
  first : HeaderLookup
  second : HeaderLookup
  differ : first header.bytes ≠ second header.bytes

namespace TenantPair

variable {config : ResponseCacheConfig}

def Reaches (pair : TenantPair config) (ctx : RequestContext) : Prop :=
  ctx.method = pair.response.method ∧ ctx.host = pair.response.host ∧
    ctx.path = pair.response.path ∧ ctx.query = pair.response.query

/-- In no sequence of calls is the second request answered with the response to the first. -/
def Separated (platform : Platform) (pair : TenantPair config) : Prop :=
  ∀ (before between : List EngineCall) (storeClock accessClock : Nat) (ctx : RequestContext),
    pair.Reaches ctx →
    let engine := (new platform config).run platform before
    let stored := engine.storeResponse platform pair.response storeClock
    let later := stored.1.run platform between
    stored.2 = true →
      ¬∃ outcome, (later.evaluateAccess platform ctx (pair.second (ascii "accept-encoding"))
          (pair.second (ascii "cache-control")) accessClock).2 = .hit outcome ∧
        later.servedArc ctx (pair.second (ascii "cache-control")) accessClock =
          some engine.storage.next

end TenantPair

/-- The configured headers play no part: a response reaches the other tenant unless it is not
stored at all, or the other tenant does not ask the cache. -/
theorem tenants_separated_iff (platform : Platform) {config : ResponseCacheConfig}
    (pair : TenantPair config) :
    pair.Separated platform ↔
      (ResponseCacheEngine.new platform config).storableTtl pair.response = none ∨
        (ResponseCacheEngine.new platform config).bypasses pair.response.method
          pair.response.path (pair.second (ascii "cache-control")) = true := by
  constructor
  · intro hseparated
    by_contra hneither
    simp only [not_or, Bool.not_eq_true] at hneither
    obtain ⟨hstorable, hbypass⟩ := hneither
    obtain ⟨ttlSecs, httl⟩ := Option.ne_none_iff_exists'.mp hstorable
    -- the response is stored and asked for in the first second
    let ctx : RequestContext :=
      { clientIp := [], host := pair.response.host, path := pair.response.path
        method := pair.response.method, query := pair.response.query
        contentLength := 0, headerLength := 0, randomSeed := 0, nowMs := 0 }
    have hserved := @servedArc_storeResponse platform
      (new platform config) ctx (pair.second (ascii "cache-control")) 0
      pair.response ttlSecs 0 httl hbypass rfl
      (by
        have hpos := storableTtl_pos httl
        have hnow : nowSec ctx 0 = 0 := rfl
        rw [hnow, Nat.zero_add]
        exact lt_min hpos (by decide))
    obtain ⟨outcome, houtcome⟩ :=
      (@evaluateAccess_hit_iff platform _ ctx _ 0 (pair.second (ascii "accept-encoding"))).mpr
        (by rw [hserved]; rfl)
    exact hseparated [] [] 0 0 ctx ⟨rfl, rfl, rfl, rfl⟩
      (storeResponse_eq_true_iff.mpr hstorable) ⟨outcome, houtcome, hserved⟩
  · rintro hrefused before between storeClock accessClock ctx ⟨hmethod, -, hpath, -⟩ engine
      stored later hstored ⟨outcome, -, hserved⟩
    have hengine := policy_congr (@run_config_routeTrie platform
      (new platform config) before)
    have hlater := policy_congr (@run_config_routeTrie platform stored.1 between)
    have hkept : stored.1.config = engine.config ∧ stored.1.routeTrie = engine.routeTrie :=
      @run_config_routeTrie platform engine [.store pair.response storeClock]
    rcases hrefused with hrefused | hbypass
    · exact storeResponse_eq_true_iff.mp hstored (by rw [hengine.1, hrefused])
    · have hskips : later.bypasses ctx.method ctx.path (pair.second (ascii "cache-control")) =
          true := by
        rw [hlater.2.1, (policy_congr hkept).2.1, hengine.2.1, hmethod, hpath, hbypass]
      rw [servedArc, if_pos hskips] at hserved
      simp at hserved

/-! ## Samples -/

def tenantConfig : ResponseCacheConfig :=
  { ResponseCacheConfig.default with cacheKeyHeaders := some [⟨ascii "x-tenant", by decide⟩] }

def tenantHeaders (tenant : Bytes) : HeaderLookup := fun name =>
  if name = ascii "x-tenant" then some tenant else none

def tenantResponse : UpstreamResponseRecord where
  method := ascii "GET"
  host := ascii "example.com"
  path := ascii "/account"
  query := []
  status := 200
  contentType := ascii "text/plain"
  headers := []
  body := ascii "account of red"
  cacheControl := none

def tenantPair : TenantPair tenantConfig where
  response := tenantResponse
  header := ⟨ascii "x-tenant", by decide⟩
  configured := by decide +kernel
  first := tenantHeaders (ascii "red")
  second := tenantHeaders (ascii "blue")
  differ := by decide

def accountContext : RequestContext where
  clientIp := ascii "10.0.0.1"
  host := ascii "example.com"
  path := ascii "/account"
  method := ascii "GET"
  query := []
  contentLength := 0
  headerLength := 0
  randomSeed := 0
  nowMs := 1010000

/-- The account of one tenant is shown to the other. -/
theorem red_account_shown_to_blue :
    tenantPair.Reaches accountContext ∧
      ((((ResponseCacheEngine.new plainPlatform tenantConfig).storeResponse plainPlatform
        tenantPair.response 1000).1.evaluateAccess plainPlatform accountContext
          (tenantPair.second (ascii "accept-encoding"))
          (tenantPair.second (ascii "cache-control")) 0).2 =
        .hit ⟨200, ascii "text/plain", ascii "account of red",
          [(ascii "X-Cache", ascii "HIT"), (ascii "Vary", ascii "Accept-Encoding"),
            (ascii "Age", ascii "10")], none⟩) := by
  constructor
  · exact ⟨rfl, rfl, rfl, rfl⟩
  · decide +kernel

end AuroraGateway.ResponseCache
