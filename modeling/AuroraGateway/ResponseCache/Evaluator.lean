import AuroraGateway.Engine.Request
import AuroraGateway.ResponseCache.CacheKey
import AuroraGateway.ResponseCache.Storage
import AuroraGateway.ResponseCompression.Evaluator

/-!
# Lookup and storage of responses

A request is looked up in the access phase and answered in the best encoding that
its client accepts; encodings that are missing are made and kept.  A response of
an upstream is stored if its status, its directives and the policy allow it.
-/

namespace AuroraGateway.ResponseCache

open Engine Foundation ResponseCompression

/-! ## Directives -/

/-- The bytes before and after the directive, if there are any, delimit it. -/
def isDelimitedAt (cc : Bytes) (start stop : Nat) : Bool :=
  (start == 0 || cc[start - 1]? == some 44 || cc[start - 1]? == some 32) &&
    (stop == cc.length || cc[stop]? == some 44 || cc[stop]? == some 32 ||
      cc[stop]? == some 61 || cc[stop]? == some 59)

def hasDirective (cc directive : Bytes) : Bool :=
  (List.range (cc.length + 1 - directive.length)).any fun i =>
    eqIgnoreAsciiCase (slice cc i directive.length) directive &&
      isDelimitedAt cc i (i + directive.length)

def secondsAt (cc : Bytes) (start : Nat) : Option Nat :=
  let value := (cc.drop start).dropWhile fun byte => byte == 32 || byte == 61
  let digits := value.takeWhile isAsciiDigit
  if digits.isEmpty then none else parseU32 digits

def parseDirectiveSeconds (cc directivePrefix : Bytes) : Option Nat :=
  (List.range (cc.length - directivePrefix.length)).findSome? fun i =>
    if eqIgnoreAsciiCase (slice cc i directivePrefix.length) directivePrefix then
      secondsAt cc (i + directivePrefix.length)
    else none

/-! ## The engine -/

structure UpstreamResponseRecord where
  method : Bytes
  host : Bytes
  path : Bytes
  query : Bytes
  status : Nat
  contentType : Bytes
  headers : List (Bytes × Bytes)
  body : Bytes
  cacheControl : Option Bytes

structure CacheHitOutcome where
  status : Nat
  contentType : Bytes
  body : Bytes
  headers : List (Bytes × Bytes)
  algorithm : Option CompressionAlgorithm
  deriving DecidableEq

inductive CacheLookupResult where
  | hit (outcome : CacheHitOutcome)
  | miss
  | bypass
  deriving DecidableEq

/-- What the engine takes from third-party crates and from the target platform. -/
structure Platform where
  encoders : Encoders
  getShardIndex : Bytes → Fin numShards
  /-- `size_of::<CacheEntry>()` -/
  entryStructBytes : Nat

def plainPlatform : Platform where
  encoders := ⟨fun _ _ _ => none, fun _ _ _ => none, fun _ _ _ => none⟩
  getShardIndex := fun _ => 0
  entryStructBytes := 160

structure ResponseCacheEngine where
  config : ResponseCacheConfig
  storage : ShardedLruCache
  routeTrie : BuiltTree RouteCacheOverride

def compressionLevel : CompressionAlgorithm → Nat
  | .zstd => 3
  | .brotli => 4
  | .gzip => 6
  | .none => 0

def compressedVariant (encoders : Encoders) (algo : CompressionAlgorithm) (body : Bytes) :
    Option Bytes :=
  (compressInto encoders algo (compressionLevel algo) body (body.length + 128)).filter
    fun written => 0 < written.length && written.length < body.length

def eagerVariant (encoders : Encoders) (entry : CacheEntry) (algo : CompressionAlgorithm) :
    CacheEntry :=
  match compressedVariant encoders algo entry.rawBody with
  | some out => (entry.storeVariant algo out).1
  | none => entry

def preferredEncodings : List (BitVec 8 × CompressionAlgorithm) :=
  [(clientEncodingZstd, .zstd), (clientEncodingBr, .brotli), (clientEncodingGzip, .gzip)]

def lazyCompress (encoders : Encoders) (storage : ShardedLruCache) (arc : Arc)
    (algo : CompressionAlgorithm) : ShardedLruCache × Option Bytes :=
  match (storage.heap arc).getVariant algo with
  | some existing => (storage, some existing)
  | none =>
    match compressedVariant encoders algo (storage.heap arc).rawBody with
    | none => (storage, none)
    | some out =>
      let (stored, canonical, addedBytes) := storage.storeVariant arc algo out
      if 0 < addedBytes then
        (stored.recordVariantMemory (storage.heap arc).key addedBytes, some canonical)
      else (stored, some canonical)

def negotiateFrom (encoders : Encoders) (mask : BitVec 8) (arc : Arc) :
    List (BitVec 8 × CompressionAlgorithm) → ShardedLruCache →
      ShardedLruCache × Bytes × Option CompressionAlgorithm
  | [], storage => (storage, (storage.heap arc).rawBody, none)
  | (flag, algo) :: rest, storage =>
    if mask &&& flag ≠ 0 then
      match (storage.heap arc).getVariant algo with
      | some var => (storage, var, some algo)
      | none =>
        match lazyCompress encoders storage arc algo with
        | (storage, some var) => (storage, var, some algo)
        | (storage, none) => negotiateFrom encoders mask arc rest storage
    else negotiateFrom encoders mask arc rest storage

def acceptedMask (acceptEncoding : Option Bytes) : BitVec 8 :=
  ((acceptEncoding.filter validUtf8).map parseAcceptEncodingMask).getD 0

def negotiateVariant (encoders : Encoders) (storage : ShardedLruCache) (arc : Arc)
    (acceptEncoding : Option Bytes) :
    ShardedLruCache × Bytes × Option CompressionAlgorithm :=
  negotiateFrom encoders (acceptedMask acceptEncoding) arc preferredEncodings storage

def hitOutcome (entry : CacheEntry) (nowSec : Nat) (body : Bytes)
    (algo : Option CompressionAlgorithm) : CacheHitOutcome where
  status := entry.status
  contentType := entry.contentType
  body
  headers :=
    entry.headers ++
      [(ascii "X-Cache", ascii "HIT"), (ascii "Vary", ascii "Accept-Encoding"),
        (ascii "Age", decimal (nowSec - entry.createdAtEpochSec))] ++
      (algo.map fun a => (ascii "Content-Encoding", a.asContentEncoding)).toList
  algorithm := algo

def isCachedHeader (name : Bytes) : Bool :=
  !([ascii "connection", ascii "transfer-encoding", ascii "content-length",
    ascii "content-encoding", ascii "age"].contains (toAsciiLowercase name))

namespace ResponseCacheEngine

def new (platform : Platform) (config : ResponseCacheConfig) : ResponseCacheEngine :=
  let config := config.sanitize
  { config
    storage := .new platform.getShardIndex config.maxMemoryMb
    routeTrie := .ofList (config.routesOverride.map fun r => (r.pathPrefix.bytes, r)) }

variable (platform : Platform) (engine : ResponseCacheEngine)

def routeEnabled (path : Bytes) : Option Bool :=
  engine.routeTrie.forEachMatch path
    (fun current overrideCfg => overrideCfg.enabled.or current) none

def bypasses (method path : Bytes) (cacheControl : Option Bytes) : Bool :=
  !engine.config.enabled || !engine.config.isMethodCacheable method ||
    engine.routeEnabled path == some false ||
    cacheControl.any fun cc =>
      hasDirective cc (ascii "no-cache") || hasDirective cc (ascii "no-store")

def keyOf (method host path query : Bytes) : Bytes :=
  computeCacheKey engine.config method host path query

/-- `clockSec` is the system clock, which is read if the host gives no time. -/
def nowSec (ctx : RequestContext) (clockSec : Nat) : Nat :=
  if 0 < ctx.nowMs then ctx.nowMs / 1000 else clockSec

def evaluateAccess (ctx : RequestContext) (acceptEncoding cacheControl : Option Bytes)
    (clockSec : Nat) : ResponseCacheEngine × CacheLookupResult :=
  if engine.bypasses ctx.method ctx.path cacheControl then (engine, .bypass)
  else
    let nowSec := nowSec ctx clockSec
    match engine.storage.get (engine.keyOf ctx.method ctx.host ctx.path ctx.query) nowSec with
    | (storage, none) => ({ engine with storage }, .miss)
    | (storage, some arc) =>
      let (storage, body, algo) :=
        negotiateVariant platform.encoders storage arc acceptEncoding
      ({ engine with storage }, .hit (hitOutcome (storage.heap arc) nowSec body algo))

variable (record : UpstreamResponseRecord)

/-- The lifetime that the directives and the routes give to a response; `none` forbids
storing it. -/
def responseTtl : Option Nat :=
  let fromDirectives :=
    match record.cacheControl with
    | none => some engine.config.defaultTtlSecs
    | some cc =>
      if hasDirective cc (ascii "no-store") || hasDirective cc (ascii "private") then none
      else
        some (((parseDirectiveSeconds cc (ascii "s-maxage")).or
          (parseDirectiveSeconds cc (ascii "max-age"))).getD engine.config.defaultTtlSecs)
  fromDirectives.bind fun ttlSecs =>
    let ttlSecs := engine.routeTrie.forEachMatch record.path
      (fun current overrideCfg => overrideCfg.ttlSecs.getD current) ttlSecs
    if ttlSecs = 0 then none else some ttlSecs

def storableTtl : Option Nat :=
  if !engine.config.enabled then none
  else if !engine.config.isMethodCacheable record.method ||
      !engine.config.isStatusCacheable record.status then
    none
  else if record.body.isEmpty || engine.config.maxBodyBytes < record.body.length then none
  else engine.responseTtl record

def eagerVariants (entry : CacheEntry) : CacheEntry :=
  if engine.config.eagerCompression then
    [CompressionAlgorithm.zstd, .brotli, .gzip].foldl (eagerVariant platform.encoders) entry
  else entry

def entryFor (ttlSecs clockSec : Nat) : CacheEntry :=
  engine.eagerVariants platform
    (.new platform.entryStructBytes
      (engine.keyOf record.method record.host record.path record.query) record.status
      record.contentType (record.headers.filter fun h => isCachedHeader h.1) clockSec ttlSecs
      record.body)

def storeResponse (clockSec : Nat) : ResponseCacheEngine × Bool :=
  match engine.storableTtl record with
  | none => (engine, false)
  | some ttlSecs =>
    ({ engine with
        storage := engine.storage.insert (engine.entryFor platform record ttlSecs clockSec) },
      true)

end ResponseCacheEngine

/-! ## Sequences of calls -/

inductive EngineCall where
  | store (record : UpstreamResponseRecord) (clockSec : Nat)
  | access (ctx : RequestContext) (acceptEncoding cacheControl : Option Bytes)
      (clockSec : Nat)

namespace ResponseCacheEngine

variable (platform : Platform)

def call (engine : ResponseCacheEngine) : EngineCall → ResponseCacheEngine
  | .store record clockSec => (engine.storeResponse platform record clockSec).1
  | .access ctx acceptEncoding cacheControl clockSec =>
    (engine.evaluateAccess platform ctx acceptEncoding cacheControl clockSec).1

def step (engine : ResponseCacheEngine) (c : EngineCall) : Option ResponseCacheEngine :=
  some (engine.call platform c)

def run (engine : ResponseCacheEngine) (calls : List EngineCall) : ResponseCacheEngine :=
  calls.foldl (call platform) engine

end ResponseCacheEngine

end AuroraGateway.ResponseCache
