import AuroraGateway.Access.Space
import AuroraGateway.Jwt.Exclude
import AuroraGateway.Jwt.Verify

/-!
# The JWT engine

Compilation of a policy, and the evaluation of a request: the origin whose
scope fits is selected, the paths that it excludes need no token, and for the
others the token is looked up in the cache of the origin or verified.
-/

namespace AuroraGateway.Jwt

open Access (HeaderLookup JwtDecision)
open Engine
open Engine.PathRadixTree (findBestCallback)
open Foundation
open Redis (PoolRegistry TlsConfigInput)

/-! ## The policy as it is decoded -/

def maxJwtPolicyBytes : Nat := 131072

def maxJwtOrigins : Nat := 16

def maxClaimRulesPerOrigin : Nat := 32

def maxForwardHeadersPerOrigin : Nat := 16

def maxAuthorizationBytes : Nat := 16384

structure CacheConfigInput where
  enabled : Bool
  shards : Nat
  maxEntriesPerShard : Nat
  defaultTtlSecs : Nat
  negativeTtlSecs : Nat

def defaultCacheShards (cpuCores : Nat) : Nat :=
  nextPowerOfTwo (min (max (cpuCores * 4) 16) 1024)

def CacheConfigInput.default (cpuCores : Nat) : CacheConfigInput where
  enabled := true
  shards := defaultCacheShards cpuCores
  maxEntriesPerShard := 1024
  defaultTtlSecs := 300
  negativeTtlSecs := 30

structure RedisConfigInput where
  endpoint : Text
  password : Option Text
  db : Option Int
  timeoutMs : Nat
  poolSize : Nat
  tls : Option TlsConfigInput

inductive TokenSourceInput where
  | type (sourceType : Text)
  | config (sourceType : Text) (name tokenPrefix : Option Text)

namespace TokenSourceInput

def sourceType : TokenSourceInput → Text
  | .type sourceType => sourceType
  | .config sourceType _ _ => sourceType

def name : TokenSourceInput → Option Text
  | .type _ => none
  | .config _ name _ => name

def tokenPrefix : TokenSourceInput → Option Text
  | .type _ => none
  | .config _ _ tokenPrefix => tokenPrefix

end TokenSourceInput

structure ClaimRuleInput where
  payloadKey : Text
  valuesMatch : Text
  headerKey : Option Text
  required : Bool

structure OriginInput where
  id : Text
  priority : UInt32
  host : Text
  pathPrefix : Text
  excludePaths : List Text
  algorithm : Text
  secret : Text
  publicKeyPem : Text
  keys : List KeyInput
  issuer : Text
  audience : Text
  validateExp : Bool
  requireExp : Bool
  validateNbf : Bool
  payloadFormat : Text
  clockSkewSecs : UInt64
  claimRules : List ClaimRuleInput
  cache : Option CacheConfigInput
  tokenSource : Option TokenSourceInput
  headerName : Option Text
  cookieName : Option Text
  tokenPrefix : Option Text
  revokedTokens : List Text
  revokedJtis : List Text
  redis : Option RedisConfigInput

structure Snapshot where
  schemaVersion : UInt32
  generation : UInt64
  origins : List OriginInput

structure Environment (H K : Type) where
  parseSnapshot : Bytes → Option Snapshot
  prims : Primitives K
  compileRegex : Bytes → Option Regex
  hashing : Hashing H
  endian : Endian
  cpuCores : Nat
  pools : PoolRegistry

/-! ## Compilation -/

inductive TokenLocation where
  | header (name : Bytes)
  | cookie (name : Bytes)
  deriving DecidableEq

structure OriginPolicy (K : Type) where
  host : Bytes
  excludeMatcher : ExcludeMatcher
  checks : TokenChecks K
  claimRules : List CompiledClaimRule
  tokenLocation : TokenLocation
  tokenPrefix : Bytes

def isNameByte (byte : UInt8) : Bool := isAsciiAlphanumeric byte || byte = 45 || byte = 95

def isValidName (s : Bytes) : Bool := !s.isEmpty && s.length ≤ 64 && s.all isNameByte

def compileLocation (location : Bytes → TokenLocation) (own other custom : Option Text)
    (tokenPrefix : Bytes) : Except Error (TokenLocation × Bytes) :=
  let name := trim (((custom.or own).map Text.bytes).getD [])
  if other.isSome || !isValidName name then .error .invalidPolicy
  else .ok (location name, tokenPrefix)

def OriginInput.compileTokenSource (origin : OriginInput) :
    Except Error (TokenLocation × Bytes) :=
  match origin.tokenSource with
  | none => .error .invalidPolicy
  | some source =>
    let tokenPrefix := ((source.tokenPrefix.or origin.tokenPrefix).map Text.bytes).getD []
    let sourceType := trim source.sourceType.bytes
    if 64 < tokenPrefix.length then .error .invalidPolicy
    else if sourceType = ascii "header" then
      compileLocation .header origin.headerName origin.cookieName source.name tokenPrefix
    else if sourceType = ascii "cookie" then
      compileLocation .cookie origin.cookieName origin.headerName source.name tokenPrefix
    else .error .invalidPolicy

def isLabelByte (byte : UInt8) : Bool :=
  isAsciiLowercase byte || isAsciiDigit byte || byte = 45

def validLabel (label : Bytes) : Bool :=
  !label.isEmpty && label.length ≤ 63 && label.head? ≠ some 45 && label.getLast? ≠ some 45 &&
    label.all isLabelByte

def validHost (host : Bytes) : Bool :=
  if host = ascii "*" then true
  else
    let candidate := (stripPrefix? (ascii "*.") host).getD host
    !candidate.isEmpty && host.length ≤ 253 && (candidate.splitOn 46).all validLabel

variable {H K : Type} (env : Environment H K)

/-- No expression stands for one that matches everything. -/
def compileOptional (skip : Bool) (pattern : Bytes) : Except Error (Option Regex) :=
  if skip then .ok none
  else
    match env.compileRegex pattern with
    | none => .error .invalidPolicy
    | some regex => .ok (some regex)

def validHeaderKey (key : Bytes) : Bool :=
  !(trim key).isEmpty && key.length ≤ 64 && key.all isNameByte

def compileClaimRule (format : PayloadFormat) (cr : ClaimRuleInput) :
    Except Error CompiledClaimRule := do
  if (trim cr.payloadKey.bytes).isEmpty || 64 < cr.payloadKey.bytes.length ||
      !cr.headerKey.all (fun key => validHeaderKey key.bytes) then .error .invalidPolicy
  else
    let rawExtractor ← compileOptional env (format ≠ .raw) cr.payloadKey.bytes
    let regex ← compileOptional env
      (cr.valuesMatch.bytes = ascii "*" || (trim cr.valuesMatch.bytes).isEmpty)
      cr.valuesMatch.bytes
    .ok
      { payloadKey := cr.payloadKey.bytes
        rawExtractor
        regex
        headerKey := (cr.headerKey.map Text.bytes).filter fun key => !(trim key).isEmpty
        required := cr.required }

def compilePayloadFormat (format : Bytes) : Except Error PayloadFormat :=
  if trim format = ascii "json" then .ok .json
  else if trim format = ascii "raw" then .ok .raw
  else .error .invalidPolicy

def orInvalidPolicy {α : Type} (result : Option α) : Except Error α :=
  match result with
  | some a => .ok a
  | none => .error .invalidPolicy

def redisConnected (pools : PoolRegistry) (redis : Option RedisConfigInput) : Bool :=
  redis.all fun cfg =>
    (trim cfg.endpoint.bytes).isEmpty ||
      pools
        { endpoint := cfg.endpoint
          db := cfg.db
          username := none
          password := cfg.password
          tlsEnabled := cfg.tls.any TlsConfigInput.enabled
          insecureSkipVerify := cfg.tls.any TlsConfigInput.insecureSkipVerify
          caCert := cfg.tls.bind TlsConfigInput.caCertPem
          clientCert := cfg.tls.bind TlsConfigInput.clientCertPem
          clientKey := cfg.tls.bind TlsConfigInput.clientKeyPem }
        (min (max cfg.timeoutMs 5) 5000) cfg.poolSize

def scopeValid (origin : OriginInput) : Bool :=
  validHost origin.host.bytes && validPathPrefix origin.pathPrefix.bytes &&
    origin.excludePaths.length ≤ maxExcludePathsPerOrigin &&
    origin.issuer.bytes.length ≤ 512 && origin.audience.bytes.length ≤ 512 &&
    origin.clockSkewSecs.toNat ≤ 300

def compilePolicy (origin : OriginInput) : Except Error (OriginPolicy K) := do
  let (tokenLocation, tokenPrefix) ← origin.compileTokenSource
  if !scopeValid origin then .error .invalidPolicy
  else
    let excludeMatcher ← ExcludeMatcher.compile env.endian origin.excludePaths
    let payloadFormat ← compilePayloadFormat origin.payloadFormat.bytes
    let algorithm ← orInvalidPolicy (JwtAlgorithm.fromStr origin.algorithm.bytes)
    let (primaryKey, keysByKid) ← orInvalidPolicy (compileKeys env.prims algorithm
      origin.secret.bytes origin.publicKeyPem.bytes origin.keys)
    if maxClaimRulesPerOrigin < origin.claimRules.length then .error .invalidPolicy
    else
      let claimRules ← origin.claimRules.mapM (compileClaimRule env payloadFormat)
      if maxForwardHeadersPerOrigin < claimRules.countP (fun cr => cr.headerKey.isSome) ||
          !redisConnected env.pools origin.redis then .error .invalidPolicy
      else
        .ok
          { host := origin.host.bytes
            excludeMatcher
            checks :=
              { algorithm
                primaryKey
                keysByKid
                payloadFormat
                issuer := if origin.issuer.bytes.isEmpty then none else some origin.issuer.bytes
                audience :=
                  if origin.audience.bytes.isEmpty then none else some origin.audience.bytes
                validateExp := origin.validateExp
                requireExp := origin.requireExp
                validateNbf := origin.validateNbf
                clockSkewSecs := origin.clockSkewSecs.toNat }
            claimRules
            tokenLocation
            tokenPrefix }

variable [DecidableEq H]

def arm (hashing : Hashing H) (order : RowOrder H) (nowEpoch : Nat) (origin : OriginInput)
    (cache : JwtCache H) : JwtCache H :=
  let cache := origin.revokedTokens.foldl (fun cache tok =>
    cache.revokeToken hashing order (hashing.hashToken tok.bytes) 0 nowEpoch) cache
  origin.revokedJtis.foldl (fun cache jti =>
    cache.revokeJti hashing order jti.bytes 0 nowEpoch) cache

def OriginInput.cacheConfig (cpuCores : Nat) (origin : OriginInput) : CacheConfigInput :=
  origin.cache.getD (.default cpuCores)

def compileCache (order : RowOrder H) (nowEpoch : Nat) (origin : OriginInput) :
    Option (JwtCache H) :=
  let cfg := origin.cacheConfig env.cpuCores
  if cfg.enabled then
    some (arm env.hashing order nowEpoch origin
      (.new cfg.shards cfg.maxEntriesPerShard cfg.defaultTtlSecs cfg.negativeTtlSecs))
  else none

structure IndexedOrigin (K : Type) where
  rank : Nat
  policy : OriginPolicy K

/-- The caches are shared and change; the rest of an engine stays as it was compiled. -/
structure JwtEngine (H K : Type) where
  generation : Nat
  origins : BuiltTree (IndexedOrigin K)
  caches : Nat → Option (JwtCache H)

def originOrder (origin : OriginInput) : RuleOrder :=
  ruleOrderKey origin.priority origin.host.bytes origin.id.bytes

def Snapshot.ranked (snapshot : Snapshot) : List OriginInput :=
  sortByKey originOrder snapshot.origins

/-- The clock is read once for every origin. -/
def compileSnapshot (order : RowOrder H) (clock : Nat → Nat) (snapshot : Snapshot) :
    Except Error (JwtEngine H K) := do
  if snapshot.schemaVersion ≠ 1 || 2 ^ 63 ≤ snapshot.generation.toNat ||
      snapshot.origins.isEmpty || maxJwtOrigins < snapshot.origins.length ||
      !checkIds [] (snapshot.origins.map fun origin => origin.id.bytes) then
    .error .invalidPolicy
  else
    let policies ← snapshot.ranked.mapM (compilePolicy env)
    .ok
      { generation := snapshot.generation.toNat
        origins := .ofList ((snapshot.ranked.zip policies).zipIdx.map
          fun ((origin, policy), rank) => (origin.pathPrefix.bytes, ⟨rank, policy⟩))
        caches := fun rank =>
          snapshot.ranked[rank]?.bind (compileCache env order (clock rank)) }

def JwtEngine.fromSnapshot (order : RowOrder H) (clock : Nat → Nat) (bytes : Bytes) :
    Except Error (JwtEngine H K) :=
  if bytes.isEmpty || maxJwtPolicyBytes < bytes.length then .error .invalidPolicy
  else
    match env.parseSnapshot bytes with
    | none => .error .invalidPolicy
    | some snapshot => compileSnapshot env order clock snapshot

/-! ## The token of a request -/

/-- The value of the cookie, if the segment of the header is about it. -/
def cookieValue (name segment : Bytes) : Option Bytes :=
  let isBlank : UInt8 → Bool := fun byte => byte = 32 || byte = 9
  ((stripPrefix? name (segment.dropWhile isBlank)).bind (stripPrefix? (ascii "="))).map
    fun after =>
      let val := (after.reverse.dropWhile isBlank).reverse
      if 2 ≤ val.length ∧ val.head? = some 34 ∧ val.getLast? = some 34 then
        (val.drop 1).dropLast
      else val

def extractCookieValue (cookieHeader name : Bytes) : Option Bytes :=
  (cookieHeader.splitOn 59).findSome? (cookieValue name)

def isTokenSpace (byte : UInt8) : Bool :=
  byte = 32 || byte = 9 || byte = 10 || byte = 13 || byte = 12

def OriginPolicy.presentedToken (origin : OriginPolicy K) (headerLookup : HeaderLookup) :
    Option Bytes :=
  let raw :=
    match origin.tokenLocation with
    | .header name => headerLookup name
    | .cookie name => (headerLookup (ascii "cookie")).bind (extractCookieValue · name)
  (raw.filter fun raw => origin.tokenPrefix.length < raw.length &&
    raw.length ≤ maxAuthorizationBytes && origin.tokenPrefix.isPrefixOf raw).bind fun raw =>
      let token := raw.drop origin.tokenPrefix.length
      if token.any isTokenSpace then none else some token

/-! ## Evaluation -/

inductive SignatureCheck where
  | invalidRequest
  | refused
  | verified (token : VerifiedToken)

section Steps

variable (env : Environment H K) (origin : OriginPolicy K)

def checkSignature (nowEpoch : Nat) (token : Bytes) : SignatureCheck :=
  if !validUtf8 token then .invalidRequest
  else
    match verifyJwt env.prims origin.checks nowEpoch token with
    | none => .refused
    | some verified => .verified verified

def jtiRevoked (verified : VerifiedToken) (nowEpoch : Nat) (cache : JwtCache H) : Bool :=
  verified.jti.any fun jti => cache.isNegative env.hashing (env.hashing.hashJti jti) nowEpoch

def recordRefused (order : RowOrder H) (token : Bytes) (nowEpoch : Nat) (cache : JwtCache H) :
    JwtCache H :=
  cache.insertNegative env.hashing order (env.hashing.hashToken token) nowEpoch

def recordVerified (order : RowOrder H) (token : Bytes) (verified : VerifiedToken)
    (headers : ForwardedHeaders) (nowEpoch : Nat) (cache : JwtCache H) : JwtCache H :=
  cache.insertPositive env.hashing order (env.hashing.hashToken token)
    (if origin.checks.validateExp then verified.expEpochSecs else 0) headers
    (verified.jti.map env.hashing.hashJti) nowEpoch

def cached (token : Bytes) (nowEpoch : Nat) (cache : Option (JwtCache H)) : CacheLookup :=
  match cache with
  | some cache => cache.lookup env.hashing (env.hashing.hashToken token) nowEpoch
  | none => .miss

def evaluateToken (order : RowOrder H) (token : Bytes) (nowEpoch : Nat)
    (cache : Option (JwtCache H)) : Option (JwtCache H) × Except Error JwtDecision :=
  match cached env token nowEpoch cache with
  | .hitDeny => (cache, .ok .unauthorized)
  | .hitAllow headers => (cache, .ok (.allow headers))
  | .miss =>
    match checkSignature env origin nowEpoch token with
    | .invalidRequest => (cache, .error .invalidRequest)
    | .refused => (cache.map (recordRefused env order token nowEpoch), .ok .unauthorized)
    | .verified verified =>
      if cache.any (jtiRevoked env verified nowEpoch) then
        (cache.map (recordRefused env order token nowEpoch), .ok .unauthorized)
      else
        match projectClaims env.prims verified.payload origin.claimRules with
        | none => (cache.map (recordRefused env order token nowEpoch), .ok .unauthorized)
        | some headers =>
          (cache.map (recordVerified env origin order token verified headers nowEpoch),
            .ok (.allow headers))

end Steps

namespace JwtEngine

structure Call (H : Type) where
  host : Bytes
  path : Bytes
  headerLookup : HeaderLookup
  nowEpoch : Nat
  order : RowOrder H

def validRequest (host path : Bytes) : Bool :=
  !host.isEmpty && host.length ≤ 253 && path.length ≤ maxPathBytes &&
    path.head? = some slash && !host.contains 0 && !path.contains 0

variable (env : Environment H K) (engine : JwtEngine H K)

def findOrigin (host path : Bytes) : Option (IndexedOrigin K) :=
  (engine.origins.forEachMatch path
    (findBestCallback (fun item => hostMatches item.policy.host host) IndexedOrigin.rank)
    none).map Prod.fst

def withCache (rank : Nat) (cache : Option (JwtCache H)) : JwtEngine H K :=
  { engine with caches := Function.update engine.caches rank cache }

/-- The engine after the call and the answer; no answer if the call panics. -/
def evaluateWithLookupAt (call : Call H) : JwtEngine H K × Option (Except Error JwtDecision) :=
  if !validRequest call.host call.path then (engine, some (.error .invalidRequest))
  else
    match engine.findOrigin call.host call.path with
    | none => (engine, some (.ok (.allow [])))
    | some matched =>
      match matched.policy.excludeMatcher.matches env.endian call.path with
      | none => (engine, none)
      | some true => (engine, some (.ok (.allow [])))
      | some false =>
        match matched.policy.presentedToken call.headerLookup with
        | none => (engine, some (.ok .unauthorized))
        | some token =>
          let (cache, answer) := evaluateToken env matched.policy call.order token
            call.nowEpoch (engine.caches matched.rank)
          (engine.withCache matched.rank cache, some answer)

/-- Change the cache of an origin if its host fits, or if no host is given. -/
def updateOrigin (host : Option Bytes) (update : JwtCache H → JwtCache H)
    (engine : JwtEngine H K) (op : Bytes × IndexedOrigin K) : JwtEngine H K :=
  if host.all fun host => hostMatches op.2.policy.host host then
    engine.withCache op.2.rank ((engine.caches op.2.rank).map update)
  else engine

def updateCaches (host : Option Bytes) (update : JwtCache H → JwtCache H) : JwtEngine H K :=
  engine.origins.inserted.foldl (updateOrigin host update) engine

def revokeToken (order : RowOrder H) (host : Option Bytes) (token : Bytes)
    (untilEpochSecs nowEpoch : Nat) (engine : JwtEngine H K) : JwtEngine H K :=
  engine.updateCaches host
    (.revokeToken env.hashing order (env.hashing.hashToken token) untilEpochSecs nowEpoch)

def revokeJti (order : RowOrder H) (host : Option Bytes) (jti : Bytes)
    (untilEpochSecs nowEpoch : Nat) (engine : JwtEngine H K) : JwtEngine H K :=
  engine.updateCaches host (.revokeJti env.hashing order jti untilEpochSecs nowEpoch)

inductive Activity (H : Type) where
  | evaluate (call : Call H)
  | revokeToken (order : RowOrder H) (host : Option Bytes) (token : Bytes)
      (untilEpochSecs nowEpoch : Nat)
  | revokeJti (order : RowOrder H) (host : Option Bytes) (jti : Bytes)
      (untilEpochSecs nowEpoch : Nat)

def act : Activity H → JwtEngine H K
  | .evaluate call => (engine.evaluateWithLookupAt env call).1
  | .revokeToken order host token untilEpochSecs nowEpoch =>
    engine.revokeToken env order host token untilEpochSecs nowEpoch
  | .revokeJti order host jti untilEpochSecs nowEpoch =>
    engine.revokeJti env order host jti untilEpochSecs nowEpoch

end JwtEngine

/-! ## An origin with session cookies -/

/-- Every text is its own encoding and every signature is right; the text of a payload is
the id of the token and its subject. -/
def transparentPrimitives : Primitives Unit where
  hmacKey := fun _ _ => ()
  publicKey := fun _ _ => some ()
  verify := fun _ _ _ _ => true
  base64UrlSafe := some
  base64UrlSafeNoPad := some
  parseJoseHeader := fun _ => some ⟨ascii "RS256", none⟩
  parseJson := fun bytes =>
    some (.object [(ascii "jti", .string bytes), (ascii "sub", .string bytes)])
  parseF64 := fun _ => none
  display := fun _ => []

def taggedHashing : Hashing (Bytes ⊕ Bytes) := ⟨.inl, .inr, fun _ => 0⟩

def transparentEnvironment (snapshot : Snapshot) : Environment (Bytes ⊕ Bytes) Unit where
  parseSnapshot := fun _ => some snapshot
  prims := transparentPrimitives
  compileRegex := fun _ => none
  hashing := taggedHashing
  endian := .little
  cpuCores := 4
  pools := fun _ _ _ => true

def emptyText : Text := ⟨[], by decide⟩

def sessionOrigin : OriginInput where
  id := ⟨ascii "session", by decide⟩
  priority := 0
  host := wildcardText
  pathPrefix := rootText
  excludePaths := []
  algorithm := ⟨ascii "RS256", by decide⟩
  secret := emptyText
  publicKeyPem := rootText
  keys := []
  issuer := emptyText
  audience := emptyText
  validateExp := true
  requireExp := false
  validateNbf := false
  payloadFormat := ⟨ascii "json", by decide⟩
  clockSkewSecs := 0
  claimRules := []
  cache := none
  tokenSource := some (.type ⟨ascii "cookie", by decide⟩)
  headerName := none
  cookieName := some ⟨ascii "sid", by decide⟩
  tokenPrefix := none
  revokedTokens := []
  revokedJtis := []
  redis := none

def sessionPolicy (claimRules : List CompiledClaimRule) : OriginPolicy Unit where
  host := ascii "*"
  excludeMatcher := .empty
  checks :=
    { algorithm := .rs256
      primaryKey := ()
      keysByKid := .empty
      payloadFormat := .json
      issuer := none
      audience := none
      validateExp := true
      requireExp := false
      validateNbf := false
      clockSkewSecs := 0 }
  claimRules
  tokenLocation := .cookie (ascii "sid")
  tokenPrefix := []

end AuroraGateway.Jwt
