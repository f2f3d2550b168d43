import AuroraGateway.Engine.CommonPrefix
import AuroraGateway.Foundation.Json
import AuroraGateway.Foundation.Utf8
import AuroraGateway.Jwt.Cache

/-!
# Verified tokens

A token is opened with the keys of its origin, its time, issuer and audience
are checked, and the claims that the rules of the origin name are projected to
headers.  The libraries for signatures, for base64 and for JSON are given by
what they answer.
-/

namespace AuroraGateway.Jwt

open Engine (wordOfBytes)
open Foundation

/-! ## Algorithms and keys -/

inductive JwtAlgorithm where
  | hs256
  | hs384
  | hs512
  | rs256
  | rs384
  | rs512
  | es256
  | es384
  | edDsa
  deriving DecidableEq, Repr

namespace JwtAlgorithm

def asStr : JwtAlgorithm → Bytes
  | hs256 => ascii "HS256"
  | hs384 => ascii "HS384"
  | hs512 => ascii "HS512"
  | rs256 => ascii "RS256"
  | rs384 => ascii "RS384"
  | rs512 => ascii "RS512"
  | es256 => ascii "ES256"
  | es384 => ascii "ES384"
  | edDsa => ascii "EdDSA"

def all : List JwtAlgorithm :=
  [hs256, hs384, hs512, rs256, rs384, rs512, es256, es384, edDsa]

def fromStr (s : Bytes) : Option JwtAlgorithm :=
  let name := trim s
  if name = ascii "Ed25519" then some edDsa else all.find? fun alg => alg.asStr = name

def isSymmetric (alg : JwtAlgorithm) : Bool := alg = hs256 || alg = hs384 || alg = hs512

def expectedB64SigLen : JwtAlgorithm → Option Nat
  | hs256 => some 43
  | hs384 => some 64
  | hs512 | es256 | edDsa => some 86
  | es384 => some 128
  | rs256 | rs384 | rs512 => none

def algMask : Nat := 0x000000FFFFFFFFFF

def asU64 (alg : JwtAlgorithm) : Nat :=
  wordOfBytes .little (alg.asStr ++ [0, 0, 0]) &&& algMask

def matchesAlgorithm (alg : Bytes) (expected : JwtAlgorithm) : Bool :=
  alg.length = 5 && wordOfBytes .little (alg ++ [0, 0, 0]) &&& algMask = expected.asU64

end JwtAlgorithm

structure JoseHeader where
  alg : Bytes
  kid : Option Bytes

/-- What the libraries answer; `K` is the type of their keys. -/
structure Primitives (K : Type) where
  hmacKey : JwtAlgorithm → Bytes → K
  publicKey : JwtAlgorithm → Bytes → Option K
  verify : K → JwtAlgorithm → Bytes → Bytes → Bool
  base64UrlSafe : Bytes → Option Bytes
  base64UrlSafeNoPad : Bytes → Option Bytes
  parseJoseHeader : Bytes → Option JoseHeader
  parseJson : Bytes → Option Json
  /-- A finite number. -/
  parseF64 : Bytes → Option ℚ
  display : Json → Bytes

structure KeyInput where
  kid : Text
  publicKeyPem : Text
  secret : Text
  isPrimary : Bool

variable {K : Type} (prims : Primitives K) (alg : JwtAlgorithm)

def fromHmacSecret (secret : Bytes) : Option K :=
  if secret.isEmpty || 4096 < secret.length || !alg.isSymmetric then none
  else some (prims.hmacKey alg secret)

def fromPem (pem : Bytes) : Option K :=
  if pem.isEmpty || 8192 < pem.length || decide (ascii "PRIVATE KEY" <:+: pem) ||
      alg.isSymmetric then none
  else prims.publicKey alg pem

def verifierKey (secret publicKeyPem : Bytes) : Option K :=
  if alg.isSymmetric then fromHmacSecret prims alg secret else fromPem prims alg publicKeyPem

def maxJwtKeysPerOrigin : Nat := 8

structure KeyRing (K : Type) where
  primaryKey : Option K
  keysByKid : HashTable Bytes K

def addKey (ring : KeyRing K) (input : KeyInput) : Option (KeyRing K) :=
  (verifierKey prims alg input.secret.bytes input.publicKeyPem.bytes).map fun key =>
    { primaryKey :=
        if input.isPrimary || ring.primaryKey.isNone then some key else ring.primaryKey
      keysByKid :=
        if input.kid.bytes.isEmpty then ring.keysByKid
        else ring.keysByKid.insert input.kid.bytes key }

def compileKeys (secret publicKeyPem : Bytes) (keys : List KeyInput) :
    Option (K × HashTable Bytes K) :=
  if keys.isEmpty then
    (verifierKey prims alg secret publicKeyPem).map fun key => (key, .empty)
  else if maxJwtKeysPerOrigin < keys.length then none
  else do
    let ring ← keys.foldlM (addKey prims alg) ⟨none, .empty⟩
    let primaryKey ← ring.primaryKey
    some (primaryKey, ring.keysByKid)

/-! ## Opening a token -/

inductive PayloadFormat where
  | json
  | raw
  deriving DecidableEq, Repr

inductive VerifiedPayload where
  | json (value : Json)
  | raw (text : Bytes)

structure TokenChecks (K : Type) where
  algorithm : JwtAlgorithm
  primaryKey : K
  keysByKid : HashTable Bytes K
  payloadFormat : PayloadFormat
  issuer : Option Bytes
  audience : Option Bytes
  validateExp : Bool
  requireExp : Bool
  validateNbf : Bool
  clockSkewSecs : Nat

def decodeBase64url (s : Bytes) : Option Bytes :=
  let clean := trim s
  if clean.isEmpty then none
  else if clean.getLast? = some 61 then prims.base64UrlSafe clean
  else prims.base64UrlSafeNoPad clean

def decodeBase64urlToSlice (size : Nat) (s : Bytes) : Option Bytes :=
  (decodeBase64url prims s).filter fun decoded => decoded.length ≤ size

def selectKey (checks : TokenChecks K) (kid : Option Bytes) : K :=
  (kid.bind checks.keysByKid.get?).getD checks.primaryKey

def decodePayload (payloadB64 : Bytes) : Option Bytes :=
  if payloadB64.length ≤ 2048 * 4 / 3 then decodeBase64urlToSlice prims 2048 payloadB64
  else decodeBase64url prims payloadB64

def readPayload (format : PayloadFormat) (bytes : Bytes) : Option VerifiedPayload :=
  match format with
  | .json => (prims.parseJson bytes).map .json
  | .raw => if validUtf8 bytes then some (.raw bytes) else none

def openToken (checks : TokenChecks K) (token : Bytes) : Option VerifiedPayload :=
  match token.splitOn 46 with
  | [headerB64, payloadB64, signatureB64] =>
    if checks.algorithm.expectedB64SigLen.any fun len => signatureB64.length ≠ len then none
    else do
      let headerBytes ← decodeBase64urlToSlice prims 512 headerB64
      let header ← prims.parseJoseHeader headerBytes
      guard (JwtAlgorithm.matchesAlgorithm header.alg checks.algorithm)
      let signature ← decodeBase64urlToSlice prims 512 signatureB64
      guard (prims.verify (selectKey checks header.kid) checks.algorithm
        (headerB64 ++ 46 :: payloadB64) signature)
      let payloadBytes ← decodePayload prims payloadB64
      readPayload prims checks.payloadFormat payloadBytes
  | _ => none

/-! ## Time, issuer and audience -/

/-- The bound of the source is the least fraction above all integers of 64 bits. -/
def epochOfFloat (f : ℚ) : Option Nat :=
  if 0 ≤ f ∧ f ≤ (2 ^ 64 : Nat) then some (satU64 f.floor) else none

def parseEpochSecs : Json → Option Nat
  | .number (.posInt n) => some n.toNat
  | .number (.negInt n) => if 0 ≤ n then some n.toNat else none
  | .number (.float f) => epochOfFloat f
  | .string s => (parseU64 (trim s)).or ((prims.parseF64 (trim s)).bind epochOfFloat)
  | _ => none

namespace VerifiedPayload

/-- Zero if the token does not say when it expires. -/
def exp : VerifiedPayload → Nat
  | .json value => ((value.get? (ascii "exp")).bind (parseEpochSecs prims)).getD 0
  | .raw _ => 0

def nbf : VerifiedPayload → Option Nat
  | .json value => (value.get? (ascii "nbf")).bind (parseEpochSecs prims)
  | .raw _ => none

def jti : VerifiedPayload → Option Bytes
  | .json value => (value.get? (ascii "jti")).bind Json.asStr
  | .raw _ => none

def issuedBy (expected : Bytes) : VerifiedPayload → Bool
  | .json value => ((value.get? (ascii "iss")).bind Json.asStr).getD [] = expected
  | .raw _ => true

def intendedFor (expected : Bytes) : VerifiedPayload → Bool
  | .json value =>
    match value.get? (ascii "aud") with
    | some (.string s) => s = expected
    | some (.array items) => items.any fun item => item.asStr = some expected
    | _ => false
  | .raw _ => true

end VerifiedPayload

structure VerifiedToken where
  payload : VerifiedPayload
  expEpochSecs : Nat
  jti : Option Bytes

def claimsHold (checks : TokenChecks K) (nowEpoch : Nat) (payload : VerifiedPayload) : Bool :=
  let exp := payload.exp prims
  !(checks.requireExp && exp = 0) &&
    !(checks.validateExp && 0 < exp && saturatingAdd exp checks.clockSkewSecs < nowEpoch) &&
    !(checks.validateNbf && (payload.nbf prims).any fun nbf =>
      saturatingAdd nowEpoch checks.clockSkewSecs < nbf) &&
    checks.issuer.all (fun issuer => issuer.isEmpty || payload.issuedBy issuer) &&
    checks.audience.all fun audience => audience.isEmpty || payload.intendedFor audience

def verifyJwt (checks : TokenChecks K) (nowEpoch : Nat) (token : Bytes) :
    Option VerifiedToken :=
  ((openToken prims checks token).filter (claimsHold prims checks nowEpoch)).map fun payload =>
    ⟨payload, payload.exp prims, payload.jti⟩

/-! ## Claims -/

def descend (current : Json) (segment : Bytes) : Option Json :=
  match current with
  | .object _ => current.get? segment
  | .array items => (parseU64 segment).bind fun idx => items[idx]?
  | _ => none

def itemText : Json → Option Bytes
  | .null => none
  | .string s => some s
  | .bool b => some (if b then ascii "true" else ascii "false")
  | item => some (prims.display item)

def claimText : Json → Option Bytes
  | .string s => some s
  | .bool b => some (if b then ascii "true" else ascii "false")
  | .array items =>
    let buf := (ascii ", ").intercalate (items.filterMap (itemText prims))
    if buf.isEmpty then none else some buf
  | .null => none
  | value => some (prims.display value)

def resolveClaimPath (value : Json) (path : Bytes) : Option Bytes :=
  ((path.splitOn 46).foldlM descend value).bind (claimText prims)

/-- A regular expression, by what it matches and by what it captures: the group `val`,
else the first group, else the whole match. -/
structure Regex where
  isMatch : Bytes → Bool
  captured : Bytes → Option Bytes

structure CompiledClaimRule where
  payloadKey : Bytes
  rawExtractor : Option Regex
  regex : Option Regex
  headerKey : Option Bytes
  required : Bool

namespace CompiledClaimRule

def extracted (rule : CompiledClaimRule) : VerifiedPayload → Option Bytes
  | .json value => resolveClaimPath prims value rule.payloadKey
  | .raw text => rule.rawExtractor.bind fun extractor => extractor.captured text

def validValue (rule : CompiledClaimRule) (payload : VerifiedPayload) : Option Bytes :=
  (rule.extracted prims payload).filter fun v => rule.regex.all fun regex => regex.isMatch v

end CompiledClaimRule

/-- The headers that the rules project a payload to; `none` if a claim is missing that is
required. -/
def projectClaims (payload : VerifiedPayload) :
    List CompiledClaimRule → Option ForwardedHeaders
  | [] => some []
  | rule :: rules =>
    match rule.validValue prims payload with
    | some value =>
      (projectClaims payload rules).map fun headers =>
        (rule.headerKey.map fun key => (key, value)).toList ++ headers
    | none => if rule.required then none else projectClaims payload rules

section Projection

variable {prims} {payload : VerifiedPayload} {rules : List CompiledClaimRule}
  {headers : ForwardedHeaders}
variable {rule : CompiledClaimRule}

theorem projectClaims_cons (h : projectClaims prims payload (rule :: rules) = some headers) :
    ∃ rest, projectClaims prims payload rules = some rest ∧
      headers = ((rule.validValue prims payload).bind fun value =>
        rule.headerKey.map fun key => (key, value)).toList ++ rest := by
  rw [projectClaims] at h
  split at h
  · rename_i value hvalue
    obtain ⟨rest, hrest, rfl⟩ := Option.map_eq_some_iff.mp h
    exact ⟨rest, hrest, by rw [hvalue]; rfl⟩
  · rename_i hvalue
    split at h
    · cases h
    · exact ⟨headers, h, by rw [hvalue]; rfl⟩

section

variable (h : projectClaims prims payload rules = some headers)
include h

theorem mem_projectClaims (hrule : rule ∈ rules) {key value : Bytes}
    (hkey : rule.headerKey = some key) (hvalue : rule.validValue prims payload = some value) :
    (key, value) ∈ headers := by
  induction rules generalizing headers with
  | nil => cases hrule
  | cons first rules ih =>
    obtain ⟨rest, hrest, rfl⟩ := projectClaims_cons h
    rcases List.mem_cons.mp hrule with rfl | hmem
    · simp [hkey, hvalue]
    · exact List.mem_append_right _ (ih hrest hmem)

theorem exists_rule_of_mem {header : Bytes × Bytes} (hheader : header ∈ headers) :
    ∃ rule ∈ rules, rule.headerKey = some header.1 ∧
      rule.validValue prims payload = some header.2 := by
  induction rules generalizing headers with
  | nil =>
    obtain rfl := Option.some.inj h
    cases hheader
  | cons rule rules ih =>
    obtain ⟨rest, hrest, rfl⟩ := projectClaims_cons h
    rcases List.mem_append.mp hheader with hfirst | hmem
    · obtain ⟨value, hvalue, hkey⟩ := Option.bind_eq_some_iff.mp (Option.mem_toList.mp hfirst)
      obtain ⟨key, hheaderKey, rfl⟩ := Option.map_eq_some_iff.mp hkey
      exact ⟨rule, List.mem_cons_self, hheaderKey, hvalue⟩
    · obtain ⟨other, hother, hrule⟩ := ih hrest hmem
      exact ⟨other, List.mem_cons_of_mem _ hother, hrule⟩

theorem length_projectClaims_le :
    headers.length ≤ rules.countP fun rule => rule.headerKey.isSome := by
  induction rules generalizing headers with
  | nil =>
    obtain rfl := Option.some.inj h
    simp
  | cons rule rules ih =>
    obtain ⟨rest, hrest, rfl⟩ := projectClaims_cons h
    have := ih hrest
    cases hkey : rule.headerKey with
    | none => simpa [hkey] using this
    | some key =>
      cases hvalue : rule.validValue prims payload with
      | none =>
        simp [hkey]
        omega
      | some value => simpa [hkey] using this

end

end Projection

end AuroraGateway.Jwt
