import AuroraGateway.Access.Space

/-!
# The access phase behind the C interface

The host passes a request, a header lookup and an allocator, and reads the
outcome: what to do, and a token that it gives back when the request ends.  The
outcome is written in place, over whatever the host has left there.
-/

namespace AuroraGateway.Ffi

open Access
open ConnectionLimit (ConnLimitToken)
open Engine Foundation

variable {F : Type}

/-! ## Release tokens -/

structure AuroraReleaseToken where
  bytes : Bytes
  size : bytes.length = 64
  deriving DecidableEq

def AuroraReleaseToken.default : AuroraReleaseToken := ⟨List.replicate 64 0, rfl⟩

def AuroraReleaseToken.byte (token : AuroraReleaseToken) (i : Nat) : UInt8 :=
  token.bytes.getD i 0

def maxFieldBytes : Nat := 30

def encodeBytes (bytes : Bytes) (tok : ConnectionToken) : Bytes :=
  let bytes := bytes.set 0 1
  let bytes := bytes.set 1 (if tok.isRedis then 1 else 0)
  let rBytes := tok.ruleId.take maxFieldBytes
  let bytes := bytes.set 2 (UInt8.ofNat rBytes.length)
  let bytes := copyFromSlice bytes 4 rBytes
  let idBytes := tok.identifier.take maxFieldBytes
  let bytes := bytes.set 3 (UInt8.ofNat idBytes.length)
  copyFromSlice bytes 34 idBytes

theorem length_take_field (bytes : Bytes) : (bytes.take maxFieldBytes).length ≤ 30 :=
  List.length_take_le maxFieldBytes bytes

theorem length_encodeBytes {bytes : Bytes} (h : bytes.length = 64) (tok : ConnectionToken) :
    (encodeBytes bytes tok).length = 64 := by
  have hrule := length_take_field tok.ruleId
  have hident := length_take_field tok.identifier
  have hcopied : ∀ buffer : Bytes, buffer.length = 64 →
      (copyFromSlice buffer 4 (tok.ruleId.take maxFieldBytes)).length = 64 := by
    intro buffer hbuffer
    rw [length_copyFromSlice (by omega), hbuffer]
  rw [encodeBytes, length_copyFromSlice] <;>
    rw [List.length_set, hcopied _ (by simp only [List.length_set, h])]
  omega

def AuroraReleaseToken.encode (token : AuroraReleaseToken) :
    Option ConnectionToken → AuroraReleaseToken
  | some tok => ⟨encodeBytes token.bytes tok, length_encodeBytes token.size tok⟩
  | none => ⟨token.bytes.set 0 0, by rw [List.length_set, token.size]⟩

def AuroraReleaseToken.decode (token : AuroraReleaseToken) : Option ConnLimitToken :=
  if token.byte 0 = 0 ∨ token.byte 1 ≠ 0 then none
  else
    let rLen := min (token.byte 2).toNat maxFieldBytes
    let idLen := min (token.byte 3).toNat maxFieldBytes
    let ruleId := slice token.bytes 4 rLen
    some
      { ruleId := if validUtf8 ruleId then ruleId else []
        identifier := slice token.bytes 34 idLen
        isRedis := false }

section Codec

variable {bytes : Bytes} (h : bytes.length = 64) (tok : ConnectionToken)

include h

theorem getElem?_encodeBytes (i : Nat) :
    (encodeBytes bytes tok)[i]? =
      if 34 ≤ i ∧ i < 34 + (tok.identifier.take maxFieldBytes).length then
        (tok.identifier.take maxFieldBytes)[i - 34]?
      else if i = 3 then some (UInt8.ofNat (tok.identifier.take maxFieldBytes).length)
      else if 4 ≤ i ∧ i < 4 + (tok.ruleId.take maxFieldBytes).length then
        (tok.ruleId.take maxFieldBytes)[i - 4]?
      else if i = 2 then some (UInt8.ofNat (tok.ruleId.take maxFieldBytes).length)
      else if i = 1 then some (if tok.isRedis then 1 else 0)
      else if i = 0 then some 1
      else bytes[i]? := by
  have hrule := length_take_field tok.ruleId
  have hident := length_take_field tok.identifier
  have hheader : ∀ a b c : UInt8, (((bytes.set 0 a).set 1 b).set 2 c).length = 64 := by
    simp [h]
  have hcopied := @length_copyFromSlice _ (tok.ruleId.take maxFieldBytes) 4
    (by rw [hheader 1 (if tok.isRedis then 1 else 0)
      (UInt8.ofNat (tok.ruleId.take maxFieldBytes).length)]; omega)
  rw [hheader] at hcopied
  rw [encodeBytes, getElem?_copyFromSlice (by rw [List.length_set, hcopied]; omega),
    List.getElem?_set, hcopied, getElem?_copyFromSlice (by rw [hheader]; omega),
    List.getElem?_set, List.getElem?_set, List.getElem?_set]
  simp only [List.length_set, h, eq_comm (a := i), Nat.reduceLT, if_true]

theorem slice_ruleId_encodeBytes :
    slice (encodeBytes bytes tok) 4 (tok.ruleId.take maxFieldBytes).length =
      tok.ruleId.take maxFieldBytes := by
  have hrule := length_take_field tok.ruleId
  refine slice_eq fun i hi => ?_
  rw [getElem?_encodeBytes h, if_neg (by omega), if_neg (by omega), if_pos (by omega),
    Nat.add_sub_cancel_left]

theorem slice_identifier_encodeBytes :
    slice (encodeBytes bytes tok) 34 (tok.identifier.take maxFieldBytes).length =
      tok.identifier.take maxFieldBytes := by
  refine slice_eq fun i hi => ?_
  rw [getElem?_encodeBytes h, if_pos (by omega), Nat.add_sub_cancel_left]

end Codec

theorem length_field (bytes : Bytes) :
    min (UInt8.ofNat (bytes.take maxFieldBytes).length).toNat maxFieldBytes =
      (bytes.take maxFieldBytes).length := by
  have hle := length_take_field bytes
  rw [UInt8.toNat_ofNat_of_lt' (by simp only [UInt8.size]; omega)]
  exact min_eq_left hle

theorem AuroraReleaseToken.decode_encode (token : AuroraReleaseToken) {tok : ConnectionToken}
    (hlocal : tok.isRedis = false) :
    (token.encode (some tok)).decode = some
      { ruleId :=
          if validUtf8 (tok.ruleId.take maxFieldBytes) then tok.ruleId.take maxFieldBytes
          else []
        identifier := tok.identifier.take maxFieldBytes
        isRedis := false } := by
  have hbyte : ∀ i, (token.encode (some tok)).byte i =
      (encodeBytes token.bytes tok)[i]?.getD 0 := fun i => List.getD_eq_getElem?_getD ..
  have hpresent : (token.encode (some tok)).byte 0 = 1 := by
    rw [hbyte, getElem?_encodeBytes token.size]
    rfl
  have hserver : (token.encode (some tok)).byte 1 = 0 := by
    rw [hbyte, getElem?_encodeBytes token.size, hlocal]
    rfl
  have hruleLen : (token.encode (some tok)).byte 2 =
      UInt8.ofNat (tok.ruleId.take maxFieldBytes).length := by
    rw [hbyte, getElem?_encodeBytes token.size]
    rfl
  have hidLen : (token.encode (some tok)).byte 3 =
      UInt8.ofNat (tok.identifier.take maxFieldBytes).length := by
    rw [hbyte, getElem?_encodeBytes token.size]
    rfl
  have hnotEmpty : ¬((1 : UInt8) = 0 ∨ (0 : UInt8) ≠ 0) := by decide
  simp only [decode, hpresent, hserver, if_neg hnotEmpty, hruleLen, hidLen, length_field]
  simp only [encode, slice_ruleId_encodeBytes token.size,
    slice_identifier_encodeBytes token.size]

/-! ## Outcomes -/

def auroraActionAllow : Nat := 0
def auroraActionDeny : Nat := 1

def auroraFlagWwwAuth : BitVec 32 := 1 <<< 0
def auroraFlagHasReleaseToken : BitVec 32 := 1 <<< 1
def auroraFlagCachePinned : BitVec 32 := 1 <<< 2

abbrev auroraMaxForwardHeaders : Nat := 16

instance instNeZeroForwardHeaders : NeZero auroraMaxForwardHeaders := ⟨by decide⟩

def u32Mask : BitVec 32 := BitVec.allOnes 32

structure AuroraHeader where
  name : Bytes
  value : Bytes
  lowcaseName : Bytes
  deriving DecidableEq

/-- The texts that the pointers refer to; `none` is the null pointer. -/
structure AuroraAccessOutcome where
  action : Nat
  statusCode : Nat
  flags : BitVec 32
  headersCount : Nat
  headers : Fin auroraMaxForwardHeaders → AuroraHeader
  targetUpstream : Option Bytes
  body : Option Bytes
  contentType : Option Bytes
  routeMask : BitVec 32
  rateLimitBytesPerSec : Nat
  releaseToken : AuroraReleaseToken

def AuroraAccessOutcome.default : AuroraAccessOutcome where
  action := auroraActionAllow
  statusCode := 200
  flags := 0
  headersCount := 0
  headers := fun _ => ⟨[], [], []⟩
  targetUpstream := none
  body := none
  contentType := none
  routeMask := u32Mask
  rateLimitBytesPerSec := 0
  releaseToken := .default

/-- The answers of the allocator to the calls for one request, in order; without an
allocator the outcome points into the memory of the gateway. -/
abbrev Allocator := Option (Nat → Bool)

def Allocator.grants (alloc : Allocator) (call : Nat) : Bool :=
  match alloc with
  | some answers => answers call
  | none => true

def forwardHeader (alloc : Allocator) (header : Bytes × Bytes) : AuroraHeader where
  name := header.1.take 256
  value := header.2.take 4096
  lowcaseName :=
    if alloc.isSome then toAsciiLowercase (header.1.take 256) else header.1.take 256

/-- Write headers from index `i` on; allocation `first + i` is for header `i`. -/
def writeHeaders (alloc : Allocator) (first : Nat) :
    Nat → HeaderList → AuroraAccessOutcome → AuroraAccessOutcome × Bool
  | _, [], outcome => (outcome, true)
  | i, header :: rest, outcome =>
    if alloc.grants (first + i) then
      writeHeaders alloc first (i + 1) rest
        { outcome with
          headers := Function.update outcome.headers (Fin.ofNat auroraMaxForwardHeaders i)
            (forwardHeader alloc header) }
    else (outcome, false)

def populateAllowOutcome (outcome : AuroraAccessOutcome) (forwardedHeaders : HeaderList)
    (targetUpstream : Option Bytes) (rateLimitBytesPerSec : Nat)
    (connToken : Option ConnectionToken) (alloc : Allocator) :
    AuroraAccessOutcome × Bool :=
  let hCount := min forwardedHeaders.length auroraMaxForwardHeaders
  let outcome :=
    { outcome with
      action := auroraActionAllow, statusCode := 200, body := none, contentType := none
      headersCount := hCount }
  match writeHeaders alloc 0 0 (forwardedHeaders.take hCount) outcome with
  | (outcome, false) => (outcome, false)
  | (outcome, true) =>
    if targetUpstream.isSome && !alloc.grants hCount then (outcome, false)
    else
      ({ outcome with
          targetUpstream := targetUpstream.map fun up => up.take 256
          rateLimitBytesPerSec := rateLimitBytesPerSec
          flags := if connToken.isSome then auroraFlagHasReleaseToken else 0
          releaseToken := outcome.releaseToken.encode connToken }, true)

def populateDenyOutcome (outcome : AuroraAccessOutcome) (status : Nat)
    (wwwAuthenticate : Bool) (contentType body : Option Bytes) (alloc : Allocator) :
    AuroraAccessOutcome × Bool :=
  let outcome :=
    { outcome with
      action := auroraActionDeny
      statusCode := status
      flags := if wwwAuthenticate then auroraFlagWwwAuth else 0
      headersCount := 0
      targetUpstream := none
      rateLimitBytesPerSec := 0
      releaseToken := outcome.releaseToken.encode none }
  if contentType.isSome && !alloc.grants 0 then (outcome, false)
  else
    let outcome := { outcome with contentType := contentType.map fun ct => ct.take 256 }
    let bodyCall := if contentType.isSome then 1 else 0
    if body.isSome && !alloc.grants bodyCall then (outcome, false)
    else ({ outcome with body := body.map fun b => b.take 65536 }, true)

structure CacheHitOutcome where
  status : Nat
  contentType : Bytes
  body : Bytes
  headers : HeaderList
  pointer : Fin 8 → UInt8

theorem length_pinned (token : AuroraReleaseToken) (pointer : Fin 8 → UInt8) :
    (copyFromSlice token.bytes 0 (List.ofFn pointer)).length = 64 := by
  rw [length_copyFromSlice] <;> simp [token.size]

def AuroraReleaseToken.pin (token : AuroraReleaseToken) (pointer : Fin 8 → UInt8) :
    AuroraReleaseToken :=
  ⟨copyFromSlice token.bytes 0 (List.ofFn pointer), length_pinned token pointer⟩

def populateCacheHitOutcome (outcome : AuroraAccessOutcome) (hit : CacheHitOutcome)
    (alloc : Allocator) : AuroraAccessOutcome × Bool :=
  let outcome :=
    { outcome with
      action := auroraActionDeny
      statusCode := hit.status
      flags := auroraFlagCachePinned
      targetUpstream := none
      rateLimitBytesPerSec := 0 }
  if !alloc.grants 0 then (outcome, false)
  else
    let hCount := min hit.headers.length auroraMaxForwardHeaders
    let outcome :=
      { outcome with
        contentType := some (hit.contentType.take 256)
        body := some hit.body
        releaseToken := outcome.releaseToken.pin hit.pointer
        headersCount := hCount }
    writeHeaders alloc 1 0 (hit.headers.take hCount) outcome

/-! ## The active space -/

abbrev ResponseCache :=
  RequestContext → Option Bytes → Option Bytes → Option CacheHitOutcome

structure GatewayActiveSpace (F : Type) extends AccessPhaseEngines F where
  responseCache : Option ResponseCache
  routeTrie : BuiltTree (BitVec 32)

def auroraExtIpRestriction : Nat := 0
def auroraExtJwt : Nat := 1
def auroraExtRateLimit : Nat := 2
def auroraExtConnLimit : Nat := 3
def auroraExtTrafficShaper : Nat := 4
def auroraExtResourceLimit : Nat := 5
def auroraExtTrafficSplit : Nat := 6
def auroraExtCanaryRelease : Nat := 7
def auroraExtBlueGreen : Nat := 8
def auroraExtRequestTermination : Nat := 10
def auroraExtResponseCache : Nat := 12

def enables (mask : BitVec 32) (ext : Nat) : Bool := (mask &&& ((1 : BitVec 32) <<< ext)) != 0

namespace GatewayActiveSpace

variable (space : GatewayActiveSpace F)

def resolveRouteMask (path : Bytes) : BitVec 32 :=
  (space.routeTrie.forEachMatch path (fun _ m => some m) none).getD u32Mask

def buildPhaseEngines (path : Bytes) : AccessPhaseEngines F :=
  let mask := space.resolveRouteMask path
  { ipRestriction := if enables mask auroraExtIpRestriction then space.ipRestriction else none
    jwt := if enables mask auroraExtJwt then space.jwt else none
    rateLimit := if enables mask auroraExtRateLimit then space.rateLimit else none
    connectionLimit := if enables mask auroraExtConnLimit then space.connectionLimit else none
    trafficShaper := if enables mask auroraExtTrafficShaper then space.trafficShaper else none
    resourceLimit := if enables mask auroraExtResourceLimit then space.resourceLimit else none
    requestTermination :=
      if enables mask auroraExtRequestTermination then space.requestTermination else none
    trafficSplit := if enables mask auroraExtTrafficSplit then space.trafficSplit else none
    canaryRelease := if enables mask auroraExtCanaryRelease then space.canaryRelease else none
    blueGreen := if enables mask auroraExtBlueGreen then space.blueGreen else none }

/-- The engines are shared: what the evaluation has counted stays in the space. -/
def keepCounters (engines : AccessPhaseEngines F) : GatewayActiveSpace F :=
  { space with
    rateLimit := engines.rateLimit.or space.rateLimit
    connectionLimit := engines.connectionLimit.or space.connectionLimit }

def cachedResponse (ctx : RequestContext) (headerLookup : HeaderLookup) : Option CacheHitOutcome :=
  if enables (space.resolveRouteMask ctx.path) auroraExtResponseCache then
    space.responseCache.bind fun cache =>
      cache ctx (headerLookup (ascii "accept-encoding")) (headerLookup (ascii "cache-control"))
  else none

end GatewayActiveSpace

/-! ## The phase -/

/-- The texts of a request; a null pointer and an empty text are the same. -/
structure AuroraAccessInput where
  clientIp : Bytes
  host : Bytes
  path : Bytes
  method : Bytes
  query : Bytes
  contentLength : Nat
  headerLength : Nat
  randomSeed : Nat
  nowMs : Nat

structure AuroraCacheStoreInput where
  method : Bytes
  host : Bytes
  path : Bytes
  query : Bytes
  status : Nat
  contentType : Bytes
  body : Bytes
  cacheControl : Bytes
  etag : Bytes

def sliceOrDefault (bytes fallback : Bytes) : Bytes :=
  if bytes.isEmpty then fallback else bytes

def extractRequestContext (input : AuroraAccessInput) : RequestContext where
  clientIp := sliceOrDefault input.clientIp (ascii "127.0.0.1")
  host := sliceOrDefault input.host (ascii "localhost")
  path := sliceOrDefault input.path (ascii "/")
  method := sliceOrDefault input.method (ascii "GET")
  query := sliceOrDefault input.query []
  contentLength := input.contentLength
  headerLength := input.headerLength
  randomSeed := input.randomSeed
  nowMs := input.nowMs

structure AccessCall (F : Type) where
  input : Option AuroraAccessInput
  lookupFn : Option HeaderLookup
  alloc : Allocator
  outOutcome : Option AuroraAccessOutcome
  world : Surroundings F

def AccessCall.headerLookup (call : AccessCall F) : HeaderLookup := fun name =>
  (call.lookupFn.bind fun lookup => lookup name).filter fun value => value.length ≤ 16384

def rcOf (ok : Bool) : Nat := if ok then 0 else 1

section Phase

variable [Flonum F] (space : Option (GatewayActiveSpace F))

def populateOutcome (ctx : RequestContext) (call : AccessCall F) (outcome : AuroraAccessOutcome)
    (decision : AccessDecision) : AuroraAccessOutcome × Bool :=
  match decision with
  | .allow forwardedHeaders targetUpstream rateLimitBytesPerSec connToken =>
    match space.bind fun space => space.cachedResponse ctx call.headerLookup with
    | some hit => populateCacheHitOutcome outcome hit call.alloc
    | none =>
      populateAllowOutcome outcome (forwardedHeaders.getD []) targetUpstream
        rateLimitBytesPerSec connToken call.alloc
  | .deny status wwwAuthenticate contentType body =>
    populateDenyOutcome outcome status wwwAuthenticate contentType body call.alloc

/-- The return code is not 0 when the outcome must not be used. -/
def auroraGatewayPhaseAccess (servers : Servers F) (call : AccessCall F) :
    Option (GatewayActiveSpace F) × Servers F × Option AuroraAccessOutcome × Nat :=
  match call.outOutcome, call.input with
  | none, _ => (space, servers, none, 1)
  | some out, none =>
    (space, servers,
      some { AuroraAccessOutcome.default with
        headers := out.headers, releaseToken := out.releaseToken.encode none }, 0)
  | some out, some input =>
    let ctx := extractRequestContext input
    let routeMask := (space.map fun space => space.resolveRouteMask ctx.path).getD u32Mask
    let engines := (space.map fun space => space.buildPhaseEngines ctx.path).getD .none
    let (engines, servers, decision) :=
      evaluate engines ctx call.headerLookup call.world servers
    let (outcome, ok) :=
      populateOutcome space ctx call { out with routeMask := routeMask } decision
    (space.map fun space => space.keepCounters engines, servers, some outcome, rcOf ok)

def auroraGatewayConnectionRelease (servers : Servers F) (world : Surroundings F)
    (token : Option AuroraReleaseToken) : Option (GatewayActiveSpace F) × Servers F :=
  match token.bind AuroraReleaseToken.decode, space with
  | some connToken, some space =>
    match space.connectionLimit with
    | some eng =>
      let (eng, store) :=
        eng.release world.connectionFate connToken (servers world.connectionServer)
      (some { space with connectionLimit := some eng },
        Function.update servers world.connectionServer store)
    | none => (some space, servers)
  | _, space => (space, servers)

end Phase

end AuroraGateway.Ffi
