import AuroraGateway.Engine.RadixRefinement
import AuroraGateway.Foundation.Delimited
import AuroraGateway.ResponseCompression.Compressor
import AuroraGateway.ResponseCompression.Policy

/-!
# Negotiation and single-shot compression

The decision over a response is made from its headers; the body is compressed
later, in one piece, into memory of the host.
-/

namespace AuroraGateway.ResponseCompression

open Engine Foundation

def clientEncodingGzip : BitVec 8 := 1 <<< 0
def clientEncodingBr : BitVec 8 := 1 <<< 1
def clientEncodingZstd : BitVec 8 := 1 <<< 2

inductive HeaderDecisionAction where
  | passthrough
  | compress
  deriving DecidableEq, Repr

structure HeaderDecision where
  action : HeaderDecisionAction
  algorithm : CompressionAlgorithm
  contentEncoding : Bytes
  deriving DecidableEq

def HeaderDecision.passthrough : HeaderDecision := ⟨.passthrough, .none, []⟩

def comma : UInt8 := 44
def semicolon : UInt8 := 59

def isQvalueZero (v : Bytes) : Bool :=
  ((ascii "0").isPrefixOf v && !(ascii "0.").isPrefixOf v) || v == ascii "0.0" ||
    v == ascii "0.00" || v == ascii "0.000"

def rejectsByQvalue (params : Bytes) : Bool :=
  (params.splitOn semicolon).any fun param =>
    match stripPrefix? (ascii "q=") (trim param) with
    | some val => isQvalueZero (trim val)
    | none => false

def encodingFlag (part : Bytes) : BitVec 8 :=
  let trimmed := trim part
  if trimmed.isEmpty then 0
  else
    let (token, qvalueZero) :=
      match splitOnce semicolon trimmed with
      | some (tok, params) => (trim tok, rejectsByQvalue params)
      | none => (trimmed, false)
    if qvalueZero then 0
    else if eqIgnoreAsciiCase token (ascii "zstd") then clientEncodingZstd
    else if eqIgnoreAsciiCase token (ascii "br") || eqIgnoreAsciiCase token (ascii "brotli") then
      clientEncodingBr
    else if eqIgnoreAsciiCase token (ascii "gzip") || token == ascii "*" then clientEncodingGzip
    else 0

def parseAcceptEncodingMask (headerVal : Bytes) : BitVec 8 :=
  (headerVal.splitOn comma).foldl (fun mask part => mask ||| encodingFlag part) 0

structure ResponseCompressionEngine where
  config : ResponseCompressionConfig
  allowedTypes : List Bytes
  wildcardTypes : Bool
  routeOverrides : BuiltTree RouteCompressionOverride

namespace ResponseCompressionEngine

def new (config : ResponseCompressionConfig) : Except Bytes ResponseCompressionEngine := do
  config.validate
  .ok
    { config
      allowedTypes := config.sanitizedTypes.filter fun mime => mime ≠ ascii "*"
      wildcardTypes := config.sanitizedTypes.contains (ascii "*")
      routeOverrides := .ofList (config.routesOverride.map fun r => (r.pathPrefix.bytes, r)) }

variable (engine : ResponseCompressionEngine)

/-- The longest override of the path; the last one among equally long ones. -/
def bestOverride (path : Bytes) : Option RouteCompressionOverride :=
  (engine.routeOverrides.forEachMatch path
    (fun (best : Option RouteCompressionOverride × Nat) val =>
      if best.2 ≤ val.pathPrefix.bytes.length then (some val, val.pathPrefix.bytes.length)
      else best) (none, 0)).1

def algorithmFor (mask : BitVec 8) (algo : Text) : Option CompressionAlgorithm :=
  let lower := toAsciiLowercase algo.bytes
  if lower = ascii "zstd" ∧ mask &&& clientEncodingZstd ≠ 0 then some .zstd
  else if (lower = ascii "br" ∨ lower = ascii "brotli") ∧ mask &&& clientEncodingBr ≠ 0 then
    some .brotli
  else if lower = ascii "gzip" ∧ mask &&& clientEncodingGzip ≠ 0 then some .gzip
  else none

def baseMime (contentType : Bytes) : Bytes :=
  toAsciiLowercase (trim ((contentType.splitOn semicolon).headD []))

def evaluateHeader (path : Bytes) (status : Nat) (contentType : Bytes) (contentLength : Nat)
    (acceptEncoding : Bytes) : HeaderDecision :=
  if !engine.config.enabled then .passthrough
  else if status = 204 ∨ status = 304 ∨ status < 200 then .passthrough
  else
    let rule := engine.bestOverride path
    let effectiveEnabled := (rule.bind (·.enabled)).getD engine.config.enabled
    let effectiveMinLength := (rule.bind (·.minLength)).getD engine.config.minLength
    let effectivePreferAlgos :=
      (rule.bind (·.preferAlgorithms)).getD engine.config.preferAlgorithms
    if !effectiveEnabled then .passthrough
    else if 0 < contentLength ∧ contentLength < effectiveMinLength then .passthrough
    else if !engine.wildcardTypes && ((baseMime contentType).isEmpty ||
        !engine.allowedTypes.contains (baseMime contentType)) then
      .passthrough
    else
      let mask := parseAcceptEncodingMask acceptEncoding
      if mask = 0 then .passthrough
      else
        match effectivePreferAlgos.findSome? (algorithmFor mask) with
        | some algorithm => ⟨.compress, algorithm, algorithm.asContentEncoding⟩
        | none => .passthrough

theorem algorithmFor_ne_none {mask : BitVec 8} {algo : Text} {algorithm : CompressionAlgorithm}
    (h : algorithmFor mask algo = some algorithm) : algorithm ≠ .none := by
  unfold algorithmFor at h
  dsimp only at h
  split at h
  · obtain rfl := Option.some.inj h
    exact nofun
  · split at h
    · obtain rfl := Option.some.inj h
      exact nofun
    · obtain ⟨-, hgzip⟩ := Option.ite_none_right_eq_some.mp h
      obtain rfl := Option.some.inj hgzip
      exact nofun

def Announces (decision : HeaderDecision) : Prop :=
  decision.action = .compress → ∃ algorithm, algorithm ≠ .none ∧
    decision = ⟨.compress, algorithm, algorithm.asContentEncoding⟩

theorem evaluateHeader_announces (path : Bytes) (status : Nat) (contentType : Bytes)
    (contentLength : Nat) (acceptEncoding : Bytes) :
    Announces
      (engine.evaluateHeader path status contentType contentLength acceptEncoding) := by
  have hpass : Announces .passthrough := nofun
  refine iteInduction (fun _ => hpass) fun _ => ?_
  refine iteInduction (fun _ => hpass) fun _ => ?_
  refine iteInduction (fun _ => hpass) fun _ => ?_
  refine iteInduction (fun _ => hpass) fun _ => ?_
  refine iteInduction (fun _ => hpass) fun _ => ?_
  refine iteInduction (fun _ => hpass) fun _ => ?_
  split
  · rename_i algorithm hfound
    obtain ⟨algo, -, halgo⟩ := List.exists_of_findSome?_eq_some hfound
    exact fun _ => ⟨algorithm, algorithmFor_ne_none halgo, rfl⟩
  · exact hpass

def getLevel : CompressionAlgorithm → Nat
  | .none => 0
  | .zstd => engine.config.zstdLevel
  | .brotli => engine.config.brotliLevel
  | .gzip => engine.config.gzipLevel

/-- The written bytes; `none` is an error of the allocator or the encoder. -/
def compressSingleShot (encoders : Encoders) (algorithm : CompressionAlgorithm)
    (input : Bytes) (granted : Bool) : Option Bytes :=
  if input.isEmpty then some []
  else if !granted then none
  else
    compressInto encoders algorithm (engine.getLevel algorithm) input
      (maxCompressedLen algorithm input.length)

end ResponseCompressionEngine

end AuroraGateway.ResponseCompression
