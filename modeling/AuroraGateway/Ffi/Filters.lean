import AuroraGateway.Ffi.Access
import AuroraGateway.ResponseCompression.Evaluator

/-!
# The filter phases behind the C interface

The header filter decides over the coding of a response, and the body filter
compresses a body that the host hands over in one piece.
-/

namespace AuroraGateway.Ffi

open Foundation ResponseCompression

variable {F : Type}

def auroraExtResponseCompression : Nat := 11

def algorithmCode : CompressionAlgorithm → Nat
  | .none => 0
  | .zstd => 1
  | .brotli => 2
  | .gzip => 3

def algorithmOfCode : Nat → CompressionAlgorithm
  | 1 => .zstd
  | 2 => .brotli
  | 3 => .gzip
  | _ => .none

@[simp] theorem algorithmOfCode_algorithmCode (algorithm : CompressionAlgorithm) :
    algorithmOfCode (algorithmCode algorithm) = algorithm := by
  cases algorithm <;> rfl

/-! ## Headers -/

def auroraFilterPassthrough : Nat := 0
def auroraFilterCompress : Nat := 2

structure AuroraHeaderFilterInput where
  upstreamStatus : Nat
  isWebsocket : Bool
  path : Bytes
  contentType : Bytes
  contentLength : Nat
  acceptEncoding : Bytes

structure AuroraHeaderFilterOutcome where
  action : Nat
  compressionAlgorithm : Nat
  contentEncoding : Option Bytes

def AuroraHeaderFilterOutcome.default : AuroraHeaderFilterOutcome :=
  ⟨auroraFilterPassthrough, 0, none⟩

def auroraGatewayPhaseHeaderFilter (space : Option (GatewayActiveSpace F))
    (compression : Option ResponseCompressionEngine) (input : AuroraHeaderFilterInput) :
    AuroraHeaderFilterOutcome :=
  match space, compression with
  | some space, some engine =>
    let path := sliceOrDefault input.path (ascii "/")
    if input.isWebsocket then .default
    else if enables (space.resolveRouteMask path) auroraExtResponseCompression then
      let dec := engine.evaluateHeader path input.upstreamStatus input.contentType
        input.contentLength input.acceptEncoding
      if dec.action = .compress then
        ⟨auroraFilterCompress, algorithmCode dec.algorithm, some dec.contentEncoding⟩
      else .default
    else .default
  | _, _ => .default

theorem passthrough_ne_compress :
    AuroraHeaderFilterOutcome.default.action ≠ auroraFilterCompress := by
  decide

theorem headerFilter_compress {space : Option (GatewayActiveSpace F)}
    {compression : Option ResponseCompressionEngine} {input : AuroraHeaderFilterInput}
    (h : (auroraGatewayPhaseHeaderFilter space compression input).action =
      auroraFilterCompress) :
    ∃ algorithm, algorithm ≠ .none ∧
      auroraGatewayPhaseHeaderFilter space compression input =
        ⟨auroraFilterCompress, algorithmCode algorithm, some algorithm.asContentEncoding⟩ := by
  unfold auroraGatewayPhaseHeaderFilter at h ⊢
  cases space with
  | none => exact absurd h passthrough_ne_compress
  | some space =>
    cases compression with
    | none => exact absurd h passthrough_ne_compress
    | some engine =>
      dsimp only at h ⊢
      split_ifs at h ⊢ with hsocket henabled hcompress
      · exact absurd h passthrough_ne_compress
      · obtain ⟨algorithm, hne, hdecision⟩ :=
          engine.evaluateHeader_announces _ _ _ _ _ hcompress
        exact ⟨algorithm, hne, by rw [hdecision]⟩
      · exact absurd h passthrough_ne_compress
      · exact absurd h passthrough_ne_compress

/-! ## Bodies -/

def auroraBodyFilterPassthrough : Nat := 0
def auroraBodyFilterMutated : Nat := 1

/-- `granted` is the answer of the allocator of the host. -/
structure AuroraBodyFilterInput where
  chunk : Bytes
  isLast : Bool
  compressionAlgorithm : Nat
  granted : Bool

structure AuroraBodyFilterOutcome where
  action : Nat
  out : Bytes

def AuroraBodyFilterOutcome.default : AuroraBodyFilterOutcome :=
  ⟨auroraBodyFilterPassthrough, []⟩

def auroraGatewayPhaseBodyFilter (encoders : Encoders)
    (compression : Option ResponseCompressionEngine) (input : AuroraBodyFilterInput) :
    AuroraBodyFilterOutcome :=
  match compression with
  | some engine =>
    let algo := algorithmOfCode input.compressionAlgorithm
    if input.compressionAlgorithm ≠ 0 ∧ input.isLast ∧ input.chunk ≠ [] ∧ algo ≠ .none then
      match engine.compressSingleShot encoders algo input.chunk input.granted with
      | some out => ⟨auroraBodyFilterMutated, out⟩
      | none => .default
    else .default
  | none => .default

variable {algorithm : CompressionAlgorithm}

theorem algorithmCode_ne_zero (h : algorithm ≠ .none) :
    algorithmCode algorithm ≠ 0 := by
  cases algorithm <;> simp_all [algorithmCode]

theorem phaseBodyFilter_eq (encoders : Encoders) (compression : Option ResponseCompressionEngine)
    (halgorithm : algorithm ≠ .none) {chunk : Bytes} (hchunk : chunk ≠ []) (granted : Bool) :
    auroraGatewayPhaseBodyFilter encoders compression
        ⟨chunk, true, algorithmCode algorithm, granted⟩ =
      match compression.bind fun engine =>
        engine.compressSingleShot encoders algorithm chunk granted with
      | some out => ⟨auroraBodyFilterMutated, out⟩
      | none => .default := by
  cases compression with
  | none => rfl
  | some engine =>
    simp [auroraGatewayPhaseBodyFilter, algorithmCode_ne_zero halgorithm, halgorithm, hchunk]

end AuroraGateway.Ffi
