import AuroraGateway.Foundation.Bytes

/-!
# Compression routines

The encoders are third-party libraries.  Each takes a level, an input and the
capacity of the output buffer, and writes an encoding or fails.
-/

namespace AuroraGateway.ResponseCompression

open Foundation

inductive CompressionAlgorithm where
  | none
  | zstd
  | brotli
  | gzip
  deriving DecidableEq, Repr

def CompressionAlgorithm.asContentEncoding : CompressionAlgorithm → Bytes
  | .none => []
  | .zstd => ascii "zstd"
  | .brotli => ascii "br"
  | .gzip => ascii "gzip"

theorem asContentEncoding_injective :
    Function.Injective CompressionAlgorithm.asContentEncoding := by
  intro left right h
  cases left <;> cases right <;> first | rfl | exact absurd h (by decide)

def maxCompressedLen (algorithm : CompressionAlgorithm) (inLen : Nat) : Nat :=
  match algorithm with
  | .none => inLen
  | .zstd => inLen + inLen / 2 ^ 8 + 128
  | .brotli => inLen + inLen / 2 ^ 2 + 1024
  | .gzip => inLen + inLen / 2 ^ 3 + 64

abbrev Encoder := (level : Nat) → (input : Bytes) → (capacity : Nat) → Option Bytes

structure Encoders where
  zstd : Encoder
  brotli : Encoder
  gzip : Encoder

def clamp (low high n : Nat) : Nat := max low (min high n)

/-- The bytes written to the output buffer; `none` is an error. -/
def compressInto (encoders : Encoders) (algorithm : CompressionAlgorithm) (level : Nat)
    (input : Bytes) (capacity : Nat) : Option Bytes :=
  if input.isEmpty then some []
  else
    match algorithm with
    | .none => if capacity < input.length then none else some input
    | .zstd => encoders.zstd (clamp 1 19 level) input capacity
    | .brotli => encoders.brotli (clamp 1 11 level) input capacity
    | .gzip => encoders.gzip (clamp 1 9 level) input capacity

end AuroraGateway.ResponseCompression
