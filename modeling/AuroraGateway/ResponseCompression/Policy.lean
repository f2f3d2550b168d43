import AuroraGateway.Foundation.Utf8

/-!
# Policy of response compression

The declarative configuration and its checks.  A rejected configuration is
reported by the text that the source formats.
-/

namespace AuroraGateway.ResponseCompression

open Foundation

structure RouteCompressionOverride where
  pathPrefix : Text
  enabled : Option Bool
  minLength : Option Nat
  preferAlgorithms : Option (List Text)
  deriving DecidableEq

structure ResponseCompressionConfig where
  enabled : Bool
  minLength : Nat
  preferAlgorithms : List Text
  zstdLevel : Nat
  brotliLevel : Nat
  gzipLevel : Nat
  types : List Text
  routesOverride : List RouteCompressionOverride
  deriving DecidableEq

def isValidMimeChar (byte : UInt8) : Bool :=
  isAsciiAlphanumeric byte || (ascii "!#$&-^_.+").contains byte

/-- Carriage return, line feed, NUL, `;` and the two braces. -/
def isForbiddenMimeByte (byte : UInt8) : Bool :=
  [13, 10, 0, 59, 123, 125].contains byte

def upperHexDigit (n : Nat) : UInt8 := if n < 10 then UInt8.ofNat (48 + n) else UInt8.ofNat (55 + n)

/-- `{:02X}` -/
def upperHex (byte : UInt8) : Bytes :=
  [upperHexDigit (byte.toNat / 16), upperHexDigit (byte.toNat % 16)]

def quoted (before text after : Bytes) : Bytes := before ++ ascii "'" ++ text ++ ascii "'" ++ after

def validateMimeType (mime : Bytes) : Except Bytes Bytes :=
  let trimmed := trim mime
  if mime.any isForbiddenMimeByte then
    .error (quoted (ascii "MIME type ") mime
      (ascii " contains forbidden control or delimiter characters"))
  else if trimmed.isEmpty then .error (ascii "MIME type cannot be empty")
  else if trimmed = ascii "*" then .ok (ascii "*")
  else if 64 < trimmed.length then
    .error (quoted (ascii "MIME type ") trimmed (ascii " exceeds maximum 64 characters"))
  else
    match trimmed.findIdx? (· == slash) with
    | none =>
      .error (quoted (ascii "MIME type ") trimmed
        (ascii " must contain exactly one '/' separator"))
    | some slashIdx =>
      if slashIdx = 0 || slashIdx = trimmed.length - 1 then
        .error (quoted (ascii "MIME type ") trimmed (ascii " has empty type or subtype"))
      else if (trimmed.drop (slashIdx + 1)).contains slash then
        .error (quoted (ascii "MIME type ") trimmed
          (ascii " contains multiple '/' separators"))
      else
        match (trimmed.eraseIdx slashIdx).find? fun byte => !isValidMimeChar byte with
        | some byte =>
          .error (quoted (ascii "MIME type ") trimmed
            (ascii " contains invalid character 0x" ++ upperHex byte))
        | none => .ok (toAsciiLowercase trimmed)

def isSupportedAlgorithm (algo : Text) : Bool :=
  let lower := toAsciiLowercase (trim algo.bytes)
  [ascii "zstd", ascii "br", ascii "brotli", ascii "gzip"].contains lower

def minLengthInRange (minLength : Nat) : Bool := 20 ≤ minLength && minLength ≤ 10485760

def checkLevel (field : String) (level high : Nat) : Except Bytes Unit :=
  if 1 ≤ level && level ≤ high then .ok ()
  else .error (ascii field ++ ascii " " ++ decimal level ++ ascii " must be 1..=" ++ decimal high)

def checkAlgorithms (before after : Bytes) : List Text → Except Bytes Unit
  | [] => .ok ()
  | algo :: algos =>
    if isSupportedAlgorithm algo then checkAlgorithms before after algos
    else .error (quoted before algo.bytes after)

def RouteCompressionOverride.validate (route : RouteCompressionOverride) : Except Bytes Unit :=
  if !(ascii "/").isPrefixOf route.pathPrefix.bytes then
    .error (quoted (ascii "route override path_prefix ") route.pathPrefix.bytes
      (ascii " must start with '/'"))
  else
    match route.minLength.filter fun ml => !minLengthInRange ml with
    | some ml =>
      .error (ascii "route min_length " ++ decimal ml ++ ascii " out of range (20..=10485760)")
    | none =>
      match route.preferAlgorithms with
      | some algos => checkAlgorithms (ascii "unsupported algorithm in route override: ") [] algos
      | none => .ok ()

def ResponseCompressionConfig.validate (config : ResponseCompressionConfig) :
    Except Bytes Unit := do
  if !minLengthInRange config.minLength then
    .error (ascii "min_length " ++ decimal config.minLength ++
      ascii " is out of range (must be 20 to 10485760 bytes)")
  checkLevel "zstd_level" config.zstdLevel 19
  checkLevel "brotli_level" config.brotliLevel 11
  checkLevel "gzip_level" config.gzipLevel 9
  if config.preferAlgorithms.isEmpty then
    .error (ascii "prefer_algorithms cannot be empty")
  checkAlgorithms (ascii "unsupported compression algorithm ")
    (ascii " (allowed: zstd, br, gzip)") config.preferAlgorithms
  if 64 < config.types.length then
    .error (ascii "MIME types count " ++ decimal config.types.length ++
      ascii " exceeds maximum 64")
  for mime in config.types do
    let _ ← validateMimeType mime.bytes
  for route in config.routesOverride do
    route.validate

def ResponseCompressionConfig.sanitizedTypes (config : ResponseCompressionConfig) :
    List Bytes :=
  config.types.foldl
    (fun result raw =>
      match validateMimeType raw.bytes with
      | .ok clean => if result.contains clean then result else result ++ [clean]
      | .error _ => result) []

def gzipConfig : ResponseCompressionConfig where
  enabled := true
  minLength := 20
  preferAlgorithms := [⟨ascii "gzip", by decide⟩]
  zstdLevel := 3
  brotliLevel := 4
  gzipLevel := 6
  types := [⟨ascii "text/plain", by decide⟩]
  routesOverride := []

end AuroraGateway.ResponseCompression
