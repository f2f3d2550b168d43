import AuroraGateway.Ffi.Access

/-!
# Requests and responses of the host

The adapter fills in the inputs of the phases from the structures of the host.
-/

namespace AuroraGateway.Nginx

open Access (Surroundings)
open Ffi Foundation

variable {F : Type}

/-! ## Requests -/

structure Request where
  methodName : Bytes
  /-- The host that the client asks for; empty if it names none. -/
  server : Bytes
  /-- The name of the server block that takes the request. -/
  serverName : Bytes
  unparsedUri : Bytes
  uri : Bytes
  args : Bytes

namespace Request

def origPath (r : Request) : Bytes :=
  if r.unparsedUri.head? = some 47 then r.unparsedUri.takeWhile fun byte => byte != 63
  else r.uri

structure Arrival (F : Type) where
  addrText : Bytes
  contentLengthN : Int
  headerLength : Nat
  randomSeed : Nat
  nowMs : UInt64
  alloc : Nat → Bool
  outcome : AuroraAccessOutcome
  world : Surroundings F
  clockSec : Nat
  pointer : Fin 8 → UInt8

def accessInput (r : Request) (arrival : Arrival F) : AuroraAccessInput where
  clientIp := arrival.addrText
  host := if r.server.isEmpty then r.serverName else r.server
  path := r.origPath
  method := r.methodName
  query := r.args
  contentLength := arrival.contentLengthN.toNat
  headerLength := arrival.headerLength
  randomSeed := arrival.randomSeed
  nowMs := arrival.nowMs.toNat

end Request

/-! ## Responses -/

structure TableElt where
  hash : Nat
  key : Bytes
  value : Bytes
  deriving DecidableEq

structure HeadersOut where
  status : Nat
  contentType : Bytes
  /-- Not positive if the length is not known. -/
  contentLengthN : Int
  headers : List TableElt

namespace HeadersOut

/-- The last header of that name counts; a header with hash 0 has been taken out. -/
def value (out : HeadersOut) (name : Bytes) : Bytes :=
  out.headers.foldl (fun current header =>
    if header.hash ≠ 0 ∧ eqIgnoreAsciiCase header.key name then header.value else current) []

end HeadersOut

def cacheStoreInput (r : Request) (origPath : Bytes) (out : HeadersOut) (body : Bytes) :
    AuroraCacheStoreInput where
  method := r.methodName
  host := if r.server.isEmpty then ascii "localhost" else r.server
  path := if origPath.isEmpty then r.uri else origPath
  query := r.args
  status := out.status
  contentType := out.contentType
  body
  cacheControl := out.value (ascii "cache-control")
  etag := out.value (ascii "etag")

end AuroraGateway.Nginx
