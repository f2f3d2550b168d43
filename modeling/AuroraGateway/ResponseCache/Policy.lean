import AuroraGateway.Foundation.Utf8

/-!
# Policy of the response cache
-/

namespace AuroraGateway.ResponseCache

open Foundation

structure RouteCacheOverride where
  pathPrefix : Text
  enabled : Option Bool
  ttlSecs : Option Nat
  cacheKeyHeaders : Option (List Text)
  deriving DecidableEq

structure ResponseCacheConfig where
  enabled : Bool
  defaultTtlSecs : Nat
  maxMemoryMb : Nat
  maxBodyBytes : Nat
  allowedMethods : List Text
  allowedStatusCodes : List Nat
  cacheKeyQueryParams : Option (List Text)
  cacheKeyHeaders : Option (List Text)
  eagerCompression : Bool
  routesOverride : List RouteCacheOverride
  deriving DecidableEq

namespace ResponseCacheConfig

def default : ResponseCacheConfig where
  enabled := true
  defaultTtlSecs := 300
  maxMemoryMb := 256
  maxBodyBytes := 10 * 1024 * 1024
  allowedMethods := [⟨ascii "GET", by decide⟩, ⟨ascii "HEAD", by decide⟩]
  allowedStatusCodes := [200, 203, 300, 301, 302, 307, 308, 404]
  cacheKeyQueryParams := none
  cacheKeyHeaders := none
  eagerCompression := false
  routesOverride := []

variable (config : ResponseCacheConfig)

def sanitize : ResponseCacheConfig :=
  { config with
    maxMemoryMb := if config.maxMemoryMb < 4 then 4 else config.maxMemoryMb
    defaultTtlSecs := if config.defaultTtlSecs = 0 then 60 else config.defaultTtlSecs
    maxBodyBytes := if config.maxBodyBytes = 0 then 1024 * 1024 else config.maxBodyBytes }

def isMethodCacheable (method : Bytes) : Bool :=
  config.allowedMethods.any fun m => eqIgnoreAsciiCase m.bytes method

def isStatusCacheable (status : Nat) : Bool :=
  config.allowedStatusCodes.contains status

end ResponseCacheConfig

end AuroraGateway.ResponseCache
