import AuroraGateway.Foundation.Bytes

/-!
# Requests, decisions and host patterns

The vocabulary that the engines share: the borrowed view of a request, the
outcome of the access phase, and the matching of host patterns.
-/

namespace AuroraGateway.Engine

open Foundation

def maxPathBytes : Nat := 8192

/-! ## Methods -/

def methodGet : BitVec 16 := 1 <<< 0
def methodHead : BitVec 16 := 1 <<< 1
def methodPost : BitVec 16 := 1 <<< 2
def methodPut : BitVec 16 := 1 <<< 3
def methodDelete : BitVec 16 := 1 <<< 4
def methodConnect : BitVec 16 := 1 <<< 5
def methodOptions : BitVec 16 := 1 <<< 6
def methodTrace : BitVec 16 := 1 <<< 7
def methodPatch : BitVec 16 := 1 <<< 8

/-- The bit of a method, in any case; `other` is the mask of an unknown method. -/
def methodBit (other : BitVec 16) (method : Bytes) : BitVec 16 :=
  if eqIgnoreAsciiCase method (ascii "GET") then methodGet
  else if eqIgnoreAsciiCase method (ascii "POST") then methodPost
  else if eqIgnoreAsciiCase method (ascii "PUT") then methodPut
  else if eqIgnoreAsciiCase method (ascii "DELETE") then methodDelete
  else if eqIgnoreAsciiCase method (ascii "HEAD") then methodHead
  else if eqIgnoreAsciiCase method (ascii "OPTIONS") then methodOptions
  else if eqIgnoreAsciiCase method (ascii "PATCH") then methodPatch
  else if eqIgnoreAsciiCase method (ascii "CONNECT") then methodConnect
  else if eqIgnoreAsciiCase method (ascii "TRACE") then methodTrace
  else other

/-! ## Requests -/

inductive Error where
  | invalidPolicy
  | invalidRequest
  deriving DecidableEq, Repr

structure RequestContext where
  clientIp : Bytes
  host : Bytes
  path : Bytes
  method : Bytes
  query : Bytes
  contentLength : Nat
  headerLength : Nat
  randomSeed : Nat
  nowMs : Nat
  deriving DecidableEq, Repr

structure Decision where
  generation : Nat
  ruleId : Nat
  action : Nat
  score : Nat
  logMatches : Nat
  reserved : Nat
  deriving DecidableEq, Repr

structure ConnectionToken where
  isRedis : Bool
  ruleId : Bytes
  identifier : Bytes
  deriving DecidableEq, Repr

inductive AccessDecision where
  | allow (forwardedHeaders : Option (List (Bytes × Bytes)))
      (targetUpstream : Option Bytes) (rateLimitBytesPerSec : Nat)
      (connToken : Option ConnectionToken)
  | deny (status : Nat) (wwwAuthenticate : Bool) (contentType : Option Bytes)
      (body : Option Bytes)
  deriving DecidableEq, Repr

structure AccessDenial where
  status : Nat
  wwwAuthenticate : Bool
  contentType : Option Bytes
  body : Option Bytes
  deriving DecidableEq, Repr

def AccessDenial.toDecision (denial : AccessDenial) : AccessDecision :=
  .deny denial.status denial.wwwAuthenticate denial.contentType denial.body

def hostSpecificity (host : Bytes) : Nat :=
  if host = ascii "*" then 2
  else if (ascii "*.").isPrefixOf host then 1
  else 0

def hostMatches (scopeHost reqHost : Bytes) : Bool :=
  if scopeHost = ascii "*" then true
  else
    match stripPrefix? (ascii "*.") scopeHost with
    | some rest =>
      if eqIgnoreAsciiCase reqHost rest then true
      else
        let dotSuffix := scopeHost.drop 1
        dotSuffix.length < reqHost.length &&
          eqIgnoreAsciiCase (reqHost.drop (reqHost.length - dotSuffix.length))
            dotSuffix
    | none => eqIgnoreAsciiCase scopeHost reqHost

end AuroraGateway.Engine
