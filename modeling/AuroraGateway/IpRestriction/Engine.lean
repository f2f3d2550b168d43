import AuroraGateway.Engine.Policy
import AuroraGateway.Foundation.IpAddr
import AuroraGateway.Foundation.MachineInt

/-!
# The IP restriction engine

Evaluation of a request against the compiled rules.  The rules are in the order
of their precedence, and the first rule that matches decides.
-/

namespace AuroraGateway.IpRestriction

open Engine Foundation

/-! ## Client addresses -/

inductive ParsedIp where
  | v4 (addr : BitVec 32)
  | v6 (addr : BitVec 128)
  deriving DecidableEq, Repr

/-- One pass over the bytes: the octets so far, the octet that is being read, and
the number of its digits. -/
def parseIpv4Loop : Bytes → List Nat → Nat → Nat → Option (BitVec 32)
  | [], octets, val, digits =>
    if digits = 0 ∨ 3 < digits ∨ 255 < val ∨ octets.length ≠ 3 then none
    else some (BitVec.ofNat 32 ((octets ++ [val]).foldl (fun n octet => 256 * n + octet) 0))
  | byte :: rest, octets, val, digits =>
    if byte = 46 then
      if digits = 0 ∨ 3 < digits ∨ 255 < val ∨ 3 ≤ octets.length then none
      else parseIpv4Loop rest (octets ++ [val]) 0 0
    else if isAsciiDigit byte then
      parseIpv4Loop rest octets (wrapU32 (val * 10 + (byte.toNat - 48))) (digits + 1)
    else none

def parseIpv4U32 (bytes : Bytes) : Option (BitVec 32) :=
  if bytes.length < 7 || 15 < bytes.length then none else parseIpv4Loop bytes [] 0 0

def parseClientIp (bytes : Bytes) : Option ParsedIp :=
  match parseIpv4U32 bytes with
  | some v4 => some (.v4 v4)
  | none =>
    if validUtf8 bytes then
      match IpAddr.fromStr bytes with
      | some (.v4 v4) => some (.v4 v4)
      | some (.v6 v6) =>
        match IpAddr.toIpv4Mapped v6 with
        | some mapped => some (.v4 mapped)
        | none => some (.v6 v6)
      | none => none
    else none

/-! ## Rules -/

def methodAll : BitVec 16 := 0xFFFF

def methodToMask (method : Bytes) : BitVec 16 :=
  if method = ascii "*" then methodAll else methodBit 0 method

structure FlatIpRule (w : Nat) where
  mask : BitVec w
  network : BitVec w
  prefixLen : Nat
  priority : Nat
  isBlock : Bool
  ruleId : Nat
  methodMask : BitVec 16
  host : HostMatcher
  pathPrefix : Bytes
  log : Bool

abbrev FlatIpv4Rule := FlatIpRule 32

abbrev FlatIpv6Rule := FlatIpRule 128

def FlatIpRule.matches {w : Nat} (rule : FlatIpRule w) (ip : BitVec w)
    (reqMethodMask : BitVec 16) (host path : Bytes) : Bool :=
  (ip &&& rule.mask) == rule.network && (rule.methodMask &&& reqMethodMask) != 0 &&
    rule.host.matches host && matchesPath rule.pathPrefix path

/-! ## Evaluation -/

structure IpRestrictionEngine where
  generation : Nat
  rulesV4 : List FlatIpv4Rule
  rulesV6 : List FlatIpv6Rule
  isWhitelistStrict : Bool

structure IpRestrictionRequest where
  ip : Bytes
  host : Bytes
  path : Bytes
  method : Bytes

namespace IpRestrictionEngine

def invalidRequest (q : IpRestrictionRequest) : Bool :=
  q.path.isEmpty || maxPathBytes < q.path.length || q.path.head? != some slash ||
    253 < q.host.length || 16 < q.method.length

variable (engine : IpRestrictionEngine)

def decisionOf {w : Nat} (rule : Option (FlatIpRule w)) : Decision :=
  match rule with
  | some rule =>
    { generation := engine.generation
      ruleId := rule.ruleId
      action := if rule.isBlock then 1 else 0
      score := 0
      logMatches := if rule.log then 1 else 0
      reserved := 0 }
  | none =>
    { generation := engine.generation
      ruleId := 0
      action := if engine.isWhitelistStrict then 1 else 0
      score := 0
      logMatches := 0
      reserved := 0 }

def evaluate (q : IpRestrictionRequest) : Except Error Decision :=
  if invalidRequest q then .error .invalidRequest
  else
    let reqMethodMask := methodToMask q.method
    match parseClientIp q.ip with
    | none => .error .invalidRequest
    | some (.v4 ip) =>
      .ok (engine.decisionOf
        (engine.rulesV4.find? fun rule => rule.matches ip reqMethodMask q.host q.path))
    | some (.v6 ip) =>
      .ok (engine.decisionOf
        (engine.rulesV6.find? fun rule => rule.matches ip reqMethodMask q.host q.path))

def evaluateCtx (ctx : RequestContext) : Except Error Decision :=
  engine.evaluate ⟨ctx.clientIp, ctx.host, ctx.path, ctx.method⟩

theorem evaluateCtx_isError_iff (ctx : RequestContext) :
    (∃ err, engine.evaluateCtx ctx = .error err) ↔
      invalidRequest ⟨ctx.clientIp, ctx.host, ctx.path, ctx.method⟩ = true ∨
        parseClientIp ctx.clientIp = none := by
  unfold evaluateCtx evaluate
  split
  · rename_i hinvalid
    exact ⟨fun _ => .inl hinvalid, fun _ => ⟨_, rfl⟩⟩
  · rename_i hvalid
    cases hip : parseClientIp ctx.clientIp with
    | none => exact ⟨fun _ => .inr rfl, fun _ => ⟨_, rfl⟩⟩
    | some ip =>
      cases ip with
      | v4 addr => simp [hvalid]
      | v6 addr => simp [hvalid]

end IpRestrictionEngine

end AuroraGateway.IpRestriction
