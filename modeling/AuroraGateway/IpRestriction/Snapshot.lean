import AuroraGateway.Foundation.Delimited
import AuroraGateway.Foundation.Results
import AuroraGateway.Foundation.StableSort
import AuroraGateway.IpRestriction.Engine

/-!
# Compilation of an IP restriction policy

A snapshot lists networks that are let in, networks that are kept out, and
configured rules.  All three become rules of one form, and a rule becomes one
flat rule for each of its networks.  The flat rules are sorted by priority,
length of the prefix and id.
-/

namespace AuroraGateway.IpRestriction

open Engine Foundation

/-! ## Snapshots -/

/-- The JSON value of an id; a number may be no unsigned integer. -/
inductive RuleIdInput where
  | number (asU64 : Option UInt64)
  | string (text : Text)
  | other

structure ConfiguredRule where
  id : RuleIdInput
  cidr : Text
  matchValue : Text
  action : Text
  priority : Option UInt32
  enabled : Option Bool
  networks : List Text
  pathPrefix : Option Text
  host : Text
  method : Text
  log : Bool

structure IpRestrictionSnapshot where
  schemaVersion : UInt32
  generation : UInt64
  whitelist : List Text
  blacklist : List Text
  rules : List ConfiguredRule

structure Environment where
  parseSnapshot : Bytes → Option IpRestrictionSnapshot
  defaultHash : Text → UInt64

def normalizeCidrString (s : Bytes) : Option Bytes :=
  let s := trim s
  if s.isEmpty then none
  else if s.contains slash then some s
  else if s.contains 58 then some (s ++ ascii "/128")
  else some (s ++ ascii "/32")

structure UnifiedRuleInput where
  id : Nat
  priority : Nat
  isBlock : Bool
  networks : List Bytes
  pathPrefix : Bytes
  host : Bytes
  method : Bytes
  log : Bool
  deriving DecidableEq

def declarativeRules (firstId priority : Nat) (isBlock : Bool) (cidrs : List Text) :
    List UnifiedRuleInput :=
  cidrs.zipIdx.filterMap fun (cidr, i) =>
    (normalizeCidrString cidr.bytes).map fun norm =>
      { id := firstId + i
        priority := priority
        isBlock := isBlock
        networks := [norm]
        pathPrefix := ascii "/"
        host := ascii "*"
        method := ascii "*"
        log := false }

variable (env : Environment)

def configuredId (i : Nat) (id : RuleIdInput) : Nat :=
  let id :=
    match id with
    | .number asU64 => (asU64.map UInt64.toNat).getD (30000 + i)
    | .string s => (parseU64 s.bytes).getD (env.defaultHash s).toNat
    | .other => 30000 + i
  if id = 0 then 30000 + i else id

def configuredNetworks (cfgRule : ConfiguredRule) : List Bytes :=
  if !cfgRule.networks.isEmpty then
    cfgRule.networks.filterMap fun net => normalizeCidrString net.bytes
  else if !cfgRule.cidr.bytes.isEmpty then (normalizeCidrString cfgRule.cidr.bytes).toList
  else []

def configuredPathPrefix (cfgRule : ConfiguredRule) : Bytes :=
  match cfgRule.pathPrefix with
  | some p => if p.bytes.isEmpty then ascii "/" else p.bytes
  | none =>
    if !cfgRule.matchValue.bytes.isEmpty then cfgRule.matchValue.bytes else ascii "/"

def configuredRule (cfgRule : ConfiguredRule) (i : Nat) : Option UnifiedRuleInput :=
  if cfgRule.enabled = some false then none
  else if (configuredNetworks cfgRule).isEmpty then none
  else
    some
      { id := configuredId env i cfgRule.id
        priority := (cfgRule.priority.map UInt32.toNat).getD (wrapU32 (100 + i))
        isBlock := cfgRule.action.bytes = ascii "block"
        networks := configuredNetworks cfgRule
        pathPrefix := configuredPathPrefix cfgRule
        host := cfgRule.host.bytes
        method := cfgRule.method.bytes
        log := cfgRule.log }

def unifiedInputs (snap : IpRestrictionSnapshot) : List UnifiedRuleInput :=
  declarativeRules 10000 10 false snap.whitelist ++
    declarativeRules 20000 20 true snap.blacklist ++
    snap.rules.zipIdx.filterMap fun (cfgRule, i) => configuredRule env cfgRule i

/-! ## Networks -/

def prefixToMask (w : Nat) (len : Nat) : BitVec w :=
  if len = 0 then 0
  else if w ≤ len then BitVec.allOnes w
  else ~~~(((1 : BitVec w) <<< (w - len)) - 1)

def prefixToIpv4Mask (len : Nat) : BitVec 32 := prefixToMask 32 len

def prefixToIpv6Mask (len : Nat) : BitVec 128 := prefixToMask 128 len

structure Cidr (w : Nat) where
  network : BitVec w
  mask : BitVec w
  prefixLen : Nat
  deriving DecidableEq

def Cidr.covers {w : Nat} (cidr : Cidr w) (ip : BitVec w) : Bool :=
  (ip &&& cidr.mask) == cidr.network

def parseIpv4Cidr (s : Bytes) : Option (Cidr 32) := do
  let (ipStr, prefixStr) := (splitOnce slash s).getD (s, ascii "32")
  let ip ← IpAddr.ipv4FromStr (trim ipStr)
  let len ← parseU8 (trim prefixStr)
  if 32 < len then none
  else some ⟨ip &&& prefixToIpv4Mask len, prefixToIpv4Mask len, len⟩

/-- Networks of mapped IPv4 addresses are refused. -/
def parseIpv6Cidr (s : Bytes) : Option (Cidr 128) := do
  let (ipStr, prefixStr) := (splitOnce slash s).getD (s, ascii "128")
  let ip ← IpAddr.ipv6FromStr (trim ipStr)
  if (IpAddr.toIpv4Mapped ip).isSome then none
  else
    let len ← parseU8 (trim prefixStr)
    if 128 < len then none
    else some ⟨ip &&& prefixToIpv6Mask len, prefixToIpv6Mask len, len⟩

inductive Network where
  | v4 (cidr : Cidr 32)
  | v6 (cidr : Cidr 128)
  deriving DecidableEq

def parseNetwork (s : Bytes) : Option Network :=
  match parseIpv4Cidr s with
  | some cidr => some (.v4 cidr)
  | none => (parseIpv6Cidr s).map .v6

def Network.asV4 : Network → Option (Cidr 32)
  | .v4 cidr => some cidr
  | .v6 _ => none

def Network.asV6 : Network → Option (Cidr 128)
  | .v4 _ => none
  | .v6 cidr => some cidr

/-! ## Compilation -/

def isPathPrefixByte (byte : UInt8) : Bool :=
  32 < byte && byte < 127 && !(ascii "%?#\\*").contains byte

def pathPrefixValid (pathPrefix : Bytes) : Bool :=
  (ascii "/").isPrefixOf pathPrefix && pathPrefix.length ≤ 8192 &&
    pathPrefix.all isPathPrefixByte && !decide (ascii "//" <:+: pathPrefix) &&
    !(pathPrefix.splitOn slash).any fun s => s == ascii "." || s == ascii ".."

def ruleValid (rule : UnifiedRuleInput) : Bool :=
  rule.id != 0 && !rule.networks.isEmpty && rule.networks.length ≤ 4096 &&
    rule.priority ≤ 1000000 && !rule.host.isEmpty && rule.host.length ≤ 253 &&
    pathPrefixValid rule.pathPrefix

def flatRule {w : Nat} (rule : UnifiedRuleInput) (host : HostMatcher) (cidr : Cidr w) :
    FlatIpRule w where
  mask := cidr.mask
  network := cidr.network
  prefixLen := cidr.prefixLen
  priority := rule.priority
  isBlock := rule.isBlock
  ruleId := rule.id
  methodMask := methodToMask rule.method
  host := host
  pathPrefix := rule.pathPrefix
  log := rule.log

def compileNetwork (s : Bytes) : Except Error Network :=
  match parseNetwork s with
  | some network => .ok network
  | none => .error .invalidPolicy

def compileRule (rule : UnifiedRuleInput) :
    Except Error (List FlatIpv4Rule × List FlatIpv6Rule) :=
  match HostMatcher.parse rule.host with
  | none => .error .invalidPolicy
  | some host =>
    if !ruleValid rule || methodToMask rule.method == 0 then .error .invalidPolicy
    else
      match rule.networks.mapM compileNetwork with
      | .error err => .error err
      | .ok networks =>
        .ok (networks.filterMap fun network => network.asV4.map (flatRule rule host),
          networks.filterMap fun network => network.asV6.map (flatRule rule host))

/-- A smaller priority comes first, then a longer prefix, then a smaller id. -/
abbrev FlatOrder := Nat ×ₗ Natᵒᵈ ×ₗ Nat

def flatOrder (priority prefixLen ruleId : Nat) : FlatOrder :=
  toLex (priority, toLex (OrderDual.toDual prefixLen, ruleId))

def FlatIpRule.order {w : Nat} (rule : FlatIpRule w) : FlatOrder :=
  flatOrder rule.priority rule.prefixLen rule.ruleId

def maxPolicyBytes : Nat := 65536

def compileSnapshot (snap : IpRestrictionSnapshot) : Except Error IpRestrictionEngine :=
  if snap.schemaVersion ≠ 1 ∨ 2 ^ 63 ≤ snap.generation.toNat then .error .invalidPolicy
  else
    let inputs := unifiedInputs env snap
    if 512 < inputs.length ∨ ¬(inputs.map UnifiedRuleInput.id).Nodup then
      .error .invalidPolicy
    else
      match inputs.mapM compileRule with
      | .error err => .error err
      | .ok compiled =>
        .ok
          { generation := snap.generation.toNat
            rulesV4 := sortByKey FlatIpRule.order (compiled.flatMap Prod.fst)
            rulesV6 := sortByKey FlatIpRule.order (compiled.flatMap Prod.snd)
            isWhitelistStrict :=
              (inputs.any fun rule => !rule.isBlock) && !inputs.any (·.isBlock) }

def IpRestrictionEngine.fromSnapshot (bytes : Bytes) : Except Error IpRestrictionEngine :=
  if bytes.isEmpty || maxPolicyBytes < bytes.length then .error .invalidPolicy
  else
    match env.parseSnapshot bytes with
    | none => .error .invalidPolicy
    | some snap => compileSnapshot env snap

end AuroraGateway.IpRestriction
