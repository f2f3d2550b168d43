import AuroraGateway.ControlPlane.SpecScheduler
import AuroraGateway.Foundation.Networks
import AuroraGateway.Foundation.Patterns

/-!
# Admission of L4 services

The handlers of creation and of update make the same checks and fill in the same
defaults.
-/

namespace AuroraGateway.ControlPlane

open ControlWorker Foundation

/-! ## Requests -/

structure AclRuleRequest where
  cidr : Text
  action : Text
  priority : Option Int
  description : Text

structure AclRule where
  cidr : Text
  action : Text
  priority : Int
  description : Text

structure L4ServiceRequest where
  name : Text
  protocol : Text
  listenPort : Int
  forwardTargetType : Text
  upstreamName : Text
  directEndpoint : Text
  aclRulesJson : Text
  proxyTimeout : Text
  proxyConnectTimeout : Text
  enabled : Option Bool

structure L4Library where
  toLower : Text → Text
  unmarshalRules : Bytes → Option (List AclRuleRequest)
  marshalRules : List AclRule → Text
  sortByPriority : List AclRule → List AclRule
  parsePrefix : Bytes → Option IpNet
  /-- An address without its zone. -/
  parseAddr : Bytes → Option IpAddr
  prefixText : IpNet → Text
  splitHostPort : Bytes → Option (Bytes × Bytes)

inductive L4RequestError where
  | invalidAclJson
  | tooManyRules
  | invalidAction (action : Text)
  | invalidPriority
  | duplicatePriority (priority : Int)
  | invalidCidr
  | emptyName
  | invalidPort
  | reservedPort
  | invalidEndpoint
  | targetRequired
  | upstreamNotFound
  | portConflict
  | invalidTimeout

/-! ## Access lists -/

section Admission

variable (lib : L4Library)

def maxL4AclRules : Nat := 256

def maxL4AclRulePriority : Int := 1000000

def validAclPriority (priority : Option Int) : Option Int :=
  priority.filter fun p => decide (1 ≤ p) && decide (p ≤ maxL4AclRulePriority)

def parseCidr (cidr : Bytes) : Option IpNet :=
  ((lib.parsePrefix cidr).or ((lib.parseAddr cidr).map IpNet.host)).filter fun net =>
    !net.is4In6

def normalizeRule (seen : List Int) (rule : AclRuleRequest) : Except L4RequestError AclRule := do
  let action := lib.toLower rule.action.trim
  refuseIf (action.bytes != ascii "allow" && action.bytes != ascii "deny")
    (.invalidAction rule.action)
  match validAclPriority rule.priority with
  | none => .error .invalidPriority
  | some priority => do
      refuseIf (seen.contains priority) (.duplicatePriority priority)
      match parseCidr lib rule.cidr.trim.bytes with
      | none => .error .invalidCidr
      | some net =>
        .ok ⟨lib.prefixText net.masked, action, priority, rule.description.trim⟩

def normalizeRules : List Int → List AclRuleRequest → Except L4RequestError (List AclRule)
  | _, [] => .ok []
  | seen, rule :: rest => do
      let normalized ← normalizeRule lib seen rule
      let others ← normalizeRules (normalized.priority :: seen) rest
      .ok (normalized :: others)

/-- The stored text of an access list; the rule with the largest priority comes first. -/
def normalizeL4Acl (aclJson : Bytes) : Except L4RequestError Text :=
  match lib.unmarshalRules aclJson with
  | none => .error .invalidAclJson
  | some rules => do
      refuseIf (maxL4AclRules < rules.length) .tooManyRules
      let normalized ← normalizeRules lib [] rules
      .ok (lib.marshalRules (lib.sortByPriority normalized))

/-! ## Services -/

def digit : Pattern := .one isAsciiDigit

def timeUnit : Pattern :=
  .alt (.literal (ascii "ms")) (.oneOf "smhdwMy")

def nginxTimeoutLiteral : Pattern :=
  .alt (.oneOf "0") (.plus (.seq (.oneOf "123456789") (.seq (.many digit) timeUnit)))

def isReservedL4TcpPort (protocol : Text) (port : Int) : Bool :=
  protocol.bytes == ascii "tcp" && [80, 443, 9081].contains port

def normalizeProtocol (protocol : Text) : Text :=
  if (lib.toLower protocol.trim).bytes = ascii "udp" then .ofAscii "udp" else .ofAscii "tcp"

def endpointType : Text := .ofAscii "endpoint"

def normalizeTargetType (targetType : Text) : Text :=
  if (lib.toLower targetType.trim).bytes = ascii "endpoint" then endpointType else upstreamType

def validPort (digits : Bytes) : Bool :=
  (parseI64 digits).any fun port => 1 ≤ port && port ≤ 65535

def validEndpoint (endpoint : Bytes) : Bool :=
  (lib.splitHostPort endpoint).any fun (host, port) => !host.isEmpty && validPort port

def validateTarget (upstreams : List Text) (targetType upstreamName directEndpoint : Text) :
    Except L4RequestError Unit :=
  if targetType = endpointType then
    refuseIf (!validEndpoint lib directEndpoint.bytes) .invalidEndpoint
  else if upstreamName.bytes.isEmpty then .error .targetRequired
  else refuseIf (!upstreams.contains upstreamName) .upstreamNotFound

def orDefault (text : Text) (default : String) : Text :=
  if text.trim.bytes.isEmpty then .ofAscii default else text.trim

def validateTimeout (timeout : Text) : Except L4RequestError Unit :=
  refuseIf (!nginxTimeoutLiteral.accepts timeout.bytes) .invalidTimeout

/-- The row of a service; `taken` says which ports other services listen to. -/
def acceptL4Service (upstreams : List Text) (taken : Text → Int → Bool)
    (req : L4ServiceRequest) : Except L4RequestError SpecL4ServiceRecord := do
  refuseIf req.name.trim.bytes.isEmpty .emptyName
  refuseIf (req.listenPort < 1 || 65535 < req.listenPort) .invalidPort
  refuseIf (isReservedL4TcpPort (normalizeProtocol lib req.protocol) req.listenPort)
    .reservedPort
  validateTarget lib upstreams (normalizeTargetType lib req.forwardTargetType)
    req.upstreamName.trim req.directEndpoint.trim
  let aclRulesJson ← normalizeL4Acl lib (orDefault req.aclRulesJson "[]").bytes
  refuseIf (taken (normalizeProtocol lib req.protocol) req.listenPort) .portConflict
  validateTimeout (orDefault req.proxyTimeout "1h")
  validateTimeout (orDefault req.proxyConnectTimeout "5s")
  .ok
    { name := req.name.trim
      protocol := normalizeProtocol lib req.protocol
      listenPort := req.listenPort
      forwardTargetType := normalizeTargetType lib req.forwardTargetType
      upstreamName := req.upstreamName.trim
      directEndpoint := req.directEndpoint.trim
      aclRulesJson
      proxyTimeout := orDefault req.proxyTimeout "1h"
      proxyConnectTimeout := orDefault req.proxyConnectTimeout "5s"
      enabled := req.enabled.getD true }

end Admission

end AuroraGateway.ControlPlane
