import AuroraGateway.Foundation.Json
import AuroraGateway.Foundation.Utf8

/-!
# The specification of a node

The control plane compiles the configuration of a cluster into one document;
the control worker of a node turns it into policies and files.  A text or a
number that the document leaves out when it is empty or zero is optional here.
-/

namespace AuroraGateway.ControlWorker

open Foundation

structure ExtensionInstanceSpec where
  instanceId : Text
  key : Text
  version : Nat
  renderer : Text
  manifestDigest : Text
  configJson : Text

/-! ## Routes -/

structure OriginTlsSpec where
  enabled : Bool
  verifyCert : Bool
  sniHost : Text
  caCert : Text
  mtls : Bool
  clientCert : Text
  clientKey : Text

structure LocationRoutingSpec where
  path : Text
  upstream : Text
  stripPath : Bool
  websocket : Bool
  priority : Int
  pluginsJson : Option Text
  originTls : Option OriginTlsSpec

structure DomainRoutingSpec where
  host : Text
  locations : List LocationRoutingSpec

structure RoutingSpec where
  domains : List DomainRoutingSpec

/-! ## Upstreams, certificates and streams -/

structure UpstreamServerSpec where
  addr : Text
  weight : Nat

structure UpstreamSpec where
  name : Text
  servers : List UpstreamServerSpec

structure CertificateSpec where
  id : Text
  name : Text
  snis : List Text
  certPem : Text
  keyPem : Text
  mtlsEnabled : Bool
  clientCaPem : Text
  verifyDepth : Option Int

structure L4ServerSpec where
  addr : Text
  weight : Option Int
  maxFails : Option Int
  failTimeout : Option Text
  backup : Bool

structure L4UpstreamSpec where
  name : Text
  protocol : Text
  algorithm : Text
  servers : List L4ServerSpec

structure L4AclRuleSpec where
  cidr : Text
  action : Text
  priority : Nat

structure L4ServiceSpec where
  name : Text
  protocol : Text
  listenPort : Int
  forwardTargetType : Option Text
  upstream : Text
  endpoint : Option Text
  acl : List L4AclRuleSpec
  proxyTimeout : Option Text
  proxyConnectTimeout : Option Text
  enabled : Bool

structure L4Spec where
  upstreams : List L4UpstreamSpec
  services : List L4ServiceSpec

/-! ## The document -/

structure Spec where
  version : Nat
  releaseId : Nat
  generatedAt : Text
  extensions : List ExtensionInstanceSpec
  upstreams : List UpstreamSpec
  upstreamsConf : Option Text
  routing : RoutingSpec
  routingConf : Option Text
  certificates : List CertificateSpec
  l4 : Option L4Spec

end AuroraGateway.ControlWorker
