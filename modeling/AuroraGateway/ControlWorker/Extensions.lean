import AuroraGateway.ControlWorker.Spec
import AuroraGateway.Ffi.Lifecycle

/-!
# Rendering of the extensions

The instances of a specification are turned into policies for the slots of the
shared memory and into directives of NGINX.
-/

namespace AuroraGateway.ControlWorker

open Ffi Foundation

structure JsonCodec where
  fromSlice : Bytes → Option Json
  toVec : Json → Bytes
  masksToVec : RouteMaskSnapshot → Bytes

/-! ## Slots -/

structure RenderedExtensions where
  modulesConf : Bytes
  httpConf : Bytes
  serverConf : Bytes
  shmSlots : List (Nat × Bytes)

def getShmSlot (shmSlots : List (Nat × Bytes)) (slotId : Nat) : Option Bytes :=
  (shmSlots.find? fun slot => slot.1 = slotId).map Prod.snd

def RenderedExtensions.getShmSlot (rendered : RenderedExtensions) (slotId : Nat) :
    Option Bytes :=
  ControlWorker.getShmSlot rendered.shmSlots slotId

def lookupName (names : List (Bytes × Nat)) (name : Bytes) : Option Nat :=
  (names.find? fun entry => entry.1 = name).map Prod.snd

def resolveDataplaneShmSlot : Bytes → Option Nat :=
  lookupName
    [ (ascii "ip-restriction", auroraExtIpRestriction),
      (ascii "engine-jwt-rs256", auroraExtJwt),
      (ascii "rate-limit", auroraExtRateLimit),
      (ascii "connection-limit", auroraExtConnLimit),
      (ascii "traffic-shaper", auroraExtTrafficShaper),
      (ascii "resource-limit", auroraExtResourceLimit),
      (ascii "traffic-split", auroraExtTrafficSplit),
      (ascii "canary-release", auroraExtCanaryRelease),
      (ascii "blue-green", auroraExtBlueGreen),
      (ascii "request-mirror", auroraExtRequestMirror),
      (ascii "request-termination", auroraExtRequestTermination),
      (ascii "response-compression", auroraExtResponseCompression),
      (ascii "compression-gzip", auroraExtResponseCompression),
      (ascii "response-cache", auroraExtResponseCache) ]

def resolveExtensionKeySlot (key : Bytes) : Option Nat :=
  let clean := ((trim key).dropPrefix? (ascii "builtin/")).getD (trim key)
  lookupName
    [ (ascii "ip-restriction", auroraExtIpRestriction),
      (ascii "ip_restriction", auroraExtIpRestriction),
      (ascii "jwt-authentication", auroraExtJwt),
      (ascii "jwt_authentication", auroraExtJwt),
      (ascii "engine-jwt-rs256", auroraExtJwt),
      (ascii "jwt", auroraExtJwt),
      (ascii "rate-limit", auroraExtRateLimit),
      (ascii "rate_limit", auroraExtRateLimit),
      (ascii "connection-limit", auroraExtConnLimit),
      (ascii "connection_limit", auroraExtConnLimit),
      (ascii "traffic-shaper", auroraExtTrafficShaper),
      (ascii "traffic_shaper", auroraExtTrafficShaper),
      (ascii "resource-limit", auroraExtResourceLimit),
      (ascii "resource_limit", auroraExtResourceLimit),
      (ascii "traffic-split", auroraExtTrafficSplit),
      (ascii "traffic_split", auroraExtTrafficSplit),
      (ascii "canary-release", auroraExtCanaryRelease),
      (ascii "canary_release", auroraExtCanaryRelease),
      (ascii "blue-green", auroraExtBlueGreen),
      (ascii "blue_green", auroraExtBlueGreen),
      (ascii "request-mirror", auroraExtRequestMirror),
      (ascii "request_mirror", auroraExtRequestMirror),
      (ascii "request-termination", auroraExtRequestTermination),
      (ascii "request_termination", auroraExtRequestTermination),
      (ascii "response-compression", auroraExtResponseCompression),
      (ascii "response_compression", auroraExtResponseCompression),
      (ascii "compression-gzip", auroraExtResponseCompression),
      (ascii "response-cache", auroraExtResponseCache),
      (ascii "response_cache", auroraExtResponseCache) ] clean

/-! ## Directives -/

inductive NginxRenderer where
  | prometheus
  | opentelemetryMetrics
  | opentelemetryLogs
  | opentelemetryTracing
  | stdLog
  | correlationId
  | cors
  | requestHeaderTransform
  | responseHeaderTransform
  | uriRewrite
  | responseBuffering
  | timeoutPolicy
  | maintenance
  deriving DecidableEq

def resolveNginxRenderer (renderer : Bytes) : Option NginxRenderer :=
  (([ (ascii "agent-metrics", .prometheus), (ascii "prometheus", .prometheus),
      (ascii "opentelemetry-metrics", .opentelemetryMetrics),
      (ascii "opentelemetry-logs", .opentelemetryLogs),
      (ascii "opentelemetry-tracing", .opentelemetryTracing),
      (ascii "std-log", .stdLog), (ascii "correlation-id", .correlationId),
      (ascii "cors", .cors),
      (ascii "request-header-transform", .requestHeaderTransform),
      (ascii "response-header-transform", .responseHeaderTransform),
      (ascii "uri-rewrite", .uriRewrite), (ascii "response-buffering", .responseBuffering),
      (ascii "timeout-policy", .timeoutPolicy), (ascii "maintenance", .maintenance) ] :
      List (Bytes × NginxRenderer)).find? fun entry => entry.1 = renderer).map Prod.snd

namespace NginxRenderer

/-- A second instance is refused here; the exporter of the metrics counts its own. -/
def single : NginxRenderer → Bool
  | .opentelemetryMetrics | .opentelemetryLogs | .opentelemetryTracing | .stdLog => true
  | _ => false

def silent : NginxRenderer → Bool
  | .opentelemetryMetrics | .opentelemetryLogs | .opentelemetryTracing | .uriRewrite => true
  | _ => false

end NginxRenderer

structure Directives where
  http : Bytes
  ingressServer : Bytes
  regularServer : Bytes
  hasHttp : Bool
  hasServer : Bool
  metricsInstances : Nat

inductive RenderError where
  | emptyRenderer (instanceId : Text)
  | duplicate (renderer : Text)
  | decodeConfig (instanceId : Text)
  | configNotObject (instanceId : Text)
  | unsupportedRenderer (instanceId renderer : Text)
  | materialize (message : Bytes)

abbrev Materializers :=
  NginxRenderer → Text → List (Bytes × Json) → Directives → Except Bytes Directives

structure Rendering where
  directives : Directives
  shmSlots : List (Nat × Bytes)
  counts : NginxRenderer → Nat

section Render

variable (codec : JsonCodec) (materializers : Materializers) (inst : ExtensionInstanceSpec)

def decodeConfig : Except RenderError (List (Bytes × Json)) :=
  match codec.fromSlice inst.configJson.bytes with
  | none => .error (.decodeConfig inst.instanceId)
  | some (.object config) => .ok config
  | some _ => .error (.configNotObject inst.instanceId)

def renderSlot (slotId : Nat) (state : Rendering) : Except RenderError Rendering :=
  if state.shmSlots.any fun slot => slot.1 = slotId then .error (.duplicate inst.renderer)
  else
    (decodeConfig codec inst).map fun _ =>
      { state with shmSlots := state.shmSlots ++ [(slotId, inst.configJson.bytes)] }

def renderDirectives (state : Rendering) : Except RenderError Rendering := do
  let config ← decodeConfig codec inst
  match resolveNginxRenderer inst.renderer.bytes with
  | none => .error (.unsupportedRenderer inst.instanceId inst.renderer)
  | some renderer =>
    let counts := Function.update state.counts renderer (state.counts renderer + 1)
    if renderer.single ∧ 1 < counts renderer then .error (.duplicate inst.renderer)
    else if renderer.silent then .ok { state with counts }
    else
      match materializers renderer inst.instanceId config state.directives with
      | .error message => .error (.materialize message)
      | .ok directives => .ok { state with directives, counts }

def renderInstance (state : Rendering) (inst : ExtensionInstanceSpec) :
    Except RenderError Rendering :=
  if (trim inst.renderer.bytes).isEmpty then .error (.emptyRenderer inst.instanceId)
  else
    match resolveDataplaneShmSlot inst.renderer.bytes with
    | some slotId => renderSlot codec inst slotId state
    | none => renderDirectives codec materializers inst state

def Rendering.start : Rendering where
  directives :=
    { http := ascii
        "# Generated by Aurora Control Worker for HTTP-level extension directives\n"
      ingressServer := []
      regularServer := []
      hasHttp := false
      hasServer := false
      metricsInstances := 0 }
  shmSlots := []
  counts := fun _ => 0

def Rendering.finish (state : Rendering) : RenderedExtensions where
  modulesConf := ascii "# Generated by Aurora Control Worker for dynamic extension modules\n" ++
    ascii "# No dynamic modules loaded\n"
  httpConf := state.directives.http ++
    if state.directives.hasHttp then []
    else ascii "# No active HTTP-level extension directives\n"
  serverConf := ascii "# Generated by Aurora Control Worker for active extensions\n" ++
    state.directives.ingressServer ++ state.directives.regularServer ++
    if state.directives.hasServer then []
    else ascii "# No active NGINX-level extension directives\n"
  shmSlots := state.shmSlots

def renderExtensions (instances : List ExtensionInstanceSpec) :
    Except RenderError RenderedExtensions :=
  (instances.foldlM (renderInstance codec materializers) .start).map Rendering.finish

end Render

end AuroraGateway.ControlWorker
