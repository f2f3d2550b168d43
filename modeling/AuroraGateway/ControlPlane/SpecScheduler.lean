import AuroraGateway.ControlWorker.Spec
import AuroraGateway.Engine.Policy
import AuroraGateway.Foundation.AsciiText
import AuroraGateway.Foundation.Results

/-!
# Compilation of the cluster configuration

The scheduler reads the configuration from the database and compiles it into
the document that the nodes fetch.
-/

namespace AuroraGateway.ControlPlane

open ControlWorker Foundation

/-! ## Authority data -/

structure SpecRoutingRecord where
  host : Text
  path : Text
  target : Text
  sslJson : Text
  stripPath : Bool
  websocket : Bool
  priority : Int
  pluginsJson : Text

structure SpecCertificateRecord where
  id : Text
  name : Text
  snisJson : Text
  certPem : Text
  keyPem : Text
  mtlsEnabled : Bool
  clientCaPem : Text
  verifyDepth : Int

structure SpecExtensionRecord where
  id : Text
  manifestKey : Text
  manifestVersion : Nat
  configJson : Text

structure SpecUnifiedUpstreamRecord where
  name : Text
  algorithm : Text
  serversJson : Text

structure SpecL4ServiceRecord where
  name : Text
  protocol : Text
  listenPort : Int
  forwardTargetType : Text
  upstreamName : Text
  directEndpoint : Text
  aclRulesJson : Text
  proxyTimeout : Text
  proxyConnectTimeout : Text
  enabled : Bool

structure SpecAuthorityData where
  upstreamsConf : Text
  routingRecords : List SpecRoutingRecord
  certificates : List SpecCertificateRecord
  extensions : List SpecExtensionRecord
  upstreamRecords : List SpecUnifiedUpstreamRecord
  l4Services : List SpecL4ServiceRecord

structure Manifest where
  renderer : Text

structure ServerRecord where
  address : Text
  weight : Int
  maxFails : Int
  failTimeout : Text
  backup : Bool

/-- The catalog of the extensions, the decoders of the texts, and `sort.Slice`, which does
not keep the order of equal elements. -/
structure Compiler where
  digest : Option Text
  find : Text → Nat → Option Manifest
  validateConfig : Manifest → Text → Option Text
  unmarshalOriginTls : Text → Option OriginTlsSpec
  unmarshalSnis : Text → Option (List Text)
  unmarshalServers : Text → Option (List ServerRecord)
  unmarshalAcl : Bytes → Option (List L4AclRuleSpec)
  sortByPriority : List L4AclRuleSpec → List L4AclRuleSpec
  marshalIndent : Spec → Option Bytes
  sha256Hex : Bytes → Bytes

inductive CompileError where
  | digest
  | unavailableManifest (id key : Text) (version : Nat)
  | invalidConfig (id : Text)
  | parseAcl (name : Text)
  | marshal

/-! ## Compilation -/

def omitEmpty (text : Text) : Option Text := if text.bytes.isEmpty then none else some text

def omitZero (n : Int) : Option Int := if n = 0 then none else some n

def pathOrRoot (path : Text) : Text :=
  if path.bytes.isEmpty then Engine.rootText else path

section Compile

variable (compiler : Compiler)

def compileLocation (d : SpecRoutingRecord) : LocationRoutingSpec where
  path := pathOrRoot d.path
  upstream := d.target
  stripPath := d.stripPath
  websocket := d.websocket
  priority := d.priority
  pluginsJson := omitEmpty d.pluginsJson
  originTls :=
    if (trim d.sslJson.bytes).isEmpty then none
    else (compiler.unmarshalOriginTls d.sslJson).filter OriginTlsSpec.enabled

/-- Enter a location under its host; the hosts keep the order in which they come up. -/
def addLocation (domains : List DomainRoutingSpec) (host : Text) (loc : LocationRoutingSpec) :
    List DomainRoutingSpec :=
  match domains with
  | [] => [⟨host, [loc]⟩]
  | domain :: rest =>
    if domain.host = host then { domain with locations := domain.locations ++ [loc] } :: rest
    else domain :: addLocation rest host loc

def compileRouting (records : List SpecRoutingRecord) : RoutingSpec where
  domains := records.foldl (fun domains d =>
    if d.host.bytes.isEmpty then domains
    else addLocation domains d.host (compileLocation compiler d)) []

def compileCertificate (c : SpecCertificateRecord) : CertificateSpec where
  id := c.id
  name := c.name
  snis := (compiler.unmarshalSnis c.snisJson).getD []
  certPem := c.certPem
  keyPem := c.keyPem
  mtlsEnabled := c.mtlsEnabled
  clientCaPem := c.clientCaPem
  verifyDepth := omitZero c.verifyDepth

def compileExtension (manifestDigest : Text) (ext : SpecExtensionRecord) :
    Except CompileError ExtensionInstanceSpec :=
  match compiler.find ext.manifestKey ext.manifestVersion with
  | none => .error (.unavailableManifest ext.id ext.manifestKey ext.manifestVersion)
  | some manifest =>
    match compiler.validateConfig manifest ext.configJson with
    | none => .error (.invalidConfig ext.id)
    | some canonicalConfig =>
      .ok
        { instanceId := ext.id
          key := ext.manifestKey
          version := ext.manifestVersion
          renderer := manifest.renderer
          manifestDigest
          configJson := canonicalConfig }

def compileExtensions (extensions : List SpecExtensionRecord) :
    Except CompileError (List ExtensionInstanceSpec) :=
  if extensions.isEmpty then .ok []
  else
    match compiler.digest with
    | none => .error .digest
    | some manifestDigest => extensions.mapM (compileExtension compiler manifestDigest)

def upstreamType : Text := .ofAscii "upstream"

def targetType (s : SpecL4ServiceRecord) : Text :=
  if s.forwardTargetType.bytes.isEmpty then upstreamType else s.forwardTargetType

def compileL4Server (srv : ServerRecord) : L4ServerSpec where
  addr := srv.address
  weight := omitZero srv.weight
  maxFails := omitZero srv.maxFails
  failTimeout := omitEmpty srv.failTimeout
  backup := srv.backup

def compileL4Upstream (u : SpecUnifiedUpstreamRecord) : L4UpstreamSpec where
  name := u.name
  protocol := .ofAscii "tcp"
  algorithm := if u.algorithm.bytes.isEmpty then .ofAscii "round_robin" else u.algorithm
  servers := ((compiler.unmarshalServers u.serversJson).getD []).map compileL4Server

def compileL4Service (s : SpecL4ServiceRecord) : Except CompileError L4ServiceSpec :=
  let aclJson := trim s.aclRulesJson.bytes
  match compiler.unmarshalAcl (if aclJson.isEmpty then ascii "[]" else aclJson) with
  | none => .error (.parseAcl s.name)
  | some acls =>
    .ok
      { name := s.name
        protocol := s.protocol
        listenPort := s.listenPort
        forwardTargetType := omitEmpty (targetType s)
        upstream := s.upstreamName
        endpoint := omitEmpty s.directEndpoint
        acl := compiler.sortByPriority acls
        proxyTimeout := omitEmpty s.proxyTimeout
        proxyConnectTimeout := omitEmpty s.proxyConnectTimeout
        enabled := s.enabled }

def compileL4 (auth : SpecAuthorityData) : Except CompileError (Option L4Spec) :=
  if auth.l4Services.isEmpty then .ok none
  else
    let referenced := fun name : Text => auth.l4Services.any fun s =>
      targetType s = upstreamType && !s.upstreamName.bytes.isEmpty && s.upstreamName = name
    (auth.l4Services.mapM (compileL4Service compiler)).map fun services =>
      some
        { upstreams :=
            (auth.upstreamRecords.filter fun u => referenced u.name).map
              (compileL4Upstream compiler)
          services }

def emptyDocument : Spec where
  version := 1
  releaseId := 1
  generatedAt := .ofAscii "2026-01-01T00:00:00Z"
  extensions := []
  upstreams := []
  upstreamsConf := none
  routing := ⟨[]⟩
  routingConf := none
  certificates := []
  l4 := none

def fillDocument (auth : SpecAuthorityData) : Except CompileError Spec := do
  let extensions ← compileExtensions compiler auth.extensions
  let l4 ← compileL4 compiler auth
  .ok
    { emptyDocument with
      extensions
      upstreamsConf := omitEmpty auth.upstreamsConf
      routing := compileRouting compiler auth.routingRecords
      certificates := auth.certificates.map (compileCertificate compiler)
      l4 }

/-- The document, its text and the hash of the text; without authority data the document
is empty. -/
def compileDocument (auth : Option SpecAuthorityData) :
    Except CompileError (Spec × Bytes × Bytes) := do
  let doc ← auth.elim (.ok emptyDocument) (fillDocument compiler)
  match compiler.marshalIndent doc with
  | none => .error .marshal
  | some jsonBytes => .ok (doc, jsonBytes, compiler.sha256Hex jsonBytes)

theorem target_compileL4Service {record : SpecL4ServiceRecord} {service : L4ServiceSpec}
    (h : compileL4Service compiler record = .ok service) :
    service.forwardTargetType = omitEmpty (targetType record) ∧
      service.upstream = record.upstreamName := by
  dsimp only [compileL4Service] at h
  split at h
  · cases h
  · obtain rfl := Except.ok.inj h
    exact ⟨rfl, rfl⟩

def refersTo (services : List SpecL4ServiceRecord) (name : Text) : Bool := services.any fun s =>
  targetType s = upstreamType && !s.upstreamName.bytes.isEmpty && s.upstreamName = name

theorem compileL4_cases {auth : SpecAuthorityData} {l4 : Option L4Spec}
    (h : compileL4 compiler auth = .ok l4) :
    (auth.l4Services = [] ∧ l4 = none) ∨
      ∃ services, auth.l4Services.mapM (compileL4Service compiler) = .ok services ∧
        l4 = some
          { upstreams := (auth.upstreamRecords.filter fun u => refersTo auth.l4Services u.name).map
              (compileL4Upstream compiler)
            services } := by
  unfold compileL4 at h
  split at h
  · rename_i hempty
    exact .inl ⟨List.isEmpty_iff.mp hempty, (Except.ok.inj h).symm⟩
  · cases hservices : auth.l4Services.mapM (compileL4Service compiler) with
    | error err =>
      rw [hservices] at h
      cases h
    | ok services =>
      rw [hservices] at h
      exact .inr ⟨services, rfl, (Except.ok.inj h).symm⟩

theorem releaseId_compileDocument {auth : Option SpecAuthorityData} {doc : Spec}
    {json hash : Bytes} (h : compileDocument compiler auth = .ok (doc, json, hash)) :
    doc.releaseId = 1 := by
  obtain ⟨spec, hspec, h⟩ := exists_of_bind_ok h
  have hrelease : spec.releaseId = 1 := by
    cases auth with
    | none =>
      cases hspec
      rfl
    | some auth =>
      obtain ⟨extensions, -, hspec⟩ := exists_of_bind_ok hspec
      obtain ⟨l4, -, hspec⟩ := exists_of_bind_ok hspec
      cases hspec
      rfl
  split at h
  · cases h
  · cases h
    exact hrelease

end Compile

end AuroraGateway.ControlPlane
