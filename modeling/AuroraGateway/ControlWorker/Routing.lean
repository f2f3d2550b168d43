import AuroraGateway.ControlWorker.Spec
import AuroraGateway.Foundation.ConfText
import AuroraGateway.Foundation.KeyedLists
import AuroraGateway.Foundation.StableSort
import AuroraGateway.Foundation.TrimmedText

/-!
# Rendering of the routes

The domains of a specification become server blocks of NGINX: one for HTTP per
host, and one for HTTPS if there is a certificate for the host.
-/

namespace AuroraGateway.ControlWorker

open Foundation

/-! ## Certificates -/

/-- What the renderer uses of its surroundings: the directory of the files, the names in a
certificate, and the order in which a hash map gives its values. -/
structure RouteRenderer where
  routingDir : Bytes
  extractSans : Text → List Bytes
  hashOrder : List LocationRoutingSpec → List LocationRoutingSpec
  hashOrder_perm : ∀ locations, (hashOrder locations).Perm locations

def dot : UInt8 := 46

def splitOnce (separator : UInt8) (bytes : Bytes) : Option (Bytes × Bytes) :=
  if separator ∈ bytes then
    some (bytes.takeWhile (· ≠ separator), (bytes.dropWhile (· ≠ separator)).drop 1)
  else none

def matchesSni (pattern host : Bytes) : Bool :=
  let p := trim pattern
  let h := trim host
  if eqIgnoreAsciiCase p h || p == ascii "*" then true
  else
    match stripPrefix? (ascii "*.") p, splitOnce dot h with
    | some suffix, some (sub, base) => !sub.isEmpty && eqIgnoreAsciiCase base suffix
    | _, _ => false

section Render

variable (env : RouteRenderer) (loc : LocationRoutingSpec) (cert : CertificateSpec)

def CertificateSpec.sans : List Bytes :=
  let extracted := if (trim cert.certPem.bytes).isEmpty then [] else env.extractSans cert.certPem
  if extracted.isEmpty then cert.snis.map Text.bytes else extracted

def findMatchingCertificate (certs : List CertificateSpec) (host : Bytes) :
    Option CertificateSpec :=
  (certs.find? fun cert => (cert.sans env).any fun san => eqIgnoreAsciiCase (trim san) host).or
    (certs.find? fun cert => (cert.sans env).any fun san => matchesSni san host)

/-! ## Files -/

/-- `Path::join`: an absolute path takes the place of the base. -/
def joinPath (base name : Bytes) : Bytes :=
  if name.head? = some slash then name
  else if base = [] ∨ base.getLast? = some slash then base ++ name
  else base ++ [slash] ++ name

def certFile (suffix : String) : Bytes :=
  joinPath (joinPath env.routingDir (ascii "certs")) (cert.id.bytes ++ ascii suffix)

def originTlsFile (suffix : String) : Bytes :=
  joinPath (joinPath env.routingDir (ascii "origin-tls")) (loc.upstream.bytes ++ ascii suffix)

/-! ## Locations -/

def directive (name : String) (args : List Word) : Line := .directive ⟨ascii name, args⟩

def setHeader (name value : String) : Line :=
  directive "proxy_set_header" [.ascii name, .ascii value]

def websocketLines : List Line :=
  [ directive "proxy_http_version" [.ascii "1.1"],
    setHeader "Upgrade" "$http_upgrade",
    directive "proxy_set_header"
      [.ascii "Connection", ⟨ascii "\"upgrade\"", ascii "upgrade"⟩] ]

def trimEndSlashes (path : Bytes) : Bytes := (path.reverse.dropWhile (· = slash)).reverse

def stripPathLines : List Line :=
  [ directive "rewrite"
      [ .plain (ascii "^" ++ trimEndSlashes (trim loc.path.bytes) ++ ascii "/?(.*)$"),
        .ascii "/$1", .ascii "break" ] ]

def commonLines : List Line :=
  [ directive "proxy_http_version" [.ascii "1.1"],
    directive "proxy_set_header" [.ascii "Connection", ⟨ascii "\"\"", []⟩],
    setHeader "Host" "$host",
    setHeader "X-Real-IP" "$remote_addr",
    setHeader "X-Forwarded-For" "$proxy_add_x_forwarded_for",
    setHeader "X-Forwarded-Proto" "$scheme",
    directive "proxy_connect_timeout" [.ascii "5s"] ]

def originTlsLines (tls : OriginTlsSpec) : List Line :=
  [directive "proxy_ssl_protocols" [.ascii "TLSv1.2", .ascii "TLSv1.3"]] ++
  (if tls.sniHost.bytes.isEmpty then []
    else
      [ directive "proxy_ssl_server_name" [.ascii "on"],
        directive "proxy_ssl_name" [.plain tls.sniHost.bytes] ]) ++
  (if tls.verifyCert then
    [ directive "proxy_ssl_verify" [.ascii "on"],
      directive "proxy_ssl_trusted_certificate"
        [ if (trim tls.caCert.bytes).isEmpty then .ascii "/etc/ssl/certs/ca-certificates.crt"
          else .plain (originTlsFile env loc "_ca.crt") ] ]
    else [directive "proxy_ssl_verify" [.ascii "off"]]) ++
  (if tls.mtls then
    [ directive "proxy_ssl_certificate" [.plain (originTlsFile env loc "_client.crt")],
      directive "proxy_ssl_certificate_key" [.plain (originTlsFile env loc "_client.key")] ]
    else [])

def LocationRoutingSpec.activeTls : Option OriginTlsSpec :=
  loc.originTls.filter OriginTlsSpec.enabled

def proxyTarget : Bytes :=
  (if loc.activeTls.isSome then ascii "https" else ascii "http") ++ ascii "://" ++
    if loc.upstream.bytes = ascii "gateway_upstream" then ascii "$gateway_upstream"
    else loc.upstream.bytes

def proxyLines : List Line :=
  (if loc.websocket then websocketLines else []) ++
  (if loc.stripPath ∧ trim loc.path.bytes ≠ ascii "/" then stripPathLines loc else []) ++
  commonLines ++
  (loc.activeTls.elim [] (originTlsLines env loc)) ++
  [ directive "proxy_pass" [.plain (proxyTarget loc)],
    directive "proxy_next_upstream"
      [.ascii "error", .ascii "timeout", .ascii "http_502", .ascii "http_503"] ]

def unavailableLines : List Line :=
  [ directive "return"
      [ .ascii "503",
        ⟨ascii "\"No upstream configured\\n\"", ascii "No upstream configured\n"⟩ ] ]

def LocationRoutingSpec.proxies : Bool :=
  !(trim loc.upstream.bytes).isEmpty

def renderLocation : Block where
  name := ascii "location"
  args := [.plain loc.path.bytes]
  lines := if loc.proxies then proxyLines env loc else unavailableLines

/-! ## Hosts -/

/-- Add locations under a host; the hosts are kept in order. -/
def addHost (host : Bytes) (locations : List LocationRoutingSpec) :
    List (Bytes × List LocationRoutingSpec) → List (Bytes × List LocationRoutingSpec)
  | [] => [(host, locations)]
  | entry :: rest =>
    if entry.1 = host then (host, entry.2 ++ locations) :: rest
    else if host < entry.1 then (host, locations) :: entry :: rest
    else entry :: addHost host locations rest

def hostOf (domain : DomainRoutingSpec) : Bytes := toAsciiLowercase (trim domain.host.bytes)

def hostMap (routing : RoutingSpec) : List (Bytes × List LocationRoutingSpec) :=
  routing.domains.foldl (fun hosts domain =>
    if (hostOf domain).isEmpty then hosts
    else addHost (hostOf domain) domain.locations hosts) []

/-- Of the locations with one path the one with the highest priority; the first of several. -/
def dedupePaths (locations : List LocationRoutingSpec) : List LocationRoutingSpec :=
  locations.foldl (upsertIf (fun loc => loc.path.trim) fun loc existing =>
    decide (existing.priority < loc.priority)) []

/-- Longest path first. -/
def deduped (locations : List LocationRoutingSpec) : List LocationRoutingSpec :=
  sortByKey (fun loc => -(loc.path.bytes.length : Int)) (env.hashOrder (dedupePaths locations))

def serverName (host : Bytes) : Bytes := if host = ascii "*" then ascii "_" else host

def pipelineInclude : Line := directive "include" [.ascii "/etc/nginx/gateway-pipeline.conf"]

def httpServer (host : Bytes) (locations : List LocationRoutingSpec) : Server where
  lines :=
    [ directive "listen" [.ascii "80"],
      directive "server_name" [.plain (serverName host)],
      pipelineInclude ]
  locations := locations.map (renderLocation env)

def verifyDepth : Nat :=
  let depth := cert.verifyDepth.getD 1
  if 0 < depth then depth.toNat else 1

/-- The client certificates are verified if there is an authority to verify them with. -/
def clientVerification : List Line :=
  if cert.mtlsEnabled ∧ (trim cert.clientCaPem.bytes).isEmpty = false then
    [ directive "ssl_client_certificate" [.plain (certFile env cert "_ca.crt")],
      directive "ssl_verify_client" [.ascii "on"],
      directive "ssl_verify_depth" [.plain (decimal (verifyDepth cert))] ]
  else []

def quicListen (isFirst : Bool) : Line :=
  directive "listen" ([.ascii "443", .ascii "quic"] ++ if isFirst then [.ascii "reuseport"] else [])

def httpsServer (isFirst : Bool) (host : Bytes) (cert : CertificateSpec)
    (locations : List LocationRoutingSpec) : Server where
  lines :=
    [ directive "listen" [.ascii "443", .ascii "ssl"],
      quicListen isFirst,
      directive "server_name" [.plain (serverName host)],
      pipelineInclude,
      .blank,
      directive "ssl_certificate" [.plain (certFile env cert ".crt")],
      directive "ssl_certificate_key" [.plain (certFile env cert ".key")],
      directive "ssl_protocols" [.ascii "TLSv1.2", .ascii "TLSv1.3"],
      directive "ssl_ciphers" [.ascii "HIGH:!aNULL:!MD5"],
      .blank,
      directive "http2" [.ascii "on"],
      directive "http3" [.ascii "on"],
      directive "quic_retry" [.ascii "on"],
      directive "add_header"
        [ .ascii "Alt-Svc", ⟨ascii "'h3=\":443\"; ma=86400'", ascii "h3=\":443\"; ma=86400"⟩,
          .ascii "always" ] ] ++ clientVerification env cert
  locations := locations.map (renderLocation env)

def hostServers (certs : List CertificateSpec) (isFirst : Bool)
    (entry : Bytes × List LocationRoutingSpec) : List Server :=
  let locations := deduped env entry.2
  httpServer env entry.1 locations ::
    ((findMatchingCertificate env certs entry.1).map fun cert =>
      httpsServer env isFirst entry.1 cert locations).toList

/-- The loop over the hosts; only the first block for QUIC reuses the port. -/
def renderHosts (certs : List CertificateSpec) :
    Bool → List (Bytes × List LocationRoutingSpec) → List Server
  | _, [] => []
  | isFirst, entry :: rest =>
    hostServers env certs isFirst entry ++
      renderHosts certs (isFirst && (findMatchingCertificate env certs entry.1).isNone) rest

def routingServers (spec : Spec) : List Server :=
  renderHosts env spec.certificates true (hostMap spec.routing)

def generateDomainRoutingConf (spec : Spec) : Bytes :=
  match spec.routingConf with
  | some raw => raw.bytes
  | none =>
    if spec.routing.domains.isEmpty then ascii "# No configured domains yet\n"
    else
      ascii "# Generated by Aurora Control Worker\n" ++
        (routingServers env spec).flatMap Server.render

end Render

end AuroraGateway.ControlWorker
