import AuroraGateway.ControlPlane.Certificates
import AuroraGateway.ControlWorker.Routing

/-!
# Client certificates

A host whose certificate asks for client certificates has two server blocks
with the same locations.  Only the one for HTTPS verifies the clients.
-/

namespace AuroraGateway.ControlWorker

open ControlPlane Foundation

structure MtlsHost where
  env : RouteRenderer
  spec : Spec
  entry : Bytes × List LocationRoutingSpec
  listed : entry ∈ hostMap spec.routing
  compiler : Compiler
  lib : CertificateLibrary
  id : Text
  request : CertificateRequest
  record : SpecCertificateRecord
  accepted : acceptCertificate lib id request = .ok record
  selected : findMatchingCertificate env spec.certificates entry.1 =
    some (compileCertificate compiler record)
  mtls : record.mtlsEnabled = true

def ProxiesRequests (block : Block) : Prop :=
  ∃ d ∈ block.directives, d.name = ascii "proxy_pass"

theorem proxiesRequests_renderLocation (env : RouteRenderer) (loc : LocationRoutingSpec) :
    ProxiesRequests (renderLocation env loc) ↔ loc.proxies = true := by
  unfold ProxiesRequests Block.directives renderLocation
  cases loc.proxies with
  | false =>
    simp only [Bool.false_eq_true, if_false, iff_false]
    rintro ⟨d, hd, hname⟩
    obtain rfl := List.mem_singleton.mp hd
    exact absurd hname (by decide)
  | true =>
    simp only [if_true, iff_true]
    refine ⟨⟨ascii "proxy_pass", [.plain (proxyTarget loc)]⟩, ?_, rfl⟩
    simp [proxyLines, directive, Line.directive?]

namespace MtlsHost

variable (h : MtlsHost)

def cert : CertificateSpec := compileCertificate h.compiler h.record

def servers (isFirst : Bool) : List Server := hostServers h.env h.spec.certificates isFirst h.entry

def Verifies (server : Server) : Prop :=
  ⟨ascii "ssl_verify_client", [.ascii "on"]⟩ ∈ server.directives ∧
    ⟨ascii "ssl_client_certificate", [.plain (certFile h.env h.cert "_ca.crt")]⟩ ∈
      server.directives

def Guarded : Prop :=
  ∀ isFirst, ∀ server ∈ h.servers isFirst,
    (∃ block ∈ server.locations, ProxiesRequests block) → h.Verifies server

theorem verifies_httpsServer (isFirst : Bool) :
    h.Verifies (httpsServer h.env isFirst h.entry.1 h.cert (deduped h.env h.entry.2)) := by
  obtain ⟨htrim, hne⟩ := clientCaPem_of_accepted h.lib h.accepted h.mtls
  have hca : (trim h.cert.clientCaPem.bytes).isEmpty = false := by
    have hbytes : h.cert.clientCaPem.bytes = trim h.request.clientCaPem.bytes :=
      congrArg Text.bytes htrim
    rw [hbytes, trim_trim, ← hbytes]
    exact List.isEmpty_eq_false_iff.mpr hne
  have hlines : clientVerification h.env h.cert =
      [ directive "ssl_client_certificate" [.plain (certFile h.env h.cert "_ca.crt")],
        directive "ssl_verify_client" [.ascii "on"],
        directive "ssl_verify_depth" [.plain (decimal (verifyDepth h.cert))] ] :=
    if_pos ⟨h.mtls, hca⟩
  constructor <;>
    simp [Server.directives, httpsServer, hlines, directive, Line.directive?]

theorem not_verifies_httpServer :
    ⟨ascii "ssl_verify_client", [.ascii "on"]⟩ ∉
      (httpServer h.env h.entry.1 (deduped h.env h.entry.2)).directives := by
  intro hmem
  have hname : ascii "ssl_verify_client" ∈
      [ascii "listen", ascii "server_name", ascii "include"] :=
    List.mem_map_of_mem (f := Directive.name) hmem
  exact absurd hname (by decide)

end MtlsHost

/-- The block for HTTPS always verifies its clients.  The one for HTTP never does, so the host
is guarded exactly if none of its locations proxies requests. -/
theorem mtls_guard_iff (h : MtlsHost) :
    (∀ isFirst, h.Verifies
      (httpsServer h.env isFirst h.entry.1 h.cert (deduped h.env h.entry.2))) ∧
      (h.Guarded ↔ ∀ loc ∈ deduped h.env h.entry.2, loc.proxies = false) := by
  refine
    ⟨h.verifies_httpsServer, fun hguarded loc hloc => ?_, fun hnone isFirst server hserver => ?_⟩
  · by_contra hproxies
    have hblock : ∃ block ∈ (httpServer h.env h.entry.1 (deduped h.env h.entry.2)).locations,
        ProxiesRequests block :=
      ⟨renderLocation h.env loc, List.mem_map_of_mem hloc,
        (proxiesRequests_renderLocation h.env loc).mpr (by simpa using hproxies)⟩
    obtain ⟨hverify, -⟩ := hguarded true _ List.mem_cons_self hblock
    exact h.not_verifies_httpServer hverify
  · rintro ⟨block, hblock, hproxies⟩
    obtain ⟨loc, hloc, rfl⟩ :
        ∃ loc ∈ deduped h.env h.entry.2, renderLocation h.env loc = block := by
      rcases List.mem_cons.mp hserver with rfl | hserver
      · exact List.mem_map.mp hblock
      · rw [Option.mem_toList, h.selected] at hserver
        obtain rfl := Option.some.inj hserver
        exact List.mem_map.mp hblock
    rw [proxiesRequests_renderLocation, hnone loc hloc] at hproxies
    cases hproxies

/-! ## A sample -/

def sampleRenderer : RouteRenderer := ⟨ascii "/etc/aurora", fun _ => [], id, fun _ => .refl _⟩

def partnerHost : MtlsHost where
  env := sampleRenderer
  spec :=
    { emptyDocument with
      routing := ⟨[⟨.ofAscii "example.com",
        [⟨.ofAscii "/", .ofAscii "app", false, false, 0, none, none⟩]⟩]⟩
      certificates :=
        [⟨.ofAscii "c1", .ofAscii "partners", [.ofAscii "example.com"], .ofAscii "CERT",
          .ofAscii "KEY", true, .ofAscii "CA", some 1⟩] }
  entry := (ascii "example.com", [⟨.ofAscii "/", .ofAscii "app", false, false, 0, none, none⟩])
  listed := List.mem_singleton.mpr rfl
  compiler :=
    { digest := none
      find := fun _ _ => none
      validateConfig := fun _ _ => none
      unmarshalOriginTls := fun _ => none
      unmarshalSnis := fun _ => some [.ofAscii "example.com"]
      unmarshalServers := fun _ => none
      unmarshalAcl := fun _ => none
      sortByPriority := id
      marshalIndent := fun _ => none
      sha256Hex := id }
  lib := ⟨id, fun _ _ => true, fun text => some text.bytes, fun _ => true, fun _ => .ofAscii "[]"⟩
  id := .ofAscii "c1"
  request :=
    { name := .ofAscii "partners"
      snis := [.ofAscii "example.com"]
      certPem := .ofAscii "CERT"
      keyPem := .ofAscii "KEY"
      mtlsEnabled := true
      clientCaPem := .ofAscii "CA"
      verifyDepth := 1 }
  record :=
    { id := .ofAscii "c1"
      name := .ofAscii "partners"
      snisJson := .ofAscii "[]"
      certPem := .ofAscii "CERT"
      keyPem := .ofAscii "KEY"
      mtlsEnabled := true
      clientCaPem := .ofAscii "CA"
      verifyDepth := 1 }
  accepted := rfl
  selected := rfl
  mtls := rfl

theorem plain_http_bypasses_mtls :
    (∃ server ∈ partnerHost.servers true,
      ⟨ascii "listen", [.ascii "80"]⟩ ∈ server.directives ∧
        (∃ block ∈ server.locations, ProxiesRequests block) ∧
        ¬partnerHost.Verifies server) ∧
      ¬partnerHost.Guarded := by
  have hproxies : ∃ block ∈ (httpServer partnerHost.env partnerHost.entry.1
      (deduped partnerHost.env partnerHost.entry.2)).locations, ProxiesRequests block := by
    refine ⟨_, List.mem_singleton.mpr rfl, ?_⟩
    rw [proxiesRequests_renderLocation]
    rfl
  have hfails := partnerHost.not_verifies_httpServer
  refine ⟨⟨_, List.mem_cons_self, List.mem_cons_self, hproxies, fun h => hfails h.1⟩, fun h => ?_⟩
  exact hfails (h true _ List.mem_cons_self hproxies).1

end AuroraGateway.ControlWorker
