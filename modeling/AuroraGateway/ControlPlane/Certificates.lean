import AuroraGateway.ControlPlane.SpecScheduler

/-!
# Admission of certificates

What the handlers check before a certificate is stored.  The checks of creation
and of update are the same.
-/

namespace AuroraGateway.ControlPlane

open ControlWorker Foundation

structure CertificateRequest where
  name : Text
  snis : List Text
  certPem : Text
  keyPem : Text
  mtlsEnabled : Bool
  clientCaPem : Text
  verifyDepth : Int

structure CertificateLibrary where
  toLower : Text → Text
  x509KeyPair : Text → Text → Bool
  /-- The bytes of the first block. -/
  pemDecode : Text → Option Bytes
  parseCertificate : Bytes → Bool
  marshalSnis : List Text → Text

inductive CertificateError where
  | emptyName
  | noSnis
  | emptySni
  | emptyCertificate
  | emptyKey
  | invalidPair
  | emptyClientCa
  | clientCaNotPem
  | invalidClientCa
  deriving DecidableEq

section Admission

variable (lib : CertificateLibrary)

def checkClientCa (mtlsEnabled : Bool) (clientCaPem : Text) : Except CertificateError Unit :=
  if !mtlsEnabled then .ok ()
  else if clientCaPem.bytes.isEmpty then .error .emptyClientCa
  else
    match lib.pemDecode clientCaPem with
    | none => .error .clientCaNotPem
    | some block => if lib.parseCertificate block then .ok () else .error .invalidClientCa

def acceptCertificate (id : Text) (req : CertificateRequest) :
    Except CertificateError SpecCertificateRecord := do
  let name := req.name.trim
  let snis := req.snis.map fun sni => lib.toLower sni.trim
  let certPem := req.certPem.trim
  let keyPem := req.keyPem.trim
  let clientCaPem := req.clientCaPem.trim
  refuseIf name.bytes.isEmpty .emptyName
  refuseIf req.snis.isEmpty .noSnis
  refuseIf (snis.any fun sni => sni.bytes.isEmpty) .emptySni
  refuseIf certPem.bytes.isEmpty .emptyCertificate
  refuseIf keyPem.bytes.isEmpty .emptyKey
  refuseIf (!lib.x509KeyPair certPem keyPem) .invalidPair
  checkClientCa lib req.mtlsEnabled clientCaPem
  .ok
    { id
      name
      snisJson := lib.marshalSnis snis
      certPem
      keyPem
      mtlsEnabled := req.mtlsEnabled
      clientCaPem
      verifyDepth := if req.verifyDepth ≤ 0 then 1 else req.verifyDepth }

theorem clientCaPem_of_accepted {id : Text} {req : CertificateRequest}
    {record : SpecCertificateRecord} (h : acceptCertificate lib id req = .ok record)
    (hmtls : record.mtlsEnabled = true) :
    record.clientCaPem = req.clientCaPem.trim ∧ record.clientCaPem.bytes ≠ [] := by
  obtain ⟨-, h⟩ := of_refuseIf h
  obtain ⟨-, h⟩ := of_refuseIf h
  obtain ⟨-, h⟩ := of_refuseIf h
  obtain ⟨-, h⟩ := of_refuseIf h
  obtain ⟨-, h⟩ := of_refuseIf h
  obtain ⟨-, h⟩ := of_refuseIf h
  obtain ⟨_, hca, h⟩ := exists_of_bind_ok h
  obtain rfl := Except.ok.inj h
  refine ⟨rfl, fun hempty => ?_⟩
  have hmtls : req.mtlsEnabled = true := hmtls
  have hempty : req.clientCaPem.trim.bytes = [] := hempty
  simp [checkClientCa, hmtls, hempty] at hca

end Admission

end AuroraGateway.ControlPlane
