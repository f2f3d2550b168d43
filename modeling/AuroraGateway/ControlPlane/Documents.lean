import AuroraGateway.ControlPlane.SpecScheduler

/-!
# Compiled documents

The parts of the document that the scheduler compiles, and the records that they come
from.
-/

namespace AuroraGateway.ControlPlane

open ControlWorker Foundation

variable {compiler : Compiler}

variable {auth : SpecAuthorityData} {loc : LocationRoutingSpec} {doc : Spec}
  {domain : DomainRoutingSpec}

theorem fillDocument_of_compileDocument {json hash : Bytes}
    (h : compileDocument compiler (some auth) = .ok (doc, json, hash)) :
    fillDocument compiler auth = .ok doc := by
  obtain ⟨spec, hspec, h⟩ := exists_of_bind_ok h
  split at h
  · cases h
  · cases h
    exact hspec

theorem document_parts (h : fillDocument compiler auth = .ok doc) :
    doc.routing = compileRouting compiler auth.routingRecords ∧ doc.routingConf = none ∧
      doc.certificates = auth.certificates.map (compileCertificate compiler) ∧
      compileL4 compiler auth = .ok doc.l4 := by
  obtain ⟨extensions, -, h⟩ := exists_of_bind_ok h
  obtain ⟨l4, hl4, h⟩ := exists_of_bind_ok h
  obtain rfl := Except.ok.inj h
  exact ⟨rfl, rfl, rfl, hl4⟩

theorem upstreamsConf_of_fillDocument (h : fillDocument compiler auth = .ok doc) :
    doc.upstreamsConf = omitEmpty auth.upstreamsConf := by
  obtain ⟨extensions, -, h⟩ := exists_of_bind_ok h
  obtain ⟨l4, -, h⟩ := exists_of_bind_ok h
  obtain rfl := Except.ok.inj h
  rfl

theorem mem_addLocation {domains : List DomainRoutingSpec} {host : Text} {new : LocationRoutingSpec}
    (hdomain : domain ∈ addLocation domains host new) (hloc : loc ∈ domain.locations) :
    domain.host = host ∧ loc = new ∨
      ∃ old ∈ domains, old.host = domain.host ∧ loc ∈ old.locations := by
  induction domains with
  | nil =>
    obtain rfl := List.mem_singleton.mp hdomain
    exact .inl ⟨rfl, List.mem_singleton.mp hloc⟩
  | cons first rest ih =>
    unfold addLocation at hdomain
    split at hdomain
    · rename_i hhost
      rcases List.mem_cons.mp hdomain with rfl | hdomain
      · rcases List.mem_append.mp hloc with hloc | hloc
        · exact .inr ⟨first, List.mem_cons_self, rfl, hloc⟩
        · exact .inl ⟨hhost, List.mem_singleton.mp hloc⟩
      · exact .inr ⟨domain, List.mem_cons_of_mem _ hdomain, rfl, hloc⟩
    · rcases List.mem_cons.mp hdomain with rfl | hdomain
      · exact .inr ⟨domain, List.mem_cons_self, rfl, hloc⟩
      · rcases ih hdomain with hnew | ⟨old, hold, hrest⟩
        · exact .inl hnew
        · exact .inr ⟨old, List.mem_cons_of_mem _ hold, hrest⟩

theorem exists_record {records : List SpecRoutingRecord}
    (hdomain : domain ∈ (compileRouting compiler records).domains) (hloc : loc ∈ domain.locations) :
    ∃ record ∈ records, domain.host = record.host ∧ loc = compileLocation compiler record := by
  -- The statement for a part of the records, after which the domains are `domains`.
  suffices h : ∀ domains : List DomainRoutingSpec,
      domain ∈ records.foldl (fun domains d =>
        if d.host.bytes.isEmpty then domains
        else addLocation domains d.host (compileLocation compiler d)) domains →
      (∃ old ∈ domains, old.host = domain.host ∧ loc ∈ old.locations) ∨
        ∃ record ∈ records, domain.host = record.host ∧ loc = compileLocation compiler record by
    rcases h [] hdomain with ⟨old, hold, -⟩ | h
    · simp at hold
    · exact h
  clear hdomain
  induction records with
  | nil => exact fun domains hdomain => .inl ⟨domain, hdomain, rfl, hloc⟩
  | cons record rest ih =>
    intro domains hdomain
    rw [List.foldl_cons] at hdomain
    rcases ih _ hdomain with ⟨old, hold, hhost, hmem⟩ | ⟨later, hlater, hrest⟩
    · split at hold
      · exact .inl ⟨old, hold, hhost, hmem⟩
      · rcases mem_addLocation hold hmem with ⟨hnew, rfl⟩ | ⟨older, holder, holdhost, holdmem⟩
        · exact .inr ⟨record, List.mem_cons_self, hhost.symm.trans hnew, rfl⟩
        · exact .inl ⟨older, holder, holdhost.trans hhost, holdmem⟩
    · exact .inr ⟨later, List.mem_cons_of_mem _ hlater, hrest⟩

def plainOrigin : OriginTlsSpec :=
  ⟨false, false, .ofAscii "", .ofAscii "", false, .ofAscii "", .ofAscii ""⟩

def appServer : ServerRecord := ⟨.ofAscii "10.0.0.1:8080", 1, 0, .ofAscii "", false⟩

def sampleCompiler : Compiler where
  digest := none
  find := fun _ _ => none
  validateConfig := fun _ _ => none
  unmarshalOriginTls := fun _ => some plainOrigin
  unmarshalSnis := fun _ => none
  unmarshalServers := fun _ => some [appServer]
  unmarshalAcl := fun json => if json = ascii "[]" then some [] else none
  sortByPriority := id
  marshalIndent := fun doc => some (doc.routing.domains.flatMap fun domain =>
    domain.locations.flatMap fun loc => loc.upstream.bytes)
  sha256Hex := id

end AuroraGateway.ControlPlane
