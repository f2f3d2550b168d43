import AuroraGateway.ControlPlane.SpecScheduler
import AuroraGateway.ControlWorker.PolicySync
import AuroraGateway.ControlWorker.RouteMasks
import AuroraGateway.Ffi.RouteMasks

/-!
# Hot swap of policies

The configurations of a cluster are compiled one after another; each is
published on a node, and a worker of the node synchronises.  The worker tells
releases apart by their numbers, and every document has the number 1.
-/

namespace AuroraGateway.ControlWorker

open ControlPlane (Compiler SpecAuthorityData compileDocument)
open Ffi Foundation Shm

variable {F : Type}

/-! ## Rollouts -/

structure Release (compiler : Compiler) (codec : JsonCodec) (materializers : Materializers) where
  auth : Option SpecAuthorityData
  doc : Spec
  specJson : Bytes
  hash : Bytes
  compiled : compileDocument compiler auth = .ok (doc, specJson, hash)
  extensions : RenderedExtensions
  renders : renderExtensions codec materializers doc.extensions = .ok extensions

structure Node (F : Type) where
  header : PolicyShmHeader
  process : Process F

def Node.start : Node F := ⟨.zeroed, .start⟩

section Rollout

variable {compiler : Compiler} {codec : JsonCodec} {materializers : Materializers}
  (loaders : Loaders F)

def Release.rendered (release : Release compiler codec materializers) : RenderedExtensions :=
  compileRouteMasksIntoShm codec release.doc.routing release.extensions

def Release.payload (release : Release compiler codec materializers) (slot : Nat) :
    Option Bytes :=
  release.rendered.getShmSlot slot

def Node.publish (node : Node F) (release : Release compiler codec materializers) :
    PolicyShmHeader :=
  (syncPolicyToShm release.doc.releaseId release.rendered node.header).1

def Node.apply (node : Node F) (release : Release compiler codec materializers) : Node F where
  header := node.publish release
  process := auroraGatewayPolicySync loaders (node.publish release).memory node.process

def Node.reads (node : Node F) : List (Release compiler codec materializers) →
    List PolicyMemory
  | [] => []
  | release :: releases =>
    (if node.process.UpToDate (node.publish release).memory then []
      else [(node.publish release).memory]) ++ (node.apply loaders release).reads releases

structure Rollout (compiler : Compiler) (codec : JsonCodec) (materializers : Materializers) where
  earlier : List (Release compiler codec materializers)
  last : Release compiler codec materializers

namespace Rollout

variable (rollout : Rollout compiler codec materializers)

def releases : List (Release compiler codec materializers) := rollout.earlier ++ [rollout.last]

def node : Node F := rollout.releases.foldl (Node.apply loaders) .start

def Expects (slot : Nat) (engine : Option (SlotEngine F)) : Prop :=
  match rollout.last.payload slot with
  | some payload => ∀ accepted, loaders.load slot payload = some accepted → engine = some accepted
  | none => engine = none

def Converges : Prop :=
  ∀ slot < auroraExtCount, rollout.Expects loaders slot ((rollout.node loaders).process.at slot).1

end Rollout

/-! ## One slot -/

def firstPayload (slot : Nat) (memories : List PolicyMemory) : Option Bytes :=
  (memories.find? fun memory => (memory.slots slot).generation ≠ 0).map fun memory =>
    (memory.slots slot).data

theorem firstPayload_append (slot : Nat) (memories later : List PolicyMemory) :
    firstPayload slot (memories ++ later) =
      (firstPayload slot memories).or (firstPayload slot later) := by
  unfold firstPayload
  rw [List.find?_append]
  cases memories.find? fun memory => (memory.slots slot).generation ≠ 0 <;> rfl

def loadPayload (slot : Nat) (data : Bytes) : Option (SlotEngine F) :=
  if data.isEmpty then none else loaders.load slot data

/-- What holds of a slot after any number of releases, `seen` being the first payload that the
worker has read. -/
structure Tracks (slot : Nat) (node : Node F) (seen : Option Bytes) : Prop where
  reading : node.header.ensureHeader.readSlot slot = some (0, []) ∧ seen = none ∨
    ∃ data, node.header.ensureHeader.readSlot slot = some (1, data)
  kept : node.process.at slot = (seen.bind (loadPayload loaders slot), seen.elim 0 fun _ => 1)
  active : seen.isSome = true → node.process.active.isSome = true

theorem tracks_start {slot : Nat} (hslot : slot < auroraExtCount) :
    Tracks loaders slot (Node.start : Node F) none where
  reading := by
    refine .inl ⟨readSlot_ensureHeader_zeroed ?_, rfl⟩
    unfold auroraExtCount at hslot
    unfold policyMaxSlots
    omega
  kept := by
    unfold auroraExtCount at hslot
    interval_cases slot <;> rfl
  active := by simp

theorem publishedReading_one (payload : Option Bytes) {reading : Option (Nat × Bytes)}
    (h : reading = some (0, []) ∨ ∃ data, reading = some (1, data)) :
    publishedReading 1 payload reading = some (0, []) ∧ reading = some (0, []) ∨
      ∃ data, publishedReading 1 payload reading = some (1, data) := by
  unfold publishedReading
  cases payload with
  | none =>
    rcases h with rfl | ⟨data, rfl⟩
    · exact .inl ⟨rfl, rfl⟩
    · refine .inr ?_
      dsimp only
      split
      · exact ⟨data, rfl⟩
      · exact ⟨[], rfl⟩
  | some bytes =>
    dsimp only
    split
    · exact .inr ⟨bytes, rfl⟩
    · exact h.imp (fun h => ⟨h, h⟩) id

theorem slotGet_of_readSlot {header : PolicyShmHeader} {slot generation : Nat} {data : Bytes}
    (h : header.readSlot slot = some (generation, data)) :
    header.slotGet slot = ⟨generation, data⟩ := by
  rw [PolicyShmHeader.slotGet, h]

theorem reloaded_none (slot : Nat) (data : Bytes) :
    reloaded (loaders.load slot) data none = loadPayload loaders slot data := by
  rw [reloaded, loadPayload, Option.or_none]

/-! ## Runs -/

section Step

variable {slot : Nat} {node : Node F} {seen : Option Bytes}

theorem ensureHeader_publish (node : Node F) (release : Release compiler codec materializers) :
    (node.publish release).ensureHeader = node.publish release :=
  ensureHeader_of_initialised (initialised_syncPolicyToShm node.header)

section

variable (hslot : slot < auroraExtCount)
include hslot

section

variable (h : Tracks loaders slot node seen)
include h

theorem Tracks.readSlot_publish (release : Release compiler codec materializers) :
    (node.publish release).readSlot slot = some (0, []) ∧ seen = none ∨
      ∃ data, (node.publish release).readSlot slot = some (1, data) := by
  have hpublish : (node.publish release).readSlot slot =
      publishedReading 1 (release.payload slot) (node.header.ensureHeader.readSlot slot) := by
    rw [Node.publish, ControlPlane.releaseId_compileDocument compiler release.compiled]
    exact readSlot_syncPolicyToShm (List.mem_append_left _ (List.mem_range.mpr hslot)) _
  rw [hpublish]
  refine (publishedReading_one (release.payload slot) (h.reading.imp_left And.left)).imp_left ?_
  rintro ⟨hempty, hbefore⟩
  refine ⟨hempty, ?_⟩
  rcases h.reading with ⟨-, hseen⟩ | ⟨data, hdata⟩
  · exact hseen
  · cases hbefore.symm.trans hdata

theorem Tracks.at_policySync (release : Release compiler codec materializers)
    (hstale : ¬node.process.UpToDate (node.publish release).memory) :
    (node.apply loaders release).process.at slot =
      ((seen.or (firstPayload slot [(node.publish release).memory])).bind
          (loadPayload loaders slot),
        (seen.or (firstPayload slot [(node.publish release).memory])).elim 0 fun _ => 1) := by
  rw [Node.apply, Ffi.at_policySync loaders _ _ hslot, if_neg hstale, syncedSlot, h.kept]
  rcases h.readSlot_publish loaders hslot release with ⟨hread, rfl⟩ | ⟨data, hread⟩
  · have hslots : (node.publish release).memory.slots slot = ⟨0, []⟩ := slotGet_of_readSlot hread
    simp [hslots, firstPayload, reloaded]
  · have hslots : (node.publish release).memory.slots slot = ⟨1, data⟩ := slotGet_of_readSlot hread
    cases seen with
    | none => simp [hslots, firstPayload, reloaded_none]
    | some first =>
      have hactive : node.process.active.isNone = false := by
        simpa using h.active rfl
      simp [hslots, hactive]

theorem Tracks.apply (release : Release compiler codec materializers) :
    Tracks loaders slot (node.apply loaders release)
      (seen.or (firstPayload slot
        (if node.process.UpToDate (node.publish release).memory then []
          else [(node.publish release).memory]))) where
  reading := by
    rw [Node.apply, ensureHeader_publish]
    rcases h.readSlot_publish loaders hslot release with ⟨hread, rfl⟩ | hread
    · refine .inl ⟨hread, ?_⟩
      have hslots : (node.publish release).memory.slots slot = ⟨0, []⟩ :=
        slotGet_of_readSlot hread
      split
      · rfl
      · simp [firstPayload, hslots]
    · exact .inr hread
  kept := by
    by_cases hdone : node.process.UpToDate (node.publish release).memory
    · rw [if_pos hdone, Node.apply, Ffi.at_policySync loaders _ _ hslot, if_pos hdone, h.kept]
      simp [firstPayload]
    · rw [if_neg hdone]
      exact h.at_policySync loaders hslot release hdone
  active := fun _ => isSome_active_policySync loaders _ _

theorem Tracks.run (releases : List (Release compiler codec materializers)) :
    Tracks loaders slot (releases.foldl (Node.apply loaders) node)
      (seen.or (firstPayload slot (node.reads loaders releases))) := by
  induction releases generalizing node seen with
  | nil => simpa [Node.reads, firstPayload] using h
  | cons release releases ih =>
    rw [List.foldl_cons, Node.reads, firstPayload_append, ← Option.or_assoc]
    exact ih (h.apply loaders hslot release)

end

end

end Step

namespace Rollout

variable (rollout : Rollout compiler codec materializers)

def firstEngine (slot : Nat) : Option (SlotEngine F) :=
  (firstPayload slot (Node.start.reads loaders rollout.releases)).bind (loadPayload loaders slot)

theorem engine_node {slot : Nat} (hslot : slot < auroraExtCount) :
    ((rollout.node loaders).process.at slot).1 = rollout.firstEngine loaders slot := by
  have hrun := (tracks_start loaders hslot).run loaders hslot rollout.releases
  exact congrArg Prod.fst hrun.kept

end Rollout

/-- A rollout converges exactly if the last configuration asks, slot by slot, for the engine
that the first payload gave. -/
theorem hot_swap_converges_iff (rollout : Rollout compiler codec materializers) :
    rollout.Converges loaders ↔
      ∀ slot < auroraExtCount, rollout.Expects loaders slot (rollout.firstEngine loaders slot) := by
  refine forall₂_congr fun slot hslot => ?_
  rw [rollout.engine_node loaders hslot]

end Rollout

/-! ## A sample -/

def mirrorCompiler : Compiler where
  digest := some (.ofAscii "sha256")
  find := fun _ _ => some ⟨.ofAscii "request-mirror"⟩
  validateConfig := fun _ config => some config
  unmarshalOriginTls := fun _ => none
  unmarshalSnis := fun _ => none
  unmarshalServers := fun _ => none
  unmarshalAcl := fun _ => none
  sortByPriority := id
  marshalIndent := fun _ => some []
  sha256Hex := id

def objectCodec : JsonCodec where
  fromSlice := fun _ => some (.object [])
  toVec := fun _ => []
  masksToVec := fun _ => []

def mirrorLoaders : Loaders ℚ :=
  { (Loaders.empty : Loaders ℚ) with requestMirror := fun _ => some () }

def clusterConfig (extensions : List ControlPlane.SpecExtensionRecord) : SpecAuthorityData where
  upstreamsConf := .ofAscii ""
  routingRecords := []
  certificates := []
  extensions
  upstreamRecords := []
  l4Services := []

def mirrorRemoved : Rollout mirrorCompiler objectCodec fun _ _ _ directives => .ok directives where
  earlier := [
    { auth := some (clusterConfig
        [⟨.ofAscii "mirror", .ofAscii "builtin/request-mirror", 1, .ofAscii "\x7b\x7d"⟩])
      doc := _
      specJson := _
      hash := _
      compiled := rfl
      extensions := _
      renders := rfl }]
  last :=
    { auth := some (clusterConfig [])
      doc := _
      specJson := _
      hash := _
      compiled := rfl
      extensions := _
      renders := rfl }

theorem removed_mirror_stays_loaded :
    mirrorRemoved.last.payload auroraExtRequestMirror = none ∧
      ((mirrorRemoved.node mirrorLoaders).process.at auroraExtRequestMirror).1 =
        some (.requestMirror ()) ∧
      ¬mirrorRemoved.Converges mirrorLoaders := by
  have hpayload : mirrorRemoved.last.payload auroraExtRequestMirror = none := by rfl
  have hengine : ((mirrorRemoved.node mirrorLoaders).process.at auroraExtRequestMirror).1 =
      some (.requestMirror ()) := by
    rfl
  refine ⟨hpayload, hengine, fun hconverges => ?_⟩
  have hexpects := hconverges auroraExtRequestMirror (by decide)
  rw [hengine] at hexpects
  cases hexpects

end AuroraGateway.ControlWorker
