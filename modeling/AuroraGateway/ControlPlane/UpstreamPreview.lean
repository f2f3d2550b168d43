import AuroraGateway.ControlPlane.UpstreamBlocks
import Mathlib.Data.List.Nodup

/-!
# The preview of the upstreams

`GetDesiredSnapshot` renders the upstreams for the console, and the scheduler
renders them for the nodes.
-/

namespace AuroraGateway.ControlPlane

open ControlWorker Foundation

structure UpstreamItemRow extends UpstreamRow where
  dynamicDns : Bool

/-! ## Rendering of the preview -/

section Preview

variable (repo : SpecSyncRepository) (row : UpstreamItemRow)

def isHostName (address : Text) : Bool :=
  (repo.parseIp (((repo.splitHostPort address.bytes).map Prod.fst).getD address.bytes)).isNone

def previewAlgorithmLines : List Text :=
  if row.architectureType = loadBalancer ∧ row.algorithm ≠ roundRobin then
    [.ofAscii "    " ++ row.algorithm ++ .ofAscii ";"]
  else []

def previewSuffix (srv : ServerRecord) : Text :=
  if row.dynamicDns && isHostName repo srv.address then .ofAscii " resolve" else .ofAscii ""

def previewServerLine (srv : ServerRecord) : Text :=
  .ofAscii "    server " ++ srv.address ++
    Text.concat ((serverFlags row.toUpstreamRow srv).map fun flag => .ofAscii " " ++ flag) ++
    previewSuffix repo row srv ++ .ofAscii ";"

def previewLines : List Text :=
  openLine row.name :: zoneLine row.name :: previewAlgorithmLines row ++
    (repo.unmarshalServers row.serversJson).map (previewServerLine repo row) ++
    [keepAliveLine repo row.toUpstreamRow] ++ [closeLine, .ofAscii ""]

def generateNginxUpstreamsConf (rows : List UpstreamItemRow) : Text :=
  Text.concat ((headerLines ++ rows.flatMap (previewLines repo)).map fun line =>
    line ++ .ofAscii "\n")

end Preview

/-- At most a thousand upstreams, as the service accepts them, and the order of the list. -/
structure PreviewedTable where
  repo : SpecSyncRepository
  listOrder : RowOrder UpstreamItemRow
  rows : List UpstreamItemRow
  short : rows.length ≤ 1000
  names : (rows.map fun row => row.name).Nodup
  algorithms : ∀ row ∈ rows, row.algorithm.bytes ∈ balancingAlgorithms

namespace PreviewedTable

variable (t : PreviewedTable)

def listed : List UpstreamItemRow := (t.listOrder.sort t.rows).take 1000

def getDesiredSnapshot : Text :=
  if t.listed.isEmpty then .ofAscii "# No upstreams configured\n"
  else generateNginxUpstreamsConf t.repo t.listed

def deployed : List UpstreamRow :=
  t.repo.upstreamOrder.sort (t.rows.map UpstreamItemRow.toUpstreamRow)

def previewBlocks : List (List Text) := t.listed.map (previewLines t.repo)

def deployedBlocks : List (List Text) := t.deployed.map (upstreamLines t.repo)

def SameBlocks : Prop := t.previewBlocks.Perm t.deployedBlocks

/-- The text that is made of the blocks. -/
def confOf (blocks : List (List Text)) : Text :=
  if blocks.isEmpty then .ofAscii "# No upstreams configured\n"
  else Text.concat ((headerLines ++ blocks.flatten).map fun line => line ++ .ofAscii "\n")

theorem getDesiredSnapshot_eq : t.getDesiredSnapshot = confOf t.previewBlocks := by
  simp only [getDesiredSnapshot, generateNginxUpstreamsConf, confOf, previewBlocks,
    List.isEmpty_map, List.flatMap_def]

theorem renderUpstreams_eq : renderUpstreams t.repo t.deployed = confOf t.deployedBlocks := by
  simp only [renderUpstreams, confLines, confOf, deployedBlocks, List.isEmpty_map,
    List.flatMap_def]
  split <;> rfl

theorem listed_perm : t.listed.Perm t.rows := by
  have hperm := t.listOrder.perm t.rows
  rw [listed, List.take_of_length_le (hperm.length_eq.trans_le t.short)]
  exact hperm

variable {t} {row : UpstreamItemRow}

theorem algorithmLines_eq (hrow : row ∈ t.rows) :
    previewAlgorithmLines row = algorithmLines row.toUpstreamRow := by
  have hne : row.algorithm.bytes ≠ [] := by
    intro hnil
    have halgorithm := t.algorithms row hrow
    rw [hnil] at halgorithm
    revert halgorithm
    decide
  have hround : row.algorithm = roundRobin ↔ row.algorithm.bytes = ascii "round_robin" := by
    constructor
    · rintro h
      rw [h]
      rfl
    · exact openLine_injective ∘ congrArg fun bytes => ascii "upstream " ++ bytes ++ ascii " \x7b"
  simp only [previewAlgorithmLines, algorithmLines, hround, ne_eq, hne, not_false_eq_true,
    true_and]

theorem serverLine_eq_iff {srv : ServerRecord} :
    previewServerLine t.repo row srv = serverLine t.repo row.toUpstreamRow srv ↔
      row.dynamicDns = true ∨ isHostName t.repo srv.address = false := by
  have hsuffix : resolveSuffix t.repo srv.address =
      if isHostName t.repo srv.address then .ofAscii " resolve" else .ofAscii "" := rfl
  rw [previewServerLine, serverLine, previewSuffix, hsuffix]
  cases row.dynamicDns <;> cases isHostName t.repo srv.address <;> simp
  intro h
  simpa [Text.ofAscii, ascii] using congrArg (fun text => text.bytes.length) h

theorem lines_eq_iff (hrow : row ∈ t.rows) :
    previewLines t.repo row = upstreamLines t.repo row.toUpstreamRow ↔
      ∀ srv ∈ t.repo.unmarshalServers row.serversJson,
        row.dynamicDns = true ∨ isHostName t.repo srv.address = false := by
  simp only [← @serverLine_eq_iff t row]
  rw [← List.map_inj_left]
  simp [previewLines, upstreamLines, blockLines, algorithmLines_eq hrow]

/-- The preview shows the blocks that are deployed exactly if every upstream with a host name
among its addresses has its names resolved dynamically. -/
theorem same_blocks_iff :
    t.getDesiredSnapshot = confOf t.previewBlocks ∧
      renderUpstreams t.repo t.deployed = confOf t.deployedBlocks ∧
      (t.SameBlocks ↔ ∀ row ∈ t.rows, ∀ srv ∈ t.repo.unmarshalServers row.serversJson,
        row.dynamicDns = true ∨ isHostName t.repo srv.address = false) := by
  refine ⟨t.getDesiredSnapshot_eq, t.renderUpstreams_eq, ?_⟩
  have hdeployed : (t.deployed.map (upstreamLines t.repo)).Perm
      (t.rows.map fun row => upstreamLines t.repo row.toUpstreamRow) := by
    have hperm := (t.repo.upstreamOrder.perm (t.rows.map UpstreamItemRow.toUpstreamRow)).map
      (upstreamLines t.repo)
    rwa [List.map_map] at hperm
  constructor
  · intro h row hrow
    rw [← lines_eq_iff hrow]
    have hmem := (h.trans hdeployed).subset
      (List.mem_map_of_mem (t.listed_perm.mem_iff.mpr hrow))
    obtain ⟨other, hother, hlines⟩ := List.mem_map.mp hmem
    -- the first line tells which upstream the block is for
    have hname := openLine_injective (congrArg Text.bytes (List.cons.inj hlines).1)
    obtain rfl := List.inj_on_of_nodup_map t.names hother hrow hname
    exact hlines.symm
  · intro h
    refine (t.listed_perm.map _).trans (.trans (.of_eq ?_) hdeployed.symm)
    exact List.map_congr_left fun row hrow => (lines_eq_iff hrow).mpr (h row hrow)

end PreviewedTable

def namedBackend : PreviewedTable where
  repo := { sampleRepository with
    unmarshalServers := fun _ => [⟨.ofAscii "backend:8080", 1, 0, .ofAscii "", false⟩]
    splitHostPort := fun _ => some (ascii "backend", ascii "8080") }
  listOrder := .stored
  rows := [{ appRow with dynamicDns := false }]
  short := by decide
  names := by decide
  algorithms := by decide

theorem resolve_not_previewed :
    (∀ row ∈ namedBackend.rows, ∀ srv ∈ namedBackend.repo.unmarshalServers row.serversJson,
      previewServerLine namedBackend.repo row srv = .ofAscii "    server backend:8080;" ∧
        serverLine namedBackend.repo row.toUpstreamRow srv =
          .ofAscii "    server backend:8080 resolve;") ∧ ¬namedBackend.SameBlocks := by
  refine ⟨by decide +kernel, fun h => ?_⟩
  revert h
  unfold PreviewedTable.SameBlocks
  decide +kernel

end AuroraGateway.ControlPlane
