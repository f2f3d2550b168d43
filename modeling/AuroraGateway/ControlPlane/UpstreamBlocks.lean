import AuroraGateway.ControlPlane.AuthorityData
import AuroraGateway.Foundation.Delimited

/-!
# The blocks of the upstreams

The tables as their constraints and the checks of the services leave them, and
what can be read back from the text that is rendered for the upstreams.
-/

namespace AuroraGateway.ControlPlane

open ControlWorker Foundation

def newline : UInt8 := 0x0A

def roundRobin : Text := .ofAscii "round_robin"

def balancingAlgorithms : List Bytes :=
  [ascii "round_robin", ascii "least_conn", ascii "ip_hash"]

def OneLine (text : Text) : Prop := newline ∉ text.bytes

instance : DecidablePred OneLine := fun text => inferInstanceAs (Decidable (newline ∉ text.bytes))

def isNameByte (byte : UInt8) : Bool :=
  isAsciiAlphanumeric byte || decide (byte ∈ ascii "_-")

structure StoredTables (repo : SpecSyncRepository) extends Tables where
  names : (upstreams.map UpstreamRow.name).Nodup
  name_ne_nil : ∀ row ∈ upstreams, row.name.bytes ≠ []
  name_bytes : ∀ row ∈ upstreams, row.name.bytes.all isNameByte = true
  algorithms : ∀ row ∈ upstreams, row.algorithm.bytes ∈ balancingAlgorithms
  server_lines : ∀ row ∈ upstreams, ∀ srv ∈ repo.unmarshalServers row.serversJson,
    OneLine srv.address ∧ OneLine srv.failTimeout
  rowids : ∀ row ∈ routes, 0 < row.rowid
  hosts : ∀ row ∈ routes, row.host.bytes ≠ []
  certificateIds : (certificates.map fun row => row.id).Nodup
  listeners : (l4Services.map fun row => (row.protocol, row.listenPort)).Nodup

namespace OneLine

theorem append {left right : Text} (hleft : OneLine left) (hright : OneLine right) :
    OneLine (left ++ right) := by
  simp only [OneLine, Text.bytes_append, List.mem_append, not_or]
  exact ⟨hleft, hright⟩

theorem concat {texts : List Text} (h : ∀ text ∈ texts, OneLine text) :
    OneLine (Text.concat texts) := by
  simp only [OneLine, Text.bytes_concat, List.mem_flatMap, not_exists, not_and]
  exact h

theorem decimal (n : Nat) : OneLine (.decimal n) := by
  intro h
  have hdigit := isAsciiDigit_of_mem_decimal h
  simp [isAsciiDigit, newline] at hdigit

theorem of_nameBytes {text : Text} (h : text.bytes.all isNameByte = true) : OneLine text := by
  intro hmem
  have hname := List.all_eq_true.mp h newline hmem
  revert hname
  decide

theorem of_algorithm {text : Text} (h : text.bytes ∈ balancingAlgorithms) : OneLine text := by
  intro hmem
  simp only [balancingAlgorithms, List.mem_cons, List.not_mem_nil, or_false] at h
  rcases h with h | h | h <;>
    · rw [h] at hmem
      revert hmem
      decide

end OneLine

section Lines

variable (repo : SpecSyncRepository)

theorem oneLine_serverLine (row : UpstreamRow) {srv : ServerRecord}
    (haddress : OneLine srv.address) (htimeout : OneLine srv.failTimeout) :
    OneLine (serverLine repo row srv) := by
  have hflags : ∀ flag ∈ serverFlags row srv, OneLine flag := by
    intro flag hflag
    simp only [serverFlags, List.mem_append, List.mem_ite_nil_right, List.mem_ite_nil_left,
      List.mem_singleton] at hflag
    rcases hflag with ((⟨-, rfl⟩ | ⟨-, rfl⟩) | ⟨-, rfl⟩) | ⟨-, rfl⟩
    · exact .append (by decide) (.decimal _)
    · exact .append (by decide) (.decimal _)
    · exact .append (by decide) htimeout
    · decide
  have hsuffix : OneLine (resolveSuffix repo srv.address) := by
    dsimp only [resolveSuffix]
    split
    · decide
    · decide
  refine .append (.append (.append (.append (by decide) haddress) (.concat ?_)) hsuffix) (by decide)
  simp only [List.forall_mem_map]
  exact fun flag hflag => .append (by decide) (hflags flag hflag)

def Indented (line : Text) : Prop := line.bytes.head? = some 0x20

theorem indented_blockLines (row : UpstreamRow) :
    ∀ line ∈ blockLines repo row, Indented line := by
  intro line hline
  simp only [blockLines, algorithmLines, List.mem_append, List.mem_cons, List.mem_map,
    List.mem_ite_nil_right, List.not_mem_nil, or_false] at hline
  rcases hline with ((rfl | ⟨-, rfl⟩) | ⟨srv, -, rfl⟩) | rfl
  all_goals rfl

end Lines

section Stored

variable {repo : SpecSyncRepository} (db : StoredTables repo)

variable {row : UpstreamRow} {rows : List UpstreamRow}

theorem oneLine_blockLines (hrow : row ∈ db.upstreams) :
    ∀ line ∈ blockLines repo row, OneLine line := by
  have hname := OneLine.of_nameBytes (db.name_bytes row hrow)
  intro line hline
  simp only [blockLines, algorithmLines, List.mem_append, List.mem_cons, List.mem_map,
    List.mem_ite_nil_right, List.not_mem_nil, or_false] at hline
  rcases hline with ((rfl | ⟨-, rfl⟩) | ⟨srv, hsrv, rfl⟩) | rfl
  · exact .append (.append (by decide) hname) (by decide)
  · exact .append (.append (by decide) (.of_algorithm (db.algorithms row hrow))) (by decide)
  · obtain ⟨haddress, htimeout⟩ := db.server_lines row hrow srv hsrv
    exact oneLine_serverLine repo row haddress htimeout
  · exact .append (.append (by decide) (.decimal _)) (by decide)

theorem oneLine_confLines (hrows : rows ⊆ db.upstreams) :
    ∀ line ∈ confLines repo rows, OneLine line := by
  intro line hline
  unfold confLines at hline
  split at hline
  · obtain rfl := List.mem_singleton.mp hline
    decide
  · rcases List.mem_append.mp hline with hheader | hblock
    · have hheaders : ∀ line ∈ headerLines, OneLine line := by decide +kernel
      exact hheaders line hheader
    · obtain ⟨row, hrow, hline⟩ := List.mem_flatMap.mp hblock
      simp only [upstreamLines, List.cons_append, List.mem_cons, List.mem_append,
        List.not_mem_nil, or_false] at hline
      rcases hline with rfl | hbody | rfl | rfl
      · have hname := OneLine.of_nameBytes (db.name_bytes row (hrows hrow))
        exact .append (.append (by decide) hname) (by decide)
      · exact oneLine_blockLines db (hrows hrow) line hbody
      · decide
      · decide

theorem splitOn_renderUpstreams (hrows : rows ⊆ db.upstreams) :
    (renderUpstreams repo rows).bytes.splitOn newline =
      (confLines repo rows).map Text.bytes ++ [[]] := by
  have hlines : (renderUpstreams repo rows).bytes =
      ((confLines repo rows).map Text.bytes).flatMap fun line => line ++ [newline] := by
    simp only [renderUpstreams, Text.bytes_concat, List.flatMap_map]
    rfl
  rw [hlines, splitOn_terminated]
  simp only [List.forall_mem_map]
  exact oneLine_confLines db hrows

def HasBlock (conf : Bytes) (name : Text) (body : List Bytes) : Prop :=
  closeLine.bytes ∉ body ∧ ∃ before after,
    conf.splitOn newline =
      before ++ (openLine name).bytes :: (body ++ closeLine.bytes :: after)

theorem openLine_injective {name name' : Text}
    (h : (openLine name).bytes = (openLine name').bytes) : name = name' := by
  have hbytes : name.bytes = name'.bytes := by simpa [openLine] using h
  cases name
  cases hbytes
  rfl

theorem head_openLine (name : Text) : (openLine name).bytes.head? = some 0x75 := rfl

def preamble (rows : List UpstreamRow) : List Text :=
  if rows.isEmpty then [.ofAscii "# No upstreams configured"] else headerLines

theorem confLines_eq (rows : List UpstreamRow) :
    confLines repo rows = preamble rows ++ rows.flatMap (upstreamLines repo) := by
  cases rows with
  | nil => rfl
  | cons row rows => rfl

theorem openLine_not_mem_preamble (name : Text) (rows : List UpstreamRow) :
    (openLine name).bytes ∉ (preamble rows).map Text.bytes := by
  have hheads : ∀ rows : List UpstreamRow, ∀ line ∈ preamble rows,
      line.bytes.head? ≠ some 0x75 := by
    intro rows
    cases rows with
    | nil =>
      decide +kernel
    | cons row rows =>
      change ∀ line ∈ headerLines, line.bytes.head? ≠ some 0x75
      decide +kernel
  intro hmem
  obtain ⟨line, hline, heq⟩ := List.mem_map.mp hmem
  exact hheads rows line hline (by rw [heq, head_openLine])

theorem head_of_mem_block {line : Bytes}
    (h : line ∈ (blockLines repo row).map Text.bytes) : line.head? = some 0x20 := by
  obtain ⟨text, htext, rfl⟩ := List.mem_map.mp h
  exact indented_blockLines repo row text htext

theorem closeLine_not_mem_block (row : UpstreamRow) :
    closeLine.bytes ∉ (blockLines repo row).map Text.bytes := by
  intro hmem
  cases head_of_mem_block hmem

theorem openLine_not_mem_block (name : Text) (row : UpstreamRow) :
    (openLine name).bytes ∉ (blockLines repo row).map Text.bytes := by
  intro hmem
  cases (head_openLine name).symm.trans (head_of_mem_block hmem)

theorem map_flatMap_upstreamLines (rows : List UpstreamRow) :
    (rows.flatMap (upstreamLines repo)).map Text.bytes =
      rows.flatMap fun row => (openLine row.name).bytes ::
        (blockLines repo row).map Text.bytes ++ [closeLine.bytes, []] := by
  rw [List.map_flatMap]
  simp [upstreamLines, Text.ofAscii, ascii]

theorem hasBlock_iff (hrows : rows ⊆ db.upstreams) {name : Text}
    {body : List Bytes} :
    HasBlock (renderUpstreams repo rows).bytes name body ↔
      ∃ row ∈ rows, row.name = name ∧ (blockLines repo row).map Text.bytes = body := by
  unfold HasBlock
  rw [splitOn_renderUpstreams db hrows, confLines_eq, List.map_append, List.append_assoc,
    map_flatMap_upstreamLines]
  constructor
  · rintro ⟨hinner, before, after, hlines⟩
    obtain ⟨gap, -, hrest⟩ := exists_gap (openLine_not_mem_preamble name rows) hlines
    obtain ⟨row, hrow, hname, hbody⟩ := exists_block
      (fun row _ => openLine_not_mem_block name row) (fun h => by cases congrArg List.head? h)
      (fun h => by cases congrArg List.head? h)
      (fun h => by cases congrArg List.head? (List.mem_singleton.mp h)) hinner
      (fun row _ => closeLine_not_mem_block row) hrest
    exact ⟨row, hrow, openLine_injective hname, hbody⟩
  · rintro ⟨row, hrow, rfl, rfl⟩
    refine ⟨closeLine_not_mem_block row, ?_⟩
    obtain ⟨before, after, rfl⟩ := List.append_of_mem hrow
    simp only [List.flatMap_append, List.flatMap_cons, List.append_assoc, List.cons_append,
      List.nil_append]
    rw [← List.append_assoc]
    exact ⟨_, _, rfl⟩

end Stored

def appRow : UpstreamRow where
  id := 1
  name := .ofAscii "app"
  architectureType := .ofAscii "Single Server"
  algorithm := roundRobin
  serversJson := .ofAscii "[]"
  transportJson := .ofAscii "\x7b\x7d"
  internalSslJson := .ofAscii "\x7b\x7d"
  version := 1

end AuroraGateway.ControlPlane
