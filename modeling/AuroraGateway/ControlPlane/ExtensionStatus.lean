import AuroraGateway.ControlPlane.AuthorityData
import AuroraGateway.Foundation.Runs
import Mathlib.Data.List.Nodup

/-!
# Enabling and configuring extensions

Two calls change an extension instance.  Each reads the instance, checks what
it is about to do, and writes.  A configuration is checked for what its manifest
requires of an enabled extension only when the extension is enabled.
-/

namespace AuroraGateway.ControlPlane

open Foundation

/-! ## The catalog -/

structure ExtensionManifest where
  key : Text
  version : Nat
  requiredForEnable : List Bytes

/-- The manifests, the check of a configuration against the schema of its manifest, which
gives canonical JSON, and the decoder of an object. -/
structure ExtensionCatalog where
  find : Text → Nat → Option ExtensionManifest
  validateConfig : ExtensionManifest → Text → Option Text
  unmarshal : Text → Option (List (Bytes × Json))

def emptyRequiredValue : Json → Bool
  | .null => true
  | .string value => (trim value).isEmpty
  | .array items => items.isEmpty
  | .object members => members.isEmpty
  | _ => false

def hasRequired (config : List (Bytes × Json)) (field : Bytes) : Bool :=
  ((Json.object config).get? field).any fun value => !emptyRequiredValue value

def validateForEnable (catalog : ExtensionCatalog) (manifest : ExtensionManifest) (raw : Text) :
    Bool :=
  (catalog.validateConfig manifest raw).any fun canonical =>
    manifest.requiredForEnable.isEmpty ||
      (catalog.unmarshal canonical).any fun config =>
        manifest.requiredForEnable.all (hasRequired config)

/-! ## Calls -/

inductive ExtensionChange where
  | status (enabled : Bool)
  | config (canonical : Text)

def ExtensionChange.apply (row : ExtensionRow) : ExtensionChange → ExtensionRow
  | .status enabled => { row with enabled }
  | .config canonical => { row with configJson := canonical }

/-- A call that has passed its check, with the record that it read. -/
structure PendingUpdate where
  record : ExtensionRow
  change : ExtensionChange

structure ExtensionStore where
  instances : List ExtensionRow
  pending : List PendingUpdate

inductive ExtensionRequest where
  | status (enabled : Bool)
  | config (raw : Text)

inductive ExtensionAction where
  | read (id : Text) (request : ExtensionRequest)
  | write (index : Nat)

namespace ExtensionStore

variable (catalog : ExtensionCatalog) (s : ExtensionStore)

def getExtension (id : Text) : Option ExtensionRow :=
  s.instances.find? fun row => row.id = id

def checkStatus (record : ExtensionRow) (enabled : Bool) : Option ExtensionChange :=
  if enabled then do
    let manifest ← catalog.find record.manifestKey record.manifestVersion
    if validateForEnable catalog manifest record.configJson then some (.status true) else none
  else some (.status false)

def checkConfig (record : ExtensionRow) (raw : Text) : Option ExtensionChange := do
  let manifest ← catalog.find record.manifestKey record.manifestVersion
  (catalog.validateConfig manifest raw).map .config

def check (record : ExtensionRow) : ExtensionRequest → Option ExtensionChange
  | .status enabled => checkStatus catalog record enabled
  | .config raw => checkConfig catalog record raw

def updated (update : PendingUpdate) (row : ExtensionRow) : ExtensionRow :=
  if row.id = update.record.id then update.change.apply row else row

def step : ExtensionAction → Option ExtensionStore
  | .read id request => do
      let record ← s.getExtension id
      let change ← check catalog record request
      some { s with pending := s.pending ++ [⟨record, change⟩] }
  | .write index => do
      let update ← s.pending[index]?
      if s.instances.any fun row => row.id = update.record.id then
        some ⟨s.instances.map (updated update), s.pending.eraseIdx index⟩
      else none

/-! ## Enabled instances -/

def Fit (row : ExtensionRow) : Prop :=
  ∃ manifest, catalog.find row.manifestKey row.manifestVersion = some manifest ∧
    validateForEnable catalog manifest row.configJson = true

def AllFit : Prop :=
  ∀ row ∈ s.instances, row.enabled = true → Fit catalog row

/-- If another call has configured an instance since the call that enables it has read it, the
configuration is fit, and so is one that is written into an enabled instance. -/
def WritesFit : ExtensionAction → Prop
  | .write index => ∀ update ∈ s.pending[index]?, ∀ row ∈ s.instances,
      row.id = update.record.id →
      match update.change with
      | .status enabled =>
        enabled = true → row.configJson ≠ update.record.configJson → Fit catalog row
      | .config canonical => row.enabled = true → Fit catalog { row with configJson := canonical }
  | _ => True

/-- Ids are primary keys, and a call that enables an instance has found the configuration that it
read to be fit. -/
structure Inv : Prop where
  ids : (s.instances.map fun row => row.id).Nodup
  checked : ∀ update ∈ s.pending, update.change = .status true →
    ∀ row ∈ s.instances, row.id = update.record.id →
      Fit catalog { row with configJson := update.record.configJson }

variable {catalog} {s t : ExtensionStore} {action : ExtensionAction}

theorem write_cases {index : Nat} (h : step catalog s (.write index) = some t) :
    ∃ update ∈ s.pending[index]?,
      t = ⟨s.instances.map (updated update), s.pending.eraseIdx index⟩ := by
  obtain ⟨update, hupdate, h⟩ := Option.bind_eq_some_iff.mp h
  split at h
  · exact ⟨update, hupdate, (Option.some.inj h).symm⟩
  · cases h

theorem fit_of_check {record : ExtensionRow} {request : ExtensionRequest}
    (h : check catalog record request = some (.status true)) : Fit catalog record := by
  cases request with
  | status enabled =>
    cases enabled with
    | false => cases h
    | true =>
      obtain ⟨manifest, hmanifest, h⟩ := Option.bind_eq_some_iff.mp h
      exact ⟨manifest, hmanifest, (Option.ite_none_right_eq_some.mp h).1⟩
  | config raw =>
    obtain ⟨manifest, -, h⟩ := Option.bind_eq_some_iff.mp h
    obtain ⟨canonical, -, h⟩ := Option.map_eq_some_iff.mp h
    cases h

theorem read_cases {id : Text} {request : ExtensionRequest}
    (h : step catalog s (.read id request) = some t) :
    ∃ record ∈ s.instances, ∃ change, check catalog record request = some change ∧
      t = { s with pending := s.pending ++ [⟨record, change⟩] } := by
  obtain ⟨record, hrecord, h⟩ := Option.bind_eq_some_iff.mp h
  obtain ⟨change, hcheck, h⟩ := Option.bind_eq_some_iff.mp h
  have hmem := List.mem_of_find?_eq_some hrecord
  exact ⟨record, hmem, change, hcheck, (Option.some.inj h).symm⟩

theorem updated_cases (update : PendingUpdate) (row : ExtensionRow) :
    (updated update row).id = row.id ∧ ∀ configJson,
      Fit catalog { row with configJson } → Fit catalog { updated update row with configJson } := by
  unfold updated
  split
  · cases update.change <;> exact ⟨rfl, fun _ hfit => hfit⟩
  · exact ⟨rfl, fun _ hfit => hfit⟩

theorem Inv.step (hs : Inv catalog s) (h : step catalog s action = some t) : Inv catalog t := by
  cases action with
  | read id request =>
    obtain ⟨record, hmem, change, hcheck, rfl⟩ := read_cases h
    refine ⟨hs.ids, fun pending hpending henabled row hrow hid => ?_⟩
    rcases List.mem_append.mp hpending with hold | hnew
    · exact hs.checked pending hold henabled row hrow hid
    · obtain rfl := List.mem_singleton.mp hnew
      obtain rfl := List.inj_on_of_nodup_map hs.ids hrow hmem hid
      obtain rfl : change = .status true := henabled
      exact fit_of_check hcheck
  | write index =>
    obtain ⟨update, -, rfl⟩ := write_cases h
    constructor
    · rw [List.map_map]
      have hids : (fun row : ExtensionRow => row.id) ∘ updated update = fun row => row.id :=
        funext fun row => (@updated_cases catalog update row).1
      rw [hids]
      exact hs.ids
    · intro pending hpending henabled row hrow hid
      obtain ⟨old, hold, rfl⟩ := List.mem_map.mp hrow
      obtain ⟨hsame, hfit⟩ := @updated_cases catalog update old
      have hpending := List.mem_of_mem_eraseIdx hpending
      exact hfit _ (hs.checked pending hpending henabled old hold (hsame.symm.trans hid))

theorem writesFit_iff (hs : Inv catalog s) (hfit : AllFit catalog s)
    (h : step catalog s action = some t) :
    WritesFit catalog s action ↔ AllFit catalog t := by
  cases action with
  | read id request =>
    obtain ⟨record, -, change, -, rfl⟩ := read_cases h
    exact iff_of_true trivial hfit
  | write index =>
    obtain ⟨update, hupdate, rfl⟩ := write_cases h
    have hchecked := hs.checked update (List.mem_of_getElem? hupdate)
    rw [AllFit, List.forall_mem_map, WritesFit, hupdate]
    simp only [Option.mem_some, forall_eq']
    refine forall₂_congr fun row hrow => ?_
    unfold updated
    by_cases hid : row.id = update.record.id
    · rw [if_pos hid, forall_prop_of_true hid]
      cases hchange : update.change with
      | status enabled =>
        refine forall_congr' fun henabled => ⟨fun hwritten => ?_, fun hrowFit _ => hrowFit⟩
        obtain rfl : enabled = true := henabled
        by_cases hsame : row.configJson = update.record.configJson
        · have hrowFit := hchecked hchange row hrow hid
          rw [← hsame] at hrowFit
          exact hrowFit
        · exact hwritten hsame
      | config canonical => exact Iff.rfl
    · rw [if_neg hid]
      exact iff_of_true (fun h => absurd h hid) (hfit row hrow)

end ExtensionStore

structure ExtensionRun where
  catalog : ExtensionCatalog
  instances : List ExtensionRow
  distinct : (instances.map fun row => row.id).Nodup
  disabled : ∀ row ∈ instances, row.enabled = false
  actions : List ExtensionAction
  final : ExtensionStore
  ran : execute (ExtensionStore.step catalog) ⟨instances, []⟩ actions = some final

namespace ExtensionRun

variable (run : ExtensionRun)

/-- Every enabled instance is fit to be enabled in every state of a run exactly if no call that
enables an instance, or that configures an enabled one, writes over an unfit configuration. -/
theorem enabled_fit_iff :
    (∀ before s, before <+: run.actions →
        execute (ExtensionStore.step run.catalog) ⟨run.instances, []⟩ before = some s →
        s.AllFit run.catalog) ↔
      RunsUnder (ExtensionStore.step run.catalog) (ExtensionStore.WritesFit run.catalog)
        ⟨run.instances, []⟩ run.actions run.final := by
  have hstart : ExtensionStore.AllFit run.catalog ⟨run.instances, []⟩ := by
    intro row hrow henabled
    rw [run.disabled row hrow] at henabled
    cases henabled
  have hinv : ExtensionStore.Inv run.catalog ⟨run.instances, []⟩ := ⟨run.distinct, by simp⟩
  exact (RunsUnder.iff_forall_states ExtensionStore.Inv.step ExtensionStore.writesFit_iff hinv
    hstart run.ran).symm

end ExtensionRun

/-! ## An extension that is emptied after it was enabled -/

def oneRule : Text := .ofAscii "\x7b\"rules\":[\x7b\x7d]\x7d"

def noRules : Text := .ofAscii "\x7b\"rules\":[]\x7d"

/-- The rules of `jwt-authentication` may be empty, but not when it is enabled. -/
def jwtCatalog : ExtensionCatalog where
  find := fun key version =>
    if key = .ofAscii "builtin/jwt-authentication" ∧ version = 1 then
      some ⟨key, version, [ascii "rules"]⟩
    else none
  validateConfig := fun _ raw => if raw = oneRule ∨ raw = noRules then some raw else none
  unmarshal := fun text =>
    if text = oneRule then some [(ascii "rules", .array [.object []])]
    else if text = noRules then some [(ascii "rules", .array [])]
    else none

def jwtInstance : ExtensionRow where
  id := .ofAscii "jwt-authentication"
  manifestKey := .ofAscii "builtin/jwt-authentication"
  manifestVersion := 1
  configJson := oneRule
  enabled := false

def emptiedRun : ExtensionRun where
  catalog := jwtCatalog
  instances := [jwtInstance]
  distinct := List.nodup_singleton _
  disabled := by simp [jwtInstance]
  actions := [.read jwtInstance.id (.status true), .write 0,
    .read jwtInstance.id (.config noRules), .write 0]
  final := ⟨[{ jwtInstance with enabled := true, configJson := noRules }], []⟩
  ran := rfl

theorem emptied_after_enable :
    execute (ExtensionStore.step jwtCatalog) ⟨[jwtInstance], []⟩ emptiedRun.actions =
        some emptiedRun.final ∧
      ¬emptiedRun.final.AllFit jwtCatalog := by
  refine ⟨emptiedRun.ran, ?_⟩
  intro hfit
  obtain ⟨manifest, hmanifest, hvalid⟩ := hfit _ List.mem_cons_self rfl
  obtain rfl := Option.some.inj hmanifest
  revert hvalid
  decide

end AuroraGateway.ControlPlane
