import AuroraGateway.ControlPlane.Documents
import AuroraGateway.ControlPlane.Reconcile
import AuroraGateway.ControlPlane.References

/-!
# The loop of the scheduler

Writers change the tables and then send into a channel that holds one trigger;
a send into the full channel is dropped.  The loop takes a trigger and
reconciles, query by query, while the writers go on.
-/

namespace AuroraGateway.ControlPlane

open ControlWorker Foundation

/-! ## Queries one by one -/

inductive Query where
  | upstreams
  | routing
  | certificates
  | extensions
  | unifiedUpstreams
  | l4Services
  deriving DecidableEq

namespace Query

def all : List Query :=
  [.upstreams, .routing, .certificates, .extensions, .unifiedUpstreams, .l4Services]

theorem mem_all (query : Query) : query ∈ all := by
  cases query <;> decide

def copy (source data : SpecAuthorityData) : Query → SpecAuthorityData
  | .upstreams => { data with upstreamsConf := source.upstreamsConf }
  | .routing => { data with routingRecords := source.routingRecords }
  | .certificates => { data with certificates := source.certificates }
  | .extensions => { data with extensions := source.extensions }
  | .unifiedUpstreams => { data with upstreamRecords := source.upstreamRecords }
  | .l4Services => { data with l4Services := source.l4Services }

def Agrees (left right : SpecAuthorityData) : Query → Prop
  | .upstreams => left.upstreamsConf = right.upstreamsConf
  | .routing => left.routingRecords = right.routingRecords
  | .certificates => left.certificates = right.certificates
  | .extensions => left.extensions = right.extensions
  | .unifiedUpstreams => left.upstreamRecords = right.upstreamRecords
  | .l4Services => left.l4Services = right.l4Services

variable {left right third : SpecAuthorityData} {query other : Query}

theorem Agrees.refl (data : SpecAuthorityData) (query : Query) : query.Agrees data data := by
  cases query <;> rfl

theorem Agrees.trans (h : query.Agrees left right) (h' : query.Agrees right third) :
    query.Agrees left third := by
  cases query <;> exact Eq.trans h h'

theorem agrees_copy (left right : SpecAuthorityData) (query : Query) :
    query.Agrees left (query.copy left right) := by
  cases query <;> rfl

theorem agrees_copy_other (h : other ≠ query) :
    other.Agrees third (query.copy left right) ↔ other.Agrees third right := by
  cases query <;> cases other <;> first | exact absurd rfl h | exact Iff.rfl

theorem eq_of_agrees (h : ∀ query : Query, query.Agrees left right) : left = right := by
  obtain ⟨_, _, _, _, _, _⟩ := left
  cases h .upstreams
  cases h .routing
  cases h .certificates
  cases h .extensions
  cases h .unifiedUpstreams
  cases h .l4Services
  rfl

end Query

def noData : SpecAuthorityData := ⟨.ofAscii "", [], [], [], [], []⟩

theorem foldl_copy_all (repo : SpecSyncRepository) (tables : Tables) :
    Query.all.foldl (fun data query => query.copy (authority repo tables) data) noData =
      authority repo tables := rfl

/-! ## The scheduler -/

inductive Phase where
  | created
  | reading (data : SpecAuthorityData) (rest : List Query)
  | comparing (doc : Spec) (json hash : Bytes)
  | publishing (doc : Spec) (json hash : Bytes)
  | waiting
  | stopped

/-- The tables and the scheduler, with the number of the writers that have not sent yet.  The
states that were committed and the documents that were published are kept for reference. -/
structure SchedulerState (repo : SpecSyncRepository) where
  tables : StoredTables repo
  releases : ReleaseTable
  triggered : Bool
  unsent : Nat
  phase : Phase
  committed : List (StoredTables repo)
  published : List (Spec × Bytes × Bytes)

inductive SchedulerEvent (repo : SpecSyncRepository) where
  | commit (tables : StoredTables repo)
  | triggerReconcile
  | start
  | query
  | compile
  | getActive
  | publish
  | receive
  | stop

namespace SchedulerState

section Steps

variable (scheduler : SpecScheduler)

def initial (tables : StoredTables scheduler.repo) (releases : ReleaseTable) :
    SchedulerState scheduler.repo where
  tables
  releases
  triggered := false
  unsent := 0
  phase := .created
  committed := [tables]
  published := []

/-- The start and every trigger lead to a reconciliation, which begins with the first query. -/
def step (s : SchedulerState scheduler.repo) :
    SchedulerEvent scheduler.repo → Option (SchedulerState scheduler.repo)
  | .commit tables =>
    some { s with tables, unsent := s.unsent + 1, committed := s.committed ++ [tables] }
  | .triggerReconcile =>
    if s.unsent = 0 then none else some { s with triggered := true, unsent := s.unsent - 1 }
  | .start =>
    match s.phase with
    | .created => some { s with phase := .reading noData Query.all }
    | _ => none
  | .query =>
    match s.phase with
    | .reading data (query :: rest) =>
      let data := query.copy (authority scheduler.repo s.tables.toTables) data
      some { s with phase := .reading data rest }
    | _ => none
  | .compile =>
    match s.phase with
    | .reading data [] =>
      match compileDocument scheduler.compiler (some data) with
      | .ok (doc, json, hash) => some { s with phase := .comparing doc json hash }
      | .error _ => none
    | _ => none
  | .getActive =>
    match s.phase with
    | .comparing doc json hash =>
      if s.releases.getActiveSpecRelease.map ClusterSpecRelease.digest = some hash then
        some { s with phase := .waiting }
      else some { s with phase := .publishing doc json hash }
    | _ => none
  | .publish =>
    match s.phase with
    | .publishing doc json hash =>
      some { s with
        releases := s.releases.publishSpecRelease hash json
        phase := .waiting
        published := s.published ++ [(doc, json, hash)] }
    | _ => none
  | .receive =>
    match s.phase, s.triggered with
    | .waiting, true =>
      some { s with triggered := false, phase := .reading noData Query.all }
    | _, _ => none
  | .stop =>
    match s.phase with
    | .waiting => some { s with phase := .stopped }
    | _ => none

end Steps

section Runs

variable {scheduler : SpecScheduler} {s t : SchedulerState scheduler.repo}
  {event : SchedulerEvent scheduler.repo}

def activeDigest (s : SchedulerState scheduler.repo) : Option Bytes :=
  s.releases.getActiveSpecRelease.map ClusterSpecRelease.digest

theorem step_cases (h : step scheduler s event = some t) :
    (∃ tables, event = .commit tables ∧
      t = { s with tables, unsent := s.unsent + 1, committed := s.committed ++ [tables] }) ∨
    (event = .triggerReconcile ∧ t = { s with triggered := true, unsent := s.unsent - 1 }) ∨
    ((event = .start ∧ s.phase = .created ∨ event = .receive ∧ s.phase = .waiting) ∧
      ∃ triggered, t = { s with triggered, phase := .reading noData Query.all }) ∨
    (∃ data query rest, event = .query ∧ s.phase = .reading data (query :: rest) ∧
      t = { s with
        phase := .reading (query.copy (authority scheduler.repo s.tables.toTables) data) rest }) ∨
    (∃ data doc json hash, event = .compile ∧ s.phase = .reading data [] ∧
      compileDocument scheduler.compiler (some data) = .ok (doc, json, hash) ∧
      t = { s with phase := .comparing doc json hash }) ∨
    (∃ doc json hash, event = .getActive ∧ s.phase = .comparing doc json hash ∧
      s.activeDigest = some hash ∧ t = { s with phase := .waiting }) ∨
    (∃ doc json hash, event = .getActive ∧ s.phase = .comparing doc json hash ∧
      t = { s with phase := .publishing doc json hash }) ∨
    (∃ doc json hash, event = .publish ∧ s.phase = .publishing doc json hash ∧
      t = { s with
        releases := s.releases.publishSpecRelease hash json
        phase := .waiting
        published := s.published ++ [(doc, json, hash)] }) ∨
    (event = .stop ∧ s.phase = .waiting ∧ t = { s with phase := .stopped }) := by
  cases event with
  | commit tables => exact .inl ⟨tables, rfl, (Option.some.inj h).symm⟩
  | triggerReconcile =>
    obtain ⟨-, h⟩ := of_guard h
    exact .inr (.inl ⟨rfl, (Option.some.inj h).symm⟩)
  | start =>
    simp only [step] at h
    split at h
    · rename_i hphase
      exact .inr (.inr (.inl ⟨.inl ⟨rfl, hphase⟩, s.triggered, (Option.some.inj h).symm⟩))
    · cases h
  | query =>
    simp only [step] at h
    split at h
    · rename_i data query rest hphase
      exact .inr (.inr (.inr (.inl ⟨data, query, rest, rfl, hphase, (Option.some.inj h).symm⟩)))
    · cases h
  | compile =>
    simp only [step] at h
    split at h
    · rename_i data hphase
      split at h
      · rename_i doc json hash hcompile
        exact .inr (.inr (.inr (.inr (.inl ⟨data, doc, json, hash, rfl, hphase, hcompile,
          (Option.some.inj h).symm⟩))))
      · cases h
    · cases h
  | getActive =>
    simp only [step] at h
    split at h
    · rename_i doc json hash hphase
      split at h
      · rename_i hactive
        exact .inr (.inr (.inr (.inr (.inr (.inl ⟨doc, json, hash, rfl, hphase, hactive,
          (Option.some.inj h).symm⟩)))))
      · exact .inr (.inr (.inr (.inr (.inr (.inr (.inl ⟨doc, json, hash, rfl, hphase,
          (Option.some.inj h).symm⟩))))))
    · cases h
  | publish =>
    simp only [step] at h
    split at h
    · rename_i doc json hash hphase
      exact .inr (.inr (.inr (.inr (.inr (.inr (.inr (.inl ⟨doc, json, hash, rfl, hphase,
        (Option.some.inj h).symm⟩)))))))
    · cases h
  | receive =>
    simp only [step] at h
    split at h
    · rename_i hphase htriggered
      exact .inr (.inr (.inl ⟨.inr ⟨rfl, hphase⟩, false, (Option.some.inj h).symm⟩))
    · cases h
  | stop =>
    simp only [step] at h
    split at h
    · rename_i hphase
      exact .inr (.inr (.inr (.inr (.inr (.inr (.inr (.inr ⟨rfl, hphase,
        (Option.some.inj h).symm⟩)))))))
    · cases h

/-! ## No mutation is lost -/

def Quiet (s : SchedulerState scheduler.repo) : Prop := s.triggered = false ∧ s.unsent = 0

def UpToDate (s : SchedulerState scheduler.repo) : Prop :=
  match s.phase with
  | .created | .stopped => True
  | .reading data rest => ∀ query, query ∉ rest →
      query.Agrees (authority scheduler.repo s.tables.toTables) data
  | .comparing doc json hash | .publishing doc json hash =>
    compileDocument scheduler.compiler (some (authority scheduler.repo s.tables.toTables)) =
      .ok (doc, json, hash)
  | .waiting => ∃ doc json hash,
      compileDocument scheduler.compiler (some (authority scheduler.repo s.tables.toTables)) =
        .ok (doc, json, hash) ∧ s.activeDigest = some hash

/-- A writer that has committed keeps the state from being quiet until the loop takes a trigger,
and then every query is made again. -/
theorem upToDate_step (hinv : s.Quiet → s.UpToDate) (h : step scheduler s event = some t) :
    t.Quiet → t.UpToDate := by
  intro hquiet
  rcases step_cases h with ⟨tables, -, rfl⟩ | ⟨-, rfl⟩ | ⟨-, triggered, rfl⟩ |
    ⟨data, query, rest, -, hphase, rfl⟩ | ⟨data, doc, json, hash, -, hphase, hcompile, rfl⟩ |
    ⟨doc, json, hash, -, hphase, hactive, rfl⟩ | ⟨doc, json, hash, -, hphase, rfl⟩ |
    ⟨doc, json, hash, -, hphase, rfl⟩ | ⟨-, -, rfl⟩
  · cases hquiet.2
  · cases hquiet.1
  · intro query hquery
    exact absurd query.mem_all hquery
  · have hread := hinv hquiet
    rw [UpToDate, hphase] at hread
    intro other hother
    by_cases heq : other = query
    · rw [heq]
      exact Query.agrees_copy _ _ query
    · rw [Query.agrees_copy_other heq]
      exact hread other (by simp [heq, hother])
  · have hread := hinv hquiet
    rw [UpToDate, hphase] at hread
    change compileDocument scheduler.compiler
      (some (authority scheduler.repo s.tables.toTables)) = .ok (doc, json, hash)
    rw [Query.eq_of_agrees fun query => hread query List.not_mem_nil]
    exact hcompile
  · have hcompiled := hinv hquiet
    rw [UpToDate, hphase] at hcompiled
    exact ⟨doc, json, hash, hcompiled, hactive⟩
  · have hcompiled := hinv hquiet
    rw [UpToDate, hphase] at hcompiled
    exact hcompiled
  · have hcompiled := hinv hquiet
    rw [UpToDate, hphase] at hcompiled
    exact ⟨doc, json, hash, hcompiled, s.releases.digest_publishSpecRelease hash json⟩
  · trivial

/-- Once the channel is empty, the loop waits and every writer has returned, the active release
has the digest of the document of the current tables. -/
theorem no_mutation_lost (tables : StoredTables scheduler.repo) (releases : ReleaseTable)
    (events : List (SchedulerEvent scheduler.repo))
    (hrun : execute (step scheduler) (initial scheduler tables releases) events = some t)
    (hempty : t.triggered = false) (hwaiting : t.phase = .waiting) (hreturned : t.unsent = 0) :
    ∃ doc json hash,
      compileDocument scheduler.compiler (some (authority scheduler.repo t.tables.toTables)) =
        .ok (doc, json, hash) ∧ t.activeDigest = some hash := by
  have hinv : t.Quiet → t.UpToDate :=
    (RunsUnder.of_execute hrun).invariant (fun h _ hstep => upToDate_step h hstep)
      (fun _ => trivial)
  have hcurrent := hinv ⟨hempty, hreturned⟩
  rw [UpToDate, hwaiting] at hcurrent
  exact hcurrent

end Runs

end SchedulerState

section Samples

def sampleScheduler : SpecScheduler := ⟨sampleRepository, sampleCompiler⟩

def shopRoute (upstreamName : Text) : RouteRow where
  rowid := 1
  id := .ofAscii "shop"
  host := .ofAscii "shop.test"
  path := .ofAscii "/"
  upstreamName
  enabled := true
  stripPath := false
  websocket := false
  priority := 0
  pluginsJson := .ofAscii "\x7b\x7d"

def shopTables (name : Text) (version : Int) (hne : name.bytes ≠ [])
    (hbytes : name.bytes.all isNameByte = true) : StoredTables sampleRepository where
  upstreams := [{ appRow with name, version }]
  routes := [shopRoute name]
  certificates := []
  extensionInstances := []
  l4Services := []
  names := by simp
  name_ne_nil := by simpa using hne
  name_bytes := by simpa using hbytes
  algorithms := by simp [appRow, roundRobin, balancingAlgorithms]; decide
  server_lines := by simp [sampleRepository]
  rowids := by simp [shopRoute]
  hosts := by simp [shopRoute]; decide
  certificateIds := by simp
  listeners := by simp

def appTables : StoredTables sampleRepository :=
  shopTables (.ofAscii "app") 1 (by decide) (by decide)

def webTables : StoredTables sampleRepository :=
  shopTables (.ofAscii "web") 2 (by decide) (by decide)

def oneWriter : List (SchedulerEvent sampleRepository) :=
  [.start, .query, .query, .commit webTables, .query, .triggerReconcile, .query, .query, .query,
    .compile, .getActive, .publish, .receive, .query, .query, .query, .query, .query, .query,
    .compile, .getActive, .publish]

theorem oneWriter_not_lost :
    ∃ t, execute (SchedulerState.step sampleScheduler)
        (.initial sampleScheduler appTables .empty) oneWriter = some t ∧
      t.triggered = false ∧ t.phase = .waiting ∧ t.unsent = 0 ∧
      ∃ doc json hash, compileDocument sampleScheduler.compiler
        (some (authority sampleScheduler.repo t.tables.toTables)) = .ok (doc, json, hash) ∧
          t.activeDigest = some hash :=
  ⟨_, rfl, rfl, rfl, rfl,
    SchedulerState.no_mutation_lost appTables .empty oneWriter rfl rfl rfl rfl⟩

end Samples

end AuroraGateway.ControlPlane
