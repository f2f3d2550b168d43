import AuroraGateway.ControlPlane.L4Services
import AuroraGateway.ControlPlane.ServiceToggle
import AuroraGateway.ControlPlane.UpstreamBlocks
import AuroraGateway.Foundation.KeyedLists
import AuroraGateway.Foundation.Runs

/-!
# References to upstreams

Routes and L4 services name their upstream, without a foreign key.  A route is
written by a statement that looks the upstream up, an upstream is renamed with
everything that names it, and it is deleted only if nothing names it.  For an L4
service the handler looks the upstream up before the statement, and the switch of
a service writes back the upstream that it has read.
-/

namespace AuroraGateway.ControlPlane

open ControlWorker Foundation

namespace Tables

variable (tables : Tables)

def upstreamNames : List Text := tables.upstreams.map UpstreamRow.name

/-- Every route, and every L4 service that forwards to an upstream, names one that exists. -/
structure Referential : Prop where
  routes : ∀ route ∈ tables.routes, route.upstreamName ∈ tables.upstreamNames
  services : ∀ service ∈ tables.l4Services,
    targetType service.toSpecL4ServiceRecord = upstreamType →
      service.upstreamName ∈ tables.upstreamNames

/-! ## Statements and transactions -/

def createUpstream (row : UpstreamRow) : Option Tables :=
  if tables.upstreams.any fun u => u.id = row.id || u.name = row.name then none
  else some { tables with upstreams := tables.upstreams ++ [{ row with version := 1 }] }

def renameReferences (old new : Text) : Tables :=
  { tables with
    routes := tables.routes.map fun route =>
      if route.upstreamName = old then { route with upstreamName := new } else route
    l4Services := tables.l4Services.map fun service =>
      if service.upstreamName = old then { service with upstreamName := new } else service }

/-- One transaction: the row is changed and, with its name, what refers to it. -/
def updateUpstream (row : UpstreamRow) (expectedVersion : Int) : Option Tables :=
  match tables.upstreams.find? fun u => u.id = row.id with
  | none => none
  | some old =>
    if 0 < expectedVersion ∧ old.version ≠ expectedVersion then none
    else if tables.upstreams.any fun u => u.id ≠ row.id && u.name = row.name then none
    else
      some (({ tables with
        upstreams := tables.upstreams.map fun u =>
          if u.id = row.id then { row with version := u.version + 1 } else u } :
            Tables).renameReferences old.name row.name)

def deleteUpstream (id : Int) : Option Tables :=
  match tables.upstreams.find? fun u => u.id = id with
  | none => none
  | some old =>
    if tables.routes.any fun route => route.upstreamName = old.name then none
    else if tables.l4Services.any fun service => service.upstreamName = old.name then none
    else some { tables with upstreams := tables.upstreams.filter fun u => u.id ≠ id }

def createRoute (row : RouteRow) : Option Tables :=
  if row.upstreamName ∉ tables.upstreamNames ∨ row.id ∈ tables.routes.map RouteRow.id then none
  else some { tables with routes := tables.routes ++ [row] }

def updateRoute (row : RouteRow) : Option Tables :=
  if row.upstreamName ∉ tables.upstreamNames ∨ row.id ∉ tables.routes.map RouteRow.id then none
  else
    some { tables with
      routes := tables.routes.map fun route =>
        if route.id = row.id then { row with rowid := route.rowid } else route }

def deleteRoute (id : Text) : Option Tables :=
  if id ∉ tables.routes.map RouteRow.id then none
  else some { tables with routes := tables.routes.filter fun route => route.id ≠ id }

def listens (row : L4ServiceRow) : Bool := tables.l4Services.any fun service =>
  service.id ≠ row.id && service.protocol = row.protocol && service.listenPort = row.listenPort

def createService (row : L4ServiceRow) : Option Tables :=
  if row.id ∈ tables.l4Services.map L4ServiceRow.id ∨ tables.listens row then none
  else some { tables with l4Services := tables.l4Services ++ [row] }

def updateService (row : L4ServiceRow) : Option Tables :=
  if row.id ∉ tables.l4Services.map L4ServiceRow.id ∨ tables.listens row then none
  else
    some { tables with
      l4Services := tables.l4Services.map fun service =>
        if service.id = row.id then row else service }

def deleteService (id : Text) : Option Tables :=
  if id ∉ tables.l4Services.map L4ServiceRow.id then none
  else some { tables with l4Services := tables.l4Services.filter fun service => service.id ≠ id }

end Tables

/-! ## What the statements keep -/

namespace Tables

variable {tables tables' : Tables}

def DistinctIds (tables : Tables) : Prop := (tables.upstreams.map UpstreamRow.id).Nodup

theorem Referential.of_names (h : tables.Referential) (hroutes : tables'.routes ⊆ tables.routes)
    (hservices : tables'.l4Services ⊆ tables.l4Services)
    (hnames : tables.upstreamNames ⊆ tables'.upstreamNames) : tables'.Referential where
  routes route hroute := hnames (h.routes route (hroutes hroute))
  services service hservice htype := hnames (h.services service (hservices hservice) htype)

theorem Referential.createUpstream (h : tables.Referential) {row : UpstreamRow}
    (hstep : tables.createUpstream row = some tables') : tables'.Referential := by
  obtain ⟨-, hstep⟩ := of_guard hstep
  obtain rfl := Option.some.inj hstep
  refine h.of_names (List.Subset.refl _) (List.Subset.refl _) ?_
  simp [upstreamNames]

theorem name_eq_of_id (hids : tables.DistinctIds) {old u : UpstreamRow} {id : Int}
    (hfind : (tables.upstreams.find? fun u => u.id = id) = some old) (hu : u ∈ tables.upstreams)
    (hid : u.id = id) : u = old := by
  have hold : old.id = id := by simpa using List.find?_some hfind
  exact List.inj_on_of_nodup_map hids hu (List.mem_of_find?_eq_some hfind) (hid.trans hold.symm)

section

variable (h : tables.Referential)
include h

theorem Referential.updateUpstream (hids : tables.DistinctIds) {row : UpstreamRow} {version : Int}
    (hstep : tables.updateUpstream row version = some tables') : tables'.Referential := by
  unfold Tables.updateUpstream at hstep
  split at hstep
  · cases hstep
  rename_i old hfind
  obtain ⟨-, hstep⟩ := of_guard hstep
  obtain ⟨-, hstep⟩ := of_guard hstep
  obtain rfl := Option.some.inj hstep
  -- Every other name is kept, and the new one is there.
  have hnew : row.name ∈ (tables.upstreams.map fun u =>
      if u.id = row.id then { row with version := u.version + 1 } else u).map
        UpstreamRow.name := by
    have hold : old.id = row.id := by simpa using List.find?_some hfind
    simp only [List.mem_map, exists_exists_and_eq_and]
    exact ⟨old, List.mem_of_find?_eq_some hfind, by simp [hold]⟩
  have hkept : ∀ name ∈ tables.upstreamNames, name ≠ old.name →
      name ∈ (tables.upstreams.map fun u =>
        if u.id = row.id then { row with version := u.version + 1 } else u).map
          UpstreamRow.name := by
    intro name hname hne
    obtain ⟨u, hu, rfl⟩ := List.mem_map.mp hname
    have hid : u.id ≠ row.id := fun hid => hne (by rw [name_eq_of_id hids hfind hu hid])
    simp only [List.mem_map, exists_exists_and_eq_and]
    exact ⟨u, hu, by simp [hid]⟩
  constructor
  · intro route hroute
    obtain ⟨before, hbefore, rfl⟩ := List.mem_map.mp hroute
    split
    · exact hnew
    · rename_i hne
      exact hkept _ (h.routes before hbefore) hne
  · intro service hservice htype
    obtain ⟨before, hbefore, rfl⟩ := List.mem_map.mp hservice
    split at htype
    · rename_i heq
      rw [if_pos heq]
      exact hnew
    · rename_i hne
      rw [if_neg hne]
      exact hkept _ (h.services before hbefore htype) hne

theorem Referential.deleteUpstream (hids : tables.DistinctIds) {id : Int}
    (hstep : tables.deleteUpstream id = some tables') : tables'.Referential := by
  unfold Tables.deleteUpstream at hstep
  split at hstep
  · cases hstep
  rename_i old hfind
  obtain ⟨hroutes, hstep⟩ := of_guard hstep
  obtain ⟨hservices, hstep⟩ := of_guard hstep
  obtain rfl := Option.some.inj hstep
  have hkept : ∀ name ∈ tables.upstreamNames, name ≠ old.name →
      name ∈ (tables.upstreams.filter fun u => u.id ≠ id).map UpstreamRow.name := by
    intro name hname hne
    obtain ⟨u, hu, rfl⟩ := List.mem_map.mp hname
    have hid : u.id ≠ id := fun hid => hne (by rw [name_eq_of_id hids hfind hu hid])
    exact List.mem_map_of_mem (List.mem_filter.mpr ⟨hu, by simpa using hid⟩)
  simp only [List.any_eq_true, decide_eq_true_eq, not_exists, not_and] at hroutes hservices
  constructor
  · intro route hroute
    exact hkept _ (h.routes route hroute) (hroutes route hroute)
  · intro service hservice htype
    exact hkept _ (h.services service hservice htype) (hservices service hservice)

theorem Referential.createRoute {row : RouteRow} (hstep : tables.createRoute row = some tables') :
    tables'.Referential := by
  obtain ⟨hfound, hstep⟩ := of_guard hstep
  obtain rfl := Option.some.inj hstep
  refine ⟨?_, h.services⟩
  intro route hroute
  rcases List.mem_append.mp hroute with hroute | hroute
  · exact h.routes route hroute
  · rw [List.mem_singleton.mp hroute]
    by_contra hmissing
    exact hfound (.inl hmissing)

theorem Referential.updateRoute {row : RouteRow} (hstep : tables.updateRoute row = some tables') :
    tables'.Referential := by
  obtain ⟨hfound, hstep⟩ := of_guard hstep
  obtain rfl := Option.some.inj hstep
  refine ⟨?_, h.services⟩
  intro route hroute
  obtain ⟨before, hbefore, rfl⟩ := List.mem_map.mp hroute
  split
  · by_contra hmissing
    exact hfound (.inl hmissing)
  · exact h.routes before hbefore

theorem Referential.deleteRoute {id : Text} (hstep : tables.deleteRoute id = some tables') :
    tables'.Referential := by
  obtain ⟨-, hstep⟩ := of_guard hstep
  obtain rfl := Option.some.inj hstep
  exact h.of_names (List.filter_subset_self _) (List.Subset.refl _) (List.Subset.refl _)

theorem Referential.deleteService {id : Text} (hstep : tables.deleteService id = some tables') :
    tables'.Referential := by
  obtain ⟨-, hstep⟩ := of_guard hstep
  obtain rfl := Option.some.inj hstep
  exact h.of_names (List.Subset.refl _) (List.filter_subset_self _) (List.Subset.refl _)

theorem referential_createService_iff {row : L4ServiceRow}
    (hstep : tables.createService row = some tables') :
    tables'.Referential ↔ (targetType row.toSpecL4ServiceRecord = upstreamType →
      row.upstreamName ∈ tables.upstreamNames) := by
  obtain ⟨-, hstep⟩ := of_guard hstep
  obtain rfl := Option.some.inj hstep
  constructor
  · intro h'
    exact h'.services row (List.mem_append_right _ (List.mem_singleton.mpr rfl))
  · intro hrow
    refine ⟨h.routes, ?_⟩
    intro service hservice
    rcases List.mem_append.mp hservice with hservice | hservice
    · exact h.services service hservice
    · rw [List.mem_singleton.mp hservice]
      exact hrow

theorem referential_updateService_iff {row : L4ServiceRow}
    (hstep : tables.updateService row = some tables') :
    tables'.Referential ↔ (targetType row.toSpecL4ServiceRecord = upstreamType →
      row.upstreamName ∈ tables.upstreamNames) := by
  obtain ⟨hfound, hstep⟩ := of_guard hstep
  obtain rfl := Option.some.inj hstep
  constructor
  · intro h'
    have hid : row.id ∈ tables.l4Services.map L4ServiceRow.id := by
      by_contra hmissing
      exact hfound (.inl hmissing)
    obtain ⟨before, hbefore, hsame⟩ := List.mem_map.mp hid
    exact h'.services row (List.mem_map.mpr ⟨before, hbefore, if_pos hsame⟩)
  · intro hrow
    refine ⟨h.routes, ?_⟩
    intro service hservice
    obtain ⟨before, hbefore, rfl⟩ := List.mem_map.mp hservice
    split
    · exact hrow
    · exact h.services before hbefore

end

end Tables

/-! ## Ids -/

namespace Tables

variable {tables tables' : Tables}

theorem DistinctIds.createUpstream (h : tables.DistinctIds) {row : UpstreamRow}
    (hstep : tables.createUpstream row = some tables') : tables'.DistinctIds := by
  obtain ⟨hnew, hstep⟩ := of_guard hstep
  obtain rfl := Option.some.inj hstep
  simp only [List.any_eq_true, Bool.or_eq_true, decide_eq_true_eq, not_exists, not_and,
    not_or] at hnew
  simp only [DistinctIds, List.map_append, List.map_cons, List.map_nil]
  refine List.nodup_append.mpr ⟨h, List.nodup_singleton _, ?_⟩
  intro id hid id' hid'
  obtain ⟨u, hu, rfl⟩ := List.mem_map.mp hid
  rw [List.mem_singleton.mp hid']
  exact (hnew u hu).1

theorem DistinctIds.updateUpstream (h : tables.DistinctIds) {row : UpstreamRow} {version : Int}
    (hstep : tables.updateUpstream row version = some tables') : tables'.DistinctIds := by
  have hids : (tables.upstreams.map fun u =>
      if u.id = row.id then { row with version := u.version + 1 } else u).map UpstreamRow.id =
        tables.upstreams.map UpstreamRow.id := by
    rw [List.map_map]
    refine List.map_congr_left fun u _ => ?_
    simp only [Function.comp_apply]
    split
    · rename_i hid
      exact hid.symm
    · rfl
  unfold Tables.updateUpstream at hstep
  split at hstep
  · cases hstep
  obtain ⟨-, hstep⟩ := of_guard hstep
  obtain ⟨-, hstep⟩ := of_guard hstep
  obtain rfl := Option.some.inj hstep
  change ((tables.upstreams.map _).map UpstreamRow.id).Nodup
  rw [hids]
  exact h

theorem DistinctIds.deleteUpstream (h : tables.DistinctIds) {id : Int}
    (hstep : tables.deleteUpstream id = some tables') : tables'.DistinctIds := by
  unfold Tables.deleteUpstream at hstep
  split at hstep
  · cases hstep
  obtain ⟨-, hstep⟩ := of_guard hstep
  obtain ⟨-, hstep⟩ := of_guard hstep
  obtain rfl := Option.some.inj hstep
  exact h.sublist (List.filter_sublist.map _)

theorem upstreams_of_guard {c : Prop} [Decidable c] {next : Tables}
    (h : (if c then none else some next) = some tables')
    (hnext : next.upstreams = tables.upstreams) : tables'.upstreams = tables.upstreams := by
  rw [← Option.some.inj (of_guard h).2]
  exact hnext

end Tables

/-! ## Handlers -/

inductive PendingService where
  | request (create : Bool) (names : List Text) (request : L4ServiceRequest)
  | toggle (row : L4ServiceRow)

def PendingService.create : PendingService → Bool
  | .request create _ _ => create
  | .toggle _ => false

def toggleServiceStatus (row : L4ServiceRow) (enabled : Bool) : L4ServiceRow :=
  { row with
    aclRulesJson := unlessEmpty row.aclRulesJson (.ofAscii "[]")
    proxyTimeout := unlessEmpty row.proxyTimeout (.ofAscii "1h")
    proxyConnectTimeout := unlessEmpty row.proxyConnectTimeout (.ofAscii "5s")
    enabled }

structure Management where
  tables : Tables
  pending : List PendingService

inductive ManagementAction where
  | createUpstream (row : UpstreamRow)
  | updateUpstream (row : UpstreamRow) (expectedVersion : Int)
  | deleteUpstream (id : Int)
  | createRoute (row : RouteRow)
  | updateRoute (row : RouteRow)
  | deleteRoute (id : Text)
  | validateTarget (create : Bool) (request : L4ServiceRequest)
  | readService (id : Text) (enabled : Bool)
  | writeService (index : Nat) (id : Text)
  | deleteService (id : Text)

namespace Management

variable (lib : L4Library)

def pendingRow (tables : Tables) : PendingService → Text → Option L4ServiceRow
  | .request create names request, id =>
    let taken := fun protocol port => tables.l4Services.any fun service =>
      (create || service.id ≠ id) && service.protocol = protocol && service.listenPort = port
    ((acceptL4Service lib names taken request).toOption).map fun record =>
      { toSpecL4ServiceRecord := record, id }
  | .toggle row, _ => some row

def writeRow (tables : Tables) (pending : PendingService) (row : L4ServiceRow) : Option Tables :=
  if pending.create then tables.createService row else tables.updateService row

def step (s : Management) : ManagementAction → Option Management
  | .createUpstream row => (s.tables.createUpstream row).map fun tables => { s with tables }
  | .updateUpstream row version =>
    (s.tables.updateUpstream row version).map fun tables => { s with tables }
  | .deleteUpstream id => (s.tables.deleteUpstream id).map fun tables => { s with tables }
  | .createRoute row => (s.tables.createRoute row).map fun tables => { s with tables }
  | .updateRoute row => (s.tables.updateRoute row).map fun tables => { s with tables }
  | .deleteRoute id => (s.tables.deleteRoute id).map fun tables => { s with tables }
  | .validateTarget create request =>
    match validateTarget lib s.tables.upstreamNames
        (normalizeTargetType lib request.forwardTargetType) request.upstreamName.trim
        request.directEndpoint.trim with
    | .error _ => none
    | .ok () =>
      some { s with pending := s.pending ++ [.request create s.tables.upstreamNames request] }
  | .readService id enabled =>
    (s.tables.l4Services.find? fun service => service.id = id).map fun row =>
      { s with pending := s.pending ++ [.toggle (toggleServiceStatus row enabled)] }
  | .writeService index id => do
      let pending ← s.pending[index]?
      let row ← pendingRow lib s.tables pending id
      let tables ← writeRow s.tables pending row
      some { tables, pending := s.pending.eraseIdx index }
  | .deleteService id => (s.tables.deleteService id).map fun tables => { s with tables }

def KeepsTarget (s : Management) : ManagementAction → Prop
  | .writeService index id => ∀ pending ∈ s.pending[index]?,
      ∀ row ∈ pendingRow lib s.tables pending id,
        targetType row.toSpecL4ServiceRecord = upstreamType →
          row.upstreamName ∈ s.tables.upstreamNames
  | _ => True

/-! ## Steps -/

variable {lib} {s t : Management} {action : ManagementAction}

theorem writeService_cases {index : Nat} {id : Text}
    (h : step lib s (.writeService index id) = some t) :
    ∃ pending ∈ s.pending[index]?, ∃ row ∈ pendingRow lib s.tables pending id,
      writeRow s.tables pending row = some t.tables := by
  obtain ⟨pending, hpending, h⟩ := Option.bind_eq_some_iff.mp h
  obtain ⟨row, hrow, h⟩ := Option.bind_eq_some_iff.mp h
  obtain ⟨tables, htables, h⟩ := Option.bind_eq_some_iff.mp h
  obtain rfl := Option.some.inj h
  exact ⟨pending, hpending, row, hrow, htables⟩

theorem tables_validateTarget {create : Bool} {request : L4ServiceRequest}
    (h : step lib s (.validateTarget create request) = some t) : t.tables = s.tables := by
  dsimp only [step] at h
  split at h
  · cases h
  · obtain rfl := Option.some.inj h
    rfl

variable {pending : PendingService}

theorem upstreams_writeRow {tables tables' : Tables} {row : L4ServiceRow}
    (h : writeRow tables pending row = some tables') :
    tables'.upstreams = tables.upstreams := by
  unfold writeRow at h
  split at h
  · exact Tables.upstreams_of_guard h rfl
  · exact Tables.upstreams_of_guard h rfl

theorem referential_writeRow_iff {tables tables' : Tables} (hrefs : tables.Referential)
    {row : L4ServiceRow} (h : writeRow tables pending row = some tables') :
    tables'.Referential ↔ (targetType row.toSpecL4ServiceRecord = upstreamType →
      row.upstreamName ∈ tables.upstreamNames) := by
  unfold writeRow at h
  split at h
  · exact Tables.referential_createService_iff hrefs h
  · exact Tables.referential_updateService_iff hrefs h

theorem step_keeps (hids : s.tables.DistinctIds) (h : step lib s action = some t) :
    t.tables.DistinctIds ∧
      (s.tables.Referential → (KeepsTarget lib s action ↔ t.tables.Referential)) := by
  have hother : t.tables.upstreams = s.tables.upstreams → t.tables.DistinctIds := by
    intro heq
    rw [Tables.DistinctIds, heq]
    exact hids
  cases action with
  | createUpstream row =>
    obtain ⟨tables, htables, rfl⟩ := Option.map_eq_some_iff.mp h
    exact ⟨hids.createUpstream htables, fun hrefs =>
      iff_of_true trivial (hrefs.createUpstream htables)⟩
  | updateUpstream row version =>
    obtain ⟨tables, htables, rfl⟩ := Option.map_eq_some_iff.mp h
    exact ⟨hids.updateUpstream htables, fun hrefs =>
      iff_of_true trivial (hrefs.updateUpstream hids htables)⟩
  | deleteUpstream id =>
    obtain ⟨tables, htables, rfl⟩ := Option.map_eq_some_iff.mp h
    exact ⟨hids.deleteUpstream htables, fun hrefs =>
      iff_of_true trivial (hrefs.deleteUpstream hids htables)⟩
  | createRoute row =>
    obtain ⟨tables, htables, rfl⟩ := Option.map_eq_some_iff.mp h
    exact ⟨hother (Tables.upstreams_of_guard htables rfl), fun hrefs =>
      iff_of_true trivial (hrefs.createRoute htables)⟩
  | updateRoute row =>
    obtain ⟨tables, htables, rfl⟩ := Option.map_eq_some_iff.mp h
    exact ⟨hother (Tables.upstreams_of_guard htables rfl), fun hrefs =>
      iff_of_true trivial (hrefs.updateRoute htables)⟩
  | deleteRoute id =>
    obtain ⟨tables, htables, rfl⟩ := Option.map_eq_some_iff.mp h
    exact ⟨hother (Tables.upstreams_of_guard htables rfl), fun hrefs =>
      iff_of_true trivial (hrefs.deleteRoute htables)⟩
  | validateTarget create request =>
    rw [tables_validateTarget h]
    exact ⟨hids, iff_of_true trivial⟩
  | readService id enabled =>
    obtain ⟨row, -, rfl⟩ := Option.map_eq_some_iff.mp h
    exact ⟨hids, iff_of_true trivial⟩
  | writeService index id =>
    obtain ⟨pending, hpending, row, hrow, hwrite⟩ := writeService_cases h
    refine ⟨hother (upstreams_writeRow hwrite), fun hrefs => ?_⟩
    rw [referential_writeRow_iff hrefs hwrite]
    constructor
    · intro hkeeps
      exact hkeeps pending hpending row hrow
    · intro hname other hother row' hrow'
      obtain rfl := Option.mem_unique hpending hother
      obtain rfl := Option.mem_unique hrow hrow'
      exact hname
  | deleteService id =>
    obtain ⟨tables, htables, rfl⟩ := Option.map_eq_some_iff.mp h
    exact ⟨hother (Tables.upstreams_of_guard htables rfl), fun hrefs =>
      iff_of_true trivial (hrefs.deleteService htables)⟩

end Management

structure ManagementRun where
  lib : L4Library
  start : Management
  distinctIds : start.tables.DistinctIds
  referential : start.tables.Referential
  actions : List ManagementAction
  final : Management
  ran : execute (Management.step lib) start actions = some final

namespace ManagementRun

variable (run : ManagementRun)

/-- The references are right in every state of a run exactly if every service is written while
the upstream that its handler found, or read, is there. -/
theorem referential_iff :
    (∀ before s, before <+: run.actions →
        execute (Management.step run.lib) run.start before = some s → s.tables.Referential) ↔
      RunsUnder (Management.step run.lib) (Management.KeepsTarget run.lib) run.start run.actions
        run.final :=
  (RunsUnder.iff_forall_states (fun hids h => (Management.step_keeps hids h).1)
    (fun hids hrefs h => (Management.step_keeps hids h).2 hrefs) run.distinctIds run.referential
    run.ran).symm

end ManagementRun

/-! ## An upstream deleted under a handler -/

def lowerAscii (text : Text) : Text :=
  if h : (text.bytes.all fun byte => byte < 0x80) = true then
    ⟨toAsciiLowercase text.bytes, validUtf8_of_ascii (lt_of_mem_toAsciiLowercase
      fun byte hbyte => of_decide_eq_true (List.all_eq_true.mp h byte hbyte))⟩
  else text

def sampleL4Library : L4Library where
  toLower := lowerAscii
  unmarshalRules := fun json => if json = ascii "[]" then some [] else none
  marshalRules := fun rules => if rules.isEmpty then .ofAscii "[]" else .ofAscii "[...]"
  sortByPriority := id
  parsePrefix := fun _ => none
  parseAddr := fun _ => none
  prefixText := fun _ => .ofAscii ""
  splitHostPort := fun endpoint =>
    if endpoint.contains 58 then
      some (endpoint.takeWhile (· ≠ 58), (endpoint.dropWhile (· ≠ 58)).drop 1)
    else none

def databaseRequest : L4ServiceRequest where
  name := .ofAscii "database"
  protocol := .ofAscii "tcp"
  listenPort := 5432
  forwardTargetType := .ofAscii "upstream"
  upstreamName := .ofAscii "app"
  directEndpoint := .ofAscii ""
  aclRulesJson := .ofAscii "[]"
  proxyTimeout := .ofAscii "1h"
  proxyConnectTimeout := .ofAscii "5s"
  enabled := some true

def lateWriter : ManagementRun where
  lib := sampleL4Library
  start := ⟨⟨[appRow], [], [], [], []⟩, []⟩
  distinctIds := List.nodup_singleton _
  referential := ⟨nofun, nofun⟩
  actions := [.validateTarget true databaseRequest, .deleteUpstream 1,
    .writeService 0 (.ofAscii "l4s_1")]
  final := _
  ran := rfl

/-- The handler finds the upstream, which is gone when the service is written. -/
theorem deleted_under_handler :
    execute (Management.step lateWriter.lib) lateWriter.start lateWriter.actions =
        some lateWriter.final ∧ ¬lateWriter.final.tables.Referential := by
  refine ⟨lateWriter.ran, fun hrefs => ?_⟩
  have hmissing := hrefs.services _ List.mem_cons_self rfl
  cases hmissing

end AuroraGateway.ControlPlane
