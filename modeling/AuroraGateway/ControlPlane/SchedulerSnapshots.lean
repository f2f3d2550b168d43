import AuroraGateway.ControlPlane.SchedulerLoop

/-!
# Snapshots of the tables

The queries of a reconciliation are answered at different times.  What they
give together is the data of one state if no writer comes between them, or if
what the writer changes is not read on both sides.
-/

namespace AuroraGateway.ControlPlane

open ControlWorker Foundation

structure DefinesUpstreams (doc : Spec) : Prop where
  routes : ∀ domain ∈ doc.routing.domains, ∀ loc ∈ domain.locations,
    ∃ conf ∈ doc.upstreamsConf, ∃ body, HasBlock conf.bytes loc.upstream body
  services : ∀ l4 ∈ doc.l4, ∀ service ∈ l4.services,
    service.forwardTargetType = some upstreamType →
      ∃ upstream ∈ l4.upstreams, upstream.name = service.upstream

def FromOneState (scheduler : SpecScheduler) (states : List (StoredTables scheduler.repo))
    (compiled : Spec × Bytes × Bytes) : Prop :=
  ∃ state ∈ states, compileDocument scheduler.compiler
    (some (authority scheduler.repo state.toTables)) = .ok compiled

section Documents

variable {scheduler : SpecScheduler}

theorem FromOneState.mono {states states' : List (StoredTables scheduler.repo)}
    (hsub : states ⊆ states') {compiled : Spec × Bytes × Bytes}
    (h : FromOneState scheduler states compiled) : FromOneState scheduler states' compiled := by
  obtain ⟨state, hstate, hcompile⟩ := h
  exact ⟨state, hsub hstate, hcompile⟩

variable {state : StoredTables scheduler.repo} {doc : Spec}

theorem definesUpstreams_of_referential (hrefs : state.toTables.Referential)
    (h : fillDocument scheduler.compiler (authority scheduler.repo state.toTables) = .ok doc) :
    DefinesUpstreams doc := by
  obtain ⟨hrouting, -, -, hl4⟩ := document_parts h
  have hsub : upstreamsQuery scheduler.repo state.toTables ⊆ state.upstreams :=
    fun _ hrow => scheduler.repo.upstreamOrder.mem_sort.mp hrow
  constructor
  · intro domain hdomain loc hloc
    rw [hrouting] at hdomain
    obtain ⟨record, hrecord, -, rfl⟩ := exists_record hdomain hloc
    simp only [authority, routingRecords, routingQuery, List.mem_map, List.mem_filter,
      RowOrder.mem_sort] at hrecord
    obtain ⟨_, ⟨⟨route, ⟨hroute, -⟩, rfl⟩, -⟩, rfl⟩ := hrecord
    obtain ⟨row, hrow, hname⟩ := List.mem_map.mp (hrefs.routes route hroute)
    refine ⟨_, ?_, _, (hasBlock_iff state hsub).mpr
      ⟨row, scheduler.repo.upstreamOrder.mem_sort.mpr hrow, hname, rfl⟩⟩
    rw [upstreamsConf_of_fillDocument h]
    exact omitEmpty_renderUpstreams _ _
  · intro l4 hmem service hservice htype
    obtain ⟨-, hnone⟩ | ⟨services, hservices, hsome⟩ := compileL4_cases _ hl4
    · rw [hnone] at hmem
      cases hmem
    · rw [hsome, Option.mem_some_iff] at hmem
      subst hmem
      obtain ⟨record, hrecord, hcompiled⟩ := exists_of_mem_mapM hservices hservice
      have hrow := hrecord
      simp only [authority, l4ServicesQuery, List.mem_map, List.mem_filter,
        RowOrder.mem_sort] at hrow
      obtain ⟨stored, ⟨hstored, -⟩, rfl⟩ := hrow
      obtain ⟨htarget, hupstream⟩ := target_compileL4Service _ hcompiled
      rw [htype] at htarget
      have htype' : targetType stored.toSpecL4ServiceRecord = upstreamType := by
        rw [omitEmpty] at htarget
        split at htarget
        · cases htarget
        · exact (Option.some.inj htarget).symm
      obtain ⟨row, hrow, hname⟩ := List.mem_map.mp (hrefs.services stored hstored htype')
      refine ⟨compileL4Upstream scheduler.compiler ⟨row.name, row.algorithm, row.serversJson⟩,
        List.mem_map_of_mem (List.mem_filter.mpr ⟨?_, ?_⟩), hname.trans hupstream.symm⟩
      · exact List.mem_map.mpr ⟨row, scheduler.repo.upstreamOrder.mem_sort.mpr hrow, rfl⟩
      · refine List.any_eq_true.mpr ⟨_, hrecord, ?_⟩
        have hne := state.name_ne_nil row hrow
        rw [hname] at hne
        simp [htype', hname, hne]

end Documents

namespace SchedulerState

variable {scheduler : SpecScheduler} {s t : SchedulerState scheduler.repo}
  {event : SchedulerEvent scheduler.repo}

/-- A writer leaves right references.  During a reconciliation, what has been read already is
what it would be in the new state, or what is read later is what it was in the old one. -/
def Undisturbed (s : SchedulerState scheduler.repo) : SchedulerEvent scheduler.repo → Prop
  | .commit tables => tables.toTables.Referential ∧
      match s.phase with
      | .reading data rest =>
        (∀ query, query ∉ rest →
          query.Agrees (authority scheduler.repo tables.toTables) data) ∨
        ∀ query ∈ rest, query.Agrees (authority scheduler.repo s.tables.toTables)
          (authority scheduler.repo tables.toTables)
      | _ => True
  | _ => True

def Consistent (s : SchedulerState scheduler.repo) : Prop :=
  match s.phase with
  | .reading data rest => ∃ state ∈ s.committed,
      (∀ query, query ∉ rest → query.Agrees (authority scheduler.repo state.toTables) data) ∧
      ∀ query ∈ rest, query.Agrees (authority scheduler.repo state.toTables)
        (authority scheduler.repo s.tables.toTables)
  | .comparing doc json hash | .publishing doc json hash =>
    FromOneState scheduler s.committed (doc, json, hash)
  | _ => True

structure SnapshotInv (s : SchedulerState scheduler.repo) : Prop where
  current : s.tables ∈ s.committed
  referential : ∀ state ∈ s.committed, state.toTables.Referential
  consistent : s.Consistent
  published : ∀ compiled ∈ s.published, FromOneState scheduler s.committed compiled

theorem consistent_commit {tables : StoredTables scheduler.repo} (hinv : s.SnapshotInv)
    (hok : s.Undisturbed (.commit tables)) :
    Consistent { s with tables, unsent := s.unsent + 1, committed := s.committed ++ [tables] } := by
  have hconsistent := hinv.consistent
  have hundisturbed := hok.2
  unfold Consistent at hconsistent ⊢
  cases hphase : s.phase with
  | reading data rest =>
    rw [hphase] at hconsistent hundisturbed
    rcases hundisturbed with hread | hunread
    · exact ⟨tables, List.mem_append_right _ (List.mem_singleton.mpr rfl), hread,
        fun query _ => Query.Agrees.refl _ query⟩
    · obtain ⟨state, hstate, hread, hrest⟩ := hconsistent
      exact ⟨state, List.mem_append_left _ hstate, hread,
        fun query hquery => (hrest query hquery).trans (hunread query hquery)⟩
  | comparing doc json hash =>
    rw [hphase] at hconsistent
    exact hconsistent.mono (List.subset_append_left _ _)
  | publishing doc json hash =>
    rw [hphase] at hconsistent
    exact hconsistent.mono (List.subset_append_left _ _)
  | created => trivial
  | waiting => trivial
  | stopped => trivial

theorem SnapshotInv.step (hinv : s.SnapshotInv) (hok : s.Undisturbed event)
    (h : SchedulerState.step scheduler s event = some t) : t.SnapshotInv := by
  have hconsistent := hinv.consistent
  unfold Consistent at hconsistent
  rcases step_cases h with ⟨tables, rfl, rfl⟩ | ⟨-, rfl⟩ | ⟨-, triggered, rfl⟩ |
    ⟨data, query, rest, -, hphase, rfl⟩ | ⟨data, doc, json, hash, -, hphase, hcompile, rfl⟩ |
    ⟨doc, json, hash, -, hphase, hactive, rfl⟩ | ⟨doc, json, hash, -, hphase, rfl⟩ |
    ⟨doc, json, hash, -, hphase, rfl⟩ | ⟨-, -, rfl⟩
  · refine ⟨List.mem_append_right _ (List.mem_singleton.mpr rfl), ?_,
      consistent_commit hinv hok, ?_⟩
    · intro state hstate
      rcases List.mem_append.mp hstate with hstate | hstate
      · exact hinv.referential state hstate
      · rw [List.mem_singleton.mp hstate]
        exact hok.1
    · intro compiled hcompiled
      exact (hinv.published compiled hcompiled).mono (List.subset_append_left _ _)
  · exact ⟨hinv.current, hinv.referential, hinv.consistent, hinv.published⟩
  · refine ⟨hinv.current, hinv.referential, ?_, hinv.published⟩
    exact ⟨s.tables, hinv.current, fun query hquery => absurd query.mem_all hquery,
      fun query _ => Query.Agrees.refl _ query⟩
  · rw [hphase] at hconsistent
    obtain ⟨state, hstate, hread, hrest⟩ := hconsistent
    refine ⟨hinv.current, hinv.referential, ⟨state, hstate, ?_, ?_⟩, hinv.published⟩
    · intro other hother
      by_cases heq : other = query
      · rw [heq]
        exact (hrest query List.mem_cons_self).trans (Query.agrees_copy _ _ query)
      · rw [Query.agrees_copy_other heq]
        exact hread other (by simp [heq, hother])
    · exact fun other hother => hrest other (List.mem_cons_of_mem _ hother)
  · rw [hphase] at hconsistent
    obtain ⟨state, hstate, hread, -⟩ := hconsistent
    refine ⟨hinv.current, hinv.referential, ⟨state, hstate, ?_⟩, hinv.published⟩
    rw [Query.eq_of_agrees fun query => hread query List.not_mem_nil]
    exact hcompile
  · exact ⟨hinv.current, hinv.referential, trivial, hinv.published⟩
  · rw [hphase] at hconsistent
    exact ⟨hinv.current, hinv.referential, hconsistent, hinv.published⟩
  · rw [hphase] at hconsistent
    refine ⟨hinv.current, hinv.referential, trivial, ?_⟩
    intro compiled hcompiled
    rcases List.mem_append.mp hcompiled with hcompiled | hcompiled
    · exact hinv.published compiled hcompiled
    · rw [List.mem_singleton.mp hcompiled]
      exact hconsistent
  · exact ⟨hinv.current, hinv.referential, trivial, hinv.published⟩

/-- In a run that no writer disturbs, every release is the document of one state that was
committed, and it defines the upstreams that it names. -/
theorem published_from_one_state (tables : StoredTables scheduler.repo) (releases : ReleaseTable)
    (events : List (SchedulerEvent scheduler.repo)) (hrefs : tables.toTables.Referential)
    (hrun : RunsUnder (SchedulerState.step scheduler) Undisturbed
      (initial scheduler tables releases) events t) :
    ∀ compiled ∈ t.published,
      FromOneState scheduler t.committed compiled ∧ DefinesUpstreams compiled.1 := by
  have hinit : (initial scheduler tables releases).SnapshotInv :=
    ⟨List.mem_singleton.mpr rfl, by simpa [initial] using hrefs, trivial, by simp [initial]⟩
  have hinv := hrun.invariant (fun h hok hstep => h.step hok hstep) hinit
  intro compiled hcompiled
  obtain ⟨state, hstate, hcompile⟩ := hinv.published compiled hcompiled
  refine ⟨⟨state, hstate, hcompile⟩, ?_⟩
  exact definesUpstreams_of_referential (hinv.referential state hstate)
    (fillDocument_of_compileDocument hcompile)

end SchedulerState

/-! ## An upstream renamed under a reconciliation -/

theorem shopTables_referential (name : Text) (version : Int) (hne : name.bytes ≠ [])
    (hbytes : name.bytes.all isNameByte = true) :
    (shopTables name version hne hbytes).toTables.Referential where
  routes := by simp [shopTables, shopRoute, Tables.upstreamNames]
  services := by simp [shopTables]

/-- A writer that comes while the loop waits disturbs nothing. -/
theorem renamed_while_waiting :
    ∃ t, RunsUnder (SchedulerState.step sampleScheduler) SchedulerState.Undisturbed
        (.initial sampleScheduler appTables .empty)
        [.start, .query, .query, .query, .query, .query, .query, .compile, .getActive, .publish,
          .commit webTables, .triggerReconcile] t ∧
      ∀ compiled ∈ t.published,
        FromOneState sampleScheduler t.committed compiled ∧ DefinesUpstreams compiled.1 := by
  have hrun : ∃ t, RunsUnder (SchedulerState.step sampleScheduler) SchedulerState.Undisturbed
      (.initial sampleScheduler appTables .empty)
      [.start, .query, .query, .query, .query, .query, .query, .compile, .getActive, .publish,
        .commit webTables, .triggerReconcile] t := by
    refine ⟨_, .cons trivial rfl <| .cons trivial rfl <| .cons trivial rfl <|
      .cons trivial rfl <| .cons trivial rfl <| .cons trivial rfl <| .cons trivial rfl <|
      .cons trivial rfl <| .cons trivial rfl <| .cons trivial rfl <|
      .cons ⟨shopTables_referential _ _ _ _, trivial⟩ rfl <| .cons trivial rfl <| .nil _⟩
  obtain ⟨t, hrun⟩ := hrun
  exact ⟨t, hrun, SchedulerState.published_from_one_state appTables .empty _
    (shopTables_referential _ _ _ _) hrun⟩

def routeTargets (doc : Spec) : List Bytes :=
  doc.routing.domains.flatMap fun domain => domain.locations.map fun loc => loc.upstream.bytes

/-- The route is read after the upstream was renamed, and the upstream before. -/
theorem renamed_under_reconcile :
    appTables.toTables.updateUpstream { appRow with name := .ofAscii "web" } 1 =
        some webTables.toTables ∧
      ∃ t, execute (SchedulerState.step sampleScheduler)
          (.initial sampleScheduler appTables .empty)
          [.start, .query, .commit webTables, .triggerReconcile, .query, .query, .query, .query,
            .query, .compile, .getActive, .publish] = some t ∧
        ∃ compiled ∈ t.published,
          ¬FromOneState sampleScheduler t.committed compiled ∧ ¬DefinesUpstreams compiled.1 := by
  refine ⟨rfl, _, rfl, _, List.mem_singleton.mpr rfl, ?_, ?_⟩
  · -- The first state has the old name in its route, the second the new one in its block.
    rintro ⟨state, hstate, hcompile⟩
    have hparts := congrArg (fun result => result.toOption.map fun compiled =>
      (routeTargets compiled.1, compiled.1.upstreamsConf.map Text.bytes)) hcompile
    rcases List.mem_cons.mp hstate with rfl | hstate
    · revert hparts
      decide +kernel
    · obtain rfl := List.mem_singleton.mp hstate
      revert hparts
      decide +kernel
  · intro hdefines
    obtain ⟨conf, hconf, body, hblock⟩ := hdefines.routes _ (List.mem_singleton.mpr rfl) _
      (List.mem_singleton.mpr rfl)
    obtain rfl := Option.some.inj hconf
    obtain ⟨row, hrow, hname, -⟩ := (hasBlock_iff appTables (List.Subset.refl _)).mp hblock
    obtain rfl := List.mem_singleton.mp hrow
    revert hname
    decide

end AuroraGateway.ControlPlane
