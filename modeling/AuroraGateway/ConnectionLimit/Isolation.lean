import AuroraGateway.ConnectionLimit.Sessions
import AuroraGateway.Foundation.Delimited

/-!
# Isolation between rules

A rule and an identifier should be limited by their own tokens only.  The
tracker counts under the rule id and the identifier joined by a colon, so that
two pairs with the same joined text share one counter.  Every run is isolated
exactly when no two requests select different pairs with the same text.
-/

namespace AuroraGateway.ConnectionLimit

open Engine Foundation Redis ConnLimitToken ConnectionLimitEngine Session

variable {F : Type} [Flonum F]

def ConnLimitToken.holds (ruleId identifier : Bytes) (token : ConnLimitToken) : Bool :=
  token.ruleId = ruleId ∧ token.identifier = identifier

def Session.verdict (s : Session F) (call : ConnLimitCall) : Option Bool :=
  (s.engine.acquire .answered call s.store).2.2.toOption.map ConnLimitDecision.allowed

/-- Each verdict depends on the tokens of its own rule and identifier only. -/
def Session.Isolated (s : Session F) : Prop :=
  ∀ call rule identifier, s.engine.selects call = some (rule, identifier) →
    (s.verdict call = some false ↔
      s.outstanding.countP (holds rule.id.bytes identifier) =
        rule.maxConnections) ∧
    ∀ token fate t, s.step (.release token fate) = some t →
      token.holds rule.id.bytes identifier = false → t.verdict call = s.verdict call

def CollisionFree (engine : ConnectionLimitEngine) : Prop :=
  ∀ call call' rule rule' identifier identifier',
    engine.selects call = some (rule, identifier) →
    engine.selects call' = some (rule', identifier') →
    trackerKey rule.id.bytes identifier = trackerKey rule'.id.bytes identifier' →
    rule.id.bytes = rule'.id.bytes ∧ identifier = identifier'

/-! ## Verdicts -/

variable {s : Session F} {call : ConnLimitCall} {rule : CompiledRule} {identifier : Bytes}
  {engine : ConnectionLimitEngine}

theorem verdict_eq (hmode : s.engine.mode = .localOnly)
    (hselects : s.engine.selects call = some (rule, identifier)) :
    s.verdict call = some (decide (s.engine.localTracker.count
      (trackerKey rule.id.bytes identifier) < rule.maxConnections)) := by
  rw [verdict, acquire_of_selects hmode hselects]
  rcases acquireLocal_cases s.engine rule identifier with
    ⟨next, current, hacquire, htakes⟩ | ⟨hge, current, hacquire⟩
  · rw [hacquire, decide_eq_true htakes.room]
    rfl
  · rw [hacquire, decide_eq_false (Nat.not_lt.mpr hge)]
    exact congrArg some (applyCustomResponse_allowed _ _ _)

theorem verdict_refused_iff (hmode : s.engine.mode = .localOnly)
    (hselects : s.engine.selects call = some (rule, identifier)) :
    s.verdict call = some false ↔
      rule.maxConnections ≤
        s.engine.localTracker.count (trackerKey rule.id.bytes identifier) := by
  rw [verdict_eq hmode hselects]
  simp

/-! ## The invariant of local runs -/

def ConnLimitToken.key (token : ConnLimitToken) : Option Bytes :=
  some (trackerKey token.ruleId token.identifier)

structure LocalInv (engine : ConnectionLimitEngine) (s : Session F) : Prop where
  engine_eq : s.engine = { engine with localTracker := s.engine.localTracker }
  balanced : Balanced ConnLimitToken.key s.engine.localTracker.count s.outstanding
  issued : ∀ token ∈ s.outstanding, token.isRedis = false ∧
    ∃ call rule, engine.selects call = some (rule, token.identifier) ∧
      rule.id.bytes = token.ruleId
  bounded : CountBound engine s

omit [Flonum F] in
theorem localInv_start (store : Store F)
    (htracker : engine.localTracker = .new) : LocalInv engine (.start engine store) where
  engine_eq := rfl
  balanced := by
    rw [start, htracker]
    exact Balanced.nil
  issued _ h := by simp [start] at h
  bounded := countBound_start store htracker

omit [Flonum F] in
theorem LocalInv.mode (hinv : LocalInv engine s) : s.engine.mode = engine.mode := by
  rw [hinv.engine_eq]

omit [Flonum F] in
theorem LocalInv.selects (hinv : LocalInv engine s) : s.engine.selects = engine.selects := by
  rw [hinv.engine_eq]
  rfl

theorem localInv_step {t : Session F}
    {action : Action F} (hmode : engine.mode = .localOnly) (hinv : LocalInv engine s)
    (hstep : s.step action = some t) : LocalInv engine t := by
  have hmode' := hinv.mode.trans hmode
  obtain ⟨tracker, hengine, houtcome⟩ := step_outcome hstep
  suffices htokens : Balanced ConnLimitToken.key tracker.count t.outstanding ∧
      ∀ token ∈ t.outstanding, token.isRedis = false ∧ ∃ call rule,
        engine.selects call = some (rule, token.identifier) ∧ rule.id.bytes = token.ruleId from
    ⟨by rw [hengine, hinv.engine_eq], by rw [hengine]; exact htokens.1, htokens.2,
      countBound_step hinv.selects hinv.bounded hstep⟩
  generalize t.outstanding = outstanding at houtcome ⊢
  cases houtcome with
  | acquired hacquired =>
    cases hacquired with
    | unchanged => exact ⟨hinv.balanced, hinv.issued⟩
    | grantedLocal hsel htakes =>
      rw [htakes.count]
      refine ⟨hinv.balanced.take rfl, fun token htoken => ?_⟩
      rcases List.mem_cons.mp htoken with rfl | hmem
      · exact ⟨rfl, _, _, hinv.selects ▸ hsel, rfl⟩
      · exact hinv.issued token hmem
    | grantedServer hdistributed _ => simp [hmode'] at hdistributed
    | passed hdistributed _ _ _ => simp [hmode'] at hdistributed
  | releasedServer hmem hserver =>
    rw [releasedByServer_of_local _ (hinv.issued _ hmem).1] at hserver
    simp at hserver
  | releasedLocal hmem hserver =>
    rw [ShardedConnTracker.count_release]
    exact ⟨hinv.balanced.give hmem rfl,
      fun token htoken => hinv.issued token (List.mem_of_mem_erase htoken)⟩
  | serverChanged => exact ⟨hinv.balanced, hinv.issued⟩

/-! ## Collision free policies -/

section CollisionFree

variable {engine : ConnectionLimitEngine} {s t : Session F}

theorem eq_of_same_key (hids : (engine.rules.map fun rule => rule.id.bytes).Nodup)
    (hfree : CollisionFree engine) {call call' : ConnLimitCall} {rule rule' : CompiledRule}
    {identifier identifier' : Bytes}
    (hselects : engine.selects call = some (rule, identifier))
    (hselects' : engine.selects call' = some (rule', identifier'))
    (hkey : trackerKey rule.id.bytes identifier = trackerKey rule'.id.bytes identifier') :
    rule = rule' ∧ identifier = identifier' := by
  obtain ⟨hid, hident⟩ := hfree call call' rule rule' _ _ hselects hselects' hkey
  exact ⟨List.inj_on_of_nodup_map hids (mem_of_selects hselects)
    (mem_of_selects hselects') hid, hident⟩

omit [Flonum F] in
theorem count_eq_tokens (hinv : LocalInv engine s) (hfree : CollisionFree engine)
    {call : ConnLimitCall} {rule : CompiledRule} {identifier : Bytes}
    (hselects : engine.selects call = some (rule, identifier)) :
    s.engine.localTracker.count (trackerKey rule.id.bytes identifier) =
      s.outstanding.countP (holds rule.id.bytes identifier) := by
  refine hinv.balanced.eq_countP fun token htoken => ?_
  obtain ⟨-, call', rule', hselects', hid⟩ := hinv.issued token htoken
  simp only [holds, key, decide_eq_true_eq, Option.some.injEq]
  constructor
  · rintro ⟨hrule, hident⟩
    rw [hrule, hident]
  · intro hkey
    rw [← hid] at hkey ⊢
    exact hfree call' call rule' rule _ _ hselects' hselects hkey

theorem isolated_of_collisionFree
    (hids : (engine.rules.map fun rule => rule.id.bytes).Nodup)
    (hmode : engine.mode = .localOnly) (hfree : CollisionFree engine)
    (hinv : LocalInv engine s) : s.Isolated := by
  have hmode' := hinv.mode.trans hmode
  intro call rule identifier hselects
  have hselects' := hinv.selects ▸ hselects
  refine ⟨?_, ?_⟩
  · have hle := hinv.bounded (trackerKey rule.id.bytes identifier) rule.maxConnections
      fun call' rule' identifier' hsel hkey => by
        obtain ⟨rfl, -⟩ := eq_of_same_key hids hfree hsel hselects' hkey
        exact le_rfl
    rw [verdict_refused_iff hmode' hselects, ← count_eq_tokens hinv hfree hselects']
    omega
  · intro token fate u hstep hother
    have hinv' := localInv_step hmode hinv hstep
    have hselects'' : u.engine.selects call = some (rule, identifier) := by
      rw [hinv'.selects, hselects']
    have htokens : u.outstanding = s.outstanding.erase token := by
      simp only [step] at hstep
      split at hstep
      · rw [← Option.some.inj hstep]
      · simp at hstep
    rw [verdict_eq (hinv'.mode.trans hmode) hselects'', verdict_eq hmode' hselects,
      count_eq_tokens hinv' hfree hselects', count_eq_tokens hinv hfree hselects', htokens,
      List.countP_erase]
    simp [hother]

end CollisionFree

/-! ## Colliding requests -/

theorem acquire_step (hmode : s.engine.mode = .localOnly)
    (hselects : s.engine.selects call = some (rule, identifier))
    (hlt : s.engine.localTracker.count (trackerKey rule.id.bytes identifier) <
      rule.maxConnections) :
    ∃ t, s.step (.acquire call .answered) = some t ∧
      t.engine.localTracker.count (trackerKey rule.id.bytes identifier) =
        s.engine.localTracker.count (trackerKey rule.id.bytes identifier) + 1 ∧
      t.outstanding = ⟨rule.id.bytes, identifier, false⟩ :: s.outstanding := by
  rcases acquireLocal_cases s.engine rule identifier with
    ⟨next, current, hacquire, htakes⟩ | ⟨hge, -⟩
  · refine ⟨_, by rw [step, acquire_of_selects hmode hselects], ?_, ?_⟩
    · rw [hacquire, htakes.count, Function.update_self]
    · rw [hacquire]
      rfl
  · omega

theorem acquire_repeatedly
    (hmode : engine.mode = .localOnly) (hselects : engine.selects call = some (rule, identifier))
    (n : Nat) (hinv : LocalInv engine s)
    (hroom : s.engine.localTracker.count (trackerKey rule.id.bytes identifier) + n ≤
      rule.maxConnections) :
    ∃ t, execute step s (List.replicate n (.acquire call .answered)) = some t ∧
      LocalInv engine t ∧
      t.engine.localTracker.count (trackerKey rule.id.bytes identifier) =
        s.engine.localTracker.count (trackerKey rule.id.bytes identifier) + n ∧
      t.outstanding =
        List.replicate n ⟨rule.id.bytes, identifier, false⟩ ++ s.outstanding := by
  induction n generalizing s with
  | zero => exact ⟨s, rfl, hinv, rfl, rfl⟩
  | succ n ih =>
    have hselects' : s.engine.selects call = some (rule, identifier) := by
      rw [hinv.selects, hselects]
    obtain ⟨t, hstep, hcount, houtstanding⟩ :=
      acquire_step (hinv.mode.trans hmode) hselects' (by omega)
    obtain ⟨u, hrun, hinv', hcount', houtstanding'⟩ :=
      ih (localInv_step hmode hinv hstep) (by omega)
    refine ⟨u, ?_, hinv', by omega, ?_⟩
    · rw [List.replicate_succ, execute, hstep]
      exact hrun
    · rw [houtstanding', houtstanding, List.replicate_succ', List.append_assoc]
      rfl

theorem not_isolated_of_collision
    (hmode : engine.mode = .localOnly) (htracker : engine.localTracker = .new)
    (store : Store F) {call' : ConnLimitCall} {rule' : CompiledRule}
    {identifier' : Bytes}
    (hselects : engine.selects call = some (rule, identifier))
    (hselects' : engine.selects call' = some (rule', identifier'))
    (hkey : trackerKey rule.id.bytes identifier = trackerKey rule'.id.bytes identifier')
    (hne : ¬ (rule.id.bytes = rule'.id.bytes ∧ identifier = identifier'))
    (hle : rule.maxConnections ≤ rule'.maxConnections) :
    ∃ s, execute step (.start engine store)
        (List.replicate rule'.maxConnections (.acquire call' .answered)) = some s ∧
      ¬ s.Isolated := by
  have hzero : ∀ key, (start engine store).engine.localTracker.count key = 0 := by
    intro key
    rw [start, htracker, ShardedConnTracker.count_new]
  obtain ⟨s, hrun, hinv, hcount, houtstanding⟩ := acquire_repeatedly hmode hselects'
    rule'.maxConnections (localInv_start store htracker) (by rw [hzero, Nat.zero_add])
  refine ⟨s, hrun, fun hisolated => ?_⟩
  have hsel : s.engine.selects call = some (rule, identifier) := by
    rw [hinv.selects, hselects]
  have hnone : s.outstanding.countP (holds rule.id.bytes identifier) = 0 := by
    rw [houtstanding, start, List.append_nil, List.countP_eq_zero]
    intro token htoken
    rw [List.eq_of_mem_replicate htoken]
    simp only [holds, decide_eq_true_eq]
    exact fun hsame => hne ⟨hsame.1.symm, hsame.2.symm⟩
  have hrefused := (verdict_refused_iff (hinv.mode.trans hmode) hsel).mpr (by
    rw [hkey, hcount, hzero, Nat.zero_add]
    exact hle)
  rw [(hisolated call rule identifier hsel).1] at hrefused
  have := rule.max_pos
  omega

/-- Every run of an accepted local policy is isolated exactly when no two requests
with different rules or identifiers have the same key. -/
theorem isolated_iff_collisionFree {env : Environment} {bytes : Bytes}
    {engine : ConnectionLimitEngine}
    (haccept : ConnectionLimitEngine.fromSnapshot env bytes = .ok engine)
    (hmode : engine.mode = .localOnly) (store : Store F) :
    (∀ actions s, execute Session.step (.start engine store) actions = some s →
        s.Isolated) ↔
      CollisionFree engine := by
  obtain ⟨snapshot, -, haccepted⟩ := fromSnapshot_ok haccept
  constructor
  · intro hruns call call' rule rule' identifier identifier' hselects hselects' hkey
    by_contra hne
    -- The rule with the larger maximum exhausts the other one.
    rcases le_total rule.maxConnections rule'.maxConnections with hle | hle
    · obtain ⟨s, hrun, hnot⟩ := not_isolated_of_collision hmode haccepted.tracker store
        hselects hselects' hkey hne hle
      exact hnot (hruns _ s hrun)
    · obtain ⟨s, hrun, hnot⟩ := not_isolated_of_collision hmode haccepted.tracker store
        hselects' hselects hkey.symm (fun hsame => hne ⟨hsame.1.symm, hsame.2.symm⟩) hle
      exact hnot (hruns _ s hrun)
  · intro hfree actions s hrun
    have hinv : LocalInv engine s :=
      RunsUnder.invariant (fun hinv _ hstep => localInv_step hmode hinv hstep)
        (RunsUnder.of_execute hrun) (localInv_start store haccepted.tracker)
    exact isolated_of_collisionFree haccepted.ids hmode hfree hinv

/-! ## Colons in rule ids -/

theorem append_colon_inj {left left' right right' : Bytes} (h : 58 ∉ left) (h' : 58 ∉ left')
    (heq : left ++ ascii ":" ++ right = left' ++ ascii ":" ++ right') :
    left = left' ∧ right = right' := by
  rw [List.append_assoc, List.append_assoc] at heq
  exact (append_sep_inj h h').mp heq

theorem collisionFree_of_no_colon
    (h : ∀ rule ∈ engine.rules, 58 ∉ rule.id.bytes) : CollisionFree engine := by
  intro call call' rule rule' identifier identifier' hselects hselects' hkey
  rw [trackerKey_eq, trackerKey_eq] at hkey
  exact append_colon_inj (h rule (mem_of_selects hselects))
    (h rule' (mem_of_selects hselects')) hkey

def plainSnapshot : ConnLimitSnapshot where
  schemaVersion := 1
  generation := 1
  mode := .localOnly
  redis := none
  rules :=
    [headerRule teamId 0 rootText userHeader 2]

theorem plain_policy_isolated :
    ∃ engine : ConnectionLimitEngine,
      ConnectionLimitEngine.fromSnapshot (.constant plainSnapshot) [0] = .ok engine ∧
        ∀ actions (s : Session ℚ),
          execute Session.step (.start engine .empty) actions = some s → s.Isolated := by
  refine ⟨_, rfl, (@isolated_iff_collisionFree ℚ _ (.constant plainSnapshot) [0] _
    rfl rfl .empty).mpr (collisionFree_of_no_colon ?_)⟩
  decide

def teamSnapshot : ConnLimitSnapshot where
  schemaVersion := 1
  generation := 1
  mode := .localOnly
  redis := none
  rules :=
    [ headerRule ⟨ascii "team:eu", by decide⟩ 0 ⟨ascii "/eu", by decide⟩ userHeader 1,
      headerRule teamId 1 rootText userHeader 1 ]

def userCall (path user : Bytes) : ConnLimitCall where
  host := ascii "example.com"
  path := path
  clientIp := ascii "10.0.0.1"
  headerLookup := fun _ => some user

/-- One connection of user `7` to the second team refuses user `eu:7` of the first. -/
theorem colon_in_rule_id_breaks_isolation :
    ∃ engine : ConnectionLimitEngine,
      ConnectionLimitEngine.fromSnapshot (.constant teamSnapshot) [0] = .ok engine ∧
        engine.mode = .localOnly ∧
        ∃ s : Session ℚ,
          execute Session.step (.start engine .empty)
            [.acquire (userCall (ascii "/eu") (ascii "7")) .answered] = some s ∧
          s.outstanding = [⟨ascii "team:eu", ascii "7", false⟩] ∧
          ((s.engine.selects (userCall (ascii "/") (ascii "eu:7"))).map fun selected =>
            (selected.1.id.bytes, selected.1.maxConnections, selected.2)) =
              some (ascii "team", 1, ascii "eu:7") ∧
          s.outstanding.countP (ConnLimitToken.holds (ascii "team") (ascii "eu:7")) = 0 ∧
          s.verdict (userCall (ascii "/") (ascii "eu:7")) = some false :=
  ⟨_, rfl, rfl, _, rfl, rfl, rfl, rfl, rfl⟩

end AuroraGateway.ConnectionLimit
