import AuroraGateway.ConnectionLimit.Engine
import AuroraGateway.Foundation.Ledger
import AuroraGateway.Foundation.Runs

/-!
# Runs of acquisitions and releases

The gateway acquires and releases connections in any order; the tracker takes
one lock for each operation, so that a run is a sequence of operations.  A token
in use is released at most once.  The server may change its keys at any time:
leases expire, and other gateways use it.
-/

namespace AuroraGateway.ConnectionLimit

open Engine Foundation Redis ConnectionLimitEngine

variable {F : Type} [Flonum F]

/-! ## Outcome of an acquisition -/

def ConnectionLimitEngine.selects (engine : ConnectionLimitEngine) (call : ConnLimitCall) :
    Option (CompiledRule × Bytes) :=
  if invalidRequest call then none
  else (engine.selectRule call).map fun rule => (rule, ruleIdentifier rule call)

variable {engine : ConnectionLimitEngine} {call : ConnLimitCall} {rule : CompiledRule}
  {identifier : Bytes}

theorem ConnectionLimitEngine.mem_of_selects (h : engine.selects call = some (rule, identifier)) :
    rule ∈ engine.rules := by
  unfold selects at h
  split at h
  · simp at h
  · obtain ⟨found, hfind, heq⟩ := Option.map_eq_some_iff.mp h
    obtain ⟨rfl, -⟩ := Prod.mk.inj heq
    exact List.mem_of_find?_eq_some hfind

def tokenOf (result : Except Error ConnLimitDecision) : Option ConnLimitToken :=
  result.toOption.bind ConnLimitDecision.token

/-- The rule has room for one more connection, and `next` counts it. -/
structure ConnectionLimitEngine.Takes (engine : ConnectionLimitEngine) (rule : CompiledRule)
    (identifier : Bytes) (next : ShardedConnTracker) : Prop where
  room : engine.localTracker.count (trackerKey rule.id.bytes identifier) < rule.maxConnections
  count : next.count = Function.update engine.localTracker.count
    (trackerKey rule.id.bytes identifier)
    (engine.localTracker.count (trackerKey rule.id.bytes identifier) + 1)

inductive AcquireOutcome (engine : ConnectionLimitEngine) (call : ConnLimitCall) :
    ShardedConnTracker → Option ConnLimitToken → Prop where
  | unchanged : AcquireOutcome engine call engine.localTracker none
  | grantedLocal {rule : CompiledRule} {identifier : Bytes} {next : ShardedConnTracker}
      (hselects : engine.selects call = some (rule, identifier))
      (htakes : engine.Takes rule identifier next) :
      AcquireOutcome engine call next (some ⟨rule.id.bytes, identifier, false⟩)
  | grantedServer {rule : CompiledRule} {identifier : Bytes}
      (hmode : engine.mode = .distributed)
      (hselects : engine.selects call = some (rule, identifier)) :
      AcquireOutcome engine call engine.localTracker
        (some ⟨rule.id.bytes, identifier, true⟩)
  | passed {rule : CompiledRule} {identifier : Bytes} {redis : RedisConnectionLimiter}
      (hmode : engine.mode = .distributed)
      (hselects : engine.selects call = some (rule, identifier))
      (hredis : engine.redis = some redis) (honError : redis.onError = .pass) :
      AcquireOutcome engine call engine.localTracker
        (some ⟨rule.id.bytes, identifier, false⟩)

theorem acquireLocal_cases (engine : ConnectionLimitEngine) (rule : CompiledRule)
    (identifier : Bytes) :
    (∃ next current, engine.acquireLocal rule identifier = (next, ⟨true, current, false⟩) ∧
      engine.Takes rule identifier next) ∨
    (rule.maxConnections ≤
        engine.localTracker.count (trackerKey rule.id.bytes identifier) ∧
      ∃ current, engine.acquireLocal rule identifier =
        (engine.localTracker, ⟨false, current, false⟩)) := by
  rcases Nat.lt_or_ge (engine.localTracker.count (trackerKey rule.id.bytes identifier))
    rule.maxConnections with hlt | hge
  · obtain ⟨next, hacquire, hcount⟩ :=
      ShardedConnTracker.acquire_granted hlt rule.max_lt
    exact .inl ⟨next, _, by rw [acquireLocal, hacquire], hlt, hcount⟩
  · have hacquire := ShardedConnTracker.acquire_refused hge rule.max_pos
    exact .inr ⟨hge, _, by rw [acquireLocal, hacquire]⟩

theorem token_decision_refused (rule : CompiledRule) (identifier : Bytes) (current : Nat)
    (isRedis : Bool) :
    ((⟨false, current, isRedis⟩ : Slot).decision rule identifier).token = none :=
  applyCustomResponse_token _ _ _

theorem acquireLocal_outcome (hselects : engine.selects call = some (rule, identifier)) :
    AcquireOutcome engine call (engine.acquireLocal rule identifier).1
      ((engine.acquireLocal rule identifier).2.decision rule identifier).token := by
  rcases acquireLocal_cases engine rule identifier with
    ⟨next, current, heq, htakes⟩ | ⟨-, current, heq⟩
  · rw [heq]
    exact .grantedLocal hselects htakes
  · rw [heq, token_decision_refused]
    exact .unchanged

theorem acquireSlot_outcome (fate : CallFate) (store : Store F)
    (hselects : engine.selects call = some (rule, identifier)) :
    AcquireOutcome engine call (engine.acquireSlot fate rule identifier store).1
      ((engine.acquireSlot fate rule identifier store).2.2.decision rule
        identifier).token := by
  unfold acquireSlot
  split
  · rename_i redis hmode hredis
    cases hcall : redis.acquire fate rule.id.bytes identifier rule.maxConnections store with
    | mk store' reply =>
      cases reply with
      | some answer =>
        obtain ⟨ok, cur⟩ := answer
        cases ok with
        | true => exact .grantedServer hmode hselects
        | false =>
          rw [token_decision_refused]
          exact .unchanged
      | none =>
        cases honError : redis.onError with
        | fallbackLocal => exact acquireLocal_outcome hselects
        | pass => exact .passed hmode hselects hredis honError
        | block =>
          rw [token_decision_refused]
          exact .unchanged
  · exact acquireLocal_outcome hselects

theorem acquire_outcome (engine : ConnectionLimitEngine) (fate : CallFate)
    (call : ConnLimitCall) (store : Store F) :
    ∃ next, (engine.acquire fate call store).1 = { engine with localTracker := next } ∧
      AcquireOutcome engine call next (tokenOf (engine.acquire fate call store).2.2) := by
  unfold acquire
  split
  · exact ⟨engine.localTracker, rfl, .unchanged⟩
  · rename_i hvalid
    cases hrule : engine.selectRule call with
    | none => exact ⟨engine.localTracker, rfl, .unchanged⟩
    | some rule =>
      have hselects : engine.selects call = some (rule, ruleIdentifier rule call) := by
        rw [selects, if_neg hvalid, hrule, Option.map_some]
      exact ⟨_, rfl, acquireSlot_outcome fate store hselects⟩

/-! ## Local acquisitions -/

theorem acquireSlot_of_local (hmode : engine.mode = .localOnly) (fate : CallFate)
    (rule : CompiledRule) (identifier : Bytes) (store : Store F) :
    engine.acquireSlot fate rule identifier store =
      ((engine.acquireLocal rule identifier).1, store,
        (engine.acquireLocal rule identifier).2) := by
  simp [acquireSlot, hmode]

theorem acquire_of_selects (hmode : engine.mode = .localOnly)
    (hselects : engine.selects call = some (rule, identifier)) (fate : CallFate) (store : Store F) :
    engine.acquire fate call store =
      ({ engine with localTracker := (engine.acquireLocal rule identifier).1 }, store,
        .ok ((engine.acquireLocal rule identifier).2.decision rule identifier)) := by
  unfold selects at hselects
  split at hselects
  · simp at hselects
  · rename_i hvalid
    obtain ⟨found, hrule, heq⟩ := Option.map_eq_some_iff.mp hselects
    obtain ⟨rfl, rfl⟩ := Prod.mk.inj heq
    simp only [acquire, if_neg hvalid, hrule,
      acquireSlot_of_local hmode]

theorem acquire_of_selects_none (hselects : engine.selects call = none) (fate : CallFate)
    (store : Store F) :
    engine.acquire fate call store = (engine, store, .error .invalidRequest) ∨
      engine.acquire fate call store = (engine, store, .ok unmatchedDecision) := by
  unfold selects at hselects
  split at hselects
  · rename_i hinvalid
    exact .inl (by rw [acquire, if_pos hinvalid])
  · rename_i hvalid
    have hrule := Option.map_eq_none_iff.mp hselects
    exact .inr (by rw [acquire, if_neg hvalid, hrule])

/-! ## Sessions -/

structure Session (F : Type) where
  engine : ConnectionLimitEngine
  store : Store F
  outstanding : List ConnLimitToken

inductive Action (F : Type) where
  | acquire (call : ConnLimitCall) (fate : CallFate)
  | release (token : ConnLimitToken) (fate : CallFate)
  | serverChange (store : Store F)

def Session.start (engine : ConnectionLimitEngine) (store : Store F) : Session F :=
  ⟨engine, store, []⟩

def Session.step (s : Session F) : Action F → Option (Session F)
  | .acquire call fate =>
    let (engine, store, result) := s.engine.acquire fate call s.store
    some ⟨engine, store, (tokenOf result).toList ++ s.outstanding⟩
  | .release token fate =>
    if token ∈ s.outstanding then
      let (engine, store) := s.engine.release fate token s.store
      some ⟨engine, store, s.outstanding.erase token⟩
    else none
  | .serverChange store => some { s with store := store }

/-! ## Outcome of a step -/

def ConnectionLimitEngine.releasedByServer (engine : ConnectionLimitEngine)
    (fate : CallFate) (token : ConnLimitToken) (store : Store F) : Bool :=
  match token.isRedis, engine.redis with
  | true, some redis => (redis.release fate token.ruleId token.identifier store).2
  | _, _ => false

theorem release_engine (engine : ConnectionLimitEngine) (fate : CallFate)
    (token : ConnLimitToken) (store : Store F) :
    (engine.release fate token store).1 =
      if engine.releasedByServer fate token store then engine
      else engine.releaseLocal token := by
  cases htoken : token.isRedis with
  | false =>
    simp [release, releasedByServer, htoken]
  | true =>
    cases hredis : engine.redis with
    | none =>
      simp [release, releasedByServer,
        htoken, hredis]
    | some redis =>
      cases hcall : redis.release fate token.ruleId token.identifier store with
      | mk store' ok =>
        cases ok <;>
          simp [release,
            releasedByServer, htoken, hredis, hcall]

variable (store : Store F)

theorem releasedByServer_of_local {fate : CallFate} {token : ConnLimitToken}
    (h : token.isRedis = false) :
    engine.releasedByServer fate token store = false := by
  simp [releasedByServer, h]

inductive StepOutcome (s : Session F) : Action F → ShardedConnTracker →
    List ConnLimitToken → Prop where
  | acquired {call : ConnLimitCall} {fate : CallFate} {tracker : ShardedConnTracker}
      {token : Option ConnLimitToken} (h : AcquireOutcome s.engine call tracker token) :
      StepOutcome s (.acquire call fate) tracker (token.toList ++ s.outstanding)
  | releasedServer {token : ConnLimitToken} {fate : CallFate}
      (hmem : token ∈ s.outstanding)
      (hserver : s.engine.releasedByServer fate token s.store = true) :
      StepOutcome s (.release token fate) s.engine.localTracker (s.outstanding.erase token)
  | releasedLocal {token : ConnLimitToken} {fate : CallFate}
      (hmem : token ∈ s.outstanding)
      (hserver : s.engine.releasedByServer fate token s.store = false) :
      StepOutcome s (.release token fate)
        (s.engine.localTracker.release (trackerKey token.ruleId token.identifier))
        (s.outstanding.erase token)
  | serverChanged {store : Store F} :
      StepOutcome s (.serverChange store) s.engine.localTracker s.outstanding

variable {action : Action F}

theorem Session.step_outcome {s t : Session F} (h : s.step action = some t) :
    ∃ tracker, t.engine = { s.engine with localTracker := tracker } ∧
      StepOutcome s action tracker t.outstanding := by
  cases action with
  | acquire call fate =>
    obtain ⟨tracker, hengine, houtcome⟩ := acquire_outcome s.engine fate call s.store
    simp only [Session.step, Option.some.injEq] at h
    subst h
    exact ⟨tracker, hengine, .acquired houtcome⟩
  | release token fate =>
    simp only [Session.step] at h
    split at h
    · rename_i hmem
      have hengine := release_engine s.engine fate token s.store
      simp only [Option.some.injEq] at h
      subst h
      cases hserver : s.engine.releasedByServer fate token s.store with
      | true =>
        rw [hserver] at hengine
        exact ⟨_, hengine, .releasedServer hmem hserver⟩
      | false =>
        rw [hserver] at hengine
        exact ⟨_, hengine, .releasedLocal hmem hserver⟩
    · simp at h
  | serverChange store =>
    simp only [Session.step, Option.some.injEq] at h
    subst h
    exact ⟨_, rfl, .serverChanged⟩

/-! ## Bounds on the counters -/

theorem Session.count_step {s t : Session F} (h : s.step action = some t) :
    (∀ key, t.engine.localTracker.count key ≤ s.engine.localTracker.count key) ∨
      ∃ call rule identifier, s.engine.selects call = some (rule, identifier) ∧
        s.engine.Takes rule identifier t.engine.localTracker := by
  obtain ⟨tracker, hengine, houtcome⟩ := step_outcome h
  rw [hengine]
  generalize t.outstanding = outstanding at houtcome
  cases houtcome with
  | acquired hacquired =>
    cases hacquired with
    | unchanged => exact .inl fun _ => le_rfl
    | grantedLocal hselects htakes => exact .inr ⟨_, _, _, hselects, htakes⟩
    | grantedServer => exact .inl fun _ => le_rfl
    | passed => exact .inl fun _ => le_rfl
  | releasedServer => exact .inl fun _ => le_rfl
  | releasedLocal =>
    refine .inl fun key => ?_
    rw [ShardedConnTracker.count_release]
    exact update_le_self_iff.mpr (Nat.sub_le _ _) key
  | serverChanged => exact .inl fun _ => le_rfl

/-- A counter is at most what the rules allow that count under its key. -/
def CountBound (engine : ConnectionLimitEngine) (s : Session F) : Prop :=
  ∀ key n, (∀ call rule identifier, engine.selects call = some (rule, identifier) →
      trackerKey rule.id.bytes identifier = key → rule.maxConnections ≤ n) →
    s.engine.localTracker.count key ≤ n

omit [Flonum F] in
theorem countBound_start (htracker : engine.localTracker = .new) :
    CountBound engine (.start engine store) := by
  intro key n _
  rw [Session.start, htracker, ShardedConnTracker.count_new]
  exact Nat.zero_le n

theorem countBound_step {s t : Session F} (hselects : s.engine.selects = engine.selects)
    (hbound : CountBound engine s) (hstep : s.step action = some t) :
    CountBound engine t := by
  intro key n hrules
  rcases Session.count_step hstep with hle | ⟨call, rule, identifier, hsel, hlt, hcount⟩
  · exact (hle key).trans (hbound key n hrules)
  · rw [hcount]
    by_cases hkey : key = trackerKey rule.id.bytes identifier
    · have hmax := hrules call rule identifier (hselects ▸ hsel) hkey.symm
      rw [hkey, Function.update_self]
      omega
    · rw [Function.update_of_ne hkey]
      exact hbound key n hrules

structure SessionRun (F : Type) [Flonum F] where
  engine : ConnectionLimitEngine
  fresh : engine.localTracker = .new
  store : Store F
  actions : List (Action F)
  last : Session F
  runs : execute Session.step (.start engine store) actions = some last

def servedAlice : SessionRun ℚ where
  engine := ((ConnectionLimitEngine.fromSnapshot (.constant distributedSnapshot) [0]).toOption).get
    rfl
  fresh := rfl
  store := .empty
  actions := [.acquire aliceCall .answered]
  last := Option.get _ rfl
  runs := (Option.some_get _).symm

/-- Whatever the server does, and whichever calls to it fail, no counter of the gateway goes
beyond what its rules allow. -/
theorem SessionRun.counts_bounded (r : SessionRun F) : CountBound r.engine r.last := by
  obtain ⟨engine, fresh, store, actions, last, runs⟩ := r
  have hrun : last.engine.selects = engine.selects ∧ CountBound engine last := by
    apply (RunsUnder.of_execute runs).invariant
    · rintro s action t ⟨hselects, hbound⟩ - hstep
      obtain ⟨tracker, hengine, -⟩ := Session.step_outcome hstep
      refine ⟨?_, countBound_step hselects hbound hstep⟩
      rw [hengine, ← hselects]
      rfl
    · exact ⟨rfl, countBound_start store fresh⟩
  exact hrun.2

end AuroraGateway.ConnectionLimit
