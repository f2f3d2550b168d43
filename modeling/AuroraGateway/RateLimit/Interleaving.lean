import AuroraGateway.Foundation.Runs
import AuroraGateway.RateLimit.Engine

/-!
# Concurrent evaluation

Calls of `evaluate` run concurrently.  A call reads the clock once, before it
visits the matching rules, and takes the lock of one shard for each of them;
between two visits other calls may run.
-/

namespace AuroraGateway.RateLimit

open Engine Foundation Redis

variable {F : Type}

/-! ## The system -/

structure Pending (F : Type) where
  call : RateLimitCall F
  remaining : List IndexedRule
  vars : EvalVars

structure Issued where
  idx : Nat
  identifier : Bytes
  decision : RateLimitDecision
  deriving DecidableEq

structure System (F : Type) where
  counters : Counters F
  pending : List (Pending F)
  log : List Issued

inductive Action (F : Type) where
  | start (call : RateLimitCall F)
  | visit (i : Nat)
  | finish (i : Nat)

def countedUnder (call : RateLimitCall F) (vars : EvalVars) (item : IndexedRule) :
    Option Bytes :=
  if vars.evalErr.isSome || vars.blockedDecision.isSome then none
  else if !hostMatches item.rule.host call.host then none
  else ruleIdentifier call item.rule

section Step

variable [Flonum F]

def issuedBy (engine : RateLimitEngine F) (call : RateLimitCall F) (vars : EvalVars)
    (item : IndexedRule) (counters : Counters F) : List Issued :=
  match countedUnder call vars item with
  | none => []
  | some identifier =>
    [⟨item.idx, identifier, (evaluateRule engine call item identifier counters).2⟩]

def System.initial (engine : RateLimitEngine F) (store : Store F) : System F :=
  ⟨⟨engine.shards, store⟩, [], []⟩

def System.step (engine : RateLimitEngine F) (s : System F) :
    Action F → Option (System F)
  | .start call =>
    if invalidRequest call.host call.path call.clientIp then none
    else
      some { s with
        pending := s.pending ++ [⟨call, engine.rules.matching call.path, .initial⟩] }
  | .visit i =>
    match s.pending[i]? with
    | some ⟨call, item :: rest, vars⟩ =>
      let (vars', counters) := evaluateStep engine call (vars, s.counters) item
      some
        { counters := counters
          pending := s.pending.set i ⟨call, rest, vars'⟩
          log := s.log ++ issuedBy engine call vars item s.counters }
    | _ => none
  | .finish i =>
    match s.pending[i]? with
    | some ⟨_, [], _⟩ => some { s with pending := s.pending.eraseIdx i }
    | _ => none

variable {engine : RateLimitEngine F}

theorem evaluateRule_of_local (hmode : engine.mode = .localOnly) (call : RateLimitCall F)
    (item : IndexedRule) (identifier : Bytes) (counters : Counters F) :
    evaluateRule engine call item identifier counters =
      evaluateLocal engine call item identifier counters := by
  simp [evaluateRule, RateLimitEngine.activeRedis, hmode]

theorem evaluateStep_counters (engine : RateLimitEngine F) (call : RateLimitCall F)
    (vars : EvalVars) (counters : Counters F) (item : IndexedRule) :
    (evaluateStep engine call (vars, counters) item).2 =
      match countedUnder call vars item with
      | none => counters
      | some identifier => (evaluateRule engine call item identifier counters).1 := by
  unfold evaluateStep countedUnder
  dsimp only
  split
  · rfl
  · split
    · rfl
    · cases ruleIdentifier call item.rule <;> rfl

inductive StepOutcome (engine : RateLimitEngine F) (s : System F) :
    Action F → System F → Prop where
  | start {call : RateLimitCall F} :
      StepOutcome engine s (.start call) { s with
        pending := s.pending ++ [⟨call, engine.rules.matching call.path, .initial⟩] }
  | visit {i : Nat} {call : RateLimitCall F} {item : IndexedRule}
      {rest : List IndexedRule} {vars : EvalVars}
      (hpending : s.pending[i]? = some ⟨call, item :: rest, vars⟩) :
      StepOutcome engine s (.visit i)
        { counters := (evaluateStep engine call (vars, s.counters) item).2
          pending := s.pending.set i
            ⟨call, rest, (evaluateStep engine call (vars, s.counters) item).1⟩
          log := s.log ++ issuedBy engine call vars item s.counters }
  | finish {i : Nat} :
      StepOutcome engine s (.finish i) { s with pending := s.pending.eraseIdx i }

theorem System.step_outcome {s t : System F} {a : Action F} (h : s.step engine a = some t) :
    StepOutcome engine s a t := by
  cases a with
  | start call =>
    simp only [System.step] at h
    split at h
    · simp at h
    · obtain rfl := Option.some.inj h
      exact .start
  | visit i =>
    simp only [System.step] at h
    split at h
    · rename_i call item rest vars hpending
      obtain rfl := Option.some.inj h
      exact .visit hpending
    · simp at h
  | finish i =>
    simp only [System.step] at h
    split at h
    · obtain rfl := Option.some.inj h
      exact .finish
    · simp at h

/-! ## A call on its own -/

theorem execute_visits (engine : RateLimitEngine F) (call : RateLimitCall F)
    (items : List IndexedRule) (vars : EvalVars) (counters : Counters F)
    (log : List Issued) :
    ∃ log', execute (System.step engine) ⟨counters, [⟨call, items, vars⟩], log⟩
        (List.replicate items.length (.visit 0)) =
      some ⟨(items.foldl (evaluateStep engine call) (vars, counters)).2,
        [⟨call, [], (items.foldl (evaluateStep engine call) (vars, counters)).1⟩],
        log'⟩ := by
  induction items generalizing vars counters log with
  | nil => exact ⟨log, rfl⟩
  | cons item items ih =>
    rcases hstep : evaluateStep engine call (vars, counters) item with ⟨vars', counters'⟩
    obtain ⟨log', hrest⟩ := ih vars' counters'
      (log ++ issuedBy engine call vars item counters)
    refine ⟨log', ?_⟩
    simp only [List.length_cons, List.replicate_succ, execute, System.step,
      List.getElem?_cons_zero, hstep, Option.bind_some, List.set_cons_zero,
      List.foldl_cons]
    exact hrest

/-- Without interference a call computes `evaluate`; one that `evaluate` refuses does not
start. -/
theorem execute_alone_eq_evaluate (engine : RateLimitEngine F) (call : RateLimitCall F)
    (store : Store F) :
    (System.step engine (.initial engine store) (.start call) = none ∧
      engine.evaluate call store = (engine, store, .error .invalidRequest)) ∨
    ∃ s' vars, execute (System.step engine) (.initial engine store)
        (.start call ::
          List.replicate (engine.rules.matching call.path).length (.visit 0)) = some s' ∧
      s'.pending = [⟨call, [], vars⟩] ∧
      engine.evaluate call store =
        ({ engine with shards := s'.counters.shards }, s'.counters.store, vars.result) := by
  cases hvalid : invalidRequest call.host call.path call.clientIp with
  | true => exact .inl (by simp [System.step, RateLimitEngine.evaluate, hvalid])
  | false =>
    obtain ⟨log', hrun⟩ := execute_visits engine call (engine.rules.matching call.path)
      .initial ⟨engine.shards, store⟩ []
    have hstart : System.step engine (.initial engine store) (.start call) =
        some ⟨⟨engine.shards, store⟩,
          [⟨call, engine.rules.matching call.path, .initial⟩], []⟩ := by
      simp [System.step, System.initial, hvalid]
    refine .inr ⟨_, _, (congrArg (Option.bind · _) hstart).trans hrun, rfl, ?_⟩
    simp [RateLimitEngine.evaluate, hvalid, BuiltTree.forEachMatch_eq]

end Step

end AuroraGateway.RateLimit
