import AuroraGateway.ConnectionLimit.Sessions

/-!
# Failover to the local tracker

In distributed mode with `fallback_local` a slot is counted on the server, or in
the tracker when the call to the server fails.  A token of the server whose
release fails is released in the tracker instead, where it was never counted.
The tracker counts the local tokens in every run in which such a release finds
no local connection of the same key.
-/

namespace AuroraGateway.ConnectionLimit

open Engine Foundation Redis ConnLimitToken

variable {F : Type} [Flonum F]

def ConnLimitToken.localKey (token : ConnLimitToken) : Option Bytes :=
  if token.isRedis then none else some (trackerKey token.ruleId token.identifier)

def FailedReleaseHarmless (s : Session F) : Action F → Prop
  | .release token fate =>
    token.isRedis = true →
    s.engine.releasedByServer fate token s.store = false →
    s.engine.localTracker.count (trackerKey token.ruleId token.identifier) = 0
  | _ => True

def Session.localTokens (s : Session F) (ruleId identifier : Bytes) : Nat :=
  s.outstanding.countP fun token =>
    !token.isRedis && token.ruleId == ruleId && token.identifier == identifier

structure FailoverInv (engine : ConnectionLimitEngine) (s : Session F) : Prop where
  engine_eq : s.engine = { engine with localTracker := s.engine.localTracker }
  balanced : Balanced ConnLimitToken.localKey s.engine.localTracker.count s.outstanding
  bounded : CountBound engine s
  ruleBounded : ∀ rule ∈ engine.rules, ∀ identifier,
    s.localTokens rule.id.bytes identifier ≤ rule.maxConnections

variable {engine : ConnectionLimitEngine}

omit [Flonum F] in
theorem failoverInv_start (store : Store F) (htracker : engine.localTracker = .new) :
    FailoverInv engine (.start engine store) where
  engine_eq := rfl
  balanced := by
    rw [Session.start, htracker]
    exact Balanced.nil
  bounded := countBound_start store htracker
  ruleBounded rule _ identifier := Nat.zero_le _

omit [Flonum F] in
theorem localTokens_le_count {s : Session F} (hinv : FailoverInv engine s)
    (ruleId identifier : Bytes) :
    s.localTokens ruleId identifier ≤
      s.engine.localTracker.count (trackerKey ruleId identifier) := by
  refine hinv.balanced.countP_le fun token _ htoken => ?_
  simp only [Bool.and_eq_true, Bool.not_eq_true', beq_iff_eq] at htoken
  obtain ⟨⟨hlocal, hid⟩, hident⟩ := htoken
  rw [localKey, hlocal, hid, hident]
  rfl

section Step

variable {engine : ConnectionLimitEngine} {redis : RedisConnectionLimiter}
  {s t : Session F} {action : Action F}

theorem isRedis_of_releasedByServer {fate : CallFate} {token : ConnLimitToken}
    {store : Store F} (h : engine.releasedByServer fate token store = true) :
    token.isRedis = true := by
  cases htoken : token.isRedis with
  | true => rfl
  | false =>
    rw [releasedByServer_of_local store htoken] at h
    exact h

theorem balanced_step (hredis : engine.redis = some redis)
    (honError : redis.onError = .fallbackLocal) (hinv : FailoverInv engine s)
    (hok : FailedReleaseHarmless s action) (hstep : s.step action = some t) :
    Balanced localKey t.engine.localTracker.count t.outstanding := by
  have hredis' : s.engine.redis = some redis := by
    rw [hinv.engine_eq]
    exact hredis
  obtain ⟨tracker, hengine, houtcome⟩ := Session.step_outcome hstep
  rw [hengine]
  generalize t.outstanding = outstanding at houtcome ⊢
  cases houtcome with
  | acquired hacquired =>
    cases hacquired with
    | unchanged => exact hinv.balanced
    | grantedLocal _ htakes =>
      rw [htakes.count]
      exact hinv.balanced.take rfl
    | grantedServer => exact hinv.balanced.take_uncounted rfl
    | passed _ _ hsome hpass =>
      rw [hredis', Option.some.injEq] at hsome
      subst hsome
      simp [honError] at hpass
  | releasedServer hmem hserver =>
    refine hinv.balanced.give_uncounted ?_
    rw [localKey, isRedis_of_releasedByServer hserver, if_pos rfl]
  | @releasedLocal token fate hmem hserver =>
    rw [ShardedConnTracker.count_release]
    cases htoken : token.isRedis with
    | true =>
      -- The release finds nothing to take back.
      have hzero := hok htoken hserver
      have hsame : Function.update s.engine.localTracker.count
          (trackerKey token.ruleId token.identifier)
          (s.engine.localTracker.count (trackerKey token.ruleId token.identifier) - 1) =
            s.engine.localTracker.count := by
        rw [hzero, Nat.zero_sub, ← hzero, Function.update_eq_self]
      rw [hsame]
      refine hinv.balanced.give_uncounted ?_
      rw [localKey, htoken, if_pos rfl]
    | false =>
      refine hinv.balanced.give hmem ?_
      rw [localKey, htoken, if_neg Bool.false_ne_true]
  | serverChanged => exact hinv.balanced

theorem ruleBounded_step (hids : (engine.rules.map fun rule => rule.id.bytes).Nodup)
    (hredis : engine.redis = some redis) (honError : redis.onError = .fallbackLocal)
    (hinv : FailoverInv engine s) (hstep : s.step action = some t) {rule : CompiledRule}
    (hrule : rule ∈ engine.rules) (identifier : Bytes) :
    t.localTokens rule.id.bytes identifier ≤ rule.maxConnections := by
  have hredis' : s.engine.redis = some redis := by
    rw [hinv.engine_eq]
    exact hredis
  have hbound := hinv.ruleBounded rule hrule identifier
  obtain ⟨tracker, -, houtcome⟩ := Session.step_outcome hstep
  rw [Session.localTokens] at hbound ⊢
  generalize t.outstanding = outstanding at houtcome ⊢
  cases houtcome with
  | acquired hacquired =>
    cases hacquired with
    | unchanged => exact hbound
    | @grantedLocal granted ident _ hselects htakes =>
      rw [Option.toList_some, List.singleton_append, List.countP_cons]
      split
      · rename_i hsame
        simp only [Bool.not_false, Bool.true_and, Bool.and_eq_true, beq_iff_eq] at hsame
        have hmem : granted ∈ engine.rules := by
          have hmem' := ConnectionLimitEngine.mem_of_selects hselects
          rw [hinv.engine_eq] at hmem'
          exact hmem'
        have hgranted := List.inj_on_of_nodup_map hids hmem hrule hsame.1
        have hroom := htakes.room
        rw [hgranted, hsame.2] at hroom
        have hcount := localTokens_le_count hinv rule.id.bytes identifier
        rw [Session.localTokens] at hcount
        omega
      · exact hbound
    | grantedServer =>
      exact hbound
    | passed _ _ hsome hpass =>
      rw [hredis', Option.some.injEq] at hsome
      subst hsome
      simp [honError] at hpass
  | releasedServer => exact (List.erase_sublist.countP_le).trans hbound
  | releasedLocal => exact (List.erase_sublist.countP_le).trans hbound
  | serverChanged => exact hbound

theorem failoverInv_step (hids : (engine.rules.map fun rule => rule.id.bytes).Nodup)
    (hredis : engine.redis = some redis) (honError : redis.onError = .fallbackLocal)
    (hinv : FailoverInv engine s) (hok : FailedReleaseHarmless s action)
    (hstep : s.step action = some t) : FailoverInv engine t where
  engine_eq := by
    obtain ⟨tracker, hengine, -⟩ := Session.step_outcome hstep
    rw [hengine, hinv.engine_eq]
  balanced := balanced_step hredis honError hinv hok hstep
  bounded := countBound_step (by rw [hinv.engine_eq]; rfl) hinv.bounded hstep
  ruleBounded _ hrule identifier :=
    ruleBounded_step hids hredis honError hinv hstep hrule identifier

end Step

def Session.localTokensOf (s : Session F) (key : Bytes) : Nat :=
  s.outstanding.countP fun token =>
    !token.isRedis && trackerKey token.ruleId token.identifier == key

/-- In every run whose failed releases are harmless the tracker counts the local
tokens, and they stay within the maximum of their rules. -/
theorem failover_accounting {env : Environment} {bytes : Bytes}
    {engine : ConnectionLimitEngine} {redis : RedisConnectionLimiter}
    (haccept : ConnectionLimitEngine.fromSnapshot env bytes = .ok engine)
    (hredis : engine.redis = some redis) (honError : redis.onError = .fallbackLocal)
    {store : Store F} {actions : List (Action F)} {s : Session F}
    (hrun : RunsUnder Session.step FailedReleaseHarmless (.start engine store) actions s) :
    (∀ key, s.engine.localTracker.count key = s.localTokensOf key) ∧
      (∀ key n, (∀ call rule identifier, engine.selects call = some (rule, identifier) →
          trackerKey rule.id.bytes identifier = key → rule.maxConnections ≤ n) →
        s.localTokensOf key ≤ n) ∧
      ∀ rule ∈ engine.rules, ∀ identifier,
        s.localTokens rule.id.bytes identifier ≤ rule.maxConnections := by
  obtain ⟨snapshot, -, haccepted⟩ := ConnectionLimitEngine.fromSnapshot_ok haccept
  have hinv : FailoverInv engine s :=
    RunsUnder.invariant
      (fun hinv hok hstep => failoverInv_step haccepted.ids hredis honError hinv hok hstep)
      hrun (failoverInv_start store haccepted.tracker)
  have hcount : ∀ key, s.engine.localTracker.count key = s.localTokensOf key := by
    intro key
    refine hinv.balanced.eq_countP fun token _ => ?_
    cases htoken : token.isRedis <;> simp [localKey, htoken]
  refine ⟨hcount, fun key n hrules => ?_, hinv.ruleBounded⟩
  rw [← hcount]
  exact hinv.bounded key n hrules

/-! ## A release that fails -/

def localRoundTrip : List (Action ℚ) :=
  [ .acquire aliceCall .lostRequest,
    .release ⟨ascii "team", ascii "alice", false⟩ .answered ]

theorem failover_local_round_trip :
    ∃ engine : ConnectionLimitEngine, ∃ s : Session ℚ,
      ConnectionLimitEngine.fromSnapshot (.constant distributedSnapshot) [0] = .ok engine ∧
        execute Session.step (.start engine .empty) localRoundTrip = some s ∧
        ∀ key, s.engine.localTracker.count key = s.localTokensOf key := by
  refine ⟨_, _, rfl, rfl, (@failover_accounting ℚ _ (.constant distributedSnapshot) [0] _ _
    rfl rfl rfl .empty localRoundTrip _ (.cons ?_ rfl (.cons ?_ rfl (.nil _)))).1⟩
  · trivial
  · intro hredis
    simp at hredis

/-- A token of the server and one of the tracker; the release of the first fails
and takes back the second, so that another local slot is given. -/
theorem failed_release_frees_local_slot :
    ∃ engine : ConnectionLimitEngine, ∃ s : Session ℚ,
      ConnectionLimitEngine.fromSnapshot (.constant distributedSnapshot) [0] = .ok engine ∧
        execute Session.step (.start engine .empty)
          [.acquire aliceCall .answered, .acquire aliceCall .lostRequest,
            .release ⟨ascii "team", ascii "alice", true⟩ .lostRequest,
            .acquire aliceCall .lostRequest] = some s ∧
        s.engine.localTracker.count (trackerKey (ascii "team") (ascii "alice")) = 1 ∧
        s.localTokensOf (trackerKey (ascii "team") (ascii "alice")) = 2 ∧
        engine.rules.map CompiledRule.maxConnections = [1] :=
  ⟨_, _, rfl, rfl, rfl, rfl, rfl⟩

end AuroraGateway.ConnectionLimit
