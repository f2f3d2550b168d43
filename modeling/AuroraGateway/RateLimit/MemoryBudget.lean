import AuroraGateway.RateLimit.Engine
import Mathlib.Algebra.Order.BigOperators.Group.Finset

/-!
# Memory budget and expiry of the shards

No shard outgrows its share of the budget, and the lower bound that lets a full
shard skip its sweep never hides an entry that the sweep would remove.
-/

namespace AuroraGateway.RateLimit

open Foundation Redis HashTable

variable {F : Type}

/-! ## One shard -/

def BoundValid (shard : Shard F) : Prop :=
  ∀ e ∈ shard.entries.entries, shard.oldestAccessLowerBound ≤ e.2.lastAccessSecs

structure ShardInv (cfg : ShardConfig) (shard : Shard F) : Prop where
  len_le : shard.entries.len ≤ cfg.maxKeysPerShard
  bound : BoundValid shard

theorem shardInv_new (cfg : ShardConfig) : ShardInv cfg (Shard.new : Shard F) :=
  ⟨Nat.zero_le _, by simp [BoundValid, Shard.new, empty]⟩

private theorem foldl_min_le_init (l : List (RateLimitKey × ShardEntry F)) (start : Nat) :
    l.foldl (fun oldest e => min oldest e.2.lastAccessSecs) start ≤ start := by
  induction l generalizing start with
  | nil => exact Nat.le_refl _
  | cons e l ih => exact (ih _).trans (Nat.min_le_left _ _)

private theorem foldl_min_le (l : List (RateLimitKey × ShardEntry F)) (start : Nat)
    {e : RateLimitKey × ShardEntry F} (he : e ∈ l) :
    l.foldl (fun oldest e => min oldest e.2.lastAccessSecs) start ≤
      e.2.lastAccessSecs := by
  induction l generalizing start with
  | nil => simp at he
  | cons e' l ih =>
    rcases List.mem_cons.mp he with rfl | he
    · exact (foldl_min_le_init l _).trans (Nat.min_le_right _ _)
    · exact ih _ he

theorem boundValid_sweep (ttlThreshold : Nat) (shard : Shard F) :
    BoundValid (sweep ttlThreshold shard) :=
  fun _ he => foldl_min_le _ _ he

variable {cfg : ShardConfig} {shard : Shard F}

theorem ttlSweep_inv (h : ShardInv cfg shard)
    (ttlThreshold : Nat) : ShardInv cfg (ttlSweep ttlThreshold shard) := by
  unfold ttlSweep
  split
  · exact ⟨(len_retain_le _ _).trans h.len_le, boundValid_sweep _ _⟩
  · exact h

theorem ttlSweep_entries (h : BoundValid shard) (ttlThreshold : Nat) :
    (ttlSweep ttlThreshold shard).entries = (sweep ttlThreshold shard).entries := by
  unfold ttlSweep
  split
  · rfl
  · refine (retain_eq_self ?_).symm
    intro e he
    have := h e he
    simp only [decide_eq_true_eq]
    omega

theorem boundValid_erase (h : BoundValid shard) (key : RateLimitKey) :
    BoundValid { shard with entries := shard.entries.erase key } :=
  fun e he => h e (mem_retain.mp he).1

variable {policy : EvictionPolicy} {order : ShardOrder F}

theorem victimKey_mem {key : RateLimitKey} (h : victimKey policy order shard = some key) :
    ∃ e ∈ shard.entries.entries, e.1 = key := by
  obtain ⟨e, hargmin, rfl⟩ := Option.map_eq_some_iff.mp h
  exact ⟨e, (order.perm _).mem_iff.mp (List.argmin_mem hargmin), rfl⟩

theorem victimKey_ne_none (h : 0 < shard.entries.len) :
    victimKey policy order shard ≠ none := by
  intro hnone
  have hempty := List.argmin_eq_none.mp (Option.map_eq_none_iff.mp hnone)
  have hlen := (order.perm shard.entries.entries).length_eq
  rw [hempty] at hlen
  exact absurd hlen.symm (Nat.pos_iff_ne_zero.mp h)

theorem applyOverflow_inv (hpos : 0 < cfg.maxKeysPerShard)
    (order : ShardOrder F) (rule : CompiledRule) (nowSecs : Nat)
    (h : ShardInv cfg shard) :
    ShardInv cfg (applyOverflow order cfg rule nowSecs shard).1 ∧
      ((applyOverflow order cfg rule nowSecs shard).2 = none →
        (applyOverflow order cfg rule nowSecs shard).1.entries.len <
          cfg.maxKeysPerShard) := by
  unfold applyOverflow
  split
  · rename_i hfull
    cases cfg.overflowStrategy with
    | bypassNew => exact ⟨h, by simp⟩
    | dropNew => exact ⟨h, by simp⟩
    | evictAndTrack =>
      cases hvictim : victimKey cfg.evictionPolicy order shard with
      | none => exact absurd hvictim (victimKey_ne_none (hpos.trans_le hfull))
      | some key =>
        obtain ⟨e, he, rfl⟩ := victimKey_mem hvictim
        have hlt := len_erase_lt he
        exact ⟨⟨hlt.le.trans h.len_le, boundValid_erase h.bound _⟩,
          fun _ => hlt.trans_le h.len_le⟩
  · rename_i hroom
    exact ⟨h, fun _ => Nat.lt_of_not_le hroom⟩

theorem makeRoom_inv (hpos : 0 < cfg.maxKeysPerShard)
    (order : ShardOrder F) (rule : CompiledRule) (nowSecs : Nat)
    (h : ShardInv cfg shard) :
    ShardInv cfg (makeRoom ttlSweep order cfg rule nowSecs shard).1 ∧
      ((makeRoom ttlSweep order cfg rule nowSecs shard).2 = none →
        (makeRoom ttlSweep order cfg rule nowSecs shard).1.entries.len <
          cfg.maxKeysPerShard) := by
  unfold makeRoom
  split
  · exact applyOverflow_inv hpos order rule nowSecs (ttlSweep_inv h _)
  · rename_i hroom
    exact ⟨h, fun _ => Nat.lt_of_not_le hroom⟩

theorem ShardInv.lower (h : ShardInv cfg shard)
    (nowSecs : Nat) : ShardInv cfg (shard.lower nowSecs) :=
  ⟨h.len_le, fun e he => (Nat.min_le_left _ _).trans (h.bound e he)⟩

theorem boundValid_storeTouched [Flonum F] (h : BoundValid shard)
    (mapKey : RateLimitKey) (rule : CompiledRule) (nowSecs nowMs : Nat)
    (entry : ShardEntry F) :
    BoundValid (storeTouched shard mapKey rule nowSecs nowMs entry).1 := by
  intro e he
  rcases mem_insert.mp he with rfl | ⟨he, -⟩
  · exact Nat.min_le_right _ _
  · exact (Nat.min_le_left _ _).trans (h e he)

theorem evaluateShard_inv [Flonum F] (hpos : 0 < cfg.maxKeysPerShard)
    (order : ShardOrder F) (h : ShardInv cfg shard)
    (mapKey : RateLimitKey) (rule : CompiledRule) (nowSecs nowMs : Nat) :
    ShardInv cfg
      (evaluateShardBy ttlSweep order cfg shard mapKey rule nowSecs nowMs).1 := by
  have hroomInv := makeRoom_inv hpos order rule nowSecs (h.lower nowSecs)
  have houtcome :=
    evaluateShardBy_outcome ttlSweep order cfg shard mapKey rule nowSecs nowMs
  generalize evaluateShardBy ttlSweep order cfg shard mapKey rule nowSecs nowMs =
    result at houtcome ⊢
  cases houtcome with
  | hit hentry =>
    refine ⟨?_, boundValid_storeTouched h.bound _ _ _ _ _⟩
    exact (len_insert_of_some hentry _).trans_le h.len_le
  | refused habsent hroom =>
    rw [hroom] at hroomInv
    exact hroomInv.1
  | @tracked shard' habsent hroom =>
    rw [hroom] at hroomInv
    have hlen := hroomInv.2 rfl
    refine ⟨?_, boundValid_storeTouched hroomInv.1.bound _ _ _ _ _⟩
    cases hget : shard'.entries.get? mapKey with
    | none => exact (len_insert_of_none hget _).trans_le hlen
    | some old => exact (len_insert_of_some hget _).trans_le hlen.le

/-! ## The sweep is never skipped wrongly -/

variable (order : ShardOrder F)

theorem applyOverflow_withBound (cfg : ShardConfig) (rule : CompiledRule) (nowSecs : Nat)
    (shard : Shard F) (bound : Nat) :
    applyOverflow order cfg rule nowSecs
        { shard with oldestAccessLowerBound := bound } =
      ({ (applyOverflow order cfg rule nowSecs shard).1 with
          oldestAccessLowerBound := bound },
        (applyOverflow order cfg rule nowSecs shard).2) := by
  unfold applyOverflow victimKey
  split
  · cases cfg.overflowStrategy with
    | bypassNew => rfl
    | dropNew => rfl
    | evictAndTrack => dsimp only; split <;> rfl
  · rfl

theorem makeRoom_entries (cfg : ShardConfig) (rule : CompiledRule) (nowSecs : Nat) {plain : Shard F}
    (hbound : BoundValid shard) (hentries : shard.entries = plain.entries) :
    (makeRoom ttlSweep order cfg rule nowSecs shard).1.entries =
        (makeRoom sweep order cfg rule nowSecs plain).1.entries ∧
      (makeRoom ttlSweep order cfg rule nowSecs shard).2 =
        (makeRoom sweep order cfg rule nowSecs plain).2 := by
  unfold makeRoom
  rw [← hentries]
  split
  · have hsweep : (ttlSweep (nowSecs - rule.periodSecs * 2) shard).entries =
        (sweep (nowSecs - rule.periodSecs * 2) plain).entries := by
      rw [ttlSweep_entries hbound, sweep, sweep, hentries]
    generalize ttlSweep (nowSecs - rule.periodSecs * 2) shard = left at hsweep ⊢
    generalize sweep (nowSecs - rule.periodSecs * 2) plain = right at hsweep ⊢
    have hleft : left = { right with
        oldestAccessLowerBound := left.oldestAccessLowerBound } := by
      rw [← hsweep]
    rw [hleft, applyOverflow_withBound]
    exact ⟨rfl, rfl⟩
  · exact ⟨hentries, rfl⟩

theorem evaluateShard_entries [Flonum F] (cfg : ShardConfig) {plain : Shard F}
    (hbound : BoundValid shard) (hentries : shard.entries = plain.entries) (mapKey : RateLimitKey)
    (rule : CompiledRule) (nowSecs nowMs : Nat) :
    (evaluateShardBy ttlSweep order cfg shard mapKey rule nowSecs nowMs).1.entries =
        (evaluateShardBy sweep order cfg plain mapKey rule nowSecs nowMs).1.entries ∧
      (evaluateShardBy ttlSweep order cfg shard mapKey rule nowSecs nowMs).2 =
        (evaluateShardBy sweep order cfg plain mapKey rule nowSecs nowMs).2 := by
  cases hget : plain.entries.get? mapKey with
  | some entry =>
    have hget' : shard.entries.get? mapKey = some entry := hentries ▸ hget
    rw [evaluateShardBy_hit _ _ _ _ _ _ hget, evaluateShardBy_hit _ _ _ _ _ _ hget',
      storeTouched, hentries]
    exact ⟨rfl, rfl⟩
  | none =>
    have hget' : shard.entries.get? mapKey = none := hentries ▸ hget
    have hlower : BoundValid (shard.lower nowSecs) :=
      fun e he => (Nat.min_le_left _ _).trans (hbound e he)
    have hplain : (shard.lower nowSecs).entries = (plain.lower nowSecs).entries :=
      hentries
    obtain ⟨hsame, hrefusal⟩ := makeRoom_entries order cfg rule nowSecs hlower hplain
    rcases hleft : makeRoom ttlSweep order cfg rule nowSecs (shard.lower nowSecs)
      with ⟨left, refusal⟩
    rcases hright : makeRoom sweep order cfg rule nowSecs (plain.lower nowSecs)
      with ⟨right, refusal'⟩
    simp only [hleft, hright] at hsame hrefusal
    subst hrefusal
    cases refusal with
    | some decision =>
      rw [evaluateShardBy_refused _ _ _ _ _ _ hget' hleft,
        evaluateShardBy_refused _ _ _ _ _ _ hget hright]
      exact ⟨hsame, rfl⟩
    | none =>
      rw [evaluateShardBy_tracked _ _ _ _ _ _ hget' hleft,
        evaluateShardBy_tracked _ _ _ _ _ _ hget hright, storeTouched, hsame]
      exact ⟨rfl, rfl⟩

/-! ## Runs of an engine -/

structure ShardCall (F : Type) where
  ruleIdx : Nat
  rule : CompiledRule
  identifier : Bytes
  nowSecs : Nat
  nowMs : Nat
  order : ShardOrder F

section Runs

variable [Flonum F]

def runShardCalls (ttl : Nat → Shard F → Shard F) (cfg : ShardConfig) :
    Shards F → List (ShardCall F) → Shards F × List RateLimitDecision
  | shards, [] => (shards, [])
  | shards, call :: calls =>
    let (next, decision) := evaluateRuleShardBy ttl call.order cfg shards call.ruleIdx
      call.rule call.identifier call.nowSecs call.nowMs
    let (last, decisions) := runShardCalls ttl cfg next calls
    (last, decision :: decisions)

/-- The shards of the engine next to those of the variant that always sweeps. -/
structure Simulates (cfg : ShardConfig) (shards plain : Shards F) : Prop where
  inv : ∀ i, ShardInv cfg (shards i)
  entries : ∀ i, (shards i).entries = (plain i).entries

theorem evaluateRuleShardBy_simulates {cfg : ShardConfig}
    (hpos : 0 < cfg.maxKeysPerShard) {shards plain : Shards F}
    (h : Simulates cfg shards plain) (call : ShardCall F) :
    Simulates cfg
        (evaluateRuleShardBy ttlSweep call.order cfg shards call.ruleIdx call.rule
          call.identifier call.nowSecs call.nowMs).1
        (evaluateRuleShardBy sweep call.order cfg plain call.ruleIdx call.rule
          call.identifier call.nowSecs call.nowMs).1 ∧
      (evaluateRuleShardBy ttlSweep call.order cfg shards call.ruleIdx call.rule
          call.identifier call.nowSecs call.nowMs).2 =
        (evaluateRuleShardBy sweep call.order cfg plain call.ruleIdx call.rule
          call.identifier call.nowSecs call.nowMs).2 := by
  have hentries := evaluateShard_entries call.order cfg
    (h.inv (hashKey call.ruleIdx call.identifier)).bound (h.entries _)
    (call.ruleIdx, call.identifier) call.rule call.nowSecs call.nowMs
  refine ⟨⟨fun i => ?_, fun i => ?_⟩, hentries.2⟩
  · by_cases hi : i = hashKey call.ruleIdx call.identifier
    · simp only [evaluateRuleShardBy, if_pos hi]
      exact evaluateShard_inv hpos call.order (h.inv _) _ _ _ _
    · simp only [evaluateRuleShardBy, if_neg hi]
      exact h.inv i
  · by_cases hi : i = hashKey call.ruleIdx call.identifier
    · simp only [evaluateRuleShardBy, if_pos hi]
      exact hentries.1
    · simp only [evaluateRuleShardBy, if_neg hi]
      exact h.entries i

theorem runShardCalls_simulates {cfg : ShardConfig} (hpos : 0 < cfg.maxKeysPerShard)
    {shards plain : Shards F} (h : Simulates cfg shards plain)
    (calls : List (ShardCall F)) :
    Simulates cfg (runShardCalls ttlSweep cfg shards calls).1
        (runShardCalls sweep cfg plain calls).1 ∧
      (runShardCalls ttlSweep cfg shards calls).2 =
        (runShardCalls sweep cfg plain calls).2 := by
  induction calls generalizing shards plain with
  | nil => exact ⟨h, rfl⟩
  | cons call calls ih =>
    obtain ⟨hnext, hdecision⟩ := evaluateRuleShardBy_simulates hpos h call
    obtain ⟨hlast, hdecisions⟩ := ih hnext
    exact ⟨hlast, congrArg₂ List.cons hdecision hdecisions⟩

end Runs

def totalEntries (shards : Shards F) : Nat := ∑ i, (shards i).entries.len

theorem totalEntries_le {shards : Shards F}
    (h : ∀ i, ShardInv cfg (shards i)) :
    totalEntries shards ≤ numShards * cfg.maxKeysPerShard := by
  calc totalEntries shards
      ≤ ∑ _i : Fin numShards, cfg.maxKeysPerShard :=
        Finset.sum_le_sum fun i _ => (h i).len_le
    _ = numShards * cfg.maxKeysPerShard := by simp

/--
For every accepted policy and every sequence of calls, the shards keep to the
memory budget, their bounds are valid, and they hold what they would hold if a
full shard always swept.
-/
theorem runShardCalls_budget_and_ttl [Flonum F] {env : Environment} {bytes : Bytes}
    {snapshot : Snapshot} {engine : RateLimitEngine F}
    (hparse : env.parseSnapshot bytes = some snapshot)
    (haccept : RateLimitEngine.fromSnapshot env bytes = .ok engine)
    (calls : List (ShardCall F)) :
    (∀ i, ((runShardCalls ttlSweep engine.shardCfg engine.shards calls).1 i).entries.len ≤
        engine.shardCfg.maxKeysPerShard) ∧
      totalEntries (runShardCalls ttlSweep engine.shardCfg engine.shards calls).1 ≤
        snapshot.maxKeys.toNat ∧
      (∀ i, BoundValid
        ((runShardCalls ttlSweep engine.shardCfg engine.shards calls).1 i)) ∧
      (∀ i, ((runShardCalls ttlSweep engine.shardCfg engine.shards calls).1 i).entries =
        ((runShardCalls sweep engine.shardCfg engine.shards calls).1 i).entries) ∧
      (runShardCalls ttlSweep engine.shardCfg engine.shards calls).2 =
        (runShardCalls sweep engine.shardCfg engine.shards calls).2 := by
  obtain ⟨snapshot', rules, haccepted⟩ := RateLimitEngine.fromSnapshot_ok haccept
  obtain rfl : snapshot' = snapshot :=
    Option.some.inj (haccepted.parsed.symm.trans hparse)
  have hpos : 0 < engine.shardCfg.maxKeysPerShard := by
    have hbudget := haccepted.budget
    simp only [budgetValid, Bool.and_eq_true, bne_iff_ne] at hbudget
    rw [haccepted.maxKeysPerShard]
    exact Nat.pos_of_ne_zero hbudget.2
  have hstart : Simulates engine.shardCfg engine.shards engine.shards := by
    refine ⟨fun i => ?_, fun _ => rfl⟩
    rw [haccepted.shards]
    exact shardInv_new _
  obtain ⟨hrun, hdecisions⟩ := runShardCalls_simulates hpos hstart calls
  refine ⟨fun i => (hrun.inv i).len_le, ?_, fun i => (hrun.inv i).bound, hrun.entries,
    hdecisions⟩
  refine (totalEntries_le hrun.inv).trans ?_
  rw [haccepted.maxKeysPerShard]
  exact Nat.mul_div_le _ _

theorem runShardCalls_budget_two_keys :
    ∃ engine : RateLimitEngine ℚ,
      RateLimitEngine.fromSnapshot
          (.constant (singleRuleSnapshot .fixedWindow .evictAndTrack
            (catchAllRule 1 none .throttle))) [0] = .ok engine ∧
        totalEntries (runShardCalls ttlSweep engine.shardCfg engine.shards
          [ ⟨0, .catchAll 1 1 .throttle (by decide) (by decide) (by decide),
              ascii "10.0.0.1", 100, 100000, .asStored _ _⟩,
            ⟨0, .catchAll 1 1 .throttle (by decide) (by decide) (by decide),
              ascii "10.0.0.2", 40, 40000, .asStored _ _⟩ ]).1 ≤ 16 := by
  obtain ⟨engine, haccept⟩ : ∃ engine : RateLimitEngine ℚ,
      RateLimitEngine.fromSnapshot
        (.constant (singleRuleSnapshot .fixedWindow .evictAndTrack
          (catchAllRule 1 none .throttle))) [0] = .ok engine := ⟨_, rfl⟩
  have hparse : (Environment.constant (singleRuleSnapshot .fixedWindow .evictAndTrack
      (catchAllRule 1 none .throttle))).parseSnapshot [0] = some _ := rfl
  exact ⟨engine, haccept, (runShardCalls_budget_and_ttl hparse haccept _).2.1⟩

end AuroraGateway.RateLimit
