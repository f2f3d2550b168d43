import AuroraGateway.ConnectionLimit.Engine
import AuroraGateway.Foundation.AsciiText
import AuroraGateway.Foundation.Delimited
import AuroraGateway.RateLimit.Engine
import AuroraGateway.Redis.Footprint

/-!
# Isolation of distributed quotas

Rate and connection limits count on the server under the id of the rule and the
identifier of the client, joined by a colon.  Neither is free of colons, and the
identifier is decoded with replacements first.
-/

namespace AuroraGateway.Redis

open Foundation

/-! ## Keys of pairs -/

def colon : UInt8 := 58

structure Apart (ruleId identifier ruleId' identifier' : Bytes) : Prop where
  decoded : ruleId = ruleId' → fromUtf8Lossy identifier ≠ fromUtf8Lossy identifier'
  /-- Where one id goes on after the other and a colon, the identifiers do not make up for it. -/
  extended : ∀ rest, ruleId' = ruleId ++ colon :: rest →
    fromUtf8Lossy identifier ≠ rest ++ colon :: fromUtf8Lossy identifier'
  extends_other : ∀ rest, ruleId = ruleId' ++ colon :: rest →
    fromUtf8Lossy identifier' ≠ rest ++ colon :: fromUtf8Lossy identifier

theorem apart_iff {ruleId identifier ruleId' identifier' : Bytes} :
    Apart ruleId identifier ruleId' identifier' ↔
      ruleId ++ colon :: fromUtf8Lossy identifier ≠
        ruleId' ++ colon :: fromUtf8Lossy identifier' := by
  rw [ne_eq, append_sep_eq_iff]
  constructor
  · rintro ⟨hdecoded, hextended, hother⟩ (⟨hid, hsame⟩ | ⟨rest, hid, hsame⟩ | ⟨rest, hid, hsame⟩)
    · exact hdecoded hid hsame
    · exact hextended rest hid hsame
    · exact hother rest hid hsame
  · intro h
    exact ⟨fun hid hsame => h (.inl ⟨hid, hsame⟩),
      fun rest hid hsame => h (.inr (.inl ⟨rest, hid, hsame⟩)),
      fun rest hid hsame => h (.inr (.inr ⟨rest, hid, hsame⟩))⟩

end AuroraGateway.Redis

namespace AuroraGateway.RateLimit

open Engine Foundation Redis
open Flonum

variable {F : Type} [Flonum F]

/-! ## Scripts of the rate limiter -/

variable (args : ScriptArgs) (limiter : RedisRateLimiter)

omit [Flonum F] in
theorem hashScript_local {α : Type} (key : Bytes) (value : HashTable Bytes F → StoreValue F)
    (secs : HashTable Bytes F → Int) (reply : HashTable Bytes F → Option α) :
    LocalTo (· = key) fun store : Store F =>
      match store.hashFields key with
      | none => (store, none)
      | some data => ((store.write key (value data)).expire key (secs data), reply data) where
  frame := by
    intro store other hother
    cases store.hashFields key with
    | none => rfl
    | some data => rw [Store.get?_expire_of_ne _ hother, Store.get?_write_of_ne _ hother]
  reply := by
    intro store store' hagree
    have hfields : store.hashFields key = store'.hashFields key := by
      rw [Store.hashFields, Store.value?_congr (hagree _ rfl), Store.hashFields]
    rw [hfields]
    cases store'.hashFields key <;> rfl

theorem tokenBucketScript_local :
    LocalTo (· = args.key) (tokenBucketScript args : Store F → Store F × Option Value) :=
  hashScript_local args.key _ _ _

theorem leakyBucketScript_local :
    LocalTo (· = args.key) (leakyBucketScript args : Store F → Store F × Option Value) :=
  hashScript_local args.key _ _ _

omit [Flonum F] in
theorem get?_settle {store : Store F} {key key' : Bytes} (size : Nat) (value : StoreValue F)
    (secs : Int) (hne : key' ≠ key) :
    (if size = 0 then store.erase key else (store.write key value).expire key secs).get? key' =
      store.get? key' := by
  split
  · exact HashTable.get?_erase_of_ne _ hne
  · rw [Store.get?_expire_of_ne _ hne, Store.get?_write_of_ne _ hne]

theorem slidingWindowScript_local :
    LocalTo (· = args.key) (slidingWindowScript args : Store F → Store F × Option Value) where
  frame := by
    intro store key hkey
    unfold slidingWindowScript
    cases store.members args.key with
    | none => rfl
    | some members =>
      dsimp only
      split
      · exact get?_settle _ _ _ hkey
      · exact get?_settle _ _ _ hkey
  reply := by
    intro store store' hagree
    have hmembers : store.members args.key = store'.members args.key := by
      rw [Store.members, Store.value?_congr (hagree _ rfl), Store.members]
    unfold slidingWindowScript
    rw [hmembers]
    cases store'.members args.key <;> rfl

theorem fixedWindowScript_local :
    LocalTo (fun key => ∃ window : F, key = windowKey args.key window)
      (fixedWindowScript args : Store F → Store F × Option Value) where
  frame := by
    intro store key hkey
    have hne : key ≠ windowKey args.key (scriptWindow args : F) := fun heq => hkey ⟨_, heq⟩
    cases hincr : store.incr (windowKey args.key (scriptWindow args : F)) with
    | none => simp only [fixedWindowScript, hincr]
    | some result =>
      obtain ⟨next, count⟩ := result
      rw [← Store.get?_incr_of_ne hincr hne]
      simp only [fixedWindowScript, hincr]
      by_cases hfirst : count = 1
      · rw [if_pos hfirst, Store.get?_expire_of_ne _ hne]
      · rw [if_neg hfirst]
  reply := by
    intro store store' hagree
    have hincr := Store.incr_congr (hagree (windowKey args.key (scriptWindow args : F)) ⟨_, rfl⟩)
    cases hfirst : store.incr (windowKey args.key (scriptWindow args : F)) with
    | none =>
      rw [hfirst] at hincr
      simp only [fixedWindowScript, hfirst, Option.map_eq_none_iff.mp hincr.symm]
    | some result =>
      rw [hfirst] at hincr
      obtain ⟨result', hsecond, hcount⟩ := Option.map_eq_some_iff.mp hincr.symm
      obtain ⟨next, count⟩ := result
      obtain ⟨next', count'⟩ := result'
      obtain rfl : count' = count := hcount
      simp only [fixedWindowScript, hfirst, hsecond]

def RedisRateLimiter.counterKeys (F : Type) [Flonum F] (limiter : RedisRateLimiter) (key : Bytes) :
    Bytes → Prop :=
  if limiter.script = .builtin .fixedWindow then fun k => ∃ window : F, k = windowKey key window
  else (· = key)

def KeepsToKey (custom : Text → Script F) : Prop :=
  ∀ text args, LocalTo (· = args.key) (custom text args)

variable {custom : Text → Script F}

theorem run_local (hcustom : KeepsToKey custom) (args : ScriptArgs) :
    LocalTo (limiter.counterKeys F args.key) (limiter.run custom args) := by
  unfold RedisRateLimiter.counterKeys RedisRateLimiter.run
  cases limiter.script with
  | custom text =>
    exact hcustom text args
  | builtin algorithm =>
    cases algorithm with
    | tokenBucket => exact tokenBucketScript_local args
    | leakyBucket => exact leakyBucketScript_local args
    | slidingWindow => exact slidingWindowScript_local args
    | fixedWindow => exact fixedWindowScript_local args

theorem evaluate_local (hcustom : KeepsToKey custom) (fate : CallFate) (rule : CompiledRule)
    (identifier : Bytes) (nowMs : Nat) :
    LocalTo (limiter.counterKeys F (limiter.key rule identifier))
      (limiter.evaluate custom fate rule identifier nowMs) :=
  ((run_local limiter hcustom (limiter.args rule identifier nowMs)).invoke fate).map
    fun reply => reply.bind (decisionOfReply rule)

theorem colon_not_mem_decimal (n : Nat) : colon ∉ decimal n := fun h =>
  absurd (isAsciiDigit_of_mem_decimal h) (by decide)

theorem colon_not_mem_scientific (mantissa exponent : Nat) :
    colon ∉ (decimal mantissa).take 1 ++
      (if (((decimal mantissa).drop 1).reverse.dropWhile (· == 48)).reverse.isEmpty then []
        else ascii "." ++ (((decimal mantissa).drop 1).reverse.dropWhile (· == 48)).reverse) ++
      ascii "e+" ++ (if exponent < 10 then ascii "0" else []) ++ decimal exponent := by
  have hfraction : colon ∉ (((decimal mantissa).drop 1).reverse.dropWhile (· == 48)).reverse := by
    intro h
    have hdropped := (List.dropWhile_sublist _).mem (List.mem_reverse.mp h)
    exact colon_not_mem_decimal mantissa (List.mem_of_mem_drop (List.mem_reverse.mp hdropped))
  simp only [List.mem_append, not_or]
  refine ⟨⟨⟨⟨fun h => colon_not_mem_decimal mantissa (List.mem_of_mem_take h), ?_⟩, by decide⟩,
    ?_⟩, colon_not_mem_decimal exponent⟩
  · split
    · simp
    · rw [List.mem_append, not_or]
      exact ⟨by decide, hfraction⟩
  · split
    · decide
    · simp

theorem colon_not_mem_integerText (n : Nat) : colon ∉ integerText n := by
  unfold integerText
  split
  · exact colon_not_mem_decimal n
  · exact colon_not_mem_scientific _ _

theorem counterKeys_disjoint {key key' : Bytes} (hne : key ≠ key') (k : Bytes)
    (h : limiter.counterKeys F key k) : ¬limiter.counterKeys F key' k := by
  unfold RedisRateLimiter.counterKeys at h ⊢
  split at h
  · rename_i hscript
    rw [if_pos hscript]
    rintro ⟨window', hwindow'⟩
    obtain ⟨window, hwindow⟩ := h
    have hsame := hwindow.symm.trans hwindow'
    simp only [windowKey, List.append_assoc] at hsame
    exact hne ((append_sep_inj_right (colon_not_mem_integerText (trunc window).toNat)
      (colon_not_mem_integerText (trunc window').toNat)).mp hsame).1
  · rename_i hscript
    rw [if_neg hscript]
    intro h'
    exact hne (h.symm.trans h')

/-! ## Rate limits -/

structure QuotaPairs (F : Type) [Flonum F] where
  env : Environment
  bytes : Bytes
  engine : RateLimitEngine F
  compiles : RateLimitEngine.fromSnapshot env bytes = .ok engine
  snapshot : Snapshot
  rules : List CompiledRule
  accepted : Accepted env bytes snapshot rules engine
  distributed : snapshot.mode = .distributed
  limiter : RedisRateLimiter
  redis : engine.redis = some limiter
  custom : Text → Script F
  keepsToKey : KeepsToKey custom
  rule : CompiledRule
  identifier : Bytes
  rule' : CompiledRule
  identifier' : Bytes
  mem : rule ∈ rules
  mem' : rule' ∈ rules
  differ : rule ≠ rule' ∨ identifier ≠ identifier'

namespace QuotaPairs

variable (pairs : QuotaPairs F)

def countedUnder (calls : List (CallFate × Nat)) (store : Store F) : Store F :=
  calls.foldl (fun store call => (pairs.limiter.evaluate pairs.custom call.1 pairs.rule'
    pairs.identifier' call.2 store).1) store

/-- The pairs have different keys, and what is counted under the second pair does not change a
decision about the first one. -/
structure Isolated : Prop where
  keys : pairs.limiter.key pairs.rule pairs.identifier ≠
    pairs.limiter.key pairs.rule' pairs.identifier'
  decisions : ∀ (calls : List (CallFate × Nat)) (store : Store F) (fate : CallFate) (nowMs : Nat),
    (pairs.limiter.evaluate pairs.custom fate pairs.rule pairs.identifier nowMs
        (pairs.countedUnder calls store)).2 =
      (pairs.limiter.evaluate pairs.custom fate pairs.rule pairs.identifier nowMs store).2

theorem key_ne_iff :
    pairs.limiter.key pairs.rule pairs.identifier ≠
        pairs.limiter.key pairs.rule' pairs.identifier' ↔
      Apart pairs.rule.id.bytes pairs.identifier pairs.rule'.id.bytes pairs.identifier' := by
  rw [apart_iff, not_iff_not]
  simp only [RedisRateLimiter.key, List.append_assoc, List.append_cancel_left_eq]
  exact Iff.rfl

theorem isolated_iff : pairs.Isolated ↔
    Apart pairs.rule.id.bytes pairs.identifier pairs.rule'.id.bytes pairs.identifier' := by
  rw [← key_ne_iff]
  refine ⟨fun h => h.keys, fun hne => ⟨hne, fun calls store fate nowMs => ?_⟩⟩
  have hlocal := evaluate_local pairs.limiter pairs.keepsToKey fate pairs.rule pairs.identifier
    nowMs
  have hothers : ∀ other ∈ calls.map fun call => pairs.limiter.evaluate pairs.custom call.1
      pairs.rule' pairs.identifier' call.2,
      LocalTo (pairs.limiter.counterKeys F (pairs.limiter.key pairs.rule' pairs.identifier'))
        other := by
    intro other hother
    obtain ⟨call, -, rfl⟩ := List.mem_map.mp hother
    exact evaluate_local pairs.limiter pairs.keepsToKey call.1 pairs.rule' pairs.identifier' call.2
  have hsame := hlocal.undisturbed hothers (counterKeys_disjoint pairs.limiter hne) store
  rw [List.foldl_map] at hsame
  exact hsame

end QuotaPairs

end AuroraGateway.RateLimit

namespace AuroraGateway.ConnectionLimit

open Engine Foundation Redis
open Flonum

variable {F : Type} [Flonum F]

/-! ## Connection limits -/

theorem number_congr {store store' : Store F} {key : Bytes}
    (h : store.get? key = store'.get? key) : store.number key = store'.number key := by
  rw [Store.number, Store.value?_congr h, Store.number]

theorem connLimitAcquireScript_local (key : Bytes) (limit ttlSecs : Nat) :
    LocalTo (· = key)
      (connLimitAcquireScript key limit ttlSecs : Store F → Store F × Option Value) where
  frame := by
    intro store other hother
    unfold connLimitAcquireScript
    split
    · rfl
    · split
      · split
        · rfl
        · rename_i next newVal hincr
          exact (Store.get?_expire_of_ne _ hother).trans (Store.get?_incr_of_ne hincr hother)
      · rfl
  reply := by
    intro store store' hagree
    have hincr := Store.incr_congr (hagree key rfl)
    unfold connLimitAcquireScript
    rw [number_congr (hagree key rfl)]
    split
    · rfl
    · split
      · cases hfirst : store.incr key with
        | none =>
          rw [hfirst] at hincr
          rw [Option.map_eq_none_iff.mp hincr.symm]
        | some result =>
          rw [hfirst] at hincr
          obtain ⟨result', hsecond, hcount⟩ := Option.map_eq_some_iff.mp hincr.symm
          rw [hsecond]
          dsimp only
          rw [hcount]
      · rfl

theorem connLimitReleaseScript_frame (key : Bytes) (store : Store F) {other : Bytes}
    (hother : other ≠ key) :
    (connLimitReleaseScript key store).1.get? other = store.get? other := by
  unfold connLimitReleaseScript
  split
  · rfl
  · split
    · exact HashTable.get?_erase_of_ne _ hother
    · split
      · rfl
      · rename_i next newVal hdecr
        exact Store.get?_decr_of_ne hdecr hother

inductive PairCall where
  | acquire (fate : CallFate)
  | release (fate : CallFate)

def PairCall.run (call : PairCall) (limiter : RedisConnectionLimiter) (rule : CompiledRule)
    (identifier : Bytes) (store : Store F) : Store F :=
  match call with
  | .acquire fate =>
    (limiter.acquire fate rule.id.bytes identifier rule.maxConnections store).1
  | .release fate => (limiter.release fate rule.id.bytes identifier store).1

open RedisConnectionLimiter

theorem acquire_local (limiter : RedisConnectionLimiter) (fate : CallFate)
    (ruleId identifier : Bytes) (maxConnections : Nat) :
    LocalTo (· = key ruleId identifier)
      (limiter.acquire fate ruleId identifier maxConnections :
        Store F → Store F × Option (Bool × Nat)) :=
  ((connLimitAcquireScript_local _ _ _).invoke fate).map fun reply =>
    reply.bind acquireReply

theorem pairCall_frame (call : PairCall) (limiter : RedisConnectionLimiter) (rule : CompiledRule)
    (identifier : Bytes) (store : Store F) {other : Bytes}
    (hother : other ≠ key rule.id.bytes identifier) :
    (call.run limiter rule identifier store).get? other = store.get? other := by
  cases call with
  | acquire fate => exact (acquire_local limiter fate _ _ _).frame store other hother
  | release fate =>
    cases fate with
    | answered => exact connLimitReleaseScript_frame _ store hother
    | lostRequest => rfl
    | lostReply => exact connLimitReleaseScript_frame _ store hother

structure QuotaPairs where
  env : Environment
  bytes : Bytes
  engine : ConnectionLimitEngine
  compiles : ConnectionLimitEngine.fromSnapshot env bytes = .ok engine
  distributed : engine.mode = .distributed
  limiter : RedisConnectionLimiter
  redis : engine.redis = some limiter
  rule : CompiledRule
  identifier : Bytes
  rule' : CompiledRule
  identifier' : Bytes
  mem : rule ∈ engine.rules
  mem' : rule' ∈ engine.rules
  differ : rule ≠ rule' ∨ identifier ≠ identifier'

namespace QuotaPairs

variable (pairs : QuotaPairs)

def countedUnder (calls : List PairCall) (store : Store F) : Store F :=
  calls.foldl (fun store call => call.run pairs.limiter pairs.rule' pairs.identifier' store) store

structure Isolated (F : Type) [Flonum F] : Prop where
  keys : RedisConnectionLimiter.key pairs.rule.id.bytes pairs.identifier ≠
    RedisConnectionLimiter.key pairs.rule'.id.bytes pairs.identifier'
  decisions : ∀ (calls : List PairCall) (store : Store F) (fate : CallFate),
    (pairs.limiter.acquire fate pairs.rule.id.bytes pairs.identifier pairs.rule.maxConnections
        (pairs.countedUnder calls store)).2 =
      (pairs.limiter.acquire fate pairs.rule.id.bytes pairs.identifier pairs.rule.maxConnections
        store).2

theorem key_ne_iff :
    key pairs.rule.id.bytes pairs.identifier ≠
        key pairs.rule'.id.bytes pairs.identifier' ↔
      Apart pairs.rule.id.bytes pairs.identifier pairs.rule'.id.bytes pairs.identifier' := by
  rw [apart_iff, not_iff_not]
  simp only [key, List.append_assoc, List.append_cancel_left_eq]
  exact Iff.rfl

theorem get?_countedUnder (calls : List PairCall) (store : Store F) {other : Bytes}
    (hother : other ≠ key pairs.rule'.id.bytes pairs.identifier') :
    (pairs.countedUnder calls store).get? other = store.get? other := by
  induction calls generalizing store with
  | nil => rfl
  | cons call calls ih => exact (ih _).trans (pairCall_frame call _ _ _ store hother)

theorem isolated_iff : pairs.Isolated F ↔
    Apart pairs.rule.id.bytes pairs.identifier pairs.rule'.id.bytes pairs.identifier' := by
  rw [← key_ne_iff]
  refine ⟨fun h => h.keys, fun hne => ⟨hne, fun calls store fate => ?_⟩⟩
  refine (acquire_local pairs.limiter fate _ _ _).reply _ _ ?_
  rintro key rfl
  exact pairs.get?_countedUnder calls store hne

end QuotaPairs

def twoUsers : QuotaPairs where
  env := .constant distributedSnapshot
  bytes := [0]
  engine := _
  compiles := rfl
  distributed := rfl
  limiter := _
  redis := rfl
  rule := _
  identifier := ascii "alice"
  rule' := _
  identifier' := ascii "bob"
  mem := List.mem_cons_self
  mem' := List.mem_cons_self
  differ := .inr (by decide)

end AuroraGateway.ConnectionLimit

namespace AuroraGateway.Redis

open Foundation Engine

/-! ## Both kinds of quotas -/

/-- Two pairs of a distributed policy are isolated exactly if their texts keep apart. -/
theorem distributed_quotas_isolated_iff {F : Type} [Flonum F] :
    (∀ pairs : RateLimit.QuotaPairs F, pairs.Isolated ↔
      Apart pairs.rule.id.bytes pairs.identifier pairs.rule'.id.bytes pairs.identifier') ∧
    ∀ pairs : ConnectionLimit.QuotaPairs, pairs.Isolated F ↔
      Apart pairs.rule.id.bytes pairs.identifier pairs.rule'.id.bytes pairs.identifier' :=
  ⟨fun pairs => pairs.isolated_iff, fun pairs => pairs.isolated_iff⟩

end AuroraGateway.Redis

namespace AuroraGateway.RateLimit

open Engine Foundation Redis

/-! ## A colon in the id of a rule -/

def userRule (id : Text) (priority : UInt32) : RuleInput :=
  { catchAllRule 1 none .throttle with
    id := id
    priority := priority
    limitBy := .ofAscii "header"
    headerName := some (.ofAscii "x-user") }

def teamsSnapshot : Snapshot :=
  { singleRuleSnapshot .fixedWindow .evictAndTrack (userRule (.ofAscii "team") 1) with
    mode := .distributed
    redis := some ⟨.ofAscii "redis:6379", none, none, 50, 8, .block, none, none⟩
    rules := [userRule (.ofAscii "team") 1, userRule (.ofAscii "team:blue") 2] }

def teamRule (id : Text) : CompiledRule :=
  { CompiledRule.oncePerPeriod .throttle with
    id := id
    limitBy := .header
    headerName := some (ascii "x-user") }

def teamsEngine : RateLimitEngine ℚ where
  generation := 1
  mode := .distributed
  shardCfg := ⟨1, .lru, .evictAndTrack, .fixedWindow⟩
  rules := ruleTree [teamRule (.ofAscii "team"), teamRule (.ofAscii "team:blue")]
  shards := fun _ => .new
  redis := some ⟨.block, .builtin .fixedWindow, ascii "fw"⟩

theorem teamRule_ne : teamRule (.ofAscii "team") ≠ teamRule (.ofAscii "team:blue") := by
  intro h
  exact absurd (congrArg (fun rule => rule.id.bytes) h) (by decide)

def teamPairs : QuotaPairs ℚ where
  env := .constant teamsSnapshot
  bytes := [0]
  engine := teamsEngine
  compiles := by rfl
  snapshot := teamsSnapshot
  rules := [teamRule (.ofAscii "team"), teamRule (.ofAscii "team:blue")]
  accepted := ⟨rfl, by decide, by decide, by rfl, rfl, rfl, rfl, rfl, rfl⟩
  distributed := rfl
  limiter := ⟨.block, .builtin .fixedWindow, ascii "fw"⟩
  redis := rfl
  custom := fun _ => tokenBucketScript
  keepsToKey := fun _ args => tokenBucketScript_local args
  rule := teamRule (.ofAscii "team")
  identifier := ascii "blue:alice"
  rule' := teamRule (.ofAscii "team:blue")
  identifier' := ascii "alice"
  mem := List.mem_cons_self
  mem' := List.mem_cons_of_mem _ List.mem_cons_self
  differ := .inl teamRule_ne

def userCall (user : Bytes) : RateLimitCall ℚ :=
  { plainCall (ascii "10.0.0.1") 100 (by decide) with headerLookup := fun _ => some user }

/-- A request of one team uses up the quota of a user of another rule. -/
theorem teams_share_quota :
    ruleIdentifier (userCall (ascii "blue:alice")) teamPairs.rule = some teamPairs.identifier ∧
      ruleIdentifier (userCall (ascii "alice")) teamPairs.rule' = some teamPairs.identifier' ∧
      teamPairs.limiter.key teamPairs.rule teamPairs.identifier =
        teamPairs.limiter.key teamPairs.rule' teamPairs.identifier' ∧
      ((teamPairs.limiter.evaluate teamPairs.custom .answered teamPairs.rule
        teamPairs.identifier 0 .empty).2.map RateLimitDecision.allowed = some true ∧
      (teamPairs.limiter.evaluate teamPairs.custom .answered teamPairs.rule teamPairs.identifier 0
        (teamPairs.countedUnder [(.answered, 0)] .empty)).2.map RateLimitDecision.allowed =
          some false) ∧
      ¬teamPairs.Isolated := by
  have hkeys : teamPairs.limiter.key teamPairs.rule teamPairs.identifier =
      teamPairs.limiter.key teamPairs.rule' teamPairs.identifier' := by
    decide
  exact ⟨rfl, rfl, hkeys, ⟨by decide +kernel, by decide +kernel⟩, fun h => h.keys hkeys⟩

end AuroraGateway.RateLimit
