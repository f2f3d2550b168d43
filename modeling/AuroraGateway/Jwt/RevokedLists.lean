import AuroraGateway.Jwt.Revocation

/-!
# Revocations that a policy lists

The tokens and ids that a policy lists as revoked are entered in the cache of
their origin when the engine is built, for as long as the cache keeps refusals.
They are refused during this time, if the origin has a cache and the rows do
not have to make room.
-/

namespace AuroraGateway.Jwt

open Engine Foundation
open OriginState (Revoked revoke)

variable {H K : Type}

/-! ## Arming a cache -/

def OriginInput.listed (origin : OriginInput) : List Subject :=
  origin.revokedTokens.map (fun tok => .token tok.bytes) ++
    origin.revokedJtis.map fun jti => .jti jti.bytes

def OriginInput.burst (cpuCores : Nat) (origin : OriginInput) : Nat :=
  min (max (origin.cacheConfig cpuCores).maxEntriesPerShard 16 * 4) u64Max

def OriginInput.negativeTtl (cpuCores : Nat) (origin : OriginInput) : Nat :=
  max (origin.cacheConfig cpuCores).negativeTtlSecs 1

structure Filled (count burst ttl : Nat) (cache : JwtCache H) : Prop where
  len_le : ∀ i, (cache.shards i).entries.len ≤ count
  burst_eq : ∀ i, (cache.shards i).maxBurstEntries = burst
  ttl_eq : cache.negativeTtlSecs = ttl

theorem filled_new (shardCount maxEntries ttl negativeTtl : Nat) :
    Filled 0 (min (max maxEntries 16 * 4) u64Max) (max negativeTtl 1)
      (.new shardCount maxEntries ttl negativeTtl : JwtCache H) :=
  ⟨fun _ => le_rfl, fun _ => rfl, rfl⟩

variable [DecidableEq H]

theorem arm_eq_foldl (hashing : Hashing H) (order : RowOrder H) (nowEpoch : Nat)
    (origin : OriginInput) (cache : JwtCache H) :
    arm hashing order nowEpoch origin cache =
      origin.listed.foldl (fun cache subject => revoke hashing order subject 0 nowEpoch cache)
        cache := by
  simp only [arm, OriginInput.listed, List.foldl_append, List.foldl_map]
  rfl

section Arming

variable {hashing : Hashing H} {order : RowOrder H} {cache : JwtCache H}
  {count burst ttl nowEpoch bound : Nat}

section

variable (h : Filled count burst ttl cache)
include h

theorem Filled.revokeToken (key : H) (untilEpochSecs : Nat) : Filled (count + 1) burst ttl
      (cache.revokeToken hashing order key untilEpochSecs nowEpoch) := by
  refine ⟨fun i => ?_, fun i => ?_, h.ttl_eq⟩
  all_goals
    simp only [JwtCache.revokeToken, JwtCache.atShard, Function.update_apply]
    split
  · exact (CacheShard.len_refuse_le _ _).trans (Nat.succ_le_succ (h.len_le _))
  · exact (h.len_le i).trans (Nat.le_succ _)
  · rw [CacheShard.maxBurstEntries_refuse, h.burst_eq]
  · exact h.burst_eq i

theorem Filled.revoke (subject : Subject) (untilEpochSecs : Nat) : Filled (count + 1) burst ttl
      (OriginState.revoke hashing order subject untilEpochSecs nowEpoch cache) := by
  cases subject with
  | token token => exact h.revokeToken _ _
  | jti jti =>
    have hflagged : Filled count burst ttl { cache with hasRevokedJtis := true } :=
      ⟨h.len_le, h.burst_eq, h.ttl_eq⟩
    exact hflagged.revokeToken _ _

theorem Filled.keepsRow (hcount : count < burst) {key : H}
    (hrefuses : cache.Refuses hashing key bound) (hnow : nowEpoch < bound) (inserted : H) :
    cache.KeepsRow hashing order nowEpoch inserted key := by
  intro _
  obtain ⟨row, hrow, -, hexpire⟩ := hrefuses
  refine CacheShard.keeps_of_lt hrow (by omega) ?_
  rw [h.burst_eq]
  exact lt_of_le_of_lt (h.len_le _) hcount

end

theorem revoked_of_foldl (subjects : List Subject) (hnow : nowEpoch < saturatingAdd nowEpoch ttl) :
    ∀ {count : Nat} {cache : JwtCache H} {known : List Subject}, Filled count burst ttl cache →
      count + subjects.length ≤ burst →
      (∀ subject ∈ known, Revoked hashing subject (saturatingAdd nowEpoch ttl) cache) →
      ∀ subject ∈ known ++ subjects, Revoked hashing subject (saturatingAdd nowEpoch ttl)
        (subjects.foldl (fun cache subject => revoke hashing order subject 0 nowEpoch cache)
          cache) := by
  induction subjects with
  | nil =>
    intro count cache known _ _ hknown subject hsubject
    rw [List.append_nil] at hsubject
    exact hknown subject hsubject
  | cons next subjects ih =>
    intro count cache known hfilled hcount hknown subject hsubject
    rw [List.length_cons] at hcount
    have hexpire : saturatingAdd nowEpoch ttl ≤ cache.revokeExpire 0 nowEpoch := by
      rw [JwtCache.revokeExpire, if_neg (lt_irrefl 0), hfilled.ttl_eq]
    refine @ih (count + 1) _ (known ++ [next]) (hfilled.revoke next 0) (by omega) ?_ subject
      (by simpa using hsubject)
    intro old hold
    rcases List.mem_append.mp hold with hmem | hmem
    · exact (hknown old hmem).revoke
        (hfilled.keepsRow (by omega) (hknown old hmem).refuses hnow _)
    · rw [List.mem_singleton.mp hmem]
      exact Revoked.of_revoke order hexpire

end Arming

/-! ## Evaluations on the engine -/

section Engine

variable {env : Environment H K} {order : RowOrder H} {clock : Nat → Nat} {input : OriginInput}
  {subject : Subject}

theorem revoked_compileCache {nowEpoch : Nat} {cache : JwtCache H}
    (hcache : compileCache env order nowEpoch input = some cache)
    (hroom : input.listed.length ≤ input.burst env.cpuCores)
    (hnow : nowEpoch < saturatingAdd nowEpoch (input.negativeTtl env.cpuCores))
    (hlisted : subject ∈ input.listed) :
    Revoked env.hashing subject (saturatingAdd nowEpoch (input.negativeTtl env.cpuCores))
      cache := by
  unfold compileCache at hcache
  dsimp only at hcache
  split at hcache
  · obtain rfl := Option.some.inj hcache
    rw [arm_eq_foldl]
    exact @revoked_of_foldl H _ env.hashing order _ _ nowEpoch input.listed hnow 0 _ []
      (filled_new _ _ _ _) (by rw [Nat.zero_add]; exact hroom)
      (fun subject hsubject => by cases hsubject) subject hlisted
  · cases hcache

def engineStep (env : Environment H K) (engine : JwtEngine H K) (call : JwtEngine.Call H) :
    Option (JwtEngine H K) :=
  some (engine.evaluateWithLookupAt env call).1

/-- The call is not later than `latest` and does not take the row of the key from the cache
of the origin to make room. -/
def LeavesRow (env : Environment H K) (rank : Nat) (key : H) (latest : Nat)
    (engine : JwtEngine H K) (call : JwtEngine.Call H) : Prop :=
  call.nowEpoch ≤ latest ∧
    ∀ item token cache, Selects env engine call item token → item.rank = rank →
      engine.caches rank = some cache →
      cache.KeepsRow env.hashing call.order call.nowEpoch (env.hashing.hashToken token) key

theorem origins_evaluate (engine : JwtEngine H K) (call : JwtEngine.Call H) :
    (engine.evaluateWithLookupAt env call).1.origins = engine.origins := by
  have houtcome := evaluateWithLookupAt_outcome env engine call
  generalize engine.evaluateWithLookupAt env call = result at houtcome
  cases houtcome <;> rfl

theorem origins_of_run {ok : JwtEngine H K → JwtEngine.Call H → Prop} {s t : JwtEngine H K}
    {calls : List (JwtEngine.Call H)} (hrun : RunsUnder (engineStep env) ok s calls t) :
    t.origins = s.origins := by
  induction hrun with
  | nil => rfl
  | cons _ hstep _ ih =>
    obtain rfl := Option.some.inj hstep
    exact ih.trans (origins_evaluate _ _)

/-- The invariant of the evaluations: the origins are those of `built`, and the cache of
one of them refuses the subject. -/
structure Guarded (env : Environment H K) (built : JwtEngine H K) (rank : Nat)
    (policy : OriginPolicy K) (subject : Subject) (bound : Nat) (engine : JwtEngine H K) :
    Prop where
  origins : engine.origins = built.origins
  cache : ∃ cache, engine.caches rank = some cache ∧ Coherent env policy cache ∧
    Revoked env.hashing subject bound cache

theorem Guarded.evaluate (hfree : CollisionFree env.hashing) {built engine : JwtEngine H K}
    {snapshot : Snapshot} (hcompiled : Compiled env order clock snapshot built) {rank : Nat}
    (hinput : snapshot.ranked[rank]? = some input) {policy : OriginPolicy K}
    (hpolicy : compilePolicy env input = .ok policy) {bound latest : Nat} (hlatest : latest < bound)
    (h : Guarded env built rank policy subject bound engine) {call : JwtEngine.Call H}
    (hleaves : LeavesRow env rank (subject.key env.hashing) latest engine call) :
    Guarded env built rank policy subject bound (engine.evaluateWithLookupAt env call).1 := by
  obtain ⟨cache, hcache, hcoherent, hrevoked⟩ := h.cache
  have houtcome := evaluateWithLookupAt_outcome env engine call
  generalize engine.evaluateWithLookupAt env call = result at houtcome
  cases houtcome with
  | unchanged => exact h
  | @evaluated item token hselects =>
    refine ⟨h.origins, ?_⟩
    by_cases hrank : rank = item.rank
    · subst hrank
      -- The item is the compiled form of the same input.
      obtain ⟨p, hitem⟩ := mem_of_findOrigin hselects.found
      rw [h.origins] at hitem
      obtain ⟨input', hinput', hpolicy'⟩ := hcompiled.origins p item hitem
      rw [hinput] at hinput'
      obtain rfl := Option.some.inj hinput'
      rw [hpolicy] at hpolicy'
      obtain rfl := Except.ok.inj hpolicy'
      have hkeep := hleaves.2 item token cache hselects rfl hcache
      have hnow : call.nowEpoch < bound := lt_of_le_of_lt hleaves.1 hlatest
      obtain ⟨after, hafter⟩ :=
        evaluateToken_fst_isSome env item.policy call.order token call.nowEpoch cache
      refine ⟨after, ?_, hcoherent.evaluateToken hafter,
        hrevoked.evaluateToken hfree hnow hkeep hafter⟩
      rw [hcache, hafter]
      exact Function.update_self ..
    · refine ⟨cache, ?_, hcoherent, hrevoked⟩
      exact (Function.update_of_ne hrank _ _).trans hcache

/-- A token is refused that the policy lists as revoked, or whose id it lists, as long as
the origin keeps its refusals. -/
theorem listed_revocation_refused (hfree : CollisionFree env.hashing) {bytes : Bytes}
    {built : JwtEngine H K} (hbuilt : JwtEngine.fromSnapshot env order clock bytes = .ok built)
    {snapshot : Snapshot} (hparse : env.parseSnapshot bytes = some snapshot)
    {engine : JwtEngine H K} {call : JwtEngine.Call H} {item : IndexedOrigin K} {token : Bytes}
    (hselects : Selects env engine call item token) {input : OriginInput}
    (hinput : snapshot.ranked[item.rank]? = some input)
    (henabled : (input.cacheConfig env.cpuCores).enabled = true)
    (hroom : input.listed.length ≤ input.burst env.cpuCores) {subject : Subject}
    (hlisted : subject ∈ input.listed) (hconcerns : subject.Concerns env item.policy token)
    {calls : List (JwtEngine.Call H)}
    (hrun : RunsUnder (engineStep env)
      (LeavesRow env item.rank (subject.key env.hashing) call.nowEpoch) built calls engine)
    (hafter : clock item.rank ≤ call.nowEpoch)
    (hbefore : call.nowEpoch <
      saturatingAdd (clock item.rank) (input.negativeTtl env.cpuCores))
    (headers : ForwardedHeaders) :
    (engine.evaluateWithLookupAt env call).2 ≠ some (.ok (.allow headers)) := by
  obtain ⟨snapshot', hparse', hcompiled⟩ := fromSnapshot_ok hbuilt
  rw [hparse] at hparse'
  obtain rfl := Option.some.inj hparse'
  have horigins : engine.origins = built.origins := origins_of_run hrun
  obtain ⟨p, hitem⟩ := mem_of_findOrigin hselects.found
  rw [horigins] at hitem
  obtain ⟨input', hinput', hpolicy⟩ := hcompiled.origins p item hitem
  rw [hinput] at hinput'
  obtain rfl := Option.some.inj hinput'
  obtain ⟨cache, hcache⟩ : ∃ cache, compileCache env order (clock item.rank) input = some cache :=
    ⟨_, if_pos henabled⟩
  have hstart : Guarded env built item.rank item.policy subject
      (saturatingAdd (clock item.rank) (input.negativeTtl env.cpuCores)) built := by
    refine ⟨rfl, cache, ?_, coherent_compileCache hcache,
      revoked_compileCache hcache hroom (by omega) hlisted⟩
    rw [hcompiled.caches, hinput]
    exact hcache
  have hguarded : Guarded env built item.rank item.policy subject
      (saturatingAdd (clock item.rank) (input.negativeTtl env.cpuCores)) engine := by
    refine hrun.invariant ?_ hstart
    intro s c t hs hleaves hstep
    obtain rfl := Option.some.inj hstep
    exact hs.evaluate hfree hcompiled hinput hpolicy hbefore hleaves
  obtain ⟨last, hlast, hcoherent, hrevoked⟩ := hguarded.cache
  rw [hselects.evaluateWithLookupAt, hlast]
  intro hallowed
  exact hrevoked.evaluateToken_ne_allow hfree hcoherent hconcerns hbefore call.order headers
    (Option.some.inj hallowed)

end Engine

/-! ## A list that is forgotten -/

def revokedText : Text := ⟨sessionToken, by decide⟩

def revokedOrigin : OriginInput := { sessionOrigin with revokedTokens := [revokedText] }

def revokedSnapshot : Snapshot := ⟨1, 1, [revokedOrigin]⟩

def revokedEnvironment : Environment (Bytes ⊕ Bytes) Unit :=
  transparentEnvironment revokedSnapshot

def revokedEngine : JwtEngine (Bytes ⊕ Bytes) Unit where
  generation := 1
  origins := .ofList [(ascii "/", ⟨0, sessionPolicy []⟩)]
  caches := fun rank =>
    [revokedOrigin][rank]?.bind (compileCache revokedEnvironment storedOrder 1000)

theorem fromSnapshot_revoked :
    JwtEngine.fromSnapshot revokedEnvironment storedOrder (fun _ => 1000) [0] =
      .ok revokedEngine := by
  rfl

def sessionCall (nowEpoch : Nat) : JwtEngine.Call (Bytes ⊕ Bytes) where
  host := ascii "example.com"
  path := ascii "/"
  headerLookup := fun _ => some (ascii "sid=h.p.s")
  nowEpoch
  order := storedOrder

theorem selects_sessionCall (nowEpoch : Nat) :
    Selects revokedEnvironment revokedEngine (sessionCall nowEpoch) ⟨0, sessionPolicy []⟩
      sessionToken :=
  ⟨rfl, rfl, rfl, rfl⟩

theorem listed_session_refused :
    ∃ engine, execute (engineStep revokedEnvironment) revokedEngine [sessionCall 1000] =
        some engine ∧
      ∀ headers, (engine.evaluateWithLookupAt revokedEnvironment (sessionCall 1001)).2 ≠
        some (.ok (.allow headers)) := by
  refine ⟨_, rfl, listed_revocation_refused collisionFree_tagged fromSnapshot_revoked rfl
    ⟨rfl, rfl, rfl, rfl⟩ rfl rfl (by decide) List.mem_cons_self rfl
    (.cons ⟨by decide, fun item token cache hselects _ hcache => ?_⟩ rfl (.nil _))
    (by decide) (by decide)⟩
  obtain rfl := Option.some.inj hcache
  obtain rfl := Option.some.inj hselects.found
  obtain rfl := Option.some.inj hselects.presented
  decide

/-- The token is still listed, but 31 seconds after the engine was built it passes. -/
theorem listed_session_allowed :
    JwtEngine.fromSnapshot revokedEnvironment storedOrder (fun _ => 1000) [0] =
        .ok revokedEngine ∧
      revokedText ∈ revokedOrigin.revokedTokens ∧
      Selects revokedEnvironment revokedEngine (sessionCall 1031) ⟨0, sessionPolicy []⟩
        revokedText.bytes ∧
      (revokedEngine.evaluateWithLookupAt revokedEnvironment (sessionCall 1031)).2 =
        some (.ok (.allow [])) :=
  ⟨fromSnapshot_revoked, List.mem_cons_self, selects_sessionCall 1031, rfl⟩

end AuroraGateway.Jwt
