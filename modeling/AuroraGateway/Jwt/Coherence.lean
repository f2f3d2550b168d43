import AuroraGateway.Jwt.Engine

/-!
# What cached rows stand for

A row that accepts a token was written after a token with this hash had been
verified, so it holds the headers that the rules project that token to and the
hash of its id.  This is kept by every operation on the cache.
-/

namespace AuroraGateway.Jwt

open Access (JwtDecision)
open Engine Foundation

variable {H K : Type}

structure CollisionFree (hashing : Hashing H) : Prop where
  token_injective : Function.Injective hashing.hashToken
  jti_injective : Function.Injective hashing.hashJti
  token_ne_jti : ∀ token jti, hashing.hashToken token ≠ hashing.hashJti jti

def Describes (env : Environment H K) (origin : OriginPolicy K) (token : Bytes)
    (headers : ForwardedHeaders) (jtiHash : Option H) : Prop :=
  ∃ payload, openToken env.prims origin.checks token = some payload ∧
    projectClaims env.prims payload origin.claimRules = some headers ∧
    jtiHash = payload.jti.map env.hashing.hashJti

variable {env : Environment H K} {origin : OriginPolicy K}

theorem checkSignature_verified {nowEpoch : Nat} {token : Bytes} {verified : VerifiedToken}
    (h : checkSignature env origin nowEpoch token = .verified verified) :
    openToken env.prims origin.checks token = some verified.payload ∧
      verified.jti = verified.payload.jti := by
  unfold checkSignature at h
  split at h
  · cases h
  · split at h
    · cases h
    · rename_i found hverify
      obtain rfl := SignatureCheck.verified.inj h
      obtain ⟨payload, hfilter, rfl⟩ := Option.map_eq_some_iff.mp hverify
      exact ⟨(Option.filter_eq_some_iff.mp hfilter).1, rfl⟩

theorem mem_of_findOrigin {engine : JwtEngine H K} {host path : Bytes} {item : IndexedOrigin K}
    (h : engine.findOrigin host path = some item) :
    ∃ p, (p, item) ∈ engine.origins.inserted := by
  unfold JwtEngine.findOrigin at h
  rw [BuiltTree.forEachMatch_eq] at h
  rcases PathRadixTree.foldl_findBestCallback
      (fun item : IndexedOrigin K => hostMatches item.policy.host host) IndexedOrigin.rank
      (engine.origins.matching path) with ⟨hnone, -⟩ | ⟨value, before, after, hsome, hmin⟩
  · rw [hnone] at h
    cases h
  · rw [hsome] at h
    obtain rfl := Option.some.inj h
    obtain ⟨p, hp, -⟩ := BuiltTree.mem_matching.mp (List.mem_filter.mp hmin.mem).1
    exact ⟨p, hp⟩

/-! ## Compiled rules -/

theorem compileClaimRule_headerKey {format : PayloadFormat}
    {cr : ClaimRuleInput} {rule : CompiledClaimRule}
    (h : compileClaimRule env format cr = .ok rule) {key : Bytes}
    (hkey : rule.headerKey = some key) : validHeaderKey key = true := by
  obtain ⟨hchecks, h⟩ := of_check h
  obtain ⟨rawExtractor, -, h⟩ := exists_of_bind_ok h
  obtain ⟨regex, -, h⟩ := exists_of_bind_ok h
  obtain rfl := Except.ok.inj h
  obtain ⟨hmapped, -⟩ := Option.filter_eq_some_iff.mp hkey
  obtain ⟨text, htext, rfl⟩ := Option.map_eq_some_iff.mp hmapped
  simp only [htext, Option.all_some, Bool.or_eq_true, Bool.not_eq_true', not_or,
    Bool.not_eq_false] at hchecks
  exact hchecks.2

structure ForwardsFew (origin : OriginPolicy K) : Prop where
  count_le : origin.claimRules.countP (fun rule => rule.headerKey.isSome) ≤
    maxForwardHeadersPerOrigin
  validKey : ∀ rule ∈ origin.claimRules, ∀ key, rule.headerKey = some key →
    validHeaderKey key = true

theorem compilePolicy_ok {input : OriginInput} (h : compilePolicy env input = .ok origin) :
    ExcludeMatcher.compile env.endian input.excludePaths = .ok origin.excludeMatcher ∧
      ForwardsFew origin := by
  obtain ⟨source, -, h⟩ := exists_of_bind_ok h
  obtain ⟨-, h⟩ := of_check h
  obtain ⟨matcher, hmatcher, h⟩ := exists_of_bind_ok h
  obtain ⟨format, -, h⟩ := exists_of_bind_ok h
  obtain ⟨algorithm, -, h⟩ := exists_of_bind_ok h
  obtain ⟨keys, -, h⟩ := exists_of_bind_ok h
  obtain ⟨-, h⟩ := of_check h
  obtain ⟨rules, hrules, h⟩ := exists_of_bind_ok h
  obtain ⟨hcount, h⟩ := of_check h
  obtain rfl := Except.ok.inj h
  refine ⟨hmatcher, ?_, fun rule hrule key hkey => ?_⟩
  · simp only [Bool.or_eq_true, decide_eq_true_eq, not_or, not_lt] at hcount
    exact hcount.1
  · obtain ⟨cr, -, hcompiled⟩ := exists_of_mem_mapM hrules hrule
    exact compileClaimRule_headerKey hcompiled hkey

variable [DecidableEq H]

def Coherent (env : Environment H K) (origin : OriginPolicy K) (cache : JwtCache H) : Prop :=
  ∀ key row, cache.row? env.hashing key = some row → row.status = .positive →
    ∃ token, env.hashing.hashToken token = key ∧
      Describes env origin token row.forwardedHeaders row.jtiHash

section Operations

variable {env : Environment H K} {origin : OriginPolicy K} {cache : JwtCache H}
  {order : RowOrder H} {token : Bytes} {nowEpoch : Nat}

theorem coherent_new (shardCount maxEntries ttl negativeTtl : Nat) :
    Coherent env origin (.new shardCount maxEntries ttl negativeTtl) := by
  intro key row hrow
  cases hrow

section

variable (h : Coherent env origin cache)
include h

theorem Coherent.revokeToken (key : H) (untilEpochSecs : Nat) : Coherent env origin
      (cache.revokeToken env.hashing order key untilEpochSecs nowEpoch) := by
  intro key' row hrow hpositive
  rcases JwtCache.row?_of_revokeToken hrow with hold | ⟨-, hnegative⟩
  · exact h key' row hold hpositive
  · rw [hnegative] at hpositive
    cases hpositive

theorem Coherent.revokeJti (jti : Bytes) (untilEpochSecs : Nat) :
    Coherent env origin (cache.revokeJti env.hashing order jti untilEpochSecs nowEpoch) := by
  have hflagged : Coherent env origin { cache with hasRevokedJtis := true } := h
  exact hflagged.revokeToken _ _

theorem Coherent.recordRefused :
    Coherent env origin (recordRefused env order token nowEpoch cache) :=
  h.revokeToken _ _

end

variable {headers : ForwardedHeaders}

theorem Coherent.recordVerified (h : Coherent env origin cache) {verified : VerifiedToken}
    (hopen : openToken env.prims origin.checks token = some verified.payload)
    (hjti : verified.jti = verified.payload.jti)
    (hproject : projectClaims env.prims verified.payload origin.claimRules = some headers) :
    Coherent env origin
      (recordVerified env origin order token verified headers nowEpoch cache) := by
  intro key row hrow hpositive
  rcases JwtCache.row?_of_insertPositive hrow with hold | ⟨hkey, rfl⟩
  · exact h key row hold hpositive
  · exact ⟨token, hkey.symm, verified.payload, hopen, hproject, by rw [hjti]⟩

theorem coherent_arm (hcache : Coherent env origin cache) (input : OriginInput) :
    Coherent env origin (arm env.hashing order nowEpoch input cache) := by
  have htokens : ∀ (tokens : List Text) (cache : JwtCache H), Coherent env origin cache →
      Coherent env origin (tokens.foldl (fun cache tok =>
        cache.revokeToken env.hashing order (env.hashing.hashToken tok.bytes) 0 nowEpoch)
        cache) := by
    intro tokens
    induction tokens with
    | nil => exact fun _ h => h
    | cons tok tokens ih => exact fun cache h => ih _ (h.revokeToken _ _)
  have hjtis : ∀ (jtis : List Text) (cache : JwtCache H), Coherent env origin cache →
      Coherent env origin (jtis.foldl (fun cache jti =>
        cache.revokeJti env.hashing order jti.bytes 0 nowEpoch) cache) := by
    intro jtis
    induction jtis with
    | nil => exact fun _ h => h
    | cons jti jtis ih => exact fun cache h => ih _ (h.revokeJti _ _)
  exact hjtis _ _ (htokens _ _ hcache)

theorem coherent_compileCache {input : OriginInput}
    (h : compileCache env order nowEpoch input = some cache) : Coherent env origin cache := by
  unfold compileCache at h
  dsimp only at h
  split at h
  · obtain rfl := Option.some.inj h
    exact coherent_arm (coherent_new _ _ _ _) input
  · cases h

theorem Coherent.describes_of_lookup (h : Coherent env origin cache)
    (hlookup : cache.lookup env.hashing (env.hashing.hashToken token) nowEpoch =
      .hitAllow headers) :
    ∃ cachedToken jtiHash, env.hashing.hashToken cachedToken = env.hashing.hashToken token ∧
      Describes env origin cachedToken headers jtiHash ∧
      (cache.hasRevokedJtis = true → ∀ jtiH, jtiHash = some jtiH →
        cache.isNegative env.hashing jtiH nowEpoch = false) := by
  obtain ⟨row, hrow, hpositive, -, rfl, hjti⟩ := JwtCache.lookup_eq_hitAllow hlookup
  obtain ⟨cachedToken, hhash, hdescribes⟩ := h _ row hrow hpositive
  exact ⟨cachedToken, row.jtiHash, hhash, hdescribes, hjti⟩

/-! ## One evaluation -/

inductive TokenOutcome (env : Environment H K) (origin : OriginPolicy K) (order : RowOrder H)
    (token : Bytes) (nowEpoch : Nat) (cache : Option (JwtCache H)) :
    Option (JwtCache H) × Except Error JwtDecision → Prop
  | hitDeny (h : cached env token nowEpoch cache = .hitDeny) :
      TokenOutcome env origin order token nowEpoch cache (cache, .ok .unauthorized)
  | hitAllow {headers : ForwardedHeaders}
      (h : cached env token nowEpoch cache = .hitAllow headers) :
      TokenOutcome env origin order token nowEpoch cache (cache, .ok (.allow headers))
  | invalidRequest :
      TokenOutcome env origin order token nowEpoch cache (cache, .error .invalidRequest)
  | refused :
      TokenOutcome env origin order token nowEpoch cache
        (cache.map (recordRefused env order token nowEpoch), .ok .unauthorized)
  | verified {verified : VerifiedToken} {headers : ForwardedHeaders}
      (hmiss : cached env token nowEpoch cache = .miss)
      (hcheck : checkSignature env origin nowEpoch token = .verified verified)
      (hjti : cache.any (jtiRevoked env verified nowEpoch) = false)
      (hproject : projectClaims env.prims verified.payload origin.claimRules = some headers) :
      TokenOutcome env origin order token nowEpoch cache
        (cache.map (recordVerified env origin order token verified headers nowEpoch),
          .ok (.allow headers))

theorem evaluateToken_outcome (env : Environment H K) (origin : OriginPolicy K)
    (order : RowOrder H) (token : Bytes) (nowEpoch : Nat) (cache : Option (JwtCache H)) :
    TokenOutcome env origin order token nowEpoch cache
      (evaluateToken env origin order token nowEpoch cache) := by
  unfold evaluateToken
  cases hcached : cached env token nowEpoch cache with
  | hitDeny => exact .hitDeny hcached
  | hitAllow headers => exact .hitAllow hcached
  | miss =>
    cases hcheck : checkSignature env origin nowEpoch token with
    | invalidRequest => exact .invalidRequest
    | refused => exact .refused
    | verified verified =>
      dsimp only
      cases hjti : cache.any (jtiRevoked env verified nowEpoch) with
      | true => exact .refused
      | false =>
        cases hproject : projectClaims env.prims verified.payload origin.claimRules with
        | none => exact .refused
        | some headers => exact .verified hcached hcheck hjti hproject

theorem evaluateToken_fst_isSome (env : Environment H K) (origin : OriginPolicy K)
    (order : RowOrder H) (token : Bytes) (nowEpoch : Nat) (cache : JwtCache H) :
    ∃ after, (evaluateToken env origin order token nowEpoch (some cache)).1 = some after := by
  have houtcome := evaluateToken_outcome env origin order token nowEpoch (some cache)
  generalize evaluateToken env origin order token nowEpoch (some cache) = result at houtcome
  cases houtcome <;> exact ⟨_, rfl⟩

/-- A token that is let pass has the hash of one that opens, and gets the headers that the
latter projects to. -/
theorem evaluateToken_allow {cache cache' : Option (JwtCache H)}
    (hcoherent : ∀ c, cache = some c → Coherent env origin c)
    (h : evaluateToken env origin order token nowEpoch cache = (cache', .ok (.allow headers))) :
    ∃ verified payload, env.hashing.hashToken verified = env.hashing.hashToken token ∧
      openToken env.prims origin.checks verified = some payload ∧
      projectClaims env.prims payload origin.claimRules = some headers := by
  have houtcome := evaluateToken_outcome env origin order token nowEpoch cache
  rw [h] at houtcome
  cases houtcome with
  | hitAllow hcached =>
    cases hcache : cache with
    | none => simp [cached, hcache] at hcached
    | some c =>
      rw [hcache] at hcached
      obtain ⟨verified, jtiHash, hhash, ⟨payload, hopen, hproject, -⟩, -⟩ :=
        (hcoherent c hcache).describes_of_lookup hcached
      exact ⟨verified, payload, hhash, hopen, hproject⟩
  | verified hmiss hcheck hjti hproject =>
    exact ⟨token, _, rfl, (checkSignature_verified hcheck).1, hproject⟩

theorem evaluateToken_keeps {P : JwtCache H → Prop} {cache' : JwtCache H}
    (h : (evaluateToken env origin order token nowEpoch (some cache)).1 = some cache')
    (hcache : P cache) (hrefused : P (recordRefused env order token nowEpoch cache))
    (hverified : ∀ {verified headers}, cached env token nowEpoch (some cache) = .miss →
      checkSignature env origin nowEpoch token = .verified verified →
      projectClaims env.prims verified.payload origin.claimRules = some headers →
      P (recordVerified env origin order token verified headers nowEpoch cache)) : P cache' := by
  have houtcome := evaluateToken_outcome env origin order token nowEpoch (some cache)
  generalize evaluateToken env origin order token nowEpoch (some cache) = result at h houtcome
  cases houtcome with
  | hitDeny | hitAllow | invalidRequest =>
    obtain rfl := Option.some.inj h
    exact hcache
  | refused =>
    obtain rfl := Option.some.inj h
    exact hrefused
  | verified hmiss hcheck hjti hproject =>
    obtain rfl := Option.some.inj h
    exact hverified hmiss hcheck hproject

theorem Coherent.evaluateToken (hcoherent : Coherent env origin cache) {cache' : JwtCache H}
    (h : (Jwt.evaluateToken env origin order token nowEpoch (some cache)).1 = some cache') :
    Coherent env origin cache' := by
  refine evaluateToken_keeps h hcoherent hcoherent.recordRefused fun _ hcheck hproject => ?_
  obtain ⟨hopen, hjtiEq⟩ := checkSignature_verified hcheck
  exact hcoherent.recordVerified hopen hjtiEq hproject

end Operations

/-! ## Engines -/

structure Compiled (env : Environment H K) (order : RowOrder H) (clock : Nat → Nat)
    (snapshot : Snapshot) (engine : JwtEngine H K) : Prop where
  origins : ∀ p item, (p, item) ∈ engine.origins.inserted →
    ∃ input, snapshot.ranked[item.rank]? = some input ∧ compilePolicy env input = .ok item.policy
  ranks : (engine.origins.inserted.map fun op => op.2.rank).Nodup
  caches : ∀ rank, engine.caches rank =
    snapshot.ranked[rank]?.bind (compileCache env order (clock rank))

section Engines

variable {env : Environment H K} {order : RowOrder H} {clock : Nat → Nat}

variable {engine : JwtEngine H K} {item : IndexedOrigin K}

theorem compileSnapshot_ok {snapshot : Snapshot}
    (h : compileSnapshot env order clock snapshot = .ok engine) :
    Compiled env order clock snapshot engine := by
  obtain ⟨-, h⟩ := of_check h
  obtain ⟨policies, hpolicies, h⟩ := exists_of_bind_ok h
  obtain rfl := Except.ok.inj h
  refine ⟨fun p item hitem => ?_, ?_, fun _ => rfl⟩
  swap
  · have hranks : ((snapshot.ranked.zip policies).zipIdx.map fun entry => entry.2).Nodup := by
      rw [List.zipIdx_map_snd]
      exact List.nodup_range'
    simpa [Function.comp_def] using hranks
  simp only [BuiltTree.ofList_inserted, List.mem_map, Prod.exists, Prod.mk.injEq] at hitem
  obtain ⟨input, policy, rank, hmem, -, rfl⟩ := hitem
  have hzip := List.getElem?_zip_eq_some.mp (List.mem_zipIdx_iff_getElem?.mp hmem)
  refine ⟨input, hzip.1, ?_⟩
  have hall := forall₂_of_mapM_ok hpolicies
  obtain ⟨hrank, hinput⟩ := List.getElem?_eq_some_iff.mp hzip.1
  obtain ⟨hrank', hpolicy⟩ := List.getElem?_eq_some_iff.mp hzip.2
  have := List.Forall₂.get hall hrank hrank'
  simpa [hinput, hpolicy] using this

theorem fromSnapshot_ok {bytes : Bytes}
    (h : JwtEngine.fromSnapshot env order clock bytes = .ok engine) :
    ∃ snapshot, env.parseSnapshot bytes = some snapshot ∧
      Compiled env order clock snapshot engine := by
  obtain ⟨-, h⟩ := of_check h
  split at h
  · cases h
  · rename_i snapshot hparse
    exact ⟨snapshot, hparse, compileSnapshot_ok h⟩

structure Selects (env : Environment H K) (engine : JwtEngine H K) (call : JwtEngine.Call H)
    (item : IndexedOrigin K) (token : Bytes) : Prop where
  valid : JwtEngine.validRequest call.host call.path = true
  found : engine.findOrigin call.host call.path = some item
  notExcluded : item.policy.excludeMatcher.matches env.endian call.path = some false
  presented : item.policy.presentedToken call.headerLookup = some token

inductive CallOutcome (env : Environment H K) (engine : JwtEngine H K)
    (call : JwtEngine.Call H) :
    JwtEngine H K × Option (Except Error JwtDecision) → Prop
  | unchanged {answer : Option (Except Error JwtDecision)} :
      CallOutcome env engine call (engine, answer)
  | evaluated {item : IndexedOrigin K} {token : Bytes}
      (h : Selects env engine call item token) :
      CallOutcome env engine call
        (engine.withCache item.rank (evaluateToken env item.policy call.order token call.nowEpoch
            (engine.caches item.rank)).1,
          some (evaluateToken env item.policy call.order token call.nowEpoch
            (engine.caches item.rank)).2)

theorem evaluateWithLookupAt_outcome (env : Environment H K) (engine : JwtEngine H K)
    (call : JwtEngine.Call H) :
    CallOutcome env engine call (engine.evaluateWithLookupAt env call) := by
  unfold JwtEngine.evaluateWithLookupAt
  split
  · exact .unchanged
  · rename_i hvalid
    split
    · exact .unchanged
    · rename_i item hfound
      split
      · exact .unchanged
      · exact .unchanged
      · rename_i hexcluded
        split
        · exact .unchanged
        · rename_i token htoken
          exact .evaluated ⟨by simpa using hvalid, hfound, hexcluded, htoken⟩

variable {call : JwtEngine.Call H}

theorem Selects.evaluateWithLookupAt {token : Bytes} (h : Selects env engine call item token) :
    (engine.evaluateWithLookupAt env call).2 =
      some (evaluateToken env item.policy call.order token call.nowEpoch
        (engine.caches item.rank)).2 := by
  unfold JwtEngine.evaluateWithLookupAt
  simp only [h.valid, h.found, h.notExcluded, h.presented, Bool.not_true, Bool.false_eq_true,
    if_false]

/-! ## Engines that have been used -/

/-- The origins are compiled from the snapshot, and what their caches accept has been
verified. -/
structure Faithful (env : Environment H K) (snapshot : Snapshot) (engine : JwtEngine H K) :
    Prop where
  origins : ∀ p item, (p, item) ∈ engine.origins.inserted →
    ∃ input, snapshot.ranked[item.rank]? = some input ∧ compilePolicy env input = .ok item.policy
  coherent : ∀ p item cache, (p, item) ∈ engine.origins.inserted →
    engine.caches item.rank = some cache → Coherent env item.policy cache

variable {snapshot : Snapshot} {engine : JwtEngine H K}

theorem Compiled.faithful (h : Compiled env order clock snapshot engine) :
    Faithful env snapshot engine := by
  refine ⟨h.origins, fun p item cache hitem hcache => ?_⟩
  obtain ⟨input, hinput, -⟩ := h.origins p item hitem
  rw [h.caches, hinput] at hcache
  exact coherent_compileCache hcache

section

variable (h : Faithful env snapshot engine)
include h

theorem Faithful.policy_eq {p p' : Bytes} {item' : IndexedOrigin K}
    (hitem : (p, item) ∈ engine.origins.inserted) (hitem' : (p', item') ∈ engine.origins.inserted)
    (hrank : item.rank = item'.rank) : item.policy = item'.policy := by
  obtain ⟨input, hinput, hpolicy⟩ := h.origins p item hitem
  obtain ⟨input', hinput', hpolicy'⟩ := h.origins p' item' hitem'
  rw [hrank, hinput'] at hinput
  obtain rfl := Option.some.inj hinput
  rw [hpolicy] at hpolicy'
  exact Except.ok.inj hpolicy'

theorem Faithful.withCache {p : Bytes} (hitem : (p, item) ∈ engine.origins.inserted)
    {cache : Option (JwtCache H)} (hcache : ∀ c, cache = some c → Coherent env item.policy c) :
    Faithful env snapshot (engine.withCache item.rank cache) := by
  refine ⟨h.origins, fun p' item' cache' hitem' hcache' => ?_⟩
  unfold JwtEngine.withCache at hcache'
  by_cases hrank : item'.rank = item.rank
  · rw [h.policy_eq hitem' hitem hrank]
    refine hcache cache' ?_
    rw [hrank] at hcache'
    simpa using hcache'
  · refine h.coherent p' item' cache' hitem' ?_
    simpa [Function.update_of_ne hrank] using hcache'

theorem Faithful.evaluate (call : JwtEngine.Call H) :
    Faithful env snapshot (engine.evaluateWithLookupAt env call).1 := by
  have houtcome := evaluateWithLookupAt_outcome env engine call
  generalize engine.evaluateWithLookupAt env call = result at houtcome
  cases houtcome with
  | unchanged => exact h
  | @evaluated item token hselects =>
    obtain ⟨p, hitem⟩ := mem_of_findOrigin hselects.found
    refine h.withCache hitem fun after hafter => ?_
    cases hcache : engine.caches item.rank with
    | none =>
      have houtcome := evaluateToken_outcome env item.policy call.order token call.nowEpoch
        (engine.caches item.rank)
      rw [hcache] at hafter houtcome
      generalize evaluateToken env item.policy call.order token call.nowEpoch none = result
        at hafter houtcome
      cases houtcome <;> cases hafter
    | some cache =>
      rw [hcache] at hafter
      exact (h.coherent p item cache hitem hcache).evaluateToken hafter

theorem Faithful.updateCaches (host : Option Bytes) {update : JwtCache H → JwtCache H}
    (hupdate : ∀ origin cache, Coherent env origin cache → Coherent env origin (update cache)) :
    Faithful env snapshot (engine.updateCaches host update) := by
  have hfold : ∀ (items : List (Bytes × IndexedOrigin K)) (engine : JwtEngine H K),
      Faithful env snapshot engine → (∀ op ∈ items, op ∈ engine.origins.inserted) →
      Faithful env snapshot (items.foldl (JwtEngine.updateOrigin host update) engine) := by
    intro items
    induction items with
    | nil => exact fun _ h _ => h
    | cons op items ih =>
      intro engine h hitems
      have hop := hitems op List.mem_cons_self
      have hrest : ∀ op' ∈ items, op' ∈ engine.origins.inserted :=
        fun op' hop' => hitems op' (List.mem_cons_of_mem _ hop')
      rw [List.foldl_cons, JwtEngine.updateOrigin]
      split
      · refine ih _ (h.withCache hop fun after hafter => ?_) hrest
        obtain ⟨cache, hcache, rfl⟩ := Option.map_eq_some_iff.mp hafter
        exact hupdate _ _ (h.coherent op.1 op.2 cache hop hcache)
      · exact ih _ h hrest
  exact hfold _ engine h fun op hop => hop

theorem Faithful.act (activity : JwtEngine.Activity H) :
    Faithful env snapshot (engine.act env activity) := by
  cases activity with
  | evaluate call => exact h.evaluate call
  | revokeToken order host token untilEpochSecs nowEpoch =>
    exact h.updateCaches host fun origin cache hcache => hcache.revokeToken _ _
  | revokeJti order host jti untilEpochSecs nowEpoch =>
    exact h.updateCaches host fun origin cache hcache => hcache.revokeJti _ _

theorem Faithful.run (activities : List (JwtEngine.Activity H)) :
    Faithful env snapshot (activities.foldl (JwtEngine.act env) engine) := by
  induction activities generalizing engine with
  | nil => exact h
  | cons activity activities ih => exact ih (h.act activity)

theorem Faithful.verified_of_allow {token : Bytes} (hselects : Selects env engine call item token)
    {headers : ForwardedHeaders}
    (hallow : (engine.evaluateWithLookupAt env call).2 = some (.ok (.allow headers))) :
    ∃ verified payload, env.hashing.hashToken verified = env.hashing.hashToken token ∧
      openToken env.prims item.policy.checks verified = some payload ∧
      projectClaims env.prims payload item.policy.claimRules = some headers := by
  obtain ⟨p, hitem⟩ := mem_of_findOrigin hselects.found
  rw [hselects.evaluateWithLookupAt] at hallow
  exact evaluateToken_allow (fun cache hcache => h.coherent p item cache hitem hcache)
    (Prod.ext rfl (Option.some.inj hallow))

end

end Engines

end AuroraGateway.Jwt
