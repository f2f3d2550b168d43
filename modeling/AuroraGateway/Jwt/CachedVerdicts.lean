import AuroraGateway.Jwt.RevokedLists

/-!
# Cached verdicts and fresh ones

A row of a cache repeats a verdict until the row expires.  A token that was accepted
stays acceptable for as long as its row lives.  One that was refused may become
acceptable before its row has gone, if it was refused because it was not active yet.
-/

namespace AuroraGateway.Jwt

open Access (JwtDecision)
open JwtCache
open Engine Foundation

variable {H K : Type}

/-! ## Verdicts without a cache -/

section Verdicts

variable (env : Environment H K) (origin : OriginPolicy K)

def acceptedHeaders (nowEpoch : Nat) (token : Bytes) : Option ForwardedHeaders :=
  (verifyJwt env.prims origin.checks nowEpoch token).bind fun verified =>
    projectClaims env.prims verified.payload origin.claimRules

def verdict (nowEpoch : Nat) (token : Bytes) : Except Error JwtDecision :=
  if !validUtf8 token then .error .invalidRequest
  else
    match acceptedHeaders env origin nowEpoch token with
    | none => .ok .unauthorized
    | some headers => .ok (.allow headers)

end Verdicts

variable {env : Environment H K} {origin : OriginPolicy K} {token : Bytes} {t₀ t : Nat}
  {headers : ForwardedHeaders}

theorem acceptedHeaders_eq_some : acceptedHeaders env origin t token = some headers ↔
    ∃ payload, openToken env.prims origin.checks token = some payload ∧
      claimsHold env.prims origin.checks t payload = true ∧
      projectClaims env.prims payload origin.claimRules = some headers := by
  simp [acceptedHeaders, verifyJwt, Option.bind_eq_some_iff, Option.filter_eq_some_iff, and_assoc]

theorem verdict_eq_allow : verdict env origin t token = .ok (.allow headers) ↔
    validUtf8 token = true ∧ acceptedHeaders env origin t token = some headers := by
  unfold verdict
  cases validUtf8 token <;> cases acceptedHeaders env origin t token <;> simp

theorem verdict_eq_unauthorized : verdict env origin t token = .ok .unauthorized ↔
    validUtf8 token = true ∧ acceptedHeaders env origin t token = none := by
  unfold verdict
  cases validUtf8 token <;> cases acceptedHeaders env origin t token <;> simp

section Claims

variable {prims : Primitives K} {checks : TokenChecks K} {payload : VerifiedPayload}

theorem claimsHold_iff : claimsHold prims checks t payload = true ↔
    ((checks.requireExp = true → payload.exp prims ≠ 0) ∧
      (checks.issuer.all fun issuer => issuer.isEmpty || payload.issuedBy issuer) = true ∧
      (checks.audience.all fun audience => audience.isEmpty || payload.intendedFor audience) =
        true) ∧
    (checks.validateExp = true → 0 < payload.exp prims →
      t ≤ saturatingAdd (payload.exp prims) checks.clockSkewSecs) ∧
    (checks.validateNbf = true → ∀ nbf, payload.nbf prims = some nbf →
      nbf ≤ saturatingAdd t checks.clockSkewSecs) := by
  simp only [claimsHold, Bool.and_eq_true, Bool.not_eq_true', Bool.and_eq_false_imp,
    decide_eq_false_iff_not, Nat.not_lt, decide_eq_true_eq, Option.any_eq_false, ne_eq, and_imp]
  tauto

theorem claimsHold_later (h : claimsHold prims checks t₀ payload = true) (hle : t₀ ≤ t)
    (hexp : checks.validateExp = true → 0 < payload.exp prims →
      t ≤ saturatingAdd (payload.exp prims) checks.clockSkewSecs) :
    claimsHold prims checks t payload = true := by
  obtain ⟨hrest, -, hnbf⟩ := claimsHold_iff.mp h
  refine claimsHold_iff.mpr ⟨hrest, hexp, fun hvalidate nbf hsome => ?_⟩
  have := hnbf hvalidate nbf hsome
  simp only [saturatingAdd] at this ⊢
  omega

theorem claimsHold_earlier (h : claimsHold prims checks t payload = true) (hle : t₀ ≤ t)
    (hnbf : checks.validateNbf = true → ∀ nbf, payload.nbf prims = some nbf →
      nbf ≤ saturatingAdd t₀ checks.clockSkewSecs) :
    claimsHold prims checks t₀ payload = true := by
  obtain ⟨hrest, hexp, -⟩ := claimsHold_iff.mp h
  exact claimsHold_iff.mpr ⟨hrest, fun hvalidate hpos => hle.trans (hexp hvalidate hpos), hnbf⟩

end Claims

variable {verified : VerifiedToken}

theorem checkSignature_eq_verified (h : checkSignature env origin t token = .verified verified) :
    validUtf8 token = true ∧ openToken env.prims origin.checks token = some verified.payload ∧
      claimsHold env.prims origin.checks t verified.payload = true ∧
      verified.expEpochSecs = verified.payload.exp env.prims := by
  unfold checkSignature at h
  split at h
  · cases h
  · next hutf8 =>
      split at h
      · cases h
      · next hverify =>
          cases h
          obtain ⟨payload, hfilter, rfl⟩ := Option.map_eq_some_iff.mp hverify
          obtain ⟨hopen, hclaims⟩ := Option.filter_eq_some_iff.mp hfilter
          exact ⟨by simpa using hutf8, hopen, hclaims, rfl⟩

theorem verdict_of_opens {payload : VerifiedPayload} (hutf8 : validUtf8 token = true)
    (hopen : openToken env.prims origin.checks token = some payload)
    (hclaims : claimsHold env.prims origin.checks t payload = true)
    (hproject : projectClaims env.prims payload origin.claimRules = some headers) :
    verdict env origin t token = .ok (.allow headers) :=
  verdict_eq_allow.mpr ⟨hutf8, acceptedHeaders_eq_some.mpr ⟨payload, hopen, hclaims, hproject⟩⟩

theorem verdict_later {cache : JwtCache H}
    (hcheck : checkSignature env origin t₀ token = .verified verified)
    (hproject : projectClaims env.prims verified.payload origin.claimRules = some headers)
    (hle : t₀ ≤ t)
    (hlive : t < cache.positiveExpire (if origin.checks.validateExp then verified.expEpochSecs else
      0) t₀) :
    verdict env origin t token = .ok (.allow headers) := by
  obtain ⟨hutf8, hopen, hclaims, hexp⟩ := checkSignature_eq_verified hcheck
  refine verdict_of_opens hutf8 hopen (claimsHold_later hclaims hle fun hvalidate hpos => ?_)
    hproject
  rw [hvalidate, if_pos rfl, hexp, positiveExpire, if_pos hpos] at hlive
  simp only [saturatingAdd] at hlive ⊢
  omega

/-- A token that is refused stays refused for as long as its row lives. -/
def StaysRefused (env : Environment H K) (origin : OriginPolicy K) (negativeTtlSecs : Nat)
    (token : Bytes) : Prop :=
  ∀ t₀ t, t₀ ≤ t → t < saturatingAdd t₀ negativeTtlSecs →
    verdict env origin t₀ token = .ok .unauthorized →
    verdict env origin t token = .ok .unauthorized

/-- When a token is accepted, it has been active for as long as a refusal is kept. -/
def ActiveInTime (env : Environment H K) (origin : OriginPolicy K) (negativeTtlSecs : Nat)
    (token : Bytes) : Prop :=
  ∀ t headers payload nbf, verdict env origin t token = .ok (.allow headers) →
    openToken env.prims origin.checks token = some payload →
    origin.checks.validateNbf = true → payload.nbf env.prims = some nbf →
    ∀ t₀ ≤ t, t < saturatingAdd t₀ negativeTtlSecs →
      nbf ≤ saturatingAdd t₀ origin.checks.clockSkewSecs

theorem staysRefused_iff {ttl : Nat} :
    StaysRefused env origin ttl token ↔ ActiveInTime env origin ttl token := by
  constructor
  · intro hstays t headers payload nbf hallow hopen hvalidate hnbf t₀ hle hlive
    by_contra hearly
    have hrefused : verdict env origin t₀ token = .ok .unauthorized := by
      refine verdict_eq_unauthorized.mpr ⟨(verdict_eq_allow.mp hallow).1, ?_⟩
      refine Option.eq_none_iff_forall_ne_some.mpr fun headers' haccepted => hearly ?_
      obtain ⟨payload', hopen', hclaims, -⟩ := acceptedHeaders_eq_some.mp haccepted
      obtain rfl := Option.some.inj (hopen.symm.trans hopen')
      exact (claimsHold_iff.mp hclaims).2.2 hvalidate nbf hnbf
    have hstill := hstays t₀ t hle hlive hrefused
    rw [hallow] at hstill
    cases hstill
  · intro hactive t₀ t hle hlive hrefused
    obtain ⟨hutf8, hnone⟩ := verdict_eq_unauthorized.mp hrefused
    refine verdict_eq_unauthorized.mpr ⟨hutf8, ?_⟩
    refine Option.eq_none_iff_forall_ne_some.mpr fun headers haccepted => ?_
    obtain ⟨payload, hopen, hclaims, hproject⟩ := acceptedHeaders_eq_some.mp haccepted
    have hallow := verdict_of_opens hutf8 hopen hclaims hproject
    have hbefore := claimsHold_earlier hclaims hle fun hvalidate nbf hnbf =>
      hactive t headers payload nbf hallow hopen hvalidate hnbf t₀ hle hlive
    rw [acceptedHeaders_eq_some.mpr ⟨payload, hopen, hbefore, hproject⟩] at hnone
    cases hnone

section Rows

variable [DecidableEq H] {order : RowOrder H} {cache cache' : JwtCache H} {since : Nat}

theorem evaluateToken_of_miss {cache : Option (JwtCache H)}
    (hmiss : cached env token t cache = .miss)
    (hjti : ∀ verified, cache.any (jtiRevoked env verified t) = false) :
    (evaluateToken env origin order token t cache).2 = verdict env origin t token := by
  unfold evaluateToken verdict acceptedHeaders checkSignature
  rw [hmiss]
  split_ifs with hutf8
  · rfl
  · cases verifyJwt env.prims origin.checks t token with
    | none => rfl
    | some verified =>
      simp only [hjti, Bool.false_eq_true, if_false, Option.bind_some]
      cases projectClaims env.prims verified.payload origin.claimRules <;> rfl

theorem evaluateToken_none : evaluateToken env origin order token t none =
    (none, verdict env origin t token) := by
  refine Prod.ext ?_ (evaluateToken_of_miss rfl fun _ => rfl)
  have houtcome := evaluateToken_outcome env origin order token t none
  generalize evaluateToken env origin order token t none = result at houtcome
  cases houtcome <;> rfl

def CacheRow.says (row : CacheRow H) : Except Error JwtDecision :=
  match row.status with
  | .positive => .ok (.allow row.forwardedHeaders)
  | .negative => .ok .unauthorized

/-- From a time on, every row of the status says what is decided without it. -/
def Tells (env : Environment H K) (origin : OriginPolicy K) (status : TokenStatus) (since : Nat)
    (cache : JwtCache H) : Prop :=
  ∀ key row, cache.row? env.hashing key = some row → row.status = status →
    ∃ token, env.hashing.hashToken token = key ∧
      ∀ t, since ≤ t → t < row.expireEpochSecs → verdict env origin t token = row.says

variable {status : TokenStatus}

theorem Tells.later (h : Tells env origin status since cache) (hle : since ≤ t) :
    Tells env origin status t cache := by
  intro key row hrow hstatus
  obtain ⟨token, hkey, htells⟩ := h key row hrow hstatus
  exact ⟨token, hkey, fun u hu => htells u (hle.trans hu)⟩

theorem Tells.verdict_eq (h : Tells env origin status t cache) (hfree : CollisionFree env.hashing)
    {row : CacheRow H} (hrow : cache.row? env.hashing (env.hashing.hashToken token) = some row)
    (hstatus : row.status = status) (hlive : t < row.expireEpochSecs) :
    verdict env origin t token = row.says := by
  obtain ⟨other, hkey, htells⟩ := h _ row hrow hstatus
  rw [← hfree.token_injective hkey]
  exact htells t le_rfl hlive

/-! ## Accepted tokens -/

theorem Tells.evaluateToken (h : Tells env origin .positive t cache)
    (hafter : (Jwt.evaluateToken env origin order token t (some cache)).1 = some cache') :
    Tells env origin .positive t cache' := by
  refine evaluateToken_keeps hafter h ?_ fun _ hcheck hproject => ?_ <;>
    intro key row hrow hstatus
  · rcases row?_of_revokeToken hrow with hold | ⟨-, hnegative⟩
    · exact h key row hold hstatus
    · rw [hnegative] at hstatus
      cases hstatus
  · rcases row?_of_insertPositive hrow with hold | ⟨hkey, rfl⟩
    · exact h key row hold hstatus
    · exact ⟨token, hkey.symm, fun u hu hlive => verdict_later hcheck hproject hu hlive⟩

theorem Tells.allow (h : Tells env origin .positive t cache) (hfree : CollisionFree env.hashing)
    (hallow : (Jwt.evaluateToken env origin order token t (some cache)).2 =
      .ok (.allow headers)) : verdict env origin t token = .ok (.allow headers) := by
  have houtcome := evaluateToken_outcome env origin order token t (some cache)
  generalize Jwt.evaluateToken env origin order token t (some cache) = result
    at hallow houtcome
  cases houtcome with
  | hitDeny | invalidRequest | refused => cases hallow
  | hitAllow hcached =>
    cases hallow
    obtain ⟨row, hrow, hstatus, hlive, rfl, -⟩ := lookup_eq_hitAllow hcached
    rw [h.verdict_eq hfree hrow hstatus hlive, CacheRow.says, hstatus]
  | verified hmiss hcheck hjti hproject =>
    cases hallow
    obtain ⟨hutf8, hopen, hclaims, -⟩ := checkSignature_eq_verified hcheck
    exact verdict_of_opens hutf8 hopen hclaims hproject

/-! ## Refused tokens -/

theorem lt_of_row?_revokeToken {key : H} {row : CacheRow H}
    (hold : ∀ old, cache.row? env.hashing key = some old → old.expireEpochSecs ≤ t₀)
    (h : (cache.revokeToken env.hashing order key 0 t₀).row? env.hashing key = some row)
    (hle : t₀ ≤ t) (hlive : t < row.expireEpochSecs) :
    t < saturatingAdd t₀ cache.negativeTtlSecs := by
  rw [revokeToken, row?_atShard, if_pos rfl, CacheShard.refuse] at h
  split at h
  · next old hrow =>
      rw [CacheShard.get?_put_self] at h
      cases h
      have := hold old hrow
      simp only [CacheShard.flip, revokeExpire, Nat.lt_irrefl, if_false] at hlive
      omega
  · rw [CacheShard.get?_put_self] at h
    cases h
    exact hlive

/-- Every live refusal is still right, and none was asked for. -/
structure Steady (env : Environment H K) (origin : OriginPolicy K) (negativeTtlSecs since : Nat)
    (cache : JwtCache H) : Prop where
  tells : Tells env origin .negative since cache
  unflagged : cache.hasRevokedJtis = false
  lifetime : cache.negativeTtlSecs = negativeTtlSecs

variable {ttl : Nat}

section

variable (h : Steady env origin ttl t cache)
include h

theorem Steady.jtiRevoked (hfree : CollisionFree env.hashing) (verified : VerifiedToken) :
    Jwt.jtiRevoked env verified t cache = false := by
  simp only [Jwt.jtiRevoked, isNegative, Option.any_eq_false]
  intro jti hjti row hrow
  rw [Bool.and_eq_false_imp, decide_eq_true_eq]
  intro hstatus
  obtain ⟨other, hkey, -⟩ := h.tells _ row hrow hstatus
  exact absurd hkey (hfree.token_ne_jti other jti)

theorem Steady.recordRefused (hmiss : cached env token t (some cache) = .miss)
    (hstays : StaysRefused env origin ttl token)
    (hrefused : verdict env origin t token = .ok .unauthorized) :
    Steady env origin ttl t (Jwt.recordRefused env order token t cache) := by
  refine ⟨fun key row hrow hstatus => ?_, h.unflagged, h.lifetime⟩
  have hexpired : ∀ old, cache.row? env.hashing (env.hashing.hashToken token) = some old →
      old.expireEpochSecs ≤ t := by
    intro old hold
    simp only [cached, lookup, hold] at hmiss
    by_contra hlive
    split_ifs at hmiss
  rcases row?_of_revokeToken hrow with hold | ⟨rfl, -⟩
  · exact h.tells key row hold hstatus
  · refine ⟨token, rfl, fun u hu hlive => ?_⟩
    have hlive' := lt_of_row?_revokeToken hexpired hrow hu hlive
    rw [h.lifetime] at hlive'
    rw [hstays t u hu hlive' hrefused, CacheRow.says, hstatus]

section

variable (hfree : CollisionFree env.hashing)
include hfree

theorem Steady.evaluateToken (hstays : StaysRefused env origin ttl token)
    (hafter : (Jwt.evaluateToken env origin order token t (some cache)).1 = some cache') :
    Steady env origin ttl t cache' := by
  cases hcached : cached env token t (some cache) with
  | hitDeny | hitAllow =>
    simp only [Jwt.evaluateToken, hcached, Option.some.injEq] at hafter
    rwa [← hafter]
  | miss =>
    have hanswer : (Jwt.evaluateToken env origin order token t (some cache)).2 = _ :=
      evaluateToken_of_miss hcached fun verified => h.jtiRevoked hfree verified
    have houtcome := evaluateToken_outcome env origin order token t (some cache)
    generalize Jwt.evaluateToken env origin order token t (some cache) = result
      at hafter houtcome hanswer
    cases houtcome with
    | hitDeny | hitAllow | invalidRequest =>
      obtain rfl := Option.some.inj hafter
      exact h
    | refused =>
      obtain rfl := Option.some.inj hafter
      exact h.recordRefused hcached hstays hanswer.symm
    | verified =>
      obtain rfl := Option.some.inj hafter
      refine ⟨fun key row hrow hstatus => ?_, h.unflagged, h.lifetime⟩
      rcases row?_of_insertPositive hrow with hold | ⟨-, rfl⟩
      · exact h.tells key row hold hstatus
      · cases hstatus

theorem Steady.fst_evaluateToken (hmiss : cached env token t (some cache) = .miss)
    (hrefused : verdict env origin t token = .ok .unauthorized) :
    (Jwt.evaluateToken env origin order token t (some cache)).1 =
      some (Jwt.recordRefused env order token t cache) := by
  have hanswer : (Jwt.evaluateToken env origin order token t (some cache)).2 = _ :=
    evaluateToken_of_miss hmiss fun verified => h.jtiRevoked hfree verified
  have houtcome := evaluateToken_outcome env origin order token t (some cache)
  rw [hrefused] at hanswer
  generalize Jwt.evaluateToken env origin order token t (some cache) = result
    at houtcome hanswer ⊢
  cases houtcome with
  | hitDeny hhit =>
    rw [hmiss] at hhit
    cases hhit
  | refused => rfl
  | hitAllow | invalidRequest | verified => cases hanswer

theorem Steady.unauthorized
    (hanswer : (Jwt.evaluateToken env origin order token t (some cache)).2 = .ok .unauthorized) :
    verdict env origin t token = .ok .unauthorized := by
  cases hcached : cached env token t (some cache) with
  | hitAllow =>
    simp only [Jwt.evaluateToken, hcached] at hanswer
    cases hanswer
  | miss =>
    rw [← hanswer]
    exact (evaluateToken_of_miss hcached fun verified => h.jtiRevoked hfree verified).symm
  | hitDeny =>
    simp only [cached, lookup, h.unflagged, Bool.false_and, Bool.false_eq_true,
      if_false] at hcached
    split at hcached
    · cases hcached
    · next row hrow =>
        split_ifs at hcached with hlive hstatus
        rw [h.tells.verdict_eq hfree hrow hstatus (by omega), CacheRow.says, hstatus]

end

end

end Rows

/-! ## Engines -/

def JwtEngine.uncached (engine : JwtEngine H K) : JwtEngine H K :=
  { engine with caches := fun _ => none }

variable [DecidableEq H]

def JwtEngine.answers (env : Environment H K) :
    JwtEngine H K → List (JwtEngine.Call H) → List (Option (Except Error JwtDecision))
  | _, [] => []
  | engine, call :: calls =>
    let (after, answer) := engine.evaluateWithLookupAt env call
    answer :: after.answers env calls

def JwtEngine.freshAnswers (env : Environment H K) (engine : JwtEngine H K)
    (calls : List (JwtEngine.Call H)) : List (Option (Except Error JwtDecision)) :=
  calls.map fun call => (engine.uncached.evaluateWithLookupAt env call).2

def EachCache (engine : JwtEngine H K) (P : IndexedOrigin K → JwtCache H → Prop) : Prop :=
  ∀ p item cache, (p, item) ∈ engine.origins.inserted →
    engine.caches item.rank = some cache → P item cache

section Engines

variable {engine : JwtEngine H K} {item : IndexedOrigin K} {call : JwtEngine.Call H}

theorem Selects.uncached (h : Selects env engine call item token) :
    (engine.uncached.evaluateWithLookupAt env call).2 =
      some (verdict env item.policy call.nowEpoch token) := by
  have h' : Selects env engine.uncached call item token :=
    ⟨h.valid, h.found, h.notExcluded, h.presented⟩
  rw [h'.evaluateWithLookupAt, JwtEngine.uncached, evaluateToken_none]

theorem evaluate_cases (env : Environment H K) (engine : JwtEngine H K)
    (call : JwtEngine.Call H) : (∃ item token, Selects env engine call item token) ∨
      engine.evaluateWithLookupAt env call =
        (engine, (engine.uncached.evaluateWithLookupAt env call).2) := by
  have hsame : engine.uncached.findOrigin call.host call.path =
    engine.findOrigin call.host call.path := rfl
  simp only [JwtEngine.evaluateWithLookupAt, hsame]
  cases hvalid : JwtEngine.validRequest call.host call.path with
  | false => exact .inr rfl
  | true =>
    cases hfound : engine.findOrigin call.host call.path with
    | none => exact .inr rfl
    | some item =>
      cases hexcluded : item.policy.excludeMatcher.matches env.endian call.path with
      | none => simp [hexcluded]
      | some excluded =>
        cases excluded with
        | true => simp [hexcluded]
        | false =>
          cases hpresented : item.policy.presentedToken call.headerLookup with
          | none => simp [hexcluded, hpresented]
          | some token => exact .inl ⟨item, token, hvalid, hfound, hexcluded, hpresented⟩

theorem Selects.evaluate (h : Selects env engine call item token) :
    (engine.evaluateWithLookupAt env call).1 =
      engine.withCache item.rank (evaluateToken env item.policy call.order token call.nowEpoch
        (engine.caches item.rank)).1 := by
  simp only [JwtEngine.evaluateWithLookupAt, h.valid, h.found, h.notExcluded, h.presented,
    Bool.not_true, Bool.false_eq_true, if_false]

def Ranked (engine : JwtEngine H K) : Prop :=
  (engine.origins.inserted.map fun op => op.2.rank).Nodup

omit [DecidableEq H] in
theorem EachCache.withCache {P : IndexedOrigin K → JwtCache H → Prop} (h : EachCache engine P)
    (hranked : Ranked engine) {p : Bytes} (hitem : (p, item) ∈ engine.origins.inserted)
    {cache : Option (JwtCache H)} (hcache : ∀ c, cache = some c → P item c) :
    EachCache (engine.withCache item.rank cache) P := by
  intro p' item' cache' hitem' hcache'
  simp only [JwtEngine.withCache, Function.update_apply] at hcache'
  split_ifs at hcache' with hrank
  · have hsame := List.inj_on_of_nodup_map hranked hitem' hitem hrank
    rw [(Prod.mk.inj hsame).2]
    exact hcache cache' hcache'
  · exact h p' item' cache' hitem' hcache'

theorem forall₂_answers {P : Nat → IndexedOrigin K → JwtCache H → Prop}
    {R : Option (Except Error JwtDecision) → Option (Except Error JwtDecision) → Prop}
    (hrefl : ∀ answer, R answer answer)
    (hlater : ∀ {since t item cache}, since ≤ t → P since item cache → P t item cache)
    (hkeep : ∀ {call item token cache cache'}, Selects env engine call item token →
      P call.nowEpoch item cache →
      (evaluateToken env item.policy call.order token call.nowEpoch (some cache)).1 = some cache' →
      P call.nowEpoch item cache')
    (hright : ∀ {call item token cache}, Selects env engine call item token →
      P call.nowEpoch item cache →
      R (some (evaluateToken env item.policy call.order token call.nowEpoch (some cache)).2)
        (some (verdict env item.policy call.nowEpoch token)))
    (hranked : Ranked engine) {since : Nat} (h : EachCache engine (P since))
    {calls : List (JwtEngine.Call H)} (hsince : ∀ call ∈ calls, since ≤ call.nowEpoch)
    (hordered : calls.Pairwise fun a b => a.nowEpoch ≤ b.nowEpoch) :
    List.Forall₂ R (engine.answers env calls) (engine.freshAnswers env calls) := by
  induction calls generalizing engine since with
  | nil => exact .nil
  | cons call calls ih =>
    obtain ⟨hfirst, hrest⟩ := List.pairwise_cons.mp hordered
    have hnow : EachCache engine (P call.nowEpoch) := fun p item cache hitem hcache =>
      hlater (hsince call List.mem_cons_self) (h p item cache hitem hcache)
    rcases evaluate_cases env engine call with ⟨item, token, hselects⟩ | hsame
    · obtain ⟨p, hitem⟩ := mem_of_findOrigin hselects.found
      have hafter : EachCache (engine.evaluateWithLookupAt env call).1 (P call.nowEpoch) := by
        rw [hselects.evaluate]
        refine hnow.withCache hranked hitem fun cache' hcache' => ?_
        cases hcache : engine.caches item.rank with
        | none =>
          rw [hcache, evaluateToken_none] at hcache'
          cases hcache'
        | some cache =>
          rw [hcache] at hcache'
          exact hkeep hselects (hnow p item cache hitem hcache) hcache'
      have hanswer : R (engine.evaluateWithLookupAt env call).2
          (engine.uncached.evaluateWithLookupAt env call).2 := by
        rw [hselects.evaluateWithLookupAt, hselects.uncached]
        cases hcache : engine.caches item.rank with
        | none =>
          rw [evaluateToken_none]
          exact hrefl _
        | some cache => exact hright hselects (hnow p item cache hitem hcache)
      change List.Forall₂ R (_ :: (engine.evaluateWithLookupAt env call).1.answers env calls)
        (_ :: engine.freshAnswers env calls)
      refine .cons hanswer ?_
      rw [hselects.evaluate] at hafter ⊢
      refine ih ?_ ?_ hranked hafter hfirst hrest
      · exact fun h => hkeep ⟨h.valid, h.found, h.notExcluded, h.presented⟩
      · exact fun h => hright ⟨h.valid, h.found, h.notExcluded, h.presented⟩
    · simp only [JwtEngine.answers, hsame]
      exact .cons (hrefl _) (ih hkeep hright hranked hnow hfirst hrest)

end Engines

/-! ## Runs -/

structure FreshEngine (H K : Type) [DecidableEq H] where
  env : Environment H K
  order : RowOrder H
  clock : Nat → Nat
  bytes : Bytes
  engine : JwtEngine H K
  collisionFree : CollisionFree env.hashing
  built : JwtEngine.fromSnapshot env order clock bytes = .ok engine
  unrevoked : ∀ snapshot, env.parseSnapshot bytes = some snapshot →
    ∀ origin ∈ snapshot.origins, origin.revokedTokens = [] ∧ origin.revokedJtis = []

structure TimedCalls (H : Type) where
  calls : List (JwtEngine.Call H)
  ordered : calls.Pairwise fun a b => a.nowEpoch ≤ b.nowEpoch

def AllowsOnly (cached fresh : Option (Except Error JwtDecision)) : Prop :=
  ∀ headers, cached = some (.ok (.allow headers)) → fresh = some (.ok (.allow headers))

def DeniesOnly (cached fresh : Option (Except Error JwtDecision)) : Prop :=
  cached = some (.ok .unauthorized) → fresh = some (.ok .unauthorized)

namespace FreshEngine

variable (fresh : FreshEngine H K)

theorem ranked : Ranked fresh.engine := by
  obtain ⟨_, -, hcompiled⟩ := fromSnapshot_ok fresh.built
  exact hcompiled.ranks

variable {cache : JwtCache H}

theorem cache_eq_new {rank : Nat} (h : fresh.engine.caches rank = some cache) :
    ∃ shards entries ttl negativeTtl, cache = .new shards entries ttl negativeTtl := by
  obtain ⟨snapshot, hparse, hcompiled⟩ := fromSnapshot_ok fresh.built
  rw [hcompiled.caches] at h
  obtain ⟨input, hinput, hcache⟩ := Option.bind_eq_some_iff.mp h
  have hmem : input ∈ snapshot.origins :=
    (mem_sortByKey _).mp (List.mem_of_getElem? hinput)
  obtain ⟨htokens, hjtis⟩ := fresh.unrevoked snapshot hparse input hmem
  simp only [compileCache, arm, htokens, hjtis, List.foldl_nil] at hcache
  split_ifs at hcache
  exact ⟨_, _, _, _, (Option.some.inj hcache).symm⟩

/-- What the caches let pass would pass without them. -/
theorem cached_allow_sound (run : TimedCalls H) :
    List.Forall₂ AllowsOnly (fresh.engine.answers fresh.env run.calls)
      (fresh.engine.freshAnswers fresh.env run.calls) := by
  refine @forall₂_answers H K fresh.env _ fresh.engine
    (fun since item cache => Tells fresh.env item.policy .positive since cache) AllowsOnly
    (fun _ _ h => h) (fun hle h => h.later hle) (fun _ h hafter => h.evaluateToken hafter) ?_
    fresh.ranked 0 ?_ run.calls (fun _ _ => Nat.zero_le _) run.ordered
  · intro call item token cache _ h headers hallow
    rw [h.allow fresh.collisionFree (Option.some.inj hallow)]
  · intro p item cache _ hcache key row hrow
    obtain ⟨shards, entries, ttl, negativeTtl, rfl⟩ := fresh.cache_eq_new hcache
    cases hrow

theorem steady_start {since rank : Nat} {origin : OriginPolicy K}
    (h : fresh.engine.caches rank = some cache) :
    Steady fresh.env origin cache.negativeTtlSecs since cache := by
  obtain ⟨shards, entries, ttl, negativeTtl, rfl⟩ := fresh.cache_eq_new h
  exact ⟨nofun, rfl, rfl⟩

theorem staysRefused_of_transparent
    (h : ∀ run : TimedCalls H, List.Forall₂ DeniesOnly (fresh.engine.answers fresh.env run.calls)
      (fresh.engine.freshAnswers fresh.env run.calls)) {call : JwtEngine.Call H}
    {item : IndexedOrigin K} (hselects : Selects fresh.env fresh.engine call item token)
    (hcache : fresh.engine.caches item.rank = some cache) :
    StaysRefused fresh.env item.policy cache.negativeTtlSecs token := by
  intro t₀ t hle hlive hrefused
  have hpair : [{ call with nowEpoch := t₀ }, { call with nowEpoch := t }].Pairwise
      fun a b => a.nowEpoch ≤ b.nowEpoch := by simpa using hle
  have hfirst : Selects fresh.env fresh.engine { call with nowEpoch := t₀ } item token :=
    ⟨hselects.valid, hselects.found, hselects.notExcluded, hselects.presented⟩
  have hmiss : cached fresh.env token t₀ (some cache) = .miss := by
    obtain ⟨shards, entries, ttl, negativeTtl, rfl⟩ := fresh.cache_eq_new hcache
    rfl
  have hafter := hfirst.evaluate
  rw [hcache, (fresh.steady_start hcache).fst_evaluateToken fresh.collisionFree hmiss hrefused]
    at hafter
  have hsecond : Selects fresh.env (fresh.engine.withCache item.rank
      (some (recordRefused fresh.env call.order token t₀ cache))) { call with nowEpoch := t } item
      token := ⟨hselects.valid, hselects.found, hselects.notExcluded, hselects.presented⟩
  have hdenied : (recordRefused fresh.env call.order token t₀ cache).lookup fresh.env.hashing
      (fresh.env.hashing.hashToken token) t = .hitDeny :=
    lookup_of_refuses (refuses_revokeToken_self call.order le_rfl)
      (show t < cache.revokeExpire 0 t₀ from hlive)
  have hlast : Selects fresh.env fresh.engine { call with nowEpoch := t } item token :=
    ⟨hselects.valid, hselects.found, hselects.notExcluded, hselects.presented⟩
  obtain _ | ⟨-, _ | ⟨hdenies, -⟩⟩ := h ⟨_, hpair⟩
  change DeniesOnly ((fresh.engine.evaluateWithLookupAt fresh.env
    { call with nowEpoch := t₀ }).1.evaluateWithLookupAt fresh.env { call with nowEpoch := t }).2
    (fresh.engine.uncached.evaluateWithLookupAt fresh.env { call with nowEpoch := t }).2 at hdenies
  rw [hafter, hsecond.evaluateWithLookupAt, hlast.uncached] at hdenies
  refine Option.some.inj (hdenies ?_)
  simp only [JwtEngine.withCache, Function.update_self, evaluateToken, cached, hdenied]

/-- What the caches refuse would be refused without them in every run exactly if every
token that is ever accepted has been active for as long as a refusal is kept. -/
theorem cached_refusals_iff :
    (∀ run : TimedCalls H, List.Forall₂ DeniesOnly (fresh.engine.answers fresh.env run.calls)
        (fresh.engine.freshAnswers fresh.env run.calls)) ↔
      ∀ call item token cache, Selects fresh.env fresh.engine call item token →
        fresh.engine.caches item.rank = some cache →
        ActiveInTime fresh.env item.policy cache.negativeTtlSecs token := by
  constructor
  · intro h call item token cache hselects hcache
    exact staysRefused_iff.mp (fresh.staysRefused_of_transparent h hselects hcache)
  · intro h run
    refine @forall₂_answers H K fresh.env _ fresh.engine
      (fun since item cache => ∃ first, fresh.engine.caches item.rank = some first ∧
        Steady fresh.env item.policy first.negativeTtlSecs since cache) DeniesOnly
      (fun _ h => h) ?_ ?_ ?_ fresh.ranked 0 ?_ run.calls (fun _ _ => Nat.zero_le _) run.ordered
    · rintro since t item cache hle ⟨first, hfirst, hsteady⟩
      exact ⟨first, hfirst, hsteady.tells.later hle, hsteady.unflagged, hsteady.lifetime⟩
    · rintro call item token cache cache' hselects ⟨first, hfirst, hsteady⟩ hafter
      have hstays := staysRefused_iff.mpr (h call item token first hselects hfirst)
      exact ⟨first, hfirst, hsteady.evaluateToken fresh.collisionFree hstays hafter⟩
    · rintro call item token cache hselects ⟨first, hfirst, hsteady⟩ hanswer
      rw [hsteady.unauthorized fresh.collisionFree (Option.some.inj hanswer)]
    · intro p item cache _ hcache
      exact ⟨cache, hcache, fresh.steady_start hcache⟩

end FreshEngine

/-! ## A token that becomes active -/

def laterEnvironment : Environment (Bytes ⊕ Bytes) Unit :=
  { transparentEnvironment ⟨1, 1, [{ sessionOrigin with validateNbf := true }]⟩ with
    prims := { transparentPrimitives with
      parseJson := fun _ => some (.object [(ascii "nbf", .number (.posInt 1010))]) } }

def laterEngine : FreshEngine (Bytes ⊕ Bytes) Unit where
  env := laterEnvironment
  order := storedOrder
  clock := fun _ => 1000
  bytes := [0]
  engine := _
  collisionFree := collisionFree_tagged
  built := rfl
  unrevoked := by
    rintro _ ⟨⟩ origin horigin
    rw [List.mem_singleton.mp horigin]
    exact ⟨rfl, rfl⟩

def twoCalls : TimedCalls (Bytes ⊕ Bytes) := ⟨[sessionCall 1000, sessionCall 1015], by decide⟩

/-- The token is refused as not active at second 1000, and again at second 1015. -/
theorem active_token_refused :
    laterEngine.engine.answers laterEnvironment twoCalls.calls =
        [some (.ok .unauthorized), some (.ok .unauthorized)] ∧
      laterEngine.engine.freshAnswers laterEnvironment twoCalls.calls =
        [some (.ok .unauthorized), some (.ok (.allow []))] :=
  ⟨rfl, rfl⟩

end AuroraGateway.Jwt
