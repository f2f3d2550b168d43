import AuroraGateway.Foundation.Runs
import AuroraGateway.Jwt.Coherence

/-!
# Revocation while requests are in progress

Evaluations on one origin take their steps in any order: a lookup in the cache,
the check of the signature, the check of the token id, and the insertion.  A
revocation is one step.  What is revoked stays refused as long as its row stays
in the cache; the row goes when it has to make room, and when an evaluation
that was past its lookup inserts the token as verified.
-/

namespace AuroraGateway.Jwt

open Access (JwtDecision)
open Engine Foundation

variable {H K : Type}

/-! ## Evaluations in progress -/

inductive Stage where
  | begun
  | missed
  | verified (token : VerifiedToken)
  | cleared (token : VerifiedToken)
  | refusing
  | done (answer : Except Error JwtDecision)

structure Evaluation where
  token : Bytes
  nowEpoch : Nat
  stage : Stage

def Evaluation.at (e : Evaluation) (stage : Stage) : Evaluation := { e with stage }

structure OriginState (H : Type) where
  cache : JwtCache H
  calls : Nat → Option Evaluation

inductive Subject where
  | token (token : Bytes)
  | jti (jti : Bytes)

def Subject.key (hashing : Hashing H) : Subject → H
  | .token value => hashing.hashToken value
  | .jti value => hashing.hashJti value

def Subject.Concerns (env : Environment H K) (origin : OriginPolicy K) (presented : Bytes) :
    Subject → Prop
  | .token value => presented = value
  | .jti value =>
    ∃ payload, openToken env.prims origin.checks presented = some payload ∧
      payload.jti = some value

inductive OriginAction (H : Type) where
  | start (id : Nat) (token : Bytes) (nowEpoch : Nat)
  | advance (id : Nat) (order : RowOrder H)
  | revoke (subject : Subject) (untilEpochSecs nowEpoch : Nat) (order : RowOrder H)

namespace OriginState

def start (cache : JwtCache H) : OriginState H := ⟨cache, fun _ => none⟩

def put (s : OriginState H) (id : Nat) (e : Evaluation) : OriginState H :=
  { s with calls := Function.update s.calls id (some e) }

variable {s t : OriginState H} {e : Evaluation} {env : Environment H K} {origin : OriginPolicy K}
  {action : OriginAction H} {order : RowOrder H} {cache cache' : JwtCache H} {stage : Stage}
  {subject : Subject} {bound nowEpoch : Nat}

theorem calls_put {id id' : Nat} {e' : Evaluation}
    (h : (s.put id e).calls id' = some e') :
    id' = id ∧ e' = e ∨ id' ≠ id ∧ s.calls id' = some e' := by
  unfold put at h
  dsimp only at h
  by_cases hid : id' = id
  · subst hid
    rw [Function.update_self] at h
    exact .inl ⟨rfl, (Option.some.inj h).symm⟩
  · rw [Function.update_of_ne hid] at h
    exact .inr ⟨hid, h⟩

def signatureStage (env : Environment H K) (origin : OriginPolicy K) (e : Evaluation) : Stage :=
  match checkSignature env origin e.nowEpoch e.token with
  | .invalidRequest => .done (.error .invalidRequest)
  | .refused => .refusing
  | .verified verified => .verified verified

variable {verified : VerifiedToken}

theorem signatureStage_verified (h : signatureStage env origin e = .verified verified) :
    checkSignature env origin e.nowEpoch e.token = .verified verified := by
  unfold signatureStage at h
  split at h
  · cases h
  · cases h
  · rename_i found hcheck
    rw [hcheck, Stage.verified.inj h]

theorem signatureStage_ne_cleared :
    signatureStage env origin e ≠ .cleared verified := by
  unfold signatureStage
  split <;> simp

/-- Where an evaluation of a concerned token can be that began after the revocation. -/
def Safe (subject : Subject) : Stage → Prop
  | .begun | .refusing => True
  | .missed => ∃ jti, subject = .jti jti
  | .verified verified => ∃ jti, subject = .jti jti ∧ verified.jti = some jti
  | .cleared _ => False
  | .done answer => ∀ headers, answer ≠ .ok (.allow headers)

theorem safe_signatureStage {jti : Bytes}
    (hconcerns : (Subject.jti jti).Concerns env origin e.token) :
    Safe (.jti jti) (signatureStage env origin e) := by
  obtain ⟨payload, hopen, hjti⟩ := hconcerns
  unfold signatureStage
  split
  · intro headers
    simp
  · trivial
  · rename_i verified hcheck
    obtain ⟨hverified, hverifiedJti⟩ := checkSignature_verified hcheck
    rw [hopen] at hverified
    refine ⟨jti, rfl, ?_⟩
    rw [hverifiedJti, ← Option.some.inj hverified, hjti]

variable [DecidableEq H]

def lookupStage (env : Environment H K) (e : Evaluation) (cache : JwtCache H) : Stage :=
  match cache.lookup env.hashing (env.hashing.hashToken e.token) e.nowEpoch with
  | .hitDeny => .done (.ok .unauthorized)
  | .hitAllow headers => .done (.ok (.allow headers))
  | .miss => .missed

/-- The next step of an evaluation: the cache after it and how far the evaluation is. -/
def advance (env : Environment H K) (origin : OriginPolicy K) (order : RowOrder H)
    (e : Evaluation) (cache : JwtCache H) : Option (JwtCache H × Stage) :=
  match e.stage with
  | .begun => some (cache, lookupStage env e cache)
  | .missed => some (cache, signatureStage env origin e)
  | .verified verified =>
    some (cache, if jtiRevoked env verified e.nowEpoch cache then .refusing
      else .cleared verified)
  | .cleared verified =>
    match projectClaims env.prims verified.payload origin.claimRules with
    | none => some (recordRefused env order e.token e.nowEpoch cache, .done (.ok .unauthorized))
    | some headers =>
      some (recordVerified env origin order e.token verified headers e.nowEpoch cache,
        .done (.ok (.allow headers)))
  | .refusing =>
    some (recordRefused env order e.token e.nowEpoch cache, .done (.ok .unauthorized))
  | .done _ => none

def revoke (hashing : Hashing H) (order : RowOrder H) (subject : Subject)
    (untilEpochSecs nowEpoch : Nat) (cache : JwtCache H) : JwtCache H :=
  match subject with
  | .token token =>
    cache.revokeToken hashing order (hashing.hashToken token) untilEpochSecs nowEpoch
  | .jti jti => cache.revokeJti hashing order jti untilEpochSecs nowEpoch

def step (env : Environment H K) (origin : OriginPolicy K) (s : OriginState H) :
    OriginAction H → Option (OriginState H)
  | .start id token nowEpoch =>
    if (s.calls id).isSome then none else some (s.put id ⟨token, nowEpoch, .begun⟩)
  | .advance id order => do
      let e ← s.calls id
      let (cache, stage) ← advance env origin order e s.cache
      some (({ s with cache } : OriginState H).put id (e.at stage))
  | .revoke subject untilEpochSecs nowEpoch order =>
    some { s with cache := revoke env.hashing order subject untilEpochSecs nowEpoch s.cache }

inductive StepOutcome (env : Environment H K) (origin : OriginPolicy K) (s : OriginState H) :
    OriginAction H → OriginState H → Prop
  | start {id : Nat} {token : Bytes} {nowEpoch : Nat} (hfree : s.calls id = none) :
      StepOutcome env origin s (.start id token nowEpoch) (s.put id ⟨token, nowEpoch, .begun⟩)
  | advance {id : Nat} {order : RowOrder H} {e : Evaluation} {cache : JwtCache H}
      {stage : Stage} (hcall : s.calls id = some e)
      (hadvance : OriginState.advance env origin order e s.cache = some (cache, stage)) :
      StepOutcome env origin s (.advance id order)
        (({ s with cache } : OriginState H).put id (e.at stage))
  | revoke {subject : Subject} {untilEpochSecs nowEpoch : Nat} {order : RowOrder H} :
      StepOutcome env origin s (.revoke subject untilEpochSecs nowEpoch order)
        { s with cache :=
            OriginState.revoke env.hashing order subject untilEpochSecs nowEpoch s.cache }

variable {env : Environment H K} {origin : OriginPolicy K}

theorem step_outcome
    (h : step env origin s action = some t) : StepOutcome env origin s action t := by
  cases action with
  | start id token nowEpoch =>
    rw [step] at h
    split at h
    · cases h
    · rename_i hfree
      obtain rfl := Option.some.inj h
      exact .start (by simpa using hfree)
  | advance id order =>
    obtain ⟨e, hcall, hrest⟩ := Option.bind_eq_some_iff.mp h
    obtain ⟨⟨cache, stage⟩, hadvance, hput⟩ := Option.bind_eq_some_iff.mp hrest
    obtain rfl := Option.some.inj hput
    exact .advance hcall hadvance
  | revoke subject untilEpochSecs nowEpoch order =>
    obtain rfl := Option.some.inj h
    exact .revoke

/-! ## What evaluations have verified -/

def Honest (env : Environment H K) (origin : OriginPolicy K) (e : Evaluation) : Prop :=
  ∀ verified, e.stage = .verified verified ∨ e.stage = .cleared verified →
    openToken env.prims origin.checks e.token = some verified.payload ∧
      verified.jti = verified.payload.jti

structure Sound (env : Environment H K) (origin : OriginPolicy K) (s : OriginState H) : Prop where
  coherent : Coherent env origin s.cache
  honest : ∀ id e, s.calls id = some e → Honest env origin e

theorem lookupStage_cases (e : Evaluation) (cache : JwtCache H) :
    lookupStage env e cache = .missed ∨
      ∃ answer, lookupStage env e cache = .done answer := by
  unfold lookupStage
  split
  · exact .inr ⟨_, rfl⟩
  · exact .inr ⟨_, rfl⟩
  · exact .inl rfl

theorem advance_sound (hcoherent : Coherent env origin cache)
    (hhonest : Honest env origin e)
    (h : advance env origin order e cache = some (cache', stage)) :
    Coherent env origin cache' ∧ Honest env origin (e.at stage) := by
  have hdone : ∀ answer, Honest env origin (e.at (.done answer)) := by
    intro answer verified hstage
    rcases hstage with hstage | hstage <;> cases hstage
  unfold advance at h
  split at h
  · obtain ⟨rfl, rfl⟩ := Prod.mk.inj (Option.some.inj h)
    refine ⟨hcoherent, ?_⟩
    rcases @lookupStage_cases H K _ env e cache with hstage | ⟨answer, hstage⟩
    · rw [hstage]
      rintro verified (hverified | hcleared)
      · cases hverified
      · cases hcleared
    · rw [hstage]
      exact hdone answer
  · obtain ⟨rfl, rfl⟩ := Prod.mk.inj (Option.some.inj h)
    refine ⟨hcoherent, ?_⟩
    rintro verified (hverified | hcleared)
    · exact checkSignature_verified (signatureStage_verified hverified)
    · exact absurd hcleared signatureStage_ne_cleared
  · rename_i found hstage
    obtain ⟨rfl, rfl⟩ := Prod.mk.inj (Option.some.inj h)
    refine ⟨hcoherent, ?_⟩
    split
    · rintro verified (hverified | hcleared)
      · cases hverified
      · cases hcleared
    · rintro verified (hverified | hcleared)
      · cases hverified
      · obtain rfl := Stage.cleared.inj hcleared
        exact hhonest found (.inl hstage)
  · rename_i found hstage
    obtain ⟨hopen, hjti⟩ := hhonest found (.inr hstage)
    split at h
    · obtain ⟨rfl, rfl⟩ := Prod.mk.inj (Option.some.inj h)
      exact ⟨hcoherent.recordRefused, hdone _⟩
    · rename_i headers hproject
      obtain ⟨rfl, rfl⟩ := Prod.mk.inj (Option.some.inj h)
      exact ⟨hcoherent.recordVerified hopen hjti hproject, hdone _⟩
  · obtain ⟨rfl, rfl⟩ := Prod.mk.inj (Option.some.inj h)
    exact ⟨hcoherent.recordRefused, hdone _⟩
  · cases h

theorem coherent_revoke (h : Coherent env origin cache)
    (order : RowOrder H) (subject : Subject) (untilEpochSecs nowEpoch : Nat) :
    Coherent env origin (revoke env.hashing order subject untilEpochSecs nowEpoch cache) := by
  cases subject with
  | token token => exact h.revokeToken _ _
  | jti jti => exact h.revokeJti _ _

theorem sound_step (hsound : Sound env origin s)
    (h : step env origin s action = some t) : Sound env origin t := by
  cases step_outcome h with
  | start hunused =>
    refine ⟨hsound.coherent, fun id e hcall => ?_⟩
    rcases calls_put hcall with ⟨-, rfl⟩ | ⟨-, hold⟩
    · rintro verified (hverified | hcleared)
      · cases hverified
      · cases hcleared
    · exact hsound.honest id e hold
  | advance hcall hadvance =>
    obtain ⟨hcoherent, hhonest⟩ :=
      advance_sound hsound.coherent (hsound.honest _ _ hcall) hadvance
    refine ⟨hcoherent, fun id e hentered => ?_⟩
    rcases calls_put hentered with ⟨-, rfl⟩ | ⟨-, hold⟩
    · exact hhonest
    · exact hsound.honest id e hold
  | revoke => exact ⟨coherent_revoke hsound.coherent _ _ _ _, hsound.honest⟩

/-! ## What is revoked stays refused -/

/-- The cache refuses the subject at every time before `bound`. -/
structure Revoked (hashing : Hashing H) (subject : Subject) (bound : Nat) (cache : JwtCache H) :
    Prop where
  refuses : cache.Refuses hashing (subject.key hashing) bound
  flagged : ∀ jti, subject = .jti jti → cache.hasRevokedJtis = true

def writes : Stage → Bool
  | .cleared _ | .refusing => true
  | _ => false

def accepts (env : Environment H K) (origin : OriginPolicy K) : Stage → Bool
  | .cleared verified =>
    (projectClaims env.prims verified.payload origin.claimRules).isSome
  | _ => false

def AdvanceKeeps (env : Environment H K) (origin : OriginPolicy K) (order : RowOrder H)
    (key : H) (e : Evaluation) (cache : JwtCache H) : Prop :=
  (writes e.stage = true →
      cache.KeepsRow env.hashing order e.nowEpoch (env.hashing.hashToken e.token) key) ∧
    (accepts env origin e.stage = true → key ≠ env.hashing.hashToken e.token)

instance (order : RowOrder H) (key : H) (e : Evaluation) (cache : JwtCache H) :
    Decidable (AdvanceKeeps env origin order key e cache) :=
  inferInstanceAs (Decidable ((_ → _) ∧ (_ → _)))

/-- The action leaves the row of the key in place: it is not one of those that make room,
and no evaluation inserts the key as that of a verified token. -/
def Preserves (env : Environment H K) (origin : OriginPolicy K) (key : H) (s : OriginState H) :
    OriginAction H → Prop
  | .start _ _ _ => True
  | .advance id order =>
    ∀ e ∈ s.calls id, AdvanceKeeps env origin order key e s.cache
  | .revoke subject _ nowEpoch order =>
    s.cache.KeepsRow env.hashing order nowEpoch (subject.key env.hashing) key

instance (key : H) (s : OriginState H) :
    (action : OriginAction H) → Decidable (Preserves env origin key s action)
  | .start _ _ _ => .isTrue trivial
  | .advance id order =>
    inferInstanceAs (Decidable (∀ e ∈ s.calls id, AdvanceKeeps env origin order key e s.cache))
  | .revoke subject _ nowEpoch order =>
    inferInstanceAs (Decidable
      (s.cache.KeepsRow env.hashing order nowEpoch (subject.key env.hashing) key))

theorem Revoked.of_revoke {hashing : Hashing H}
    {untilEpochSecs : Nat}
    (order : RowOrder H)
    (hbound : bound ≤ cache.revokeExpire untilEpochSecs nowEpoch) :
    Revoked hashing subject bound
      (revoke hashing order subject untilEpochSecs nowEpoch cache) := by
  cases subject with
  | token token =>
    exact ⟨JwtCache.refuses_revokeToken_self order hbound, fun jti hjti => by cases hjti⟩
  | jti jti => exact ⟨JwtCache.refuses_revokeToken_self order hbound, fun _ _ => rfl⟩

theorem Revoked.revoke {hashing : Hashing H} {subject' : Subject}
    {untilEpochSecs : Nat} (h : Revoked hashing subject bound cache)
    (hkeep : cache.KeepsRow hashing order nowEpoch (subject'.key hashing)
      (subject.key hashing)) :
    Revoked hashing subject bound
      (OriginState.revoke hashing order subject' untilEpochSecs nowEpoch cache) := by
  cases subject' with
  | token token => exact ⟨h.refuses.revokeToken _ hkeep, h.flagged⟩
  | jti jti =>
    have hflagged : ({ cache with hasRevokedJtis := true } : JwtCache H).Refuses hashing
        (subject.key hashing) bound := h.refuses
    exact ⟨hflagged.revokeToken _ hkeep, fun _ _ => rfl⟩

theorem Revoked.advance (h : Revoked env.hashing subject bound cache)
    (hkeep : AdvanceKeeps env origin order (subject.key env.hashing) e cache)
    (hadvance : OriginState.advance env origin order e cache = some (cache', stage)) :
    Revoked env.hashing subject bound cache' := by
  unfold OriginState.advance at hadvance
  split at hadvance
  · obtain ⟨rfl, -⟩ := Prod.mk.inj (Option.some.inj hadvance)
    exact h
  · obtain ⟨rfl, -⟩ := Prod.mk.inj (Option.some.inj hadvance)
    exact h
  · obtain ⟨rfl, -⟩ := Prod.mk.inj (Option.some.inj hadvance)
    exact h
  · rename_i verified hstage
    have hroom := hkeep.1 (by rw [hstage]; rfl)
    split at hadvance
    · obtain ⟨rfl, -⟩ := Prod.mk.inj (Option.some.inj hadvance)
      exact ⟨h.refuses.revokeToken _ hroom, h.flagged⟩
    · rename_i headers hproject
      obtain ⟨rfl, -⟩ := Prod.mk.inj (Option.some.inj hadvance)
      have hother := hkeep.2 (by rw [hstage, accepts, hproject]; rfl)
      exact ⟨h.refuses.insertPositive hother _ _ _ hroom, h.flagged⟩
  · rename_i hstage
    have hroom := hkeep.1 (by rw [hstage]; rfl)
    obtain ⟨rfl, -⟩ := Prod.mk.inj (Option.some.inj hadvance)
    exact ⟨h.refuses.revokeToken _ hroom, h.flagged⟩
  · cases hadvance

theorem Revoked.step (h : Revoked env.hashing subject bound s.cache)
    (hkeep : Preserves env origin (subject.key env.hashing) s action)
    (hstep : OriginState.step env origin s action = some t) :
    Revoked env.hashing subject bound t.cache := by
  cases step_outcome hstep with
  | start => exact h
  | advance hcall hadvance => exact h.advance (hkeep _ hcall) hadvance
  | revoke => exact h.revoke hkeep

/-! ## Evaluations that begin later -/

theorem safe_lookupStage (hfree : CollisionFree env.hashing) (hcoherent : Coherent env origin cache)
    (hrevoked : Revoked env.hashing subject bound cache)
    (hconcerns : subject.Concerns env origin e.token) (hnow : e.nowEpoch < bound) :
    Safe subject (lookupStage env e cache) := by
  unfold lookupStage
  cases subject with
  | token token =>
    have hpresented : e.token = token := hconcerns
    have hlookup := JwtCache.lookup_of_refuses hrevoked.refuses hnow
    rw [Subject.key] at hlookup
    rw [hpresented, hlookup]
    intro headers
    simp
  | jti jti =>
    obtain ⟨payload, hopen, hjti⟩ := hconcerns
    split
    · intro headers
      simp
    · rename_i headers hlookup
      obtain ⟨cachedToken, jtiHash, hhash, ⟨payload', hopen', -, rfl⟩, hpass⟩ :=
        hcoherent.describes_of_lookup hlookup
      rw [hfree.token_injective hhash, hopen] at hopen'
      obtain rfl := Option.some.inj hopen'
      have hpassed := hpass (hrevoked.flagged jti rfl) (env.hashing.hashJti jti)
        (by rw [hjti]; rfl)
      have hrefused := JwtCache.isNegative_of_refuses hrevoked.refuses hnow
      rw [Subject.key, hpassed] at hrefused
      cases hrefused
    · exact ⟨jti, rfl⟩

theorem safe_advance (hfree : CollisionFree env.hashing)
    (hcoherent : Coherent env origin cache) (hrevoked : Revoked env.hashing subject bound cache)
    (hconcerns : subject.Concerns env origin e.token) (hnow : e.nowEpoch < bound)
    (hsafe : Safe subject e.stage)
    (h : advance env origin order e cache = some (cache', stage)) : Safe subject stage := by
  unfold advance at h
  split at h
  · obtain ⟨-, rfl⟩ := Prod.mk.inj (Option.some.inj h)
    exact safe_lookupStage hfree hcoherent hrevoked hconcerns hnow
  · rename_i hstage
    obtain ⟨-, rfl⟩ := Prod.mk.inj (Option.some.inj h)
    rw [hstage] at hsafe
    obtain ⟨jti, rfl⟩ := hsafe
    exact safe_signatureStage hconcerns
  · rename_i verified hstage
    obtain ⟨-, rfl⟩ := Prod.mk.inj (Option.some.inj h)
    rw [hstage] at hsafe
    obtain ⟨jti, rfl, hjti⟩ := hsafe
    have hrefused : jtiRevoked env verified e.nowEpoch cache = true := by
      rw [jtiRevoked, hjti]
      exact JwtCache.isNegative_of_refuses hrevoked.refuses hnow
    rw [if_pos hrefused]
    trivial
  · rename_i verified hstage
    rw [hstage] at hsafe
    exact hsafe.elim
  · obtain ⟨-, rfl⟩ := Prod.mk.inj (Option.some.inj h)
    intro headers
    simp
  · cases h

/-- The invariant of a run after a revocation: `known` has the evaluations that had begun
before. -/
structure AfterRevocation (env : Environment H K) (origin : OriginPolicy K) (subject : Subject)
    (bound : Nat) (known : Nat → Option Evaluation) (s : OriginState H) : Prop where
  sound : Sound env origin s
  revoked : Revoked env.hashing subject bound s.cache
  safe : ∀ id e, known id = none → s.calls id = some e →
    subject.Concerns env origin e.token → e.nowEpoch < bound → Safe subject e.stage

theorem AfterRevocation.step (hfree : CollisionFree env.hashing) {known : Nat → Option Evaluation}
    (h : AfterRevocation env origin subject bound known s)
    (hkeep : Preserves env origin (subject.key env.hashing) s action)
    (hstep : OriginState.step env origin s action = some t) :
    AfterRevocation env origin subject bound known t := by
  refine ⟨sound_step h.sound hstep, h.revoked.step hkeep hstep, ?_⟩
  intro id e hknown hcall hconcerns hnow
  cases step_outcome hstep with
  | start =>
    rcases calls_put hcall with ⟨-, rfl⟩ | ⟨-, hold⟩
    · trivial
    · exact h.safe id e hknown hold hconcerns hnow
  | @advance _ _ old _ _ hbefore hadvance =>
    rcases calls_put hcall with ⟨rfl, rfl⟩ | ⟨-, hold⟩
    · have hsafe : Safe subject old.stage := h.safe id old hknown hbefore hconcerns hnow
      have hconcernsOld : subject.Concerns env origin old.token := hconcerns
      exact safe_advance hfree h.sound.coherent h.revoked hconcernsOld hnow hsafe hadvance
    · exact h.safe id e hknown hold hconcerns hnow
  | revoke => exact h.safe id e hknown hcall hconcerns hnow

/-- An evaluation that begins after a revocation and runs before the revocation expires
does not let a concerned token pass, as long as the row of the revocation stays in place. -/
theorem revoked_stays_refused (hfree : CollisionFree env.hashing) {input : OriginInput}
    {armOrder : RowOrder H} {armedAt : Nat} {cache : JwtCache H}
    (hcache : compileCache env armOrder armedAt input = some cache)
    {before : List (OriginAction H)} {s : OriginState H}
    (hbefore : RunsUnder (step env origin) (fun _ _ => True) (start cache) before s)
    (subject : Subject) (bound nowEpoch : Nat) (order : RowOrder H)
    {rest : List (OriginAction H)} {t : OriginState H}
    (hrest : RunsUnder (step env origin) (Preserves env origin (subject.key env.hashing))
      { s with cache := revoke env.hashing order subject bound nowEpoch s.cache } rest t)
    {id : Nat} {e : Evaluation} (hlater : s.calls id = none) (hcall : t.calls id = some e)
    (hconcerns : subject.Concerns env origin e.token) (hnow : e.nowEpoch < bound)
    (headers : ForwardedHeaders) : e.stage ≠ .done (.ok (.allow headers)) := by
  have hstart : Sound env origin (start cache) :=
    ⟨coherent_compileCache hcache, fun id e hcall => by cases hcall⟩
  have hsound : Sound env origin s :=
    hbefore.invariant (fun hinv _ hstep => sound_step hinv hstep) hstart
  have hinit : AfterRevocation env origin subject bound s.calls
      { s with cache := revoke env.hashing order subject bound nowEpoch s.cache } := by
    refine ⟨⟨coherent_revoke hsound.coherent _ _ _ _, hsound.honest⟩,
      Revoked.of_revoke order (by rw [JwtCache.revokeExpire, if_pos (by omega)]), ?_⟩
    intro id e hknown hcall
    rw [hknown] at hcall
    cases hcall
  have hafter : AfterRevocation env origin subject bound s.calls t :=
    hrest.invariant (fun hinv hkeep hstep => hinv.step hfree hkeep hstep) hinit
  have hsafe := hafter.safe id e hlater hcall hconcerns hnow
  intro hallowed
  rw [hallowed] at hsafe
  exact hsafe headers rfl

/-! ## Evaluations that nothing comes between -/

def drive (env : Environment H K) (origin : OriginPolicy K) (order : RowOrder H) :
    Nat → Evaluation → JwtCache H → JwtCache H × Stage
  | 0, e, cache => (cache, e.stage)
  | fuel + 1, e, cache =>
    match advance env origin order e cache with
    | none => (cache, e.stage)
    | some (cache, stage) => drive env origin order fuel (e.at stage) cache

theorem drive_eq_evaluateToken (order : RowOrder H) (token : Bytes) (nowEpoch : Nat)
    (cache : JwtCache H) :
    drive env origin order 4 ⟨token, nowEpoch, .begun⟩ cache =
      ((evaluateToken env origin order token nowEpoch (some cache)).1.getD cache,
        .done (evaluateToken env origin order token nowEpoch (some cache)).2) := by
  unfold evaluateToken
  cases hlookup : cache.lookup env.hashing (env.hashing.hashToken token) nowEpoch with
  | hitDeny => simp [drive, advance, lookupStage, cached, hlookup, Evaluation.at]
  | hitAllow headers => simp [drive, advance, lookupStage, cached, hlookup, Evaluation.at]
  | miss =>
    cases hcheck : checkSignature env origin nowEpoch token with
    | invalidRequest =>
      simp [drive, advance, lookupStage, signatureStage, cached, hlookup, hcheck,
        Evaluation.at]
    | refused =>
      simp [drive, advance, lookupStage, signatureStage, cached, hlookup, hcheck,
        Evaluation.at]
    | verified verified =>
      cases hjti : jtiRevoked env verified nowEpoch cache with
      | true =>
        simp [drive, advance, lookupStage, signatureStage, cached, hlookup, hcheck, hjti,
          Evaluation.at]
      | false =>
        cases hproject :
            projectClaims env.prims verified.payload origin.claimRules with
        | none =>
          simp [drive, advance, lookupStage, signatureStage, cached, hlookup, hcheck,
            hjti, hproject, Evaluation.at]
        | some headers =>
          simp [drive, advance, lookupStage, signatureStage, cached, hlookup, hcheck,
            hjti, hproject, Evaluation.at]

theorem Revoked.evaluateToken_ne_allow (hfree : CollisionFree env.hashing) {token : Bytes}
    (h : Revoked env.hashing subject bound cache) (hcoherent : Coherent env origin cache)
    (hconcerns : subject.Concerns env origin token)
    (hnow : nowEpoch < bound) (order : RowOrder H) (headers : ForwardedHeaders) :
    (evaluateToken env origin order token nowEpoch (some cache)).2 ≠ .ok (.allow headers) := by
  have hsafe : Safe subject (lookupStage env ⟨token, nowEpoch, .begun⟩ cache) :=
    safe_lookupStage hfree hcoherent h hconcerns hnow
  have houtcome := evaluateToken_outcome env origin order token nowEpoch (some cache)
  generalize evaluateToken env origin order token nowEpoch (some cache) = result at houtcome
  cases houtcome with
  | hitDeny | invalidRequest | refused => simp
  | @hitAllow found hcached =>
    have hlookup : lookupStage env ⟨token, nowEpoch, .begun⟩ cache =
        .done (.ok (.allow found)) := by
      unfold lookupStage
      rw [show cache.lookup env.hashing (env.hashing.hashToken token) nowEpoch =
        .hitAllow found from hcached]
    rw [hlookup] at hsafe
    exact absurd rfl (hsafe found)
  | verified hmiss hcheck hjti =>
    have hlookup : lookupStage env ⟨token, nowEpoch, .begun⟩ cache = .missed := by
      unfold lookupStage
      rw [show cache.lookup env.hashing (env.hashing.hashToken token) nowEpoch =
        .miss from hmiss]
    rw [hlookup] at hsafe
    obtain ⟨jti, rfl⟩ := hsafe
    have hchecked : Safe (.jti jti) (signatureStage env origin ⟨token, nowEpoch, .begun⟩) :=
      safe_signatureStage hconcerns
    rw [signatureStage, hcheck] at hchecked
    obtain ⟨_, hsame, hverified⟩ := hchecked
    obtain rfl := Subject.jti.inj hsame
    have hrefused := JwtCache.isNegative_of_refuses h.refuses hnow
    simp only [Option.any_some, jtiRevoked, hverified] at hjti
    rw [Subject.key, hjti] at hrefused
    cases hrefused

/-- An evaluation before the revocation expires leaves it in place, provided that it does
not have to make room for the insertion. -/
theorem Revoked.evaluateToken (hfree : CollisionFree env.hashing) {token : Bytes}
    {after : JwtCache H}
    (h : Revoked env.hashing subject bound cache) (hnow : nowEpoch < bound)
    (hkeep : cache.KeepsRow env.hashing order nowEpoch (env.hashing.hashToken token)
      (subject.key env.hashing))
    (hafter : (Jwt.evaluateToken env origin order token nowEpoch (some cache)).1 = some after) :
    Revoked env.hashing subject bound after := by
  refine evaluateToken_keeps hafter h ⟨h.refuses.revokeToken _ hkeep, h.flagged⟩
    fun hmiss _ _ => ?_
  have hother : subject.key env.hashing ≠ env.hashing.hashToken token := by
    cases subject with
    | token revoked =>
      intro hsame
      have hdeny := JwtCache.lookup_of_refuses h.refuses hnow
      rw [hsame, show cache.lookup env.hashing (env.hashing.hashToken token) nowEpoch =
        .miss from hmiss] at hdeny
      cases hdeny
    | jti jti => exact (hfree.token_ne_jti token jti).symm
  exact ⟨h.refuses.insertPositive hother _ _ _ hkeep, h.flagged⟩

end OriginState

/-! ## A revocation that is overwritten -/

def sessionToken : Bytes := ascii "h.p.s"

def storedOrder : RowOrder (Bytes ⊕ Bytes) := .asStored _ _

def sessionEnvironment : Environment (Bytes ⊕ Bytes) Unit :=
  transparentEnvironment ⟨1, 1, [sessionOrigin]⟩

theorem collisionFree_tagged : CollisionFree taggedHashing :=
  ⟨Sum.inl_injective, Sum.inr_injective, fun _ _ => Sum.inl_ne_inr⟩

def sessionCache : JwtCache (Bytes ⊕ Bytes) := .new 16 1024 300 30

theorem compileCache_session :
    compileCache sessionEnvironment storedOrder 1000 sessionOrigin = some sessionCache := by
  rfl

abbrev sessionStep : OriginState (Bytes ⊕ Bytes) → OriginAction (Bytes ⊕ Bytes) →
    Option (OriginState (Bytes ⊕ Bytes)) :=
  OriginState.step sessionEnvironment (sessionPolicy [])

def revokeSession (s : OriginState (Bytes ⊕ Bytes)) : OriginState (Bytes ⊕ Bytes) :=
  { s with
    cache := OriginState.revoke sessionEnvironment.hashing storedOrder (.token sessionToken)
      2000 1000 s.cache }

theorem revoked_session_refused :
    ∃ t e, RunsUnder sessionStep (OriginState.Preserves sessionEnvironment (sessionPolicy [])
        (.inl sessionToken)) (revokeSession (.start sessionCache))
        [.start 1 sessionToken 1001, .advance 1 storedOrder] t ∧
      t.calls 1 = some e ∧ ∀ headers, e.stage ≠ .done (.ok (.allow headers)) := by
  have hrest : ∃ t e, RunsUnder sessionStep
      (OriginState.Preserves sessionEnvironment (sessionPolicy []) (.inl sessionToken))
      (revokeSession (.start sessionCache))
      [.start 1 sessionToken 1001, .advance 1 storedOrder] t ∧
      t.calls 1 = some e ∧ e.token = sessionToken ∧ e.nowEpoch = 1001 :=
    ⟨_, _, .of_check rfl, rfl, rfl, rfl⟩
  obtain ⟨t, e, hrun, hcall, htoken, hnow⟩ := hrest
  exact ⟨t, e, hrun, hcall, OriginState.revoked_stays_refused collisionFree_tagged
    compileCache_session (.nil _) (.token sessionToken) 2000 1000 storedOrder hrun rfl hcall
    htoken (by omega)⟩

/-- An evaluation that was past its lookup when the session was revoked enters the session
as verified, and the next one lets it pass. -/
theorem revoked_session_allowed :
    ∃ s t e, execute sessionStep (.start sessionCache)
        [.start 0 sessionToken 1000, .advance 0 storedOrder, .advance 0 storedOrder,
          .advance 0 storedOrder] = some s ∧
      s.calls 1 = none ∧
      execute sessionStep (revokeSession s)
        [.advance 0 storedOrder, .start 1 sessionToken 1001, .advance 1 storedOrder] = some t ∧
      t.calls 1 = some e ∧ e.token = sessionToken ∧ e.nowEpoch < 2000 ∧
      e.stage = .done (.ok (.allow [])) :=
  ⟨_, _, _, rfl, rfl, rfl, rfl, rfl, by decide, rfl⟩

end AuroraGateway.Jwt
