import AuroraGateway.Jwt.Engine
import Mathlib.Algebra.Order.Field.Rat
import Mathlib.Data.Rat.Floor
import Mathlib.Tactic.Linarith

/-!
# Enforcement of claims

A token that is accepted passed the checks of its time, issuer and audience.
The checks look at the integer part of a time, take a time that is not a
number for an absent one, and do not look at payloads that are not JSON.
-/

namespace AuroraGateway.Jwt

open Foundation VerifiedPayload

variable {K : Type} {prims : Primitives K} {checks : TokenChecks K}

/-! ## Claims of a payload -/

/-- A payload that is not JSON has no claims. -/
def VerifiedPayload.claim (name : String) : VerifiedPayload → Option Json
  | .json value => value.get? (ascii name)
  | .raw _ => none

/-- The number that a value stands for, also when it is written as a string. -/
def numericValue (prims : Primitives K) : Json → Option ℚ
  | .number (.posInt n) => some n.toNat
  | .number (.negInt n) => some n
  | .number (.float f) => some f
  | .string s => ((parseU64 (trim s)).map fun n : Nat => (n : ℚ)).or (prims.parseF64 (trim s))
  | _ => none

structure Enforced (prims : Primitives K) (checks : TokenChecks K) (nowEpoch : Nat)
    (payload : VerifiedPayload) : Prop where
  exp : checks.validateExp = true → ∀ v, payload.claim "exp" = some v →
    ∃ e, numericValue prims v = some e ∧ (nowEpoch : ℚ) ≤ e + checks.clockSkewSecs
  requireExp : checks.requireExp = true → (payload.claim "exp").isSome = true
  nbf : checks.validateNbf = true → ∀ v n, payload.claim "nbf" = some v →
    numericValue prims v = some n → n ≤ (nowEpoch : ℚ) + checks.clockSkewSecs
  issuer : ∀ issuer ∈ checks.issuer, issuer ≠ [] → payload.claim "iss" = some (.string issuer)
  audience : ∀ audience ∈ checks.audience, audience ≠ [] →
    payload.claim "aud" = some (.string audience) ∨
      ∃ items, payload.claim "aud" = some (.array items) ∧ .string audience ∈ items

structure Checkable (prims : Primitives K) (checks : TokenChecks K) (nowEpoch : Nat)
    (payload : VerifiedPayload) : Prop where
  /-- The expiration is a number, and one before second 1 is not in the past. -/
  exp : checks.validateExp = true → ∀ v, payload.claim "exp" = some v →
    ∃ e, numericValue prims v = some e ∧ (e < 1 → (nowEpoch : ℚ) ≤ e + checks.clockSkewSecs)
  /-- A time that is not an integer of 64 bits is not in the future. -/
  nbf : checks.validateNbf = true → ∀ v n, payload.claim "nbf" = some v →
    numericValue prims v = some n → (∀ k : Nat, k < 2 ^ 64 → n ≠ k) →
      n ≤ (nowEpoch : ℚ) + checks.clockSkewSecs
  /-- Issuer and audience are configured for JSON payloads. -/
  format : (∃ issuer ∈ checks.issuer, issuer ≠ []) ∨ (∃ audience ∈ checks.audience, audience ≠ []) →
    checks.payloadFormat = .json

/-! ## Times -/

theorem satU64_floor_le {f : ℚ} (h : 0 ≤ f) : (satU64 f.floor : ℚ) ≤ f := by
  have hfloor : 0 ≤ f.floor := Rat.le_floor_iff.mpr (by simpa using h)
  have hnat : ((f.floor.toNat : Int) : ℚ) ≤ f := by
    rw [Int.toNat_of_nonneg hfloor]
    exact Rat.le_floor_iff.mp le_rfl
  have hmin : satU64 f.floor ≤ f.floor.toNat := min_le_left _ _
  calc (satU64 f.floor : ℚ) ≤ (f.floor.toNat : ℚ) := by exact_mod_cast hmin
    _ ≤ f := by exact_mod_cast hnat

theorem satU64_floor_pos {f : ℚ} (h : 1 ≤ f) : 0 < satU64 f.floor := by
  have hfloor : 1 ≤ f.floor := Rat.le_floor_iff.mpr (by simpa using h)
  unfold satU64 u64Max
  omega

theorem epochOfFloat_of_one_le {f : ℚ} (h : 1 ≤ f) :
    (∃ k, epochOfFloat f = some k ∧ 0 < k ∧ (k : ℚ) ≤ f) ∨ (2 ^ 64 : ℚ) < f := by
  rcases le_or_gt f (2 ^ 64) with hle | hgt
  · have hnonneg : 0 ≤ f := zero_le_one.trans h
    refine .inl ⟨satU64 f.floor, ?_, satU64_floor_pos h, satU64_floor_le hnonneg⟩
    exact if_pos ⟨hnonneg, by exact_mod_cast hle⟩
  · exact .inr hgt

theorem epochOfFloat_natCast {k : Nat} (h : k < 2 ^ 64) : epochOfFloat (k : ℚ) = some k := by
  have hrange : (0 : ℚ) ≤ k ∧ (k : ℚ) ≤ (2 ^ 64 : Nat) := by
    exact ⟨Nat.cast_nonneg k, by exact_mod_cast h.le⟩
  have hfloor : (k : ℚ).floor = k := Rat.floor_intCast k
  rw [epochOfFloat, if_pos hrange, hfloor, satU64, Int.toNat_natCast, min_eq_left]
  unfold u64Max
  omega

variable {v : Json} {payload : VerifiedPayload}

theorem parseEpochSecs_of_one_le {e : ℚ} (hvalue : numericValue prims v = some e) (he : 1 ≤ e) :
    (∃ k, parseEpochSecs prims v = some k ∧ 0 < k ∧ (k : ℚ) ≤ e) ∨ (2 ^ 64 : ℚ) < e := by
  cases v with
  | number number =>
    cases number with
    | posInt n =>
      obtain rfl := Option.some.inj hvalue
      exact .inl ⟨n.toNat, rfl, by exact_mod_cast he, le_rfl⟩
    | negInt n =>
      obtain rfl := Option.some.inj hvalue
      have hpositive : 1 ≤ n := by exact_mod_cast he
      refine .inl ⟨n.toNat, if_pos (by omega), by omega, le_of_eq ?_⟩
      exact_mod_cast Int.toNat_of_nonneg (zero_le_one.trans hpositive)
    | float f =>
      obtain rfl := Option.some.inj hvalue
      exact epochOfFloat_of_one_le he
  | string text =>
    rw [parseEpochSecs]
    cases hparse : parseU64 (trim text) with
    | some n =>
      rw [numericValue, hparse] at hvalue
      have hn : (n : ℚ) = e := Option.some.inj hvalue
      rw [← hn] at he ⊢
      exact .inl ⟨n, rfl, by exact_mod_cast he, le_rfl⟩
    | none =>
      rw [numericValue, hparse, Option.map_none, Option.none_or] at hvalue
      rw [hvalue]
      exact epochOfFloat_of_one_le he
  | null | bool _ | array _ | object _ => cases hvalue

theorem parseEpochSecs_of_nat {k : Nat} (hvalue : numericValue prims v = some (k : ℚ))
    (hk : k < 2 ^ 64) : parseEpochSecs prims v = some k := by
  cases v with
  | number number =>
    cases number with
    | posInt n =>
      have hn : n.toNat = k := by exact_mod_cast Option.some.inj hvalue
      rw [parseEpochSecs, hn]
    | negInt n =>
      have hn : n = k := by exact_mod_cast Option.some.inj hvalue
      rw [parseEpochSecs, if_pos (by omega), hn, Int.toNat_natCast]
    | float f =>
      rw [Option.some.inj hvalue]
      exact epochOfFloat_natCast hk
  | string text =>
    rw [parseEpochSecs]
    cases hparse : parseU64 (trim text) with
    | some n =>
      rw [numericValue, hparse] at hvalue
      have hn : (n : ℚ) = k := Option.some.inj hvalue
      rw [Option.some_or, Nat.cast_injective hn]
    | none =>
      rw [numericValue, hparse, Option.map_none, Option.none_or] at hvalue
      rw [hvalue]
      exact epochOfFloat_natCast hk
  | null | bool _ | array _ | object _ => cases hvalue

/-! ## Accepted tokens -/

structure Passes (prims : Primitives K) (checks : TokenChecks K) (nowEpoch : Nat)
    (payload : VerifiedPayload) : Prop where
  format : (∃ value, payload = .json value) ↔ checks.payloadFormat = .json
  requireExp : checks.requireExp = true → payload.exp prims ≠ 0
  exp : checks.validateExp = true → 0 < payload.exp prims →
    nowEpoch ≤ saturatingAdd (payload.exp prims) checks.clockSkewSecs
  nbf : checks.validateNbf = true → ∀ n ∈ payload.nbf prims,
    n ≤ saturatingAdd nowEpoch checks.clockSkewSecs
  issuer : ∀ issuer ∈ checks.issuer, issuer ≠ [] → payload.issuedBy issuer = true
  audience : ∀ audience ∈ checks.audience, audience ≠ [] → payload.intendedFor audience = true

theorem json_of_readPayload {format : PayloadFormat} {bytes : Bytes}
    (h : readPayload prims format bytes = some payload) :
    (∃ value, payload = .json value) ↔ format = .json := by
  cases format with
  | json =>
    obtain ⟨value, -, rfl⟩ := Option.map_eq_some_iff.mp h
    simp
  | raw =>
    obtain ⟨-, h⟩ := Option.ite_none_right_eq_some.mp h
    obtain rfl := Option.some.inj h
    simp

theorem exists_of_openToken {token : Bytes} (h : openToken prims checks token = some payload) :
    ∃ bytes, readPayload prims checks.payloadFormat bytes = some payload := by
  unfold openToken at h
  split at h
  · obtain ⟨-, h⟩ := Option.ite_none_left_eq_some.mp h
    obtain ⟨_, -, h⟩ := Option.bind_eq_some_iff.mp h
    obtain ⟨_, -, h⟩ := Option.bind_eq_some_iff.mp h
    obtain ⟨_, -, h⟩ := Option.bind_eq_some_iff.mp h
    obtain ⟨_, -, h⟩ := Option.bind_eq_some_iff.mp h
    obtain ⟨_, -, h⟩ := Option.bind_eq_some_iff.mp h
    obtain ⟨bytes, -, h⟩ := Option.bind_eq_some_iff.mp h
    exact ⟨bytes, h⟩
  · cases h

theorem passes_of_verifyJwt {nowEpoch : Nat} {token : Bytes} {verified : VerifiedToken}
    (h : verifyJwt prims checks nowEpoch token = some verified) :
    Passes prims checks nowEpoch verified.payload := by
  obtain ⟨payload, hpayload, rfl⟩ := Option.map_eq_some_iff.mp h
  obtain ⟨hopen, hholds⟩ := Option.filter_eq_some_iff.mp hpayload
  obtain ⟨bytes, hread⟩ := exists_of_openToken hopen
  unfold claimsHold at hholds
  simp only [Bool.and_eq_true, Bool.not_eq_true', Bool.and_eq_false_iff,
    decide_eq_false_iff_not] at hholds
  obtain ⟨⟨⟨⟨hrequire, hexp⟩, hnbf⟩, hissuer⟩, haudience⟩ := hholds
  refine ⟨json_of_readPayload hread, ?_, ?_, ?_, ?_, ?_⟩
  · intro henabled
    exact hrequire.resolve_left (by simp [henabled])
  · intro henabled hpositive
    rcases hexp with (hdisabled | hzero) | hle
    · rw [henabled] at hdisabled
      cases hdisabled
    · exact absurd hpositive hzero
    · exact not_lt.mp hle
  · intro henabled n hn
    have hnone := hnbf.resolve_left (by simp [henabled])
    simp only [Option.mem_def] at hn
    simpa [hn] using hnone
  · intro issuer hmem hne
    simp only [Option.mem_def] at hmem
    simpa [hmem, hne] using hissuer
  · intro audience hmem hne
    simp only [Option.mem_def] at hmem
    simpa [hmem, hne] using haudience

/-! ## Checks and claims -/

variable {nowEpoch : Nat} {payload : VerifiedPayload}

theorem exp_eq (h : payload.claim "exp" = some v) :
    payload.exp prims = (parseEpochSecs prims v).getD 0 := by
  cases payload with
  | json value => rw [exp, show value.get? (ascii "exp") = some v from h]; rfl
  | raw text => cases h

theorem claim_isSome_of_exp (h : payload.exp prims ≠ 0) :
    (payload.claim "exp").isSome = true := by
  cases payload with
  | json value =>
    rw [claim]
    cases hclaim : value.get? (ascii "exp") with
    | none => simp [exp, hclaim] at h
    | some v => rfl
  | raw text => exact absurd rfl h

theorem nbf_eq (h : payload.claim "nbf" = some v) :
    payload.nbf prims = parseEpochSecs prims v := by
  cases payload with
  | json value => rw [nbf, show value.get? (ascii "nbf") = some v from h]; rfl
  | raw text => cases h

theorem claim_of_issuedBy {value : Json} {issuer : Bytes} (hne : issuer ≠ [])
    (h : (json value).issuedBy issuer = true) :
    (json value).claim "iss" = some (.string issuer) := by
  have hissuer : ((value.get? (ascii "iss")).bind Json.asStr).getD [] = issuer :=
    of_decide_eq_true h
  rw [claim]
  cases hclaim : value.get? (ascii "iss") with
  | none => exact absurd (by rw [← hissuer, hclaim]; rfl) hne
  | some v =>
    rw [hclaim] at hissuer
    cases v with
    | string text => rw [← hissuer]; rfl
    | _ => exact absurd hissuer.symm hne

theorem claim_of_intendedFor {value : Json} {audience : Bytes}
    (h : (json value).intendedFor audience = true) :
    (json value).claim "aud" = some (.string audience) ∨
      ∃ items, (json value).claim "aud" = some (.array items) ∧
        .string audience ∈ items := by
  unfold intendedFor at h
  dsimp only at h
  split at h
  · rename_i text hclaim
    obtain rfl := of_decide_eq_true h
    exact .inl hclaim
  · rename_i items hclaim
    obtain ⟨item, hitem, heq⟩ := List.any_eq_true.mp h
    refine .inr ⟨items, hclaim, ?_⟩
    cases item with
    | string text =>
      obtain rfl := Option.some.inj (of_decide_eq_true heq)
      exact hitem
    | _ => cases of_decide_eq_true heq
  · cases h

theorem le_add_of_le_saturatingAdd {n a b : Nat} (h : n ≤ saturatingAdd a b) : n ≤ a + b :=
  h.trans (min_le_left _ _)

theorem Passes.exp_le (h : Passes prims checks nowEpoch payload) (hnow : nowEpoch < 2 ^ 64)
    (henabled : checks.validateExp = true) (hclaim : payload.claim "exp" = some v) {e : ℚ}
    (hvalue : numericValue prims v = some e) (he : 1 ≤ e) :
    (nowEpoch : ℚ) ≤ e + checks.clockSkewSecs := by
  rcases parseEpochSecs_of_one_le hvalue he with ⟨k, hparse, hpositive, hle⟩ | hlarge
  · have hexp : payload.exp prims = k := by rw [exp_eq hclaim, hparse, Option.getD_some]
    have hchecked := le_add_of_le_saturatingAdd (h.exp henabled (hexp ▸ hpositive))
    rw [hexp] at hchecked
    have hcast : (nowEpoch : ℚ) ≤ k + checks.clockSkewSecs := by exact_mod_cast hchecked
    linarith
  · have hcast : (nowEpoch : ℚ) < 2 ^ 64 := by exact_mod_cast hnow
    linarith

theorem Passes.nbf_le (h : Passes prims checks nowEpoch payload)
    (henabled : checks.validateNbf = true) (hclaim : payload.claim "nbf" = some v) {k : Nat}
    (hk : k < 2 ^ 64) (hvalue : numericValue prims v = some (k : ℚ)) :
    (k : ℚ) ≤ nowEpoch + checks.clockSkewSecs := by
  have hnbf : payload.nbf prims = some k :=
    (nbf_eq hclaim).trans (parseEpochSecs_of_nat hvalue hk)
  exact_mod_cast le_add_of_le_saturatingAdd (h.nbf henabled k hnbf)

/-- A token that is accepted at a time that a 64-bit clock shows. -/
structure AcceptedToken (K : Type) where
  prims : Primitives K
  checks : TokenChecks K
  nowEpoch : Nat
  nowEpoch_lt : nowEpoch < 2 ^ 64
  token : Bytes
  verified : VerifiedToken
  accepted : verifyJwt prims checks nowEpoch token = some verified

/-- The payload of an accepted token satisfies every check that is enabled exactly if it
satisfies what the checks do not see to. -/
theorem AcceptedToken.claims_enforced_iff (t : AcceptedToken K) :
    Enforced t.prims t.checks t.nowEpoch t.verified.payload ↔
      Checkable t.prims t.checks t.nowEpoch t.verified.payload := by
  have hpasses := passes_of_verifyJwt t.accepted
  constructor
  · intro h
    refine ⟨fun henabled v hclaim => ?_, fun henabled v n hclaim hvalue _ => ?_, fun hconf => ?_⟩
    · obtain ⟨e, hvalue, hle⟩ := h.exp henabled v hclaim
      exact ⟨e, hvalue, fun _ => hle⟩
    · exact h.nbf henabled v n hclaim hvalue
    · -- A payload with a claim is JSON.
      have hjson : ∀ name v, t.verified.payload.claim name = some v →
          t.checks.payloadFormat = .json := by
        intro name v hclaim
        refine hpasses.format.mp ?_
        cases hpayload : t.verified.payload with
        | json value => exact ⟨value, rfl⟩
        | raw text =>
          rw [hpayload] at hclaim
          cases hclaim
      rcases hconf with ⟨issuer, hmem, hne⟩ | ⟨audience, hmem, hne⟩
      · exact hjson _ _ (h.issuer issuer hmem hne)
      · rcases h.audience audience hmem hne with hclaim | ⟨items, hclaim, -⟩
        · exact hjson _ _ hclaim
        · exact hjson _ _ hclaim
  · intro h
    refine ⟨fun henabled v hclaim => ?_, fun henabled => ?_, fun henabled v n hclaim hvalue => ?_,
      fun issuer hmem hne => ?_, fun audience hmem hne => ?_⟩
    · obtain ⟨e, hvalue, hearly⟩ := h.exp henabled v hclaim
      refine ⟨e, hvalue, ?_⟩
      rcases lt_or_ge e 1 with hlt | hge
      · exact hearly hlt
      · exact hpasses.exp_le t.nowEpoch_lt henabled hclaim hvalue hge
    · exact claim_isSome_of_exp (hpasses.requireExp henabled)
    · by_cases hinteger : ∃ k : Nat, k < 2 ^ 64 ∧ n = k
      · obtain ⟨k, hk, rfl⟩ := hinteger
        exact hpasses.nbf_le henabled hclaim hk hvalue
      · exact h.nbf henabled v n hclaim hvalue fun k hk heq => hinteger ⟨k, hk, heq⟩
    · obtain ⟨value, hvalue⟩ := hpasses.format.mpr (h.format (.inl ⟨issuer, hmem, hne⟩))
      have hchecked := hpasses.issuer issuer hmem hne
      rw [hvalue] at hchecked ⊢
      exact claim_of_issuedBy hne hchecked
    · obtain ⟨value, hvalue⟩ := hpasses.format.mpr (h.format (.inr ⟨audience, hmem, hne⟩))
      have hchecked := hpasses.audience audience hmem hne
      rw [hvalue] at hchecked ⊢
      exact claim_of_intendedFor hchecked

/-! ## Tokens that pass -/

def neverExpires : Json := .object [(ascii "exp", .string (ascii "never"))]

def neverText : Bytes := ascii "\x7b\"exp\":\"never\"\x7d"

def neverPrimitives : Primitives Unit :=
  { transparentPrimitives with
    parseJson := fun text => if text = neverText then some neverExpires else none }

def neverToken : AcceptedToken Unit where
  prims := neverPrimitives
  checks := (sessionPolicy []).checks
  nowEpoch := 1000
  nowEpoch_lt := by decide
  token := ascii "h." ++ neverText ++ ascii ".s"
  verified := ⟨.json neverExpires, 0, none⟩
  accepted := by rfl

/-- An expiration that is not a number counts as none. -/
theorem unreadable_expiration_accepted :
    verifyJwt neverPrimitives (sessionPolicy []).checks 1000 neverToken.token =
        some ⟨.json neverExpires, 0, none⟩ ∧
      ¬Enforced neverPrimitives (sessionPolicy []).checks 1000 (.json neverExpires) := by
  refine ⟨neverToken.accepted, fun h => ?_⟩
  obtain ⟨e, hvalue, -⟩ := h.exp rfl (.string (ascii "never")) rfl
  cases hvalue

end AuroraGateway.Jwt
