import AuroraGateway.IpRestriction.Snapshot
import AuroraGateway.ResourceLimit.Limiter

/-!
# Compilation of a resource limit policy

The rules are sorted by priority, host and id, and the first rule that covers a
request governs it.  A limit of zero is no limit; it is compiled to the greatest
number that the comparison of the processor can hold.
-/

namespace AuroraGateway.ResourceLimit

open Engine Foundation
open IpRestriction (maxPolicyBytes pathPrefixValid)

/-! ## Snapshots -/

structure ResourceLimitRuleInput where
  id : Text
  priority : UInt32
  origin : Text
  pathPrefix : Text
  /-- Of the request line and the headers, in bytes; zero is no limit. -/
  headerLimit : UInt64
  /-- Of the body, in bytes; zero is no limit. -/
  payloadLimit : UInt64
  rejectedCodeHeader : UInt16
  rejectedCodePayload : UInt16
  responseBodyHeader : Text
  responseBodyPayload : Text

structure ResourceLimitSnapshot where
  schemaVersion : UInt32
  generation : UInt64
  rules : List ResourceLimitRuleInput

structure Environment where
  parseSnapshot : Bytes → Option ResourceLimitSnapshot
  comparator : Comparator

variable (rule : ResourceLimitRuleInput) (limit : UInt64)

def rawLimit : Nat := if 0 < limit.toNat then limit.toNat else 2 ^ 64 - 1

def effectiveLimit : Int :=
  if 0 < limit.toNat then min limit.toNat i64Max else i64Max

def ResourceLimitRuleInput.statusTable : Fin 4 → Nat
  | 0 => 200
  | 1 => rule.rejectedCodeHeader.toNat
  | 2 => rule.rejectedCodePayload.toNat
  | 3 => rule.rejectedCodeHeader.toNat

def compileRule : Except Error CompiledResourceRule :=
  match HostMatcher.parse rule.origin.bytes with
  | none => .error .invalidPolicy
  | some host =>
    if !pathPrefixValid rule.pathPrefix.bytes then .error .invalidPolicy
    else
      .ok
        { id := rule.id.bytes
          priority := rule.priority.toNat
          host := host
          pathPrefix := rule.pathPrefix.bytes
          rawHeaderLimit := rawLimit rule.headerLimit
          rawPayloadLimit := rawLimit rule.payloadLimit
          effectiveHeaderLimit := effectiveLimit rule.headerLimit
          effectivePayloadLimit := effectiveLimit rule.payloadLimit
          statusTable := rule.statusTable
          responseBodyHeader := rule.responseBodyHeader.bytes
          responseBodyPayload := rule.responseBodyPayload.bytes }

def ruleOrder : RuleOrder :=
  ruleOrderKey rule.priority rule.origin.bytes rule.id.bytes

def compileSnapshot (env : Environment) (snapshot : ResourceLimitSnapshot) :
    Except Error ResourceLimiter := do
  if snapshot.schemaVersion ≠ 1 then .error .invalidPolicy
  else if 64 < snapshot.rules.length then .error .invalidPolicy
  else if !checkIds [] (snapshot.rules.map fun rule => rule.id.bytes) then .error .invalidPolicy
  else
    let rules ← (sortByKey ruleOrder snapshot.rules).mapM compileRule
    .ok ⟨snapshot.generation.toNat, rules, env.comparator⟩

def ResourceLimiter.fromSnapshot (env : Environment) (bytes : Bytes) :
    Except Error ResourceLimiter :=
  if bytes.isEmpty || maxPolicyBytes < bytes.length then .error .invalidPolicy
  else
    match env.parseSnapshot bytes with
    | none => .error .invalidPolicy
    | some snapshot => compileSnapshot env snapshot

/-! ## The rule that governs a request -/

def ResourceLimitRuleInput.covers (host path : Bytes) : Bool :=
  ((HostMatcher.parse rule.origin.bytes).any fun matcher => matcher.matches host) &&
    matchesPath rule.pathPrefix.bytes path

def ResourceLimitSnapshot.governing (snapshot : ResourceLimitSnapshot) (host path : Bytes) :
    Option ResourceLimitRuleInput :=
  (sortByKey ruleOrder snapshot.rules).find? fun rule => rule.covers host path

variable {env : Environment} {rule : ResourceLimitRuleInput} {compiled : CompiledResourceRule}

structure Compiles (rule : ResourceLimitRuleInput) (compiled : CompiledResourceRule) : Prop where
  host : HostMatcher.parse rule.origin.bytes = some compiled.host
  pathPrefix : compiled.pathPrefix = rule.pathPrefix.bytes
  pathPrefix_valid : pathPrefixValid rule.pathPrefix.bytes = true
  rawHeaderLimit : compiled.rawHeaderLimit = rawLimit rule.headerLimit
  rawPayloadLimit : compiled.rawPayloadLimit = rawLimit rule.payloadLimit
  effectiveHeaderLimit : compiled.effectiveHeaderLimit = effectiveLimit rule.headerLimit
  effectivePayloadLimit : compiled.effectivePayloadLimit = effectiveLimit rule.payloadLimit
  statusTable : compiled.statusTable = rule.statusTable
  responseBodyHeader : compiled.responseBodyHeader = rule.responseBodyHeader.bytes
  responseBodyPayload : compiled.responseBodyPayload = rule.responseBodyPayload.bytes
  id : compiled.id = rule.id.bytes

theorem compiles_of_ok (h : compileRule rule = .ok compiled) : Compiles rule compiled := by
  unfold compileRule at h
  cases hhost : HostMatcher.parse rule.origin.bytes with
  | none =>
    rw [hhost] at h
    cases h
  | some host =>
    simp only [hhost] at h
    cases hpath : pathPrefixValid rule.pathPrefix.bytes with
    | false =>
      rw [hpath] at h
      cases h
    | true =>
      rw [hpath] at h
      obtain rfl := Except.ok.inj h
      exact ⟨hhost, rfl, hpath, rfl, rfl, rfl, rfl, rfl, rfl, rfl, rfl⟩

theorem Compiles.covers_eq (h : Compiles rule compiled) (host path : Bytes) :
    (compiled.host.matches host && matchesPath compiled.pathPrefix path) =
      rule.covers host path := by
  rw [ResourceLimitRuleInput.covers, h.host, h.pathPrefix]
  rfl

theorem find?_compiled {rules : List ResourceLimitRuleInput} {found : List CompiledResourceRule}
    (h : List.Forall₂ Compiles rules found) {host path : Bytes}
    (hgoverns : rules.find? (fun rule => rule.covers host path) = some rule) :
    ∃ compiled, Compiles rule compiled ∧
      found.find? (fun compiled => compiled.host.matches host &&
        matchesPath compiled.pathPrefix path) = some compiled := by
  induction h with
  | nil => cases hgoverns
  | @cons first compiled rules found hfirst hrest ih =>
    simp only [List.find?_cons, hfirst.covers_eq] at hgoverns ⊢
    cases hcovers : first.covers host path with
    | true =>
      rw [hcovers] at hgoverns
      obtain rfl := Option.some.inj hgoverns
      exact ⟨compiled, hfirst, rfl⟩
    | false =>
      rw [hcovers] at hgoverns
      exact ih hgoverns

theorem compileSnapshot_rules {snapshot : ResourceLimitSnapshot} {limiter : ResourceLimiter}
    (h : compileSnapshot env snapshot = .ok limiter) :
    limiter.comparator = env.comparator ∧
      List.Forall₂ Compiles (sortByKey ruleOrder snapshot.rules) limiter.rules := by
  obtain ⟨-, h⟩ := of_check h
  obtain ⟨-, h⟩ := of_check h
  obtain ⟨-, h⟩ := of_check h
  obtain ⟨rules, hrules, hlimiter⟩ := exists_of_bind_ok h
  obtain rfl := Except.ok.inj hlimiter
  exact ⟨rfl, (forall₂_of_mapM_ok hrules).imp fun _ _ => compiles_of_ok⟩

/-! ## The verdict -/

def Exceeds (size : Nat) : Prop := 0 < limit.toNat ∧ limit.toNat < size

instance (limit : UInt64) (size : Nat) : Decidable (Exceeds limit size) :=
  inferInstanceAs (Decidable (_ ∧ _))

theorem rawLimit_lt_iff {size : Nat} (hsize : size < 2 ^ 64) :
    rawLimit limit < size ↔ Exceeds limit size := by
  unfold rawLimit Exceeds
  split <;> omega

theorem effectiveLimit_lt_iff (size : Nat) : effectiveLimit limit < min (size : Int) i64Max ↔
      Exceeds limit size ∧ limit.toNat < i64Max := by
  unfold effectiveLimit Exceeds
  split <;> omega

def violationMask (comparator : Comparator) (header payload : Bool) : Fin 4 :=
  match header, payload with
  | false, false => 0
  | true, false => 1
  | false, true => if comparator = .neon then 3 else 2
  | true, true => 3

theorem Compiles.checkLimitsSimd_eq (h : Compiles rule compiled) (comparator : Comparator)
    {headerBytes payloadBytes : Nat} (hheader : headerBytes < 2 ^ 63)
    (hpayload : payloadBytes < 2 ^ 63) :
    compiled.checkLimitsSimd comparator headerBytes payloadBytes =
      violationMask comparator (decide (Exceeds rule.headerLimit headerBytes))
        (decide (Exceeds rule.payloadLimit payloadBytes)) := by
  have hraw := rawLimit_lt_iff rule.headerLimit (hheader.trans (by decide))
  have hraw' := rawLimit_lt_iff rule.payloadLimit (hpayload.trans (by decide))
  have hsigned : ∀ (limit : UInt64) {size : Nat}, size < 2 ^ 63 →
      (effectiveLimit limit < min (size : Int) i64Max ↔ Exceeds limit size) :=
    fun limit size hsize => (effectiveLimit_lt_iff limit size).trans
      (and_iff_left_of_imp fun h => h.2.trans_le (Nat.le_sub_one_of_lt hsize))
  have heffective := hsigned rule.headerLimit hheader
  have heffective' := hsigned rule.payloadLimit hpayload
  by_cases hover : Exceeds rule.headerLimit headerBytes <;>
    by_cases hover' : Exceeds rule.payloadLimit payloadBytes <;>
    cases comparator <;>
    simp [CompiledResourceRule.checkLimitsSimd, h.rawHeaderLimit, h.rawPayloadLimit,
      h.effectiveHeaderLimit, h.effectivePayloadLimit, hraw, hraw', heffective, heffective', hover,
      hover', violationMask]

def ResourceLimitRuleInput.answer (comparator : Comparator) (headerBytes : Nat) : Nat × Bytes :=
  -- The other processor reports a violation of the payload limit as one of both.
  if Exceeds rule.headerLimit headerBytes ∨ comparator = .neon then
    (rule.rejectedCodeHeader.toNat, rule.responseBodyHeader.bytes)
  else (rule.rejectedCodePayload.toNat, rule.responseBodyPayload.bytes)

theorem Compiles.decision_eq (h : Compiles rule compiled) (comparator : Comparator)
    {headerBytes payloadBytes : Nat} (hheader : headerBytes < 2 ^ 63)
    (hpayload : payloadBytes < 2 ^ 63) :
    (let mask := compiled.checkLimitsSimd comparator headerBytes payloadBytes
      if mask ≠ 0 then
        ResourceLimitDecision.reject (compiled.statusTable mask) (compiled.selectBody mask)
          compiled.id
      else .allow) =
      if Exceeds rule.headerLimit headerBytes ∨ Exceeds rule.payloadLimit payloadBytes then
        .reject (rule.answer comparator headerBytes).1 (rule.answer comparator headerBytes).2
          rule.id.bytes
      else .allow := by
  rw [h.checkLimitsSimd_eq comparator hheader hpayload, h.statusTable, h.id]
  by_cases hover : Exceeds rule.headerLimit headerBytes <;>
    by_cases hover' : Exceeds rule.payloadLimit payloadBytes <;>
    cases comparator <;>
    simp [hover, hover', violationMask, ResourceLimitRuleInput.answer,
      ResourceLimitRuleInput.statusTable, CompiledResourceRule.selectBody, h.responseBodyHeader,
      h.responseBodyPayload]

structure AcceptedPolicy where
  env : Environment
  bytes : Bytes
  snapshot : ResourceLimitSnapshot
  parsed : env.parseSnapshot bytes = some snapshot
  limiter : ResourceLimiter
  accepted : ResourceLimiter.fromSnapshot env bytes = .ok limiter

namespace AcceptedPolicy

variable (policy : AcceptedPolicy)

theorem compiled_rules :
    policy.limiter.comparator = policy.env.comparator ∧
      List.Forall₂ Compiles (sortByKey ruleOrder policy.snapshot.rules) policy.limiter.rules := by
  have haccepted := policy.accepted
  unfold ResourceLimiter.fromSnapshot at haccepted
  rw [policy.parsed] at haccepted
  exact compileSnapshot_rules (of_check haccepted).2

variable {rule : ResourceLimitRuleInput}

theorem evaluate_eq {req : ResourceLimitRequest}
    (hgoverns : policy.snapshot.governing req.origin req.path = some rule)
    (hvalid : ResourceLimiter.invalidRequest req = false) (hheader : req.headerBytes < 2 ^ 63)
    (hpayload : req.payloadBytes < 2 ^ 63) :
    policy.limiter.evaluate req =
      if Exceeds rule.headerLimit req.headerBytes ∨ Exceeds rule.payloadLimit req.payloadBytes then
        .reject (rule.answer policy.env.comparator req.headerBytes).1
          (rule.answer policy.env.comparator req.headerBytes).2 rule.id.bytes
      else .allow := by
  obtain ⟨hcomparator, hrules⟩ := policy.compiled_rules
  obtain ⟨compiled, hcompiles, hfound⟩ := find?_compiled hrules hgoverns
  rw [ResourceLimiter.evaluate, hvalid, hfound, hcomparator]
  exact hcompiles.decision_eq policy.env.comparator hheader hpayload

theorem isPrefixOf_of_governing {host path : Bytes}
    (hgoverns : policy.snapshot.governing host path = some rule) :
    (ascii "/").isPrefixOf path = true := by
  obtain ⟨compiled, hcompiles, hfound⟩ := find?_compiled policy.compiled_rules.2 hgoverns
  have hcovers := List.find?_some hfound
  have hvalid := hcompiles.pathPrefix_valid
  simp only [Bool.and_eq_true, matchesPath, hcompiles.pathPrefix] at hcovers
  simp only [pathPrefixValid, Bool.and_eq_true] at hvalid
  have hroot := List.isPrefixOf_iff_prefix.mp hvalid.1.1.1.1
  have hpath := List.isPrefixOf_iff_prefix.mp hcovers.2.1.2
  exact List.isPrefixOf_iff_prefix.mpr (hroot.trans hpath)

end AcceptedPolicy

end AuroraGateway.ResourceLimit
