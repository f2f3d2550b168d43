import AuroraGateway.BlueGreen.Engine
import AuroraGateway.CanaryRelease.Conditions
import AuroraGateway.CanaryRelease.Lowering

/-!
# Rollouts

A request that the first rule for its host and path does not take by a condition falls into
one of a hundred buckets.  The bucket does not depend on the weight of the rule, so a larger
weight keeps the requests of the canary.
-/

namespace AuroraGateway.CanaryRelease

open Access (HeaderList)
open BlueGreen (UpstreamHeaderInput fnvOffsetBasis fnvPrime hasBreak isValidUpstream pathMatches)
open Engine Foundation

/-! ## Compilation -/

inductive SplitBy where
  | clientIp
  | header
  | cookie
  | random

structure MatchConditionInput where
  target : Text
  key : Option Text
  regex : Option Text
  operator : Option Text
  value : Option Text
  values : List Text

structure CanaryReleaseRuleInput where
  id : Text
  priority : UInt32
  origin : Text
  pathPrefix : Text
  baselineUpstream : Text
  canaryUpstream : Text
  matchConditions : List MatchConditionInput
  weightPercentage : UInt32
  splitBy : Text
  headerName : Option Text
  cookieName : Option Text
  canaryUpstreamHeaders : List UpstreamHeaderInput
  baselineUpstreamHeaders : List UpstreamHeaderInput

structure CanaryReleaseSnapshot where
  schemaVersion : UInt32
  generation : UInt64
  rules : List CanaryReleaseRuleInput

structure CanarySlotMeta where
  upstream : Bytes
  headers : HeaderList

structure CompiledMatchCondition where
  target : MatchTarget
  key : Bytes
  matcher : ByteMatcher

structure CompiledCanaryRule where
  id : Bytes
  originBytes : Bytes
  pathPrefixBytes : Bytes
  splitBy : SplitBy
  headerName : Option Bytes
  cookieName : Option Bytes
  weightPercentage : UInt32
  matchConditions : List CompiledMatchCondition
  baseline : CanarySlotMeta
  canary : CanarySlotMeta

structure CanaryReleaseEngine where
  generation : UInt64
  rules : List CompiledCanaryRule

def lowered (text : Text) : Bytes := toAsciiLowercase (trim text.bytes)

def compileName (name : Option Text) : Option Bytes :=
  (name.map lowered).filter isValidTokenKey

variable (rule : CanaryReleaseRuleInput)

def compileSplitBy : Option (SplitBy × Option Bytes × Option Bytes) :=
  let splitBy := lowered rule.splitBy
  if splitBy = ascii "client_ip" then some (.clientIp, none, none)
  else if splitBy = ascii "random" then some (.random, none, none)
  else if splitBy = ascii "header" then
    (compileName rule.headerName).map fun hName => (.header, some hName, none)
  else if splitBy = ascii "cookie" then
    (compileName rule.cookieName).map fun cName => (.cookie, none, some cName)
  else none

def compileTarget (target : Text) : Option MatchTarget :=
  let target := lowered target
  if target = ascii "header" then some .header
  else if target = ascii "cookie" then some .cookie
  else if target = ascii "uri" then some .uri
  else if target = ascii "path" then some .path
  else if target = ascii "query" then some .query
  else none

def compileMatcher (mc : MatchConditionInput) : Option ByteMatcher :=
  match mc.operator with
  | some op =>
    let op := lowered op
    if op = ascii "exact" then mc.value.map fun val => .exact val.bytes
    else if op = ascii "one_of" then
      if mc.values.isEmpty then none else some (.oneOf (mc.values.map Text.bytes))
    else if op = ascii "prefix" then mc.value.map fun val => .prefixOf val.bytes
    else if op = ascii "suffix" then mc.value.map fun val => .suffixOf val.bytes
    else if op = ascii "contains" then mc.value.map fun val => .contains val.bytes
    else if op = ascii "present" then some .present
    else none
  | none => mc.regex.bind fun regexStr => compileFromRegex regexStr.bytes

def compileCondition (mc : MatchConditionInput) : Option CompiledMatchCondition := do
  let target ← compileTarget mc.target
  let key ← compileKey target mc.key
  let matcher ← compileMatcher mc
  return ⟨target, key, matcher⟩

def validateHeader (header : UpstreamHeaderInput) : Option (Bytes × Bytes) :=
  let name := trim header.name.bytes
  let value := trim header.value.bytes
  if !isValidTokenKey name || 256 < value.length || hasBreak value then none
  else some (name, value)

def invalidShape : Bool :=
  !hostValid rule.origin.bytes || rule.origin.bytes.isEmpty || 253 < rule.origin.bytes.length ||
    !(ascii "/").isPrefixOf rule.pathPrefix.bytes ||
    maxPathBytes < rule.pathPrefix.bytes.length ||
    !isValidUpstream (trim rule.baselineUpstream.bytes) ||
    !isValidUpstream (trim rule.canaryUpstream.bytes) ||
    trim rule.baselineUpstream.bytes = trim rule.canaryUpstream.bytes ||
    100 < rule.weightPercentage || 16 < rule.matchConditions.length ||
    16 < rule.canaryUpstreamHeaders.length || 16 < rule.baselineUpstreamHeaders.length

def compileParts : Option CompiledCanaryRule := do
  let (splitBy, headerName, cookieName) ← compileSplitBy rule
  let matchConditions ← rule.matchConditions.mapM compileCondition
  let baselineHeaders ← rule.baselineUpstreamHeaders.mapM validateHeader
  let canaryHeaders ← rule.canaryUpstreamHeaders.mapM validateHeader
  return {
    id := rule.id.bytes
    originBytes := rule.origin.bytes
    pathPrefixBytes := rule.pathPrefix.bytes
    splitBy
    headerName
    cookieName
    weightPercentage := rule.weightPercentage
    matchConditions
    baseline := ⟨trim rule.baselineUpstream.bytes, baselineHeaders⟩
    canary := ⟨trim rule.canaryUpstream.bytes, canaryHeaders⟩ }

def compileRule : Except Error CompiledCanaryRule :=
  if invalidShape rule then .error .invalidPolicy
  else ((compileParts rule).map .ok).getD (.error .invalidPolicy)

/-- A smaller priority comes first, then a more specific host, then a longer path, then a smaller
id. -/
def ruleOrder : Nat ×ₗ Nat ×ₗ Natᵒᵈ ×ₗ List Nat :=
  toLex (rule.priority.toNat, toLex (hostSpecificity rule.origin.bytes,
    toLex (OrderDual.toDual rule.pathPrefix.bytes.length, rule.id.bytes.map UInt8.toNat)))

def compileSnapshot (snapshot : CanaryReleaseSnapshot) : Except Error CanaryReleaseEngine := do
  refuseIf (snapshot.schemaVersion ≠ 1) .invalidPolicy
  refuseIf (64 < snapshot.rules.length) .invalidPolicy
  refuseIf (!checkIds [] (snapshot.rules.map fun rule => rule.id.bytes)) .invalidPolicy
  let rules ← (sortByKey ruleOrder snapshot.rules).mapM compileRule
  .ok ⟨snapshot.generation, rules⟩

/-! ## Evaluation -/

structure CanaryReleaseEvalRequest extends CanaryRequest where
  origin : Bytes
  clientIp : Bytes
  randomSeed : UInt32

structure CanaryDecision where
  matched : Bool
  ruleId : Bytes
  upstream : Bytes
  isCanary : Bool
  upstreamHeaders : HeaderList
  headersArc : Option HeaderList

def CanaryDecision.unmatched : CanaryDecision := ⟨false, [], [], false, [], none⟩

def CanaryDecision.ofMatch (ruleId : Bytes) (isCanary : Bool) (slot : CanarySlotMeta) :
    CanaryDecision :=
  ⟨true, ruleId, slot.upstream, isCanary, slot.headers,
    if slot.headers.isEmpty then none else some slot.headers⟩

def mixWord (hash : UInt64) (chunk : Bytes) : UInt64 :=
  (hash ^^^ .ofNat (wordOfBytes targetEndian chunk)) * fnvPrime

/-- Eight bytes at a time, then four, then one. -/
def mixChunk (hash : UInt64) (chunk : Bytes) : UInt64 :=
  if chunk.length = 8 then mixWord hash chunk
  else if 4 ≤ chunk.length then
    (chunk.drop 4).foldl (fun hash b => mixWord hash [b]) (mixWord hash (chunk.take 4))
  else chunk.foldl (fun hash b => mixWord hash [b]) hash

def fnv1a64 (data : Bytes) : UInt64 := (data.toChunks 8).foldl mixChunk fnvOffsetBasis

def bucketOf (identity : Bytes) : UInt32 := (fnv1a64 identity).toUInt32 % 100

namespace CompiledCanaryRule

variable (rule : CompiledCanaryRule) (req : CanaryReleaseEvalRequest)

def conditionMatched : Bool :=
  rule.matchConditions.any fun cond =>
    (conditionInput cond.target cond.key req.toCanaryRequest).any cond.matcher.isMatch

/-- The source keeps the bucket of the address for later rules, of which there are none. -/
def bucket : UInt32 :=
  match rule.splitBy with
  | .clientIp => bucketOf req.clientIp
  | .random => req.randomSeed % 100
  | .header =>
    bucketOf (((rule.headerName.bind req.headerLookup).filter fun v => !v.isEmpty).getD
      req.clientIp)
  | .cookie =>
    bucketOf ((rule.cookieName.bind fun cName =>
      (req.headerLookup (ascii "cookie")).bind fun cHdr => extractCookie cHdr cName).getD
        req.clientIp)

def isCanary : Bool :=
  if rule.conditionMatched req then true
  else if 0 < rule.weightPercentage then
    if 100 ≤ rule.weightPercentage then true else rule.bucket req < rule.weightPercentage
  else false

def decision : CanaryDecision :=
  .ofMatch rule.id (rule.isCanary req) (if rule.isCanary req then rule.canary else rule.baseline)

end CompiledCanaryRule

def covers (originBytes pathPrefix : Bytes) (req : CanaryReleaseEvalRequest) : Bool :=
  (originBytes = ascii "*" || hostMatches originBytes req.origin) &&
    (pathPrefix = ascii "/" || pathMatches pathPrefix req.path)

def CanaryReleaseEvalRequest.wellFormed (req : CanaryReleaseEvalRequest) : Bool :=
  !(req.origin.isEmpty || 253 < req.origin.length || req.path.isEmpty ||
    maxPathBytes < req.path.length || !(ascii "/").isPrefixOf req.path ||
    req.clientIp.isEmpty || 64 < req.clientIp.length)

def CanaryReleaseEngine.evaluate (engine : CanaryReleaseEngine) (req : CanaryReleaseEvalRequest) :
    CanaryDecision :=
  if req.wellFormed then
    match engine.rules.find? fun rule => covers rule.originBytes rule.pathPrefixBytes req with
    | some rule => rule.decision req
    | none => .unmatched
  else .unmatched

/-! ## The rule of a request -/

section Selection

variable {rule : CanaryReleaseRuleInput} {compiled : CompiledCanaryRule}
  {snapshot : CanaryReleaseSnapshot} {engine : CanaryReleaseEngine}

def CanaryReleaseRuleInput.covers (rule : CanaryReleaseRuleInput)
    (req : CanaryReleaseEvalRequest) : Bool :=
  CanaryRelease.covers rule.origin.bytes rule.pathPrefix.bytes req

def selected (rules : List CanaryReleaseRuleInput) (req : CanaryReleaseEvalRequest) :
    Option CanaryReleaseRuleInput :=
  (sortByKey ruleOrder rules).find? fun rule => rule.covers req

theorem compileParts_of_compileRule (h : compileRule rule = .ok compiled) :
    compileParts rule = some compiled := by
  unfold compileRule at h
  split at h
  · cases h
  · cases hparts : compileParts rule with
    | none => simp [hparts] at h
    | some parts => simpa [hparts] using h

theorem compileParts_eq (h : compileParts rule = some compiled) :
    compiled.id = rule.id.bytes ∧ compiled.originBytes = rule.origin.bytes ∧
      compiled.pathPrefixBytes = rule.pathPrefix.bytes ∧
      compiled.weightPercentage = rule.weightPercentage ∧
      compiled.canary.upstream = trim rule.canaryUpstream.bytes := by
  simp only [compileParts, bind, Option.bind_eq_some_iff, pure, Option.some.injEq] at h
  obtain ⟨split, -, conditions, -, baseline, -, canary, -, rfl⟩ := h
  exact ⟨rfl, rfl, rfl, rfl, rfl⟩

theorem covers_of_compileRule (h : compileRule rule = .ok compiled)
    (req : CanaryReleaseEvalRequest) :
    rule.covers req = covers compiled.originBytes compiled.pathPrefixBytes req := by
  obtain ⟨-, horigin, hpath, -, -⟩ := compileParts_eq (compileParts_of_compileRule h)
  rw [horigin, hpath, CanaryReleaseRuleInput.covers]

section

variable (h : compileSnapshot snapshot = .ok engine)
include h

theorem of_compileSnapshot : (snapshot.rules.map fun rule => rule.id.bytes).Nodup ∧
      (sortByKey ruleOrder snapshot.rules).mapM compileRule = .ok engine.rules := by
  obtain ⟨-, h⟩ := of_refuseIf h
  obtain ⟨-, h⟩ := of_refuseIf h
  obtain ⟨hids, h⟩ := of_refuseIf h
  obtain ⟨rules, hrules, h⟩ := exists_of_bind_ok h
  refine ⟨(nodup_of_checkIds (by simpa using hids)).1, ?_⟩
  cases h
  exact hrules

theorem evaluate_eq (req : CanaryReleaseEvalRequest) : engine.evaluate req =
      if req.wellFormed then
        (((selected snapshot.rules req).bind fun rule => (compileRule rule).toOption).map
          fun compiled => compiled.decision req).getD .unmatched
      else .unmatched := by
  unfold CanaryReleaseEngine.evaluate selected
  split
  · have hrel := find?_rel (forall₂_of_mapM_ok (of_compileSnapshot h).2)
      fun a b hab => covers_of_compileRule hab req
    generalize (sortByKey ruleOrder snapshot.rules).find? _ = input at hrel ⊢
    generalize engine.rules.find? _ = found at hrel ⊢
    cases hrel with
    | none => rfl
    | some hab => simp [hab, Except.toOption]
  · rfl

theorem exists_compiled (hrule : rule ∈ snapshot.rules) :
    ∃ compiled, compileRule rule = .ok compiled := by
  obtain ⟨compiled, -, hcompiled⟩ := mem_mapM_of_mem (of_compileSnapshot h).2
    ((mem_sortByKey ruleOrder).mpr hrule)
  exact ⟨compiled, hcompiled⟩

theorem eq_of_id_eq {other : CanaryReleaseRuleInput} (hrule : rule ∈ snapshot.rules)
    (hother : other ∈ snapshot.rules) (hid : other.id.bytes = rule.id.bytes) : other = rule :=
  List.inj_on_of_nodup_map (of_compileSnapshot h).1 hother hrule hid

end

end Selection

/-! ## Another weight -/

/-- Ids are unique in an accepted snapshot, so one rule changes. -/
def CanaryReleaseRuleInput.withWeight (id : Bytes) (weight : UInt32)
    (rule : CanaryReleaseRuleInput) : CanaryReleaseRuleInput :=
  if rule.id.bytes = id then { rule with weightPercentage := weight } else rule

section Weight

variable (id : Bytes) (weight : UInt32) (rule : CanaryReleaseRuleInput)
  (req : CanaryReleaseEvalRequest)

theorem ruleOrder_withWeight : ruleOrder (rule.withWeight id weight) = ruleOrder rule := by
  unfold CanaryReleaseRuleInput.withWeight
  split <;> rfl

theorem covers_withWeight : (rule.withWeight id weight).covers req = rule.covers req := by
  unfold CanaryReleaseRuleInput.withWeight
  split <;> rfl

theorem selected_withWeight (rules : List CanaryReleaseRuleInput) :
    selected (rules.map (·.withWeight id weight)) req =
      (selected rules req).map (·.withWeight id weight) := by
  have hsort := map_sortByKey ruleOrder (·.withWeight id weight) rules
  simp only [ruleOrder_withWeight] at hsort
  rw [selected, ← hsort, List.find?_map]
  congr 2
  funext other
  exact covers_withWeight id weight other req

theorem compileParts_weight :
    compileParts { rule with weightPercentage := weight } =
      (compileParts rule).map fun compiled => { compiled with weightPercentage := weight } := by
  unfold compileParts
  change ((compileSplitBy rule).bind _) = _
  cases compileSplitBy rule with
  | none => rfl
  | some split =>
    cases rule.matchConditions.mapM compileCondition with
    | none => rfl
    | some conditions =>
      cases rule.baselineUpstreamHeaders.mapM validateHeader with
      | none => rfl
      | some baseline => cases rule.canaryUpstreamHeaders.mapM validateHeader <;> rfl

theorem CompiledCanaryRule.isCanary_of_le {compiled : CompiledCanaryRule}
    (h : compiled.isCanary req = true) (hle : compiled.weightPercentage ≤ weight) :
    { compiled with weightPercentage := weight }.isCanary req = true := by
  unfold isCanary at h ⊢
  -- neither the conditions nor the bucket read the weight
  change (if compiled.conditionMatched req then true else if 0 < weight then
    if 100 ≤ weight then true else decide (compiled.bucket req < weight) else false) = true
  split
  · rfl
  · rename_i hcondition
    rw [if_neg hcondition] at h
    split at h
    · rename_i hpos
      rw [if_pos (UInt32.lt_of_lt_of_le hpos hle)]
      split
      · rfl
      · rename_i hsmall
        have hless : ¬100 ≤ compiled.weightPercentage := fun hfull =>
          hsmall (UInt32.le_trans hfull hle)
        rw [if_neg hless] at h
        exact decide_eq_true (UInt32.lt_of_lt_of_le (of_decide_eq_true h) hle)
    · cases h

theorem CompiledCanaryRule.isCanary_full (compiled : CompiledCanaryRule) :
    { compiled with weightPercentage := 100 }.isCanary req = true := by
  simp [isCanary]

end Weight

/-- An accepted snapshot, and the same with a larger weight of one rule. -/
structure Rollout where
  snapshot : CanaryReleaseSnapshot
  rule : CanaryReleaseRuleInput
  listed : rule ∈ snapshot.rules
  weight : UInt32
  larger : rule.weightPercentage ≤ weight
  light : CanaryReleaseEngine
  heavy : CanaryReleaseEngine
  light_accepted : compileSnapshot snapshot = .ok light
  heavy_accepted : compileSnapshot
    { snapshot with rules := snapshot.rules.map (·.withWeight rule.id.bytes weight) } = .ok heavy

structure CanaryDecision.SentTo (decision : CanaryDecision) (rule : CanaryReleaseRuleInput) :
    Prop where
  matched : decision.matched = true
  ruleId : decision.ruleId = rule.id.bytes
  isCanary : decision.isCanary = true
  upstream : decision.upstream = trim rule.canaryUpstream.bytes

namespace Rollout

variable (rollout : Rollout) (req : CanaryReleaseEvalRequest)

theorem same_rule {other : CanaryReleaseRuleInput} (hwell : req.wellFormed = true)
    (hselected : selected rollout.snapshot.rules req = some other) :
    ∃ compiled, compileParts other = some compiled ∧
      rollout.light.evaluate req = compiled.decision req ∧
      rollout.heavy.evaluate req =
        (if other.id.bytes = rollout.rule.id.bytes then
          { compiled with weightPercentage := rollout.weight } else compiled).decision req := by
  have hmem := (mem_sortByKey ruleOrder).mp (List.mem_of_find?_eq_some hselected)
  obtain ⟨compiled, hcompiled⟩ := exists_compiled rollout.light_accepted hmem
  obtain ⟨raised, hraised⟩ := exists_compiled rollout.heavy_accepted
    (List.mem_map_of_mem (f := (·.withWeight rollout.rule.id.bytes rollout.weight)) hmem)
  have hparts := compileParts_of_compileRule hcompiled
  have hraisedParts := compileParts_of_compileRule hraised
  refine ⟨compiled, hparts, ?_, ?_⟩
  · rw [evaluate_eq rollout.light_accepted, if_pos hwell, hselected]
    simp [hcompiled, Except.toOption]
  · rw [evaluate_eq rollout.heavy_accepted, if_pos hwell, selected_withWeight, hselected]
    simp only [Option.map_some, Option.bind_some, hraised, Except.toOption, Option.getD_some]
    congr 1
    unfold CanaryReleaseRuleInput.withWeight at hraisedParts
    split at hraisedParts
    · rename_i hid
      rw [compileParts_weight, hparts] at hraisedParts
      rw [if_pos hid]
      exact (Option.some.inj hraisedParts).symm
    · rename_i hid
      rw [hparts] at hraisedParts
      rw [if_neg hid]
      exact (Option.some.inj hraisedParts).symm

open CompiledCanaryRule

theorem sentTo_heavy_of_light (h : (rollout.light.evaluate req).SentTo rollout.rule) :
    (rollout.heavy.evaluate req).SentTo rollout.rule := by
  have hmatched := h.matched
  have hwell : req.wellFormed = true := by
    by_contra hbad
    rw [evaluate_eq rollout.light_accepted, if_neg hbad] at hmatched
    cases hmatched
  cases hselected : selected rollout.snapshot.rules req with
  | none =>
    rw [evaluate_eq rollout.light_accepted, if_pos hwell, hselected] at hmatched
    cases hmatched
  | some other =>
    obtain ⟨compiled, hparts, hlight, hheavy⟩ := rollout.same_rule req hwell hselected
    obtain ⟨hid, -, -, hweight, -⟩ := compileParts_eq hparts
    rw [hlight] at h
    have hrule : other = rollout.rule :=
      eq_of_id_eq rollout.light_accepted rollout.listed
        ((mem_sortByKey ruleOrder).mp (List.mem_of_find?_eq_some hselected)) (hid ▸ h.ruleId)
    have hcanary : compiled.isCanary req = true := h.isCanary
    have hraised := isCanary_of_le rollout.weight req hcanary
      (hweight ▸ hrule ▸ rollout.larger)
    rw [hheavy, if_pos (hrule ▸ rfl)]
    simp only [decision, hcanary, if_true] at h
    simp only [decision, hraised, if_true]
    exact h

theorem sentTo_of_full (hfull : rollout.weight = 100) (hwell : req.wellFormed = true)
    (hselected : selected rollout.snapshot.rules req = some rollout.rule) :
    (rollout.heavy.evaluate req).SentTo rollout.rule := by
  obtain ⟨compiled, hparts, -, hheavy⟩ := rollout.same_rule req hwell hselected
  obtain ⟨hid, -, -, -, hupstream⟩ := compileParts_eq hparts
  rw [hheavy, if_pos rfl, hfull, decision,
    isCanary_full req compiled]
  exact ⟨rfl, hid, rfl, hupstream⟩

theorem selected_or_preceded (hcovers : rollout.rule.covers req = true) :
    selected rollout.snapshot.rules req = some rollout.rule ∨
      ∃ other ∈ rollout.snapshot.rules,
        ruleOrder other < ruleOrder rollout.rule ∧ other.covers req = true := by
  cases hselected : selected rollout.snapshot.rules req with
  | none =>
    have hnone := List.find?_eq_none.mp hselected rollout.rule
      ((mem_sortByKey ruleOrder).mpr rollout.listed)
    exact absurd hcovers hnone
  | some other =>
    have hmem := (mem_sortByKey ruleOrder).mp (List.mem_of_find?_eq_some hselected)
    have hle := key_le_of_find?_sortByKey ruleOrder hselected rollout.listed hcovers
    rcases hle.lt_or_eq with hlt | heq
    · exact .inr ⟨other, hmem, hlt, (List.find?_eq_some_iff_append.mp hselected).1⟩
    · have hid : other.id.bytes = rollout.rule.id.bytes :=
        List.map_injective_iff.mpr (fun _ _ => UInt8.toNat_inj.mp)
          (congrArg (fun order => (ofLex (ofLex (ofLex order).2).2).2) heq)
      exact .inl (congrArg some (eq_of_id_eq rollout.light_accepted rollout.listed hmem hid))

/-- A request that is sent to the canary of the rule still is with the larger weight, and with
the whole weight every request that the rule covers is, unless a rule before it covers the
request too. -/
theorem canary_monotone :
    ((rollout.light.evaluate req).SentTo rollout.rule →
        (rollout.heavy.evaluate req).SentTo rollout.rule) ∧
      (rollout.weight = 100 → req.wellFormed = true → rollout.rule.covers req = true →
        (rollout.heavy.evaluate req).SentTo rollout.rule ∨
          ∃ other ∈ rollout.snapshot.rules,
            ruleOrder other < ruleOrder rollout.rule ∧ other.covers req = true) := by
  refine ⟨rollout.sentTo_heavy_of_light req, fun hfull hwell hcovers => ?_⟩
  rcases rollout.selected_or_preceded req hcovers with hselected | hpreceded
  · exact .inl (rollout.sentTo_of_full req hfull hwell hselected)
  · exact .inr hpreceded

end Rollout

def tenthRule : CanaryReleaseRuleInput where
  id := .ofAscii "checkout"
  priority := 100
  origin := wildcardText
  pathPrefix := rootText
  baselineUpstream := .ofAscii "stable"
  canaryUpstream := .ofAscii "next"
  matchConditions := []
  weightPercentage := 10
  splitBy := clientIpText
  headerName := none
  cookieName := none
  canaryUpstreamHeaders := []
  baselineUpstreamHeaders := []

theorem tenth_stays_with_canary :
    ∃ rollout : Rollout, rollout.rule = tenthRule ∧ rollout.weight = 100 ∧
      ∀ req, (rollout.light.evaluate req).SentTo tenthRule →
        (rollout.heavy.evaluate req).SentTo tenthRule := by
  obtain ⟨light, hlight, -⟩ := exists_ok_of_any (x := compileSnapshot ⟨1, 0, [tenthRule]⟩)
    (p := fun _ => true) (by decide +kernel)
  obtain ⟨heavy, hheavy, -⟩ := exists_ok_of_any
    (x := compileSnapshot ⟨1, 0, [tenthRule].map (·.withWeight tenthRule.id.bytes 100)⟩)
    (p := fun _ => true) (by decide +kernel)
  exact ⟨⟨⟨1, 0, [tenthRule]⟩, tenthRule, List.mem_cons_self, 100, by decide, light, heavy,
    hlight, hheavy⟩, rfl, rfl, fun req => (Rollout.canary_monotone _ req).1⟩

end AuroraGateway.CanaryRelease
