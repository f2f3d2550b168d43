import AuroraGateway.BlueGreen.Engine

/-!
# Previews need the secret

The rule of a request is selected by its host and path.  If the rule has a
secret, every request that does not present it gets the active slot.
-/

namespace AuroraGateway.BlueGreen

open Access (HeaderLookup)
open Engine Foundation
open IpRestriction (parseIpv4Cidr parseIpv4U32)

/-! ## Comparison -/

theorem foldl_diff_eq_zero_iff {pairs : List (UInt8 × UInt8)} {diff : UInt8} :
    pairs.foldl (fun diff (x, y) => diff ||| (x ^^^ y)) diff = 0 ↔
      diff = 0 ∧ ∀ pair ∈ pairs, pair.1 = pair.2 := by
  induction pairs generalizing diff with
  | nil => simp
  | cons pair rest ih =>
    rw [List.foldl_cons, ih, UInt8.or_eq_zero_iff, UInt8.xor_eq_zero_iff, List.forall_mem_cons,
      and_assoc]

theorem constantTimeEq_iff {a b : Bytes} : constantTimeEq a b = true ↔ a = b := by
  unfold constantTimeEq
  rw [Bool.and_eq_true, decide_eq_true_iff, decide_eq_true_iff, foldl_diff_eq_zero_iff]
  constructor
  · rintro ⟨hlength, -, hpairs⟩
    refine List.ext_getElem hlength fun i ha hb => ?_
    have hi : i < (a.zip b).length := by
      rw [List.length_zip]
      omega
    have hpair := hpairs _ (List.getElem_mem hi)
    rwa [List.getElem_zip] at hpair
  · rintro rfl
    refine ⟨rfl, rfl, fun pair hpair => ?_⟩
    obtain ⟨i, hi, rfl⟩ := List.getElem_of_mem hpair
    simp

theorem eq_of_checkCandidate {secretHash : UInt64} {expected candidate : Bytes}
    (h : checkCandidate secretHash expected candidate = true) : trimAscii candidate = expected := by
  exact constantTimeEq_iff.mp (Bool.and_eq_true_iff.mp h).2

/-! ## What a rule keeps of its input -/

theorem compileSecret_of_ne {secret : Text} {compiled : UInt64 × Option Bytes}
    (h : compileSecret (some secret) = .ok compiled) (hne : trim secret.bytes ≠ []) :
    compiled.1 ≠ 0 ∧ compiled.2 = some (trim secret.bytes) := by
  unfold compileSecret at h
  dsimp only at h
  split at h
  · cases h
  · rw [if_neg (by simpa using hne)] at h
    obtain rfl := Except.ok.inj h
    refine ⟨?_, rfl⟩
    dsimp only
    split
    · decide
    · assumption

theorem activeSlot_of_compile {slot : Option Text} {compiled : UInt8}
    (h : compileActiveSlot slot = .ok compiled) : compiled = slotBlue ∨ compiled = slotGreen := by
  cases slot with
  | none => exact .inl (Except.ok.inj h).symm
  | some slot =>
    unfold compileActiveSlot slotFromStrIgnoreCase at h
    dsimp only at h
    split at h
    · exact .inl (Except.ok.inj h).symm
    · split at h
      · exact .inr (Except.ok.inj h).symm
      · cases h

theorem eq_of_compileCidr {cidr : Text} {compiled : IpRestriction.Cidr 32}
    (h : compileCidr cidr = .ok compiled) : parseIpv4Cidr cidr.bytes = some compiled := by
  unfold compileCidr at h
  cases hparse : parseIpv4Cidr cidr.bytes with
  | none =>
    rw [hparse] at h
    cases h
  | some parsed =>
    rw [hparse] at h
    rw [← Except.ok.inj h]

structure Compiled (input : RuleInput) (rule : CompiledRule) : Prop where
  activeSlot : rule.activeSlot = slotBlue ∨ rule.activeSlot = slotGreen
  secret : ∀ secret, input.previewSecret = some secret → trim secret.bytes ≠ [] →
    rule.secretHash ≠ 0 ∧ rule.secretBytes = some (trim secret.bytes)
  allowedCidrs : List.Forall₂ (fun cidr compiled => parseIpv4Cidr cidr.bytes = some compiled)
    input.allowedCidrs rule.allowedCidrs

theorem compileRule_spec {input : RuleInput} {rule : CompiledRule}
    (h : compileRule input = .ok rule) : Compiled input rule := by
  obtain ⟨-, h⟩ := of_refuseIf h
  obtain ⟨activeSlot, hactive, h⟩ := exists_of_bind_ok h
  obtain ⟨_, -, h⟩ := exists_of_bind_ok h
  obtain ⟨_, -, h⟩ := exists_of_bind_ok h
  obtain ⟨_, -, h⟩ := exists_of_bind_ok h
  obtain ⟨_, -, h⟩ := exists_of_bind_ok h
  obtain ⟨secret, hsecret, h⟩ := exists_of_bind_ok h
  obtain ⟨-, h⟩ := of_refuseIf h
  obtain ⟨cidrs, hcidrs, h⟩ := exists_of_bind_ok h
  obtain ⟨_, -, h⟩ := exists_of_bind_ok h
  obtain ⟨_, -, h⟩ := exists_of_bind_ok h
  obtain rfl := Except.ok.inj h
  refine ⟨activeSlot_of_compile hactive, fun text htext hne => ?_, ?_⟩
  · rw [htext] at hsecret
    exact compileSecret_of_ne hsecret hne
  · exact (forall₂_of_mapM_ok hcidrs).imp fun _ _ => eq_of_compileCidr

/-! ## Requests -/

/-- The value is that of the header, or of the cookie or the parameter with the first of the two
names that there is. -/
def Carries (header query : Bytes) (headerLookup : HeaderLookup) (value : Bytes) : Prop :=
  let names := [ascii "preview_secret", header]
  headerLookup header = some value ∨
    (∃ field, headerLookup (ascii "cookie") = some field ∧
      names.findSome? (extractCookieValue field) = some value) ∨
    names.findSome? (extractQueryValue query) = some value

theorem mem_secretPlaces {secretHeader : Option Bytes} {query value : Bytes}
    {headerLookup : HeaderLookup} :
    some value ∈ secretPlaces secretHeader query headerLookup ↔
      Carries (secretHeader.getD (ascii "x-preview-secret")) query headerLookup value := by
  have hfirst : ∀ (read : Bytes → Option Bytes) (name other : Bytes),
      [name, other].findSome? read = (read name).or (read other) := by
    intro read name other
    cases hread : read name <;> simp [hread]
  simp only [secretPlaces, Carries, hfirst, List.mem_cons, List.not_mem_nil, or_false,
    eq_comm (a := some value), Option.bind_eq_some_iff]

/-- The request carries the secret, up to white space around it. -/
def CompiledRule.Presents (rule : CompiledRule) (secret : Bytes) (req : EvalRequest)
    (headerLookup : HeaderLookup) : Prop :=
  ∃ value, Carries (rule.secretHeader.getD (ascii "x-preview-secret")) req.query headerLookup
    value ∧ trimAscii value = secret

def Inside (cidrs : List Text) (clientIp : Bytes) : Prop :=
  ∃ cidr ∈ cidrs, ∃ net, parseIpv4Cidr cidr.bytes = some net ∧
    ∃ ip, parseIpv4U32 clientIp = some ip ∧ net.covers ip = true

def CompiledRule.activeDecision (rule : CompiledRule) : BlueGreenDecision :=
  .ofMatch rule.id (rule.sheet rule.activeSlot).upstream (slotName rule.activeSlot) false
    (rule.sheet rule.activeSlot).headers

section Rule

variable {input : RuleInput} {rule : CompiledRule} (h : Compiled input rule) {secret : Text}
  (hsecret : input.previewSecret = some secret) (hne : trim secret.bytes ≠ [])
  {req : EvalRequest} {headerLookup : HeaderLookup}

include h hsecret hne in
theorem presents_of_verify
    (hverify : verifyPreviewSecret rule.secretHash rule.secretBytes rule.secretHeader req.query
      headerLookup ≠ 0) :
    rule.Presents (trim secret.bytes) req headerLookup := by
  obtain ⟨hhash, hbytes⟩ := h.secret secret hsecret hne
  have hfilter : rule.secretBytes.filter (fun b => !b.isEmpty) = some (trim secret.bytes) := by
    rw [hbytes, Option.filter_some, if_pos (by simpa using hne)]
  unfold verifyPreviewSecret at hverify
  rw [if_neg hhash, hfilter] at hverify
  dsimp only at hverify
  split at hverify
  · rename_i hany
    obtain ⟨place, hplace, hcheck⟩ := List.any_eq_true.mp hany
    cases place with
    | none => cases hcheck
    | some value => exact ⟨value, mem_secretPlaces.mp hplace, eq_of_checkCandidate hcheck⟩
  · exact absurd rfl hverify

include h in
theorem inside_of_verify (hcidrs : input.allowedCidrs ≠ [])
    (hverify : verifyCidrBoundary rule.allowedCidrs req.clientIp ≠ 0) :
    Inside input.allowedCidrs req.clientIp := by
  have hsome : rule.allowedCidrs.isEmpty = false := by
    rw [List.isEmpty_eq_false_iff, ← List.length_pos_iff, ← h.allowedCidrs.length_eq]
    exact List.length_pos_of_ne_nil hcidrs
  unfold verifyCidrBoundary at hverify
  rw [hsome, if_neg Bool.false_ne_true] at hverify
  split at hverify
  · rename_i hany
    cases hip : parseIpv4U32 req.clientIp with
    | none =>
      rw [hip] at hany
      cases hany
    | some ip =>
      rw [hip] at hany
      obtain ⟨net, hnet, hcovers⟩ := List.any_eq_true.mp hany
      obtain ⟨cidr, hcidr, hparse⟩ := exists_left_of_forall₂ h.allowedCidrs hnet
      exact ⟨cidr, hcidr, net, hparse, ip, hip, hcovers⟩
  · exact absurd rfl hverify

theorem verified_of_validOverride (hvalid : rule.validOverride req headerLookup ≠ 0) :
    verifyPreviewSecret rule.secretHash rule.secretBytes rule.secretHeader req.query headerLookup ≠
        0 ∧
      verifyCidrBoundary rule.allowedCidrs req.clientIp ≠ 0 := by
  unfold CompiledRule.validOverride at hvalid
  cases hcandidate : (rule.candidateSlot req headerLookup).isSome with
  | false => simp [hcandidate] at hvalid
  | true =>
    simp only [hcandidate, if_true] at hvalid
    refine ⟨fun hzero => hvalid ?_, fun hzero => hvalid ?_⟩
    · rw [hzero, UInt8.and_zero, UInt8.zero_and]
    · rw [hzero, UInt8.and_zero]

include h in
theorem decide_of_not_valid (hvalid : rule.validOverride req headerLookup = 0) :
    rule.decide req headerLookup = rule.activeDecision := by
  have hslot : ∀ candidate, selectSlotBranchless 0 candidate rule.activeSlot = rule.activeSlot := by
    intro candidate
    unfold selectSlotBranchless
    rw [UInt8.zero_and, UInt8.zero_or]
    rcases h.activeSlot with hactive | hactive <;> rw [hactive] <;> decide
  unfold CompiledRule.decide CompiledRule.activeDecision
  simp only [hvalid, hslot]
  rfl

end Rule

/-! ## Accepted policies -/

structure AcceptedPolicy where
  parseSnapshot : Bytes → Option Snapshot
  bytes : Bytes
  engine : BlueGreenEngine
  accepted : BlueGreenEngine.fromSnapshot parseSnapshot bytes = .ok engine

namespace AcceptedPolicy

variable (policy : AcceptedPolicy)

theorem exists_rules : ∃ snapshot inputs, policy.parseSnapshot policy.bytes = some snapshot ∧
    snapshot.effectiveRules = some inputs ∧
    (sortByKey ruleOrder inputs).mapM compileRule = .ok policy.engine.rules := by
  have h := policy.accepted
  obtain ⟨-, h⟩ := of_check h
  split at h
  · cases h
  · rename_i snapshot hparse
    obtain ⟨-, h⟩ := of_refuseIf h
    split at h
    · cases h
    · rename_i inputs hinputs
      obtain ⟨-, h⟩ := of_refuseIf h
      obtain ⟨-, h⟩ := of_refuseIf h
      obtain ⟨rules, hrules, h⟩ := exists_of_bind_ok h
      refine ⟨snapshot, inputs, hparse, hinputs, ?_⟩
      rw [hrules, ← Except.ok.inj h]

theorem exists_input {origin path : Bytes} {rule : CompiledRule}
    (h : policy.engine.selectRule origin path = some rule) :
    ∃ snapshot inputs input, policy.parseSnapshot policy.bytes = some snapshot ∧
      snapshot.effectiveRules = some inputs ∧ input ∈ inputs ∧ compileRule input = .ok rule := by
  obtain ⟨snapshot, inputs, hparse, hinputs, hrules⟩ := policy.exists_rules
  obtain ⟨-, hfind⟩ := Option.ite_none_left_eq_some.mp h
  obtain ⟨input, hinput, hcompiled⟩ :=
    exists_of_mem_mapM hrules (List.mem_of_find?_eq_some hfind)
  exact ⟨snapshot, inputs, input, hparse, hinputs, (mem_sortByKey ruleOrder).mp hinput, hcompiled⟩

/-- The preview of a rule with a secret: requests for its hosts and paths that do not present the
secret all get the active slot, and a request that gets another slot presents it and comes from
an allowed network. -/
theorem preview_needs_secret :
    ∀ origin path rule, policy.engine.selectRule origin path = some rule →
      ∃ snapshot inputs input, policy.parseSnapshot policy.bytes = some snapshot ∧
        snapshot.effectiveRules = some inputs ∧ input ∈ inputs ∧ compileRule input = .ok rule ∧
        ∀ secret, input.previewSecret = some secret → trim secret.bytes ≠ [] →
          (∀ req₁ req₂ lookup₁ lookup₂, (req₁.origin = origin ∧ req₁.path = path) →
            (req₂.origin = origin ∧ req₂.path = path) →
            ¬rule.Presents (trim secret.bytes) req₁ lookup₁ →
            ¬rule.Presents (trim secret.bytes) req₂ lookup₂ →
            policy.engine.evaluate req₁ lookup₁ = rule.activeDecision ∧
              policy.engine.evaluate req₂ lookup₂ = rule.activeDecision) ∧
          ∀ req lookup, (req.origin = origin ∧ req.path = path) →
            (policy.engine.evaluate req lookup).isHeaderOverride = true →
            rule.Presents (trim secret.bytes) req lookup ∧
              (input.allowedCidrs ≠ [] → Inside input.allowedCidrs req.clientIp) := by
  intro origin path rule hselect
  obtain ⟨snapshot, inputs, input, hparse, hinputs, hinput, hcompiled⟩ :=
    policy.exists_input hselect
  refine ⟨snapshot, inputs, input, hparse, hinputs, hinput, hcompiled, fun secret hsecret hne => ?_⟩
  have hrule := compileRule_spec hcompiled
  have hevaluate : ∀ req lookup, (req.origin = origin ∧ req.path = path) →
      policy.engine.evaluate req lookup = rule.decide req lookup := by
    rintro req lookup ⟨rfl, rfl⟩
    rw [BlueGreenEngine.evaluate, hselect]
  have hwithout : ∀ req lookup, (req.origin = origin ∧ req.path = path) →
      ¬rule.Presents (trim secret.bytes) req lookup →
      policy.engine.evaluate req lookup = rule.activeDecision := by
    intro req lookup hreq hpresents
    rw [hevaluate req lookup hreq]
    refine decide_of_not_valid hrule (by_contra fun hvalid => hpresents ?_)
    exact presents_of_verify hrule hsecret hne (verified_of_validOverride hvalid).1
  refine
    ⟨fun req₁ req₂ lookup₁ lookup₂ h₁ h₂ hnot₁ hnot₂ => ?_, fun req lookup hreq hoverride => ?_⟩
  · exact ⟨hwithout req₁ lookup₁ h₁ hnot₁, hwithout req₂ lookup₂ h₂ hnot₂⟩
  · rw [hevaluate req lookup hreq] at hoverride
    obtain ⟨hsecretOk, hcidrOk⟩ := verified_of_validOverride (of_decide_eq_true hoverride)
    exact ⟨presents_of_verify hrule hsecret hne hsecretOk,
      fun hcidrs => inside_of_verify hrule hcidrs hcidrOk⟩

end AcceptedPolicy

/-! ## A small policy -/

def shopSnapshot : Snapshot where
  schemaVersion := 1
  generation := 1
  rules := []
  activeSlot := none
  blueUpstream := some (.ofAscii "shop-blue")
  greenUpstream := some (.ofAscii "shop-green")
  switchHeader := some (.ofAscii "x-deploy-slot")
  previewCookie := none
  previewQueryParam := none
  previewSecret := some (.ofAscii "s3cret")
  previewSecretHeader := some (.ofAscii "x-preview-secret")
  allowedCidrs := [.ofAscii "10.0.0.0/8"]
  blueUpstreamHeaders := []
  greenUpstreamHeaders := []

def shopEngine : BlueGreenEngine :=
  (compileSnapshot shopSnapshot).toOption.getD ⟨0, []⟩

theorem compileSnapshot_shop : compileSnapshot shopSnapshot = .ok shopEngine := by
  have hok : (compileSnapshot shopSnapshot).toOption.isSome = true := by decide +kernel
  unfold shopEngine
  cases h : compileSnapshot shopSnapshot with
  | error err =>
    rw [h] at hok
    cases hok
  | ok engine => rfl

def shopPolicy : AcceptedPolicy where
  parseSnapshot := fun _ => some shopSnapshot
  bytes := [0]
  engine := shopEngine
  accepted := compileSnapshot_shop

def shopRequest : EvalRequest := ⟨ascii "shop.example", ascii "/cart", ascii "10.1.2.3", []⟩

theorem shop_preview_needs_secret :
    ∃ rule, shopPolicy.engine.selectRule shopRequest.origin shopRequest.path = some rule ∧
      ∀ lookup, (shopPolicy.engine.evaluate shopRequest lookup).isHeaderOverride = true →
        rule.Presents (ascii "s3cret") shopRequest lookup := by
  have hsome :
      (shopPolicy.engine.selectRule shopRequest.origin shopRequest.path).isSome = true := by
    decide +kernel
  obtain ⟨rule, hrule⟩ := Option.isSome_iff_exists.mp hsome
  obtain ⟨snapshot, inputs, input, hparse, hinputs, hinput, -, hpreview⟩ :=
    shopPolicy.preview_needs_secret _ _ rule hrule
  obtain rfl := Option.some.inj hparse
  have hall : (shopSnapshot.effectiveRules.all fun inputs => inputs.all fun input =>
      input.previewSecret = some (.ofAscii "s3cret")) = true := by
    decide +kernel
  rw [hinputs] at hall
  have hsecret := of_decide_eq_true (List.all_eq_true.mp hall input hinput)
  obtain ⟨-, hpresents⟩ := hpreview _ hsecret (by decide)
  exact ⟨rule, hrule, fun lookup hoverride => (hpresents shopRequest lookup ⟨rfl, rfl⟩ hoverride).1⟩

end AuroraGateway.BlueGreen
