import AuroraGateway.Foundation.AsciiText
import AuroraGateway.Foundation.Networks
import AuroraGateway.IpRestriction.WildcardBlock

/-!
# Priority and longest prefix

The decision about a request is that of the first rule and network that match
it, by priority, length of the prefix and id.  A network matches by its leading
bits, which the engine compares under a mask.  Rules with ids and priorities of
their own may be listed in any order.
-/

namespace AuroraGateway.IpRestriction

open Engine Foundation IpRestrictionEngine

/-! ## Masks -/

theorem toNat_lowBits {w shift : Nat} (h : shift < w) :
    (((1 : BitVec w) <<< shift) - 1).toNat = 2 ^ shift - 1 := by
  have hpow : 2 ^ shift < 2 ^ w := Nat.pow_lt_pow_right (by omega) h
  have hone : (1 : BitVec w).toNat = 1 := by
    have hlt : 1 < 2 ^ w := Nat.one_lt_two_pow (by omega)
    simp [Nat.mod_eq_of_lt hlt]
  have hbit : ((1 : BitVec w) <<< shift).toNat = 2 ^ shift := by
    rw [BitVec.toNat_shiftLeft, hone, Nat.one_shiftLeft, Nat.mod_eq_of_lt hpow]
  rw [BitVec.toNat_sub_of_le, hbit, hone]
  rw [BitVec.le_def, hbit, hone]
  exact Nat.one_le_two_pow

theorem getLsbD_prefixToMask (w len i : Nat) :
    (prefixToMask w len).getLsbD i = (decide (i < w) && decide (w - len ≤ i)) := by
  unfold prefixToMask
  split
  · rename_i hzero
    subst hzero
    by_cases hi : i < w
    · simp [hi]
    · simp [hi]
  · split
    · have hzero : w - len = 0 := by omega
      simp [hzero]
    · have hlow := toNat_lowBits (show w - len < w by omega)
      rw [BitVec.getLsbD_not, BitVec.getLsbD, hlow]
      by_cases hi : i < w - len
      · have hlead : ¬w - len ≤ i := by omega
        simp [hi, hlead]
      · simp [hi, Nat.le_of_not_lt hi]

theorem and_prefixToMask_eq_iff {w : Nat} (len : Nat) (a b : BitVec w) :
    a &&& prefixToMask w len = b &&& prefixToMask w len ↔
      a >>> (w - len) = b >>> (w - len) := by
  constructor
  · intro h
    apply BitVec.eq_of_getLsbD_eq
    intro i hi
    have hbit := congrArg (fun v => v.getLsbD (w - len + i)) h
    simp only [BitVec.getLsbD_and, getLsbD_prefixToMask] at hbit
    rw [BitVec.getLsbD_ushiftRight, BitVec.getLsbD_ushiftRight]
    by_cases hin : w - len + i < w
    · simpa [hin] using hbit
    · rw [BitVec.getLsbD_of_ge _ _ (Nat.le_of_not_lt hin),
        BitVec.getLsbD_of_ge _ _ (Nat.le_of_not_lt hin)]
  · intro h
    apply BitVec.eq_of_getLsbD_eq
    intro i hi
    rw [BitVec.getLsbD_and, BitVec.getLsbD_and, getLsbD_prefixToMask]
    by_cases hlead : w - len ≤ i
    · have hbit := congrArg (fun v => v.getLsbD (i - (w - len))) h
      simp only [BitVec.getLsbD_ushiftRight, Nat.add_sub_cancel' hlead] at hbit
      rw [hbit]
    · simp [hlead]

/-! ## Networks -/

def ParsedIp.addr : ParsedIp → IpAddr
  | .v4 addr => .v4 addr
  | .v6 addr => .v6 addr

def networkOf : IpNet → Network
  | .v4 addr bits => .v4 ⟨addr &&& prefixToIpv4Mask bits, prefixToIpv4Mask bits, bits⟩
  | .v6 addr bits => .v6 ⟨addr &&& prefixToIpv6Mask bits, prefixToIpv6Mask bits, bits⟩

variable (s : Bytes)

def ipv4Net : Option IpNet := do
  let (ipStr, prefixStr) := (splitOnce slash s).getD (s, ascii "32")
  let ip ← IpAddr.ipv4FromStr (trim ipStr)
  let len ← parseU8 (trim prefixStr)
  if 32 < len then none else some (.v4 ip len)

def ipv6Net : Option IpNet := do
  let (ipStr, prefixStr) := (splitOnce slash s).getD (s, ascii "128")
  let ip ← IpAddr.ipv6FromStr (trim ipStr)
  if (IpAddr.toIpv4Mapped ip).isSome then none
  else
    let len ← parseU8 (trim prefixStr)
    if 128 < len then none else some (.v6 ip len)

def namedNet : Option IpNet := (ipv4Net s).or (ipv6Net s)

theorem parseIpv4Cidr_eq : (parseIpv4Cidr s).map Network.v4 = (ipv4Net s).map networkOf := by
  unfold parseIpv4Cidr ipv4Net
  generalize (splitOnce slash s).getD (s, ascii "32") = parts
  obtain ⟨ipStr, prefixStr⟩ := parts
  dsimp only
  cases IpAddr.ipv4FromStr (trim ipStr) with
  | none => rfl
  | some ip =>
    cases parseU8 (trim prefixStr) with
    | none => rfl
    | some len =>
      by_cases hlen : 32 < len
      · simp [hlen]
      · simp [hlen, networkOf]

theorem parseIpv6Cidr_eq : (parseIpv6Cidr s).map Network.v6 = (ipv6Net s).map networkOf := by
  unfold parseIpv6Cidr ipv6Net
  generalize (splitOnce slash s).getD (s, ascii "128") = parts
  obtain ⟨ipStr, prefixStr⟩ := parts
  dsimp only
  cases IpAddr.ipv6FromStr (trim ipStr) with
  | none => rfl
  | some ip =>
    by_cases hmapped : (IpAddr.toIpv4Mapped ip).isSome = true
    · simp [hmapped]
    · cases parseU8 (trim prefixStr) with
      | none => simp
      | some len =>
        by_cases hlen : 128 < len
        · simp [hlen]
        · simp [hmapped, hlen, networkOf]

theorem parseNetwork_eq : parseNetwork s = (namedNet s).map networkOf := by
  have h4 := parseIpv4Cidr_eq s
  have h6 := parseIpv6Cidr_eq s
  unfold parseNetwork namedNet
  cases hv4 : parseIpv4Cidr s with
  | some cidr =>
    rw [hv4] at h4
    obtain ⟨net, hnet, hnetwork⟩ := Option.map_eq_some_iff.mp h4.symm
    rw [hnet, Option.some_or, Option.map_some, hnetwork]
  | none =>
    rw [hv4] at h4
    rw [Option.map_eq_none_iff.mp h4.symm]
    exact h6

theorem covers_networkOf (net : IpNet) (ip : ParsedIp) :
    (networkOf net).covers ip = net.contains ip.addr := by
  cases net with
  | v4 addr bits =>
    cases ip with
    | v4 client =>
      rw [Bool.eq_iff_iff]
      simp only [networkOf, Network.covers, Cidr.covers, beq_iff_eq, IpNet.contains,
        ParsedIp.addr, prefixToIpv4Mask, and_prefixToMask_eq_iff]
      exact eq_comm
    | v6 client => rfl
  | v6 addr bits =>
    cases ip with
    | v4 client => rfl
    | v6 client =>
      rw [Bool.eq_iff_iff]
      simp only [networkOf, Network.covers, Cidr.covers, beq_iff_eq, IpNet.contains,
        ParsedIp.addr, prefixToIpv6Mask, and_prefixToMask_eq_iff]
      exact eq_comm

theorem prefixLen_networkOf (net : IpNet) : (networkOf net).prefixLen = net.bits := by
  cases net <;> rfl

/-! ## Matching pairs -/

structure MatchingPair (inputs : List UnifiedRuleInput) (ip : ParsedIp) (q : IpRestrictionRequest)
    (rule : UnifiedRuleInput) (net : IpNet) : Prop where
  mem : rule ∈ inputs
  named : ∃ s ∈ rule.networks, namedNet s = some net
  contains : net.contains ip.addr = true
  method : (methodToMask rule.method &&& methodToMask q.method) ≠ 0
  host : (HostMatcher.parse rule.host).any (fun host => host.matches q.host) = true
  path : matchesPath rule.pathPrefix q.path = true

/-- Priority ascending, length of the prefix descending, id ascending. -/
def pairOrder (rule : UnifiedRuleInput) (net : IpNet) : FlatOrder :=
  flatOrder rule.priority net.bits rule.id

section Pairs

variable {inputs : List UnifiedRuleInput} {ip : ParsedIp} {q : IpRestrictionRequest}
  {rule : UnifiedRuleInput}

theorem matchingPair_iff (net : IpNet) (hnamed : ∃ s ∈ rule.networks, namedNet s = some net) :
    MatchingPair inputs ip q rule net ↔ Applies inputs ip q rule (networkOf net) := by
  have hlisted : ∃ s ∈ rule.networks, parseNetwork s = some (networkOf net) := by
    obtain ⟨s, hs, hnet⟩ := hnamed
    exact ⟨s, hs, by rw [parseNetwork_eq, hnet, Option.map_some]⟩
  constructor
  · rintro ⟨hmem, -, hcontains, hmethod, hhost, hpath⟩
    refine ⟨hmem, hlisted, ?_⟩
    simp only [UnifiedRuleInput.matches, covers_networkOf, hcontains, hhost, hpath, Bool.true_and,
      Bool.and_true, bne_iff_ne, ne_eq]
    exact hmethod
  · rintro ⟨hmem, -, hmatches⟩
    simp only [UnifiedRuleInput.matches, covers_networkOf, Bool.and_eq_true, bne_iff_ne] at hmatches
    obtain ⟨⟨⟨hcontains, hmethod⟩, hhost⟩, hpath⟩ := hmatches
    exact ⟨hmem, hnamed, hcontains, hmethod, hhost, hpath⟩

theorem MatchingPair.applies {net : IpNet} (h : MatchingPair inputs ip q rule net) :
    Applies inputs ip q rule (networkOf net) :=
  (matchingPair_iff net h.named).mp h

theorem Applies.exists_pair {network : Network} (h : Applies inputs ip q rule network) :
    ∃ net, networkOf net = network ∧ MatchingPair inputs ip q rule net := by
  obtain ⟨s, hs, hparse⟩ := h.listed
  rw [parseNetwork_eq] at hparse
  obtain ⟨net, hnet, rfl⟩ := Option.map_eq_some_iff.mp hparse
  exact ⟨net, rfl, (matchingPair_iff net ⟨s, hs, hnet⟩).mpr h⟩

theorem order_networkOf (rule : UnifiedRuleInput) (net : IpNet) :
    rule.order (networkOf net) = pairOrder rule net := by
  rw [UnifiedRuleInput.order, prefixLen_networkOf, pairOrder]

end Pairs

/-! ## The decision -/

inductive LongestPrefix (inputs : List UnifiedRuleInput) (ip : ParsedIp)
    (q : IpRestrictionRequest) (decision : Decision) : Prop where
  | pair (rule : UnifiedRuleInput) (net : IpNet) (hpair : MatchingPair inputs ip q rule net)
      (hleast : ∀ other net', MatchingPair inputs ip q other net' →
        pairOrder rule net ≤ pairOrder other net')
      (hrule : decision.ruleId = rule.id)
      (haction : decision.action = if rule.isBlock then 1 else 0)
      (hlog : decision.logMatches = if rule.log then 1 else 0)
  | none (hnone : ∀ rule net, ¬MatchingPair inputs ip q rule net) (hrule : decision.ruleId = 0)
      (hlog : decision.logMatches = 0)
      (haction : decision.action = 1 ↔
        (∃ rule ∈ inputs, rule.isBlock = false) ∧ ∀ rule ∈ inputs, rule.isBlock = false)

theorem isStrict_iff (inputs : List UnifiedRuleInput) :
    isStrict inputs = true ↔
      (∃ rule ∈ inputs, rule.isBlock = false) ∧ ∀ rule ∈ inputs, rule.isBlock = false := by
  simp [isStrict]

variable {q : IpRestrictionRequest} {snap : IpRestrictionSnapshot}

theorem Decides.longestPrefix {generation : Nat} {inputs : List UnifiedRuleInput} {ip : ParsedIp}
    {decision : Decision} (h : Decides generation inputs ip q decision) :
    LongestPrefix inputs ip q decision := by
  cases h with
  | rule rule network happlies hfirst =>
    obtain ⟨net, rfl, hpair⟩ := happlies.exists_pair
    refine .pair rule net hpair (fun other net' hother => ?_) rfl rfl rfl
    rw [← order_networkOf, ← order_networkOf]
    exact hfirst other _ hother.applies
  | fallback hnone =>
    refine .none (fun rule net hpair => hnone rule _ hpair.applies) rfl rfl ?_
    rw [← isStrict_iff]
    cases isStrict inputs <;> simp [fallbackDecision]

/-! ## The order of the rules -/

structure ExplicitOrder (cfgRule : ConfiguredRule) : Prop where
  id : (∃ n : UInt64, cfgRule.id = .number (some n) ∧ n ≠ 0) ∨
    ∃ s n, cfgRule.id = .string s ∧ parseU64 s.bytes = some n ∧ n ≠ 0
  priority : cfgRule.priority.isSome = true

theorem configuredRule_eq {cfgRule : ConfiguredRule} (h : ExplicitOrder cfgRule)
    (env : Environment) (i : Nat) :
    configuredRule env cfgRule i = configuredRule env cfgRule 0 := by
  obtain ⟨priority, hpriority⟩ := Option.isSome_iff_exists.mp h.priority
  rcases h.id with ⟨n, hid, hne⟩ | ⟨s, n, hid, hparse, hne⟩
  · have hpos : n.toNat ≠ 0 := fun hzero => hne (UInt64.toNat_inj.mp hzero)
    simp [configuredRule, configuredId, hid, hpriority, hpos]
  · simp [configuredRule, configuredId, hid, hparse, hpriority, hne]

variable {env : Environment} {rules : List ConfiguredRule}

theorem filterMap_zipIdx
    (h : ∀ rule ∈ rules, ExplicitOrder rule) (start : Nat) :
    ((rules.zipIdx start).filterMap fun (cfgRule, i) => configuredRule env cfgRule i) =
      rules.filterMap fun cfgRule => configuredRule env cfgRule 0 := by
  induction rules generalizing start with
  | nil => rfl
  | cons rule rules ih =>
    obtain ⟨hrule, hrules⟩ := List.forall_mem_cons.mp h
    rw [List.zipIdx_cons, List.filterMap_cons, List.filterMap_cons, ih hrules]
    dsimp only
    rw [configuredRule_eq hrule env start]

theorem unifiedInputs_perm (hperm : rules.Perm snap.rules)
    (h : ∀ rule ∈ snap.rules, ExplicitOrder rule) :
    (unifiedInputs env { snap with rules := rules }).Perm (unifiedInputs env snap) := by
  have hrules : ∀ rule ∈ rules, ExplicitOrder rule := fun rule hmem =>
    h rule (hperm.mem_iff.mp hmem)
  unfold unifiedInputs
  rw [filterMap_zipIdx h, filterMap_zipIdx hrules]
  exact (hperm.filterMap _).append_left _

theorem Decides.of_perm {generation : Nat} {inputs inputs' : List UnifiedRuleInput}
    (hperm : inputs.Perm inputs') {ip : ParsedIp} {decision : Decision}
    (h : Decides generation inputs ip q decision) : Decides generation inputs' ip q decision := by
  have happlies : ∀ rule network, Applies inputs ip q rule network ↔
      Applies inputs' ip q rule network := fun rule network =>
    ⟨fun h => ⟨hperm.mem_iff.mp h.mem, h.listed, h.applies⟩,
      fun h => ⟨hperm.mem_iff.mpr h.mem, h.listed, h.applies⟩⟩
  cases h with
  | rule rule network hrule hfirst =>
    exact .rule rule network ((happlies rule network).mp hrule) fun other network' hother =>
      hfirst other network' ((happlies other network').mpr hother)
  | fallback hnone =>
    have hstrict : isStrict inputs = isStrict inputs' := by
      rw [Bool.eq_iff_iff, isStrict_iff, isStrict_iff]
      simp only [hperm.mem_iff]
    rw [hstrict]
    exact .fallback fun rule network hrule =>
      hnone rule network ((happlies rule network).mpr hrule)

theorem compileSnapshot_ok_iff (env : Environment) (snap : IpRestrictionSnapshot) :
    (∃ engine, compileSnapshot env snap = .ok engine) ↔
      ¬(snap.schemaVersion ≠ 1 ∨ 2 ^ 63 ≤ snap.generation.toNat) ∧
        ¬(512 < (unifiedInputs env snap).length ∨
          ¬((unifiedInputs env snap).map UnifiedRuleInput.id).Nodup) ∧
        ∀ rule ∈ unifiedInputs env snap, ∃ flats, compileRule rule = .ok flats := by
  unfold compileSnapshot
  by_cases hversion : snap.schemaVersion ≠ 1 ∨ 2 ^ 63 ≤ snap.generation.toNat
  · rw [if_pos hversion]
    exact ⟨fun ⟨_, h⟩ => (nomatch h), fun h => absurd hversion h.1⟩
  · rw [if_neg hversion]
    by_cases hinputs : 512 < (unifiedInputs env snap).length ∨
        ¬((unifiedInputs env snap).map UnifiedRuleInput.id).Nodup
    · rw [if_pos hinputs]
      exact ⟨fun ⟨_, h⟩ => (nomatch h), fun h => absurd hinputs h.2.1⟩
    · rw [if_neg hinputs]
      constructor
      · rintro ⟨engine, h⟩
        refine ⟨hversion, hinputs, fun rule hrule => ?_⟩
        cases hcompiled : (unifiedInputs env snap).mapM compileRule with
        | error err =>
          rw [hcompiled] at h
          cases h
        | ok compiled =>
          obtain ⟨flats, -, hok⟩ := mem_mapM_of_mem hcompiled hrule
          exact ⟨flats, hok⟩
      · rintro ⟨-, -, hrules⟩
        obtain ⟨compiled, hcompiled⟩ := exists_mapM_ok hrules
        rw [hcompiled]
        exact ⟨_, rfl⟩

theorem compileSnapshot_perm (hperm : rules.Perm snap.rules)
    (h : ∀ rule ∈ snap.rules, ExplicitOrder rule)
    (hok : ∃ engine, compileSnapshot env snap = .ok engine) :
    ∃ engine, compileSnapshot env { snap with rules := rules } = .ok engine := by
  have hinputs : (unifiedInputs env { snap with rules := rules }).Perm (unifiedInputs env snap) :=
    unifiedInputs_perm hperm h
  rw [compileSnapshot_ok_iff] at hok ⊢
  obtain ⟨hversion, hbounds, hrules⟩ := hok
  refine ⟨hversion, ?_, fun rule hrule => hrules rule (hinputs.mem_iff.mp hrule)⟩
  rw [hinputs.length_eq, (hinputs.map UnifiedRuleInput.id).nodup_iff]
  exact hbounds

/-! ## Accepted policies -/

structure AcceptedPolicy where
  env : Environment
  bytes : Bytes
  snap : IpRestrictionSnapshot
  parsed : env.parseSnapshot bytes = some snap
  engine : IpRestrictionEngine
  accepted : IpRestrictionEngine.fromSnapshot env bytes = .ok engine

namespace AcceptedPolicy

theorem fromSnapshot_of_size {env : Environment} {bytes : Bytes} {snap : IpRestrictionSnapshot}
    (hne : bytes ≠ []) (hle : bytes.length ≤ maxPolicyBytes)
    (hparse : env.parseSnapshot bytes = some snap) :
    fromSnapshot env bytes = compileSnapshot env snap := by
  rw [fromSnapshot, hparse]
  simp [hne, hle]

variable (policy : AcceptedPolicy)

theorem exists_compileSnapshot :
    compileSnapshot policy.env policy.snap = .ok policy.engine := by
  have haccepted := policy.accepted
  unfold fromSnapshot at haccepted
  rw [policy.parsed] at haccepted
  exact (of_check haccepted).2

theorem evaluate_permuted {bytes : Bytes} {rules : List ConfiguredRule} (hne : bytes ≠ [])
    (hle : bytes.length ≤ maxPolicyBytes)
    (hparse : policy.env.parseSnapshot bytes = some { policy.snap with rules := rules })
    (hperm : rules.Perm policy.snap.rules)
    (hexplicit : ∀ rule ∈ policy.snap.rules, ExplicitOrder rule) :
    ∃ engine, fromSnapshot policy.env bytes = .ok engine ∧
      ∀ q, engine.evaluate q = policy.engine.evaluate q := by
  obtain ⟨engine, hengine⟩ := compileSnapshot_perm hperm hexplicit
    ⟨policy.engine, policy.exists_compileSnapshot⟩
  have haccepted : fromSnapshot policy.env bytes = .ok engine := by
    rw [fromSnapshot_of_size hne hle hparse, hengine]
  have hcompiled := fromSnapshot_compiled policy.accepted policy.parsed
  have hcompiled' := fromSnapshot_compiled haccepted hparse
  have hgeneration : engine.generation = policy.engine.generation := by
    rw [hcompiled'.generation, hcompiled.generation]
  refine ⟨engine, haccepted, fun q => ?_⟩
  by_cases hsent : ∃ ip, Sent q ip
  · obtain ⟨ip, hsent⟩ := hsent
    obtain ⟨decision, hdecision, hdecides⟩ := hcompiled.evaluate_decides hsent
    obtain ⟨decision', hdecision', hdecides'⟩ := hcompiled'.evaluate_decides hsent
    rw [hgeneration] at hdecides'
    rw [hdecision, hdecision',
      (hdecides'.of_perm (unifiedInputs_perm hperm hexplicit)).unique hcompiled.ids hdecides]
  · rw [evaluate_of_not_sent engine hsent, evaluate_of_not_sent policy.engine hsent]

theorem evaluate_longestPrefix {q : IpRestrictionRequest} {decision : Decision}
    (h : policy.engine.evaluate q = .ok decision) :
    ∃ ip, parseClientIp q.ip = some ip ∧
      LongestPrefix (unifiedInputs policy.env policy.snap) ip q decision := by
  by_cases hsent : ∃ ip, Sent q ip
  · obtain ⟨ip, hsent⟩ := hsent
    obtain ⟨decision', hdecision, hdecides⟩ :=
      (fromSnapshot_compiled policy.accepted policy.parsed).evaluate_decides hsent
    obtain rfl := Except.ok.inj (h.symm.trans hdecision)
    exact ⟨ip, hsent.address, hdecides.longestPrefix⟩
  · rw [evaluate_of_not_sent policy.engine hsent] at h
    cases h

/-- Every decision is that of the least pair of a rule and a network that match; rules with ids
and priorities of their own may be listed in any order. -/
theorem decides_by_longest_prefix (policy : AcceptedPolicy) :
    (∀ q decision, policy.engine.evaluate q = .ok decision →
      ∃ ip, parseClientIp q.ip = some ip ∧
        LongestPrefix (unifiedInputs policy.env policy.snap) ip q decision) ∧
    ∀ (bytes : Bytes) (rules : List ConfiguredRule), bytes ≠ [] →
      bytes.length ≤ maxPolicyBytes →
      policy.env.parseSnapshot bytes = some { policy.snap with rules := rules } →
      rules.Perm policy.snap.rules → (∀ rule ∈ policy.snap.rules, ExplicitOrder rule) →
      ∃ engine, IpRestrictionEngine.fromSnapshot policy.env bytes = .ok engine ∧
        ∀ q, engine.evaluate q = policy.engine.evaluate q :=
  ⟨fun _ _ h => policy.evaluate_longestPrefix h,
    fun _ _ hne hle hparse hperm hexplicit =>
      policy.evaluate_permuted hne hle hparse hperm hexplicit⟩

end AcceptedPolicy

/-! ## A rule without networks -/

def privateOnlySnapshot : IpRestrictionSnapshot where
  schemaVersion := 1
  generation := 1
  whitelist := [.ofAscii "10.0.0.0/8"]
  blacklist := []
  rules := [{ id := .number (some 1)
              cidr := .ofAscii ""
              matchValue := .ofAscii ""
              action := .ofAscii "block"
              priority := some 1
              enabled := some true
              networks := []
              pathPrefix := none
              host := .ofAscii "*"
              method := .ofAscii "*"
              log := false }]

theorem privateOnly_ids :
    (unifiedInputs (.constant privateOnlySnapshot) privateOnlySnapshot).map UnifiedRuleInput.id =
      [10000] := by
  decide +kernel

theorem networkless_rule_ignored :
    ∃ (policy : AcceptedPolicy) (ip : ParsedIp) (decision : Decision),
      policy.snap = privateOnlySnapshot ∧
        (∃ rule ∈ policy.snap.rules, rule.enabled = some true ∧ rule.action.bytes = ascii "block") ∧
        parseClientIp (ascii "203.0.113.7") = some ip ∧
        (∀ rule net, ¬MatchingPair (unifiedInputs policy.env policy.snap) ip
          (requestFrom (ascii "203.0.113.7") (ascii "GET")) rule net) ∧
        policy.engine.evaluate (requestFrom (ascii "203.0.113.7") (ascii "GET")) = .ok decision ∧
        decision.action = 1 := by
  obtain ⟨engine, haccepted, hblocked⟩ := exists_ok_of_any
    (p := fun engine : IpRestrictionEngine =>
      (engine.evaluate (requestFrom (ascii "203.0.113.7") (ascii "GET"))).toOption.any
        fun decision => decision.action == 1 && decision.ruleId == 0)
    (by decide +kernel : (fromSnapshot (.constant privateOnlySnapshot)
      [0]).toOption.any _ = true)
  obtain ⟨decision, hdecision, haction⟩ := exists_ok_of_any hblocked
  simp only [Bool.and_eq_true, beq_iff_eq] at haction
  let policy : AcceptedPolicy := ⟨_, _, privateOnlySnapshot, rfl, engine, haccepted⟩
  obtain ⟨ip, hip, hlongest⟩ := policy.evaluate_longestPrefix hdecision
  refine ⟨policy, ip, decision, rfl, ⟨_, List.mem_cons_self, rfl, rfl⟩, hip, ?_, hdecision,
    haction.1⟩
  cases hlongest with
  | none hnone => exact hnone
  | pair rule net hpair hleast hrule =>
    have hid := List.mem_map_of_mem (f := UnifiedRuleInput.id) hpair.mem
    rw [privateOnly_ids, List.mem_singleton, ← hrule, haction.2] at hid
    cases hid

end AuroraGateway.IpRestriction
