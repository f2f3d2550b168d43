import AuroraGateway.IpRestriction.Snapshot

/-!
# What the rules decide

The flat rules of an engine are a way to find the first input rule that applies
to a request.  Decisions are described here by the input rules, so that the
engines of two configurations can be compared.
-/

namespace AuroraGateway.IpRestriction

open Engine Foundation IpRestrictionEngine

/-! ## The flat rules of a snapshot -/

def IsFlat {w : Nat} (family : Network → Option (Cidr w)) (inputs : List UnifiedRuleInput)
    (flat : FlatIpRule w) : Prop :=
  ∃ rule ∈ inputs, ∃ host, HostMatcher.parse rule.host = some host ∧
    ∃ s ∈ rule.networks, ∃ network, parseNetwork s = some network ∧
      ∃ cidr, family network = some cidr ∧ flat = flatRule rule host cidr

structure Compiled (env : Environment) (snap : IpRestrictionSnapshot)
    (engine : IpRestrictionEngine) : Prop where
  generation : engine.generation = snap.generation.toNat
  ids : ((unifiedInputs env snap).map UnifiedRuleInput.id).Nodup
  hosts : ∀ rule ∈ unifiedInputs env snap, (HostMatcher.parse rule.host).isSome = true
  rulesV4 : ∃ flats, engine.rulesV4 = sortByKey FlatIpRule.order flats ∧
    ∀ flat, flat ∈ flats ↔ IsFlat Network.asV4 (unifiedInputs env snap) flat
  rulesV6 : ∃ flats, engine.rulesV6 = sortByKey FlatIpRule.order flats ∧
    ∀ flat, flat ∈ flats ↔ IsFlat Network.asV6 (unifiedInputs env snap) flat
  strict : engine.isWhitelistStrict =
    ((unifiedInputs env snap).any (fun rule => !rule.isBlock) &&
      !(unifiedInputs env snap).any (·.isBlock))

theorem compileNetwork_ok {s : Bytes} {network : Network} :
    compileNetwork s = .ok network ↔ parseNetwork s = some network := by
  unfold compileNetwork
  split <;> simp_all

variable {rule : UnifiedRuleInput}

theorem compileRule_ok {result : List FlatIpv4Rule × List FlatIpv6Rule}
    (h : compileRule rule = .ok result) :
    ∃ host networks, HostMatcher.parse rule.host = some host ∧
      rule.networks.mapM compileNetwork = .ok networks ∧
      result = (networks.filterMap fun network => network.asV4.map (flatRule rule host),
        networks.filterMap fun network => network.asV6.map (flatRule rule host)) := by
  unfold compileRule at h
  split at h
  · cases h
  · rename_i host hhost
    obtain ⟨-, h⟩ := of_check h
    split at h
    · cases h
    · rename_i networks hnetworks
      exact ⟨host, networks, hhost, hnetworks, (Except.ok.inj h).symm⟩

theorem mem_flats {w : Nat} {family : Network → Option (Cidr w)}
    {inputs : List UnifiedRuleInput} {compiled : List (List FlatIpv4Rule × List FlatIpv6Rule)}
    {part : List FlatIpv4Rule × List FlatIpv6Rule → List (FlatIpRule w)}
    (hpart : ∀ (rule : UnifiedRuleInput) (host : HostMatcher) (networks : List Network),
      part (networks.filterMap fun network => network.asV4.map (flatRule rule host),
        networks.filterMap fun network => network.asV6.map (flatRule rule host)) =
      networks.filterMap fun network => (family network).map (flatRule rule host))
    (hcompiled : inputs.mapM compileRule = .ok compiled) (flat : FlatIpRule w) :
    flat ∈ compiled.flatMap part ↔ IsFlat family inputs flat := by
  rw [List.mem_flatMap]
  constructor
  · rintro ⟨result, hresult, hflat⟩
    obtain ⟨rule, hrule, hok⟩ := exists_of_mem_mapM hcompiled hresult
    obtain ⟨host, networks, hhost, hnetworks, rfl⟩ := compileRule_ok hok
    rw [hpart, List.mem_filterMap] at hflat
    obtain ⟨network, hnetwork, hcidr⟩ := hflat
    obtain ⟨cidr, hfamily, rfl⟩ := Option.map_eq_some_iff.mp hcidr
    obtain ⟨s, hs, hparse⟩ := exists_of_mem_mapM hnetworks hnetwork
    exact ⟨rule, hrule, host, hhost, s, hs, network, compileNetwork_ok.mp hparse, cidr,
      hfamily, rfl⟩
  · rintro ⟨rule, hrule, host, hhost, s, hs, network, hparse, cidr, hfamily, rfl⟩
    obtain ⟨result, hresult, hok⟩ := mem_mapM_of_mem hcompiled hrule
    obtain ⟨host', networks, hhost', hnetworks, rfl⟩ := compileRule_ok hok
    obtain rfl : host = host' := Option.some.inj (hhost.symm.trans hhost')
    refine ⟨_, hresult, ?_⟩
    rw [hpart, List.mem_filterMap]
    obtain ⟨network', hnetwork', hparse'⟩ := mem_mapM_of_mem hnetworks hs
    rw [compileNetwork_ok, hparse, Option.some.injEq] at hparse'
    subst hparse'
    exact ⟨network, hnetwork', by rw [hfamily, Option.map_some]⟩

theorem fromSnapshot_compiled {env : Environment} {bytes : Bytes}
    {engine : IpRestrictionEngine} (h : fromSnapshot env bytes = .ok engine)
    {snap : IpRestrictionSnapshot} (hparse : env.parseSnapshot bytes = some snap) :
    Compiled env snap engine := by
  obtain ⟨-, h⟩ := of_check h
  rw [hparse] at h
  obtain ⟨-, h⟩ := of_check h
  obtain ⟨hshape, h⟩ := of_check h
  split at h
  · cases h
  · rename_i compiled hcompiled
    obtain rfl := Except.ok.inj h
    refine ⟨rfl, by simpa using (not_or.mp hshape).2, fun rule hrule => ?_,
      ⟨_, rfl, mem_flats (fun _ _ _ => rfl) hcompiled⟩,
      ⟨_, rfl, mem_flats (fun _ _ _ => rfl) hcompiled⟩, rfl⟩
    obtain ⟨_, -, hok⟩ := mem_mapM_of_mem hcompiled hrule
    obtain ⟨host, -, hhost, -⟩ := compileRule_ok hok
    rw [hhost]
    rfl

/-! ## Rules and requests -/

def Network.prefixLen : Network → Nat
  | .v4 cidr => cidr.prefixLen
  | .v6 cidr => cidr.prefixLen

def Network.covers : Network → ParsedIp → Bool
  | .v4 cidr, .v4 ip => cidr.covers ip
  | .v6 cidr, .v6 ip => cidr.covers ip
  | _, _ => false

def UnifiedRuleInput.matches (rule : UnifiedRuleInput) (network : Network) (ip : ParsedIp)
    (q : IpRestrictionRequest) : Bool :=
  network.covers ip && (methodToMask rule.method &&& methodToMask q.method) != 0 &&
    (HostMatcher.parse rule.host).any (fun host => host.matches q.host) &&
    matchesPath rule.pathPrefix q.path

def UnifiedRuleInput.order (rule : UnifiedRuleInput) (network : Network) : FlatOrder :=
  flatOrder rule.priority network.prefixLen rule.id

structure Applies (inputs : List UnifiedRuleInput) (ip : ParsedIp) (q : IpRestrictionRequest)
    (rule : UnifiedRuleInput) (network : Network) : Prop where
  mem : rule ∈ inputs
  listed : ∃ s ∈ rule.networks, parseNetwork s = some network
  applies : rule.matches network ip q = true

def isStrict (inputs : List UnifiedRuleInput) : Bool :=
  (inputs.any fun rule => !rule.isBlock) && !inputs.any (·.isBlock)

def ruleDecision (generation : Nat) (rule : UnifiedRuleInput) : Decision where
  generation := generation
  ruleId := rule.id
  action := if rule.isBlock then 1 else 0
  score := 0
  logMatches := if rule.log then 1 else 0
  reserved := 0

def fallbackDecision (generation : Nat) (strict : Bool) : Decision where
  generation := generation
  ruleId := 0
  action := if strict then 1 else 0
  score := 0
  logMatches := 0
  reserved := 0

variable {ip : ParsedIp} {env : Environment}
  {snap : IpRestrictionSnapshot} {engine : IpRestrictionEngine}

theorem isBlock_of_isStrict {inputs : List UnifiedRuleInput} (h : isStrict inputs = true)
    (hmem : rule ∈ inputs) : rule.isBlock = false := by
  simp only [isStrict, Bool.and_eq_true, Bool.not_eq_true', List.any_eq_false] at h
  simpa using h.2 rule hmem

theorem isStrict_eq_of_fallback {generation : Nat} {strict strict' : Bool}
    (h : fallbackDecision generation strict = fallbackDecision generation strict') :
    strict = strict' := by
  have haction := congrArg Decision.action h
  cases strict <;> cases strict' <;> simp [fallbackDecision] at haction ⊢

inductive Decides (generation : Nat) (inputs : List UnifiedRuleInput) (ip : ParsedIp)
    (q : IpRestrictionRequest) : Decision → Prop
  | rule (rule : UnifiedRuleInput) (network : Network)
      (happlies : Applies inputs ip q rule network)
      (hfirst : ∀ other network', Applies inputs ip q other network' →
        rule.order network ≤ other.order network') :
      Decides generation inputs ip q (ruleDecision generation rule)
  | fallback (hnone : ∀ rule network, ¬Applies inputs ip q rule network) :
      Decides generation inputs ip q (fallbackDecision generation (isStrict inputs))

/-! ## Decisions of the engine -/

theorem flatRule_matches {w : Nat} {host : HostMatcher}
    (hhost : HostMatcher.parse rule.host = some host) {network : Network} {cidr : Cidr w}
    {addr : BitVec w} (hcovers : network.covers ip = cidr.covers addr)
    (q : IpRestrictionRequest) :
    (flatRule rule host cidr).matches addr (methodToMask q.method) q.host q.path =
      rule.matches network ip q := by
  simp [UnifiedRuleInput.matches, FlatIpRule.matches, flatRule, hhost, hcovers, Cidr.covers]

theorem decides_lookup (hcompiled : Compiled env snap engine) {w : Nat}
    {family : Network → Option (Cidr w)} {flats : List (FlatIpRule w)}
    {addr : BitVec w}
    (hflats : ∀ flat, flat ∈ flats ↔ IsFlat family (unifiedInputs env snap) flat)
    (hfamily : ∀ network cidr, family network = some cidr →
      network.prefixLen = cidr.prefixLen ∧ network.covers ip = cidr.covers addr)
    (hother : ∀ network, family network = none → network.covers ip = false)
    (q : IpRestrictionRequest) :
    Decides engine.generation (unifiedInputs env snap) ip q
      (engine.decisionOf ((sortByKey FlatIpRule.order flats).find? fun flat =>
        flat.matches addr (methodToMask q.method) q.host q.path)) := by
  -- A rule that applies has a flat rule that matches, at the same place in the order.
  have hflat : ∀ rule network, Applies (unifiedInputs env snap) ip q rule network →
      ∃ flat ∈ flats, flat.matches addr (methodToMask q.method) q.host q.path = true ∧
        flat.order = rule.order network := by
    rintro rule network ⟨hrule, ⟨s, hs, hparse⟩, hmatches⟩
    obtain ⟨host, hhost⟩ := Option.isSome_iff_exists.mp (hcompiled.hosts rule hrule)
    cases hcidr : family network with
    | none =>
      rw [UnifiedRuleInput.matches, hother network hcidr] at hmatches
      simp at hmatches
    | some cidr =>
      obtain ⟨hlen, hcovers⟩ := hfamily network cidr hcidr
      refine ⟨flatRule rule host cidr, (hflats _).mpr ⟨rule, hrule, host, hhost, s, hs, network,
        hparse, cidr, hcidr, rfl⟩, ?_, ?_⟩
      · rw [flatRule_matches hhost hcovers]
        exact hmatches
      · rw [UnifiedRuleInput.order, hlen]
        rfl
  cases hfind : (sortByKey FlatIpRule.order flats).find? fun flat =>
      flat.matches addr (methodToMask q.method) q.host q.path with
  | none =>
    rw [decisionOf, hcompiled.strict]
    refine .fallback fun rule network happlies => ?_
    obtain ⟨flat, hmem, hmatches, -⟩ := hflat rule network happlies
    exact List.find?_eq_none.mp hfind flat ((mem_sortByKey _).mpr hmem) hmatches
  | some found =>
    have hfound := (mem_sortByKey _).mp (List.mem_of_find?_eq_some hfind)
    have hmatches := List.find?_some hfind
    obtain ⟨rule, hrule, host, hhost, s, hs, network, hparse, cidr, hcidr, rfl⟩ :=
      (hflats _).mp hfound
    obtain ⟨hlen, hcovers⟩ := hfamily network cidr hcidr
    refine .rule rule network ⟨hrule, ⟨s, hs, hparse⟩, ?_⟩ ?_
    · rw [← flatRule_matches hhost hcovers]
      exact hmatches
    · intro other network' happlies
      obtain ⟨flat, hmem, hflatMatches, horder⟩ := hflat other network' happlies
      have hle := key_le_of_find?_sortByKey _ hfind hmem hflatMatches
      rw [horder] at hle
      rw [UnifiedRuleInput.order, hlen]
      exact hle

theorem asV4_spec (addr : BitVec 32) (network : Network) (cidr : Cidr 32)
    (h : network.asV4 = some cidr) :
    network.prefixLen = cidr.prefixLen ∧ network.covers (.v4 addr) = cidr.covers addr := by
  cases network with
  | v4 other =>
    obtain rfl := Option.some.inj h
    exact ⟨rfl, rfl⟩
  | v6 other => simp [Network.asV4] at h

theorem asV6_spec (addr : BitVec 128) (network : Network) (cidr : Cidr 128)
    (h : network.asV6 = some cidr) :
    network.prefixLen = cidr.prefixLen ∧ network.covers (.v6 addr) = cidr.covers addr := by
  cases network with
  | v4 other => simp [Network.asV6] at h
  | v6 other =>
    obtain rfl := Option.some.inj h
    exact ⟨rfl, rfl⟩

theorem asV4_none (addr : BitVec 32) (network : Network) (h : network.asV4 = none) :
    network.covers (.v4 addr) = false := by
  cases network with
  | v4 cidr => cases h
  | v6 cidr => rfl

theorem asV6_none (addr : BitVec 128) (network : Network) (h : network.asV6 = none) :
    network.covers (.v6 addr) = false := by
  cases network with
  | v4 cidr => rfl
  | v6 cidr => cases h

structure Sent (q : IpRestrictionRequest) (ip : ParsedIp) : Prop where
  valid : IpRestrictionEngine.invalidRequest q = false
  address : parseClientIp q.ip = some ip

variable {q : IpRestrictionRequest}

theorem evaluate_of_not_sent (engine : IpRestrictionEngine) (h : ¬∃ ip, Sent q ip) :
    engine.evaluate q = .error .invalidRequest := by
  unfold evaluate
  split
  · rfl
  · rename_i hvalid
    cases hip : parseClientIp q.ip with
    | none => rfl
    | some ip => exact absurd ⟨ip, by simpa using hvalid, hip⟩ h

theorem Compiled.evaluate_decides (hcompiled : Compiled env snap engine) (hsent : Sent q ip) :
    ∃ decision, engine.evaluate q = .ok decision ∧
      Decides engine.generation (unifiedInputs env snap) ip q decision := by
  rw [evaluate, hsent.valid]
  simp only [hsent.address]
  cases ip with
  | v4 addr =>
    obtain ⟨flats, hrules, hflats⟩ := hcompiled.rulesV4
    refine ⟨_, rfl, ?_⟩
    rw [hrules]
    exact decides_lookup hcompiled hflats (asV4_spec addr) (asV4_none addr) q
  | v6 addr =>
    obtain ⟨flats, hrules, hflats⟩ := hcompiled.rulesV6
    refine ⟨_, rfl, ?_⟩
    rw [hrules]
    exact decides_lookup hcompiled hflats (asV6_spec addr) (asV6_none addr) q

/-! ## Ids -/

theorem configuredId_ne_zero (env : Environment) (i : Nat) (id : RuleIdInput) :
    configuredId env i id ≠ 0 := by
  unfold configuredId
  intro hzero
  dsimp only at hzero
  split_ifs at hzero with h
  · omega
  · exact h hzero

theorem id_ne_zero_of_configuredRule {cfgRule : ConfiguredRule} {i : Nat}
    (h : configuredRule env cfgRule i = some rule) : rule.id ≠ 0 := by
  unfold configuredRule at h
  split at h
  · cases h
  · split at h
    · cases h
    · obtain rfl := Option.some.inj h
      exact configuredId_ne_zero env i cfgRule.id

/-! ## Added rules -/

section Added

variable {generation : Nat} {inputs added : List UnifiedRuleInput} {ip : ParsedIp}
  {q : IpRestrictionRequest} {decision decision' : Decision} {rule : UnifiedRuleInput}
  {network : Network}

theorem id_eq_of_order_eq {other : UnifiedRuleInput} {network' : Network}
    (h : rule.order network = other.order network') : rule.id = other.id := by
  simp only [UnifiedRuleInput.order, flatOrder, EmbeddingLike.apply_eq_iff_eq,
    Prod.mk.injEq] at h
  exact h.2.2

theorem Applies.left (h : Applies inputs ip q rule network) :
    Applies (inputs ++ added) ip q rule network :=
  ⟨List.mem_append_left _ h.mem, h.listed, h.applies⟩

theorem Applies.right (h : Applies added ip q rule network) :
    Applies (inputs ++ added) ip q rule network :=
  ⟨List.mem_append_right _ h.mem, h.listed, h.applies⟩

theorem Applies.cases (h : Applies (inputs ++ added) ip q rule network) :
    Applies inputs ip q rule network ∨ Applies added ip q rule network := by
  rcases List.mem_append.mp h.mem with hmem | hmem
  · exact .inl ⟨hmem, h.listed, h.applies⟩
  · exact .inr ⟨hmem, h.listed, h.applies⟩

theorem not_applies_of_unknown (hmethod : methodToMask q.method = 0) :
    ¬Applies inputs ip q rule network := by
  intro h
  have hmatches := h.applies
  rw [UnifiedRuleInput.matches, hmethod] at hmatches
  simp at hmatches

theorem Decides.eq_fallback (hmethod : methodToMask q.method = 0)
    (h : Decides generation inputs ip q decision) :
    decision = fallbackDecision generation (isStrict inputs) := by
  cases h with
  | rule rule network happlies hfirst => exact absurd happlies (not_applies_of_unknown hmethod)
  | fallback hnone => rfl

theorem Decides.unique (hids : (inputs.map UnifiedRuleInput.id).Nodup)
    (h : Decides generation inputs ip q decision)
    (h' : Decides generation inputs ip q decision') : decision = decision' := by
  cases h with
  | rule rule network happlies hfirst =>
    cases h' with
    | rule rule' network' happlies' hfirst' =>
      have horder := le_antisymm (hfirst _ _ happlies') (hfirst' _ _ happlies)
      rw [List.inj_on_of_nodup_map hids happlies.mem happlies'.mem
        (id_eq_of_order_eq horder)]
    | fallback hnone => exact absurd happlies (hnone _ _)
  | fallback hnone =>
    cases h' with
    | rule rule' network' happlies' hfirst' => exact absurd happlies' (hnone _ _)
    | fallback hnone' => rfl

def Precede (inputs added : List UnifiedRuleInput) (ip : ParsedIp) (q : IpRestrictionRequest) :
    Prop :=
  ∀ rule network, Applies added ip q rule network →
    ∃ earlier network', Applies inputs ip q earlier network' ∧
      earlier.order network' < rule.order network

theorem Decides.of_append (hprecede : Precede inputs added ip q)
    (hstrict : isStrict (inputs ++ added) = isStrict inputs)
    (h : Decides generation (inputs ++ added) ip q decision) :
    Decides generation inputs ip q decision := by
  cases h with
  | rule rule network happlies hfirst =>
    rcases happlies.cases with hold | hnew
    · exact .rule rule network hold fun other network' hother => hfirst other network' hother.left
    · obtain ⟨earlier, network', hearlier, hlt⟩ := hprecede rule network hnew
      exact absurd hlt (not_lt.mpr (hfirst earlier network' hearlier.left))
  | fallback hnone =>
    rw [hstrict]
    exact .fallback fun rule network hold => hnone rule network hold.left

theorem Decides.precede (hids : ((inputs ++ added).map UnifiedRuleInput.id).Nodup)
    (hzero : ∀ rule ∈ added, rule.id ≠ 0) (h : Decides generation inputs ip q decision)
    (h' : Decides generation (inputs ++ added) ip q decision) : Precede inputs added ip q := by
  have hdiffer : ∀ old ∈ inputs, ∀ new ∈ added, old.id ≠ new.id := by
    intro old hold new hnew
    rw [List.map_append] at hids
    exact (List.nodup_append.mp hids).2.2 _ (List.mem_map_of_mem hold) _ (List.mem_map_of_mem hnew)
  intro new network hnew
  generalize hd' : decision = decision' at h'
  cases h' with
  | fallback hnone => exact absurd hnew.right (hnone _ _)
  | rule first network' hfirst hleast =>
    rcases hfirst.cases with hold | hadded
    · refine ⟨first, network', hold, lt_of_le_of_ne (hleast _ _ hnew.right) fun horder => ?_⟩
      exact hdiffer first hold.mem new hnew.mem (id_eq_of_order_eq horder)
    · -- The decision would have to name the added rule already without it.
      cases h with
      | rule old network'' hold hleast' =>
        have hid := congrArg Decision.ruleId hd'
        exact absurd hid (hdiffer old hold.mem first hadded.mem)
      | fallback hnone =>
        have hid := congrArg Decision.ruleId hd'
        exact absurd hid.symm (hzero first hadded.mem)

end Added

end AuroraGateway.IpRestriction
