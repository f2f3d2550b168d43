import AuroraGateway.IpRestriction.Decisions

/-!
# Blocking of an address

A rule that blocks a network for every host, method and path.  A method that has
no bit of its own matches no rule at all, so that even such a rule lets it pass.
-/

namespace AuroraGateway.IpRestriction

open Engine Foundation IpRestrictionEngine

/-! ## Methods -/

def knownMethods : List Bytes :=
  [ascii "GET", ascii "POST", ascii "PUT", ascii "DELETE", ascii "HEAD", ascii "OPTIONS",
    ascii "PATCH", ascii "CONNECT", ascii "TRACE"]

/-- The wildcard itself, or one of the nine methods in any case. -/
def IsKnownMethod (method : Bytes) : Prop :=
  method = ascii "*" ∨ ∃ known ∈ knownMethods, eqIgnoreAsciiCase method known = true

theorem ite_mask_ne_zero {c : Prop} [Decidable c] {mask other : BitVec 16}
    (hmask : mask ≠ 0) : (if c then mask else other) ≠ 0 ↔ c ∨ other ≠ 0 := by
  by_cases hc : c
  · rw [if_pos hc]
    exact ⟨fun _ => .inl hc, fun _ => hmask⟩
  · rw [if_neg hc]
    exact ⟨.inr, fun h => h.resolve_left hc⟩

theorem methodToMask_ne_zero_iff (method : Bytes) :
    methodToMask method ≠ 0 ↔ IsKnownMethod method := by
  unfold methodToMask methodBit
  rw [ite_mask_ne_zero (by decide), ite_mask_ne_zero (by decide),
    ite_mask_ne_zero (by decide), ite_mask_ne_zero (by decide),
    ite_mask_ne_zero (by decide), ite_mask_ne_zero (by decide),
    ite_mask_ne_zero (by decide), ite_mask_ne_zero (by decide),
    ite_mask_ne_zero (by decide), ite_mask_ne_zero (by decide)]
  simp [IsKnownMethod, knownMethods]

/-! ## Rules that block everything -/

structure UnifiedRuleInput.BlocksAll (rule : UnifiedRuleInput) : Prop where
  isBlock : rule.isBlock = true
  host : rule.host = ascii "*"
  method : rule.method = ascii "*"
  pathPrefix : rule.pathPrefix = ascii "/"

def NotPreceded (inputs : List UnifiedRuleInput) (rule : UnifiedRuleInput)
    (network : Network) (ip : ParsedIp) (q : IpRestrictionRequest) : Prop :=
  ∀ other ∈ inputs, other.isBlock = false → ∀ s ∈ other.networks, ∀ network',
    parseNetwork s = some network' → other.matches network' ip q = true →
      ¬other.order network' < rule.order network

variable {q : IpRestrictionRequest}

theorem matches_of_blocksAll {rule : UnifiedRuleInput} (h : rule.BlocksAll) {network : Network}
    {ip : ParsedIp} (hcovers : network.covers ip = true) (hmethod : methodToMask q.method ≠ 0)
    (hpath : (ascii "/").isPrefixOf q.path = true) : rule.matches network ip q = true := by
  have hlength : 1 ≤ q.path.length := (List.isPrefixOf_iff_prefix.mp hpath).length_le
  have hall : methodToMask (ascii "*") = BitVec.allOnes 16 := by decide
  have hroot : matchesPath (ascii "/") q.path = true := by
    simp only [matchesPath, hpath, beq_self_eq_true, Bool.true_or, Bool.and_true,
      decide_eq_true_eq]
    exact hlength
  have hhost : (HostMatcher.parse (ascii "*")).any (fun host => host.matches q.host) = true := rfl
  simp only [UnifiedRuleInput.matches, h.host, h.method, h.pathPrefix, hcovers, hroot, hhost, hall,
    BitVec.allOnes_and, Bool.true_and, Bool.and_true]
  simpa using hmethod

theorem path_of_valid (hvalid : invalidRequest q = false) :
    (ascii "/").isPrefixOf q.path = true := by
  cases hpath : q.path with
  | nil => simp [invalidRequest, hpath] at hvalid
  | cons byte rest =>
    have hslash : byte = slash := by
      by_contra hne
      simp [invalidRequest, hpath, hne] at hvalid
    subst hslash
    rfl

/-- Under a rule that blocks the address for every host, method and path, and that no
matching rule that lets in precedes, a well-formed request is blocked exactly if its method
is one of those that the engine knows. -/
theorem wildcard_block_iff {env : Environment} {bytes : Bytes} {engine : IpRestrictionEngine}
    (haccept : IpRestrictionEngine.fromSnapshot env bytes = .ok engine)
    {snap : IpRestrictionSnapshot} (hsnap : env.parseSnapshot bytes = some snap)
    {rule : UnifiedRuleInput} (hrule : rule ∈ unifiedInputs env snap)
    (hblocks : rule.BlocksAll) {s : Bytes} (hs : s ∈ rule.networks) {network : Network}
    (hparse : parseNetwork s = some network) {q : IpRestrictionRequest} {ip : ParsedIp}
    (hip : parseClientIp q.ip = some ip) (hcovers : network.covers ip = true)
    (hfirst : NotPreceded (unifiedInputs env snap) rule network ip q)
    (hvalid : IpRestrictionEngine.invalidRequest q = false) :
    (∃ decision, engine.evaluate q = .ok decision ∧ decision.action = 1) ↔
      IsKnownMethod q.method := by
  have hcompiled := fromSnapshot_compiled haccept hsnap
  obtain ⟨decision, hevaluate, hdecides⟩ := hcompiled.evaluate_decides ⟨hvalid, hip⟩
  rw [hevaluate, ← methodToMask_ne_zero_iff]
  simp only [Except.ok.injEq, exists_eq_left']
  constructor
  · intro haction hunknown
    have hlenient : isStrict (unifiedInputs env snap) = false := by
      simp [isStrict, List.any_eq_true.mpr ⟨rule, hrule, hblocks.isBlock⟩]
    rw [hdecides.eq_fallback hunknown, fallbackDecision, hlenient] at haction
    cases haction
  · intro hknown
    have happlies : Applies (unifiedInputs env snap) ip q rule network :=
      ⟨hrule, ⟨s, hs, hparse⟩, matches_of_blocksAll hblocks hcovers hknown (path_of_valid hvalid)⟩
    cases hdecides with
    | fallback hnone => exact absurd happlies (hnone rule network)
    | rule first network' hfound hleast =>
      have hblock : first.isBlock = true := by
        by_contra hlets
        obtain ⟨s', hs', hparse'⟩ := hfound.listed
        have hnot := hfirst first hfound.mem (by simpa using hlets) s' hs' network' hparse'
          hfound.applies
        -- Rules of one place in the order have one id, so they are one rule.
        have hsame := le_antisymm (hleast rule network happlies) (not_lt.mp hnot)
        rw [List.inj_on_of_nodup_map hcompiled.ids hfound.mem hrule (id_eq_of_order_eq hsame)]
          at hlets
        exact hlets hblocks.isBlock
      rw [ruleDecision, hblock]
      rfl

/-! ## Samples -/

def blockEverySnapshot : IpRestrictionSnapshot where
  schemaVersion := 1
  generation := 1
  whitelist := []
  blacklist := [⟨ascii "0.0.0.0/0", by decide⟩]
  rules := []

def blockEveryRule : UnifiedRuleInput where
  id := 20000
  priority := 20
  isBlock := true
  networks := [ascii "0.0.0.0/0"]
  pathPrefix := ascii "/"
  host := ascii "*"
  method := ascii "*"
  log := false

def Environment.constant (snap : IpRestrictionSnapshot) : Environment where
  parseSnapshot := fun _ => some snap
  defaultHash := fun _ => 0

theorem unifiedInputs_blockEvery :
    unifiedInputs (.constant blockEverySnapshot) blockEverySnapshot = [blockEveryRule] := by
  decide +kernel

def requestFrom (ip method : Bytes) : IpRestrictionRequest where
  ip := ip
  host := ascii "example.com"
  path := ascii "/"
  method := method

theorem blockEveryRule_mem : blockEveryRule ∈
    unifiedInputs (.constant blockEverySnapshot) blockEverySnapshot := by
  rw [unifiedInputs_blockEvery]
  exact List.mem_singleton_self _

theorem blockEveryRule_notPreceded (network : Network) (ip : ParsedIp)
    (q : IpRestrictionRequest) :
    NotPreceded (unifiedInputs (.constant blockEverySnapshot) blockEverySnapshot)
      blockEveryRule network ip q := by
  intro other hother hlets
  rw [unifiedInputs_blockEvery, List.mem_singleton] at hother
  subst hother
  exact Bool.noConfusion hlets

theorem parseNetwork_every : parseNetwork (ascii "0.0.0.0/0") = some (.v4 ⟨0, 0, 0⟩) := by
  decide +kernel

theorem parseClientIp_sample :
    parseClientIp (ascii "203.0.113.7") = some (.v4 0xCB007107#32) := by
  decide +kernel

theorem post_blocked :
    ∃ engine, IpRestrictionEngine.fromSnapshot (.constant blockEverySnapshot) [0] =
        .ok engine ∧
      ∃ decision, engine.evaluate (requestFrom (ascii "203.0.113.7") (ascii "POST")) =
        .ok decision ∧ decision.action = 1 := by
  obtain ⟨engine, haccept, -⟩ := exists_ok_of_any (p := fun _ => true)
    (by decide +kernel : (fromSnapshot (.constant blockEverySnapshot)
      [0]).toOption.any (fun _ => true) = true)
  refine ⟨engine, haccept, (wildcard_block_iff haccept rfl blockEveryRule_mem
    ⟨rfl, rfl, rfl, rfl⟩ List.mem_cons_self parseNetwork_every parseClientIp_sample
    (by decide) (blockEveryRule_notPreceded _ _ _) (by decide)).mpr ?_⟩
  exact .inr ⟨ascii "POST", by decide, by decide⟩

/-- The snapshot blocks every address, but a method without a bit passes. -/
theorem propfind_not_blocked :
    let q := requestFrom (ascii "203.0.113.7") (ascii "PROPFIND")
    blockEveryRule ∈ unifiedInputs (.constant blockEverySnapshot) blockEverySnapshot ∧
      blockEveryRule.BlocksAll ∧
      (∃ network ip, parseNetwork (ascii "0.0.0.0/0") = some network ∧
        ascii "0.0.0.0/0" ∈ blockEveryRule.networks ∧ parseClientIp q.ip = some ip ∧
        network.covers ip = true ∧
        NotPreceded (unifiedInputs (.constant blockEverySnapshot) blockEverySnapshot)
          blockEveryRule network ip q) ∧
      IpRestrictionEngine.invalidRequest q = false ∧
      ∃ engine, IpRestrictionEngine.fromSnapshot (.constant blockEverySnapshot) [0] =
          .ok engine ∧
        ∃ decision, engine.evaluate q = .ok decision ∧ decision.action = 0 := by
  refine ⟨blockEveryRule_mem, ⟨rfl, rfl, rfl, rfl⟩, ⟨_, _, parseNetwork_every,
    List.mem_cons_self, parseClientIp_sample, by decide, blockEveryRule_notPreceded _ _ _⟩,
    by decide, ?_⟩
  obtain ⟨engine, haccept, hpassed⟩ := exists_ok_of_any
    (p := fun engine : IpRestrictionEngine =>
      (engine.evaluate (requestFrom (ascii "203.0.113.7") (ascii "PROPFIND"))).toOption.any
        fun decision => decision.action == 0)
    (by decide +kernel : (fromSnapshot (.constant blockEverySnapshot)
      [0]).toOption.any _ = true)
  obtain ⟨decision, hdecision, haction⟩ := exists_ok_of_any hpassed
  exact ⟨engine, haccept, decision, hdecision, by simpa using haction⟩

end AuroraGateway.IpRestriction
