import AuroraGateway.ControlWorker.RouteTables
import AuroraGateway.Foundation.AsciiText
import AuroraGateway.IpRestriction.WildcardBlock

/-!
# The route profile for internal addresses

A location that selects the profile adds one rule to the configuration of the IP
restriction, which lets the internal networks in under the path of the location.
Whether anything else is kept out is for the whole configuration to say, since the
answer to a request that no rule applies to is the same one for every path.
-/

namespace AuroraGateway.IpRestriction

open Foundation

/-! ## Rules as JSON -/

def jsonText (value : Json) : Option Text :=
  value.asStr.bind fun bytes => if h : validUtf8 bytes = true then some ⟨bytes, h⟩ else none

def jsonU32 : Json → Option UInt32
  | .number (.posInt n) => if n.toNat < 2 ^ 32 then some (.ofNat n.toNat) else none
  | _ => none

def jsonTexts (value : Json) : Option (List Text) :=
  value.asArray.bind fun items => items.mapM jsonText

def nullable {α : Type} (read : Json → Option α) : Json → Option (Option α)
  | .null => some none
  | value => (read value).map some

def memberOr {α : Type} (value : Json) (name : Bytes) (read : Json → Option α) (default : α) :
    Option α :=
  match value.get? name with
  | none => some default
  | some found => read found

def emptyText : Text := .ofAscii ""

def wildcardText : Text := .ofAscii "*"

def RuleIdInput.ofJson : Json → Option RuleIdInput
  | .number (.posInt n) => some (.number (some n))
  | .number _ => some (.number none)
  | .string bytes => (jsonText (.string bytes)).map .string
  | _ => some .other

def ConfiguredRule.ofJson (value : Json) : Option ConfiguredRule := do
  let _ ← value.asObject
  let id ← memberOr value (ascii "id") RuleIdInput.ofJson .other
  let cidr ← memberOr value (ascii "cidr") jsonText emptyText
  let _ ← memberOr value (ascii "type") jsonText emptyText
  let matchValue ← memberOr value (ascii "match_value") jsonText emptyText
  let action ← memberOr value (ascii "action") jsonText emptyText
  let priority ← memberOr value (ascii "priority") (nullable jsonU32) none
  let enabled ← memberOr value (ascii "enabled") (nullable Json.asBool) none
  let networks ← memberOr value (ascii "networks") jsonTexts []
  let pathPrefix ← memberOr value (ascii "path_prefix") (nullable jsonText) none
  let host ← memberOr value (ascii "host") jsonText wildcardText
  let method ← memberOr value (ascii "method") jsonText wildcardText
  let log ← memberOr value (ascii "log") Json.asBool false
  return ⟨id, cidr, matchValue, action, priority, enabled, networks, pathPrefix, host, method, log⟩

/-- 10.0.0.0/8, 172.16.0.0/12, 192.168.0.0/16 and 127.0.0.1. -/
def isInternal : ParsedIp → Bool
  | .v4 addr =>
    addr &&& 0xff000000 == 0x0a000000 || addr &&& 0xfff00000 == 0xac100000 ||
      addr &&& 0xffff0000 == 0xc0a80000 || addr == 0x7f000001
  | .v6 _ => false

end AuroraGateway.IpRestriction

namespace AuroraGateway.ControlWorker

open Engine Ffi Foundation IpRestriction

/-! ## Routes with the profile -/

def internalOnly : Bytes := ascii "internal_only"

def SelectsInternalOnly (codec : JsonCodec) (loc : RouteLocation) : Prop :=
  ∃ plugins, parsePlugins codec loc.pluginsJson = some plugins ∧
    ∃ plugin ∈ plugins.asObject.getD [], plugin.1.head? ≠ some underscore ∧
      resolveExtensionKeySlot plugin.1 = some auroraExtIpRestriction ∧
      (pluginSetting plugin.2).profileName = some internalOnly

structure InternalOnlyRoute where
  codec : JsonCodec
  env : IpRestriction.Environment
  routing : RoutingSpec
  shmSlots : List (Nat × Bytes)
  bytes : Bytes
  slot : getShmSlot shmSlots auroraExtIpRestriction = some bytes
  snap : IpRestrictionSnapshot
  parsed : env.parseSnapshot bytes = some snap
  engine : IpRestrictionEngine
  accepted : IpRestrictionEngine.fromSnapshot env bytes = .ok engine
  items : List Json
  configured : configItems codec .ipRestriction bytes = some items
  before : List RouteLocation
  location : RouteLocation
  after : List RouteLocation
  locations : allLocs routing = before ++ location :: after
  selects : SelectsInternalOnly codec location
  only : ∀ other ∈ before ++ after, ¬SelectsInternalOnly codec other
  notRoot : location.path.bytes ≠ ascii "/"
  /-- The merged configuration is written and read back: it has the rules that were added. -/
  readsBack :
    let overrides := routeOverrides codec routing shmSlots .ipRestriction
    env.parseSnapshot (mergeOverrides codec .ipRestriction overrides bytes) =
      ((firstOfKey pathPrefix (items.map pathPrefix) overrides).mapM ConfiguredRule.ofJson).map
        fun added => { snap with rules := snap.rules ++ added }

namespace InternalOnlyRoute

variable (run : InternalOnlyRoute)

def path : Bytes := run.location.path.bytes

def overrides : List Json := routeOverrides run.codec run.routing run.shmSlots .ipRestriction

def kept : List Json := firstOfKey pathPrefix (run.items.map pathPrefix) run.overrides

def mergedBytes : Bytes :=
  (getShmSlot (compileShmSlots run.codec run.routing run.shmSlots) auroraExtIpRestriction).getD []

def inputs : List UnifiedRuleInput := unifiedInputs run.env run.snap

def added : List UnifiedRuleInput :=
  (((run.kept.mapM ConfiguredRule.ofJson).getD []).zipIdx run.snap.rules.length).filterMap
    fun (cfgRule, i) => configuredRule run.env cfgRule i

def RestrictsOnlyItsRoute : Prop :=
  ∃ merged, IpRestrictionEngine.fromSnapshot run.env run.mergedBytes = .ok merged ∧
    (∀ q ip, Sent q ip → isInternal ip = false → matchesPath run.path q.path = true →
      ∃ decision, merged.evaluate q = .ok decision ∧ decision.action = 1) ∧
    ∀ q, matchesPath run.path q.path = false → merged.evaluate q = run.engine.evaluate q

/-! ## The merged configuration -/

theorem parseSnapshot_mergedBytes :
    run.env.parseSnapshot run.mergedBytes =
      (run.kept.mapM ConfiguredRule.ofJson).map fun added =>
        { run.snap with rules := run.snap.rules ++ added } := by
  have hslot : getShmSlot (compileShmSlots run.codec run.routing run.shmSlots)
      auroraExtIpRestriction =
        if run.overrides = [] then some run.bytes
        else some (mergeOverrides run.codec .ipRestriction run.overrides run.bytes) := by
    have hkind := @getShmSlot_compileShmSlots_kind run.codec run.shmSlots run.routing .ipRestriction
    rw [show getShmSlot run.shmSlots OverrideKind.ipRestriction.slot = some run.bytes from run.slot]
      at hkind
    exact hkind
  rw [mergedBytes, hslot]
  by_cases hnone : run.overrides = []
  · have hkept : run.kept = [] := by rw [kept, hnone, firstOfKey]
    rw [if_pos hnone, Option.getD_some, hkept, run.parsed]
    simp
  · rw [if_neg hnone, Option.getD_some]
    exact run.readsBack

theorem unifiedInputs_append (env : IpRestriction.Environment) (snap : IpRestrictionSnapshot)
    (rules : List ConfiguredRule) :
    unifiedInputs env { snap with rules := snap.rules ++ rules } =
      unifiedInputs env snap ++ (rules.zipIdx snap.rules.length).filterMap
        fun (cfgRule, i) => configuredRule env cfgRule i := by
  simp [unifiedInputs, List.zipIdx_append, List.append_assoc]

theorem exists_compiled {merged : IpRestrictionEngine}
    (h : IpRestrictionEngine.fromSnapshot run.env run.mergedBytes = .ok merged) :
    ∃ snap, unifiedInputs run.env snap = run.inputs ++ run.added ∧
      Compiled run.env snap merged ∧ merged.generation = run.engine.generation := by
  have hparse := run.parseSnapshot_mergedBytes
  cases hrules : run.kept.mapM ConfiguredRule.ofJson with
  | none =>
    rw [hrules, Option.map_none] at hparse
    unfold IpRestrictionEngine.fromSnapshot at h
    rw [hparse] at h
    split at h <;> cases h
  | some rules =>
    rw [hrules, Option.map_some] at hparse
    refine ⟨_, ?_, fromSnapshot_compiled h hparse, ?_⟩
    · rw [unifiedInputs_append, inputs, added, hrules, Option.getD_some]
    · rw [(fromSnapshot_compiled h hparse).generation,
        (fromSnapshot_compiled run.accepted run.parsed).generation]

theorem id_ne_zero_of_mem_added {rule : UnifiedRuleInput} (h : rule ∈ run.added) :
    rule.id ≠ 0 := by
  obtain ⟨⟨cfgRule, i⟩, -, hrule⟩ := List.mem_filterMap.mp h
  exact id_ne_zero_of_configuredRule hrule

/-! ## Paths -/

theorem path_ne_nil : run.path ≠ [] := by
  have hmem : run.location ∈ allLocs run.routing := by
    rw [run.locations]
    exact List.mem_append_right _ List.mem_cons_self
  obtain ⟨domain, -, hmem⟩ := List.mem_flatMap.mp hmem
  obtain ⟨loc, -, hloc⟩ := List.mem_map.mp hmem
  rw [path, ← hloc, LocationRoutingSpec.route, cleanPath]
  dsimp only
  split
  · exact List.cons_ne_nil _ _
  · rename_i hne
    exact fun h => hne (List.isEmpty_iff.mpr h)

theorem root_not_under : matchesPath run.path (ascii "/") = false := by
  by_contra h
  have hprefix : run.path.isPrefixOf (ascii "/") = true := by
    simp only [matchesPath, Bool.not_eq_false, Bool.and_eq_true] at h
    exact h.1.2
  have hroot : ascii "/" = [slash] := rfl
  rw [List.isPrefixOf_iff_prefix, hroot, List.prefix_cons_iff] at hprefix
  rcases hprefix with hnil | ⟨rest, hpath, hrest⟩
  · exact run.path_ne_nil hnil
  · rw [List.prefix_nil.mp hrest] at hpath
    exact run.notRoot hpath

def unknownMethod (q : IpRestrictionRequest) : IpRestrictionRequest :=
  { q with method := ascii "BREW" }

theorem methodToMask_unknownMethod (q : IpRestrictionRequest) :
    methodToMask (unknownMethod q).method = 0 := by
  change methodToMask (ascii "BREW") = 0
  decide

theorem sent_unknownMethod {q : IpRestrictionRequest} {ip : ParsedIp} (h : Sent q ip) :
    Sent (unknownMethod q) ip := by
  refine ⟨?_, h.address⟩
  have hvalid := h.valid
  simp only [IpRestrictionEngine.invalidRequest, Bool.or_eq_false_iff] at hvalid ⊢
  exact ⟨hvalid.1, rfl⟩

def rootRequest : IpRestrictionRequest where
  ip := ascii "203.0.113.7"
  host := ascii "example.com"
  path := ascii "/"
  method := ascii "BREW"

theorem rootRequest_sent : Sent rootRequest (.v4 0xCB007107#32) :=
  ⟨by decide, parseClientIp_sample⟩

/-! ## When the profile is a restriction of its route -/

/-- The rules that the merged configuration comes from keep the route closed to addresses
from outside, and none of the added ones decides about another path. -/
structure Isolated : Prop where
  accepted : ∃ merged, IpRestrictionEngine.fromSnapshot run.env run.mergedBytes = .ok merged
  closed : ∀ q ip, Sent q ip → isInternal ip = false → matchesPath run.path q.path = true →
    isStrict (run.inputs ++ run.added) = true ∧
      ∀ rule network, ¬Applies (run.inputs ++ run.added) ip q rule network
  strict : isStrict (run.inputs ++ run.added) = isStrict run.inputs
  precede : ∀ q ip, Sent q ip → matchesPath run.path q.path = false →
    Precede run.inputs run.added ip q

variable {run}

section Merged

variable {merged : IpRestrictionEngine}
  (hmerged : IpRestrictionEngine.fromSnapshot run.env run.mergedBytes = .ok merged)

include hmerged

theorem evaluate_merged {q : IpRestrictionRequest} {ip : ParsedIp} (hsent : Sent q ip) :
    ∃ decision, merged.evaluate q = .ok decision ∧
      Decides run.engine.generation (run.inputs ++ run.added) ip q decision := by
  obtain ⟨snap, hinputs, hcompiled, hgeneration⟩ := run.exists_compiled hmerged
  rw [← hinputs, ← hgeneration]
  exact hcompiled.evaluate_decides hsent

theorem ids_nodup : ((run.inputs ++ run.added).map UnifiedRuleInput.id).Nodup := by
  obtain ⟨snap, hinputs, hcompiled, -⟩ := run.exists_compiled hmerged
  rw [← hinputs]
  exact hcompiled.ids

theorem blocks_iff :
    (∀ q ip, Sent q ip → isInternal ip = false → matchesPath run.path q.path = true →
      ∃ decision, merged.evaluate q = .ok decision ∧ decision.action = 1) ↔
    ∀ q ip, Sent q ip → isInternal ip = false → matchesPath run.path q.path = true →
      isStrict (run.inputs ++ run.added) = true ∧
        ∀ rule network, ¬Applies (run.inputs ++ run.added) ip q rule network := by
  constructor
  · intro hblocks q ip hsent houtside hunder
    -- A request with an unknown method is left to the fallback.
    have hstrict : isStrict (run.inputs ++ run.added) = true := by
      obtain ⟨decision, hdecision, haction⟩ :=
        hblocks (unknownMethod q) ip (sent_unknownMethod hsent) houtside hunder
      obtain ⟨decision', hdecision', hdecides⟩ :=
        evaluate_merged hmerged (sent_unknownMethod hsent)
      obtain rfl := Except.ok.inj (hdecision.symm.trans hdecision')
      rw [hdecides.eq_fallback (methodToMask_unknownMethod q), fallbackDecision] at haction
      by_contra hlenient
      simp [hlenient] at haction
    refine ⟨hstrict, fun rule network happlies => ?_⟩
    obtain ⟨decision, hdecision, haction⟩ := hblocks q ip hsent houtside hunder
    obtain ⟨decision', hdecision', hdecides⟩ := evaluate_merged hmerged hsent
    obtain rfl := Except.ok.inj (hdecision.symm.trans hdecision')
    cases hdecides with
    | fallback hnone => exact hnone rule network happlies
    | rule first network' hfirst hleast =>
      have hlets := isBlock_of_isStrict hstrict hfirst.mem
      simp [ruleDecision, hlets] at haction
  · intro hclosed q ip hsent houtside hunder
    obtain ⟨hstrict, hnone⟩ := hclosed q ip hsent houtside hunder
    obtain ⟨decision, hdecision, hdecides⟩ := evaluate_merged hmerged hsent
    refine ⟨decision, hdecision, ?_⟩
    cases hdecides with
    | rule first network hfirst hleast => exact absurd hfirst (hnone first network)
    | fallback _ =>
      rw [fallbackDecision, hstrict]
      rfl

theorem keeps_iff :
    (∀ q, matchesPath run.path q.path = false → merged.evaluate q = run.engine.evaluate q) ↔
    isStrict (run.inputs ++ run.added) = isStrict run.inputs ∧
      ∀ q ip, Sent q ip → matchesPath run.path q.path = false →
        Precede run.inputs run.added ip q := by
  have hcompiled := fromSnapshot_compiled run.accepted run.parsed
  constructor
  · intro hsame
    constructor
    · obtain ⟨decision, hdecision, hdecides⟩ := hcompiled.evaluate_decides rootRequest_sent
      obtain ⟨decision', hdecision', hdecides'⟩ := evaluate_merged hmerged rootRequest_sent
      rw [hsame rootRequest run.root_not_under, hdecision] at hdecision'
      obtain rfl := Except.ok.inj hdecision'
      have hfallback := (hdecides'.eq_fallback (by decide)).symm.trans
        (hdecides.eq_fallback (by decide))
      exact isStrict_eq_of_fallback hfallback
    · intro q ip hsent hother
      obtain ⟨decision, hdecision, hdecides⟩ := hcompiled.evaluate_decides hsent
      obtain ⟨decision', hdecision', hdecides'⟩ := evaluate_merged hmerged hsent
      rw [hsame q hother, hdecision] at hdecision'
      obtain rfl := Except.ok.inj hdecision'
      exact hdecides.precede (ids_nodup hmerged) (fun rule => run.id_ne_zero_of_mem_added) hdecides'
  · rintro ⟨hstrict, hprecede⟩ q hother
    by_cases hsent : ∃ ip, Sent q ip
    · obtain ⟨ip, hsent⟩ := hsent
      obtain ⟨decision, hdecision, hdecides⟩ := hcompiled.evaluate_decides hsent
      obtain ⟨decision', hdecision', hdecides'⟩ := evaluate_merged hmerged hsent
      rw [hdecision, hdecision', (hdecides'.of_append (hprecede q ip hsent hother) hstrict).unique
        hcompiled.ids hdecides]
    · rw [evaluate_of_not_sent merged hsent, evaluate_of_not_sent run.engine hsent]

end Merged

end InternalOnlyRoute

/-! ## A configuration without rules -/

def adminLocation : LocationRoutingSpec where
  path := .ofAscii "/admin"
  upstream := .ofAscii "backend"
  stripPath := false
  websocket := false
  priority := 0
  pluginsJson := some (.ofAscii "\x7b\"ip-restriction\":\"internal_only\"\x7d")
  originTls := none

def adminRouting : RoutingSpec := ⟨[⟨.ofAscii "example.com", [adminLocation]⟩]⟩

def adminPlugin : Bytes × Json := (ascii "ip-restriction", .string (ascii "internal_only"))

/-- The configuration has no members; any other text is the plugins. -/
def adminCodec : JsonCodec where
  fromSlice := fun bytes =>
    if bytes = ascii "\x7b\x7d" then some (.object [])
    else some (.object [adminPlugin])
  toVec := fun _ => ascii "merged"
  masksToVec := fun _ => ascii "masks"

def withoutRules : IpRestrictionSnapshot where
  schemaVersion := 1
  generation := 0
  whitelist := []
  blacklist := []
  rules := []

def adminSlots : List (Nat × Bytes) := [(auroraExtIpRestriction, ascii "\x7b\x7d")]

def adminRules : List Json := routeOverrides adminCodec adminRouting adminSlots .ipRestriction

def adminEnvironment : IpRestriction.Environment where
  parseSnapshot := fun bytes =>
    if bytes = ascii "\x7b\x7d" then some withoutRules
    else (adminRules.mapM ConfiguredRule.ofJson).map fun rules =>
      { withoutRules with rules := rules }
  defaultHash := fun _ => 7

def visit : IpRestrictionRequest := requestFrom (ascii "203.0.113.7") (ascii "GET")

def adminInternalOnly : InternalOnlyRoute where
  codec := adminCodec
  env := adminEnvironment
  routing := adminRouting
  shmSlots := adminSlots
  bytes := ascii "\x7b\x7d"
  slot := by decide +kernel
  snap := withoutRules
  parsed := rfl
  engine := ⟨0, [], [], false⟩
  accepted := rfl
  items := []
  configured := rfl
  before := []
  location := adminLocation.route
  after := []
  locations := rfl
  selects := ⟨.object [adminPlugin], rfl, adminPlugin, List.mem_singleton_self _, by decide +kernel⟩
  only := by simp
  notRoot := by decide +kernel
  readsBack := rfl

end AuroraGateway.ControlWorker
