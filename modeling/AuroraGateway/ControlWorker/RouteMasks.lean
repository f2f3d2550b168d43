import AuroraGateway.ControlWorker.Extensions
import AuroraGateway.Foundation.KeyedLists
import AuroraGateway.Foundation.TrimmedText

/-!
# Extensions of the routes

The plugins of a location select the extensions of its path and may override
the configuration of five of them.  The selections become the masks of the
routes; the overrides are added to the configuration of their extensions.
-/

namespace AuroraGateway.ControlWorker

open Ffi Foundation Json

/-! ## Plugins -/

inductive OverrideKind where
  | cache
  | compression
  | rateLimit
  | connLimit
  | ipRestriction
  deriving DecidableEq

namespace OverrideKind

def slot : OverrideKind → Nat
  | .cache => auroraExtResponseCache
  | .compression => auroraExtResponseCompression
  | .rateLimit => auroraExtRateLimit
  | .connLimit => auroraExtConnLimit
  | .ipRestriction => auroraExtIpRestriction

def member : OverrideKind → Bytes
  | .cache | .compression => ascii "routes_override"
  | .rateLimit | .connLimit | .ipRestriction => ascii "rules"

def all : List OverrideKind := [.cache, .compression, .rateLimit, .connLimit, .ipRestriction]

def ofSlot (slotId : Nat) : Option OverrideKind := all.find? fun kind => kind.slot = slotId

end OverrideKind

def defaultProfile : Bytes := ascii "default"

def disablingName (name : Bytes) : Bool :=
  name.isEmpty || eqIgnoreAsciiCase name (ascii "off") ||
    eqIgnoreAsciiCase name (ascii "disabled") || eqIgnoreAsciiCase name (ascii "none")

structure PluginSetting where
  isEnabled : Option Bool
  profileName : Option Bytes
  /-- It makes the selection of the route explicit unless the mode is to inherit. -/
  selects : Bool

def pluginSetting (v : Json) : PluginSetting :=
  match v with
  | .bool b => ⟨some b, if b then some defaultProfile else none, false⟩
  | .string s =>
    if disablingName (trim s) then ⟨some false, none, false⟩
    else ⟨some true, some (trim s), true⟩
  | .object _ =>
    let profile := ((v.get? (ascii "profile")).bind asStr).map trim
    let enabled :=
      if profile.any disablingName then false
      else ((v.get? (ascii "enabled")).bind asBool).getD true
    ⟨some enabled, if enabled then some (profile.getD defaultProfile) else none,
      profile.isSome⟩
  | _ => ⟨none, none, false⟩

structure Selection where
  allowMask : BitVec 32
  denyMask : BitVec 32
  explicit : Bool

def Selection.empty : Selection := ⟨0, 0, false⟩

def maskOf (slots : List Nat) : BitVec 32 := slots.foldl (fun mask slot => mask ||| 1#32 <<< slot) 0

def Selection.applyProfile (selection : Selection) (profile : Bytes) : Selection :=
  if profile = ascii "passthrough" ∨ profile = ascii "raw" then ⟨0, BitVec.allOnes 32, true⟩
  else if profile = ascii "public_cache" then
    { selection with
      explicit := true
      allowMask := maskOf
        [auroraExtResponseCache, auroraExtResponseCompression, auroraExtRateLimit] }
  else if profile = ascii "protected_api" then
    { selection with
      explicit := true
      allowMask := maskOf [auroraExtJwt, auroraExtRateLimit, auroraExtResponseCompression] }
  else if profile = ascii "strict_security" then
    { selection with
      explicit := true
      allowMask := maskOf
        [auroraExtIpRestriction, auroraExtJwt, auroraExtRateLimit, auroraExtConnLimit,
          auroraExtResourceLimit] }
  else if profile = ascii "custom" then { selection with explicit := true }
  else selection

def inheritMode : Bytes := ascii "inherit"

def Selection.applyMode (selection : Selection) (mode : Bytes) : Selection :=
  if mode = ascii "explicit" then { selection with explicit := true }
  else if mode = inheritMode then { selection with explicit := false }
  else selection

def Selection.apply (selection : Selection) (mode : Option Bytes) (slotId : Nat)
    (setting : PluginSetting) : Selection :=
  let bit := 1#32 <<< slotId
  let selection :=
    if setting.selects ∧ mode ≠ some inheritMode then { selection with explicit := true }
    else selection
  match setting.isEnabled with
  | some true =>
    { selection with
      allowMask := selection.allowMask ||| bit
      denyMask := selection.denyMask &&& ~~~bit }
  | some false =>
    { selection with
      denyMask := selection.denyMask ||| bit
      allowMask := selection.allowMask &&& ~~~bit }
  | none => selection

/-! ## Overrides -/

/-- A member of the plugin itself, or else of the profile that it names. -/
def settingField (inline custom : Option Json) (name : Bytes) : Option Json :=
  (inline.bind fun o => o.get? name).or (custom.bind fun o => o.get? name)

def lookupProfile {α : Type} (profiles : List (Bytes × α)) (name : Bytes) : Option α :=
  (profiles.find? fun entry => entry.1 = name).map Prod.snd

section Overrides

variable (path : Bytes) (setting : PluginSetting) (inline custom : Option Json)

def routeRuleId (profile : Bytes) : Json :=
  .string (ascii "route:" ++ path ++ ascii ":" ++ profile)

def cacheOverride : Option Json :=
  match setting.profileName with
  | some profile =>
    let builtinTtl := lookupProfile
      [(ascii "short_ttl", 30), (ascii "medium_ttl", 120), (ascii "long_static", 3600)] profile
    let ttl := (((settingField inline custom (ascii "ttl_secs")).bind asU64).map
      (· % 2 ^ 32)).or builtinTtl
    let headers := (settingField inline custom (ascii "cache_key_headers")).bind asStrings
    if ttl.isSome ∨ headers.isSome ∨ profile ≠ defaultProfile then
      some (.object
        ((headers.map fun h => (ascii "cache_key_headers", ofStrings h)).toList ++
          [(ascii "enabled", .bool true), (ascii "path_prefix", .string path)] ++
          (ttl.map fun t => (ascii "ttl_secs", ofNat t)).toList))
    else none
  | none =>
    if setting.isEnabled = some false ∧ inline.isSome then
      some (.object [(ascii "enabled", .bool false), (ascii "path_prefix", .string path)])
    else none

def compressionOverride : Option Json :=
  setting.profileName.bind fun profile =>
    let builtin := lookupProfile
      [ (ascii "fast_zstd", (256, [ascii "zstd", ascii "gzip"])),
        (ascii "max_ratio", (512, [ascii "br", ascii "zstd", ascii "gzip"])),
        (ascii "large_payloads", (4096, [ascii "zstd", ascii "br", ascii "gzip"])) ] profile
    let minLen := ((settingField inline custom (ascii "min_length")).bind asU64).or
      (builtin.map Prod.fst)
    let algos := ((settingField inline custom (ascii "prefer_algorithms")).bind asStrings).or
      (builtin.map Prod.snd)
    if minLen.isSome ∨ algos.isSome then
      some (.object
        ([(ascii "enabled", .bool true)] ++
          (minLen.map fun n => (ascii "min_length", ofNat n)).toList ++
          [(ascii "path_prefix", .string path)] ++
          (algos.map fun a => (ascii "prefer_algorithms", ofStrings a)).toList))
    else none

def rateLimitRule : Option Json :=
  setting.profileName.bind fun profile =>
    let (defRate, defPeriod, defBurst) := (lookupProfile
      [ (ascii "strict", (10, 1, 20)), (ascii "high_throughput", (1000, 1, 2000)),
        (ascii "burst_tolerant", (250, 1, 1000)) ] profile).getD (100, 1, 200)
    let field := settingField inline custom
    let rate := ((field (ascii "rate")).bind asU64).getD defRate
    let period := ((field (ascii "period_secs")).bind asU64).getD defPeriod
    let burst := ((field (ascii "burst")).bind asU64).getD defBurst
    let limitBy := ((field (ascii "limit_by")).bind asStr).getD (ascii "client_ip")
    let action := ((field (ascii "action_on_exceeded")).bind asStr).getD (ascii "throttle")
    if profile ≠ defaultProfile ∨ custom.isSome ∨
        (inline.bind fun o => o.get? (ascii "rate")).isSome then
      some (.object
        [ (ascii "action_on_exceeded", .string action), (ascii "burst", ofNat burst),
          (ascii "host", .string (ascii "*")), (ascii "id", routeRuleId path profile),
          (ascii "limit_by", .string limitBy), (ascii "path_prefix", .string path),
          (ascii "period_secs", ofNat period), (ascii "priority", ofNat 100),
          (ascii "rate", ofNat rate) ])
    else none

def connLimitRule : Option Json :=
  setting.profileName.bind fun profile =>
    let defMaxConn := (lookupProfile
      [(ascii "strict", 20), (ascii "high_concurrency", 500)] profile).getD 100
    let field := settingField inline custom
    let maxConn := ((field (ascii "max_connections")).bind asU64).getD defMaxConn
    let limitBy := ((field (ascii "limit_by")).bind asStr).getD (ascii "client_ip")
    let action := ((field (ascii "action_on_exceeded")).bind asStr).getD (ascii "throttle")
    if profile ≠ defaultProfile ∨ custom.isSome ∨
        (inline.bind fun o => o.get? (ascii "max_connections")).isSome then
      some (.object
        [ (ascii "action_on_exceeded", .string action), (ascii "host", .string (ascii "*")),
          (ascii "id", routeRuleId path profile), (ascii "limit_by", .string limitBy),
          (ascii "max_connections", ofNat maxConn), (ascii "path_prefix", .string path),
          (ascii "priority", ofNat 100) ])
    else none

def ipRestrictionRule : Option Json :=
  setting.profileName.bind fun profile =>
    let builtinNets := lookupProfile
      [ (ascii "internal_only",
          [ascii "10.0.0.0/8", ascii "172.16.0.0/12", ascii "192.168.0.0/16",
            ascii "127.0.0.1/32"]) ] profile
    let networks := ((settingField inline custom (ascii "networks")).bind asStrings).or
      builtinNets
    let action := ((settingField inline custom (ascii "action")).bind asStr).getD
      (ascii "allow")
    networks.map fun nets =>
      .object
        [ (ascii "action", .string action), (ascii "enabled", .bool true),
          (ascii "host", .string (ascii "*")), (ascii "id", routeRuleId path profile),
          (ascii "networks", ofStrings nets), (ascii "path_prefix", .string path),
          (ascii "priority", ofNat 100) ]

def OverrideKind.override : OverrideKind → Option Json
  | .cache => cacheOverride path setting inline custom
  | .compression => compressionOverride path setting inline custom
  | .rateLimit => rateLimitRule path setting inline custom
  | .connLimit => connLimitRule path setting inline custom
  | .ipRestriction => ipRestrictionRule path setting inline custom

end Overrides

/-! ## Locations -/

section Compile

variable (codec : JsonCodec)

/-- The custom profiles of an extension; of several slots with one number the last counts. -/
def extProfiles (shmSlots : List (Nat × Bytes)) (slotId : Nat) : Option Json :=
  (shmSlots.filterMap fun (slot, bytes) =>
    if slot = slotId then
      match codec.fromSlice bytes with
      | some value =>
        match value.get? (ascii "profiles") with
        | some (.object profiles) => some (object profiles)
        | _ => none
      | none => none
    else none).getLast?

structure RouteLocation where
  priority : Int
  path : Text
  pluginsJson : Option Text

def cleanPath (path : Text) : Text :=
  if path.trim.bytes.isEmpty then Engine.rootText else path.trim

def LocationRoutingSpec.route (loc : LocationRoutingSpec) : RouteLocation where
  priority := loc.priority
  path := cleanPath loc.path
  pluginsJson := loc.pluginsJson

def allLocs (routing : RoutingSpec) : List RouteLocation :=
  routing.domains.flatMap fun domain => domain.locations.map LocationRoutingSpec.route

structure Contribution where
  selection : Selection
  overrides : List (OverrideKind × Json)

def Contribution.empty : Contribution := ⟨.empty, []⟩

def underscore : UInt8 := 0x5F

section Plugins

variable (shmSlots : List (Nat × Bytes)) (path : Bytes) (mode : Option Bytes)

def applyPlugin (state : Contribution) (plugin : Bytes × Json) : Contribution :=
  let (key, v) := plugin
  if key.head? = some underscore then state
  else
    match resolveExtensionKeySlot key with
    | none => state
    | some slotId =>
      let setting := pluginSetting v
      let custom := (setting.profileName.bind fun name =>
        (extProfiles codec shmSlots slotId).bind fun profiles => profiles.get? name).filter
          fun profile => profile.asObject.isSome
      let inline := if v.asObject.isSome then some v else none
      let added := (OverrideKind.ofSlot slotId).bind fun kind =>
        (kind.override path setting inline custom).map fun entry => (kind, entry)
      ⟨state.selection.apply mode slotId setting, state.overrides ++ added.toList⟩

end Plugins

def parsePlugins (pluginsJson : Option Text) : Option Json :=
  pluginsJson.bind fun raw =>
    if raw.trim.bytes.isEmpty ∨ raw.trim.bytes = ascii "\x7b\x7d" then none
    else (codec.fromSlice raw.trim.bytes).filter fun value => value.asObject.isSome

variable (routing : RoutingSpec) (shmSlots : List (Nat × Bytes))

def compileLocation (loc : RouteLocation) : Contribution :=
  match parsePlugins codec loc.pluginsJson with
  | none => .empty
  | some plugins =>
    let profile := (plugins.get? (ascii "_profile")).bind asStr
    let mode := (plugins.get? (ascii "_mode")).bind asStr
    let selection := profile.elim Selection.empty Selection.empty.applyProfile
    let selection := mode.elim selection selection.applyMode
    (plugins.asObject.getD []).foldl (applyPlugin codec shmSlots loc.path.bytes mode)
      ⟨selection, []⟩

def RouteLocation.rule (loc : RouteLocation) : RouteMaskRule :=
  let selection := (compileLocation codec shmSlots loc).selection
  { path := loc.path
    allowMask := selection.allowMask
    denyMask := selection.denyMask
    explicit := selection.explicit }

def RouteLocation.overrides (kind : OverrideKind) (loc : RouteLocation) : List Json :=
  (compileLocation codec shmSlots loc).overrides.filterMap fun entry =>
    if entry.1 = kind then some entry.2 else none

/-! ## The policies of the slots -/

def pathPrefix (value : Json) : Option Bytes := (value.get? (ascii "path_prefix")).bind asStr

/-- Add the overrides to a configuration; a path that is there already keeps its entry. -/
def mergeOverrides (kind : OverrideKind) (entries : List Json) (bytes : Bytes) : Bytes :=
  match codec.fromSlice bytes with
  | some (.object members) =>
    match ((object members).get? kind.member).getD (.array []) with
    | .array items =>
      codec.toVec (.object (setMember kind.member
        (.array (entries.foldl (pushNew pathPrefix) items)) members))
    | _ => bytes
  | _ => bytes

def modifySlot (slotId : Nat) (f : Bytes → Bytes) : List (Nat × Bytes) → List (Nat × Bytes)
  | [] => []
  | slot :: rest =>
    if slot.1 = slotId then (slot.1, f slot.2) :: rest else slot :: modifySlot slotId f rest

def mergeKind (kind : OverrideKind) (entries : List Json) (shmSlots : List (Nat × Bytes)) :
    List (Nat × Bytes) :=
  if entries.isEmpty then shmSlots
  else modifySlot kind.slot (mergeOverrides codec kind entries) shmSlots

/-- Ascending by priority: of two locations with one path the later one overwrites. -/
def sortedLocs : List RouteLocation :=
  sortByKey RouteLocation.priority (allLocs routing)

def routeRules : List RouteMaskRule :=
  ((sortedLocs routing).map (RouteLocation.rule codec shmSlots)).foldl
    (upsert RouteMaskRule.path) []

def routeOverrides (kind : OverrideKind) : List Json :=
  (sortedLocs routing).flatMap (RouteLocation.overrides codec shmSlots kind)

def compileShmSlots : List (Nat × Bytes) :=
  if (allLocs routing).isEmpty then shmSlots
  else
    let merged := OverrideKind.all.foldl (fun slots kind =>
      mergeKind codec kind (routeOverrides codec routing shmSlots kind) slots) shmSlots
    upsert Prod.fst merged
      (auroraSlotRouteMasks, codec.masksToVec ⟨routeRules codec routing shmSlots⟩)

def compileRouteMasksIntoShm (rendered : RenderedExtensions) : RenderedExtensions :=
  { rendered with shmSlots := compileShmSlots codec routing rendered.shmSlots }

end Compile

end AuroraGateway.ControlWorker
