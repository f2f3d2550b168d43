import AuroraGateway.ControlWorker.RouteMasks

/-!
# What the routes leave in the slots

The overrides of a location are entered under its path, and the slots take the
overrides of their own kind only.
-/

namespace AuroraGateway.ControlWorker

open Ffi Foundation

/-! ## Paths of overrides -/

section Paths

variable {path : Bytes} {setting : PluginSetting} {inline custom : Option Json} {entry : Json}

theorem pathPrefix_cacheOverride (h : cacheOverride path setting inline custom = some entry) :
    pathPrefix entry = some path := by
  unfold cacheOverride at h
  split at h
  · dsimp only at h
    split at h
    · obtain rfl := Option.some.inj h
      generalize (settingField inline custom (ascii "cache_key_headers")).bind Json.asStrings = hs
      cases hs <;> rfl
    · cases h
  · split at h
    · obtain rfl := Option.some.inj h
      rfl
    · cases h

theorem pathPrefix_compressionOverride
    (h : compressionOverride path setting inline custom = some entry) :
    pathPrefix entry = some path := by
  obtain ⟨profile, -, h⟩ := Option.bind_eq_some_iff.mp h
  dsimp only at h
  split at h
  · obtain rfl := Option.some.inj h
    generalize Option.or (Option.bind (settingField inline custom (ascii "min_length")) _) _ = n
    cases n <;> rfl
  · cases h

theorem pathPrefix_rateLimitRule (h : rateLimitRule path setting inline custom = some entry) :
    pathPrefix entry = some path := by
  obtain ⟨profile, -, h⟩ := Option.bind_eq_some_iff.mp h
  dsimp only at h
  split at h
  · obtain rfl := Option.some.inj h
    rfl
  · cases h

theorem pathPrefix_connLimitRule (h : connLimitRule path setting inline custom = some entry) :
    pathPrefix entry = some path := by
  obtain ⟨profile, -, h⟩ := Option.bind_eq_some_iff.mp h
  split at h
  · obtain rfl := Option.some.inj h
    rfl
  · cases h

theorem pathPrefix_ipRestrictionRule
    (h : ipRestrictionRule path setting inline custom = some entry) :
    pathPrefix entry = some path := by
  obtain ⟨profile, -, h⟩ := Option.bind_eq_some_iff.mp h
  obtain ⟨nets, -, rfl⟩ := Option.map_eq_some_iff.mp h
  rfl

theorem pathPrefix_override {kind : OverrideKind}
    (h : kind.override path setting inline custom = some entry) :
    pathPrefix entry = some path := by
  cases kind with
  | cache => exact pathPrefix_cacheOverride h
  | compression => exact pathPrefix_compressionOverride h
  | rateLimit => exact pathPrefix_rateLimitRule h
  | connLimit => exact pathPrefix_connLimitRule h
  | ipRestriction => exact pathPrefix_ipRestrictionRule h

end Paths

section Tables

variable {codec : JsonCodec} {shmSlots : List (Nat × Bytes)}

theorem pathPrefix_applyPlugin {path : Bytes} {mode : Option Bytes} {state : Contribution}
    (hstate : ∀ entry ∈ state.overrides, pathPrefix entry.2 = some path)
    (plugin : Bytes × Json) :
    ∀ entry ∈ (applyPlugin codec shmSlots path mode state plugin).overrides,
      pathPrefix entry.2 = some path := by
  unfold applyPlugin
  dsimp only
  split
  · exact hstate
  · split
    · exact hstate
    · intro entry hentry
      rcases List.mem_append.mp hentry with hentry | hentry
      · exact hstate entry hentry
      · rw [Option.mem_toList] at hentry
        obtain ⟨kind, -, hentry⟩ := Option.bind_eq_some_iff.mp hentry
        obtain ⟨value, hvalue, rfl⟩ := Option.map_eq_some_iff.mp hentry
        exact pathPrefix_override hvalue

theorem pathPrefix_compileLocation (loc : RouteLocation) :
    ∀ entry ∈ (compileLocation codec shmSlots loc).overrides,
      pathPrefix entry.2 = some loc.path.bytes := by
  have hloop : ∀ (mode : Option Bytes) (plugins : List (Bytes × Json)) (state : Contribution),
      (∀ entry ∈ state.overrides, pathPrefix entry.2 = some loc.path.bytes) →
      ∀ entry ∈ (plugins.foldl (applyPlugin codec shmSlots loc.path.bytes mode) state).overrides,
        pathPrefix entry.2 = some loc.path.bytes := by
    intro mode plugins
    induction plugins with
    | nil => exact fun state h => h
    | cons plugin plugins ih => exact fun state h => ih _ (pathPrefix_applyPlugin h plugin)
  unfold compileLocation
  split
  · intro entry hentry
    cases hentry
  · refine hloop _ _ _ fun entry hentry => ?_
    cases hentry

theorem pathPrefix_of_mem_overrides {kind : OverrideKind} {loc : RouteLocation} {entry : Json}
    (h : entry ∈ loc.overrides codec shmSlots kind) : pathPrefix entry = some loc.path.bytes := by
  obtain ⟨⟨other, value⟩, hmem, hvalue⟩ := List.mem_filterMap.mp h
  split at hvalue
  · obtain rfl := Option.some.inj hvalue
    exact pathPrefix_compileLocation loc _ hmem
  · cases hvalue

/-! ## Slots -/

theorem getShmSlot_modifySlot (slotId : Nat) (f : Bytes → Bytes) (slots : List (Nat × Bytes))
    (other : Nat) :
    getShmSlot (modifySlot slotId f slots) other =
      if other = slotId then (getShmSlot slots slotId).map f else getShmSlot slots other := by
  unfold getShmSlot
  induction slots with
  | nil => simp [modifySlot]
  | cons slot rest ih =>
    rw [modifySlot]
    by_cases hslot : slot.1 = slotId
    · by_cases hother : other = slotId
      · simp [hslot, hother]
      · have hne : ¬slotId = other := fun h => hother h.symm
        simp [hslot, hother, hne]
    · rw [if_neg hslot]
      by_cases hhead : slot.1 = other
      · have hother : ¬other = slotId := fun h => hslot (hhead.trans h)
        simp [hhead, hother]
      · rw [List.find?_cons_of_neg (by simpa using hhead), ih,
          List.find?_cons_of_neg (by simpa using hslot),
          List.find?_cons_of_neg (by simpa using hhead)]

theorem getShmSlot_upsert (slots : List (Nat × Bytes)) (slotId : Nat) (bytes : Bytes)
    (other : Nat) :
    getShmSlot (upsert Prod.fst slots (slotId, bytes)) other =
      if slotId = other then some bytes else getShmSlot slots other := by
  unfold getShmSlot
  rw [find?_upsert]
  split <;> rfl

theorem getShmSlot_mergeKind (kind : OverrideKind) (entries : List Json)
    (slots : List (Nat × Bytes)) (other : Nat) :
    getShmSlot (mergeKind codec kind entries slots) other =
      if other = kind.slot ∧ entries ≠ [] then
        (getShmSlot slots other).map (mergeOverrides codec kind entries)
      else getShmSlot slots other := by
  unfold mergeKind
  cases entries with
  | nil => simp
  | cons entry entries =>
    rw [if_neg (by simp), getShmSlot_modifySlot]
    by_cases hother : other = kind.slot
    · rw [if_pos hother, if_pos ⟨hother, by simp⟩, hother]
    · rw [if_neg hother, if_neg fun h => hother h.1]

theorem OverrideKind.slot_injective : Function.Injective OverrideKind.slot := by
  intro a b h
  cases a <;> cases b <;> first | rfl | exact absurd h (by decide)

theorem OverrideKind.slot_lt (kind : OverrideKind) : kind.slot < auroraExtCount := by
  cases kind <;> decide

theorem getShmSlot_compileShmSlots_kind (routing : RoutingSpec) (kind : OverrideKind) :
    getShmSlot (compileShmSlots codec routing shmSlots) kind.slot =
      if routeOverrides codec routing shmSlots kind = [] then getShmSlot shmSlots kind.slot
      else (getShmSlot shmSlots kind.slot).map
        (mergeOverrides codec kind (routeOverrides codec routing shmSlots kind)) := by
  have hmasks : ¬auroraSlotRouteMasks = kind.slot := by
    have := kind.slot_lt
    unfold auroraSlotRouteMasks auroraExtCount at *
    omega
  have hall : kind ∈ OverrideKind.all := by cases kind <;> decide
  unfold compileShmSlots
  split
  · rename_i hempty
    have hnone : routeOverrides codec routing shmSlots kind = [] := by
      rw [routeOverrides, sortedLocs, List.isEmpty_iff.mp hempty]
      rfl
    rw [if_pos hnone]
  · rw [getShmSlot_upsert, if_neg hmasks,
      foldl_once (fun slots => getShmSlot slots kind.slot) (a := kind)
        (f := fun slot =>
          if routeOverrides codec routing shmSlots kind = [] then slot
          else slot.map (mergeOverrides codec kind (routeOverrides codec routing shmSlots kind)))
        ?_ ?_ (by decide) hall]
    · intro slots
      rw [getShmSlot_mergeKind]
      by_cases hnone : routeOverrides codec routing shmSlots kind = []
      · rw [if_pos hnone, if_neg fun h => h.2 hnone]
      · rw [if_neg hnone, if_pos ⟨rfl, hnone⟩]
    · intro slots other hne
      rw [getShmSlot_mergeKind, if_neg]
      exact fun h => hne (OverrideKind.slot_injective h.1.symm)

/-! ## Entries of a slot -/

def configItems (codec : JsonCodec) (kind : OverrideKind) (bytes : Bytes) : Option (List Json) :=
  (codec.fromSlice bytes).bind fun value =>
    value.asObject.bind fun members =>
      (((Json.object members).get? kind.member).getD (.array [])).asArray

end Tables

end AuroraGateway.ControlWorker
