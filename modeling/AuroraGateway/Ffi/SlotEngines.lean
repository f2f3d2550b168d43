import AuroraGateway.Ffi.Lifecycle
import Mathlib.Tactic.IntervalCases

/-!
# The engines by slot

What a synchronisation does to the engine of a slot depends on that slot alone:
on the engine, on the generation it was loaded with and on what the memory
holds.
-/

namespace AuroraGateway.Ffi

open Access
open ConnectionLimit (ConnectionLimitEngine)
open Engine Foundation
open IpRestriction (IpRestrictionEngine)
open RateLimit (RateLimitEngine)
open RequestTermination (RequestTerminationEngine)
open ResourceLimit (ResourceLimiter)
open ResponseCompression (ResponseCompressionEngine)

variable {F : Type}

inductive SlotEngine (F : Type) where
  | ipRestriction (engine : IpRestrictionEngine)
  | jwt (engine : RequestContext → HeaderLookup → Except Error JwtDecision)
  | rateLimit (engine : RateLimitEngine F)
  | connectionLimit (engine : ConnectionLimitEngine)
  | trafficShaper (engine : RequestContext → HeaderLookup → ShaperDecision)
  | resourceLimit (engine : ResourceLimiter)
  | trafficSplit (engine : RequestContext → HeaderLookup → RoutingDecision)
  | canaryRelease (engine : RequestContext → HeaderLookup → RoutingDecision)
  | blueGreen (engine : RequestContext → HeaderLookup → RoutingDecision)
  | requestMirror (engine : Unit)
  | requestTermination (engine : RequestTerminationEngine)
  | responseCompression (engine : ResponseCompressionEngine)
  | responseCache (engine : ResponseCache)

def PolicySpace.engineAt (space : PolicySpace F) : Nat → Option (SlotEngine F)
  | 0 => space.ipRestriction.map .ipRestriction
  | 1 => space.jwt.map .jwt
  | 2 => space.rateLimit.map .rateLimit
  | 3 => space.connectionLimit.map .connectionLimit
  | 4 => space.trafficShaper.map .trafficShaper
  | 5 => space.resourceLimit.map .resourceLimit
  | 6 => space.trafficSplit.map .trafficSplit
  | 7 => space.canaryRelease.map .canaryRelease
  | 8 => space.blueGreen.map .blueGreen
  | 9 => space.requestMirror.map .requestMirror
  | 10 => space.requestTermination.map .requestTermination
  | 11 => space.responseCompression.map .responseCompression
  | 12 => space.responseCache.map .responseCache
  | _ => none

def Loaders.load (loaders : Loaders F) (slot : Nat) (data : Bytes) : Option (SlotEngine F) :=
  match slot with
  | 0 =>
    (IpRestrictionEngine.fromSnapshot loaders.ipRestriction data).toOption.map .ipRestriction
  | 1 => (loaders.jwt data).map .jwt
  | 2 => (RateLimitEngine.fromSnapshot loaders.rateLimit data).toOption.map .rateLimit
  | 3 => (loadConnectionLimit loaders data).map .connectionLimit
  | 4 => (loaders.trafficShaper data).map .trafficShaper
  | 5 => (loaders.resourceLimit data).map .resourceLimit
  | 6 => (loaders.trafficSplit data).map .trafficSplit
  | 7 => (loaders.canaryRelease data).map .canaryRelease
  | 8 => (loaders.blueGreen data).map .blueGreen
  | 9 => (loaders.requestMirror data).map .requestMirror
  | 10 => (loaders.requestTermination data).map .requestTermination
  | 11 => (loaders.responseCompression data).map .responseCompression
  | 12 => (loaders.responseCache data).map .responseCache
  | _ => none

/-! ## One slot -/

theorem map_reloaded {α β : Type} (f : α → β) (load : Bytes → Option α) (data : Bytes)
    (current : Option α) :
    (reloaded load data current).map f =
      reloaded (fun data => (load data).map f) data (current.map f) := by
  unfold reloaded
  split
  · rfl
  · cases hload : load data with
    | none => simp [hload]
    | some engine => simp [hload]

section Slots

variable (loaders : Loaders F) (memory : PolicyMemory) (first : Bool) (fresh : Nat) {slot : Nat}

theorem engineAt_loadSlot_self (hslot : slot < auroraExtCount) (data : Bytes)
    (next : PolicySpace F) :
    (loadSlot loaders fresh slot data next).engineAt slot =
      reloaded (loaders.load slot) data (next.engineAt slot) := by
  unfold auroraExtCount at hslot
  have hip := map_reloaded (SlotEngine.ipRestriction (F := F)) (fun data =>
    (IpRestrictionEngine.fromSnapshot loaders.ipRestriction data).toOption) data
      next.ipRestriction
  have hrate := map_reloaded SlotEngine.rateLimit (fun data =>
    (RateLimitEngine.fromSnapshot loaders.rateLimit data).toOption) data next.rateLimit
  interval_cases slot <;> first | exact map_reloaded _ _ _ _ | exact hip | exact hrate

theorem engineAt_loadSlot_of_ne {other : Nat} (hne : other ≠ slot) (data : Bytes)
    (next : PolicySpace F) :
    (loadSlot loaders fresh slot data next).engineAt other = next.engineAt other := by
  unfold loadSlot PolicySpace.engineAt
  split <;> first | rfl | (split <;> first | rfl | exact absurd rfl hne)

theorem generations_loadSlot (slot : Nat) (data : Bytes) (next : PolicySpace F) :
    (loadSlot loaders fresh slot data next).generations = next.generations := by
  unfold loadSlot
  split <;> rfl

def PolicySpace.at (space : PolicySpace F) (slot : Nat) : Option (SlotEngine F) × Nat :=
  (space.engineAt slot, space.generations slot)

def syncedSlot (slot : Nat) (kept : Option (SlotEngine F) × Nat) : Option (SlotEngine F) × Nat :=
  let reading := memory.slots slot
  if reading.generation = kept.2 ∧ first = false then kept
  else (reloaded (loaders.load slot) reading.data kept.1, reading.generation)

theorem at_syncSlot_self (hslot : slot < auroraExtCount) (state : PolicySpace F × Bool) :
    (syncSlot loaders memory first fresh state slot).1.at slot =
      syncedSlot loaders memory first slot (state.1.at slot) := by
  unfold syncSlot syncedSlot PolicySpace.at
  dsimp only
  split
  · rfl
  · rw [engineAt_loadSlot_self loaders fresh hslot, generations_loadSlot]
    exact Prod.ext rfl (Function.update_self ..)

theorem at_syncSlot_of_ne {other : Nat} (hne : other ≠ slot) (state : PolicySpace F × Bool) :
    (syncSlot loaders memory first fresh state other).1.at slot = state.1.at slot := by
  unfold syncSlot PolicySpace.at
  dsimp only
  split
  · rfl
  · rw [engineAt_loadSlot_of_ne loaders fresh hne.symm, generations_loadSlot]
    exact Prod.ext rfl (Function.update_of_ne hne.symm ..)

theorem at_syncSlots (hslot : slot < auroraExtCount) (state : PolicySpace F × Bool) :
    ((List.range auroraExtCount).foldl (syncSlot loaders memory first fresh) state).1.at slot =
      syncedSlot loaders memory first slot (state.1.at slot) :=
  foldl_once (fun state : PolicySpace F × Bool => state.1.at slot)
    (at_syncSlot_self loaders memory first fresh hslot)
    (fun state _ hne => at_syncSlot_of_ne loaders memory first fresh hne state)
    List.nodup_range (List.mem_range.mpr hslot) state

theorem at_syncRouteMasks (slot : Nat) (state : PolicySpace F × Bool) :
    (syncRouteMasks loaders memory first state).1.at slot = state.1.at slot := by
  unfold syncRouteMasks
  dsimp only
  split <;> rfl

/-! ## Nothing changed -/

theorem syncSlot_eq_or_changed (state : PolicySpace F × Bool) (slot : Nat) :
    syncSlot loaders memory first fresh state slot = state ∨
      (syncSlot loaders memory first fresh state slot).2 = true := by
  unfold syncSlot
  dsimp only
  split
  · exact .inl rfl
  · exact .inr rfl

theorem syncSlots_eq_or_changed (slots : List Nat) (state : PolicySpace F × Bool) :
    slots.foldl (syncSlot loaders memory first fresh) state = state ∨
      (slots.foldl (syncSlot loaders memory first fresh) state).2 = true := by
  induction slots using List.reverseRecOn with
  | nil => exact .inl rfl
  | append_singleton slots slot ih =>
    rw [List.foldl_append, List.foldl_cons]
    rcases syncSlot_eq_or_changed loaders memory first fresh
      (slots.foldl (syncSlot loaders memory first fresh) state) slot with heq | hchanged
    · rw [heq]
      exact ih
    · exact .inr hchanged

theorem syncRouteMasks_eq_or_changed (state : PolicySpace F × Bool) :
    syncRouteMasks loaders memory first state = state ∨
      (syncRouteMasks loaders memory first state).2 = true := by
  unfold syncRouteMasks
  dsimp only
  split
  · exact .inl rfl
  · exact .inr rfl

end Slots

/-! ## The process -/

def Process.at (p : Process F) (slot : Nat) : Option (SlotEngine F) × Nat :=
  (p.active.getD .default).at slot

def Process.UpToDate (p : Process F) (memory : PolicyMemory) : Prop :=
  memory.totalGeneration = p.lastSyncGen ∧ p.active.isSome = true

instance (p : Process F) (memory : PolicyMemory) : Decidable (p.UpToDate memory) :=
  inferInstanceAs (Decidable (_ ∧ _))

def syncAll (loaders : Loaders F) (memory : PolicyMemory) (p : Process F) :
    PolicySpace F × Bool :=
  syncRouteMasks loaders memory p.active.isNone
    ((List.range auroraExtCount).foldl (syncSlot loaders memory p.active.isNone p.nextArc)
      (p.active.getD .default, false))

variable (loaders : Loaders F) (memory : PolicyMemory) (p : Process F)

theorem at_syncAll {slot : Nat} (hslot : slot < auroraExtCount) :
    (syncAll loaders memory p).1.at slot =
      syncedSlot loaders memory p.active.isNone slot (p.at slot) := by
  rw [syncAll, at_syncRouteMasks, at_syncSlots loaders memory _ _ hslot]
  rfl

theorem syncAll_eq_or_changed :
    syncAll loaders memory p = (p.active.getD .default, false) ∨
      (syncAll loaders memory p).2 = true := by
  unfold syncAll
  rcases syncRouteMasks_eq_or_changed loaders memory p.active.isNone
    ((List.range auroraExtCount).foldl (syncSlot loaders memory p.active.isNone p.nextArc)
      (p.active.getD .default, false)) with heq | hchanged
  · rw [heq]
    exact syncSlots_eq_or_changed loaders memory _ _ _ _
  · exact .inr hchanged

theorem view_policySync {β : Type} (view : PolicySpace F → β)
    (htree : ∀ space tree, view { space with routeTrie := tree } = view space)
    (loaders : Loaders F) (memory : PolicyMemory) (p : Process F) :
    view ((auroraGatewayPolicySync loaders memory p).active.getD .default) =
      if p.UpToDate memory then view (p.active.getD .default)
      else view (syncAll loaders memory p).1 := by
  have hchanged := syncAll_eq_or_changed loaders memory p
  unfold auroraGatewayPolicySync
  by_cases hdone : memory.totalGeneration = p.lastSyncGen ∧ p.active.isSome = true
  · have huptodate : p.UpToDate memory := hdone
    rw [if_pos hdone, if_pos huptodate]
  · have hstale : ¬p.UpToDate memory := hdone
    rw [if_neg hdone]
    dsimp only
    rw [← syncAll]
    split
    · exact htree ..
    · rename_i hkept
      rcases hchanged with heq | hchanged
      · rw [heq]
      · simp [hchanged] at hkept

theorem at_policySync {slot : Nat} (hslot : slot < auroraExtCount) :
    (auroraGatewayPolicySync loaders memory p).at slot =
      if p.UpToDate memory then p.at slot
      else syncedSlot loaders memory p.active.isNone slot (p.at slot) := by
  rw [← at_syncAll loaders memory p hslot]
  exact view_policySync (fun space => space.at slot) (fun _ _ => rfl) loaders memory p

theorem isSome_active_policySync :
    (auroraGatewayPolicySync loaders memory p).active.isSome = true := by
  unfold auroraGatewayPolicySync
  split
  · rename_i hdone
    exact hdone.2
  · dsimp only
    split
    · rfl
    · rename_i hkept
      cases hactive : p.active with
      | none => simp [hactive] at hkept
      | some space => rfl

end AuroraGateway.Ffi
