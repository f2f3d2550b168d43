import AuroraGateway.ConnectionLimit.Sessions
import AuroraGateway.Ffi.Filters
import AuroraGateway.IpRestriction.Snapshot

/-!
# The active policy space

Policies are published in slots of shared memory, each with a generation.  A
synchronisation replaces the engines whose generation has changed and rebuilds
the masks of the routes.  A policy that is not accepted leaves its engine as it
is; a policy that is taken back removes it.
-/

namespace AuroraGateway.Ffi

open Access
open ConnectionLimit (ConnectionLimitEngine)
open Engine Foundation
open IpRestriction (IpRestrictionEngine)
open RateLimit (RateLimitEngine)
open RequestTermination (RequestTerminationEngine)
open ResourceLimit (ResourceLimiter)
open ResponseCompression (ResponseCompressionEngine)

variable {F : Type}

/-! ## Shared memory -/

structure SlotReading where
  generation : Nat
  data : Bytes

structure PolicyMemory where
  totalGeneration : Nat
  slots : Nat → SlotReading

structure RouteMaskRule where
  path : Text
  allowMask : BitVec 32
  denyMask : BitVec 32
  explicit : Bool

structure RouteMaskSnapshot where
  routes : List RouteMaskRule

def auroraExtRequestMirror : Nat := 9
def auroraExtCount : Nat := 13
def auroraSlotRouteMasks : Nat := 15

/-! ## Engines -/

structure Loaders (F : Type) where
  ipRestriction : IpRestriction.Environment
  jwt : Bytes → Option (RequestContext → HeaderLookup → Except Error JwtDecision)
  rateLimit : RateLimit.Environment
  connectionLimit : ConnectionLimit.Environment
  trafficShaper : Bytes → Option (RequestContext → HeaderLookup → ShaperDecision)
  resourceLimit : Bytes → Option ResourceLimiter
  trafficSplit : Bytes → Option (RequestContext → HeaderLookup → RoutingDecision)
  canaryRelease : Bytes → Option (RequestContext → HeaderLookup → RoutingDecision)
  blueGreen : Bytes → Option (RequestContext → HeaderLookup → RoutingDecision)
  requestMirror : Bytes → Option Unit
  requestTermination : Bytes → Option RequestTerminationEngine
  responseCompression : Bytes → Option ResponseCompressionEngine
  responseCache : Bytes → Option ResponseCache
  routeMasks : Bytes → Option RouteMaskSnapshot

def Loaders.empty : Loaders F where
  ipRestriction := ⟨fun _ => none, fun _ => 0⟩
  jwt := fun _ => none
  rateLimit := ⟨fun _ => none, fun _ _ _ => true⟩
  connectionLimit := ⟨fun _ => none, fun _ _ _ => true⟩
  trafficShaper := fun _ => none
  resourceLimit := fun _ => none
  trafficSplit := fun _ => none
  canaryRelease := fun _ => none
  blueGreen := fun _ => none
  requestMirror := fun _ => none
  requestTermination := fun _ => none
  responseCompression := fun _ => none
  responseCache := fun _ => none
  routeMasks := fun _ => none

/-- Of the mirror it matters only whether it is loaded. -/
structure PolicySpace (F : Type) extends GatewayActiveSpace F where
  requestMirror : Option Unit
  responseCompression : Option ResponseCompressionEngine
  generations : Nat → Nat
  routeMasksGen : Nat
  routeMaskSnapshot : RouteMaskSnapshot
  /-- The address of the connection limiter. -/
  connectionArc : Nat

def PolicySpace.default : PolicySpace F where
  toAccessPhaseEngines := .none
  responseCache := none
  routeTrie := .ofList []
  requestMirror := none
  responseCompression := none
  generations := fun _ => 0
  routeMasksGen := 0
  routeMaskSnapshot := ⟨[]⟩
  connectionArc := 0

def reloaded {α : Type} (load : Bytes → Option α) (data : Bytes) (current : Option α) :
    Option α :=
  if data.isEmpty then none else (load data).or current

variable (loaders : Loaders F)

def loadConnectionLimit (data : Bytes) : Option ConnectionLimitEngine :=
  (ConnectionLimitEngine.fromSnapshot loaders.connectionLimit data).toOption

def loadSlot (fresh slot : Nat) (data : Bytes) (next : PolicySpace F) : PolicySpace F :=
  match slot with
  | 0 =>
    { next with
      ipRestriction := reloaded
        (fun data => (IpRestrictionEngine.fromSnapshot loaders.ipRestriction data).toOption)
        data next.ipRestriction }
  | 1 => { next with jwt := reloaded loaders.jwt data next.jwt }
  | 2 =>
    { next with
      rateLimit := reloaded
        (fun data => (RateLimitEngine.fromSnapshot loaders.rateLimit data).toOption)
        data next.rateLimit }
  | 3 =>
    { next with
      connectionLimit := reloaded (loadConnectionLimit loaders) data next.connectionLimit
      connectionArc :=
        if (loadConnectionLimit loaders data).isSome then fresh else next.connectionArc }
  | 4 => { next with trafficShaper := reloaded loaders.trafficShaper data next.trafficShaper }
  | 5 => { next with resourceLimit := reloaded loaders.resourceLimit data next.resourceLimit }
  | 6 => { next with trafficSplit := reloaded loaders.trafficSplit data next.trafficSplit }
  | 7 => { next with canaryRelease := reloaded loaders.canaryRelease data next.canaryRelease }
  | 8 => { next with blueGreen := reloaded loaders.blueGreen data next.blueGreen }
  | 9 => { next with requestMirror := reloaded loaders.requestMirror data next.requestMirror }
  | 10 =>
    { next with
      requestTermination :=
        reloaded loaders.requestTermination data next.requestTermination }
  | 11 =>
    { next with
      responseCompression :=
        reloaded loaders.responseCompression data next.responseCompression }
  | 12 => { next with responseCache := reloaded loaders.responseCache data next.responseCache }
  | _ => next

/-! ## Synchronisation -/

/-- One pass of the loop over the slots; `first` says that no space is active yet. -/
def syncSlot (memory : PolicyMemory) (first : Bool) (fresh : Nat) (state : PolicySpace F × Bool)
    (slot : Nat) : PolicySpace F × Bool :=
  let (next, changed) := state
  let reading := memory.slots slot
  if reading.generation = next.generations slot ∧ first = false then (next, changed)
  else
    (loadSlot loaders fresh slot reading.data
      { next with generations := Function.update next.generations slot reading.generation },
      true)

def syncRouteMasks (memory : PolicyMemory) (first : Bool) (state : PolicySpace F × Bool) :
    PolicySpace F × Bool :=
  let (next, changed) := state
  let reading := memory.slots auroraSlotRouteMasks
  if reading.generation = next.routeMasksGen ∧ first = false then (next, changed)
  else
    ({ next with
        routeMasksGen := reading.generation
        routeMaskSnapshot :=
          if reading.data.isEmpty then ⟨[]⟩
          else (loaders.routeMasks reading.data).getD next.routeMaskSnapshot }, true)

def activeMask (space : PolicySpace F) : BitVec 32 :=
  ([(space.ipRestriction.isSome, auroraExtIpRestriction), (space.jwt.isSome, auroraExtJwt),
    (space.rateLimit.isSome, auroraExtRateLimit),
    (space.connectionLimit.isSome, auroraExtConnLimit),
    (space.trafficShaper.isSome, auroraExtTrafficShaper),
    (space.resourceLimit.isSome, auroraExtResourceLimit),
    (space.trafficSplit.isSome, auroraExtTrafficSplit),
    (space.canaryRelease.isSome, auroraExtCanaryRelease),
    (space.blueGreen.isSome, auroraExtBlueGreen),
    (space.requestMirror.isSome, auroraExtRequestMirror),
    (space.requestTermination.isSome, auroraExtRequestTermination),
    (space.responseCompression.isSome, auroraExtResponseCompression),
    (space.responseCache.isSome, auroraExtResponseCache)] : List (Bool × Nat)).foldl
    (fun mask (loaded, ext) => if loaded then mask ||| 1#32 <<< ext else mask) 0

def effectiveMask (active : BitVec 32) (rule : RouteMaskRule) : BitVec 32 :=
  let base := if rule.explicit then 0 else active
  ((base ||| rule.allowMask) &&& ~~~rule.denyMask) &&& active

def buildRouteTrie (space : PolicySpace F) : BuiltTree (BitVec 32) :=
  let active := activeMask space
  .ofList ((ascii "/", active) ::
    space.routeMaskSnapshot.routes.map fun rule =>
      (sliceOrDefault rule.path.bytes (ascii "/"), effectiveMask active rule))

/-- The globals of a worker process, and the next free address. -/
structure Process (F : Type) where
  active : Option (PolicySpace F)
  lastSyncGen : Nat
  nextArc : Nat

def Process.start : Process F := ⟨none, 0, 0⟩

def auroraGatewayPolicySync (memory : PolicyMemory) (p : Process F) : Process F :=
  if memory.totalGeneration = p.lastSyncGen ∧ p.active.isSome then p
  else
    let first := p.active.isNone
    let state := (List.range auroraExtCount).foldl (syncSlot loaders memory first p.nextArc)
      (p.active.getD .default, false)
    let (next, changed) := syncRouteMasks loaders memory first state
    if changed || first then
      { active := some { next with routeTrie := buildRouteTrie next }
        lastSyncGen := memory.totalGeneration
        nextArc := p.nextArc + 1 }
    else p

/-! ## The connection limiter -/

def PolicySpace.limiter (space : PolicySpace F) : Option (ConnectionLimitEngine × Nat) :=
  space.connectionLimit.map fun engine => (engine, space.connectionArc)

def Process.limiter (p : Process F) : Option (ConnectionLimitEngine × Nat) :=
  p.active.bind PolicySpace.limiter

inductive LimiterSync (loaders : Loaders F) (memory : PolicyMemory) (fresh : Nat)
    (before : Option (ConnectionLimitEngine × Nat)) :
    Option (ConnectionLimitEngine × Nat) → Prop
  | kept : LimiterSync loaders memory fresh before before
  | removed : LimiterSync loaders memory fresh before none
  | replaced {engine : ConnectionLimitEngine}
      (h : ConnectionLimitEngine.fromSnapshot loaders.connectionLimit
        (memory.slots auroraExtConnLimit).data = .ok engine) :
      LimiterSync loaders memory fresh before (some (engine, fresh))

section Sync

variable {loaders : Loaders F} {memory : PolicyMemory} {first : Bool} {fresh : Nat}

theorem limiter_loadSlot_of_ne {slot : Nat} (hslot : slot ≠ auroraExtConnLimit) (data : Bytes)
    (next : PolicySpace F) :
    (loadSlot loaders fresh slot data next).limiter = next.limiter := by
  unfold loadSlot
  split <;> first | rfl | exact absurd rfl hslot

theorem limiter_loadSlot_self (data : Bytes) (next : PolicySpace F) :
    (loadSlot loaders fresh auroraExtConnLimit data next).limiter =
      if data.isEmpty then none
      else
        match loadConnectionLimit loaders data with
        | some engine => some (engine, fresh)
        | none => next.limiter := by
  unfold PolicySpace.limiter
  cases hload : loadConnectionLimit loaders data with
  | none =>
    by_cases hempty : data.isEmpty = true <;>
      simp [loadSlot, auroraExtConnLimit, reloaded, hload, hempty]
  | some engine =>
    by_cases hempty : data.isEmpty = true <;>
      simp [loadSlot, auroraExtConnLimit, reloaded, hload, hempty]

theorem limiter_syncSlot_of_ne {slot : Nat} (hslot : slot ≠ auroraExtConnLimit)
    (state : PolicySpace F × Bool) :
    (syncSlot loaders memory first fresh state slot).1.limiter = state.1.limiter := by
  unfold syncSlot
  dsimp only
  split
  · rfl
  · exact limiter_loadSlot_of_ne hslot _ _

theorem limiter_syncSlots_of_ne {slots : List Nat} (hslots : auroraExtConnLimit ∉ slots)
    (state : PolicySpace F × Bool) :
    (slots.foldl (syncSlot loaders memory first fresh) state).1.limiter = state.1.limiter := by
  induction slots generalizing state with
  | nil => rfl
  | cons slot slots ih =>
    simp only [List.mem_cons, not_or] at hslots
    rw [List.foldl_cons, ih hslots.2, limiter_syncSlot_of_ne (Ne.symm hslots.1)]

variable (state : PolicySpace F × Bool)

theorem limiter_syncSlot_self :
    LimiterSync loaders memory fresh state.1.limiter
      (syncSlot loaders memory first fresh state auroraExtConnLimit).1.limiter := by
  unfold syncSlot
  dsimp only
  split
  · exact .kept
  · rw [limiter_loadSlot_self]
    split
    · exact .removed
    · split
      · rename_i engine hload
        exact .replaced (eq_ok_of_toOption hload)
      · exact .kept

theorem limiter_syncSlots :
    LimiterSync loaders memory fresh state.1.limiter
      ((List.range auroraExtCount).foldl (syncSlot loaders memory first fresh) state).1.limiter
    := by
  have hslots : List.range auroraExtCount =
      List.range auroraExtConnLimit ++ auroraExtConnLimit :: [4, 5, 6, 7, 8, 9, 10, 11, 12] := by
    decide
  rw [hslots, List.foldl_append, List.foldl_cons, limiter_syncSlots_of_ne (by decide)]
  have hbefore := @limiter_syncSlots_of_ne F loaders memory first fresh
    (List.range auroraExtConnLimit) (by decide) state
  rw [← hbefore]
  exact limiter_syncSlot_self _

theorem limiter_syncRouteMasks :
    (syncRouteMasks loaders memory first state).1.limiter = state.1.limiter := by
  unfold syncRouteMasks
  dsimp only
  split <;> rfl

theorem limiter_policySync (loaders : Loaders F) (memory : PolicyMemory) (p : Process F) :
    auroraGatewayPolicySync loaders memory p = p ∨
      (auroraGatewayPolicySync loaders memory p).nextArc = p.nextArc + 1 ∧
        LimiterSync loaders memory p.nextArc p.limiter
          (auroraGatewayPolicySync loaders memory p).limiter := by
  unfold auroraGatewayPolicySync
  split
  · exact .inl rfl
  · dsimp only
    split
    · refine .inr ⟨rfl, ?_⟩
      have hbefore : (p.active.getD PolicySpace.default).limiter = p.limiter := by
        cases hactive : p.active with
        | none => simp [Process.limiter, hactive, PolicySpace.limiter, PolicySpace.default,
            AccessPhaseEngines.none]
        | some space => simp [Process.limiter, hactive]
      have hslots := @limiter_syncSlots F loaders memory p.active.isNone p.nextArc
        (p.active.getD .default, false)
      rw [hbefore, ← @limiter_syncRouteMasks F loaders memory p.active.isNone] at hslots
      exact hslots
    · exact .inl rfl

end Sync

end AuroraGateway.Ffi
