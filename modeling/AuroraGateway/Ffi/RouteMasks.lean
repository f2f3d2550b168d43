import AuroraGateway.Ffi.Lifecycle

/-!
# Extensions by route

The mask of a path is that of the longest route that covers it.  An extension
that is loaded is off for a request only if a route says so.
-/

namespace AuroraGateway.Ffi

open Engine
open Engine.PathRadixTree (Covers Decides linearMatches)
open Foundation

variable {F : Type}

/-! ## Masks -/

theorem enables_eq_getLsbD (mask : BitVec 32) {ext : Nat} (hext : ext < 32) :
    enables mask ext = mask.getLsbD ext := by
  rw [enables, Bool.eq_iff_iff, bne_iff_ne, ← not_iff_not, Classical.not_not]
  constructor
  · intro hzero
    have hbit := congrArg (fun bits => bits.getLsbD ext) hzero
    simpa [hext] using hbit
  · intro hbit
    ext i hi
    grind

theorem getLsbD_foldl_mask (flags : List (Bool × Nat)) (mask : BitVec 32) {ext : Nat}
    (hext : ext < 32) :
    (flags.foldl (fun mask (loaded, ext) => if loaded then mask ||| 1#32 <<< ext else mask)
        mask).getLsbD ext =
      (mask.getLsbD ext || flags.any fun (loaded, other) => loaded && other = ext) := by
  induction flags generalizing mask with
  | nil => simp
  | cons flag flags ih =>
    obtain ⟨loaded, other⟩ := flag
    have hbit : (mask ||| 1#32 <<< other).getLsbD ext =
        (mask.getLsbD ext || decide (other = ext)) := by
      simp only [BitVec.getLsbD_or, BitVec.getLsbD_shiftLeft, hext, decide_true,
        Bool.true_and, BitVec.getLsbD_one]
      grind
    rw [List.foldl_cons, ih]
    cases loaded with
    | false => simp
    | true => simp [hbit, Bool.or_assoc]

namespace PolicySpace

def isLoaded (space : PolicySpace F) : Nat → Bool
  | 0 => space.ipRestriction.isSome
  | 1 => space.jwt.isSome
  | 2 => space.rateLimit.isSome
  | 3 => space.connectionLimit.isSome
  | 4 => space.trafficShaper.isSome
  | 5 => space.resourceLimit.isSome
  | 6 => space.trafficSplit.isSome
  | 7 => space.canaryRelease.isSome
  | 8 => space.blueGreen.isSome
  | 9 => space.requestMirror.isSome
  | 10 => space.requestTermination.isSome
  | 11 => space.responseCompression.isSome
  | 12 => space.responseCache.isSome
  | _ => false

theorem getLsbD_activeMask (space : PolicySpace F) (ext : Nat) :
    (activeMask space).getLsbD ext = space.isLoaded ext := by
  by_cases hext : ext < 32
  · rw [activeMask, getLsbD_foldl_mask _ _ hext, isLoaded.eq_def]
    simp only [auroraExtIpRestriction, auroraExtJwt, auroraExtRateLimit, auroraExtConnLimit,
      auroraExtTrafficShaper, auroraExtResourceLimit, auroraExtTrafficSplit,
      auroraExtCanaryRelease, auroraExtBlueGreen, auroraExtRequestMirror,
      auroraExtRequestTermination, auroraExtResponseCompression, auroraExtResponseCache]
    split <;> simp_all [eq_comm]
  · rw [BitVec.getLsbD_of_ge _ _ (not_lt.mp hext), isLoaded.eq_def]
    split <;> first | rfl | omega

end PolicySpace

theorem enables_activeMask_jwt (space : PolicySpace F) :
    enables (activeMask space) auroraExtJwt = space.jwt.isSome := by
  rw [enables_eq_getLsbD _ (by decide), PolicySpace.getLsbD_activeMask]
  rfl

/-! ## Routes -/

def RouteMaskRule.key (rule : RouteMaskRule) : Bytes := sliceOrDefault rule.path.bytes (ascii "/")

def Process.after (loaders : Loaders F) (memories : List PolicyMemory) : Process F :=
  memories.foldl (fun p memory => auroraGatewayPolicySync loaders memory p) .start

def routeEntries (space : PolicySpace F) : List (Bytes × BitVec 32) :=
  (ascii "/", activeMask space) ::
    space.routeMaskSnapshot.routes.map fun rule =>
      (rule.key, effectiveMask (activeMask space) rule)

def PolicySpace.Synced (space : PolicySpace F) : Prop := space.routeTrie = buildRouteTrie space

def Process.Synced (p : Process F) : Prop := ∀ space, p.active = some space → space.Synced

theorem synced_policySync {loaders : Loaders F} {p : Process F} (h : p.Synced)
    (memory : PolicyMemory) : (auroraGatewayPolicySync loaders memory p).Synced := by
  unfold auroraGatewayPolicySync
  split
  · exact h
  · dsimp only
    split
    · intro space hspace
      obtain rfl := Option.some.inj hspace
      rfl
    · exact h

theorem synced_after (loaders : Loaders F) (memories : List PolicyMemory) :
    (Process.after loaders memories).Synced := by
  have hrun : ∀ p : Process F, p.Synced →
      (memories.foldl (fun p memory => auroraGatewayPolicySync loaders memory p) p).Synced := by
    induction memories with
    | nil => exact fun p hp => hp
    | cons memory memories ih => exact fun p hp => ih _ (synced_policySync hp memory)
  refine hrun _ fun space hspace => ?_
  cases hspace

theorem foldl_last {α : Type} (values : List α) (init : Option α) :
    values.foldl (fun _ value => some value) init = values.getLast?.or init := by
  induction values using List.reverseRecOn with
  | nil => simp
  | append_singleton values last _ => simp

namespace PolicySpace

variable {space : PolicySpace F} {path : Bytes}

theorem resolveRouteMask_eq (hsynced : space.Synced) (path : Bytes) :
    space.resolveRouteMask path =
      ((linearMatches (routeEntries space) path).getLast?).getD u32Mask := by
  rw [GatewayActiveSpace.resolveRouteMask, hsynced, BuiltTree.forEachMatch_eq, foldl_last,
    Option.or_none]
  rfl

theorem covers_root (hpath : path.head? = some slash) : Covers (ascii "/") path := by
  obtain ⟨rest, rfl⟩ := List.head?_eq_some_iff.mp hpath
  exact ⟨⟨rest, rfl⟩, .inl rfl⟩

theorem resolveRouteMask_of_decides (hsynced : space.Synced) {op : Bytes × BitVec 32}
    (h : Decides (routeEntries space) path op) : space.resolveRouteMask path = op.2 := by
  rw [resolveRouteMask_eq hsynced, h.getLast?_linearMatches]
  rfl

structure SwitchedOff (space : PolicySpace F) (path : Bytes) (ext : Nat) (rule : RouteMaskRule) :
    Prop where
  loaded : enables (activeMask space) ext = true
  disabled : enables (space.resolveRouteMask path) ext = false
  listed : rule ∈ space.routeMaskSnapshot.routes
  decides : Decides (routeEntries space) path (rule.key, effectiveMask (activeMask space) rule)

end PolicySpace

end AuroraGateway.Ffi
