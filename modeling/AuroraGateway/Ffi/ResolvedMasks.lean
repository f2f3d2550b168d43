import AuroraGateway.Ffi.RouteMasks
import Mathlib.Tactic.IntervalCases

/-!
# Resolved masks

Among the rules whose path covers the request, the longest decides, and the last listed
of those.  The entry for `/` that is built from the engines comes before the rules, so a
rule for `/` replaces it.
-/

namespace AuroraGateway.Ffi

open Access Engine
open Engine.PathRadixTree (Covers Decides)
open Foundation

variable {F : Type} {path : Bytes}

/-! ## The rule that decides -/

def longerRule (path : Bytes) (best : Option RouteMaskRule) (rule : RouteMaskRule) :
    Option RouteMaskRule :=
  if Covers rule.key path ∧ best.all (fun other => other.key.length ≤ rule.key.length) then
    some rule
  else best

def decidingRule (routes : List RouteMaskRule) (path : Bytes) : Option RouteMaskRule :=
  routes.foldl (longerRule path) none

theorem RouteMaskRule.one_le_length_key (rule : RouteMaskRule) : 1 ≤ rule.key.length := by
  unfold RouteMaskRule.key sliceOrDefault
  split
  · decide
  · next hne => exact List.length_pos_iff.mpr (by simpa using hne)

section Entries

variable {T : Type} {ops : List (Bytes × T)} {op new : Bytes × T}

theorem decides_append_longer (h : Decides ops path op) (hcovers : Covers new.1 path)
    (hlength : op.1.length ≤ new.1.length) : Decides (ops ++ [new]) path new := by
  obtain ⟨before, after, rfl, hbefore, hafter⟩ := h.split
  refine ⟨hcovers, _, [], rfl, ?_, by simp⟩
  intro other hother hcov
  rcases List.mem_append.mp hother with hother | hother
  · exact (hbefore other hother hcov).trans hlength
  · rcases List.mem_cons.mp hother with rfl | hother
    · exact hlength
    · exact (hafter other hother hcov).le.trans hlength

theorem decides_append_shorter (h : Decides ops path op)
    (hshorter : Covers new.1 path → new.1.length < op.1.length) :
    Decides (ops ++ [new]) path op := by
  obtain ⟨before, after, rfl, hbefore, hafter⟩ := h.split
  refine ⟨h.covers, before, after ++ [new], by simp, hbefore, ?_⟩
  intro other hother hcov
  rcases List.mem_append.mp hother with hother | hother
  · exact hafter other hother hcov
  · obtain rfl := List.mem_singleton.mp hother
    exact hshorter hcov

end Entries

def entryOf (active : BitVec 32) : Option RouteMaskRule → Bytes × BitVec 32
  | none => (ascii "/", active)
  | some rule => (rule.key, effectiveMask active rule)

theorem decides_decidingRule (active : BitVec 32) (routes : List RouteMaskRule)
    (hpath : path.head? = some slash) :
    Decides (entryOf active none :: routes.map fun rule => entryOf active (some rule)) path
      (entryOf active (decidingRule routes path)) := by
  induction routes using List.reverseRecOn with
  | nil => exact ⟨PolicySpace.covers_root hpath, [], [], rfl, by simp, by simp⟩
  | append_singleton routes rule ih =>
    have hstep : decidingRule (routes ++ [rule]) path =
        longerRule path (decidingRule routes path) rule := by
      simp [decidingRule]
    rw [hstep, List.map_append, longerRule]
    split
    · next htaken =>
      refine decides_append_longer ih htaken.1 ?_
      -- without a rule the entry to beat is the root, and no key is shorter than that
      cases hbest : decidingRule routes path with
      | none => exact rule.one_le_length_key
      | some best => simpa [hbest, entryOf] using htaken.2
    · next hkept =>
      refine decides_append_shorter ih fun hcovers => ?_
      cases hbest : decidingRule routes path with
      | none => simp [hbest, show Covers rule.key path from hcovers] at hkept
      | some best => simpa [hbest, entryOf, show Covers rule.key path from hcovers] using hkept

/-! ## The engines of a request -/

structure PhaseEngines (F : Type) extends AccessPhaseEngines F where
  requestMirror : Option Unit

def PolicySpace.phaseEngines (space : PolicySpace F) (path : Bytes) : PhaseEngines F :=
  { space.buildPhaseEngines path with
    requestMirror :=
      if enables (space.resolveRouteMask path) auroraExtRequestMirror then space.requestMirror
      else none }

def PhaseEngines.exposes (engines : PhaseEngines F) : Nat → Bool
  | 0 => engines.ipRestriction.isSome
  | 1 => engines.jwt.isSome
  | 2 => engines.rateLimit.isSome
  | 3 => engines.connectionLimit.isSome
  | 4 => engines.trafficShaper.isSome
  | 5 => engines.resourceLimit.isSome
  | 6 => engines.trafficSplit.isSome
  | 7 => engines.canaryRelease.isSome
  | 8 => engines.blueGreen.isSome
  | 9 => engines.requestMirror.isSome
  | 10 => engines.requestTermination.isSome
  | _ => false

theorem isSome_ite {α : Type} (on : Bool) (engine : Option α) :
    (if on then engine else none).isSome = (engine.isSome && on) := by
  cases on <;> simp

theorem PolicySpace.exposes_phaseEngines (space : PolicySpace F) (path : Bytes) (ext : Nat) :
    (space.phaseEngines path).exposes ext =
      (decide (ext ≤ auroraExtRequestTermination) && space.isLoaded ext &&
        (space.resolveRouteMask path).getLsbD ext) := by
  by_cases hext : ext ≤ auroraExtRequestTermination
  · rw [← enables_eq_getLsbD _ (hext.trans_lt (by decide))]
    simp only [auroraExtRequestTermination] at hext
    interval_cases ext <;> exact isSome_ite _ _
  · rw [decide_eq_false hext, PhaseEngines.exposes.eq_def]
    simp only [auroraExtRequestTermination] at hext
    split <;> first | rfl | omega

/-! ## After a synchronisation -/

structure ServedSpace (F : Type) where
  loaders : Loaders F
  memories : List PolicyMemory
  space : PolicySpace F
  active : (Process.after loaders memories).active = some space

structure RootedPath where
  bytes : Bytes
  rooted : bytes.head? = some slash

def unconfigured : ServedSpace ℚ where
  loaders := .empty
  memories := [⟨1, fun _ => ⟨0, []⟩⟩]
  space := _
  active := rfl

def rootPath : RootedPath := ⟨ascii "/", rfl⟩

theorem ServedSpace.resolveRouteMask_eq_deciding (served : ServedSpace F) (path : RootedPath) :
    served.space.resolveRouteMask path.bytes =
      (entryOf (activeMask served.space)
        (decidingRule served.space.routeMaskSnapshot.routes path.bytes)).2 :=
  PolicySpace.resolveRouteMask_of_decides
    (synced_after served.loaders served.memories _ served.active)
    (decides_decidingRule _ _ path.rooted)

/-- The mask of a path is that of the deciding rule, or has the bits of the loaded engines,
and a request sees the loaded engines of its phase whose bit is set. -/
theorem ServedSpace.route_mask_exact (served : ServedSpace F) (path : RootedPath) :
    served.space.resolveRouteMask path.bytes =
        (match decidingRule served.space.routeMaskSnapshot.routes path.bytes with
          | some rule =>
            ((if rule.explicit then 0 else activeMask served.space) ||| rule.allowMask) &&&
              ~~~rule.denyMask &&& activeMask served.space
          | none => activeMask served.space) ∧
      (∀ ext, (activeMask served.space).getLsbD ext = served.space.isLoaded ext) ∧
      ∀ ext, (served.space.phaseEngines path.bytes).exposes ext =
        (decide (ext ≤ auroraExtRequestTermination) && served.space.isLoaded ext &&
          (served.space.resolveRouteMask path.bytes).getLsbD ext) := by
  refine ⟨?_, served.space.getLsbD_activeMask, served.space.exposes_phaseEngines path.bytes⟩
  rw [served.resolveRouteMask_eq_deciding path]
  cases decidingRule served.space.routeMaskSnapshot.routes path.bytes with
  | none => rfl
  | some rule => rfl

end AuroraGateway.Ffi
