import AuroraGateway.ControlWorker.Extensions
import AuroraGateway.Shm.Policy

/-!
# Publication of the policies

The control worker writes the policies of a release into the slots of the
shared memory.  A slot whose contents do not change is left alone.
-/

namespace AuroraGateway.ControlWorker

open Ffi Foundation Shm PolicyShmHeader

def syncPolicySlot (releaseId : Nat) (rendered : RenderedExtensions)
    (state : PolicyShmHeader × Bool) (slotId : Nat) : PolicyShmHeader × Bool :=
  let (header, anyChanged) := state
  match rendered.getShmSlot slotId with
  | some rawBytes =>
    if header.readSlot slotId = some (releaseId, rawBytes) then (header, anyChanged)
    else ((header.updateSlot slotId releaseId (some rawBytes)).1, true)
  | none =>
    if (header.readSlot slotId).any fun reading => reading.2.isEmpty then (header, anyChanged)
    else ((header.updateSlot slotId releaseId none).1, true)

def policySlots : List Nat := List.range auroraExtCount ++ [auroraSlotRouteMasks]

def syncPolicyToShm (releaseId : Nat) (rendered : RenderedExtensions) (header : PolicyShmHeader) :
    PolicyShmHeader × Bool :=
  policySlots.foldl (syncPolicySlot releaseId rendered) (header.ensureHeader, false)

/-! ## What is published -/

theorem readSlot_setSlot (header : PolicyShmHeader) {slotId : Nat} (hslot : slotId < policyMaxSlots)
    (slot : PolicySlot) (other : Nat) :
    (header.setSlot slotId slot).readSlot other =
      if other = slotId then slot.read else header.readSlot other := by
  unfold readSlot setSlot
  by_cases hother : other = slotId
  · subst hother
    rw [if_neg (Nat.not_le.mpr hslot), if_pos rfl]
    dsimp only
    rw [Function.update_self]
  · rw [if_neg hother]
    dsimp only
    rw [Function.update_of_ne hother]

def publishedReading (releaseId : Nat) (payload : Option Bytes) (reading : Option (Nat × Bytes)) :
    Option (Nat × Bytes) :=
  match payload with
  | some bytes => if bytes.length ≤ policySlotCapacity then some (releaseId, bytes) else reading
  | none => if reading.any fun reading => reading.2.isEmpty then reading else some (releaseId, [])

theorem readSlot_updateSlot_self (header : PolicyShmHeader) {slotId : Nat}
    (hslot : slotId < policyMaxSlots) (generation : Nat) (payload : Option Bytes) :
    (header.updateSlot slotId generation payload).1.readSlot slotId =
      match payload with
      | some bytes =>
        if bytes.length ≤ policySlotCapacity then some (generation, bytes)
        else header.readSlot slotId
      | none => some (generation, []) := by
  unfold updateSlot
  rw [if_neg (Nat.not_le.mpr hslot)]
  cases payload with
  | none => rw [readSlot_setSlot _ hslot, if_pos rfl, (PolicySlot.holds_clear _ _).read]
  | some bytes =>
    dsimp only
    by_cases hfits : bytes.length ≤ policySlotCapacity
    · rw [if_pos hfits, if_neg (Nat.not_lt.mpr hfits), readSlot_setSlot _ hslot, if_pos rfl,
        (PolicySlot.holds_fill _ _ hfits).read]
    · rw [if_neg hfits, if_pos (Nat.not_le.mp hfits)]

section Slots

variable {releaseId : Nat} {rendered : RenderedExtensions} {slot : Nat}

theorem mem_policySlots_lt (h : slot ∈ policySlots) : slot < policyMaxSlots := by
  have hall : ∀ slot ∈ policySlots, slot < policyMaxSlots := by decide
  exact hall slot h

theorem readSlot_syncPolicySlot_self (hslot : slot ∈ policySlots) (state : PolicyShmHeader × Bool) :
    (syncPolicySlot releaseId rendered state slot).1.readSlot slot =
      publishedReading releaseId (rendered.getShmSlot slot) (state.1.readSlot slot) := by
  have hlt := mem_policySlots_lt hslot
  have hupdate := readSlot_updateSlot_self state.1 hlt releaseId
  unfold syncPolicySlot publishedReading
  cases hpayload : rendered.getShmSlot slot with
  | none =>
    dsimp only
    split
    · rfl
    · rw [hupdate none]
  | some bytes =>
    dsimp only
    split
    · rename_i hsame
      rw [hsame, ite_self]
    · rw [hupdate (some bytes)]

theorem readSlot_updateSlot_of_ne (header : PolicyShmHeader) {slotId other : Nat}
    (hne : other ≠ slotId) (generation : Nat) (payload : Option Bytes) :
    (header.updateSlot slotId generation payload).1.readSlot other = header.readSlot other := by
  unfold updateSlot
  split
  · rfl
  · rename_i hlt
    have hset := fun slot => readSlot_setSlot header (Nat.not_le.mp hlt) slot other
    cases payload with
    | none => rw [hset, if_neg hne]
    | some bytes =>
      dsimp only
      split
      · rfl
      · rw [hset, if_neg hne]

theorem readSlot_syncPolicySlot_of_ne {other : Nat} (hne : other ≠ slot)
    (state : PolicyShmHeader × Bool) :
    (syncPolicySlot releaseId rendered state other).1.readSlot slot = state.1.readSlot slot := by
  have hupdate := fun payload =>
    readSlot_updateSlot_of_ne state.1 hne.symm releaseId payload
  unfold syncPolicySlot
  cases rendered.getShmSlot other with
  | none =>
    dsimp only
    split
    · rfl
    · exact hupdate none
  | some bytes =>
    dsimp only
    split
    · rfl
    · exact hupdate (some bytes)

theorem readSlot_syncPolicyToShm (hslot : slot ∈ policySlots) (header : PolicyShmHeader) :
    (syncPolicyToShm releaseId rendered header).1.readSlot slot =
      publishedReading releaseId (rendered.getShmSlot slot)
        (header.ensureHeader.readSlot slot) :=
  foldl_once (fun state : PolicyShmHeader × Bool => state.1.readSlot slot)
    (readSlot_syncPolicySlot_self hslot)
    (fun state _ hne => readSlot_syncPolicySlot_of_ne hne state)
    (by decide) hslot (header.ensureHeader, false)

/-! ## The header -/

def Initialised (header : PolicyShmHeader) : Prop :=
  header.magic = policyMagic ∧ header.version = policyVersion

theorem initialised_ensureHeader (header : PolicyShmHeader) : Initialised header.ensureHeader := by
  unfold ensureHeader
  split
  · exact ⟨rfl, rfl⟩
  · rename_i h
    exact ⟨not_not.mp fun hmagic => h (.inl hmagic), not_not.mp fun hversion => h (.inr hversion)⟩

theorem ensureHeader_of_initialised {header : PolicyShmHeader} (h : Initialised header) :
    header.ensureHeader = header :=
  if_neg fun hbad => hbad.elim (fun hmagic => hmagic h.1) fun hversion => hversion h.2

theorem initialised_syncPolicySlot {state : PolicyShmHeader × Bool} (h : Initialised state.1)
    (slotId : Nat) : Initialised (syncPolicySlot releaseId rendered state slotId).1 := by
  unfold syncPolicySlot updateSlot
  repeat' split
  all_goals exact h

theorem initialised_syncPolicyToShm (header : PolicyShmHeader) :
    Initialised (syncPolicyToShm releaseId rendered header).1 := by
  have hloop : ∀ (slots : List Nat) (state : PolicyShmHeader × Bool), Initialised state.1 →
      Initialised (slots.foldl (syncPolicySlot releaseId rendered) state).1 := by
    intro slots
    induction slots with
    | nil => exact fun state h => h
    | cons slot slots ih => exact fun state h => ih _ (initialised_syncPolicySlot h slot)
  exact hloop _ _ (initialised_ensureHeader header)

theorem readSlot_ensureHeader_zeroed (hslot : slot < policyMaxSlots) :
    zeroed.ensureHeader.readSlot slot = some (0, []) :=
  (if_neg (Nat.not_le.mpr hslot)).trans (PolicySlot.holds_clear _ _).read

end Slots

end AuroraGateway.ControlWorker
