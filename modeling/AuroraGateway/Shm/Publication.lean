import AuroraGateway.ControlWorker.HotSwap
import AuroraGateway.Shm.TornWrites

/-!
# Complete updates

Once every update is complete, a slot reads as the last update that it took, and a worker that
starts then has the engines of these.
-/

namespace AuroraGateway.Shm

open ControlWorker Ffi Foundation PolicyShmHeader

/-! ## The stores of an update -/

/-- An update as its stores, one after the other. -/
def storeAll (header : PolicyShmHeader) (update : Update) : PolicyShmHeader :=
  if update.accepted then
    header.setSlot update.slotId
      (applyStores (updateStores update.generation update.payload) (header.slots update.slotId))
  else header

theorem storeAll_eq_publish : storeAll = publish := by
  funext header ⟨slotId, generation, payload⟩
  unfold storeAll publish updateSlot Update.accepted
  by_cases hslot : policyMaxSlots ≤ slotId
  · simp [hslot]
  · rw [if_neg hslot]
    cases payload with
    | none => simp [hslot, updateStores, applyStores, SlotStore.apply, PolicySlot.clear]
    | some bytes =>
      by_cases hfits : policySlotCapacity < bytes.length
      · simp [hfits]
      · have hstores := applyStores_bytes bytes (header.slots slotId)
        unfold applyStores at hstores
        simp [hslot, hfits, updateStores, applyStores, hstores, SlotStore.apply, PolicySlot.fill]

/-! ## The last update of a slot -/

theorem readSlot_published (log : List Update) {slot : Nat} (hslot : slot < policyMaxSlots) :
    (published log).readSlot slot = some (readingOf (lastUpdate log slot)) := by
  rw [readSlot, if_neg (Nat.not_le.mpr hslot)]
  exact (holds_published log hslot).read

/-- Any log of updates, carried out store by store, leaves in every slot the last update that
it took. -/
theorem stored_log_reads_last (log : List Update) (slot : Fin policyMaxSlots) :
    (log.foldl storeAll PolicyShmHeader.zeroed.ensureHeader).readSlot slot =
      some (readingOf (lastUpdate log slot)) := by
  rw [storeAll_eq_publish]
  exact readSlot_published log slot.isLt

/-- A worker that starts has the engines that the last payloads compile to. -/
theorem started_worker_engine {F : Type} (loaders : Loaders F) (log : List Update)
    (slot : Fin auroraExtCount) :
    ((auroraGatewayPolicySync loaders (published log).memory .start).at slot).1 =
      loadPayload loaders slot (readingOf (lastUpdate log slot)).2 := by
  have hslot : (published log).memory.slots slot = ⟨_, (readingOf (lastUpdate log slot)).2⟩ :=
    slotGet_of_readSlot (readSlot_published log (slot.isLt.trans (by decide)))
  have hkept : (Process.start : Process F).at slot = (none, 0) :=
    (tracks_start loaders slot.isLt).kept
  rw [at_policySync loaders _ _ slot.isLt, if_neg (fun h => by cases h.2), syncedSlot,
    if_neg (fun h => by cases h.2), hkept, hslot]
  exact reloaded_none loaders slot _

end AuroraGateway.Shm
