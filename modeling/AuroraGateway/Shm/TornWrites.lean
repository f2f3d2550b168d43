import AuroraGateway.Shm.Policy
import AuroraGateway.Ffi.RouteMasks

/-!
# Synchronisation in the middle of an update

An update is a sequence of stores: the bytes, the checksum, the length, the
generation of the slot and the count of updates.  A worker may synchronise
between any two of them.
-/

namespace AuroraGateway.Shm

open Ffi Foundation

variable {F : Type}

/-! ## Stores -/

inductive SlotStore where
  | byte (i : Nat) (value : UInt8)
  | checksum (value : BitVec 32)
  | dataLen (value : Nat)
  | generation (value : Nat)

def SlotStore.apply (slot : PolicySlot) : SlotStore → PolicySlot
  | .byte i value => { slot with data := Function.update slot.data i value }
  | .checksum value => { slot with checksum := value }
  | .dataLen value => { slot with dataLen := value }
  | .generation value => { slot with generation := value }

def updateStores (generation : Nat) : Option Bytes → List SlotStore
  | some bytes =>
    (bytes.zipIdx.map fun (value, i) => .byte i value) ++
      [.checksum (computeCrc32 bytes), .dataLen bytes.length, .generation generation]
  | none => [.dataLen 0, .checksum 0, .generation generation]

def applyStores (stores : List SlotStore) (slot : PolicySlot) : PolicySlot :=
  stores.foldl SlotStore.apply slot

/-! ## Updates in progress -/

/-- An update of which `done` stores have been made; the last one counts the update. -/
structure PendingUpdate where
  generation : Nat
  payload : Bytes
  fits : payload.length ≤ policySlotCapacity
  done : Nat

namespace PendingUpdate

variable (u : PendingUpdate)

def stores : List SlotStore := updateStores u.generation (some u.payload)

def counted : Bool := u.stores.length < u.done

def slot (before : PolicySlot) : PolicySlot :=
  applyStores (u.stores.take u.done) before

/-- The bytes under the old length once the copy has begun. -/
def mixed (old : Bytes) : Bytes :=
  let copied := u.payload.take u.done
  (copied ++ old.drop copied.length).take old.length

/-- The checksum that stands beside them: the new one follows the last byte. -/
def expected (old : Bytes) : BitVec 32 :=
  computeCrc32 (if u.done ≤ u.payload.length then old else u.payload)

/-- What is read of a slot with this generation and payload before the update. -/
def read (old : Nat × Bytes) : Option (Nat × Bytes) :=
  if u.done ≤ u.payload.length + 1 then
    if old.2 = [] ∨ computeCrc32 (u.mixed old.2) = u.expected old.2 then some (old.1, u.mixed old.2)
    else none
  else some (if u.done = u.payload.length + 2 then old.1 else u.generation, u.payload)

end PendingUpdate

structure Update where
  slotId : Nat
  generation : Nat
  payload : Option Bytes

def Update.accepted (update : Update) : Bool :=
  update.slotId < policyMaxSlots &&
    update.payload.all fun bytes => bytes.length ≤ policySlotCapacity

def publish (header : PolicyShmHeader) (update : Update) : PolicyShmHeader :=
  (header.updateSlot update.slotId update.generation update.payload).1

def published (log : List Update) : PolicyShmHeader :=
  log.foldl publish PolicyShmHeader.zeroed.ensureHeader

def lastUpdate (log : List Update) (slot : Nat) : Option Update :=
  log.reverse.find? fun update => update.slotId = slot && update.accepted

/-- The generation and the payload of an update; those of a new slot if there was none. -/
def readingOf (update : Option Update) : Nat × Bytes :=
  update.elim (0, []) fun update => (update.generation, update.payload.getD [])

/-- A memory with updates in progress after the updates of `log`. -/
structure MidUpdate where
  log : List Update
  pending : Nat → Option PendingUpdate

namespace MidUpdate

variable (m : MidUpdate) (slot : Nat)

def header : PolicyShmHeader :=
  { published m.log with
    slots := fun slot =>
      match m.pending slot with
      | none => (published m.log).slots slot
      | some u => u.slot ((published m.log).slots slot)
    totalGeneration :=
      ((published m.log).totalGeneration +
        (List.range policyMaxSlots).countP fun slot => (m.pending slot).any (·.counted)) % 2 ^ 64 }

/-- The generation and the payload of the slot before the updates in progress. -/
def old : Nat × Bytes := readingOf (lastUpdate m.log slot)

/-- The payload is the old one of the slot or the new one, as a whole. -/
def Complete (bytes : Bytes) : Prop :=
  (lastUpdate m.log slot).bind Update.payload = some bytes ∨
    ∃ u, m.pending slot = some u ∧ u.payload = bytes

def Cleared : Prop := ∃ update ∈ m.log, update.slotId = slot ∧ update.payload = none

def Tolerates (loaders : Loaders F) (prior after : Option (SlotEngine F)) : Prop :=
  after = prior ∨
    (after.isSome = true ∧ ∃ bytes, m.Complete slot bytes ∧ loaders.load slot bytes = after) ∨
    (after = none ∧ m.Cleared slot)

def Harmless (loaders : Loaders F) (prior : Option (SlotEngine F)) (data : Bytes) : Prop :=
  ∀ engine, loaders.load slot data = some engine →
    prior = some engine ∨ ∃ bytes, m.Complete slot bytes ∧ loaders.load slot bytes = some engine

/-- What keeps the engine of a slot, by the store after which the update stands. -/
def Survives (loaders : Loaders F) (prior : Option (SlotEngine F)) (recorded : Nat) : Prop :=
  match m.pending slot with
  | none => (m.old slot).1 = recorded ∨ (m.old slot).2 ≠ [] ∨ m.Cleared slot
  | some u =>
    if u.done ≤ u.payload.length + 1 then
      if (m.old slot).2 = [] then (m.old slot).1 = recorded ∨ m.Cleared slot
      else if computeCrc32 (u.mixed (m.old slot).2) = u.expected (m.old slot).2 then
        (m.old slot).1 = recorded ∨ m.Harmless slot loaders prior (u.mixed (m.old slot).2)
      else recorded = 0 ∨ m.Cleared slot
    else
      (if u.done = u.payload.length + 2 then (m.old slot).1 else u.generation) = recorded ∨
        u.payload ≠ [] ∨ m.Cleared slot

end MidUpdate

/-! ## What is read after the first stores -/

theorem copyInto_concat (bytes : Bytes) (value : UInt8) (data : Nat → UInt8) :
    copyInto (bytes ++ [value]) data =
      Function.update (copyInto bytes data) bytes.length value := by
  funext i
  rcases lt_trichotomy i bytes.length with hlt | rfl | hgt
  · rw [Function.update_of_ne hlt.ne, copyInto, List.getElem?_append_left hlt, copyInto]
  · simp [copyInto]
  · rw [Function.update_of_ne hgt.ne', copyInto, List.getElem?_eq_none (by simp; omega),
      copyInto, List.getElem?_eq_none hgt.le]

theorem applyStores_bytes (bytes : Bytes) (slot : PolicySlot) :
    applyStores (bytes.zipIdx.map fun (value, i) => .byte i value) slot =
      { slot with data := copyInto bytes slot.data } := by
  induction bytes using List.reverseRecOn with
  | nil => rfl
  | append_singleton bytes value ih =>
    unfold applyStores at ih ⊢
    rw [List.zipIdx_append, List.map_append, List.foldl_append, ih, copyInto_concat]
    simp [SlotStore.apply]

namespace PendingUpdate

variable {u : PendingUpdate} {before : PolicySlot} {reading : Nat × Bytes}

/-- The bytes first, then the other three. -/
theorem slot_eq :
    u.slot before =
      applyStores ([.checksum (computeCrc32 u.payload), .dataLen u.payload.length,
          .generation u.generation].take (u.done - u.payload.length))
        { before with data := copyInto (u.payload.take u.done) before.data } := by
  have hbytes : (u.payload.zipIdx.map fun (value, i) => SlotStore.byte i value).take u.done =
      (u.payload.take u.done).zipIdx.map fun (value, i) => .byte i value := by
    nth_rewrite 1 [← List.take_append_drop u.done u.payload]
    rw [List.zipIdx_append, List.map_append]
    rcases Nat.le_total u.done u.payload.length with hle | hle
    · exact List.take_left' (by simpa using hle)
    · rw [List.drop_eq_nil_of_le hle, List.take_of_length_le (by simp)]
      simp
  have hcopied := applyStores_bytes (u.payload.take u.done) before
  rw [slot, stores, updateStores, List.take_append, hbytes, List.length_map, List.length_zipIdx]
  unfold applyStores at hcopied ⊢
  rw [List.foldl_append, hcopied]

theorem contents_copyInto (h : before.Holds reading) (copied : Bytes) (checksum : BitVec 32) :
    PolicySlot.contents { before with checksum, data := copyInto copied before.data } =
      (copied ++ reading.2.drop copied.length).take reading.2.length := by
  rw [← h.contents]
  refine List.ext_getElem (by simp [PolicySlot.contents]; omega) fun i hi hi' => ?_
  by_cases hlt : i < copied.length
  · simp [PolicySlot.contents, copyInto, hlt]
  · have hnone : copied[i]? = none := List.getElem?_eq_none (Nat.not_lt.mp hlt)
    simp [PolicySlot.contents, copyInto, hnone, List.getElem_append_right (Nat.not_lt.mp hlt),
      Nat.add_sub_cancel' (Nat.not_lt.mp hlt)]

theorem mixed_eq_nil {old : Bytes} : u.mixed old = [] ↔ old = [] := by
  have hlength : (u.mixed old).length = old.length := by
    simp only [mixed, List.length_take, List.length_append, List.length_drop]
    omega
  rw [← List.length_eq_zero_iff, hlength, List.length_eq_zero_iff]

theorem read_slot (h : before.Holds reading) : (u.slot before).read = u.read reading := by
  rw [slot_eq, read]
  split
  · rename_i hdone
    have hslot : applyStores ([.checksum (computeCrc32 u.payload), .dataLen u.payload.length,
          .generation u.generation].take (u.done - u.payload.length))
        { before with data := copyInto (u.payload.take u.done) before.data } =
        { before with
          checksum := if u.done ≤ u.payload.length then before.checksum else computeCrc32 u.payload
          data := copyInto (u.payload.take u.done) before.data } := by
      by_cases hcopying : u.done ≤ u.payload.length
      · rw [Nat.sub_eq_zero_of_le hcopying, if_pos hcopying]
        rfl
      · rw [show u.done - u.payload.length = 1 by omega, if_neg hcopying]
        rfl
    have hcontents := contents_copyInto h (u.payload.take u.done)
      (if u.done ≤ u.payload.length then before.checksum else computeCrc32 u.payload)
    rw [PolicySlot.read_eq _ (by rw [hslot]; exact h.fits), hslot, hcontents, ← mixed]
    by_cases hnil : reading.2 = []
    · simp only [mixed_eq_nil, hnil, true_or, if_true, h.generation]
    · simp only [mixed_eq_nil, hnil, false_or, h.generation, h.checksum hnil, expected,
        apply_ite computeCrc32]
  · rename_i hdone
    have hfill := PolicySlot.holds_fill before u.generation u.fits
    rw [List.take_of_length_le (show u.payload.length ≤ u.done by omega)]
    by_cases hlast : u.done = u.payload.length + 2
    · rw [if_pos hlast, hlast, Nat.add_sub_cancel_left]
      exact PolicySlot.Holds.read ⟨h.generation, hfill.contents, hfill.checksum, hfill.fits⟩
    · rw [if_neg hlast, List.take_of_length_le (by simp; omega)]
      exact hfill.read

end PendingUpdate

theorem publish_slots_of_ne (header : PolicyShmHeader) (update : Update) {slot : Nat}
    (hne : slot ≠ update.slotId) : (publish header update).slots slot = header.slots slot := by
  have hset : ∀ other, (header.setSlot update.slotId other).slots slot = header.slots slot :=
    fun other => Function.update_of_ne hne ..
  unfold publish PolicyShmHeader.updateSlot
  split
  · rfl
  · split
    · split
      · rfl
      · exact hset _
    · exact hset _

theorem holds_published (log : List Update) {slot : Nat} (hslot : slot < policyMaxSlots) :
    ((published log).slots slot).Holds (readingOf (lastUpdate log slot)) := by
  induction log using List.reverseRecOn with
  | nil => exact PolicySlot.holds_clear _ 0
  | append_singleton log update ih =>
    rw [published, List.foldl_append, ← published, lastUpdate, List.reverse_append,
      List.reverse_singleton, List.singleton_append, List.find?_cons, ← lastUpdate,
      List.foldl_cons, List.foldl_nil]
    by_cases hsame : update.slotId = slot
    · subst hsame
      have hset : ∀ other, ((published log).setSlot update.slotId other).slots update.slotId =
          other := fun other => Function.update_self ..
      unfold publish PolicyShmHeader.updateSlot
      rw [if_neg (Nat.not_le.mpr hslot)]
      cases hpayload : update.payload with
      | none => simpa [Update.accepted, hslot, hpayload, readingOf, hset] using
          PolicySlot.holds_clear _ _
      | some bytes =>
        by_cases hfits : bytes.length ≤ policySlotCapacity
        · simpa [Update.accepted, hslot, hpayload, hfits, readingOf, Nat.not_lt.mpr hfits, hset]
            using PolicySlot.holds_fill _ _ hfits
        · simpa [Update.accepted, hpayload, hfits, Nat.not_le.mp hfits] using ih
    · rw [publish_slots_of_ne _ _ (Ne.symm hsame)]
      simpa [hsame] using ih

/-! ## The engine of a slot -/

structure LoadedSlot (F : Type) where
  process : Process F
  slot : Nat
  inRange : slot < auroraExtCount
  engine : SlotEngine F
  loaded : (process.at slot).1 = some engine

namespace LoadedSlot

variable (w : LoadedSlot F)

theorem isSome_active : w.process.active.isSome = true := by
  cases hactive : w.process.active with
  | some space => rfl
  | none =>
    have hloaded := w.loaded
    rw [Process.at, hactive] at hloaded
    have hslot := w.inRange
    unfold auroraExtCount at hslot
    revert hloaded
    generalize w.slot = slot at hslot
    interval_cases slot <;> intro hloaded <;> cases hloaded

def after (loaders : Loaders F) (memory : PolicyMemory) : Option (SlotEngine F) :=
  ((auroraGatewayPolicySync loaders memory w.process).at w.slot).1

theorem after_eq (loaders : Loaders F) (memory : PolicyMemory) :
    w.after loaders memory =
      if w.process.UpToDate memory ∨
          (memory.slots w.slot).generation = (w.process.at w.slot).2 then some w.engine
      else reloaded (loaders.load w.slot) (memory.slots w.slot).data (some w.engine) := by
  have hfirst : w.process.active.isNone = false := by
    rw [Option.isNone_eq_false_iff]
    exact w.isSome_active
  rw [after, at_policySync loaders memory w.process w.inRange]
  by_cases hdone : w.process.UpToDate memory
  · rw [if_pos hdone, if_pos (.inl hdone), w.loaded]
  · rw [if_neg hdone, syncedSlot, hfirst, w.loaded]
    by_cases hsame : (memory.slots w.slot).generation = (w.process.at w.slot).2
    · rw [if_pos ⟨hsame, rfl⟩, if_pos (.inr hsame), w.loaded]
    · rw [if_neg (fun h => hsame h.1), if_neg (not_or.mpr ⟨hdone, hsame⟩)]

end LoadedSlot

section Tolerated

variable (m : MidUpdate) (loaders : Loaders F) (w : LoadedSlot F)

theorem tolerates_iff_reading :
    m.Tolerates w.slot loaders (some w.engine) (w.after loaders m.header.memory) ↔
      m.header.totalGeneration = w.process.lastSyncGen ∨
      (m.header.slotGet w.slot).generation = (w.process.at w.slot).2 ∨
      ((m.header.slotGet w.slot).data ≠ [] ∧
        m.Harmless w.slot loaders (some w.engine) (m.header.slotGet w.slot).data) ∨
      ((m.header.slotGet w.slot).data = [] ∧ m.Cleared w.slot) := by
  have hdone : w.process.UpToDate m.header.memory ↔
      m.header.totalGeneration = w.process.lastSyncGen := and_iff_left w.isSome_active
  have hafter : w.after loaders m.header.memory =
      if w.process.UpToDate m.header.memory ∨
          (m.header.slotGet w.slot).generation = (w.process.at w.slot).2 then some w.engine
      else reloaded (loaders.load w.slot) (m.header.slotGet w.slot).data (some w.engine) :=
    w.after_eq loaders m.header.memory
  rw [← or_assoc, ← hdone]
  by_cases hskip : w.process.UpToDate m.header.memory ∨
      (m.header.slotGet w.slot).generation = (w.process.at w.slot).2
  · rw [hafter, if_pos hskip]
    exact iff_of_true (.inl rfl) (.inl hskip)
  · rw [hafter, if_neg hskip, or_iff_right hskip]
    generalize (m.header.slotGet w.slot).data = data
    rw [reloaded]
    by_cases hempty : data = []
    · simp [hempty, MidUpdate.Tolerates]
    · rw [if_neg (by simpa using hempty)]
      cases hload : loaders.load w.slot data with
      | none => simp [hempty, MidUpdate.Tolerates, MidUpdate.Harmless, hload]
      | some engine =>
        simp [hempty, MidUpdate.Tolerates, MidUpdate.Harmless, hload, eq_comm]

variable {m} {slot : Nat}

theorem complete_old (h : (m.old slot).2 ≠ []) : m.Complete slot (m.old slot).2 := by
  left
  unfold MidUpdate.old readingOf at h ⊢
  cases hlast : lastUpdate m.log slot with
  | none => simp [hlast] at h
  | some update =>
    cases hpayload : update.payload with
    | none => simp [hlast, hpayload] at h
    | some bytes => simp [hpayload]

theorem harmless_of_complete {prior : Option (SlotEngine F)} {bytes : Bytes}
    (h : m.Complete slot bytes) : m.Harmless slot loaders prior bytes :=
  fun _ hload => .inr ⟨bytes, h, hload⟩

theorem readSlot_header (hslot : slot < policyMaxSlots) :
    m.header.readSlot slot =
      match m.pending slot with
      | none => some (m.old slot)
      | some u => u.read (m.old slot) := by
  have hold := holds_published m.log hslot
  rw [PolicyShmHeader.readSlot, if_neg (Nat.not_le.mpr hslot)]
  dsimp only [MidUpdate.header]
  cases m.pending slot with
  | none => exact hold.read
  | some u => exact PendingUpdate.read_slot hold

variable (m)

end Tolerated

/-! ## Samples -/

def tokenLoaders : Loaders ℚ :=
  { (Loaders.empty : Loaders ℚ) with jwt := fun _ => some fun _ _ => .ok .unauthorized }

def firstPolicy : Update := ⟨auroraExtJwt, 1, some (ascii "ab")⟩

def loadedWorker : LoadedSlot ℚ where
  process := auroraGatewayPolicySync tokenLoaders
    (published [firstPolicy]).memory .start
  slot := auroraExtJwt
  inRange := by decide
  engine := .jwt fun _ _ => .ok .unauthorized
  loaded := by rfl

/-- The policy of another slot has been published, and one byte of the next policy of the
tokens has been written. -/
def oneByteWritten : MidUpdate where
  log := [firstPolicy, ⟨auroraExtIpRestriction, 1, some (ascii "x")⟩]
  pending := fun slot =>
    if slot = auroraExtJwt then some ⟨2, ascii "cd", by decide, 1⟩ else none

end AuroraGateway.Shm
