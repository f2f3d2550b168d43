import AuroraGateway.Ffi.SlotEngines

/-!
# The shared memory of the policies

The control worker writes policies into slots of a memory that the workers of
the host map.  A slot has a checksum over its payload; a reader that finds it
wrong gets nothing.
-/

namespace AuroraGateway.Shm

open Ffi Foundation

def policyMagic : Nat := 0x504F4C59
def policyVersion : Nat := 1
def policyMaxSlots : Nat := 16
def policySlotCapacity : Nat := 65536 - 64

/-! ## Checksums -/

def crcBit (crc : BitVec 32) : BitVec 32 :=
  let mask := -(crc &&& 1)
  (crc >>> 1) ^^^ (0xEDB88320 &&& mask)

def crcByte (crc : BitVec 32) (byte : UInt8) : BitVec 32 :=
  (List.range 8).foldl (fun crc _ => crcBit crc) (crc ^^^ byte.toBitVec.setWidth 32)

def computeCrc32 (data : Bytes) : BitVec 32 := ~~~(data.foldl crcByte (BitVec.allOnes 32))

example : computeCrc32 (ascii "123456789") = 0xCBF43926 := by decide +kernel

/-! ## Slots -/

structure PolicySlot where
  checksum : BitVec 32
  generation : Nat
  dataLen : Nat
  /-- The buffer; bytes from the capacity on are never used. -/
  data : Nat → UInt8

structure PolicyShmHeader where
  magic : Nat
  version : Nat
  totalGeneration : Nat
  slots : Nat → PolicySlot

def PolicySlot.zeroed : PolicySlot := ⟨0, 0, 0, fun _ => 0⟩

def PolicyShmHeader.zeroed : PolicyShmHeader := ⟨0, 0, 0, fun _ => .zeroed⟩

/-- `slot.data[..bytes.len()].copy_from_slice(bytes)`. -/
def copyInto (bytes : Bytes) (data : Nat → UInt8) : Nat → UInt8 := fun i => bytes[i]?.getD (data i)

variable (slot : PolicySlot)

def PolicySlot.fill (generation : Nat) (bytes : Bytes) : PolicySlot where
  checksum := computeCrc32 bytes
  generation
  dataLen := bytes.length
  data := copyInto bytes slot.data

def PolicySlot.clear (generation : Nat) : PolicySlot :=
  { slot with checksum := 0, generation, dataLen := 0 }

def PolicySlot.contents : Bytes := (List.range slot.dataLen).map slot.data

/-- Nothing for a slot that fails its checksum. -/
def PolicySlot.read : Option (Nat × Bytes) :=
  if slot.dataLen = 0 ∨ policySlotCapacity < slot.dataLen then some (slot.generation, [])
  else if computeCrc32 slot.contents ≠ slot.checksum then none
  else some (slot.generation, slot.contents)

namespace PolicyShmHeader

def ensureHeader (header : PolicyShmHeader) : PolicyShmHeader :=
  if header.magic ≠ policyMagic ∨ header.version ≠ policyVersion then
    { magic := policyMagic
      version := policyVersion
      totalGeneration := 0
      slots := fun idx => (header.slots idx).clear 0 }
  else header

def setSlot (header : PolicyShmHeader) (slotId : Nat) (slot : PolicySlot) : PolicyShmHeader :=
  { header with
    slots := Function.update header.slots slotId slot
    totalGeneration := (header.totalGeneration + 1) % 2 ^ 64 }

def updateSlot (header : PolicyShmHeader) (slotId generation : Nat) (payload : Option Bytes) :
    PolicyShmHeader × Bool :=
  if policyMaxSlots ≤ slotId then (header, false)
  else
    match payload with
    | some bytes =>
      if policySlotCapacity < bytes.length then (header, false)
      else (header.setSlot slotId ((header.slots slotId).fill generation bytes), true)
    | none => (header.setSlot slotId ((header.slots slotId).clear generation), true)

def readSlot (header : PolicyShmHeader) (slotId : Nat) : Option (Nat × Bytes) :=
  if policyMaxSlots ≤ slotId then none else (header.slots slotId).read

def slotGet (header : PolicyShmHeader) (slotId : Nat) : SlotReading :=
  match header.readSlot slotId with
  | some (generation, data) => ⟨generation, data⟩
  | none => ⟨0, []⟩

def memory (header : PolicyShmHeader) : PolicyMemory := ⟨header.totalGeneration, header.slotGet⟩

end PolicyShmHeader

/-! ## Complete updates -/

theorem map_range_copyInto (bytes : Bytes) (data : Nat → UInt8) :
    (List.range bytes.length).map (copyInto bytes data) = bytes := by
  refine List.ext_getElem (by simp) fun i hi hi' => ?_
  simp [copyInto, hi']

namespace PolicySlot

variable (slot : PolicySlot) (generation : Nat)

theorem read_eq (hfits : slot.dataLen ≤ policySlotCapacity) :
    slot.read =
      if slot.contents = [] ∨ computeCrc32 slot.contents = slot.checksum then
        some (slot.generation, slot.contents)
      else none := by
  have hempty : slot.contents = [] ↔ slot.dataLen = 0 := by simp [contents]
  unfold read
  by_cases hnil : slot.contents = []
  · rw [if_pos (.inl (hempty.mp hnil)), if_pos (.inl hnil), hnil]
  · rw [if_neg (not_or.mpr ⟨mt hempty.mpr hnil, Nat.not_lt.mpr hfits⟩)]
    simp only [hnil, false_or, ite_not]

/-- The slot has this generation and this payload, under its checksum. -/
structure Holds (reading : Nat × Bytes) : Prop where
  generation : slot.generation = reading.1
  contents : slot.contents = reading.2
  checksum : reading.2 ≠ [] → slot.checksum = computeCrc32 reading.2
  fits : slot.dataLen ≤ policySlotCapacity

theorem holds_fill {bytes : Bytes} (hfits : bytes.length ≤ policySlotCapacity) :
    (slot.fill generation bytes).Holds (generation, bytes) where
  generation := rfl
  contents := map_range_copyInto bytes slot.data
  checksum _ := rfl
  fits := hfits

theorem holds_clear : (slot.clear generation).Holds (generation, []) where
  generation := rfl
  contents := rfl
  checksum h := absurd rfl h
  fits := Nat.zero_le _

variable {slot}

theorem Holds.read {reading : Nat × Bytes} (h : slot.Holds reading) : slot.read = some reading := by
  rw [read_eq slot h.fits, h.generation, h.contents, if_pos]
  by_cases hnil : reading.2 = []
  · exact .inl hnil
  · exact .inr (h.checksum hnil).symm

end PolicySlot

end AuroraGateway.Shm
