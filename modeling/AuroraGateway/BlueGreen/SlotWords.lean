import AuroraGateway.BlueGreen.Engine

/-!
# Slots read in a register

`parse_slot_swar` loads four bytes into a word and clears the bit of the letter
case in all of them at once.
-/

namespace AuroraGateway.BlueGreen.Register

open Engine Foundation

def magicBlueU32 : Nat := 0x45554C42

def magicGreenLowerU32 : Nat := 0x45455247

def maskU32 : Nat := 0xDFDFDFDF

variable (bytes : Bytes)

/-- `u32::from_le_bytes` of the first four bytes. -/
def loadU32 : Nat := wordOfBytes .little (bytes.take 4)

def slotOfWord : Option UInt8 :=
  if bytes.length = 4 then
    if loadU32 bytes &&& maskU32 = magicBlueU32 then some slotBlue else none
  else if bytes.length = 5 then
    if loadU32 bytes &&& maskU32 = magicGreenLowerU32 ∧ bytes.getD 4 0 &&& 0xDF = 78 then
      some slotGreen
    else none
  else none

def parseSlotSwar : Option UInt8 :=
  (slotOfWord bytes).or (slotOfWord (trimAscii bytes))

/-! ## Words and bytes -/

theorem masked_eq_iff {a b c d : UInt8} {word : Bytes} (hword : word.length = 4) :
    wordOfBytes .little [a, b, c, d] &&& maskU32 = wordOfBytes .little word ↔
      [a, b, c, d].map (· &&& 0xDF) = word := by
  have hand : wordOfBytes .little [a, b, c, d] &&& maskU32 =
      wordOfBytes .little ([a, b, c, d].map (· &&& 0xDF)) :=
    @wordOfBytes_and .little [a, b, c, d] [0xDF, 0xDF, 0xDF, 0xDF] rfl
  rw [hand, wordOfBytes_inj .little (by simp [hword])]

theorem slotOfWord_eq : ∀ bytes, slotOfWord bytes = BlueGreen.slotOfWord bytes
  | [a, b, c, d] => by
    have hblue := @masked_eq_iff a b c d (ascii "BLUE") rfl
    rw [show wordOfBytes .little (ascii "BLUE") = magicBlueU32 by decide] at hblue
    simp [slotOfWord, BlueGreen.slotOfWord, loadU32, hblue, ascii]
  | [a, b, c, d, e] => by
    have hgreen := @masked_eq_iff a b c d (ascii "GREE") rfl
    rw [show wordOfBytes .little (ascii "GREE") = magicGreenLowerU32 by decide] at hgreen
    simp [slotOfWord, BlueGreen.slotOfWord, loadU32, hgreen, ascii, and_assoc]
  | [] | [_] | [_, _] | [_, _, _] | _ :: _ :: _ :: _ :: _ :: _ :: _ => by
    simp [slotOfWord, BlueGreen.slotOfWord, ascii]

theorem parseSlotSwar_eq : parseSlotSwar bytes = BlueGreen.parseSlotSwar bytes := by
  rw [parseSlotSwar, slotOfWord_eq, slotOfWord_eq, BlueGreen.parseSlotSwar]

/-! ## Letter case -/

theorem clear_eq_iff : ∀ letter ∈ ascii "BLUEGREEN", ∀ n < 256,
    UInt8.ofNat n &&& 0xDF = letter ↔
      toAsciiLowercase [UInt8.ofNat n] = toAsciiLowercase [letter] := by
  decide +kernel

theorem map_clear_eq_iff {word : Bytes} (hword : word ⊆ ascii "BLUEGREEN") (bytes : Bytes) :
    bytes.map (· &&& 0xDF) = word ↔ toAsciiLowercase bytes = toAsciiLowercase word := by
  induction word generalizing bytes with
  | nil => simp [toAsciiLowercase]
  | cons letter word ih =>
    cases bytes with
    | nil => simp [toAsciiLowercase]
    | cons byte bytes =>
      have hbyte := clear_eq_iff letter (hword List.mem_cons_self) byte.toNat byte.toNat_lt
      have hrest := ih (List.subset_of_cons_subset hword) bytes
      rw [UInt8.ofNat_toNat] at hbyte
      simp only [toAsciiLowercase, List.map_cons, List.map_nil, List.cons.injEq] at hbyte hrest ⊢
      rw [hbyte, hrest, and_true]

theorem slotOfWord_eq_named : BlueGreen.slotOfWord bytes =
    if eqIgnoreAsciiCase bytes (ascii "blue") then some slotBlue
    else if eqIgnoreAsciiCase bytes (ascii "green") then some slotGreen
    else none := by
  have hblue := @map_clear_eq_iff (ascii "BLUE") (by decide) bytes
  have hgreen := @map_clear_eq_iff (ascii "GREEN") (by decide) bytes
  simp only [BlueGreen.slotOfWord, hblue, hgreen, eqIgnoreAsciiCase, beq_iff_eq]
  rfl

/-! ## Blanks -/

theorem dropWhile_isBlank {bytes : Bytes} (h : ∀ byte ∈ bytes, isBlank byte = false) :
    bytes.dropWhile isBlank = bytes := by
  cases bytes with
  | nil => rfl
  | cons byte rest => rw [List.dropWhile_cons_of_neg (by simp [h byte List.mem_cons_self])]

theorem trimAscii_of_slot {bytes : Bytes} (h : BlueGreen.slotOfWord bytes ≠ none) :
    trimAscii bytes = bytes := by
  have hmasked : ∀ byte ∈ bytes, byte &&& 0xDF ∈ ascii "BLUEGREEN" := by
    intro byte hbyte
    have hmem : byte &&& 0xDF ∈ bytes.map (· &&& 0xDF) := List.mem_map.mpr ⟨byte, hbyte, rfl⟩
    dsimp only [BlueGreen.slotOfWord] at h
    split_ifs at h with hblue hgreen
    · rw [hblue] at hmem
      exact List.mem_append_left (ascii "GREEN") hmem
    · rw [hgreen] at hmem
      exact List.mem_append_right (ascii "BLUE") hmem
    · exact absurd rfl h
  have hnot : ∀ byte ∈ bytes, isBlank byte = false := by
    intro byte hbyte
    have hletter := hmasked byte hbyte
    by_contra hblank
    simp only [isBlank, Bool.not_eq_false, Bool.or_eq_true, decide_eq_true_eq] at hblank
    rcases hblank with ((rfl | rfl) | rfl) | rfl <;> revert hletter <;> decide
  rw [trimAscii, dropWhile_isBlank hnot,
    dropWhile_isBlank fun byte hbyte => hnot byte (List.mem_reverse.mp hbyte),
    List.reverse_reverse]

theorem parseSlotSwar_exact (bytes : Bytes) : parseSlotSwar bytes =
    if eqIgnoreAsciiCase (trimAscii bytes) (ascii "blue") then some slotBlue
    else if eqIgnoreAsciiCase (trimAscii bytes) (ascii "green") then some slotGreen
    else none := by
  rw [← slotOfWord_eq_named, parseSlotSwar_eq, BlueGreen.parseSlotSwar]
  cases hslot : BlueGreen.slotOfWord bytes with
  | none => rfl
  | some slot =>
    rw [trimAscii_of_slot (by rw [hslot]; exact Option.some_ne_none slot), hslot]
    rfl

end AuroraGateway.BlueGreen.Register
