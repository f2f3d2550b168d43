import AuroraGateway.Foundation.Bytes
import Mathlib.Data.List.Basic

/-!
# Base64 for URLs

The encoding without padding.  The decoder skips line breaks and does not look
at the bits that are left over in the last character, so that a text has many
spellings.
-/

namespace AuroraGateway.Foundation.Base64Url

def sextetChar (value : Nat) : UInt8 :=
  if value < 26 then .ofNat (value + 65)
  else if value < 52 then .ofNat (value - 26 + 97)
  else if value < 62 then .ofNat (value - 52 + 48)
  else if value = 62 then 45
  else 95

def sextetValue (char : UInt8) : Option Nat :=
  if 65 ≤ char ∧ char ≤ 90 then some (char.toNat - 65)
  else if 97 ≤ char ∧ char ≤ 122 then some (char.toNat - 97 + 26)
  else if 48 ≤ char ∧ char ≤ 57 then some (char.toNat - 48 + 52)
  else if char = 45 then some 62
  else if char = 95 then some 63
  else none

/-! ## Groups of three bytes -/

def toSextets : Bytes → List Nat
  | [] => []
  | [a] => [a.toNat / 4, a.toNat % 4 * 16]
  | [a, b] => [a.toNat / 4, a.toNat % 4 * 16 + b.toNat / 16, b.toNat % 16 * 4]
  | a :: b :: c :: rest =>
    a.toNat / 4 :: (a.toNat % 4 * 16 + b.toNat / 16) :: (b.toNat % 16 * 4 + c.toNat / 64) ::
      c.toNat % 64 :: toSextets rest

def ofSextets : List Nat → Option Bytes
  | [] => some []
  | [_] => none
  | [a, b] => some [.ofNat (a * 4 + b / 16)]
  | [a, b, c] => some [.ofNat (a * 4 + b / 16), .ofNat (b % 16 * 16 + c / 4)]
  | a :: b :: c :: d :: rest =>
    (ofSextets rest).map fun bytes =>
      .ofNat (a * 4 + b / 16) :: .ofNat (b % 16 * 16 + c / 4) :: .ofNat (c % 4 * 64 + d) :: bytes

variable {bytes : Bytes} {value : Nat}

theorem lt_of_mem_toSextets (h : value ∈ toSextets bytes) :
    value < 64 := by
  induction bytes using toSextets.induct with
  | case1 => cases h
  | case2 a =>
    have ha := a.toNat_lt
    simp only [toSextets, List.mem_cons, List.not_mem_nil, or_false] at h
    omega
  | case3 a b =>
    have ha := a.toNat_lt
    have hb := b.toNat_lt
    simp only [toSextets, List.mem_cons, List.not_mem_nil, or_false] at h
    omega
  | case4 a b c rest ih =>
    have ha := a.toNat_lt
    have hb := b.toNat_lt
    have hc := c.toNat_lt
    simp only [toSextets, List.mem_cons] at h
    rcases h with h | h | h | h | h
    · omega
    · omega
    · omega
    · omega
    · exact ih h

theorem ofNat_eq_of_toNat {n : Nat} {byte : UInt8} (h : n = byte.toNat) : UInt8.ofNat n = byte := by
  rw [h, UInt8.ofNat_toNat]

theorem ofSextets_toSextets (bytes : Bytes) : ofSextets (toSextets bytes) = some bytes := by
  induction bytes using toSextets.induct with
  | case1 => rfl
  | case2 a =>
    have ha : UInt8.ofNat (a.toNat / 4 * 4 + a.toNat % 4 * 16 / 16) = a :=
      ofNat_eq_of_toNat (by omega)
    simp only [toSextets, ofSextets, ha]
  | case3 a b =>
    have hb := b.toNat_lt
    have ha : UInt8.ofNat (a.toNat / 4 * 4 + (a.toNat % 4 * 16 + b.toNat / 16) / 16) = a :=
      ofNat_eq_of_toNat (by omega)
    have hb' : UInt8.ofNat ((a.toNat % 4 * 16 + b.toNat / 16) % 16 * 16 + b.toNat % 16 * 4 / 4) =
        b := ofNat_eq_of_toNat (by omega)
    simp only [toSextets, ofSextets, ha, hb']
  | case4 a b c rest ih =>
    have hb := b.toNat_lt
    have hc := c.toNat_lt
    have ha : UInt8.ofNat (a.toNat / 4 * 4 + (a.toNat % 4 * 16 + b.toNat / 16) / 16) = a :=
      ofNat_eq_of_toNat (by omega)
    have hb' : UInt8.ofNat ((a.toNat % 4 * 16 + b.toNat / 16) % 16 * 16 +
        (b.toNat % 16 * 4 + c.toNat / 64) / 4) = b := ofNat_eq_of_toNat (by omega)
    have hc' : UInt8.ofNat ((b.toNat % 16 * 4 + c.toNat / 64) % 4 * 64 + c.toNat % 64) = c :=
      ofNat_eq_of_toNat (by omega)
    simp only [toSextets, ofSextets, ih, ha, hb', hc', Option.map_some]

/-! ## Texts -/

def encode (bytes : Bytes) : Bytes := (toSextets bytes).map sextetChar

def isLineBreak (char : UInt8) : Bool := char == 13 || char == 10

def decode (text : Bytes) : Option Bytes :=
  ((text.filter fun char => !isLineBreak char).mapM sextetValue).bind ofSextets

theorem sextetValue_sextetChar (h : value < 64) :
    sextetValue (sextetChar value) = some value := by
  revert value
  decide

theorem sextetChar_spec (h : value < 64) :
    isLineBreak (sextetChar value) = false ∧ sextetChar value ≠ 46 := by
  revert value
  decide

theorem exists_of_mem_encode {char : UInt8} (h : char ∈ encode bytes) :
    ∃ value < 64, sextetChar value = char := by
  obtain ⟨value, hmem, rfl⟩ := List.mem_map.mp h
  exact ⟨value, lt_of_mem_toSextets hmem, rfl⟩

theorem not_isLineBreak_of_mem_encode {char : UInt8} (h : char ∈ encode bytes) :
    isLineBreak char = false := by
  obtain ⟨value, hlt, rfl⟩ := exists_of_mem_encode h
  exact (sextetChar_spec hlt).1

theorem mapM_sextetValue {values : List Nat} (h : ∀ value ∈ values, value < 64) :
    (values.map sextetChar).mapM sextetValue = some values := by
  induction values with
  | nil => rfl
  | cons value values ih =>
    have hrest := ih fun other hother => h other (List.mem_cons_of_mem _ hother)
    rw [List.map_cons, List.mapM_cons, sextetValue_sextetChar (h value List.mem_cons_self), hrest]
    rfl

theorem decode_encode (bytes : Bytes) : decode (encode bytes) = some bytes := by
  have hfilter : (encode bytes).filter (fun char => !isLineBreak char) = encode bytes := by
    rw [List.filter_eq_self]
    intro char hchar
    rw [not_isLineBreak_of_mem_encode hchar]
    rfl
  rw [decode, hfilter, encode, mapM_sextetValue fun _ => lt_of_mem_toSextets]
  exact ofSextets_toSextets bytes

end AuroraGateway.Foundation.Base64Url
