import AuroraGateway.Foundation.Bytes

/-!
# UTF-8 text

Text is a byte string that decodes.  The decoder follows the standard library:
one step reads a scalar value, or the longest prefix of a sequence that cannot
be completed, which a lossy decoding replaces by U+FFFD.
-/

namespace AuroraGateway.Foundation

/-! ## Decoding -/

def isContinuation (byte : UInt8) : Bool := 0x80 ≤ byte && byte ≤ 0xBF

def secondOfThree (lead byte : UInt8) : Bool :=
  (lead == 0xE0 && 0xA0 ≤ byte && byte ≤ 0xBF) ||
    (0xE1 ≤ lead && lead ≤ 0xEC && isContinuation byte) ||
    (lead == 0xED && 0x80 ≤ byte && byte ≤ 0x9F) ||
    (0xEE ≤ lead && lead ≤ 0xEF && isContinuation byte)

def secondOfFour (lead byte : UInt8) : Bool :=
  (lead == 0xF0 && 0x90 ≤ byte && byte ≤ 0xBF) ||
    (0xF1 ≤ lead && lead ≤ 0xF3 && isContinuation byte) ||
    (lead == 0xF4 && 0x80 ≤ byte && byte ≤ 0x8F)

/-- Whether the sequence led by `lead` is valid, and its length after `lead`. -/
def utf8Step (lead : UInt8) (rest : Bytes) : Bool × Nat :=
  if lead < 0x80 then (true, 0)
  else if 0xC2 ≤ lead && lead ≤ 0xDF then
    if isContinuation (rest.getD 0 0) then (true, 1) else (false, 0)
  else if 0xE0 ≤ lead && lead ≤ 0xEF then
    if secondOfThree lead (rest.getD 0 0) then
      if isContinuation (rest.getD 1 0) then (true, 2) else (false, 1)
    else (false, 0)
  else if 0xF0 ≤ lead && lead ≤ 0xF4 then
    if secondOfFour lead (rest.getD 0 0) then
      if isContinuation (rest.getD 1 0) then
        if isContinuation (rest.getD 2 0) then (true, 3) else (false, 2)
      else (false, 1)
    else (false, 0)
  else (false, 0)

def validUtf8From : Nat → Bytes → Bool
  | 0, bytes => bytes.isEmpty
  | _ + 1, [] => true
  | fuel + 1, lead :: rest =>
    match utf8Step lead rest with
    | (true, extra) => validUtf8From fuel (rest.drop extra)
    | (false, _) => false

variable (bytes : Bytes)

/-- `str::from_utf8` succeeds. -/
def validUtf8 : Bool := validUtf8From bytes.length bytes

def replacementCharacter : Bytes := [0xEF, 0xBF, 0xBD]

def fromUtf8LossyFrom : Nat → Bytes → Bytes
  | 0, _ => []
  | _ + 1, [] => []
  | fuel + 1, lead :: rest =>
    match utf8Step lead rest with
    | (true, extra) =>
      lead :: rest.take extra ++ fromUtf8LossyFrom fuel (rest.drop extra)
    | (false, extra) =>
      replacementCharacter ++ fromUtf8LossyFrom fuel (rest.drop extra)

def fromUtf8Lossy : Bytes := fromUtf8LossyFrom bytes.length bytes

theorem fromUtf8LossyFrom_of_valid {fuel : Nat} {bytes : Bytes}
    (hvalid : validUtf8From fuel bytes = true) :
    fromUtf8LossyFrom fuel bytes = bytes := by
  induction fuel generalizing bytes with
  | zero => exact (List.isEmpty_iff.mp hvalid).symm
  | succ fuel ih =>
    cases bytes with
    | nil => rfl
    | cons lead rest =>
      rw [validUtf8From] at hvalid
      rw [fromUtf8LossyFrom]
      rcases hstep : utf8Step lead rest with ⟨valid, extra⟩
      rw [hstep] at hvalid
      cases valid with
      | false => simp at hvalid
      | true =>
        simp only at hvalid ⊢
        rw [ih hvalid, List.cons_append, List.take_append_drop]

theorem fromUtf8Lossy_of_valid {bytes : Bytes} (hvalid : validUtf8 bytes = true) :
    fromUtf8Lossy bytes = bytes :=
  fromUtf8LossyFrom_of_valid hvalid

/-! ## Text -/

structure Text where
  bytes : Bytes
  valid : validUtf8 bytes = true
  deriving DecidableEq

/-- The encodings of the characters that have the property `White_Space`. -/
def whiteSpace : List Bytes :=
  [[0x09], [0x0A], [0x0B], [0x0C], [0x0D], [0x20], [0xC2, 0x85], [0xC2, 0xA0],
    [0xE1, 0x9A, 0x80], [0xE2, 0x80, 0x80], [0xE2, 0x80, 0x81], [0xE2, 0x80, 0x82],
    [0xE2, 0x80, 0x83], [0xE2, 0x80, 0x84], [0xE2, 0x80, 0x85], [0xE2, 0x80, 0x86],
    [0xE2, 0x80, 0x87], [0xE2, 0x80, 0x88], [0xE2, 0x80, 0x89], [0xE2, 0x80, 0x8A],
    [0xE2, 0x80, 0xA8], [0xE2, 0x80, 0xA9], [0xE2, 0x80, 0xAF], [0xE2, 0x81, 0x9F],
    [0xE3, 0x80, 0x80]]

def dropSequences (sequences : List Bytes) : Nat → Bytes → Bytes
  | 0, bytes => bytes
  | fuel + 1, bytes =>
    match sequences.find? fun seq => seq.isPrefixOf bytes with
    | some seq => dropSequences sequences fuel (bytes.drop seq.length)
    | none => bytes

def trimStart : Bytes :=
  dropSequences whiteSpace bytes.length bytes

/-- No encoding ends in another one, so the end is read backwards. -/
def trimEnd : Bytes :=
  (dropSequences (whiteSpace.map List.reverse) bytes.length bytes.reverse).reverse

def trim : Bytes := trimEnd (trimStart bytes)

end AuroraGateway.Foundation
