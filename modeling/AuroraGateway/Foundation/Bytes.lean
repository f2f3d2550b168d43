import Mathlib.Algebra.Group.Int.Defs
import Mathlib.Algebra.GroupWithZero.Nat
import Mathlib.Data.List.Basic
import Mathlib.Data.List.Infix

/-!
# Byte strings

The data plane works on borrowed byte slices.  They are modelled by lists of
bytes; byte-string literals of the source are written with `ascii`.
-/

namespace AuroraGateway.Foundation

abbrev Bytes := List UInt8

instance instNeZeroFour : NeZero 4 := ⟨by decide⟩

/-- A byte-string literal `b"..."`; every character of it is ASCII. -/
def ascii (text : String) : Bytes :=
  text.toList.map fun c => UInt8.ofNat c.toNat

def slash : UInt8 := 47

def isAsciiDigit (byte : UInt8) : Bool := 48 ≤ byte && byte ≤ 57

def isAsciiUppercase (byte : UInt8) : Bool := 65 ≤ byte && byte ≤ 90

def isAsciiLowercase (byte : UInt8) : Bool := 97 ≤ byte && byte ≤ 122

def isAsciiAlphanumeric (byte : UInt8) : Bool :=
  isAsciiDigit byte || isAsciiUppercase byte || isAsciiLowercase byte

variable (bytes : Bytes)

def toAsciiLowercase : Bytes :=
  bytes.map fun byte => if isAsciiUppercase byte then byte + 32 else byte

def eqIgnoreAsciiCase (left right : Bytes) : Bool :=
  toAsciiLowercase left == toAsciiLowercase right

def stripPrefix? (literal bytes : Bytes) : Option Bytes :=
  if literal.isPrefixOf bytes then some (bytes.drop literal.length) else none

def decimal (n : Nat) : Bytes := ascii (toString n)

theorem decimal_eq_toDigits (n : Nat) :
    decimal n = (Nat.toDigits 10 n).map fun c => UInt8.ofNat c.toNat := by
  rw [decimal, ascii, Nat.toString_eq_ofList_toDigits, String.toList_ofList]

theorem toNat_ofNat_of_mem_toDigits {n : Nat} {c : Char} (h : c ∈ Nat.toDigits 10 n) :
    (UInt8.ofNat c.toNat).toNat = c.toNat := by
  have hle : c.toNat ≤ 57 :=
    (Char.isDigit_iff_toNat.mp (Nat.isDigit_of_mem_toDigits (by omega) (by omega) h)).2
  rw [UInt8.toNat_ofNat']
  omega

theorem isAsciiDigit_of_mem_decimal {n : Nat} {b : UInt8} (h : b ∈ decimal n) :
    isAsciiDigit b = true := by
  rw [decimal_eq_toDigits] at h
  obtain ⟨c, hc, rfl⟩ := List.mem_map.mp h
  obtain ⟨hlo, hhi⟩ : 48 ≤ c.toNat ∧ c.toNat ≤ 57 :=
    Char.isDigit_iff_toNat.mp (Nat.isDigit_of_mem_toDigits (by omega) (by omega) hc)
  simp only [isAsciiDigit, Bool.and_eq_true, decide_eq_true_eq, UInt8.le_iff_toNat_le,
    toNat_ofNat_of_mem_toDigits hc]
  exact ⟨hlo, hhi⟩

def parseDigits (digits : Bytes) : Option Nat :=
  if digits.isEmpty || !digits.all isAsciiDigit then none
  else some (digits.foldl (fun n byte => 10 * n + (byte.toNat - 48)) 0)

theorem decimal_ne_nil (n : Nat) : decimal n ≠ [] := by
  rw [decimal_eq_toDigits]
  simp [Nat.toDigits_ne_nil]

theorem parseDigits_decimal (n : Nat) : parseDigits (decimal n) = some n := by
  have hne : (decimal n).isEmpty = false := by simpa using decimal_ne_nil n
  have hdigits : (decimal n).all isAsciiDigit = true :=
    List.all_eq_true.mpr fun _ h => isAsciiDigit_of_mem_decimal h
  have hvalue : (decimal n).foldl (fun n byte => 10 * n + (byte.toNat - 48)) 0 = n := by
    rw [decimal_eq_toDigits, List.foldl_map]
    refine Eq.trans (List.foldl_ext _ _ _ fun sofar c hc => ?_) (@Nat.ofDigitChars_ten_toDigits n)
    rw [toNat_ofNat_of_mem_toDigits hc]
    rfl
  rw [parseDigits, hne, hdigits, hvalue]
  rfl

/-- `str::parse::<i64>`. -/
def parseI64 : Option Int :=
  let number : Option Int :=
    match bytes with
    | 43 :: digits => (parseDigits digits).map fun n => (n : Int)
    | 45 :: digits => (parseDigits digits).map fun n => -(n : Int)
    | digits => (parseDigits digits).map fun n => (n : Int)
  number.filter fun z => -2 ^ 63 ≤ z && z < 2 ^ 63

/-- `str::parse` to an unsigned integer below `bound`. -/
def parseUnsigned (bound : Nat) (bytes : Bytes) : Option Nat :=
  let digits :=
    match bytes with
    | 43 :: digits => digits
    | digits => digits
  (parseDigits digits).filter fun n => n < bound

def parseU8 : Option Nat := parseUnsigned (2 ^ 8) bytes

def parseU32 : Option Nat := parseUnsigned (2 ^ 32) bytes

def parseU64 : Option Nat := parseUnsigned (2 ^ 64) bytes

theorem parseU64_decimal {n : Nat} (h : n < 2 ^ 64) : parseU64 (decimal n) = some n := by
  have hplus : ∀ digits, decimal n ≠ 43 :: digits := by
    intro digits heq
    have := @isAsciiDigit_of_mem_decimal n 43 (heq ▸ List.mem_cons_self)
    revert this
    decide
  unfold parseU64 parseUnsigned
  split
  · rename_i digits heq
    exact absurd heq (hplus digits)
  · dsimp only
    rw [parseDigits_decimal, Option.filter_some, if_pos (by simpa using h)]

def rsplitOnce (sep : UInt8) : Bytes → Option (Bytes × Bytes)
  | [] => none
  | byte :: rest =>
    match rsplitOnce sep rest with
    | some (before, after) => some (byte :: before, after)
    | none => if byte = sep then some ([], rest) else none

variable {sep : UInt8}

theorem rsplitOnce_eq_none {bytes : Bytes} (h : sep ∉ bytes) :
    rsplitOnce sep bytes = none := by
  induction bytes with
  | nil => rfl
  | cons byte rest ih =>
    rw [List.mem_cons, not_or] at h
    rw [rsplitOnce, ih h.2]
    exact if_neg (Ne.symm h.1)

theorem rsplitOnce_append (before : Bytes) {after : Bytes} (h : sep ∉ after) :
    rsplitOnce sep (before ++ sep :: after) = some (before, after) := by
  induction before with
  | nil =>
    rw [List.nil_append, rsplitOnce, rsplitOnce_eq_none h]
    exact if_pos rfl
  | cons byte rest ih => rw [List.cons_append, rsplitOnce, ih]

theorem rsplitOnce_eq_some {bytes before after : Bytes}
    (h : rsplitOnce sep bytes = some (before, after)) : bytes = before ++ sep :: after := by
  induction bytes generalizing before with
  | nil => cases h
  | cons byte rest ih =>
    rw [rsplitOnce] at h
    split at h
    · next hrest =>
        cases h
        rw [ih hrest]
        rfl
    · split_ifs at h with hbyte
      cases h
      rw [hbyte]
      rfl

/-- `str::replace` for a nonempty pattern. -/
def replaceAllFrom (pattern replacement : Bytes) : Nat → Bytes → Bytes
  | 0, bytes => bytes
  | _ + 1, [] => []
  | fuel + 1, byte :: rest =>
    if pattern.isPrefixOf (byte :: rest) then
      replacement ++
        replaceAllFrom pattern replacement fuel ((byte :: rest).drop pattern.length)
    else byte :: replaceAllFrom pattern replacement fuel rest

def replaceAll (pattern replacement bytes : Bytes) : Bytes :=
  replaceAllFrom pattern replacement bytes.length bytes

/-! ## Buffers -/

/-- `buffer[start..start + bytes.len()].copy_from_slice(bytes)`. -/
def copyFromSlice (buffer : Bytes) (start : Nat) (bytes : Bytes) : Bytes :=
  buffer.take start ++ bytes ++ buffer.drop (start + bytes.length)

def slice (buffer : Bytes) (start len : Nat) : Bytes := (buffer.drop start).take len

section Buffers

variable {buffer bytes : Bytes} {start : Nat}

theorem length_copyFromSlice (h : start + bytes.length ≤ buffer.length) :
    (copyFromSlice buffer start bytes).length = buffer.length := by
  simp only [copyFromSlice, List.length_append, List.length_take, List.length_drop]
  omega

theorem getElem?_copyFromSlice (h : start + bytes.length ≤ buffer.length) (i : Nat) :
    (copyFromSlice buffer start bytes)[i]? =
      if start ≤ i ∧ i < start + bytes.length then bytes[i - start]? else buffer[i]? := by
  have hstart : (buffer.take start).length = start := by
    rw [List.length_take]
    omega
  rw [copyFromSlice, List.append_assoc, List.getElem?_append, hstart]
  split
  · rw [if_neg (by omega), List.getElem?_take_of_lt (by assumption)]
  · rw [List.getElem?_append]
    split
    · rw [if_pos (by omega)]
    · rw [if_neg (by omega), List.getElem?_drop]
      congr 1
      omega

theorem slice_eq (h : ∀ i < bytes.length, buffer[start + i]? = bytes[i]?) :
    slice buffer start bytes.length = bytes := by
  refine List.ext_getElem? fun i => ?_
  rw [slice, List.getElem?_take]
  split
  · rw [List.getElem?_drop, h i (by assumption)]
  · rw [List.getElem?_eq_none (by omega)]

end Buffers

end AuroraGateway.Foundation
