import AuroraGateway.Foundation.Bytes
import AuroraGateway.Foundation.Delimited

/-!
# Numbers with dots between them

A reader that takes digits up to the next dot, as often as it is told to, is the
same as splitting the text at its dots.  Which runs of digits it accepts is a
parameter.
-/

namespace AuroraGateway.Foundation

def dot : UInt8 := 46

def digitsValue (digits : Bytes) : Nat :=
  digits.foldl (fun n byte => 10 * n + (byte.toNat - 48)) 0

section Reader

variable (accepts : Bytes → Bool)

def readDotted : Nat → Nat → Bytes → Option Nat
  | 0, value, bytes =>
    if accepts (bytes.takeWhile isAsciiDigit) && (bytes.dropWhile isAsciiDigit).isEmpty then
      some (256 * value + digitsValue (bytes.takeWhile isAsciiDigit))
    else none
  | more + 1, value, bytes =>
    if accepts (bytes.takeWhile isAsciiDigit) then
      match bytes.dropWhile isAsciiDigit with
      | byte :: rest =>
        if byte = dot then
          readDotted more (256 * value + digitsValue (bytes.takeWhile isAsciiDigit)) rest
        else none
      | [] => none
    else none

variable {accepts}

theorem dot_not_digit {digits : Bytes} (h : ∀ byte ∈ digits, isAsciiDigit byte = true) :
    dot ∉ digits :=
  fun hmem => absurd (h dot hmem) (by decide)

theorem splitOn_takeWhile_digits (bytes : Bytes) :
    (bytes.dropWhile isAsciiDigit = [] ∧
        bytes.splitOn dot = [bytes.takeWhile isAsciiDigit]) ∨
      (∃ rest, bytes.dropWhile isAsciiDigit = dot :: rest ∧
        bytes.splitOn dot = bytes.takeWhile isAsciiDigit :: rest.splitOn dot) ∨
      ∃ byte rest, bytes.dropWhile isAsciiDigit = byte :: rest ∧ byte ≠ dot ∧
        ∃ piece ∈ bytes.splitOn dot, piece.all isAsciiDigit = false := by
  have hdigits : dot ∉ bytes.takeWhile isAsciiDigit :=
    dot_not_digit (List.all_eq_true.mp List.all_takeWhile)
  have hsplit := List.takeWhile_append_dropWhile (p := isAsciiDigit) (l := bytes)
  cases hrest : bytes.dropWhile isAsciiDigit with
  | nil =>
    refine .inl ⟨rfl, ?_⟩
    rw [hrest, List.append_nil] at hsplit
    rw [hsplit] at hdigits ⊢
    exact List.splitOn_eq_singleton hdigits
  | cons byte rest =>
    rw [hrest] at hsplit
    by_cases hdot : byte = dot
    · refine .inr (.inl ⟨rest, by rw [hdot], ?_⟩)
      rw [hdot] at hsplit
      nth_rewrite 1 [← hsplit]
      exact splitOn_append_sep hdigits rest
    · refine .inr (.inr ⟨byte, rest, rfl, hdot, ?_⟩)
      have hnot : isAsciiDigit byte = false := by
        have hhead := List.head?_dropWhile_not isAsciiDigit bytes
        rw [hrest] at hhead
        simpa using hhead
      have hmem : byte ∈ bytes := by
        rw [← hsplit]
        exact List.mem_append_right _ List.mem_cons_self
      obtain ⟨piece, hpiece, hbyte⟩ := exists_piece_of_mem hmem hdot
      refine ⟨piece, hpiece, ?_⟩
      rw [List.all_eq_false]
      exact ⟨byte, hbyte, by simp [hnot]⟩

theorem readDotted_eq (more value : Nat) (bytes : Bytes) :
    readDotted accepts more value bytes =
      if (bytes.splitOn dot).length = more + 1 ∧
          ∀ piece ∈ bytes.splitOn dot, piece.all isAsciiDigit = true ∧ accepts piece = true then
        some ((bytes.splitOn dot).foldl (fun n piece => 256 * n + digitsValue piece) value)
      else none := by
  induction more generalizing value bytes with
  | zero =>
    rw [readDotted]
    obtain ⟨hrest, hsplit⟩ | ⟨rest, hrest, hsplit⟩ | ⟨byte, rest, hrest, -, piece, hpiece, hnot⟩ :=
      splitOn_takeWhile_digits bytes
    · simp only [hrest, hsplit, List.length_singleton, List.mem_singleton, forall_eq,
        List.all_takeWhile, true_and, List.isEmpty_nil, Bool.and_true, List.foldl_cons,
        List.foldl_nil, zero_add]
    · have hne : rest.splitOn dot ≠ [] := List.splitOn_ne_nil _ _
      simp [hrest, hsplit, hne]
    · rw [if_neg (by simp [hrest]), if_neg]
      exact fun h => absurd (h.2 piece hpiece).1 (by simp [hnot])
  | succ more ih =>
    rw [readDotted]
    obtain ⟨hrest, hsplit⟩ | ⟨rest, hrest, hsplit⟩ |
        ⟨byte, rest, hrest, hdot, piece, hpiece, hnot⟩ := splitOn_takeWhile_digits bytes
    · simp [hrest, hsplit]
    · simp only [hrest, hsplit, if_true, ih, List.length_cons, List.forall_mem_cons,
        List.all_takeWhile, true_and, Nat.add_right_cancel_iff, List.foldl_cons]
      by_cases hfirst : accepts (bytes.takeWhile isAsciiDigit) = true
      · simp only [hfirst, if_true, true_and]
      · simp only [hfirst, false_and, and_false, if_false, Bool.false_eq_true]
    · rw [hrest]
      dsimp only
      rw [if_neg hdot, ite_self, if_neg]
      exact fun h => absurd (h.2 piece hpiece).1 (by simp [hnot])

end Reader

end AuroraGateway.Foundation
