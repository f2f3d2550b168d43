import AuroraGateway.Foundation.TrimmedText

/-!
# ASCII text

Bytes below 128 are characters of their own, so every string of them is a text.
-/

namespace AuroraGateway.Foundation

theorem utf8Step_of_ascii {lead : UInt8} (h : lead < 0x80) (rest : Bytes) :
    utf8Step lead rest = (true, 0) :=
  if_pos h

theorem validUtf8_of_ascii {bytes : Bytes} (h : ∀ byte ∈ bytes, byte < 0x80) :
    validUtf8 bytes = true := by
  induction bytes with
  | nil => rfl
  | cons lead rest ih =>
    rw [validUtf8_cons, utf8Step_of_ascii (h lead List.mem_cons_self)]
    exact ih fun byte hbyte => h byte (List.mem_cons_of_mem _ hbyte)

theorem and_lt_ascii (byte : UInt8) : byte &&& 0x7F < 0x80 := by
  have hle : byte &&& 0x7F ≤ 0x7F := UInt8.le_iff_toNat_le.mpr (by
    exact Nat.and_le_right)
  exact Nat.lt_of_le_of_lt hle (by decide)

theorem lt_of_mem_toAsciiLowercase {bytes : Bytes} (h : ∀ byte ∈ bytes, byte < 0x80) :
    ∀ byte ∈ toAsciiLowercase bytes, byte < 0x80 := by
  intro byte hbyte
  obtain ⟨b, hb, rfl⟩ := List.mem_map.mp hbyte
  split
  · rename_i hupper
    have hle : b.toNat ≤ 90 :=
      UInt8.le_iff_toNat_le.mp (of_decide_eq_true (Bool.and_eq_true_iff.mp hupper).2)
    refine UInt8.lt_iff_toNat_lt.mpr ?_
    rw [UInt8.toNat_add]
    have h32 : (32 : UInt8).toNat = 32 := rfl
    have h128 : (0x80 : UInt8).toNat = 128 := rfl
    omega
  · exact h b hb

/-- A string literal; every character of it is ASCII. -/
def Text.ofAscii (text : String) : Text where
  bytes := (ascii text).map (· &&& 0x7F)
  valid := validUtf8_of_ascii (by simpa using fun byte _ => and_lt_ascii byte)

def Text.decimal (n : Nat) : Text where
  bytes := Foundation.decimal n
  valid := validUtf8_of_ascii fun byte hbyte => by
    have hdigit := isAsciiDigit_of_mem_decimal hbyte
    simp only [isAsciiDigit, Bool.and_eq_true, decide_eq_true_eq] at hdigit
    exact Nat.lt_of_le_of_lt hdigit.2 (by decide)

/-! ## Concatenation -/

theorem utf8Step_append_of_valid {lead : UInt8} {rest : Bytes}
    (h : (utf8Step lead rest).1 = true) (tail : Bytes) :
    utf8Step lead (rest ++ tail) = utf8Step lead rest ∧
      (utf8Step lead rest).2 ≤ rest.length := by
  have hcont : isContinuation 0 = false := rfl
  have hthree := secondOfThree_eq_false lead hcont
  have hfour := secondOfFour_eq_false lead hcont
  rcases rest with _ | ⟨a, _ | ⟨b, _ | ⟨c, rest⟩⟩⟩ <;>
    simp only [utf8Step, List.nil_append, List.cons_append, List.getD_cons_zero,
      List.getD_cons_succ, List.getD_nil, hcont, hthree, hfour] at h ⊢ <;>
    grind

theorem validUtf8_append_of_valid {text tail : Bytes} (htext : validUtf8 text = true)
    (htail : validUtf8 tail = true) : validUtf8 (text ++ tail) = true := by
  induction hlength : text.length using Nat.strong_induction_on generalizing text with
  | _ length ih =>
    subst hlength
    cases text with
    | nil => exact htail
    | cons lead rest =>
      rw [validUtf8_cons, Bool.and_eq_true] at htext
      obtain ⟨hstep, hextra⟩ := utf8Step_append_of_valid htext.1 tail
      rw [List.cons_append, validUtf8_cons, hstep, List.drop_append_of_le_length hextra,
        htext.1, Bool.true_and]
      exact ih _ (by rw [List.length_drop, List.length_cons]; omega) htext.2 rfl

def Text.append (left right : Text) : Text :=
  ⟨left.bytes ++ right.bytes, validUtf8_append_of_valid left.valid right.valid⟩

instance : Append Text := ⟨Text.append⟩

@[simp] theorem Text.bytes_append (left right : Text) :
    (left ++ right).bytes = left.bytes ++ right.bytes := rfl

def Text.concat (texts : List Text) : Text := texts.foldr (· ++ ·) (.ofAscii "")

@[simp] theorem Text.bytes_concat (texts : List Text) :
    (Text.concat texts).bytes = texts.flatMap Text.bytes := by
  induction texts with
  | nil => rfl
  | cons text texts ih =>
    change text.bytes ++ (Text.concat texts).bytes = _
    rw [ih, List.flatMap_cons]

end AuroraGateway.Foundation
