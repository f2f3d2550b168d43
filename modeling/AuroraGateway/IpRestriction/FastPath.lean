import AuroraGateway.Foundation.AsciiText
import AuroraGateway.Foundation.DottedDecimal
import AuroraGateway.IpRestriction.Snapshot

/-!
# The fast path for IPv4 addresses

Client addresses are read by a loop of their own before the reader of the
standard library is tried.  Both split the text at its dots and read four
numbers; they differ in that the loop takes numbers with leading zeros.
-/

namespace AuroraGateway.IpRestriction

open Foundation IpAddr

/-! ## Octets -/

def isOctet (digits : Bytes) : Bool :=
  !digits.isEmpty && digits.length ≤ 3 && digitsValue digits ≤ 255

def isPadded (digits : Bytes) : Bool := digits.head? == some 48 && 1 < digits.length

def isPlainOctet (digits : Bytes) : Bool := isOctet digits && !isPadded digits

/-! ## The loop -/

def loopValue (val : Nat) (digits : Bytes) : Nat :=
  digits.foldl (fun val byte => wrapU32 (val * 10 + (byte.toNat - 48))) val

variable {digits bytes : Bytes} {byte : UInt8} {accepts : Bytes → Bool} {addr : BitVec 32}

theorem parseIpv4Loop_append (h : ∀ byte ∈ digits, isAsciiDigit byte = true)
    (rest : Bytes) (octets : List Nat) (val count : Nat) :
    parseIpv4Loop (digits ++ rest) octets val count =
      parseIpv4Loop rest octets (loopValue val digits) (count + digits.length) := by
  induction digits generalizing val count with
  | nil => rfl
  | cons byte digits ih =>
    obtain ⟨hbyte, hdigits⟩ := List.forall_mem_cons.mp h
    have hdot : byte ≠ 46 := by
      rintro rfl
      exact absurd hbyte (by decide)
    rw [List.cons_append, parseIpv4Loop, if_neg hdot, if_pos hbyte, ih hdigits]
    simp only [loopValue, List.foldl_cons, List.length_cons]
    rw [Nat.add_right_comm, Nat.add_assoc]

theorem digit_le (h : isAsciiDigit byte = true) : byte.toNat - 48 ≤ 9 := by
  simp only [isAsciiDigit, Bool.and_eq_true, decide_eq_true_eq, UInt8.le_iff_toNat_le] at h
  have hle : byte.toNat ≤ 57 := h.2
  omega

section

variable (h : ∀ byte ∈ digits, isAsciiDigit byte = true)
include h

theorem loopValue_eq {val : Nat} (hfits : (val + 1) * 10 ^ digits.length ≤ 2 ^ 32) :
    loopValue val digits =
      digits.foldl (fun n byte => 10 * n + (byte.toNat - 48)) val := by
  induction digits generalizing val with
  | nil => rfl
  | cons byte digits ih =>
    obtain ⟨hbyte, hdigits⟩ := List.forall_mem_cons.mp h
    have hdigit := digit_le hbyte
    rw [List.length_cons, Nat.pow_succ', ← Nat.mul_assoc] at hfits
    have hnext : (val * 10 + (byte.toNat - 48) + 1) * 10 ^ digits.length ≤ 2 ^ 32 :=
      le_trans (Nat.mul_le_mul_right _ (by omega)) hfits
    have hlt : val * 10 + (byte.toNat - 48) < 2 ^ 32 :=
      lt_of_lt_of_le (Nat.lt_succ_self _)
        (le_trans (Nat.le_mul_of_pos_right _ (Nat.pow_pos (by omega))) hnext)
    have hstep : loopValue val (byte :: digits) =
        loopValue (val * 10 + (byte.toNat - 48)) digits := by
      rw [loopValue, List.foldl_cons, wrapU32_of_lt hlt]
      rfl
    rw [hstep, ih hdigits hnext, List.foldl_cons, Nat.mul_comm 10 val]

theorem loopValue_refused_iff : (digits.length = 0 ∨ 3 < digits.length ∨ 255 < loopValue 0 digits) ↔
      ¬isOctet digits = true := by
  by_cases hlong : 3 < digits.length
  · simp [isOctet, hlong]
  · have hvalue : loopValue 0 digits = digitsValue digits := by
      refine loopValue_eq h ?_
      rw [Nat.one_mul]
      exact le_trans (Nat.pow_le_pow_right (by omega) (Nat.le_of_not_lt hlong)) (by decide)
    simp only [isOctet, hvalue, Bool.and_eq_true, Bool.not_eq_true', List.isEmpty_eq_false_iff,
      decide_eq_true_eq, not_and_or, Nat.not_le, ne_eq, not_not, List.length_eq_zero_iff, or_assoc]

theorem loopValue_of_isOctet (hoctet : isOctet digits = true) :
    loopValue 0 digits = digitsValue digits := by
  have hlength : digits.length ≤ 3 := by
    simp only [isOctet, Bool.and_eq_true, decide_eq_true_eq] at hoctet
    exact hoctet.1.2
  refine loopValue_eq h ?_
  rw [Nat.one_mul]
  exact le_trans (Nat.pow_le_pow_right (by omega) hlength) (by decide)

theorem ite_refused {other : Prop} [Decidable other] {α : Type} (result : Option α) :
    (if digits.length = 0 ∨ 3 < digits.length ∨ 255 < loopValue 0 digits ∨ other then none
      else result) = if isOctet digits = true ∧ ¬other then result else none := by
  have hiff : (digits.length = 0 ∨ 3 < digits.length ∨ 255 < loopValue 0 digits ∨ other) ↔
      ¬(isOctet digits = true ∧ ¬other) := by
    rw [not_and_or, not_not, ← loopValue_refused_iff h, or_assoc, or_assoc]
  by_cases hc : isOctet digits = true ∧ ¬other
  · rw [if_pos hc, if_neg (mt hiff.mp (not_not.mpr hc))]
  · rw [if_neg hc, if_pos (hiff.mpr hc)]

end

def octetsValue (octets : List Nat) : Nat := octets.foldl (fun n octet => 256 * n + octet) 0

theorem octetsValue_concat (octets : List Nat) (octet : Nat) :
    octetsValue (octets ++ [octet]) = 256 * octetsValue octets + octet := by
  simp [octetsValue]

theorem parseIpv4Loop_number (bytes : Bytes) (octets : List Nat) :
    parseIpv4Loop bytes octets 0 0 =
      match bytes.dropWhile isAsciiDigit with
      | [] =>
        if isOctet (bytes.takeWhile isAsciiDigit) = true ∧ octets.length = 3 then
          some (BitVec.ofNat 32
            (octetsValue (octets ++ [digitsValue (bytes.takeWhile isAsciiDigit)])))
        else none
      | byte :: rest =>
        if byte = dot ∧ isOctet (bytes.takeWhile isAsciiDigit) = true ∧ octets.length < 3 then
          parseIpv4Loop rest (octets ++ [digitsValue (bytes.takeWhile isAsciiDigit)]) 0 0
        else none := by
  have hdigits := List.all_eq_true.mp (@List.all_takeWhile _ isAsciiDigit bytes)
  have hsplit := List.takeWhile_append_dropWhile (p := isAsciiDigit) (l := bytes)
  have hloop : parseIpv4Loop bytes octets 0 0 = parseIpv4Loop (bytes.dropWhile isAsciiDigit)
      octets (loopValue 0 (bytes.takeWhile isAsciiDigit))
      (0 + (bytes.takeWhile isAsciiDigit).length) := by
    rw [← parseIpv4Loop_append hdigits, hsplit]
  have hhead := List.head?_dropWhile_not isAsciiDigit bytes
  rw [hloop, Nat.zero_add]
  generalize bytes.takeWhile isAsciiDigit = digits at hdigits
  cases hrest : bytes.dropWhile isAsciiDigit with
  | nil =>
    rw [parseIpv4Loop, ite_refused hdigits]
    by_cases hoctet : isOctet digits = true
    · rw [loopValue_of_isOctet hdigits hoctet]
      simp only [ne_eq, not_not]
      rfl
    · rw [if_neg fun h => hoctet h.1]
      exact (if_neg fun h => hoctet h.1).symm
  | cons byte rest =>
    rw [hrest] at hhead
    have hnot : isAsciiDigit byte = false := by simpa using hhead
    rw [parseIpv4Loop, ite_refused hdigits]
    by_cases hdot : byte = 46
    · rw [if_pos hdot]
      by_cases hoctet : isOctet digits = true
      · rw [loopValue_of_isOctet hdigits hoctet]
        simp only [hdot, dot, true_and, Nat.not_le]
      · rw [if_neg fun h => hoctet h.1]
        exact (if_neg fun h => hoctet h.2.1).symm
    · rw [if_neg hdot, if_neg (by simp [hnot])]
      exact (if_neg fun h => hdot h.1).symm

theorem parseIpv4Loop_eq {octets : List Nat} {more : Nat} (hmore : octets.length + more = 3)
    (bytes : Bytes) :
    parseIpv4Loop bytes octets 0 0 =
      (readDotted isOctet more (octetsValue octets) bytes).map (BitVec.ofNat 32) := by
  induction more generalizing octets bytes with
  | zero =>
    have hlength : octets.length = 3 := hmore
    rw [parseIpv4Loop_number, readDotted]
    cases bytes.dropWhile isAsciiDigit with
    | nil =>
      by_cases hoctet : isOctet (bytes.takeWhile isAsciiDigit) = true
      · simp [hoctet, hlength, octetsValue_concat]
      · simp [hoctet]
    | cons byte rest => simp [hlength]
  | succ more ih =>
    have hfew : octets.length < 3 := by omega
    rw [parseIpv4Loop_number, readDotted]
    cases bytes.dropWhile isAsciiDigit with
    | nil =>
      have hne : octets.length ≠ 3 := by omega
      simp [hne]
    | cons byte rest =>
      dsimp only
      by_cases hoctet : isOctet (bytes.takeWhile isAsciiDigit) = true
      · by_cases hdot : byte = dot
        · rw [if_pos ⟨hdot, hoctet, hfew⟩, if_pos hoctet, if_pos hdot, ih, octetsValue_concat]
          rw [List.length_append, List.length_singleton]
          omega
        · rw [if_neg fun h => hdot h.1, if_pos hoctet, if_neg hdot]
          rfl
      · rw [if_neg fun h => hoctet h.2.1, if_neg hoctet]
        rfl

def IsDotted (accepts : Bytes → Bool) (bytes : Bytes) : Prop :=
  (bytes.splitOn dot).length = 4 ∧
    ∀ piece ∈ bytes.splitOn dot, piece.all isAsciiDigit = true ∧ accepts piece = true

instance (accepts : Bytes → Bool) (bytes : Bytes) : Decidable (IsDotted accepts bytes) :=
  inferInstanceAs (Decidable (_ ∧ _))

def dottedValue (bytes : Bytes) : BitVec 32 :=
  BitVec.ofNat 32 ((bytes.splitOn dot).foldl (fun n piece => 256 * n + digitsValue piece) 0)

theorem readDotted_four (accepts : Bytes → Bool) (bytes : Bytes) :
    (readDotted accepts 3 0 bytes).map (BitVec.ofNat 32) =
      if IsDotted accepts bytes then some (dottedValue bytes) else none := by
  rw [readDotted_eq]
  by_cases hdotted : IsDotted accepts bytes
  · rw [if_pos hdotted]
    exact congrArg (Option.map _) (if_pos hdotted)
  · rw [if_neg hdotted]
    exact congrArg (Option.map _) (if_neg hdotted)

theorem length_of_isDotted (h : IsDotted isOctet bytes) :
    7 ≤ bytes.length ∧ bytes.length ≤ 15 := by
  obtain ⟨hlength, hpieces⟩ := h
  have hsum := @sum_length_splitOn _ _ dot bytes
  have hbounds : ∀ piece ∈ bytes.splitOn dot, 1 ≤ piece.length ∧ piece.length ≤ 3 := by
    intro piece hpiece
    have hoctet := (hpieces piece hpiece).2
    simp only [isOctet, Bool.and_eq_true, Bool.not_eq_true', List.isEmpty_eq_false_iff,
      decide_eq_true_eq] at hoctet
    exact ⟨List.length_pos_of_ne_nil hoctet.1.1, hoctet.1.2⟩
  match hsplit : bytes.splitOn dot, hlength with
  | [a, b, c, d], _ =>
    rw [hsplit] at hsum hbounds
    simp only [List.forall_mem_cons, List.map_cons, List.map_nil, List.sum_cons,
      List.sum_nil] at hsum hbounds
    omega

theorem parseIpv4U32_eq (bytes : Bytes) :
    parseIpv4U32 bytes = if IsDotted isOctet bytes then some (dottedValue bytes) else none := by
  rw [← readDotted_four, parseIpv4U32]
  split
  · rename_i hlength
    rw [readDotted_four, if_neg]
    intro hdotted
    have hbounds := length_of_isDotted hdotted
    simp only [Bool.or_eq_true, decide_eq_true_eq] at hlength
    omega
  · exact parseIpv4Loop_eq rfl bytes

/-! ## The reader of the standard library -/

theorem isSome_digitValue (byte : UInt8) :
    (digitValue 10 byte).isSome = isAsciiDigit byte := by
  by_cases hdigit : isAsciiDigit byte = true
  · have hle := digit_le hdigit
    simp [digitValue, hdigit, Nat.lt_succ_of_le hle]
  · have hfalse : isAsciiDigit byte = false := by simpa using hdigit
    simp only [digitValue, hfalse, Bool.false_eq_true, if_false]
    split
    · rename_i hlower
      simp only [Bool.and_eq_true, decide_eq_true_eq, UInt8.le_iff_toNat_le] at hlower
      have hge : 97 ≤ byte.toNat := hlower.1
      simp only [Option.filter_some, decide_eq_true_eq]
      rw [if_neg (by omega)]
      rfl
    · split
      · rename_i hupper
        simp only [Bool.and_eq_true, decide_eq_true_eq, UInt8.le_iff_toNat_le] at hupper
        have hge : 65 ≤ byte.toNat := hupper.1
        simp only [Option.filter_some, decide_eq_true_eq]
        rw [if_neg (by omega)]
        rfl
      · rfl

theorem getD_digitValue (h : isAsciiDigit byte = true) :
    (digitValue 10 byte).getD 0 = byte.toNat - 48 := by
  have hle := digit_le h
  have hlt : byte.toNat - 48 < 10 := by omega
  simp only [digitValue, h, if_true, Option.filter_some]
  rw [if_pos (by simpa using hlt)]
  rfl

theorem readNumber_eq (bytes : Bytes) :
    readNumber 10 3 256 false bytes =
      if isPlainOctet (bytes.takeWhile isAsciiDigit) = true then
        some (digitsValue (bytes.takeWhile isAsciiDigit), bytes.dropWhile isAsciiDigit)
      else none := by
  have hdigits := List.all_eq_true.mp (@List.all_takeWhile _ isAsciiDigit bytes)
  have hpred : (fun byte => (digitValue 10 byte).isSome) = isAsciiDigit :=
    funext isSome_digitValue
  have hdrop : bytes.drop (bytes.takeWhile isAsciiDigit).length = bytes.dropWhile isAsciiDigit := by
    have hsplit := List.takeWhile_append_dropWhile (p := isAsciiDigit) (l := bytes)
    exact (congrArg (List.drop _) hsplit.symm).trans List.drop_left
  simp only [readNumber, hpred]
  rw [hdrop]
  generalize bytes.takeWhile isAsciiDigit = digits at hdigits
  have hvalue : digits.foldl (fun n byte => 10 * n + (digitValue 10 byte).getD 0) 0 =
      digitsValue digits :=
    List.foldl_ext _ _ _ fun n byte hbyte => by rw [getD_digitValue (hdigits byte hbyte)]
  rw [hvalue]
  by_cases hlength : (digits.isEmpty || decide (3 < digits.length)) = true
  · rw [if_pos hlength, if_neg]
    simp only [Bool.or_eq_true, decide_eq_true_eq] at hlength
    simp only [isPlainOctet, isOctet, Bool.and_eq_true, Bool.not_eq_true', decide_eq_true_eq]
    rintro ⟨⟨⟨hne, hle⟩, -⟩, -⟩
    rcases hlength with hempty | hlong
    · rw [hempty] at hne
      cases hne
    · omega
  · rw [if_neg hlength]
    simp only [Bool.or_eq_true, decide_eq_true_eq, not_or, Bool.not_eq_true, Nat.not_lt] at hlength
    have hplain : isPlainOctet digits =
        (decide (digitsValue digits < 256) && !isPadded digits) := by
      simp [isPlainOctet, isOctet, hlength, Nat.lt_succ_iff]
    rw [hplain]
    by_cases hpadded : isPadded digits = true
    · rw [if_pos (by simpa [isPadded] using hpadded), if_neg (by simp [hpadded])]
    · rw [if_neg (by simpa [isPadded] using hpadded)]
      simp [hpadded]

def readOctetsFrom (more index value : Nat) (bytes : Bytes) : Option (Nat × Bytes) :=
  match readNumber 10 3 256 false bytes with
  | none => none
  | some (octet, rest) => readOctets more (index + 1) (256 * value + octet) rest

def atEnd : Option (Nat × Bytes) → Option Nat
  | some (value, rest) => if rest.isEmpty then some value else none
  | none => none

theorem atEnd_readOctetsFrom (more index value : Nat) (bytes : Bytes) :
    atEnd (readOctetsFrom more index value bytes) = readDotted isPlainOctet more value bytes := by
  induction more generalizing index value bytes with
  | zero =>
    rw [readOctetsFrom, readNumber_eq, readDotted]
    by_cases hoctet : isPlainOctet (bytes.takeWhile isAsciiDigit) = true
    · simp [hoctet, atEnd, readOctets]
    · simp [hoctet, atEnd]
  | succ more ih =>
    rw [readOctetsFrom, readNumber_eq, readDotted]
    by_cases hoctet : isPlainOctet (bytes.takeWhile isAsciiDigit) = true
    · rw [if_pos hoctet, if_pos hoctet]
      simp only [readOctets, readSeparator]
      cases bytes.dropWhile isAsciiDigit with
      | nil => rfl
      | cons byte rest =>
        dsimp only
        by_cases hdot : byte = 46
        · rw [if_pos hdot, if_pos (show byte = dot from hdot), ← ih (index + 1)]
          rfl
        · rw [if_neg hdot, if_neg (show ¬byte = dot from hdot)]
          rfl
    · rw [if_neg hoctet, if_neg hoctet]
      rfl

theorem ipv4FromStr_eq (bytes : Bytes) :
    ipv4FromStr bytes =
      if IsDotted isPlainOctet bytes then some (dottedValue bytes) else none := by
  have hread : ipv4FromStr bytes =
      (atEnd (readOctetsFrom 3 0 0 bytes)).map (BitVec.ofNat 32) := by
    have hfirst : readIpv4Addr bytes = readOctetsFrom 3 0 0 bytes := rfl
    rw [ipv4FromStr, hfirst]
    cases readOctetsFrom 3 0 0 bytes with
    | none => rfl
    | some result =>
      dsimp only [atEnd]
      split <;> rfl
  rw [hread, atEnd_readOctetsFrom, readDotted_four]

/-! ## Where the two differ -/

def HasPaddedOctet (bytes : Bytes) : Prop :=
  IsDotted isOctet bytes ∧ ∃ piece ∈ bytes.splitOn dot, isPadded piece = true

theorem isDotted_plain_iff (bytes : Bytes) :
    IsDotted isPlainOctet bytes ↔ IsDotted isOctet bytes ∧ ¬HasPaddedOctet bytes := by
  constructor
  · rintro ⟨hlength, hpieces⟩
    have hplain : ∀ piece ∈ bytes.splitOn dot,
        isOctet piece = true ∧ isPadded piece = false := by
      intro piece hpiece
      have hplain := (hpieces piece hpiece).2
      simp only [isPlainOctet, Bool.and_eq_true, Bool.not_eq_true'] at hplain
      exact hplain
    refine ⟨⟨hlength, fun piece hpiece => ⟨(hpieces piece hpiece).1, (hplain piece hpiece).1⟩⟩, ?_⟩
    rintro ⟨-, piece, hpiece, hpadded⟩
    rw [(hplain piece hpiece).2] at hpadded
    cases hpadded
  · rintro ⟨hdotted, hnot⟩
    refine ⟨hdotted.1, fun piece hpiece => ⟨(hdotted.2 piece hpiece).1, ?_⟩⟩
    have hpadded : isPadded piece = false := by
      by_contra hpadded
      exact hnot ⟨hdotted, piece, hpiece, by simpa using hpadded⟩
    simp [isPlainOctet, (hdotted.2 piece hpiece).2, hpadded]

section

variable (h : IsDotted accepts bytes)
include h

theorem digit_or_dot (hbyte : byte ∈ bytes) : isAsciiDigit byte = true ∨ byte = dot := by
  by_cases hdot : byte = dot
  · exact .inr hdot
  · obtain ⟨piece, hpiece, hmem⟩ := exists_piece_of_mem hbyte hdot
    exact .inl (List.all_eq_true.mp (h.2 piece hpiece).1 byte hmem)

theorem bounds_of_isDotted (hbyte : byte ∈ bytes) :
    46 ≤ byte.toNat ∧ byte.toNat ≤ 57 ∧ byte ≠ slash := by
  rcases digit_or_dot h hbyte with hdigit | rfl
  · simp only [isAsciiDigit, Bool.and_eq_true, decide_eq_true_eq, UInt8.le_iff_toNat_le] at hdigit
    have hleast : 48 ≤ byte.toNat := hdigit.1
    refine ⟨by omega, hdigit.2, ?_⟩
    rintro rfl
    exact absurd hleast (by decide)
  · exact ⟨by decide, by decide, by decide⟩

theorem validUtf8_of_isDotted : validUtf8 bytes = true := by
  refine validUtf8_of_ascii fun byte hbyte => ?_
  obtain ⟨-, hmost, -⟩ := bounds_of_isDotted h hbyte
  exact lt_of_le_of_lt hmost (by decide)

theorem trim_of_isDotted : trim bytes = bytes := by
  have hspace : (whiteSpace.all fun seq => seq.all fun byte =>
      byte.toNat < 46 ∨ 57 < byte.toNat) = true := by
    decide +kernel
  refine trim_of_forall_not_mem fun byte hbyte seq hseq hmem => ?_
  obtain ⟨hleast, hmost, -⟩ := bounds_of_isDotted h hbyte
  have hout := List.all_eq_true.mp (List.all_eq_true.mp hspace seq hseq) byte hmem
  rw [decide_eq_true_eq] at hout
  omega

end

theorem parseIpv4Cidr_of_ipv4FromStr
    (h : ipv4FromStr bytes = some addr) : (parseIpv4Cidr bytes).isSome = true := by
  have hdotted : IsDotted isPlainOctet bytes := by
    rw [ipv4FromStr_eq] at h
    by_contra hnot
    rw [if_neg hnot] at h
    cases h
  have hslash : splitOnce slash bytes = none := by
    cases hsplit : splitOnce slash bytes with
    | none => rfl
    | some parts =>
      obtain ⟨-, htext⟩ := splitOnce_eq_some hsplit
      have hmem : slash ∈ bytes := by
        rw [htext]
        exact List.mem_append_right _ List.mem_cons_self
      exact absurd rfl (bounds_of_isDotted hdotted hmem).2.2
  have hlen : parseU8 (trim (ascii "32")) = some 32 := by decide +kernel
  simp [parseIpv4Cidr, hslash, trim_of_isDotted hdotted, h, hlen]

/-- What the loop reads is what the standard library reads, and no text that is not one of an
IPv6 address is taken for an IPv4 address that a policy could not name. -/
def FastPathAgrees (bytes : Bytes) : Prop :=
  (∀ addr, parseIpv4U32 bytes = some addr ↔
    validUtf8 bytes = true ∧ ipv4FromStr bytes = some addr) ∧
  ∀ addr, parseClientIp bytes = some (.v4 addr) → ipv6FromStr bytes = none →
    (parseIpv4Cidr bytes).isSome = true

theorem parseIpv4U32_eq_ipv4FromStr (h : ¬HasPaddedOctet bytes) :
    parseIpv4U32 bytes = ipv4FromStr bytes := by
  have hiff : IsDotted isPlainOctet bytes ↔ IsDotted isOctet bytes := by
    rw [isDotted_plain_iff]
    exact and_iff_left h
  rw [parseIpv4U32_eq, ipv4FromStr_eq]
  by_cases hdotted : IsDotted isOctet bytes
  · rw [if_pos hdotted, if_pos (hiff.mpr hdotted)]
  · rw [if_neg hdotted, if_neg (mt hiff.mp hdotted)]

theorem ipv4FromStr_of_fromStr
    (h : fromStr bytes = some (.v4 addr)) : ipv4FromStr bytes = some addr := by
  unfold fromStr at h
  unfold ipv4FromStr
  split at h
  · split at h
    · rename_i hrest
      rw [if_pos hrest]
      exact congrArg some (v4.inj (Option.some.inj h))
    · cases h
  · split at h
    · split at h
      · cases h
      · cases h
    · cases h

theorem ipv6FromStr_of_fromStr {addr : BitVec 128}
    (h : fromStr bytes = some (.v6 addr)) : ipv6FromStr bytes = some addr := by
  unfold fromStr at h
  unfold ipv6FromStr
  split at h
  · split at h
    · cases h
    · cases h
  · split at h
    · split at h
      · rename_i hrest
        rw [if_pos hrest]
        exact congrArg some (v6.inj (Option.some.inj h))
      · cases h
    · cases h

theorem parseClientIp_v4
    (h : parseClientIp bytes = some (.v4 addr)) :
    parseIpv4U32 bytes = some addr ∨ ipv4FromStr bytes = some addr ∨
      (ipv6FromStr bytes).isSome = true := by
  unfold parseClientIp at h
  split at h
  · rename_i v4 hfast
    exact .inl (hfast.trans (congrArg some (ParsedIp.v4.inj (Option.some.inj h))))
  · split at h
    · split at h
      · rename_i v4 hslow
        obtain rfl := ParsedIp.v4.inj (Option.some.inj h)
        exact .inr (.inl (ipv4FromStr_of_fromStr hslow))
      · rename_i v6 hslow
        exact .inr (.inr (by rw [ipv6FromStr_of_fromStr hslow]; rfl))
      · cases h
    · cases h

/-- The fast path agrees with the slow one exactly on the texts in which no octet has a leading
zero that it does not need. -/
theorem fastPath_agrees_iff (bytes : Bytes) : FastPathAgrees bytes ↔ ¬HasPaddedOctet bytes := by
  constructor
  · rintro ⟨hsame, -⟩ hpadded
    have hfast : parseIpv4U32 bytes = some (dottedValue bytes) := by
      rw [parseIpv4U32_eq, if_pos hpadded.1]
    obtain ⟨-, hslow⟩ := (hsame _).mp hfast
    rw [ipv4FromStr_eq, if_neg] at hslow
    · cases hslow
    · exact fun hplain => ((isDotted_plain_iff bytes).mp hplain).2 hpadded
  · intro hnot
    have hsame := parseIpv4U32_eq_ipv4FromStr hnot
    refine ⟨fun addr => ⟨fun hfast => ⟨?_, hsame ▸ hfast⟩, fun h => hsame.trans h.2⟩, ?_⟩
    · rw [parseIpv4U32_eq] at hfast
      by_cases hdotted : IsDotted isOctet bytes
      · exact validUtf8_of_isDotted hdotted
      · rw [if_neg hdotted] at hfast
        cases hfast
    · intro addr hclient hipv6
      rcases parseClientIp_v4 hclient with hfast | hslow | hmapped
      · exact parseIpv4Cidr_of_ipv4FromStr (hsame ▸ hfast)
      · exact parseIpv4Cidr_of_ipv4FromStr hslow
      · rw [hipv6] at hmapped
        cases hmapped

theorem padded_octet_accepted :
    parseIpv4U32 (ascii "010.0.0.1") = some 0x0a000001#32 ∧
      IpAddr.ipv4FromStr (ascii "010.0.0.1") = none ∧
      parseIpv4Cidr (ascii "010.0.0.1") = none ∧ ¬FastPathAgrees (ascii "010.0.0.1") := by
  have hfast : parseIpv4U32 (ascii "010.0.0.1") = some 0x0a000001#32 := by decide +kernel
  have hslow : ipv4FromStr (ascii "010.0.0.1") = none := by decide +kernel
  refine ⟨hfast, hslow, by decide +kernel, fun hagrees => ?_⟩
  have hboth := ((hagrees.1 _).mp hfast).2
  cases hboth

end AuroraGateway.IpRestriction
