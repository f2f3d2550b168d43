import AuroraGateway.Foundation.Utf8
import Mathlib.Data.List.Find

/-!
# Trimming keeps text

White space is taken off in whole characters, so what is left of a text is a
text.
-/

namespace AuroraGateway.Foundation

/-! ## Decoding in pieces -/

theorem validUtf8From_eq {fuel : Nat} {bytes : Bytes} (h : bytes.length ≤ fuel) :
    validUtf8From fuel bytes = validUtf8 bytes := by
  have hfuel : ∀ n m : Nat, ∀ bytes : Bytes, bytes.length ≤ n → bytes.length ≤ m →
      validUtf8From n bytes = validUtf8From m bytes := by
    intro n
    induction n with
    | zero =>
      intro m bytes hn _
      obtain rfl := List.length_eq_zero_iff.mp (Nat.le_zero.mp hn)
      cases m <;> rfl
    | succ n ih =>
      intro m bytes hn hm
      cases bytes with
      | nil => cases m <;> rfl
      | cons lead rest =>
        cases m with
        | zero => simp at hm
        | succ m =>
          rw [validUtf8From, validUtf8From]
          rcases utf8Step lead rest with ⟨valid, extra⟩
          cases valid with
          | false => rfl
          | true =>
            simp only [List.length_cons, Nat.add_le_add_iff_right] at hn hm
            refine ih m _ ?_ ?_ <;> rw [List.length_drop] <;> omega
  exact hfuel _ _ bytes h le_rfl

theorem validUtf8_cons (lead : UInt8) (rest : Bytes) :
    validUtf8 (lead :: rest) =
      ((utf8Step lead rest).1 && validUtf8 (rest.drop (utf8Step lead rest).2)) := by
  rw [validUtf8, List.length_cons, validUtf8From]
  rcases utf8Step lead rest with ⟨valid, extra⟩
  cases valid with
  | false => rfl
  | true =>
    exact validUtf8From_eq (by rw [List.length_drop]; omega)

def startsSequence (bytes : Bytes) : Bool := !isContinuation (bytes.getD 0 0)

variable {byte : UInt8} {bytes : Bytes} {sequences : List Bytes}

theorem secondOfThree_eq_false (lead : UInt8) (h : isContinuation byte = false) :
    secondOfThree lead byte = false := by
  unfold secondOfThree isContinuation at *
  grind

theorem secondOfFour_eq_false (lead : UInt8) (h : isContinuation byte = false) :
    secondOfFour lead byte = false := by
  unfold secondOfFour isContinuation at *
  grind

theorem utf8Step_append {lead : UInt8} {rest tail : Bytes} (htail : startsSequence tail = true)
    (h : (utf8Step lead (rest ++ tail)).1 = true) :
    utf8Step lead (rest ++ tail) = utf8Step lead rest ∧
      (utf8Step lead rest).2 ≤ rest.length := by
  have hcont : isContinuation (tail.getD 0 0) = false := by simpa [startsSequence] using htail
  have hthree := secondOfThree_eq_false lead hcont
  have hfour := secondOfFour_eq_false lead hcont
  -- A step looks at no more than three bytes.
  rcases rest with _ | ⟨a, _ | ⟨b, _ | ⟨c, rest⟩⟩⟩ <;>
    simp only [utf8Step, List.nil_append, List.cons_append, List.getD_cons_zero,
      List.getD_cons_succ, hcont, hthree, hfour] at h ⊢ <;>
    grind

theorem validUtf8_append {text tail : Bytes} (htail : startsSequence tail = true)
    (h : validUtf8 (text ++ tail) = true) : validUtf8 text = true ∧ validUtf8 tail = true := by
  induction hlength : text.length using Nat.strong_induction_on generalizing text with
  | _ length ih =>
    subst hlength
    cases text with
    | nil => exact ⟨rfl, h⟩
    | cons lead rest =>
      rw [List.cons_append, validUtf8_cons, Bool.and_eq_true] at h
      obtain ⟨hstep, hextra⟩ := utf8Step_append htail h.1
      rw [hstep, List.drop_append_of_le_length hextra] at h
      obtain ⟨hrest, htail⟩ := ih _ (by rw [List.length_drop, List.length_cons]; omega) h.2 rfl
      rw [validUtf8_cons, h.1, hrest]
      exact ⟨rfl, htail⟩

/-! ## White space -/

theorem validUtf8_whiteSpace_append {seq : Bytes} (hseq : seq ∈ whiteSpace) (rest : Bytes) :
    validUtf8 (seq ++ rest) = validUtf8 rest := by
  simp only [whiteSpace, List.mem_cons, List.not_mem_nil, or_false] at hseq
  rcases hseq with rfl | rfl | rfl | rfl | rfl | rfl | rfl | rfl | rfl | rfl | rfl | rfl | rfl |
    rfl | rfl | rfl | rfl | rfl | rfl | rfl | rfl | rfl | rfl | rfl | rfl <;>
    rw [List.cons_append, validUtf8_cons] <;> rfl

theorem startsSequence_whiteSpace : ∀ seq ∈ whiteSpace, startsSequence seq = true := by decide

theorem dropSequences_keeps {P : Bytes → Prop}
    (hkeeps : ∀ seq ∈ sequences, ∀ rest, P (seq ++ rest) → P rest) (fuel : Nat) (h : P bytes) :
    P (dropSequences sequences fuel bytes) := by
  induction fuel generalizing bytes with
  | zero => exact h
  | succ fuel ih =>
    rw [dropSequences]
    split
    · rename_i seq hfind
      have hprefix := List.find?_some hfind
      obtain ⟨rest, rfl⟩ := List.isPrefixOf_iff_prefix.mp hprefix
      rw [List.drop_left]
      exact ih (hkeeps seq (List.mem_of_find?_eq_some hfind) rest h)
    · exact h

theorem validUtf8_trimStart (h : validUtf8 bytes = true) : validUtf8 (trimStart bytes) = true :=
  dropSequences_keeps (P := fun bytes => validUtf8 bytes = true)
    (fun _ hseq rest hvalid => (validUtf8_whiteSpace_append hseq rest).symm.trans hvalid) _ h

theorem validUtf8_trimEnd (h : validUtf8 bytes = true) : validUtf8 (trimEnd bytes) = true := by
  refine dropSequences_keeps (P := fun bytes => validUtf8 bytes.reverse = true) ?_ _
    (by rwa [List.reverse_reverse])
  intro reversed hreversed rest hvalid
  obtain ⟨seq, hseq, rfl⟩ := List.mem_map.mp hreversed
  rw [List.reverse_append, List.reverse_reverse] at hvalid
  exact (validUtf8_append (startsSequence_whiteSpace seq hseq) hvalid).1

/-! ## What is left has no white space at its ends -/

theorem dropSequences_of_clean (h : ∀ seq ∈ sequences, ¬seq <+: bytes) (fuel : Nat) :
    dropSequences sequences fuel bytes = bytes := by
  cases fuel with
  | zero => rfl
  | succ fuel =>
    have hnone : sequences.find? (fun seq => seq.isPrefixOf bytes) = none :=
      List.find?_eq_none.mpr fun seq hseq hprefix =>
        h seq hseq (List.isPrefixOf_iff_prefix.mp hprefix)
    rw [dropSequences, hnone]

theorem clean_dropSequences (hne : ∀ seq ∈ sequences, seq ≠ []) {fuel : Nat}
    (hfuel : bytes.length ≤ fuel) :
    ∀ seq ∈ sequences, ¬seq <+: dropSequences sequences fuel bytes := by
  induction fuel generalizing bytes with
  | zero =>
    obtain rfl := List.length_eq_zero_iff.mp (Nat.le_zero.mp hfuel)
    intro seq hseq hprefix
    exact hne seq hseq (List.prefix_nil.mp hprefix)
  | succ fuel ih =>
    rw [dropSequences]
    split
    · rename_i seq hfind
      have hpos := List.length_pos_of_ne_nil (hne seq (List.mem_of_find?_eq_some hfind))
      exact ih (by rw [List.length_drop]; omega)
    · rename_i hnone
      intro seq hseq hprefix
      exact List.find?_eq_none.mp hnone seq hseq (List.isPrefixOf_iff_prefix.mpr hprefix)

theorem dropSequences_add (sequences : List Bytes) (m n : Nat) (bytes : Bytes) :
    dropSequences sequences (m + n) bytes =
      dropSequences sequences n (dropSequences sequences m bytes) := by
  induction m generalizing bytes with
  | zero => rw [Nat.zero_add]; rfl
  | succ m ih =>
    rw [Nat.succ_add, dropSequences, dropSequences]
    split
    · exact ih _
    · rename_i hnone
      cases n with
      | zero => rfl
      | succ n => rw [dropSequences, hnone]

theorem dropSequences_of_length_le (hne : ∀ seq ∈ sequences, seq ≠ []) {fuel : Nat}
    (h : bytes.length ≤ fuel) :
    dropSequences sequences fuel bytes = dropSequences sequences bytes.length bytes := by
  obtain ⟨extra, rfl⟩ := Nat.exists_eq_add_of_le h
  rw [dropSequences_add]
  exact dropSequences_of_clean (clean_dropSequences hne le_rfl) extra

theorem dropSequences_suffix (sequences : List Bytes) (fuel : Nat) (bytes : Bytes) :
    dropSequences sequences fuel bytes <:+ bytes :=
  dropSequences_keeps (P := fun rest => rest <:+ bytes)
    (fun seq _ _ h => (List.suffix_append seq _).trans h) fuel (List.suffix_refl _)

theorem trim_prefix_trimStart (bytes : Bytes) : trim bytes <+: trimStart bytes := by
  rw [← List.reverse_suffix, trim, trimEnd, List.reverse_reverse]
  exact dropSequences_suffix _ _ _

theorem trim_trim (bytes : Bytes) : trim (trim bytes) = trim bytes := by
  have hprefix := trim_prefix_trimStart bytes
  have hstart : trimStart (trim bytes) = trim bytes :=
    dropSequences_of_clean (fun seq hseq h =>
      clean_dropSequences (by decide) le_rfl seq hseq (h.trans hprefix)) _
  have hend : trimEnd (trim bytes) = trim bytes := by
    rw [trimEnd, dropSequences_of_clean, List.reverse_reverse]
    rw [trim, trimEnd, List.reverse_reverse]
    exact clean_dropSequences (by decide) (by simp)
  rw [trim, hstart, hend]

theorem trim_of_forall_not_mem (h : ∀ b ∈ bytes, ∀ seq ∈ whiteSpace, b ∉ seq) :
    trim bytes = bytes := by
  have hclean : ∀ seq ∈ whiteSpace, ∀ text : Bytes, (∀ b ∈ text, b ∈ bytes) →
      ∀ other : Bytes, (∀ b ∈ other, b ∈ seq) → other ≠ [] → ¬other <+: text := by
    intro seq hseq text htext other hother hne hprefix
    obtain ⟨b, rest, rfl⟩ := List.exists_cons_of_ne_nil hne
    have hb : b ∈ text := hprefix.mem List.mem_cons_self
    exact h b (htext b hb) seq hseq (hother b List.mem_cons_self)
  have hne : ∀ seq ∈ whiteSpace, seq ≠ [] := by decide
  have hstart : trimStart bytes = bytes :=
    dropSequences_of_clean (fun seq hseq =>
      hclean seq hseq bytes (fun _ hb => hb) seq (fun _ hb => hb) (hne seq hseq)) _
  rw [trim, hstart, trimEnd, dropSequences_of_clean, List.reverse_reverse]
  intro reversed hreversed
  obtain ⟨seq, hseq, rfl⟩ := List.mem_map.mp hreversed
  exact hclean seq hseq _ (fun _ hb => List.mem_reverse.mp hb) _
    (fun _ hb => List.mem_reverse.mp hb) (by simpa using hne seq hseq)

/-! ## A text that goes on -/

theorem isPrefixOf_append_cons {seq bytes tail : Bytes} (h : byte ∉ seq) :
    seq.isPrefixOf (bytes ++ byte :: tail) = seq.isPrefixOf bytes := by
  induction bytes generalizing seq with
  | nil =>
    cases seq with
    | nil => rfl
    | cons first rest =>
      rw [List.mem_cons, not_or] at h
      simp [List.isPrefixOf, Ne.symm h.1]
  | cons b bytes ih =>
    cases seq with
    | nil => rfl
    | cons first rest =>
      rw [List.cons_append, List.isPrefixOf, List.isPrefixOf,
        ih fun hmem => h (List.mem_cons_of_mem _ hmem)]

theorem dropSequences_append (hsep : ∀ seq ∈ sequences, byte ∉ seq) (fuel : Nat)
    (bytes tail : Bytes) :
    dropSequences sequences fuel (bytes ++ byte :: tail) =
      dropSequences sequences fuel bytes ++ byte :: tail := by
  induction fuel generalizing bytes with
  | zero => rfl
  | succ fuel ih =>
    have hfind : sequences.find? (fun seq => seq.isPrefixOf (bytes ++ byte :: tail)) =
        sequences.find? fun seq => seq.isPrefixOf bytes :=
      List.find?_congr fun seq hseq => isPrefixOf_append_cons (hsep seq hseq)
    rw [dropSequences, dropSequences, hfind]
    split
    · rename_i seq hseq
      have hfound : seq.isPrefixOf bytes = true := by simpa using List.find?_some hseq
      have hprefix := List.isPrefixOf_iff_prefix.mp hfound
      rw [List.drop_append_of_le_length hprefix.length_le]
      exact ih _
    · rfl

theorem trimStart_append (hsep : ∀ seq ∈ whiteSpace, byte ∉ seq) (bytes tail : Bytes) :
    trimStart (bytes ++ byte :: tail) = trimStart bytes ++ byte :: tail := by
  rw [trimStart, dropSequences_append hsep, dropSequences_of_length_le (by decide) (by simp)]
  rfl

theorem trimEnd_append (hsep : ∀ seq ∈ whiteSpace, byte ∉ seq) (before bytes : Bytes) :
    trimEnd (before ++ byte :: bytes) = before ++ byte :: trimEnd bytes := by
  have hsep' : ∀ seq ∈ whiteSpace.map List.reverse, byte ∉ seq := by
    rintro _ hreversed
    obtain ⟨seq, hseq, rfl⟩ := List.mem_map.mp hreversed
    simpa using hsep seq hseq
  rw [trimEnd, List.reverse_append, List.reverse_cons, List.append_assoc, List.singleton_append,
    dropSequences_append hsep', dropSequences_of_length_le (by decide) (by simp; omega)]
  simp [trimEnd]

theorem trimEnd_concat {last : UInt8} (h : ∀ seq ∈ whiteSpace, seq.getLast? ≠ some last)
    (bytes : Bytes) : trimEnd (bytes ++ [last]) = bytes ++ [last] := by
  rw [trimEnd, dropSequences_of_clean, List.reverse_reverse]
  intro reversed hreversed hprefix
  obtain ⟨seq, hseq, rfl⟩ := List.mem_map.mp hreversed
  rw [List.reverse_prefix] at hprefix
  have hne : ∀ seq ∈ whiteSpace, seq ≠ [] := by decide
  obtain ⟨front, heq⟩ := hprefix
  have hlast := congrArg List.getLast? heq
  rw [List.getLast?_append_of_ne_nil _ (hne seq hseq), List.getLast?_concat] at hlast
  exact h seq hseq hlast

/-! ## Blanks around a text -/

def IsBlank (bytes : Bytes) : Prop := ∀ byte ∈ bytes, [byte] ∈ whiteSpace

theorem isBlank_nil : IsBlank [] := fun _ hbyte => by cases hbyte

theorem dropSequences_blank
    (hfind : ∀ byte ∈ bytes, ∀ rest,
      sequences.find? (fun seq => seq.isPrefixOf (byte :: rest)) = some [byte]) :
    dropSequences sequences bytes.length bytes = [] := by
  induction bytes with
  | nil => rfl
  | cons byte bytes ih =>
    rw [List.length_cons, dropSequences, hfind byte List.mem_cons_self]
    exact ih fun other hother => hfind other (List.mem_cons_of_mem _ hother)

theorem find?_of_mem_whiteSpace (h : [byte] ∈ whiteSpace) (rest : Bytes) :
    whiteSpace.find? (fun seq => seq.isPrefixOf (byte :: rest)) = some [byte] ∧
      (whiteSpace.map List.reverse).find? (fun seq => seq.isPrefixOf (byte :: rest)) =
        some [byte] := by
  simp only [whiteSpace, List.mem_cons, List.cons.injEq, and_true, List.not_mem_nil, or_false,
    List.nil_eq, reduceCtorEq, and_false] at h
  rcases h with rfl | rfl | rfl | rfl | rfl | rfl <;> exact ⟨rfl, rfl⟩

theorem IsBlank.trimStart_eq_nil (h : IsBlank bytes) : trimStart bytes = [] :=
  dropSequences_blank fun byte hbyte rest => (find?_of_mem_whiteSpace (h byte hbyte) rest).1

theorem IsBlank.trimEnd_eq_nil (h : IsBlank bytes) : trimEnd bytes = [] := by
  have hdropped := @dropSequences_blank bytes.reverse (whiteSpace.map List.reverse)
    fun byte hbyte rest => (find?_of_mem_whiteSpace (h byte (List.mem_reverse.mp hbyte)) rest).2
  rw [trimEnd, ← List.length_reverse, hdropped, List.reverse_nil]

theorem trim_between {before text after : Bytes} (hbefore : IsBlank before)
    (hafter : IsBlank after)
    (hfirst : ∀ byte ∈ text.head?, ∀ seq ∈ whiteSpace, byte ∉ seq)
    (hlast : ∀ byte ∈ text.getLast?, ∀ seq ∈ whiteSpace, byte ∉ seq) :
    trim (before ++ text ++ after) = text := by
  cases htext : text with
  | nil =>
    have hblank : IsBlank (before ++ [] ++ after) := by
      intro byte hbyte
      rw [List.append_nil] at hbyte
      exact (List.mem_append.mp hbyte).elim (hbefore byte) (hafter byte)
    rw [trim, hblank.trimStart_eq_nil]
    rfl
  | cons first rest =>
    have hstart : trimStart (before ++ (first :: rest) ++ after) = first :: rest ++ after := by
      rw [List.append_assoc, List.cons_append,
        trimStart_append (hfirst first (by simp [htext])), hbefore.trimStart_eq_nil]
      rfl
    obtain ⟨front, last, hconcat⟩ := List.eq_nil_or_concat' (first :: rest) |>.resolve_left nofun
    rw [trim, hstart, hconcat, List.append_assoc, List.singleton_append,
      trimEnd_append (hlast last (by simp [htext, hconcat])), hafter.trimEnd_eq_nil]

theorem length_trim_le (bytes : Bytes) : (trim bytes).length ≤ bytes.length :=
  (trim_prefix_trimStart bytes).length_le.trans (dropSequences_suffix _ _ _).length_le

theorem trimStart_of_length_le (h : bytes.length ≤ (trim bytes).length) :
    trimStart bytes = bytes := by
  have hsuffix : trimStart bytes <:+ bytes := dropSequences_suffix _ _ _
  exact hsuffix.eq_of_length_le (h.trans (trim_prefix_trimStart bytes).length_le)

theorem trim_eq_self_of_length_le (h : bytes.length ≤ (trim bytes).length) :
    trim bytes = bytes := by
  have hprefix := trim_prefix_trimStart bytes
  rw [trimStart_of_length_le h] at hprefix
  exact hprefix.eq_of_length_le h

theorem trimStart_trimStart (bytes : Bytes) : trimStart (trimStart bytes) = trimStart bytes :=
  dropSequences_of_clean (clean_dropSequences (by decide) le_rfl) _

theorem trim_trimStart (bytes : Bytes) : trim (trimStart bytes) = trim bytes := by
  rw [trim, trimStart_trimStart, trim]

def Text.trim (text : Text) : Text :=
  ⟨Foundation.trim text.bytes, validUtf8_trimEnd (validUtf8_trimStart text.valid)⟩

end AuroraGateway.Foundation
