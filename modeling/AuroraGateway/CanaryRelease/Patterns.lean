import AuroraGateway.CanaryRelease.Lowering
import AuroraGateway.Foundation.Results

/-!
# Patterns that keep their meaning

A literal text, one with `.*` at its ends only, and a group of such texts become matchers
that take what the expression takes.
-/

namespace AuroraGateway.CanaryRelease

open Foundation Engine ByteMatcher

/-! ## The expressions -/

def metacharacters : Bytes := ascii "\\^$.|?*+()[]\x7b\x7d"

inductive Piece where
  | byte (b : UInt8)
  | anything
  | classPlus (ranges : List (UInt8 × UInt8))

/-- A byte stands for itself, and behind a backslash if it has a meaning. -/
def Piece.text : Piece → Bytes
  | .byte b => if b ∈ metacharacters then [92, b] else [b]
  | .anything => ascii ".*"
  | .classPlus ranges => 91 :: ranges.flatMap (fun range => [range.1, 45, range.2]) ++ ascii "]+"

def Piece.Takes : Piece → Bytes → Prop
  | .byte b, x => x = [b]
  | .anything, x => 10 ∉ x
  | .classPlus ranges, x => x ≠ [] ∧ ∀ b ∈ x, ∃ range ∈ ranges, range.1 ≤ b ∧ b ≤ range.2

def textOf (pieces : List Piece) : Bytes := pieces.flatMap Piece.text

def Takes : List Piece → Bytes → Prop
  | [], x => x = []
  | piece :: pieces, x => ∃ taken rest, x = taken ++ rest ∧ piece.Takes taken ∧ Takes pieces rest

inductive Pattern where
  | sequence (pieces : List Piece)
  | group (branches : List (List Piece))

def Pattern.core : Pattern → Bytes
  | .sequence pieces => textOf pieces
  | .group branches => 40 :: [124].intercalate (branches.map textOf) ++ [41]

def Pattern.text (pattern : Pattern) : Bytes := 94 :: pattern.core ++ [36]

def Pattern.Takes : Pattern → Bytes → Prop
  | .sequence pieces, x => CanaryRelease.Takes pieces x
  | .group branches, x => ∃ branch ∈ branches, CanaryRelease.Takes branch x

def literal (bytes : Bytes) : List Piece := bytes.map .byte

inductive KeptBranch : List Piece → Prop
  | literal (bytes : Bytes) (hne : bytes ≠ []) (hplain : ∀ b ∈ ascii "*?|", b ∉ bytes)
      (htrim : trim (textOf (literal bytes)) = textOf (literal bytes)) :
      KeptBranch (literal bytes)
  | start (bytes : Bytes) (hbar : 124 ∉ bytes)
      (htrim : trim (textOf (literal bytes ++ [.anything])) =
        textOf (literal bytes ++ [.anything])) :
      KeptBranch (literal bytes ++ [.anything])

/-- The patterns that are lowered as they are meant. -/
inductive Kept : Pattern → Prop
  | literal (bytes : Bytes) (hne : bytes ≠ []) (hplain : ∀ b ∈ ascii "*?|", b ∉ bytes)
      (hlast : bytes.getLast? ≠ some 92) : Kept (.sequence (literal bytes))
  | start (bytes : Bytes) (hne : bytes ≠ []) (hplain : ∀ b ∈ ascii "[|", b ∉ bytes) :
      Kept (.sequence (literal bytes ++ [.anything]))
  | ending (bytes : Bytes) (hne : bytes ≠ []) (hbar : 124 ∉ bytes)
      (hlast : bytes.getLast? ≠ some 92) : Kept (.sequence (.anything :: literal bytes))
  | part (bytes : Bytes) (hbar : 124 ∉ bytes) :
      Kept (.sequence (.anything :: literal bytes ++ [.anything]))
  | group (branches : List (List Piece)) (hmany : 2 ≤ branches.length)
      (hkept : ∀ branch ∈ branches, KeptBranch branch) : Kept (.group branches)

structure KeptPattern where
  pattern : Pattern
  kept : Kept pattern

/-! ## Spelled texts -/

section Spelling

variable (bytes rest : Bytes)

def spell : Bytes := textOf (literal bytes)

theorem spell_cons (b : UInt8) : spell (b :: bytes) = (Piece.byte b).text ++ spell bytes := rfl

theorem spell_concat (b : UInt8) : spell (bytes ++ [b]) = spell bytes ++ (Piece.byte b).text := by
  simp [spell, textOf, literal]

variable {c : UInt8}

theorem mem_spell {bytes : Bytes} (h : c ∈ spell bytes) : c = 92 ∨ c ∈ bytes := by
  simp only [spell, textOf, literal, List.flatMap_map, List.mem_flatMap] at h
  obtain ⟨b, hb, hc⟩ := h
  rw [Piece.text] at hc
  split at hc
  · rcases List.mem_cons.mp hc with rfl | hc
    · exact .inl rfl
    · exact .inr (List.mem_singleton.mp hc ▸ hb)
  · exact .inr (List.mem_singleton.mp hc ▸ hb)

theorem not_mem_spell {bytes : Bytes} (hne : c ≠ 92) (h : c ∉ bytes) :
    c ∉ spell bytes :=
  fun hmem => (mem_spell hmem).elim hne h

theorem forall_not_mem_spell {bytes chars : Bytes} (hescape : 92 ∉ chars)
    (h : ∀ b ∈ chars, b ∉ bytes) : ∀ b ∈ chars, b ∉ spell bytes :=
  fun b hb => not_mem_spell (fun heq => hescape (heq ▸ hb)) (h b hb)

theorem unescapeRegex_cons {b : UInt8} (h : b ≠ 92) :
    unescapeRegex (b :: rest) = b :: unescapeRegex rest := by
  cases rest <;> simp [unescapeRegex, h]

theorem ne_of_not_meta {b : UInt8} (hb : b ∉ metacharacters) (hc : c ∈ metacharacters) :
    b ≠ c :=
  fun h => hb (h ▸ hc)

theorem unescapeRegex_spell : unescapeRegex (spell bytes) = bytes := by
  induction bytes with
  | nil => rfl
  | cons b bytes ih =>
    rw [spell_cons, Piece.text]
    split
    · rw [List.cons_append, List.singleton_append, unescapeRegex, if_pos rfl, ih]
    · rename_i hplain
      rw [List.singleton_append, unescapeRegex_cons _ (ne_of_not_meta hplain (by decide)), ih]

/-- A bracket behind a backslash opens no class. -/
theorem convertFrom_spell {fuel : Nat} (hfuel : (spell bytes).length ≤ fuel) :
    convertFrom fuel (spell bytes) = bytes := by
  induction bytes generalizing fuel with
  | nil => cases fuel <;> rfl
  | cons b bytes ih =>
    rw [spell_cons, Piece.text] at hfuel ⊢
    obtain _ | fuel := fuel
    · split at hfuel <;> simp at hfuel
    · split at hfuel
      · rename_i hmeta
        have hrest := ih (show (spell bytes).length ≤ fuel by simp at hfuel; omega)
        simp [hmeta, convertFrom, hrest]
      · rename_i hplain
        have hrest := ih (show (spell bytes).length ≤ fuel by simp at hfuel; omega)
        have hescape := ne_of_not_meta hplain (show 92 ∈ metacharacters by decide)
        have hbracket := ne_of_not_meta hplain (show 91 ∈ metacharacters by decide)
        simp [hplain, convertFrom, hescape, hbracket, hrest]

theorem spell_ne_nil {bytes : Bytes} (h : bytes ≠ []) : spell bytes ≠ [] := by
  intro hnil
  have hbytes := unescapeRegex_spell bytes
  rw [hnil] at hbytes
  exact h hbytes.symm

theorem balanced_spell (depth : Nat) :
    balanced depth false false (spell bytes ++ rest) = balanced depth false false rest := by
  induction bytes with
  | nil => rfl
  | cons b bytes ih =>
    rw [spell_cons, Piece.text]
    split
    · simpa [balanced] using ih
    · rename_i hplain
      have hescape := ne_of_not_meta hplain (show 92 ∈ metacharacters by decide)
      have hopen := ne_of_not_meta hplain (show 40 ∈ metacharacters by decide)
      have hclose := ne_of_not_meta hplain (show 41 ∈ metacharacters by decide)
      have hbracket := ne_of_not_meta hplain (show 91 ∈ metacharacters by decide)
      simpa [balanced, hescape, hopen, hclose, hbracket] using ih

theorem head?_spell {bytes : Bytes} (hne : bytes ≠ []) (hc : c ∈ metacharacters)
    (hescape : c ≠ 92) : (spell bytes ++ rest).head? ≠ some c := by
  obtain ⟨b, tail, rfl⟩ := List.exists_cons_of_ne_nil hne
  rw [spell_cons, Piece.text]
  split
  · simpa using Ne.symm hescape
  · rename_i hplain
    simpa using ne_of_not_meta hplain hc

theorem getLast?_spell : (spell bytes).getLast? = bytes.getLast? := by
  rcases List.eq_nil_or_concat' bytes with rfl | ⟨front, b, rfl⟩
  · rfl
  · rw [spell_concat, Piece.text]
    split <;> simp

theorem not_anything_suffix {bytes : Bytes} (before : Bytes) (hne : bytes ≠ []) :
    ¬ascii ".*" <:+ before ++ spell bytes := by
  obtain ⟨front, b, rfl⟩ := (List.eq_nil_or_concat' bytes).resolve_left hne
  rintro ⟨t, ht⟩
  have hany : ascii ".*" = [46, 42] := rfl
  rw [hany, spell_concat, Piece.text] at ht
  split at ht
  · have hlast := congrArg (fun l => l.reverse.take 2) ht
    simp at hlast
  · rename_i hplain
    have hlast := congrArg List.getLast? ht
    simp at hlast
    exact ne_of_not_meta hplain (show 42 ∈ metacharacters by decide) hlast.symm

end Spelling

/-! ## Matchers -/

section Matchers

variable (bytes x : Bytes)

theorem wordOfBytes_lt : wordOfBytes .little bytes < 2 ^ (bytes.length * 8) := by
  induction bytes with
  | nil => decide
  | cons b bytes ih =>
    have hb := b.toNat_lt
    rw [List.length_cons, Nat.succ_mul, Nat.pow_add]
    simp only [wordOfBytes, List.foldr_cons] at ih ⊢
    omega

theorem wordOfBytes_append_zeros (k : Nat) :
    wordOfBytes .little (bytes ++ List.replicate k 0) = wordOfBytes .little bytes := by
  have hzeros : wordOfBytes .little (List.replicate k 0) = 0 := by
    induction k with
    | zero => rfl
    | succ k ih => simpa [wordOfBytes, List.replicate_succ] using ih
  simp only [wordOfBytes] at hzeros ⊢
  rw [List.foldr_append, hzeros]

theorem registerOf_eq : registerOf bytes = wordOfBytes .little bytes := by
  rw [registerOf, copyFromSlice, List.drop_replicate]
  exact wordOfBytes_append_zeros bytes _

theorem isMatch_exact : (exact bytes).isMatch x = decide (x = bytes) := by
  unfold exact
  split
  · rw [isMatch, Bool.eq_iff_iff]
    simp only [Bool.and_eq_true, decide_eq_true_eq, registerOf_eq]
    have hmask : maskOf targetEndian bytes.length = 2 ^ (bytes.length * 8) - 1 := by
      rw [targetEndian, maskOf]
      split
      · rename_i height
        rw [height]
      · rfl
    rw [hmask, Nat.and_two_pow_sub_one_eq_mod]
    constructor
    · rintro ⟨hlength, hword⟩
      rw [Nat.mod_eq_of_lt (hlength ▸ wordOfBytes_lt x)] at hword
      exact (wordOfBytes_inj .little hlength).mp hword
    · rintro rfl
      exact ⟨rfl, Nat.mod_eq_of_lt (wordOfBytes_lt x)⟩
  · rw [isMatch]

theorem isMatchAny_eq (matchers : List ByteMatcher) :
    isMatchAny x matchers = matchers.any fun matcher => matcher.isMatch x := by
  induction matchers with
  | nil => rfl
  | cons matcher matchers ih => rw [isMatchAny, ih, List.any_cons]

theorem isMatch_anyPart {lowered : List (ByteMatcher × Option Bytes)}
    (h : ∀ part ∈ lowered, ∀ clean ∈ part.2, part.1.isMatch x = decide (x = clean)) :
    (anyPart lowered).isMatch x = true ↔ ∃ part ∈ lowered, part.1.isMatch x = true := by
  unfold anyPart
  split
  · rename_i hall
    rw [isMatch, List.any_eq_true]
    constructor
    · rintro ⟨clean, hclean, hx⟩
      obtain ⟨part, hpart, hsnd⟩ := List.mem_filterMap.mp hclean
      refine ⟨part, hpart, ?_⟩
      rw [h part hpart clean hsnd]
      exact (Bool.and_eq_true_iff.mp hx).2
    · rintro ⟨part, hpart, hx⟩
      obtain ⟨clean, hclean⟩ := Option.isSome_iff_exists.mp (List.all_eq_true.mp hall part hpart)
      refine ⟨clean, List.mem_filterMap.mpr ⟨part, hpart, hclean⟩, ?_⟩
      rw [h part hpart clean hclean, decide_eq_true_eq] at hx
      simp [hx]
  · rw [isMatch, isMatchAny_eq, List.any_map, List.any_eq_true]
    rfl

end Matchers

/-! ## Shapes -/

theorem compileFromRegex_eq {core : Bytes}
    (hbalanced : balanced 0 false false (core ++ [36]) = true)
    (hlast : core.getLast? ≠ some 92) :
    compileFromRegex (94 :: core ++ [36]) = lowerCore core := by
  have htrim : trim (94 :: core ++ [36]) = 94 :: core ++ [36] := by
    have hfirst : ∀ seq ∈ whiteSpace, (94 : UInt8) ∉ seq := by decide
    have hend : ∀ seq ∈ whiteSpace, (36 : UInt8) ∉ seq := by decide
    have hkept := @trim_between [] (94 :: core ++ [36]) [] isBlank_nil isBlank_nil
      (by simpa using hfirst) (by rw [List.getLast?_concat]; simpa using hend)
    rwa [List.append_nil] at hkept
  have hescaped : (ascii "\\$").isSuffixOf (core ++ [36]) = false := by
    rw [← Bool.not_eq_true, List.isSuffixOf_iff_suffix]
    rintro ⟨front, hfront⟩
    have hcore : front ++ [92] = core :=
      List.append_cancel_right (hfront ▸ by simp [ascii] : front ++ [92] ++ [36] = core ++ [36])
    exact hlast (by simp [← hcore])
  have hstrip : stripAnchors (94 :: core ++ [36]) = core := by
    simp [stripAnchors, hescaped]
  rw [compileFromRegex, htrim, hstrip]
  simp [balanced, hbalanced]

theorem stripSuffix?_append (front literal : Bytes) :
    stripSuffix? literal (front ++ literal) = some front := by
  rw [stripSuffix?, if_pos (List.isSuffixOf_iff_suffix.mpr (List.suffix_append _ _))]
  simp

theorem stripSuffix?_eq_none {literal bytes : Bytes} (h : ¬literal <:+ bytes) :
    stripSuffix? literal bytes = none := by
  rw [stripSuffix?, if_neg (mt List.isSuffixOf_iff_suffix.mp h)]

theorem stripPrefix?_spell {bytes : Bytes} (hne : bytes ≠ []) (rest : Bytes) :
    stripPrefix? (ascii ".*") (spell bytes ++ rest) = none := by
  rw [stripPrefix?, if_neg]
  intro hprefix
  obtain ⟨t, ht⟩ := List.isPrefixOf_iff_prefix.mp hprefix
  exact head?_spell rest hne (show 46 ∈ metacharacters by decide) (by decide) (by rw [← ht]; rfl)

theorem stripPrefix?_append (literal rest : Bytes) :
    stripPrefix? literal (literal ++ rest) = some rest := by
  rw [stripPrefix?]
  simp

section Shapes

variable {bytes : Bytes}

theorem bar_not_mem (hbar : 124 ∉ bytes) : 124 ∉ spell bytes ∧ 124 ∉ ascii ".*" :=
  ⟨not_mem_spell (by decide) hbar, by decide⟩

theorem lowerCore_eq {core : Bytes} (hany : core ≠ ascii ".*") (hstar : core ≠ ascii "*")
    (hne : core ≠ []) (hgroup : core.head? ≠ some 40) (hbar : 124 ∉ core) :
    lowerCore core = lowerPlain core := by
  unfold lowerCore
  simp only [hany, hstar, hne, hgroup, hbar, or_self, false_and, if_false]

theorem lowerCore_literal (hne : bytes ≠ []) (hplain : ∀ b ∈ ascii "*?|", b ∉ bytes) :
    lowerCore (spell bytes) = some (if 91 ∈ spell bytes then .glob bytes else .exact bytes) := by
  have hnot := forall_not_mem_spell (by decide) hplain
  have hhead : ∀ c ∈ metacharacters, c ≠ 92 → (spell bytes).head? ≠ some c := fun c hc hescape =>
    by simpa using head?_spell [] hne hc hescape
  rw [lowerCore_eq (fun h => hhead 46 (by decide) (by decide) (by rw [h]; rfl))
    (fun h => hhead 42 (by decide) (by decide) (by rw [h]; rfl))
    (spell_ne_nil hne) (hhead 40 (by decide) (by decide)) (hnot 124 (by decide)), lowerPlain,
    stripSuffix?_eq_none (by simpa using not_anything_suffix [] hne)]
  simp only [by simpa using stripPrefix?_spell hne []]
  simp only [hnot 42 (by decide), hnot 63 (by decide), false_or, convertSimpleClassToGlob,
    convertFrom_spell bytes (Nat.le_refl _), unescapeRegex_spell]
  split <;> rfl

theorem lowerCore_start (hne : bytes ≠ []) (hplain : ∀ b ∈ ascii "[|", b ∉ bytes) :
    lowerCore (spell bytes ++ ascii ".*") = some (.prefixOf bytes) := by
  have hnot := forall_not_mem_spell (by decide) hplain
  have hhead : ∀ c ∈ metacharacters, c ≠ 92 → (spell bytes ++ ascii ".*").head? ≠ some c :=
    fun c hc hescape => head?_spell _ hne hc hescape
  rw [lowerCore_eq (fun h => hhead 46 (by decide) (by decide) (by rw [h]; rfl))
    (fun h => hhead 42 (by decide) (by decide) (by rw [h]; rfl)) (by simp [ascii])
    (hhead 40 (by decide) (by decide))
    (by simp [bar_not_mem (hplain 124 (by decide))]), lowerPlain, stripSuffix?_append]
  simp only [by simpa using stripPrefix?_spell hne []]
  rw [if_neg (hnot 91 (by decide)), unescapeRegex_spell]

theorem lowerCore_ending (hne : bytes ≠ []) (hbar : 124 ∉ bytes) :
    lowerCore (ascii ".*" ++ spell bytes) = some (.suffixOf bytes) := by
  rw [lowerCore_eq (by simpa using spell_ne_nil hne) (by simp [ascii]) (by simp [ascii])
    (by simp [ascii]) (by simp [bar_not_mem hbar]), lowerPlain,
    stripSuffix?_eq_none (not_anything_suffix _ hne)]
  simp only [stripPrefix?_append, unescapeRegex_spell]

theorem lowerCore_part (hbar : 124 ∉ bytes) :
    lowerCore (ascii ".*" ++ spell bytes ++ ascii ".*") = some (.contains bytes) := by
  rw [lowerCore_eq (by simp [ascii]) (by simp [ascii]) (by simp [ascii]) (by simp [ascii])
    (by simp [bar_not_mem hbar]), lowerPlain, stripSuffix?_append]
  simp only [stripPrefix?_append, unescapeRegex_spell]

end Shapes

/-! ## What the expressions take -/

section Language

variable {bytes x : Bytes} {pieces : List Piece}

theorem takes_literal_append :
    Takes (literal bytes ++ pieces) x ↔ ∃ rest, x = bytes ++ rest ∧ Takes pieces rest := by
  induction bytes generalizing x with
  | nil => simp [literal]
  | cons b bytes ih =>
    change Takes (.byte b :: (literal bytes ++ pieces)) x ↔ _
    rw [Takes]
    simp only [Piece.Takes, ih]
    constructor
    · rintro ⟨_, _, rfl, rfl, rest, rfl, hrest⟩
      exact ⟨rest, rfl, hrest⟩
    · rintro ⟨rest, rfl, hrest⟩
      exact ⟨[b], bytes ++ rest, rfl, rfl, rest, rfl, hrest⟩

theorem takes_literal : Takes (literal bytes) x ↔ x = bytes := by
  simpa [Takes] using @takes_literal_append bytes x []

theorem takes_start (hx : 10 ∉ x) : Takes (literal bytes ++ [.anything]) x ↔ bytes <+: x := by
  rw [takes_literal_append]
  constructor
  · rintro ⟨rest, rfl, -⟩
    exact List.prefix_append _ _
  · rintro ⟨rest, rfl⟩
    refine ⟨rest, rfl, rest, [], by simp, ?_, rfl⟩
    exact fun hmem => hx (List.mem_append_right _ hmem)

theorem takes_ending (hx : 10 ∉ x) : Takes (.anything :: literal bytes) x ↔ bytes <:+ x := by
  constructor
  · rintro ⟨taken, rest, rfl, -, hrest⟩
    exact takes_literal.mp hrest ▸ List.suffix_append _ _
  · rintro ⟨taken, rfl⟩
    exact ⟨taken, bytes, rfl, fun hmem => hx (List.mem_append_left _ hmem), takes_literal.mpr rfl⟩

theorem takes_part (hx : 10 ∉ x) :
    Takes (.anything :: literal bytes ++ [.anything]) x ↔ bytes <:+: x := by
  constructor
  · rintro ⟨taken, rest, rfl, -, hrest⟩
    obtain ⟨tail, rfl, -⟩ := takes_literal_append.mp hrest
    exact ⟨taken, tail, by simp⟩
  · rintro ⟨taken, tail, rfl⟩
    rw [List.append_assoc] at hx ⊢
    exact ⟨taken, bytes ++ tail, rfl, fun hmem => hx (List.mem_append_left _ hmem),
      (takes_start fun hmem => hx (List.mem_append_right _ hmem)).mpr (List.prefix_append _ _)⟩

end Language

theorem textOf_start (bytes : Bytes) :
    textOf (literal bytes ++ [.anything]) = spell bytes ++ ascii ".*" := by
  simp [spell, textOf, Piece.text]

theorem textOf_ending (bytes : Bytes) :
    textOf (.anything :: literal bytes) = ascii ".*" ++ spell bytes := rfl

theorem textOf_part (bytes : Bytes) :
    textOf (.anything :: literal bytes ++ [.anything]) =
      ascii ".*" ++ spell bytes ++ ascii ".*" := by
  simp [spell, textOf, Piece.text]

/-! ## Alternatives -/

/-- The alternative is lowered to what it means, and its text is passed over by the checks. -/
structure Lowers (branch : List Piece) (part : ByteMatcher × Option Bytes) : Prop where
  lowered : lowerPart (textOf branch) = some part
  bar : 124 ∉ textOf branch
  balanced : ∀ depth rest, CanaryRelease.balanced depth false false (textOf branch ++ rest) =
    CanaryRelease.balanced depth false false rest
  isMatch : ∀ x, 10 ∉ x → (part.1.isMatch x = true ↔ Takes branch x)
  clean : ∀ x, ∀ clean ∈ part.2, part.1.isMatch x = decide (x = clean)

theorem KeptBranch.lowers {branch : List Piece} (h : KeptBranch branch) :
    ∃ part, Lowers branch part := by
  cases h with
  | literal bytes hne hplain htrim =>
    have hnot := forall_not_mem_spell (by decide) hplain
    refine ⟨(.exact bytes, some bytes), ?_, hnot 124 (by decide), fun depth rest => ?_,
      fun x _ => ?_, fun x clean hclean => ?_⟩
    · change trim (spell bytes) = spell bytes at htrim
      change lowerPart (spell bytes) = _
      have hend := @not_anything_suffix bytes [] hne
      rw [List.nil_append] at hend
      rw [lowerPart, htrim, if_neg (by simpa using spell_ne_nil hne)]
      simp only [stripSuffix?_eq_none hend, hnot 42 (by decide), hnot 63 (by decide), or_self,
        if_false, unescapeRegex_spell]
    · exact balanced_spell bytes rest depth
    · rw [isMatch_exact, decide_eq_true_eq, takes_literal]
    · rw [isMatch_exact, Option.some.inj hclean]
  | start bytes hbar htrim =>
    rw [textOf_start] at htrim
    refine ⟨(.prefixOf bytes, none), ?_, ?_, fun depth rest => ?_, fun x hx => ?_, nofun⟩
    · rw [textOf_start, lowerPart, htrim]
      simp only [stripSuffix?_append, unescapeRegex_spell]
      simp [ascii]
    · rw [textOf_start]
      simp [bar_not_mem hbar]
    · rw [textOf_start, List.append_assoc, balanced_spell]
      simp [CanaryRelease.balanced, ascii]
    · rw [takes_start hx, isMatch, List.isPrefixOf_iff_prefix]

variable {branches : List (List Piece)} {parts : List (ByteMatcher × Option Bytes)}

theorem exists_lowers (h : ∀ branch ∈ branches, KeptBranch branch) :
    ∃ parts, List.Forall₂ Lowers branches parts := by
  induction branches with
  | nil => exact ⟨[], .nil⟩
  | cons branch branches ih =>
    obtain ⟨part, hpart⟩ := (h branch List.mem_cons_self).lowers
    obtain ⟨parts, hparts⟩ := ih fun other hother => h other (List.mem_cons_of_mem _ hother)
    exact ⟨part :: parts, .cons hpart hparts⟩

theorem lowerParts_eq (h : List.Forall₂ Lowers branches parts) :
    lowerParts (branches.map textOf) = some parts := by
  induction h with
  | nil => rfl
  | cons hfirst _ ih => simp [lowerParts, hfirst.lowered, ih]

theorem balanced_intercalate (h : List.Forall₂ Lowers branches parts) (depth : Nat) (rest : Bytes) :
    balanced depth false false ([124].intercalate (branches.map textOf) ++ rest) =
      balanced depth false false rest := by
  induction h with
  | nil => rfl
  | @cons branch part branches parts hfirst hrest ih =>
    cases hrest with
    | nil => simpa [List.intercalate] using hfirst.balanced depth rest
    | cons hsecond hrest =>
      rw [List.map_cons, List.map_cons, List.intercalate_cons_cons,
        List.append_assoc, List.append_assoc, hfirst.balanced, List.singleton_append, balanced]
      simpa using ih

theorem lowerCore_group {inner : Bytes} (hbar : 124 ∈ inner) :
    lowerCore (40 :: inner ++ [41]) = (lowerParts (inner.splitOn 124)).map anyPart := by
  have hinner : (if (40 :: inner ++ [41]).head? = some 40 ∧
      (40 :: inner ++ [41]).getLast? = some 41 then (40 :: inner ++ [41]).tail.dropLast
      else 40 :: inner ++ [41]) = inner := by
    rw [if_pos ⟨rfl, List.getLast?_concat⟩]
    simp
  unfold lowerCore
  rw [if_neg (by simp [ascii])]
  rw [hinner, if_pos hbar]

theorem compileFromRegex_group (hmany : 2 ≤ branches.length)
    (h : List.Forall₂ Lowers branches parts) :
    compileFromRegex (Pattern.group branches).text = some (anyPart parts) := by
  have hbars : ∀ text ∈ branches.map textOf, (124 : UInt8) ∉ text := by
    intro text htext
    obtain ⟨branch, hbranch, rfl⟩ := List.mem_map.mp htext
    obtain ⟨part, -, hlowers⟩ := exists_right_of_forall₂ h hbranch
    exact hlowers.bar
  rw [Pattern.text, Pattern.core, compileFromRegex_eq, lowerCore_group,
    List.splitOn_intercalate 124 hbars, lowerParts_eq h]
  · rfl
  · rintro hnil
    simp [List.map_eq_nil_iff.mp hnil] at hmany
  · match branches, hmany with
    | first :: second :: rest, _ => simp
  · have hinner := balanced_intercalate h 1 [41, 36]
    simpa [balanced] using hinner
  · rw [List.getLast?_concat]
    decide

theorem isMatch_group (h : List.Forall₂ Lowers branches parts) {x : Bytes} (hx : 10 ∉ x) :
    (anyPart parts).isMatch x = true ↔ (Pattern.group branches).Takes x := by
  rw [isMatch_anyPart x fun part hpart clean hclean => by
    obtain ⟨branch, -, hlowers⟩ := exists_left_of_forall₂ h hpart
    exact hlowers.clean x clean hclean]
  constructor
  · rintro ⟨part, hpart, hmatch⟩
    obtain ⟨branch, hbranch, hlowers⟩ := exists_left_of_forall₂ h hpart
    exact ⟨branch, hbranch, (hlowers.isMatch x hx).mp hmatch⟩
  · rintro ⟨branch, hbranch, htakes⟩
    obtain ⟨part, hpart, hlowers⟩ := exists_right_of_forall₂ h hbranch
    exact ⟨part, hpart, (hlowers.isMatch x hx).mpr htakes⟩

/-! ## Kept patterns -/

namespace KeptPattern

variable (kept : KeptPattern)

open Pattern

/-- What a pattern of these shapes is compiled to takes what the expression takes. -/
theorem lowered_keeps_meaning :
    ∃ matcher, compileFromRegex kept.pattern.text = some matcher ∧
      ∀ x : Bytes, 10 ∉ x → (matcher.isMatch x = true ↔ kept.pattern.Takes x) := by
  obtain ⟨pattern, hkept⟩ := kept
  cases hkept with
  | literal bytes hne hplain hlast =>
    refine ⟨if 91 ∈ spell bytes then .glob bytes else .exact bytes, ?_, fun x _ => ?_⟩
    · rw [text, core, ← spell, compileFromRegex_eq _ (by rwa [getLast?_spell]),
        lowerCore_literal hne hplain]
      rw [balanced_spell]
      rfl
    · rw [Pattern.Takes, takes_literal]
      split
      · rw [isMatch, globMatch_plain (hplain 42 (by decide)) (hplain 63 (by decide))]
      · rw [isMatch_exact, decide_eq_true_eq]
  | start bytes hne hplain =>
    refine ⟨.prefixOf bytes, ?_, fun x hx => ?_⟩
    · rw [text, core, textOf_start, compileFromRegex_eq _ (by simp [ascii]),
        lowerCore_start hne hplain]
      rw [List.append_assoc, balanced_spell]
      rfl
    · rw [Pattern.Takes, takes_start hx, isMatch, List.isPrefixOf_iff_prefix]
  | ending bytes hne hbar hlast =>
    refine ⟨.suffixOf bytes, ?_, fun x hx => ?_⟩
    · rw [text, core, textOf_ending, compileFromRegex_eq,
        lowerCore_ending hne hbar]
      · change balanced 0 false false (spell bytes ++ [36]) = true
        rw [balanced_spell]
        rfl
      · rwa [List.getLast?_append_of_ne_nil _ (spell_ne_nil hne), getLast?_spell]
    · rw [Pattern.Takes, takes_ending hx, isMatch, List.isSuffixOf_iff_suffix]
  | part bytes hbar =>
    refine ⟨.contains bytes, ?_, fun x hx => ?_⟩
    · rw [text, core, textOf_part, compileFromRegex_eq, lowerCore_part hbar]
      · change balanced 0 false false (spell bytes ++ ascii ".*" ++ [36]) = true
        rw [List.append_assoc, balanced_spell]
        rfl
      · rw [List.getLast?_append_of_ne_nil _ (by decide)]
        decide
    · rw [Pattern.Takes, takes_part hx, isMatch, decide_eq_true_eq]
  | group branches hmany hkept =>
    obtain ⟨parts, hparts⟩ := exists_lowers hkept
    exact ⟨anyPart parts, compileFromRegex_group hmany hparts, fun x hx => isMatch_group hparts hx⟩

end KeptPattern

def flagValues : KeptPattern where
  pattern := .group [literal (ascii "true"), literal (ascii "beta"), literal (ascii "vip")]
  kept := by
    refine .group _ (by decide) ?_
    simp only [List.forall_mem_cons]
    exact ⟨.literal _ (by decide) (by decide +kernel) (by decide),
      .literal _ (by decide) (by decide +kernel) (by decide),
      .literal _ (by decide) (by decide +kernel) (by decide), nofun⟩

theorem flagValues_keeps_meaning :
    flagValues.pattern.text = ascii "^(true|beta|vip)$" ∧
      ∃ matcher, compileFromRegex flagValues.pattern.text = some matcher ∧
        ∀ x : Bytes, 10 ∉ x → (matcher.isMatch x = true ↔ flagValues.pattern.Takes x) :=
  ⟨by decide, flagValues.lowered_keeps_meaning⟩

def digitsPattern : Pattern := .sequence [.classPlus [(48, 57)]]

/-- The class becomes a star. -/
theorem class_takes_anything :
    digitsPattern.text = ascii "^[0-9]+$" ∧
      compileFromRegex digitsPattern.text = some (.glob (ascii "*")) ∧
      (ByteMatcher.glob (ascii "*")).isMatch (ascii "abc") = true ∧
      ¬digitsPattern.Takes (ascii "abc") := by
  refine ⟨by decide, rfl, ?_, ?_⟩
  · refine (globMatch_iff_of_not_starsMeet fun hmeet => ?_).mpr
      (globs_star.mpr ⟨ascii "abc", [], rfl, rfl⟩)
    exact absurd hmeet.mem.2 (by decide)
  · rintro ⟨taken, rest, hsplit, ⟨-, hdigits⟩, rfl⟩
    rw [List.append_nil] at hsplit
    obtain ⟨range, hrange, -, hle⟩ := hdigits 97 (hsplit ▸ by decide)
    rw [List.mem_singleton.mp hrange] at hle
    exact absurd hle (by decide)

end AuroraGateway.CanaryRelease
