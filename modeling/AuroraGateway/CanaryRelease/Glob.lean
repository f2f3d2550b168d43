import AuroraGateway.Foundation.Bytes

/-!
# Glob patterns

The matcher goes through pattern and text once and comes back to the last star only.
It compares a byte of the pattern with the text before it looks whether the byte is
a star, so a star that meets a star of the text stands for that byte alone.
-/

namespace AuroraGateway.CanaryRelease

open Foundation

/-! ## The matcher -/

/-- The pattern and the text that are left, and both as they were after the last star. -/
def globLoop (pattern text : Bytes) (star : Option (Bytes × Bytes)) : Bool :=
  match text with
  | [] => pattern.all fun byte => byte = 42
  | byte :: rest =>
    if pattern.head? = some 63 ∨ pattern.head? = some byte then
      globLoop pattern.tail rest star
    else if pattern.head? = some 42 then
      globLoop pattern.tail (byte :: rest) (some (pattern.tail, byte :: rest))
    else
      match star with
      | some (starP, _ :: starT) => globLoop starP starT (some (starP, starT))
      -- the text after a star ends no earlier than the text
      | some (_, []) => false
      | none => false
termination_by (max text.length (star.elim 0 fun s => s.2.length), pattern.length)
decreasing_by
  all_goals
    cases pattern <;> simp_all [Prod.lex_def] <;> omega

def globMatch (pattern text : Bytes) : Bool := globLoop pattern text none

def Globs : Bytes → Bytes → Prop
  | [], text => text = []
  | first :: pattern, text =>
    if first = 42 then ∃ skipped rest, text = skipped ++ rest ∧ Globs pattern rest
    else ∃ byte rest, text = byte :: rest ∧ (first = 63 ∨ first = byte) ∧ Globs pattern rest

variable {pattern text rest : Bytes} {first byte : UInt8} {star : Option (Bytes × Bytes)}

theorem globs_star : Globs (42 :: pattern) text ↔
    ∃ skipped rest, text = skipped ++ rest ∧ Globs pattern rest := by
  rw [Globs, if_pos rfl]

theorem globs_cons (hne : first ≠ 42) : Globs (first :: pattern) (byte :: text) ↔
    (first = 63 ∨ first = byte) ∧ Globs pattern text := by
  simp [Globs, hne]

theorem Globs.star_of_suffix (h : Globs (42 :: pattern) rest) (hsuffix : rest <:+ text) :
    Globs (42 :: pattern) text := by
  obtain ⟨before, rfl⟩ := hsuffix
  obtain ⟨skipped, rest, rfl, hrest⟩ := globs_star.mp h
  exact globs_star.mpr ⟨before ++ skipped, rest, (List.append_assoc ..).symm, hrest⟩

theorem globs_star_cons :
    Globs (42 :: pattern) (byte :: text) ↔
      Globs pattern (byte :: text) ∨ Globs (42 :: pattern) text := by
  constructor
  · intro h
    obtain ⟨skipped, rest, hsplit, hrest⟩ := globs_star.mp h
    cases skipped with
    | nil =>
      rw [hsplit]
      exact .inl hrest
    | cons _ skipped =>
      obtain ⟨-, rfl⟩ := List.cons.inj hsplit
      exact .inr (globs_star.mpr ⟨skipped, rest, rfl, hrest⟩)
  · rintro (h | h)
    · exact globs_star.mpr ⟨[], _, rfl, h⟩
    · exact h.star_of_suffix (List.suffix_cons _ _)

theorem globs_star_nil : Globs (42 :: pattern) [] ↔ Globs pattern [] := by
  simp [globs_star]

theorem globs_nil : Globs pattern [] ↔ (pattern.all fun byte => byte = 42) = true := by
  induction pattern with
  | nil => exact iff_of_true rfl rfl
  | cons first pattern ih =>
    by_cases hstar : first = 42
    · subst hstar
      simp [globs_star_nil, ih]
    · simp [Globs, hstar]

theorem Globs.split {head : Bytes} (hhead : 42 ∉ head) (h : Globs (head ++ pattern) text) :
    ∃ taken left, text = taken ++ left ∧ taken.length = head.length ∧ Globs pattern left := by
  induction head generalizing text with
  | nil => exact ⟨[], text, rfl, rfl, h⟩
  | cons first head ih =>
    rw [List.mem_cons, not_or] at hhead
    rw [List.cons_append, Globs, if_neg (Ne.symm hhead.1)] at h
    obtain ⟨byte, rest, rfl, -, hrest⟩ := h
    obtain ⟨taken, left, rfl, hlength, hleft⟩ := ih hhead.2 hrest
    exact ⟨byte :: taken, left, rfl, by simp [hlength], hleft⟩

theorem Globs.append {head rest : Bytes} (h : Globs head text) (hrest : Globs pattern rest) :
    Globs (head ++ pattern) (text ++ rest) := by
  induction head generalizing text with
  | nil =>
    cases h
    exact hrest
  | cons first head ih =>
    by_cases hstar : first = 42
    · subst hstar
      obtain ⟨skipped, tail, rfl, htail⟩ := globs_star.mp h
      exact globs_star.mpr ⟨skipped, tail ++ rest, by simp, ih htail⟩
    · rw [Globs, if_neg hstar] at h
      obtain ⟨byte, tail, rfl, hbyte, htail⟩ := h
      exact (globs_cons hstar).mpr ⟨hbyte, ih htail⟩

/-- What stands before a star of the pattern matches what stands before a star of the text. -/
def StarsMeet (pattern text : Bytes) : Prop :=
  ∃ before after taken left, pattern = before ++ 42 :: after ∧ text = taken ++ 42 :: left ∧
    Globs before taken

/-! ## What it finds -/

/-- What may still be found: a match of what is left, or one from the last star on. -/
def Open (pattern text : Bytes) (star : Option (Bytes × Bytes)) : Prop :=
  Globs pattern text ∨ ∃ starP skipped starT, star = some (starP, skipped :: starT) ∧
    Globs (42 :: starP) starT

theorem open_self : Open pattern text (some (pattern, text)) ↔ Globs (42 :: pattern) text := by
  cases text with
  | nil => simp [Open, globs_star_nil]
  | cons byte text => simp [Open, globs_star_cons]

theorem open_of_globLoop (h : globLoop pattern text star = true) : Open pattern text star := by
  fun_induction globLoop pattern text star with
  | case1 => exact .inl (globs_nil.mpr h)
  | case2 pattern star byte rest hhead ih =>
    refine (ih h).imp_left fun hrest => ?_
    cases pattern with
    | nil => simp at hhead
    | cons first pattern =>
      by_cases hstar : first = 42
      · exact hstar ▸ globs_star.mpr ⟨[byte], rest, rfl, hrest⟩
      · exact (globs_cons hstar).mpr ⟨by simpa using hhead, hrest⟩
  | case3 pattern star byte rest _ hstar ih =>
    cases pattern with
    | nil => simp at hstar
    | cons first pattern =>
      obtain rfl : first = 42 := by simpa using hstar
      exact .inl (open_self.mp (ih h))
  | case4 pattern byte rest _ _ starP skipped starT ih =>
    exact .inr ⟨starP, skipped, starT, rfl, open_self.mp (ih h)⟩
  | case5 => cases h
  | case6 => cases h

/-- Since the last star, the pattern has had no other one and the text as many bytes. -/
def Aligned (pattern text starP starT : Bytes) : Prop :=
  ∃ head taken, starP = head ++ pattern ∧ starT = taken ++ text ∧
    taken.length = head.length ∧ 42 ∉ head

/-- What the loop has gone through matches, and so does what stood before the last star. -/
structure Consumed (whole all pattern text : Bytes) (star : Option (Bytes × Bytes)) : Prop where
  here : ∃ before taken, whole = before ++ pattern ∧ all = taken ++ text ∧ Globs before taken
  atStar : ∀ starP starT, star = some (starP, starT) →
    ∃ before taken skipped, whole = before ++ 42 :: starP ∧ all = taken ++ skipped ++ starT ∧
      Globs before taken

namespace Consumed

variable {whole all starP starT : Bytes}

theorem advance (h : Consumed whole all (first :: pattern) (byte :: text) star) (hne : first ≠ 42)
    (hhead : first = 63 ∨ first = byte) : Consumed whole all pattern text star := by
  obtain ⟨⟨before, taken, rfl, rfl, hbefore⟩, hatStar⟩ := h
  have hnil : Globs [] [] := rfl
  have hnext := hbefore.append ((globs_cons hne).mpr ⟨hhead, hnil⟩)
  exact ⟨⟨before ++ [first], taken ++ [byte], by simp, by simp, hnext⟩, hatStar⟩

theorem of_atStar (h : ∃ before taken skipped, whole = before ++ 42 :: starP ∧
    all = taken ++ skipped ++ starT ∧ Globs before taken) :
    Consumed whole all starP starT (some (starP, starT)) := by
  obtain ⟨before, taken, skipped, rfl, rfl, hbefore⟩ := h
  have hstar : Globs [42] skipped := globs_star.mpr ⟨skipped, [], by simp, rfl⟩
  refine ⟨⟨before ++ [42], taken ++ skipped, by simp, rfl, hbefore.append hstar⟩, ?_⟩
  rintro _ _ ⟨⟩
  exact ⟨before, taken, skipped, rfl, rfl, hbefore⟩

theorem setStar (h : Consumed whole all (42 :: pattern) text star) :
    Consumed whole all pattern text (some (pattern, text)) := by
  obtain ⟨before, taken, rfl, rfl, hbefore⟩ := h.here
  exact of_atStar ⟨before, taken, [], rfl, by simp, hbefore⟩

theorem retry (h : Consumed whole all pattern text (some (starP, byte :: starT))) :
    Consumed whole all starP starT (some (starP, starT)) := by
  obtain ⟨before, taken, skipped, rfl, rfl, hbefore⟩ := h.atStar _ _ rfl
  exact of_atStar ⟨before, taken, skipped ++ [byte], rfl, by simp, hbefore⟩

end Consumed

theorem aligned_self :
    ∀ starP starT, some (pattern, text) = some (starP, starT) →
      Aligned pattern text starP starT := by
  rintro _ _ ⟨⟩
  exact ⟨[], [], rfl, rfl, rfl, nofun⟩

theorem Aligned.suffix {starP starT : Bytes} (h : Aligned pattern text starP (byte :: starT))
    (hstar : Globs (42 :: starP) starT) :
    ∃ left, left <:+ text ∧ left.length < text.length ∧ Globs pattern left := by
  obtain ⟨head, taken, rfl, hsplit, hlength, hhead⟩ := h
  obtain ⟨skipped, rest, rfl, hrest⟩ := globs_star.mp hstar
  obtain ⟨taken', left, rfl, hlength', hleft⟩ := hrest.split hhead
  have hlengths := congrArg List.length hsplit
  simp only [List.length_cons, List.length_append] at hlengths
  refine ⟨left, ?_, by omega, hleft⟩
  refine List.suffix_of_suffix_length_le ?_ (List.suffix_append taken text) (by omega)
  rw [← hsplit, ← List.append_assoc, ← List.cons_append]
  exact List.suffix_append _ _

theorem not_globs_of_head (hhead : ¬(pattern.head? = some 63 ∨ pattern.head? = some byte))
    (hstar : pattern.head? ≠ some 42) : ¬Globs pattern (byte :: text) := by
  cases pattern with
  | nil => simp [Globs]
  | cons first pattern =>
    rw [globs_cons (by simpa using hstar)]
    exact fun h => hhead (by simpa using h.1)

theorem globLoop_of_open {whole all : Bytes} (hmeet : ¬StarsMeet whole all)
    (hconsumed : Consumed whole all pattern text star)
    (haligned : ∀ starP starT, star = some (starP, starT) → Aligned pattern text starP starT)
    (h : Open pattern text star) : globLoop pattern text star = true := by
  fun_induction globLoop pattern text star with
  | case1 pattern star =>
    refine globs_nil.mp (h.resolve_right ?_)
    rintro ⟨starP, skipped, starT, rfl, hstar⟩
    obtain ⟨left, -, hlt, -⟩ := (haligned _ _ rfl).suffix hstar
    cases hlt
  | case2 pattern star byte rest hhead ih =>
    cases pattern with
    | nil => simp at hhead
    | cons first pattern =>
      have hhead : first = 63 ∨ first = byte := by simpa using hhead
      have hne : first ≠ 42 := by
        rintro rfl
        obtain rfl := hhead.resolve_left (by decide)
        obtain ⟨before, taken, hpattern, htext, hbefore⟩ := hconsumed.here
        exact hmeet ⟨before, pattern, taken, rest, hpattern, htext, hbefore⟩
      refine ih (hconsumed.advance hne hhead) ?_
        (h.imp_left fun hglobs => ((globs_cons hne).mp hglobs).2)
      intro starP starT heq
      obtain ⟨head, taken, rfl, rfl, hlength, hstars⟩ := haligned starP starT heq
      refine ⟨head ++ [first], taken ++ [byte], by simp, by simp, by simp [hlength], ?_⟩
      simpa [hstars] using hne.symm
  | case3 pattern star byte rest _ hstar ih =>
    cases pattern with
    | nil => simp at hstar
    | cons first pattern =>
      obtain rfl : first = 42 := by simpa using hstar
      refine ih hconsumed.setStar aligned_self (open_self.mpr ?_)
      rcases h with h | ⟨starP, skipped, starT, rfl, hlater⟩
      · exact h
      · obtain ⟨left, hsuffix, -, hleft⟩ := (haligned _ _ rfl).suffix hlater
        exact hleft.star_of_suffix hsuffix
  | case4 pattern byte rest hhead hstar starP skipped starT ih =>
    obtain ⟨_, _, _, heq, hlater⟩ := h.resolve_left (not_globs_of_head hhead hstar)
    cases heq
    exact ih hconsumed.retry aligned_self (open_self.mpr hlater)
  | case5 pattern byte rest hhead hstar starP =>
    obtain ⟨_, _, _, heq, -⟩ := h.resolve_left (not_globs_of_head hhead hstar)
    cases heq
  | case6 pattern byte rest hhead hstar =>
    obtain ⟨_, _, _, heq, -⟩ := h.resolve_left (not_globs_of_head hhead hstar)
    cases heq

/-! ## The language -/

theorem globs_of_globMatch (h : globMatch pattern text = true) : Globs pattern text :=
  (open_of_globLoop h).resolve_right nofun

theorem globMatch_iff_of_not_starsMeet (hmeet : ¬StarsMeet pattern text) :
    globMatch pattern text = true ↔ Globs pattern text := by
  refine ⟨globs_of_globMatch, fun h => globLoop_of_open hmeet ⟨?_, nofun⟩ nofun (.inl h)⟩
  exact ⟨[], [], rfl, rfl, rfl⟩

theorem StarsMeet.mem (h : StarsMeet pattern text) : 42 ∈ pattern ∧ 42 ∈ text := by
  obtain ⟨before, after, taken, left, rfl, rfl, -⟩ := h
  simp

theorem globMatch_plain (hstar : 42 ∉ pattern) (hmark : 63 ∉ pattern) :
    globMatch pattern text = true ↔ text = pattern := by
  rw [globMatch_iff_of_not_starsMeet fun hmeet => hstar hmeet.mem.1]
  induction pattern generalizing text with
  | nil => rfl
  | cons first pattern ih =>
    rw [List.mem_cons, not_or] at hstar hmark
    simp [Globs, Ne.symm hstar.1, Ne.symm hmark.1, ih hstar.2 hmark.2, eq_comm]

theorem globs_self (pattern : Bytes) : Globs pattern pattern := by
  induction pattern with
  | nil => rfl
  | cons first pattern ih =>
    by_cases hstar : first = 42
    · exact hstar ▸ globs_star.mpr ⟨[42], pattern, rfl, ih⟩
    · exact (globs_cons hstar).mpr ⟨.inr rfl, ih⟩

theorem globLoop_append (head pattern text : Bytes) (star : Option (Bytes × Bytes)) :
    globLoop (head ++ pattern) (head ++ text) star = globLoop pattern text star := by
  induction head with
  | nil => rfl
  | cons byte head ih =>
    rw [globLoop.eq_def]
    simpa using ih

theorem globs_marks (text : Bytes) : Globs (List.replicate text.length 63) text := by
  induction text with
  | nil => rfl
  | cons byte text ih => exact (globs_cons (by decide)).mpr ⟨.inl rfl, ih⟩

theorem globLoop_marks (head pattern text : Bytes) (star : Option (Bytes × Bytes)) :
    globLoop (List.replicate head.length 63 ++ pattern) (head ++ text) star =
      globLoop pattern text star := by
  induction head with
  | nil => rfl
  | cons byte head ih =>
    rw [List.length_cons, List.replicate_succ,
      globLoop.eq_def]
    simpa using ih

theorem globLoop_eq_false (hpattern : 42 ∉ pattern) (hlength : text.length ≠ pattern.length) :
    globLoop pattern text none = false := by
  rw [← Bool.not_eq_true]
  intro h
  have hglobs := (open_of_globLoop h).resolve_right nofun
  rw [← List.append_nil pattern] at hglobs
  obtain ⟨taken, left, rfl, htaken, rfl⟩ := hglobs.split hpattern
  exact hlength (by simpa using htaken)

theorem exists_text_of_star (hstar : 42 ∈ pattern) :
    ∃ text, Globs pattern text ∧ globMatch pattern text = false := by
  obtain ⟨after, before, hsplit, hafter⟩ :=
    List.eq_append_cons_of_mem (List.mem_reverse.mpr hstar)
  obtain rfl : pattern = before.reverse ++ 42 :: after.reverse := by
    simpa using congrArg List.reverse hsplit
  refine ⟨before.reverse ++ 42 :: 0 :: after.reverse, ?_, ?_⟩
  · exact (globs_self _).append (globs_star.mpr ⟨[42, 0], after.reverse, rfl, globs_self _⟩)
  · rw [globMatch, globLoop_append]
    have hmeet := globLoop_append [42] after.reverse (0 :: after.reverse) none
    exact hmeet.trans (globLoop_eq_false (by simpa using hafter) (by simp))

theorem exists_pattern_of_star (hstar : 42 ∈ text) :
    ∃ pattern, Globs pattern text ∧ globMatch pattern text = false := by
  obtain ⟨before, after, rfl⟩ := List.append_of_mem hstar
  refine ⟨List.replicate before.length 63 ++ 42 :: List.replicate (after.length + 1) 63, ?_, ?_⟩
  · exact (globs_marks before).append (globs_star.mpr ⟨[], _, rfl, globs_marks (42 :: after)⟩)
  · rw [globMatch, globLoop_marks]
    have hmeet := globLoop_append [42] (List.replicate (after.length + 1) 63) after none
    exact hmeet.trans (globLoop_eq_false (by simp) (by simp))

end AuroraGateway.CanaryRelease
