import Mathlib.Algebra.GroupWithZero.Nat
import Mathlib.Data.List.Basic

/-!
# Delimited text

Splitting and joining of texts at a delimiter, over any alphabet.
-/

namespace AuroraGateway.Foundation

universe u v

variable {α : Type u}

section Joined

variable {sep : α} {left left' right right' : List α}

/-- Two joined pairs are the same text in three ways: the pairs are equal, or the first
component of one goes on in the second component of the other. -/
theorem append_sep_eq_iff :
    left ++ sep :: right = left' ++ sep :: right' ↔
      (left = left' ∧ right = right') ∨
      (∃ x, left' = left ++ sep :: x ∧ right = x ++ sep :: right') ∨
      ∃ x, left = left' ++ sep :: x ∧ right' = x ++ sep :: right := by
  constructor
  · intro h
    rcases List.append_eq_append_iff.mp h with ⟨as, hleft, hright⟩ | ⟨bs, hleft, hright⟩
    · cases as with
      | nil => simp_all
      | cons a as =>
        obtain ⟨rfl, hrest⟩ := List.cons.inj hright
        exact .inr (.inl ⟨as, hleft, hrest⟩)
    · cases bs with
      | nil => simp_all
      | cons b bs =>
        obtain ⟨rfl, hrest⟩ := List.cons.inj hright
        exact .inr (.inr ⟨bs, hleft, hrest⟩)
  · rintro (⟨rfl, rfl⟩ | ⟨x, rfl, rfl⟩ | ⟨x, rfl, rfl⟩) <;> simp

theorem append_sep_inj (hleft : sep ∉ left) (hleft' : sep ∉ left') :
    left ++ sep :: right = left' ++ sep :: right' ↔ left = left' ∧ right = right' := by
  rw [append_sep_eq_iff]
  constructor
  · rintro (h | ⟨x, rfl, -⟩ | ⟨x, rfl, -⟩)
    · exact h
    · simp at hleft'
    · simp at hleft
  · exact .inl

theorem append_sep_inj_right (hright : sep ∉ right) (hright' : sep ∉ right') :
    left ++ sep :: right = left' ++ sep :: right' ↔ left = left' ∧ right = right' := by
  rw [append_sep_eq_iff]
  constructor
  · rintro (h | ⟨x, -, rfl⟩ | ⟨x, -, rfl⟩)
    · exact h
    · simp at hright
    · simp at hright'
  · exact .inl

end Joined

variable [DecidableEq α]

/-- `str::split_once`: what stands before and after the first separator. -/
def splitOnce (sep : α) : List α → Option (List α × List α)
  | [] => none
  | a :: rest =>
    if a = sep then some ([], rest)
    else (splitOnce sep rest).map fun (left, right) => (a :: left, right)

variable {sep : α} {text : List α}

theorem splitOnce_eq_some {left right : List α} (h : splitOnce sep text = some (left, right)) :
    sep ∉ left ∧ text = left ++ sep :: right := by
  induction text generalizing left with
  | nil => simp [splitOnce] at h
  | cons a rest ih =>
    unfold splitOnce at h
    split at h
    · rename_i ha
      obtain ⟨rfl, rfl⟩ := h
      simp [ha]
    · rename_i ha
      obtain ⟨⟨left', right'⟩, hrest, heq⟩ := Option.map_eq_some_iff.mp h
      obtain ⟨rfl, rfl⟩ := Prod.mk.inj heq
      obtain ⟨hnot, rfl⟩ := ih hrest
      simp [hnot, Ne.symm ha]

theorem splitOnce_eq_none (h : splitOnce sep text = none) :
    sep ∉ text := by
  induction text with
  | nil => simp
  | cons a rest ih =>
    unfold splitOnce at h
    split at h
    · simp at h
    · rename_i ha
      have hrest := ih (by simpa using h)
      simp [hrest, Ne.symm ha]

theorem splitOnce_append {left : List α} (h : sep ∉ left) (right : List α) :
    splitOnce sep (left ++ sep :: right) = some (left, right) := by
  induction left with
  | nil => simp [splitOnce]
  | cons a rest ih =>
    obtain ⟨hne, hrest⟩ := List.ne_and_not_mem_of_not_mem_cons h
    simp [splitOnce, hne.symm, ih hrest]

theorem not_mem_of_mem_splitOn {piece : List α} (h : piece ∈ text.splitOn sep) : sep ∉ piece := by
  induction text generalizing piece with
  | nil =>
    rw [List.splitOn_nil, List.mem_singleton] at h
    simp [h]
  | cons a rest ih =>
    rw [List.splitOn_cons_eq_if_modifyHead] at h
    split at h
    · rcases List.mem_cons.mp h with rfl | hrest
      · simp
      · exact ih hrest
    · rename_i ha
      have hne : sep ≠ a := fun heq => ha (by simp [heq])
      cases hsplit : rest.splitOn sep with
      | nil => simp [hsplit] at h
      | cons first others =>
        rw [hsplit, List.modifyHead_cons, List.mem_cons] at h
        rcases h with rfl | hothers
        · have hfirst : first ∈ rest.splitOn sep := by simp [hsplit]
          simp [hne, ih hfirst]
        · exact ih (by simp [hsplit, hothers])

theorem exists_piece_of_mem {a : α} (h : a ∈ text) (hne : a ≠ sep) :
    ∃ piece ∈ text.splitOn sep, a ∈ piece := by
  induction text with
  | nil => cases h
  | cons b rest ih =>
    rw [List.splitOn_cons_eq_if_modifyHead]
    cases hsplit : rest.splitOn sep with
    | nil => exact absurd hsplit (List.splitOn_ne_nil _ _)
    | cons first others =>
      rw [hsplit] at ih
      split
      · rename_i hb
        rcases List.mem_cons.mp h with rfl | hrest
        · exact absurd (by simpa using hb) hne
        · obtain ⟨piece, hpiece, hmem⟩ := ih hrest
          exact ⟨piece, List.mem_cons_of_mem _ hpiece, hmem⟩
      · rcases List.mem_cons.mp h with rfl | hrest
        · exact ⟨_, List.mem_cons_self, List.mem_cons_self⟩
        · obtain ⟨piece, hpiece, hmem⟩ := ih hrest
          rcases List.mem_cons.mp hpiece with rfl | hothers
          · exact ⟨_, List.mem_cons_self, List.mem_cons_of_mem _ hmem⟩
          · exact ⟨piece, List.mem_cons_of_mem _ hothers, hmem⟩

theorem sum_length_splitOn (text : List α) :
    ((text.splitOn sep).map fun piece => piece.length + 1).sum = text.length + 1 := by
  induction text with
  | nil => simp
  | cons a rest ih =>
    rw [List.splitOn_cons_eq_if_modifyHead]
    cases hsplit : rest.splitOn sep with
    | nil => exact absurd hsplit (List.splitOn_ne_nil _ _)
    | cons first others =>
      rw [hsplit, List.map_cons, List.sum_cons] at ih
      split
      · rw [List.map_cons, List.sum_cons, List.map_cons, List.sum_cons]
        simp only [List.length_nil, List.length_cons]
        omega
      · rw [List.modifyHead_cons, List.map_cons, List.sum_cons]
        simp only [List.length_cons]
        omega

/-! ## Lines -/

theorem splitOn_append_sep {line : List α} (h : sep ∉ line) (rest : List α) :
    (line ++ sep :: rest).splitOn sep = line :: rest.splitOn sep := by
  induction line with
  | nil => simp [List.splitOn_cons_eq_if_modifyHead]
  | cons a line ih =>
    obtain ⟨hne, hline⟩ : sep ≠ a ∧ sep ∉ line := by simpa using h
    rw [List.cons_append, List.splitOn_cons_eq_if_modifyHead, ih hline]
    simp [Ne.symm hne]

theorem infix_of_mem_splitOn {piece : List α} (h : piece ∈ text.splitOn sep) :
    piece <:+: text := by
  induction hlength : text.length using Nat.strongRecOn generalizing text with
  | ind n ih =>
    by_cases hsep : sep ∈ text
    · obtain ⟨line, rest, rfl, hline⟩ := List.eq_append_cons_of_mem hsep
      rw [splitOn_append_sep hline, List.mem_cons] at h
      rcases h with rfl | hrest
      · exact List.infix_append' [] piece _
      · have hinfix := ih rest.length (by simp at hlength; omega) hrest rfl
        exact hinfix.trans ((List.suffix_cons sep rest).trans
          (List.suffix_append line _)).isInfix
    · rw [List.splitOn_eq_singleton hsep, List.mem_singleton] at h
      exact h ▸ List.infix_rfl

theorem splitOn_terminated {lines : List (List α)} (h : ∀ line ∈ lines, sep ∉ line) :
    (lines.flatMap fun line => line ++ [sep]).splitOn sep = lines ++ [[]] := by
  induction lines with
  | nil => simp
  | cons line lines ih =>
    obtain ⟨hline, hlines⟩ := List.forall_mem_cons.mp h
    rw [List.flatMap_cons, List.append_assoc, List.singleton_append, splitOn_append_sep hline,
      ih hlines, List.cons_append]

section Blocks

variable {α : Type u} {ρ : Type v}

theorem exists_gap {head rest before after : List α} {a : α} (hhead : a ∉ head)
    (h : head ++ rest = before ++ a :: after) :
    ∃ gap, before = head ++ gap ∧ rest = gap ++ a :: after := by
  obtain ⟨gap, hgap, hrest⟩ | ⟨gap, hgap, hrest⟩ := List.append_eq_append_iff.mp h
  · exact ⟨gap, hgap, hrest⟩
  · cases gap with
    | nil => exact ⟨[], by simpa using hgap.symm, by simpa using hrest.symm⟩
    | cons b gap =>
      obtain ⟨rfl, -⟩ := List.cons.inj hrest
      exact absurd (by simp [hgap]) hhead

theorem exists_block {opening : ρ → α} {body : ρ → List α} {close blank first : α}
    {tail before inner after : List α} {rows : List ρ}
    (hfirst : ∀ row ∈ rows, first ∉ body row) (hclose : first ≠ close) (hblank : first ≠ blank)
    (htail : first ∉ tail) (hinner : close ∉ inner) (hbody : ∀ row ∈ rows, close ∉ body row)
    (h : (rows.flatMap fun row => opening row :: body row ++ [close, blank]) ++ tail =
      before ++ first :: (inner ++ close :: after)) :
    ∃ row ∈ rows, opening row = first ∧ body row = inner := by
  induction rows generalizing before with
  | nil =>
    refine absurd ?_ htail
    rw [List.flatMap_nil, List.nil_append] at h
    simp [h]
  | cons row rows ih =>
    obtain ⟨hrow, hrows⟩ := List.forall_mem_cons.mp hfirst
    obtain ⟨hbodyRow, hbodies⟩ := List.forall_mem_cons.mp hbody
    rw [List.flatMap_cons] at h
    cases before with
    | nil =>
      simp only [List.cons_append, List.append_assoc, List.nil_append, List.cons.injEq] at h
      refine ⟨row, List.mem_cons_self, h.1, ?_⟩
      exact ((append_sep_inj hbodyRow hinner).mp h.2).1
    | cons line before =>
      simp only [List.cons_append, List.append_assoc, List.cons.injEq] at h
      -- The line is not inside this block, so it stands after it.
      have hblock : first ∉ body row ++ [close, blank] := by simp [hrow, hclose, hblank]
      obtain ⟨gap, -, hrest⟩ := exists_gap hblock (by simpa using h.2)
      obtain ⟨found, hmem, hfound⟩ := ih hrows hbodies hrest
      exact ⟨found, List.mem_cons_of_mem _ hmem, hfound⟩

end Blocks

end AuroraGateway.Foundation
