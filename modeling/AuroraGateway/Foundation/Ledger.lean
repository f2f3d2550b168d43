import Mathlib.Data.List.Count
import Mathlib.Logic.Function.Basic

/-!
# Counters of tokens in use

A ledger counts, for each key, the tokens that are in use.  A token without a
key is in use but not counted.
-/

namespace AuroraGateway.Foundation

universe u v

variable {κ : Type u} {τ : Type v} [DecidableEq κ]

def Balanced (key : τ → Option κ) (count : κ → Nat) (tokens : List τ) : Prop :=
  ∀ k, count k = tokens.countP fun t => key t = some k

namespace Balanced

variable {key : τ → Option κ} {count : κ → Nat} {tokens : List τ} {t : τ} {k : κ}

theorem nil : Balanced key (fun _ => 0) [] := fun _ => rfl

section

variable (h : Balanced key count tokens)
include h

theorem take (ht : key t = some k) :
    Balanced key (Function.update count k (count k + 1)) (t :: tokens) := by
  intro k'
  by_cases hk : k' = k
  · subst hk
    rw [Function.update_self, List.countP_cons_of_pos (by simpa using ht), h k']
  · rw [Function.update_of_ne hk, List.countP_cons_of_neg, h k']
    simpa [ht] using Ne.symm hk

theorem take_uncounted (ht : key t = none) : Balanced key count (t :: tokens) := by
  intro k'
  rw [List.countP_cons_of_neg (by simp [ht]), h k']

theorem give [BEq τ] [LawfulBEq τ] (hmem : t ∈ tokens) (ht : key t = some k) :
    Balanced key (Function.update count k (count k - 1)) (tokens.erase t) := by
  intro k'
  rw [List.countP_erase]
  by_cases hk : k' = k
  · subst hk
    simp [hmem, ht, h k']
  · simp [ht, Ne.symm hk, h k', Function.update_of_ne hk]

theorem give_uncounted [BEq τ] [LawfulBEq τ] (ht : key t = none) :
    Balanced key count (tokens.erase t) := by
  intro k'
  rw [List.countP_erase]
  simp [ht, h k']

theorem countP_le {p : τ → Bool} (hp : ∀ t ∈ tokens, p t = true → key t = some k) :
    tokens.countP p ≤ count k := by
  rw [h k]
  refine List.countP_mono_left fun t ht htrue => ?_
  simpa using hp t ht htrue

theorem eq_countP {p : τ → Bool} (hp : ∀ t ∈ tokens, p t = true ↔ key t = some k) :
    count k = tokens.countP p := by
  rw [h k]
  refine List.countP_congr fun t ht => ?_
  simpa using (hp t ht).symm

end

end Balanced

def Covered (key : τ → Option κ) (count : κ → Nat) (tokens : List τ) : Prop :=
  ∀ k, (tokens.countP fun t => key t = some k) ≤ count k

namespace Covered

variable {key : τ → Option κ} {count : κ → Nat} {tokens : List τ} {t : τ} {k : κ}

theorem of_uncounted (h : ∀ t ∈ tokens, key t = none) : Covered key count tokens := by
  intro k
  have hzero : (tokens.countP fun t => key t = some k) = 0 :=
    List.countP_eq_zero.mpr fun t ht => by simp [h t ht]
  rw [hzero]
  exact Nat.zero_le _

section

variable (h : Covered key count tokens)
include h

theorem take (ht : key t = some k) :
    Covered key (Function.update count k (count k + 1)) (t :: tokens) := by
  intro k'
  by_cases hk : k' = k
  · subst hk
    rw [Function.update_self, List.countP_cons_of_pos (by simpa using ht)]
    exact Nat.add_le_add_right (h k') 1
  · rw [Function.update_of_ne hk, List.countP_cons_of_neg (by simpa [ht] using Ne.symm hk)]
    exact h k'

theorem erase [BEq τ] : Covered key count (tokens.erase t) :=
  fun k' => Nat.le_trans List.erase_sublist.countP_le (h k')

theorem give [BEq τ] [LawfulBEq τ] (hmem : t ∈ tokens) (ht : key t = some k) :
    Covered key (Function.update count k (count k - 1)) (tokens.erase t) := by
  intro k'
  by_cases hk : k' = k
  · subst hk
    rw [Function.update_self, List.countP_erase, if_pos ⟨hmem, by simpa using ht⟩]
    exact Nat.sub_le_sub_right (h k') 1
  · rw [Function.update_of_ne hk]
    exact h.erase k'

theorem give_idle [BEq τ] (hidle : ∀ t ∈ tokens, key t ≠ some k) (n : Nat) :
    Covered key (Function.update count k n) (tokens.erase t) := by
  intro k'
  by_cases hk : k' = k
  · subst hk
    have hzero : ((tokens.erase t).countP fun t => key t = some k') = 0 :=
      List.countP_eq_zero.mpr fun t' ht' => by simpa using hidle t' (List.mem_of_mem_erase ht')
    rw [hzero]
    exact Nat.zero_le _
  · rw [Function.update_of_ne hk]
    exact h.erase k'

end

end Covered

end AuroraGateway.Foundation
