import Mathlib.Algebra.BigOperators.Group.List.Basic
import Mathlib.Algebra.GroupWithZero.Nat
import Mathlib.Data.List.Perm.Basic
import AuroraGateway.Foundation.HashTable

/-!
# Weighted tables and the queues that mirror them

The total of a table adds up the weights of its values.  A queue mirrors a
table if it lists every key of the table once and nothing else; a store that
evicts from the front of a queue keeps the two in step.
-/

namespace AuroraGateway.Foundation

universe u v

variable {κ : Type u} {α : Type v}

namespace HashTable

def total (t : HashTable κ α) (weight : α → Nat) : Nat :=
  (t.entries.map fun e => weight e.2).sum

variable {t : HashTable κ α} {key : κ}

theorem total_congr {weight weight' : α → Nat} (h : ∀ e ∈ t.entries, weight e.2 = weight' e.2) :
    t.total weight = t.total weight' := by
  unfold total
  rw [List.map_congr_left h]

variable [DecidableEq κ]

theorem mem_erase {e : κ × α} :
    e ∈ (t.erase key).entries ↔ e ∈ t.entries ∧ e.1 ≠ key := by
  simp [erase]

theorem total_erase {value : α} (h : t.get? key = some value) (weight : α → Nat) :
    (t.erase key).total weight + weight value = t.total weight := by
  have hmem := get?_eq_some_iff.mp h
  have hperm : t.entries.Perm ((key, value) :: (t.erase key).entries) := by
    rw [List.perm_ext_iff_of_nodup (List.Nodup.of_map _ t.nodup)]
    · intro e
      rw [List.mem_cons, mem_erase]
      constructor
      · intro he
        by_cases hkey : e.1 = key
        · exact .inl (List.inj_on_of_nodup_map t.nodup he hmem hkey)
        · exact .inr ⟨he, hkey⟩
      · rintro (rfl | ⟨he, -⟩)
        · exact hmem
        · exact he
    · rw [List.nodup_cons]
      constructor
      · intro hin
        exact (mem_erase.mp hin).2 rfl
      · exact List.Nodup.of_map _ (t.erase key).nodup
  unfold total
  rw [(hperm.map fun e => weight e.2).sum_eq]
  exact Nat.add_comm _ _

theorem total_insert_of_none (h : t.get? key = none) (value : α) (weight : α → Nat) :
    (t.insert key value).total weight = t.total weight + weight value := by
  simp [total, insert_entries_of_none h]

theorem total_grow {value : α} {weight weight' : α → Nat} {added : Nat}
    (h : t.get? key = some value) (hgrow : weight' value = weight value + added)
    (hother : ∀ e ∈ t.entries, e.1 ≠ key → weight' e.2 = weight e.2) :
    t.total weight' = t.total weight + added := by
  have hrest : (t.erase key).total weight' = (t.erase key).total weight := by
    apply total_congr
    intro e he
    exact hother e (mem_erase.mp he).1 (mem_erase.mp he).2
  have hold := total_erase h weight
  have hnew := total_erase h weight'
  omega

def weightAt (t : HashTable κ α) (weight : α → Nat) (key : κ) : Nat :=
  ((t.get? key).map weight).getD 0

theorem weightAt_of_some {value : α} (h : t.get? key = some value) (weight : α → Nat) :
    t.weightAt weight key = weight value := by
  simp [weightAt, h]

theorem weightAt_erase_of_ne (t : HashTable κ α) (weight : α → Nat) {key' : κ} (h : key' ≠ key) :
    (t.erase key).weightAt weight key' = t.weightAt weight key' := by
  simp [weightAt, get?_erase_of_ne t h]

end HashTable

variable [DecidableEq κ]

structure Mirrors (order : List κ) (t : HashTable κ α) : Prop where
  nodup : order.Nodup
  mem_iff : ∀ key, key ∈ order ↔ (t.get? key).isSome

namespace Mirrors

variable {order rest : List κ} {key : κ} {t : HashTable κ α}

theorem empty : Mirrors [] (HashTable.empty : HashTable κ α) :=
  ⟨List.nodup_nil, by simp [HashTable.get?, HashTable.empty]⟩

theorem get?_head (h : Mirrors (key :: rest) t) : ∃ value, t.get? key = some value :=
  Option.isSome_iff_exists.mp ((h.mem_iff key).mp (by simp))

theorem remove (h : Mirrors order t) (key : κ) :
    Mirrors (order.filter fun k => k ≠ key) (t.erase key) where
  nodup := h.nodup.filter _
  mem_iff k := by
    by_cases hk : k = key
    · simp [hk]
    · simp [hk, h.mem_iff, HashTable.get?_erase_of_ne t hk]

theorem pop (h : Mirrors (key :: rest) t) : Mirrors rest (t.erase key) := by
  have hnot : key ∉ rest := (List.nodup_cons.mp h.nodup).1
  have hfilter : (key :: rest).filter (fun k => k ≠ key) = rest := by
    rw [List.filter_cons_of_neg (by simp), List.filter_eq_self]
    intro k hk
    have : k ≠ key := fun heq => hnot (heq ▸ hk)
    simpa using this
  have hremoved := h.remove key
  rwa [hfilter] at hremoved

theorem push (h : Mirrors order t) (hkey : t.get? key = none) (value : α) :
    Mirrors (order ++ [key]) (t.insert key value) where
  nodup := by
    have hnot : key ∉ order := by simp [h.mem_iff, hkey]
    rw [List.nodup_append]
    refine ⟨h.nodup, by simp, ?_⟩
    intro k hk k' hk' heq
    rw [List.mem_singleton] at hk'
    exact hnot (hk' ▸ heq ▸ hk)
  mem_iff k := by
    by_cases hk : k = key
    · simp [hk]
    · simp [hk, h.mem_iff, HashTable.get?_insert_of_ne t value hk]

theorem rotate (h : Mirrors (key :: rest) t) : Mirrors (rest ++ [key]) t where
  nodup := (List.perm_append_singleton key rest).nodup_iff.mpr h.nodup
  mem_iff k := by
    rw [(List.perm_append_singleton key rest).mem_iff]
    exact h.mem_iff k

theorem entries_eq_nil (h : Mirrors [] t) : t.entries = [] := by
  apply List.eq_nil_iff_forall_not_mem.mpr
  rintro ⟨k, value⟩ he
  have := (h.mem_iff k).mpr (by simp [HashTable.get?_eq_some_iff.mpr he])
  simp at this

theorem ne_of_mem (h : Mirrors (key :: rest) t) {key' : κ} (hmem : key' ∈ rest) :
    key' ≠ key := by
  rintro rfl
  exact (List.nodup_cons.mp h.nodup).1 hmem

theorem sum_weightAt (h : Mirrors order t) (weight : α → Nat) :
    (order.map (t.weightAt weight)).sum = t.total weight := by
  induction order generalizing t with
  | nil => simp [HashTable.total, h.entries_eq_nil]
  | cons key rest ih =>
    obtain ⟨value, hvalue⟩ := h.get?_head
    have hrest : rest.map (t.weightAt weight) = rest.map ((t.erase key).weightAt weight) := by
      apply List.map_congr_left
      intro key' hkey'
      exact (t.weightAt_erase_of_ne weight (h.ne_of_mem hkey')).symm
    rw [List.map_cons, List.sum_cons, hrest, ih h.pop, HashTable.weightAt_of_some hvalue,
      ← HashTable.total_erase hvalue weight]
    exact Nat.add_comm _ _

end Mirrors

end AuroraGateway.Foundation
