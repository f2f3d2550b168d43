import Mathlib.Data.List.Basic
import Mathlib.Data.List.Nodup

/-!
# Hash tables

A hash table is its list of entries, with one entry for every key.  Operations
keep the order of the list; a program that iterates over a table sees the
entries in an order that it cannot control.
-/

namespace AuroraGateway.Foundation

universe u v

structure HashTable (κ : Type u) (α : Type v) where
  entries : List (κ × α)
  nodup : (entries.map Prod.fst).Nodup
  deriving DecidableEq

namespace HashTable

variable {κ : Type u} {α : Type v}

@[ext] theorem ext_entries {s t : HashTable κ α} (h : s.entries = t.entries) : s = t := by
  cases s
  cases t
  simpa using h

def empty : HashTable κ α := ⟨[], List.nodup_nil⟩

def len (t : HashTable κ α) : Nat := t.entries.length

def retain (t : HashTable κ α) (keep : κ × α → Bool) : HashTable κ α :=
  ⟨t.entries.filter keep, t.nodup.sublist (List.filter_sublist.map Prod.fst)⟩

variable {keep : κ × α → Bool}

@[simp] theorem mem_retain {t : HashTable κ α} {e : κ × α} :
    e ∈ (t.retain keep).entries ↔ e ∈ t.entries ∧ keep e = true :=
  List.mem_filter

theorem len_retain_le (t : HashTable κ α) (keep : κ × α → Bool) :
    (t.retain keep).len ≤ t.len :=
  List.length_filter_le _ _

theorem retain_eq_self {t : HashTable κ α} (h : ∀ e ∈ t.entries, keep e = true) :
    t.retain keep = t :=
  ext_entries (List.filter_eq_self.mpr h)

section Lookup

variable [DecidableEq κ]

def get? (t : HashTable κ α) (key : κ) : Option α :=
  (t.entries.find? fun e => e.1 = key).map Prod.snd

def erase (t : HashTable κ α) (key : κ) : HashTable κ α :=
  t.retain fun e => e.1 ≠ key

variable {t : HashTable κ α} {key : κ}

theorem get?_eq_some_iff {value : α} :
    t.get? key = some value ↔ (key, value) ∈ t.entries := by
  unfold get?
  constructor
  · intro h
    obtain ⟨⟨k, v⟩, hfind, rfl⟩ := Option.map_eq_some_iff.mp h
    have hkey := List.find?_some hfind
    simp only [decide_eq_true_eq] at hkey
    subst hkey
    exact List.mem_of_find?_eq_some hfind
  · intro h
    cases hfind : t.entries.find? fun e => e.1 = key with
    | none =>
      have := List.find?_eq_none.mp hfind _ h
      simp at this
    | some e =>
      have hkey := List.find?_some hfind
      simp only [decide_eq_true_eq] at hkey
      have heq := List.inj_on_of_nodup_map t.nodup
        (List.mem_of_find?_eq_some hfind) h hkey
      rw [heq]
      rfl

theorem get?_eq_none_iff :
    t.get? key = none ↔ ∀ e ∈ t.entries, e.1 ≠ key := by
  rw [get?]
  simp

private theorem nodup_keys_set {l : List (κ × α)} (h : (l.map Prod.fst).Nodup)
    (key : κ) (value : α) :
    ((l.map fun e => if e.1 = key then (key, value) else e).map Prod.fst).Nodup := by
  have hkeys : (l.map fun e => if e.1 = key then (key, value) else e).map Prod.fst =
      l.map Prod.fst := by
    rw [List.map_map]
    refine List.map_congr_left fun e _ => ?_
    by_cases he : e.1 = key <;> simp [he]
  rw [hkeys]
  exact h

private theorem nodup_keys_push {t : HashTable κ α} {key : κ}
    (h : t.get? key = none) (value : α) :
    ((t.entries ++ [(key, value)]).map Prod.fst).Nodup := by
  rw [List.map_append, List.nodup_append]
  refine ⟨t.nodup, by simp, ?_⟩
  intro k hk k' hk'
  obtain ⟨e, he, rfl⟩ := List.mem_map.mp hk
  simp only [List.map_cons, List.map_nil, List.mem_singleton] at hk'
  exact hk' ▸ get?_eq_none_iff.mp h e he

def insert (t : HashTable κ α) (key : κ) (value : α) : HashTable κ α :=
  match h : t.get? key with
  | some _ =>
    ⟨t.entries.map fun e => if e.1 = key then (key, value) else e,
      nodup_keys_set t.nodup key value⟩
  | none => ⟨t.entries ++ [(key, value)], nodup_keys_push h value⟩

theorem insert_entries_of_some {old : α} (h : t.get? key = some old) (value : α) :
    (t.insert key value).entries =
      t.entries.map fun e => if e.1 = key then (key, value) else e := by
  unfold insert
  split
  · rfl
  · rename_i hnone
    rw [h] at hnone
    simp at hnone

theorem insert_entries_of_none (h : t.get? key = none) (value : α) :
    (t.insert key value).entries = t.entries ++ [(key, value)] := by
  unfold insert
  split
  · rename_i hsome
    rw [h] at hsome
    simp at hsome
  · rfl

theorem mem_insert {value : α} {e : κ × α} :
    e ∈ (t.insert key value).entries ↔
      e = (key, value) ∨ (e ∈ t.entries ∧ e.1 ≠ key) := by
  cases h : t.get? key with
  | none =>
    rw [insert_entries_of_none h, List.mem_append, List.mem_singleton]
    constructor
    · rintro (hmem | heq)
      · exact .inr ⟨hmem, get?_eq_none_iff.mp h e hmem⟩
      · exact .inl heq
    · rintro (heq | ⟨hmem, -⟩)
      · exact .inr heq
      · exact .inl hmem
  | some old =>
    rw [insert_entries_of_some h, List.mem_map]
    constructor
    · rintro ⟨e', hmem, rfl⟩
      by_cases he : e'.1 = key
      · exact .inl (if_pos he)
      · rw [if_neg he]
        exact .inr ⟨hmem, he⟩
    · rintro (rfl | ⟨hmem, hne⟩)
      · exact ⟨(key, old), get?_eq_some_iff.mp h, if_pos rfl⟩
      · exact ⟨e, hmem, if_neg hne⟩

@[simp] theorem get?_insert_self (t : HashTable κ α) (key : κ) (value : α) :
    (t.insert key value).get? key = some value :=
  get?_eq_some_iff.mpr (mem_insert.mpr (.inl rfl))

theorem get?_insert_of_ne (t : HashTable κ α) {key' : κ} (value : α) (hne : key' ≠ key) :
    (t.insert key value).get? key' = t.get? key' := by
  refine Option.ext fun v => ?_
  simp only [get?_eq_some_iff, mem_insert, Prod.mk.injEq]
  constructor
  · rintro (⟨h, -⟩ | ⟨h, -⟩)
    · exact absurd h hne
    · exact h
  · intro h
    exact .inr ⟨h, hne⟩

theorem len_insert_of_some {old : α} (h : t.get? key = some old) (value : α) :
    (t.insert key value).len = t.len := by
  rw [len, insert_entries_of_some h, List.length_map, len]

theorem len_insert_of_none (h : t.get? key = none) (value : α) :
    (t.insert key value).len = t.len + 1 := by
  rw [len, insert_entries_of_none h, List.length_append, List.length_singleton, len]

@[simp] theorem insert_insert (t : HashTable κ α) (key : κ) (first second : α) :
    (t.insert key first).insert key second = t.insert key second := by
  refine ext_entries ?_
  rw [insert_entries_of_some (get?_insert_self t key first)]
  cases h : t.get? key with
  | none =>
    rw [insert_entries_of_none h, insert_entries_of_none h, List.map_append]
    have hsame : (t.entries.map fun e => if e.1 = key then (key, second) else e) =
        t.entries := by
      refine (List.map_congr_left fun e he => ?_).trans (List.map_id _)
      exact if_neg (get?_eq_none_iff.mp h e he)
    rw [hsame]
    simp
  | some old =>
    rw [insert_entries_of_some h, insert_entries_of_some h, List.map_map]
    refine List.map_congr_left fun e _ => ?_
    by_cases he : e.1 = key <;> simp [he]

@[simp] theorem get?_erase_self (t : HashTable κ α) (key : κ) :
    (t.erase key).get? key = none := by
  rw [get?_eq_none_iff]
  intro e he
  simpa using (mem_retain.mp he).2

theorem get?_erase_of_ne (t : HashTable κ α) {key' : κ} (hne : key' ≠ key) :
    (t.erase key).get? key' = t.get? key' := by
  refine Option.ext fun v => ?_
  simp [get?_eq_some_iff, erase, hne]

theorem len_erase_lt {e : κ × α} (he : e ∈ t.entries) :
    (t.erase e.1).len < t.len := by
  refine List.length_filter_lt_length_iff_exists.mpr ⟨e, he, ?_⟩
  simp

end Lookup

end HashTable

structure IterationOrder (κ : Type u) (α : Type v) where
  order : List (κ × α) → List (κ × α)
  perm : ∀ entries, (order entries).Perm entries

def IterationOrder.asStored (κ : Type u) (α : Type v) : IterationOrder κ α :=
  ⟨id, fun _ => List.Perm.refl _⟩

end AuroraGateway.Foundation
