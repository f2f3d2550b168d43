import Mathlib.Data.List.Forall2

/-!
# Checks over a list

A list is compiled element by element, and the first failure is the failure of
the whole.
-/

namespace AuroraGateway.Foundation

universe u v w

variable {ε : Type u}

theorem exists_ok_of_any {α : Type v} {x : Except ε α} {p : α → Bool}
    (h : x.toOption.any p = true) : ∃ a, x = .ok a ∧ p a = true := by
  cases x with
  | error err => simp [Except.toOption] at h
  | ok a => exact ⟨a, rfl, h⟩

theorem eq_ok_of_toOption {α : Type v} {x : Except ε α} {a : α} (h : x.toOption = some a) :
    x = .ok a := by
  cases x with
  | error err => simp [Except.toOption] at h
  | ok b => rw [Option.some.inj h]

theorem exists_of_bind_ok {α β : Type v} {x : Except ε α} {f : α → Except ε β} {b : β}
    (h : x >>= f = .ok b) : ∃ a, x = .ok a ∧ f a = .ok b := by
  cases x with
  | error err => cases h
  | ok a => exact ⟨a, rfl, h⟩

theorem of_check {α : Type v} {c : Prop} [Decidable c] {err : ε} {x : Except ε α} {a : α}
    (h : (if c then .error err else x) = .ok a) : ¬c ∧ x = .ok a := by
  split at h
  · cases h
  · rename_i hc
    exact ⟨hc, h⟩

theorem of_guard {α : Type u} {c : Prop} [Decidable c] {x : Option α} {a : α}
    (h : (if c then none else x) = some a) : ¬c ∧ x = some a := by
  split at h
  · cases h
  · rename_i hc
    exact ⟨hc, h⟩

def refuseIf {ε : Type u} (condition : Bool) (err : ε) : Except ε Unit :=
  if condition then .error err else .ok ()

theorem of_refuseIf {β : Type} {condition : Bool} {err : ε} {f : Unit → Except ε β} {b : β}
    (h : refuseIf condition err >>= f = .ok b) :
    condition = false ∧ f () = .ok b := by
  cases condition with
  | false => exact ⟨rfl, h⟩
  | true => cases h

variable {ε : Type u} {α : Type v} {β : Type w} {f : α → Except ε β} {results : List β} {l : List α}

theorem forall₂_of_mapM_ok (h : l.mapM f = .ok results) :
    List.Forall₂ (fun a b => f a = .ok b) l results := by
  induction l generalizing results with
  | nil =>
    obtain rfl := Except.ok.inj h
    exact .nil
  | cons a l ih =>
    rw [List.mapM_cons] at h
    obtain ⟨b, hfirst, h⟩ := exists_of_bind_ok h
    obtain ⟨bs, hrest, h⟩ := exists_of_bind_ok h
    obtain rfl := Except.ok.inj h
    exact .cons hfirst (ih hrest)

theorem exists_mapM_ok (h : ∀ a ∈ l, ∃ b, f a = .ok b) :
    ∃ results, l.mapM f = .ok results := by
  induction l with
  | nil => exact ⟨[], rfl⟩
  | cons a l ih =>
    obtain ⟨b, hfirst⟩ := h a List.mem_cons_self
    obtain ⟨results, hrest⟩ := ih fun other hother => h other (List.mem_cons_of_mem _ hother)
    refine ⟨b :: results, ?_⟩
    rw [List.mapM_cons, hfirst]
    rw [hrest]
    rfl

variable {R : α → β → Prop}

section

variable (h : List.Forall₂ R l results)
include h

theorem exists_left_of_forall₂ {b : β} (hb : b ∈ results) : ∃ a ∈ l, R a b := by
  induction h with
  | nil => cases hb
  | cons hfirst _ ih =>
    rcases List.mem_cons.mp hb with rfl | hrest
    · exact ⟨_, List.mem_cons_self, hfirst⟩
    · obtain ⟨a, ha, heq⟩ := ih hrest
      exact ⟨a, List.mem_cons_of_mem _ ha, heq⟩

theorem exists_right_of_forall₂ {a : α} (ha : a ∈ l) : ∃ b ∈ results, R a b :=
  exists_left_of_forall₂ h.flip ha

theorem find?_rel {p : α → Bool} {q : β → Bool} (hpq : ∀ a b, R a b → p a = q b) :
    Option.Rel R (l.find? p) (results.find? q) := by
  induction h with
  | nil => exact .none
  | cons hfirst _ ih =>
    rw [List.find?_cons, List.find?_cons, ← hpq _ _ hfirst]
    split
    · exact .some hfirst
    · exact ih

end

theorem exists_of_mem_mapM {b : β} (h : l.mapM f = .ok results) (hb : b ∈ results) :
    ∃ a ∈ l, f a = .ok b :=
  exists_left_of_forall₂ (forall₂_of_mapM_ok h) hb

theorem mem_mapM_of_mem {a : α} (h : l.mapM f = .ok results) (ha : a ∈ l) :
    ∃ b ∈ results, f a = .ok b :=
  exists_right_of_forall₂ (forall₂_of_mapM_ok h) ha

end AuroraGateway.Foundation
