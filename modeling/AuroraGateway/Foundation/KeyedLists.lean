import Mathlib.Data.List.Nodup
import Mathlib.Order.Lattice

/-!
# Lists with a key

Two ways to enter items under a key into a list: an item gives way to one that
is there already, or it takes its place.
-/

namespace AuroraGateway.Foundation

universe u v w

section Keyed

variable {α : Type u} {κ : Type v} [DecidableEq κ] (key : α → κ)

def pushNew (items : List α) (a : α) : List α :=
  if items.any fun b => key b = key a then items else items ++ [a]

def upsert : List α → α → List α
  | [], a => [a]
  | b :: rest, a => if key b = key a then a :: rest else b :: upsert rest a

/-- Append the item, or put it in the place of the one under its key if it replaces that. -/
def upsertIf (replaces : α → α → Bool) : List α → α → List α
  | [], a => [a]
  | b :: rest, a =>
    if key b = key a then (if replaces a b then a else b) :: rest
    else b :: upsertIf replaces rest a

def firstOfKey : List κ → List α → List α
  | _, [] => []
  | seen, a :: rest =>
    if key a ∈ seen then firstOfKey seen rest else a :: firstOfKey (key a :: seen) rest

variable {key}

theorem firstOfKey_congr {seen seen' : List κ} (h : ∀ k, k ∈ seen ↔ k ∈ seen') (items : List α) :
    firstOfKey key seen items = firstOfKey key seen' items := by
  induction items generalizing seen seen' with
  | nil => rfl
  | cons a rest ih =>
    rw [firstOfKey, firstOfKey]
    by_cases hseen : key a ∈ seen
    · rw [if_pos hseen, if_pos ((h _).mp hseen), ih h]
    · rw [if_neg hseen, if_neg fun hseen' => hseen ((h _).mpr hseen')]
      congr 1
      refine ih fun k => ?_
      rw [List.mem_cons, List.mem_cons, h k]

theorem foldl_pushNew (items new : List α) :
    new.foldl (pushNew key) items = items ++ firstOfKey key (items.map key) new := by
  induction new generalizing items with
  | nil => simp [firstOfKey]
  | cons a rest ih =>
    rw [List.foldl_cons, ih, firstOfKey, pushNew]
    have hany : (items.any fun b => key b = key a) = true ↔ key a ∈ items.map key := by
      simp only [List.any_eq_true, decide_eq_true_eq, List.mem_map]
    by_cases hseen : key a ∈ items.map key
    · rw [if_pos (hany.mpr hseen), if_pos hseen]
    · rw [if_neg fun h => hseen (hany.mp h), if_neg hseen, List.append_assoc]
      congr 1
      rw [List.singleton_append]
      congr 1
      refine firstOfKey_congr (fun k => ?_) rest
      simp [or_comm]

theorem filter_firstOfKey (seen : List κ) (items : List α) (k : κ) :
    (firstOfKey key seen items).filter (fun a => key a = k) =
      if k ∈ seen then [] else (items.find? fun a => key a = k).toList := by
  induction items generalizing seen with
  | nil => simp [firstOfKey]
  | cons a rest ih =>
    rw [firstOfKey]
    by_cases hk : key a = k
    · subst hk
      by_cases hseen : key a ∈ seen
      · rw [if_pos hseen, ih, if_pos hseen, if_pos hseen]
      · rw [if_neg hseen, if_neg hseen, List.filter_cons, ih]
        simp
    · rw [List.find?_cons_of_neg (by simpa using hk)]
      split
      · exact ih seen
      · rw [List.filter_cons, if_neg (by simpa using hk), ih]
        simp [Ne.symm hk]

theorem find?_key_of_mem {items : List α} (hnodup : (items.map key).Nodup) {a : α}
    (h : a ∈ items) : (items.find? fun b => key b = key a) = some a := by
  cases hfind : items.find? fun b => key b = key a with
  | none =>
    have hne := List.find?_eq_none.mp hfind a h
    simp at hne
  | some found =>
    have hkey : key found = key a := by simpa using List.find?_some hfind
    rw [List.inj_on_of_nodup_map hnodup (List.mem_of_find?_eq_some hfind) h hkey]

theorem find?_upsert (items : List α) (a : α) (k : κ) :
    (upsert key items a).find? (fun b => key b = k) =
      if key a = k then some a else items.find? fun b => key b = k := by
  induction items with
  | nil => by_cases hk : key a = k <;> simp [upsert, hk]
  | cons b rest ih =>
    rw [upsert]
    by_cases hsame : key b = key a
    · rw [if_pos hsame]
      by_cases hk : key a = k
      · simp [hk]
      · rw [if_neg hk, List.find?_cons_of_neg (by simpa using hk),
          List.find?_cons_of_neg (by simpa [hsame] using hk)]
    · rw [if_neg hsame]
      by_cases hb : key b = k
      · have hk : ¬key a = k := fun hk => hsame (hb.trans hk.symm)
        rw [List.find?_cons_of_pos (by simpa using hb), if_neg hk,
          List.find?_cons_of_pos (by simpa using hb)]
      · rw [List.find?_cons_of_neg (by simpa using hb), ih,
          List.find?_cons_of_neg (by simpa using hb)]

theorem find?_foldl_upsert (items new : List α) (k : κ) :
    (new.foldl (upsert key) items).find? (fun b => key b = k) =
      ((new.filter fun a => key a = k).getLast?).or (items.find? fun b => key b = k) := by
  induction new generalizing items with
  | nil => rfl
  | cons a rest ih =>
    rw [List.foldl_cons, ih, find?_upsert, List.filter_cons]
    by_cases hk : key a = k
    · rw [if_pos hk, if_pos (by simpa using hk), List.getLast?_cons]
      cases (rest.filter fun a => key a = k).getLast? <;> rfl
    · rw [if_neg hk, if_neg (by simpa using hk)]

def better (replaces : α → α → Bool) (best : Option α) (a : α) : Option α :=
  some (best.elim a fun b => if replaces a b then a else b)

theorem find?_upsertIf (replaces : α → α → Bool) (items : List α) (a : α) (k : κ) :
    (upsertIf key replaces items a).find? (fun b => key b = k) =
      if key a = k then better replaces (items.find? fun b => key b = k) a
      else items.find? fun b => key b = k := by
  induction items with
  | nil => by_cases hk : key a = k <;> simp [upsertIf, better, hk]
  | cons b rest ih =>
    rw [upsertIf]
    by_cases hsame : key b = key a
    · rw [if_pos hsame]
      by_cases hk : key a = k
      · have hb : key b = k := hsame.trans hk
        by_cases hreplaces : replaces a b = true <;> simp [better, hk, hb, hreplaces]
      · have hb : ¬key b = k := fun hb => hk (hsame ▸ hb)
        by_cases hreplaces : replaces a b = true <;> simp [hk, hb, hreplaces]
    · rw [if_neg hsame]
      by_cases hb : key b = k
      · have hk : ¬key a = k := fun hk => hsame (hb.trans hk.symm)
        simp [hb, hk]
      · rw [List.find?_cons_of_neg (by simpa using hb), ih,
          List.find?_cons_of_neg (by simpa using hb)]

theorem find?_foldl_upsertIf (replaces : α → α → Bool) (items new : List α) (k : κ) :
    (new.foldl (upsertIf key replaces) items).find? (fun b => key b = k) =
      (new.filter fun a => key a = k).foldl (better replaces)
        (items.find? fun b => key b = k) := by
  induction new generalizing items with
  | nil => rfl
  | cons a rest ih =>
    rw [List.foldl_cons, ih, find?_upsertIf, List.filter_cons]
    by_cases hk : key a = k
    · rw [if_pos hk, if_pos (by simpa using hk), List.foldl_cons]
    · rw [if_neg hk, if_neg (by simpa using hk)]

end Keyed

/-! ## Items with something attached -/

section Attached

variable {α : Type u} {β : Type w} {κ : Type v} [DecidableEq κ] (key : α → κ) (f : β → α)

theorem map_upsert (items : List β) (b : β) :
    (upsert (fun b => key (f b)) items b).map f = upsert key (items.map f) (f b) := by
  induction items with
  | nil => rfl
  | cons c rest ih =>
    rw [upsert, List.map_cons, upsert]
    split
    · rfl
    · rw [List.map_cons, ih]

theorem map_upsertIf (replaces : α → α → Bool) (items : List β) (b : β) :
    (upsertIf (fun b => key (f b)) (fun b c => replaces (f b) (f c)) items b).map f =
      upsertIf key replaces (items.map f) (f b) := by
  induction items with
  | nil => rfl
  | cons c rest ih =>
    rw [upsertIf, List.map_cons, upsertIf]
    split
    · rw [List.map_cons, apply_ite f]
    · rw [List.map_cons, ih]

theorem map_pushNew (items : List β) (b : β) :
    (pushNew (fun b => key (f b)) items b).map f = pushNew key (items.map f) (f b) := by
  unfold pushNew
  rw [List.any_map, apply_ite (List.map f), List.map_append]
  rfl

theorem map_foldl {step : List β → β → List β} {step' : List α → α → List α}
    (hstep : ∀ items b, (step items b).map f = step' (items.map f) (f b)) (new items : List β) :
    (new.foldl step items).map f = (new.map f).foldl step' (items.map f) := by
  induction new generalizing items with
  | nil => rfl
  | cons b rest ih => rw [List.foldl_cons, ih, hstep, List.map_cons, List.foldl_cons]

end Attached

theorem exists_find?_flatMap {α : Type u} {β : Type w} {g : β → List α}
    {p : α × Option β → Bool} {q : β → Bool} (hp : ∀ b, ∀ a ∈ g b, p (a, some b) = q b)
    (l : List β) (b : β) :
    (∃ a, (l.flatMap fun b => (g b).map fun a => (a, some b)).find? p = some (a, some b)) ↔
      l.find? (fun b => q b && !(g b).isEmpty) = some b := by
  induction l with
  | nil => simp
  | cons c rest ih =>
    rw [List.flatMap_cons, List.find?_append, List.find?_cons]
    have hall : ∀ entry ∈ (g c).map fun a => (a, some c), p entry = q c := by
      intro entry hentry
      obtain ⟨a, ha, rfl⟩ := List.mem_map.mp hentry
      exact hp c a ha
    cases hq : q c with
    | false =>
      have hnone : ((g c).map fun a => (a, some c)).find? p = none := by
        rw [List.find?_eq_none]
        intro entry hentry
        simp [hall entry hentry, hq]
      rw [hnone, Option.none_or, ih]
      simp
    | true =>
      cases hg : g c with
      | nil => simpa using ih
      | cons a as =>
        have hpa : p (a, some c) = true := (hp c a (by simp [hg])).trans hq
        simp [hpa]

/-! ## The best item -/

section Best

variable {α : Type u} {κ : Type v} [LinearOrder κ] {rank : α → κ} {r : α → α → Prop}

/-- The item ranks above all others, or comes before those of its rank. -/
def Leads (rank : α → κ) (r : α → α → Prop) (l : List α) (a : α) : Prop :=
  a ∈ l ∧ ∀ b ∈ l, b ≠ a → rank b < rank a ∨ rank b = rank a ∧ r a b

theorem Leads.unique (hasymm : ∀ a b, r a b → ¬r b a) {l : List α} {a b : α}
    (ha : Leads rank r l a) (hb : Leads rank r l b) : a = b := by
  by_contra hne
  rcases ha.2 b hb.1 (Ne.symm hne) with hlt | ⟨heq, hab⟩
  · rcases hb.2 a ha.1 hne with hlt' | ⟨heq', -⟩
    · exact lt_asymm hlt hlt'
    · exact hlt.ne' heq'
  · rcases hb.2 a ha.1 hne with hlt' | ⟨-, hba⟩
    · exact hlt'.ne' heq
    · exact hasymm a b hab hba

def outranks (rank : α → κ) (a b : α) : Bool := decide (rank b < rank a)

theorem leads_foldl_better (hasymm : ∀ a b, r a b → ¬r b a) {l : List α} {a : α}
    (h : (a :: l).Pairwise r) :
    ∃ best, l.foldl (better (outranks rank)) (some a) = some best ∧
      Leads rank r (a :: l) best := by
  induction l generalizing a with
  | nil => exact ⟨a, rfl, List.mem_cons_self, fun b hb hne => absurd (List.mem_singleton.mp hb) hne⟩
  | cons b l ih =>
    obtain ⟨hab, hrest⟩ := List.pairwise_cons.mp h
    by_cases hlt : rank a < rank b
    · obtain ⟨best, hfold, hmem, hbest⟩ := ih hrest
      refine ⟨best, ?_, List.mem_cons_of_mem _ hmem, fun c hc hne => ?_⟩
      · simpa [better, outranks, hlt] using hfold
      · rcases List.mem_cons.mp hc with rfl | hc
        · refine .inl (hlt.trans_le ?_)
          by_cases hb : b = best
          · rw [hb]
          · rcases hbest b List.mem_cons_self hb with h | h
            · exact h.le
            · exact h.1.le
        · exact hbest c hc hne
    · have hpair : (a :: l).Pairwise r :=
        List.pairwise_cons.mpr ⟨fun c hc => hab c (List.mem_cons_of_mem _ hc),
          (List.pairwise_cons.mp hrest).2⟩
      obtain ⟨best, hfold, hmem, hbest⟩ := ih hpair
      refine ⟨best, ?_, ?_, fun c hc hne => ?_⟩
      · simpa [better, outranks, hlt] using hfold
      · rcases List.mem_cons.mp hmem with rfl | hmem
        · exact List.mem_cons_self
        · exact List.mem_cons_of_mem _ (List.mem_cons_of_mem _ hmem)
      · rcases List.mem_cons.mp hc with rfl | hc
        · exact hbest c List.mem_cons_self hne
        · rcases List.mem_cons.mp hc with rfl | hc
          · -- `c` did not replace `a`, so it cannot rank above the best either.
            by_cases ha : a = best
            · subst ha
              exact (lt_or_eq_of_le (not_lt.mp hlt)).imp_right fun heq =>
                ⟨heq, hab c List.mem_cons_self⟩
            · rcases hbest a List.mem_cons_self ha with hlt' | ⟨heq, hr⟩
              · exact .inl ((not_lt.mp hlt).trans_lt hlt')
              · have hbefore := (List.pairwise_cons.mp hpair).1 best
                  ((List.mem_cons.mp hmem).resolve_left (Ne.symm ha))
                exact absurd hbefore (hasymm _ _ hr)
          · exact hbest c (List.mem_cons_of_mem _ hc) hne

theorem foldl_better_eq_some_iff (hasymm : ∀ a b, r a b → ¬r b a) {l : List α}
    (h : l.Pairwise r) {a : α} :
    l.foldl (better (outranks rank)) none = some a ↔ Leads rank r l a := by
  cases l with
  | nil => simp [Leads]
  | cons first rest =>
    obtain ⟨best, hfold, hleads⟩ := @leads_foldl_better α κ _ rank r hasymm rest first h
    constructor
    · intro ha
      obtain rfl := Option.some.inj (hfold.symm.trans ha)
      exact hleads
    · intro ha
      rw [ha.unique hasymm hleads]
      exact hfold

end Best

end AuroraGateway.Foundation
