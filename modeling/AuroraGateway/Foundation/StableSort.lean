import Mathlib.Data.List.Sort

/-!
# Stable sorting by a key

A list sorted by a key is determined by its sublists of equal key.  This is
what stability means, and it is how two differently computed orders are shown
to be the same one below.
-/

namespace AuroraGateway.Foundation

universe u v w

theorem eq_or_rel_of_find? {α : Type u} {r : α → α → Prop} {l : List α} (h : l.Pairwise r)
    {p : α → Bool} {a b : α} (hfind : l.find? p = some a) (hb : b ∈ l) (hp : p b = true) :
    b = a ∨ r a b := by
  obtain ⟨-, before, after, rfl, hbefore⟩ := List.find?_eq_some_iff_append.mp hfind
  rcases List.mem_append.mp hb with hb | hb
  · exact absurd hp (by simpa using hbefore b hb)
  · rcases List.mem_cons.mp hb with rfl | hb
    · exact .inl rfl
    · exact .inr (List.rel_of_pairwise_cons (List.pairwise_append.mp h).2.1 hb)

section SortByKey

variable {α : Type u} {κ : Type v} [LinearOrder κ] (key : α → κ)

/-- `slice::sort_by_key`, which is stable. -/
def sortByKey (l : List α) : List α :=
  l.insertionSort fun a b => key a ≤ key b

private instance keyOrderTotal : Std.Total fun a b : α => key a ≤ key b :=
  ⟨fun a b => le_total (key a) (key b)⟩

private instance keyOrderTrans : IsTrans α fun a b => key a ≤ key b :=
  ⟨fun _ _ _ hab hbc => hab.trans hbc⟩

theorem sortByKey_perm (l : List α) : (sortByKey key l).Perm l :=
  List.perm_insertionSort _ l

variable {l : List α}

@[simp] theorem mem_sortByKey {a : α} :
    a ∈ sortByKey key l ↔ a ∈ l :=
  (sortByKey_perm key l).mem_iff

theorem sortByKey_pairwise (l : List α) :
    (sortByKey key l).Pairwise fun a b => key a ≤ key b :=
  List.pairwise_insertionSort _ l

theorem sortByKey_eq_iff_perm {key : α → κ} (hkey : Function.Injective key) {l₁ l₂ : List α} :
    sortByKey key l₁ = sortByKey key l₂ ↔ l₁.Perm l₂ := by
  constructor
  · intro h
    exact (sortByKey_perm key l₁).symm.trans (h ▸ sortByKey_perm key l₂)
  · intro h
    refine List.Perm.eq_of_pairwise ?_ (sortByKey_pairwise key l₁) (sortByKey_pairwise key l₂)
      ((sortByKey_perm key l₁).trans (h.trans (sortByKey_perm key l₂).symm))
    intro a b _ _ hab hba
    exact hkey (le_antisymm hab hba)

theorem key_le_of_find?_sortByKey {p : α → Bool} {a b : α}
    (hfind : (sortByKey key l).find? p = some a) (hb : b ∈ l) (hp : p b = true) :
    key a ≤ key b := by
  rcases eq_or_rel_of_find? (sortByKey_pairwise key l) hfind ((mem_sortByKey key).mpr hb) hp with
    rfl | hle
  · exact le_rfl
  · exact hle

theorem filter_sortByKey (l : List α) (k : κ) :
    (sortByKey key l).filter (fun a => key a = k) =
      l.filter fun a => key a = k := by
  have hsorted : (l.filter fun a => key a = k).Pairwise
      fun a b => key a ≤ key b := by
    rw [List.pairwise_iff_forall_sublist]
    intro a b hab
    have ha := List.of_mem_filter (hab.subset (by simp : a ∈ [a, b]))
    have hb := List.of_mem_filter (hab.subset (by simp : b ∈ [a, b]))
    simp only [decide_eq_true_eq] at ha hb
    exact le_of_eq (ha.trans hb.symm)
  have hsub : (l.filter fun a => key a = k).Sublist (sortByKey key l) :=
    List.sublist_insertionSort hsorted List.filter_sublist
  have hfilter := hsub.filter fun a => key a = k
  rw [List.filter_filter] at hfilter
  simp only [Bool.and_self] at hfilter
  refine (hfilter.eq_of_length ?_).symm
  exact ((sortByKey_perm key l).filter _).length_eq.symm

theorem getLast?_sortByKey {k : κ} (hle : ∀ a ∈ l, key a ≤ k) (hmem : ∃ a ∈ l, key a = k) :
    (sortByKey key l).getLast? = (l.filter fun a => key a = k).getLast? := by
  obtain ⟨a, ha, hkey⟩ := hmem
  have hmem : a ∈ sortByKey key l := (mem_sortByKey key).mpr ha
  obtain ⟨before, last, hsplit⟩ : ∃ before last, sortByKey key l = before ++ [last] :=
    ⟨_, _, (List.dropLast_append_getLast (List.ne_nil_of_mem hmem)).symm⟩
  have hlast : key last = k := by
    refine le_antisymm (hle last ((mem_sortByKey key).mp (by simp [hsplit]))) ?_
    have hsorted := sortByKey_pairwise key l
    rw [hsplit] at hsorted hmem
    rcases List.mem_append.mp hmem with hbefore | hself
    · exact hkey ▸ (List.pairwise_append.mp hsorted).2.2 a hbefore last (by simp)
    · exact hkey ▸ le_of_eq (congrArg key (List.mem_singleton.mp hself))
  rw [← filter_sortByKey, hsplit]
  simp [hlast]

theorem eq_of_pairwise_of_filter_eq {l₁ l₂ : List α}
    (h₁ : l₁.Pairwise fun a b => key a ≤ key b)
    (h₂ : l₂.Pairwise fun a b => key a ≤ key b)
    (hfilter : ∀ k, l₁.filter (fun a => key a = k) =
      l₂.filter fun a => key a = k) :
    l₁ = l₂ := by
  induction l₁ generalizing l₂ with
  | nil =>
    cases l₂ with
    | nil => rfl
    | cons b t₂ =>
      have := hfilter (key b)
      simp at this
  | cons a t₁ ih =>
    cases l₂ with
    | nil =>
      have := hfilter (key a)
      simp at this
    | cons b t₂ =>
      have mem_iff : ∀ c, c ∈ a :: t₁ ↔ c ∈ b :: t₂ := by
        intro c
        have hc := congrArg (fun l => c ∈ l) (hfilter (key c))
        simpa using hc
      have hab : key a ≤ key b := by
        rcases List.mem_cons.mp ((mem_iff b).mpr (by simp)) with h | h
        · exact le_of_eq (congrArg key h.symm)
        · exact List.rel_of_pairwise_cons h₁ h
      have hba : key b ≤ key a := by
        rcases List.mem_cons.mp ((mem_iff a).mp (by simp)) with h | h
        · exact le_of_eq (congrArg key h.symm)
        · exact List.rel_of_pairwise_cons h₂ h
      have hkey : key b = key a := le_antisymm hba hab
      have hhead := hfilter (key a)
      simp only [List.filter_cons, decide_true, hkey, if_true,
        List.cons.injEq] at hhead
      obtain ⟨rfl, -⟩ := hhead
      congr 1
      refine ih h₁.of_cons h₂.of_cons ?_
      intro k
      have := hfilter k
      by_cases hk : key a = k <;> simpa [hk] using this

theorem eq_sortByKey {l' : List α} (hsorted : l'.Pairwise fun a b => key a ≤ key b)
    (hfilter : ∀ k, l'.filter (fun a => key a = k) = l.filter fun a => key a = k) :
    l' = sortByKey key l :=
  eq_of_pairwise_of_filter_eq key hsorted (sortByKey_pairwise key l)
    fun k => (hfilter k).trans (filter_sortByKey key l k).symm

theorem map_sortByKey {β : Type w} (f : β → α) (l : List β) :
    (sortByKey (fun b => key (f b)) l).map f = sortByKey key (l.map f) :=
  List.map_insertionSort _ _ f l fun _ _ _ _ => Iff.rfl

theorem sortByKey_pairwise_lex {r : α → α → Prop} (h : l.Pairwise r) :
    (sortByKey key l).Pairwise fun a b => key a < key b ∨ key a = key b ∧ r a b := by
  rw [List.pairwise_iff_forall_sublist]
  intro a b hab
  rcases (List.pairwise_iff_forall_sublist.mp (sortByKey_pairwise key l) hab).lt_or_eq with
    hlt | heq
  · exact .inl hlt
  · refine .inr ⟨heq, List.pairwise_iff_forall_sublist.mp h ?_⟩
    have hfilter := hab.filter fun c => decide (key c = key b)
    rw [filter_sortByKey] at hfilter
    simp only [heq, decide_true, List.filter_cons_of_pos, List.filter_nil] at hfilter
    exact hfilter.trans List.filter_sublist

end SortByKey

/-! ## The ends of an ordered list -/

section Ends

variable {α : Type u} {r : α → α → Prop} {l : List α} {a : α}

theorem head?_eq_some_iff (h : l.Pairwise r) (hasymm : ∀ a b, r a b → ¬r b a) :
    l.head? = some a ↔ a ∈ l ∧ ∀ b ∈ l, b ≠ a → r a b := by
  cases l with
  | nil => simp
  | cons first rest =>
    obtain ⟨hfirst, -⟩ := List.pairwise_cons.mp h
    rw [List.head?_cons, Option.some.injEq]
    constructor
    · rintro rfl
      refine ⟨List.mem_cons_self, fun b hb hne => hfirst b ?_⟩
      exact (List.mem_cons.mp hb).resolve_left hne
    · rintro ⟨hmem, hothers⟩
      by_contra hne
      have hrest : a ∈ rest := (List.mem_cons.mp hmem).resolve_left (Ne.symm hne)
      exact hasymm _ _ (hfirst a hrest) (hothers first List.mem_cons_self hne)

theorem getLast?_eq_some_iff (h : l.Pairwise r) (hasymm : ∀ a b, r a b → ¬r b a) :
    l.getLast? = some a ↔ a ∈ l ∧ ∀ b ∈ l, b ≠ a → r b a := by
  rw [← List.head?_reverse, head?_eq_some_iff (List.pairwise_reverse.mpr h)
    fun a b hab hba => hasymm _ _ hab hba]
  simp

end Ends

end AuroraGateway.Foundation
