import Mathlib.Data.Option.Basic

/-!
# Runs of a transition system

A system is a partial step function on states and actions.  A run under a
condition takes only actions that meet it in the state they are taken in.
-/

namespace AuroraGateway.Foundation

universe u v

variable {σ : Type u} {α : Type v}

/-- Take the actions in order; `none` if one of them is not enabled. -/
def execute (step : σ → α → Option σ) : σ → List α → Option σ
  | s, [] => some s
  | s, a :: as => (step s a).bind fun t => execute step t as

inductive RunsUnder (step : σ → α → Option σ) (ok : σ → α → Prop) :
    σ → List α → σ → Prop where
  | nil (s : σ) : RunsUnder step ok s [] s
  | cons {s t u : σ} {a : α} {as : List α} (hok : ok s a) (hstep : step s a = some t)
      (hrest : RunsUnder step ok t as u) : RunsUnder step ok s (a :: as) u

namespace RunsUnder

variable {step : σ → α → Option σ} {ok : σ → α → Prop} {s t : σ} {as : List α}

theorem invariant {Inv : σ → Prop}
    (hstep : ∀ {s a t}, Inv s → ok s a → step s a = some t → Inv t)
    (hrun : RunsUnder step ok s as t) (hinit : Inv s) : Inv t := by
  induction hrun with
  | nil => exact hinit
  | cons hok hs _ ih => exact ih (hstep hinit hok hs)

theorem invariant_states {P : σ → Prop}
    (hstep : ∀ {s a t}, P s → ok s a → step s a = some t → P t)
    (hrun : RunsUnder step ok s as t) (hinit : P s) {before : List α} {u : σ}
    (hbefore : before <+: as) (hu : execute step s before = some u) : P u := by
  induction hrun generalizing before with
  | nil =>
    obtain rfl := List.prefix_nil.mp hbefore
    obtain rfl := Option.some.inj hu
    exact hinit
  | cons hok hs _ ih =>
    cases before with
    | nil =>
      obtain rfl := Option.some.inj hu
      exact hinit
    | cons b before =>
      obtain ⟨rfl, hprefix⟩ := List.cons_prefix_cons.mp hbefore
      rw [execute, hs] at hu
      exact ih (hstep hinit hok hs) hprefix hu

theorem execute_eq (hrun : RunsUnder step ok s as t) : execute step s as = some t := by
  induction hrun with
  | nil => rfl
  | cons _ hs _ ih => rw [execute, hs, Option.bind_some, ih]

theorem of_execute (h : execute step s as = some t) :
    RunsUnder step (fun _ _ => True) s as t := by
  induction as generalizing s with
  | nil =>
    cases h
    exact .nil _
  | cons a as ih =>
    obtain ⟨u, hstep, hrest⟩ := Option.bind_eq_some_iff.mp h
    exact .cons trivial hstep (ih hrest)

def check (step : σ → α → Option σ) (ok : σ → α → Prop) [∀ s a, Decidable (ok s a)] :
    σ → List α → Option σ
  | s, [] => some s
  | s, a :: as => if ok s a then (step s a).bind fun t => check step ok t as else none

theorem of_check [∀ s a, Decidable (ok s a)] (h : check step ok s as = some t) :
    RunsUnder step ok s as t := by
  induction as generalizing s with
  | nil =>
    cases h
    exact .nil _
  | cons a as ih =>
    by_cases hok : ok s a
    · rw [check, if_pos hok] at h
      obtain ⟨u, hstep, hrest⟩ := Option.bind_eq_some_iff.mp h
      exact .cons hok hstep (ih hrest)
    · simp [check, hok] at h

/-- If a step keeps the property exactly when it is admitted, and loses it only in states that
show, then the runs whose states show it are the runs under the condition. -/
theorem iff_of_shown {Inv Good Shown : σ → Prop}
    (hinv : ∀ {s a t}, Inv s → step s a = some t → Inv t)
    (hok : ∀ {s a t}, Inv s → Good s → step s a = some t → (ok s a ↔ Good t))
    (hshown : ∀ {s a t}, Inv s → Good s → step s a = some t → ¬Shown t → Good t)
    (hs : Inv s) (hgood : Good s) (hrun : execute step s as = some t) :
    RunsUnder step ok s as t ↔
      ∀ before u, before <+: as → execute step s before = some u → Shown u → Good u := by
  constructor
  · intro h before u hbefore hu _
    refine (h.invariant_states (P := fun s => Inv s ∧ Good s) ?_ ⟨hs, hgood⟩ hbefore hu).2
    exact fun hs hadmitted hstep =>
      ⟨hinv hs.1 hstep, (hok hs.1 hs.2 hstep).mp hadmitted⟩
  intro h
  induction as generalizing s with
  | nil =>
    obtain rfl := Option.some.inj hrun
    exact .nil s
  | cons a as ih =>
    obtain ⟨next, hstep, hrest⟩ := Option.bind_eq_some_iff.mp hrun
    have hnext : Good next := by
      by_cases hshow : Shown next
      · refine h [a] next (List.prefix_append [a] as) ?_ hshow
        rw [execute, hstep]
        rfl
      · exact hshown hs hgood hstep hshow
    refine .cons ((hok hs hgood hstep).mpr hnext) hstep ?_
    refine ih (hinv hs hstep) hnext hrest fun before u hbefore hu hshow => ?_
    refine h (a :: before) u (List.cons_prefix_cons.mpr ⟨rfl, hbefore⟩) ?_ hshow
    rw [execute, hstep]
    exact hu

/-- If a step keeps the property exactly when it is admitted, then the runs whose states all
have it are the runs under the condition. -/
theorem iff_forall_states {Inv Good : σ → Prop}
    (hinv : ∀ {s a t}, Inv s → step s a = some t → Inv t)
    (hok : ∀ {s a t}, Inv s → Good s → step s a = some t → (ok s a ↔ Good t))
    (hs : Inv s) (hgood : Good s) (hrun : execute step s as = some t) :
    RunsUnder step ok s as t ↔
      ∀ before u, before <+: as → execute step s before = some u → Good u := by
  have hshown : ∀ {s a t}, Inv s → Good s → step s a = some t → ¬True → Good t :=
    fun _ _ _ hfalse => absurd trivial hfalse
  rw [iff_of_shown hinv hok hshown hs hgood hrun]
  exact ⟨fun h before u hbefore hu => h before u hbefore hu trivial,
    fun h before u hbefore hu _ => h before u hbefore hu⟩

end RunsUnder

/-! ## Loops over distinct indices -/

section Loops

universe w

variable {β : Type w} {step : σ → α → σ} (view : σ → β) {a : α}

theorem foldl_frame {as : List α} (hframe : ∀ s, ∀ b ∈ as, view (step s b) = view s) (s : σ) :
    view (as.foldl step s) = view s := by
  induction as generalizing s with
  | nil => rfl
  | cons b as ih =>
    rw [List.foldl_cons, ih fun s c hc => hframe s c (List.mem_cons_of_mem _ hc)]
    exact hframe s b List.mem_cons_self

theorem foldl_once {f : β → β} (hself : ∀ s, view (step s a) = f (view s))
    (hother : ∀ s b, b ≠ a → view (step s b) = view s) {as : List α} (hnodup : as.Nodup)
    (hmem : a ∈ as) (s : σ) : view (as.foldl step s) = f (view s) := by
  obtain ⟨before, after, rfl⟩ := List.append_of_mem hmem
  obtain ⟨-, hafter, hbefore⟩ := List.nodup_append.mp hnodup
  rw [List.foldl_append, List.foldl_cons, foldl_frame view, hself, foldl_frame view]
  · intro s b hb
    exact hother s b (hbefore b hb a List.mem_cons_self)
  · intro s b hb
    refine hother s b ?_
    rintro rfl
    exact (List.nodup_cons.mp hafter).1 hb

end Loops

end AuroraGateway.Foundation
