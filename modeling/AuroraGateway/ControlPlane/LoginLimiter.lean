import AuroraGateway.Foundation.Bytes
import Mathlib.Logic.Function.Basic

/-!
# The limiter of logins

An address may try a login a number of times in a window.  An attempt looks at the times
that are younger than the window; a sweep cuts the older ones off the front.
-/

namespace AuroraGateway.ControlPlane

open Foundation

/-- The fields of a limiter that never change; times are in nanoseconds. -/
structure LoginRateLimiter where
  maxAttempts : Nat
  window : Int

abbrev LoginHistory := Bytes → Option (List Int)

inductive LoginAnswer where
  | next
  | tooManyRequests (retrySec : Int)
  deriving DecidableEq

namespace LoginRateLimiter

variable (l : LoginRateLimiter)

def cleanup (history : LoginHistory) (now : Int) : LoginHistory := fun ip =>
  (history ip).bind fun timestamps =>
    let timestamps := timestamps.dropWhile fun t => !decide (now - l.window < t)
    if timestamps.isEmpty then none else some timestamps

/-- The source counts the seconds in floating point, which may round the last microsecond up. -/
def retrySec : Int :=
  if l.window.tdiv 1000000000 ≤ 0 then 60 else l.window.tdiv 1000000000

def valid (history : LoginHistory) (ip : Bytes) (now : Int) : List Int :=
  ((history ip).getD []).filter fun t => now - l.window < t

def handler (history : LoginHistory) (ip : Bytes) (now : Int) : LoginHistory × LoginAnswer :=
  if l.maxAttempts ≤ (l.valid history ip now).length then
    (Function.update history ip (some (l.valid history ip now)), .tooManyRequests l.retrySec)
  else (Function.update history ip (some (l.valid history ip now ++ [now])), .next)

end LoginRateLimiter

/-! ## Runs -/

inductive LimiterEvent where
  | attempt (ip : Bytes) (now : Int)
  | sweep (now : Int)

def LimiterEvent.now : LimiterEvent → Int
  | .attempt _ now | .sweep now => now

structure LimiterState where
  history : LoginHistory
  admitted : Bytes → List Int

namespace LoginRateLimiter

variable (l : LoginRateLimiter)

def step (s : LimiterState) : LimiterEvent → LimiterState
  | .attempt ip now =>
    let (history, answer) := l.handler s.history ip now
    ⟨history, if answer = .next then Function.update s.admitted ip (s.admitted ip ++ [now])
      else s.admitted⟩
  | .sweep now => { s with history := l.cleanup s.history now }

def after (events : List LimiterEvent) : LimiterState :=
  events.foldl l.step ⟨fun _ => none, fun _ => []⟩

variable {l} {events : List LimiterEvent} {event : LimiterEvent} {ip other : Bytes} {now : Int}

theorem after_concat : l.after (events ++ [event]) = l.step (l.after events) event :=
  List.foldl_concat _ _ _ _

theorem step_attempt (s : LimiterState) :
    l.maxAttempts ≤ (l.valid s.history ip now).length ∧ l.step s (.attempt ip now) =
      ⟨Function.update s.history ip (some (l.valid s.history ip now)), s.admitted⟩ ∨
    (l.valid s.history ip now).length < l.maxAttempts ∧ l.step s (.attempt ip now) =
      ⟨Function.update s.history ip (some (l.valid s.history ip now ++ [now])),
        Function.update s.admitted ip (s.admitted ip ++ [now])⟩ := by
  unfold step handler
  by_cases hfull : l.maxAttempts ≤ (l.valid s.history ip now).length
  · exact .inl ⟨hfull, by simp [hfull]⟩
  · exact .inr ⟨not_le.mp hfull, by simp [hfull]⟩

theorem filter_dropWhile {α : Type*} {p q : α → Bool} (h : ∀ a, q a = true → p a = false)
    (as : List α) : (as.dropWhile q).filter p = as.filter p := by
  induction as with
  | nil => rfl
  | cons a as ih =>
    rw [List.dropWhile_cons]
    split
    · rw [ih, List.filter_cons_of_neg (by simp [h a ‹_›])]
    · rfl

theorem valid_cleanup {history : LoginHistory} {earlier : Int} (hle : earlier ≤ now) :
    l.valid (l.cleanup history earlier) ip now = l.valid history ip now := by
  have hkept : (l.cleanup history earlier ip).getD [] =
      ((history ip).getD []).dropWhile fun t => !decide (earlier - l.window < t) := by
    unfold cleanup
    cases history ip with
    | none => rfl
    | some timestamps =>
      dsimp only [Option.bind_some, Option.getD_some]
      split <;> simp_all
  rw [valid, hkept]
  refine filter_dropWhile (fun t ht => ?_) _
  simp only [Bool.not_eq_true', decide_eq_false_iff_not] at ht ⊢
  omega

theorem filter_valid {history : LoginHistory} {earlier : Int} (hle : earlier ≤ now) :
    (l.valid history ip earlier).filter (fun t => now - l.window < t) =
      l.valid history ip now := by
  rw [valid, List.filter_filter]
  refine List.filter_congr fun t _ => ?_
  simp only [Bool.and_eq_left_iff_imp, decide_eq_true_eq]
  omega

theorem valid_after (hnow : ∀ event ∈ events, event.now ≤ now) :
    l.valid (l.after events).history ip now =
      ((l.after events).admitted ip).filter fun t => now - l.window < t := by
  induction events using List.reverseRecOn with
  | nil => rfl
  | append_singleton events event ih =>
    have ih := ih fun event hevent => hnow event (List.mem_append_left _ hevent)
    have hlast := hnow event List.mem_concat_self
    rw [after_concat]
    cases event with
    | sweep earlier => exact (valid_cleanup hlast).trans ih
    | attempt other earlier =>
      change earlier ≤ now at hlast
      by_cases hip : ip = other
      · subst hip
        rcases l.step_attempt (l.after events) with ⟨-, hstep⟩ | ⟨-, hstep⟩ <;>
          rw [hstep] <;> dsimp only
        · rw [valid, Function.update_self, Option.getD_some, filter_valid hlast, ih]
        · rw [valid, Function.update_self, Option.getD_some, List.filter_append,
            filter_valid hlast, ih, Function.update_self, List.filter_append]
      · rcases l.step_attempt (l.after events) with ⟨-, hstep⟩ | ⟨-, hstep⟩ <;>
          rw [hstep] <;> dsimp only
        · rw [valid, Function.update_of_ne hip, ← valid, ih]
        · rw [valid, Function.update_of_ne hip, ← valid, ih, Function.update_of_ne hip]

theorem exists_event_of_admitted {t : Int} (h : t ∈ (l.after events).admitted ip) :
    ∃ event ∈ events, event.now = t := by
  induction events using List.reverseRecOn with
  | nil => cases h
  | append_singleton events event ih =>
    rw [after_concat] at h
    have hcases : t ∈ (l.after events).admitted ip ∨ event.now = t := by
      cases event with
      | sweep earlier => exact .inl h
      | attempt other earlier =>
        rcases l.step_attempt (l.after events) with ⟨-, hstep⟩ | ⟨-, hstep⟩ <;> rw [hstep] at h <;>
          dsimp only at h
        · exact .inl h
        · by_cases hip : ip = other
          · subst hip
            rw [Function.update_self, List.mem_append, List.mem_singleton] at h
            exact h.imp_right Eq.symm
          · rw [Function.update_of_ne hip] at h
            exact .inl h
    rcases hcases with hbefore | hnow
    · obtain ⟨event, hevent, ht⟩ := ih hbefore
      exact ⟨event, List.mem_append_left _ hevent, ht⟩
    · exact ⟨event, List.mem_concat_self, hnow⟩

/-- The induction splits off the last event.  If it is an attempt that is admitted, the earlier
ones in the interval are among those that it was compared with. -/
theorem length_filter_admitted {p : Int → Bool}
    (hp : ∀ t t', p t = true → p t' = true → t' - l.window < t)
    (hordered : events.Pairwise fun earlier later => earlier.now ≤ later.now) :
    (((l.after events).admitted ip).filter p).length ≤ l.maxAttempts := by
  induction events using List.reverseRecOn with
  | nil => exact Nat.zero_le _
  | append_singleton events event ih =>
    obtain ⟨hevents, -, hlast⟩ := List.pairwise_append.mp hordered
    have ih := ih hevents
    rw [after_concat]
    cases event with
    | sweep now => exact ih
    | attempt other now =>
      rcases l.step_attempt (l.after events) with ⟨-, hstep⟩ | ⟨hroom, hstep⟩ <;> rw [hstep] <;>
        dsimp only
      · exact ih
      · by_cases hnew : ip = other ∧ p now = true
        · obtain ⟨rfl, hnow⟩ := hnew
          have hearlier : ∀ event ∈ events, event.now ≤ now := fun event hevent =>
            hlast event hevent _ (List.mem_singleton.mpr rfl)
          have hfewer : (((l.after events).admitted ip).filter p).length ≤
              (((l.after events).admitted ip).filter fun t => now - l.window < t).length :=
            (List.monotone_filter_right _ fun t ht => by simpa using hp t now ht hnow).length_le
          rw [valid_after hearlier] at hroom
          rw [Function.update_self, List.filter_append, List.length_append,
            List.filter_cons_of_pos hnow]
          exact (Nat.add_le_add_right hfewer 1).trans hroom
        · by_cases hip : ip = other
          · subst hip
            rw [Function.update_self, List.filter_append,
              List.filter_cons_of_neg fun hnow => hnew ⟨rfl, hnow⟩, List.filter_nil,
              List.append_nil]
            exact ih
          · rw [Function.update_of_ne hip]
            exact ih

end LoginRateLimiter

structure LimiterRun where
  limiter : LoginRateLimiter
  events : List LimiterEvent
  ordered : events.Pairwise fun earlier later => earlier.now ≤ later.now

def sweptAttempts : LimiterRun where
  limiter := ⟨1, 60⟩
  events := [.attempt [] 0, .sweep 60, .attempt [] 60]
  ordered := by decide

/-- No interval of the length of the window has more than the most attempts of an address, and
an attempt is refused exactly if that many are in the window before it. -/
theorem LimiterRun.sliding_window (r : LimiterRun) (ip : Bytes) :
    (∀ start : Int,
      (((r.limiter.after r.events).admitted ip).filter fun t =>
        start ≤ t ∧ t < start + r.limiter.window).length ≤ r.limiter.maxAttempts ∧
      (((r.limiter.after r.events).admitted ip).filter fun t =>
        start < t ∧ t ≤ start + r.limiter.window).length ≤ r.limiter.maxAttempts) ∧
    ∀ before now after, r.events = before ++ .attempt ip now :: after →
      ((r.limiter.handler (r.limiter.after before).history ip now).2 ≠ .next ↔
        r.limiter.maxAttempts ≤ (((r.limiter.after before).admitted ip).filter fun t =>
          now - r.limiter.window < t ∧ t ≤ now).length) := by
  refine ⟨fun start => ⟨?_, ?_⟩, fun before now after hevents => ?_⟩
  · refine LoginRateLimiter.length_filter_admitted (fun t t' ht ht' => ?_) r.ordered
    simp only [decide_eq_true_eq] at ht ht'
    omega
  · refine LoginRateLimiter.length_filter_admitted (fun t t' ht ht' => ?_) r.ordered
    simp only [decide_eq_true_eq] at ht ht'
    omega
  · have hordered := r.ordered
    rw [hevents, List.pairwise_append] at hordered
    have hnow : ∀ event ∈ before, event.now ≤ now := fun event hevent =>
      hordered.2.2 event hevent _ List.mem_cons_self
    have hvalid : r.limiter.valid (r.limiter.after before).history ip now =
        ((r.limiter.after before).admitted ip).filter fun t =>
          now - r.limiter.window < t ∧ t ≤ now := by
      rw [LoginRateLimiter.valid_after hnow]
      refine List.filter_congr fun t ht => ?_
      obtain ⟨event, hevent, rfl⟩ := LoginRateLimiter.exists_event_of_admitted ht
      simp [hnow event hevent]
    rw [← hvalid, LoginRateLimiter.handler]
    split <;> rename_i hfull <;> simp [hfull]

def LimiterEvent.isAttempt : LimiterEvent → Bool
  | .attempt _ _ => true
  | .sweep _ => false

/-- The sweeps only free memory: without them the same attempts are admitted. -/
theorem LimiterRun.sweeps_unobservable (r : LimiterRun) :
    (r.limiter.after r.events).admitted =
      (r.limiter.after (r.events.filter LimiterEvent.isAttempt)).admitted := by
  obtain ⟨l, events, hordered⟩ := r
  dsimp only
  induction events using List.reverseRecOn with
  | nil => rfl
  | append_singleton events event ih =>
    obtain ⟨hevents, -, hlast⟩ := List.pairwise_append.mp hordered
    have ih := ih hevents
    rw [List.filter_append, LoginRateLimiter.after_concat]
    cases event with
    | sweep now =>
      rw [List.filter_cons_of_neg Bool.false_ne_true, List.filter_nil, List.append_nil]
      exact ih
    | attempt ip now =>
      rw [List.filter_cons_of_pos rfl, List.filter_nil, LoginRateLimiter.after_concat]
      have hnow : ∀ e ∈ events, e.now ≤ now := fun e he => hlast e he _ List.mem_cons_self
      -- Both histories tell of the same attempts within the window.
      have hvalid : l.valid (l.after events).history ip now =
          l.valid (l.after (events.filter LimiterEvent.isAttempt)).history ip now := by
        rw [LoginRateLimiter.valid_after hnow, ih, LoginRateLimiter.valid_after fun e he =>
          hnow e (List.mem_of_mem_filter he)]
      simp only [LoginRateLimiter.step, LoginRateLimiter.handler, hvalid, ih]
      split <;> rfl

end AuroraGateway.ControlPlane
