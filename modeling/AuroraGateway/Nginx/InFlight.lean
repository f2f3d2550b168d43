import AuroraGateway.Foundation.MachineInt
import AuroraGateway.Foundation.Runs
import Mathlib.Algebra.Order.Group.Nat
import Mathlib.Data.List.Basic

/-!
# Requests in flight

The access handler raises a gauge once for every context of a request, and the
log handler lowers it if the context of the request says so.  The host clears
the context when it redirects a request internally; what the request added to
the gauge is then never taken off.
-/

namespace AuroraGateway.Nginx

open Foundation

/-! ## The gauge -/

structure CoreLocalMetrics where
  inFlightRequests : Nat
  deriving DecidableEq

namespace CoreLocalMetrics

def new : CoreLocalMetrics := ⟨0⟩

def enterRequest (m : CoreLocalMetrics) : CoreLocalMetrics := ⟨wrapU64 (m.inFlightRequests + 1)⟩

def leaveRequest (m : CoreLocalMetrics) : CoreLocalMetrics := ⟨m.inFlightRequests - 1⟩

def currentInFlight (m : CoreLocalMetrics) : Nat := m.inFlightRequests

end CoreLocalMetrics

structure Metrics where
  localMetrics : CoreLocalMetrics
  globalMetrics : CoreLocalMetrics
  deriving DecidableEq

namespace Metrics

def inFlightEnter (m : Metrics) : Metrics :=
  ⟨m.localMetrics.enterRequest, m.globalMetrics.enterRequest⟩

def inFlightLeave (m : Metrics) : Metrics :=
  ⟨m.localMetrics.leaveRequest, m.globalMetrics.leaveRequest⟩

def getInFlight (m : Metrics) : Nat := m.globalMetrics.currentInFlight

end Metrics

/-! ## The handlers -/

structure GaugeCtx where
  evaluated : Bool
  inFlightEntered : Bool
  deriving DecidableEq

/-- The access handler, up to the call of the access phase; `allocated` says whether the pool of
the request has room for a context. -/
def gatewayHandler (enabled allocated : Bool) (ctx : Option GaugeCtx) (metrics : Metrics) :
    Option GaugeCtx × Metrics :=
  if !enabled then (ctx, metrics)
  else if ctx.any GaugeCtx.evaluated then (ctx, metrics)
  else
    match ctx.or (if allocated then some ⟨false, false⟩ else none) with
    | none => (none, metrics)
    | some ctx =>
      if !ctx.inFlightEntered then (some ⟨true, true⟩, metrics.inFlightEnter)
      else (some { ctx with evaluated := true }, metrics)

def gatewayLogHandler (ctx : Option GaugeCtx) (metrics : Metrics) : Option GaugeCtx × Metrics :=
  match ctx with
  | some ctx =>
    if ctx.inFlightEntered then
      (some { ctx with inFlightEntered := false }, metrics.inFlightLeave)
    else (some ctx, metrics)
  | none => (none, metrics)

/-! ## Runs of a worker -/

/-- A request: its context, whether it has passed the access handler of an enabled location, and
whether its log handler has run. -/
structure GaugeRequest where
  ctx : Option GaugeCtx
  passed : Bool
  ended : Bool
  deriving DecidableEq

def GaugeRequest.inFlight (r : GaugeRequest) : Bool := r.passed && !r.ended

structure Worker where
  metrics : Metrics
  requests : List GaugeRequest
  deriving DecidableEq

inductive GaugeEvent where
  | arrive
  | access (i : Nat) (enabled allocated : Bool)
  /-- The host clears the contexts of the request. -/
  | redirect (i : Nat)
  | log (i : Nat)

namespace Worker

def initial : Worker := ⟨⟨.new, .new⟩, []⟩

variable (w : Worker)

def live (i : Nat) : Option GaugeRequest :=
  w.requests[i]?.filter fun r => !r.ended

def update (i : Nat) (r : GaugeRequest) (metrics : Metrics) : Worker :=
  ⟨metrics, w.requests.set i r⟩

def step : GaugeEvent → Option Worker
  | .arrive => some { w with requests := w.requests ++ [⟨none, false, false⟩] }
  | .access i enabled allocated =>
    (w.live i).map fun r =>
      let (ctx, metrics) := gatewayHandler enabled allocated r.ctx w.metrics
      w.update i { r with ctx := ctx, passed := r.passed || (enabled && ctx.isSome) } metrics
  | .redirect i => (w.live i).map fun r => w.update i { r with ctx := none } w.metrics
  | .log i =>
    (w.live i).map fun r =>
      let (ctx, metrics) := gatewayLogHandler r.ctx w.metrics
      w.update i { r with ctx := ctx, ended := true } metrics

def inFlight : Nat := w.requests.countP GaugeRequest.inFlight

def GaugeRight : Prop := w.metrics.getInFlight = w.inFlight

end Worker

/-! ## Steps -/

namespace Worker

variable {w t : Worker} {i : Nat} {r : GaugeRequest}

def Each (w : Worker) (P : GaugeRequest → Prop) : Prop :=
  ∀ r ∈ w.requests, r.ended = false → P r

/-- A context exists only after the handler has raised the gauge for it. -/
def Tracked (w : Worker) : Prop :=
  w.Each fun r => r.ctx = none ∨ r.ctx = some ⟨true, true⟩ ∧ r.passed = true

def Whole (w : Worker) : Prop := w.Each fun r => r.passed = true → r.ctx ≠ none

theorem live_iff : w.live i = some r ↔ w.requests[i]? = some r ∧ r.ended = false := by
  simp [live, Option.filter_eq_some_iff]

variable {P : GaugeRequest → Prop} {event : GaugeEvent}

theorem Each.of_live (h : w.Each P) (hlive : w.live i = some r) :
    P r := by
  obtain ⟨hget, hended⟩ := live_iff.mp hlive
  exact h r (List.mem_of_getElem? hget) hended

theorem Each.update (h : w.Each P) {r' : GaugeRequest}
    {metrics : Metrics} (hr : r'.ended = false → P r') : (w.update i r' metrics).Each P := by
  intro other hother hended
  rcases List.mem_or_eq_of_mem_set hother with hmem | rfl
  · exact h other hmem hended
  · exact hr hended

theorem Each.arrive (h : w.Each P) (hnew : P ⟨none, false, false⟩) :
    ({ w with requests := w.requests ++ [⟨none, false, false⟩] } : Worker).Each P := by
  intro r hr hended
  rcases List.mem_append.mp hr with hmem | hmem
  · exact h r hmem hended
  · rw [List.mem_singleton.mp hmem]
    exact hnew

theorem update_self (hlive : w.live i = some r) : w.update i r w.metrics = w := by
  obtain ⟨hget, -⟩ := live_iff.mp hlive
  obtain ⟨hlt, rfl⟩ := List.getElem?_eq_some_iff.mp hget
  simp [update]

inductive Outcome (w : Worker) : GaugeEvent → Worker → Prop where
  | arrive : Outcome w .arrive { w with requests := w.requests ++ [⟨none, false, false⟩] }
  | unchanged {i : Nat} {enabled allocated : Bool}
      (hkept : ∀ r, w.live i = some r → r.passed = false → enabled = true → allocated = false) :
      Outcome w (.access i enabled allocated) w
  | entered {i : Nat} {r : GaugeRequest} (hlive : w.live i = some r) (hctx : r.ctx = none) :
      Outcome w (.access i true true)
        (w.update i { r with ctx := some ⟨true, true⟩, passed := true } w.metrics.inFlightEnter)
  | redirect {i : Nat} {r : GaugeRequest} (hlive : w.live i = some r) :
      Outcome w (.redirect i) (w.update i { r with ctx := none } w.metrics)
  | logBare {i : Nat} {r : GaugeRequest} (hlive : w.live i = some r) (hctx : r.ctx = none) :
      Outcome w (.log i) (w.update i { r with ended := true } w.metrics)
  | logEntered {i : Nat} {r : GaugeRequest} (hlive : w.live i = some r)
      (hctx : r.ctx = some ⟨true, true⟩) (hpassed : r.passed = true) :
      Outcome w (.log i) (w.update i { r with ctx := some ⟨true, false⟩, ended := true }
        w.metrics.inFlightLeave)

theorem step_outcome (hinv : w.Tracked) (h : w.step event = some t) :
    Outcome w event t := by
  cases event with
  | arrive =>
    obtain rfl := Option.some.inj h
    exact .arrive
  | access i enabled allocated =>
    obtain ⟨r, hlive, rfl⟩ := Option.map_eq_some_iff.mp h
    have hself := update_self hlive
    rcases Each.of_live hinv hlive with hctx | ⟨hctx, hpassed⟩
    · cases enabled with
      | false =>
        simp only [gatewayHandler, Bool.not_false, if_true, Bool.false_and, Bool.or_false]
        rw [hself]
        exact .unchanged fun _ _ _ henabled => Bool.noConfusion henabled
      | true =>
        cases allocated with
        | false =>
          have hsame : ({ r with ctx := none } : GaugeRequest) = r := by rw [← hctx]
          have hstay : gatewayHandler true false r.ctx w.metrics = (none, w.metrics) := by
            simp [gatewayHandler, hctx]
          rw [hstay]
          simp only [Option.isSome_none, Bool.and_false, Bool.or_false]
          rw [hsame, hself]
          exact .unchanged fun _ _ _ _ => rfl
        | true =>
          have henter : gatewayHandler true true r.ctx w.metrics =
              (some ⟨true, true⟩, w.metrics.inFlightEnter) := by
            simp [gatewayHandler, hctx]
          rw [henter]
          simp only [Option.isSome_some, Bool.and_self, Bool.or_true]
          exact .entered hlive hctx
    · have hhandler : gatewayHandler enabled allocated r.ctx w.metrics = (r.ctx, w.metrics) := by
        cases enabled <;> simp [gatewayHandler, hctx]
      have hsame : ({ r with passed := r.passed || (enabled && r.ctx.isSome) } : GaugeRequest) =
          r := by
        rw [hpassed, Bool.true_or, ← hpassed]
      rw [hhandler]
      dsimp only
      rw [hsame, hself]
      refine .unchanged fun r' hlive' hnot => ?_
      obtain rfl := Option.some.inj (hlive.symm.trans hlive')
      rw [hpassed] at hnot
      cases hnot
  | redirect i =>
    obtain ⟨r, hlive, rfl⟩ := Option.map_eq_some_iff.mp h
    exact .redirect hlive
  | log i =>
    obtain ⟨r, hlive, rfl⟩ := Option.map_eq_some_iff.mp h
    rcases Each.of_live hinv hlive with hctx | ⟨hctx, hpassed⟩
    · have hsame : ({ r with ctx := none, ended := true } : GaugeRequest) =
          { r with ended := true } := by rw [← hctx]
      simp only [gatewayLogHandler, hctx, hsame]
      exact .logBare hlive hctx
    · simp only [gatewayLogHandler, hctx, if_true]
      exact .logEntered hlive hctx hpassed

theorem Tracked.step (hinv : w.Tracked) (h : w.step event = some t) :
    t.Tracked := by
  cases step_outcome hinv h with
  | arrive => exact hinv.arrive (.inl rfl)
  | unchanged hkept => exact hinv
  | entered hlive hctx => exact hinv.update fun _ => .inr ⟨rfl, rfl⟩
  | redirect hlive => exact hinv.update fun _ => .inl rfl
  | logBare hlive hctx => exact hinv.update fun h => Bool.noConfusion h
  | logEntered hlive hctx hpassed => exact hinv.update fun h => Bool.noConfusion h

theorem inFlight_update (hlive : w.live i = some r) (r' : GaugeRequest) (metrics : Metrics) :
    (w.update i r' metrics).inFlight + (if r.inFlight then 1 else 0) =
      w.inFlight + if r'.inFlight then 1 else 0 := by
  obtain ⟨hget, -⟩ := live_iff.mp hlive
  obtain ⟨hlt, hr⟩ := List.getElem?_eq_some_iff.mp hget
  obtain ⟨before, after, hsplit, hlen⟩ : ∃ before after,
      w.requests = before ++ r :: after ∧ before.length = i := by
    refine ⟨w.requests.take i, w.requests.drop (i + 1), ?_, List.length_take_of_le hlt.le⟩
    rw [← hr, List.getElem_cons_drop, List.take_append_drop]
  subst hlen
  simp only [inFlight, update, hsplit, List.set_append_right _ _ (Nat.le_refl _), Nat.sub_self,
    List.set_cons_zero, List.countP_append, List.countP_cons]
  omega

/-! ## Requests that keep their contexts -/

/-- A request that is redirected has not passed the handler, and the gauge has room for one more
request. -/
def Keeps (w : Worker) : GaugeEvent → Prop
  | .arrive => True
  | .access i enabled allocated => ∀ r, w.live i = some r → r.passed = false → enabled = true →
      allocated = true → w.inFlight + 1 < 2 ^ 64
  | .redirect i => ∀ r, w.live i = some r → r.passed = false
  | .log _ => True

section

variable (hlive : w.live i = some r)
include hlive

theorem inFlight_of_live : r.inFlight = r.passed := by
  simp [GaugeRequest.inFlight, (live_iff.mp hlive).2]

theorem inFlight_entered : (w.update i { r with ctx := some ⟨true, true⟩, passed := true }
      w.metrics.inFlightEnter).inFlight + (if r.passed then 1 else 0) = w.inFlight + 1 := by
  have hcount := inFlight_update hlive { r with ctx := some ⟨true, true⟩, passed := true }
    w.metrics.inFlightEnter
  have hafter : ({ r with ctx := some ⟨true, true⟩, passed := true } : GaugeRequest).inFlight =
      true := by
    simp [GaugeRequest.inFlight, (live_iff.mp hlive).2]
  rw [hafter, inFlight_of_live hlive] at hcount
  exact hcount

theorem inFlight_redirected :
    (w.update i { r with ctx := none } w.metrics).inFlight = w.inFlight := by
  have hcount := inFlight_update hlive { r with ctx := none } w.metrics
  have hafter : ({ r with ctx := none } : GaugeRequest).inFlight = r.inFlight := rfl
  rw [hafter] at hcount
  omega

theorem inFlight_ended (ctx : Option GaugeCtx) (metrics : Metrics) :
    (w.update i { r with ctx := ctx, ended := true } metrics).inFlight +
      (if r.passed then 1 else 0) = w.inFlight := by
  have hcount := inFlight_update hlive { r with ctx := ctx, ended := true } metrics
  have hafter : ({ r with ctx := ctx, ended := true } : GaugeRequest).inFlight = false := by
    simp [GaugeRequest.inFlight]
  rw [hafter, inFlight_of_live hlive] at hcount
  exact hcount

end

theorem gaugeRight_step (hinv : w.Tracked) (hwhole : w.Whole) (hright : w.GaugeRight)
    (hkeeps : w.Keeps event) (h : w.step event = some t) :
    t.Whole ∧ t.GaugeRight := by
  unfold GaugeRight at hright ⊢
  cases step_outcome hinv h with
  | arrive =>
    refine ⟨hwhole.arrive fun h => Bool.noConfusion h, ?_⟩
    simpa [inFlight, GaugeRequest.inFlight] using hright
  | unchanged hkept => exact ⟨hwhole, hright⟩
  | @entered i r hlive hctx =>
    have hpassed : r.passed = false := by
      by_contra hnot
      exact hwhole.of_live hlive (by simpa using hnot) hctx
    have hroom := hkeeps r hlive hpassed rfl rfl
    have hcount := inFlight_entered hlive
    rw [if_neg (by simp [hpassed])] at hcount
    refine ⟨hwhole.update fun _ _ => Option.some_ne_none _, ?_⟩
    calc wrapU64 (w.metrics.getInFlight + 1) = w.inFlight + 1 := by
          rw [hright, wrapU64_of_lt hroom]
      _ = _ := hcount.symm
  | @redirect i r hlive =>
    have hpassed := hkeeps r hlive
    refine ⟨hwhole.update fun _ h => ?_, ?_⟩
    · rw [show r.passed = true from h] at hpassed
      cases hpassed
    · rw [inFlight_redirected hlive]
      exact hright
  | @logBare i r hlive hctx =>
    have hpassed : r.passed = false := by
      by_contra hnot
      exact hwhole.of_live hlive (by simpa using hnot) hctx
    have hcount := inFlight_ended hlive r.ctx w.metrics
    rw [if_neg (by simp [hpassed])] at hcount
    exact ⟨hwhole.update fun h => Bool.noConfusion h, hright.trans hcount.symm⟩
  | @logEntered i r hlive hctx hpassed =>
    have hcount := inFlight_ended hlive (some ⟨true, false⟩) w.metrics.inFlightLeave
    rw [if_pos hpassed] at hcount
    refine ⟨hwhole.update fun h => Bool.noConfusion h, ?_⟩
    calc w.metrics.getInFlight - 1 = w.inFlight - 1 := by rw [hright]
      _ = _ := by omega

/-! ## Requests that lost their contexts -/

def Orphaned (w : Worker) (i : Nat) : Prop :=
  ∃ r, w.live i = some r ∧ r.passed = true ∧ r.ctx = none

theorem live_update_self (hlive : w.live i = some r) {r' : GaugeRequest} (hended : r'.ended = false)
    (metrics : Metrics) : (w.update i r' metrics).live i = some r' := by
  obtain ⟨hget, -⟩ := live_iff.mp hlive
  obtain ⟨hlt, -⟩ := List.getElem?_eq_some_iff.mp hget
  exact live_iff.mpr ⟨List.getElem?_set_self hlt, hended⟩

theorem live_update_of_ne {j : Nat} (hne : j ≠ i) (r' : GaugeRequest) (metrics : Metrics) :
    (w.update i r' metrics).live j = w.live j := by
  simp [live, update, List.getElem?_set_ne hne.symm]

theorem Orphaned.update {j : Nat} (h : w.Orphaned j) (hne : j ≠ i) (r' : GaugeRequest)
    (metrics : Metrics) : (w.update i r' metrics).Orphaned j := by
  obtain ⟨r, hlive, hpassed, hctx⟩ := h
  exact ⟨r, (live_update_of_ne hne r' metrics).trans hlive, hpassed, hctx⟩

theorem orphaned_redirect (hlive : w.live i = some r) (hpassed : r.passed = true) :
    (w.update i { r with ctx := none } w.metrics).Orphaned i := by
  have hended : ({ r with ctx := none } : GaugeRequest).ended = false := (live_iff.mp hlive).2
  exact ⟨_, live_update_self hlive hended w.metrics, hpassed, rfl⟩

/-- While the gauge is right, a request that has lost its context is not counted again and does
not end. -/
theorem Orphaned.step {j : Nat} (h : w.Orphaned j) (hinv : w.Tracked) (hright : w.GaugeRight)
    (hright' : t.GaugeRight) (hstep : w.step event = some t) :
    t.Orphaned j := by
  unfold GaugeRight at hright hright'
  obtain ⟨orphan, hlive', hpassed', hctx'⟩ := id h
  cases step_outcome hinv hstep with
  | arrive =>
    obtain ⟨hget, hended⟩ := live_iff.mp hlive'
    obtain ⟨hlt, -⟩ := List.getElem?_eq_some_iff.mp hget
    exact ⟨orphan, live_iff.mpr ⟨(List.getElem?_append_left hlt).trans hget, hended⟩, hpassed',
      hctx'⟩
  | unchanged hkept => exact h
  | @entered i r hlive hctx =>
    by_cases hj : j = i
    · subst hj
      obtain rfl := Option.some.inj (hlive.symm.trans hlive')
      have hcount := inFlight_entered hlive
      rw [if_pos hpassed'] at hcount
      have hwrap : wrapU64 (w.metrics.getInFlight + 1) = w.inFlight :=
        Eq.trans hright' (Nat.succ.inj hcount)
      rw [wrapU64] at hwrap
      omega
    · exact h.update hj _ _
  | @redirect i r hlive =>
    by_cases hj : j = i
    · subst hj
      obtain rfl := Option.some.inj (hlive.symm.trans hlive')
      exact orphaned_redirect hlive hpassed'
    · exact h.update hj _ _
  | @logBare i r hlive hctx =>
    by_cases hj : j = i
    · subst hj
      obtain rfl := Option.some.inj (hlive.symm.trans hlive')
      have hcount := inFlight_ended hlive r.ctx w.metrics
      rw [if_pos hpassed'] at hcount
      have hsame : w.metrics.getInFlight =
          (w.update j { r with ended := true } w.metrics).inFlight := hright'
      omega
    · exact h.update hj _ _
  | @logEntered i r hlive hctx hpassed =>
    by_cases hj : j = i
    · subst hj
      obtain rfl := Option.some.inj (hlive.symm.trans hlive')
      rw [hctx] at hctx'
      cases hctx'
    · exact h.update hj _ _

theorem exists_orphaned_of_not_whole (h : ¬w.Whole) : ∃ i, w.Orphaned i := by
  simp only [Whole, Each, not_forall, not_not] at h
  obtain ⟨r, hmem, hended, hpassed, hctx⟩ := h
  obtain ⟨i, hget⟩ := List.getElem?_of_mem hmem
  exact ⟨i, r, live_iff.mpr ⟨hget, hended⟩, hpassed, hctx⟩

theorem keeps_of_step (hinv : w.Tracked) (h : w.step event = some t)
    (hwhole : t.Whole) (hright : t.GaugeRight) : w.Keeps event := by
  cases step_outcome hinv h with
  | arrive => trivial
  | unchanged hkept =>
    intro r hlive hpassed henabled hallocated
    rw [hkept r hlive hpassed henabled] at hallocated
    cases hallocated
  | @entered i r hlive hctx =>
    intro r' hlive' hpassed _ _
    obtain rfl := Option.some.inj (hlive.symm.trans hlive')
    have hcount := inFlight_entered hlive
    rw [if_neg (by simp [hpassed])] at hcount
    calc w.inFlight + 1 = wrapU64 (w.metrics.getInFlight + 1) :=
          hcount.symm.trans hright.symm
      _ < 2 ^ 64 := Nat.mod_lt _ (by decide)
  | @redirect i r hlive =>
    intro r' hlive'
    obtain rfl := Option.some.inj (hlive.symm.trans hlive')
    by_contra hnot
    obtain ⟨orphan, hlive'', hpassed, hctx⟩ := orphaned_redirect hlive (by simpa using hnot)
    exact hwhole.of_live hlive'' hpassed hctx
  | logBare hlive hctx => trivial
  | logEntered hlive hctx hpassed => trivial

/-! ## Whole runs -/

def AlwaysRight (w : Worker) (events : List GaugeEvent) : Prop :=
  ∀ before t, before <+: events → execute Worker.step w before = some t → t.GaugeRight

variable {event : GaugeEvent} {events : List GaugeEvent}

theorem AlwaysRight.start (h : w.AlwaysRight events) : w.GaugeRight :=
  h [] w List.nil_prefix rfl

theorem AlwaysRight.tail (h : w.AlwaysRight (event :: events)) (hstep : w.step event = some t) :
    t.AlwaysRight events := by
  intro before u hbefore hu
  refine h (event :: before) u (List.cons_prefix_cons.mpr ⟨rfl, hbefore⟩) ?_
  rw [execute, hstep]
  exact hu

theorem alwaysRight_of_runsUnder (hrun : RunsUnder Worker.step Keeps w events t)
    (hinv : w.Tracked) (hwhole : w.Whole) (hright : w.GaugeRight) : w.AlwaysRight events := by
  intro before u hbefore hu
  refine (hrun.invariant_states (P := fun w => w.Tracked ∧ w.Whole ∧ w.GaugeRight) ?_
    ⟨hinv, hwhole, hright⟩ hbefore hu).2.2
  exact fun ⟨hinv, hwhole, hright⟩ hkeeps hstep =>
    ⟨hinv.step hstep, gaugeRight_step hinv hwhole hright hkeeps hstep⟩

theorem Orphaned.run (h : w.Orphaned i) (hinv : w.Tracked) (hright : w.AlwaysRight events)
    (hrun : execute Worker.step w events = some t) : t.Orphaned i := by
  induction events generalizing w with
  | nil =>
    obtain rfl := Option.some.inj hrun
    exact h
  | cons event events ih =>
    obtain ⟨next, hstep, hrest⟩ := Option.bind_eq_some_iff.mp hrun
    have hnext := hright.tail hstep
    exact ih (h.step hinv hright.start hnext.start hstep) (hinv.step hstep) hnext hrest

theorem runsUnder_of_alwaysRight (hrun : execute Worker.step w events = some t)
    (hended : ∀ r ∈ t.requests, r.ended = true) (hinv : w.Tracked)
    (hright : w.AlwaysRight events) : RunsUnder Worker.step Keeps w events t := by
  induction events generalizing w with
  | nil =>
    obtain rfl := Option.some.inj hrun
    exact .nil _
  | cons event events ih =>
    obtain ⟨next, hstep, hrest⟩ := Option.bind_eq_some_iff.mp hrun
    have hnext := hright.tail hstep
    have hwhole : next.Whole := by
      by_contra hnot
      obtain ⟨i, horphaned⟩ := exists_orphaned_of_not_whole hnot
      obtain ⟨r, hlive, -⟩ := horphaned.run (hinv.step hstep) hnext hrest
      obtain ⟨hget, hlives⟩ := live_iff.mp hlive
      rw [hended r (List.mem_of_getElem? hget)] at hlives
      cases hlives
    exact .cons (keeps_of_step hinv hstep hwhole hnext.start) hstep
      (ih hrest (hinv.step hstep) hnext)

theorem tracked_initial : initial.Tracked := fun _ hr => nomatch hr

theorem whole_initial : initial.Whole := fun _ hr => nomatch hr

end Worker

structure GaugeRun where
  events : List GaugeEvent
  last : Worker
  run : execute Worker.step Worker.initial events = some last
  ended : ∀ r ∈ last.requests, r.ended = true

/-- The gauge shows the requests in flight throughout the run exactly if no request is redirected
after it passed the access handler, and the gauge does not overflow. -/
theorem GaugeRun.gauge_right_iff (run : GaugeRun) :
    Worker.initial.AlwaysRight run.events ↔
      RunsUnder Worker.step Worker.Keeps Worker.initial run.events run.last := by
  constructor
  · exact Worker.runsUnder_of_alwaysRight run.run run.ended Worker.tracked_initial
  · intro hrun
    exact Worker.alwaysRight_of_runsUnder hrun Worker.tracked_initial Worker.whole_initial rfl

def redirectedRun : GaugeRun where
  events := [.arrive, .access 0 true true, .redirect 0, .access 0 true true, .log 0]
  last := ⟨⟨⟨1⟩, ⟨1⟩⟩, [⟨some ⟨true, false⟩, true, true⟩]⟩
  run := rfl
  ended := by decide

/-- When it has ended, nothing is in flight and the gauge is one, for good. -/
theorem redirected_request_leaks :
    redirectedRun.last.inFlight = 0 ∧ redirectedRun.last.metrics.getInFlight = 1 ∧
      ¬Worker.initial.AlwaysRight redirectedRun.events := by
  refine ⟨rfl, rfl, fun h => ?_⟩
  have hright : redirectedRun.last.metrics.getInFlight = redirectedRun.last.inFlight :=
    h redirectedRun.events redirectedRun.last List.prefix_rfl redirectedRun.run
  exact absurd hright (by decide)

end AuroraGateway.Nginx
