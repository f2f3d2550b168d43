import AuroraGateway.Ffi.Lifecycle
import AuroraGateway.Ffi.SlotConservation

/-!
# Connection limits across reloads

A synchronisation can put a new connection limiter in the place of the active
one, while requests that the old one has admitted are still in progress.  Their
tokens name a rule and an identifier and not the limiter, and they are given
back to whichever limiter is active when the request ends.
-/

namespace AuroraGateway.Ffi

open Access
open ConnectionLimit (ConnectionLimitEngine CompiledRule ShardedConnTracker
  trackerKey)
open Engine Foundation

variable {F : Type}

/-! ## The system -/

structure Admission where
  arc : Nat
  ruleId : Bytes
  identifier : Bytes
  token : Option AuroraReleaseToken
  deriving DecidableEq

def Admission.slotOf (arc : Nat) (admission : Admission) : Option Bytes :=
  if admission.arc = arc then some (trackerKey admission.ruleId admission.identifier) else none

def inProgress (admitted : List Admission) (arc : Nat) (ruleId identifier : Bytes) : Nat :=
  admitted.countP fun admission =>
    admission.arc = arc ∧ admission.ruleId = ruleId ∧ admission.identifier = identifier

structure Worker (F : Type) where
  process : Process F
  servers : Servers F
  admitted : List Admission

def Worker.start (servers : Servers F) : Worker F := ⟨.start, servers, []⟩

structure LocalMemory (loaders : Loaders F) extends PolicyMemory where
  localOnly : ∀ {engine}, ConnectionLimitEngine.fromSnapshot loaders.connectionLimit
    (slots auroraExtConnLimit).data = .ok engine → engine.mode = .localOnly

inductive WorkerAction (loaders : Loaders F) where
  | access (call : AccessCall F)
  | release (admission : Admission) (world : Surroundings F)
  | sync (memory : LocalMemory loaders)

def Process.withSpace (p : Process F) (space : Option (GatewayActiveSpace F)) : Process F :=
  { p with
    active := p.active.bind fun old =>
      space.map fun space => { old with toGatewayActiveSpace := space } }

def Process.space (p : Process F) : Option (GatewayActiveSpace F) :=
  p.active.map fun space => space.toGatewayActiveSpace

theorem Process.limiter_of_active {space : PolicySpace F} {engine : ConnectionLimitEngine}
    (hlimit : space.connectionLimit = some engine) {lastSyncGen nextArc : Nat} :
    (⟨some space, lastSyncGen, nextArc⟩ : Process F).limiter =
      some (engine, space.connectionArc) := by
  simp [Process.limiter, PolicySpace.limiter, hlimit]

section Steps

variable [Flonum F]

def admittedAs (space : GatewayActiveSpace F) (servers : Servers F) (call : AccessCall F) :
    Option (Bytes × Bytes) :=
  call.request.bind fun ctx =>
    let engines := space.buildPhaseEngines ctx.path
    let decision := (evaluate engines ctx call.headerLookup call.world servers).2.2
    if (AccessDecision.connToken decision).isSome then
      (engines.connectionLimit.bind fun engine =>
        engine.selects (connLimitCall ctx call.headerLookup)).map fun selected =>
          (selected.1.id.bytes, selected.2)
    else none

/-- Requests whose token has not reached the host stay in the list. -/
def Worker.step (loaders : Loaders F) (s : Worker F) :
    WorkerAction loaders → Option (Worker F)
  | .access call =>
    let (space, servers, outcome, rc) :=
      auroraGatewayPhaseAccess s.process.space s.servers call
    let admission := s.process.active.bind fun active =>
      (admittedAs active.toGatewayActiveSpace s.servers call).map fun (ruleId, identifier) =>
        { arc := active.connectionArc, ruleId, identifier, token := heldToken outcome rc }
    some
      { process := s.process.withSpace space
        servers
        admitted := admission.toList ++ s.admitted }
  | .release admission world =>
    if admission ∈ s.admitted ∧ admission.token.isSome then
      let (space, servers) :=
        auroraGatewayConnectionRelease s.process.space s.servers world admission.token
      some
        { process := s.process.withSpace space
          servers
          admitted := s.admitted.erase admission }
    else none
  | .sync memory =>
    some { s with process := auroraGatewayPolicySync loaders memory.toPolicyMemory s.process }

/-- The token gives back the slot of its own request, or one that no request of the active
limiter holds. -/
def ReleasesOwn {loaders : Loaders F} (s : Worker F) : WorkerAction loaders → Prop
  | .release admission _ =>
    ∀ engine ∈ s.process.limiter, ∀ key ∈ tokenKey admission.token,
      admission.slotOf engine.2 = some key ∨
        ∀ other ∈ s.admitted, other.slotOf engine.2 ≠ some key
  | _ => True

end Steps

/-! ## One limiter -/

/-- The tracker has counted every request in progress, and no rule is over its limit. -/
structure LimiterInv (admitted : List Admission) (engine : ConnectionLimitEngine) (arc : Nat) :
    Prop where
  mode : engine.mode = .localOnly
  ids : (engine.rules.map fun rule => rule.id.bytes).Nodup
  covered : Covered (Admission.slotOf arc) engine.localTracker.count admitted
  bounded : ∀ rule ∈ engine.rules, ∀ identifier,
    inProgress admitted arc rule.id.bytes identifier ≤ rule.maxConnections

theorem inProgress_le_slot (admitted : List Admission) (arc : Nat) (ruleId identifier : Bytes) :
    inProgress admitted arc ruleId identifier ≤ admitted.countP fun admission =>
      admission.slotOf arc = some (trackerKey ruleId identifier) := by
  apply List.countP_mono_left
  intro admission _ h
  simp only [decide_eq_true_eq] at h ⊢
  obtain ⟨rfl, rfl, rfl⟩ := h
  simp [Admission.slotOf]

theorem inProgress_erase_le (admitted : List Admission) (admission : Admission) (arc : Nat)
    (ruleId identifier : Bytes) :
    inProgress (admitted.erase admission) arc ruleId identifier ≤
      inProgress admitted arc ruleId identifier :=
  List.erase_sublist.countP_le

namespace LimiterInv

variable {admitted : List Admission} {engine : ConnectionLimitEngine} {arc : Nat}

theorem of_fromSnapshot {env : ConnectionLimit.Environment} {bytes : Bytes}
    (hload : ConnectionLimitEngine.fromSnapshot env bytes = .ok engine)
    (hmode : engine.mode = .localOnly) (harcs : ∀ admission ∈ admitted, admission.arc < arc) :
    LimiterInv admitted engine arc := by
  obtain ⟨snapshot, -, haccepted⟩ := ConnectionLimitEngine.fromSnapshot_ok hload
  have hother : ∀ admission ∈ admitted, admission.arc ≠ arc := fun admission hmem =>
    Nat.ne_of_lt (harcs admission hmem)
  constructor
  · exact hmode
  · exact haccepted.ids
  · exact Covered.of_uncounted fun admission hmem => if_neg (hother admission hmem)
  · intro rule _ identifier
    have hnone : inProgress admitted arc rule.id.bytes identifier = 0 :=
      List.countP_eq_zero.mpr fun admission hmem => by simp [hother admission hmem]
    rw [hnone]
    exact Nat.zero_le _

section

variable (h : LimiterInv admitted engine arc)
include h

theorem grant {rule : CompiledRule} {identifier : Bytes} (hrule : rule ∈ engine.rules)
    {next : ShardedConnTracker} (htakes : engine.Takes rule identifier next)
    (token : Option AuroraReleaseToken) :
    LimiterInv (⟨arc, rule.id.bytes, identifier, token⟩ :: admitted)
      { engine with localTracker := next } arc where
  mode := h.mode
  ids := h.ids
  covered := by
    rw [htakes.count]
    exact h.covered.take (by simp [Admission.slotOf])
  bounded rule' hrule' identifier' := by
    by_cases hsame : rule.id.bytes = rule'.id.bytes ∧ identifier = identifier'
    · obtain ⟨hid, rfl⟩ := hsame
      obtain rfl : rule = rule' := List.inj_on_of_nodup_map h.ids hrule hrule' hid
      have hslot := inProgress_le_slot admitted arc rule.id.bytes identifier
      have hcovered := h.covered (trackerKey rule.id.bytes identifier)
      have hroom := htakes.room
      rw [inProgress, List.countP_cons_of_pos (by simp), ← inProgress]
      omega
    · rw [inProgress, List.countP_cons_of_neg (by simpa using hsame)]
      exact h.bounded rule' hrule' identifier'

theorem erase (admission : Admission) : LimiterInv (admitted.erase admission) engine arc where
  mode := h.mode
  ids := h.ids
  covered := h.covered.erase
  bounded rule hrule identifier :=
    (inProgress_erase_le _ _ _ _ _).trans (h.bounded rule hrule identifier)

theorem release {admission : Admission} (hmem : admission ∈ admitted) {key : Bytes}
    (hown : admission.slotOf arc = some key ∨ ∀ other ∈ admitted, other.slotOf arc ≠ some key) :
    LimiterInv (admitted.erase admission)
      { engine with localTracker := engine.localTracker.release key } arc where
  mode := h.mode
  ids := h.ids
  covered := by
    rw [ShardedConnTracker.count_release]
    rcases hown with hslot | hidle
    · exact h.covered.give hmem hslot
    · exact h.covered.give_idle hidle _
  bounded := (h.erase admission).bounded

end

end LimiterInv

/-! ## One access -/

section Access

variable [Flonum F] {engine : ConnectionLimitEngine} {engines : AccessPhaseEngines F}
  {ctx : RequestContext} {headerLookup : HeaderLookup} {world : Surroundings F}
  {space : GatewayActiveSpace F}

inductive AccessSlot (engine : ConnectionLimitEngine) :
    Option ConnectionLimitEngine → Option (Bytes × Bytes) → Prop
  | none : AccessSlot engine (some engine) none
  | taken {rule : CompiledRule} {identifier : Bytes} {next : ShardedConnTracker}
      (hrule : rule ∈ engine.rules)
      (htakes : engine.Takes rule identifier next) :
      AccessSlot engine (some { engine with localTracker := next })
        (some (rule.id.bytes, identifier))

theorem accessSlot_evaluated (hlimit : space.connectionLimit = some engine)
    (hmode : engine.mode = .localOnly) {call : AccessCall F} (hrequest : call.request = some ctx)
    (servers : Servers F) :
    AccessSlot engine
      (space.keepCounters (evaluate (space.buildPhaseEngines ctx.path) ctx call.headerLookup
        call.world servers).1).connectionLimit (admittedAs space servers call) := by
  simp only [admittedAs, hrequest, Option.bind_some, GatewayActiveSpace.keepCounters]
  cases hconsulted : (space.buildPhaseEngines ctx.path).connectionLimit with
  | none =>
    obtain ⟨hkept, htoken⟩ := evaluate_of_not_consulted ctx call.headerLookup call.world
      servers hconsulted
    rw [hkept, htoken, hlimit]
    exact .none
  | some consulted =>
    obtain rfl : consulted = engine :=
      Option.some.inj ((connectionLimit_of_consulted hconsulted).symm.trans hlimit)
    obtain ⟨next, hkept, houtcome⟩ := evaluate_slotOutcome ctx call.headerLookup call.world
      servers hconsulted hmode
    rw [hkept]
    generalize (evaluate (space.buildPhaseEngines ctx.path) ctx call.headerLookup
      call.world servers).2.2 = decision at houtcome ⊢
    cases houtcome with
    | untouched htoken =>
      rw [htoken]
      exact .none
    | granted hselects htakes =>
      simp only [AccessDecision.connToken, Option.isSome_some, if_true, Option.bind_some,
        hselects, Option.map_some]
      exact .taken (ConnectionLimitEngine.mem_of_selects hselects) htakes

theorem phaseAccess_fst (space : GatewayActiveSpace F) (servers : Servers F)
    (call : AccessCall F) :
    (auroraGatewayPhaseAccess (some space) servers call).1 =
      some (match call.request with
        | some ctx => space.keepCounters (evaluate (space.buildPhaseEngines ctx.path) ctx
            call.headerLookup call.world servers).1
        | none => space) := by
  unfold auroraGatewayPhaseAccess AccessCall.request
  cases call.outOutcome with
  | none => rfl
  | some out =>
    cases call.input with
    | none => rfl
    | some input => rfl

theorem accessSlot (hlimit : space.connectionLimit = some engine) (hmode : engine.mode = .localOnly)
    (servers : Servers F) (call : AccessCall F) :
    ∃ space', (auroraGatewayPhaseAccess (some space) servers call).1 = some space' ∧
      AccessSlot engine space'.connectionLimit (admittedAs space servers call) := by
  refine ⟨_, phaseAccess_fst space servers call, ?_⟩
  cases hrequest : call.request with
  | none =>
    simp only [admittedAs, hrequest, Option.bind_none, hlimit]
    exact .none
  | some ctx => exact accessSlot_evaluated hlimit hmode hrequest servers

theorem access_unlimited (hlimit : space.connectionLimit = none) (servers : Servers F)
    (call : AccessCall F) :
    ∃ space', (auroraGatewayPhaseAccess (some space) servers call).1 = some space' ∧
      space'.connectionLimit = none ∧ admittedAs space servers call = none := by
  refine ⟨_, phaseAccess_fst space servers call, ?_⟩
  cases hrequest : call.request with
  | none => simp [admittedAs, hrequest, hlimit]
  | some ctx =>
    have hconsulted : (space.buildPhaseEngines ctx.path).connectionLimit = none := by
      simp [GatewayActiveSpace.buildPhaseEngines, hlimit]
    obtain ⟨hkept, htoken⟩ := evaluate_of_not_consulted ctx call.headerLookup call.world
      servers hconsulted
    simp [admittedAs, hrequest, htoken, GatewayActiveSpace.keepCounters, hkept, hlimit]

end Access

/-! ## Runs -/

/-- Addresses are handed out in order, and the active limiter keeps its limits. -/
structure WorkerInv (s : Worker F) : Prop where
  arcs : ∀ admission ∈ s.admitted, admission.arc < s.process.nextArc
  limiter : ∀ {engine arc}, s.process.limiter = some (engine, arc) →
    arc < s.process.nextArc ∧ LimiterInv s.admitted engine arc

theorem workerInv_start (servers : Servers F) : WorkerInv (Worker.start servers) where
  arcs := by simp [Worker.start]
  limiter h := by simp [Worker.start, Process.start, Process.limiter] at h

theorem workerInv_admitted {space : PolicySpace F} {lastSyncGen nextArc : Nat}
    {servers : Servers F} {admitted : List Admission}
    (h : WorkerInv ⟨⟨some space, lastSyncGen, nextArc⟩, servers, admitted⟩)
    {engine : ConnectionLimitEngine} (hlimit : space.connectionLimit = some engine)
    {space' : GatewayActiveSpace F} {admission : Option (Bytes × Bytes)}
    (hslot : AccessSlot engine space'.connectionLimit admission) (servers' : Servers F)
    (token : Option AuroraReleaseToken) :
    WorkerInv
      { process := ⟨some { space with toGatewayActiveSpace := space' }, lastSyncGen, nextArc⟩
        servers := servers'
        admitted := (admission.map fun (ruleId, identifier) =>
          (⟨space.connectionArc, ruleId, identifier, token⟩ : Admission)).toList ++
            admitted } := by
  obtain ⟨harc, hinv⟩ := h.limiter (Process.limiter_of_active hlimit)
  generalize hafter : space'.connectionLimit = after at hslot
  cases hslot with
  | none =>
    constructor
    · exact h.arcs
    · intro engine' arc hlimiter
      obtain ⟨rfl, rfl⟩ :=
        Prod.mk.inj (Option.some.inj ((Process.limiter_of_active hafter).symm.trans hlimiter))
      exact ⟨harc, hinv⟩
  | taken hrule htakes =>
    constructor
    · intro admission hadmission
      rcases List.mem_cons.mp hadmission with rfl | hold
      · exact harc
      · exact h.arcs admission hold
    · intro engine' arc hlimiter
      obtain ⟨rfl, rfl⟩ :=
        Prod.mk.inj (Option.some.inj ((Process.limiter_of_active hafter).symm.trans hlimiter))
      exact ⟨harc, hinv.grant hrule htakes _⟩

section Run

variable [Flonum F] {loaders : Loaders F} {s t : Worker F}

theorem workerInv_access (h : WorkerInv s) {call : AccessCall F}
    (hstep : s.step loaders (.access call) = some t) : WorkerInv t := by
  obtain ⟨⟨active, lastSyncGen, nextArc⟩, servers, admitted⟩ := s
  simp only [Worker.step, Option.some.injEq] at hstep
  subst hstep
  cases active with
  | none =>
    constructor
    · simpa [Process.withSpace] using h.arcs
    · simp [Process.withSpace, Process.limiter]
  | some space =>
    cases hlimit : space.connectionLimit with
    | none =>
      obtain ⟨space', hspace, hnone, hadmitted⟩ :=
        access_unlimited hlimit servers call
      constructor
      · simpa [Process.withSpace, hadmitted] using h.arcs
      · simp [Process.withSpace, Process.space, Process.limiter, PolicySpace.limiter, hspace,
          hnone]
    | some engine =>
      obtain ⟨-, hinv⟩ := h.limiter (Process.limiter_of_active hlimit)
      obtain ⟨space', hspace, hslot⟩ := accessSlot hlimit hinv.mode servers call
      simp only [Process.withSpace, Process.space, Option.map_some, hspace,
        Option.bind_some]
      exact workerInv_admitted h hlimit hslot _ _

theorem workerInv_release (h : WorkerInv s) {admission : Admission} {world : Surroundings F}
    (hown : @ReleasesOwn F loaders s (.release admission world))
    (hstep : s.step loaders (.release admission world) = some t) : WorkerInv t := by
  obtain ⟨⟨active, lastSyncGen, nextArc⟩, servers, admitted⟩ := s
  simp only [Worker.step, Option.ite_none_right_eq_some, Option.some.injEq] at hstep
  obtain ⟨⟨hmem, -⟩, rfl⟩ := hstep
  constructor
  · intro other hother
    exact h.arcs other (List.mem_of_mem_erase hother)
  · intro engine' arc hlimiter
    cases active with
    | none => simp [Process.withSpace, Process.limiter] at hlimiter
    | some space =>
      simp only [Process.withSpace, Process.space, Option.map_some, connectionRelease_fst,
        Option.bind_some, Process.limiter, PolicySpace.limiter] at hlimiter
      cases hlimit : space.connectionLimit with
      | none => simp [hlimit] at hlimiter
      | some engine =>
        have hactive : (⟨some space, lastSyncGen, nextArc⟩ : Process F).limiter =
            some (engine, space.connectionArc) := Process.limiter_of_active hlimit
        obtain ⟨harc, hinv⟩ := h.limiter hactive
        cases hkey : tokenKey admission.token with
        | none =>
          obtain ⟨rfl, rfl⟩ : engine = engine' ∧ space.connectionArc = arc := by
            simpa [hlimit, hkey] using hlimiter
          exact ⟨harc, hinv.erase admission⟩
        | some key =>
          obtain ⟨rfl, rfl⟩ : _ = engine' ∧ space.connectionArc = arc := by
            simpa [hlimit, hkey] using hlimiter
          exact ⟨harc, hinv.release hmem (hown _ hactive key hkey)⟩

theorem workerInv_sync (h : WorkerInv s) {memory : LocalMemory loaders}
    (hstep : s.step loaders (.sync memory) = some t) : WorkerInv t := by
  obtain rfl := Option.some.inj hstep
  rcases limiter_policySync loaders memory.toPolicyMemory s.process with
    hsame | ⟨hnext, hsync⟩
  · simp only [hsame]
    exact h
  · constructor
    · intro admission hadmission
      rw [hnext]
      exact Nat.lt_succ_of_lt (h.arcs admission hadmission)
    · intro engine arc hlimiter
      rw [hlimiter] at hsync
      rw [hnext]
      generalize hbefore : s.process.limiter = before at hsync
      cases hsync with
      | kept =>
        obtain ⟨harc, hinv⟩ := h.limiter hbefore
        exact ⟨Nat.lt_succ_of_lt harc, hinv⟩
      | replaced hload =>
        exact ⟨Nat.lt_succ_self _,
          .of_fromSnapshot hload (memory.localOnly hload) h.arcs⟩

theorem workerInv_step {action : WorkerAction loaders} (h : WorkerInv s)
    (hown : ReleasesOwn s action) (hstep : s.step loaders action = some t) : WorkerInv t := by
  cases action with
  | access call => exact workerInv_access h hstep
  | release admission world => exact workerInv_release h hown hstep
  | sync memory => exact workerInv_sync h hstep

/-- In every run in which every token gives back a slot of its own, or one that nobody holds,
the limits of the active limiter are kept across all reloads. -/
theorem limits_kept_across_reloads {servers : Servers F} {actions : List (WorkerAction loaders)}
    (hrun : RunsUnder (Worker.step loaders) ReleasesOwn (.start servers) actions t)
    {engine : ConnectionLimitEngine} {arc : Nat}
    (hactive : t.process.limiter = some (engine, arc)) {rule : CompiledRule}
    (hrule : rule ∈ engine.rules) (identifier : Bytes) :
    inProgress t.admitted arc rule.id.bytes identifier ≤ rule.maxConnections := by
  have hinv : WorkerInv t := RunsUnder.invariant workerInv_step hrun (workerInv_start servers)
  exact (hinv.limiter hactive).2.bounded rule hrule identifier

end Run

/-! ## Samples -/

def oneClientSnapshot : ConnectionLimit.ConnLimitSnapshot :=
  { clientSnapshot with
    rules := clientSnapshot.rules.map fun rule => { rule with maxConnections := 1 } }

def oneClientLoaders : Loaders ℚ :=
  { (Loaders.empty : Loaders ℚ) with connectionLimit := .constant oneClientSnapshot }

def publication (generation : Nat) : LocalMemory oneClientLoaders where
  totalGeneration := generation
  slots := fun slot => if slot = auroraExtConnLimit then ⟨generation, [0]⟩ else ⟨0, []⟩
  localOnly h := by
    obtain ⟨snapshot, hparse, haccepted⟩ := ConnectionLimitEngine.fromSnapshot_ok h
    obtain rfl : oneClientSnapshot = snapshot := Option.some.inj hparse
    exact haccepted.mode

def clientAdmission (arc : Nat) : Admission :=
  ⟨arc, ascii "clients", ascii "10.0.0.1", some (clientToken (ascii "10.0.0.1"))⟩

def clientArrives : WorkerAction oneClientLoaders := .access (clientAccess (ascii "10.0.0.1"))

def clientLeaves (arc : Nat) : WorkerAction oneClientLoaders :=
  .release (clientAdmission arc) .calm

instance (s : Worker ℚ) (action : WorkerAction oneClientLoaders) :
    Decidable (ReleasesOwn s action) := by
  cases action <;> unfold ReleasesOwn <;> infer_instance

/-- The client leaves before the reload and comes back after it. -/
theorem returning_client_keeps_limit :
    ∃ (t : Worker ℚ) (engine : ConnectionLimitEngine) (arc : Nat) (rule : CompiledRule),
      RunsUnder (Worker.step oneClientLoaders) ReleasesOwn (.start fun _ => .empty)
        [.sync (publication 1), clientArrives, clientLeaves 0, .sync (publication 2),
          clientArrives] t ∧
      t.process.limiter = some (engine, arc) ∧ rule ∈ engine.rules ∧
      ∀ identifier, inProgress t.admitted arc rule.id.bytes identifier ≤ rule.maxConnections := by
  have hchecked : ((RunsUnder.check (Worker.step oneClientLoaders) ReleasesOwn
      (.start fun _ => .empty) [.sync (publication 1), clientArrives, clientLeaves 0,
        .sync (publication 2), clientArrives]).bind fun t => t.process.limiter.bind
          fun limiter => limiter.1.rules.head?).isSome = true := by
    decide +kernel
  obtain ⟨rule, hfound⟩ := Option.isSome_iff_exists.mp hchecked
  obtain ⟨t, hcheck, hrest⟩ := Option.bind_eq_some_iff.mp hfound
  obtain ⟨⟨engine, arc⟩, hlimiter, hhead⟩ := Option.bind_eq_some_iff.mp hrest
  have hrun := RunsUnder.of_check hcheck
  have hrule := List.mem_of_head? hhead
  exact ⟨t, engine, arc, rule, hrun, hlimiter, hrule,
    limits_kept_across_reloads hrun hlimiter hrule⟩

/-- The token of a request that the old limiter has admitted takes the slot of one that the
new limiter has admitted: two connections are in progress where one is allowed. -/
theorem old_token_frees_new_slot :
    (execute (Worker.step oneClientLoaders) (.start fun _ => .empty)
      [.sync (publication 1), clientArrives, .sync (publication 2), clientArrives,
        clientLeaves 0, clientArrives]).any (fun t => t.process.limiter.any fun limiter =>
          limiter.1.rules.any fun rule =>
            rule.maxConnections = 1 ∧
              inProgress t.admitted limiter.2 rule.id.bytes (ascii "10.0.0.1") = 2) = true := by
  decide +kernel

end AuroraGateway.Ffi
