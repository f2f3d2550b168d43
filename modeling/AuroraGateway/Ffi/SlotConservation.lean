import AuroraGateway.Access.FailClosed
import AuroraGateway.ConnectionLimit.Sessions
import AuroraGateway.Ffi.Access

/-!
# Connection slots across the C interface

A request takes a slot in the access phase and gives it back through its release
token.  The slots in use are those of the requests in progress as long as every
token names the slot that was taken and reaches the host: the fields of a token
have 30 bytes, an identifier passes through a lossy conversion, and a response
from the cache or a failed allocation leaves no token.
-/

namespace AuroraGateway.Ffi

open Access AuroraAccessOutcome AuroraReleaseToken
open ConnectionLimit (ConnectionLimitEngine CompiledRule ConnLimitCall
  ShardedConnTracker trackerKey acquireLocal_cases acquire_of_selects acquire_of_selects_none
  unmatchedDecision Environment)
open Engine Foundation

variable {F : Type}

/-! ## The slot of a decision -/

def AccessDecision.connToken : AccessDecision → Option ConnectionToken
  | .allow _ _ _ connToken => connToken
  | .deny .. => none

def connLimitCall (ctx : RequestContext) (headerLookup : HeaderLookup) : ConnLimitCall :=
  ⟨ctx.host, ctx.path, ctx.clientIp, headerLookup⟩

inductive SlotOutcome (engine : ConnectionLimitEngine) (call : ConnLimitCall) :
    ShardedConnTracker → AccessDecision → Prop where
  | untouched {decision : AccessDecision} (htoken : AccessDecision.connToken decision = none) :
      SlotOutcome engine call engine.localTracker decision
  | granted {rule : CompiledRule} {identifier : Bytes} {next : ShardedConnTracker}
      {forwardedHeaders : Option HeaderList} {targetUpstream : Option Bytes} {rate : Nat}
      (hselects : engine.selects call = some (rule, identifier))
      (htakes : engine.Takes rule identifier next) :
      SlotOutcome engine call next (.allow forwardedHeaders targetUpstream rate
        (some ⟨false, rule.id.bytes, fromUtf8Lossy identifier⟩))

section Slot

variable [Flonum F] {engines : AccessPhaseEngines F} (ctx : RequestContext)
  (headerLookup : HeaderLookup) (world : Surroundings F) (servers : Servers F)
variable {engine : ConnectionLimitEngine}

theorem limitConnections_slot (hengine : engines.connectionLimit = some engine)
    (hmode : engine.mode = .localOnly) :
    ∃ next, (limitConnections engines ctx headerLookup world servers).1.connectionLimit =
        some { engine with localTracker := next } ∧
      ((next = engine.localTracker ∧
          ∀ token, (limitConnections engines ctx headerLookup world servers).2.2 ≠
            .ok (some token)) ∨
        ∃ rule identifier,
          engine.selects (connLimitCall ctx headerLookup) = some (rule, identifier) ∧
          engine.Takes rule identifier next ∧
          (limitConnections engines ctx headerLookup world servers).2.2 =
            .ok (some ⟨false, rule.id.bytes, fromUtf8Lossy identifier⟩)) := by
  cases hselects : engine.selects (connLimitCall ctx headerLookup) with
  | none =>
    refine ⟨engine.localTracker, ?_⟩
    rcases acquire_of_selects_none hselects world.connectionFate
      (servers world.connectionServer) with hacquire | hacquire <;>
      simp only [connLimitCall] at hacquire <;>
      simp [limitConnections, hengine, hacquire, unmatchedDecision]
  | some selected =>
    obtain ⟨rule, identifier⟩ := selected
    have hacquire := acquire_of_selects hmode hselects world.connectionFate
      (servers world.connectionServer)
    simp only [connLimitCall] at hacquire
    rcases acquireLocal_cases engine rule identifier with
      ⟨next, current, hlocal, htakes⟩ | ⟨-, current, hlocal⟩
    · refine ⟨next, ?_, .inr ⟨rule, identifier, rfl, htakes, ?_⟩⟩ <;>
        simp only [limitConnections, hengine, hacquire, hlocal]
      rfl
    · refine ⟨engine.localTracker, ?_, .inl ⟨rfl, ?_⟩⟩ <;>
        simp only [limitConnections, hengine, hacquire, hlocal]
      rw [if_neg (by simp [ConnectionLimit.Slot.decision, ConnectionLimit.refusedDecision])]
      simp

theorem evaluate_cases (engines : AccessPhaseEngines F) :
    ((evaluate engines ctx headerLookup world servers).1.connectionLimit =
        engines.connectionLimit ∧
      AccessDecision.connToken (evaluate engines ctx headerLookup world servers).2.2 = none) ∨
    ∃ engines' servers', engines'.connectionLimit = engines.connectionLimit ∧
      (evaluate engines ctx headerLookup world servers).1 =
        (limitConnections engines' ctx headerLookup world servers').1 ∧
      ((AccessDecision.connToken (evaluate engines ctx headerLookup world servers).2.2 = none ∧
          ∀ token, (limitConnections engines' ctx headerLookup world servers').2.2 ≠
            .ok (some token)) ∨
        ∃ connToken forwardedHeaders targetUpstream rate,
          (limitConnections engines' ctx headerLookup world servers').2.2 = .ok connToken ∧
          (evaluate engines ctx headerLookup world servers).2.2 =
            .allow forwardedHeaders targetUpstream rate connToken) := by
  have hloaded := limitRate_connectionLimit engines ctx headerLookup world servers
  unfold evaluate
  cases checkAdmission engines ctx with
  | some denial => exact .inl ⟨rfl, rfl⟩
  | none =>
    cases checkAuthentication engines ctx headerLookup with
    | error denial => exact .inl ⟨rfl, rfl⟩
    | ok authHeaders =>
      unfold checkLimits
      rcases hrate : limitRate engines ctx headerLookup world servers with
        ⟨engines', servers', result⟩
      rw [hrate] at hloaded
      cases result with
      | error denial => exact .inl ⟨hloaded, rfl⟩
      | ok done =>
        refine .inr ⟨engines', servers', hloaded, ?_⟩
        dsimp only
        rcases limitConnections engines' ctx headerLookup world servers' with
          ⟨engines'', servers'', result⟩
        cases result with
        | error denial => exact ⟨rfl, .inl ⟨rfl, fun _ => nofun⟩⟩
        | ok connToken => exact ⟨rfl, .inr ⟨connToken, _, _, _, rfl, rfl⟩⟩

theorem evaluate_slotOutcome (hengine : engines.connectionLimit = some engine)
    (hmode : engine.mode = .localOnly) :
    ∃ next, (evaluate engines ctx headerLookup world servers).1.connectionLimit =
        some { engine with localTracker := next } ∧
      SlotOutcome engine (connLimitCall ctx headerLookup) next
        (evaluate engines ctx headerLookup world servers).2.2 := by
  rcases evaluate_cases ctx headerLookup world servers engines with
    ⟨hsame, htoken⟩ | ⟨engines', servers', hloaded, hengines, hdecision⟩
  · exact ⟨engine.localTracker, hsame.trans hengine, .untouched htoken⟩
  · obtain ⟨next, hnext, hslot⟩ := limitConnections_slot ctx headerLookup world servers'
      (hloaded.trans hengine) hmode
    refine ⟨next, hengines ▸ hnext, ?_⟩
    rcases hslot with ⟨rfl, hnone⟩ | ⟨rule, identifier, hselects, htakes, hresult⟩
    · rcases hdecision with ⟨htoken, -⟩ | ⟨connToken, _, _, _, hresult, hallow⟩
      · exact .untouched htoken
      · cases connToken with
        | none => exact .untouched (by rw [hallow]; rfl)
        | some token => exact absurd hresult (hnone token)
    · rcases hdecision with ⟨-, hnone⟩ | ⟨connToken, _, _, _, hresult', hallow⟩
      · exact absurd hresult (hnone _)
      · rw [hresult, Except.ok.injEq] at hresult'
        rw [hallow, ← hresult']
        exact .granted hselects htakes

theorem evaluate_of_not_consulted (hengine : engines.connectionLimit = none) :
    (evaluate engines ctx headerLookup world servers).1.connectionLimit = none ∧
      AccessDecision.connToken (evaluate engines ctx headerLookup world servers).2.2 =
        none := by
  rcases evaluate_cases ctx headerLookup world servers engines with
    ⟨hsame, htoken⟩ | ⟨engines', servers', hloaded, hengines, hdecision⟩
  · exact ⟨hsame.trans hengine, htoken⟩
  · have hskip : limitConnections engines' ctx headerLookup world servers' =
        (engines', servers', .ok none) := by
      simp only [limitConnections, hloaded.trans hengine]
    rw [hskip] at hengines hdecision
    refine ⟨by rw [hengines, hloaded, hengine], ?_⟩
    rcases hdecision with ⟨htoken, -⟩ | ⟨connToken, _, _, _, hresult, hallow⟩
    · exact htoken
    · rw [hallow, ← Except.ok.inj hresult]
      rfl

end Slot

/-! ## The token of an outcome -/

def AuroraAccessOutcome.hasReleaseToken (outcome : AuroraAccessOutcome) : Bool :=
  (outcome.flags &&& auroraFlagHasReleaseToken) != 0

def heldToken (outcome : Option AuroraAccessOutcome) (rc : Nat) :
    Option AuroraReleaseToken :=
  if rc = 0 then (outcome.filter hasReleaseToken).map (·.releaseToken)
  else none

variable {outcome : AuroraAccessOutcome}

theorem heldToken_of_flags (hflags : outcome.hasReleaseToken = false) (rc : Nat) :
    heldToken (some outcome) rc = none := by
  simp [heldToken, hflags]

theorem writeHeaders_flags (alloc : Allocator) (first i : Nat) (headers : HeaderList)
    (outcome : AuroraAccessOutcome) :
    (writeHeaders alloc first i headers outcome).1.flags = outcome.flags := by
  induction headers generalizing i outcome with
  | nil => rfl
  | cons header rest ih =>
    unfold writeHeaders
    split
    · exact ih _ _
    · rfl

variable {alloc : Allocator} {space : GatewayActiveSpace F} {engine : ConnectionLimitEngine}

theorem writeHeaders_of_grants (hgrants : ∀ k, alloc.grants k = true)
    (first i : Nat) (headers : HeaderList) (outcome : AuroraAccessOutcome) :
    (writeHeaders alloc first i headers outcome).2 = true ∧
      (writeHeaders alloc first i headers outcome).1.releaseToken = outcome.releaseToken := by
  induction headers generalizing i outcome with
  | nil => exact ⟨rfl, rfl⟩
  | cons header rest ih =>
    rw [writeHeaders, if_pos (hgrants _)]
    exact ih _ _

theorem populateAllowOutcome_of_grants
    (hgrants : ∀ k, alloc.grants k = true) (outcome : AuroraAccessOutcome)
    (forwardedHeaders : HeaderList) (targetUpstream : Option Bytes) (rate : Nat)
    (tok : ConnectionToken) :
    (populateAllowOutcome outcome forwardedHeaders targetUpstream rate (some tok) alloc).2 =
        true ∧
      (populateAllowOutcome outcome forwardedHeaders targetUpstream rate (some tok)
        alloc).1.flags = auroraFlagHasReleaseToken ∧
      (populateAllowOutcome outcome forwardedHeaders targetUpstream rate (some tok)
        alloc).1.releaseToken = outcome.releaseToken.encode (some tok) := by
  unfold populateAllowOutcome
  dsimp only
  generalize houtcome : ({ outcome with
    action := auroraActionAllow, statusCode := 200, body := none, contentType := none
    headersCount := min forwardedHeaders.length auroraMaxForwardHeaders } :
    AuroraAccessOutcome) = start
  have htoken : start.releaseToken = outcome.releaseToken := by rw [← houtcome]
  obtain ⟨hok, hkept⟩ := writeHeaders_of_grants hgrants 0 0
    (forwardedHeaders.take (min forwardedHeaders.length auroraMaxForwardHeaders)) start
  rcases hwritten : writeHeaders alloc 0 0
    (forwardedHeaders.take (min forwardedHeaders.length auroraMaxForwardHeaders)) start with
    ⟨written, ok⟩
  rw [hwritten] at hok hkept
  dsimp only at hok hkept
  subst hok
  simp [hgrants, hkept, htoken]

theorem populateAllowOutcome_flags {forwardedHeaders : HeaderList} {targetUpstream : Option Bytes}
    {rate : Nat}
    (hok : (populateAllowOutcome outcome forwardedHeaders targetUpstream rate none alloc).2 =
      true) :
    (populateAllowOutcome outcome forwardedHeaders targetUpstream rate none alloc).1.flags =
      0 := by
  unfold populateAllowOutcome at hok ⊢
  dsimp only at hok ⊢
  split at hok
  · simp at hok
  · split at hok
    · simp at hok
    · rename_i hroom
      simp [hroom]

theorem populateCacheHitOutcome_flags (outcome : AuroraAccessOutcome)
    (hit : CacheHitOutcome) (alloc : Allocator) :
    (populateCacheHitOutcome outcome hit alloc).1.flags = auroraFlagCachePinned := by
  unfold populateCacheHitOutcome
  split
  · rfl
  · rw [writeHeaders_flags]

theorem populateDenyOutcome_flags (outcome : AuroraAccessOutcome) (status : Nat)
    (wwwAuthenticate : Bool) (contentType body : Option Bytes) (alloc : Allocator) :
    (populateDenyOutcome outcome status wwwAuthenticate contentType body alloc).1.flags =
      if wwwAuthenticate then auroraFlagWwwAuth else 0 := by
  unfold populateDenyOutcome
  dsimp only
  split
  · rfl
  · split <;> split <;> rfl

section Outcome

variable {space : Option (GatewayActiveSpace F)} {ctx : RequestContext} {call : AccessCall F}
  {decision : AccessDecision}

theorem heldToken_of_no_slot (out : AuroraAccessOutcome)
    (htoken : AccessDecision.connToken decision = none) :
    heldToken (some (populateOutcome space ctx call out decision).1)
      (rcOf (populateOutcome space ctx call out decision).2) = none := by
  have hflags : (populateOutcome space ctx call out decision).2 = true →
      (populateOutcome space ctx call out decision).1.hasReleaseToken = false := by
    intro hok
    cases decision with
    | deny status wwwAuthenticate contentType body =>
      rw [hasReleaseToken, populateOutcome, populateDenyOutcome_flags]
      cases wwwAuthenticate <;> decide
    | allow forwardedHeaders targetUpstream rate connToken =>
      obtain rfl : connToken = none := htoken
      simp only [populateOutcome] at hok ⊢
      split at hok
      · rw [hasReleaseToken, populateCacheHitOutcome_flags]
        decide
      · rw [hasReleaseToken, populateAllowOutcome_flags hok]
        decide
  cases hok : (populateOutcome space ctx call out decision).2 with
  | false => rfl
  | true => exact heldToken_of_flags (hflags hok) _

theorem heldToken_of_slot (out : AuroraAccessOutcome)
    {forwardedHeaders : Option HeaderList} {targetUpstream : Option Bytes} {rate : Nat}
    {tok : ConnectionToken}
    (hcache : (space.bind fun space => space.cachedResponse ctx call.headerLookup) = none)
    (hgrants : ∀ k, call.alloc.grants k = true) :
    heldToken
      (some (populateOutcome space ctx call out
        (.allow forwardedHeaders targetUpstream rate (some tok))).1)
      (rcOf (populateOutcome space ctx call out
        (.allow forwardedHeaders targetUpstream rate (some tok))).2) =
      some (out.releaseToken.encode (some tok)) := by
  obtain ⟨hok, hflags, htoken⟩ := populateAllowOutcome_of_grants hgrants out
    (forwardedHeaders.getD []) targetUpstream rate tok
  have hheld : (populateAllowOutcome out (forwardedHeaders.getD []) targetUpstream rate
      (some tok) call.alloc).1.hasReleaseToken = true := by
    rw [hasReleaseToken, hflags]
    decide
  simp [heldToken, rcOf, populateOutcome, hcache, hok, hheld, htoken]

end Outcome

/-! ## Runs of the gateway -/

structure Gateway (F : Type) where
  space : Option (GatewayActiveSpace F)
  servers : Servers F
  pending : List (Option AuroraReleaseToken)

/-- Besides the requests, every part of the space but the connection limiter may change. -/
inductive GatewayAction (F : Type) where
  | access (call : AccessCall F)
  | complete (token : Option AuroraReleaseToken) (world : Surroundings F)
  | change (space : GatewayActiveSpace F) (servers : Servers F)

def Gateway.start (space : GatewayActiveSpace F) (servers : Servers F) : Gateway F :=
  ⟨some space, servers, []⟩

variable [Flonum F]

def Gateway.step (s : Gateway F) : GatewayAction F → Option (Gateway F)
  | .access call =>
    let (space, servers, outcome, rc) := auroraGatewayPhaseAccess s.space s.servers call
    some ⟨space, servers, heldToken outcome rc :: s.pending⟩
  | .complete token world =>
    if token ∈ s.pending then
      let (space, servers) :=
        match token with
        | some token => auroraGatewayConnectionRelease s.space s.servers world (some token)
        | none => (s.space, s.servers)
      some ⟨space, servers, s.pending.erase token⟩
    else none
  | .change space servers =>
    some { s with
      space := s.space.map fun old => { space with connectionLimit := old.connectionLimit }
      servers := servers }

def Gateway.slots (s : Gateway F) (key : Bytes) : Option Nat :=
  (s.space.bind fun space => space.connectionLimit).map fun engine =>
    engine.localTracker.count key

def AccessCall.request (call : AccessCall F) : Option RequestContext :=
  call.outOutcome.bind fun _ => call.input.map extractRequestContext

/-- If the call lets a request through that holds a slot, then the texts of the slot fit
the token, no cached response is sent and the allocator never fails. -/
def SlotReturned (s : Gateway F) : GatewayAction F → Prop
  | .access call =>
    ∀ ctx space engine rule identifier, call.request = some ctx → s.space = some space →
      (space.buildPhaseEngines ctx.path).connectionLimit = some engine →
      engine.selects (connLimitCall ctx call.headerLookup) = some (rule, identifier) →
      AccessDecision.isAllow (evaluate (space.buildPhaseEngines ctx.path) ctx
        call.headerLookup call.world s.servers).2.2 = true →
      rule.id.bytes.length ≤ maxFieldBytes ∧
        (fromUtf8Lossy identifier).take maxFieldBytes = identifier ∧
        space.cachedResponse ctx call.headerLookup = none ∧
        ∀ k, call.alloc.grants k = true
  | _ => True

def tokenKey (token : Option AuroraReleaseToken) : Option Bytes :=
  (token.bind decode).map fun connToken =>
    trackerKey connToken.ruleId connToken.identifier

/-- The tracker counts the requests in progress by the keys of their tokens. -/
structure SlotInv (engine : ConnectionLimitEngine) (s : Gateway F) : Prop where
  balanced : ∃ space tracker, s.space = some space ∧
    space.connectionLimit = some { engine with localTracker := tracker } ∧
    Balanced tokenKey tracker.count s.pending

omit [Flonum F] in
theorem connectionLimit_of_consulted {path : Bytes}
    (h : (space.buildPhaseEngines path).connectionLimit = some engine) :
    space.connectionLimit = some engine := by
  simp only [GatewayActiveSpace.buildPhaseEngines] at h
  split at h
  · exact h
  · simp at h

theorem fits_of_valid {identifier : Bytes} (hvalid : validUtf8 identifier = true)
    (hlength : identifier.length ≤ maxFieldBytes) :
    (fromUtf8Lossy identifier).take maxFieldBytes = identifier := by
  rw [fromUtf8Lossy_of_valid hvalid, List.take_of_length_le hlength]

theorem tokenKey_of_fits (token : AuroraReleaseToken) {rule : CompiledRule}
    {identifier : Bytes} (hrule : rule.id.bytes.length ≤ maxFieldBytes)
    (hidentifier : (fromUtf8Lossy identifier).take maxFieldBytes = identifier) :
    tokenKey (some (token.encode
      (some ⟨false, rule.id.bytes, fromUtf8Lossy identifier⟩))) =
      some (trackerKey rule.id.bytes identifier) := by
  have hdecode := @decode_encode token
    ⟨false, rule.id.bytes, fromUtf8Lossy identifier⟩ rfl
  simp only [List.take_of_length_le hrule, rule.id.valid, if_true, hidentifier] at hdecode
  simp only [tokenKey, Option.bind_some, hdecode, Option.map_some]

variable {tracker : ShardedConnTracker} {pending : List (Option AuroraReleaseToken)}

theorem slotInv_evaluated {servers : Servers F} {ctx : RequestContext} {call : AccessCall F}
    (hmode : engine.mode = .localOnly)
    (hlimit : space.connectionLimit = some { engine with localTracker := tracker })
    (hbalanced : Balanced tokenKey tracker.count pending) (hrequest : call.request = some ctx)
    (hreturned : SlotReturned ⟨some space, servers, pending⟩ (.access call))
    (out : AuroraAccessOutcome) :
    let (engines, servers', decision) := evaluate (space.buildPhaseEngines ctx.path) ctx
      call.headerLookup call.world servers
    let (outcome, ok) := populateOutcome (some space) ctx call out decision
    SlotInv engine ⟨some (space.keepCounters engines), servers',
      heldToken (some outcome) (rcOf ok) :: pending⟩ := by
  dsimp only
  cases hconsulted : (space.buildPhaseEngines ctx.path).connectionLimit with
  | none =>
    obtain ⟨hkept, htoken⟩ := evaluate_of_not_consulted ctx call.headerLookup call.world
      servers hconsulted
    refine ⟨_, tracker, rfl, ?_, hbalanced.take_uncounted ?_⟩
    · simp only [GatewayActiveSpace.keepCounters, hkept, Option.none_or, hlimit]
    · rw [heldToken_of_no_slot _ htoken]
      rfl
  | some consulted =>
    obtain rfl : consulted = { engine with localTracker := tracker } :=
      Option.some.inj ((connectionLimit_of_consulted hconsulted).symm.trans hlimit)
    obtain ⟨next, hkept, houtcome⟩ := evaluate_slotOutcome ctx call.headerLookup call.world
      servers hconsulted hmode
    have hfits := fun rule identifier =>
      hreturned ctx space _ rule identifier hrequest rfl hconsulted
    refine ⟨_, next, rfl, ?_, ?_⟩
    · simp only [GatewayActiveSpace.keepCounters, hkept, Option.some_or]
    · generalize (evaluate (space.buildPhaseEngines ctx.path) ctx call.headerLookup
        call.world servers).2.2 = decision at houtcome hfits ⊢
      cases houtcome with
      | untouched htoken =>
        refine hbalanced.take_uncounted ?_
        rw [heldToken_of_no_slot _ htoken]
        rfl
      | granted hselects htakes =>
        obtain ⟨hrule, hidentifier, hcache, hgrants⟩ := hfits _ _ hselects rfl
        have hmissed : ((some space).bind fun active : GatewayActiveSpace F =>
            active.cachedResponse ctx call.headerLookup) = none := hcache
        rw [htakes.count, heldToken_of_slot _ hmissed hgrants]
        exact hbalanced.take (tokenKey_of_fits _ hrule hidentifier)

theorem decode_isRedis {token : AuroraReleaseToken}
    {connToken : ConnectionLimit.ConnLimitToken} (h : token.decode = some connToken) :
    connToken.isRedis = false := by
  unfold decode at h
  split at h
  · simp at h
  · rw [← Option.some.inj h]

theorem connectionRelease_fst (space : GatewayActiveSpace F) (servers : Servers F)
    (world : Surroundings F) (token : Option AuroraReleaseToken) :
    (auroraGatewayConnectionRelease (some space) servers world token).1 =
      some (match tokenKey token, space.connectionLimit with
        | some key, some engine =>
          { space with
            connectionLimit :=
              some { engine with localTracker := engine.localTracker.release key } }
        | _, _ => space) := by
  unfold auroraGatewayConnectionRelease tokenKey
  cases hdecode : token.bind decode with
  | none => rfl
  | some connToken =>
    cases hlimit : space.connectionLimit with
    | none => simp [hlimit]
    | some engine =>
      obtain ⟨bytes, -, hbytes⟩ := Option.bind_eq_some_iff.mp hdecode
      simp [hlimit, ConnectionLimitEngine.release, ConnectionLimitEngine.releaseLocal,
        decode_isRedis hbytes]

theorem slotInv_completed {servers : Servers F} {world : Surroundings F}
    {token : Option AuroraReleaseToken}
    (hlimit : space.connectionLimit = some { engine with localTracker := tracker })
    (hbalanced : Balanced tokenKey tracker.count pending) (hmem : token ∈ pending) :
    let (active, servers) :=
      match token with
      | some token => auroraGatewayConnectionRelease (some space) servers world (some token)
      | none => (some space, servers)
    SlotInv engine ⟨active, servers, pending.erase token⟩ := by
  cases token with
  | none => exact ⟨space, tracker, rfl, hlimit, hbalanced.give_uncounted rfl⟩
  | some token =>
    have hactive := connectionRelease_fst space servers world (some token)
    cases hkey : tokenKey (some token) with
    | none =>
      rw [hkey] at hactive
      exact ⟨space, tracker, hactive, hlimit, hbalanced.give_uncounted hkey⟩
    | some key =>
      rw [hkey, hlimit] at hactive
      refine ⟨_, _, hactive, rfl, ?_⟩
      rw [ShardedConnTracker.count_release]
      exact hbalanced.give hmem hkey

theorem slotInv_step {s t : Gateway F}
    {action : GatewayAction F} (hmode : engine.mode = .localOnly) (hinv : SlotInv engine s)
    (hreturned : SlotReturned s action) (hstep : s.step action = some t) :
    SlotInv engine t := by
  obtain ⟨active, servers, pending⟩ := s
  obtain ⟨space, tracker, rfl, hlimit, hbalanced⟩ := hinv.balanced
  cases action with
  | access call =>
    simp only [Gateway.step, Option.some.injEq] at hstep
    subst hstep
    cases hout : call.outOutcome with
    | none =>
      simp only [auroraGatewayPhaseAccess, hout]
      exact ⟨space, tracker, rfl, hlimit, hbalanced.take_uncounted rfl⟩
    | some out =>
      cases hinput : call.input with
      | none =>
        simp only [auroraGatewayPhaseAccess, hout, hinput]
        rw [heldToken_of_flags (by simp [hasReleaseToken,
          AuroraAccessOutcome.default])]
        exact ⟨space, tracker, rfl, hlimit, hbalanced.take_uncounted rfl⟩
      | some input =>
        simp only [auroraGatewayPhaseAccess, hout, hinput, Option.map_some,
          Option.getD_some]
        exact slotInv_evaluated hmode hlimit hbalanced
          (by rw [AccessCall.request, hout, hinput]; rfl) hreturned _
  | complete token world =>
    simp only [Gateway.step] at hstep
    split at hstep
    · rename_i hmem
      rw [← Option.some.inj hstep]
      exact slotInv_completed hlimit hbalanced hmem
    · simp at hstep
  | change other servers' =>
    simp only [Gateway.step, Option.some.injEq] at hstep
    subst hstep
    exact ⟨_, tracker, rfl, hlimit, hbalanced⟩

/-- In every run of an accepted local policy in which every slot is returned, no slot is in
use once every request has ended. -/
theorem slots_conserved {env : Environment} {bytes : Bytes} {engine : ConnectionLimitEngine}
    (haccept : ConnectionLimitEngine.fromSnapshot env bytes = .ok engine)
    (hmode : engine.mode = .localOnly) {space : GatewayActiveSpace F}
    (hloaded : space.connectionLimit = some engine) (servers : Servers F)
    {actions : List (GatewayAction F)} {t : Gateway F}
    (hrun : RunsUnder Gateway.step SlotReturned (.start space servers) actions t)
    (hended : t.pending = []) (key : Bytes) : t.slots key = some 0 := by
  obtain ⟨snapshot, -, haccepted⟩ := ConnectionLimitEngine.fromSnapshot_ok haccept
  have hstart : SlotInv engine (Gateway.start space servers) := by
    refine ⟨space, engine.localTracker, rfl, hloaded, ?_⟩
    rw [haccepted.tracker]
    exact Balanced.nil
  have hinv : SlotInv engine t :=
    RunsUnder.invariant (fun hinv hok hstep => slotInv_step hmode hinv hok hstep) hrun hstart
  obtain ⟨last, tracker, hlast, hlimit, hbalanced⟩ := hinv.balanced
  have hcount : tracker.count key = 0 := by
    rw [hbalanced key, hended]
    rfl
  simp only [Gateway.slots, hlast, Option.bind_some, hlimit, Option.map_some, hcount]

/-! ## Samples -/

def clientSnapshot : ConnectionLimit.ConnLimitSnapshot where
  schemaVersion := 1
  generation := 1
  mode := .localOnly
  redis := none
  rules :=
    [{ ConnectionLimit.headerRule ⟨ascii "clients", by decide⟩ 0 rootText
        ConnectionLimit.userHeader 2 with
      limitBy := clientIpText, headerName := none }]

def limiterSpace (engine : ConnectionLimitEngine) : GatewayActiveSpace ℚ where
  toAccessPhaseEngines := { AccessPhaseEngines.none with connectionLimit := some engine }
  responseCache := none
  routeTrie := .ofList []

def clientInput (clientIp : Bytes) : AuroraAccessInput where
  clientIp := clientIp
  host := ascii "example.com"
  path := ascii "/"
  method := ascii "GET"
  query := []
  contentLength := 0
  headerLength := 0
  randomSeed := 0
  nowMs := 0

def clientAccess (clientIp : Bytes) : AccessCall ℚ where
  input := some (clientInput clientIp)
  lookupFn := none
  alloc := some fun _ => true
  outOutcome := some .default
  world := .calm

def clientToken (clientIp : Bytes) : AuroraReleaseToken :=
  AuroraReleaseToken.default.encode (some ⟨false, ascii "clients", clientIp⟩)

def clientRequest (clientIp : Bytes) : List (GatewayAction ℚ) :=
  [.access (clientAccess clientIp), .complete (some (clientToken clientIp)) .calm]

theorem slotReturned_clientAccess {clientIp : Bytes}
    (hselects : ((engine.selects (connLimitCall (extractRequestContext (clientInput clientIp))
      (clientAccess clientIp).headerLookup)).map fun selected =>
        (selected.1.id.bytes, selected.2)) = some (ascii "clients", clientIp))
    (hfits : (fromUtf8Lossy clientIp).take maxFieldBytes = clientIp) (servers : Servers ℚ) :
    SlotReturned (.start (limiterSpace engine) servers) (.access (clientAccess clientIp)) := by
  rintro ctx space consulted rule identifier hctx hspace hconsulted hselected -
  obtain rfl := Option.some.inj hctx
  obtain rfl := Option.some.inj hspace
  obtain rfl := Option.some.inj (connectionLimit_of_consulted hconsulted)
  rw [hselected] at hselects
  obtain ⟨hrule, hidentifier⟩ := Prod.mk.inj (Option.some.inj hselects)
  dsimp only at hrule hidentifier
  refine ⟨by rw [hrule]; decide, by rw [hidentifier]; exact hfits, ?_, fun _ => rfl⟩
  unfold GatewayActiveSpace.cachedResponse
  split <;> rfl

theorem short_address_returns_slot :
    ∃ engine : ConnectionLimitEngine,
      ConnectionLimitEngine.fromSnapshot (.constant clientSnapshot) [0] = .ok engine ∧
        ∃ t : Gateway ℚ,
          execute Gateway.step (.start (limiterSpace engine) fun _ => .empty)
            (clientRequest (ascii "10.0.0.1")) = some t ∧
          ∀ key, t.slots key = some 0 := by
  refine ⟨_, rfl, ?_⟩
  refine Exists.imp (fun t h => ⟨h.1, ?_⟩) (Option.map_eq_some_iff.mp
    (?_ : Option.map (fun t : Gateway ℚ => t.pending) _ = some []))
  · obtain ⟨hrun, hended⟩ := h
    obtain ⟨s, haccess, hrest⟩ := Option.bind_eq_some_iff.mp hrun
    obtain ⟨u, hcomplete, hlast⟩ := Option.bind_eq_some_iff.mp hrest
    obtain rfl := Option.some.inj hlast
    refine @slots_conserved ℚ _ (.constant clientSnapshot) [0] _ rfl rfl _ rfl _ _ _
      (.cons ?_ haccess (.cons ?_ hcomplete (.nil _))) hended
    · exact slotReturned_clientAccess (by decide +kernel) (fits_of_valid (by decide)
        (by decide)) _
    · exact trivial
  · decide +kernel

/-- The address has 36 bytes: its slot is still taken after its request has ended. -/
theorem long_address_leaks_slot :
    ∃ engine : ConnectionLimitEngine,
      ConnectionLimitEngine.fromSnapshot (.constant clientSnapshot) [0] = .ok engine ∧
        engine.mode = .localOnly ∧
        ∃ t : Gateway ℚ,
          execute Gateway.step (.start (limiterSpace engine) fun _ => .empty)
            (clientRequest (ascii "2001:db8:85a3:8d3:1319:8a2e:370:7348")) = some t ∧
          t.pending = [] ∧
          t.slots (ascii "clients:2001:db8:85a3:8d3:1319:8a2e:370:7348") = some 1 := by
  refine ⟨_, rfl, rfl, ?_⟩
  decide +kernel

end AuroraGateway.Ffi
