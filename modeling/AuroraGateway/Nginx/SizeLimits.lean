import AuroraGateway.Nginx.IdentityHeaders
import AuroraGateway.ResourceLimit.Snapshot

/-!
# The sizes of a request

The resource limiter compares two numbers that the adapter hands over: the
bytes that the host has read into the current header buffer, and the declared
length of the body.  A header that lies in several buffers is larger than the
first, and a body in chunks has no declared length.
-/

namespace AuroraGateway.Nginx

open Access Engine Ffi Foundation
open ResourceLimit (AcceptedPolicy Exceeds ResourceLimiter ResourceLimitRuleInput)

/-! ## What the client sends -/

structure HeaderSection where
  /-- Bytes that are not in `header_in`: they lie in buffers that were full, or in none. -/
  elsewhere : Nat
  /-- Bytes in `header_in` ahead of them, of an earlier request on the connection. -/
  preceding : Nat
  /-- Bytes in `header_in`. -/
  current : Nat
  fits : preceding + current < 2 ^ 63

namespace HeaderSection

def size (header : HeaderSection) : Nat := header.elsewhere + header.current

/-- The distance from `header_in->start` to `header_in->pos`. -/
def length (header : HeaderSection) : Nat := header.preceding + header.current

end HeaderSection

inductive BodyFraming where
  | absent
  | contentLength (length : Fin (2 ^ 63))
  | chunked (size : Nat)

namespace BodyFraming

def size : BodyFraming → Nat
  | .absent => 0
  | .contentLength length => length
  | .chunked size => size

def contentLengthN : BodyFraming → Int
  | .absent => -1
  | .contentLength length => (length : Nat)
  | .chunked _ => -1

theorem contentLengthN_lt (body : BodyFraming) : body.contentLengthN.toNat < 2 ^ 63 := by
  cases body with
  | absent => decide
  | contentLength length => exact length.isLt
  | chunked size => exact Nat.two_pow_pos 63

end BodyFraming

structure SentRequest where
  request : Request
  client : List TableElt
  header : HeaderSection
  body : BodyFraming

namespace SentRequest

variable (sent : SentRequest)

def arrival {F : Type} (arrival : Request.Arrival F) : Request.Arrival F :=
  { arrival with
    contentLengthN := sent.body.contentLengthN
    headerLength := sent.header.length }

def context {F : Type} (arrival : Request.Arrival F) : RequestContext :=
  extractRequestContext (sent.request.accessInput (sent.arrival arrival))

def host : Bytes :=
  sliceOrDefault
    (if sent.request.server.isEmpty then sent.request.serverName else sent.request.server)
    (ascii "localhost")

def path : Bytes := sliceOrDefault sent.request.origPath (ascii "/")

end SentRequest

/-! ## The handler -/

def ngxOk : Int := 0
def ngxDone : Int := -4
def ngxDeclined : Int := -5
def ngxHttpInternalServerError : Int := 500

structure HandlerResult where
  code : Int
  fromCache : Bool
  deriving DecidableEq

/-- Without a body the status itself is the return code. -/
def executeDeny (isHead bufferGranted : Bool) (outcome : AuroraAccessOutcome) : HandlerResult where
  code :=
    if (outcome.body.getD []).isEmpty then outcome.statusCode
    else if !isHead && !bufferGranted then ngxHttpInternalServerError
    else ngxDone
  fromCache := (outcome.flags &&& auroraFlagCachePinned) != 0

def finishAccess (isHead bufferGranted : Bool) (grants : Nat → Bool) (client : List TableElt) :
    Option AuroraAccessOutcome × Nat → HandlerResult
  | (some outcome, 0) =>
    if outcome.action = auroraActionDeny then executeDeny isHead bufferGranted outcome
    else if (executeAllow grants client outcome).isSome then ⟨ngxDeclined, false⟩
    else ⟨ngxHttpInternalServerError, false⟩
  | _ => ⟨ngxHttpInternalServerError, false⟩

def passesOn (code : Int) : Bool := code == ngxOk || code == ngxDeclined

/-- A gateway that has the policy in force on the path, with its other engines, and the host. -/
structure LimitingGateway (F : Type) (limiter : ResourceLimiter) (path : Bytes) where
  space : GatewayActiveSpace F
  loaded : space.resourceLimit = some limiter
  enabled : enables (space.resolveRouteMask path) auroraExtResourceLimit = true
  servers : Servers F
  arrival : Request.Arrival F
  grants : Nat → Bool
  bufferGranted : Bool
  /-- Zero is no limit. -/
  clientMaxBodySize : Nat

namespace LimitingGateway

variable {F : Type} [Flonum F] {limiter : ResourceLimiter} {path : Bytes}
  (gateway : LimitingGateway F limiter path) (sent : SentRequest)

def call : AccessCall F :=
  accessCall sent.client (sent.request.accessInput (sent.arrival gateway.arrival))
    (some gateway.arrival.alloc) gateway.arrival.outcome gateway.arrival.world

def result : HandlerResult :=
  finishAccess (sent.request.methodName == ascii "HEAD") gateway.bufferGranted gateway.grants
    sent.client
    (auroraGatewayPhaseAccess (some gateway.space) gateway.servers (gateway.call sent)).2.2

def hostRefuses : Bool :=
  gateway.clientMaxBodySize != 0 && gateway.clientMaxBodySize < sent.body.size

def reachesUpstream : Bool := !gateway.hostRefuses sent && passesOn (gateway.result sent).code

def refuses : Bool :=
  gateway.hostRefuses sent ||
    (!passesOn (gateway.result sent).code && !(gateway.result sent).fromCache)

end LimitingGateway

/-! ## Denials -/

def Ends (denial : AccessDenial) : Prop :=
  denial.status ≠ 0 ∨ denial.body.getD [] ≠ []

theorem populateDenyOutcome_ok {outcome after : AuroraAccessOutcome} {status : Nat}
    {wwwAuthenticate : Bool} {contentType body : Option Bytes} {alloc : Allocator}
    (h : populateDenyOutcome outcome status wwwAuthenticate contentType body alloc =
      (after, true)) :
    after.action = auroraActionDeny ∧ after.statusCode = status ∧
      after.flags = (if wwwAuthenticate then auroraFlagWwwAuth else 0) ∧
      after.body = body.map fun b => b.take 65536 := by
  unfold populateDenyOutcome at h
  generalize (if contentType.isSome then 1 else 0) = bodyCall at h
  dsimp only at h
  split at h
  · cases h
  split at h
  · cases h
  obtain rfl := (Prod.mk.inj h).1
  exact ⟨rfl, rfl, rfl, rfl⟩

theorem not_passesOn_of_pos {code : Nat} (h : code ≠ 0) : passesOn code = false := by
  have hok : ((code : Int) == ngxOk) = false := by
    simp [ngxOk, h]
  rw [passesOn, hok]
  rfl

theorem executeDeny_of_ends {denial : AccessDenial} (hends : Ends denial)
    (hwww : denial.wwwAuthenticate = false) {after : AuroraAccessOutcome}
    (hstatus : after.statusCode = denial.status)
    (hflags : after.flags = (if denial.wwwAuthenticate then auroraFlagWwwAuth else 0))
    (hbody : after.body = denial.body.map fun b => b.take 65536) (isHead bufferGranted : Bool) :
    passesOn (executeDeny isHead bufferGranted after).code = false ∧
      (executeDeny isHead bufferGranted after).fromCache = false := by
  have hcache : (executeDeny isHead bufferGranted after).fromCache = false := by
    rw [executeDeny, hflags, hwww]
    rfl
  refine ⟨?_, hcache⟩
  have hsent : after.body.getD [] = (denial.body.getD []).take 65536 := by
    rw [hbody]
    cases denial.body <;> rfl
  by_cases hempty : denial.body.getD [] = []
  · have hnonzero : denial.status ≠ 0 := hends.resolve_right (not_not.mpr hempty)
    have hcode : (executeDeny isHead bufferGranted after).code = (denial.status : Int) := by
      simp [executeDeny, hsent, hstatus, hempty]
    rw [hcode, not_passesOn_of_pos hnonzero]
  · have hcode : (executeDeny isHead bufferGranted after).code =
        if !isHead && !bufferGranted then ngxHttpInternalServerError else ngxDone := by
      simp [executeDeny, hsent, hempty]
    rw [hcode]
    cases isHead <;> cases bufferGranted <;> decide

theorem finishAccess_of_ends {denial : AccessDenial} (hends : Ends denial)
    (hwww : denial.wwwAuthenticate = false) (outcome : AuroraAccessOutcome) (alloc : Allocator)
    (isHead bufferGranted : Bool) (grants : Nat → Bool) (client : List TableElt) :
    let populated := populateDenyOutcome outcome denial.status denial.wwwAuthenticate
      denial.contentType denial.body alloc
    let result := finishAccess isHead bufferGranted grants client
      (some populated.1, rcOf populated.2)
    passesOn result.code = false ∧ result.fromCache = false := by
  dsimp only
  cases hpopulated : populateDenyOutcome outcome denial.status denial.wwwAuthenticate
      denial.contentType denial.body alloc with
  | mk after ok =>
    cases ok with
    | false => exact ⟨rfl, rfl⟩
    | true =>
      obtain ⟨haction, hstatus, hflags, hbody⟩ := populateDenyOutcome_ok hpopulated
      have hfinish : finishAccess isHead bufferGranted grants client
          (some after, rcOf true) = executeDeny isHead bufferGranted after := if_pos haction
      rw [hfinish]
      exact executeDeny_of_ends hends hwww hstatus hflags hbody isHead bufferGranted

/-! ## Requests that a rule governs -/

structure LimitedRequest where
  policy : AcceptedPolicy
  sent : SentRequest
  rule : ResourceLimitRuleInput
  governs : policy.snapshot.governing sent.host sent.path = some rule

theorem sliceOrDefault_ne_nil {bytes fallback : Bytes} (h : fallback ≠ []) :
    sliceOrDefault bytes fallback ≠ [] := by
  unfold sliceOrDefault
  split
  · exact h
  · rename_i hne
    simpa using hne

namespace LimitedRequest

variable (request : LimitedRequest)

def Oversized : Prop :=
  Exceeds request.rule.headerLimit request.sent.header.size ∨
    Exceeds request.rule.payloadLimit request.sent.body.size

def Evaluated : Prop :=
  request.sent.host.length ≤ 253 ∧ request.sent.path.length ≤ maxPathBytes

/-- The part of the header in the current buffer, or the declared length, is too large. -/
def Seen : Prop :=
  Exceeds request.rule.headerLimit request.sent.header.length ∨
    Exceeds request.rule.payloadLimit request.sent.body.contentLengthN.toNat

instance : Decidable request.Evaluated := inferInstanceAs (Decidable (_ ∧ _))

instance : Decidable request.Seen := inferInstanceAs (Decidable (_ ∨ _))

def answer : Nat × Bytes :=
  request.rule.answer request.policy.env.comparator request.sent.header.length

def denial : AccessDenial where
  status := request.answer.1
  wwwAuthenticate := false
  contentType := none
  body := if request.answer.2.isEmpty then none else some request.answer.2

/-- The answer of the rule has a status that is not zero, or a body. -/
def Answered : Prop := request.answer.1 ≠ 0 ∨ request.answer.2 ≠ []

theorem ends_denial_iff : Ends request.denial ↔ request.Answered := by
  unfold Ends Answered denial
  cases request.answer.2 <;> simp

theorem invalidRequest_eq :
    ResourceLimiter.invalidRequest ⟨request.sent.host, request.sent.path,
      request.sent.header.length, request.sent.body.contentLengthN.toNat⟩ =
      !decide request.Evaluated := by
  have hhost : request.sent.host ≠ [] := sliceOrDefault_ne_nil (by decide)
  have hpath : request.sent.path ≠ [] := sliceOrDefault_ne_nil (by decide)
  have hroot := request.policy.isPrefixOf_of_governing request.governs
  unfold ResourceLimiter.invalidRequest Evaluated
  rw [hroot]
  by_cases hlong : request.sent.host.length ≤ 253 <;>
    by_cases hlong' : request.sent.path.length ≤ maxPathBytes <;>
    simp [hhost, hpath, hlong, hlong', ← Nat.not_le]

section Engines

variable {F : Type} {engines : AccessPhaseEngines F}

theorem evaluateCtx_eq (arrival : Request.Arrival F) :
    request.policy.limiter.evaluateCtx (request.sent.context arrival) =
      if request.Evaluated ∧ request.Seen then
        .reject request.answer.1 request.answer.2 request.rule.id.bytes
      else .allow := by
  have hinvalid := request.invalidRequest_eq
  have hsizes : request.policy.limiter.evaluateCtx (request.sent.context arrival) =
      request.policy.limiter.evaluate ⟨request.sent.host, request.sent.path,
        request.sent.header.length, request.sent.body.contentLengthN.toNat⟩ := rfl
  rw [hsizes]
  by_cases hevaluated : request.Evaluated
  · rw [decide_eq_true hevaluated] at hinvalid
    rw [request.policy.evaluate_eq request.governs hinvalid request.sent.header.fits
      request.sent.body.contentLengthN_lt]
    by_cases hseen : request.Seen
    · rw [if_pos (show _ ∧ _ from ⟨hevaluated, hseen⟩)]
      exact if_pos hseen
    · rw [if_neg (show ¬(_ ∧ _) from fun h => hseen h.2)]
      exact if_neg hseen
  · rw [decide_eq_false hevaluated] at hinvalid
    rw [if_neg (show ¬(_ ∧ _) from fun h => hevaluated h.1), ResourceLimiter.evaluate, hinvalid]
    rfl

theorem admitResources_eq (hloaded : engines.resourceLimit = some request.policy.limiter)
    (arrival : Request.Arrival F) :
    admitResources engines (request.sent.context arrival) =
      if request.Evaluated ∧ request.Seen then some request.denial else none := by
  rw [admitResources, hloaded]
  dsimp only
  rw [request.evaluateCtx_eq arrival]
  split <;> rfl

theorem exists_denial (hloaded : engines.resourceLimit = some request.policy.limiter)
    (hevaluated : request.Evaluated) (hseen : request.Seen) (hanswered : request.Answered)
    (arrival : Request.Arrival F) :
    ∃ denial, checkAdmission engines (request.sent.context arrival) = some denial ∧
      Ends denial ∧ denial.wwwAuthenticate = false := by
  have hresources := request.admitResources_eq hloaded arrival
  rw [if_pos ⟨hevaluated, hseen⟩] at hresources
  rw [checkAdmission, hresources]
  cases hip : admitIp engines (request.sent.context arrival) with
  | none => exact ⟨request.denial, rfl, request.ends_denial_iff.mpr hanswered, rfl⟩
  | some denial =>
    have hdenied : denial = denied 403 := by
      unfold admitIp at hip
      split at hip
      · cases hip
      · split at hip
        · cases hip
        · split at hip
          · exact (Option.some.inj hip).symm
          · cases hip
    subst hdenied
    exact ⟨_, rfl, .inl (by decide), rfl⟩

theorem loaded_buildPhaseEngines
    (gateway : LimitingGateway F request.policy.limiter request.sent.path) :
    (gateway.space.buildPhaseEngines (request.sent.context gateway.arrival).path).resourceLimit =
      some request.policy.limiter := by
  have henabled : enables (gateway.space.resolveRouteMask
      (request.sent.context gateway.arrival).path) auroraExtResourceLimit = true := gateway.enabled
  simp only [GatewayActiveSpace.buildPhaseEngines, henabled, if_true]
  exact gateway.loaded

end Engines

section Gateways

variable {F : Type} [Flonum F]
  (gateway : LimitingGateway F request.policy.limiter request.sent.path)

theorem result_eq :
    let ctx := request.sent.context gateway.arrival
    let call := gateway.call request.sent
    let populated := populateOutcome (some gateway.space) ctx call
      { gateway.arrival.outcome with routeMask := gateway.space.resolveRouteMask ctx.path }
      (evaluate (gateway.space.buildPhaseEngines ctx.path) ctx call.headerLookup
        gateway.arrival.world gateway.servers).2.2
    gateway.result request.sent =
      finishAccess (request.sent.request.methodName == ascii "HEAD") gateway.bufferGranted
        gateway.grants request.sent.client (some populated.1, rcOf populated.2) :=
  rfl

theorem refuses_of_seen (hevaluated : request.Evaluated) (hseen : request.Seen)
    (hanswered : request.Answered) :
    gateway.refuses request.sent = true ∧ gateway.reachesUpstream request.sent = false := by
  obtain ⟨denial, hadmission, hends, hwww⟩ := request.exists_denial
    (request.loaded_buildPhaseEngines gateway) hevaluated hseen hanswered gateway.arrival
  have hresult := request.result_eq gateway
  dsimp only at hresult
  rw [evaluate, hadmission] at hresult
  have hrefused : passesOn (gateway.result request.sent).code = false ∧
      (gateway.result request.sent).fromCache = false := by
    rw [hresult]
    exact finishAccess_of_ends hends hwww _ _ _ _ _ _
  constructor
  · rw [LimitingGateway.refuses, hrefused.1, hrefused.2]
    exact Bool.or_true _
  · rw [LimitingGateway.reachesUpstream, hrefused.1]
    exact Bool.and_false _

end Gateways

/-! ## A gateway without other engines -/

section Bare

variable {F : Type}

def bareEngines : AccessPhaseEngines F :=
  { AccessPhaseEngines.none with resourceLimit := some request.policy.limiter }

def bareSpace : GatewayActiveSpace F where
  toAccessPhaseEngines := request.bareEngines
  responseCache := none
  routeTrie := .ofList []

theorem resolveRouteMask_bareSpace (path : Bytes) :
    (request.bareSpace : GatewayActiveSpace F).resolveRouteMask path = u32Mask := by
  rw [GatewayActiveSpace.resolveRouteMask, BuiltTree.forEachMatch_eq]
  rfl

def bareGateway : LimitingGateway F request.policy.limiter request.sent.path where
  space := request.bareSpace
  loaded := rfl
  enabled := by
    rw [request.resolveRouteMask_bareSpace]
    rfl
  servers := fun _ => .empty
  arrival :=
    { addrText := []
      contentLengthN := 0
      headerLength := 0
      randomSeed := 0
      nowMs := 0
      alloc := fun _ => true
      outcome := .default
      world := .calm
      clockSec := 0
      pointer := fun _ => 0 }
  grants := fun _ => true
  bufferGranted := true
  clientMaxBodySize := 0

theorem buildPhaseEngines_bareSpace (path : Bytes) :
    (request.bareSpace : GatewayActiveSpace F).buildPhaseEngines path = request.bareEngines := by
  rw [GatewayActiveSpace.buildPhaseEngines, request.resolveRouteMask_bareSpace]
  rfl

theorem cachedResponse_bareSpace (ctx : RequestContext) (lookup : HeaderLookup) :
    (request.bareSpace : GatewayActiveSpace F).cachedResponse ctx lookup = none := by
  unfold GatewayActiveSpace.cachedResponse
  split <;> rfl

theorem populateOutcome_bareSpace (ctx : RequestContext) (call : AccessCall F)
    (outcome : AuroraAccessOutcome) :
    populateOutcome (some request.bareSpace) ctx call outcome (.allow none none 0 none) =
      populateAllowOutcome outcome [] none 0 none call.alloc := by
  have hmiss : (some (request.bareSpace : GatewayActiveSpace F)).bind (fun space =>
      space.cachedResponse ctx call.headerLookup) = none :=
    request.cachedResponse_bareSpace ctx call.headerLookup
  rw [populateOutcome, hmiss]
  rfl

variable (F) in
theorem checkAdmission_bareEngines (arrival : Request.Arrival F) :
    checkAdmission (request.bareEngines : AccessPhaseEngines F) (request.sent.context arrival) =
      if request.Evaluated ∧ request.Seen then some request.denial else none := by
  have hresources := @admitResources_eq request F request.bareEngines rfl arrival
  rw [checkAdmission, hresources]
  split <;> rfl

variable [Flonum F]

theorem evaluate_bareEngines (arrival : Request.Arrival F) (lookup : HeaderLookup)
    (world : Surroundings F) (servers : Servers F) :
    (evaluate request.bareEngines (request.sent.context arrival) lookup world servers).2.2 =
      if request.Evaluated ∧ request.Seen then request.denial.toDecision
      else .allow none none 0 none := by
  rw [evaluate, request.checkAdmission_bareEngines F]
  split_ifs <;> rfl

theorem bareGateway_passesOn (h : ¬(request.Evaluated ∧ request.Seen ∧ request.Answered)) :
    passesOn ((request.bareGateway : LimitingGateway F _ _).result request.sent).code = true := by
  have hresult := request.result_eq (request.bareGateway : LimitingGateway F _ _)
  dsimp only at hresult
  rw [show (request.bareGateway : LimitingGateway F _ _).space = request.bareSpace from rfl,
    request.buildPhaseEngines_bareSpace, request.evaluate_bareEngines] at hresult
  by_cases hdenied : request.Evaluated ∧ request.Seen
  · have hstatus : request.answer.1 = 0 := by
      by_contra hne
      exact h ⟨hdenied.1, hdenied.2, .inl hne⟩
    have hbody : request.answer.2 = [] := by
      by_contra hne
      exact h ⟨hdenied.1, hdenied.2, .inr hne⟩
    have hdenial : request.denial = ⟨0, false, none, none⟩ := by
      rw [denial, hstatus, hbody]
      rfl
    rw [if_pos hdenied, hdenial] at hresult
    rw [hresult]
    rfl
  · rw [if_neg hdenied, request.populateOutcome_bareSpace] at hresult
    rw [hresult]
    rfl

theorem bareGateway_reachesUpstream
    (h : ¬(request.Evaluated ∧ request.Seen ∧ request.Answered)) :
    (request.bareGateway : LimitingGateway F _ _).reachesUpstream request.sent = true := by
  rw [LimitingGateway.reachesUpstream, request.bareGateway_passesOn h]
  rfl

end Bare

/-- A size over a limit is refused in every gateway exactly if the limiter evaluates requests of
that host and path, the excess lies in the current header buffer or in the declared length, and the
answer of the rule is not empty. -/
theorem size_limits_bind_iff {F : Type} [Flonum F] :
    (∀ gateway : LimitingGateway F request.policy.limiter request.sent.path, request.Oversized →
      gateway.refuses request.sent = true ∧ gateway.reachesUpstream request.sent = false) ↔
    (request.Oversized → request.Evaluated ∧ request.Seen ∧ request.Answered) := by
  constructor
  · intro h hoversized
    by_contra hnot
    obtain ⟨-, hreaches⟩ := h request.bareGateway hoversized
    rw [request.bareGateway_reachesUpstream hnot] at hreaches
    cases hreaches
  · intro h gateway hoversized
    obtain ⟨hevaluated, hseen, hanswered⟩ := h hoversized
    exact request.refuses_of_seen gateway hevaluated hseen hanswered

end LimitedRequest

/-! ## Sizes that are not seen -/

def kilobyteRule : ResourceLimitRuleInput where
  id := ⟨ascii "limit", by decide⟩
  priority := 100
  origin := wildcardText
  pathPrefix := rootText
  headerLimit := 1000
  payloadLimit := 1000
  rejectedCodeHeader := 431
  rejectedCodePayload := 413
  responseBodyHeader := ⟨ascii "too large", by decide⟩
  responseBodyPayload := ⟨ascii "too large", by decide⟩

def kilobytePolicy : AcceptedPolicy where
  env := ⟨fun _ => some ⟨1, 1, [kilobyteRule]⟩, .portable⟩
  bytes := [0]
  snapshot := ⟨1, 1, [kilobyteRule]⟩
  parsed := rfl
  limiter :=
    { generation := 1
      rules :=
        [{ id := ascii "limit"
           priority := 100
           host := .any
           pathPrefix := ascii "/"
           rawHeaderLimit := 1000
           rawPayloadLimit := 1000
           effectiveHeaderLimit := 1000
           effectivePayloadLimit := 1000
           statusTable := kilobyteRule.statusTable
           responseBodyHeader := ascii "too large"
           responseBodyPayload := ascii "too large" }]
      comparator := .portable }
  accepted := rfl

def uploadRequest (header : HeaderSection) (body : BodyFraming) : LimitedRequest where
  policy := kilobytePolicy
  sent :=
    { request := ⟨ascii "POST", ascii "example.com", [], ascii "/upload", ascii "/upload", []⟩
      client := []
      header := header
      body := body }
  rule := kilobyteRule
  governs := rfl

def chunkedUpload : LimitedRequest := uploadRequest ⟨0, 0, 200, by decide⟩ (.chunked 2000)

def spreadHeaders : LimitedRequest := uploadRequest ⟨1800, 0, 200, by decide⟩ .absent

theorem unseen_sizes_pass :
    (chunkedUpload.Oversized ∧ ∃ gateway : LimitingGateway ℚ chunkedUpload.policy.limiter
        chunkedUpload.sent.path, gateway.reachesUpstream chunkedUpload.sent = true) ∧
      (spreadHeaders.Oversized ∧ ∃ gateway : LimitingGateway ℚ spreadHeaders.policy.limiter
        spreadHeaders.sent.path, gateway.reachesUpstream spreadHeaders.sent = true) := by
  have hchunked : ¬chunkedUpload.Seen := by decide
  have hspread : ¬spreadHeaders.Seen := by decide
  refine ⟨⟨.inr (by decide), chunkedUpload.bareGateway, ?_⟩,
    .inl (by decide), spreadHeaders.bareGateway, ?_⟩
  · exact chunkedUpload.bareGateway_reachesUpstream fun h => hchunked h.2.1
  · exact spreadHeaders.bareGateway_reachesUpstream fun h => hspread h.2.1

end AuroraGateway.Nginx
