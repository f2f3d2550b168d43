import AuroraGateway.Access.FailClosed
import AuroraGateway.Jwt.Coherence
import AuroraGateway.Nginx.Request

/-!
# Headers that identify the user

The adapter writes the headers that the gateway forwards over the headers of
the client.  It overwrites the first header of a name and leaves the others; a
name that is not forwarded is not touched.
-/

namespace AuroraGateway.Nginx

open Access Engine Ffi Foundation TableElt
open Jwt (CompiledClaimRule ForwardedHeaders JwtEngine openToken projectClaims)

/-! ## The headers of a request -/

/-- A header with hash 0 has been taken out. -/
def TableElt.isNamed (name : Bytes) (elt : TableElt) : Bool :=
  elt.hash ≠ 0 && eqIgnoreAsciiCase elt.key name

def headerLookup (client : List TableElt) : HeaderLookup := fun name =>
  if name.isEmpty then none
  else (client.find? fun elt => eqIgnoreAsciiCase elt.key name).map value

def overwriteFirst (name value : Bytes) : List TableElt → Option (List TableElt)
  | [] => none
  | elt :: rest =>
    if elt.isNamed name then some ({ elt with value } :: rest)
    else (overwriteFirst name value rest).map fun rest => elt :: rest

def forwardOne (grant : Bool) (headers : List TableElt) (header : AuroraHeader) :
    Option (List TableElt) :=
  if header.name.isEmpty then some headers
  else
    match overwriteFirst header.name header.value headers with
    | some headers => some headers
    | none => if grant then some (headers ++ [⟨1, header.name, header.value⟩]) else none

def forwardAll (grants : Nat → Bool) :
    Nat → List AuroraHeader → List TableElt → Option (List TableElt)
  | _, [], headers => some headers
  | i, header :: rest, headers =>
    (forwardOne (grants i) headers header).bind (forwardAll grants (i + 1) rest)

def outcomeHeaders (outcome : AuroraAccessOutcome) : List AuroraHeader :=
  (List.range (min outcome.headersCount auroraMaxForwardHeaders)).map fun i =>
    outcome.headers (Fin.ofNat auroraMaxForwardHeaders i)

/-- The headers of the request after the handler has let it pass; none if it fails. -/
def executeAllow (grants : Nat → Bool) (client : List TableElt)
    (outcome : AuroraAccessOutcome) : Option (List TableElt) :=
  forwardAll grants 0 (outcomeHeaders outcome) client

/-! ## What becomes of the headers of one name -/

def valuesNamed (name : Bytes) (headers : List TableElt) : List Bytes :=
  (headers.filter (isNamed name)).map value

def replaced (values : List Bytes) : Option Bytes → List Bytes
  | none => values
  | some value => value :: values.drop 1

theorem isNamed_of_eqIgnoreAsciiCase {name name' : Bytes}
    (h : eqIgnoreAsciiCase name name' = true) (elt : TableElt) :
    elt.isNamed name = elt.isNamed name' := by
  have hlower : toAsciiLowercase name = toAsciiLowercase name' := by
    simpa [eqIgnoreAsciiCase] using h
  simp [isNamed, eqIgnoreAsciiCase, hlower]

section Named

variable {name value : Bytes}

theorem valuesNamed_congr {name' : Bytes} (h : eqIgnoreAsciiCase name name' = true)
    (headers : List TableElt) : valuesNamed name headers = valuesNamed name' headers := by
  have hnamed : isNamed name = isNamed name' :=
    funext (isNamed_of_eqIgnoreAsciiCase h)
  rw [valuesNamed, hnamed, valuesNamed]

theorem isNamed_of_isNamed {other : Bytes} {elt : TableElt} (h : elt.isNamed name = true) :
    elt.isNamed other = eqIgnoreAsciiCase name other := by
  simp only [isNamed, Bool.and_eq_true, eqIgnoreAsciiCase, decide_eq_true_eq, beq_iff_eq] at h
  simp [isNamed, eqIgnoreAsciiCase, h.1, h.2]

variable {headers after : List TableElt}

theorem overwriteFirst_eq_none
    (h : overwriteFirst name value headers = none) : valuesNamed name headers = [] := by
  induction headers with
  | nil => rfl
  | cons elt rest ih =>
    rw [overwriteFirst] at h
    split at h
    · cases h
    · rename_i hnamed
      have hrest := ih (Option.map_eq_none_iff.mp h)
      simpa [valuesNamed, hnamed] using hrest

theorem valuesNamed_overwriteFirst {other : Bytes}
    (h : overwriteFirst name value headers = some after) :
    valuesNamed other after = replaced (valuesNamed other headers)
      (if eqIgnoreAsciiCase name other then some value else none) := by
  induction headers generalizing after with
  | nil => cases h
  | cons elt rest ih =>
    rw [overwriteFirst] at h
    split at h
    · rename_i hnamed
      obtain rfl := Option.some.inj h
      have hkept : ({ elt with value } : TableElt).isNamed other = eqIgnoreAsciiCase name other :=
        isNamed_of_isNamed hnamed
      cases hsame : eqIgnoreAsciiCase name other <;>
        simp [valuesNamed, isNamed_of_isNamed hnamed, hkept, hsame, replaced]
    · rename_i hnamed
      obtain ⟨after, hafter, rfl⟩ := Option.map_eq_some_iff.mp h
      have hrest := ih hafter
      by_cases hsame : eqIgnoreAsciiCase name other = true
      · rw [isNamed_of_eqIgnoreAsciiCase hsame] at hnamed
        simpa [valuesNamed, hnamed] using hrest
      · rw [if_neg hsame] at hrest ⊢
        by_cases helt : elt.isNamed other = true <;>
          simpa [valuesNamed, helt, replaced] using hrest

theorem valuesNamed_append_new (headers : List TableElt) (key value : Bytes) :
    valuesNamed name (headers ++ [⟨1, key, value⟩]) =
      valuesNamed name headers ++ if eqIgnoreAsciiCase key name then [value] else [] := by
  by_cases hkey : eqIgnoreAsciiCase key name = true <;>
    simp [valuesNamed, isNamed, hkey]

theorem valuesNamed_forwardOne (hname : name ≠ []) {grant : Bool} {header : AuroraHeader}
    (h : forwardOne grant headers header = some after) :
    valuesNamed name after = replaced (valuesNamed name headers)
      (if eqIgnoreAsciiCase header.name name then some header.value else none) := by
  unfold forwardOne at h
  split at h
  · rename_i hempty
    obtain rfl := Option.some.inj h
    have hdiffers : eqIgnoreAsciiCase header.name name = false := by
      rw [List.isEmpty_iff.mp hempty]
      simp [eqIgnoreAsciiCase, toAsciiLowercase, hname]
    simp [hdiffers, replaced]
  · split at h
    · rename_i overwritten hover
      obtain rfl := Option.some.inj h
      exact valuesNamed_overwriteFirst hover
    · rename_i hnone
      split at h
      · obtain rfl := Option.some.inj h
        rw [valuesNamed_append_new]
        by_cases hsame : eqIgnoreAsciiCase header.name name = true
        · rw [← valuesNamed_congr hsame, overwriteFirst_eq_none hnone, if_pos hsame, if_pos hsame]
          rfl
        · rw [if_neg hsame, if_neg hsame, List.append_nil]
          rfl
      · cases h

theorem valuesNamed_forwardAll (hname : name ≠ []) {grants : Nat → Bool} {i : Nat}
    {forwarded : List AuroraHeader}
    (h : forwardAll grants i forwarded headers = some after) :
    valuesNamed name after = replaced (valuesNamed name headers)
      ((forwarded.filter fun header => eqIgnoreAsciiCase header.name name).getLast?.map
        AuroraHeader.value) := by
  induction forwarded generalizing i headers with
  | nil =>
    obtain rfl := Option.some.inj h
    rfl
  | cons header rest ih =>
    obtain ⟨next, hone, hrest⟩ := Option.bind_eq_some_iff.mp h
    rw [ih hrest, valuesNamed_forwardOne hname hone]
    by_cases hsame : eqIgnoreAsciiCase header.name name = true
    · rw [if_pos hsame, List.filter_cons, if_pos hsame]
      cases hlast : (rest.filter fun header =>
          eqIgnoreAsciiCase header.name name).getLast? with
      | none =>
        rw [List.getLast?_eq_none_iff.mp hlast]
        rfl
      | some last =>
        rw [List.getLast?_cons, hlast]
        rfl
    · rw [if_neg hsame, List.filter_cons, if_neg hsame]
      rfl

end Named

/-! ## What the access phase forwards -/

/-- The values under a name in a list that is forwarded: sixteen headers at most, with
names of 256 bytes at most and values of 4096. -/
def forwardedNamed (name : Bytes) (forwarded : HeaderList) : List Bytes :=
  ((forwarded.take auroraMaxForwardHeaders).filter fun header =>
    eqIgnoreAsciiCase (header.1.take 256) name).map fun header => header.2.take 4096

theorem writeHeaders_headers {alloc : Allocator} {first i : Nat} {list : HeaderList}
    {outcome after : AuroraAccessOutcome} (hroom : i + list.length ≤ auroraMaxForwardHeaders)
    (h : writeHeaders alloc first i list outcome = (after, true)) :
    after.headersCount = outcome.headersCount ∧ after.action = outcome.action ∧
      (∀ j (hj : j < list.length), after.headers (Fin.ofNat auroraMaxForwardHeaders (i + j)) =
        forwardHeader alloc list[j]) ∧
      ∀ j < i, after.headers (Fin.ofNat auroraMaxForwardHeaders j) =
        outcome.headers (Fin.ofNat auroraMaxForwardHeaders j) := by
  induction list generalizing i outcome with
  | nil =>
    obtain ⟨rfl, -⟩ := Prod.mk.inj h
    exact ⟨rfl, rfl, fun j hj => absurd hj (by simp), fun _ _ => rfl⟩
  | cons header rest ih =>
    rw [writeHeaders] at h
    split at h
    · rw [List.length_cons] at hroom
      obtain ⟨hcount, haction, hwritten, hbefore⟩ := ih (by omega) h
      have hindex : ∀ j < auroraMaxForwardHeaders,
          (Fin.ofNat auroraMaxForwardHeaders j).val = j :=
        fun j hj => Nat.mod_eq_of_lt hj
      refine ⟨hcount, haction, fun j hj => ?_, fun j hj => ?_⟩
      · cases j with
        | zero =>
          rw [Nat.add_zero, hbefore i (Nat.lt_succ_self i)]
          exact Function.update_self ..
        | succ j =>
          have hj' : j < rest.length := by simpa using hj
          rw [show i + (j + 1) = i + 1 + j by omega, hwritten j hj']
          rfl
      · rw [hbefore j (by omega)]
        refine Function.update_of_ne ?_ _ _
        intro hsame
        have := congrArg Fin.val hsame
        rw [hindex j (by omega), hindex i (by omega)] at this
        omega
    · cases h

theorem outcomeHeaders_populateAllow {outcome after : AuroraAccessOutcome}
    {forwarded : HeaderList} {upstream : Option Bytes} {rate : Nat}
    {connToken : Option ConnectionToken} {alloc : Allocator}
    (h : populateAllowOutcome outcome forwarded upstream rate connToken alloc = (after, true)) :
    outcomeHeaders after =
      (forwarded.take auroraMaxForwardHeaders).map (forwardHeader alloc) := by
  unfold populateAllowOutcome at h
  dsimp only at h
  split at h
  · cases h
  · rename_i written hwritten
    split at h
    · cases h
    · obtain ⟨rfl, -⟩ := Prod.mk.inj h
      obtain ⟨hcount, -, hheaders, -⟩ := writeHeaders_headers (by simp) hwritten
      have htake : forwarded.take (min forwarded.length auroraMaxForwardHeaders) =
          forwarded.take auroraMaxForwardHeaders := by
        rw [← List.take_take, List.take_of_length_le (by simp)]
      rw [htake] at hheaders
      refine List.ext_getElem ?_ fun j hj hj' => ?_
      · simp [outcomeHeaders, hcount, Nat.min_comm]
      · simp only [outcomeHeaders, List.getElem_map, List.getElem_range]
        have := hheaders j (by simpa using hj')
        rw [Nat.zero_add] at this
        exact this

theorem writeHeaders_action (alloc : Allocator) (first i : Nat) (list : HeaderList)
    (outcome : AuroraAccessOutcome) :
    (writeHeaders alloc first i list outcome).1.action = outcome.action := by
  induction list generalizing i outcome with
  | nil => rfl
  | cons header rest ih =>
    rw [writeHeaders]
    split
    · rw [ih]
    · rfl

theorem populateDenyOutcome_action (outcome : AuroraAccessOutcome) (status : Nat)
    (wwwAuthenticate : Bool) (contentType body : Option Bytes) (alloc : Allocator) :
    (populateDenyOutcome outcome status wwwAuthenticate contentType body alloc).1.action =
      auroraActionDeny := by
  unfold populateDenyOutcome
  generalize (if contentType.isSome then 1 else 0) = bodyCall
  dsimp only
  split
  · rfl
  · split <;> rfl

theorem populateCacheHitOutcome_action (outcome : AuroraAccessOutcome) (hit : CacheHitOutcome)
    (alloc : Allocator) :
    (populateCacheHitOutcome outcome hit alloc).1.action = auroraActionDeny := by
  unfold populateCacheHitOutcome
  split
  · rfl
  · rw [writeHeaders_action]

section Phase

variable {F : Type} [Flonum F]

def routingHeaders (engines : AccessPhaseEngines F) (ctx : RequestContext)
    (lookup : HeaderLookup) : HeaderList :=
  (resolveRouting engines ctx lookup).2.getD []

variable (engines : AccessPhaseEngines F)

theorem resolveRouting_limitRate (ctx : RequestContext) (lookup : HeaderLookup)
    (world : Surroundings F) (servers : Servers F) :
    resolveRouting (limitRate engines ctx lookup world servers).1 ctx lookup =
      resolveRouting engines ctx lookup := by
  unfold limitRate
  split <;> rfl

theorem resolveRouting_limitConnections (ctx : RequestContext) (lookup : HeaderLookup)
    (world : Surroundings F) (servers : Servers F) :
    resolveRouting (limitConnections engines ctx lookup world servers).1 ctx lookup =
      resolveRouting engines ctx lookup := by
  unfold limitConnections
  split <;> rfl

theorem resolveRouting_checkLimits (ctx : RequestContext) (lookup : HeaderLookup)
    (world : Surroundings F) (servers : Servers F) :
    resolveRouting (checkLimits engines ctx lookup world servers).1 ctx lookup =
      resolveRouting engines ctx lookup := by
  have hrate := resolveRouting_limitRate engines ctx lookup world servers
  unfold checkLimits
  split
  · rename_i limited servers' denial hlimited
    rwa [hlimited] at hrate
  · rename_i limited servers' hlimited
    rw [hlimited] at hrate
    have hconnections := resolveRouting_limitConnections limited ctx lookup world servers'
    split
    · rename_i counted servers'' denial hcounted
      rw [hcounted] at hconnections
      exact hconnections.trans hrate
    · rename_i counted servers'' connToken hcounted
      rw [hcounted] at hconnections
      exact hconnections.trans hrate

/-- A request that passes with the answer of the JWT engine forwards the headers of the
answer first and then those of routing. -/
theorem forwarded_of_evaluate {engines : AccessPhaseEngines F} {ctx : RequestContext}
    {lookup : HeaderLookup} {world : Surroundings F} {servers : Servers F}
    {jwtEng : RequestContext → HeaderLookup → Except Error JwtDecision}
    (hjwt : engines.jwt = some jwtEng) {headers : HeaderList}
    (hanswer : jwtEng ctx lookup = .ok (.allow headers)) {forwarded : Option HeaderList}
    {upstream : Option Bytes} {rate : Nat} {connToken : Option ConnectionToken}
    (h : (evaluate engines ctx lookup world servers).2.2 =
      .allow forwarded upstream rate connToken) :
    forwarded.getD [] = headers ++ routingHeaders engines ctx lookup := by
  unfold evaluate at h
  split at h
  · cases h
  · simp only [checkAuthentication, hjwt, hanswer] at h
    have hrouting := resolveRouting_checkLimits engines ctx lookup world servers
    split at h
    · cases h
    · rename_i limited servers' token rate' burst hlimits
      rw [hlimits] at hrouting
      rw [hrouting] at h
      obtain ⟨rfl, -⟩ := AccessDecision.allow.inj h
      unfold routingHeaders
      cases headers with
      | nil => cases hr : (resolveRouting engines ctx lookup).2 <;> simp [combineHeaders]
      | cons first rest =>
        cases hr : (resolveRouting engines ctx lookup).2 <;> simp [combineHeaders]

def accessCall (client : List TableElt) (input : AuroraAccessInput) (alloc : Allocator)
    (out : AuroraAccessOutcome) (world : Surroundings F) : AccessCall F :=
  ⟨some input, some (headerLookup client), alloc, some out, world⟩

def jwtCall {H : Type} (order : Jwt.RowOrder H) (ctx : RequestContext) (lookup : HeaderLookup) :
    JwtEngine.Call H :=
  ⟨ctx.host, ctx.path, lookup, ctx.nowMs / 1000, order⟩

/-- A request that the JWT engine lets pass with the token of an origin, and that the
handler passes on. -/
structure AllowedRequest (F H K : Type) [Flonum F] [DecidableEq H] where
  env : Jwt.Environment H K
  policy : Bytes
  buildOrder : Jwt.RowOrder H
  clock : Nat → Nat
  built : JwtEngine H K
  compiled : JwtEngine.fromSnapshot env buildOrder clock policy = .ok built
  /-- What has been done with the engine before. -/
  past : List (JwtEngine.Activity H)
  engine : JwtEngine H K
  used : past.foldl (JwtEngine.act env) built = engine
  client : List TableElt
  input : AuroraAccessInput
  alloc : Allocator
  out : AuroraAccessOutcome
  world : Surroundings F
  order : Jwt.RowOrder H
  item : Jwt.IndexedOrigin K
  token : Bytes
  selects : Jwt.Selects env engine (jwtCall order (extractRequestContext input)
    (accessCall client input alloc out world).headerLookup) item token
  headers : ForwardedHeaders
  allowed : (engine.evaluateWithLookupAt env (jwtCall order (extractRequestContext input)
    (accessCall client input alloc out world).headerLookup)).2 = some (.ok (.allow headers))
  space : GatewayActiveSpace F
  enabled : enables (space.resolveRouteMask (extractRequestContext input).path)
    auroraExtJwt = true
  answers : space.jwt = some fun ctx lookup =>
    (engine.evaluateWithLookupAt env (jwtCall order ctx lookup)).2.getD (.error .invalidRequest)
  servers : Servers F
  outcome : AuroraAccessOutcome
  passes : (auroraGatewayPhaseAccess (some space) servers
    (accessCall client input alloc out world)).2.2 = (some outcome, 0)
  allows : outcome.action = auroraActionAllow
  grants : Nat → Bool
  after : List TableElt
  executed : executeAllow grants client outcome = some after

namespace AllowedRequest

variable {H K : Type} [DecidableEq H] (request : AllowedRequest F H K)

def ctx : RequestContext := extractRequestContext request.input

def lookup : HeaderLookup :=
  (accessCall request.client request.input request.alloc request.out
    request.world).headerLookup

def forwarded : HeaderList :=
  request.headers ++
    routingHeaders (request.space.buildPhaseEngines request.ctx.path) request.ctx request.lookup

/-- The payload is that of a token that has been verified for the request: the presented one
or, if it was found in the cache, one with the same hash. -/
structure Verified (verified : Bytes) (payload : Jwt.VerifiedPayload) : Prop where
  hash : request.env.hashing.hashToken verified = request.env.hashing.hashToken request.token
  opens : openToken request.env.prims request.item.policy.checks verified = some payload
  projects : projectClaims request.env.prims payload request.item.policy.claimRules =
    some request.headers

/-- Every header under the name of a rule has the value that the rule projects, and there
is none if the rule projects nothing. -/
def CarriesIdentity (payload : Jwt.VerifiedPayload) : Prop :=
  ∀ rule ∈ request.item.policy.claimRules, ∀ key, rule.headerKey = some key →
    ∀ elt ∈ request.after, elt.isNamed key = true →
      rule.validValue request.env.prims payload = some elt.value

end AllowedRequest

/-- A value that is projected is the last one forwarded under its name, as a whole, and the
client has sent no other one after a first header of this name.  Where nothing is projected,
nothing is forwarded under the name and the client has sent nothing. -/
def Protected (projected : Option Bytes) (forwarded client : List Bytes) : Prop :=
  match projected with
  | none => forwarded = [] ∧ client = []
  | some value => forwarded.getLast? = some value ∧ ∀ other ∈ client.drop 1, other = value

theorem eq_true_of_rcOf {ok : Bool} (h : rcOf ok = 0) : ok = true := by
  cases ok with
  | false => cases h
  | true => rfl

theorem phaseAccess_accessCall (space : GatewayActiveSpace F) (servers : Servers F)
    (client : List TableElt) (input : AuroraAccessInput) (alloc : Allocator)
    (out : AuroraAccessOutcome) (world : Surroundings F) :
    (auroraGatewayPhaseAccess (some space) servers
        (accessCall client input alloc out world)).2.2 =
      let ctx := extractRequestContext input
      let call := accessCall client input alloc out world
      let result := populateOutcome (some space) ctx call
        { out with routeMask := space.resolveRouteMask ctx.path }
        (evaluate (space.buildPhaseEngines ctx.path) ctx call.headerLookup world servers).2.2
      (some result.1, rcOf result.2) :=
  rfl

/-! ## The headers after the handler -/

namespace AllowedRequest

variable {H K : Type} [DecidableEq H] (request : AllowedRequest F H K)

theorem outcomeHeaders_eq :
    outcomeHeaders request.outcome =
      (request.forwarded.take auroraMaxForwardHeaders).map (forwardHeader request.alloc) := by
  have hengines : (request.space.buildPhaseEngines request.ctx.path).jwt = request.space.jwt := by
    simp [GatewayActiveSpace.buildPhaseEngines, ctx, request.enabled]
  have hanswer : ((request.engine.evaluateWithLookupAt request.env
      (jwtCall request.order request.ctx request.lookup)).2.getD (.error .invalidRequest)) =
        .ok (.allow request.headers) := by
    rw [ctx, lookup, request.allowed]
    rfl
  have hallows := request.allows
  have hpasses := request.passes
  rw [phaseAccess_accessCall] at hpasses
  obtain ⟨houtcome, hrc⟩ := Prod.mk.inj hpasses
  have hok := eq_true_of_rcOf hrc
  replace houtcome := Option.some.inj houtcome
  cases hdecision : (evaluate (request.space.buildPhaseEngines request.ctx.path) request.ctx
      request.lookup request.world request.servers).2.2 with
  | deny status wwwAuthenticate contentType body =>
    rw [ctx, lookup] at hdecision
    rw [hdecision, populateOutcome] at houtcome
    rw [← houtcome, populateDenyOutcome_action] at hallows
    cases hallows
  | allow forwarded upstream rate connToken =>
    rw [AllowedRequest.forwarded, ← forwarded_of_evaluate (hengines.trans request.answers) hanswer
      hdecision]
    rw [ctx, lookup] at hdecision
    rw [hdecision, populateOutcome] at houtcome hok
    split at houtcome
    · rw [← houtcome, populateCacheHitOutcome_action] at hallows
      cases hallows
    · rename_i hmiss
      rw [hmiss] at hok
      exact outcomeHeaders_populateAllow (Prod.ext houtcome hok)

theorem valuesNamed_after {key : Bytes} (hkey : key ≠ []) :
    valuesNamed key request.after =
      replaced (valuesNamed key request.client)
        (forwardedNamed key request.forwarded).getLast? := by
  rw [valuesNamed_forwardAll hkey request.executed, request.outcomeHeaders_eq,
    List.filter_map, List.getLast?_map, Option.map_map, forwardedNamed, List.getLast?_map]
  rfl

theorem faithful : ∃ snapshot, Jwt.Faithful request.env snapshot request.engine := by
  obtain ⟨snapshot, -, hcompiled⟩ := Jwt.fromSnapshot_ok request.compiled
  refine ⟨snapshot, ?_⟩
  rw [← request.used]
  exact hcompiled.faithful.run request.past

theorem forwardsFew : Jwt.ForwardsFew request.item.policy := by
  obtain ⟨snapshot, hfaithful⟩ := request.faithful
  obtain ⟨p, hitem⟩ := Jwt.mem_of_findOrigin request.selects.found
  obtain ⟨input, -, hpolicy⟩ := hfaithful.origins p request.item hitem
  exact (Jwt.compilePolicy_ok hpolicy).2

theorem exists_verified : ∃ verified payload, request.Verified verified payload := by
  obtain ⟨snapshot, hfaithful⟩ := request.faithful
  obtain ⟨verified, payload, hhash, hopens, hprojects⟩ :=
    hfaithful.verified_of_allow request.selects request.allowed
  exact ⟨verified, payload, hhash, hopens, hprojects⟩

theorem forwardedNamed_ne_nil {verified : Bytes} {payload : Jwt.VerifiedPayload}
    (hverified : request.Verified verified payload) {rule : CompiledClaimRule}
    (hrule : rule ∈ request.item.policy.claimRules) {key value : Bytes}
    (hkey : rule.headerKey = some key)
    (hvalue : rule.validValue request.env.prims payload = some value) :
    forwardedNamed key request.forwarded ≠ [] := by
  have hfew := request.forwardsFew
  have hmem : (key, value) ∈ request.headers :=
    Jwt.mem_projectClaims hverified.projects hrule hkey hvalue
  have hlength : request.headers.length ≤ auroraMaxForwardHeaders :=
    (Jwt.length_projectClaims_le hverified.projects).trans hfew.count_le
  have htaken : (key, value) ∈ request.forwarded.take auroraMaxForwardHeaders := by
    rw [forwarded, List.take_append, List.take_of_length_le hlength]
    exact List.mem_append_left _ hmem
  have hfits : key.take 256 = key := by
    have hvalid := hfew.validKey rule hrule key hkey
    simp only [Jwt.validHeaderKey, Bool.and_eq_true, decide_eq_true_eq] at hvalid
    exact List.take_of_length_le (by omega)
  refine List.ne_nil_of_mem (List.mem_map_of_mem (List.mem_filter.mpr ⟨htaken, ?_⟩))
  simp [hfits, eqIgnoreAsciiCase]

end AllowedRequest

theorem headerKey_ne_nil {key : Bytes} (h : Jwt.validHeaderKey key = true) : key ≠ [] := by
  rintro rfl
  exact absurd h (by decide)

theorem forall_mem_replaced_iff {projected : Option Bytes} {forwarded client : List Bytes}
    (hforwarded : projected.isSome = true → forwarded ≠ []) :
    (∀ value ∈ replaced client forwarded.getLast?, projected = some value) ↔
      Protected projected forwarded client := by
  cases projected with
  | none =>
    cases hlast : forwarded.getLast? with
    | none =>
      have hnil := List.getLast?_eq_none_iff.mp hlast
      simp [replaced, Protected, hnil, List.eq_nil_iff_forall_not_mem]
    | some last =>
      have hne : forwarded ≠ [] := by
        rintro rfl
        cases hlast
      refine iff_of_false (fun h => ?_) (fun h => hne h.1)
      cases h last List.mem_cons_self
  | some value =>
    cases hlast : forwarded.getLast? with
    | none => exact absurd (List.getLast?_eq_none_iff.mp hlast) (hforwarded rfl)
    | some last =>
      simp only [replaced, Protected, hlast, List.forall_mem_cons, Option.some.injEq]
      exact and_congr eq_comm (forall₂_congr fun _ _ => eq_comm)

/-- The headers of a request carry the identity of the verified token exactly if each rule
is protected. -/
theorem identity_headers_iff {H K : Type} [DecidableEq H] (request : AllowedRequest F H K) :
    (∃ verified payload, request.Verified verified payload) ∧
      ∀ verified payload, request.Verified verified payload →
        (request.CarriesIdentity payload ↔
          ∀ rule ∈ request.item.policy.claimRules, ∀ key, rule.headerKey = some key →
            Protected (rule.validValue request.env.prims payload)
              (forwardedNamed key request.forwarded) (valuesNamed key request.client)) := by
  refine ⟨request.exists_verified, fun verified payload hverified => ?_⟩
  refine forall₂_congr fun rule hrule => forall₂_congr fun key hkey => ?_
  have hname : key ≠ [] := headerKey_ne_nil (request.forwardsFew.validKey rule hrule key hkey)
  rw [← forall_mem_replaced_iff, ← request.valuesNamed_after hname]
  · simp only [valuesNamed, List.forall_mem_map, List.mem_filter, and_imp]
  · intro hsome
    obtain ⟨value, hvalue⟩ := Option.isSome_iff_exists.mp hsome
    exact request.forwardedNamed_ne_nil hverified hrule hkey hvalue

end Phase

/-! ## A header that is sent twice -/

def userRule : Jwt.ClaimRuleInput where
  payloadKey := ⟨ascii "sub", by decide⟩
  valuesMatch := wildcardText
  headerKey := some ⟨ascii "X-User", by decide⟩
  required := true

def compiledUserRule : CompiledClaimRule where
  payloadKey := ascii "sub"
  rawExtractor := none
  regex := none
  headerKey := some (ascii "X-User")
  required := true

def userEnvironment : Jwt.Environment (Bytes ⊕ Bytes) Unit :=
  Jwt.transparentEnvironment ⟨1, 1, [{ Jwt.sessionOrigin with claimRules := [userRule] }]⟩

def storedRows : Jwt.RowOrder (Bytes ⊕ Bytes) := .asStored _ _

def userEngine : JwtEngine (Bytes ⊕ Bytes) Unit where
  generation := 1
  origins := .ofList [(ascii "/", ⟨0, Jwt.sessionPolicy [compiledUserRule]⟩)]
  caches := fun rank =>
    [{ Jwt.sessionOrigin with claimRules := [userRule] }][rank]?.bind
      (Jwt.compileCache userEnvironment storedRows 1000)

def userSpace : GatewayActiveSpace ℚ where
  toAccessPhaseEngines :=
    { AccessPhaseEngines.none with
      jwt := some fun ctx lookup =>
        (userEngine.evaluateWithLookupAt userEnvironment (jwtCall storedRows ctx lookup)).2.getD
          (.error .invalidRequest) }
  responseCache := none
  routeTrie := .ofList []

/-- Alice has a token and sends the name of another user along, twice. -/
def spoofedHeaders : List TableElt :=
  [⟨1, ascii "Cookie", ascii "sid=h.alice.s"⟩, ⟨1, ascii "X-User", ascii "root"⟩,
    ⟨1, ascii "x-user", ascii "root"⟩]

def userInput : AuroraAccessInput where
  clientIp := ascii "10.0.0.1"
  host := ascii "example.com"
  path := ascii "/"
  method := ascii "GET"
  query := []
  contentLength := 0
  headerLength := 0
  randomSeed := 0
  nowMs := 1000000

def spoofedOutcome : AuroraAccessOutcome :=
  (auroraGatewayPhaseAccess (some userSpace) (fun _ => .empty)
    (accessCall spoofedHeaders userInput (some fun _ => true) .default .calm)).2.2.1.getD .default

def spoofedRequest : AllowedRequest ℚ (Bytes ⊕ Bytes) Unit where
  env := userEnvironment
  policy := [0]
  buildOrder := storedRows
  clock := fun _ => 1000
  built := userEngine
  compiled := by rfl
  past := []
  engine := userEngine
  used := rfl
  client := spoofedHeaders
  input := userInput
  alloc := some fun _ => true
  out := .default
  world := .calm
  order := storedRows
  item := ⟨0, Jwt.sessionPolicy [compiledUserRule]⟩
  token := ascii "h.alice.s"
  selects := ⟨rfl, rfl, rfl, rfl⟩
  headers := [(ascii "X-User", ascii "alice")]
  allowed := by rfl
  space := userSpace
  enabled := by rfl
  answers := rfl
  servers := fun _ => .empty
  outcome := spoofedOutcome
  passes := by rfl
  allows := by rfl
  grants := fun _ => true
  after := [⟨1, ascii "Cookie", ascii "sid=h.alice.s"⟩, ⟨1, ascii "X-User", ascii "alice"⟩,
    ⟨1, ascii "x-user", ascii "root"⟩]
  executed := by rfl

theorem spoofed_user_passes :
    ∃ verified payload, spoofedRequest.Verified verified payload ∧
      compiledUserRule ∈ spoofedRequest.item.policy.claimRules ∧
      compiledUserRule.validValue spoofedRequest.env.prims payload = some (ascii "alice") ∧
      ∃ elt ∈ spoofedRequest.after, elt.isNamed (ascii "X-User") = true ∧
        elt.value = ascii "root" := by
  refine ⟨ascii "h.alice.s", _, ⟨rfl, rfl, rfl⟩, List.mem_singleton_self _, rfl, ?_⟩
  decide

end AuroraGateway.Nginx
