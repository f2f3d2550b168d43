import AuroraGateway.Nginx.IdentityHeaders

/-!
# Values of forwarded headers

The text of a claim is forwarded as the value of a header as it is, up to 4096
bytes of it.
-/

namespace AuroraGateway.Nginx

open Access Engine Ffi Foundation
open Jwt (CompiledClaimRule)

/-! ## Line breaks in claims -/

def oneLine (value : Bytes) : Bool := value.all fun byte => byte ≠ 13 && byte ≠ 10 && byte ≠ 0

/-- The texts have no line break in the `room` bytes for them; a separator takes two. -/
def oneLineWithin : Nat → List Bytes → Bool
  | _, [] => true
  | room, text :: rest => oneLine (text.take room) && oneLineWithin (room - text.length - 2) rest

theorem oneLine_intercalate (room : Nat) (texts : List Bytes) :
    oneLine (((ascii ", ").intercalate texts).take room) = oneLineWithin room texts := by
  induction texts generalizing room with
  | nil => simp [oneLineWithin, oneLine]
  | cons text rest ih =>
    cases rest with
    | nil => simp [oneLineWithin]
    | cons next rest =>
      have hcomma : oneLine ((ascii ", ").take (room - text.length)) = true :=
        List.all_eq_true.mpr fun byte hbyte =>
          List.all_eq_true.mp (by decide : oneLine (ascii ", ") = true) byte
            (List.mem_of_mem_take hbyte)
      rw [List.intercalate_cons_cons, List.append_assoc, oneLineWithin, ← ih, List.take_append,
        List.take_append]
      simp only [oneLine, List.all_append] at hcomma ⊢
      rw [hcomma]
      rfl

section Claims

variable {K : Type} {prims : Jwt.Primitives K} {rule : CompiledClaimRule} {text : Bytes}

/-- What is forwarded of the text of a value has no line break. -/
def claimOneLine (prims : Jwt.Primitives K) : Json → Bool
  | .string s => oneLine (s.take 4096)
  | .bool _ | .null => true
  | .array items => oneLineWithin 4096 (items.filterMap (Jwt.itemText prims))
  | value => oneLine ((prims.display value).take 4096)

theorem oneLine_claimText {value : Json} (h : Jwt.claimText prims value = some text) :
    oneLine (text.take 4096) = claimOneLine prims value := by
  cases value with
  | null => cases h
  | bool b =>
    cases h
    cases b <;> rfl
  | array items =>
    obtain ⟨-, ⟨⟩⟩ := of_guard h
    exact oneLine_intercalate _ _
  | _ =>
    cases h
    rfl

/-- What a rule reads of a payload has no line break: the value that its path leads to, or what
its extractor captures. -/
def ReadsOneLine (prims : Jwt.Primitives K) (rule : CompiledClaimRule) :
    Jwt.VerifiedPayload → Prop
  | .json value => ∀ claim ∈ (rule.payloadKey.splitOn 46).foldlM Jwt.descend value,
      claimOneLine prims claim = true
  | .raw text => ∀ extractor ∈ rule.rawExtractor, ∀ captured ∈ extractor.captured text,
      oneLine (captured.take 4096) = true

theorem oneLine_validValue {payload : Jwt.VerifiedPayload}
    (h : rule.validValue prims payload = some text) :
    oneLine (text.take 4096) = true ↔ ReadsOneLine prims rule payload := by
  obtain ⟨h, -⟩ := Option.filter_eq_some_iff.mp h
  cases payload with
  | json value =>
    obtain ⟨claim, hclaim, htext⟩ := Option.bind_eq_some_iff.mp h
    simp [ReadsOneLine, hclaim, oneLine_claimText htext]
  | raw whole =>
    obtain ⟨extractor, hextractor, htext⟩ := Option.bind_eq_some_iff.mp h
    simp [ReadsOneLine, hextractor, htext]

end Claims

section Phase

variable {F : Type} [Flonum F]

namespace AllowedRequest

variable {H K : Type} [DecidableEq H] (request : AllowedRequest F H K)

def routed : HeaderList :=
  (routingHeaders (request.space.buildPhaseEngines request.ctx.path) request.ctx
    request.lookup).take (auroraMaxForwardHeaders - request.headers.length)

theorem take_forwarded :
    request.forwarded.take auroraMaxForwardHeaders = request.headers ++ request.routed := by
  obtain ⟨verified, payload, hverified⟩ := request.exists_verified
  have hlength : request.headers.length ≤ auroraMaxForwardHeaders :=
    (Jwt.length_projectClaims_le hverified.projects).trans request.forwardsFew.count_le
  rw [forwarded, List.take_append, List.take_of_length_le hlength, routed]

/-- The values that are handed over have no line break exactly if what the rules read of the
payload has none and routing adds none. -/
theorem header_values_iff :
    (∃ verified payload, request.Verified verified payload) ∧
      ∀ verified payload, request.Verified verified payload →
        ((∀ header ∈ outcomeHeaders request.outcome, oneLine header.value = true) ↔
          (∀ rule ∈ request.item.policy.claimRules, rule.headerKey.isSome = true →
            (rule.validValue request.env.prims payload).isSome = true →
              ReadsOneLine request.env.prims rule payload) ∧
          ∀ header ∈ request.routed, oneLine (header.2.take 4096) = true) := by
  refine ⟨request.exists_verified, fun verified payload hverified => ?_⟩
  have hheaders : (∀ header ∈ outcomeHeaders request.outcome, oneLine header.value = true) ↔
      (∀ header ∈ request.headers, oneLine (header.2.take 4096) = true) ∧
        ∀ header ∈ request.routed, oneLine (header.2.take 4096) = true := by
    rw [request.outcomeHeaders_eq, request.take_forwarded, List.forall_mem_map,
      List.forall_mem_append]
    rfl
  rw [hheaders]
  refine and_congr_left fun _ => ?_
  constructor
  · intro h rule hrule hkey hvalue
    obtain ⟨key, hkey⟩ := Option.isSome_iff_exists.mp hkey
    obtain ⟨value, hvalue⟩ := Option.isSome_iff_exists.mp hvalue
    exact (oneLine_validValue hvalue).mp
      (h (key, value) (Jwt.mem_projectClaims hverified.projects hrule hkey hvalue))
  · intro h header hheader
    obtain ⟨rule, hrule, hkey, hvalue⟩ :=
      Jwt.exists_rule_of_mem hverified.projects hheader
    exact (oneLine_validValue hvalue).mpr
      (h rule hrule (by rw [hkey]; rfl) (by rw [hvalue]; rfl))

end AllowedRequest

end Phase

/-! ## A claim with a line break -/

def injectedName : Bytes := ascii "alice\r\nX-Role: admin"

def injectedEnvironment : Jwt.Environment (Bytes ⊕ Bytes) Unit :=
  { userEnvironment with
    prims :=
      { Jwt.transparentPrimitives with
        parseJson := fun _ => some (.object [(ascii "sub", .string injectedName)]) } }

def injectedSpace : GatewayActiveSpace ℚ :=
  { userSpace with
    jwt := some fun ctx lookup =>
      (userEngine.evaluateWithLookupAt injectedEnvironment (jwtCall storedRows ctx lookup)).2.getD
        (.error .invalidRequest) }

def injectedOutcome : AuroraAccessOutcome :=
  (auroraGatewayPhaseAccess (some injectedSpace) (fun _ => .empty)
    (accessCall [⟨1, ascii "Cookie", ascii "sid=h.p.s"⟩] userInput (some fun _ => true) .default
      .calm)).2.2.1.getD .default

def injectedRequest : AllowedRequest ℚ (Bytes ⊕ Bytes) Unit where
  env := injectedEnvironment
  policy := [0]
  buildOrder := storedRows
  clock := fun _ => 1000
  built := userEngine
  compiled := by rfl
  past := []
  engine := userEngine
  used := rfl
  client := [⟨1, ascii "Cookie", ascii "sid=h.p.s"⟩]
  input := userInput
  alloc := some fun _ => true
  out := .default
  world := .calm
  order := storedRows
  item := ⟨0, Jwt.sessionPolicy [compiledUserRule]⟩
  token := ascii "h.p.s"
  selects := ⟨rfl, rfl, rfl, rfl⟩
  headers := [(ascii "X-User", injectedName)]
  allowed := by rfl
  space := injectedSpace
  enabled := by rfl
  answers := rfl
  servers := fun _ => .empty
  outcome := injectedOutcome
  passes := by rfl
  allows := by rfl
  grants := fun _ => true
  after := [⟨1, ascii "Cookie", ascii "sid=h.p.s"⟩, ⟨1, ascii "X-User", injectedName⟩]
  executed := by rfl

/-- The claim is handed over with its line break. -/
theorem claim_breaks_header :
    ∃ header ∈ outcomeHeaders injectedRequest.outcome, header.name = ascii "X-User" ∧
      header.value = injectedName ∧ oneLine header.value = false :=
  ⟨_, List.mem_cons_self, rfl, rfl, by decide⟩

end AuroraGateway.Nginx
