import AuroraGateway.ControlWorker.ServerDirectives
import AuroraGateway.Foundation.Interpolation
import Mathlib.Data.Fintype.EquivFin

/-!
# Origins that CORS admits

The configured origins are only written into the directives if there is exactly
one of them and credentials are not allowed.  In all other cases the origin of
the request is sent back.
-/

namespace AuroraGateway.ControlWorker

open Foundation

def allowOrigin : Bytes := ascii "Access-Control-Allow-Origin"

def httpOrigin : Bytes := ascii "http_origin"

def anyOrigin : Bytes := ascii "*"

structure CorsPolicy where
  config : Config
  origins : List Bytes
  configured : configStrings config "allow_origins" = some origins
  origins_ne : origins ≠ []
  lines : List Line
  rendered : corsHeaderLines config = .ok lines

namespace CorsPolicy

variable (p : CorsPolicy)

def credentials : Bool := configBool p.config "allow_credentials" false

variable (values : Bytes → Bytes)

def headerOf (line : Line) : Option (Bytes × Bytes) :=
  match line.directive? with
  | some ⟨_, name :: value :: _⟩ =>
    ((interpolate values value.value).filter fun v => !v.isEmpty).map fun v => (name.value, v)
  | _ => none

def response : List (Bytes × Bytes) :=
  p.lines.filterMap (headerOf values)

def Admits : Prop :=
  ∃ v, (allowOrigin, v) ∈ p.response values ∧ (v = values httpOrigin ∨ v = anyOrigin)

/-- Only configured origins are admitted, and with credentials the other ones cannot be told
apart. -/
structure Restricts : Prop where
  admitted : ∀ values, p.Admits values → values httpOrigin ∈ p.origins ∨ anyOrigin ∈ p.origins
  uniform : p.credentials = true → ∀ values o o', o ∉ p.origins → o' ∉ p.origins →
    p.response (Function.update values httpOrigin o) =
      p.response (Function.update values httpOrigin o')

def OnlyItself (value : Bytes) : Prop :=
  ∀ values v, interpolate values value = some v → v ≠ [] →
    v = values httpOrigin ∨ v = anyOrigin → values httpOrigin = value

/-! ## The header -/

theorem nginxQuoted_value {value : Bytes} {field : String} {word : Word}
    (h : nginxQuoted value field = .ok word) : word = quotedWord value := by
  unfold nginxQuoted at h
  split at h
  · cases h
  · exact (Except.ok.inj h).symm

variable {values : Bytes → Bytes}

theorem headerOf_responseHeader {name header v : Bytes} {word : Word} :
    headerOf values (responseHeader name word) = some (header, v) ↔
      header = name ∧ interpolate values word.value = some v ∧ v ≠ [] := by
  change ((interpolate values word.value).filter fun v => !v.isEmpty).map (fun v => (name, v)) =
    some (header, v) ↔ _
  rw [Option.map_eq_some_iff]
  constructor
  · rintro ⟨w, hw, heq⟩
    obtain ⟨rfl, rfl⟩ := Prod.mk.inj heq
    obtain ⟨hvalue, hne⟩ := Option.filter_eq_some_iff.mp hw
    exact ⟨rfl, hvalue, by simpa using hne⟩
  · rintro ⟨rfl, hvalue, hne⟩
    exact ⟨v, Option.filter_eq_some_iff.mpr ⟨hvalue, by simpa using hne⟩, rfl⟩

theorem lines_spec :
    responseHeader allowOrigin (quotedWord (corsOrigin p.config)) ∈ p.lines ∧
      ∀ line ∈ p.lines, line = responseHeader allowOrigin (quotedWord (corsOrigin p.config)) ∨
        ∃ name word, name ≠ allowOrigin ∧ line = responseHeader name word := by
  obtain ⟨origin, horigin, h⟩ := exists_of_bind_ok p.rendered
  obtain ⟨methods, -, h⟩ := exists_of_bind_ok h
  obtain ⟨headers, -, h⟩ := exists_of_bind_ok h
  obtain ⟨expose, -, h⟩ := exists_of_bind_ok h
  rw [← Except.ok.inj h, ← nginxQuoted_value horigin]
  refine ⟨List.mem_append_left _ (List.mem_append_left _ List.mem_cons_self), fun line hline => ?_⟩
  simp only [List.mem_append, List.mem_cons, List.not_mem_nil, or_false] at hline
  rcases hline with ((hline | hline | hline | hline) | hline) | hline
  · exact .inl hline
  · exact .inr ⟨_, _, by decide, hline⟩
  · exact .inr ⟨_, _, by decide, hline⟩
  · exact .inr ⟨_, _, by decide, hline⟩
  · split at hline
    · exact .inr ⟨_, _, by decide, List.mem_singleton.mp hline⟩
    · cases hline
  · obtain ⟨word, -, rfl⟩ := List.mem_map.mp hline
    exact .inr ⟨_, _, by decide, rfl⟩

theorem mem_response_allowOrigin {v : Bytes} :
    (allowOrigin, v) ∈ p.response values ↔
      interpolate values (corsOrigin p.config) = some v ∧ v ≠ [] := by
  rw [response, List.mem_filterMap]
  constructor
  · rintro ⟨line, hline, hheader⟩
    rcases p.lines_spec.2 line hline with rfl | ⟨name, word, hname, rfl⟩
    · exact (headerOf_responseHeader.mp hheader).2
    · exact absurd (headerOf_responseHeader.mp hheader).1.symm hname
  · rintro ⟨hvalue, hne⟩
    exact ⟨_, p.lines_spec.1, headerOf_responseHeader.mpr ⟨rfl, hvalue, hne⟩⟩

theorem interpolate_httpOrigin :
    interpolate values (ascii "$http_origin") = some (values httpOrigin) := by
  have hpieces : pieces (ascii "$http_origin").length (ascii "$http_origin") =
      some [.variable httpOrigin] := by
    decide
  rw [interpolate, hpieces]
  simp [Piece.value]

theorem corsOrigin_of_credentials (h : p.credentials = true) :
    corsOrigin p.config = ascii "$http_origin" :=
  if_pos h

theorem corsOrigin_of_single {origin : Bytes} (h : p.credentials = false)
    (hsingle : p.origins = [origin]) : corsOrigin p.config = origin := by
  have hconfigured := p.configured
  rw [hsingle] at hconfigured
  have hcredentials : ¬configBool p.config "allow_credentials" false = true := by
    simpa [credentials] using h
  rw [corsOrigin, if_neg hcredentials, hconfigured]

theorem corsOrigin_of_several (h : ∀ origin, p.origins ≠ [origin]) :
    corsOrigin p.config = ascii "$http_origin" := by
  unfold corsOrigin
  split
  · rfl
  · rw [p.configured]
    split
    · rename_i origin heq
      exact absurd (Option.some.inj heq) (h origin)
    · rfl

theorem exists_other (origins : List Bytes) : ∃ o : Bytes, o ∉ origins ∧ o ≠ [] := by
  obtain ⟨o, ho⟩ := Infinite.exists_notMem_finset ([] :: origins).toFinset
  rw [List.mem_toFinset, List.mem_cons, not_or] at ho
  exact ⟨o, ho.2, ho.1⟩

theorem mem_response_of_reflects (h : corsOrigin p.config = ascii "$http_origin") {v : Bytes} :
    (allowOrigin, v) ∈ p.response values ↔ v = values httpOrigin ∧ v ≠ [] := by
  rw [mem_response_allowOrigin, h, interpolate_httpOrigin, Option.some.injEq, eq_comm]

theorem not_uniform (h : p.credentials = true) : ¬p.Restricts := by
  intro hrestricts
  have hreflects := p.corsOrigin_of_credentials h
  obtain ⟨o, ho, hne⟩ := exists_other p.origins
  obtain ⟨o', ho', hne'⟩ := exists_other (o :: p.origins)
  rw [List.mem_cons, not_or] at ho'
  have hsame := hrestricts.uniform h (fun _ => []) o o' ho ho'.2
  have hmem : (allowOrigin, o) ∈ p.response (Function.update (fun _ => []) httpOrigin o) :=
    (p.mem_response_of_reflects hreflects).mpr ⟨by simp, hne⟩
  rw [hsame, p.mem_response_of_reflects hreflects, Function.update_self] at hmem
  exact ho'.1 hmem.1.symm

/-- The configured origins are enforced exactly if credentials are not allowed, and every
origin is configured or a single one is, whose value is no other origin. -/
theorem cors_restricts_iff :
    p.Restricts ↔ p.credentials = false ∧
      (anyOrigin ∈ p.origins ∨ ∃ origin, p.origins = [origin] ∧ OnlyItself origin) := by
  constructor
  · intro h
    have hcredentials : p.credentials = false := by
      by_contra hallowed
      exact p.not_uniform (by simpa using hallowed) h
    refine ⟨hcredentials, ?_⟩
    by_cases hany : anyOrigin ∈ p.origins
    · exact .inl hany
    by_cases hsingle : ∃ origin, p.origins = [origin]
    · obtain ⟨origin, hsingle⟩ := hsingle
      refine .inr ⟨origin, hsingle, fun values v hvalue hne hv => ?_⟩
      rw [← p.corsOrigin_of_single hcredentials hsingle] at hvalue
      have hadmitted := h.admitted values ⟨v, p.mem_response_allowOrigin.mpr ⟨hvalue, hne⟩, hv⟩
      simpa [hsingle] using hadmitted.resolve_right hany
    · -- The origin is sent back, and there is one that is not configured.
      have hreflects := p.corsOrigin_of_several fun origin heq => hsingle ⟨origin, heq⟩
      obtain ⟨o, ho, hne⟩ := exists_other p.origins
      have hadmits : p.Admits fun _ => o :=
        ⟨o, (p.mem_response_of_reflects hreflects).mpr ⟨rfl, hne⟩, .inl rfl⟩
      exact ((h.admitted _ hadmits).elim ho hany).elim
  · rintro ⟨hcredentials, hrest⟩
    refine ⟨fun values ⟨v, hmem, hv⟩ => ?_, fun hallowed => ?_⟩
    · rcases hrest with hany | ⟨origin, hsingle, honly⟩
      · exact .inr hany
      · rw [mem_response_allowOrigin, p.corsOrigin_of_single hcredentials hsingle] at hmem
        refine .inl ?_
        rw [hsingle, honly values v hmem.1 hmem.2 hv]
        exact List.mem_singleton_self origin
    · rw [hcredentials] at hallowed
      cases hallowed

end CorsPolicy

/-! ## Two configured origins -/

def partnerOrigins : List Bytes := [ascii "https://a.example", ascii "https://b.example"]

def partnerPolicy : CorsPolicy where
  config :=
    [ (ascii "allow_headers", Json.ofStrings []),
      (ascii "allow_methods", Json.ofStrings [ascii "GET"]),
      (ascii "allow_origins", Json.ofStrings partnerOrigins) ]
  origins := partnerOrigins
  configured := rfl
  origins_ne := by decide
  lines :=
    [ responseHeader allowOrigin (quotedWord (ascii "$http_origin")),
      responseHeader (ascii "Access-Control-Allow-Methods") (quotedWord (ascii "GET")),
      responseHeader (ascii "Access-Control-Allow-Headers") (quotedWord []),
      responseHeader (ascii "Access-Control-Max-Age") (.plain (decimal 86400)) ]
  rendered := rfl

theorem unlisted_origin_is_admitted :
    partnerPolicy.Admits (fun _ => ascii "https://evil.example") ∧
      ascii "https://evil.example" ∉ partnerPolicy.origins ∧
      anyOrigin ∉ partnerPolicy.origins ∧ ¬partnerPolicy.Restricts := by
  have hreflects : corsOrigin partnerPolicy.config = ascii "$http_origin" := rfl
  have hadmits : partnerPolicy.Admits fun _ => ascii "https://evil.example" :=
    ⟨_, (partnerPolicy.mem_response_of_reflects hreflects).mpr ⟨rfl, by decide⟩, .inl rfl⟩
  have hlisted : ascii "https://evil.example" ∉ partnerPolicy.origins ∧
      anyOrigin ∉ partnerPolicy.origins := by
    decide
  exact ⟨hadmits, hlisted.1, hlisted.2, fun h =>
    (h.admitted _ hadmits).elim hlisted.1 hlisted.2⟩

end AuroraGateway.ControlWorker
