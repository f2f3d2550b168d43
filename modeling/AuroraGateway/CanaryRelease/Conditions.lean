import AuroraGateway.Foundation.AsciiText
import AuroraGateway.Foundation.Delimited
import AuroraGateway.Foundation.LetterCase

/-!
# What a condition is evaluated on

The keys of conditions are made lower case when a policy is compiled.  A cookie is
then looked for by its bytes before the header is taken apart without regard to
case, and a parameter of the query is compared as it is.
-/

namespace AuroraGateway.CanaryRelease

open Foundation

/-! ## Compilation -/

inductive MatchTarget where
  | header
  | cookie
  | uri
  | path
  | query
  deriving DecidableEq

def isTokenByte (byte : UInt8) : Bool := isAsciiAlphanumeric byte || byte = 45 || byte = 95

def isValidTokenKey (key : Bytes) : Bool :=
  !key.isEmpty && key.length ≤ 64 && key.all isTokenByte

def compileKey (target : MatchTarget) (key : Option Text) : Option Bytes :=
  match target with
  | .header | .cookie =>
    (key.filter fun key => !(trim key.bytes).isEmpty).bind fun key =>
      let trimmedK := toAsciiLowercase (trim key.bytes)
      if isValidTokenKey trimmedK then some trimmedK else none
  | .query =>
    some (((key.map fun key => toAsciiLowercase (trim key.bytes)).filter
      fun key => !key.isEmpty).getD [])
  | .uri | .path => some []

/-! ## Evaluation -/

def isBlank (byte : UInt8) : Bool := byte = 32 || byte = 9 || byte = 13 || byte = 10

def trimAscii (bytes : Bytes) : Bytes :=
  ((bytes.dropWhile isBlank).reverse.dropWhile isBlank).reverse

def cookieValue (key pair : Bytes) : Option Bytes :=
  let trimmed := trimAscii pair
  if trimmed.isEmpty then none
  else
    let (k, v) :=
      match splitOnce 61 trimmed with
      | some (k, v) => (trimAscii k, trimAscii v)
      | none => (trimmed, [])
    if eqIgnoreAsciiCase k key then some v else none

def extractCookie (cookieHdr key : Bytes) : Option Bytes :=
  if cookieHdr.isEmpty || key.isEmpty then none
  else if key <:+: cookieHdr then (cookieHdr.splitOn 59).findSome? (cookieValue key)
  else none

def paramValue (key pair : Bytes) : Option Bytes :=
  if pair.isEmpty then none
  else
    let (k, v) := (splitOnce 61 pair).getD (pair, [])
    if k = key then some v else none

def extractQueryParam (query key : Bytes) : Option Bytes :=
  if query.isEmpty || key.isEmpty then none
  else if key <:+: query then (query.splitOn 38).findSome? (paramValue key)
  else none

structure CanaryRequest where
  headers : List (Bytes × Bytes)
  path : Bytes
  queryString : Bytes

def CanaryRequest.headerLookup (req : CanaryRequest) (name : Bytes) : Option Bytes :=
  (req.headers.find? fun header => eqIgnoreAsciiCase header.1 name).map Prod.snd

/-- What the matcher of a condition is given; `none` if the condition fails without it. -/
def conditionInput (target : MatchTarget) (key : Bytes) (req : CanaryRequest) : Option Bytes :=
  match target with
  | .header => req.headerLookup key
  | .cookie => (req.headerLookup (ascii "cookie")).bind fun hdr => extractCookie hdr key
  | .uri | .path => some req.path
  | .query =>
    if key.isEmpty then some req.queryString else extractQueryParam req.queryString key

def CanaryRequest.fields (req : CanaryRequest) (name : Bytes) : List Bytes :=
  (req.headers.filter fun header => eqIgnoreAsciiCase header.1 name).map Prod.snd

def cookies (name field : Bytes) : List Bytes := (field.splitOn 59).filterMap (cookieValue name)

def parameters (name query : Bytes) : List Bytes := (query.splitOn 38).filterMap (paramValue name)

/-- What a request carries under a name: the first header or cookie of all its fields that has
the name but for case, the first parameter that has it. -/
def carried (target : MatchTarget) (name : Bytes) (req : CanaryRequest) : Option Bytes :=
  match target with
  | .header => (req.fields name).head?
  | .cookie => ((req.fields (ascii "cookie")).flatMap (cookies name)).head?
  | .uri | .path => some req.path
  | .query => (parameters name req.queryString).head?

structure KeyedCondition where
  target : MatchTarget
  key : Text
  compiled : Bytes
  accepted : compileKey target (some key) = some compiled
  keyed : compiled ≠ []

/-! ## Names are parts of what is searched -/

section Parts

variable {key pair text value : Bytes}

theorem infix_of_splitOnce {left right : Bytes} (h : splitOnce 61 text = some (left, right)) :
    left <:+: text :=
  (splitOnce_eq_some h).2 ▸ List.infix_append' [] left _

theorem infix_of_paramValue (h : paramValue key pair = some value) :
    key <:+: pair := by
  unfold paramValue at h
  dsimp only at h
  split_ifs at h with hempty hname
  cases hsplit : splitOnce 61 pair with
  | none =>
    rw [hsplit] at hname
    exact hname ▸ List.infix_rfl
  | some parts =>
    rw [hsplit] at hname
    exact hname ▸ infix_of_splitOnce hsplit

/-- What the search of the bytes of the key leaves out has no parameter under it. -/
theorem extractQueryParam_eq (query : Bytes) (hkey : key ≠ []) :
    extractQueryParam query key = (parameters key query).head? := by
  rw [extractQueryParam, parameters, List.head?_filterMap]
  by_cases hpart : key <:+: query
  · have hquery : query ≠ [] := by
      rintro rfl
      exact hkey (List.infix_nil.mp hpart)
    simp [hkey, hquery, hpart]
  · rw [if_neg hpart, ite_self]
    refine (List.findSome?_eq_none_iff.mpr fun pair hpair => ?_).symm
    by_contra hfound
    obtain ⟨value, hvalue⟩ := Option.ne_none_iff_exists'.mp hfound
    exact hpart ((infix_of_paramValue hvalue).trans (infix_of_mem_splitOn hpair))

end Parts

theorem extractCookie_eq (name field : Bytes) (hkey : toAsciiLowercase name ≠ []) :
    extractCookie field (toAsciiLowercase name) =
      if toAsciiLowercase name <:+: field then (cookies name field).head? else none := by
  have hsame : cookieValue (toAsciiLowercase name) = cookieValue name := by
    funext pair
    simp only [cookieValue, eqIgnoreAsciiCase_lower]
  rw [extractCookie, cookies, List.head?_filterMap, hsame]
  by_cases hpart : toAsciiLowercase name <:+: field
  · have hfield : field ≠ [] := by
      rintro rfl
      exact hkey (List.infix_nil.mp hpart)
    simp [hkey, hfield, hpart]
  · rw [if_neg hpart, ite_self]

theorem CanaryRequest.head?_fields (req : CanaryRequest) (name : Bytes) :
    (req.fields name).head? = req.headerLookup name := by
  rw [fields, List.head?_map, List.head?_filter, headerLookup]

namespace KeyedCondition

variable (condition : KeyedCondition)

def name : Bytes := trim condition.key.bytes

theorem compiled_eq : condition.compiled = toAsciiLowercase condition.name := by
  have haccepted := condition.accepted
  have hkeyed := condition.keyed
  unfold compileKey at haccepted
  cases htarget : condition.target with
  | header | cookie =>
    simp only [htarget, Option.bind_eq_some_iff, Option.filter_eq_some_iff] at haccepted
    obtain ⟨key, ⟨hkey, -⟩, hcompiled⟩ := haccepted
    obtain rfl := Option.some.inj hkey
    rw [Option.ite_none_right_eq_some] at hcompiled
    exact (Option.some.inj hcompiled.2).symm
  | uri | path =>
    simp only [htarget, Option.some.injEq] at haccepted
    exact absurd haccepted.symm hkeyed
  | query =>
    simp only [htarget, Option.map_some, Option.filter_some, Option.some.injEq] at haccepted
    split_ifs at haccepted with hempty
    · exact haccepted.symm
    · exact absurd haccepted.symm hkeyed

/-- No field has the cookie, or the first one has it and the bytes of the key in lower case.  The
key of a parameter is in lower case, or the first parameters under it and under the key in lower
case have one value. -/
def Found (req : CanaryRequest) : Prop :=
  match condition.target with
  | .cookie =>
    (∀ field ∈ req.fields (ascii "cookie"), cookies condition.name field = []) ∨
      ∃ field, (req.fields (ascii "cookie")).head? = some field ∧
        cookies condition.name field ≠ [] ∧ toAsciiLowercase condition.name <:+: field
  | .query => (∀ byte ∈ condition.name, isAsciiUppercase byte = false) ∨
      (parameters (toAsciiLowercase condition.name) req.queryString).head? =
        (parameters condition.name req.queryString).head?
  | .header | .uri | .path => True

theorem cookie_input_iff (req : CanaryRequest) (htarget : condition.target = .cookie) :
    conditionInput .cookie condition.compiled req = carried .cookie condition.name req ↔
      condition.Found req := by
  have hkey := condition.compiled_eq ▸ condition.keyed
  rw [conditionInput, ← req.head?_fields, carried, Found, htarget, condition.compiled_eq]
  cases hfields : req.fields (ascii "cookie") with
  | nil => simp
  | cons field fields =>
    have hinput := extractCookie_eq condition.name field hkey
    simp only [List.head?_cons, Option.bind_some, hinput, List.flatMap_cons]
    cases hcookies : cookies condition.name field with
    | nil =>
      rw [List.nil_append, List.head?_nil, ite_self, eq_comm, List.head?_eq_none_iff,
        List.flatMap_eq_nil_iff]
      simp [hcookies]
    | cons value values => simp [hcookies]

end KeyedCondition

def betaCookie : KeyedCondition where
  target := .cookie
  key := .ofAscii "Beta"
  compiled := ascii "beta"
  accepted := by decide
  keyed := by decide

def betaParameter : KeyedCondition := { betaCookie with target := .query, accepted := by decide }

end AuroraGateway.CanaryRelease
