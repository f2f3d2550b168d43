import AuroraGateway.Foundation.Delimited
import AuroraGateway.Foundation.StableSort
import AuroraGateway.ResponseCache.Policy
import Mathlib.Data.List.Lex
import Mathlib.Data.Prod.Lex

/-!
# Cache keys

A key is the method, the host and the path, joined by colons, and the parameters
of the query in sorted order.  Components that are not UTF-8 are replaced.
-/

namespace AuroraGateway.ResponseCache

open Foundation

def colon : UInt8 := 58
def ampersand : UInt8 := 38
def equalsSign : UInt8 := 61
def questionMark : UInt8 := 63

/-- `str::from_utf8(bytes).unwrap_or(fallback)` -/
def textOr (fallback bytes : Bytes) : Bytes := if validUtf8 bytes then bytes else fallback

/-- `String::push(byte as char)`: the UTF-8 encoding of the character with that number. -/
def pushByteAsChar (byte : UInt8) : Bytes :=
  if byte.toNat < 128 then [byte]
  else [UInt8.ofNat (0xC0 + byte.toNat / 64), UInt8.ofNat (0x80 + byte.toNat % 64)]

def hostText (host : Bytes) : Bytes := (toAsciiLowercase host).flatMap pushByteAsChar

def splitParam (pair : Bytes) : Bytes × Bytes := (splitOnce equalsSign pair).getD (pair, [])

/-- The name and the value of every parameter; a missing value is empty. -/
def params (query : Bytes) : List (Bytes × Bytes) :=
  ((query.splitOn ampersand).filter fun pair => !pair.isEmpty).map splitParam

variable (param : Bytes × Bytes)

/-- The order of `str` is that of the bytes. -/
def paramOrder : List Nat ×ₗ List Nat :=
  toLex (param.1.map UInt8.toNat, param.2.map UInt8.toNat)

def renderParam : Bytes :=
  if param.2.isEmpty then param.1 else param.1 ++ equalsSign :: param.2

def renderQuery (pairs : List (Bytes × Bytes)) : Bytes :=
  if pairs.isEmpty then []
  else
    questionMark ::
      [ampersand].intercalate ((sortByKey paramOrder pairs).map renderParam)

def keyParams (config : ResponseCacheConfig) (query : Bytes) : List (Bytes × Bytes) :=
  if !query.isEmpty && validUtf8 query then
    (params query).filter fun param =>
      match config.cacheKeyQueryParams with
      | some allowed => allowed.any fun a => a.bytes == param.1
      | none => true
  else []

def computeCacheKey (config : ResponseCacheConfig) (method host path query : Bytes) : Bytes :=
  textOr (ascii "GET") method ++ colon :: hostText host ++ colon ::
    textOr (ascii "/") path ++ renderQuery (keyParams config query)

/-! ## Components of a key -/

theorem pushByteAsChar_append_inj {byte byte' : UInt8} {rest rest' : Bytes}
    (h : pushByteAsChar byte ++ rest = pushByteAsChar byte' ++ rest') :
    byte = byte' ∧ rest = rest' := by
  have hlt := UInt8.toNat_lt byte
  have hlt' := UInt8.toNat_lt byte'
  unfold pushByteAsChar at h
  split_ifs at h with hascii hascii' hascii'
  · simpa using h
  · simp only [List.cons_append, List.nil_append, List.cons.injEq] at h
    have hhead := congrArg UInt8.toNat h.1
    rw [UInt8.toNat_ofNat'] at hhead
    omega
  · simp only [List.cons_append, List.nil_append, List.cons.injEq] at h
    have hhead := congrArg UInt8.toNat h.1
    rw [UInt8.toNat_ofNat'] at hhead
    omega
  · simp only [List.cons_append, List.nil_append, List.cons.injEq] at h
    obtain ⟨hfirst, hsecond, hrest⟩ := h
    have hquotient := congrArg UInt8.toNat hfirst
    have hremainder := congrArg UInt8.toNat hsecond
    simp only [UInt8.toNat_ofNat'] at hquotient hremainder
    exact ⟨UInt8.toNat_inj.mp (by omega), hrest⟩

theorem pushByteAsChar_ne_nil (byte : UInt8) : pushByteAsChar byte ≠ [] := by
  unfold pushByteAsChar
  split <;> simp

theorem hostText_eq_iff {host host' : Bytes} :
    hostText host = hostText host' ↔ toAsciiLowercase host = toAsciiLowercase host' := by
  unfold hostText
  generalize toAsciiLowercase host = left
  generalize toAsciiLowercase host' = right
  constructor
  · intro h
    induction left generalizing right with
    | nil =>
      cases right with
      | nil => rfl
      | cons byte right => simp [pushByteAsChar_ne_nil] at h
    | cons byte left ih =>
      cases right with
      | nil => simp [pushByteAsChar_ne_nil] at h
      | cons byte' right =>
        obtain ⟨rfl, hrest⟩ := pushByteAsChar_append_inj h
        rw [ih right hrest]
  · exact congrArg _

theorem paramOrder_injective : Function.Injective paramOrder := by
  have hbytes : Function.Injective (List.map UInt8.toNat) :=
    List.map_injective_iff.mpr fun _ _ h => UInt8.toNat_inj.mp h
  rintro ⟨name, value⟩ ⟨name', value'⟩ h
  obtain ⟨hname, hvalue⟩ := Prod.mk.inj (toLex.injective h)
  exact Prod.ext (hbytes hname) (hbytes hvalue)

def IsParam : Prop :=
  equalsSign ∉ param.1 ∧ ampersand ∉ param.1 ∧ ampersand ∉ param.2

theorem isParam_splitParam {pair : Bytes} (hpair : ampersand ∉ pair) :
    IsParam (splitParam pair) := by
  unfold splitParam
  cases hsplit : splitOnce equalsSign pair with
  | none => exact ⟨splitOnce_eq_none hsplit, hpair, by simp⟩
  | some param =>
    obtain ⟨hname, rfl⟩ := splitOnce_eq_some hsplit
    simp only [List.mem_append, List.mem_cons, not_or] at hpair
    exact ⟨hname, hpair.1, hpair.2.2⟩

variable {param : Bytes × Bytes} {pairs pairs' : List (Bytes × Bytes)}

theorem isParam_of_mem_params {query : Bytes}
    (h : param ∈ params query) : IsParam param := by
  obtain ⟨pair, hpair, rfl⟩ := List.mem_map.mp h
  exact isParam_splitParam (not_mem_of_mem_splitOn (List.mem_filter.mp hpair).1)

theorem ampersand_not_mem_renderParam (h : IsParam param) :
    ampersand ∉ renderParam param := by
  unfold renderParam
  split
  · exact h.2.1
  · rw [List.mem_append, List.mem_cons]
    rintro (hname | hsign | hvalue)
    · exact h.2.1 hname
    · exact absurd hsign (by decide)
    · exact h.2.2 hvalue

theorem renderParam_inj {param' : Bytes × Bytes} (h : IsParam param)
    (h' : IsParam param') (heq : renderParam param = renderParam param') :
    param = param' := by
  obtain ⟨name, value⟩ := param
  obtain ⟨name', value'⟩ := param'
  unfold renderParam at heq
  -- only a parameter with a value is rendered with an equals sign
  have hplain : ∀ {n n' v : Bytes}, equalsSign ∉ n → n ≠ n' ++ equalsSign :: v := by
    rintro n n' v hn rfl
    simp at hn
  cases value with
  | nil =>
    cases value' with
    | nil => simpa using heq
    | cons byte value' => exact absurd (by simpa using heq) (hplain h.1)
  | cons byte value =>
    cases value' with
    | nil => exact absurd (by simpa using heq.symm) (hplain h'.1)
    | cons byte' value' =>
      have hparts := (append_sep_inj h.1 h'.1).mp (by simpa using heq)
      exact Prod.ext hparts.1 hparts.2

section

variable (h : ∀ param ∈ pairs, IsParam param)
include h

theorem eq_of_map_renderParam_eq (h' : ∀ param ∈ pairs', IsParam param)
    (heq : pairs.map renderParam = pairs'.map renderParam) : pairs = pairs' := by
  induction pairs generalizing pairs' with
  | nil => simpa [eq_comm] using heq
  | cons param pairs ih =>
    cases pairs' with
    | nil => simp at heq
    | cons param' pairs' =>
      obtain ⟨hfirst, hrest⟩ := List.cons.inj heq
      rw [renderParam_inj (h param (by simp)) (h' param' (by simp)) hfirst,
        ih (fun p hp => h p (by simp [hp])) (fun p hp => h' p (by simp [hp])) hrest]

theorem eq_of_intercalate_eq (h' : ∀ param ∈ pairs', IsParam param) (hne : pairs ≠ [])
    (hne' : pairs' ≠ [])
    (heq : [ampersand].intercalate (pairs.map renderParam) =
      [ampersand].intercalate (pairs'.map renderParam)) : pairs = pairs' := by
  have hplain : ∀ {l : List (Bytes × Bytes)}, (∀ param ∈ l, IsParam param) →
      ∀ text ∈ l.map renderParam, ampersand ∉ text := by
    intro l hl text htext
    obtain ⟨param, hparam, rfl⟩ := List.mem_map.mp htext
    exact ampersand_not_mem_renderParam (hl param hparam)
  apply eq_of_map_renderParam_eq h h'
  rw [← List.splitOn_intercalate ampersand (hplain h) (by simpa using hne), heq,
    List.splitOn_intercalate ampersand (hplain h') (by simpa using hne')]

theorem renderQuery_eq_iff (h' : ∀ param ∈ pairs', IsParam param) :
    renderQuery pairs = renderQuery pairs' ↔ pairs.Perm pairs' := by
  have hsorted : ∀ {l : List (Bytes × Bytes)}, (∀ param ∈ l, IsParam param) →
      ∀ param ∈ sortByKey paramOrder l, IsParam param :=
    fun hl param hparam => hl param ((mem_sortByKey paramOrder).mp hparam)
  have hne : ∀ (param : Bytes × Bytes) l, sortByKey paramOrder (param :: l) ≠ [] := by
    intro param l hnil
    have := (mem_sortByKey paramOrder).mpr (List.mem_cons_self : param ∈ param :: l)
    simp [hnil] at this
  constructor
  · intro heq
    cases pairs with
    | nil =>
      cases pairs' with
      | nil => exact .refl _
      | cons param' pairs' => simp [renderQuery] at heq
    | cons param pairs =>
      cases pairs' with
      | nil => simp [renderQuery] at heq
      | cons param' pairs' =>
        rw [← sortByKey_eq_iff_perm paramOrder_injective]
        exact eq_of_intercalate_eq (hsorted h) (hsorted h') (hne _ _) (hne _ _)
          (by simpa [renderQuery] using heq)
  · intro hperm
    rw [renderQuery, renderQuery, (sortByKey_eq_iff_perm paramOrder_injective).mpr hperm]
    simp [hperm.isEmpty_eq]

end

theorem append_renderQuery_eq_iff {path path' : Bytes} (hpath : questionMark ∉ path)
    (hpath' : questionMark ∉ path') :
    path ++ renderQuery pairs = path' ++ renderQuery pairs' ↔
      path = path' ∧ renderQuery pairs = renderQuery pairs' := by
  constructor
  · intro h
    cases pairs with
    | nil =>
      cases pairs' with
      | nil => simpa [renderQuery] using h
      | cons param' pairs' =>
        simp only [renderQuery, List.isEmpty_nil, if_true, List.append_nil] at h
        simp [h] at hpath
    | cons param pairs =>
      cases pairs' with
      | nil =>
        simp only [renderQuery, List.isEmpty_nil, if_true, List.append_nil] at h
        simp [← h] at hpath'
      | cons param' pairs' =>
        have hparts := (append_sep_inj hpath hpath').mp (by simpa [renderQuery] using h)
        exact ⟨hparts.1, by simp [renderQuery, hparts.2]⟩
  · rintro ⟨rfl, hquery⟩
    rw [hquery]

/-! ## Requests that share a key -/

structure CacheRequest where
  method : Bytes
  host : Bytes
  path : Bytes
  query : Bytes
  /-- The adapter cuts the path off at the question mark. -/
  plainPath : questionMark ∉ path

namespace CacheRequest

def key (request : CacheRequest) (config : ResponseCacheConfig) : Bytes :=
  computeCacheKey config request.method request.host request.path request.query

def SameResource (r r' : CacheRequest) : Prop :=
  r.method = r'.method ∧ toAsciiLowercase r.host = toAsciiLowercase r'.host ∧
    r.path = r'.path ∧ (params r.query).Perm (params r'.query)

variable (r : CacheRequest)

/-- The components after decoding: an undecodable method is `GET`, an undecodable path is
`/`, and an undecodable query has no parameters. -/
def readMethod : Bytes := textOr (ascii "GET") r.method

def readPath : Bytes := textOr (ascii "/") r.path

def readParams : List (Bytes × Bytes) :=
  if validUtf8 r.query then params r.query else []

def ReadsAlike (r r' : CacheRequest) : Prop :=
  r.readMethod = r'.readMethod ∧ toAsciiLowercase r.host = toAsciiLowercase r'.host ∧
    r.readPath = r'.readPath ∧ r.readParams.Perm r'.readParams

def target : Bytes := r.readPath ++ renderQuery r.readParams

/-- A colon in the host or the method of `r'` takes over the place of a delimiter of `r`:
the texts of the two are the same, cut at different colons. -/
def SpillsInto (r r' : CacheRequest) : Prop :=
  (r.readMethod = r'.readMethod ∧ ∃ x, hostText r'.host = hostText r.host ++ colon :: x ∧
      r.target = x ++ colon :: r'.target) ∨
    ∃ y, r'.readMethod = r.readMethod ++ colon :: y ∧
      hostText r.host ++ colon :: r.target =
        y ++ colon :: (hostText r'.host ++ colon :: r'.target)

variable {r r' : CacheRequest} {config : ResponseCacheConfig}

theorem keyParams_eq (hfilter : config.cacheKeyQueryParams = none) (r : CacheRequest) :
    keyParams config r.query = r.readParams := by
  unfold keyParams readParams
  rw [hfilter]
  cases hquery : r.query with
  | nil => simp [params, List.splitOn_nil]
  | cons byte rest => simp

theorem key_eq (hfilter : config.cacheKeyQueryParams = none) (r : CacheRequest) :
    r.key config = r.readMethod ++ colon :: (hostText r.host ++ colon :: r.target) := by
  simp [key, computeCacheKey, keyParams_eq hfilter, readMethod, readPath, target]

theorem plain_readPath : questionMark ∉ r.readPath := by
  unfold readPath textOr
  split
  · exact r.plainPath
  · decide

theorem isParam_of_mem_readParams {param : Bytes × Bytes} (h : param ∈ r.readParams) :
    IsParam param := by
  unfold readParams at h
  split at h
  · exact isParam_of_mem_params h
  · simp at h

theorem target_eq_iff :
    r.target = r'.target ↔ r.readPath = r'.readPath ∧ r.readParams.Perm r'.readParams := by
  rw [target, target, append_renderQuery_eq_iff r.plain_readPath r'.plain_readPath,
    renderQuery_eq_iff (fun _ => isParam_of_mem_readParams) fun _ => isParam_of_mem_readParams]

theorem key_eq_iff (hfilter : config.cacheKeyQueryParams = none) :
    r.key config = r'.key config ↔
      ReadsAlike r r' ∨ SpillsInto r r' ∨ SpillsInto r' r := by
  rw [key_eq hfilter, key_eq hfilter, append_sep_eq_iff, append_sep_eq_iff, hostText_eq_iff,
    target_eq_iff]
  constructor
  · rintro (⟨hmethod, hsame | hhost | hhost⟩ | hmethod | hmethod)
    · exact .inl ⟨hmethod, hsame⟩
    · exact .inr (.inl (.inl ⟨hmethod, hhost⟩))
    · exact .inr (.inr (.inl ⟨hmethod.symm, hhost⟩))
    · exact .inr (.inl (.inr hmethod))
    · exact .inr (.inr (.inr hmethod))
  · rintro (⟨hmethod, hsame⟩ | (⟨hmethod, hhost⟩ | hmethod) | ⟨hmethod, hhost⟩ | hmethod)
    · exact .inl ⟨hmethod, .inl hsame⟩
    · exact .inl ⟨hmethod, .inr (.inl hhost)⟩
    · exact .inr (.inl hmethod)
    · exact .inl ⟨hmethod.symm, .inr (.inr hhost)⟩
    · exact .inr (.inr hmethod)

theorem SameResource.symm (h : SameResource r r') : SameResource r' r :=
  ⟨h.1.symm, h.2.1.symm, h.2.2.1.symm, h.2.2.2.symm⟩

theorem SpillsInto.not_same (h : SpillsInto r r') : ¬SameResource r r' := by
  rintro ⟨hmethod, hhost, -⟩
  rcases h with ⟨-, x, hx, -⟩ | ⟨y, hy, -⟩
  · have := congrArg List.length (hx.symm.trans (hostText_eq_iff.mpr hhost.symm))
    simp at this
  · have := congrArg List.length (hy.symm.trans (congrArg (textOr (ascii "GET")) hmethod.symm))
    simp [readMethod] at this

/-- A key stands for one resource unless a component spills over its delimiter, or two
requests differ only in what their decoding drops. -/
theorem key_separates_iff (hfilter : config.cacheKeyQueryParams = none)
    (r r' : CacheRequest) :
    (r.key config = r'.key config → SameResource r r') ↔
      ¬SpillsInto r r' ∧ ¬SpillsInto r' r ∧ (ReadsAlike r r' → SameResource r r') := by
  rw [key_eq_iff hfilter]
  constructor
  · intro h
    refine ⟨fun hspill => ?_, fun hspill => ?_, fun halike => h (.inl halike)⟩
    · exact hspill.not_same (h (.inr (.inl hspill)))
    · exact hspill.not_same (h (.inr (.inr hspill))).symm
  · rintro ⟨hspill, hspill', halike⟩ (h | h | h)
    · exact halike h
    · exact absurd h hspill
    · exact absurd h hspill'

def frontPage : CacheRequest :=
  ⟨ascii "GET", ascii "example.com", ascii "/", [], by decide⟩

def undecodablePage : CacheRequest :=
  ⟨ascii "GET", ascii "example.com", [47, 255], [], by decide⟩

def shoutedPage : CacheRequest :=
  ⟨ascii "GET", ascii "EXAMPLE.com", ascii "/", ascii "&", by decide⟩

theorem front_page_separates :
    ResponseCacheConfig.default.cacheKeyQueryParams = none ∧
      (frontPage.key .default = shoutedPage.key .default →
        SameResource frontPage shoutedPage) := by
  have hsame : SameResource frontPage shoutedPage :=
    ⟨rfl, by decide, rfl, by decide +kernel⟩
  exact ⟨rfl, (key_separates_iff rfl frontPage shoutedPage).mpr
    ⟨fun h => h.not_same hsame, fun h => h.not_same hsame.symm, fun _ => hsame⟩⟩

theorem undecodable_page_shares_key :
    frontPage.key .default = undecodablePage.key .default ∧
      frontPage.path ≠ undecodablePage.path := by
  constructor
  · decide +kernel
  · decide

end CacheRequest

end AuroraGateway.ResponseCache
