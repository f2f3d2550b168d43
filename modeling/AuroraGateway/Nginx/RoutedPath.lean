import AuroraGateway.Ffi.RouteMasks
import AuroraGateway.Jwt.Coherence
import AuroraGateway.Nginx.Request

/-!
# The path of the policies and the path of the routes

The policies look at the path as the client has written it.  The host chooses a
location by the path it makes of that one: it decodes the escapes, merges the
slashes and resolves the dot segments.
-/

namespace AuroraGateway.Nginx

open Engine.PathRadixTree (Covers Decides)
open Ffi Foundation
open Jwt (JwtEngine)

/-! ## Locations -/

def hexValue (byte : UInt8) : Option UInt8 :=
  if isAsciiDigit byte then some (byte - 48)
  else if 97 ≤ byte ||| 0x20 ∧ byte ||| 0x20 ≤ 102 then some ((byte ||| 0x20) - 97 + 10)
  else none

/-- An escape that is not complete, and that of the byte 0, are refused. -/
def percentDecode : Bytes → Option Bytes
  | [] => some []
  | byte :: rest =>
    if byte = 37 then
      match rest with
      | high :: low :: rest =>
        (hexValue high).bind fun high => (hexValue low).bind fun low =>
          if high * 16 + low = 0 then none
          else (percentDecode rest).map fun rest => (high * 16 + low) :: rest
      | _ => none
    else (percentDecode rest).map fun rest => byte :: rest

def isDirectorySegment (segment : Bytes) : Bool :=
  segment = [] || segment = ascii "." || segment = ascii ".."

/-- Follow the segments from a directory; the way to it is kept in reverse.  There is no
way above the root. -/
def resolveSegments : List Bytes → List Bytes → Option (List Bytes)
  | way, [] => some way
  | way, segment :: rest =>
    if segment = [] ∨ segment = ascii "." then resolveSegments way rest
    else if segment = ascii ".." then
      match way with
      | [] => none
      | _ :: way => resolveSegments way rest
    else resolveSegments (segment :: way) rest

def joinSegments (segments : List Bytes) : Bytes := segments.flatMap fun segment => slash :: segment

def trailingSlash (segments : List Bytes) : Bytes :=
  if (segments.getLast?).any isDirectorySegment then ascii "/" else []

def normalizePath (path : Bytes) : Option Bytes :=
  match path.splitOn slash with
  | [] :: segment :: rest =>
    (resolveSegments [] (segment :: rest)).map fun way =>
      if way = [] then ascii "/"
      else joinSegments way.reverse ++ trailingSlash (segment :: rest)
  | _ => none

/-- The path by which a location is chosen; a request without one gets status 400. -/
def routedPath (unparsedUri : Bytes) : Option Bytes :=
  let path := unparsedUri.takeWhile fun byte => byte != 63
  if path = [] then some (ascii "/") else (percentDecode path).bind normalizePath

structure RoutedRequest extends Request where
  routed : routedPath unparsedUri = some uri

def RoutedRequest.policyPath (r : RoutedRequest) : Bytes :=
  sliceOrDefault r.origPath (ascii "/")

theorem head?_normalizePath {path routed : Bytes} (h : normalizePath path = some routed) :
    routed.head? = some slash := by
  unfold normalizePath at h
  split at h
  · obtain ⟨way, -, rfl⟩ := Option.map_eq_some_iff.mp h
    split
    · rfl
    · rename_i hway
      obtain ⟨before, last, hreverse⟩ : ∃ before last, way.reverse = before :: last := by
        cases hreverse : way.reverse with
        | nil => exact absurd (List.reverse_eq_nil_iff.mp hreverse) hway
        | cons before last => exact ⟨before, last, rfl⟩
      simp [hreverse, joinSegments]
  · cases h

/-! ## The longest text that covers a path -/

def longestTextUpTo (path : Bytes) : Nat → Bytes
  | 0 => []
  | n + 1 =>
    if validUtf8 (path.take (n + 1)) = true ∧ Covers (path.take (n + 1)) path then
      path.take (n + 1)
    else longestTextUpTo path n

def longestText (path : Bytes) : Bytes := longestTextUpTo path path.length

section LongestText

variable {path p q routed : Bytes}

theorem validUtf8_longestTextUpTo (path : Bytes) (n : Nat) :
    validUtf8 (longestTextUpTo path n) = true := by
  induction n with
  | zero => rfl
  | succ n ih =>
    rw [longestTextUpTo]
    split
    · rename_i htext
      exact htext.1
    · exact ih

theorem covers_nil (hpath : path.head? = some slash) : Covers [] path := by
  obtain ⟨rest, rfl⟩ := List.head?_eq_some_iff.mp hpath
  exact ⟨List.nil_prefix, .inr (.inr rfl)⟩

theorem covers_longestTextUpTo (hpath : path.head? = some slash) (n : Nat) :
    Covers (longestTextUpTo path n) path := by
  induction n with
  | zero => exact covers_nil hpath
  | succ n ih =>
    rw [longestTextUpTo]
    split
    · rename_i htext
      exact htext.2
    · exact ih

theorem length_le_longestTextUpTo (hvalid : validUtf8 p = true) (hcovers : Covers p path)
    {n : Nat} (hn : p.length ≤ n) : p.length ≤ (longestTextUpTo path n).length := by
  induction n with
  | zero => omega
  | succ n ih =>
    have hle := hcovers.1.length_le
    rw [longestTextUpTo]
    split
    · rw [List.length_take]
      omega
    · rename_i hother
      refine ih (Nat.lt_succ_iff.mp (hn.lt_of_ne fun hlength => hother ?_))
      rw [← hlength, ← List.prefix_iff_eq_take.mp hcovers.1]
      exact ⟨hvalid, hcovers⟩

theorem covers_of_prefix (hp : Covers p path) (hpq : p <+: q) (hq : q <+: path)
    (hrouted : Covers q routed) : Covers p routed := by
  rcases hpq.length_le.eq_or_lt with hlength | hlength
  · rwa [hpq.eq_of_length hlength]
  · refine ⟨hpq.trans hrouted.1, hp.2.imp_right fun hrest => .inr ?_⟩
    rcases hrest with rfl | hslash
    · have := hq.length_le
      omega
    · rw [List.prefix_iff_getElem?.mp hrouted.1 p.length hlength, ← hslash]
      exact (List.prefix_iff_getElem?.mp hq p.length hlength).symm

theorem covers_of_covers_longestText (hvalid : validUtf8 p = true) (hp : Covers p path)
    (hpath : path.head? = some slash) (h : Covers (longestText path) routed) :
    Covers p routed := by
  have hlongest := (covers_longestTextUpTo hpath path.length).1
  refine covers_of_prefix hp ?_ hlongest h
  exact List.prefix_of_prefix_length_le hp.1 hlongest
    (length_le_longestTextUpTo hvalid hp hp.1.length_le)

end LongestText

namespace RoutedRequest

variable (r : RoutedRequest)

theorem head?_uri : r.uri.head? = some slash := by
  have hrouted := r.routed
  unfold routedPath at hrouted
  dsimp only at hrouted
  split at hrouted
  · rw [← Option.some.inj hrouted]
    rfl
  · obtain ⟨decoded, -, hnormal⟩ := Option.bind_eq_some_iff.mp hrouted
    exact head?_normalizePath hnormal

theorem policyPath_eq_uri_or :
    r.policyPath = r.uri ∨
      r.policyPath.head? = some slash ∧
        (percentDecode r.policyPath).bind normalizePath = some r.uri := by
  unfold policyPath Request.origPath
  split
  · rename_i hslash
    obtain ⟨rest, hrest⟩ := List.head?_eq_some_iff.mp hslash
    have hpath : r.unparsedUri.takeWhile (fun byte => byte != 63) =
        slash :: rest.takeWhile fun byte => byte != 63 := by
      rw [hrest]
      rfl
    have hrouted := r.routed
    simp only [routedPath, hpath, reduceCtorEq, if_false] at hrouted
    rw [hpath]
    exact .inr ⟨rfl, hrouted⟩
  · have hne : r.uri.isEmpty = false := by
      obtain ⟨rest, hrest⟩ := List.head?_eq_some_iff.mp r.head?_uri
      simp [hrest]
    simp [sliceOrDefault, hne]

theorem head?_policyPath : r.policyPath.head? = some slash := by
  rcases r.policyPath_eq_uri_or with heq | ⟨hhead, -⟩
  · rw [heq, r.head?_uri]
  · exact hhead

end RoutedRequest

/-! ## Policies that look at the path -/

section Spared

variable {H K : Type} [DecidableEq H]

structure SparedBy (env : Jwt.Environment H K) (snapshot : Jwt.Snapshot)
    (engine : JwtEngine H K) (call : JwtEngine.Call H) (entry : Text) : Prop where
  spared : ∃ item input, JwtEngine.validRequest call.host call.path = true ∧
    engine.findOrigin call.host call.path = some item ∧
    item.policy.excludeMatcher.matches env.endian call.path = some true ∧
    snapshot.ranked[item.rank]? = some input ∧ entry ∈ input.excludePaths
  covers : Covers entry.bytes call.path

end Spared

namespace RoutedRequest

/-- Where a request needs no token because of an exclude path, its location lies under
that path. -/
def SparedInside (r : RoutedRequest) : Prop :=
  ∀ (H K : Type) [DecidableEq H] (env : Jwt.Environment H K) (order : Jwt.RowOrder H)
    (clock : Nat → Nat) (bytes : Bytes) (built : JwtEngine H K) (snapshot : Jwt.Snapshot),
    JwtEngine.fromSnapshot env order clock bytes = .ok built →
    env.parseSnapshot bytes = some snapshot →
    ∀ (past : List (JwtEngine.Activity H)) (call : JwtEngine.Call H) (entry : Text),
      call.path = r.policyPath →
      SparedBy env snapshot (past.foldl (JwtEngine.act env) built) call entry →
      Covers entry.bytes r.uri

/-- Where an extension is off because of a route, the location of the request lies under
that route. -/
def SwitchedInside (r : RoutedRequest) : Prop :=
  ∀ (F : Type) (loaders : Loaders F) (memories : List PolicyMemory) (space : PolicySpace F),
    (Process.after loaders memories).active = some space →
    ∀ (ext : Nat) (rule : RouteMaskRule), space.SwitchedOff r.policyPath ext rule →
      Covers rule.key r.uri

end RoutedRequest

/-! ## The condition -/

namespace RoutedRequest

variable (r : RoutedRequest)

theorem sparedInside (h : Covers (longestText r.policyPath) r.uri) : r.SparedInside := by
  intro H K _ env order clock bytes built snapshot _ _ past call entry hpath hspared
  have hcovers := hspared.covers
  rw [hpath] at hcovers
  exact covers_of_covers_longestText entry.valid hcovers r.head?_policyPath h

theorem validUtf8_key (rule : RouteMaskRule) : validUtf8 rule.key = true := by
  unfold RouteMaskRule.key sliceOrDefault
  split
  · decide
  · exact rule.path.valid

theorem switchedInside (h : Covers (longestText r.policyPath) r.uri) : r.SwitchedInside := by
  intro F loaders memories space _ ext rule hoff
  exact covers_of_covers_longestText (validUtf8_key rule) hoff.decides.covers
    r.head?_policyPath h

def exception : RouteMaskRule where
  path := ⟨longestText r.policyPath, validUtf8_longestTextUpTo _ _⟩
  allowMask := 0
  denyMask := u32Mask
  explicit := true

end RoutedRequest

variable (rules : List RouteMaskRule)

def guardedLoaders : Loaders ℚ :=
  { (Loaders.empty : Loaders ℚ) with
    jwt := fun _ => some fun _ _ => .ok .unauthorized
    routeMasks := fun _ => some ⟨rules⟩ }

def firstPublication : PolicyMemory := ⟨1, fun _ => ⟨1, [0]⟩⟩

def guardedSpace : PolicySpace ℚ :=
  (Process.after (guardedLoaders rules) [firstPublication]).active.getD .default

theorem active_after_firstPublication :
    (Process.after (guardedLoaders rules) [firstPublication]).active = some (guardedSpace rules) :=
  rfl

theorem switchedOff_guardedSpace {rule : RouteMaskRule} {path : Bytes}
    (hcovers : Covers rule.key path) (hmask : ∀ active, effectiveMask active rule = 0) :
    (guardedSpace [rule]).SwitchedOff path auroraExtJwt rule := by
  have hdecides : Decides (routeEntries (guardedSpace [rule])) path
      (rule.key, effectiveMask (activeMask (guardedSpace [rule])) rule) := by
    refine ⟨hcovers, [(ascii "/", activeMask (guardedSpace [rule]))], [], rfl, ?_, by simp⟩
    intro other hother _
    obtain rfl := List.mem_singleton.mp hother
    have hne : rule.key ≠ [] := by
      unfold RouteMaskRule.key sliceOrDefault
      split
      · decide
      · rename_i hempty
        simpa using hempty
    exact List.length_pos_iff.mpr hne
  have hsynced : (guardedSpace [rule]).Synced :=
    synced_after (guardedLoaders [rule]) [firstPublication] _ (active_after_firstPublication [rule])
  refine ⟨?_, ?_, List.mem_singleton_self rule, hdecides⟩
  · rw [enables_activeMask_jwt]
    rfl
  · rw [PolicySpace.resolveRouteMask_of_decides hsynced hdecides, hmask]
    simp [enables]

/-- The policies of a path stay with its location exactly if the location lies under the
longest prefix of the path that a policy could name. -/
theorem policy_path_routed_iff (r : RoutedRequest) :
    (r.SparedInside ∧ r.SwitchedInside) ↔ Covers (longestText r.policyPath) r.uri := by
  constructor
  · rintro ⟨-, hswitched⟩
    have hlongest := covers_longestTextUpTo r.head?_policyPath r.policyPath.length
    have hkey : r.exception.key = longestText r.policyPath ∨ longestText r.policyPath = [] := by
      unfold RouteMaskRule.key sliceOrDefault
      split
      · rename_i hempty
        exact .inr (List.isEmpty_iff.mp hempty)
      · exact .inl rfl
    rcases hkey with hkey | hnil
    · rw [← hkey]
      refine hswitched ℚ _ _ _ (active_after_firstPublication [r.exception]) auroraExtJwt _ ?_
      refine switchedOff_guardedSpace ?_ ?_
      · rw [hkey]
        exact hlongest
      · simp [effectiveMask, RoutedRequest.exception, u32Mask]
    · rw [hnil]
      exact covers_nil r.head?_uri
  · intro h
    exact ⟨r.sparedInside h, r.switchedInside h⟩

def publicText : Text := ⟨ascii "/public", by decide⟩

def openOrigin : Jwt.OriginInput := { Jwt.sessionOrigin with excludePaths := [publicText] }

def openEnvironment : Jwt.Environment (Bytes ⊕ Bytes) Unit :=
  Jwt.transparentEnvironment ⟨1, 1, [openOrigin]⟩

def openEngine : JwtEngine (Bytes ⊕ Bytes) Unit where
  generation := 1
  origins := .ofList [(ascii "/", ⟨0,
    { Jwt.sessionPolicy [] with
      excludeMatcher := .single (.new .little (ascii "/public")) }⟩)]
  caches := fun rank =>
    [openOrigin][rank]?.bind (Jwt.compileCache openEnvironment (.asStored _ _) 1000)

def climbingRequest : RoutedRequest where
  methodName := ascii "GET"
  server := ascii "example.com"
  serverName := ascii "example.com"
  unparsedUri := ascii "/public/../admin"
  uri := ascii "/admin"
  args := []
  routed := by decide +kernel

def climbingCall : JwtEngine.Call (Bytes ⊕ Bytes) where
  host := ascii "example.com"
  path := climbingRequest.policyPath
  headerLookup := fun _ => none
  nowEpoch := 1000
  order := .asStored _ _

/-- The location `/admin` is reached without a token. -/
theorem admin_spared_as_public :
    JwtEngine.fromSnapshot openEnvironment (.asStored _ _) (fun _ => 1000) [0] =
        .ok openEngine ∧
      climbingCall.path = climbingRequest.policyPath ∧
      SparedBy openEnvironment ⟨1, 1, [openOrigin]⟩ openEngine climbingCall publicText ∧
      (openEngine.evaluateWithLookupAt openEnvironment climbingCall).2 =
        some (.ok (.allow [])) ∧
      ¬Covers publicText.bytes climbingRequest.uri := by
  refine ⟨rfl, rfl, ⟨⟨_, _, rfl, rfl, rfl, rfl, List.mem_singleton_self _⟩, by decide⟩, rfl, ?_⟩
  decide

end AuroraGateway.Nginx
