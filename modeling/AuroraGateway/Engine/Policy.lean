import AuroraGateway.Engine.Request
import AuroraGateway.Foundation.Utf8
import Mathlib.Data.List.Lex
import Mathlib.Data.Prod.Lex

/-!
# Compilation of policies

The checks and conversions that the compilers of several policies share.
-/

namespace AuroraGateway.Engine

open Foundation

def isHostByte (byte : UInt8) : Bool :=
  isAsciiAlphanumeric byte || byte == 46 || byte == 45

def hostValid (host : Bytes) : Bool :=
  if host = ascii "*" then true
  else
    match stripPrefix? (ascii "*.") host with
    | some sub => !sub.isEmpty && sub.all isHostByte
    | none => host.all isHostByte

def isHeaderNameByte (byte : UInt8) : Bool :=
  isAsciiAlphanumeric byte || byte == 45 || byte == 95

/-! ## Scopes

The IP restriction and the resource limit engines match hosts and paths in the
same way. -/

inductive HostMatcher where
  | any
  | exact (expected : Bytes)
  | suffix (expected : Bytes)
  deriving DecidableEq

def HostMatcher.parse (host : Bytes) : Option HostMatcher :=
  let s := trim host
  if s = ascii "*" || s.isEmpty then some .any
  else
    match stripPrefix? (ascii "*.") s with
    | some sub =>
      if sub.isEmpty || !sub.all isHostByte then none else some (.suffix sub)
    | none => if s.all isHostByte then some (.exact s) else none

def HostMatcher.matches (matcher : HostMatcher) (reqHost : Bytes) : Bool :=
  match matcher with
  | .any => true
  | .exact expected => expected == reqHost
  | .suffix expected =>
    expected.length < reqHost.length && expected.isSuffixOf reqHost &&
      reqHost[reqHost.length - expected.length - 1]? == some 46

def matchesPath (pathPrefix path : Bytes) : Bool :=
  pathPrefix.length ≤ path.length && pathPrefix.isPrefixOf path &&
    (pathPrefix == ascii "/" || (ascii "/").isSuffixOf pathPrefix ||
      path.length == pathPrefix.length || path[pathPrefix.length]? == some slash)

/-! ## Rules -/

def checkIds : List Bytes → List Bytes → Bool
  | _, [] => true
  | seen, id :: ids =>
    !(trim id).isEmpty && id.length ≤ 128 && !seen.contains id && checkIds (id :: seen) ids

theorem nodup_of_checkIds {seen ids : List Bytes} (h : checkIds seen ids = true) :
    ids.Nodup ∧ ∀ id ∈ ids, id ∉ seen := by
  induction ids generalizing seen with
  | nil => simp
  | cons id ids ih =>
    simp only [checkIds, Bool.and_eq_true, Bool.not_eq_true', List.contains_eq_mem,
      decide_eq_false_iff_not] at h
    obtain ⟨hnodup, hnew⟩ := ih h.2
    refine ⟨List.nodup_cons.mpr ⟨fun hid => hnew id hid List.mem_cons_self, hnodup⟩, ?_⟩
    intro id' hid'
    rcases List.mem_cons.mp hid' with rfl | hmem
    · exact h.1.2
    · exact fun hseen => hnew id' hmem (List.mem_cons_of_mem _ hseen)

abbrev RuleOrder := Nat ×ₗ Nat ×ₗ List Nat

def ruleOrderKey (priority : UInt32) (host id : Bytes) : RuleOrder :=
  toLex (priority.toNat, toLex (hostSpecificity host, id.map UInt8.toNat))

def renderTemplate (template : Bytes) (vars : List (Bytes × Bytes)) : Bytes :=
  vars.foldl (fun result (var, val) => replaceAll var val result) template

/-! ## Texts of the sample policies -/

def wildcardText : Text := ⟨ascii "*", by decide⟩

def rootText : Text := ⟨ascii "/", by decide⟩

def clientIpText : Text := ⟨ascii "client_ip", by decide⟩

end AuroraGateway.Engine
