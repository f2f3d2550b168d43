import AuroraGateway.Engine.Policy
import AuroraGateway.Foundation.LetterCase
import AuroraGateway.Foundation.TrimmedText

/-!
# Patterns of hosts

The IP restriction and the resource limit compile a pattern and compare its bytes.  The
other engines compare without regard to case, and to them a wildcard covers the domain
itself as well.
-/

namespace AuroraGateway.Engine

open Foundation

structure AcceptedHost where
  pattern : Bytes
  valid : hostValid pattern = true
  nonempty : pattern ≠ []

namespace AcceptedHost

variable (accepted : AcceptedHost) {sub : Bytes}

def compiledMatches (host : Bytes) : Bool :=
  (HostMatcher.parse accepted.pattern).any fun matcher => matcher.matches host

theorem whiteSpace_foreign :
    (whiteSpace.all fun seq => seq.all fun b => !isHostByte b && b ≠ 42) = true := by
  decide +kernel

theorem trim_pattern (h : ∀ b ∈ accepted.pattern, isHostByte b = true ∨ b = 42) :
    trim accepted.pattern = accepted.pattern := by
  refine trim_of_forall_not_mem fun b hb seq hseq hmem => ?_
  have hforeign := List.all_eq_true.mp (List.all_eq_true.mp whiteSpace_foreign seq hseq) b hmem
  rw [Bool.and_eq_true, Bool.not_eq_true', decide_eq_true_eq] at hforeign
  rcases h b hb with hhost | hstar
  · rw [hforeign.1] at hhost
    cases hhost
  · exact hforeign.2 hstar

theorem compiledMatches_any (h : accepted.pattern = ascii "*") (host : Bytes) :
    accepted.compiledMatches host = true := by
  rw [compiledMatches, h]
  rfl

section

variable (hany : accepted.pattern ≠ ascii "*")
include hany

theorem parse_wildcard (hstrip : stripPrefix? (ascii "*.") accepted.pattern = some sub) :
    HostMatcher.parse accepted.pattern = some (.suffix sub) := by
  have hvalid := accepted.valid
  rw [hostValid, if_neg hany, hstrip] at hvalid
  simp only [Bool.and_eq_true, Bool.not_eq_true'] at hvalid
  have hbytes : accepted.pattern = ascii "*." ++ sub := by
    unfold stripPrefix? at hstrip
    split at hstrip
    · rename_i hstarts
      obtain ⟨rest, hrest⟩ := List.isPrefixOf_iff_prefix.mp hstarts
      rw [← hrest, List.drop_left] at hstrip
      rw [← Option.some.inj hstrip, hrest]
    · cases hstrip
  have htrim : trim accepted.pattern = accepted.pattern := by
    refine accepted.trim_pattern fun b hb => ?_
    rw [hbytes] at hb
    rcases List.mem_append.mp hb with hstar | hsub
    · revert hstar
      simp only [ascii]
      simp
      rintro (rfl | rfl)
      · exact .inr rfl
      · exact .inl rfl
    · exact .inl (List.all_eq_true.mp hvalid.2 b hsub)
  simp [HostMatcher.parse, htrim, hany, accepted.nonempty, hstrip, hvalid.1, hvalid.2]

theorem parse_plain (hstrip : stripPrefix? (ascii "*.") accepted.pattern = none) :
    HostMatcher.parse accepted.pattern = some (.exact accepted.pattern) := by
  have hvalid := accepted.valid
  rw [hostValid, if_neg hany, hstrip] at hvalid
  have htrim : trim accepted.pattern = accepted.pattern :=
    accepted.trim_pattern fun b hb => .inl (List.all_eq_true.mp hvalid b hb)
  simp [HostMatcher.parse, htrim, hany, accepted.nonempty, hstrip, hvalid]

theorem apex_differs (hstrip : stripPrefix? (ascii "*.") accepted.pattern = some sub) :
    accepted.compiledMatches sub = false ∧ hostMatches accepted.pattern sub = true := by
  constructor
  · simp [compiledMatches, accepted.parse_wildcard hany hstrip, HostMatcher.matches]
  · simp [hostMatches, hany, hstrip, eqIgnoreAsciiCase]

theorem compiledMatches_plain (hstrip : stripPrefix? (ascii "*.") accepted.pattern = none)
    (host : Bytes) : accepted.compiledMatches host = (accepted.pattern == host) ∧
      hostMatches accepted.pattern host = eqIgnoreAsciiCase accepted.pattern host := by
  constructor
  · simp [compiledMatches, accepted.parse_plain hany hstrip, HostMatcher.matches]
  · simp [hostMatches, hany, hstrip]

end

theorem not_letter_of_agree
    (h : ∀ host, (accepted.pattern == host) = eqIgnoreAsciiCase accepted.pattern host) :
    ∀ b ∈ accepted.pattern, isLetter b = false := by
  have hlower : accepted.pattern = toAsciiLowercase accepted.pattern := by
    refine eq_of_beq ((h _).trans ?_)
    rw [eqIgnoreAsciiCase_lower]
    exact beq_self_eq_true _
  have hupper : accepted.pattern = toAsciiUppercase accepted.pattern := by
    refine eq_of_beq ((h _).trans ?_)
    rw [eqIgnoreAsciiCase, Bool.beq_comm]
    exact eqIgnoreAsciiCase_upper _
  intro b hb
  rw [isLetter, Bool.or_eq_false_iff]
  exact ⟨not_upper_of_mem_lower (hlower ▸ hb), not_lower_of_mem_upper (hupper ▸ hb)⟩

/-- Every engine means the same by a pattern exactly if it is the one for all hosts, or one
host without letters. -/
theorem same_in_every_engine_iff :
    (∀ host, accepted.compiledMatches host = hostMatches accepted.pattern host) ↔
      accepted.pattern = ascii "*" ∨
        (ascii "*.").isPrefixOf accepted.pattern = false ∧
          ∀ b ∈ accepted.pattern, isLetter b = false := by
  by_cases hany : accepted.pattern = ascii "*"
  · refine iff_of_true (fun host => ?_) (.inl hany)
    rw [accepted.compiledMatches_any hany, hostMatches, if_pos hany]
  cases hstrip : stripPrefix? (ascii "*.") accepted.pattern with
  | some sub =>
    obtain ⟨hcompiled, hother⟩ := accepted.apex_differs hany hstrip
    have hstarts : (ascii "*.").isPrefixOf accepted.pattern = true := by
      by_contra hnot
      rw [stripPrefix?, if_neg hnot] at hstrip
      cases hstrip
    refine iff_of_false (fun h => ?_) (by simp [hany, hstarts])
    rw [h, hother] at hcompiled
    cases hcompiled
  | none =>
    have hstarts : (ascii "*.").isPrefixOf accepted.pattern = false := by
      by_contra hnot
      rw [stripPrefix?, if_pos (by simpa using hnot)] at hstrip
      cases hstrip
    have hplain := accepted.compiledMatches_plain hany hstrip
    constructor
    · intro h
      refine .inr ⟨hstarts, accepted.not_letter_of_agree fun host => ?_⟩
      rw [← (hplain host).1, h, (hplain host).2]
    · rintro (h | ⟨-, hletters⟩) host
      · exact absurd h hany
      · rw [(hplain host).1, (hplain host).2, Bool.eq_iff_iff, beq_iff_eq]
        constructor
        · rintro rfl
          exact beq_self_eq_true _
        · intro heq
          refine (eq_of_eqIgnoreAsciiCase hletters ?_).symm
          rwa [eqIgnoreAsciiCase, Bool.beq_comm]

end AcceptedHost

def subdomains : AcceptedHost := ⟨ascii "*.example.com", by decide, by decide⟩

def plainHost : AcceptedHost := ⟨ascii "example.com", by decide, by decide⟩

/-- A wildcard, and a host in upper case. -/
theorem host_meanings_differ :
    subdomains.compiledMatches (ascii "example.com") = false ∧
      hostMatches (ascii "*.example.com") (ascii "example.com") = true ∧
      plainHost.compiledMatches (ascii "EXAMPLE.com") = false ∧
      hostMatches (ascii "example.com") (ascii "EXAMPLE.com") = true := by
  decide +kernel

end AuroraGateway.Engine
