import AuroraGateway.ControlWorker.Routing
import AuroraGateway.Foundation.AsciiText

/-!
# The certificate of a host

An exact name goes first. Among the patterns it is the order of the certificates that decides.
-/

namespace AuroraGateway.ControlWorker

open Foundation

/-! ## The most specific certificate -/

def IsWildcardOf (host pattern : Bytes) : Prop :=
  ∃ sub base suffix, splitOnce dot (trim host) = some (sub, base) ∧ sub ≠ [] ∧
    trim pattern = ascii "*." ++ suffix ∧ eqIgnoreAsciiCase base suffix = true

section Selection

variable (env : RouteRenderer) (certs : List CertificateSpec) (host : Bytes)
  (cert : CertificateSpec)

def HasExactName : Prop :=
  ∃ san ∈ cert.sans env, eqIgnoreAsciiCase (trim san) host = true ∨
    eqIgnoreAsciiCase (trim san) (trim host) = true

def HasWildcardName : Prop :=
  ∃ san ∈ cert.sans env, IsWildcardOf host san

def HasCatchAll : Prop := ∃ san ∈ cert.sans env, trim san = ascii "*"

/-- An exact name, else a wildcard of the host, else `*`, else none. -/
def IsMostSpecific : Option CertificateSpec → Prop
  | some cert => cert ∈ certs ∧ (HasExactName env host cert ∨
      (∀ other ∈ certs, ¬HasExactName env host other) ∧ (HasWildcardName env host cert ∨
        (∀ other ∈ certs, ¬HasWildcardName env host other) ∧ HasCatchAll env cert))
  | none => ∀ cert ∈ certs, ¬HasExactName env host cert ∧ ¬HasWildcardName env host cert ∧
      ¬HasCatchAll env cert

/-! ## The two scans -/

def isExact : Bool :=
  (cert.sans env).any fun san => eqIgnoreAsciiCase (trim san) host

def isMatch : Bool :=
  (cert.sans env).any fun san => matchesSni san host

/-- The certificates among which the scan that finds one takes the first. -/
def candidates : List CertificateSpec :=
  if certs.any (isExact env host) then certs.filter (isExact env host)
  else certs.filter (isMatch env host)

variable {env certs host}

theorem findMatchingCertificate_eq :
    findMatchingCertificate env certs host = (candidates env certs host).head? := by
  change (certs.find? (isExact env host)).or (certs.find? (isMatch env host)) = _
  rw [candidates]
  split_ifs with hexact
  · rw [List.head?_filter, Option.or_of_isSome]
    exact List.find?_isSome.mpr (List.any_eq_true.mp hexact)
  · rw [List.head?_filter, List.find?_eq_none.mpr, Option.none_or]
    exact fun cert hcert h => hexact (List.any_eq_true.mpr ⟨cert, hcert, h⟩)

theorem stripPrefix?_eq_some_iff {literal bytes rest : Bytes} :
    stripPrefix? literal bytes = some rest ↔ bytes = literal ++ rest := by
  rw [stripPrefix?, Option.ite_none_right_eq_some, List.isPrefixOf_iff_prefix, Option.some.injEq]
  constructor
  · rintro ⟨⟨tail, rfl⟩, rfl⟩
    rw [List.drop_left]
  · rintro rfl
    exact ⟨List.prefix_append _ _, List.drop_left⟩

theorem matchesSni_iff {pattern : Bytes} :
    matchesSni pattern host = true ↔ eqIgnoreAsciiCase (trim pattern) (trim host) = true ∨
      IsWildcardOf host pattern ∨ trim pattern = ascii "*" := by
  rw [matchesSni]
  split_ifs with h
  · rw [Bool.or_eq_true, beq_iff_eq] at h
    exact iff_of_true rfl (h.imp_right .inr)
  · rw [Bool.or_eq_true, beq_iff_eq, not_or] at h
    rw [or_iff_right h.1, or_iff_left h.2]
    split
    · rename_i suffix sub base hsuffix hlabels
      rw [Bool.and_eq_true, Bool.not_eq_true', List.isEmpty_eq_false_iff]
      constructor
      · rintro ⟨hsub, hbase⟩
        exact ⟨sub, base, suffix, hlabels, hsub, stripPrefix?_eq_some_iff.mp hsuffix, hbase⟩
      · rintro ⟨_, _, _, hlabels', hsub, hpattern, hbase⟩
        obtain ⟨rfl, rfl⟩ := Prod.mk.inj (Option.some.inj (hlabels.symm.trans hlabels'))
        obtain rfl := Option.some.inj
          (hsuffix.symm.trans (stripPrefix?_eq_some_iff.mpr hpattern))
        exact ⟨hsub, hbase⟩
    · rename_i hneither
      refine iff_of_false nofun ?_
      rintro ⟨sub, base, suffix, hlabels, -, hpattern, -⟩
      exact hneither suffix sub base (stripPrefix?_eq_some_iff.mpr hpattern) hlabels

variable {cert : CertificateSpec}

theorem isMatch_iff :
    isMatch env host cert = true ↔
      (∃ san ∈ cert.sans env, eqIgnoreAsciiCase (trim san) (trim host) = true) ∨
        HasWildcardName env host cert ∨ HasCatchAll env cert := by
  simp only [isMatch, List.any_eq_true, matchesSni_iff, and_or_left, exists_or, HasWildcardName,
    HasCatchAll]

theorem hasExactName_iff (hexact : ¬certs.any (isExact env host) = true) (hcert : cert ∈ certs) :
    HasExactName env host cert ↔
      ∃ san ∈ cert.sans env, eqIgnoreAsciiCase (trim san) (trim host) = true := by
  constructor
  · rintro ⟨san, hsan, hname | hname⟩
    · exact absurd (List.any_eq_true.mpr ⟨cert, hcert, List.any_eq_true.mpr ⟨san, hsan, hname⟩⟩)
        hexact
    · exact ⟨san, hsan, hname⟩
  · rintro ⟨san, hsan, hname⟩
    exact ⟨san, hsan, .inr hname⟩

theorem candidates_perm {other : List CertificateSpec} (h : other.Perm certs) :
    (candidates env other host).Perm (candidates env certs host) := by
  rw [candidates, candidates, h.any_eq]
  split_ifs
  · exact h.filter _
  · exact h.filter _

theorem head?_eq_of_perm {α : Type*} {l l' : List α} (hperm : l'.Perm l)
    (hone : ∀ a ∈ l, ∀ b ∈ l, a = b) : l'.head? = l.head? := by
  cases l' with
  | nil => rw [hperm.nil_eq]
  | cons a as =>
    cases l with
    | nil => exact absurd hperm.eq_nil nofun
    | cons b bs =>
      rw [List.head?_cons, List.head?_cons, hone a (hperm.subset (.head _)) b (.head _)]

theorem exists_perm_chosen (hcert : cert ∈ candidates env certs host) :
    ∃ other : List CertificateSpec, other.Perm certs ∧
      findMatchingCertificate env other host = some cert := by
  have hmem : cert ∈ certs := by
    rw [candidates] at hcert
    split_ifs at hcert
    · exact List.mem_of_mem_filter hcert
    · exact List.mem_of_mem_filter hcert
  obtain ⟨before, after, rfl⟩ := List.append_of_mem hmem
  have hperm : (cert :: (before ++ after)).Perm (before ++ cert :: after) :=
    List.perm_middle.symm
  refine ⟨_, hperm, ?_⟩
  rw [findMatchingCertificate_eq, candidates, hperm.any_eq]
  rw [candidates] at hcert
  split_ifs at hcert ⊢
  · rw [List.filter_cons_of_pos (List.mem_filter.mp hcert).2, List.head?_cons]
  · rw [List.filter_cons_of_pos (List.mem_filter.mp hcert).2, List.head?_cons]

theorem isMostSpecific_of_subsingleton
    (hone : ∀ cert ∈ candidates env certs host, ∀ other ∈ candidates env certs host,
      cert = other) :
    IsMostSpecific env certs host (findMatchingCertificate env certs host) := by
  rw [findMatchingCertificate_eq]
  cases hchosen : (candidates env certs host).head? with
  | none =>
    have hnone : candidates env certs host = [] := List.head?_eq_none_iff.mp hchosen
    rw [candidates] at hnone
    split_ifs at hnone with hexact
    · obtain ⟨cert, hcert, hname⟩ := List.any_eq_true.mp hexact
      exact absurd hname (List.filter_eq_nil_iff.mp hnone cert hcert)
    · intro cert hcert
      have hmatch := List.filter_eq_nil_iff.mp hnone cert hcert
      rw [isMatch_iff, not_or, not_or] at hmatch
      exact ⟨fun h => hmatch.1 (hasExactName_iff hexact hcert |>.mp h), hmatch.2⟩
  | some cert =>
    have hcert : cert ∈ candidates env certs host := List.mem_of_mem_head? hchosen
    rw [candidates] at hcert hone
    split_ifs at hcert hone with hexact
    · obtain ⟨hmem, hname⟩ := List.mem_filter.mp hcert
      obtain ⟨san, hsan, heq⟩ := List.any_eq_true.mp hname
      exact ⟨hmem, .inl ⟨san, hsan, .inl heq⟩⟩
    · obtain ⟨hmem, hname⟩ := List.mem_filter.mp hcert
      have hother : ∀ other ∈ certs, isMatch env host other = true → cert = other :=
        fun other hother h => hone cert hcert other (List.mem_filter.mpr ⟨hother, h⟩)
      refine ⟨hmem, or_iff_not_imp_left.mpr fun hcertExact => ⟨fun other hmem' h => ?_,
        or_iff_not_imp_left.mpr fun hcertWildcard => ⟨fun other hmem' h => ?_, ?_⟩⟩⟩
      · have hname' := (hasExactName_iff hexact hmem').mp h
        rw [← hother other hmem' (isMatch_iff.mpr (.inl hname'))] at h
        exact hcertExact h
      · rw [← hother other hmem' (isMatch_iff.mpr (.inr (.inl h)))] at h
        exact hcertWildcard h
      · rw [isMatch_iff, ← hasExactName_iff hexact hmem, or_iff_right hcertExact,
          or_iff_right hcertWildcard] at hname
        exact hname

end Selection

/-- The choice goes by specificity, whatever the order of the certificates, exactly if the scan
that decides has one certificate to choose from. -/
theorem selection_by_specificity_iff (env : RouteRenderer) (certs : List CertificateSpec)
    (host : Bytes) :
    (∀ other : List CertificateSpec, other.Perm certs →
      IsMostSpecific env certs host (findMatchingCertificate env other host) ∧
        findMatchingCertificate env other host = findMatchingCertificate env certs host) ↔
    ∀ cert ∈ candidates env certs host, ∀ other ∈ candidates env certs host, cert = other := by
  constructor
  · intro h cert hcert other hother
    obtain ⟨_, hperm, hchosen⟩ := exists_perm_chosen hcert
    obtain ⟨_, hperm', hchosen'⟩ := exists_perm_chosen hother
    exact Option.some.inj (hchosen.symm.trans
      ((h _ hperm).2.trans ((h _ hperm').2.symm.trans hchosen')))
  · intro hone other hperm
    have hsame :
        findMatchingCertificate env other host = findMatchingCertificate env certs host := by
      rw [findMatchingCertificate_eq, findMatchingCertificate_eq]
      exact head?_eq_of_perm (candidates_perm hperm) hone
    exact ⟨hsame ▸ isMostSpecific_of_subsingleton hone, hsame⟩

def catchAll : CertificateSpec where
  id := .ofAscii "1"
  name := .ofAscii "fallback"
  snis := [.ofAscii "*"]
  certPem := .ofAscii ""
  keyPem := .ofAscii ""
  mtlsEnabled := false
  clientCaPem := .ofAscii ""
  verifyDepth := none

def wildcard : CertificateSpec :=
  { catchAll with id := .ofAscii "2", snis := [.ofAscii "*.example.com"] }

/-- Before the certificate of `*.example.com` the one of `*` is chosen, after it the other. -/
theorem catch_all_before_wildcard :
    let env : RouteRenderer := ⟨[], fun _ => [], id, fun _ => .refl _⟩
    let host := ascii "www.example.com"
    [[catchAll, wildcard], [wildcard, catchAll]].map
        (fun certs => (findMatchingCertificate env certs host).map (·.id)) =
      [some catchAll.id, some wildcard.id] := by
  decide +kernel

end AuroraGateway.ControlWorker
