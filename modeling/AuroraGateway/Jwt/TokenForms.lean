import AuroraGateway.Foundation.AsciiText
import AuroraGateway.Foundation.Base64Url
import AuroraGateway.Foundation.Delimited
import AuroraGateway.Jwt.Engine

/-!
# Other forms of a token

Revocations are kept by the bytes of a token.  The last part of a token is trimmed
before it is decoded, and its padding may be left out, so a signature has other
forms unless the length of the form is fixed.
-/

namespace AuroraGateway.Jwt

open Foundation Base64Url

variable {K : Type}

def base64Padding (bytes : Bytes) : Bytes := List.replicate ((3 - bytes.length % 3) % 3) 61

/-- The engines of the library decode the canonical encodings and nothing else. -/
structure DocumentedBase64 (prims : Primitives K) : Prop where
  noPad : ∀ text bytes, prims.base64UrlSafeNoPad text = some bytes ↔
    text = Base64Url.encode bytes
  padded : ∀ text bytes, prims.base64UrlSafe text = some bytes ↔
    text = Base64Url.encode bytes ++ base64Padding bytes

def tokenParts (token : Bytes) : Option (Bytes × Bytes) :=
  match token.splitOn 46 with
  | [headerB64, payloadB64, signatureB64] => some (headerB64 ++ 46 :: payloadB64, signatureB64)
  | _ => none

def SameSigned (prims : Primitives K) (token other : Bytes) : Prop :=
  ∃ input signature signature' bytes, tokenParts token = some (input, signature) ∧
    tokenParts other = some (input, signature') ∧
    decodeBase64url prims signature = some bytes ∧
    decodeBase64url prims signature' = some bytes

structure Presentable (prims : Primitives K) (checks : TokenChecks K) (nowEpoch : Nat)
    (token : Bytes) : Prop where
  unspaced : token.any isTokenSpace = false
  valid : validUtf8 token = true
  verified : (verifyJwt prims checks nowEpoch token).isSome

/-! ## Encodings -/

theorem sextetChar_plain {value : Nat} (h : value < 64) :
    sextetChar value ≠ 61 ∧ sextetChar value < 0x80 ∧
      isTokenSpace (sextetChar value) = false ∧
      ∀ seq ∈ whiteSpace, sextetChar value ∉ seq := by
  revert value
  decide +kernel

section Decoding

variable {prims : Primitives K} {text bytes : Bytes}

theorem encode_ne_nil (h : bytes ≠ []) : encode bytes ≠ [] := by
  obtain ⟨first, rest, rfl⟩ := List.exists_cons_of_ne_nil h
  rcases rest with _ | ⟨second, _ | ⟨third, rest⟩⟩ <;> nofun

theorem not_mem_whiteSpace_of_mem_encode {char : UInt8} (h : char ∈ encode bytes) :
    ∀ seq ∈ whiteSpace, char ∉ seq := by
  obtain ⟨value, hlt, rfl⟩ := exists_of_mem_encode h
  exact (sextetChar_plain hlt).2.2.2

section

variable (hdoc : DocumentedBase64 prims)
include hdoc

theorem decodeBase64url_of_trim (hne : bytes ≠ []) (htrim : trim text = encode bytes) :
    decodeBase64url prims text = some bytes := by
  have hlast : (encode bytes).getLast? ≠ some 61 := by
    intro hlast
    obtain ⟨value, hlt, hchar⟩ :=
      exists_of_mem_encode (List.mem_of_getLast? hlast)
    exact (sextetChar_plain hlt).1 hchar
  simp only [decodeBase64url, htrim, List.isEmpty_iff, encode_ne_nil hne, if_false, hlast]
  exact (hdoc.noPad _ _).mpr rfl

section

variable (h : decodeBase64url prims text = some bytes)
include h

theorem decodeBase64url_eq_some : bytes ≠ [] ∧ (trim text = encode bytes ∨
      trim text = encode bytes ++ base64Padding bytes) := by
  simp only [decodeBase64url] at h
  split_ifs at h with hempty hpadded
  · have htrim := (hdoc.padded _ _).mp h
    refine ⟨?_, .inr htrim⟩
    rintro rfl
    exact hempty (by rw [htrim]; rfl)
  · have htrim := (hdoc.noPad _ _).mp h
    refine ⟨?_, .inl htrim⟩
    rintro rfl
    exact hempty (by rw [htrim]; rfl)

theorem length_encode_le : (encode bytes).length ≤ (trim text).length := by
  rcases (decodeBase64url_eq_some hdoc h).2 with htrim | htrim
  · rw [htrim]
  · rw [htrim, List.length_append]
    exact Nat.le_add_right _ _

theorem eq_encode_of_length (hlength : text.length ≤ (encode bytes).length) :
    text = encode bytes := by
  have hle := length_encode_le hdoc h
  have htrimmed : trim text = text := trim_eq_self_of_length_le (hlength.trans hle)
  have htrim := (decodeBase64url_eq_some hdoc h).2
  rw [htrimmed] at htrim
  refine htrim.elim id fun hpadded => ?_
  rw [hpadded, List.length_append] at hlength
  rw [hpadded, List.length_eq_zero_iff.mp (by omega : (base64Padding bytes).length = 0),
    List.append_nil]

end

end

end Decoding

/-! ## Forms of a signature -/

theorem tokenParts_eq_some {token input signature : Bytes}
    (h : tokenParts token = some (input, signature)) :
    ∃ headerB64 payloadB64, token.splitOn 46 = [headerB64, payloadB64, signature] ∧
      input = headerB64 ++ 46 :: payloadB64 ∧ token = input ++ 46 :: signature := by
  unfold tokenParts at h
  split at h
  · next headerB64 payloadB64 signatureB64 hsplit =>
      cases h
      refine ⟨headerB64, payloadB64, hsplit, rfl, ?_⟩
      have hjoin : [46].intercalate (token.splitOn 46) = token := List.intercalate_splitOn 46
      rw [hsplit] at hjoin
      simpa [List.intercalate] using hjoin.symm
  · cases h

section Forms

variable {prims : Primitives K} {checks : TokenChecks K} {nowEpoch : Nat} {token : Bytes}

theorem Presentable.parts (h : Presentable prims checks nowEpoch token) :
    ∃ input signature bytes, tokenParts token = some (input, signature) ∧
      decodeBase64url prims signature = some bytes ∧
      ∀ len, checks.algorithm.expectedB64SigLen = some len → signature.length = len := by
  obtain ⟨verified, hverified⟩ := Option.isSome_iff_exists.mp h.verified
  obtain ⟨payload, hfilter, -⟩ := Option.map_eq_some_iff.mp hverified
  have hopen := (Option.filter_eq_some_iff.mp hfilter).1
  unfold openToken at hopen
  split at hopen
  · next headerB64 payloadB64 signature hsplit =>
      split at hopen
      · cases hopen
      · next hlen =>
          simp only [Option.bind_eq_bind, Option.bind_eq_some_iff] at hopen
          obtain ⟨-, -, -, -, -, -, bytes, hbytes, -⟩ := hopen
          refine ⟨headerB64 ++ 46 :: payloadB64, signature, bytes, ?_,
            (Option.filter_eq_some_iff.mp hbytes).1, fun len hsome => ?_⟩
          · rw [tokenParts, hsplit]
          · simpa [hsome] using hlen
  · cases hopen

theorem Presentable.of_form (h : Presentable prims checks nowEpoch token)
    {input signature signature' bytes : Bytes}
    (hparts : tokenParts token = some (input, signature))
    (hbytes : decodeBase64url prims signature = some bytes)
    (hbytes' : decodeBase64url prims signature' = some bytes)
    (hlen : ∀ len, checks.algorithm.expectedB64SigLen = some len → signature'.length = len)
    (hplain : ∀ char ∈ signature', char < 0x80 ∧ char ≠ 46 ∧ isTokenSpace char = false) :
    Presentable prims checks nowEpoch (input ++ 46 :: signature') ∧
      SameSigned prims token (input ++ 46 :: signature') := by
  obtain ⟨headerB64, payloadB64, hsplit, rfl, htoken⟩ := tokenParts_eq_some hparts
  have hdots : ∀ part ∈ token.splitOn 46, 46 ∉ part := fun part => not_mem_of_mem_splitOn
  rw [hsplit] at hdots
  have hsplit' : (headerB64 ++ 46 :: payloadB64 ++ 46 :: signature').splitOn 46 =
      [headerB64, payloadB64, signature'] := by
    rw [List.append_assoc, List.cons_append, splitOn_append_sep (hdots headerB64 (by simp)),
      splitOn_append_sep (hdots payloadB64 (by simp)),
      List.splitOn_eq_singleton fun hmem => (hplain 46 hmem).2.1 rfl]
  have hlen' : ∀ len, checks.algorithm.expectedB64SigLen = some len → signature.length = len := by
    obtain ⟨_, _, _, hparts', -, hlen'⟩ := h.parts
    rw [hparts] at hparts'
    cases hparts'
    exact hlen'
  have hsame : openToken prims checks (headerB64 ++ 46 :: payloadB64 ++ 46 :: signature') =
      openToken prims checks token := by
    simp only [openToken, hsplit, hsplit', decodeBase64urlToSlice, hbytes, hbytes']
    cases hexpected : checks.algorithm.expectedB64SigLen with
    | none => rfl
    | some len => rw [Option.any_some, Option.any_some, hlen len hexpected, hlen' len hexpected]
  refine ⟨⟨?_, ?_, ?_⟩, ?_⟩
  · have hunspaced := h.unspaced
    rw [htoken, List.any_append, Bool.or_eq_false_iff] at hunspaced
    rw [List.any_append, hunspaced.1]
    simpa [isTokenSpace] using fun char hchar => (hplain char hchar).2.2
  · have hvalid := h.valid
    rw [htoken] at hvalid
    refine validUtf8_append_of_valid (validUtf8_append rfl hvalid).1
      (validUtf8_of_ascii fun char hchar => ?_)
    rcases List.mem_cons.mp hchar with rfl | hchar
    · decide
    · exact (hplain char hchar).1
  · rw [verifyJwt, hsame]
    exact h.verified
  · exact ⟨_, signature, signature', bytes, hparts, by rw [tokenParts, hsplit'], hbytes, hbytes'⟩

end Forms

structure SignedToken (K : Type) where
  prims : Primitives K
  documented : DocumentedBase64 prims
  checks : TokenChecks K
  nowEpoch : Nat
  token : Bytes
  passes : Presentable prims checks nowEpoch token

namespace SignedToken

variable (signed : SignedToken K)

theorem exists_two_forms {input signature bytes : Bytes}
    (hparts : tokenParts signed.token = some (input, signature))
    (hbytes : decodeBase64url signed.prims signature = some bytes) {k : Nat} (hpos : 0 < k)
    (hlen : ∀ len, signed.checks.algorithm.expectedB64SigLen = some len →
      k + (encode bytes).length = len) :
    ∃ other ≠ signed.token, Presentable signed.prims signed.checks signed.nowEpoch other ∧
      SameSigned signed.prims signed.token other := by
  have hne := (decodeBase64url_eq_some signed.documented hbytes).1
  have htabs : IsBlank (List.replicate k 11) := fun char hchar => by
    rw [List.eq_of_mem_replicate hchar]
    decide
  have hfirst := fun char (hchar : char ∈ (encode bytes).head?) =>
    not_mem_whiteSpace_of_mem_encode (List.mem_of_mem_head? hchar)
  have hlast := fun char (hchar : char ∈ (encode bytes).getLast?) =>
    not_mem_whiteSpace_of_mem_encode (List.mem_of_getLast? hchar)
  have hbefore : trim (List.replicate k 11 ++ encode bytes) = encode bytes := by
    simpa using trim_between htabs isBlank_nil hfirst hlast
  have hafter : trim (encode bytes ++ List.replicate k 11) = encode bytes :=
    trim_between isBlank_nil htabs hfirst hlast
  have hplain : ∀ char, char = 11 ∨ char ∈ encode bytes →
      char < 0x80 ∧ char ≠ 46 ∧ isTokenSpace char = false := by
    rintro char (rfl | hchar)
    · decide
    · obtain ⟨value, hlt, rfl⟩ := exists_of_mem_encode hchar
      obtain ⟨-, hascii, hspace, -⟩ := sextetChar_plain hlt
      exact ⟨hascii, (sextetChar_spec hlt).2, hspace⟩
  have hform : ∀ form, trim form = encode bytes →
      form.length = k + (encode bytes).length →
      (∀ char ∈ form, char = 11 ∨ char ∈ encode bytes) →
      Presentable signed.prims signed.checks signed.nowEpoch (input ++ 46 :: form) ∧
        SameSigned signed.prims signed.token (input ++ 46 :: form) := by
    intro form htrim hlength hchars
    refine signed.passes.of_form hparts hbytes
      (decodeBase64url_of_trim signed.documented hne htrim) ?_
      fun char hchar => hplain char (hchars char hchar)
    rw [hlength]
    exact hlen
  by_cases hsame : input ++ 46 :: (List.replicate k 11 ++ encode bytes) = signed.token
  · refine ⟨input ++ 46 :: (encode bytes ++ List.replicate k 11), fun heq => ?_,
      hform _ hafter (by simp; omega) (by simp; tauto)⟩
    -- the one begins with a blank, the other with a character of the encoding
    rw [← hsame, List.append_cancel_left_eq, List.cons.injEq] at heq
    obtain ⟨first, rest, hcons⟩ := List.exists_cons_of_ne_nil (encode_ne_nil hne)
    obtain ⟨k, rfl⟩ := Nat.exists_eq_succ_of_ne_zero hpos.ne'
    rw [hcons, List.replicate_succ, List.cons_append, List.cons_append, List.cons.injEq] at heq
    have hblank := not_mem_whiteSpace_of_mem_encode (hcons ▸ List.mem_cons_self : first ∈ _) [11]
      (by decide)
    exact hblank (by simp [heq.2.1])
  · exact ⟨_, hsame, hform _ hbefore (by simp) (by simp; tauto)⟩

/-- No other form of an accepted token is accepted exactly if the algorithm fixes the length
of the last part and the token has the plain encoding there. -/
theorem one_form_iff :
    (∀ other, Presentable signed.prims signed.checks signed.nowEpoch other →
        SameSigned signed.prims signed.token other → other = signed.token) ↔
      signed.checks.algorithm.expectedB64SigLen.isSome ∧
        ∃ input bytes, tokenParts signed.token = some (input, Base64Url.encode bytes) := by
  obtain ⟨input, signature, bytes, hparts, hbytes, hlen⟩ := signed.passes.parts
  constructor
  · intro hone
    have hnone : ∀ k, 0 < k → ¬∀ len, signed.checks.algorithm.expectedB64SigLen = some len →
        k + (encode bytes).length = len := by
      intro k hpos hfits
      obtain ⟨other, hne, hpasses, hsigned⟩ := signed.exists_two_forms hparts hbytes hpos hfits
      exact hne (hone other hpasses hsigned)
    cases hexpected : signed.checks.algorithm.expectedB64SigLen with
    | none => exact absurd (by simp [hexpected]) (hnone 1 Nat.one_pos)
    | some len =>
      refine ⟨rfl, input, bytes, ?_⟩
      have hle : signature.length ≤ (encode bytes).length := by
        by_contra hlt
        refine hnone (signature.length - (encode bytes).length) (by omega) ?_
        intro len' hlen'
        have := hlen len' hlen'
        omega
      rw [hparts, eq_encode_of_length signed.documented hbytes hle]
  · rintro ⟨hsome, input', bytes', hparts'⟩ other hpasses
      ⟨_, _, signature', bytes'', hsigned, hother, hdecoded, hdecoded'⟩
    obtain ⟨len, hexpected⟩ := Option.isSome_iff_exists.mp hsome
    cases hparts'.symm.trans hsigned
    cases hparts.symm.trans hparts'
    obtain ⟨_, _, _, hother', -, hlen'⟩ := hpasses.parts
    cases hother.symm.trans hother'
    have hne : bytes' ≠ [] := by
      rintro rfl
      cases hdecoded
    have htrim : trim (encode bytes') = _ :=
      trim_of_forall_not_mem fun char hchar => not_mem_whiteSpace_of_mem_encode hchar
    rw [decodeBase64url_of_trim signed.documented hne htrim] at hdecoded
    cases hdecoded
    have hform := eq_encode_of_length signed.documented hdecoded'
      (by rw [hlen len hexpected, hlen' len hexpected])
    obtain ⟨-, -, -, -, htoken⟩ := tokenParts_eq_some hsigned
    obtain ⟨-, -, -, -, hform'⟩ := tokenParts_eq_some hother
    rw [hform', htoken, hform]

end SignedToken

/-! ## A token with and without padding -/

def canonicalPrimitives : Primitives Unit :=
  { transparentPrimitives with
    base64UrlSafeNoPad := fun text =>
      (decode text).filter fun bytes => encode bytes = text
    base64UrlSafe := fun text =>
      (decode (text.filter fun char => char ≠ 61)).filter fun bytes =>
        encode bytes ++ base64Padding bytes = text }

theorem documented_canonical : DocumentedBase64 canonicalPrimitives where
  noPad text bytes := by
    refine Option.filter_eq_some_iff.trans ⟨fun h => (of_decide_eq_true h.2).symm, ?_⟩
    rintro rfl
    exact ⟨decode_encode bytes, decide_eq_true rfl⟩
  padded text bytes := by
    refine Option.filter_eq_some_iff.trans ⟨fun h => (of_decide_eq_true h.2).symm, ?_⟩
    rintro rfl
    have hkept : (encode bytes).filter (fun char => char ≠ 61) =
        encode bytes := by
      refine List.filter_eq_self.mpr fun char hchar => decide_eq_true ?_
      obtain ⟨value, hlt, rfl⟩ := exists_of_mem_encode hchar
      exact (sextetChar_plain hlt).1
    rw [List.filter_append, hkept, base64Padding]
    simpa using decode_encode bytes

def unpaddedToken : SignedToken Unit where
  prims := canonicalPrimitives
  documented := documented_canonical
  checks := (sessionPolicy []).checks
  nowEpoch := 1000
  token := ascii "e30.e30.c2k"
  passes := ⟨rfl, by decide, by decide +kernel⟩

/-- The second token is the first one with its padding. -/
theorem padded_token_passes :
    DocumentedBase64 canonicalPrimitives ∧
      Presentable canonicalPrimitives unpaddedToken.checks 1000 unpaddedToken.token ∧
      Presentable canonicalPrimitives unpaddedToken.checks 1000 (ascii "e30.e30.c2k=") ∧
      SameSigned canonicalPrimitives unpaddedToken.token (ascii "e30.e30.c2k=") :=
  ⟨documented_canonical, unpaddedToken.passes, ⟨rfl, by decide, by decide +kernel⟩,
    ascii "e30.e30", ascii "c2k", ascii "c2k=", ascii "si",
    by decide +kernel, by decide +kernel, by decide +kernel, by decide +kernel⟩

end AuroraGateway.Jwt
