import AuroraGateway.Foundation.Delimited
import AuroraGateway.Jwt.RedisSync

/-!
# Items as they are meant and as they are read

An item names a token id or a token and may end in an expiration and in a version.
Both suffixes are looked for from the right, so they are found in a name as well
that has something like them at its end.
-/

namespace AuroraGateway.Jwt

open Foundation

/-! ## What an item means -/

inductive ItemSubject where
  | jti (jti : Text)
  | token (token : Text)

namespace ItemSubject

def name : ItemSubject → Bytes
  | .jti id => id.bytes
  | .token value => value.bytes

def text : ItemSubject → Bytes
  | .jti id => ascii "jti:" ++ id.bytes
  | .token value => value.bytes

def target : ItemSubject → RevocationTarget
  | .jti id => .jti id.bytes
  | .token value => .token value.bytes

end ItemSubject

structure RevocationItem where
  subject : ItemSubject
  expiry : Option UInt64
  version : Option UInt64
  named : subject.name ≠ []
  unblanked : trim subject.name = subject.name

/-- Until when a revocation is asked for; 0 leaves it to the cache. -/
def Revocation.ends (revocation : Revocation) : Option Nat :=
  if revocation.untilEpoch = 0 then none else some revocation.untilEpoch

namespace RevocationItem

variable (item : RevocationItem)

def unversioned : Bytes :=
  match item.expiry with
  | none => item.subject.text
  | some epoch => item.subject.text ++ 58 :: decimal epoch.toNat

def text : Bytes :=
  match item.version with
  | none => item.unversioned
  | some version => item.unversioned ++ 35 :: decimal version.toNat

/-- The item revokes what it names, until the time that it gives, and nothing else. -/
def ReadAsMeant : Prop :=
  ∃ revocation, (readItem item.text).1 = some revocation ∧
    revocation.target = item.subject.target ∧
    revocation.ends = item.expiry.map UInt64.toNat

end RevocationItem

/-! ## How it is read -/

theorem splitVersion_eq_or_lt (bytes : Bytes) :
    splitVersion bytes = (bytes, none) ∨ (splitVersion bytes).1.length < bytes.length := by
  unfold splitVersion
  split
  · exact .inl rfl
  · next before suffix hsplit =>
      have hlength : before.length < bytes.length := by
        rcases Option.or_eq_some_iff.mp hsplit with hsplit | ⟨-, hsplit⟩ <;>
          simp [rsplitOnce_eq_some hsplit]
      split
      · exact .inl rfl
      · exact .inr (Nat.lt_of_le_of_lt (length_trim_le before) hlength)

theorem splitExpiry_eq_or_lt (bytes : Bytes) :
    splitExpiry bytes = (bytes, 0) ∨ (splitExpiry bytes).1.length < bytes.length := by
  unfold splitExpiry
  split
  · exact .inl rfl
  · next before suffix hsplit =>
      split
      · exact .inl rfl
      · split_ifs
        · exact .inl rfl
        · exact .inr (by simp [rsplitOnce_eq_some hsplit])

theorem splitExpiry_append {name : Bytes} (hne : name ≠ []) (epoch : UInt64) :
    splitExpiry (name ++ 58 :: decimal epoch.toNat) = (name, epoch.toNat) := by
  have hdigits : (58 : UInt8) ∉ decimal epoch.toNat := not_mem_decimal (by decide) _
  simp [splitExpiry, rsplitOnce_append name hdigits, parseU64_decimal epoch.toNat_lt, hne]

theorem parseU64_eq_none_of_mem {bytes : Bytes} (h : 58 ∈ bytes) : parseU64 bytes = none := by
  have hdigits : ∀ digits : Bytes, 58 ∈ digits → parseDigits digits = none := by
    intro digits hmem
    refine if_pos (Bool.or_eq_true_iff.mpr (.inr ?_))
    rw [Bool.not_eq_true', List.all_eq_false]
    exact ⟨58, hmem, by decide⟩
  unfold parseU64 parseUnsigned
  split
  · simp [hdigits _ (by simpa using h)]
  · simp [hdigits _ h]

theorem splitVersion_append (name : Bytes) (epoch : Nat) :
    splitVersion (name ++ 58 :: decimal epoch) = (name ++ 58 :: decimal epoch, none) := by
  have hcolon : ∀ {sep : UInt8} {before after : Bytes}, sep ∉ 58 :: decimal epoch →
      rsplitOnce sep (name ++ 58 :: decimal epoch) = some (before, after) → 58 ∈ after := by
    intro sep before after hsep hsplit
    have heq := rsplitOnce_eq_some hsplit
    obtain ⟨gap, rfl, hrest⟩ | ⟨gap, rfl, hrest⟩ := List.append_eq_append_iff.mp heq
    · cases gap with
      | nil =>
        exact absurd (hrest ▸ List.mem_cons_self) hsep
      | cons first gap =>
        rw [List.cons_append, List.cons.injEq] at hrest
        exact absurd (by simp [hrest.2]) hsep
    · cases gap with
      | nil => exact absurd (by rw [← List.nil_append (58 :: _), ← hrest]; simp) hsep
      | cons first gap =>
        rw [List.cons_append, List.cons.injEq] at hrest
        simp [hrest.2]
  unfold splitVersion
  split
  · rfl
  · next hsplit =>
      rw [parseU64_eq_none_of_mem]
      rcases Option.or_eq_some_iff.mp hsplit with hsplit | ⟨-, hsplit⟩
      · exact hcolon (by simpa using not_mem_decimal (by decide) epoch) hsplit
      · exact hcolon (by simpa using not_mem_decimal (by decide) epoch) hsplit

theorem readTarget_eq_target {bytes : Bytes} {subject : ItemSubject}
    (h : readTarget bytes = subject.target) : bytes = subject.text := by
  unfold readTarget at h
  split at h
  · next jti hstrip =>
      cases subject with
      | token => cases h
      | jti =>
        cases h
        unfold stripPrefix? at hstrip
        split_ifs at hstrip with hprefix
        obtain ⟨rest, rfl⟩ := List.isPrefixOf_iff_prefix.mp hprefix
        simpa [ItemSubject.text] using hstrip
  · split at h
    · cases subject <;> cases h
    · cases subject <;> cases h
      rfl

namespace RevocationItem

variable (item : RevocationItem)

theorem text_ne_nil : item.subject.text ≠ [] := by
  have hnamed := item.named
  cases hsubject : item.subject <;> simp_all [ItemSubject.text, ItemSubject.name]

theorem trim_text : trim item.subject.text = item.subject.text := by
  have hunblanked := item.unblanked
  cases hsubject : item.subject with
  | token => simpa [hsubject, ItemSubject.text, ItemSubject.name] using hunblanked
  | jti id =>
    rw [hsubject] at hunblanked
    have hend : trimEnd id.bytes = id.bytes := by
      rw [trim, trimStart_of_length_le (congrArg List.length hunblanked).ge] at hunblanked
      exact hunblanked
    have hstart : trimStart (ascii "jti:" ++ id.bytes) = ascii "jti:" ++ id.bytes :=
      @trimStart_append 106 (by decide) [] _
    have hkept : trimEnd (ascii "jti:" ++ id.bytes) = ascii "jti" ++ 58 :: trimEnd id.bytes :=
      @trimEnd_append 58 (by decide) (ascii "jti") id.bytes
    rw [ItemSubject.text, trim, hstart, hkept, hend]
    rfl

theorem trim_unversioned : trim item.unversioned = item.unversioned := by
  unfold unversioned
  cases item.expiry with
  | none => exact item.trim_text
  | some epoch =>
    rw [trim_append_decimal (by decide),
      trimStart_of_length_le (congrArg List.length item.trim_text).ge]

theorem readItem_of_trim {bytes : Bytes} (hne : bytes ≠ []) (htrim : trim bytes = bytes) :
    (readItem bytes).1 = readRevocation (splitVersion bytes).1 := by
  simp [readItem, htrim, hne]

theorem readItem_text : (readItem item.text).1 = readRevocation
    (if item.expiry = none ∧ item.version = none then (splitVersion item.subject.text).1
      else item.unversioned) := by
  unfold text
  cases hversion : item.version with
  | some version =>
    simp only [reduceCtorEq, and_false, if_false]
    rw [readItem_append_version _ version.toNat_lt, item.trim_unversioned]
  | none =>
    have htrim := item.trim_unversioned
    unfold unversioned at htrim ⊢
    cases hexpiry : item.expiry with
    | none =>
      rw [hexpiry] at htrim
      exact readItem_of_trim item.text_ne_nil htrim
    | some epoch =>
      rw [hexpiry] at htrim
      rw [readItem_of_trim (by simp) htrim, splitVersion_append]
      rfl

theorem readRevocation_target {bytes : Bytes} {revocation : Revocation}
    (h : readRevocation bytes = some revocation) :
    revocation = ⟨readTarget (splitExpiry bytes).1, (splitExpiry bytes).2⟩ := by
  unfold readRevocation at h
  split_ifs at h
  exact (Option.some.inj h).symm

end RevocationItem

end AuroraGateway.Jwt
