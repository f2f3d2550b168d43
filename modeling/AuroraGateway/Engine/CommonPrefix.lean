import AuroraGateway.Foundation.Bytes
import Mathlib.Data.Nat.Bitwise
import Mathlib.Tactic.Ring

/-!
# Word-at-a-time common prefix

`common_prefix_len` compares eight bytes at a time.  The exclusive or of two
words is zero exactly if the chunks agree; otherwise the number of its zero
bits on the side of the first byte, divided by eight, is the position of the
first difference.  Both byte orders of the source are modelled.
-/

namespace AuroraGateway.Engine

open Foundation

inductive Endian where
  | little
  | big
  deriving DecidableEq, Repr

/-- The gateway is built for x86-64. -/
def targetEndian : Endian := .little

/-- `u64::from_ne_bytes`, on the eight bytes of a chunk. -/
def wordOfBytes : Endian → Bytes → Nat
  | .little, bytes => bytes.foldr (fun b acc => b.toNat + 256 * acc) 0
  | .big, bytes => bytes.foldl (fun acc b => 256 * acc + b.toNat) 0

def trailingZeros : Nat → Nat → Nat
  | 0, _ => 0
  | width + 1, x => if x % 2 = 1 then 0 else trailingZeros width (x / 2) + 1

def leadingZeros : Nat → Nat → Nat
  | 0, _ => 0
  | width + 1, x =>
    if 2 ^ width ≤ x then 0 else leadingZeros width x + 1

def diffByte : Endian → Nat → Nat
  | .little, diff => trailingZeros 64 diff / 8
  | .big, diff => leadingZeros 64 diff / 8

/-- The scalar fallback, and the meaning of the whole function. -/
def commonPrefixScalar : Bytes → Bytes → Nat
  | a :: as, b :: bs => if a = b then commonPrefixScalar as bs + 1 else 0
  | _, _ => 0

/--
The chunk loop.  Its condition `i + 8 <= min_len` holds exactly as long as a
whole word is left in both slices, so the number of words is the bound of the
recursion.
-/
def commonPrefixWords (endian : Endian) : Nat → Nat → Bytes → Bytes → Nat
  | 0, i, a, b => i + commonPrefixScalar a b
  | words + 1, i, a, b =>
    let diff := wordOfBytes endian (a.take 8) ^^^ wordOfBytes endian (b.take 8)
    if diff ≠ 0 then i + diffByte endian diff
    else commonPrefixWords endian words (i + 8) (a.drop 8) (b.drop 8)

def commonPrefixLen (endian : Endian) (a b : Bytes) : Nat :=
  commonPrefixWords endian (min a.length b.length / 8) 0 a b

/-! ## Counting zero bits -/

private theorem trailingZeros_add (k width x : Nat) (h : x % 2 ^ k = 0) :
    trailingZeros (k + width) x = k + trailingZeros width (x / 2 ^ k) := by
  induction k generalizing x with
  | zero => simp
  | succ k ih =>
    have hdvd : 2 ^ k * 2 ∣ x := by
      exact Nat.dvd_of_mod_eq_zero h
    obtain ⟨q, rfl⟩ := hdvd
    have heven : 2 ^ k * 2 * q = 2 * (2 ^ k * q) := by ring
    have hquot : 2 ^ k * 2 * q / 2 ^ (k + 1) = q := by
      rw [← pow_succ]
      exact Nat.mul_div_cancel_left _ (Nat.two_pow_pos _)
    rw [hquot, Nat.succ_add, trailingZeros, heven, Nat.mul_mod_right,
      if_neg (by decide), Nat.mul_div_cancel_left _ (by decide),
      ih _ (Nat.mul_mod_right _ _),
      Nat.mul_div_cancel_left _ (Nat.two_pow_pos k)]
    omega

private theorem trailingZeros_lt (k width x : Nat) (h : x % 2 ^ k ≠ 0) :
    trailingZeros (k + width) x < k := by
  induction k generalizing x with
  | zero => simp [Nat.mod_one] at h
  | succ k ih =>
    rw [Nat.succ_add, trailingZeros]
    split
    · omega
    · have hhalf : x / 2 % 2 ^ k ≠ 0 := by
        intro hzero
        apply h
        rw [pow_succ, Nat.mul_comm, Nat.mod_mul, hzero]
        omega
      have := ih _ hhalf
      omega

private theorem leadingZeros_add (k width x : Nat) (h : x < 2 ^ width) :
    leadingZeros (k + width) x = k + leadingZeros width x := by
  induction k with
  | zero => simp
  | succ k ih =>
    have hle : 2 ^ width ≤ 2 ^ (k + width) :=
      Nat.pow_le_pow_right (by decide) (by omega)
    rw [Nat.succ_add, leadingZeros, if_neg (by omega)]
    omega

private theorem leadingZeros_lt (k width x : Nat) (h : 2 ^ width ≤ x)
    (hbound : x < 2 ^ (k + width)) :
    leadingZeros (k + width) x < k := by
  induction k with
  | zero =>
    rw [Nat.zero_add] at hbound
    omega
  | succ k ih =>
    rw [Nat.succ_add, leadingZeros]
    split
    · omega
    · omega

/-! ## The exclusive or of two words -/

private theorem wordOfBytes_little_cons (x : UInt8) (a : Bytes) :
    wordOfBytes .little (x :: a) = x.toNat + 2 ^ 8 * wordOfBytes .little a := rfl

private theorem foldl_big (acc : Nat) (a : Bytes) :
    a.foldl (fun acc b => 256 * acc + b.toNat) acc =
      acc * 2 ^ (8 * a.length) + wordOfBytes .big a := by
  induction a generalizing acc with
  | nil => simp [wordOfBytes]
  | cons x a ih =>
    rw [wordOfBytes, List.foldl_cons, List.foldl_cons, ih, ih, List.length_cons]
    ring

private theorem wordOfBytes_big_cons (x : UInt8) (a : Bytes) :
    wordOfBytes .big (x :: a) =
      2 ^ (8 * a.length) * x.toNat + wordOfBytes .big a := by
  have := foldl_big x.toNat a
  rw [wordOfBytes, List.foldl_cons, Nat.zero_add, this, Nat.mul_comm]

private theorem wordOfBytes_big_lt (a : Bytes) :
    wordOfBytes .big a < 2 ^ (8 * a.length) := by
  induction a with
  | nil => simp [wordOfBytes]
  | cons x a ih =>
    have hx : x.toNat + 1 ≤ 2 ^ 8 := x.toNat_lt
    rw [wordOfBytes_big_cons, List.length_cons, Nat.mul_succ, pow_add]
    have := Nat.mul_le_mul_left (2 ^ (8 * a.length)) hx
    rw [Nat.mul_succ] at this
    omega

private theorem xor_toNat_eq_zero {x y : UInt8} :
    x.toNat ^^^ y.toNat = 0 ↔ x = y := by
  rw [Nat.xor_eq_zero_iff, UInt8.toNat_inj]

private theorem xor_little_mod (x y : UInt8) (a b : Bytes) :
    (wordOfBytes .little (x :: a) ^^^ wordOfBytes .little (y :: b)) % 2 ^ 8 =
      x.toNat ^^^ y.toNat := by
  have hx : x.toNat < 2 ^ 8 := x.toNat_lt
  have hy : y.toNat < 2 ^ 8 := y.toNat_lt
  rw [Nat.xor_mod_two_pow, wordOfBytes_little_cons, wordOfBytes_little_cons,
    Nat.add_mul_mod_self_left, Nat.add_mul_mod_self_left,
    Nat.mod_eq_of_lt hx, Nat.mod_eq_of_lt hy]

private theorem xor_little_div (x y : UInt8) (a b : Bytes) :
    (wordOfBytes .little (x :: a) ^^^ wordOfBytes .little (y :: b)) / 2 ^ 8 =
      wordOfBytes .little a ^^^ wordOfBytes .little b := by
  have hx : x.toNat < 2 ^ 8 := x.toNat_lt
  have hy : y.toNat < 2 ^ 8 := y.toNat_lt
  rw [Nat.xor_div_two_pow, wordOfBytes_little_cons, wordOfBytes_little_cons,
    Nat.add_mul_div_left _ _ (by decide), Nat.add_mul_div_left _ _ (by decide),
    Nat.div_eq_of_lt hx, Nat.div_eq_of_lt hy, Nat.zero_add, Nat.zero_add]

private theorem xor_big_div (x y : UInt8) (a b : Bytes)
    (hlen : a.length = b.length) :
    (wordOfBytes .big (x :: a) ^^^ wordOfBytes .big (y :: b)) /
        2 ^ (8 * a.length) = x.toNat ^^^ y.toNat := by
  have ha := wordOfBytes_big_lt a
  have hb := wordOfBytes_big_lt b
  rw [Nat.xor_div_two_pow, wordOfBytes_big_cons, wordOfBytes_big_cons, hlen] at *
  rw [Nat.mul_add_div (Nat.two_pow_pos _), Nat.mul_add_div (Nat.two_pow_pos _),
    Nat.div_eq_of_lt ha, Nat.div_eq_of_lt hb, Nat.add_zero, Nat.add_zero]

private theorem xor_big_mod (x y : UInt8) (a b : Bytes)
    (hlen : a.length = b.length) :
    (wordOfBytes .big (x :: a) ^^^ wordOfBytes .big (y :: b)) %
        2 ^ (8 * a.length) = wordOfBytes .big a ^^^ wordOfBytes .big b := by
  have ha := wordOfBytes_big_lt a
  have hb := wordOfBytes_big_lt b
  rw [Nat.xor_mod_two_pow, wordOfBytes_big_cons, wordOfBytes_big_cons, hlen] at *
  rw [Nat.mul_add_mod, Nat.mul_add_mod, Nat.mod_eq_of_lt ha, Nat.mod_eq_of_lt hb]

private theorem wordOfBytes_xor_eq_zero (endian : Endian) (a b : Bytes)
    (hlen : a.length = b.length) :
    wordOfBytes endian a ^^^ wordOfBytes endian b = 0 → a = b := by
  induction a generalizing b with
  | nil =>
    intro _
    exact (List.length_eq_zero_iff.mp hlen.symm).symm
  | cons x a ih =>
    cases b with
    | nil => simp at hlen
    | cons y b =>
      intro hzero
      have hlen' : a.length = b.length := by simpa using hlen
      cases endian with
      | little =>
        have hx := xor_little_mod x y a b
        have ha := xor_little_div x y a b
        rw [hzero] at hx
        rw [hzero] at ha
        rw [xor_toNat_eq_zero.mp hx.symm, ih b hlen' ha.symm]
      | big =>
        have hx := xor_big_div x y a b hlen'
        have ha := xor_big_mod x y a b hlen'
        rw [hzero, Nat.zero_div] at hx
        rw [hzero] at ha
        rw [xor_toNat_eq_zero.mp hx.symm, ih b hlen' ha.symm]

variable (endian : Endian)

theorem wordOfBytes_inj {a b : Bytes} (hlen : a.length = b.length) :
    wordOfBytes endian a = wordOfBytes endian b ↔ a = b := by
  constructor
  · intro hword
    exact wordOfBytes_xor_eq_zero endian a b hlen (Nat.xor_eq_zero_iff.mpr hword)
  · intro hbytes
    rw [hbytes]

/-! ## The conjunction of two words -/

private theorem and_little_cons (x y : UInt8) (a b : Bytes) :
    wordOfBytes .little (x :: a) &&& wordOfBytes .little (y :: b) =
      (x.toNat &&& y.toNat) + 2 ^ 8 * (wordOfBytes .little a &&& wordOfBytes .little b) := by
  have hx : x.toNat < 2 ^ 8 := x.toNat_lt
  have hy : y.toNat < 2 ^ 8 := y.toNat_lt
  have hmod : (wordOfBytes .little (x :: a) &&& wordOfBytes .little (y :: b)) % 2 ^ 8 =
      x.toNat &&& y.toNat := by
    rw [Nat.and_mod_two_pow, wordOfBytes_little_cons, wordOfBytes_little_cons,
      Nat.add_mul_mod_self_left, Nat.add_mul_mod_self_left,
      Nat.mod_eq_of_lt hx, Nat.mod_eq_of_lt hy]
  have hdiv : (wordOfBytes .little (x :: a) &&& wordOfBytes .little (y :: b)) / 2 ^ 8 =
      wordOfBytes .little a &&& wordOfBytes .little b := by
    rw [Nat.and_div_two_pow, wordOfBytes_little_cons, wordOfBytes_little_cons,
      Nat.add_mul_div_left _ _ (by decide), Nat.add_mul_div_left _ _ (by decide),
      Nat.div_eq_of_lt hx, Nat.div_eq_of_lt hy, Nat.zero_add, Nat.zero_add]
  rw [← hmod, ← hdiv, Nat.mod_add_div]

private theorem and_big_cons (x y : UInt8) (a b : Bytes) (hlen : a.length = b.length) :
    wordOfBytes .big (x :: a) &&& wordOfBytes .big (y :: b) =
      2 ^ (8 * a.length) * (x.toNat &&& y.toNat) +
        (wordOfBytes .big a &&& wordOfBytes .big b) := by
  have ha := wordOfBytes_big_lt a
  have hb := wordOfBytes_big_lt b
  rw [← hlen] at hb
  have hmod : (wordOfBytes .big (x :: a) &&& wordOfBytes .big (y :: b)) %
      2 ^ (8 * a.length) = wordOfBytes .big a &&& wordOfBytes .big b := by
    rw [Nat.and_mod_two_pow, wordOfBytes_big_cons, wordOfBytes_big_cons, ← hlen,
      Nat.mul_add_mod, Nat.mul_add_mod, Nat.mod_eq_of_lt ha, Nat.mod_eq_of_lt hb]
  have hdiv : (wordOfBytes .big (x :: a) &&& wordOfBytes .big (y :: b)) /
      2 ^ (8 * a.length) = x.toNat &&& y.toNat := by
    rw [Nat.and_div_two_pow, wordOfBytes_big_cons, wordOfBytes_big_cons, ← hlen,
      Nat.mul_add_div (Nat.two_pow_pos _), Nat.mul_add_div (Nat.two_pow_pos _),
      Nat.div_eq_of_lt ha, Nat.div_eq_of_lt hb, Nat.add_zero, Nat.add_zero]
  rw [← hmod, ← hdiv, Nat.div_add_mod]

theorem wordOfBytes_and {a b : Bytes} (hlen : a.length = b.length) :
    wordOfBytes endian a &&& wordOfBytes endian b =
      wordOfBytes endian (List.zipWith (· &&& ·) a b) := by
  induction a generalizing b with
  | nil => cases endian <;> simp [wordOfBytes]
  | cons x a ih =>
    cases b with
    | nil => simp at hlen
    | cons y b =>
      have hlen' : a.length = b.length := by simpa using hlen
      rw [List.zipWith_cons_cons]
      cases endian with
      | little =>
        rw [and_little_cons, ih hlen', wordOfBytes_little_cons, UInt8.toNat_and]
      | big =>
        rw [and_big_cons x y a b hlen', ih hlen', wordOfBytes_big_cons,
          UInt8.toNat_and, List.length_zipWith, ← hlen', min_self]

/-! ## The word trick computes the scalar loop -/

private def zeroBits : Endian → Nat → Nat → Nat
  | .little, n, diff => trailingZeros (8 * n) diff
  | .big, n, diff => leadingZeros (8 * n) diff

private theorem zeroBits_xor_little_cons (x y : UInt8) (a b : Bytes)
    (htail : wordOfBytes .little a ^^^ wordOfBytes .little b ≠ 0 →
      trailingZeros (8 * a.length) (wordOfBytes .little a ^^^ wordOfBytes .little b) / 8 =
        commonPrefixScalar a b)
    (hdiff : wordOfBytes .little (x :: a) ^^^ wordOfBytes .little (y :: b) ≠ 0) :
    trailingZeros (8 + 8 * a.length)
        (wordOfBytes .little (x :: a) ^^^ wordOfBytes .little (y :: b)) / 8 =
      commonPrefixScalar (x :: a) (y :: b) := by
  have hmod := xor_little_mod x y a b
  have hdiv := xor_little_div x y a b
  rw [commonPrefixScalar]
  by_cases hxy : x = y
  · rw [if_pos hxy]
    rw [xor_toNat_eq_zero.mpr hxy] at hmod
    rw [trailingZeros_add 8 _ _ hmod, hdiv, ← htail ?_]
    · omega
    · intro hzero
      apply hdiff
      rw [← Nat.div_add_mod (_ ^^^ _) (2 ^ 8), hdiv, hmod, hzero, Nat.mul_zero]
  · rw [if_neg hxy]
    have hlt := trailingZeros_lt 8 (8 * a.length) _
      (hmod.trans_ne (mt xor_toNat_eq_zero.mp hxy))
    omega

private theorem zeroBits_xor_big_cons (x y : UInt8) (a b : Bytes) (hlen : a.length = b.length)
    (htail : wordOfBytes .big a ^^^ wordOfBytes .big b ≠ 0 →
      leadingZeros (8 * a.length) (wordOfBytes .big a ^^^ wordOfBytes .big b) / 8 =
        commonPrefixScalar a b)
    (hdiff : wordOfBytes .big (x :: a) ^^^ wordOfBytes .big (y :: b) ≠ 0) :
    leadingZeros (8 + 8 * a.length)
        (wordOfBytes .big (x :: a) ^^^ wordOfBytes .big (y :: b)) / 8 =
      commonPrefixScalar (x :: a) (y :: b) := by
  have hmod := xor_big_mod x y a b hlen
  have hdiv := xor_big_div x y a b hlen
  rw [commonPrefixScalar]
  by_cases hxy : x = y
  · rw [if_pos hxy]
    rw [xor_toNat_eq_zero.mpr hxy] at hdiv
    have hsmall := (Nat.div_eq_zero_iff_lt (Nat.two_pow_pos _)).mp hdiv
    rw [Nat.mod_eq_of_lt hsmall] at hmod
    rw [leadingZeros_add 8 _ _ hsmall, hmod, ← htail ?_]
    · omega
    · intro hzero
      exact hdiff (hmod.trans hzero)
  · rw [if_neg hxy]
    have hlarge : 2 ^ (8 * a.length) ≤
        wordOfBytes .big (x :: a) ^^^ wordOfBytes .big (y :: b) := by
      by_contra hlt
      rw [Nat.div_eq_of_lt (by omega)] at hdiv
      exact hxy (xor_toNat_eq_zero.mp hdiv.symm)
    have hbound : wordOfBytes .big (x :: a) ^^^ wordOfBytes .big (y :: b) <
        2 ^ (8 + 8 * a.length) := by
      have hx := wordOfBytes_big_lt (x :: a)
      have hy := wordOfBytes_big_lt (y :: b)
      rw [List.length_cons, Nat.mul_succ, Nat.add_comm] at hx hy
      rw [← hlen] at hy
      exact Nat.xor_lt_two_pow hx hy
    have hlt := leadingZeros_lt 8 (8 * a.length) _ hlarge hbound
    omega

private theorem zeroBits_xor (endian : Endian) (a b : Bytes)
    (hlen : a.length = b.length)
    (hdiff : wordOfBytes endian a ^^^ wordOfBytes endian b ≠ 0) :
    zeroBits endian a.length
        (wordOfBytes endian a ^^^ wordOfBytes endian b) / 8 =
      commonPrefixScalar a b := by
  induction a generalizing b with
  | nil =>
    have hb : b = [] := List.length_eq_zero_iff.mp hlen.symm
    exact absurd (by simp [hb]) hdiff
  | cons x a ih =>
    cases b with
    | nil => simp at hlen
    | cons y b =>
      have hlen' : a.length = b.length := by simpa using hlen
      have hwidth : 8 * (x :: a).length = 8 + 8 * a.length := by
        rw [List.length_cons]
        omega
      cases endian with
      | little =>
        simp only [zeroBits, hwidth] at ih ⊢
        exact zeroBits_xor_little_cons x y a b (ih b hlen') hdiff
      | big =>
        simp only [zeroBits, hwidth] at ih ⊢
        exact zeroBits_xor_big_cons x y a b hlen' (ih b hlen') hdiff

private theorem commonPrefixScalar_append_of_ne {p q : Bytes} (a b : Bytes)
    (hlen : p.length = q.length) (hne : p ≠ q) :
    commonPrefixScalar (p ++ a) (q ++ b) = commonPrefixScalar p q := by
  induction p generalizing q with
  | nil => exact absurd (List.length_eq_zero_iff.mp hlen.symm).symm hne
  | cons x p ih =>
    cases q with
    | nil => simp at hlen
    | cons y q =>
      simp only [List.cons_append, commonPrefixScalar]
      by_cases hxy : x = y
      · subst hxy
        rw [if_pos rfl, if_pos rfl,
          ih (by simpa using hlen) (by simpa using hne)]
      · rw [if_neg hxy, if_neg hxy]

private theorem commonPrefixScalar_append (p a b : Bytes) :
    commonPrefixScalar (p ++ a) (p ++ b) =
      p.length + commonPrefixScalar a b := by
  induction p with
  | nil => simp
  | cons x p ih =>
    simp only [List.cons_append, commonPrefixScalar, if_true, ih,
      List.length_cons]
    omega

private theorem commonPrefixWords_eq (endian : Endian) (words i : Nat) (a b : Bytes)
    (ha : 8 * words ≤ a.length) (hb : 8 * words ≤ b.length) :
    commonPrefixWords endian words i a b = i + commonPrefixScalar a b := by
  induction words generalizing i a b with
  | zero => rfl
  | succ words ih =>
    have hlenA : (a.take 8).length = 8 := by simp; omega
    have hlenB : (b.take 8).length = 8 := by simp; omega
    have hlen : (a.take 8).length = (b.take 8).length := hlenA.trans hlenB.symm
    have splitA := List.take_append_drop 8 a
    have splitB := List.take_append_drop 8 b
    rw [commonPrefixWords]
    split
    · rename_i hdiff
      have hbits := zeroBits_xor endian _ _ hlen hdiff
      rw [hlenA] at hbits
      have hne : a.take 8 ≠ b.take 8 := by
        intro heq
        exact hdiff (by rw [heq, Nat.xor_self])
      have hchunk : diffByte endian
          (wordOfBytes endian (a.take 8) ^^^ wordOfBytes endian (b.take 8)) =
            commonPrefixScalar (a.take 8) (b.take 8) := by
        rw [← hbits]
        cases endian <;> rfl
      rw [hchunk]
      conv_rhs => rw [← splitA, ← splitB]
      rw [commonPrefixScalar_append_of_ne _ _ hlen hne]
    · rename_i hzero
      have heq := wordOfBytes_xor_eq_zero endian _ _ hlen (not_not.mp hzero)
      rw [ih _ _ _ (by simp; omega) (by simp; omega)]
      conv_rhs => rw [← splitA, ← splitB, ← heq]
      rw [commonPrefixScalar_append]
      omega

theorem commonPrefixLen_eq_scalar (a b : Bytes) :
    commonPrefixLen endian a b = commonPrefixScalar a b := by
  rw [commonPrefixLen, commonPrefixWords_eq] <;> omega

/-! ## What the scalar loop returns -/

theorem commonPrefixScalar_le_left (a b : Bytes) :
    commonPrefixScalar a b ≤ a.length := by
  induction a generalizing b with
  | nil => simp [commonPrefixScalar]
  | cons x a ih =>
    cases b with
    | nil => simp [commonPrefixScalar]
    | cons y b =>
      have := ih b
      rw [commonPrefixScalar]
      split <;> simp only [List.length_cons] <;> omega

theorem take_commonPrefixScalar (a b : Bytes) :
    a.take (commonPrefixScalar a b) = b.take (commonPrefixScalar a b) := by
  induction a generalizing b with
  | nil => simp [commonPrefixScalar]
  | cons x a ih =>
    cases b with
    | nil => simp [commonPrefixScalar]
    | cons y b =>
      rw [commonPrefixScalar]
      split
      · rename_i hxy
        simp [hxy, ih b]
      · simp

theorem drop_commonPrefixScalar_head_ne {a b : Bytes} {x y : UInt8} {as bs : Bytes}
    (ha : a.drop (commonPrefixScalar a b) = x :: as)
    (hb : b.drop (commonPrefixScalar a b) = y :: bs) :
    x ≠ y := by
  induction a generalizing b with
  | nil => simp at ha
  | cons u a ih =>
    cases b with
    | nil => simp [commonPrefixScalar] at hb
    | cons w b =>
      rw [commonPrefixScalar] at ha hb
      split at ha
      · rename_i huw
        rw [if_pos huw] at hb
        exact ih (by simpa using ha) (by simpa using hb)
      · rename_i huw
        rw [if_neg huw] at hb
        simp only [List.drop_zero, List.cons.injEq] at ha hb
        rw [← ha.1, ← hb.1]
        exact huw

theorem commonPrefixLen_isGreatest (a b : Bytes) :
    IsGreatest {n | ∃ common : Bytes, common.length = n ∧ common <+: a ∧ common <+: b}
      (commonPrefixLen endian a b) := by
  rw [commonPrefixLen_eq_scalar]
  constructor
  · refine ⟨_, List.length_take_of_le (commonPrefixScalar_le_left a b), List.take_prefix _ a, ?_⟩
    rw [take_commonPrefixScalar]
    exact List.take_prefix _ b
  · rintro n ⟨common, rfl, ⟨as, rfl⟩, ⟨bs, rfl⟩⟩
    rw [commonPrefixScalar_append]
    exact Nat.le_add_right _ _

end AuroraGateway.Engine
