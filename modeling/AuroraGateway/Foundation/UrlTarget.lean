import AuroraGateway.Foundation.Bytes
import Mathlib.Data.List.TakeWhile

/-!
# The target of a URL

What a client asks for when a text is put behind the host of a URL as it is.
The fragment and the query are cut off and the escapes are decoded, so that the
path is the text itself only if none of their characters occurs in it.
-/

namespace AuroraGateway.Foundation.UrlTarget

def hexDigit (byte : UInt8) : Option Nat :=
  if isAsciiDigit byte then some (byte.toNat - 48)
  else if 97 ≤ byte ∧ byte ≤ 102 then some (byte.toNat - 97 + 10)
  else if 65 ≤ byte ∧ byte ≤ 70 then some (byte.toNat - 65 + 10)
  else none

def unescape : Bytes → Option Bytes
  | [] => some []
  | byte :: rest =>
    if byte = 37 then
      match rest with
      | high :: low :: rest =>
        (hexDigit high).bind fun high => (hexDigit low).bind fun low =>
          (unescape rest).map fun rest => .ofNat (high * 16 + low) :: rest
      | _ => none
    else (unescape rest).map fun rest => byte :: rest

def isControl (byte : UInt8) : Bool := byte < 32 || byte == 127

def isHash (byte : UInt8) : Bool := byte == 35

def isQuestionMark (byte : UInt8) : Bool := byte == 63

def targetPath (text : Bytes) : Option Bytes :=
  let beforeFragment := text.takeWhile fun byte => !isHash byte
  let fragment := (text.dropWhile fun byte => !isHash byte).drop 1
  if beforeFragment.any isControl then none
  else
    (unescape fragment).bind fun _ =>
      unescape (beforeFragment.takeWhile fun byte => !isQuestionMark byte)

def isPlain (text : Bytes) : Bool := text.all fun byte => byte != 35 && byte != 63 && byte != 37

variable {text path : Bytes}

theorem length_unescape_le (h : unescape text = some path) : path.length ≤ text.length := by
  fun_induction unescape text generalizing path with
  | case1 =>
    cases h
    exact Nat.le_refl 0
  | case2 high low rest ih =>
    obtain ⟨high, -, h⟩ := Option.bind_eq_some_iff.mp h
    obtain ⟨low, -, h⟩ := Option.bind_eq_some_iff.mp h
    obtain ⟨decoded, hrest, rfl⟩ := Option.map_eq_some_iff.mp h
    have hle := ih hrest
    simp only [List.length_cons]
    omega
  | case3 => cases h
  | case4 byte rest hbyte ih =>
    obtain ⟨decoded, hrest, rfl⟩ := Option.map_eq_some_iff.mp h
    have hle := ih hrest
    simp only [List.length_cons]
    omega

theorem unescape_of_not_mem (h : 37 ∉ text) : unescape text = some text := by
  fun_induction unescape text with
  | case1 => rfl
  | case2 high low rest ih => exact absurd List.mem_cons_self h
  | case3 => exact absurd List.mem_cons_self h
  | case4 byte rest hbyte ih =>
    rw [ih fun hmem => h (List.mem_cons_of_mem _ hmem)]
    rfl

theorem not_mem_of_unescape_eq_self (h : unescape text = some text) : 37 ∉ text := by
  fun_induction unescape text with
  | case1 => exact List.not_mem_nil
  | case2 high low rest ih =>
    obtain ⟨first, -, h⟩ := Option.bind_eq_some_iff.mp h
    obtain ⟨second, -, h⟩ := Option.bind_eq_some_iff.mp h
    obtain ⟨decoded, hrest, hdecoded⟩ := Option.map_eq_some_iff.mp h
    have hle := length_unescape_le hrest
    have hlength := congrArg List.length hdecoded
    simp only [List.length_cons] at hlength
    omega
  | case3 => cases h
  | case4 byte rest hbyte ih =>
    obtain ⟨decoded, hrest, hdecoded⟩ := Option.map_eq_some_iff.mp h
    obtain ⟨-, rfl⟩ := List.cons.inj hdecoded
    rw [List.mem_cons, not_or]
    exact ⟨fun heq => hbyte heq.symm, ih hrest⟩

theorem parts_of_targetPath_eq_self (h : targetPath text = some text) :
    text.takeWhile (fun byte => !isHash byte) = text ∧
      text.takeWhile (fun byte => !isQuestionMark byte) = text ∧ unescape text = some text := by
  unfold targetPath at h
  dsimp only at h
  split at h
  · cases h
  obtain ⟨fragment, -, h⟩ := Option.bind_eq_some_iff.mp h
  have hlength := length_unescape_le h
  have hhash := List.takeWhile_prefix (p := fun byte => !isHash byte) (l := text)
  have hquery := List.takeWhile_prefix (p := fun byte => !isQuestionMark byte)
    (l := text.takeWhile fun byte => !isHash byte)
  have hfirst : text.takeWhile (fun byte => !isHash byte) = text :=
    hhash.eq_of_length_le (hlength.trans hquery.length_le)
  rw [hfirst] at h hlength hquery
  have hsecond := hquery.eq_of_length_le hlength
  rw [hsecond] at h
  exact ⟨hfirst, hsecond, h⟩

theorem isPlain_iff : isPlain text = true ↔ 35 ∉ text ∧ 63 ∉ text ∧ 37 ∉ text := by
  simp only [isPlain, List.all_eq_true, Bool.and_eq_true, bne_iff_ne, ne_eq]
  constructor
  · intro h
    exact ⟨fun hmem => (h _ hmem).1.1 rfl, fun hmem => (h _ hmem).1.2 rfl,
      fun hmem => (h _ hmem).2 rfl⟩
  · rintro ⟨hhash, hquery, hpercent⟩ byte hbyte
    refine ⟨⟨?_, ?_⟩, ?_⟩
    · rintro rfl
      exact hhash hbyte
    · rintro rfl
      exact hquery hbyte
    · rintro rfl
      exact hpercent hbyte

theorem targetPath_of_isPlain (hplain : isPlain text = true) (h : targetPath text = some path) :
    path = text := by
  obtain ⟨hhash, hquery, hpercent⟩ := isPlain_iff.mp hplain
  have hfirst : text.takeWhile (fun byte => !isHash byte) = text := by
    rw [List.takeWhile_eq_self_iff]
    intro byte hbyte
    have hne : byte ≠ 35 := fun heq => hhash (heq ▸ hbyte)
    simp [isHash, hne]
  have hsecond : text.takeWhile (fun byte => !isQuestionMark byte) = text := by
    rw [List.takeWhile_eq_self_iff]
    intro byte hbyte
    have hne : byte ≠ 63 := fun heq => hquery (heq ▸ hbyte)
    simp [isQuestionMark, hne]
  unfold targetPath at h
  dsimp only at h
  rw [hfirst, hsecond, unescape_of_not_mem hpercent] at h
  split at h
  · cases h
  obtain ⟨fragment, -, h⟩ := Option.bind_eq_some_iff.mp h
  exact (Option.some.inj h).symm

theorem targetPath_eq_self_iff (h : targetPath text = some path) :
    path = text ↔ isPlain text = true := by
  constructor
  · rintro rfl
    obtain ⟨hhash, hquery, hdecoded⟩ := parts_of_targetPath_eq_self h
    rw [List.takeWhile_eq_self_iff] at hhash hquery
    refine isPlain_iff.mpr ⟨fun hmem => ?_, fun hmem => ?_, not_mem_of_unescape_eq_self hdecoded⟩
    · exact absurd (hhash 35 hmem) (by decide)
    · exact absurd (hquery 63 hmem) (by decide)
  · intro hplain
    exact targetPath_of_isPlain hplain h

end AuroraGateway.Foundation.UrlTarget
