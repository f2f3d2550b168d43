import AuroraGateway.Foundation.Masks
import AuroraGateway.Foundation.TrimmedText
import AuroraGateway.ResponseCompression.Evaluator

/-!
# Accept-Encoding

A field value lists codings with optional weights.  The scanner takes a weight for zero by
its text, counts `brotli` for `br`, and takes `*` for `gzip` and for nothing else.
-/

namespace AuroraGateway.ResponseCompression

open Foundation ResponseCompressionEngine

inductive Coding where
  | gzip
  | br
  | zstd
  deriving DecidableEq

namespace Coding

def name : Coding → Bytes
  | .gzip => ascii "gzip"
  | .br => ascii "br"
  | .zstd => ascii "zstd"

def flag : Coding → BitVec 8
  | .gzip => clientEncodingGzip
  | .br => clientEncodingBr
  | .zstd => clientEncodingZstd

def algorithm : Coding → CompressionAlgorithm
  | .gzip => .gzip
  | .br => .brotli
  | .zstd => .zstd

end Coding

/-! ## Field values -/

def IsOws (bytes : Bytes) : Prop := ∀ byte ∈ bytes, byte = 32 ∨ byte = 9

def isTchar (byte : UInt8) : Bool :=
  isAsciiAlphanumeric byte || (ascii "!#$%&'*+-.^_`|~").contains byte

/-- `qvalue`: a digit, and at most three digits after a point. -/
structure QValue where
  whole : Bool
  fraction : Option Bytes
  short : ∀ digits ∈ fraction, digits.length ≤ 3
  digit : ∀ digits ∈ fraction, ∀ d ∈ digits, isAsciiDigit d = true ∧ (whole = true → d = 48)

def QValue.text (q : QValue) : Bytes :=
  (if q.whole then 49 else 48) :: (q.fraction.map fun digits => 46 :: digits).getD []

def QValue.isZero (q : QValue) : Bool :=
  !q.whole && q.fraction.all fun digits => digits.all fun d => d = 48

/-- `weight`; the letter may be of either case. -/
structure Weight where
  before : Bytes
  after : Bytes
  blank : IsOws before ∧ IsOws after
  letter : UInt8
  isQ : letter = 113 ∨ letter = 81
  value : QValue

def Weight.text (w : Weight) : Bytes :=
  w.before ++ 59 :: (w.after ++ w.letter :: 61 :: w.value.text)

structure Element where
  name : Bytes
  nonempty : name ≠ []
  token : ∀ byte ∈ name, isTchar byte = true
  weight : Option Weight

def Element.text (e : Element) : Bytes := e.name ++ (e.weight.map Weight.text).getD []

structure Part where
  before : Bytes
  after : Bytes
  blank : IsOws before ∧ IsOws after
  element : Option Element

def Part.text (p : Part) : Bytes := p.before ++ (p.element.map Element.text).getD [] ++ p.after

structure AcceptEncoding where
  parts : List Part
  nonempty : parts ≠ []

namespace AcceptEncoding

variable (field : AcceptEncoding)

def text : Bytes := [comma].intercalate (field.parts.map Part.text)

def elements : List Element := field.parts.filterMap Part.element

end AcceptEncoding

namespace Element

variable (e : Element)

def names (c : Coding) : Bool := eqIgnoreAsciiCase e.name c.name

def isStar : Bool := e.name = ascii "*"

def refuses : Bool := e.weight.any fun w => w.value.isZero

/-- The zero is spelled `0.` or its letter is a capital. -/
def unusual : Bool := e.weight.any fun w => w.letter = 81 || w.value.fraction = some []

def counted : Bool := !e.refuses || e.unusual

def isBrotli : Bool := eqIgnoreAsciiCase e.name (ascii "brotli")

end Element

/-- Listed with a weight that is not zero, or not listed while `*` is. -/
def AcceptEncoding.acceptable (field : AcceptEncoding) (c : Coding) : Bool :=
  (field.elements.any fun e => e.names c && !e.refuses) ||
    ((field.elements.all fun e => !e.names c) &&
      field.elements.any fun e => e.isStar && !e.refuses)

/-! ## What the scanner reads -/

theorem IsOws.isBlank {bytes : Bytes} (h : IsOws bytes) : IsBlank bytes := by
  intro byte hbyte
  rcases h byte hbyte with rfl | rfl <;> decide

variable {byte : UInt8}

theorem IsOws.not_mem {bytes : Bytes} (h : IsOws bytes) (hspace : byte ≠ 32) (htab : byte ≠ 9) :
    byte ∉ bytes :=
  fun hmem => (h byte hmem).elim hspace htab

def IsPlain (byte : UInt8) : Prop := byte ∉ comma :: semicolon :: whiteSpace.flatten

theorem IsPlain.not_mem (h : IsPlain byte) : ∀ seq ∈ whiteSpace, byte ∉ seq := by
  intro seq hseq hbyte
  exact h (by simpa using .inr (.inr ⟨seq, hseq, hbyte⟩))

theorem isPlain_of_isTchar (h : isTchar byte = true) : IsPlain byte := by
  have hother : ((comma :: semicolon :: whiteSpace.flatten).all fun byte => !isTchar byte) =
      true := by
    decide +kernel
  intro hmem
  have hnot := List.all_eq_true.mp hother byte hmem
  rw [h] at hnot
  cases hnot

theorem isTchar_of_isAsciiDigit (h : isAsciiDigit byte = true) :
    isTchar byte = true := by
  simp [isTchar, isAsciiAlphanumeric, h]

theorem QValue.isPlain_text (q : QValue) : ∀ byte ∈ q.text, IsPlain byte := by
  intro byte hbyte
  refine isPlain_of_isTchar ?_
  rcases List.mem_cons.mp hbyte with rfl | hbyte
  · cases q.whole <;> decide
  · cases hfraction : q.fraction with
    | none => simp [hfraction] at hbyte
    | some digits =>
      simp only [hfraction, Option.map_some, Option.getD_some, List.mem_cons] at hbyte
      rcases hbyte with rfl | hdigit
      · decide
      · exact isTchar_of_isAsciiDigit (q.digit digits hfraction byte hdigit).1

theorem QValue.isQvalueZero_text (q : QValue) :
    isQvalueZero q.text = (q.isZero && q.fraction ≠ some []) := by
  obtain ⟨whole, fraction, hshort, -⟩ := q
  have hzero : ascii "0" = [48] := rfl
  have hpoint : ascii "0." = [48, 46] := rfl
  have hone : ascii "0.0" = [48, 46, 48] := rfl
  have htwo : ascii "0.00" = [48, 46, 48, 48] := rfl
  have hthree : ascii "0.000" = [48, 46, 48, 48, 48] := rfl
  rw [Bool.eq_iff_iff]
  simp only [isQvalueZero, text, isZero, hzero, hpoint, hone, htwo, hthree]
  rcases fraction with _ | _ | ⟨a, _ | ⟨b, _ | ⟨c, _ | ⟨d, rest⟩⟩⟩⟩
  case some.cons.cons.cons.cons =>
    have hlong := hshort _ rfl
    simp only [List.length_cons] at hlong
    omega
  all_goals cases whole <;> simp [List.isPrefixOf]

theorem splitOnce_of_not_mem {sep : UInt8} {text : Bytes} (h : sep ∉ text) :
    splitOnce sep text = none := by
  cases hsplit : splitOnce sep text with
  | none => rfl
  | some parts => exact absurd ((splitOnce_eq_some hsplit).2 ▸ by simp) h

namespace Weight

variable (w : Weight)

def params : Bytes := w.after ++ w.letter :: 61 :: w.value.text

theorem isPlain_q : ∀ byte ∈ w.letter :: 61 :: w.value.text, IsPlain byte := by
  intro byte hbyte
  rcases List.mem_cons.mp hbyte with rfl | hbyte
  · rcases w.isQ with h | h <;> rw [h] <;> exact isPlain_of_isTchar (by decide)
  · rcases List.mem_cons.mp hbyte with rfl | hbyte
    · simp [IsPlain, comma, semicolon, whiteSpace]
    · exact w.value.isPlain_text byte hbyte

theorem rejectsByQvalue_params :
    rejectsByQvalue w.params =
      (w.letter = 113 && w.value.isZero && w.value.fraction ≠ some []) := by
  have hplain := w.isPlain_q
  have hsemicolon : semicolon ∉ w.params := by
    intro hmem
    rcases List.mem_append.mp hmem with hmem | hmem
    · exact w.blank.2.not_mem (by decide) (by decide) hmem
    · exact hplain _ hmem (by simp)
  have htrim : trim w.params = w.letter :: 61 :: w.value.text := by
    simpa [params] using trim_between w.blank.2.isBlank isBlank_nil
      (fun byte hbyte => (hplain byte (List.mem_of_mem_head? hbyte)).not_mem)
      (fun byte hbyte => (hplain byte (List.mem_of_getLast? hbyte)).not_mem)
  have hvalue : trim w.value.text = w.value.text :=
    trim_of_forall_not_mem fun byte hbyte => (w.value.isPlain_text byte hbyte).not_mem
  have hq : ascii "q=" = [113, 61] := rfl
  rw [rejectsByQvalue, List.splitOn_eq_singleton hsemicolon, List.any_cons, List.any_nil, htrim,
    stripPrefix?, hq]
  rcases w.isQ with hletter | hletter
  · simp [hletter, List.isPrefixOf, hvalue, w.value.isQvalueZero_text]
  · simp [hletter, List.isPrefixOf]

end Weight

namespace Element

variable (e : Element)

theorem text_ne_nil : e.text ≠ [] := by simp [text, e.nonempty]

theorem isPlain_name : ∀ byte ∈ e.name, IsPlain byte :=
  fun byte hbyte => isPlain_of_isTchar (e.token byte hbyte)

theorem isPlain_head : ∀ byte ∈ e.text.head?, IsPlain byte := by
  intro byte hbyte
  rw [text, List.head?_append_of_ne_nil _ e.nonempty] at hbyte
  exact e.isPlain_name byte (List.mem_of_mem_head? hbyte)

theorem isPlain_last : ∀ byte ∈ e.text.getLast?, IsPlain byte := by
  intro byte hbyte
  cases hweight : e.weight with
  | none =>
    simp only [text, hweight, Option.map_none, Option.getD_none, List.append_nil] at hbyte
    exact e.isPlain_name byte (List.mem_of_getLast? hbyte)
  | some w =>
    have htext : e.text = (e.name ++ w.before ++ 59 :: w.after) ++
        (w.letter :: 61 :: w.value.text) := by
      simp [text, hweight, Weight.text]
    rw [htext, List.getLast?_append_of_ne_nil _ (by simp)] at hbyte
    exact w.isPlain_q byte (List.mem_of_getLast? hbyte)

theorem comma_not_mem : comma ∉ e.text := by
  intro hmem
  rcases List.mem_append.mp hmem with hmem | hmem
  · exact e.isPlain_name _ hmem (by simp)
  · cases hweight : e.weight with
    | none => simp [hweight] at hmem
    | some w =>
      simp only [hweight, Option.map_some, Option.getD_some, Weight.text] at hmem
      rcases List.mem_append.mp hmem with hmem | hmem
      · exact w.blank.1.not_mem (by decide) (by decide) hmem
      · rcases List.mem_cons.mp hmem with h | hmem
        · cases h
        · rcases List.mem_append.mp hmem with hmem | hmem
          · exact w.blank.2.not_mem (by decide) (by decide) hmem
          · exact w.isPlain_q _ hmem (by simp)

def tokenFlag : BitVec 8 :=
  if eqIgnoreAsciiCase e.name (ascii "zstd") then clientEncodingZstd
  else if eqIgnoreAsciiCase e.name (ascii "br") || e.isBrotli then clientEncodingBr
  else if eqIgnoreAsciiCase e.name (ascii "gzip") || e.name == ascii "*" then clientEncodingGzip
  else 0

theorem semicolon_not_mem_name : semicolon ∉ e.name :=
  fun hmem => e.isPlain_name _ hmem (by simp)

theorem splitOnce_text :
    (splitOnce semicolon e.text = none ∧ e.text = e.name ∧ e.counted = true) ∨
      ∃ tok params, splitOnce semicolon e.text = some (tok, params) ∧ trim tok = e.name ∧
        rejectsByQvalue params = !e.counted := by
  cases hweight : e.weight with
  | none =>
    have htext : e.text = e.name := by simp [text, hweight]
    refine .inl ⟨?_, htext, by simp [counted, refuses, hweight]⟩
    rw [htext, splitOnce_of_not_mem e.semicolon_not_mem_name]
  | some w =>
    have htext : e.text = (e.name ++ w.before) ++ semicolon :: w.params := by
      simp [text, hweight, Weight.text, Weight.params, semicolon]
    have hnot : semicolon ∉ e.name ++ w.before := by
      intro hmem
      rcases List.mem_append.mp hmem with hmem | hmem
      · exact e.semicolon_not_mem_name hmem
      · exact w.blank.1.not_mem (by decide) (by decide) hmem
    have htrim : trim (e.name ++ w.before) = e.name :=
      trim_between isBlank_nil w.blank.1.isBlank
        (fun byte hbyte => (e.isPlain_name byte (List.mem_of_mem_head? hbyte)).not_mem)
        (fun byte hbyte => (e.isPlain_name byte (List.mem_of_getLast? hbyte)).not_mem)
    refine .inr ⟨_, _, by rw [htext, splitOnce_append hnot], htrim, ?_⟩
    simp only [w.rejectsByQvalue_params, counted, refuses, unusual, hweight, Option.any_some]
    rcases w.isQ with hletter | hletter <;> simp [hletter]

end Element

theorem Part.encodingFlag_text (p : Part) :
    encodingFlag p.text =
      (p.element.map fun e => if e.counted then e.tokenFlag else 0).getD 0 := by
  cases helement : p.element with
  | none =>
    have htrim : trim p.text = [] := by
      simpa [text, helement] using @trim_between _ [] _ p.blank.1.isBlank p.blank.2.isBlank
        (by simp) (by simp)
    simp [encodingFlag, htrim]
  | some e =>
    have htrim : trim p.text = e.text := by
      simpa [text, helement] using trim_between p.blank.1.isBlank p.blank.2.isBlank
        (fun byte hbyte => (e.isPlain_head byte hbyte).not_mem)
        (fun byte hbyte => (e.isPlain_last byte hbyte).not_mem)
    unfold encodingFlag
    simp only [htrim, Option.map_some, Option.getD_some]
    rw [if_neg (by simpa using e.text_ne_nil)]
    rcases e.splitOnce_text with ⟨hsplit, hname, hcounted⟩ | ⟨tok, params, hsplit, hname, hzero⟩
    · rw [hname] at hsplit
      simp only [hname, hsplit, hcounted]
      rfl
    · simp only [hsplit, hname, hzero]
      cases e.counted with
      | false => rfl
      | true => rfl

/-! ## The mask -/

/-- The coding of a name in lower case; `brotli` is one more for `br`. -/
def codingOf (lower : Bytes) : Option Coding :=
  if lower = ascii "zstd" then some .zstd
  else if lower = ascii "br" ∨ lower = ascii "brotli" then some .br
  else if lower = ascii "gzip" then some .gzip
  else none

theorem codingOf_eq_some_iff {lower : Bytes} {c : Coding} :
    codingOf lower = some c ↔ lower = c.name ∨ (c = .br ∧ lower = ascii "brotli") := by
  constructor
  · intro h
    unfold codingOf at h
    split_ifs at h with hzstd hbr hgzip <;> cases h
    · exact .inl hzstd
    · exact hbr.imp id fun hbrotli => ⟨rfl, hbrotli⟩
    · exact .inl hgzip
  · rintro (rfl | ⟨rfl, rfl⟩)
    · cases c <;> decide
    · decide

/-- The element sets the bit of the coding if it is counted. -/
def Element.readFor (e : Element) (c : Coding) : Bool :=
  e.names c || (c = .br && e.isBrotli) || (c = .gzip && e.isStar)

theorem Element.readFor_iff (e : Element) (c : Coding) :
    e.readFor c = true ↔
      codingOf (toAsciiLowercase e.name) = some c ∨ (c = .gzip ∧ e.name = ascii "*") := by
  have hname : toAsciiLowercase c.name = c.name := by cases c <;> decide
  have hbrotli : toAsciiLowercase (ascii "brotli") = ascii "brotli" := by decide
  rw [codingOf_eq_some_iff]
  simp [readFor, names, isBrotli, isStar, eqIgnoreAsciiCase, hname, hbrotli]

theorem Element.tokenFlag_and_ne_zero (e : Element) (c : Coding) :
    e.tokenFlag &&& c.flag ≠ 0 ↔ e.readFor c = true := by
  have hflags : ∀ a b : Coding, a.flag &&& b.flag ≠ 0 ↔ a = b := by
    intro a b
    cases a <;> cases b <;> decide
  have hflag : e.tokenFlag = ((codingOf (toAsciiLowercase e.name)).map Coding.flag).getD
      (if e.name = ascii "*" then clientEncodingGzip else 0) := by
    have hzstd : toAsciiLowercase (ascii "zstd") = ascii "zstd" := by decide
    have hbr : toAsciiLowercase (ascii "br") = ascii "br" := by decide
    have hbrotli : toAsciiLowercase (ascii "brotli") = ascii "brotli" := by decide
    have hgzip : toAsciiLowercase (ascii "gzip") = ascii "gzip" := by decide
    simp only [tokenFlag, isBrotli, eqIgnoreAsciiCase, hzstd, hbr, hbrotli, hgzip, beq_iff_eq,
      Bool.or_eq_true, codingOf]
    split_ifs <;> simp_all [Coding.flag]
  rw [e.readFor_iff, hflag]
  cases hcoding : codingOf (toAsciiLowercase e.name) with
  | some a =>
    have hstar : e.name ≠ ascii "*" := by
      intro hname
      rw [hname] at hcoding
      exact absurd hcoding (by decide +revert)
    rw [Option.map_some, Option.getD_some, hflags]
    simp [hstar]
  | none =>
    by_cases hstar : e.name = ascii "*"
    · rw [if_pos hstar]
      change Coding.gzip.flag &&& c.flag ≠ 0 ↔ _
      rw [hflags]
      simp [hstar, eq_comm]
    · simp [hstar]

namespace AcceptEncoding

variable (field : AcceptEncoding)

def reads (c : Coding) : Bool := field.elements.any fun e => e.counted && e.readFor c

theorem splitOn_text : field.text.splitOn comma = field.parts.map Part.text := by
  refine List.splitOn_intercalate comma ?_ (by simpa using field.nonempty)
  intro text htext hmem
  obtain ⟨p, -, rfl⟩ := List.mem_map.mp htext
  rcases List.mem_append.mp hmem with hmem | hmem
  · rcases List.mem_append.mp hmem with hmem | hmem
    · exact p.blank.1.not_mem (by decide) (by decide) hmem
    · cases helement : p.element with
      | none => simp [helement] at hmem
      | some e => exact e.comma_not_mem (by simpa [helement] using hmem)
  · exact p.blank.2.not_mem (by decide) (by decide) hmem

theorem mask_and_ne_zero (c : Coding) :
    parseAcceptEncodingMask field.text &&& c.flag ≠ 0 ↔ field.reads c = true := by
  have hzero : ¬(0 : BitVec 8) &&& c.flag ≠ 0 := by simp
  rw [parseAcceptEncodingMask, field.splitOn_text, foldl_and_ne_zero, or_iff_right hzero]
  simp only [reads, elements, List.any_eq_true, List.mem_filterMap, List.mem_map,
    Bool.and_eq_true]
  constructor
  · rintro ⟨_, ⟨p, hp, rfl⟩, hflag⟩
    rw [p.encodingFlag_text] at hflag
    cases helement : p.element with
    | none => simp [helement] at hflag
    | some e =>
      cases hcounted : e.counted with
      | false => simp [helement, hcounted] at hflag
      | true =>
        refine ⟨e, ⟨p, hp, helement⟩, hcounted, (e.tokenFlag_and_ne_zero c).mp ?_⟩
        simpa [helement, hcounted] using hflag
  · rintro ⟨e, ⟨p, hp, helement⟩, hcounted, hread⟩
    refine ⟨p.text, ⟨p, hp, rfl⟩, ?_⟩
    rw [p.encodingFlag_text]
    simpa [helement, hcounted] using (e.tokenFlag_and_ne_zero c).mpr hread

end AcceptEncoding

/-! ## Preferences -/

section Preferences

variable (field : AcceptEncoding)

/-- The coding is acceptable by `*` only, and no element is counted for it. -/
def AcceptEncoding.overlooks (c : Coding) : Bool :=
  c ≠ .gzip && (field.elements.all fun e => !e.names c) &&
    !(c = .br && field.elements.any fun e => e.counted && e.isBrotli)

structure AcceptEncoding.Sound : Prop where
  zero : ∀ e ∈ field.elements, e.refuses = true → e.unusual = true →
    ∀ c, e.names c = true → field.acceptable c = true
  brotli : ∀ e ∈ field.elements, e.counted = true → e.isBrotli = true →
    field.acceptable .br = true
  star : ∀ e ∈ field.elements, e.counted = true → e.isStar = true →
    field.acceptable .gzip = true

open Element

theorem AcceptEncoding.sound_iff :
    field.Sound ↔ ∀ c, field.reads c = true → field.acceptable c = true := by
  simp only [reads, List.any_eq_true, Bool.and_eq_true, readFor, Bool.or_eq_true,
    decide_eq_true_eq]
  constructor
  · rintro hsound c ⟨e, he, hcounted, (hnames | ⟨rfl, hbrotli⟩) | ⟨rfl, hstar⟩⟩
    · cases hrefuses : e.refuses with
      | true =>
        have hunusual : e.unusual = true := by simpa [counted, hrefuses] using hcounted
        exact hsound.zero e he hrefuses hunusual c hnames
      | false =>
        rw [acceptable, Bool.or_eq_true]
        exact .inl (List.any_eq_true.mpr ⟨e, he, by simp [hnames, hrefuses]⟩)
    · exact hsound.brotli e he hcounted hbrotli
    · exact hsound.star e he hcounted hstar
  · intro h
    refine ⟨fun e he hrefuses hunusual c hnames => ?_, fun e he hcounted hbrotli => ?_,
      fun e he hcounted hstar => ?_⟩
    · exact h c ⟨e, he, by simp [counted, hunusual], .inl (.inl hnames)⟩
    · exact h .br ⟨e, he, hcounted, .inl (.inr ⟨rfl, hbrotli⟩)⟩
    · exact h .gzip ⟨e, he, hcounted, .inr ⟨rfl, hstar⟩⟩

theorem AcceptEncoding.Sound.reads_eq (hsound : field.Sound) (c : Coding) :
    field.reads c = (field.acceptable c && !field.overlooks c) := by
  rw [Bool.eq_iff_iff, Bool.and_eq_true, Bool.not_eq_true']
  constructor
  · intro hreads
    refine ⟨field.sound_iff.mp hsound c hreads, ?_⟩
    obtain ⟨e, he, hread⟩ := List.any_eq_true.mp hreads
    rw [Bool.and_eq_true] at hread
    by_contra hover
    rw [Bool.not_eq_false, overlooks] at hover
    simp only [Bool.and_eq_true, List.all_eq_true, Bool.not_eq_true', decide_eq_true_eq,
      Bool.and_eq_false_iff, List.any_eq_false, decide_eq_false_iff_not] at hover
    have hread' := hread.2
    simp only [readFor, hover.1.2 e he, hover.1.1, Bool.false_or, decide_false,
      Bool.false_and, Bool.or_false, Bool.and_eq_true, decide_eq_true_eq] at hread'
    exact hover.2.elim (fun h => h hread'.1) fun h => h e he ⟨hread.1, hread'.2⟩
  · rintro ⟨hacceptable, hover⟩
    rw [acceptable, Bool.or_eq_true, Bool.and_eq_true] at hacceptable
    rcases hacceptable with hlisted | ⟨hunlisted, hstar⟩
    · obtain ⟨e, he, hnames⟩ := List.any_eq_true.mp hlisted
      rw [Bool.and_eq_true] at hnames
      refine List.any_eq_true.mpr ⟨e, he, ?_⟩
      simp [counted, readFor, hnames.1, hnames.2]
    · obtain ⟨e, he, hstar⟩ := List.any_eq_true.mp hstar
      rw [Bool.and_eq_true] at hstar
      by_cases hgzip : c = .gzip
      · refine List.any_eq_true.mpr ⟨e, he, ?_⟩
        simp [counted, readFor, hgzip, hstar.1, hstar.2]
      · rw [overlooks, hunlisted] at hover
        simp only [hgzip, ne_eq, not_false_eq_true, decide_true, Bool.true_and,
          Bool.not_eq_false', Bool.and_eq_true, decide_eq_true_eq] at hover
        obtain ⟨other, hother, hbrotli⟩ := List.any_eq_true.mp hover.2
        rw [Bool.and_eq_true] at hbrotli
        refine List.any_eq_true.mpr ⟨other, hother, ?_⟩
        simp [readFor, hover.1, hbrotli.1, hbrotli.2]

def wanted (algo : Text) : Option Coding := codingOf (toAsciiLowercase (trim algo.bytes))

theorem codingOf_lower (algo : Text) :
    codingOf (toAsciiLowercase algo.bytes) =
      if trim algo.bytes = algo.bytes then wanted algo else none := by
  split
  · rename_i htrim
    rw [wanted, htrim]
  · rename_i htrim
    by_contra hsome
    obtain ⟨c, hc⟩ := Option.ne_none_iff_exists'.mp hsome
    refine htrim (trim_of_forall_not_mem fun byte hbyte seq hseq hmem => ?_)
    have hletters : (toAsciiLowercase algo.bytes).all isAsciiLowercase = true := by
      rcases codingOf_eq_some_iff.mp hc with hname | ⟨-, hname⟩
      · rw [hname]
        cases c <;> decide
      · rw [hname]
        decide
    have hspace : (whiteSpace.flatten.all fun other =>
        !isAsciiLowercase (if isAsciiUppercase other then other + 32 else other)) = true := by
      decide +kernel
    have hblank := List.all_eq_true.mp hspace byte (List.mem_flatten.mpr ⟨seq, hseq, hmem⟩)
    have hlower := List.all_eq_true.mp hletters _ (List.mem_map.mpr ⟨byte, hbyte, rfl⟩)
    rw [hlower] at hblank
    cases hblank

theorem algorithmFor_eq (mask : BitVec 8) (algo : Text) :
    algorithmFor mask algo =
      ((codingOf (toAsciiLowercase algo.bytes)).filter fun c => mask &&& c.flag ≠ 0).map
        Coding.algorithm := by
  unfold algorithmFor
  generalize toAsciiLowercase algo.bytes = lower
  cases hcoding : codingOf lower with
  | none =>
    have hnone : ∀ c, lower ≠ Coding.name c ∧ lower ≠ ascii "brotli" := fun c =>
      ⟨fun h => by simp [codingOf_eq_some_iff.mpr (.inl h)] at hcoding,
        fun h => by simp [codingOf_eq_some_iff.mpr (.inr ⟨rfl, h⟩)] at hcoding⟩
    have hzstd : lower ≠ ascii "zstd" := (hnone .zstd).1
    have hbr : lower ≠ ascii "br" := (hnone .br).1
    have hgzip : lower ≠ ascii "gzip" := (hnone .gzip).1
    simp [hzstd, hbr, hgzip, (hnone .br).2]
  | some c =>
    rcases codingOf_eq_some_iff.mp hcoding with rfl | ⟨rfl, rfl⟩
    · cases c <;> simp +decide [Coding.flag, Option.filter] <;> split <;>
        simp_all [Coding.algorithm]
    · simp +decide [Coding.flag, Option.filter]
      split <;> simp_all [Coding.algorithm]

end Preferences

/-! ## Negotiation -/

namespace ResponseCompressionEngine

variable (engine : ResponseCompressionEngine)

def preferences (path : Bytes) : List Text :=
  ((engine.bestOverride path).bind (·.preferAlgorithms)).getD engine.config.preferAlgorithms

structure Eligible (path : Bytes) (status : Nat) (contentType : Bytes) (contentLength : Nat) :
    Prop where
  enabled : engine.config.enabled = true
  status_ok : ¬(status = 204 ∨ status = 304 ∨ status < 200)
  route_enabled :
    ((engine.bestOverride path).bind (·.enabled)).getD engine.config.enabled = true
  length_ok : ¬(0 < contentLength ∧ contentLength <
    ((engine.bestOverride path).bind (·.minLength)).getD engine.config.minLength)
  type_ok : (!engine.wildcardTypes && ((baseMime contentType).isEmpty ||
    !engine.allowedTypes.contains (baseMime contentType))) = false

end ResponseCompressionEngine

def Coding.decision : Option Coding → HeaderDecision
  | none => .passthrough
  | some c => ⟨.compress, c.algorithm, c.algorithm.asContentEncoding⟩

theorem Coding.decision_injective : Function.Injective Coding.decision := by
  intro a b h
  cases a with
  | none => cases b with
    | none => rfl
    | some b => cases h
  | some a => cases b with
    | none => cases h
    | some b => cases a <;> cases b <;> first | rfl | cases h

structure Negotiation where
  config : ResponseCompressionConfig
  engine : ResponseCompressionEngine
  accepted : ResponseCompressionEngine.new config = .ok engine
  path : Bytes
  status : Nat
  contentType : Bytes
  contentLength : Nat
  eligible : engine.Eligible path status contentType contentLength
  field : AcceptEncoding

namespace Negotiation

variable (n : Negotiation)

def decision : HeaderDecision :=
  n.engine.evaluateHeader n.path n.status n.contentType n.contentLength n.field.text

def firstAcceptable : Option Coding :=
  (n.engine.preferences n.path).findSome? fun algo => (wanted algo).filter n.field.acceptable

/-- The same among the preferences without blanks whose coding is not overlooked. -/
def firstRead : Option Coding :=
  (n.engine.preferences n.path).findSome? fun algo =>
    if trim algo.bytes = algo.bytes then
      (wanted algo).filter fun c => n.field.acceptable c && !n.field.overlooks c
    else none

structure Honoured : Prop where
  mask : ∀ c, parseAcceptEncodingMask n.field.text &&& Coding.flag c ≠ 0 →
    n.field.acceptable c = true
  picks : n.decision = Coding.decision n.firstAcceptable

theorem decision_eq :
    n.decision = Coding.decision ((n.engine.preferences n.path).findSome? fun algo =>
      (codingOf (toAsciiLowercase algo.bytes)).filter n.field.reads) := by
  have hfound : (n.engine.preferences n.path).findSome? (algorithmFor
      (parseAcceptEncodingMask n.field.text)) =
      ((n.engine.preferences n.path).findSome? fun algo =>
        (codingOf (toAsciiLowercase algo.bytes)).filter n.field.reads).map Coding.algorithm := by
    rw [List.map_findSome?]
    congr 1
    funext algo
    have hbits : (fun c : Coding => decide (parseAcceptEncodingMask n.field.text &&& c.flag ≠ 0)) =
        n.field.reads := by
      funext c
      rw [Bool.eq_iff_iff, decide_eq_true_eq, n.field.mask_and_ne_zero]
    rw [algorithmFor_eq, hbits]
    rfl
  have helig := n.eligible
  unfold decision evaluateHeader
  dsimp only
  rw [if_neg (by simp [helig.enabled]), if_neg helig.status_ok,
    if_neg (by simp [helig.route_enabled]), if_neg helig.length_ok,
    if_neg (by simp only [helig.type_ok, Bool.false_eq_true, not_false_eq_true])]
  rw [← preferences]
  generalize (n.engine.preferences n.path).findSome? (fun algo =>
    (codingOf (toAsciiLowercase algo.bytes)).filter n.field.reads) = found at hfound ⊢
  split
  · rename_i hzero
    have hnone : found.map Coding.algorithm = none := by
      rw [← hfound, hzero, List.findSome?_eq_none_iff]
      intro algo _
      rw [algorithmFor_eq]
      simp
    rw [Option.map_eq_none_iff.mp hnone]
    rfl
  · rw [hfound]
    cases found <;> rfl

/-- The field is honoured exactly if every counted element is for an acceptable coding and the
first acceptable preference is one that is read. -/
theorem honoured_iff : n.Honoured ↔ n.field.Sound ∧ n.firstAcceptable = n.firstRead := by
  have hmask : (∀ c, parseAcceptEncodingMask n.field.text &&& Coding.flag c ≠ 0 →
      n.field.acceptable c = true) ↔ n.field.Sound := by
    simp only [n.field.mask_and_ne_zero, n.field.sound_iff]
  have hpicks (hsound : n.field.Sound) : n.decision = Coding.decision n.firstRead := by
    rw [n.decision_eq, firstRead]
    congr 2
    funext algo
    rw [codingOf_lower]
    split
    · congr 1
      funext c
      exact hsound.reads_eq _ c
    · rfl
  constructor
  · rintro ⟨hbits, hpick⟩
    have hsound := hmask.mp hbits
    exact ⟨hsound, Coding.decision_injective (hpick.symm.trans (hpicks hsound))⟩
  · rintro ⟨hsound, hfirst⟩
    exact ⟨hmask.mpr hsound, by rw [hpicks hsound, hfirst]⟩

end Negotiation

/-- `gzip;q=0.` refuses the coding. -/
def refusedGzip : AcceptEncoding where
  parts :=
    [⟨[], [], ⟨nofun, nofun⟩, some ⟨ascii "gzip", by decide, List.all_eq_true.mp (by decide), some
      ⟨[], [], ⟨nofun, nofun⟩, 113, .inl rfl, ⟨false, some [], by simp, by simp⟩⟩⟩⟩]
  nonempty := by simp

def gzipOffer : Negotiation where
  config := gzipConfig
  engine := _
  accepted := rfl
  path := ascii "/"
  status := 200
  contentType := ascii "text/plain"
  contentLength := 100
  eligible := ⟨rfl, by decide, rfl, by decide, rfl⟩
  field := refusedGzip

theorem refused_gzip_taken :
    refusedGzip.text = ascii "gzip;q=0." ∧ refusedGzip.acceptable .gzip = false ∧
      parseAcceptEncodingMask (ascii "gzip;q=0.") = clientEncodingGzip := by
  decide +kernel

end AuroraGateway.ResponseCompression
