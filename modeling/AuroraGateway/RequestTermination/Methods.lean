import AuroraGateway.Engine.Policy
import AuroraGateway.Foundation.AsciiText
import AuroraGateway.Foundation.LetterCase
import AuroraGateway.Foundation.Masks
import AuroraGateway.RequestTermination.Engine

/-!
# The methods of a rule

The listed methods become bits of a mask, and all names but nine share one bit.  An
asterisk is such a name, so it stands for the other methods and not for the nine.
-/

namespace AuroraGateway.RequestTermination

open Engine Foundation

/-! ## Compilation -/

def methodAll : BitVec 16 := 0xFFFF

structure HeaderPairInput where
  name : Text
  value : Text

structure RequestTerminationRuleInput where
  id : Text
  origin : Text
  pathPrefix : Text
  methods : List Text
  statusCode : UInt16
  contentType : Text
  body : Text
  headers : List HeaderPairInput
  bypassHeaders : List HeaderPairInput

def upperMethods (methods : List Text) : List Bytes :=
  (methods.map fun m => toAsciiUppercase (trim m.bytes)).filter fun m => !m.isEmpty

def methodMask (methods : List Bytes) : BitVec 16 :=
  if methods.isEmpty then methodAll
  else methods.foldl (fun mask m => mask ||| methodToMask m) 0

def keptPairs (headers : List HeaderPairInput) : List (Bytes × Bytes) :=
  (headers.filter fun h =>
    !(trim h.name.bytes).isEmpty && h.name.bytes.length ≤ 64 &&
      h.value.bytes.length ≤ 256).map fun h => (h.name.bytes, h.value.bytes)

def compileRule (rule : RequestTerminationRuleInput) : Except Error CompiledTerminationRule :=
  if !hostValid rule.origin.bytes || rule.origin.bytes.isEmpty ||
      253 < rule.origin.bytes.length || !(ascii "/").isPrefixOf rule.pathPrefix.bytes ||
      maxPathBytes < rule.pathPrefix.bytes.length ||
      !(200 ≤ rule.statusCode && rule.statusCode ≤ 599) ||
      (trim rule.contentType.bytes).isEmpty || 128 < rule.contentType.bytes.length ||
      65536 < rule.body.bytes.length then
    .error .invalidPolicy
  else
    .ok
      { id := rule.id.bytes
        origin := rule.origin.bytes
        pathPrefix := rule.pathPrefix.bytes
        methodMask := methodMask (upperMethods rule.methods)
        statusCode := rule.statusCode.toNat
        contentType := rule.contentType.bytes
        body := rule.body.bytes
        headers := keptPairs rule.headers
        bypassHeaders := keptPairs rule.bypassHeaders }

structure AcceptedRule where
  input : RequestTerminationRuleInput
  compiled : CompiledTerminationRule
  accepted : compileRule input = .ok compiled

def AcceptedRule.appliesTo (rule : AcceptedRule) (method : Bytes) : Bool :=
  (rule.compiled.methodMask &&& methodToMask method) != 0

/-! ## Bits -/

def methodTable : List (Bytes × BitVec 16) :=
  [(ascii "GET", methodGet), (ascii "POST", methodPost), (ascii "PUT", methodPut),
    (ascii "DELETE", methodDelete), (ascii "HEAD", methodHead),
    (ascii "OPTIONS", methodOptions), (ascii "PATCH", methodPatch),
    (ascii "CONNECT", methodConnect), (ascii "TRACE", methodTrace)]

theorem getD_find?_cons (p : Bytes × BitVec 16 → Bool) (entry : Bytes × BitVec 16)
    (table : List (Bytes × BitVec 16)) (other : BitVec 16) :
    (((entry :: table).find? p).map Prod.snd).getD other =
      if p entry then entry.2 else ((table.find? p).map Prod.snd).getD other := by
  rw [List.find?_cons]
  cases p entry <;> rfl

theorem methodToMask_eq_find? (method : Bytes) :
    methodToMask method =
      ((methodTable.find? fun entry => eqIgnoreAsciiCase method entry.1).map Prod.snd).getD
        methodOther := by
  simp only [methodToMask, methodTable, getD_find?_cons]
  rfl

def Alike (left right : Bytes) : Prop := toAsciiLowercase left = toAsciiLowercase right

theorem eqIgnoreAsciiCase_iff {left right : Bytes} :
    eqIgnoreAsciiCase left right = true ↔ Alike left right :=
  beq_iff_eq

def Known (method : Bytes) : Prop := ∃ entry ∈ methodTable, Alike method entry.1

variable {method other : Bytes} {entry : Bytes × BitVec 16}

theorem methodTable_distinct :
    (methodTable.all fun entry => methodTable.all fun entry' =>
      (toAsciiLowercase entry.1 ≠ toAsciiLowercase entry'.1 || entry = entry') &&
        (entry.2 &&& entry'.2 = 0 || entry = entry')) = true ∧
      (methodTable.all fun entry =>
        entry.2 &&& entry.2 ≠ 0 && entry.2 &&& methodOther = 0) = true := by
  decide +kernel

theorem methodToMask_of_alike (hentry : entry ∈ methodTable) (h : Alike method entry.1) :
    methodToMask method = entry.2 := by
  rw [methodToMask_eq_find?]
  cases hfind : methodTable.find? fun entry => eqIgnoreAsciiCase method entry.1 with
  | none =>
    have hnone := List.find?_eq_none.mp hfind entry hentry
    exact absurd (eqIgnoreAsciiCase_iff.mpr h) hnone
  | some entry' =>
    have hdistinct := List.all_eq_true.mp (List.all_eq_true.mp methodTable_distinct.1 entry hentry)
      entry' (List.mem_of_find?_eq_some hfind)
    have hfound := List.find?_some hfind
    have halike : Alike method entry'.1 := eqIgnoreAsciiCase_iff.mp hfound
    have hsame : toAsciiLowercase entry.1 = toAsciiLowercase entry'.1 := h.symm.trans halike
    simp only [hsame, ne_eq, not_true_eq_false, decide_false, Bool.false_or, Bool.and_eq_true,
      decide_eq_true_eq] at hdistinct
    rw [hdistinct.1]
    rfl

theorem methodToMask_of_not_known (h : ¬Known method) : methodToMask method = methodOther := by
  rw [methodToMask_eq_find?, List.find?_eq_none.mpr]
  · rfl
  · intro entry hentry halike
    exact h ⟨entry, hentry, eqIgnoreAsciiCase_iff.mp halike⟩

theorem shares_iff_of_known (hknown : Known other) :
    methodToMask method &&& methodToMask other ≠ 0 ↔ Alike method other := by
  obtain ⟨entry, hentry, hother⟩ := hknown
  have hmasks := List.all_eq_true.mp methodTable_distinct.2 entry hentry
  simp only [ne_eq, Bool.and_eq_true, decide_eq_true_eq] at hmasks
  rw [methodToMask_of_alike hentry hother]
  by_cases hmethod : Known method
  · obtain ⟨entry', hentry', hmethod⟩ := hmethod
    rw [methodToMask_of_alike hentry' hmethod]
    have hdistinct := List.all_eq_true.mp
      (List.all_eq_true.mp methodTable_distinct.1 entry' hentry') entry hentry
    simp only [ne_eq, Bool.and_eq_true, Bool.or_eq_true, decide_eq_true_eq] at hdistinct
    constructor
    · intro hmeet
      obtain rfl := hdistinct.2.resolve_left hmeet
      exact hmethod.trans hother.symm
    · intro halike
      have hsame := (hmethod.symm.trans halike).trans hother
      obtain rfl := hdistinct.1.resolve_left fun hne => hne hsame
      exact hmasks.1
  · rw [methodToMask_of_not_known hmethod, BitVec.and_comm]
    refine iff_of_false (fun hmeet => hmeet hmasks.2) fun halike => hmethod ?_
    exact ⟨entry, hentry, halike.trans hother⟩

theorem shares_of_not_known (hmethod : ¬Known method) (hother : ¬Known other) :
    methodToMask method &&& methodToMask other ≠ 0 := by
  rw [methodToMask_of_not_known hmethod, methodToMask_of_not_known hother]
  decide

/-! ## What the list says -/

def isTokenByte (b : UInt8) : Bool := isAsciiAlphanumeric b || b ∈ ascii "!#$%&'*+-.^_`|~"

structure MethodToken where
  bytes : Bytes
  nonempty : bytes ≠ []
  token : bytes.all isTokenByte = true

def Names (methods : List Text) (method : Bytes) : Prop :=
  methods = [] ∨ (∃ m ∈ methods, m.bytes = ascii "*") ∨ ∃ m ∈ methods, Alike m.bytes method

/-- The lists that are taken at their word: the empty one, those with an asterisk and all nine
names, and those of the nine names only, each of them also without white space around it. -/
def TakenAtWord (methods : List Text) : Prop :=
  methods = [] ∨
    (∃ m ∈ methods, m.bytes = ascii "*") ∧
      (∀ entry ∈ methodTable, ∃ m ∈ upperMethods methods, Alike m entry.1) ∨
    (¬∃ m ∈ methods, m.bytes = ascii "*") ∧ upperMethods methods ≠ [] ∧
      ∀ upper ∈ upperMethods methods, Known upper ∧ ∃ m ∈ methods, Alike m.bytes upper

section Lists

variable {methods : List Text}

theorem length_eq_of_alike (h : Alike method other) : method.length = other.length := by
  simpa [toAsciiLowercase] using congrArg List.length h

theorem alike_upper (method : Bytes) : Alike (toAsciiUppercase method) method :=
  eqIgnoreAsciiCase_iff.mp (eqIgnoreAsciiCase_upper method)

theorem mem_upperMethods {m : Text} (hm : m ∈ methods) (hne : trim m.bytes ≠ []) :
    toAsciiUppercase (trim m.bytes) ∈ upperMethods methods := by
  refine List.mem_filter.mpr ⟨List.mem_map.mpr ⟨m, hm, rfl⟩, ?_⟩
  simpa [toAsciiUppercase] using hne

theorem whiteSpace_no_token :
    (whiteSpace.all fun seq => seq.all fun b =>
      !isTokenByte (if isAsciiUppercase b then b + 32 else b)) = true := by
  decide +kernel

theorem isTokenByte_lower {b : UInt8} (h : isTokenByte b = true) :
    isTokenByte (if isAsciiUppercase b then b + 32 else b) = true := by
  split_ifs with hupper
  · have hlower := lower_of_upper hupper
    simp [isTokenByte, isAsciiAlphanumeric, hlower]
  · exact h

theorem trim_of_alike_token {m : Bytes} {token : MethodToken} (h : Alike m token.bytes) :
    trim m = m := by
  refine trim_of_forall_not_mem fun b hb seq hseq hmem => ?_
  have hforeign := List.all_eq_true.mp (List.all_eq_true.mp whiteSpace_no_token seq hseq) b hmem
  have hlower : (if isAsciiUppercase b then b + 32 else b) ∈ toAsciiLowercase token.bytes :=
    h ▸ List.mem_map.mpr ⟨b, hb, rfl⟩
  obtain ⟨b', hb', heq⟩ := List.mem_map.mp hlower
  have htoken := isTokenByte_lower (List.all_eq_true.mp token.token b' hb')
  rw [heq] at htoken
  rw [htoken] at hforeign
  cases hforeign

theorem exists_upper_of_alike {token : MethodToken} {m : Text} (hm : m ∈ methods)
    (h : Alike m.bytes token.bytes) : ∃ upper ∈ upperMethods methods, Alike upper token.bytes := by
  have htrim := trim_of_alike_token h
  have hne : trim m.bytes ≠ [] := by
    rw [htrim]
    intro hnil
    have hlength := length_eq_of_alike h
    rw [hnil] at hlength
    exact token.nonempty (List.eq_nil_of_length_eq_zero hlength.symm)
  refine ⟨_, mem_upperMethods hm hne, ?_⟩
  rw [htrim]
  exact (alike_upper _).trans h

theorem star_mem_upperMethods (h : ∃ m ∈ methods, m.bytes = ascii "*") :
    ascii "*" ∈ upperMethods methods := by
  obtain ⟨m, hm, hbytes⟩ := h
  have hstar : toAsciiUppercase (trim m.bytes) = ascii "*" := by
    rw [hbytes]
    rfl
  exact hstar ▸ mem_upperMethods hm (by rw [hbytes]; decide)

theorem not_known_star : ¬Known (ascii "*") := by
  rintro ⟨entry, hentry, halike⟩
  have hlengths : (methodTable.all fun entry => entry.1.length ≠ 1) = true := by decide
  have hlength := List.all_eq_true.mp hlengths entry hentry
  exact (of_decide_eq_true hlength) (length_eq_of_alike halike).symm

def nameToken (hentry : entry ∈ methodTable) : MethodToken where
  bytes := entry.1
  nonempty := by
    have hnames : (methodTable.all fun entry => entry.1 ≠ []) = true := by decide
    exact of_decide_eq_true (List.all_eq_true.mp hnames entry hentry)
  token := by
    have hnames : (methodTable.all fun entry => entry.1.all isTokenByte) = true := by
      decide +kernel
    exact List.all_eq_true.mp hnames entry hentry

def longToken (methods : List Text) : MethodToken where
  bytes := List.replicate ((methods.map Text.bytes).flatten.length + 8) 88
  nonempty := by simp
  token := by simp [List.all_replicate, isTokenByte, isAsciiAlphanumeric, isAsciiUppercase]

theorem not_known_longToken (methods : List Text) : ¬Known (longToken methods).bytes := by
  rintro ⟨entry, hentry, halike⟩
  have hlengths : (methodTable.all fun entry => entry.1.length < 8) = true := by decide
  have hshort := of_decide_eq_true (List.all_eq_true.mp hlengths entry hentry)
  have hlength := length_eq_of_alike halike
  rw [longToken, List.length_replicate] at hlength
  omega

theorem not_names_longToken (hne : methods ≠ []) (hstar : ¬∃ m ∈ methods, m.bytes = ascii "*") :
    ¬Names methods (longToken methods).bytes := by
  rintro (hnil | hmem | ⟨m, hm, halike⟩)
  · exact hne hnil
  · exact hstar hmem
  · have hlength := length_eq_of_alike halike
    have hle : m.bytes.length ≤ (methods.map Text.bytes).flatten.length :=
      (List.sublist_flatten_of_mem (List.mem_map.mpr ⟨m, hm, rfl⟩)).length_le
    rw [longToken, List.length_replicate] at hlength
    omega

end Lists

namespace AcceptedRule

variable (rule : AcceptedRule)

theorem appliesTo_iff (method : Bytes) :
    rule.appliesTo method = true ↔ upperMethods rule.input.methods = [] ∨
      ∃ upper ∈ upperMethods rule.input.methods,
        methodToMask upper &&& methodToMask method ≠ 0 := by
  have hmask : rule.compiled.methodMask = methodMask (upperMethods rule.input.methods) := by
    have haccepted := rule.accepted
    unfold compileRule at haccepted
    split at haccepted
    · cases haccepted
    · rw [← Except.ok.inj haccepted]
  have hall : methodAll &&& methodToMask method ≠ 0 := by
    by_cases hknown : Known method
    · obtain ⟨entry, hentry, halike⟩ := hknown
      have hbits : (methodTable.all fun entry => methodAll &&& entry.2 ≠ 0) = true := by
        decide +kernel
      rw [methodToMask_of_alike hentry halike]
      exact of_decide_eq_true (List.all_eq_true.mp hbits entry hentry)
    · rw [methodToMask_of_not_known hknown]
      decide
  rw [appliesTo, bne_iff_ne, hmask, methodMask]
  cases hupper : upperMethods rule.input.methods with
  | nil => exact iff_of_true hall (.inl rfl)
  | cons upper uppers =>
    rw [List.isEmpty_cons, if_neg Bool.false_ne_true, foldl_and_ne_zero]
    simp

theorem appliesTo_of_known {method : Bytes} (hknown : Known method) :
    rule.appliesTo method = true ↔ upperMethods rule.input.methods = [] ∨
      ∃ upper ∈ upperMethods rule.input.methods, Alike upper method := by
  simp only [rule.appliesTo_iff, shares_iff_of_known hknown]

/-- The mask of a rule means what its list says exactly if the list is taken at its word. -/
theorem methods_as_listed_iff :
    (∀ token : MethodToken,
      rule.appliesTo token.bytes = true ↔ Names rule.input.methods token.bytes) ↔
        TakenAtWord rule.input.methods := by
  constructor
  · intro h
    by_cases hnil : rule.input.methods = []
    · exact .inl hnil
    by_cases hstar : ∃ m ∈ rule.input.methods, m.bytes = ascii "*"
    · refine .inr (.inl ⟨hstar, fun entry hentry => ?_⟩)
      have happlies : rule.appliesTo entry.1 = true :=
        (h (nameToken hentry)).mpr (.inr (.inl hstar))
      refine ((rule.appliesTo_of_known ⟨entry, hentry, rfl⟩).mp happlies).resolve_left ?_
      exact List.ne_nil_of_mem (star_mem_upperMethods hstar)
    -- a name outside the list shows that no other bit is set
    have hlong : rule.appliesTo (longToken rule.input.methods).bytes ≠ true := fun happlies =>
      not_names_longToken hnil hstar ((h (longToken _)).mp happlies)
    rw [ne_eq, rule.appliesTo_iff, not_or] at hlong
    refine .inr (.inr ⟨hstar, hlong.1, fun upper hupper => ?_⟩)
    by_cases hknown : Known upper
    · obtain ⟨entry, hentry, halike⟩ := hknown
      have happlies : rule.appliesTo (nameToken hentry).bytes = true :=
        (rule.appliesTo_of_known ⟨entry, hentry, rfl⟩).mpr (.inr ⟨upper, hupper, halike⟩)
      obtain ⟨m, hm, hname⟩ := (((h (nameToken hentry)).mp happlies).resolve_left
        hnil).resolve_left hstar
      exact ⟨⟨entry, hentry, halike⟩, m, hm, hname.trans halike.symm⟩
    · exact absurd ⟨upper, hupper, shares_of_not_known hknown (not_known_longToken _)⟩ hlong.2
  · rintro (hnil | ⟨hstar, hall⟩ | ⟨hstar, hne, hplain⟩) token
    · refine iff_of_true ((rule.appliesTo_iff _).mpr (.inl ?_)) (.inl hnil)
      rw [hnil]
      rfl
    · refine iff_of_true ((rule.appliesTo_iff _).mpr (.inr ?_)) (.inr (.inl hstar))
      by_cases hknown : Known token.bytes
      · obtain ⟨entry, hentry, halike⟩ := hknown
        obtain ⟨upper, hupper, hname⟩ := hall entry hentry
        exact ⟨upper, hupper, (shares_iff_of_known ⟨entry, hentry, halike⟩).mpr
          (hname.trans halike.symm)⟩
      · exact ⟨_, star_mem_upperMethods hstar, shares_of_not_known not_known_star hknown⟩
    · constructor
      · intro happlies
        obtain ⟨upper, hupper, hshares⟩ := ((rule.appliesTo_iff _).mp happlies).resolve_left hne
        obtain ⟨hknown, m, hm, halike⟩ := hplain upper hupper
        rw [BitVec.and_comm, shares_iff_of_known hknown] at hshares
        exact .inr (.inr ⟨m, hm, halike.trans hshares.symm⟩)
      · rintro (hnil | hmem | ⟨m, hm, halike⟩)
        · refine absurd ?_ hne
          rw [hnil]
          rfl
        · exact absurd hmem hstar
        · obtain ⟨upper, hupper, hname⟩ := exists_upper_of_alike hm halike
          have hknown : Known token.bytes := by
            obtain ⟨entry, hentry, hentry'⟩ := (hplain upper hupper).1
            exact ⟨entry, hentry, hname.symm.trans hentry'⟩
          exact (rule.appliesTo_of_known hknown).mpr (.inr ⟨upper, hupper, hname⟩)

end AcceptedRule

def maintenanceRule (methods : List Text) : RequestTerminationRuleInput where
  id := .ofAscii "maintenance"
  origin := wildcardText
  pathPrefix := rootText
  methods := methods
  statusCode := 503
  contentType := .ofAscii "text/plain"
  body := .ofAscii "back soon"
  headers := []
  bypassHeaders := [⟨.ofAscii "X-Bypass", .ofAscii "staff"⟩]

def allMethods : AcceptedRule := ⟨maintenanceRule [.ofAscii "*"], _, rfl⟩

def maintenanceEngine (methods : List Text) : RequestTerminationEngine :=
  ⟨1, (compileRule (maintenanceRule methods)).toOption.toList⟩

def terminates (methods : List Text) (method : Bytes) : Bool :=
  ((maintenanceEngine methods).evaluate
    ⟨ascii "example.com", ascii "/", method, []⟩).shouldTerminate

/-- A rule for all methods lets `GET` pass, and a rule for `PROPFIND` takes `MKCOL`. -/
theorem methods_misread :
    terminates [.ofAscii "*"] (ascii "GET") = false ∧
      terminates [.ofAscii "PROPFIND"] (ascii "MKCOL") = true := by
  decide +kernel

end AuroraGateway.RequestTermination
