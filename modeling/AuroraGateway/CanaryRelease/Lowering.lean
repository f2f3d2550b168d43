import AuroraGateway.CanaryRelease.Glob
import AuroraGateway.Engine.CommonPrefix
import AuroraGateway.Foundation.TrimmedText

/-!
# Patterns lowered to byte matchers

A pattern is recognised by the shape of its text.  A class becomes a star, and a `.*` in
the middle a dot and a star.
-/

namespace AuroraGateway.CanaryRelease

open Foundation Engine

/-! ## The matchers -/

inductive ByteMatcher where
  | exactSwar (mask expected len : Nat)
  | exactBytes (target : Bytes)
  | oneOf (targets : List Bytes)
  | prefixOf (start : Bytes)
  | suffixOf (ending : Bytes)
  | contains (sub : Bytes)
  | present
  | glob (pattern : Bytes)
  | anyOf (matchers : List ByteMatcher)

def registerOf (bytes : Bytes) : Nat :=
  wordOfBytes targetEndian (copyFromSlice (List.replicate 8 0) 0 bytes)

def maskOf : Endian → Nat → Nat
  | .little, len => if len = 8 then 2 ^ 64 - 1 else 2 ^ (len * 8) - 1
  | .big, len => if len = 8 then 2 ^ 64 - 1 else 2 ^ 64 - 1 - (2 ^ ((8 - len) * 8) - 1)

def ByteMatcher.exact (bytes : Bytes) : ByteMatcher :=
  if 0 < bytes.length ∧ bytes.length ≤ 8 then
    .exactSwar (maskOf targetEndian bytes.length) (registerOf bytes) bytes.length
  else .exactBytes bytes

mutual

def ByteMatcher.isMatch (input : Bytes) : ByteMatcher → Bool
  | .exactSwar mask expected len => input.length = len && registerOf input &&& mask = expected
  | .exactBytes target => input = target
  | .oneOf targets => targets.any fun t => t.length = input.length && input = t
  | .prefixOf start => start.isPrefixOf input
  | .suffixOf ending => ending.isSuffixOf input
  | .contains sub => sub <:+: input
  | .present => !input.isEmpty
  | .glob pattern => globMatch pattern input
  | .anyOf matchers => isMatchAny input matchers

def isMatchAny (input : Bytes) : List ByteMatcher → Bool
  | [] => false
  | matcher :: matchers => matcher.isMatch input || isMatchAny input matchers

end

/-! ## Lowering -/

/-- The check of parentheses and brackets; the byte after a backslash is skipped. -/
def balanced (depth : Nat) (inBracket skip : Bool) : Bytes → Bool
  | [] => depth = 0 && !inBracket
  | b :: rest =>
    if skip then balanced depth inBracket false rest
    else if b = 92 then balanced depth inBracket true rest
    else if b = 91 && !inBracket then balanced depth true false rest
    else if b = 93 && inBracket then balanced depth false false rest
    else if b = 40 && !inBracket then balanced (depth + 1) inBracket false rest
    else if b = 41 && !inBracket then depth ≠ 0 && balanced (depth - 1) inBracket false rest
    else balanced depth inBracket false rest

def stripAnchors (trimmed : Bytes) : Bytes :=
  let core := if trimmed.head? = some 94 then trimmed.tail else trimmed
  if core.getLast? = some 36 && !(ascii "\\$").isSuffixOf core then core.dropLast else core

def stripSuffix? (literal bytes : Bytes) : Option Bytes :=
  if literal.isSuffixOf bytes then some (bytes.take (bytes.length - literal.length)) else none

/-- A backslash is one byte, so the characters of the source are read as bytes. -/
def unescapeRegex : Bytes → Bytes
  | [] => []
  | [b] => if b = 92 then [] else [b]
  | b :: next :: rest =>
    if b = 92 then next :: unescapeRegex rest else b :: unescapeRegex (next :: rest)

def convertFrom : Nat → Bytes → Bytes
  | 0, _ | _ + 1, [] => []
  | fuel + 1, b :: rest =>
    if b = 91 then
      let after := (rest.dropWhile (· ≠ 93)).tail
      42 :: convertFrom fuel
        (if after.head? = some 43 ∨ after.head? = some 42 then after.tail else after)
    else if b = 92 then
      match rest with
      | [] => []
      | next :: rest => next :: convertFrom fuel rest
    else b :: convertFrom fuel rest

def convertSimpleClassToGlob (s : Bytes) : Bytes := convertFrom s.length s

/-- An alternative, and its text if it is compared as a whole; `none` if it is empty. -/
def lowerPart (p : Bytes) : Option (ByteMatcher × Option Bytes) :=
  let pTrimmed := trim p
  if pTrimmed.isEmpty then none
  else
    match stripSuffix? (ascii ".*") pTrimmed with
    | some start => some (.prefixOf (unescapeRegex start), none)
    | none =>
      if 42 ∈ pTrimmed ∨ 63 ∈ pTrimmed then some (.glob pTrimmed, none)
      else
        let clean := unescapeRegex pTrimmed
        some (.exact clean, some clean)

def lowerParts : List Bytes → Option (List (ByteMatcher × Option Bytes))
  | [] => some []
  | p :: parts => do
    let lowered ← lowerPart p
    let rest ← lowerParts parts
    return lowered :: rest

def anyPart (lowered : List (ByteMatcher × Option Bytes)) : ByteMatcher :=
  if lowered.all fun part => part.2.isSome then .oneOf (lowered.filterMap Prod.snd)
  else .anyOf (lowered.map Prod.fst)

def lowerPlain (core : Bytes) : Option ByteMatcher :=
  match stripSuffix? (ascii ".*") core with
  | some start =>
    match stripPrefix? (ascii ".*") start with
    | some sub => some (.contains (unescapeRegex sub))
    | none =>
      if 91 ∈ start then some (.glob (convertSimpleClassToGlob core))
      else some (.prefixOf (unescapeRegex start))
  | none =>
    match stripPrefix? (ascii ".*") core with
    | some ending => some (.suffixOf (unescapeRegex ending))
    | none =>
      if 42 ∈ core ∨ 63 ∈ core ∨ 91 ∈ core then
        some (.glob (convertSimpleClassToGlob core))
      else some (.exact (unescapeRegex core))

def lowerCore (core : Bytes) : Option ByteMatcher :=
  if core = ascii ".*" ∨ core = ascii "*" ∨ core = [] then some .present
  else
    let inner :=
      if core.head? = some 40 ∧ core.getLast? = some 41 then core.tail.dropLast else core
    if 124 ∈ inner then (lowerParts (inner.splitOn 124)).map anyPart
    else lowerPlain core

def compileFromRegex (pattern : Bytes) : Option ByteMatcher :=
  let trimmed := trim pattern
  if trimmed.isEmpty then none
  else if balanced 0 false false trimmed then lowerCore (stripAnchors trimmed)
  else none

end AuroraGateway.CanaryRelease
