import AuroraGateway.Access.Space
import AuroraGateway.Foundation.AsciiText
import AuroraGateway.IpRestriction.Snapshot

/-!
# Blue-green deployments

A rule has a blue and a green upstream, of which one is active.  A request may
ask for a slot; it gets it if it presents the secret of the rule and comes from
an allowed network.
-/

namespace AuroraGateway.BlueGreen

open Access (HeaderList HeaderLookup)
open Engine Foundation
open IpRestriction (Cidr parseIpv4Cidr parseIpv4U32)

/-! ## Slots -/

def slotBlue : UInt8 := 0

def slotGreen : UInt8 := 1

def slotName (slot : UInt8) : Bytes := if slot = slotGreen then ascii "green" else ascii "blue"

def slotFromStrIgnoreCase (s : Bytes) : Option UInt8 :=
  if eqIgnoreAsciiCase (trim s) (ascii "blue") then some slotBlue
  else if eqIgnoreAsciiCase (trim s) (ascii "green") then some slotGreen
  else none

def isBlank (byte : UInt8) : Bool := byte = 32 || byte = 9 || byte = 13 || byte = 10

variable (bytes : Bytes)

def trimAscii : Bytes :=
  ((bytes.dropWhile isBlank).reverse.dropWhile isBlank).reverse

def slotOfWord : Option UInt8 :=
  let masked := bytes.map fun byte => byte &&& 0xDF
  if masked = ascii "BLUE" then some slotBlue
  else if masked = ascii "GREEN" then some slotGreen
  else none

def parseSlotSwar : Option UInt8 :=
  (slotOfWord bytes).or (slotOfWord (trimAscii bytes))

def selectSlotBranchless (validOverride candidateSlot activeSlot : UInt8) : UInt8 :=
  (validOverride &&& candidateSlot) ||| ((1 - validOverride) &&& activeSlot)

/-! ## Policies -/

structure UpstreamHeaderInput where
  name : Text
  value : Text

structure RuleInput where
  id : Text
  priority : UInt32
  origin : Text
  pathPrefix : Text
  activeSlot : Option Text
  blueUpstream : Text
  greenUpstream : Text
  switchHeader : Option Text
  previewCookie : Option Text
  previewQueryParam : Option Text
  previewSecret : Option Text
  previewSecretHeader : Option Text
  allowedCidrs : List Text
  blueUpstreamHeaders : List UpstreamHeaderInput
  greenUpstreamHeaders : List UpstreamHeaderInput

structure Snapshot where
  schemaVersion : UInt32
  generation : UInt64
  rules : List RuleInput
  activeSlot : Option Text
  blueUpstream : Option Text
  greenUpstream : Option Text
  switchHeader : Option Text
  previewCookie : Option Text
  previewQueryParam : Option Text
  previewSecret : Option Text
  previewSecretHeader : Option Text
  allowedCidrs : List Text
  blueUpstreamHeaders : List UpstreamHeaderInput
  greenUpstreamHeaders : List UpstreamHeaderInput

structure SlotUpstreamMeta where
  upstream : Bytes
  headers : HeaderList

structure CompiledRule where
  id : Bytes
  originBytes : Bytes
  pathPrefix : Bytes
  activeSlot : UInt8
  blue : SlotUpstreamMeta
  green : SlotUpstreamMeta
  switchHeader : Option Bytes
  previewCookie : Option Bytes
  previewQueryParam : Option Bytes
  secretHeader : Option Bytes
  secretHash : UInt64
  secretBytes : Option Bytes
  allowedCidrs : List (Cidr 32)

def CompiledRule.sheet (rule : CompiledRule) (slot : UInt8) : SlotUpstreamMeta :=
  if slot = slotBlue then rule.blue else rule.green

structure BlueGreenEngine where
  generation : UInt64
  rules : List CompiledRule

/-! ## Compilation -/

def isOriginByte (byte : UInt8) : Bool := isAsciiAlphanumeric byte || byte = 46 || byte = 45

def originValid (origin : Bytes) : Bool :=
  if origin = ascii "*" then true
  else
    match stripPrefix? (ascii "*.") origin with
    | some sub => !sub.isEmpty && sub.all isOriginByte
    | none => origin.all isOriginByte

def isTokenByte (byte : UInt8) : Bool :=
  isAsciiAlphanumeric byte || byte = 45 || byte = 95 || byte = 46

def isValidUpstream (upstream : Bytes) : Bool :=
  !upstream.isEmpty && upstream.length ≤ 128 && upstream.all isTokenByte

def isValidTokenKey (key : Bytes) : Bool :=
  !key.isEmpty && key.length ≤ 64 && key.all isTokenByte

def hasBreak : Bool := bytes.any fun byte => byte = 13 || byte = 10 || byte = 0

def compileKey (key : Option Text) : Except Error (Option Bytes) :=
  let key := (key.map fun s => toAsciiLowercase (trim s.bytes)).filter fun s => !s.isEmpty
  if key.all isValidTokenKey then .ok key else .error .invalidPolicy

def compileActiveSlot : Option Text → Except Error UInt8
  | none => .ok slotBlue
  | some slot => ((slotFromStrIgnoreCase slot.bytes).map .ok).getD (.error .invalidPolicy)

def fnvOffsetBasis : UInt64 := 0xcbf29ce484222325

def fnvPrime : UInt64 := 0x100000001b3

def fnv1a64 : UInt64 :=
  bytes.foldl (fun hash byte => (hash ^^^ byte.toUInt64) * fnvPrime) fnvOffsetBasis

/-- The hash and the bytes of a secret that is not blank; the hash is not zero. -/
def compileSecret : Option Text → Except Error (UInt64 × Option Bytes)
  | none => .ok (0, none)
  | some secret =>
    let trimmed := trim secret.bytes
    if 256 < trimmed.length || hasBreak trimmed then .error .invalidPolicy
    else if trimmed.isEmpty then .ok (0, none)
    else
      let hash := fnv1a64 trimmed
      .ok (if hash = 0 then 1 else hash, some trimmed)

def compileCidr (cidr : Text) : Except Error (Cidr 32) :=
  ((parseIpv4Cidr cidr.bytes).map .ok).getD (.error .invalidPolicy)

def compileHeader (header : UpstreamHeaderInput) : Except Error (Bytes × Bytes) :=
  let name := trim header.name.bytes
  let value := trim header.value.bytes
  if !isValidTokenKey name || 256 < value.length || hasBreak value then .error .invalidPolicy
  else .ok (name, value)

def invalidShape (rule : RuleInput) : Bool :=
  !originValid rule.origin.bytes || rule.origin.bytes.isEmpty || 253 < rule.origin.bytes.length ||
    !(ascii "/").isPrefixOf rule.pathPrefix.bytes ||
    maxPathBytes < rule.pathPrefix.bytes.length ||
    !isValidUpstream (trim rule.blueUpstream.bytes) ||
    !isValidUpstream (trim rule.greenUpstream.bytes) ||
    trim rule.blueUpstream.bytes = trim rule.greenUpstream.bytes ||
    16 < rule.blueUpstreamHeaders.length || 16 < rule.greenUpstreamHeaders.length

def compileRule (rule : RuleInput) : Except Error CompiledRule := do
  refuseIf (invalidShape rule) .invalidPolicy
  let activeSlot ← compileActiveSlot rule.activeSlot
  let switchHeader ← compileKey rule.switchHeader
  let previewCookie ← compileKey rule.previewCookie
  let previewQueryParam ← compileKey rule.previewQueryParam
  let secretHeader ← compileKey rule.previewSecretHeader
  let secret ← compileSecret rule.previewSecret
  refuseIf (32 < rule.allowedCidrs.length) .invalidPolicy
  let allowedCidrs ← rule.allowedCidrs.mapM compileCidr
  let blueHeaders ← rule.blueUpstreamHeaders.mapM compileHeader
  let greenHeaders ← rule.greenUpstreamHeaders.mapM compileHeader
  .ok
    { id := rule.id.bytes
      originBytes := rule.origin.bytes
      pathPrefix := rule.pathPrefix.bytes
      activeSlot
      blue := ⟨trim rule.blueUpstream.bytes, blueHeaders⟩
      green := ⟨trim rule.greenUpstream.bytes, greenHeaders⟩
      switchHeader
      previewCookie
      previewQueryParam
      secretHeader
      secretHash := secret.1
      secretBytes := secret.2
      allowedCidrs }

/-- A smaller priority comes first, then a more specific host, then a longer path, then a smaller
id. -/
def ruleOrder (rule : RuleInput) : Nat ×ₗ Nat ×ₗ Natᵒᵈ ×ₗ List Nat :=
  toLex (rule.priority.toNat, toLex (hostSpecificity rule.origin.bytes,
    toLex (OrderDual.toDual rule.pathPrefix.bytes.length, rule.id.bytes.map UInt8.toNat)))

def Snapshot.effectiveRules (snapshot : Snapshot) : Option (List RuleInput) :=
  if snapshot.rules.isEmpty then do
    let blueUpstream ← snapshot.blueUpstream
    let greenUpstream ← snapshot.greenUpstream
    some
      [{ id := .ofAscii "default"
         priority := 100
         origin := .ofAscii "*"
         pathPrefix := .ofAscii "/"
         activeSlot := snapshot.activeSlot
         blueUpstream
         greenUpstream
         switchHeader := snapshot.switchHeader
         previewCookie := snapshot.previewCookie
         previewQueryParam := snapshot.previewQueryParam
         previewSecret := snapshot.previewSecret
         previewSecretHeader := snapshot.previewSecretHeader
         allowedCidrs := snapshot.allowedCidrs
         blueUpstreamHeaders := snapshot.blueUpstreamHeaders
         greenUpstreamHeaders := snapshot.greenUpstreamHeaders }]
  else some snapshot.rules

def maxBlueGreenRules : Nat := 64

def maxBlueGreenPolicyBytes : Nat := 131072

def compileSnapshot (snapshot : Snapshot) : Except Error BlueGreenEngine := do
  refuseIf (snapshot.schemaVersion ≠ 1) .invalidPolicy
  match snapshot.effectiveRules with
  | none => .error .invalidPolicy
  | some inputs => do
      refuseIf (maxBlueGreenRules < inputs.length) .invalidPolicy
      refuseIf (!checkIds [] (inputs.map fun rule => rule.id.bytes)) .invalidPolicy
      let rules ← (sortByKey ruleOrder inputs).mapM compileRule
      .ok ⟨snapshot.generation, rules⟩

/-- The parser of the policy is given by what it answers. -/
def BlueGreenEngine.fromSnapshot (parseSnapshot : Bytes → Option Snapshot) (bytes : Bytes) :
    Except Error BlueGreenEngine :=
  if bytes.isEmpty || maxBlueGreenPolicyBytes < bytes.length then .error .invalidPolicy
  else
    match parseSnapshot bytes with
    | none => .error .invalidPolicy
    | some snapshot => compileSnapshot snapshot

/-! ## Secrets -/

def constantTimeEq (a b : Bytes) : Bool :=
  a.length = b.length && (a.zip b).foldl (fun diff (x, y) => diff ||| (x ^^^ y)) 0 = 0

def cookieValue (targetName segment : Bytes) : Option Bytes :=
  let trimmed := trimAscii segment
  if targetName.length < trimmed.length && trimmed[targetName.length]? = some 61 &&
      eqIgnoreAsciiCase (trimmed.take targetName.length) targetName then
    let val := trimAscii (trimmed.drop (targetName.length + 1))
    if 2 ≤ val.length ∧ val.head? = some 34 ∧ val.getLast? = some 34 then
      some ((val.drop 1).dropLast)
    else some val
  else none

def extractCookieValue (cookieHeader targetName : Bytes) : Option Bytes :=
  if targetName.isEmpty then none
  else (cookieHeader.splitOn 59).findSome? (cookieValue targetName)

def queryValue (paramName param : Bytes) : Option Bytes :=
  if paramName.length < param.length && param[paramName.length]? = some 61 &&
      eqIgnoreAsciiCase (param.take paramName.length) paramName then
    some (trimAscii (param.drop (paramName.length + 1)))
  else none

def extractQueryValue (query paramName : Bytes) : Option Bytes :=
  if paramName.isEmpty then none
  else (((stripPrefix? (ascii "?") query).getD query).splitOn 38).findSome? (queryValue paramName)

def checkCandidate (secretHash : UInt64) (expected candidate : Bytes) : Bool :=
  let trimmed := trimAscii candidate
  !trimmed.isEmpty && fnv1a64 trimmed = secretHash && constantTimeEq trimmed expected

/-- What the request gives for a secret: the header, else the cookie, else the parameter. -/
def secretPlaces (secretHeader : Option Bytes) (query : Bytes) (headerLookup : HeaderLookup) :
    List (Option Bytes) :=
  let secHdr := secretHeader.getD (ascii "x-preview-secret")
  [headerLookup secHdr,
    (headerLookup (ascii "cookie")).bind fun cookieHdr =>
      (extractCookieValue cookieHdr (ascii "preview_secret")).or
        (extractCookieValue cookieHdr secHdr),
    (extractQueryValue query (ascii "preview_secret")).or (extractQueryValue query secHdr)]

def verifyPreviewSecret (secretHash : UInt64) (secretBytes secretHeader : Option Bytes)
    (query : Bytes) (headerLookup : HeaderLookup) : UInt8 :=
  if secretHash = 0 then 1
  else
    match secretBytes.filter fun b => !b.isEmpty with
    | none => 1
    | some expected =>
      if (secretPlaces secretHeader query headerLookup).any fun place =>
        place.any (checkCandidate secretHash expected) then 1 else 0

def verifyCidrBoundary (allowedCidrs : List (Cidr 32)) (clientIp : Bytes) : UInt8 :=
  if allowedCidrs.isEmpty then 1
  else if (parseIpv4U32 clientIp).any fun ip => allowedCidrs.any fun cidr => cidr.covers ip then 1
  else 0

/-! ## Evaluation -/

structure EvalRequest where
  origin : Bytes
  path : Bytes
  clientIp : Bytes
  query : Bytes

structure BlueGreenDecision where
  matched : Bool
  ruleId : Bytes
  upstream : Bytes
  activeSlot : Bytes
  isHeaderOverride : Bool
  upstreamHeaders : HeaderList
  headersArc : Option HeaderList
  deriving DecidableEq

namespace BlueGreenDecision

def unmatched : BlueGreenDecision := ⟨false, [], [], [], false, [], none⟩

def ofMatch (ruleId upstream activeSlot : Bytes) (isHeaderOverride : Bool)
    (headers : HeaderList) : BlueGreenDecision :=
  ⟨true, ruleId, upstream, activeSlot, isHeaderOverride, headers,
    if headers.isEmpty then none else some headers⟩

end BlueGreenDecision

def pathMatches (pathPrefix path : Bytes) : Bool :=
  pathPrefix.isPrefixOf path &&
    ((ascii "/").isSuffixOf pathPrefix || path.length = pathPrefix.length ||
      path[pathPrefix.length]? = some slash)

def BlueGreenEngine.selectRule (engine : BlueGreenEngine) (origin path : Bytes) :
    Option CompiledRule :=
  if origin.isEmpty || 253 < origin.length || path.isEmpty || maxPathBytes < path.length ||
      !(ascii "/").isPrefixOf path then none
  else
    engine.rules.find? fun rule =>
      (rule.originBytes = ascii "*" || hostMatches rule.originBytes origin) &&
        pathMatches rule.pathPrefix path

def CompiledRule.candidateSlot (rule : CompiledRule) (req : EvalRequest)
    (headerLookup : HeaderLookup) : Option UInt8 :=
  let header := (rule.switchHeader.bind headerLookup).bind parseSlotSwar
  let cookie := (rule.previewCookie.bind fun name =>
    (headerLookup (ascii "cookie")).bind fun cookieHdr =>
      extractCookieValue cookieHdr name).bind parseSlotSwar
  let param := if req.query.isEmpty then none
    else (rule.previewQueryParam.bind (extractQueryValue req.query)).bind parseSlotSwar
  (header.or cookie).or param

def CompiledRule.validOverride (rule : CompiledRule) (req : EvalRequest)
    (headerLookup : HeaderLookup) : UInt8 :=
  let hasOverride := (rule.candidateSlot req headerLookup).isSome
  let secretOk := if hasOverride then
    verifyPreviewSecret rule.secretHash rule.secretBytes rule.secretHeader req.query headerLookup
    else 1
  let cidrOk := if hasOverride then verifyCidrBoundary rule.allowedCidrs req.clientIp else 1
  (if hasOverride then 1 else 0) &&& secretOk &&& cidrOk

def CompiledRule.decide (rule : CompiledRule) (req : EvalRequest) (headerLookup : HeaderLookup) :
    BlueGreenDecision :=
  let candidateSlot := (rule.candidateSlot req headerLookup).getD 0
  let validOverride := rule.validOverride req headerLookup
  let chosenSlot := selectSlotBranchless validOverride candidateSlot rule.activeSlot
  let entry := rule.sheet chosenSlot
  .ofMatch rule.id entry.upstream (slotName chosenSlot) (validOverride ≠ 0) entry.headers

def BlueGreenEngine.evaluate (engine : BlueGreenEngine) (req : EvalRequest)
    (headerLookup : HeaderLookup) : BlueGreenDecision :=
  match engine.selectRule req.origin req.path with
  | none => .unmatched
  | some rule => rule.decide req headerLookup

end AuroraGateway.BlueGreen
