import AuroraGateway.Engine.Policy
import AuroraGateway.Engine.RadixRefinement
import AuroraGateway.Foundation.Results

/-!
# Paths that need no token

The paths that an origin excludes are compiled into one of four plans.  A plan
compares words of eight bytes before it compares bytes, and rejects early the
paths that lack the common prefix of all entries.  Slices and copies of the
source are checked: `none` stands for a lookup that panics.
-/

namespace AuroraGateway.Jwt

open Engine
open Engine.PathRadixTree (Covers isPathBoundaryMatch isPathBoundaryMatch_iff)
open Foundation

def maxExcludePathsPerOrigin : Nat := 32

def containsDoubleSlash : Bytes → Bool
  | a :: b :: rest => (a == slash && b == slash) || containsDoubleSlash (b :: rest)
  | _ => false

def isPathPrefixByte (byte : UInt8) : Bool :=
  32 < byte && byte < 0x7F && !(ascii "%?#\\*").contains byte

variable (endian : Endian) (entry : ExcludeEntry) (path : Bytes)

def validPathPrefix : Bool :=
  path.head? == some slash && path.length ≤ maxPathBytes && !containsDoubleSlash path &&
    !(path.splitOn slash).any (fun segment => segment == ascii "." || segment == ascii "..") &&
    path.all isPathPrefixByte

/-! ## Checked reads -/

/-- `&bytes[..stop]`. -/
def sliceTo (bytes : Bytes) (stop : Nat) : Option Bytes :=
  if stop ≤ bytes.length then some (bytes.take stop) else none

/-- `&bytes[start..stop]`. -/
def sliceRange (bytes : Bytes) (start stop : Nat) : Option Bytes :=
  if start ≤ stop ∧ stop ≤ bytes.length then some ((bytes.take stop).drop start) else none

/-- Copy a slice to a buffer of eight bytes and read the buffer as a word; slices of
another length cannot be copied. -/
def readWord (chunk : Bytes) : Option Nat :=
  if chunk.length = 8 then some (wordOfBytes endian chunk) else none

theorem sliceTo_of_le {bytes : Bytes} {stop : Nat} (h : stop ≤ bytes.length) :
    sliceTo bytes stop = some (bytes.take stop) :=
  if_pos h

theorem sliceRange_of_le {bytes : Bytes} {start stop : Nat} (hstart : start ≤ stop)
    (hstop : stop ≤ bytes.length) :
    sliceRange bytes start stop = some ((bytes.take stop).drop start) :=
  if_pos ⟨hstart, hstop⟩

theorem readWord_of_length {chunk : Bytes} (h : chunk.length = 8) :
    readWord endian chunk = some (wordOfBytes endian chunk) :=
  if_pos h

theorem readWord_of_length_ne {chunk : Bytes} (h : chunk.length ≠ 8) :
    readWord endian chunk = none :=
  if_neg h

/-! ## The guard of the common prefix -/

structure CommonPrefixGuard where
  expected : Nat
  mask : Nat
  len : Nat
  deriving DecidableEq

def padded (bytes : Bytes) : Bytes := copyFromSlice (List.replicate 8 0) 0 bytes

def CommonPrefixGuard.new (common : Bytes) : Option CommonPrefixGuard :=
  if common.isEmpty then none
  else
    let len := min common.length 8
    let expected := wordOfBytes endian (padded (common.take len))
    let mask := wordOfBytes endian (padded (List.replicate len 0xFF))
    some ⟨expected &&& mask, mask, len⟩

def CommonPrefixGuard.matches (guard : CommonPrefixGuard) (path : Bytes) : Option Bool :=
  if path.length < guard.len then some false
  else if 8 ≤ path.length then do
    let head ← readWord endian (← sliceTo path 8)
    some ((head &&& guard.mask) == guard.expected)
  else do
    let head ← readWord endian (← sliceTo path guard.len)
    some ((head &&& guard.mask) == guard.expected)

/-! ## Entries -/

structure ExcludeEntry where
  raw : Bytes
  len : Nat
  isDir : Bool
  headU64 : Option Nat
  deriving DecidableEq

def ExcludeEntry.new : ExcludeEntry where
  raw := path
  len := path.length
  isDir := (ascii "/").isSuffixOf path
  headU64 := if 8 ≤ path.length then some (wordOfBytes endian (path.take 8)) else none

def ExcludeEntry.headMismatch : Option Bool :=
  match entry.headU64 with
  | some expected => do
      let head ← readWord endian (← sliceTo path 8)
      some (head != expected)
  | none => some false

def ExcludeEntry.boundaryMismatch : Bool :=
  !entry.isDir && path[entry.len]?.any fun b => b != slash

def ExcludeEntry.tailMatches : Option Bool :=
  if 8 < entry.len then do
    let tail ← sliceRange path 8 entry.len
    let raw ← sliceRange entry.raw 8 entry.len
    some (tail == raw)
  else if entry.len = 8 then some true
  else do
    let start ← sliceTo path entry.len
    let raw ← sliceTo entry.raw entry.len
    some (start == raw)

def ExcludeEntry.matches : Option Bool :=
  if path.length < entry.len then some false
  else do
    let headMismatch ← entry.headMismatch endian path
    if headMismatch || entry.boundaryMismatch path then some false
    else entry.tailMatches path

/-! ## Plans -/

inductive ExcludeMatcher where
  | empty
  | single (entry : ExcludeEntry)
  | inline4 (commonPrefix : Option CommonPrefixGuard) (entries : Fin 4 → Option ExcludeEntry)
      (count : Nat)
  | multi (commonPrefix : Option CommonPrefixGuard) (minLen : Nat) (entries : List ExcludeEntry)

/-- The loop of `compute_lcp`; it stops as soon as nothing is common. -/
def computeLcpFrom (lcp : Bytes) : List Bytes → Bytes
  | [] => lcp
  | p :: paths =>
    let common := lcp.take (commonPrefixScalar lcp p)
    if common.isEmpty then common else computeLcpFrom common paths

def computeLcp : List Bytes → Bytes
  | [] => []
  | first :: paths => computeLcpFrom first paths

def minLength (paths : List Bytes) : Nat := (paths.map List.length).min?.getD 0

open CommonPrefixGuard

def ExcludeMatcher.compile (rawPaths : List Text) : Except Error ExcludeMatcher :=
  if rawPaths.isEmpty then .ok .empty
  else if maxExcludePathsPerOrigin < rawPaths.length then .error .invalidPolicy
  else if !rawPaths.all (fun p => validPathPrefix p.bytes) then .error .invalidPolicy
  else
    let bytePaths := rawPaths.map Text.bytes
    let commonPrefix := new endian (computeLcp bytePaths)
    match bytePaths with
    | [path] => .ok (.single (.new endian path))
    | bytePaths =>
      if bytePaths.length ≤ 4 then
        .ok (.inline4 commonPrefix (fun i => bytePaths[i.val]?.map (.new endian))
          bytePaths.length)
      else
        .ok (.multi commonPrefix (minLength bytePaths) (bytePaths.map (.new endian)))

def guardMatches (commonPrefix : Option CommonPrefixGuard) (path : Bytes) : Option Bool :=
  match commonPrefix with
  | some guard => guard.matches endian path
  | none => some true

def tryEntry (tried : Bool) (entry : Option ExcludeEntry) (path : Bytes) (rest : Option Bool) :
    Option Bool :=
  match entry with
  | some entry =>
    if tried then do
      if ← entry.matches endian path then some true else rest
    else rest
  | none => rest

def ExcludeMatcher.matches (matcher : ExcludeMatcher) (path : Bytes) : Option Bool :=
  match matcher with
  | .empty => some false
  | .single entry => entry.matches endian path
  | .inline4 commonPrefix entries count => do
      if ← guardMatches endian commonPrefix path then
        tryEntry endian true (entries 0) path <|
        tryEntry endian (1 < count) (entries 1) path <|
        tryEntry endian (2 < count) (entries 2) path <|
        tryEntry endian (3 < count) (entries 3) path (some false)
      else some false
  | .multi commonPrefix minLen entries =>
    if path.length < minLen then some false
    else do
      if ← guardMatches endian commonPrefix path then
        entries.anyM fun entry => entry.matches endian path
      else some false

/-! ## An entry matches what it covers -/

section Entry

variable {p path : Bytes}

theorem isPrefixOf_eq_take_beq : p.isPrefixOf path = (path.take p.length == p) := by
  rw [Bool.eq_iff_iff, List.isPrefixOf_iff_prefix, beq_iff_eq, List.prefix_iff_eq_take]
  exact eq_comm

theorem take_beq_split (hle : 8 ≤ p.length) :
    (path.take p.length == p) =
      (path.take 8 == p.take 8 && (path.take p.length).drop 8 == p.drop 8) := by
  rw [Bool.eq_iff_iff, Bool.and_eq_true, beq_iff_eq, beq_iff_eq, beq_iff_eq]
  constructor
  · intro h
    have htake : path.take 8 = (path.take p.length).take 8 := by
      rw [List.take_take, min_eq_left hle]
    rw [htake, h]
    exact ⟨rfl, rfl⟩
  · rintro ⟨hhead, htail⟩
    rw [← List.take_append_drop 8 (path.take p.length), List.take_take, min_eq_left hle, hhead,
      htail, List.take_append_drop]

variable (endian : Endian)

section

variable (hlen : p.length ≤ path.length)
include hlen

theorem headMismatch_new : (ExcludeEntry.new endian p).headMismatch endian path =
      some (decide (8 ≤ p.length) && path.take 8 != p.take 8) := by
  by_cases hlong : 8 ≤ p.length
  · have hpath : (path.take 8).length = 8 := by
      rw [List.length_take]
      omega
    have hp : (p.take 8).length = 8 := by
      rw [List.length_take]
      omega
    have hword : (wordOfBytes endian (path.take 8) != wordOfBytes endian (p.take 8)) =
        (path.take 8 != p.take 8) := by
      rw [Bool.eq_iff_iff, bne_iff_ne, bne_iff_ne, ne_eq,
        wordOfBytes_inj endian (hpath.trans hp.symm)]
    simp only [ExcludeEntry.headMismatch, ExcludeEntry.new, if_pos hlong,
      sliceTo_of_le (hlong.trans hlen), readWord_of_length endian hpath, Option.bind_eq_bind,
      Option.bind_some, hword, decide_eq_true hlong, Bool.true_and]
  · simp [ExcludeEntry.headMismatch, ExcludeEntry.new, hlong]

theorem boundaryMismatch_new : (ExcludeEntry.new endian p).boundaryMismatch path =
      !((ascii "/").isSuffixOf p || path.length == p.length || path[p.length]? == some slash)
    := by
  have hlast : (path[p.length]?.any fun b => b != slash) =
      !(path.length == p.length || path[p.length]? == some slash) := by
    cases hbyte : path[p.length]? with
    | none =>
      have hsame : path.length = p.length :=
        le_antisymm (List.getElem?_eq_none_iff.mp hbyte) hlen
      simp [hsame]
    | some b =>
      have hlonger : path.length ≠ p.length := by
        have := (List.getElem?_eq_some_iff.mp hbyte).1
        omega
      simp [hlonger, bne]
  rw [Bool.or_assoc, Bool.not_or, ← hlast]
  rfl

theorem tailMatches_new : (ExcludeEntry.new endian p).tailMatches path =
      some (if 8 ≤ p.length then (path.take p.length).drop 8 == p.drop 8
        else path.take p.length == p) := by
  unfold ExcludeEntry.tailMatches ExcludeEntry.new
  dsimp only
  by_cases hlong : 8 < p.length
  · rw [if_pos hlong, if_pos hlong.le, sliceRange_of_le hlong.le hlen,
      sliceRange_of_le hlong.le le_rfl, List.take_length]
    rfl
  · rw [if_neg hlong]
    by_cases height : p.length = 8
    · have hnone : (path.take p.length).drop 8 = p.drop 8 := by
        rw [List.drop_of_length_le] <;> simp [height]
      rw [if_pos height, if_pos height.ge, hnone, beq_self_eq_true]
    · rw [if_neg height, if_neg (by omega), sliceTo_of_le hlen, sliceTo_of_le le_rfl,
        List.take_length]
      rfl

end

theorem matches_new (p path : Bytes) :
    (ExcludeEntry.new endian p).matches endian path = some (isPathBoundaryMatch p path) := by
  rw [ExcludeEntry.matches, show (ExcludeEntry.new endian p).len = p.length from rfl]
  by_cases hshort : path.length < p.length
  · have hnot : p.isPrefixOf path = false := by
      rw [Bool.eq_false_iff, ne_eq, List.isPrefixOf_iff_prefix]
      intro hprefix
      have := hprefix.length_le
      omega
    rw [if_pos hshort, isPathBoundaryMatch, hnot, Bool.false_and]
  · rw [if_neg hshort, headMismatch_new endian (by omega), boundaryMismatch_new endian (by omega),
      tailMatches_new endian (by omega), isPathBoundaryMatch, isPrefixOf_eq_take_beq]
    generalize ((ascii "/").isSuffixOf p || path.length == p.length ||
      path[p.length]? == some slash) = boundary
    by_cases hlong : 8 ≤ p.length
    · rw [take_beq_split hlong, bne]
      cases path.take 8 == p.take 8 <;> cases boundary <;> simp [hlong]
    · cases boundary <;> simp [hlong]

end Entry

/-! ## The guard rejects only what no entry covers -/

section Guard

variable {common path : Bytes}

theorem padded_eq (bytes : Bytes) :
    padded bytes = bytes ++ List.replicate (8 - bytes.length) 0 := by
  rw [padded, copyFromSlice, List.take_zero, List.nil_append, List.drop_replicate,
    Nat.zero_add]

theorem padded_inj {a b : Bytes} (hlen : a.length = b.length) :
    padded a = padded b ↔ a = b := by
  constructor
  · intro heq
    exact (List.append_inj heq hlen).1
  · intro heq
    rw [heq]

theorem zipWith_and_replicate (chunk : Bytes) (mask : UInt8) :
    List.zipWith (· &&& ·) chunk (List.replicate chunk.length mask) =
      chunk.map (· &&& mask) := by
  induction chunk with
  | nil => rfl
  | cons x chunk ih => simp [List.replicate_succ, ih]

theorem zipWith_mask {chunk : Bytes} (hchunk : chunk.length = 8) {len : Nat} (hlen : len ≤ 8) :
    List.zipWith (· &&& ·) chunk (padded (List.replicate len 0xFF)) =
      padded (chunk.take len) := by
  have htake : (chunk.take len).length = len := by
    rw [List.length_take]
    omega
  have hdrop : (chunk.drop len).length = 8 - len := by
    rw [List.length_drop, hchunk]
  have hkeep : (chunk.take len).map (· &&& (0xFF : UInt8)) = chunk.take len := by
    refine (List.map_congr_left fun x _ => ?_).trans (List.map_id _)
    exact UInt8.and_neg_one
  have hclear : (chunk.drop len).map (· &&& (0 : UInt8)) = List.replicate (8 - len) 0 := by
    simp only [UInt8.and_zero, List.map_const', hdrop]
  calc List.zipWith (· &&& ·) chunk (padded (List.replicate len 0xFF))
      = List.zipWith (· &&& ·) (chunk.take len ++ chunk.drop len)
          (List.replicate len 0xFF ++ List.replicate (8 - len) 0) := by
        rw [List.take_append_drop, padded_eq, List.length_replicate]
    _ = List.zipWith (· &&& ·) (chunk.take len)
            (List.replicate (chunk.take len).length 0xFF) ++
          List.zipWith (· &&& ·) (chunk.drop len)
            (List.replicate (chunk.drop len).length 0) := by
        rw [List.zipWith_append (by simp [htake]), htake, hdrop]
    _ = padded (chunk.take len) := by
        rw [zipWith_and_replicate, zipWith_and_replicate, hkeep, hclear, padded_eq, htake]

theorem masked_head_beq (endian : Endian) {chunk : Bytes} (hchunk : chunk.length = 8) :
    ((wordOfBytes endian chunk &&&
        wordOfBytes endian (padded (List.replicate (min common.length 8) 0xFF))) ==
      (wordOfBytes endian (padded (common.take (min common.length 8))) &&&
        wordOfBytes endian (padded (List.replicate (min common.length 8) 0xFF)))) =
      (common.take 8).isPrefixOf chunk := by
  have hpad : ∀ bytes : Bytes, bytes.length ≤ 8 → (padded bytes).length = 8 := by
    intro bytes hbytes
    rw [padded_eq]
    simp [hbytes]
  have hmin : min common.length 8 ≤ 8 := min_le_right _ _
  have hlen : (common.take (min common.length 8)).length = min common.length 8 := by
    rw [List.length_take]
    omega
  have hchunkLen : (chunk.take (min common.length 8)).length = min common.length 8 := by
    rw [List.length_take]
    omega
  have htake : common.take (min common.length 8) = common.take 8 := by
    rw [Nat.min_comm, ← List.take_eq_take_min]
  have hmask := hpad (List.replicate (min common.length 8) 0xFF) (by simp)
  have hexpected := hpad (common.take (min common.length 8)) (by omega)
  have hself : (padded (common.take (min common.length 8))).take (min common.length 8) =
      common.take (min common.length 8) := by
    rw [padded_eq, List.take_append_of_le_length hlen.ge,
      List.take_of_length_le hlen.le]
  rw [wordOfBytes_and endian (hchunk.trans hmask.symm),
    wordOfBytes_and endian (hexpected.trans hmask.symm), zipWith_mask hchunk hmin,
    zipWith_mask hexpected hmin, hself, Bool.eq_iff_iff, beq_iff_eq,
    wordOfBytes_inj endian ((hpad _ (by omega)).trans (hpad _ (by omega)).symm),
    padded_inj (hchunkLen.trans hlen.symm), isPrefixOf_eq_take_beq, beq_iff_eq,
    List.length_take, Nat.min_comm 8, htake]

theorem guardMatches_new (endian : Endian) (hcommon : common ≠ []) (path : Bytes) :
    guardMatches endian (new endian common) path =
      if path.length < (common.take 8).length ∨ 8 ≤ path.length then
        some ((common.take 8).isPrefixOf path)
      else none := by
  have hsome : new endian common =
      some ⟨wordOfBytes endian (padded (common.take (min common.length 8))) &&&
          wordOfBytes endian (padded (List.replicate (min common.length 8) 0xFF)),
        wordOfBytes endian (padded (List.replicate (min common.length 8) 0xFF)),
        min common.length 8⟩ :=
    if_neg (by simpa using hcommon)
  have hlen : (common.take 8).length = min common.length 8 := by
    rw [List.length_take, Nat.min_comm]
  rw [hsome, guardMatches, CommonPrefixGuard.matches, hlen]
  by_cases hshort : path.length < min common.length 8
  · have hnot : (common.take 8).isPrefixOf path = false := by
      rw [Bool.eq_false_iff, ne_eq, List.isPrefixOf_iff_prefix]
      intro hprefix
      have := hprefix.length_le
      omega
    rw [if_pos hshort, if_pos (.inl hshort), hnot]
  · rw [if_neg hshort]
    by_cases hword : 8 ≤ path.length
    · have hchunk : (path.take 8).length = 8 := by
        rw [List.length_take]
        omega
      have hhead : (common.take 8).isPrefixOf (path.take 8) =
          (common.take 8).isPrefixOf path := by
        rw [isPrefixOf_eq_take_beq, isPrefixOf_eq_take_beq, List.take_take, hlen,
          min_eq_left (min_le_right _ _)]
      simp only [if_pos hword, if_pos (Or.inr hword), sliceTo_of_le hword,
        readWord_of_length endian hchunk, Option.bind_eq_bind, Option.bind_some,
        masked_head_beq endian hchunk, hhead]
    · have hcopy : (path.take (min common.length 8)).length ≠ 8 := by
        rw [List.length_take]
        omega
      simp [hshort, hword, sliceTo_of_le (Nat.le_of_not_lt hshort),
        readWord_of_length_ne endian hcopy]

end Guard

/-! ## The common prefix -/

theorem computeLcpFrom_prefix (lcp : Bytes) (paths : List Bytes) :
    computeLcpFrom lcp paths <+: lcp ∧ ∀ p ∈ paths, computeLcpFrom lcp paths <+: p := by
  induction paths generalizing lcp with
  | nil => simp [computeLcpFrom]
  | cons p paths ih =>
    have hleft : lcp.take (commonPrefixScalar lcp p) <+: lcp := List.take_prefix _ _
    have hright : lcp.take (commonPrefixScalar lcp p) <+: p := by
      rw [take_commonPrefixScalar]
      exact List.take_prefix _ _
    unfold computeLcpFrom
    dsimp only
    split
    · rename_i hempty
      rw [List.isEmpty_iff.mp hempty]
      exact ⟨List.nil_prefix, fun q _ => List.nil_prefix⟩
    · obtain ⟨hlcp, hrest⟩ := ih (lcp.take (commonPrefixScalar lcp p))
      refine ⟨hlcp.trans hleft, fun q hq => ?_⟩
      rcases List.mem_cons.mp hq with rfl | hmem
      · exact hlcp.trans hright
      · exact hrest q hmem

variable {paths : List Bytes}

theorem computeLcp_isPrefix {p : Bytes} (hp : p ∈ paths) :
    computeLcp paths <+: p := by
  cases paths with
  | nil => simp at hp
  | cons first paths =>
    obtain ⟨hfirst, hrest⟩ := computeLcpFrom_prefix first paths
    rcases List.mem_cons.mp hp with rfl | hmem
    · exact hfirst
    · exact hrest p hmem

theorem computeLcpFrom_head {lcp : Bytes} (hlcp : lcp.head? = some slash)
    (hpaths : ∀ p ∈ paths, p.head? = some slash) :
    (computeLcpFrom lcp paths).head? = some slash := by
  induction paths generalizing lcp with
  | nil => exact hlcp
  | cons p paths ih =>
    obtain ⟨lcpRest, rfl⟩ := List.head?_eq_some_iff.mp hlcp
    obtain ⟨pRest, rfl⟩ := List.head?_eq_some_iff.mp (hpaths p List.mem_cons_self)
    exact ih rfl fun q hq => hpaths q (List.mem_cons_of_mem _ hq)

theorem computeLcp_ne_nil (hne : paths ≠ [])
    (hpaths : ∀ p ∈ paths, p.head? = some slash) : computeLcp paths ≠ [] := by
  cases paths with
  | nil => exact absurd rfl hne
  | cons first paths =>
    have hhead := computeLcpFrom_head (hpaths first List.mem_cons_self)
      fun p hp => hpaths p (List.mem_cons_of_mem _ hp)
    intro hnil
    rw [computeLcp] at hnil
    simp [hnil] at hhead

/-! ## What a plan decides -/

/-- With more than one entry the guard is asked.  It cannot read a path that is shorter
than a word and not shorter than the common prefix; a plan of more than four entries has
rejected the paths shorter than every entry before. -/
def Overruns (paths : List Bytes) (path : Bytes) : Prop :=
  1 < paths.length ∧ path.length < 8 ∧ (computeLcp paths).length ≤ path.length ∧
    (4 < paths.length → minLength paths ≤ path.length)

instance (paths : List Bytes) (path : Bytes) : Decidable (Overruns paths path) :=
  inferInstanceAs (Decidable (_ ∧ _))

def coveredBy (paths : List Bytes) (path : Bytes) : Bool :=
  paths.any fun p => isPathBoundaryMatch p path

theorem coveredBy_eq_false {path : Bytes}
    (h : ∀ p ∈ paths, ¬p <+: path) : coveredBy paths path = false := by
  rw [coveredBy, List.any_eq_false]
  intro p hp hmatch
  exact h p hp (isPathBoundaryMatch_iff.mp hmatch).1

variable (endian : Endian)

theorem guardMatches_computeLcp (hlcp : computeLcp paths ≠ []) (path : Bytes) (rest : Option Bool)
    (hrest : rest = some (coveredBy paths path)) :
    (do
        if ← guardMatches endian (new endian (computeLcp paths)) path then rest
        else some false) =
      if path.length < 8 ∧ (computeLcp paths).length ≤ path.length then none
      else some (coveredBy paths path) := by
  rw [guardMatches_new endian hlcp]
  by_cases hread : path.length < ((computeLcp paths).take 8).length ∨ 8 ≤ path.length
  · rw [if_pos hread, if_neg (by rw [List.length_take] at hread; omega)]
    cases hguard : ((computeLcp paths).take 8).isPrefixOf path with
    | true => simp [hrest]
    | false =>
      have hnone : coveredBy paths path = false := by
        refine coveredBy_eq_false fun p hp hprefix => ?_
        have hlead : (computeLcp paths).take 8 <+: path :=
          ((List.take_prefix 8 _).trans (computeLcp_isPrefix hp)).trans hprefix
        rw [List.isPrefixOf_iff_prefix.mpr hlead] at hguard
        cases hguard
      simp [hnone]
  · rw [if_neg hread, if_pos (by rw [List.length_take] at hread; omega)]
    rfl

theorem anyM_matches (paths : List Bytes) (path : Bytes) :
    ((paths.map (ExcludeEntry.new endian)).anyM fun entry => entry.matches endian path) =
      some (coveredBy paths path) := by
  induction paths with
  | nil => rfl
  | cons p paths ih =>
    rw [List.map_cons, List.anyM_cons, matches_new, ih]
    cases hp : isPathBoundaryMatch p path <;> simp [coveredBy, hp]

theorem tryEntry_unrolled (hlen : paths.length ≤ 4) (path : Bytes) :
    (tryEntry endian true (paths[0]?.map (.new endian)) path <|
      tryEntry endian (1 < paths.length) (paths[1]?.map (.new endian)) path <|
      tryEntry endian (2 < paths.length) (paths[2]?.map (.new endian)) path <|
      tryEntry endian (3 < paths.length) (paths[3]?.map (.new endian)) path (some false)) =
      some (coveredBy paths path) := by
  have htry : ∀ (p : Bytes) (covered : Bool),
      tryEntry endian true (some (.new endian p)) path (some covered) =
        some (isPathBoundaryMatch p path || covered) := by
    intro p covered
    cases hp : isPathBoundaryMatch p path <;> simp [tryEntry, matches_new, hp]
  have hskip : ∀ (tried : Bool) (rest : Option Bool),
      tryEntry endian tried none path rest = rest := fun _ _ => rfl
  rcases paths with _ | ⟨a, _ | ⟨b, _ | ⟨c, _ | ⟨d, _ | ⟨e, rest⟩⟩⟩⟩⟩
  · rfl
  · simp [htry, hskip, coveredBy]
  · simp [htry, hskip, coveredBy]
  · simp [htry, hskip, coveredBy]
  · simp [htry, coveredBy]
  · simp only [List.length_cons] at hlen
    omega

theorem minLength_le {p : Bytes} (hp : p ∈ paths) :
    minLength paths ≤ p.length := by
  have hmem : p.length ∈ paths.map List.length := List.mem_map_of_mem hp
  cases hmin : (paths.map List.length).min? with
  | none => simp [List.min?_eq_none_iff.mp hmin] at hmem
  | some least =>
    rw [minLength, hmin]
    exact (List.min?_eq_some_iff.mp hmin).2 _ hmem

theorem matches_compile {paths : List Text} {matcher : ExcludeMatcher}
    (h : ExcludeMatcher.compile endian paths = .ok matcher) (path : Bytes) :
    matcher.matches endian path =
      if Overruns (paths.map Text.bytes) path then none
      else some (coveredBy (paths.map Text.bytes) path) := by
  unfold ExcludeMatcher.compile at h
  split at h
  · rename_i hempty
    rw [List.isEmpty_iff.mp hempty]
    cases h
    rfl
  rename_i hne
  obtain ⟨-, h⟩ := of_check h
  obtain ⟨hvalid, h⟩ := of_check h
  have hheads : ∀ p ∈ paths.map Text.bytes, p.head? = some slash := by
    intro p hp
    obtain ⟨text, htext, rfl⟩ := List.mem_map.mp hp
    simp only [Bool.not_eq_true', Bool.not_eq_false, List.all_eq_true] at hvalid
    have := hvalid text htext
    simp only [validPathPrefix, Bool.and_eq_true, beq_iff_eq] at this
    exact this.1.1.1.1
  have hlcp : computeLcp (paths.map Text.bytes) ≠ [] :=
    computeLcp_ne_nil (by simpa using hne) hheads
  generalize paths.map Text.bytes = bytePaths at h hlcp ⊢
  dsimp only at h
  split at h
  · cases h
    have hsingle : ∀ p : Bytes, ¬Overruns [p] path := fun p hover => by
      simp [Overruns] at hover
    rw [if_neg (hsingle _)]
    simp [ExcludeMatcher.matches, matches_new, coveredBy]
  rename_i hnotSingle
  have hmany : 1 < bytePaths.length := by
    rcases bytePaths with _ | ⟨a, _ | ⟨b, rest⟩⟩
    · exact absurd rfl hlcp
    · exact absurd rfl (hnotSingle a)
    · simp
  have hover (hread : bytePaths.length ≤ 4 ∨ ¬path.length < minLength bytePaths) :
      (path.length < 8 ∧ (computeLcp bytePaths).length ≤ path.length) ↔
        Overruns bytePaths path := by
    unfold Overruns
    omega
  split at h
  · rename_i hfew
    cases h
    have hguard := guardMatches_computeLcp endian hlcp path _
      (tryEntry_unrolled endian hfew path)
    simp only [hover (.inl hfew)] at hguard
    exact hguard
  · cases h
    rw [ExcludeMatcher.matches]
    split
    · have hnone : coveredBy bytePaths path = false := by
        refine coveredBy_eq_false fun p hp hprefix => ?_
        have := hprefix.length_le
        have := minLength_le hp
        omega
      rw [hnone, if_neg]
      unfold Overruns
      omega
    · rename_i hlong
      rw [guardMatches_computeLcp endian hlcp path _ (anyM_matches endian bytePaths path)]
      simp only [hover (.inr hlong)]

/-- A lookup returns, and says whether a configured path covers the path, unless the guard
has to read a path shorter than a word. -/
theorem excludeMatcher_exact_iff (endian : Endian) {paths : List Text}
    {matcher : ExcludeMatcher} (h : ExcludeMatcher.compile endian paths = .ok matcher)
    (path : Bytes) :
    (∃ answer, matcher.matches endian path = some answer ∧
        (answer = true ↔ ∃ p ∈ paths, Covers p.bytes path)) ↔
      ¬Overruns (paths.map Text.bytes) path := by
  have hcovered : coveredBy (paths.map Text.bytes) path = true ↔
      ∃ p ∈ paths, Covers p.bytes path := by
    simp [coveredBy, isPathBoundaryMatch_iff]
  rw [matches_compile endian h]
  by_cases hover : Overruns (paths.map Text.bytes) path
  · simp [hover]
  · simp [hover, hcovered]

def healthText : Text := ⟨ascii "/health", by decide⟩

def loginText : Text := ⟨ascii "/login", by decide⟩

def publicPaths : List Text := [healthText, loginText]

def publicMatcher : ExcludeMatcher :=
  .inline4 (new .little (ascii "/"))
    (fun i => (publicPaths.map Text.bytes)[i.val]?.map (.new .little)) 2

theorem compile_publicPaths : ExcludeMatcher.compile .little publicPaths = .ok publicMatcher := by
  have hcompiled : ExcludeMatcher.compile .little publicPaths =
      .ok (.inline4 (new .little (computeLcp (publicPaths.map Text.bytes)))
        (fun i => (publicPaths.map Text.bytes)[i.val]?.map (.new .little)) 2) := by
    rfl
  have hlcp : computeLcp (publicPaths.map Text.bytes) = ascii "/" := by decide
  rw [hcompiled, hlcp, publicMatcher]

theorem excludeMatcher_exact_orders :
    ExcludeMatcher.compile .little publicPaths = .ok publicMatcher ∧
      ∃ answer, publicMatcher.matches .little (ascii "/api/orders") = some answer ∧
        (answer = true ↔ ∃ p ∈ publicPaths, Covers p.bytes (ascii "/api/orders")) :=
  ⟨compile_publicPaths,
    (excludeMatcher_exact_iff .little compile_publicPaths (ascii "/api/orders")).mpr
      (by decide)⟩

/-- A request for `/orders` where `/health` and `/login` are excluded. -/
theorem excludeMatcher_panics_on_orders :
    ExcludeMatcher.compile .little publicPaths = .ok publicMatcher ∧
      publicMatcher.matches .little (ascii "/orders") = none :=
  ⟨compile_publicPaths, by decide⟩

end AuroraGateway.Jwt
