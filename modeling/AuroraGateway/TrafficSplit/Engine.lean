import AuroraGateway.Engine.Policy
import AuroraGateway.Foundation.AsciiText
import AuroraGateway.Foundation.Results

/-!
# The traffic split engine

A request falls into one of a hundred buckets, and the targets of a rule share the buckets
by their weights.
-/

namespace AuroraGateway.TrafficSplit

open Engine Foundation

/-! ## Compilation -/

inductive SplitBy where
  | clientIp
  | header
  | random

structure SplitTargetInput where
  upstream : Text
  weight : UInt32

structure TrafficSplitRuleInput where
  id : Text
  origin : Text
  pathPrefix : Text
  splitBy : Text
  headerName : Option Text
  splits : List SplitTargetInput

structure CompiledSplitTarget where
  upstream : Bytes
  cumulativeWeight : Nat

structure CompiledRule where
  id : Bytes
  origin : Bytes
  pathPrefix : Bytes
  splitBy : SplitBy
  headerName : Option Bytes
  targets : List CompiledSplitTarget

def compileSplitBy (rule : TrafficSplitRuleInput) : Option (SplitBy × Option Bytes) :=
  let splitBy := toAsciiLowercase (trim rule.splitBy.bytes)
  if splitBy = ascii "client_ip" then some (.clientIp, none)
  else if splitBy = ascii "random" then some (.random, none)
  else if splitBy = ascii "header" then
    match rule.headerName.map fun name => toAsciiLowercase (trim name.bytes) with
    | none => none
    | some hName =>
      if hName.isEmpty || 64 < hName.length || !hName.all isHeaderNameByte then none
      else some (.header, some hName)
  else none

/-- The targets with their running totals, and the total of all weights. -/
def compileTargets (totalWeight : Nat) (upstreamsSeen : List Bytes) :
    List SplitTargetInput → Option (List CompiledSplitTarget × Nat)
  | [] => some ([], totalWeight)
  | s :: splits =>
    if (trim s.upstream.bytes).isEmpty || 128 < s.upstream.bytes.length || s.weight = 0 ||
        100 ≤ s.weight || upstreamsSeen.contains s.upstream.bytes then none
    else
      let total := min (totalWeight + s.weight.toNat) (2 ^ 32 - 1)
      (compileTargets total (s.upstream.bytes :: upstreamsSeen) splits).map fun rest =>
        (⟨s.upstream.bytes, total⟩ :: rest.1, rest.2)

def compileRule (rule : TrafficSplitRuleInput) : Except Error CompiledRule :=
  if !hostValid rule.origin.bytes || rule.origin.bytes.isEmpty ||
      253 < rule.origin.bytes.length || !(ascii "/").isPrefixOf rule.pathPrefix.bytes ||
      maxPathBytes < rule.pathPrefix.bytes.length || rule.splits.length < 2 ||
      16 < rule.splits.length then
    .error .invalidPolicy
  else
    match compileSplitBy rule, compileTargets 0 [] rule.splits with
    | some (splitBy, headerName), some (targets, totalWeight) =>
      if totalWeight ≠ 100 then .error .invalidPolicy
      else
        .ok ⟨rule.id.bytes, rule.origin.bytes, rule.pathPrefix.bytes, splitBy, headerName, targets⟩
    | _, _ => .error .invalidPolicy

/-! ## Evaluation -/

structure TrafficSplitEvalRequest where
  origin : Bytes
  path : Bytes
  clientIp : Bytes
  randomSeed : UInt32

/-- The source takes four bytes at a time, one after the other. -/
def fnv1aHash (data : Bytes) : UInt64 :=
  data.foldl (fun hash b => (hash ^^^ b.toUInt64) * 0x100000001b3) 0xcbf29ce484222325

def CompiledRule.bucket (rule : CompiledRule) (req : TrafficSplitEvalRequest)
    (headerLookup : Bytes → Option Bytes) : Nat :=
  match rule.splitBy with
  | .clientIp => (fnv1aHash req.clientIp).toNat % 100
  | .random => req.randomSeed.toNat % 100
  | .header =>
    match (rule.headerName.bind headerLookup).filter fun v => !v.isEmpty with
    | some val => (fnv1aHash val).toNat % 100
    | none => (fnv1aHash req.clientIp).toNat % 100

def selectOfTwo (bucket : Nat) (first second : CompiledSplitTarget) : CompiledSplitTarget :=
  if bucket < first.cumulativeWeight then first else second

def selectByLoop (bucket : Nat) (targets : List CompiledSplitTarget) :
    Option CompiledSplitTarget :=
  targets.find? fun target => bucket < target.cumulativeWeight

def selectTarget (bucket : Nat) (targets : List CompiledSplitTarget) :
    Option CompiledSplitTarget :=
  match targets with
  | [first, second] => some (selectOfTwo bucket first second)
  | _ => (selectByLoop bucket targets).or targets.getLast?

def CompiledRule.matches (rule : CompiledRule) (req : TrafficSplitEvalRequest) : Bool :=
  (rule.origin = ascii "*" || hostMatches rule.origin req.origin) &&
    rule.pathPrefix.isPrefixOf req.path &&
    !(!(ascii "/").isSuffixOf rule.pathPrefix && rule.pathPrefix.length < req.path.length &&
      req.path[rule.pathPrefix.length]? ≠ some slash)

/-- The rule and the upstream; `none` if no rule matches. -/
def evaluate (rules : List CompiledRule) (req : TrafficSplitEvalRequest)
    (headerLookup : Bytes → Option Bytes) : Option (Bytes × Bytes) :=
  if req.origin.isEmpty || 253 < req.origin.length || req.path.isEmpty ||
      maxPathBytes < req.path.length || !(ascii "/").isPrefixOf req.path ||
      req.clientIp.isEmpty || 64 < req.clientIp.length then none
  else
    rules.findSome? fun rule =>
      if rule.matches req then
        (selectTarget (rule.bucket req headerLookup) rule.targets).map fun target =>
          (rule.id, target.upstream)
      else none

def TrafficSplitEvalRequest.Bounded (req : TrafficSplitEvalRequest) : Prop :=
  req.origin ≠ [] ∧ req.origin.length ≤ 253 ∧ req.path ≠ [] ∧ req.path.length ≤ maxPathBytes ∧
    ascii "/" <+: req.path ∧ req.clientIp ≠ [] ∧ req.clientIp.length ≤ 64

instance (req : TrafficSplitEvalRequest) : Decidable req.Bounded :=
  inferInstanceAs (Decidable (_ ∧ _))

theorem CompiledRule.bucket_lt (rule : CompiledRule) (req : TrafficSplitEvalRequest)
    (headerLookup : Bytes → Option Bytes) : rule.bucket req headerLookup < 100 := by
  unfold bucket
  split
  · exact Nat.mod_lt _ (by decide)
  · exact Nat.mod_lt _ (by decide)
  · split <;> exact Nat.mod_lt _ (by decide)

/-! ## Running totals -/

variable {splits : List SplitTargetInput} {targets : List CompiledSplitTarget}
  {seen : List Bytes} {total final bucket : Nat}

def weights (splits : List SplitTargetInput) : Nat :=
  (splits.map fun s => s.weight.toNat).sum

theorem weights_cons (s : SplitTargetInput) (splits : List SplitTargetInput) :
    weights (s :: splits) = s.weight.toNat + weights splits := by
  rfl

def runningTargets (total : Nat) : List SplitTargetInput → List CompiledSplitTarget
  | [] => []
  | s :: splits =>
    ⟨s.upstream.bytes, total + s.weight.toNat⟩ :: runningTargets (total + s.weight.toNat) splits

/-- A total that is not the greatest number has never been cut off. -/
theorem compileTargets_eq (h : compileTargets total seen splits = some (targets, final))
    (hfinal : final < 2 ^ 32 - 1) :
    targets = runningTargets total splits ∧ final = total + weights splits := by
  induction splits generalizing total seen targets with
  | nil =>
    cases h
    exact ⟨rfl, rfl⟩
  | cons s splits ih =>
    unfold compileTargets at h
    split at h
    · cases h
    · obtain ⟨⟨rest, last⟩, hrest, heq⟩ := Option.map_eq_some_iff.mp h
      cases heq
      obtain ⟨rfl, hlast⟩ := ih hrest
      have htotal : min (total + s.weight.toNat) (2 ^ 32 - 1) = total + s.weight.toNat := by
        omega
      rw [htotal] at hlast ⊢
      rw [weights_cons, ← Nat.add_assoc]
      exact ⟨rfl, hlast⟩

theorem upstreams_of_compileTargets (h : compileTargets total seen splits = some (targets, final)) :
    (splits.map fun s => s.upstream.bytes).Nodup ∧
      ∀ s ∈ splits, s.upstream.bytes ∉ seen := by
  induction splits generalizing total seen targets final with
  | nil => simp
  | cons s splits ih =>
    unfold compileTargets at h
    split at h
    · cases h
    · rename_i hchecks
      obtain ⟨⟨rest, last⟩, hrest, -⟩ := Option.map_eq_some_iff.mp h
      obtain ⟨hnodup, hnew⟩ := ih hrest
      have hs : s.upstream.bytes ∉ seen := by
        intro hmem
        exact hchecks (by simp [hmem])
      refine ⟨List.nodup_cons.mpr ⟨fun hmem => ?_, hnodup⟩, fun s' hs' => ?_⟩
      · obtain ⟨s', hs', heq⟩ := List.mem_map.mp hmem
        exact hnew s' hs' (heq ▸ List.mem_cons_self)
      · rcases List.mem_cons.mp hs' with rfl | hmem
        · exact hs
        · exact fun hseen => hnew s' hmem (List.mem_cons_of_mem _ hseen)

def picks (targets : List CompiledSplitTarget) (upstream : Bytes) (bucket : Nat) : Bool :=
  (selectByLoop bucket targets).map CompiledSplitTarget.upstream = some upstream

theorem countP_picks (upstream : Bytes) (splits : List SplitTargetInput) (total : Nat) :
    (List.range' total (weights splits)).countP (picks (runningTargets total splits) upstream) =
      weights (splits.filter fun s => s.upstream.bytes = upstream) := by
  induction splits generalizing total with
  | nil => rfl
  | cons s splits ih =>
    have hsplit : List.range' total (weights (s :: splits)) =
        List.range' total s.weight.toNat ++
          List.range' (total + s.weight.toNat) (weights splits) := by
      rw [weights_cons, ← List.range'_append_1]
    have hfirst : (List.range' total s.weight.toNat).countP
        (picks (runningTargets total (s :: splits)) upstream) =
          if s.upstream.bytes = upstream then s.weight.toNat else 0 := by
      rw [List.countP_congr (q := fun _ => decide (s.upstream.bytes = upstream))]
      · split_ifs with heq <;> simp [heq]
      · intro bucket hbucket
        have hlt := (List.mem_range'_1.mp hbucket).2
        simp [picks, selectByLoop, runningTargets, hlt]
    have hrest : (List.range' (total + s.weight.toNat) (weights splits)).countP
        (picks (runningTargets total (s :: splits)) upstream) =
          weights (splits.filter fun s => s.upstream.bytes = upstream) := by
      rw [← ih]
      refine List.countP_congr fun bucket hbucket => ?_
      have hle := (List.mem_range'_1.mp hbucket).1
      simp [picks, selectByLoop, runningTargets, Nat.not_lt.mpr hle]
    rw [hsplit, List.countP_append, hfirst]
    split_ifs with heq <;> simp_all [weights_cons]

theorem weights_filter (hnodup : (splits.map fun s => s.upstream.bytes).Nodup)
    {s : SplitTargetInput} (hs : s ∈ splits) :
    weights (splits.filter fun s' => s'.upstream.bytes = s.upstream.bytes) = s.weight.toNat := by
  induction splits with
  | nil => cases hs
  | cons first splits ih =>
    rw [List.map_cons, List.nodup_cons] at hnodup
    rcases List.mem_cons.mp hs with rfl | hmem
    · have hnone : splits.filter (fun s' => s'.upstream.bytes = s.upstream.bytes) = [] := by
        refine List.filter_eq_nil_iff.mpr fun s' hs' heq => hnodup.1 ?_
        exact List.mem_map.mpr ⟨s', hs', of_decide_eq_true heq⟩
      rw [List.filter_cons, if_pos (by simp), hnone]
      rfl
    · have hne : first.upstream.bytes ≠ s.upstream.bytes := fun heq =>
        hnodup.1 (heq ▸ List.mem_map.mpr ⟨s, hmem, rfl⟩)
      rw [List.filter_cons, if_neg (by simpa using hne)]
      exact ih hnodup.2 hmem

theorem selectByLoop_isSome (hbucket : bucket < total + weights splits) (htotal : total ≤ bucket) :
    (selectByLoop bucket (runningTargets total splits)).isSome = true := by
  induction splits generalizing total with
  | nil =>
    have hnone : weights [] = 0 := rfl
    omega
  | cons s splits ih =>
    rw [weights_cons, ← Nat.add_assoc] at hbucket
    by_cases hlt : bucket < total + s.weight.toNat
    · simp [selectByLoop, runningTargets, hlt]
    · have hrest := ih hbucket (Nat.not_lt.mp hlt)
      simpa [selectByLoop, runningTargets, hlt] using hrest

/-! ## Rules -/

structure AcceptedRule where
  input : TrafficSplitRuleInput
  compiled : CompiledRule
  accepted : compileRule input = .ok compiled

namespace AcceptedRule

variable (rule : AcceptedRule)

theorem targets_eq :
    rule.compiled.targets = runningTargets 0 rule.input.splits ∧
      weights rule.input.splits = 100 ∧
      (rule.input.splits.map fun s => s.upstream.bytes).Nodup := by
  obtain ⟨-, haccepted⟩ := of_check rule.accepted
  split at haccepted
  · rename_i splitBy headerName targets totalWeight hsplit htargets
    obtain ⟨htotal, haccepted⟩ := of_check haccepted
    rw [not_not] at htotal
    subst htotal
    obtain ⟨rfl, hweights⟩ := compileTargets_eq htargets (by decide)
    rw [← Except.ok.inj haccepted]
    exact ⟨rfl, by omega, (upstreams_of_compileTargets htargets).1⟩
  · cases haccepted

theorem selectByLoop_isSome_of_lt (hbucket : bucket < 100) :
    (selectByLoop bucket rule.compiled.targets).isSome = true := by
  obtain ⟨htargets, hweights, -⟩ := rule.targets_eq
  rw [htargets]
  exact selectByLoop_isSome (by omega) (Nat.zero_le _)

/-- With two targets the second takes what the first leaves. -/
theorem selectTarget_eq_selectByLoop (hbucket : bucket < 100) :
    selectTarget bucket rule.compiled.targets = selectByLoop bucket rule.compiled.targets := by
  have hsome := rule.selectByLoop_isSome_of_lt hbucket
  obtain ⟨found, hfound⟩ := Option.isSome_iff_exists.mp hsome
  unfold selectTarget
  split
  · rename_i first second htargets
    rw [htargets] at hfound ⊢
    by_cases hfirst : bucket < first.cumulativeWeight
    · simp [selectOfTwo, selectByLoop, hfirst]
    · by_cases hsecond : bucket < second.cumulativeWeight
      · simp [selectOfTwo, selectByLoop, hfirst, hsecond]
      · simp [selectByLoop, hfirst, hsecond] at hfound
  · rw [hfound]
    rfl

/-- Each target takes as many of the hundred buckets as its weight, both paths of the selection
agree, and the loop always finds a target. -/
theorem split_exact :
    (∀ s ∈ rule.input.splits, ((List.range 100).countP fun bucket =>
      (selectTarget bucket rule.compiled.targets).map CompiledSplitTarget.upstream =
        some s.upstream.bytes) = s.weight.toNat) ∧
    ∀ bucket < 100,
      selectTarget bucket rule.compiled.targets = selectByLoop bucket rule.compiled.targets ∧
        (selectByLoop bucket rule.compiled.targets).isSome = true := by
  obtain ⟨htargets, hweights, hnodup⟩ := rule.targets_eq
  refine ⟨fun s hs => ?_, fun bucket hbucket =>
    ⟨rule.selectTarget_eq_selectByLoop hbucket, rule.selectByLoop_isSome_of_lt hbucket⟩⟩
  rw [← weights_filter hnodup hs, ← countP_picks _ _ 0, hweights, ← htargets,
    ← List.range_eq_range']
  refine List.countP_congr fun bucket hbucket => ?_
  rw [rule.selectTarget_eq_selectByLoop (List.mem_range.mp hbucket)]
  rfl

/-- The target of a bucket: the first one whose running total is above it. -/
def target (bucket : Fin 100) : CompiledSplitTarget :=
  (selectByLoop bucket rule.compiled.targets).get (rule.selectByLoop_isSome_of_lt bucket.isLt)

theorem selectTarget_eq_target (bucket : Fin 100) :
    selectTarget bucket rule.compiled.targets = some (rule.target bucket) := by
  rw [rule.selectTarget_eq_selectByLoop bucket.isLt]
  exact (Option.some_get _).symm

end AcceptedRule

/-- The first rule that matches a request decides it alone: it always has a target. -/
theorem decided_by_first_match (rules : List AcceptedRule) (req : TrafficSplitEvalRequest)
    (headerLookup : Bytes → Option Bytes) :
    evaluate (rules.map AcceptedRule.compiled) req headerLookup =
      if req.Bounded then
        (rules.find? fun rule => rule.compiled.matches req).map fun rule =>
          (rule.compiled.id, (rule.target ⟨rule.compiled.bucket req headerLookup,
            rule.compiled.bucket_lt req headerLookup⟩).upstream)
      else none := by
  unfold evaluate
  by_cases hbounded : req.Bounded
  · rw [if_neg (by simpa [TrafficSplitEvalRequest.Bounded, and_assoc] using hbounded),
      if_pos hbounded]
    induction rules with
    | nil => rfl
    | cons rule rules ih =>
      rw [List.map_cons, List.findSome?_cons, List.find?_cons]
      cases hmatch : rule.compiled.matches req with
      | false => exact ih
      | true =>
        have htarget := rule.selectTarget_eq_target ⟨_, rule.compiled.bucket_lt req headerLookup⟩
        simp only [if_true, htarget, Option.map_some]
  · rw [if_neg hbounded, if_pos]
    by_contra hguard
    exact hbounded (by simpa [TrafficSplitEvalRequest.Bounded, and_assoc] using hguard)

/-- Two upstreams that share the requests of every host. -/
def evenSplit : AcceptedRule where
  input :=
    { id := .ofAscii "even"
      origin := .ofAscii "*"
      pathPrefix := .ofAscii "/"
      splitBy := .ofAscii "client_ip"
      headerName := none
      splits := [⟨.ofAscii "stable", 50⟩, ⟨.ofAscii "next", 50⟩] }
  compiled := ⟨ascii "even", ascii "*", ascii "/", .clientIp, none,
    [⟨ascii "stable", 50⟩, ⟨ascii "next", 100⟩]⟩
  accepted := by rfl

end AuroraGateway.TrafficSplit
