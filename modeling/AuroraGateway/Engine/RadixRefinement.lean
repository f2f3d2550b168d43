import AuroraGateway.Engine.RadixInsert
import AuroraGateway.Foundation.StableSort

/-!
# The path radix tree refines a linear scan

The specification keeps the inserted pairs in a list and scans all of them.
A lookup in the tree visits the same values, ordered by the length of their
prefixes.
-/

namespace AuroraGateway.Engine

open Foundation
open Relation

universe u v w

variable {T : Type u}

namespace PathRadixTree

/-! ## Specification -/

/-- The prefix `p` applies to `path`: it ends at a path segment. -/
def Covers (p path : Bytes) : Prop :=
  p <+: path ∧
    (p.getLast? = some slash ∨ path = p ∨ path[p.length]? = some slash)

instance (p path : Bytes) : Decidable (Covers p path) :=
  inferInstanceAs (Decidable (_ ∧ _))

/-- The scan: shorter prefixes first, equal prefixes in insertion order. -/
def linearMatches (ops : List (Bytes × T)) (path : Bytes) : List T :=
  (sortByKey (fun op => op.1.length)
    (ops.filter fun op => Covers op.1 path)).map Prod.snd

variable {path : Bytes} {op : Bytes × T} {ns : List (RadixNode T)} {ops : List (Bytes × T)}

theorem isPathBoundaryMatch_iff {p : Bytes} :
    isPathBoundaryMatch p path = true ↔ Covers p path := by
  simp only [isPathBoundaryMatch, Covers, Bool.and_eq_true, Bool.or_eq_true,
    List.isPrefixOf_iff_prefix, beq_iff_eq, or_assoc]
  refine and_congr_right fun hstarts => or_congr ?_ (or_congr_left ?_)
  · rw [List.isSuffixOf_iff_suffix]
    constructor
    · rintro ⟨t, rfl⟩
      simp [ascii, slash]
    · intro hlast
      obtain ⟨t, rfl⟩ := List.getLast?_eq_some_iff.mp hlast
      exact ⟨t, rfl⟩
  · constructor
    · intro hlen
      exact (hstarts.eq_of_length hlen.symm).symm
    · rintro rfl
      rfl

/-! ## The nodes met by a lookup -/

section Visited

variable {nodes : List (RadixNode T)}

/--
From a loop state on the descent along `path`, the loop folds the callback
over the nodes `ns`, which it meets in order of increasing prefix length.
-/
structure Visits (nodes : List (RadixNode T)) (path : Bytes) (s : Nat × Bytes)
    (low : Nat) (ns : List (RadixNode T)) : Prop where
  sorted : ns.Pairwise fun m n => m.fullPrefix.length < n.fullPrefix.length
  long : ∀ n ∈ ns, low ≤ n.fullPrefix.length
  onPath : ∀ n ∈ ns, n.fullPrefix <+: path ∧ ∃ i : Nat, nodes[i]? = some n
  complete : ∀ {j : Nat} {n : RadixNode T} {rest : Bytes}, nodes[j]? = some n →
    ReflTransGen (Step nodes) s (j, n.edgePrefix ++ rest) → n ∈ ns

namespace Visits

variable {path rem : Bytes} {idx : Nat} {node : RadixNode T} {low : Nat}
  {ns : List (RadixNode T)}

section

variable (hnode : nodes[idx]? = some node)
include hnode

theorem nil (hlabel : ¬ node.edgePrefix <+: rem) : Visits nodes path (idx, rem) low [] where
  sorted := List.Pairwise.nil
  long := by simp
  onPath := by simp
  complete := by
    intro j n rest hn hreach
    have hstuck : ∀ u, ¬ Step nodes (idx, rem) u := by
      rintro u ⟨node', byte, t, hnode', hrem, -, -⟩
      rw [hnode] at hnode'
      obtain rfl := Option.some.inj hnode'
      exact hlabel ⟨_, hrem.symm⟩
    obtain ⟨rfl, rfl⟩ := Prod.mk.inj (eq_of_reflTransGen_of_stuck hstuck hreach)
    rw [hnode] at hn
    obtain rfl := Option.some.inj hn
    exact absurd (List.prefix_append _ _) hlabel

theorem cons (honPath : node.fullPrefix <+: path) {s : Nat × Bytes}
    (htail : Visits nodes path s (node.fullPrefix.length + 1) ns)
    (hnext : ∀ u, Step nodes (idx, rem) u → u = s) :
    Visits nodes path (idx, rem) node.fullPrefix.length (node :: ns) where
  sorted := List.Pairwise.cons (fun n hn => htail.long n hn) htail.sorted
  long := by
    intro n hn
    rcases List.mem_cons.mp hn with rfl | hn
    · exact Nat.le_refl _
    · exact (Nat.le_succ _).trans (htail.long n hn)
  onPath := by
    intro n hn
    rcases List.mem_cons.mp hn with rfl | hn
    · exact ⟨honPath, idx, hnode⟩
    · exact htail.onPath n hn
  complete := by
    intro j n rest hn hreach
    rcases ReflTransGen.cases_head hreach with heq | ⟨u, hstep, hrest⟩
    · obtain ⟨rfl, -⟩ := Prod.mk.inj heq
      rw [hnode] at hn
      obtain rfl := Option.some.inj hn
      exact List.mem_cons_self
    · obtain rfl := hnext u hstep
      exact List.mem_cons_of_mem _ (htail.complete hn hrest)

theorem single (honPath : node.fullPrefix <+: path) (hstuck : ∀ u, ¬ Step nodes (idx, rem) u) :
    Visits nodes path (idx, rem) node.fullPrefix.length [node] where
  sorted := List.pairwise_singleton _ _
  long := by simp
  onPath := by
    intro n hn
    obtain rfl := List.mem_singleton.mp hn
    exact ⟨honPath, idx, hnode⟩
  complete := by
    intro j n rest hn hreach
    obtain ⟨rfl, -⟩ := Prod.mk.inj (eq_of_reflTransGen_of_stuck hstuck hreach)
    rw [hnode] at hn
    obtain rfl := Option.some.inj hn
    exact List.mem_singleton_self _

end

theorem mono (h : Visits nodes path (idx, rem) low ns) {low' : Nat} (hlow : low' ≤ low) :
    Visits nodes path (idx, rem) low' ns :=
  { h with long := fun n hn => hlow.trans (h.long n hn) }

end Visits

theorem Step.of_label {idx : Nat} {node : RadixNode T}
    (hnode : nodes[idx]? = some node) {rest : Bytes} {u : Nat × Bytes}
    (hstep : Step nodes (idx, node.edgePrefix ++ rest) u) :
    ∃ byte t, rest = byte :: t ∧ findChild node.children byte = some u.1 ∧
      u.2 = byte :: t := by
  obtain ⟨node', byte, t, hnode', hrem, hfind, hu⟩ := hstep
  rw [hnode] at hnode'
  obtain rfl := Option.some.inj hnode'
  exact ⟨byte, t, List.append_cancel_left hrem, hfind, hu⟩

theorem ArenaWF.forEachMatchLoop_visits (hwf : ArenaWF nodes) {path : Bytes}
    {fuel idx : Nat} {node : RadixNode T} (hnode : nodes[idx]? = some node)
    {base rem : Bytes} (hpath : path = base ++ rem)
    (hbase : node.fullPrefix = base ++ node.edgePrefix)
    (hfuel : (idx = 0 ∧ rem.length < fuel) ∨
      (node.edgePrefix ≠ [] ∧ rem ≠ [] ∧ rem.length ≤ fuel)) :
    ∃ ns, Visits nodes path (idx, rem) node.fullPrefix.length ns ∧
      ∀ {σ : Type v} (callback : σ → T → σ) (state : σ),
        forEachMatchLoop nodes path callback fuel idx rem state =
          some (ns.foldl (fun st n => visitNode path callback n st) state) := by
  induction fuel generalizing idx node base rem with
  | zero =>
    rcases hfuel with ⟨-, h⟩ | ⟨-, hrem, h⟩
    · omega
    · exact absurd (List.length_eq_zero_iff.mp (Nat.le_zero.mp h)) hrem
  | succ fuel ih =>
    by_cases hlabel : node.edgePrefix <+: rem
    · obtain ⟨rest, rfl⟩ := hlabel
      have honPath : node.fullPrefix <+: path := by
        rw [hpath, hbase, ← List.append_assoc]
        exact List.prefix_append _ _
      cases rest with
      | nil =>
        refine ⟨[node], .single hnode honPath ?_, fun callback state => ?_⟩
        · intro u hstep
          obtain ⟨byte, t, h, -⟩ := hstep.of_label hnode
          simp at h
        · simp [forEachMatchLoop, hnode]
      | cons first r =>
        cases hfind : findChild node.children first with
        | none =>
          refine ⟨[node], .single hnode honPath ?_, fun callback state => ?_⟩
          · intro u hstep
            obtain ⟨byte, t, h, hu, -⟩ := hstep.of_label hnode
            obtain ⟨rfl, rfl⟩ := List.cons.inj h
            rw [hfind] at hu
            simp at hu
          · simp [forEachMatchLoop, hnode, hfind]
        | some next =>
          obtain ⟨-, target, t, htarget, hedge, hfull⟩ :=
            hwf.child hnode (mem_of_findChild hfind)
          have hlen : (first :: r).length ≤ fuel := by
            rcases hfuel with ⟨-, h⟩ | ⟨hne, -, h⟩
            · rw [List.length_append] at h
              omega
            · have := List.length_pos_iff.mpr hne
              rw [List.length_append] at h
              omega
          have hpath' : path = node.fullPrefix ++ first :: r := by
            rw [hpath, hbase, List.append_assoc]
          obtain ⟨ns, hvisits, hrun⟩ := ih htarget hpath' (by rw [hfull, hedge])
            (.inr ⟨by simp [hedge], by simp, hlen⟩)
          have hlow : node.fullPrefix.length + 1 ≤ target.fullPrefix.length := by
            rw [hfull]
            simp
          refine ⟨node :: ns, (hvisits.mono hlow).cons hnode honPath ?_,
            fun callback state => ?_⟩
          · intro u hstep
            obtain ⟨byte, t', h, hu, hu'⟩ := hstep.of_label hnode
            obtain ⟨rfl, rfl⟩ := List.cons.inj h
            rw [hfind] at hu
            exact Prod.ext (Option.some.inj hu).symm hu'
          · simp [forEachMatchLoop, hnode, hfind, hrun]
    · refine ⟨[], .nil hnode hlabel, fun callback state => ?_⟩
      simp [forEachMatchLoop, hnode, hlabel]

end Visited

/-! ## Lookup -/

def reported (path : Bytes) (node : RadixNode T) : List (Bytes × T) :=
  if Covers node.fullPrefix path then
    node.values.map fun value => (node.fullPrefix, value)
  else []

variable {σ : Type v}

theorem visitNode_eq_foldl (path : Bytes) (callback : σ → T → σ) (node : RadixNode T) (state : σ) :
    visitNode path callback node state =
      ((reported path node).map Prod.snd).foldl callback state := by
  by_cases hcovers : Covers node.fullPrefix path
  · cases hvalues : node.values <;>
      simp [visitNode, reported, hcovers, isPathBoundaryMatch_iff.mpr, hvalues]
  · have hmatch : isPathBoundaryMatch node.fullPrefix path = false :=
      Bool.eq_false_iff.mpr fun h => hcovers (isPathBoundaryMatch_iff.mp h)
    simp [visitNode, reported, hcovers, hmatch]

theorem foldl_visitNode (path : Bytes) (callback : σ → T → σ) (ns : List (RadixNode T))
    (state : σ) :
    ns.foldl (fun st n => visitNode path callback n st) state =
      ((ns.flatMap (reported path)).map Prod.snd).foldl callback state := by
  induction ns generalizing state with
  | nil => rfl
  | cons n ns ih =>
    rw [List.foldl_cons, ih, visitNode_eq_foldl, List.flatMap_cons,
      List.map_append, List.foldl_append]

theorem length_of_mem_reported {node : RadixNode T}
    (h : op ∈ reported path node) : op.1.length = node.fullPrefix.length := by
  unfold reported at h
  split at h
  · obtain ⟨value, -, rfl⟩ := List.mem_map.mp h
    rfl
  · simp at h

theorem reported_sorted
    (hsorted : ns.Pairwise fun m n => m.fullPrefix.length < n.fullPrefix.length) :
    (ns.flatMap (reported path)).Pairwise fun a b => a.1.length ≤ b.1.length := by
  induction ns with
  | nil => exact List.Pairwise.nil
  | cons n ns ih =>
    rw [List.flatMap_cons, List.pairwise_append]
    refine ⟨?_, ih hsorted.of_cons, ?_⟩
    · rw [List.pairwise_iff_forall_sublist]
      intro a b hab
      have ha : a ∈ reported path n := hab.subset (by simp)
      have hb : b ∈ reported path n := hab.subset (by simp)
      rw [length_of_mem_reported ha, length_of_mem_reported hb]
    · intro a ha b hb
      obtain ⟨m, hm, hb⟩ := List.mem_flatMap.mp hb
      rw [length_of_mem_reported ha, length_of_mem_reported hb]
      exact (List.rel_of_pairwise_cons hsorted hm).le

theorem filter_reported
    (hsorted : ns.Pairwise fun m n => m.fullPrefix.length < n.fullPrefix.length)
    {n : RadixNode T} (hn : n ∈ ns) :
    (ns.flatMap (reported path)).filter (fun op => op.1.length = n.fullPrefix.length) =
      reported path n := by
  have hself : (reported path n).filter
      (fun op => op.1.length = n.fullPrefix.length) = reported path n := by
    rw [List.filter_eq_self]
    intro op hop
    simpa using length_of_mem_reported hop
  have hother : ∀ {m : RadixNode T}, m.fullPrefix.length ≠ n.fullPrefix.length →
      (reported path m).filter (fun op => op.1.length = n.fullPrefix.length) = [] := by
    intro m hm
    rw [List.filter_eq_nil_iff]
    intro op hop
    simpa [length_of_mem_reported hop] using hm
  induction ns with
  | nil => simp at hn
  | cons m ns ih =>
    rw [List.flatMap_cons, List.filter_append]
    rcases List.mem_cons.mp hn with rfl | hn
    · have hrest : (ns.flatMap (reported path)).filter
          (fun op => op.1.length = n.fullPrefix.length) = [] := by
        rw [List.filter_eq_nil_iff]
        intro op hop
        obtain ⟨m, hm, hop⟩ := List.mem_flatMap.mp hop
        have := List.rel_of_pairwise_cons hsorted hm
        rw [length_of_mem_reported hop]
        simp only [decide_eq_true_eq]
        omega
      rw [hself, hrest, List.append_nil]
    · rw [hother (List.rel_of_pairwise_cons hsorted hn).ne,
        ih hsorted.of_cons hn, List.nil_append]

private theorem eq_of_isPrefix_of_length {p q path : Bytes} (hp : p <+: path)
    (hq : q <+: path) (hlen : p.length = q.length) : p = q := by
  rw [List.prefix_iff_eq_take.mp hp, List.prefix_iff_eq_take.mp hq, hlen]

theorem Represents.reported_eq_sortByKey {nodes : List (RadixNode T)}
    (hrep : Represents nodes (table ops))
    {low : Nat}
    (hvisits : Visits nodes path (0, path) low ns) :
    ns.flatMap (reported path) =
      sortByKey (fun op => op.1.length) (ops.filter fun op => Covers op.1 path) := by
  refine eq_sortByKey _ (reported_sorted hvisits.sorted) ?_
  intro k
  by_cases hk : ∃ n ∈ ns, n.fullPrefix.length = k
  · obtain ⟨n, hn, rfl⟩ := hk
    obtain ⟨honPath, i, hi⟩ := hvisits.onPath n hn
    rw [filter_reported hvisits.sorted hn, List.filter_filter]
    have hsame : ∀ op : Bytes × T,
        (decide (op.1.length = n.fullPrefix.length) && decide (Covers op.1 path)) =
          (decide (op.1 = n.fullPrefix) && decide (Covers n.fullPrefix path)) := by
      intro op
      rw [← Bool.decide_and, ← Bool.decide_and, decide_eq_decide]
      constructor
      · rintro ⟨hlen, hcovers⟩
        have heq := eq_of_isPrefix_of_length hcovers.1 honPath hlen
        exact ⟨heq, heq ▸ hcovers⟩
      · rintro ⟨heq, hcovers⟩
        exact ⟨congrArg List.length heq, heq ▸ hcovers⟩
    rw [List.filter_congr fun op _ => hsame op, reported, hrep.values_eq hi, table]
    split
    · rename_i hcovers
      simp only [hcovers, decide_true, Bool.and_true, List.map_map]
      refine (List.map_congr_left fun op hop => ?_).trans (List.map_id _)
      have hop := List.of_mem_filter hop
      simp only [decide_eq_true_eq] at hop
      simp [← hop]
    · rename_i hcovers
      simp [hcovers]
  · have hnone : ∀ op ∈ ops, Covers op.1 path → op.1.length ≠ k := by
      intro op hop hcovers hlen
      have hstore : table ops op.1 ≠ [] := by
        have : op.2 ∈ table ops op.1 :=
          List.mem_map.mpr ⟨op, List.mem_filter.mpr ⟨hop, by simp⟩, rfl⟩
        exact List.ne_nil_of_mem this
      obtain ⟨i, n, hi, hfull⟩ := hrep.covered hstore
      obtain ⟨rest, hrest⟩ := hcovers.1
      have hreach := hrep.descends hi rest
      rw [hfull, hrest] at hreach
      exact hk ⟨n, hvisits.complete hi hreach, hfull ▸ hlen⟩
    have hleft : (ns.flatMap (reported path)).filter (fun op => op.1.length = k) = [] := by
      rw [List.filter_eq_nil_iff]
      intro op hop
      obtain ⟨n, hn, hop⟩ := List.mem_flatMap.mp hop
      rw [length_of_mem_reported hop]
      simpa using fun h => hk ⟨n, hn, h⟩
    rw [hleft, eq_comm, List.filter_eq_nil_iff]
    intro op hop
    simp only [List.mem_filter, decide_eq_true_eq] at hop
    simpa using hnone op hop.1 hop.2

theorem forEachMatch_eq_foldl {tree : PathRadixTree T} (hrep : Represents tree.nodes (table ops))
    (path : Bytes) (callback : σ → T → σ) (state : σ) :
    tree.forEachMatch path callback state =
      some ((linearMatches ops path).foldl callback state) := by
  obtain ⟨root, hroot, hfull⟩ := hrep.root
  have hne : tree.nodes.isEmpty = false := by
    cases hnodes : tree.nodes with
    | nil => simp [hnodes] at hroot
    | cons => rfl
  have hbase : root.fullPrefix = [] ++ root.edgePrefix := hfull
  have hpath : path = [] ++ path := rfl
  obtain ⟨ns, hvisits, hrun⟩ :=
    hrep.forEachMatchLoop_visits hroot hpath hbase (.inl ⟨rfl, Nat.lt_succ_self _⟩)
  rw [forEachMatch, hne, if_neg (by simp), hrun callback state, foldl_visitNode,
    hrep.reported_eq_sortByKey hvisits, linearMatches]

/-! ## The best match -/

section FindBest

variable {V : Type v} [LinearOrder V]

structure IsFirstMin (filter : T → Bool) (keyFn : T → V) (values : List T)
    (value : T) (before after : List T) : Prop where
  split : values.filter filter = before ++ value :: after
  before_lt : ∀ w ∈ before, keyFn value < keyFn w
  after_le : ∀ w ∈ after, keyFn value ≤ keyFn w

theorem IsFirstMin.mem {filter : T → Bool} {keyFn : T → V} {values before after : List T}
    {value : T} (h : IsFirstMin filter keyFn values value before after) :
    value ∈ values.filter filter := by
  rw [h.split]
  exact List.mem_append_right _ List.mem_cons_self

theorem foldl_findBestCallback (filter : T → Bool) (keyFn : T → V) (values : List T) :
    (values.foldl (findBestCallback filter keyFn) none = none ∧
      ∀ value ∈ values, filter value = false) ∨
    ∃ value before after,
      values.foldl (findBestCallback filter keyFn) none = some (value, keyFn value) ∧
        IsFirstMin filter keyFn values value before after := by
  induction values using List.reverseRecOn with
  | nil => exact .inl ⟨rfl, by simp⟩
  | append_singleton values w ih =>
    cases hw : filter w with
    | false =>
      rcases ih with ⟨hfold, hnone⟩ | ⟨value, before, after, hfold, hmin⟩
      · refine .inl ⟨by simp [findBestCallback, hw, hfold], ?_⟩
        intro v hv
        rcases List.mem_append.mp hv with hv | hv
        · exact hnone v hv
        · rwa [List.mem_singleton.mp hv]
      · refine .inr ⟨value, before, after, by simp [findBestCallback, hw, hfold], ?_⟩
        exact ⟨by simp [hw, hmin.split], hmin.before_lt, hmin.after_le⟩
    | true =>
      rcases ih with ⟨hfold, hnone⟩ | ⟨value, before, after, hfold, hmin⟩
      · refine .inr ⟨w, [], [], by simp [findBestCallback, hw, hfold], ?_, by simp,
          by simp⟩
        have hnil : values.filter filter = [] := by
          rw [List.filter_eq_nil_iff]
          intro v hv
          simp [hnone v hv]
        simp [hnil, hw]
      · by_cases hlt : keyFn w < keyFn value
        · refine .inr ⟨w, before ++ value :: after, [],
            by simp [findBestCallback, hw, hfold, hlt], ?_, ?_, by simp⟩
          · simp [hw, hmin.split]
          · intro v hv
            rcases List.mem_append.mp hv with hv | hv
            · exact hlt.trans (hmin.before_lt v hv)
            · rcases List.mem_cons.mp hv with rfl | hv
              · exact hlt
              · exact hlt.trans_le (hmin.after_le v hv)
        · refine .inr ⟨value, before, after ++ [w],
            by simp [findBestCallback, hw, hfold, hlt], ?_, hmin.before_lt, ?_⟩
          · simp [hw, hmin.split]
          · intro v hv
            rcases List.mem_append.mp hv with hv | hv
            · exact hmin.after_le v hv
            · rw [List.mem_singleton.mp hv]
              exact not_lt.mp hlt

end FindBest

/-! ## The last match -/

/-- The entry that a lookup reports last: none that covers the path is longer, and none
after it is as long. -/
structure Decides (ops : List (Bytes × T)) (path : Bytes) (op : Bytes × T) : Prop where
  covers : Covers op.1 path
  split : ∃ before after, ops = before ++ op :: after ∧
    (∀ other ∈ before, Covers other.1 path → other.1.length ≤ op.1.length) ∧
    ∀ other ∈ after, Covers other.1 path → other.1.length < op.1.length

theorem Decides.mem
    (h : Decides ops path op) : op ∈ ops := by
  obtain ⟨before, after, rfl, -, -⟩ := h.split
  simp

theorem Covers.eq_of_length {p q : Bytes} (hp : Covers p path) (hq : Covers q path)
    (hlength : p.length = q.length) : p = q :=
  (List.prefix_of_prefix_length_le hp.1 hq.1 hlength.le).eq_of_length hlength

theorem getLast?_linearMatches {key : Bytes}
    (hcovers : Covers key path) (hmem : ∃ op ∈ ops, op.1 = key)
    (hlongest : ∀ op ∈ ops, Covers op.1 path → op.1.length ≤ key.length) :
    (linearMatches ops path).getLast? =
      ((ops.filter fun op => op.1 = key).getLast?).map Prod.snd := by
  obtain ⟨op, hop, rfl⟩ := hmem
  have hlast := @getLast?_sortByKey _ _ _ (fun op : Bytes × T => op.1.length)
    (ops.filter fun op => Covers op.1 path) op.1.length
    (by simpa using fun a b hmem => hlongest (a, b) hmem)
    ⟨op, by simp [hop, hcovers], rfl⟩
  rw [linearMatches, List.getLast?_map, hlast, List.filter_filter]
  congr 3
  funext other
  rw [← Bool.decide_and, decide_eq_decide]
  constructor
  · rintro ⟨hlength, hother⟩
    exact hother.eq_of_length hcovers hlength
  · rintro heq
    rw [heq]
    exact ⟨rfl, hcovers⟩

theorem Decides.getLast?_linearMatches (h : Decides ops path op) :
    (linearMatches ops path).getLast? = some op.2 := by
  obtain ⟨before, after, rfl, hbefore, hafter⟩ := h.split
  rw [PathRadixTree.getLast?_linearMatches h.covers ⟨op, h.mem, rfl⟩]
  · have hnone : after.filter (fun other => other.1 = op.1) = [] := by
      rw [List.filter_eq_nil_iff]
      intro other hother heq
      have heq := of_decide_eq_true heq
      have hshorter := hafter other hother (heq ▸ h.covers)
      rw [heq] at hshorter
      exact lt_irrefl _ hshorter
    simp [List.filter_append, hnone]
  · intro other hother hcovers
    rcases List.mem_append.mp hother with hother | hother
    · exact hbefore other hother hcovers
    · rcases List.mem_cons.mp hother with rfl | hother
      · exact le_rfl
      · exact (hafter other hother hcovers).le

/-! ## Refinement -/

/--
Inserting into a fresh tree and looking a path up is a scan of the inserted
pairs: the callback runs once for every value whose prefix covers the path,
and `find_best` takes the first value of least key among them.
-/
theorem insertAll_refines_linear_scan {V : Type v} [LinearOrder V]
    (ops : List (Bytes × T)) :
    ∃ tree, (new : PathRadixTree T).insertAll ops = some tree ∧
      (∀ (path : Bytes) {σ : Type w} (callback : σ → T → σ) (state : σ),
        tree.forEachMatch path callback state =
          some ((linearMatches ops path).foldl callback state)) ∧
      ∀ (path : Bytes) (filter : T → Bool) (keyFn : T → V),
        ∃ best, tree.findBest path filter keyFn = some best ∧
          (best = none ↔ ∀ value ∈ linearMatches ops path, filter value = false) ∧
          ∀ value, best = some value → ∃ before after,
            IsFirstMin filter keyFn (linearMatches ops path) value before after := by
  obtain ⟨tree, htree, hrep⟩ := insertAll_new_represents ops
  refine ⟨tree, htree, fun path σ callback state =>
    forEachMatch_eq_foldl hrep path callback state, ?_⟩
  intro path filter keyFn
  rw [findBest, forEachMatch_eq_foldl hrep]
  rcases foldl_findBestCallback filter keyFn (linearMatches ops path) with
    ⟨hfold, hnone⟩ | ⟨value, before, after, hfold, hmin⟩
  · exact ⟨none, by rw [hfold]; rfl, ⟨fun _ => hnone, fun _ => rfl⟩, by simp⟩
  · refine ⟨some value, by rw [hfold]; rfl, ⟨by simp, fun hnone => ?_⟩, ?_⟩
    · have hmem : value ∈ (linearMatches ops path).filter filter := by
        rw [hmin.split]
        simp
      have := List.mem_filter.mp hmem
      rw [hnone value this.1] at this
      simp at this
    · intro v hv
      obtain rfl := Option.some.inj hv
      exact ⟨before, after, hmin⟩

example :
    ((new : PathRadixTree Nat).insertAll
        [(ascii "/api", 1), (ascii "/", 2), (ascii "/ap", 3), (ascii "/api", 4)]).bind
      (fun tree => tree.forEachMatch (ascii "/api/v1") (fun l v => l ++ [v]) []) =
      some [2, 1, 4] := by decide

end PathRadixTree

/-! ## Trees that an engine owns -/

open PathRadixTree

structure BuiltTree (T : Type u) where
  tree : PathRadixTree T
  inserted : List (Bytes × T)
  built : (new : PathRadixTree T).insertAll inserted = some tree

namespace BuiltTree

theorem insertAll_isSome (ops : List (Bytes × T)) :
    ((new : PathRadixTree T).insertAll ops).isSome = true := by
  obtain ⟨tree, htree, -⟩ := insertAll_new_represents ops
  rw [htree]
  rfl

def ofList (ops : List (Bytes × T)) : BuiltTree T where
  tree := ((new : PathRadixTree T).insertAll ops).get (insertAll_isSome ops)
  inserted := ops
  built := (Option.some_get _).symm

@[simp] theorem ofList_inserted (ops : List (Bytes × T)) :
    (ofList ops).inserted = ops := rfl

variable (t : BuiltTree T)

theorem represents : Represents t.tree.nodes (table t.inserted) := by
  obtain ⟨tree, htree, hrep⟩ := insertAll_new_represents t.inserted
  rw [t.built] at htree
  obtain rfl := Option.some.inj htree
  exact hrep

theorem forEachMatch_isSome {σ : Type v} (path : Bytes) (callback : σ → T → σ) (state : σ) :
    (t.tree.forEachMatch path callback state).isSome = true := by
  rw [forEachMatch_eq_foldl t.represents]
  rfl

def forEachMatch (t : BuiltTree T) {σ : Type v} (path : Bytes)
    (callback : σ → T → σ) (state : σ) : σ :=
  (t.tree.forEachMatch path callback state).get
    (t.forEachMatch_isSome path callback state)

def matching (t : BuiltTree T) (path : Bytes) : List T :=
  linearMatches t.inserted path

theorem mem_matching {t : BuiltTree T} {path : Bytes} {value : T} :
    value ∈ t.matching path ↔ ∃ p, (p, value) ∈ t.inserted ∧ Covers p path := by
  simp [matching, linearMatches]

theorem forEachMatch_eq {σ : Type v} (path : Bytes) (callback : σ → T → σ) (state : σ) :
    t.forEachMatch path callback state = (t.matching path).foldl callback state := by
  have h := forEachMatch_eq_foldl t.represents path callback state
  simp only [forEachMatch, h, Option.get_some]
  rfl

end BuiltTree

end AuroraGateway.Engine
