import AuroraGateway.Engine.Radix
import Mathlib.Logic.Relation

/-!
# The arena invariant of the path radix tree

Every node but the root is a child of some node, child labels are nonempty and
have distinct first bytes, and the full prefix of a child is the full prefix
of its parent followed by its own label.  Under this invariant the descent
along a path is deterministic and meets every node whose full prefix is a
prefix of the path; in particular full prefixes identify nodes.
-/

namespace AuroraGateway.Engine.PathRadixTree

open Foundation
open Relation

universe u

variable {T : Type u} {children : List (UInt8 × Nat)} {nodes : List (RadixNode T)}

theorem mem_of_findChild {byte : UInt8} {idx : Nat} (h : findChild children byte = some idx) :
    (byte, idx) ∈ children := by
  obtain ⟨⟨b, c⟩, hfind, rfl⟩ := Option.map_eq_some_iff.mp h
  have hbyte := List.find?_some hfind
  simp only [beq_iff_eq] at hbyte
  subst hbyte
  exact List.mem_of_find?_eq_some hfind

theorem findChild_of_mem {byte : UInt8} {idx : Nat} (hdistinct : (children.map Prod.fst).Nodup)
    (h : (byte, idx) ∈ children) :
    findChild children byte = some idx := by
  induction children with
  | nil => simp at h
  | cons child children ih =>
    obtain ⟨b, c⟩ := child
    simp only [List.map_cons, List.nodup_cons] at hdistinct
    rcases List.mem_cons.mp h with heq | hmem
    · simp only [Prod.mk.injEq] at heq
      simp [findChild, heq.1, heq.2]
    · have hne : b ≠ byte := by
        rintro rfl
        exact hdistinct.1 (List.mem_map_of_mem hmem)
      simpa [findChild, hne] using ih hdistinct.2 hmem

structure ArenaWF (nodes : List (RadixNode T)) : Prop where
  root : ∃ node, nodes[0]? = some node ∧ node.fullPrefix = node.edgePrefix
  child : ∀ {i : Nat} {node : RadixNode T} {byte : UInt8} {c : Nat},
    nodes[i]? = some node → (byte, c) ∈ node.children →
    c ≠ 0 ∧ ∃ (target : RadixNode T) (tail : Bytes), nodes[c]? = some target ∧
      target.edgePrefix = byte :: tail ∧
      target.fullPrefix = node.fullPrefix ++ byte :: tail
  distinct : ∀ {i : Nat} {node : RadixNode T}, nodes[i]? = some node →
    (node.children.map Prod.fst).Nodup
  parent : ∀ {j : Nat} {node : RadixNode T}, nodes[j]? = some node → j ≠ 0 →
    ∃ (i : Nat) (above : RadixNode T) (byte : UInt8),
      nodes[i]? = some above ∧ (byte, j) ∈ above.children

/-! ## Descent -/

/-- One iteration of a descent: consume a label and follow the next byte. -/
def Step (nodes : List (RadixNode T)) (s t : Nat × Bytes) : Prop :=
  ∃ node byte rest, nodes[s.1]? = some node ∧
    s.2 = node.edgePrefix ++ byte :: rest ∧
    findChild node.children byte = some t.1 ∧ t.2 = byte :: rest

def Descends (nodes : List (RadixNode T)) (path : Bytes) (s : Nat × Bytes) : Prop :=
  ReflTransGen (Step nodes) (0, path) s

theorem step_rightUnique (nodes : List (RadixNode T)) :
    Relator.RightUnique (Step nodes) := by
  rintro s ⟨i, r⟩ ⟨i', r'⟩ ⟨node, byte, rest, hnode, hrem, hfind, hr⟩
    ⟨node', byte', rest', hnode', hrem', hfind', hr'⟩
  rw [hnode] at hnode'
  obtain rfl := Option.some.inj hnode'
  rw [hrem] at hrem'
  obtain ⟨rfl, rfl⟩ := List.cons.inj (List.append_cancel_left hrem')
  rw [hfind] at hfind'
  exact Prod.ext (Option.some.inj hfind') (hr.trans hr'.symm)

theorem not_step_of_eq_edge {i : Nat} {node : RadixNode T} (hnode : nodes[i]? = some node)
    (s : Nat × Bytes) :
    ¬ Step nodes (i, node.edgePrefix) s := by
  rintro ⟨node', byte, rest, hnode', hrem, -, -⟩
  rw [hnode] at hnode'
  obtain rfl := Option.some.inj hnode'
  have := congrArg List.length hrem
  simp only [List.length_append, List.length_cons] at this
  omega

theorem eq_of_reflTransGen_of_stuck {s t : Nat × Bytes} (hstuck : ∀ u, ¬ Step nodes s u)
    (h : ReflTransGen (Step nodes) s t) : t = s := by
  rcases ReflTransGen.cases_head h with heq | ⟨u, hstep, -⟩
  · exact heq.symm
  · exact absurd hstep (hstuck u)

namespace ArenaWF

variable {nodes : List (RadixNode T)}

variable {j : Nat} {node : RadixNode T}

section

variable (hwf : ArenaWF nodes)
include hwf

theorem descends (hnode : nodes[j]? = some node) (rest : Bytes) :
    Descends nodes (node.fullPrefix ++ rest) (j, node.edgePrefix ++ rest) := by
  induction hlen : node.fullPrefix.length using Nat.strong_induction_on
      generalizing j node rest with
  | _ len ih =>
    by_cases hj : j = 0
    · subst hj
      obtain ⟨root, hroot, hfull⟩ := hwf.root
      rw [hnode] at hroot
      obtain rfl := Option.some.inj hroot
      rw [hfull]
      exact ReflTransGen.refl
    · obtain ⟨i, above, byte, habove, hmem⟩ := hwf.parent hnode hj
      obtain ⟨-, target, tail, htarget, hedge, hfull⟩ := hwf.child habove hmem
      rw [hnode] at htarget
      obtain rfl := Option.some.inj htarget
      have hshort : above.fullPrefix.length < len := by
        rw [← hlen, hfull]
        simp
      have hreach := ih _ hshort habove (byte :: tail ++ rest) rfl
      rw [hfull, List.append_assoc]
      refine hreach.tail ⟨above, byte, tail ++ rest, habove, rfl,
        findChild_of_mem (hwf.distinct habove) hmem, ?_⟩
      rw [hedge]
      rfl

theorem fullPrefix_injective {i : Nat} {node' : RadixNode T} (hi : nodes[i]? = some node)
    (hj : nodes[j]? = some node') (hfull : node.fullPrefix = node'.fullPrefix) : i = j := by
  have di := hwf.descends hi []
  have dj := hwf.descends hj []
  rw [List.append_nil, List.append_nil] at di dj
  rw [hfull] at di
  rcases ReflTransGen.total_of_right_unique (step_rightUnique nodes) di dj with h | h
  · exact (congrArg Prod.fst
      (eq_of_reflTransGen_of_stuck (not_step_of_eq_edge hi) h)).symm
  · exact congrArg Prod.fst
      (eq_of_reflTransGen_of_stuck (not_step_of_eq_edge hj) h)

theorem fullPrefix_ne_of_stuck {path rem : Bytes} {i : Nat} (hnode : nodes[i]? = some node)
    (hreach : Descends nodes path (i, rem)) (hstuck : ∀ u, ¬ Step nodes (i, rem) u)
    (hrem : rem ≠ node.edgePrefix) {node' : RadixNode T} (hj : nodes[j]? = some node') :
    node'.fullPrefix ≠ path := by
  rintro rfl
  have dj := hwf.descends hj []
  rw [List.append_nil, List.append_nil] at dj
  have hsame : (j, node'.edgePrefix) = (i, rem) := by
    rcases ReflTransGen.total_of_right_unique (step_rightUnique nodes) hreach dj
      with h | h
    · exact eq_of_reflTransGen_of_stuck hstuck h
    · exact (eq_of_reflTransGen_of_stuck (not_step_of_eq_edge hj) h).symm
  obtain ⟨rfl, rfl⟩ := Prod.mk.inj hsame
  rw [hnode] at hj
  obtain rfl := Option.some.inj hj
  exact hrem rfl

theorem child_ne_self {i : Nat} (hnode : nodes[i]? = some node) {byte : UInt8} {c : Nat}
    (hmem : (byte, c) ∈ node.children) : c ≠ i := by
  rintro rfl
  obtain ⟨-, target, tail, htarget, -, hfull⟩ := hwf.child hnode hmem
  rw [hnode] at htarget
  obtain rfl := Option.some.inj htarget
  have := congrArg List.length hfull
  simp only [List.length_append, List.length_cons] at this
  omega

theorem only_root {root : RadixNode T} (hroot : nodes[0]? = some root)
    (hchildren : root.children = []) (hnode : nodes[j]? = some node) : j = 0 := by
  induction hlen : node.fullPrefix.length using Nat.strong_induction_on
      generalizing j node with
  | _ len ih =>
    by_contra hj
    obtain ⟨i, above, byte, habove, hmem⟩ := hwf.parent hnode hj
    obtain ⟨-, target, tail, htarget, -, hfull⟩ := hwf.child habove hmem
    rw [hnode] at htarget
    obtain rfl := Option.some.inj htarget
    have hi : i = 0 := ih _ (by rw [← hlen, hfull]; simp) habove rfl
    subst hi
    rw [hroot] at habove
    obtain rfl := Option.some.inj habove
    rw [hchildren] at hmem
    simp at hmem

end

end ArenaWF

end AuroraGateway.Engine.PathRadixTree
