import AuroraGateway.Engine.RadixArena
import Mathlib.Logic.Function.Basic

/-!
# Insertion into the path radix tree

Abstractly the tree is a table of value lists indexed by prefixes.  `insert`
appends to one list of the table and leaves the others alone, whatever it does
to the arena: split a label, hang a fresh leaf below a node, or set the label
of the still empty root.
-/

namespace AuroraGateway.Engine.PathRadixTree

open Foundation PathRadixTree
open Relation

universe u

variable {T : Type u}

/-- The arena holds the table `store`, one node for every prefix in use. -/
structure Represents (nodes : List (RadixNode T)) (store : Bytes → List T) : Prop
    extends ArenaWF nodes where
  values_eq : ∀ {i : Nat} {node : RadixNode T}, nodes[i]? = some node →
    node.values = store node.fullPrefix
  covered : ∀ {p : Bytes}, store p ≠ [] →
    ∃ (i : Nat) (node : RadixNode T), nodes[i]? = some node ∧ node.fullPrefix = p

def tableInsert (store : Bytes → List T) (p : Bytes) (value : T) : Bytes → List T :=
  Function.update store p (store p ++ [value])

theorem represents_new :
    Represents (new : PathRadixTree T).nodes fun _ => [] where
  root := ⟨_, rfl, rfl⟩
  child := by
    intro i node byte c hnode hmem
    cases i with
    | zero =>
      obtain rfl := Option.some.inj hnode
      simp at hmem
    | succ i => simp [new] at hnode
  distinct := by
    intro i node hnode
    cases i with
    | zero =>
      obtain rfl := Option.some.inj hnode
      simp
    | succ i => simp [new] at hnode
  parent := by
    intro j node hnode hj
    cases j with
    | zero => exact absurd rfl hj
    | succ j => simp [new] at hnode
  values_eq := by
    intro i node hnode
    cases i with
    | zero =>
      obtain rfl := Option.some.inj hnode
      rfl
    | succ i => simp [new] at hnode
  covered := fun h => absurd rfl h

/-! ## Writing one cell of the arena -/

private theorem lt_of_getElem? {nodes : List (RadixNode T)} {i : Nat}
    {node : RadixNode T} (h : nodes[i]? = some node) : i < nodes.length :=
  (List.getElem?_eq_some_iff.mp h).1

private theorem getElem?_append_set {nodes : List (RadixNode T)} {idx : Nat}
    (hidx : idx < nodes.length) (fresh written : RadixNode T) (k : Nat) :
    ((nodes ++ [fresh]).set idx written)[k]? =
      if k = idx then some written
      else if k = nodes.length then some fresh
      else nodes[k]? := by
  rw [List.getElem?_set]
  by_cases hk : k = idx
  · subst hk
    simp
    omega
  · rw [if_neg (Ne.symm hk), if_neg hk]
    by_cases hlast : k = nodes.length
    · subst hlast
      simp
    · rw [List.getElem?_append]
      split
      · rfl
      · rw [List.getElem?_eq_none (by simp; omega), List.getElem?_eq_none (by omega)]

private theorem getElem?_set' {nodes : List (RadixNode T)} {idx : Nat}
    (hidx : idx < nodes.length) (written : RadixNode T) (k : Nat) :
    (nodes.set idx written)[k]? = if k = idx then some written else nodes[k]? := by
  rw [List.getElem?_set]
  by_cases hk : k = idx
  · subst hk
    simp [hidx]
  · rw [if_neg (Ne.symm hk), if_neg hk]

def Carries (nodes nodes' : List (RadixNode T)) : Prop :=
  ∀ (k : Nat) (m : RadixNode T), nodes[k]? = some m →
    ∃ m', nodes'[k]? = some m' ∧ m'.edgePrefix = m.edgePrefix ∧
      m'.fullPrefix = m.fullPrefix ∧ m.children ⊆ m'.children

namespace Carries

variable {nodes nodes' : List (RadixNode T)}

section

variable (h : Carries nodes nodes')
include h

theorem root (hwf : ArenaWF nodes) :
    ∃ node, nodes'[0]? = some node ∧ node.fullPrefix = node.edgePrefix := by
  obtain ⟨root, hroot, hfull⟩ := hwf.root
  obtain ⟨root', hroot', hedge, hfull', -⟩ := h 0 root hroot
  exact ⟨root', hroot', by rw [hfull', hedge, hfull]⟩

theorem child (hwf : ArenaWF nodes) {i : Nat} {node : RadixNode T} {byte : UInt8} {c : Nat}
    (hnode : nodes[i]? = some node) (hmem : (byte, c) ∈ node.children) :
    c ≠ 0 ∧ ∃ (target : RadixNode T) (tail : Bytes), nodes'[c]? = some target ∧
      target.edgePrefix = byte :: tail ∧
      target.fullPrefix = node.fullPrefix ++ byte :: tail := by
  obtain ⟨hc, target, tail, htarget, hedge, hfull⟩ := hwf.child hnode hmem
  obtain ⟨target', htarget', hedge', hfull', -⟩ := h c target htarget
  exact ⟨hc, target', tail, htarget', hedge'.trans hedge, hfull'.trans hfull⟩

theorem parent (hwf : ArenaWF nodes) {j : Nat} {node : RadixNode T} (hnode : nodes[j]? = some node)
    (hj : j ≠ 0) : ∃ (i : Nat) (above : RadixNode T) (byte : UInt8),
      nodes'[i]? = some above ∧ (byte, j) ∈ above.children := by
  obtain ⟨i, above, byte, habove, hmem⟩ := hwf.parent hnode hj
  obtain ⟨above', habove', -, -, hsub⟩ := h i above habove
  exact ⟨i, above', byte, habove', hsub hmem⟩

theorem covered {store : Bytes → List T} (hrep : Represents nodes store) {p : Bytes}
    (hp : store p ≠ []) :
    ∃ (i : Nat) (node : RadixNode T), nodes'[i]? = some node ∧ node.fullPrefix = p := by
  obtain ⟨i, m, hm, hfull⟩ := hrep.covered hp
  obtain ⟨m', hm', -, hfull', -⟩ := h i m hm
  exact ⟨i, m', hm', hfull'.trans hfull⟩

end

end Carries

namespace Represents

variable {nodes : List (RadixNode T)} {store : Bytes → List T}

/-! ## Appending a value -/

variable {idx kept : Nat} {node : RadixNode T} {byte : UInt8} {base : Bytes}

theorem carries_pushValue (hnode : nodes[idx]? = some node)
    (value : T) : Carries nodes (pushValue nodes idx node value) := by
  intro k m hm
  have hget := getElem?_set' (lt_of_getElem? hnode)
    { node with values := node.values ++ [value] } k
  by_cases hk : k = idx
  · subst hk
    rw [hnode] at hm
    obtain rfl := Option.some.inj hm
    exact ⟨_, hget.trans (if_pos rfl), rfl, rfl, List.Subset.refl _⟩
  · exact ⟨m, hget.trans ((if_neg hk).trans hm), rfl, rfl, List.Subset.refl _⟩

theorem of_getElem?_pushValue
    (hnode : nodes[idx]? = some node) {value : T} {k : Nat} {m' : RadixNode T}
    (hm' : (pushValue nodes idx node value)[k]? = some m') :
    ∃ m, nodes[k]? = some m ∧ m'.fullPrefix = m.fullPrefix ∧ m'.children = m.children ∧
      m'.values = if k = idx then m.values ++ [value] else m.values := by
  have hget := getElem?_set' (lt_of_getElem? hnode)
    { node with values := node.values ++ [value] } k
  have hk := hget.symm.trans hm'
  split at hk
  · rename_i heq
    subst heq
    obtain rfl := Option.some.inj hk
    exact ⟨node, hnode, rfl, rfl, by simp⟩
  · rename_i hne
    exact ⟨m', hk, rfl, rfl, by simp [hne]⟩

section

variable (hrep : Represents nodes store)
include hrep

theorem pushValue (hnode : nodes[idx]? = some node) (value : T) :
    Represents (pushValue nodes idx node value)
      (tableInsert store node.fullPrefix value) := by
  have hcarries := carries_pushValue hnode value
  refine ⟨⟨hcarries.root hrep.toArenaWF, ?_, ?_, ?_⟩, ?_, ?_⟩
  · intro i m' byte c hm' hmem
    obtain ⟨m, hm, hfull, hchildren, -⟩ := of_getElem?_pushValue hnode hm'
    rw [hchildren] at hmem
    rw [hfull]
    exact hcarries.child hrep.toArenaWF hm hmem
  · intro i m' hm'
    obtain ⟨m, hm, -, hchildren, -⟩ := of_getElem?_pushValue hnode hm'
    rw [hchildren]
    exact hrep.distinct hm
  · intro j m' hm' hj
    obtain ⟨m, hm, -⟩ := of_getElem?_pushValue hnode hm'
    exact hcarries.parent hrep.toArenaWF hm hj
  · intro i m' hm'
    obtain ⟨m, hm, hfull, -, hvalues⟩ := of_getElem?_pushValue hnode hm'
    rw [hvalues, hfull, tableInsert]
    by_cases hi : i = idx
    · subst hi
      rw [hnode] at hm
      obtain rfl := Option.some.inj hm
      rw [if_pos rfl, Function.update_self, hrep.values_eq hnode]
    · have hne : m.fullPrefix ≠ node.fullPrefix :=
        fun heq => hi (hrep.fullPrefix_injective hm hnode heq)
      rw [if_neg hi, Function.update_of_ne hne, hrep.values_eq hm]
  · intro p hp
    by_cases heq : p = node.fullPrefix
    · obtain ⟨node', hnode', -, hfull, -⟩ := hcarries idx node hnode
      exact ⟨idx, node', hnode', hfull.trans heq.symm⟩
    · rw [tableInsert, Function.update_of_ne heq] at hp
      exact hcarries.covered hrep hp

/-! ## Hanging a leaf below a node -/

theorem fullPrefix_ne_of_findChild (hnode : nodes[idx]? = some node)
    (hfind : findChild node.children byte = none) (rest : Bytes) {j : Nat} {m : RadixNode T}
    (hm : nodes[j]? = some m) : m.fullPrefix ≠ node.fullPrefix ++ byte :: rest := by
  refine hrep.fullPrefix_ne_of_stuck hnode (hrep.descends hnode (byte :: rest))
    ?_ ?_ hm
  · rintro u ⟨node', byte', rest', hnode', hrem, hfind', -⟩
    rw [hnode] at hnode'
    obtain rfl := Option.some.inj hnode'
    obtain ⟨rfl, -⟩ := List.cons.inj (List.append_cancel_left hrem)
    rw [hfind] at hfind'
    contradiction
  · intro heq
    have := congrArg List.length heq
    simp only [List.length_append, List.length_cons] at this
    omega

theorem store_eq_nil {p : Bytes}
    (hfresh : ∀ {j : Nat} {m : RadixNode T}, nodes[j]? = some m → m.fullPrefix ≠ p) :
    store p = [] := by
  by_contra hp
  obtain ⟨j, m, hm, hfull⟩ := hrep.covered hp
  exact hfresh hm hfull

end

section PushChild

variable {idx : Nat} {node : RadixNode T} (hnode : nodes[idx]? = some node) {byte : UInt8}
  {rest : Bytes} {value : T}

include hnode

theorem getElem?_pushChild (k : Nat) :
    (pushChild nodes idx node byte (byte :: rest) value)[k]? =
      if k = idx then some { node with children := node.children ++ [(byte, nodes.length)] }
      else if k = nodes.length then
        some ⟨byte :: rest, node.fullPrefix ++ byte :: rest, [], [value]⟩
      else nodes[k]? :=
  getElem?_append_set (lt_of_getElem? hnode) _ _ k

theorem getElem?_pushChild_leaf :
    (pushChild nodes idx node byte (byte :: rest) value)[nodes.length]? =
      some ⟨byte :: rest, node.fullPrefix ++ byte :: rest, [], [value]⟩ := by
  have hidx := lt_of_getElem? hnode
  rw [getElem?_pushChild hnode, if_neg (by omega), if_pos rfl]

theorem carries_pushChild :
    Carries nodes (pushChild nodes idx node byte (byte :: rest) value) := by
  intro k m hm
  have hk := lt_of_getElem? hm
  have hget := @getElem?_pushChild _ nodes idx node hnode byte rest value k
  by_cases heq : k = idx
  · subst heq
    rw [hnode] at hm
    obtain rfl := Option.some.inj hm
    exact ⟨_, hget.trans (if_pos rfl), rfl, rfl, by simp⟩
  · exact ⟨m, hget.trans ((if_neg heq).trans ((if_neg (by omega)).trans hm)), rfl, rfl,
      List.Subset.refl _⟩

variable {m' : RadixNode T}

theorem of_getElem?_pushChild {k : Nat}
    (hm' : (pushChild nodes idx node byte (byte :: rest) value)[k]? =
      some m') :
    (k = nodes.length ∧
      m' = ⟨byte :: rest, node.fullPrefix ++ byte :: rest, [], [value]⟩) ∨
    ∃ m, nodes[k]? = some m ∧ m'.fullPrefix = m.fullPrefix ∧ m'.values = m.values ∧
      m'.children = if k = idx then m.children ++ [(byte, nodes.length)]
        else m.children := by
  rw [getElem?_pushChild hnode] at hm'
  split at hm'
  · rename_i heq
    subst heq
    obtain rfl := Option.some.inj hm'
    exact .inr ⟨node, hnode, rfl, rfl, by simp⟩
  · rename_i hne
    split at hm'
    · rename_i hlast
      exact .inl ⟨hlast, (Option.some.inj hm').symm⟩
    · exact .inr ⟨m', hm', rfl, rfl, by simp [hne]⟩

theorem child_pushChild (hrep : Represents nodes store) {i : Nat}
    {b : UInt8} {c : Nat}
    (hm' : (pushChild nodes idx node byte (byte :: rest) value)[i]? = some m')
    (hmem : (b, c) ∈ m'.children) :
    c ≠ 0 ∧ ∃ (target : RadixNode T) (tail : Bytes),
      (pushChild nodes idx node byte (byte :: rest) value)[c]? = some target ∧
      target.edgePrefix = b :: tail ∧ target.fullPrefix = m'.fullPrefix ++ b :: tail := by
  have hidx := lt_of_getElem? hnode
  rcases of_getElem?_pushChild hnode hm' with ⟨-, rfl⟩ | ⟨m, hm, hfull, -, hchildren⟩
  · simp at hmem
  · rw [hchildren] at hmem
    rw [hfull]
    split at hmem
    · rename_i hi
      subst hi
      rw [hnode] at hm
      obtain rfl := Option.some.inj hm
      rcases List.mem_append.mp hmem with hold | hnew
      · exact (carries_pushChild hnode).child hrep.toArenaWF hnode hold
      · obtain ⟨rfl, rfl⟩ := Prod.mk.inj (List.mem_singleton.mp hnew)
        exact ⟨by omega, _, rest, getElem?_pushChild_leaf hnode, rfl, rfl⟩
    · exact (carries_pushChild hnode).child hrep.toArenaWF hm hmem

theorem distinct_pushChild (hrep : Represents nodes store)
    (hfind : findChild node.children byte = none) {i : Nat}
    (hm' : (pushChild nodes idx node byte (byte :: rest) value)[i]? =
      some m') :
    (m'.children.map Prod.fst).Nodup := by
  rcases of_getElem?_pushChild hnode hm' with ⟨-, rfl⟩ | ⟨m, hm, -, -, hchildren⟩
  · simp
  · rw [hchildren]
    split
    · rename_i hi
      subst hi
      rw [hnode] at hm
      obtain rfl := Option.some.inj hm
      rw [List.map_append, List.nodup_append]
      refine ⟨hrep.distinct hnode, by simp, ?_⟩
      rintro b hb b' hb' rfl
      obtain ⟨⟨b₀, c⟩, hmem, rfl⟩ := List.mem_map.mp hb
      have hbyte : b₀ = byte := by simpa using hb'
      subst hbyte
      rw [findChild_of_mem (hrep.distinct hnode) hmem] at hfind
      contradiction
    · exact hrep.distinct hm

end PushChild

theorem pushChild (hrep : Represents nodes store)
    (hnode : nodes[idx]? = some node)
    (hfind : findChild node.children byte = none) (rest : Bytes) (value : T) :
    Represents (pushChild nodes idx node byte (byte :: rest) value)
      (tableInsert store (node.fullPrefix ++ byte :: rest) value) := by
  have hfresh : ∀ {j : Nat} {m : RadixNode T}, nodes[j]? = some m →
      m.fullPrefix ≠ node.fullPrefix ++ byte :: rest :=
    fun hm => hrep.fullPrefix_ne_of_findChild hnode hfind rest hm
  have hempty := hrep.store_eq_nil hfresh
  have hcarries := @carries_pushChild _ nodes idx node hnode byte rest value
  refine ⟨⟨hcarries.root hrep.toArenaWF, child_pushChild hnode hrep,
    distinct_pushChild hnode hrep hfind, ?_⟩, ?_, ?_⟩
  · intro j m' hm' hj
    rcases of_getElem?_pushChild hnode hm' with ⟨rfl, -⟩ | ⟨m, hm, -⟩
    · exact ⟨idx, _, byte, (getElem?_pushChild hnode idx).trans (if_pos rfl), by simp⟩
    · exact hcarries.parent hrep.toArenaWF hm hj
  · intro i m' hm'
    rcases of_getElem?_pushChild hnode hm' with ⟨-, rfl⟩ | ⟨m, hm, hfull, hvalues, -⟩
    · simp [tableInsert, hempty]
    · rw [hvalues, hfull, tableInsert, Function.update_of_ne (hfresh hm),
        hrep.values_eq hm]
  · intro p hp
    by_cases heq : p = node.fullPrefix ++ byte :: rest
    · exact ⟨nodes.length, _, getElem?_pushChild_leaf hnode, heq.symm⟩
    · rw [tableInsert, Function.update_of_ne heq] at hp
      exact hcarries.covered hrep hp

/-! ## Splitting a label -/

/--
No node stands for a prefix that ends strictly inside a label.  Below the root
at least one byte of the label is kept, which is the byte the descent followed.
-/
theorem fullPrefix_ne_of_split (hrep : Represents nodes store) (hnode : nodes[idx]? = some node)
    (hbase : node.fullPrefix = base ++ node.edgePrefix)
    (hkept : kept < node.edgePrefix.length) (hpos : idx = 0 ∨ 0 < kept) {j : Nat}
    {m : RadixNode T} (hm : nodes[j]? = some m) :
    m.fullPrefix ≠ base ++ node.edgePrefix.take kept := by
  have hlen : (node.edgePrefix.take kept).length = kept := by
    rw [List.length_take]
    omega
  have hreach : Descends nodes (base ++ node.edgePrefix.take kept)
      (idx, node.edgePrefix.take kept) := by
    by_cases hidx : idx = 0
    · subst hidx
      obtain ⟨root, hroot, hfull⟩ := hrep.root
      rw [hnode] at hroot
      obtain rfl := Option.some.inj hroot
      have hnil : base = [] := by
        have := congrArg List.length (hbase.symm.trans hfull)
        simpa using this
      rw [hnil]
      exact ReflTransGen.refl
    · obtain ⟨i, above, byte, habove, hmem⟩ := hrep.parent hnode hidx
      obtain ⟨-, target, rest, htarget, hedge, hfull⟩ := hrep.child habove hmem
      rw [hnode] at htarget
      obtain rfl := Option.some.inj htarget
      obtain ⟨k, rfl⟩ := Nat.exists_eq_succ_of_ne_zero
        (Nat.pos_iff_ne_zero.mp (hpos.resolve_left hidx))
      have hparent : base = above.fullPrefix := by
        rw [hbase, hedge] at hfull
        exact List.append_cancel_right hfull
      have htake : node.edgePrefix.take (k + 1) = byte :: rest.take k := by
        rw [hedge, List.take_succ_cons]
      rw [htake, hparent]
      exact (hrep.descends habove (byte :: rest.take k)).tail
        ⟨above, byte, rest.take k, habove, rfl,
          findChild_of_mem (hrep.distinct habove) hmem, rfl⟩
  refine hrep.fullPrefix_ne_of_stuck hnode hreach ?_ ?_ hm
  · rintro u ⟨node', byte, rest, hnode', hrem, -⟩
    dsimp only at hnode' hrem
    rw [hnode] at hnode'
    obtain rfl := Option.some.inj hnode'
    have := congrArg List.length hrem
    rw [List.length_append] at this
    omega
  · intro heq
    have := congrArg List.length heq
    omega

/-- The arena after a split: the node at `idx` keeps the front of its label and has one
child, a fresh node with the rest of the label and everything else. -/
def splitArena (nodes : List (RadixNode T)) (idx : Nat) (node : RadixNode T) (base : Bytes)
    (kept : Nat) (byte : UInt8) (rest : Bytes) : List (RadixNode T) :=
  (nodes ++ [{ node with edgePrefix := byte :: rest }]).set idx
    ⟨node.edgePrefix.take kept, base ++ node.edgePrefix.take kept, [(byte, nodes.length)], []⟩

section Split

variable {idx : Nat} {node : RadixNode T} (hnode : nodes[idx]? = some node) {base : Bytes}
  {kept : Nat} {byte : UInt8} {rest : Bytes}

include hnode

theorem getElem?_splitArena (k : Nat) :
    (splitArena nodes idx node base kept byte rest)[k]? =
      if k = idx then some ⟨node.edgePrefix.take kept, base ++ node.edgePrefix.take kept,
        [(byte, nodes.length)], []⟩
      else if k = nodes.length then some { node with edgePrefix := byte :: rest }
      else nodes[k]? :=
  getElem?_append_set (lt_of_getElem? hnode) _ _ k

theorem getElem?_splitArena_last :
    (splitArena nodes idx node base kept byte rest)[nodes.length]? =
      some { node with edgePrefix := byte :: rest } := by
  have hidx := lt_of_getElem? hnode
  rw [getElem?_splitArena hnode, if_neg (by omega), if_pos rfl]

theorem getElem?_splitArena_of_ne {k : Nat} {m : RadixNode T} (hm : nodes[k]? = some m)
    (hk : k ≠ idx) : (splitArena nodes idx node base kept byte rest)[k]? = some m := by
  have hlt := lt_of_getElem? hm
  rw [getElem?_splitArena hnode, if_neg hk, if_neg (by omega), hm]

variable {m' : RadixNode T}

theorem of_getElem?_splitArena {k : Nat}
    (hm' : (splitArena nodes idx node base kept byte rest)[k]? = some m') :
    (k = idx ∧ m' = ⟨node.edgePrefix.take kept, base ++ node.edgePrefix.take kept,
      [(byte, nodes.length)], []⟩) ∨
    (k = nodes.length ∧ m' = { node with edgePrefix := byte :: rest }) ∨
    (k ≠ idx ∧ nodes[k]? = some m') := by
  rw [getElem?_splitArena hnode] at hm'
  split at hm'
  · rename_i heq
    exact .inl ⟨heq, (Option.some.inj hm').symm⟩
  · rename_i hne
    split at hm'
    · rename_i hlast
      exact .inr (.inl ⟨hlast, (Option.some.inj hm').symm⟩)
    · exact .inr (.inr ⟨hne, hm'⟩)

variable (hbase : node.fullPrefix = base ++ node.edgePrefix)
  (hlabel : node.edgePrefix = node.edgePrefix.take kept ++ byte :: rest)

include hbase

theorem root_splitArena (hrep : Represents nodes store) :
    ∃ root, (splitArena nodes idx node base kept byte rest)[0]? = some root ∧
      root.fullPrefix = root.edgePrefix := by
  obtain ⟨root, hroot, hfull⟩ := hrep.root
  by_cases h0 : idx = 0
  · subst h0
    rw [hnode] at hroot
    obtain rfl := Option.some.inj hroot
    have hnil : base = [] := by
      have := congrArg List.length (hbase.symm.trans hfull)
      simpa using this
    refine ⟨_, (getElem?_splitArena hnode 0).trans (if_pos rfl), ?_⟩
    rw [hnil]
    rfl
  · exact ⟨root, getElem?_splitArena_of_ne hnode hroot (Ne.symm h0), hfull⟩

include hlabel

theorem child_splitArena (hrep : Represents nodes store) (hpos : idx = 0 ∨ 0 < kept)
    {i : Nat} {b : UInt8} {c : Nat}
    (hm' : (splitArena nodes idx node base kept byte rest)[i]? = some m')
    (hmem : (b, c) ∈ m'.children) :
    c ≠ 0 ∧ ∃ (target : RadixNode T) (tail : Bytes),
      (splitArena nodes idx node base kept byte rest)[c]? = some target ∧
      target.edgePrefix = b :: tail ∧ target.fullPrefix = m'.fullPrefix ++ b :: tail := by
  have hidx := lt_of_getElem? hnode
  rcases of_getElem?_splitArena hnode hm' with ⟨-, rfl⟩ | ⟨-, rfl⟩ | ⟨hi, hm⟩
  · obtain ⟨rfl, rfl⟩ := Prod.mk.inj (List.mem_singleton.mp hmem)
    refine ⟨by omega, _, rest, getElem?_splitArena_last hnode, rfl, ?_⟩
    rw [hbase, List.append_assoc, ← hlabel]
  · obtain ⟨hc, target, t, htarget, hedge, htfull⟩ := hrep.child hnode hmem
    exact ⟨hc, target, t, getElem?_splitArena_of_ne hnode htarget
      (hrep.child_ne_self hnode hmem), hedge, htfull⟩
  · obtain ⟨hc, target, t, htarget, hedge, htfull⟩ := hrep.child hm hmem
    by_cases hcidx : c = idx
    · -- The split node is not the root, so a byte of its label is left to follow.
      subst hcidx
      rw [hnode] at htarget
      obtain rfl := Option.some.inj htarget
      obtain ⟨k, rfl⟩ := Nat.exists_eq_succ_of_ne_zero
        (Nat.pos_iff_ne_zero.mp (hpos.resolve_left hc))
      have hparent : base = m'.fullPrefix := by
        rw [hbase, hedge] at htfull
        exact List.append_cancel_right htfull
      refine ⟨hc, _, t.take k, (getElem?_splitArena hnode c).trans (if_pos rfl), ?_, ?_⟩
      · rw [hedge, List.take_succ_cons]
      · rw [hparent, hedge, List.take_succ_cons]
    · exact ⟨hc, target, t, getElem?_splitArena_of_ne hnode htarget hcidx, hedge, htfull⟩

omit hbase hlabel

theorem parent_splitArena (hrep : Represents nodes store) {j : Nat}
    (hm' : (splitArena nodes idx node base kept byte rest)[j]? = some m') (hj : j ≠ 0) :
    ∃ (i : Nat) (above : RadixNode T) (b : UInt8),
      (splitArena nodes idx node base kept byte rest)[i]? = some above ∧
        (b, j) ∈ above.children := by
  rcases of_getElem?_splitArena hnode hm' with ⟨rfl, -⟩ | ⟨rfl, -⟩ | ⟨hne, hm⟩
  · obtain ⟨i, above, b, habove, hmem⟩ := hrep.parent hnode hj
    have hi : i ≠ j := by
      rintro rfl
      rw [hnode] at habove
      obtain rfl := Option.some.inj habove
      exact hrep.child_ne_self hnode hmem rfl
    exact ⟨i, above, b, getElem?_splitArena_of_ne hnode habove hi, hmem⟩
  · exact ⟨idx, _, byte, (getElem?_splitArena hnode idx).trans (if_pos rfl), by simp⟩
  · obtain ⟨i, above, b, habove, hmem⟩ := hrep.parent hm hj
    by_cases hi : i = idx
    · subst hi
      rw [hnode] at habove
      obtain rfl := Option.some.inj habove
      exact ⟨nodes.length, _, b, getElem?_splitArena_last hnode, hmem⟩
    · exact ⟨i, above, b, getElem?_splitArena_of_ne hnode habove hi, hmem⟩

end Split

theorem represents_splitArena (hrep : Represents nodes store) (hnode : nodes[idx]? = some node)
    (hbase : node.fullPrefix = base ++ node.edgePrefix)
    (hkept : kept < node.edgePrefix.length) (hpos : idx = 0 ∨ 0 < kept)
    {rest : Bytes} (hlabel : node.edgePrefix = node.edgePrefix.take kept ++ byte :: rest) :
    Represents (splitArena nodes idx node base kept byte rest) store := by
  refine ⟨⟨root_splitArena hnode hbase hrep, child_splitArena hnode hbase hlabel hrep hpos,
    ?_, parent_splitArena hnode hrep⟩, ?_, ?_⟩
  · intro i m' hm'
    rcases of_getElem?_splitArena hnode hm' with ⟨-, rfl⟩ | ⟨-, rfl⟩ | ⟨-, hm⟩
    · simp
    · have hdistinct := hrep.distinct hnode
      exact hdistinct
    · exact hrep.distinct hm
  · intro i m' hm'
    rcases of_getElem?_splitArena hnode hm' with ⟨-, rfl⟩ | ⟨-, rfl⟩ | ⟨-, hm⟩
    · exact (hrep.store_eq_nil fun hm =>
        hrep.fullPrefix_ne_of_split hnode hbase hkept hpos hm).symm
    · have hvalues := hrep.values_eq hnode
      exact hvalues
    · exact hrep.values_eq hm
  · intro p hp
    obtain ⟨i, m, hm, hfull⟩ := hrep.covered hp
    by_cases hi : i = idx
    · subst hi
      rw [hnode] at hm
      obtain rfl := Option.some.inj hm
      exact ⟨nodes.length, _, getElem?_splitArena_last hnode, hfull⟩
    · exact ⟨i, m, getElem?_splitArena_of_ne hnode hm hi, hfull⟩

theorem splitNode_eq
    (hbase : node.fullPrefix = base ++ node.edgePrefix)
    {rest : Bytes} (hdrop : node.edgePrefix.drop kept = byte :: rest)
    (hlabel : node.edgePrefix = node.edgePrefix.take kept ++ byte :: rest) :
    splitNode nodes idx node kept =
      some (splitArena nodes idx node base kept byte rest) := by
  have hfull : node.fullPrefix =
      (base ++ node.edgePrefix.take kept) ++ byte :: rest := by
    rw [hbase, List.append_assoc, ← hlabel]
  have hsub : node.fullPrefix.length - (byte :: rest).length =
      (base ++ node.edgePrefix.take kept).length := by
    rw [hfull, List.length_append]
    omega
  have hcut : node.fullPrefix.take (node.fullPrefix.length - (byte :: rest).length) =
      base ++ node.edgePrefix.take kept := by
    rw [hsub, hfull, List.take_left']
    rfl
  simp only [splitNode, hdrop, hcut, splitArena]

section

variable (hrep : Represents nodes store)
include hrep

theorem splitNode (hnode : nodes[idx]? = some node)
    (hbase : node.fullPrefix = base ++ node.edgePrefix) (hkept : kept < node.edgePrefix.length)
    (hpos : idx = 0 ∨ 0 < kept) : ∃ byte rest nodes',
      splitNode nodes idx node kept = some nodes' ∧
      node.edgePrefix.drop kept = byte :: rest ∧
      nodes'[idx]? = some ⟨node.edgePrefix.take kept,
        base ++ node.edgePrefix.take kept, [(byte, nodes.length)], []⟩ ∧
      Represents nodes' store := by
  obtain ⟨byte, rest, hdrop⟩ : ∃ byte rest, node.edgePrefix.drop kept = byte :: rest := by
    cases h : node.edgePrefix.drop kept with
    | nil => simp at h; omega
    | cons byte rest => exact ⟨byte, rest, rfl⟩
  have hlabel : node.edgePrefix = node.edgePrefix.take kept ++ byte :: rest := by
    rw [← hdrop, List.take_append_drop]
  exact ⟨byte, rest, _, splitNode_eq hbase hdrop hlabel, hdrop,
    (getElem?_splitArena hnode idx).trans (if_pos rfl),
    represents_splitArena hrep hnode hbase hkept hpos hlabel⟩

/-! ## The insertion loop -/

/--
The loop head.  Every node below the root shares at least its first byte with
the rest of the key, so each further iteration consumes a byte of the key.
-/
theorem insertLoop (value : T) {fuel : Nat} (hnode : nodes[idx]? = some node) {rem : Bytes}
    (hbase : node.fullPrefix = base ++ node.edgePrefix)
    (hfuel : (idx = 0 ∧ rem.length < fuel) ∨
      ∃ byte t r, node.edgePrefix = byte :: t ∧ rem = byte :: r ∧ rem.length ≤ fuel) :
    ∃ nodes', PathRadixTree.insertLoop value fuel nodes idx rem = some nodes' ∧
      Represents nodes' (tableInsert store (base ++ rem) value) := by
  induction fuel generalizing idx node base rem with
  | zero =>
    rcases hfuel with ⟨-, h⟩ | ⟨byte, t, r, -, rfl, h⟩
    · omega
    · simp at h
  | succ fuel ih =>
    simp only [PathRadixTree.insertLoop, hnode, commonPrefixLen_eq_scalar,
      Option.bind_eq_bind, Option.bind_some]
    have hle := commonPrefixScalar_le_left node.edgePrefix rem
    have htake := take_commonPrefixScalar node.edgePrefix rem
    have hpos : idx = 0 ∨ 0 < commonPrefixScalar node.edgePrefix rem := by
      rcases hfuel with ⟨h, -⟩ | ⟨byte, t, r, hedge, rfl, -⟩
      · exact .inl h
      · rw [hedge, commonPrefixScalar, if_pos rfl]
        omega
    by_cases hsplit :
        commonPrefixScalar node.edgePrefix rem < node.edgePrefix.length
    · obtain ⟨byte, rest, nodes', hsplitNode, hdrop, hnode', hrep'⟩ :=
        hrep.splitNode hnode hbase hsplit hpos
      rw [if_pos hsplit, hsplitNode]
      simp only [Option.bind_some, hnode']
      cases hrem : rem.drop (commonPrefixScalar node.edgePrefix rem) with
      | nil =>
        have hkey : base ++ rem = base ++ node.edgePrefix.take
            (commonPrefixScalar node.edgePrefix rem) := by
          rw [htake, List.take_of_length_le (List.drop_eq_nil_iff.mp hrem)]
        refine ⟨_, rfl, ?_⟩
        rw [hkey]
        exact hrep'.pushValue hnode' value
      | cons first r =>
        have hne := drop_commonPrefixScalar_head_ne hdrop hrem
        have hfind : findChild [(byte, nodes.length)] first = none := by
          simp [findChild, hne]
        have hkey : base ++ rem = base ++ node.edgePrefix.take
            (commonPrefixScalar node.edgePrefix rem) ++ first :: r := by
          rw [htake, List.append_assoc, ← hrem, List.take_append_drop]
        simp only [hfind]
        refine ⟨_, rfl, ?_⟩
        rw [hkey]
        exact hrep'.pushChild hnode' hfind r value
    · have hall : commonPrefixScalar node.edgePrefix rem =
          node.edgePrefix.length := by omega
      have hstarts : rem = node.edgePrefix ++ rem.drop node.edgePrefix.length := by
        rw [hall, List.take_length] at htake
        conv_lhs => rw [← List.take_append_drop node.edgePrefix.length rem, ← htake]
      have hkey : base ++ rem =
          node.fullPrefix ++ rem.drop node.edgePrefix.length := by
        rw [hbase, List.append_assoc, ← hstarts]
      rw [if_neg hsplit, hall]
      cases hrem : rem.drop node.edgePrefix.length with
      | nil =>
        refine ⟨_, rfl, ?_⟩
        rw [hkey, hrem, List.append_nil]
        exact hrep.pushValue hnode value
      | cons first r =>
        cases hfind : findChild node.children first with
        | none =>
          simp only [hfind]
          refine ⟨_, rfl, ?_⟩
          rw [hkey, hrem]
          exact hrep.pushChild hnode hfind r value
        | some next =>
          simp only [hfind]
          obtain ⟨-, target, t, htarget, hedge, hfull⟩ :=
            hrep.child hnode (mem_of_findChild hfind)
          rw [hkey, hrem]
          refine ih htarget (by rw [hfull, hedge]) (.inr ⟨first, t, r, hedge, rfl, ?_⟩)
          have hlen := congrArg List.length hstarts
          rw [hrem, List.length_append] at hlen
          rcases hfuel with ⟨-, h⟩ | ⟨b, t', r', hedge', -, h⟩
          · omega
          · rw [hedge', List.length_cons] at hlen
            omega

theorem insertLoop_root (value : T) {root : RadixNode T} (hroot : nodes[0]? = some root)
    (hfull : root.fullPrefix = root.edgePrefix) (pathPrefix : Bytes) :
    ∃ nodes', PathRadixTree.insertLoop value (pathPrefix.length + 1) nodes 0
        pathPrefix = some nodes' ∧
      Represents nodes' (tableInsert store pathPrefix value) := by
  have hbase : root.fullPrefix = [] ++ root.edgePrefix := hfull
  exact hrep.insertLoop value hroot hbase (.inl ⟨rfl, Nat.lt_succ_self _⟩)

theorem insertFirst {root : RadixNode T} (hroot : nodes[0]? = some root)
    (hchildren : root.children = []) (hvalues : root.values = []) (pathPrefix : Bytes) (value : T) :
    Represents
      (nodes.set 0 { root with
        edgePrefix := pathPrefix
        fullPrefix := pathPrefix
        values := root.values ++ [value] })
      (tableInsert store pathPrefix value) := by
  have hget := getElem?_set' (lt_of_getElem? hroot)
    { root with
      edgePrefix := pathPrefix
      fullPrefix := pathPrefix
      values := root.values ++ [value] }
  have hstore : ∀ p, store p = [] := by
    intro p
    by_contra hp
    obtain ⟨j, m, hm, rfl⟩ := hrep.covered hp
    obtain rfl := hrep.only_root hroot hchildren hm
    rw [hroot] at hm
    obtain rfl := Option.some.inj hm
    exact hp ((hrep.values_eq hroot).symm.trans hvalues)
  have only : ∀ {k : Nat} {m' : RadixNode T},
      (nodes.set 0 { root with
        edgePrefix := pathPrefix
        fullPrefix := pathPrefix
        values := root.values ++ [value] })[k]? = some m' →
      k = 0 ∧ m' = { root with
        edgePrefix := pathPrefix
        fullPrefix := pathPrefix
        values := root.values ++ [value] } := by
    intro k m' hm'
    have hk := (hget k).symm.trans hm'
    split at hk
    · rename_i h0
      exact ⟨h0, (Option.some.inj hk).symm⟩
    · rename_i h0
      exact absurd (hrep.only_root hroot hchildren hk) h0
  refine ⟨⟨⟨_, (hget 0).trans (if_pos rfl), rfl⟩, ?_, ?_, ?_⟩, ?_, ?_⟩
  · intro i m' byte c hm' hmem
    obtain ⟨-, rfl⟩ := only hm'
    rw [hchildren] at hmem
    simp at hmem
  · intro i m' hm'
    obtain ⟨-, rfl⟩ := only hm'
    simp [hchildren]
  · intro j m' hm' hj
    exact absurd (only hm').1 hj
  · intro i m' hm'
    obtain ⟨-, rfl⟩ := only hm'
    simp [tableInsert, hstore, hvalues]
  · intro p hp
    by_cases heq : p = pathPrefix
    · exact ⟨0, _, (hget 0).trans (if_pos rfl), heq.symm⟩
    · rw [tableInsert, Function.update_of_ne heq] at hp
      exact absurd (hstore p) hp

end

end Represents

/-! ## Insertion -/

theorem Represents.insert {tree : PathRadixTree T} {store : Bytes → List T}
    (hrep : Represents tree.nodes store) (pathPrefix : Bytes) (value : T) :
    ∃ tree', tree.insert pathPrefix value = some tree' ∧
      Represents tree'.nodes (tableInsert store pathPrefix value) := by
  obtain ⟨root, hroot, hfull⟩ := hrep.root
  simp only [PathRadixTree.insert, hroot, Option.bind_eq_bind, Option.bind_some]
  split
  · rename_i hempty
    simp only [Bool.and_eq_true, List.isEmpty_iff] at hempty
    obtain ⟨⟨hedge, hchildren⟩, hvalues⟩ := hempty
    exact ⟨_, rfl, hrep.insertFirst hroot hchildren hvalues pathPrefix value⟩
  · obtain ⟨nodes', hloop, hrep'⟩ :=
      hrep.insertLoop_root value hroot hfull pathPrefix
    rw [hloop]
    exact ⟨⟨nodes'⟩, rfl, hrep'⟩

def table (ops : List (Bytes × T)) (p : Bytes) : List T :=
  (ops.filter fun op => op.1 = p).map Prod.snd

theorem Represents.insertAll {tree : PathRadixTree T} {before : List (Bytes × T)}
    (hrep : Represents tree.nodes (table before)) (ops : List (Bytes × T)) :
    ∃ tree', tree.insertAll ops = some tree' ∧
      Represents tree'.nodes (table (before ++ ops)) := by
  induction ops generalizing tree before with
  | nil => exact ⟨tree, rfl, by simpa using hrep⟩
  | cons op ops ih =>
    obtain ⟨pathPrefix, value⟩ := op
    obtain ⟨tree', hinsert, hrep'⟩ := hrep.insert pathPrefix value
    have htable : tableInsert (table before) pathPrefix value =
        table (before ++ [(pathPrefix, value)]) := by
      funext p
      by_cases hp : p = pathPrefix
      · subst hp
        simp [tableInsert, table]
      · simp [tableInsert, table, hp, Ne.symm hp]
    rw [htable] at hrep'
    obtain ⟨tree'', hrest, hrep''⟩ := ih hrep'
    refine ⟨tree'', ?_, by simpa using hrep''⟩
    simp only [PathRadixTree.insertAll, hinsert, Option.bind_eq_bind, Option.bind_some]
    exact hrest

theorem insertAll_new_represents (ops : List (Bytes × T)) :
    ∃ tree, (new : PathRadixTree T).insertAll ops = some tree ∧
      Represents tree.nodes (table ops) := by
  have hnew : Represents (new : PathRadixTree T).nodes (table []) := represents_new
  exact hnew.insertAll ops

end AuroraGateway.Engine.PathRadixTree
