import AuroraGateway.Engine.CommonPrefix

/-!
# The path radix tree

`PathRadixTree` is a prefix tree stored in a flat arena.  A node carries the
label of the edge that leads to it, the full prefix it stands for, its
children as pairs of a first byte and an arena index, and the values inserted
at exactly its prefix.

The loops of the source run until they return.  They are modelled with a fuel
argument, and so is the indexing of the arena: `none` stands for a run that
does not return or that panics on an index out of range.
-/

namespace AuroraGateway.Engine

open Foundation

universe u v

structure RadixNode (T : Type u) where
  edgePrefix : Bytes
  fullPrefix : Bytes
  children : List (UInt8 × Nat)
  values : List T
  deriving DecidableEq, Repr

structure PathRadixTree (T : Type u) where
  nodes : List (RadixNode T)
  deriving DecidableEq, Repr

/-! ## Insertion -/

namespace PathRadixTree

variable {T : Type u}

def new : PathRadixTree T := ⟨[⟨[], [], [], []⟩]⟩

def findChild (children : List (UInt8 × Nat)) (byte : UInt8) : Option Nat :=
  (children.find? fun child => child.1 == byte).map Prod.snd

variable (nodes : List (RadixNode T))

/--
Split the node at `idx` after `commonLen` bytes of its label: a fresh node
takes the rest of the label together with the children and values.
-/
def splitNode (idx : Nat) (node : RadixNode T) (commonLen : Nat) : Option (List (RadixNode T)) :=
  match node.edgePrefix.drop commonLen with
  | [] => none
  | splitFirstByte :: rest =>
    let splitLen := (splitFirstByte :: rest).length
    let child : RadixNode T :=
      { node with edgePrefix := splitFirstByte :: rest }
    let parent : RadixNode T :=
      { edgePrefix := node.edgePrefix.take commonLen
        fullPrefix := node.fullPrefix.take (node.fullPrefix.length - splitLen)
        children := [(splitFirstByte, nodes.length)]
        values := [] }
    some ((nodes ++ [child]).set idx parent)

def pushValue (idx : Nat) (node : RadixNode T) (value : T) : List (RadixNode T) :=
  nodes.set idx { node with values := node.values ++ [value] }

def pushChild (idx : Nat) (node : RadixNode T) (firstByte : UInt8) (remKey : Bytes) (value : T) :
    List (RadixNode T) :=
  let leaf : RadixNode T :=
    ⟨remKey, node.fullPrefix ++ remKey, [], [value]⟩
  (nodes ++ [leaf]).set idx
    { node with children := node.children ++ [(firstByte, nodes.length)] }

def insertLoop (value : T) :
    Nat → List (RadixNode T) → Nat → Bytes → Option (List (RadixNode T))
  | 0, _, _, _ => none
  | fuel + 1, nodes, currIdx, remKey => do
      let old ← nodes[currIdx]?
      let commonLen := commonPrefixLen targetEndian old.edgePrefix remKey
      let nodes ←
        if commonLen < old.edgePrefix.length then
          splitNode nodes currIdx old commonLen
        else some nodes
      let node ← nodes[currIdx]?
      match remKey.drop commonLen with
      | [] => some (pushValue nodes currIdx node value)
      | firstByte :: rest =>
        match findChild node.children firstByte with
        | some nextIdx =>
          insertLoop value fuel nodes nextIdx (firstByte :: rest)
        | none =>
          some (pushChild nodes currIdx node firstByte
            (firstByte :: rest) value)

def insert (tree : PathRadixTree T) (pathPrefix : Bytes) (value : T) :
    Option (PathRadixTree T) := do
  let root ← tree.nodes[0]?
  if root.edgePrefix.isEmpty && root.children.isEmpty && root.values.isEmpty then
    some ⟨tree.nodes.set 0
      { root with
        edgePrefix := pathPrefix
        fullPrefix := pathPrefix
        values := root.values ++ [value] }⟩
  else
    let nodes ← insertLoop value (pathPrefix.length + 1) tree.nodes 0 pathPrefix
    some ⟨nodes⟩

def insertAll (tree : PathRadixTree T) :
    List (Bytes × T) → Option (PathRadixTree T)
  | [] => some tree
  | (pathPrefix, value) :: ops => do
      let tree ← tree.insert pathPrefix value
      tree.insertAll ops

/-! ## Lookup -/

def isPathBoundaryMatch (fullPrefix path : Bytes) : Bool :=
  fullPrefix.isPrefixOf path &&
    ((ascii "/").isSuffixOf fullPrefix ||
      path.length == fullPrefix.length ||
      path[fullPrefix.length]? == some slash)

section ForEachMatch

variable {σ : Type v}

/-- The callback closes over mutable variables; `σ` is the type of their values. -/
def visitNode (path : Bytes) (callback : σ → T → σ) (node : RadixNode T)
    (state : σ) : σ :=
  if !node.values.isEmpty && isPathBoundaryMatch node.fullPrefix path then
    node.values.foldl callback state
  else state

def forEachMatchLoop (nodes : List (RadixNode T)) (path : Bytes)
    (callback : σ → T → σ) : Nat → Nat → Bytes → σ → Option σ
  | 0, _, _, _ => none
  | fuel + 1, currIdx, remPath, state =>
    match nodes[currIdx]? with
    | none => none
    | some node =>
      if node.edgePrefix.isPrefixOf remPath then
        let state := visitNode path callback node state
        match remPath.drop node.edgePrefix.length with
        | [] => some state
        | firstByte :: rest =>
          match findChild node.children firstByte with
          | some nextIdx =>
            forEachMatchLoop nodes path callback fuel nextIdx
              (firstByte :: rest) state
          | none => some state
      else some state

def forEachMatch (tree : PathRadixTree T) (path : Bytes)
    (callback : σ → T → σ) (state : σ) : Option σ :=
  if tree.nodes.isEmpty then some state
  else forEachMatchLoop tree.nodes path callback (path.length + 1) 0 path state

end ForEachMatch

section FindBest

variable {V : Type v} [LinearOrder V]

def findBestCallback (filter : T → Bool) (keyFn : T → V)
    (best : Option (T × V)) (value : T) : Option (T × V) :=
  if filter value then
    match best with
    | some (bestValue, bestKey) =>
      if keyFn value < bestKey then some (value, keyFn value)
      else some (bestValue, bestKey)
    | none => some (value, keyFn value)
  else best

def findBest (tree : PathRadixTree T) (path : Bytes) (filter : T → Bool)
    (keyFn : T → V) : Option (Option T) :=
  (tree.forEachMatch path (findBestCallback filter keyFn) none).map
    fun best => best.map Prod.fst

end FindBest

end PathRadixTree

end AuroraGateway.Engine
