/-
**Merkle trees, level by level.**

Neighbouring nodes of a level are hashed in pairs into the next level; the last node of a level with
an odd number of nodes is promoted unchanged.  The tree is complete when a level has one node, the
root.  The proof of a leaf holds, from the bottom up, the node beside its ancestor on each level
where there is one.

Main definitions:

* `HashCalendar.Merkle.pairUp` — one level from the one below;
* `HashCalendar.Merkle.levels` — all levels, the leaves first;
* `HashCalendar.Merkle.Tree` — a tree over at least one leaf;
* `HashCalendar.Merkle.Tree.root`, `HashCalendar.Merkle.Tree.proof`,
  `HashCalendar.Merkle.Tree.proofs` — its root and the proofs of its leaves.
-/

import HashCalendar.Proof.Step

set_option relaxedAutoImplicit false
set_option autoImplicit false

namespace HashCalendar.Merkle

/-! ### Levels -/

/-- The level above: neighbours hashed in pairs, a last single node promoted. -/
def pairUp (f : HashFunction) : List Digest → List Digest
  | a :: b :: rest => f.pair a b :: pairUp f rest
  | rest => rest

theorem length_pairUp (f : HashFunction) (nodes : List Digest) :
    (pairUp f nodes).length = (nodes.length + 1) / 2 := by
  fun_induction pairUp f nodes with
  | case1 a b rest ih => simp only [List.length_cons, ih]; omega
  | case2 rest h =>
    match rest with
    | [] => rfl
    | [a] => simp
    | a :: b :: r => exact absurd rfl (h a b r)

/-- All levels from the given one up to the first with at most one node. -/
def levels (f : HashFunction) (nodes : List Digest) : List (List Digest) :=
  if h : nodes.length ≤ 1 then [nodes]
  else
    have : (pairUp f nodes).length < nodes.length := by rw [length_pairUp]; omega
    nodes :: levels f (pairUp f nodes)
  termination_by nodes.length

/-- The single node of the highest level, where there are nodes at all. -/
def rootOf (f : HashFunction) (nodes : List Digest) : Option Digest :=
  (levels f nodes).getLast?.bind List.head?

theorem rootOf_isSome (f : HashFunction) (nodes : List Digest) (h : nodes ≠ []) :
    (rootOf f nodes).isSome := by
  unfold rootOf
  fun_induction levels f nodes with
  | case1 nodes h1 =>
    match nodes with
    | [] => exact absurd rfl h
    | a :: r => rfl
  | case2 nodes h1 h2 ih =>
    have hne : pairUp f nodes ≠ [] := by
      intro he
      have := length_pairUp f nodes
      rw [he] at this
      simp only [List.length_nil] at this
      omega
    have := ih hne
    cases hl : levels f (pairUp f nodes) with
    | nil => rw [hl] at this; exact absurd this (by simp)
    | cons a r => rw [hl] at this; simpa [List.getLast?_cons_cons] using this

/-! ### Trees -/

/-- Why a tree cannot be built. -/
inductive Error where
  /-- There is no leaf. -/
  | noLeaves
  deriving DecidableEq, Repr

/-- The wording of the error. -/
def Error.message : Error → String
  | .noLeaves => "Invalid input: cannot build a tree from zero leaves"

/-- A tree over at least one leaf, as its levels and its root. -/
structure Tree where
  function : HashFunction
  leaves : List Digest
  /-- The levels below the root, the leaves first, each with constant-time access. -/
  below : List (Array Digest)
  root : Digest
  leaves_ne : leaves ≠ []
  below_eq : below = (levels function leaves).dropLast.map List.toArray
  root_eq : some root = rootOf function leaves

namespace Tree

/-- The tree over a list of leaves. -/
def build (f : HashFunction) (leaves : List Digest) : Except Error Tree :=
  if h : leaves = [] then .error .noLeaves
  else .ok
    { function := f
      leaves
      below := (levels f leaves).dropLast.map List.toArray
      root := (rootOf f leaves).get (rootOf_isSome f leaves h)
      leaves_ne := h
      below_eq := rfl
      root_eq := by simp }

/-- The number of leaves. -/
def leafCount (tree : Tree) : Nat := tree.leaves.length

/-- The leaf at an index. -/
def leaf (tree : Tree) (index : Nat) : Option Digest := tree.leaves[index]?

/-- The step beside the node at an index of a level; a promoted node has none. -/
def stepAt (level : Array Digest) (index : Nat) : List Step :=
  if index % 2 = 0 then (level[index + 1]?.map fun d => Step.right (.node d)).toList
  else (level[index - 1]?.map fun d => Step.left (.node d)).toList

/-- The steps from the node at an index up through the given levels. -/
def climb : List (Array Digest) → Nat → List Step
  | [], _ => []
  | level :: above, index => stepAt level index ++ climb above (index / 2)

/-- The path from the leaf at an index to the root. -/
def proof (tree : Tree) (index : Nat) : Option Path :=
  if index < tree.leafCount then some ⟨tree.function, climb tree.below index⟩ else none

/-- The paths of all leaves, in order. -/
def proofs (tree : Tree) : List Path := (List.range tree.leafCount).filterMap tree.proof

end Tree

end HashCalendar.Merkle
