/-
**Proofs bind their leaf.**

A path that carries nodes only, and has the sides of the proof of a leaf, hashes a pair of digests
wherever the proof does.  If both lead to the root, they have the same digests throughout, or at
some place two different pairs have the same hash.  Which side each step of a proof is on depends
only on the index of the leaf and on the number of leaves.  So the root binds the leaves, as long as
their number is known.

Main definitions:

* `HashCalendar.Path.pairs` — the pairs of digests that are hashed along a path;
* `HashCalendar.HashFunction.PairsCollide` — two different pairs among given ones have one hash.

Main results:

* `HashCalendar.Path.eq_or_pairsCollide` — paths with the same sides that lead to the same digest;
* `HashCalendar.Merkle.sides_climb` — the sides of proofs do not depend on the leaves;
* `HashCalendar.Merkle.Tree.binds_leaf` — **a path with the sides of a proof is this proof**;
* `HashCalendar.roots_bind_leaves` — and **trees with as many leaves and the same root have the same
  leaves**, unless there is a collision.
-/

import HashCalendar.Proofs.Merkle.Completeness

set_option relaxedAutoImplicit false
set_option autoImplicit false

namespace HashCalendar

/-! ### Collisions of pairs -/

/-- Two different pairs of digests, one of each list, have the same hash. -/
def HashFunction.PairsCollide (f : HashFunction) (xs ys : List (Digest × Digest)) : Prop :=
  ∃ x ∈ xs, ∃ y ∈ ys, x ≠ y ∧ f.pair x.1 x.2 = f.pair y.1 y.2

/-- Pairs with the same hash are the same or collide. -/
theorem HashFunction.eq_or_pairsCollide {f : HashFunction} {xs ys : List (Digest × Digest)}
    {x y : Digest × Digest} (hx : x ∈ xs) (hy : y ∈ ys) (h : f.pair x.1 x.2 = f.pair y.1 y.2) :
    x = y ∨ f.PairsCollide xs ys := by
  by_cases heq : x = y
  · exact Or.inl heq
  · exact Or.inr ⟨x, hx, y, hy, heq, h⟩

/-- A collision among some pairs is one among more. -/
theorem HashFunction.PairsCollide.mono {f : HashFunction} {xs ys xs' ys' : List (Digest × Digest)}
    (h : f.PairsCollide xs ys) (hx : xs ⊆ xs') (hy : ys ⊆ ys') : f.PairsCollide xs' ys' := by
  obtain ⟨x, hmem, y, hmem', hne, heq⟩ := h
  exact ⟨x, hx hmem, y, hy hmem', hne, heq⟩

/-! ### Pairs along a path -/

/-- The pair of digests that a step hashes, if it carries a node. -/
def Step.pair? (step : Step) (d : Digest) : Option (Digest × Digest) :=
  match step.side, step.value with
  | .left, .node e => some (e, d)
  | .right, .node e => some (d, e)
  | _, .label _ => none

/-- The pairs of digests that are hashed when steps are taken from a digest. -/
def Path.pairsFrom (f : HashFunction) : List Step → Digest → List (Digest × Digest)
  | [], _ => []
  | step :: steps, d => (step.pair? d).toList ++ pairsFrom f steps (step.apply f d.bytes)

/-- The pairs of digests that are hashed along a path from a digest. -/
def Path.pairs (path : Path) (d : Digest) : List (Digest × Digest) :=
  pairsFrom path.function path.steps d

/-- A step that carries a node hashes its pair. -/
theorem Step.IsNode.exists_pair {step : Step} (h : step.IsNode) (f : HashFunction) (d : Digest) :
    ∃ x, step.pair? d = some x ∧ step.apply f d.bytes = f.pair x.1 x.2 := by
  obtain ⟨side, value⟩ := step
  obtain ⟨e, rfl⟩ := h
  cases side with
  | left => exact ⟨(e, d), rfl, rfl⟩
  | right => exact ⟨(d, e), rfl, rfl⟩

/-- On one side, the pair of a step tells the node and the digest that it was taken from. -/
theorem Step.eq_of_pair? {step step' : Step} {d d' : Digest} {x : Digest × Digest}
    (hnode : step.IsNode) (hnode' : step'.IsNode) (hside : step.side = step'.side)
    (h : step.pair? d = some x) (h' : step'.pair? d' = some x) : step = step' ∧ d = d' := by
  obtain ⟨side, value⟩ := step
  obtain ⟨side', value'⟩ := step'
  obtain ⟨e, rfl⟩ := hnode
  obtain ⟨e', rfl⟩ := hnode'
  obtain rfl : side = side' := hside
  cases side with
  | left =>
      cases h
      cases h'
      exact ⟨rfl, rfl⟩
  | right =>
      cases h
      cases h'
      exact ⟨rfl, rfl⟩

namespace Path

variable {f : HashFunction}

/-- Steps with nodes on the same sides that lead to the same digest are the same and were taken from
the same digest, or two of their pairs collide. -/
theorem eq_or_pairsCollide {steps steps' : List Step} {d d' : Digest}
    (hnode : ∀ s ∈ steps, s.IsNode) (hnode' : ∀ s ∈ steps', s.IsNode)
    (hsides : steps.map Step.side = steps'.map Step.side)
    (h : carry f steps d = carry f steps' d') :
    (steps = steps' ∧ d = d') ∨ f.PairsCollide (pairsFrom f steps d) (pairsFrom f steps' d') := by
  induction steps generalizing steps' d d' with
  | nil =>
      obtain rfl : steps' = [] := List.map_eq_nil_iff.1 hsides.symm
      exact Or.inl ⟨rfl, h⟩
  | cons s ss ih =>
      rcases steps' with _ | ⟨s', ss'⟩
      · cases hsides
      obtain ⟨hside, hrest⟩ := List.cons.inj hsides
      have hs := hnode s List.mem_cons_self
      have hs' := hnode' s' List.mem_cons_self
      obtain ⟨x, hx, happly⟩ := hs.exists_pair f d
      obtain ⟨x', hx', happly'⟩ := hs'.exists_pair f d'
      have hmem : x ∈ pairsFrom f (s :: ss) d := by simp [pairsFrom, hx]
      have hmem' : x' ∈ pairsFrom f (s' :: ss') d' := by simp [pairsFrom, hx']
      rcases ih (fun t ht => hnode t (List.mem_cons_of_mem s ht))
        (fun t ht => hnode' t (List.mem_cons_of_mem s' ht)) hrest h with ⟨rfl, hsame⟩ | hcollide
      -- What follows is the same, so the two steps hash to the same digest.
      · have hhash : f.pair x.1 x.2 = f.pair x'.1 x'.2 := happly.symm.trans (hsame.trans happly')
        rcases HashFunction.eq_or_pairsCollide hmem hmem' hhash with rfl | hcollide
        · obtain ⟨rfl, rfl⟩ := Step.eq_of_pair? hs hs' hside hx hx'
          exact Or.inl ⟨rfl, rfl⟩
        · exact Or.inr hcollide
      · exact Or.inr (hcollide.mono (List.subset_append_right _ _) (List.subset_append_right _ _))

end Path

namespace Merkle

/-! ### Sides -/

/-- The side of a step that may be there depends on whether it is. -/
theorem sides_toList {o o' : Option Digest} (h : o.isSome = o'.isSome) (side : Side) :
    (o.map fun d => Step.mk side (.node d)).toList.map Step.side =
      (o'.map fun d => Step.mk side (.node d)).toList.map Step.side := by
  cases o with
  | none =>
      cases o' with
      | none => rfl
      | some e => cases h
  | some d =>
      cases o' with
      | none => cases h
      | some e => rfl

/-- The side of the step beside a node depends on its index and the number of nodes only. -/
theorem sides_stepAt {nodes nodes' : List Digest} (h : nodes.length = nodes'.length)
    (index : Nat) :
    (Tree.stepAt nodes.toArray index).map Step.side =
      (Tree.stepAt nodes'.toArray index).map Step.side := by
  have hsome : ∀ k : Nat, nodes[k]?.isSome = nodes'[k]?.isSome := by
    intro k
    rw [Bool.eq_iff_iff, isSome_getElem?, isSome_getElem?, h]
  simp only [Tree.stepAt, List.getElem?_toArray]
  split
  · exact sides_toList (hsome _) .right
  · exact sides_toList (hsome _) .left

/-- The sides of the steps through all levels depend on the index and the number of leaves only. -/
theorem sides_climb (f : HashFunction) {leaves leaves' : List Digest}
    (h : leaves.length = leaves'.length) (index : Nat) :
    (Tree.climb ((levels f leaves).dropLast.map List.toArray) index).map Step.side =
      (Tree.climb ((levels f leaves').dropLast.map List.toArray) index).map Step.side := by
  fun_induction levels f leaves generalizing leaves' index with
  | case1 leaves hle =>
      rw [h] at hle
      rw [levels_of_length_le f hle]
      rfl
  | case2 leaves hle _ ih =>
      have habove : (pairUp f leaves).length = (pairUp f leaves').length := by
        rw [length_pairUp, length_pairUp, h]
      rw [h] at hle
      rw [levels_of_not_le f hle, List.dropLast_cons_of_ne_nil (levels_ne_nil f _),
        List.dropLast_cons_of_ne_nil (levels_ne_nil f _)]
      simp only [List.map_cons, Tree.climb, List.map_append]
      rw [sides_stepAt h, ih habove]

/-! ### Trees -/

namespace Tree

/-- The steps of a proof carry nodes only. -/
theorem isNode_of_mem_pathAt {tree : Tree} {index : Nat} :
    ∀ s ∈ (tree.pathAt index).steps, s.IsNode :=
  fun _ => isNode_of_mem_climb

/-- A path with nodes on the sides of the proof of a leaf that leads to the root is this proof and
starts from this leaf, or two pairs along the one and the other collide. -/
theorem binds_leaf {tree : Tree} {index : Nat} {d e : Digest} {path : Path}
    (hleaf : tree.leaves[index]? = some e) (hfunction : path.function = tree.function)
    (hnode : ∀ s ∈ path.steps, s.IsNode)
    (hsides : path.steps.map Step.side = (tree.pathAt index).steps.map Step.side)
    (h : path.evaluate d.bytes = .ok tree.root) :
    (d = e ∧ path = tree.pathAt index) ∨
      tree.function.PairsCollide (path.pairs d) ((tree.pathAt index).pairs e) := by
  obtain ⟨f, steps⟩ := path
  obtain rfl : f = tree.function := hfunction
  have hhonest := tree.evaluate_pathAt hleaf
  rw [Path.evaluate_bytes] at h hhonest
  have hsame := Except.ok.inj (h.trans hhonest.symm)
  rcases Path.eq_or_pairsCollide hnode isNode_of_mem_pathAt hsides hsame with
    ⟨hsteps, rfl⟩ | hcollide
  · exact Or.inl ⟨rfl, congrArg (Path.mk tree.function) hsteps⟩
  · exact Or.inr hcollide

/-- The leaves of trees with the same function, the same root and as many leaves are the same, or
for some index two pairs along its proofs collide. -/
theorem leaves_eq_or_pairsCollide {tree tree' : Tree} (hfunction : tree'.function = tree.function)
    (hlength : tree'.leaves.length = tree.leaves.length) (hroot : tree'.root = tree.root) :
    tree'.leaves = tree.leaves ∨
      ∃ index d e, tree'.leaves[index]? = some d ∧ tree.leaves[index]? = some e ∧
        tree.function.PairsCollide ((tree'.pathAt index).pairs d)
          ((tree.pathAt index).pairs e) := by
  refine or_iff_not_imp_right.2 fun hnone => List.ext_getElem hlength fun index hlt' hlt => ?_
  have hleaf' := List.getElem?_eq_getElem hlt'
  have hleaf := List.getElem?_eq_getElem hlt
  have hsides : (tree'.pathAt index).steps.map Step.side =
      (tree.pathAt index).steps.map Step.side := by
    simp only [pathAt, tree.below_eq, tree'.below_eq, hfunction]
    exact sides_climb _ hlength index
  have hreaches := tree'.evaluate_pathAt hleaf'
  rw [hroot] at hreaches
  rcases binds_leaf hleaf hfunction isNode_of_mem_pathAt hsides hreaches with ⟨heq, -⟩ | hcollide
  · exact heq
  · exact absurd ⟨index, _, _, hleaf', hleaf, hcollide⟩ hnone

end Tree

end Merkle

open Merkle in
/-- **Roots bind leaves.**  For a tree over some leaves, and any digest and path of its function
that carries nodes only, on the same sides as the proof of a leaf:

* if the path leads from the digest to the root, the digest is that leaf and the path that proof, or
  a pair of digests that is hashed along the path collides with one that is hashed along the proof;
* the leaves of another tree of this function, with as many leaves and the same root, are the same,
  or for one of them a pair that is hashed along its proof there collides with one here. -/
theorem roots_bind_leaves (f : HashFunction) {leaves : List Digest} {tree : Tree}
    (h : Tree.build f leaves = .ok tree) :
    (∀ index proof, tree.proof index = some proof → ∀ (d : Digest) (path : Path),
      path.function = f → (∀ s ∈ path.steps, s.IsNode) →
      path.steps.map Step.side = proof.steps.map Step.side →
      path.evaluate d.bytes = .ok tree.root →
      ∃ e, tree.leaf index = some e ∧
        ((d = e ∧ path = proof) ∨ f.PairsCollide (path.pairs d) (proof.pairs e))) ∧
    ∀ leaves' tree', Tree.build f leaves' = .ok tree' → leaves'.length = leaves.length →
      tree'.root = tree.root →
      leaves' = leaves ∨ ∃ index d e proof' proof,
        tree'.leaf index = some d ∧ tree'.proof index = some proof' ∧
        tree.leaf index = some e ∧ tree.proof index = some proof ∧
        f.PairsCollide (proof'.pairs d) (proof.pairs e) := by
  obtain ⟨rfl, rfl⟩ := Tree.of_build_eq_ok h
  constructor
  · intro index proof hproof d path hfunction hnode hsides hroot
    have hlt : index < tree.leafCount := (tree.proof_isSome_iff index).1 (by rw [hproof]; rfl)
    obtain rfl : tree.pathAt index = proof :=
      Option.some.inj ((tree.proof_of_lt hlt).symm.trans hproof)
    have hleaf := List.getElem?_eq_getElem (l := tree.leaves) hlt
    exact ⟨_, hleaf, Tree.binds_leaf hleaf hfunction hnode hsides hroot⟩
  · intro leaves' tree' h' hlength hroot
    obtain ⟨hfunction, rfl⟩ := Tree.of_build_eq_ok h'
    rcases Tree.leaves_eq_or_pairsCollide hfunction hlength hroot with
      heq | ⟨index, d, e, hd, he, hcollide⟩
    · exact Or.inl heq
    · have hlt' : index < tree'.leafCount := (List.getElem?_eq_some_iff.1 hd).1
      have hlt : index < tree.leafCount := (List.getElem?_eq_some_iff.1 he).1
      exact Or.inr ⟨index, d, e, _, _, hd, tree'.proof_of_lt hlt', he, tree.proof_of_lt hlt,
        hcollide⟩

open Merkle in
/-- A path that is as is asked for here, and leads from a promoted leaf to the root. -/
theorem promoted_leaf_is_bound :
    ∃ tree proof path d, Tree.build .sha256 threeLeaves = .ok tree ∧ tree.proof 2 = some proof ∧
      path.function = .sha256 ∧ (∀ s ∈ path.steps, s.IsNode) ∧
      path.steps.map Step.side = proof.steps.map Step.side ∧
      path.evaluate d.bytes = .ok tree.root ∧
      ∃ e, tree.leaf 2 = some e ∧
        ((d = e ∧ path = proof) ∨
          HashFunction.sha256.PairsCollide (path.pairs d) (proof.pairs e)) := by
  have hne : threeLeaves ≠ [] := by simp [threeLeaves]
  obtain ⟨tree, hbuild, hfunction, hleaves⟩ := Tree.build_eq_ok .sha256 hne
  have hleaf : tree.leaves[2]? = some threeLeaves[2] := by
    rw [hleaves]
    rfl
  have hproof := tree.proof_of_lt (List.getElem?_eq_some_iff.1 hleaf).1
  have hreaches := tree.evaluate_pathAt hleaf
  exact ⟨tree, tree.pathAt 2, tree.pathAt 2, threeLeaves[2], hbuild, hproof, hfunction,
    Tree.isNode_of_mem_pathAt, rfl, hreaches,
    (roots_bind_leaves .sha256 hbuild).1 2 _ hproof _ _ hfunction
      Tree.isNode_of_mem_pathAt rfl hreaches⟩

end HashCalendar
