/-
**Replaying the array of a path.**

On the wire the steps of several paths follow one another, and the reader groups neighbouring steps
with the same hash function into segments.  The digest that an array leads to does not depend on
this grouping: an array in two parts is replayed by replaying the second part from the digest that
the first part leads to.  A path is read back from its array if each of its labels is taken for a
label again, which is so for the labels that bind an id or a beacon tag.

Main definitions:

* `HashCalendar.Step.IsStable` — steps whose written form is read back;
* `HashCalendar.Path.LeadsTo` — paths that lead from a value to a root, also once they were written.

Main results:

* `HashCalendar.Op.computeRoot_ops` — the array of a path leads where the path leads;
* `HashCalendar.Op.computeRoot_append` — **arrays are replayed one after the other**;
* `HashCalendar.Path.LeadsTo.verify_append` — two paths in a row are a proof of the upper root;
* `HashCalendar.Leaf.evaluate_bindPath` — a bound path leads from the submitted hash where the path
  leads from the leaf.
-/

import HashCalendar.Leaf
import HashCalendar.Proof.Replay
import HashCalendar.Proofs.Merkle.Completeness
import HashCalendar.Proofs.Wire.ReadBack

set_option relaxedAutoImplicit false
set_option autoImplicit false

namespace HashCalendar

/-! ### Steps that are read back -/

/-- Steps whose written form is read back. -/
def Step.IsStable (step : Step) : Prop := StepValue.ofText step.value.toText = step.value

theorem StepValue.ofText_toText_node (d : Digest) :
    StepValue.ofText (StepValue.node d).toText = .node d := by
  simp [StepValue.ofText, StepValue.toText]

/-- A text with a byte that is no hexadecimal digit is a label. -/
theorem StepValue.ofText_of_not_isDigit {text : String} {b : UInt8} (hb : b ∈ Text.encode text)
    (hdigit : Hex.isDigit b = false) : StepValue.ofText text = .label text := by
  have hfail : ¬ (Hex.decode text).isOk = true := by
    rw [Hex.decode_isOk_iff]
    rintro ⟨_, hall⟩
    rw [hall b hb] at hdigit
    cases hdigit
  cases hdecode : Hex.decode text with
  | ok bs => rw [hdecode] at hfail; exact absurd rfl hfail
  | error e => simp [StepValue.ofText, Digest.ofHex, hdecode]

namespace Leaf

theorem isStable_idStep (hashId : String) : (idStep hashId).IsStable := by
  have ho : 0x6f ∈ Text.encode (idMark ++ hashId) := by
    rw [Text.encode_append]
    exact List.mem_append_left _ (by decide)
  exact StepValue.ofText_of_not_isDigit ho rfl

theorem isStable_beaconStep (tag : String) : (beaconStep tag).IsStable := by
  have hn : 0x6e ∈ Text.encode (beaconMark ++ tag) := by
    rw [Text.encode_append]
    exact List.mem_append_left _ (by decide)
  exact StepValue.ofText_of_not_isDigit hn rfl

theorem isStable_of_mem_bindingSteps {leaf : Leaf} {step : Step} (h : step ∈ leaf.bindingSteps) :
    step.IsStable := by
  rcases List.mem_cons.1 h with rfl | h
  · exact isStable_idStep _
  · obtain ⟨tag, _, rfl⟩ := Option.map_eq_some_iff.1 (Option.mem_toList.1 h)
    exact isStable_beaconStep tag

end Leaf

namespace Merkle.Tree

/-- The steps of a tree are read back, since they carry nodes only. -/
theorem isStable_of_mem_climb {levels : List (Array Digest)} {index : Nat} {step : Step}
    (h : step ∈ climb levels index) : step.IsStable := by
  obtain ⟨d, hd⟩ := isNode_of_mem_climb h
  rw [Step.IsStable, hd]
  exact StepValue.ofText_toText_node d

end Merkle.Tree

/-! ### Reading an array -/

namespace Op

/-- The step of a sibling is read back if its value is. -/
theorem pairStep_op {step : Step} (h : step.IsStable) (f : HashFunction) :
    pairStep step.op (.function f.tag) = .ok (f, step) := by
  obtain ⟨side, value⟩ := step
  have hvalue : StepValue.ofText value.toText = value := h
  cases side
  · show (pairStep (.left value.toText) (.function f.tag)) = _
    simp [pairStep, Op.step, hashFunction, Except.map, hvalue, bind, Except.bind, Step.left]
  · show (pairStep (.right value.toText) (.function f.tag)) = _
    simp [pairStep, Op.step, hashFunction, Except.map, hvalue, bind, Except.bind, Step.right]

/-- The steps of a path are read back, whatever array follows. -/
theorem steps_ops_append (f : HashFunction) (ss : List Step) (h : ∀ s ∈ ss, s.IsStable)
    (rest : List Op) :
    steps ((Path.mk f ss).ops ++ rest) = (steps rest).map (ss.map (fun s => (f, s)) ++ ·) := by
  induction ss with
  | nil =>
      show steps rest = _
      cases steps rest <;> rfl
  | cons s ss ih =>
      have hrest := ih fun t ht => h t (List.mem_cons_of_mem s ht)
      show steps (s.op :: .function f.tag :: ((Path.mk f ss).ops ++ rest)) = _
      rw [steps, pairStep_op (h s List.mem_cons_self), hrest]
      cases steps rest <;> rfl

theorem length_ops (path : Path) : path.ops.length = 2 * path.steps.length := by
  simp [Path.ops, List.length_flatMap, Nat.mul_comm]

/-! ### Segments -/

/-- A step ahead of segments is taken first, whether it joins the first segment or not. -/
theorem evaluateSegments_consStep (start : Bytes) (fs : HashFunction × Step)
    (segments : List Path) :
    evaluateSegments start (consStep fs segments) =
      evaluateSegments (fs.2.apply fs.1 start).bytes segments := by
  obtain ⟨f, s⟩ := fs
  cases segments with
  | nil => simp [consStep, evaluateSegments, Path.evaluate, bind, Except.bind, pure, Except.pure]
  | cons path paths =>
      obtain ⟨g, ss⟩ := path
      rw [consStep]
      split
      · rename_i hfun
        obtain rfl : g = f := hfun
        simp only [evaluateSegments, Path.evaluate_bytes]
        rfl
      · rfl

/-- The digest that steps lead to, each under its own hash function. -/
theorem evaluateSegments_append {start : Bytes} {xs ys : List (HashFunction × Step)} {d : Digest}
    (h : evaluateSegments start (xs.foldr consStep []) = .ok d) :
    evaluateSegments start ((xs ++ ys).foldr consStep []) =
      evaluateSegments d.bytes (ys.foldr consStep []) := by
  -- Where the two meet, their segments may be merged, so the induction is on the steps.
  induction xs generalizing start with
  | nil =>
      obtain rfl := Digest.ofBytes_eq_ok_iff.1 h
      rfl
  | cons x xs ih =>
      rw [List.foldr_cons, evaluateSegments_consStep] at h
      rw [List.cons_append, List.foldr_cons, evaluateSegments_consStep, ih h]

/-- The steps of a path lead where the path leads. -/
theorem evaluateSegments_path (start : Bytes) (path : Path) :
    evaluateSegments start ((path.steps.map fun s => (path.function, s)).foldr consStep []) =
      path.evaluate start := by
  obtain ⟨f, ss⟩ := path
  induction ss generalizing start with
  | nil => rfl
  | cons s ss ih =>
      rw [List.map_cons, List.foldr_cons, evaluateSegments_consStep]
      exact (ih _).trans (Path.evaluate_bytes ⟨f, ss⟩ _)

/-! ### Replaying -/

/-- The array of a path, with another array after it, leads where the other one leads from the
digest of the path. -/
theorem computeRoot_append {start : Bytes} {path more : Path} {d : Digest}
    (hpath : ∀ s ∈ path.steps, s.IsStable) (hmore : ∀ s ∈ more.steps, s.IsStable)
    (h : path.evaluate start = .ok d) :
    computeRoot start (path.ops ++ more.ops) = (more.evaluate d.bytes).mapError .malformed := by
  have heven : ¬ (path.ops ++ more.ops).length % 2 = 1 := by
    rw [List.length_append, length_ops, length_ops]
    omega
  have hsteps : steps (path.ops ++ more.ops) =
      .ok (path.steps.map (fun s => (path.function, s)) ++
        more.steps.map fun s => (more.function, s)) := by
    have hempty := steps_ops_append more.function more.steps hmore []
    rw [List.append_nil] at hempty
    rw [steps_ops_append path.function path.steps hpath, hempty]
    simp [steps, Except.map]
  have hfirst := (evaluateSegments_path start path).trans h
  rw [computeRoot, segments, if_neg heven, hsteps, Except.map]
  show (evaluateSegments start _).mapError _ = _
  rw [evaluateSegments_append hfirst, evaluateSegments_path]

/-- The array of a path leads where the path leads. -/
theorem computeRoot_ops {start : Bytes} {path : Path} {d : Digest}
    (hpath : ∀ s ∈ path.steps, s.IsStable) (h : path.evaluate start = .ok d) :
    computeRoot start path.ops = .ok d := by
  -- A path with no steps after it changes nothing.
  have hempty : ∀ s ∈ (Path.empty path.function).steps, s.IsStable := by simp [Path.empty]
  have happend := computeRoot_append hpath hempty h
  rw [show (Path.empty path.function).ops = [] from rfl, List.append_nil] at happend
  rw [happend]
  simp [Path.empty, Path.evaluate, Except.mapError]

/-- An array that leads to a digest is a proof of it. -/
theorem verify_of_computeRoot {start : Bytes} {ops : List Op} {d : Digest}
    (h : computeRoot start ops = .ok d) : verify start ops d = .ok () := by
  simp [verify, h, bind, Except.bind]

end Op

/-- Paths that lead from a starting value to a root, also after they were written and read. -/
structure Path.LeadsTo (path : Path) (start : Bytes) (root : Digest) : Prop where
  evaluate : path.evaluate start = .ok root
  isStable : ∀ s ∈ path.steps, s.IsStable

/-- The array of such a path is a proof of the root. -/
theorem Path.LeadsTo.verify {path : Path} {start : Bytes} {root : Digest}
    (h : path.LeadsTo start root) : Op.verify start path.ops root = .ok () :=
  Op.verify_of_computeRoot (Op.computeRoot_ops h.isStable h.evaluate)

/-- The arrays of two paths, the second of which starts where the first one ends, are together a
proof of the upper root. -/
theorem Path.LeadsTo.verify_append {lower upper : Path} {start : Bytes} {middle root : Digest}
    (hlower : lower.LeadsTo start middle) (hupper : upper.LeadsTo middle.bytes root) :
    Op.verify start (lower.ops ++ upper.ops) root = .ok () := by
  have happend := Op.computeRoot_append hlower.isStable hupper.isStable hlower.evaluate
  rw [hupper.evaluate] at happend
  exact Op.verify_of_computeRoot happend

/-! ### Bound paths -/

namespace Leaf

/-- Taking the bindings from the submitted hash leads to the leaf. -/
theorem carry_bindingSteps (leaf : Leaf) (f : HashFunction) :
    (Path.mk f leaf.bindingSteps).evaluate leaf.hash = .ok (leaf.digest f) := by
  obtain ⟨hashId, hash, beaconTag⟩ := leaf
  have hid : (idStep hashId).apply f hash =
      f.digest [Text.encode idMark, Text.encode hashId, hash] := by
    simp [idStep, Step.left, Step.apply, StepValue.bytes, HashFunction.digest]
  cases beaconTag with
  | none => simp [bindingSteps, Path.evaluate, digest, hid]
  | some tag =>
      have hbeacon (d : Digest) : (beaconStep tag).apply f d.bytes =
          f.digest [Text.encode beaconMark, Text.encode tag, d.bytes] := by
        simp [beaconStep, Step.left, Step.apply, StepValue.bytes, HashFunction.digest]
      simp [bindingSteps, Path.evaluate, digest, hid, hbeacon]

/-- A bound path leads from the submitted hash where the path leads from the leaf. -/
theorem evaluate_bindPath (leaf : Leaf) (path : Path) :
    (leaf.bindPath path).evaluate leaf.hash = path.evaluate (leaf.digest path.function).bytes := by
  have hleaf := carry_bindingSteps leaf path.function
  rw [Path.evaluate_bytes]
  simp only [Path.evaluate, bindPath, bindingSteps, List.cons_append] at hleaf ⊢
  rw [← Except.ok.inj hleaf, List.foldl_append]
  rfl

theorem isStable_of_mem_bindPath {leaf : Leaf} {path : Path}
    (h : ∀ s ∈ path.steps, s.IsStable) : ∀ s ∈ (leaf.bindPath path).steps, s.IsStable := by
  intro s hs
  rcases List.mem_append.1 hs with hs | hs
  · exact isStable_of_mem_bindingSteps hs
  · exact h s hs

end Leaf

end HashCalendar
