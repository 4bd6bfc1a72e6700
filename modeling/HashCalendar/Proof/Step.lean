/-
**Proof steps and proof paths.**

A path carries a starting value up to the root of a tree.  Each of its steps sets a value to the
left or to the right of the running digest and hashes the result; the value is the node beside it
in a tree or a label that binds a name.

Main definitions:

* `HashCalendar.Step` — a side and a value;
* `HashCalendar.Step.apply` — one step on a running value;
* `HashCalendar.Path` — the steps under one hash function, leaf first;
* `HashCalendar.Path.evaluate` — the digest that a path leads to.
-/

import HashCalendar.Hash.Function

set_option relaxedAutoImplicit false
set_option autoImplicit false

namespace HashCalendar

/-- The side of the running digest that a value is set on. -/
inductive Side where
  | left
  | right
  deriving DecidableEq, Repr

/-- What a step sets beside the running digest. -/
inductive StepValue where
  /-- The neighbour in a tree. -/
  | node (digest : Digest)
  /-- A text, hashed as UTF-8. -/
  | label (text : String)
  deriving DecidableEq, Repr

namespace StepValue

/-- The bytes that enter the hash. -/
def bytes : StepValue → Bytes
  | .node d => d.bytes
  | .label text => Text.encode text

/-- The written form: a node as its digits, a label as it is. -/
def toText : StepValue → String
  | .node d => d.toHex
  | .label text => text

/-- The written form read back: 64 hexadecimal digits are a node and any other text a label. -/
def ofText (text : String) : StepValue :=
  match Digest.ofHex text with
  | .ok d => .node d
  | .error _ => .label text

end StepValue

/-- A value set on one side of the running digest. -/
structure Step where
  side : Side
  value : StepValue
  deriving DecidableEq, Repr

namespace Step

/-- The step that sets a value on the left. -/
def left (value : StepValue) : Step := ⟨.left, value⟩

/-- The step that sets a value on the right. -/
def right (value : StepValue) : Step := ⟨.right, value⟩

/-- One step on a running value. -/
def apply (f : HashFunction) (step : Step) (current : Bytes) : Digest :=
  match step.side with
  | .left => f.digest [step.value.bytes, current]
  | .right => f.digest [current, step.value.bytes]

end Step

/-- The steps from a starting value to a root under one hash function, the lowest first. -/
structure Path where
  function : HashFunction
  steps : List Step
  deriving DecidableEq, Repr

namespace Path

/-- The digest that a path leads to.  A path without steps leads to the starting value itself,
which then has to be a digest. -/
def evaluate (path : Path) (start : Bytes) : Except Malformed Digest :=
  match path.steps with
  | [] => Digest.ofBytes start
  | step :: steps =>
    .ok (steps.foldl (fun d s => s.apply path.function d.bytes) (step.apply path.function start))

/-- A path without steps. -/
def empty (f : HashFunction) : Path := ⟨f, []⟩

/-- A path with one more step at its upper end. -/
def push (path : Path) (step : Step) : Path := { path with steps := path.steps ++ [step] }

/-- A path with one more step at its lower end. -/
def prepend (path : Path) (step : Step) : Path := { path with steps := step :: path.steps }

end Path

end HashCalendar
