/-
**Proofs as arrays of elements.**

On the wire a path is a flat array.  Every step becomes two elements: the sibling, on the left or on
the right, and the hash function that is applied next.  Since each step names its function, the
paths of several trees can be strung together; reading such an array groups neighbouring steps with
the same function into segments.

Main definitions:

* `HashCalendar.Op` — one element of an array;
* `HashCalendar.Path.ops`, `HashCalendar.Path.opsOfList` — the array of a path and of several;
* `HashCalendar.Op.segments` — the paths that an array strings together.
-/

import HashCalendar.Proof.Step

set_option relaxedAutoImplicit false
set_option autoImplicit false

namespace HashCalendar

/-- One element of a proof array. -/
inductive Op where
  /-- The value to be set on the left. -/
  | left (value : String)
  /-- The value to be set on the right. -/
  | right (value : String)
  /-- The hash function to be applied. -/
  | function (tag : String)
  deriving DecidableEq, Repr

namespace Op

/-- The hash function that an element names; none for a sibling. -/
def hashFunction : Op → Except Malformed (Option HashFunction)
  | .function tag => (HashFunction.ofTag tag).map some
  | _ => .ok none

/-- The step of a sibling. -/
def step : Op → Except Malformed Step
  | .left value => .ok (.left (.ofText value))
  | .right value => .ok (.right (.ofText value))
  | .function tag => .error (.ops (.siblingExpected tag))

end Op

/-- The sibling element of a step. -/
def Step.op (step : Step) : Op :=
  match step.side with
  | .left => .left step.value.toText
  | .right => .right step.value.toText

namespace Path

/-- The array of a path: sibling and function, step by step. -/
def ops (path : Path) : List Op :=
  path.steps.flatMap fun step => [step.op, .function path.function.tag]

/-- The array of several paths, one after the other. -/
def opsOfList (paths : List Path) : List Op := paths.flatMap ops

end Path

namespace Op

/-- A sibling and a function read as a step with its function. -/
def pairStep (sibling next : Op) : Except Malformed (HashFunction × Step) := do
  let step ← sibling.step
  match ← next.hashFunction with
  | some f => .ok (f, step)
  | none => .error (.ops .functionExpected)

/-- The steps of an array with their functions; a last single element is left out. -/
def steps : List Op → Except Malformed (List (HashFunction × Step))
  | sibling :: next :: rest => do
    let first ← pairStep sibling next
    let others ← steps rest
    .ok (first :: others)
  | _ => .ok []

/-- One more step ahead of segments: it joins the first of them if the functions agree. -/
def consStep (fs : HashFunction × Step) : List Path → List Path
  | [] => [⟨fs.1, [fs.2]⟩]
  | path :: paths =>
    if path.function = fs.1 then path.prepend fs.2 :: paths
    else ⟨fs.1, [fs.2]⟩ :: path :: paths

/-- The paths that an array strings together: neighbouring steps with the same function form one
segment.  The number of elements is checked first, then the pairs in order. -/
def segments (ops : List Op) : Except Malformed (List Path) :=
  if ops.length % 2 = 1 then .error (.ops (.oddCount ops.length))
  else (steps ops).map (List.foldr consStep [])

end Op

end HashCalendar
