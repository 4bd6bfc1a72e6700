/-
**The grammar of proof arrays.**

An array is read if siblings and known functions take turns in it.  What is read are the segments of
the array: none of them is empty, and neighbours have different hash functions.  When segments are
written again the array comes back, except that the digits of its nodes are in lower case now.  The
other way round, the array of any paths is read as these paths, but paths without steps are left
out and neighbours with the same function become one.  The one thing that is not read back is a
label of 64 hexadecimal digits, which would be taken for a node; the labels that bind an id or a
beacon tag are never of this kind.

Main definitions:

* `HashCalendar.Op.IsPaired` — arrays in which siblings and functions take turns;
* `HashCalendar.Op.lowered` — an element with the digits of a node in lower case;
* `HashCalendar.Path.AreSegments`, `HashCalendar.Path.joined` — segments, and the segments of paths;
* `HashCalendar.Step.IsPlain` — steps whose label cannot be taken for a node.

Main results:

* `HashCalendar.Op.segments_isOk_iff` — which arrays are read;
* `HashCalendar.Op.opsOfList_segments` — what was read is written as it was, in lower case;
* `HashCalendar.Op.segments_opsOfList` — what was written is read, in segments;
* `HashCalendar.arrays_are_read_as_segments` — **all of this together**.
-/

import HashCalendar.Proofs.Proof.Replay
import HashCalendar.Proofs.Text.Hex
import Mathlib.Data.List.Chain

set_option relaxedAutoImplicit false
set_option autoImplicit false

namespace HashCalendar

/-! ### Values of either kind -/

/-- A text that was read as a value is written as it was, but a digest in lower case. -/
theorem StepValue.toText_ofText (text : String) :
    (StepValue.ofText text).toText = if Digest.IsWritten text then text.toLower else text := by
  rw [StepValue.ofText]
  cases hread : Digest.ofHex text with
  | ok d =>
      have hwritten : Digest.IsWritten text := by
        rw [← Digest.ofHex_isOk_iff, hread]
        rfl
      rw [if_pos hwritten]
      exact Digest.toHex_of_ofHex hread
  | error e =>
      have hnot : ¬ Digest.IsWritten text := by
        rw [← Digest.ofHex_isOk_iff, hread]
        exact Bool.false_ne_true
      rw [if_neg hnot]
      rfl

/-- Steps whose label, if they have one, cannot be taken for a node. -/
def Step.IsPlain (step : Step) : Prop :=
  ∀ text, step.value = .label text → ¬ Digest.IsWritten text

/-- Of all steps it is the plain ones that are read back. -/
theorem Step.isStable_iff_isPlain {step : Step} : step.IsStable ↔ step.IsPlain := by
  obtain ⟨side, value⟩ := step
  cases value with
  | node d =>
      refine iff_of_true (StepValue.ofText_toText_node d) ?_
      intro text hlabel
      cases hlabel
  | label text =>
      have hread := Digest.ofHex_isOk_iff text
      simp only [IsStable, IsPlain, StepValue.toText, StepValue.ofText, StepValue.label.injEq,
        forall_eq', ← hread]
      cases Digest.ofHex text with
      | ok d => simp [Except.isOk, Except.toBool]
      | error e => simp [Except.isOk, Except.toBool]

namespace Leaf

theorem isPlain_idStep (hashId : String) : (idStep hashId).IsPlain :=
  Step.isStable_iff_isPlain.1 (isStable_idStep hashId)

theorem isPlain_beaconStep (tag : String) : (beaconStep tag).IsPlain :=
  Step.isStable_iff_isPlain.1 (isStable_beaconStep tag)

end Leaf

/-! ### Which arrays are read -/

namespace Op

/-- The elements that carry a value for one of the two sides. -/
def IsSibling : Op → Prop
  | .left _ | .right _ => True
  | .function _ => False

/-- The elements that name a hash function on offer. -/
def IsFunction (op : Op) : Prop := ∃ f : HashFunction, op = .function f.tag

/-- Arrays in which siblings and functions take turns. -/
structure IsPaired (ops : List Op) : Prop where
  even : ops.length % 2 = 0
  sibling : ∀ i op, ops[2 * i]? = some op → op.IsSibling
  function : ∀ i op, ops[2 * i + 1]? = some op → op.IsFunction

theorem IsPaired.nil : IsPaired [] := ⟨rfl, by simp, by simp⟩

/-- An array is in order if its first pair and the rest of it are. -/
theorem isPaired_cons_cons {first next : Op} {rest : List Op} :
    IsPaired (first :: next :: rest) ↔ first.IsSibling ∧ next.IsFunction ∧ IsPaired rest := by
  constructor
  · rintro ⟨heven, hsibling, hfunction⟩
    refine ⟨hsibling 0 first rfl, hfunction 0 next rfl, ?_, ?_, ?_⟩
    · rw [List.length_cons, List.length_cons] at heven
      omega
    · intro i op hop
      exact hsibling (i + 1) op hop
    · intro i op hop
      exact hfunction (i + 1) op hop
  · rintro ⟨hfirst, hnext, heven, hsibling, hfunction⟩
    refine ⟨?_, ?_, ?_⟩
    · rw [List.length_cons, List.length_cons]
      omega
    · intro i op hop
      cases i with
      | zero =>
          cases hop
          exact hfirst
      | succ i => exact hsibling i op hop
    · intro i op hop
      cases i with
      | zero =>
          cases hop
          exact hnext
      | succ i => exact hfunction i op hop

/-- A sibling is read as a step, and nothing else is. -/
theorem exists_step_iff (op : Op) : (∃ s, op.step = .ok s) ↔ op.IsSibling := by
  cases op <;> simp [step, IsSibling]

/-- A pair is read if it is a sibling and, after it, a function on offer. -/
theorem pairStep_eq_ok_iff {first next : Op} {f : HashFunction} {s : Step} :
    pairStep first next = .ok (f, s) ↔ first.step = .ok s ∧ next = .function f.tag := by
  cases hstep : first.step with
  | error e => simp [pairStep, hstep, bind, Except.bind]
  | ok t =>
      cases next with
      | left value => simp [pairStep, hstep, hashFunction, bind, Except.bind]
      | right value => simp [pairStep, hstep, hashFunction, bind, Except.bind]
      | function tag =>
          have htag : HashFunction.ofTag tag = .ok f ↔ tag = f.tag := HashFunction.ofTag_eq_ok_iff
          cases hread : HashFunction.ofTag tag with
          | error e =>
              rw [hread] at htag
              simp_all [pairStep, hashFunction, Except.map, bind, Except.bind]
          | ok g =>
              rw [hread] at htag
              simp_all [pairStep, hashFunction, Except.map, bind, Except.bind, and_comm]

theorem exists_pairStep_iff (first next : Op) :
    (∃ fs, pairStep first next = .ok fs) ↔ first.IsSibling ∧ next.IsFunction := by
  rw [← exists_step_iff]
  constructor
  · rintro ⟨fs, h⟩
    obtain ⟨hstep, hnext⟩ := pairStep_eq_ok_iff.1 h
    exact ⟨⟨fs.2, hstep⟩, fs.1, hnext⟩
  · rintro ⟨⟨s, hstep⟩, f, hnext⟩
    exact ⟨(f, s), pairStep_eq_ok_iff.2 ⟨hstep, hnext⟩⟩

/-- The first pair of an array is read, and then the rest of it. -/
theorem steps_cons_cons_eq_ok_iff {first next : Op} {rest : List Op}
    {xs : List (HashFunction × Step)} : steps (first :: next :: rest) = .ok xs ↔
      ∃ fs others, pairStep first next = .ok fs ∧ steps rest = .ok others ∧ xs = fs :: others := by
  rw [steps]
  cases pairStep first next with
  | error e => simp [bind, Except.bind]
  | ok fs =>
      cases steps rest with
      | error e => simp [bind, Except.bind]
      | ok others => simp [bind, Except.bind, eq_comm]

/-- An array with an even number of elements is read step by step if its elements take turns. -/
theorem exists_steps_iff : ∀ {ops : List Op}, ops.length % 2 = 0 →
    ((∃ xs, steps ops = .ok xs) ↔ IsPaired ops)
  | [], _ => iff_of_true ⟨[], rfl⟩ .nil
  | [_], heven => by cases heven
  | first :: next :: rest, heven => by
      have heven' : rest.length % 2 = 0 := by
        rw [List.length_cons, List.length_cons] at heven
        omega
      rw [isPaired_cons_cons, ← exists_steps_iff heven', ← and_assoc, ← exists_pairStep_iff]
      constructor
      · rintro ⟨xs, h⟩
        obtain ⟨fs, others, hpair, hrest, -⟩ := steps_cons_cons_eq_ok_iff.1 h
        exact ⟨⟨fs, hpair⟩, others, hrest⟩
      · rintro ⟨⟨fs, hpair⟩, others, hrest⟩
        exact ⟨fs :: others, steps_cons_cons_eq_ok_iff.2 ⟨fs, others, hpair, hrest, rfl⟩⟩

/-- The arrays that are read are those in which siblings and functions on offer take turns. -/
theorem segments_isOk_iff (ops : List Op) : (segments ops).isOk = true ↔ IsPaired ops := by
  rw [segments]
  by_cases hodd : ops.length % 2 = 1
  · rw [if_pos hodd]
    refine iff_of_false Bool.false_ne_true ?_
    intro h
    have := h.even
    omega
  · rw [if_neg hodd, ← exists_steps_iff (by omega)]
    cases steps ops with
    | error e => simp [Except.map, Except.isOk, Except.toBool]
    | ok xs => simp [Except.map, Except.isOk, Except.toBool]

/-! ### What was read is written again -/

/-- An element with the digits of a node in lower case. -/
def lowered : Op → Op
  | .left value => .left (if Digest.IsWritten value then value.toLower else value)
  | .right value => .right (if Digest.IsWritten value then value.toLower else value)
  | .function tag => .function tag

theorem op_of_step {op : Op} {s : Step} (h : op.step = .ok s) : s.op = op.lowered := by
  cases op with
  | left value =>
      cases h
      exact congrArg Op.left (StepValue.toText_ofText value)
  | right value =>
      cases h
      exact congrArg Op.right (StepValue.toText_ofText value)
  | function tag => cases h

/-- The array of steps that stand under one function each. -/
def ofSteps (xs : List (HashFunction × Step)) : List Op :=
  xs.flatMap fun x => [x.2.op, .function x.1.tag]

/-- The steps of an array are written as the array was. -/
theorem ofSteps_steps : ∀ {ops : List Op} {xs : List (HashFunction × Step)},
    ops.length % 2 = 0 → steps ops = .ok xs → ofSteps xs = ops.map lowered
  | [], xs, _, h => by
      cases h
      rfl
  | [_], _, heven, _ => by cases heven
  | first :: next :: rest, xs, heven, h => by
      obtain ⟨fs, others, hpair, hrest, rfl⟩ := steps_cons_cons_eq_ok_iff.1 h
      obtain ⟨hstep, rfl⟩ := pairStep_eq_ok_iff.1 hpair
      have heven' : rest.length % 2 = 0 := by
        rw [List.length_cons, List.length_cons] at heven
        omega
      have ih := ofSteps_steps heven' hrest
      rw [ofSteps] at ih
      rw [ofSteps, List.flatMap_cons, ih, op_of_step hstep]
      rfl

end Op

/-! ### Segments -/

/-- Paths with steps each, of which neighbours have different functions. -/
structure Path.AreSegments (paths : List Path) : Prop where
  steps_ne_nil : ∀ path ∈ paths, path.steps ≠ []
  isChain : paths.IsChain fun lower upper => lower.function ≠ upper.function

namespace Op

/-- One more step ahead of segments makes segments again. -/
theorem areSegments_consStep {paths : List Path} (h : Path.AreSegments paths)
    (fs : HashFunction × Step) : Path.AreSegments (consStep fs paths) := by
  cases paths with
  | nil => exact ⟨by simp [consStep], List.isChain_singleton _⟩
  | cons path others =>
      obtain ⟨hsteps, hchain⟩ := h
      rw [consStep]
      by_cases hfun : path.function = fs.1
      · rw [if_pos hfun]
        constructor
        case steps_ne_nil =>
          intro p hp
          rcases List.mem_cons.1 hp with rfl | hp
          · exact List.cons_ne_nil _ _
          · exact hsteps p (List.mem_cons_of_mem _ hp)
        case isChain =>
          -- The first segment keeps its function.
          cases others with
          | nil => exact List.isChain_singleton _
          | cons next others =>
              rw [List.isChain_cons_cons] at hchain ⊢
              exact hchain
      · rw [if_neg hfun]
        constructor
        case steps_ne_nil =>
          intro p hp
          rcases List.mem_cons.1 hp with rfl | hp
          · exact List.cons_ne_nil _ _
          · exact hsteps p hp
        case isChain =>
          rw [List.isChain_cons_cons]
          exact ⟨Ne.symm hfun, hchain⟩

theorem areSegments_foldr (xs : List (HashFunction × Step)) :
    Path.AreSegments (xs.foldr consStep []) := by
  induction xs with
  | nil => exact ⟨by simp, List.isChain_nil⟩
  | cons x xs ih => exact areSegments_consStep ih x

/-- Whether a step joins a segment or not, its elements are written first. -/
theorem opsOfList_consStep (fs : HashFunction × Step) (paths : List Path) :
    Path.opsOfList (consStep fs paths) =
      fs.2.op :: .function fs.1.tag :: Path.opsOfList paths := by
  cases paths with
  | nil => rfl
  | cons path others =>
      rw [consStep]
      by_cases hfun : path.function = fs.1
      · rw [if_pos hfun, ← hfun]
        rfl
      · rw [if_neg hfun]
        rfl

theorem opsOfList_foldr (xs : List (HashFunction × Step)) :
    Path.opsOfList (xs.foldr consStep []) = ofSteps xs := by
  induction xs with
  | nil => rfl
  | cons x xs ih =>
      rw [List.foldr_cons, opsOfList_consStep, ih]
      rfl

/-- An array that is read is read step by step, and its steps are grouped. -/
theorem exists_steps_of_segments {ops : List Op} {paths : List Path}
    (h : segments ops = .ok paths) :
    ∃ xs, ops.length % 2 = 0 ∧ steps ops = .ok xs ∧ paths = xs.foldr consStep [] := by
  rw [segments] at h
  by_cases hodd : ops.length % 2 = 1
  · rw [if_pos hodd] at h
    cases h
  · rw [if_neg hodd] at h
    cases hsteps : steps ops with
    | error e =>
        rw [hsteps] at h
        cases h
    | ok xs =>
        rw [hsteps] at h
        cases h
        exact ⟨xs, by omega, rfl, rfl⟩

/-- What is read are segments. -/
theorem areSegments_of_segments {ops : List Op} {paths : List Path}
    (h : segments ops = .ok paths) : Path.AreSegments paths := by
  obtain ⟨xs, -, -, rfl⟩ := exists_steps_of_segments h
  exact areSegments_foldr xs

/-- What was read is written as it was, the digits of nodes in lower case. -/
theorem opsOfList_segments {ops : List Op} {paths : List Path}
    (h : segments ops = .ok paths) : Path.opsOfList paths = ops.map lowered := by
  obtain ⟨xs, heven, hsteps, rfl⟩ := exists_steps_of_segments h
  rw [opsOfList_foldr, ofSteps_steps heven hsteps]

end Op

/-! ### What was written is read again -/

namespace Path

/-- One more path ahead of others: it becomes one with the first of them if the functions agree. -/
def attach (path : Path) : List Path → List Path
  | [] => [path]
  | next :: others =>
    if path.function = next.function then
      ⟨path.function, path.steps ++ next.steps⟩ :: others
    else path :: next :: others

/-- Paths in a row without those that have no steps, neighbours with the same function as one. -/
def joined (paths : List Path) : List Path :=
  (paths.filter fun path => path.steps ≠ []).foldr attach []

end Path

namespace Op

/-- One more step ahead of a path that was attached is a step of that path. -/
theorem consStep_attach (f : HashFunction) (s : Step) (ss : List Step) (paths : List Path) :
    consStep (f, s) (Path.attach ⟨f, ss⟩ paths) = Path.attach ⟨f, s :: ss⟩ paths := by
  cases paths with
  | nil =>
      rw [Path.attach, consStep, if_pos rfl]
      rfl
  | cons next others =>
      rw [Path.attach, Path.attach]
      by_cases hfun : f = next.function
      · rw [if_pos hfun, if_pos hfun, consStep, if_pos rfl]
        rfl
      · rw [if_neg hfun, if_neg hfun, consStep, if_pos rfl]
        rfl

/-- The first step of a path makes a path of its own, or joins its function. -/
theorem consStep_eq_attach (f : HashFunction) (s : Step) (paths : List Path) :
    consStep (f, s) paths = Path.attach ⟨f, [s]⟩ paths := by
  cases paths with
  | nil => rfl
  | cons next others =>
      rw [Path.attach, consStep]
      by_cases hfun : f = next.function
      · rw [if_pos hfun, if_pos hfun.symm, hfun]
        rfl
      · rw [if_neg hfun, if_neg (Ne.symm hfun)]

/-- The steps of a path, one by one ahead of segments, attach the path to them. -/
theorem foldr_consStep_path (f : HashFunction) {ss : List Step} (h : ss ≠ [])
    (paths : List Path) :
    (ss.map fun s => (f, s)).foldr consStep paths = Path.attach ⟨f, ss⟩ paths := by
  induction ss with
  | nil => exact absurd rfl h
  | cons s ss ih =>
      rw [List.map_cons, List.foldr_cons]
      cases ss with
      | nil => exact consStep_eq_attach f s paths
      | cons t ss => rw [ih (List.cons_ne_nil t ss), consStep_attach]

/-- The steps of several paths in a row, grouped, are the paths as they are joined. -/
theorem foldr_consStep_paths (paths : List Path) :
    (paths.flatMap fun path => path.steps.map fun s => (path.function, s)).foldr consStep [] =
      Path.joined paths := by
  induction paths with
  | nil => rfl
  | cons path paths ih =>
      rw [List.flatMap_cons, List.foldr_append, ih]
      by_cases hsteps : path.steps = []
      · rw [hsteps, Path.joined, Path.joined, List.filter_cons_of_neg (by simp [hsteps])]
        rfl
      · rw [foldr_consStep_path _ hsteps, Path.joined, Path.joined,
          List.filter_cons_of_pos (by simp [hsteps])]
        rfl

/-- The steps of several paths are read from their array, one path after the other. -/
theorem steps_opsOfList {paths : List Path} (h : ∀ path ∈ paths, ∀ s ∈ path.steps, s.IsPlain) :
    steps (Path.opsOfList paths) =
      .ok (paths.flatMap fun path => path.steps.map fun s => (path.function, s)) := by
  induction paths with
  | nil => rfl
  | cons path paths ih =>
      have hstable : ∀ s ∈ path.steps, s.IsStable := fun s hs =>
        Step.isStable_iff_isPlain.2 (h path List.mem_cons_self s hs)
      have ih := ih fun p hp => h p (List.mem_cons_of_mem _ hp)
      rw [Path.opsOfList] at ih
      rw [Path.opsOfList, List.flatMap_cons, steps_ops_append path.function path.steps hstable, ih]
      rfl

theorem even_length_opsOfList (paths : List Path) : (Path.opsOfList paths).length % 2 = 0 := by
  induction paths with
  | nil => rfl
  | cons path paths ih =>
      rw [Path.opsOfList] at ih
      rw [Path.opsOfList, List.flatMap_cons, List.length_append, length_ops]
      omega

/-- What was written is read, in segments. -/
theorem segments_opsOfList {paths : List Path}
    (h : ∀ path ∈ paths, ∀ s ∈ path.steps, s.IsPlain) :
    segments (Path.opsOfList paths) = .ok (Path.joined paths) := by
  have heven := even_length_opsOfList paths
  rw [segments, if_neg (by omega), steps_opsOfList h, Except.map, foldr_consStep_paths]

end Op

/-- **Arrays are read as segments.**  An array is read exactly if siblings and functions on offer
take turns in it.  What is read are segments, and written again they give the array back with the
digits of its nodes in lower case.  The array of any paths is read as these paths without the empty
ones, neighbours with the same function as one, as long as no label could be taken for a node;
and the labels that bind an id or a beacon tag never are. -/
theorem arrays_are_read_as_segments :
    (∀ ops, (Op.segments ops).isOk = true ↔ Op.IsPaired ops) ∧
    (∀ ops paths, Op.segments ops = .ok paths →
      Path.AreSegments paths ∧ Path.opsOfList paths = ops.map Op.lowered) ∧
    (∀ paths, (∀ path ∈ paths, ∀ step ∈ path.steps, step.IsPlain) →
      Op.segments (Path.opsOfList paths) = .ok (Path.joined paths)) ∧
    (∀ hashId, (Leaf.idStep hashId).IsPlain) ∧ ∀ tag, (Leaf.beaconStep tag).IsPlain :=
  ⟨Op.segments_isOk_iff,
    fun _ _ h => ⟨Op.areSegments_of_segments h, Op.opsOfList_segments h⟩,
    fun _ => Op.segments_opsOfList, Leaf.isPlain_idStep, Leaf.isPlain_beaconStep⟩

/-- The two bindings of a leaf as paths of their own, with a path without steps between them. -/
def bindingPaths : List Path :=
  [⟨.sha256, [Leaf.idStep "a"]⟩, .empty .blake3, ⟨.sha256, [Leaf.beaconStep "own:00"]⟩]

/-- They are read as one segment. -/
theorem bindings_read_as_one_segment :
    (∀ path ∈ bindingPaths, ∀ step ∈ path.steps, step.IsPlain) ∧
    Op.segments (Path.opsOfList bindingPaths) =
      .ok [⟨.sha256, [Leaf.idStep "a", Leaf.beaconStep "own:00"]⟩] ∧
    Path.AreSegments [⟨.sha256, [Leaf.idStep "a", Leaf.beaconStep "own:00"]⟩] ∧
    Op.IsPaired (Path.opsOfList bindingPaths) := by
  obtain ⟨hread, hsegments, hwritten, hid, hbeacon⟩ := arrays_are_read_as_segments
  have hplain : ∀ path ∈ bindingPaths, ∀ step ∈ path.steps, step.IsPlain := by
    simp [bindingPaths, Path.empty, hid, hbeacon]
  have hjoined : Path.joined bindingPaths =
      [⟨.sha256, [Leaf.idStep "a", Leaf.beaconStep "own:00"]⟩] := rfl
  have hok := hjoined ▸ hwritten bindingPaths hplain
  refine ⟨hplain, hok, (hsegments _ _ hok).1, (hread _).1 ?_⟩
  rw [hok]
  rfl

end HashCalendar
