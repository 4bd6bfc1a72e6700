/-
**Replaying step by step.**

An array is replayed in segments, but the segments do not matter.  Replaying is the same as taking
the array pair by pair and applying each sibling with the function that follows it.  So an array may
be cut anywhere between two pairs and its parts be replayed one after the other, and the array of
several paths leads where the paths lead when they are evaluated in a row.  Only where there is no
step at all the starting value has to be a digest.

Main definitions:

* `HashCalendar.Op.Turn` — a sibling and the function that is applied with it;
* `HashCalendar.Op.Turn.apply` — one turn on a running value;
* `HashCalendar.Op.carry` — the value that steps lead to, each under its own function;
* `HashCalendar.Path.evaluateAll` — several paths, evaluated in a row.

Main results:

* `HashCalendar.Op.computeRoot_turns` — **replaying folds the turns of an array**;
* `HashCalendar.Op.computeRoot_append_eq_ok_iff` — arrays in a row are replayed in a row;
* `HashCalendar.Op.computeRoot_opsOfList` — and paths in a row are evaluated in a row;
* `HashCalendar.replay_ignores_segments` — **all of this together**.
-/

import HashCalendar.Proofs.Proof.Segments

set_option relaxedAutoImplicit false
set_option autoImplicit false

namespace HashCalendar

namespace Op

/-! ### Turns -/

/-- A sibling, on its side and as it is written, and the function that is applied with it. -/
structure Turn where
  side : Side
  value : String
  function : HashFunction
  deriving DecidableEq, Repr

namespace Turn

/-- The sibling of a turn as an element of an array. -/
def sibling (t : Turn) : Op :=
  match t.side with
  | .left => .left t.value
  | .right => .right t.value

/-- The two elements of a turn. -/
def ops (t : Turn) : List Op := [t.sibling, .function t.function.tag]

/-- The running value after a turn. -/
def apply (current : Bytes) (t : Turn) : Bytes :=
  let beside := (StepValue.ofText t.value).bytes
  match t.side with
  | .left => (t.function.digest [beside, current]).bytes
  | .right => (t.function.digest [current, beside]).bytes

/-- A turn as it is read. -/
def read (t : Turn) : HashFunction × Step := (t.function, ⟨t.side, .ofText t.value⟩)

theorem pairStep_sibling (t : Turn) :
    pairStep t.sibling (.function t.function.tag) = .ok t.read := by
  refine pairStep_eq_ok_iff.2 ⟨?_, rfl⟩
  obtain ⟨side, value, f⟩ := t
  cases side with
  | left => rfl
  | right => rfl

/-- The pairs that are read are the turns. -/
theorem exists_of_pairStep {first next : Op} {fs : HashFunction × Step}
    (h : pairStep first next = .ok fs) :
    ∃ t : Turn, first = t.sibling ∧ next = .function t.function.tag := by
  obtain ⟨f, s⟩ := fs
  obtain ⟨hstep, rfl⟩ := pairStep_eq_ok_iff.1 h
  cases first with
  | left value => exact ⟨⟨.left, value, f⟩, rfl, rfl⟩
  | right value => exact ⟨⟨.right, value, f⟩, rfl, rfl⟩
  | function tag => cases hstep

end Turn

/-- Turns are read one by one. -/
theorem steps_turns (turns : List Turn) :
    steps (turns.flatMap Turn.ops) = .ok (turns.map Turn.read) := by
  induction turns with
  | nil => rfl
  | cons t turns ih =>
      exact steps_cons_cons_eq_ok_iff.2 ⟨_, _, t.pairStep_sibling, ih, rfl⟩

theorem even_length_turns (turns : List Turn) : (turns.flatMap Turn.ops).length % 2 = 0 := by
  simp [Turn.ops, List.length_flatMap]

/-- An array that is read consists of turns. -/
theorem exists_turns : ∀ {ops : List Op} {xs : List (HashFunction × Step)},
    ops.length % 2 = 0 → steps ops = .ok xs → ∃ turns : List Turn, ops = turns.flatMap Turn.ops
  | [], _, _, _ => ⟨[], rfl⟩
  | [_], _, heven, _ => by cases heven
  | first :: next :: rest, xs, heven, h => by
      obtain ⟨fs, others, hpair, hrest, -⟩ := steps_cons_cons_eq_ok_iff.1 h
      obtain ⟨t, rfl, rfl⟩ := Turn.exists_of_pairStep hpair
      have heven' : rest.length % 2 = 0 := by
        rw [List.length_cons, List.length_cons] at heven
        omega
      obtain ⟨turns, rfl⟩ := exists_turns heven' hrest
      exact ⟨t :: turns, rfl⟩

/-- The arrays that are read are the arrays of turns. -/
theorem segments_isOk_iff_exists_turns (ops : List Op) :
    (segments ops).isOk = true ↔ ∃ turns : List Turn, ops = turns.flatMap Turn.ops := by
  constructor
  · intro h
    cases hsegments : segments ops with
    | error e =>
        rw [hsegments] at h
        cases h
    | ok paths =>
        obtain ⟨xs, heven, hsteps, -⟩ := exists_steps_of_segments hsegments
        exact exists_turns heven hsteps
  · rintro ⟨turns, rfl⟩
    have heven := even_length_turns turns
    rw [segments, if_neg (by omega), steps_turns]
    rfl

/-! ### The plain fold -/

/-- The value that steps lead to, each under its own function. -/
def carry (start : Bytes) (xs : List (HashFunction × Step)) : Bytes :=
  xs.foldl (fun current x => (x.2.apply x.1 current).bytes) start

@[simp] theorem carry_nil (start : Bytes) : carry start [] = start := rfl

@[simp] theorem carry_cons (start : Bytes) (x : HashFunction × Step)
    (xs : List (HashFunction × Step)) :
    carry start (x :: xs) = carry (x.2.apply x.1 start).bytes xs := rfl

theorem carry_append (start : Bytes) (xs ys : List (HashFunction × Step)) :
    carry start (xs ++ ys) = carry (carry start xs) ys := List.foldl_append

/-- After a step there is a digest, and without one the starting value may be one. -/
theorem exists_carry (start : Bytes) {xs : List (HashFunction × Step)}
    (h : xs ≠ [] ∨ start.length = 32) : ∃ d : Digest, carry start xs = d.bytes := by
  induction xs generalizing start with
  | nil =>
      rcases h with h | h
      · exact absurd rfl h
      · exact ⟨⟨start, h⟩, rfl⟩
  | cons x xs ih => exact ih _ (Or.inr (x.2.apply x.1 start).length_eq)

theorem carry_read (start : Bytes) (turns : List Turn) :
    carry start (turns.map Turn.read) = turns.foldl Turn.apply start := by
  induction turns generalizing start with
  | nil => rfl
  | cons t turns ih =>
      have happly : ((t.read).2.apply t.read.1 start).bytes = t.apply start := by
        obtain ⟨side, value, f⟩ := t
        cases side with
        | left => rfl
        | right => rfl
      rw [List.map_cons, carry_cons, List.foldl_cons, ih, happly]

/-- However steps are grouped, they are applied one after the other. -/
theorem evaluateSegments_foldr (start : Bytes) (xs : List (HashFunction × Step)) :
    evaluateSegments start (xs.foldr consStep []) = Digest.ofBytes (carry start xs) := by
  induction xs generalizing start with
  | nil => rfl
  | cons x xs ih => rw [List.foldr_cons, evaluateSegments_consStep, ih, carry_cons]

/-- An array that is read leads where its steps lead. -/
theorem computeRoot_of_steps {ops : List Op} {xs : List (HashFunction × Step)}
    (heven : ops.length % 2 = 0) (h : steps ops = .ok xs) (start : Bytes) :
    computeRoot start ops = (Digest.ofBytes (carry start xs)).mapError .malformed := by
  rw [computeRoot, segments, if_neg (by omega), h]
  exact congrArg (Except.mapError ReplayError.malformed) (evaluateSegments_foldr start xs)

/-- An array leads to a digest if it is read and its steps lead there. -/
theorem computeRoot_eq_ok_iff {start : Bytes} {ops : List Op} {r : Digest} :
    computeRoot start ops = .ok r ↔
      ∃ xs, ops.length % 2 = 0 ∧ steps ops = .ok xs ∧ carry start xs = r.bytes := by
  constructor
  · intro h
    cases hsegments : segments ops with
    | error e =>
        rw [computeRoot, hsegments] at h
        cases h
    | ok paths =>
        obtain ⟨xs, heven, hsteps, -⟩ := exists_steps_of_segments hsegments
        refine ⟨xs, heven, hsteps, ?_⟩
        rw [computeRoot_of_steps heven hsteps] at h
        cases hdigest : Digest.ofBytes (carry start xs) with
        | error e =>
            rw [hdigest] at h
            cases h
        | ok d =>
            rw [hdigest] at h
            cases h
            exact Digest.ofBytes_eq_ok_iff.1 hdigest
  · rintro ⟨xs, heven, hsteps, hcarry⟩
    rw [computeRoot_of_steps heven hsteps, hcarry, Digest.ofBytes_bytes]
    rfl

/-- Replaying folds the turns of an array. -/
theorem computeRoot_turns (start : Bytes) (turns : List Turn) :
    computeRoot start (turns.flatMap Turn.ops) =
      (Digest.ofBytes (turns.foldl Turn.apply start)).mapError .malformed := by
  rw [computeRoot_of_steps (even_length_turns turns) (steps_turns turns), carry_read]

/-- With a turn in it, an array of turns always leads to a digest. -/
theorem exists_computeRoot_turns (start : Bytes) {turns : List Turn} (h : turns ≠ []) :
    ∃ r, computeRoot start (turns.flatMap Turn.ops) = .ok r ∧
      r.bytes = turns.foldl Turn.apply start := by
  have hread : turns.map Turn.read ≠ [] := by simpa using h
  obtain ⟨r, hr⟩ := exists_carry start (Or.inl hread)
  rw [carry_read] at hr
  refine ⟨r, ?_, hr.symm⟩
  rw [computeRoot_turns, hr, Digest.ofBytes_bytes]
  rfl

/-- The empty array leads from a digest to itself, and from nothing else anywhere. -/
theorem computeRoot_nil (start : Bytes) :
    computeRoot start [] =
      if h : start.length = 32 then .ok ⟨start, h⟩
      else .error (.malformed (.digestLength start.length)) := by
  have hempty : computeRoot start [] = (Digest.ofBytes start).mapError .malformed :=
    computeRoot_turns start []
  rw [hempty, Digest.ofBytes]
  split
  · rfl
  · rfl

/-! ### Arrays in a row -/

/-- Arrays in a row are read in a row. -/
theorem steps_append_eq_ok_iff : ∀ {a b : List Op} {zs : List (HashFunction × Step)},
    a.length % 2 = 0 →
      (steps (a ++ b) = .ok zs ↔
        ∃ xs ys, steps a = .ok xs ∧ steps b = .ok ys ∧ zs = xs ++ ys)
  | [], b, zs, _ => by
      constructor
      · intro h
        exact ⟨[], zs, rfl, h, rfl⟩
      · rintro ⟨xs, ys, hxs, hys, rfl⟩
        cases hxs
        exact hys
  | [_], _, _, heven => by cases heven
  | first :: next :: rest, b, zs, heven => by
      have heven' : rest.length % 2 = 0 := by
        rw [List.length_cons, List.length_cons] at heven
        omega
      rw [List.cons_append, List.cons_append, steps_cons_cons_eq_ok_iff]
      constructor
      · rintro ⟨fs, others, hpair, hothers, rfl⟩
        obtain ⟨xs, ys, hxs, hys, rfl⟩ := (steps_append_eq_ok_iff heven').1 hothers
        exact ⟨fs :: xs, ys, steps_cons_cons_eq_ok_iff.2 ⟨fs, xs, hpair, hxs, rfl⟩, hys, rfl⟩
      · rintro ⟨xs, ys, hxs, hys, rfl⟩
        obtain ⟨fs, others, hpair, hothers, rfl⟩ := steps_cons_cons_eq_ok_iff.1 hxs
        exact ⟨fs, others ++ ys, hpair,
          (steps_append_eq_ok_iff heven').2 ⟨others, ys, hothers, hys, rfl⟩, rfl⟩

/-- An array with an element in it has a step. -/
theorem ne_nil_of_steps {ops : List Op} {xs : List (HashFunction × Step)}
    (heven : ops.length % 2 = 0) (h : steps ops = .ok xs) (hne : ops ≠ []) : xs ≠ [] := by
  rintro rfl
  have hlowered := ofSteps_steps heven h
  exact hne (List.map_eq_nil_iff.1 hlowered.symm)

/-- Arrays in a row are replayed in a row.  From a start that is no digest the empty array leads
nowhere, although an array after it may. -/
theorem computeRoot_append_eq_ok_iff {start : Bytes} {a b : List Op} {r : Digest}
    (ha : a.length % 2 = 0) (hb : b.length % 2 = 0) (h : a ≠ [] ∨ start.length = 32) :
    computeRoot start (a ++ b) = .ok r ↔
      ∃ m, computeRoot start a = .ok m ∧ computeRoot m.bytes b = .ok r := by
  simp only [computeRoot_eq_ok_iff]
  constructor
  · rintro ⟨zs, -, hsteps, hcarry⟩
    obtain ⟨xs, ys, hxs, hys, rfl⟩ := (steps_append_eq_ok_iff ha).1 hsteps
    obtain ⟨m, hm⟩ := exists_carry start (h.imp_left (ne_nil_of_steps ha hxs))
    rw [carry_append, hm] at hcarry
    exact ⟨m, ⟨xs, ha, hxs, hm⟩, ys, hb, hys, hcarry⟩
  · rintro ⟨m, ⟨xs, -, hxs, hm⟩, ys, -, hys, hcarry⟩
    refine ⟨xs ++ ys, ?_, (steps_append_eq_ok_iff ha).2 ⟨xs, ys, hxs, hys, rfl⟩, ?_⟩
    · rw [List.length_append]
      omega
    · rw [carry_append, hm, hcarry]

end Op

/-! ### Paths in a row -/

namespace Path

/-- The steps of a path with its function. -/
def labelled (path : Path) : List (HashFunction × Step) :=
  path.steps.map fun s => (path.function, s)

/-- Evaluates the paths that have steps one after the other, each from where the last one led. -/
def evaluateAll (start : Bytes) (paths : List Path) : Except Malformed Bytes :=
  (paths.filter fun path => path.steps ≠ []).foldlM
    (fun current path => (path.evaluate current).map Digest.bytes) start

/-- A path with a step leads where its steps lead. -/
theorem evaluate_of_steps_ne_nil {path : Path} (h : path.steps ≠ []) (start : Bytes) :
    (path.evaluate start).map Digest.bytes = .ok (Op.carry start path.labelled) := by
  have hlabelled : path.labelled ≠ [] := by simpa [labelled] using h
  obtain ⟨d, hd⟩ := Op.exists_carry start (Or.inl hlabelled)
  rw [← Op.evaluateSegments_path, ← labelled, Op.evaluateSegments_foldr, hd, Digest.ofBytes_bytes]
  rfl

/-- Paths in a row lead where all their steps lead. -/
theorem evaluateAll_eq (start : Bytes) (paths : List Path) :
    evaluateAll start paths = .ok (Op.carry start (paths.flatMap labelled)) := by
  induction paths generalizing start with
  | nil => rfl
  | cons path paths ih =>
      rw [List.flatMap_cons, Op.carry_append]
      by_cases hsteps : path.steps = []
      · rw [evaluateAll, List.filter_cons_of_neg (by simp [hsteps]), labelled, hsteps]
        exact ih start
      · rw [evaluateAll, List.filter_cons_of_pos (by simp [hsteps]), List.foldlM_cons,
          evaluate_of_steps_ne_nil hsteps]
        exact ih _

end Path

/-- The array of paths in a row leads where the paths lead. -/
theorem Op.computeRoot_opsOfList {start : Bytes} {paths : List Path}
    (hplain : ∀ path ∈ paths, ∀ step ∈ path.steps, step.IsPlain)
    (h : (∃ path ∈ paths, path.steps ≠ []) ∨ start.length = 32) :
    ∃ r, computeRoot start (Path.opsOfList paths) = .ok r ∧
      Path.evaluateAll start paths = .ok r.bytes := by
  have hne : paths.flatMap Path.labelled ≠ [] ∨ start.length = 32 := by
    refine h.imp_left ?_
    rintro ⟨path, hpath, hsteps⟩ hnil
    have hlabelled := List.flatMap_eq_nil_iff.1 hnil path hpath
    exact hsteps (List.map_eq_nil_iff.1 hlabelled)
  obtain ⟨r, hr⟩ := exists_carry start hne
  refine ⟨r, computeRoot_eq_ok_iff.2 ?_, ?_⟩
  · exact ⟨_, even_length_opsOfList paths, steps_opsOfList hplain, hr⟩
  · rw [Path.evaluateAll_eq, hr]

/-- **Replaying does not depend on segments.**  An array is read exactly if it consists of turns,
and then it leads from any starting value where the plain fold of its turns leads, or, if it is
empty, from a digest to itself and from nothing else anywhere.  Two arrays in a row lead to a digest
exactly if the second one leads there from where the first one leads.  And the array of any paths
leads where they lead when they are evaluated in a row. -/
theorem replay_ignores_segments :
    (∀ ops, (Op.segments ops).isOk = true ↔
      ∃ turns : List Op.Turn, ops = turns.flatMap Op.Turn.ops) ∧
    (∀ (start : Bytes) (turns : List Op.Turn), turns ≠ [] →
      ∃ r, Op.computeRoot start (turns.flatMap Op.Turn.ops) = .ok r ∧
        r.bytes = turns.foldl Op.Turn.apply start) ∧
    (∀ start, Op.computeRoot start [] =
      if h : start.length = 32 then .ok ⟨start, h⟩
      else .error (.malformed (.digestLength start.length))) ∧
    (∀ (start : Bytes) (a b : List Op) (r : Digest), a.length % 2 = 0 → b.length % 2 = 0 →
      a ≠ [] ∨ start.length = 32 →
      (Op.computeRoot start (a ++ b) = .ok r ↔
        ∃ m, Op.computeRoot start a = .ok m ∧ Op.computeRoot m.bytes b = .ok r)) ∧
    ∀ (start : Bytes) (paths : List Path),
      (∀ path ∈ paths, ∀ step ∈ path.steps, step.IsPlain) →
      (∃ path ∈ paths, path.steps ≠ []) ∨ start.length = 32 →
      ∃ r, Op.computeRoot start (Path.opsOfList paths) = .ok r ∧
        Path.evaluateAll start paths = .ok r.bytes :=
  ⟨Op.segments_isOk_iff_exists_turns, fun start _ => Op.exists_computeRoot_turns start,
    Op.computeRoot_nil, fun _ _ _ _ => Op.computeRoot_append_eq_ok_iff,
    fun _ _ => Op.computeRoot_opsOfList⟩

/-- A binding under one function, a path without steps, and a binding under another function. -/
def mixedPaths : List Path :=
  [⟨.sha256, [Leaf.idStep "a"]⟩, .empty .sha256x2, ⟨.blake3, [Leaf.beaconStep "own:00"]⟩]

/-- From a start of three bytes they lead to a digest, in one go, in two parts and turn by turn. -/
theorem mixed_paths_lead_to_one_digest :
    (∀ path ∈ mixedPaths, ∀ step ∈ path.steps, step.IsPlain) ∧
    (∃ path ∈ mixedPaths, path.steps ≠ []) ∧
    ∃ r m, Op.computeRoot [1, 2, 3] (Path.opsOfList mixedPaths) = .ok r ∧
      Path.evaluateAll [1, 2, 3] mixedPaths = .ok r.bytes ∧
      Op.computeRoot [1, 2, 3] [.left "core_id:a", .function "sha-256"] = .ok m ∧
      Op.computeRoot m.bytes [.left "nist:own:00", .function "blake3"] = .ok r ∧
      r.bytes = [⟨.left, "core_id:a", .sha256⟩, ⟨.left, "nist:own:00", .blake3⟩].foldl
        Op.Turn.apply [1, 2, 3] := by
  obtain ⟨-, hfold, -, happend, hpaths⟩ := replay_ignores_segments
  have hplain : ∀ path ∈ mixedPaths, ∀ step ∈ path.steps, step.IsPlain := by
    simp [mixedPaths, Path.empty, Leaf.isPlain_idStep, Leaf.isPlain_beaconStep]
  have hne : ∃ path ∈ mixedPaths, path.steps ≠ [] :=
    ⟨_, List.mem_cons_self, List.cons_ne_nil _ _⟩
  obtain ⟨r, hr, hall⟩ := hpaths [1, 2, 3] mixedPaths hplain (Or.inl hne)
  have hparts : Path.opsOfList mixedPaths =
      [.left "core_id:a", .function "sha-256"] ++
        [.left "nist:own:00", .function "blake3"] := by decide
  have hjoined := hparts ▸ hr
  obtain ⟨m, hm, hrest⟩ :=
    (happend [1, 2, 3] _ _ r rfl rfl (Or.inl (List.cons_ne_nil _ _))).1 hjoined
  obtain ⟨r', hr', hturns⟩ := hfold [1, 2, 3]
    [⟨.left, "core_id:a", .sha256⟩, ⟨.left, "nist:own:00", .blake3⟩] (List.cons_ne_nil _ _)
  have hsame : r' = r := Except.ok.inj (hr'.symm.trans hjoined)
  exact ⟨hplain, hne, r, m, hr, hall, hm, hrest, hsame ▸ hturns⟩

end HashCalendar
