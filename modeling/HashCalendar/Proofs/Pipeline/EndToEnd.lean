/-
**Proofs from a submission to the calendar.**

A submission is answered twice: by the aggregation tier with a proof up to the root of its batch,
and by the calendar tier with a proof from there up to the root of the calendar tree.  Both proofs
travel as messages.  Read from their bytes, the first one leads from the submitted hash to the
aggregate root, and the two in a row lead to the calendar root, whatever hash functions the tiers
use and whatever characters ids and beacon tags are made of.

Main definitions:

* `HashCalendar.Submission.bindingOps` — the elements that bind an id and a beacon tag;
* `HashCalendar.AggregationState.Proves` — an answer that proves a submission to be below a root.

Main results:

* `HashCalendar.AggregationTree.exists_build`, `HashCalendar.CalendarTree.exists_build` — what the
  trees of the two tiers are;
* `HashCalendar.AggregationTree.mapM_decode_messages`,
  `HashCalendar.CalendarTree.mapM_decode_messages` — what their messages are read as;
* `HashCalendar.proofs_lead_to_both_roots` — **the published proofs lead to both roots**.
-/

import HashCalendar.Aggregation.Tree
import HashCalendar.Calendar.Tree
import HashCalendar.Proofs.Lists
import HashCalendar.Proofs.Proof.Replay

set_option relaxedAutoImplicit false
set_option autoImplicit false

namespace HashCalendar

/-! ### The trees of the two tiers -/

/-- Over every batch there is a tree, and each submission has a path in it that starts with its
bindings. -/
theorem AggregationTree.exists_build (id : Uuid) (f : HashFunction) (beacon : Option String)
    {batch : List Submission} (h : batch ≠ []) :
    ∃ tree, AggregationTree.build id f beacon batch = .ok tree ∧ tree.leafCount = batch.length ∧
      List.Forall₂ (fun s path => path.function = f ∧ path.LeadsTo s.hash tree.root ∧
        (leafOf beacon s).bindingSteps <+: path.steps) batch tree.paths := by
  have hne : (batch.map (leafOf beacon)).map (fun leaf => leaf.digest f) ≠ [] := by simpa using h
  obtain ⟨tree, hbuild, hfun, hleaves⟩ := Merkle.Tree.build_eq_ok f hne
  have hcount : tree.leafCount = batch.length := by simp [Merkle.Tree.leafCount, hleaves]
  refine ⟨⟨id, tree.root, tree.leafCount,
    List.zipWith Leaf.bindPath (batch.map (leafOf beacon)) tree.proofs⟩, ?_, hcount, ?_⟩
  · rw [AggregationTree.build, hbuild]
    rfl
  refine List.forall₂_iff_get.2 ⟨by simp [hcount], ?_⟩
  intro i hi _
  -- The leaf that was hashed at once is the one that the bindings lead to step by step.
  have hleaf : tree.leaves[i]? = some ((leafOf beacon batch[i]).digest f) := by simp [hleaves, hi]
  have hproofs : i < tree.proofs.length := by simpa [hcount] using hi
  have hpath : tree.proofs[i] = tree.pathAt i := by simp [Merkle.Tree.proofs_eq_map]
  have hbind := Leaf.evaluate_bindPath (leafOf beacon batch[i]) (tree.pathAt i)
  rw [show (tree.pathAt i).function = f from hfun] at hbind
  simp only [List.get_eq_getElem, List.getElem_zipWith, List.getElem_map, hpath]
  exact ⟨hfun, ⟨hbind.trans (tree.evaluate_pathAt hleaf),
    Leaf.isStable_of_mem_bindPath fun _ => Merkle.Tree.isStable_of_mem_climb⟩, ⟨_, rfl⟩⟩

/-- Over every batch of aggregate roots there is a tree, and each of them has a path in it. -/
theorem CalendarTree.exists_build (id : Uuid) (f : HashFunction) {batch : List AggregateRoot}
    (h : batch ≠ []) :
    ∃ tree, CalendarTree.build id f batch = .ok tree ∧
      List.Forall₂ (fun r path => path.LeadsTo r.aggRoot.bytes tree.root) batch tree.paths := by
  have hne : batch.map AggregateRoot.aggRoot ≠ [] := by simpa using h
  obtain ⟨tree, hbuild, _, hleaves⟩ := Merkle.Tree.build_eq_ok f hne
  have hcount : tree.leafCount = batch.length := by simp [Merkle.Tree.leafCount, hleaves]
  refine ⟨⟨id, tree.root, tree.proofs, .built⟩, ?_, ?_⟩
  · rw [CalendarTree.build, hbuild]
    rfl
  refine List.forall₂_iff_get.2 ⟨by simp [hcount], ?_⟩
  intro i hi _
  have hleaf : tree.leaves[i]? = some batch[i].aggRoot := by simp [hleaves, hi]
  have hproofs : i < tree.proofs.length := by simpa [hcount] using hi
  have hpath : tree.proofs[i] = tree.pathAt i := by simp [Merkle.Tree.proofs_eq_map]
  simp only [List.get_eq_getElem, hpath]
  exact ⟨tree.evaluate_pathAt hleaf, fun _ => Merkle.Tree.isStable_of_mem_climb⟩

/-! ### What the messages are read as -/

/-- The answers of an aggregation tree. -/
def AggregationTree.states (tree : AggregationTree) (batch : List Submission) :
    List AggregationState :=
  List.zipWith tree.stateMessage batch tree.paths

/-- The answers of an aggregation tree go to one queue, and its root to another. -/
theorem AggregationTree.map_queue_messages (tree : AggregationTree) (queues : Config.Queues)
    {batch : List Submission} (h : tree.paths.length = batch.length) :
    (tree.messages queues batch).map Outbound.queue =
      List.replicate batch.length queues.stateOut ++ [queues.calendarIn] := by
  rw [messages, List.map_append, List.map_zipWith]
  congr 1
  refine List.ext_getElem (by simp [h]) ?_
  intro i _ _
  simp

/-- The messages of an aggregation tree but the last one are read as its answers. -/
theorem AggregationTree.mapM_decode_messages (tree : AggregationTree) (queues : Config.Queues)
    (batch : List Submission) :
    (tree.messages queues batch).dropLast.mapM
      (fun m => Json.decode? AggregationState.ofJson? m.content.payload) =
        some (tree.states batch) := by
  rw [messages, List.dropLast_concat]
  refine mapM_zipWith_eq_some ?_ tree.paths
  intro s _ path
  exact (tree.stateMessage s path).decode?_render

/-- The last message of an aggregation tree is read as its root. -/
theorem AggregationTree.decode_getLast?_messages {tree : AggregationTree} (queues : Config.Queues)
    (batch : List Submission) (h : tree.leafCount < UInt64.size) :
    ((tree.messages queues batch).getLast?.bind
      fun m => Json.decode? AggregateRoot.ofJson? m.content.payload) = some tree.rootMessage := by
  rw [messages, List.getLast?_concat, Option.bind_some]
  exact AggregateRoot.decode?_render h

/-- The answers of a calendar tree. -/
def CalendarTree.states (tree : CalendarTree) (baseUri : String) (batch : List AggregateRoot) :
    List CalendarState :=
  List.zipWith (tree.stateMessage baseUri) batch tree.paths

/-- The messages of a calendar tree are read as its answers. -/
theorem CalendarTree.mapM_decode_messages (tree : CalendarTree) (queue baseUri : String)
    {batch : List AggregateRoot} (h : ∀ r ∈ batch, r.hashCount < UInt64.size) :
    (tree.messages queue baseUri batch).mapM
      (fun m => Json.decode? CalendarState.ofJson? m.content.payload) =
        some (tree.states baseUri batch) := by
  refine mapM_zipWith_eq_some ?_ tree.paths
  intro r hr path
  exact CalendarState.decode?_render (h r hr)

/-- There is an answer to each aggregate root of the batch, in its order. -/
theorem CalendarTree.map_root_states (tree : CalendarTree) (baseUri : String)
    {batch : List AggregateRoot} (h : tree.paths.length = batch.length) :
    (tree.states baseUri batch).map CalendarState.root = batch := by
  rw [states, List.map_zipWith]
  refine List.ext_getElem (by simp [h]) ?_
  intro i _ _
  simp [CalendarTree.stateMessage]

/-! ### What the answers prove -/

/-- The elements at the head of the proof of a submission: its id is bound first, and then a beacon
tag, its own before that of the batch. -/
def Submission.bindingOps (s : Submission) (f : HashFunction) (beacon : Option String) : List Op :=
  [.left ("core_id:" ++ s.hashId), .function f.tag] ++
    match s.beaconTag.or beacon with
    | some tag => [.left ("nist:" ++ tag), .function f.tag]
    | none => []

/-- The array of a path that starts with the bindings of a submission starts with their elements. -/
theorem bindingOps_prefix {s : Submission} {beacon : Option String} {path : Path}
    (h : (AggregationTree.leafOf beacon s).bindingSteps <+: path.steps) :
    s.bindingOps path.function beacon <+: path.ops := by
  obtain ⟨f, steps⟩ := path
  obtain ⟨rest, rfl⟩ := h
  refine ⟨(Path.mk f rest).ops, ?_⟩
  simp only [Path.ops, List.flatMap_append, Submission.bindingOps, Leaf.bindingSteps,
    AggregationTree.leafOf]
  cases s.beaconTag.or beacon <;> rfl

/-- An answer that echoes a submission and proves it to be below an aggregate root. -/
structure AggregationState.Proves (state : AggregationState) (s : Submission) (f : HashFunction)
    (beacon : Option String) (root : AggregateRoot) : Prop where
  hashId_eq : state.hashId = s.hashId
  hash_eq : state.hash = s.hashText
  aggId_eq : state.aggId = root.aggId
  bindings : s.bindingOps f beacon <+: state.ops
  verify : ∃ hash, Hex.decode state.hash = .ok hash ∧
    Op.verify hash state.ops root.aggRoot = .ok ()

/-- The answers of an aggregation tree prove its submissions. -/
theorem AggregationTree.forall₂_proves {tree : AggregationTree} {f : HashFunction}
    {beacon : Option String} {batch : List Submission}
    (hpaths : List.Forall₂ (fun s path => path.function = f ∧ path.LeadsTo s.hash tree.root ∧
      (leafOf beacon s).bindingSteps <+: path.steps) batch tree.paths)
    (htexts : ∀ s ∈ batch, Hex.decode s.hashText = .ok s.hash) :
    List.Forall₂ (fun s (state : AggregationState) => state.Proves s f beacon tree.rootMessage)
      batch (tree.states batch) := by
  rw [states]
  generalize tree.paths = paths at hpaths
  induction hpaths with
  | nil => exact .nil
  | @cons s path batch paths hpath _ ih =>
      obtain ⟨hfun, hleads, hprefix⟩ := hpath
      have htext := htexts s List.mem_cons_self
      have hbindings := hfun ▸ bindingOps_prefix hprefix
      refine .cons ⟨rfl, rfl, rfl, hbindings, s.hash, htext, hleads.verify⟩ ?_
      exact ih fun t ht => htexts t (List.mem_cons_of_mem s ht)

/-- An answer of an aggregation tree, followed by a path from the aggregate root upwards, proves its
submission to be below the upper root. -/
theorem AggregationTree.verify_append {tree : AggregationTree} {f : HashFunction}
    {beacon : Option String} {batch : List Submission}
    (hpaths : List.Forall₂ (fun s path => path.function = f ∧ path.LeadsTo s.hash tree.root ∧
      (leafOf beacon s).bindingSteps <+: path.steps) batch tree.paths)
    (htexts : ∀ s ∈ batch, Hex.decode s.hashText = .ok s.hash) {upper : Path} {root : Digest}
    (hupper : upper.LeadsTo tree.root.bytes root) {state : AggregationState}
    (hstate : state ∈ tree.states batch) :
    ∃ hash, Hex.decode state.hash = .ok hash ∧
      Op.verify hash (state.ops ++ upper.ops) root = .ok () := by
  obtain ⟨i, hi⟩ := List.mem_iff_getElem?.1 hstate
  obtain ⟨s, path, hs, hpath, rfl⟩ := List.getElem?_zipWith_eq_some.1 hi
  obtain ⟨path', hpath', _, hleads, _⟩ := exists_getElem?_of_forall₂ hpaths hs
  obtain rfl : path' = path := Option.some.inj (hpath'.symm.trans hpath)
  exact ⟨s.hash, htexts s (List.mem_of_getElem? hs), hleads.verify_append hupper⟩

/-! ### Both tiers -/

/-- The published proofs lead to both roots: over every batch there is an aggregation tree whose
answers, read from their bytes, prove their submissions to be below the aggregate root; and over all
aggregate roots with this one among them there is a calendar tree whose answer to it, put after the
proof of any of the submissions, makes up a proof of the calendar root.  Counts are written as
numbers of 64 bits, and no list is longer. -/
theorem proofs_lead_to_both_roots (queues : Config.Queues) (aggId calId : Uuid)
    (f g : HashFunction) (beacon : Option String) (calendarQueue baseUri : String)
    (batch : List Submission) (hne : batch ≠ []) (hcount : batch.length < UInt64.size)
    (htexts : ∀ s ∈ batch, Hex.decode s.hashText = .ok s.hash) :
    ∃ (tree : AggregationTree) (states : List AggregationState),
      AggregationTree.build aggId f beacon batch = .ok tree ∧
      (tree.messages queues batch).map Outbound.queue =
        List.replicate batch.length queues.stateOut ++ [queues.calendarIn] ∧
      (tree.messages queues batch).dropLast.mapM
        (fun m => Json.decode? AggregationState.ofJson? m.content.payload) = some states ∧
      ((tree.messages queues batch).getLast?.bind
        fun m => Json.decode? AggregateRoot.ofJson? m.content.payload) = some tree.rootMessage ∧
      List.Forall₂ (fun s (state : AggregationState) => state.Proves s f beacon tree.rootMessage)
        batch states ∧
      ∀ (roots : List AggregateRoot) (j : Nat), (∀ r ∈ roots, r.hashCount < UInt64.size) →
        roots[j]? = some tree.rootMessage →
        ∃ (cal : CalendarTree) (calStates : List CalendarState) (above : CalendarState),
          CalendarTree.build calId g roots = .ok cal ∧
          (cal.messages calendarQueue baseUri roots).mapM
            (fun m => Json.decode? CalendarState.ofJson? m.content.payload) = some calStates ∧
          calStates.map CalendarState.root = roots ∧ calStates[j]? = some above ∧
          above.calRoot = cal.root ∧
          ∀ state ∈ states, ∃ hash, Hex.decode state.hash = .ok hash ∧
            Op.verify hash (state.ops ++ above.ops) above.calRoot = .ok () := by
  obtain ⟨tree, hbuild, hleaves, hpaths⟩ := AggregationTree.exists_build aggId f beacon hne
  refine ⟨tree, tree.states batch, hbuild,
    tree.map_queue_messages queues hpaths.length_eq.symm, tree.mapM_decode_messages queues batch,
    tree.decode_getLast?_messages queues batch (hleaves ▸ hcount),
    AggregationTree.forall₂_proves hpaths htexts, ?_⟩
  intro roots j hroots hj
  have hrootsne : roots ≠ [] := by
    rintro rfl
    cases hj
  obtain ⟨cal, hcal, hcalpaths⟩ := CalendarTree.exists_build calId g hrootsne
  obtain ⟨upper, hupper, hleads⟩ := exists_getElem?_of_forall₂ hcalpaths hj
  refine ⟨cal, cal.states baseUri roots, cal.stateMessage baseUri tree.rootMessage upper, hcal,
    cal.mapM_decode_messages calendarQueue baseUri hroots,
    cal.map_root_states baseUri hcalpaths.length_eq.symm, ?_, rfl, ?_⟩
  · simp [CalendarTree.states, List.getElem?_zipWith, hj, hupper]
  · intro state hstate
    exact AggregationTree.verify_append hpaths htexts hleads hstate

/-- Two submissions, one with a beacon tag of its own, below an aggregate root that is the only one
of its calendar tree; the tiers use different hash functions. -/
theorem two_submissions_lead_to_both_roots :
    let batch : List Submission :=
      [Submission.ofBytes "\"é\"" (List.replicate 20 0xab) (some "own:00"),
        Submission.ofBytes "b" (List.replicate 64 0) none]
    ∃ (tree : AggregationTree) (states : List AggregationState) (cal : CalendarTree)
        (above : CalendarState),
      AggregationTree.build .zero .blake3 (some "batch:11") batch = .ok tree ∧
      List.Forall₂ (fun s (state : AggregationState) =>
        state.Proves s .blake3 (some "batch:11") tree.rootMessage) batch states ∧
      CalendarTree.build .zero .sha256 [tree.rootMessage] = .ok cal ∧ above.calRoot = cal.root ∧
      ∀ state ∈ states, ∃ hash, Hex.decode state.hash = .ok hash ∧
        Op.verify hash (state.ops ++ above.ops) above.calRoot = .ok () := by
  intro batch
  have htexts : ∀ s ∈ batch, Hex.decode s.hashText = .ok s.hash := by
    simp [batch, Submission.ofBytes]
  obtain ⟨tree, states, hbuild, _, _, _, hproves, habove⟩ :=
    proofs_lead_to_both_roots {} .zero .zero .blake3 .sha256 (some "batch:11") "work.state"
      "http://cal" batch (by simp [batch]) (by decide) htexts
  have hcount : tree.rootMessage.hashCount < UInt64.size := by
    obtain ⟨tree', hbuild', hleaves, _⟩ :=
      AggregationTree.exists_build .zero .blake3 (some "batch:11") (show batch ≠ [] by simp [batch])
    obtain rfl : tree' = tree := Except.ok.inj (hbuild'.symm.trans hbuild)
    show tree'.leafCount < UInt64.size
    rw [hleaves]
    decide
  obtain ⟨cal, _, above, hcal, _, _, _, hroot, hverify⟩ :=
    habove [tree.rootMessage] 0 (by simpa using hcount) rfl
  exact ⟨tree, states, cal, above, hbuild, hproves, hcal, hroot, hverify⟩

end HashCalendar
