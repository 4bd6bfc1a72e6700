/-
**The messages of an aggregation tree, one by one.**

The messages of a tree over a batch are one answer for each submission, in the order of the batch,
and then the root.  The answers go to one queue and the root to another, so a message for the queue
of the roots is the last of its list, and all answers stand before it.

Main results:

* `HashCalendar.AggregationTree.of_build_eq_ok` — what is known of a tree that was built;
* `HashCalendar.AggregationTree.exists_getElem?_messages` — **a submission has its answer under its
  own number**;
* `HashCalendar.AggregationTree.getElem?_messages_length` — **after the answers stands the root**;
* `HashCalendar.AggregationTree.eq_length_of_queue` — nothing else goes where the roots go.
-/

import HashCalendar.Proofs.Pipeline.EndToEnd

set_option relaxedAutoImplicit false
set_option autoImplicit false

namespace HashCalendar.AggregationTree

/-- What is known of a tree that was built. -/
structure Over (tree : AggregationTree) (id : Uuid) (batch : List Submission) : Prop where
  batch_ne : batch ≠ []
  id_eq : tree.id = id
  leafCount : tree.leafCount = batch.length
  paths : tree.paths.length = batch.length

theorem build_id {id : Uuid} {f : HashFunction} {beacon : Option String} {batch : List Submission}
    {tree : AggregationTree} (h : build id f beacon batch = .ok tree) : tree.id = id := by
  rw [build] at h
  cases ht : Merkle.Tree.build f ((batch.map (leafOf beacon)).map fun leaf => leaf.digest f) with
  | error e =>
      rw [ht] at h
      cases h
  | ok t =>
      rw [ht] at h
      cases h
      rfl

theorem of_build_eq_ok {id : Uuid} {f : HashFunction} {beacon : Option String}
    {batch : List Submission} {tree : AggregationTree} (h : build id f beacon batch = .ok tree) :
    tree.Over id batch := by
  have hne : batch ≠ [] := by
    rintro rfl
    cases h
  obtain ⟨tree', hbuild, hleaves, hpaths⟩ := exists_build id f beacon hne
  obtain rfl : tree' = tree := Except.ok.inj (hbuild.symm.trans h)
  exact ⟨hne, build_id h, hleaves, hpaths.length_eq.symm⟩

/-- An answer as it is sent. -/
def answer (tree : AggregationTree) (s : Submission) (path : Path) : Content :=
  ⟨some aggregatorKind, (tree.stateMessage s path).toJson.render⟩

/-- The root as it is sent. -/
def rootContent (tree : AggregationTree) : Content :=
  ⟨some aggregatorKind, tree.rootMessage.toJson.render⟩

section Messages

variable {tree : AggregationTree} {id : Uuid} {batch : List Submission} (queues : Config.Queues)

theorem length_messages (h : tree.Over id batch) :
    (tree.messages queues batch).length = batch.length + 1 := by
  simp [messages, h.paths]

/-- A submission has its answer under its own number. -/
theorem exists_getElem?_messages (h : tree.Over id batch) {i : Nat} {s : Submission}
    (hs : batch[i]? = some s) :
    ∃ path, tree.paths[i]? = some path ∧
      (tree.messages queues batch)[i]? = some ⟨queues.stateOut, tree.answer s path⟩ := by
  have hlt : i < batch.length := (List.getElem?_eq_some_iff.1 hs).1
  have hpath : i < tree.paths.length := h.paths ▸ hlt
  refine ⟨tree.paths[i], List.getElem?_eq_getElem hpath, ?_⟩
  rw [messages, List.getElem?_append_left (by simpa [h.paths] using hlt),
    List.getElem?_zipWith_eq_some]
  exact ⟨s, tree.paths[i], hs, List.getElem?_eq_getElem hpath, rfl⟩

/-- After the answers stands the root. -/
theorem getElem?_messages_length (h : tree.Over id batch) :
    (tree.messages queues batch)[batch.length]? = some ⟨queues.calendarIn, tree.rootContent⟩ := by
  rw [messages, List.getElem?_append_right (by simp [h.paths])]
  simp [h.paths, rootContent]

/-- Nothing but the root goes where the roots go. -/
theorem eq_length_of_queue (h : tree.Over id batch) (hq : queues.stateOut ≠ queues.calendarIn)
    {i : Nat} {m : Outbound} (hm : (tree.messages queues batch)[i]? = some m)
    (hqueue : m.queue = queues.calendarIn) : i = batch.length := by
  have hlt := (List.getElem?_eq_some_iff.1 hm).1
  rw [length_messages queues h] at hlt
  by_contra hne
  obtain ⟨path, -, hpath⟩ := exists_getElem?_messages queues h
    (List.getElem?_eq_getElem (show i < batch.length by omega))
  rw [hm] at hpath
  cases hpath
  exact hq hqueue

end Messages

end HashCalendar.AggregationTree
