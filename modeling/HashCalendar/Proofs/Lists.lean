/-
**Lists item by item.**

Several lists of this development run beside another one: paths beside submissions, jobs with their
numbers beside jobs on their way.  What is related item by item has a partner under the same index,
and stays related when an item of each list is replaced.  Where each item brings a list of its own,
the lists are looked at together.

Main results:

* `HashCalendar.exists_getElem?_of_forall₂`, `HashCalendar.forall₂_set` — an item has a partner, and
  both may be replaced;
* `HashCalendar.mapM_zipWith_eq_some` — items made from two lists are all read back;
* `HashCalendar.perm_flatMap_set`, `HashCalendar.eq_of_mem_flatMap` — what all items bring, when one
  of them is replaced, and when nothing is brought twice.
-/

import Mathlib.Data.List.Forall2
import Mathlib.Data.List.Nodup

set_option relaxedAutoImplicit false
set_option autoImplicit false

namespace HashCalendar

section Related

variable {α β γ δ : Type} {R : α → β → Prop} {as : List α} {bs : List β}

/-- Where items of two lists are related, an item has a partner under its index. -/
theorem exists_getElem?_of_forall₂ (h : List.Forall₂ R as bs) {i : Nat} {a : α}
    (ha : as[i]? = some a) : ∃ b, bs[i]? = some b ∧ R a b := by
  induction h generalizing i with
  | nil => cases ha
  | cons hab _ ih =>
      cases i with
      | zero => cases ha; exact ⟨_, rfl, hab⟩
      | succ i => exact ih ha

theorem forall₂_set (h : List.Forall₂ R as bs) {a : α} {b : β} (hab : R a b) (i : Nat) :
    List.Forall₂ R (as.set i a) (bs.set i b) := by
  induction h generalizing i with
  | nil => exact .nil
  | cons hhead htail ih =>
      cases i with
      | zero => exact .cons hab htail
      | succ i => exact .cons hhead (ih i)

/-- Items made from two lists are all read back if each of them is. -/
theorem mapM_zipWith_eq_some {write : α → β → γ} {read : γ → Option δ} {meant : α → β → δ}
    {as : List α} (h : ∀ a ∈ as, ∀ b, read (write a b) = some (meant a b)) (bs : List β) :
    (List.zipWith write as bs).mapM read = some (List.zipWith meant as bs) := by
  induction as generalizing bs with
  | nil => rfl
  | cons a as ih =>
      cases bs with
      | nil => rfl
      | cons b bs =>
          have hrest := ih (fun c hc => h c (List.mem_cons_of_mem a hc)) bs
          simp [List.mapM_cons, h a List.mem_cons_self, hrest]

end Related

section Together

variable {α β : Type} {f : α → List β} {jobs : List α}

/-- When one of several jobs goes on, what all of them have together changes by what it has more and
less. -/
theorem perm_flatMap_set {number : Nat} {x y : α} {more less : List β}
    (h : jobs[number]? = some x) (hp : (f y ++ less).Perm (f x ++ more)) :
    ((jobs.set number y).flatMap f ++ less).Perm (jobs.flatMap f ++ more) := by
  have hswap : ∀ a b c : List β, (a ++ b ++ c).Perm (a ++ c ++ b) := by
    intro a b c
    rw [List.append_assoc, List.append_assoc]
    exact List.perm_append_comm.append_left a
  obtain ⟨hlt, rfl⟩ := List.getElem?_eq_some_iff.1 h
  have hjobs : jobs = jobs.take number ++ jobs[number] :: jobs.drop (number + 1) := by
    rw [← List.drop_eq_getElem_cons hlt, List.take_append_drop]
  rw [List.set_eq_take_append_cons_drop, if_pos hlt]
  have hflat : jobs.flatMap f = (jobs.take number).flatMap f ++
      (f jobs[number] ++ (jobs.drop (number + 1)).flatMap f) := by
    rw [← List.flatMap_cons, ← List.flatMap_append, ← hjobs]
  rw [hflat, List.flatMap_append, List.flatMap_cons, List.append_assoc (List.flatMap f _),
    List.append_assoc (List.flatMap f _)]
  exact (((hswap _ _ _).trans (hp.append_right _)).trans (hswap _ _ _)).append_left _

/-- Where several jobs have nothing twice, what they have belongs to one of them. -/
theorem eq_of_mem_flatMap (h : (jobs.flatMap f).Nodup) {k k' : Nat} {x x' : α}
    (hx : jobs[k]? = some x) (hx' : jobs[k']? = some x') {b : β} (hb : b ∈ f x) (hb' : b ∈ f x') :
    k = k' := by
  have hpairs := List.pairwise_iff_getElem.1 (List.nodup_flatMap.1 h).2
  obtain ⟨hlt, rfl⟩ := List.getElem?_eq_some_iff.1 hx
  obtain ⟨hlt', rfl⟩ := List.getElem?_eq_some_iff.1 hx'
  rcases Nat.lt_trichotomy k k' with hkk' | heq | hkk'
  · exact absurd hb' (hpairs k k' hlt hlt' hkk' hb)
  · exact heq
  · exact absurd hb (hpairs k' k hlt' hlt hkk' hb')

end Together

end HashCalendar
