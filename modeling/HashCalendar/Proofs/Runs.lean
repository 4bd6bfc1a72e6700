/-
**Runs.**

A component is followed event by event.  In each of its states only some events may happen, and the
component decides what comes of them.  A run is a number of events that may happen one after the
other.

Main definitions:

* `HashCalendar.Reaches` — the states that runs get to;
* `HashCalendar.PermitsAll` — whether events may happen one after the other.

Main results:

* `HashCalendar.Reaches.foldl`, `HashCalendar.Reaches.iterate` — a run goes on with further events,
  or with one event that happens a number of times;
* `HashCalendar.Reaches.trans` — a run goes on with another run.
-/

import Mathlib.Logic.Function.Iterate

set_option relaxedAutoImplicit false
set_option autoImplicit false

namespace HashCalendar

section Runs

variable {σ ε : Type}

/-- The states that a run gets to from a given one, where not every event may happen. -/
inductive Reaches (permits : σ → ε → Prop) (act : σ → ε → σ) (start : σ) : σ → Prop where
  | start : Reaches permits act start start
  | next {s : σ} {e : ε} (h : Reaches permits act start s) (he : permits s e) :
      Reaches permits act start (act s e)

/-- Whether events may happen one after the other. -/
def PermitsAll (permits : σ → ε → Prop) (act : σ → ε → σ) : σ → List ε → Prop
  | _, [] => True
  | s, e :: es => permits s e ∧ PermitsAll permits act (act s e) es

variable {permits : σ → ε → Prop} {act : σ → ε → σ} {s s' s'' : σ}

theorem Reaches.foldl (h : Reaches permits act s s') {events : List ε}
    (he : PermitsAll permits act s' events) : Reaches permits act s (events.foldl act s') := by
  induction events generalizing s' with
  | nil => exact h
  | cons e es ih => exact ih (h.next he.1) he.2

/-- An event that may always happen may happen a number of times. -/
theorem Reaches.iterate {e : ε} (he : ∀ s, permits s e) (s : σ) (n : Nat) :
    Reaches permits act s ((fun s => act s e)^[n] s) := by
  induction n with
  | zero => exact .start
  | succ n ih =>
      rw [Function.iterate_succ_apply']
      exact ih.next (he _)

theorem Reaches.trans (h : Reaches permits act s s') (h' : Reaches permits act s' s'') :
    Reaches permits act s s'' := by
  induction h' with
  | start => exact h
  | next _ he ih => exact ih.next he

end Runs

end HashCalendar
