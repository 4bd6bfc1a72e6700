/-
**Buffers of pending work.**

Work waits in the order of its arrival until a batch is taken from the head of the buffer.  A batch
that could not be dealt with goes back to where it was.

Main definitions:

* `HashCalendar.Buffer` — a buffer;
* `HashCalendar.Buffer.push`, `HashCalendar.Buffer.splice`, `HashCalendar.Buffer.restore`,
  `HashCalendar.Buffer.clear` — what is done with it.

Main results:

* `HashCalendar.Buffer.splice_append` — a batch followed by what stays is what was there;
* `HashCalendar.Buffer.restore_splice` — restoring a batch undoes its removal.
-/

set_option relaxedAutoImplicit false
set_option autoImplicit false

namespace HashCalendar

/-- A buffer of pending work, in the order of arrival. -/
structure Buffer (α : Type) where
  items : List α := []
  deriving DecidableEq, Repr

namespace Buffer

variable {α : Type}

/-- Adds an item at the end. -/
def push (buffer : Buffer α) (item : α) : Buffer α := ⟨buffer.items ++ [item]⟩

/-- The number of items. -/
def size (buffer : Buffer α) : Nat := buffer.items.length

/-- Whether there is no item. -/
def isEmpty (buffer : Buffer α) : Bool := buffer.items.isEmpty

/-- Takes up to `max` items from the head. -/
def splice (buffer : Buffer α) (max : Nat) : List α × Buffer α :=
  (buffer.items.take max, ⟨buffer.items.drop max⟩)

/-- Takes all items. -/
def spliceAll (buffer : Buffer α) : List α × Buffer α := (buffer.items, ⟨[]⟩)

/-- Puts items back at the head. -/
def restore (buffer : Buffer α) (batch : List α) : Buffer α := ⟨batch ++ buffer.items⟩

/-- Drops all items, and tells how many there were. -/
def clear (buffer : Buffer α) : Nat × Buffer α := (buffer.items.length, ⟨[]⟩)

/-- A batch followed by what stays is what was there. -/
@[simp] theorem splice_append (buffer : Buffer α) (max : Nat) :
    (buffer.splice max).1 ++ (buffer.splice max).2.items = buffer.items :=
  List.take_append_drop max buffer.items

/-- Restoring a batch undoes its removal. -/
@[simp] theorem restore_splice (buffer : Buffer α) (max : Nat) :
    (buffer.splice max).2.restore (buffer.splice max).1 = buffer := by
  simp [restore]

theorem length_splice_le (buffer : Buffer α) (max : Nat) : (buffer.splice max).1.length ≤ max :=
  List.length_take_le max buffer.items

/-- Whoever takes something from a buffer that is not empty gets something. -/
theorem splice_ne_nil {buffer : Buffer α} {max : Nat} (h : ¬ buffer.isEmpty = true)
    (hmax : 0 < max) : (buffer.splice max).1 ≠ [] := by
  rw [isEmpty, List.isEmpty_iff] at h
  rw [splice, ne_eq, List.take_eq_nil_iff, not_or]
  exact ⟨Nat.ne_of_gt hmax, h⟩

end Buffer

end HashCalendar
