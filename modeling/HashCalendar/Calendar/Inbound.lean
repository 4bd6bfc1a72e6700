/-
**What the calendar tier receives.**

The queue of the calendar tier carries the roots of aggregation trees and news of anchoring
transactions; the kind of a message tells which it is.

Main definitions:

* `HashCalendar.Inbound` — the messages that the calendar tier takes;
* `HashCalendar.Inbound.read` — a message from its kind and its bytes.
-/

import HashCalendar.Aggregation.Tree
import HashCalendar.Json.Value
import HashCalendar.Pipeline.Error

set_option relaxedAutoImplicit false
set_option autoImplicit false

namespace HashCalendar

/-- The kind of news of anchoring transactions. -/
def anchorTxKind : String := "btctx"

/-- A message that the calendar tier takes. -/
inductive Inbound where
  | aggregateRoot (message : AggregateRoot)
  /-- News of an anchoring transaction, in a form that is not prescribed. -/
  | anchorTx (body : Json.Value)

/-- The message of a kind with the given bytes. -/
def Inbound.read (content : Content) : Except PipelineError Inbound :=
  if content.kind = some aggregatorKind then
    match Json.decode? AggregateRoot.ofJson? content.payload with
    | some m => .ok (.aggregateRoot m)
    | none => .error .document
  else if content.kind = some anchorTxKind then
    match Json.decode? Json.value? content.payload with
    | some body => .ok (.anchorTx body)
    | none => .error .document
  else .error (.unknownKind content.kind)

end HashCalendar
