/-
**Errors of the pipeline.**

Main definitions:

* `HashCalendar.PipelineError` — what can go wrong in either tier;
* `HashCalendar.PipelineError.message?` — its wording, where the cause has one.
-/

import HashCalendar.Beacon.Source
import HashCalendar.Broker.Basic
import HashCalendar.Config.Basic
import HashCalendar.Merkle.Tree

set_option relaxedAutoImplicit false
set_option autoImplicit false

namespace HashCalendar

/-- What can go wrong in either tier. -/
inductive PipelineError where
  | broker (cause : Broker.Error)
  | tree (cause : Merkle.Error)
  /-- A message is no document of the right form. -/
  | document
  | malformed (cause : Malformed)
  /-- A message is of a kind that is not expected, or of none. -/
  | unknownKind (kind : Option String)
  | config (cause : ConfigError)
  | beacon (cause : BeaconError)
  deriving DecidableEq, Repr

/-- The wording of an error, where it has one. -/
def PipelineError.message? : PipelineError → Option String
  | .broker cause => some ("Broker error: " ++ cause.message)
  | .tree cause => some ("Tree construction failed: " ++ cause.message)
  | .document => none
  | .malformed cause => cause.message?.map ("Invalid message: " ++ ·)
  | .unknownKind none => some "Unknown message kind: None"
  | .unknownKind (some kind) => some s!"Unknown message kind: Some({Text.quoted kind})"
  | .config cause => cause.message?.map ("Configuration error: " ++ ·)
  | .beacon cause => cause.message?.map ("Beacon error: " ++ ·)

end HashCalendar
