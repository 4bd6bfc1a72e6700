/-
**The command line.**

The program takes the path of its configuration, or uses `pipeline.toml`; a file that is not there
is written with the default configuration.  It then runs the pipeline on a broker in its own
process, in step with the clock.

Main definitions:

* `HashCalendar.Main.loadConfig` — the configuration in a file;
* `HashCalendar.Main.run` — the pipeline in step with the clock;
* `main` — the program.
-/

import HashCalendar.Config.Document
import HashCalendar.Pipeline.Service

set_option relaxedAutoImplicit false
set_option autoImplicit false

namespace HashCalendar.Main

/-- The content of a file, if it can be read. -/
def contentOf? (path : String) : IO (Option Bytes) := do
  try
    let content ← IO.FS.readBinFile path
    return some content.data.toList
  catch _ => return none

/-- The configuration in a file, which is written if it is not there. -/
def loadConfig (path : String) : IO (Except ConfigError Config) := do
  match ← contentOf? path with
  | some content => return Config.ofFile (some content) (← IO.getEnv "SAP_BROKER_URI")
  | none =>
    IO.eprintln s!"Configuration file not found: {path}"
    IO.eprintln "Creating default configuration..."
    match ({} : Config).toFile with
    | .error e => return .error e
    | .ok text =>
      IO.FS.writeFile path text
      IO.eprintln s!"Default configuration saved to {path}"
      return .ok {}

/-- A service with the beacon file as it is now. -/
def withBeaconFile (s : Service) : IO Service := do
  match s.bench.config.beacon.sourceDir with
  | none => return s
  | some dir =>
    let name := s.bench.config.beacon.key ++ ".json"
    match ← contentOf? (dir ++ "/" ++ name) with
    | none => return { s with directory := {} }
    | some content => return { s with directory := s.directory.write name content }

/-- Runs the pipeline in step with the clock. -/
partial def run (start : Nat) (s : Service) : IO Unit := do
  let s ← withBeaconFile s
  let now ← IO.monoMsNow
  let s := s.advance (now - start)
  IO.sleep 20
  run start s

/-- Ends the program with a message. -/
def fail (message : String) : IO UInt32 := do
  IO.eprintln message
  return 1

end HashCalendar.Main

open HashCalendar in
/-- The program. -/
def main (args : List String) : IO UInt32 := do
  match ← Main.loadConfig (args.headD "pipeline.toml") with
  | .error e => Main.fail (e.message?.getD "Invalid configuration")
  | .ok config =>
    match Broker.checkUri config.connection.uri with
    | .error e => Main.fail e.message
    | .ok () =>
      match Service.start config {} with
      | .error e => Main.fail (e.message?.getD "Invalid configuration")
      | .ok service =>
        Main.run (← IO.monoMsNow) service
        return 0
