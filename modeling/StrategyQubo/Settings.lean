import StrategyQubo.Config.Toml
import StrategyQubo.Files
import StrategyQubo.Log
import StrategyQubo.Qubo.Solution
import StrategyQubo.Script.Limits

namespace StrategyQubo

open StrategyQubo.Script

/-! # Settings

What can be configured, with its defaults.  Variables of the environment lie
over a configuration file, and both lie over the defaults.
-/

/-- Where documents are submitted, and how long to wait for a reply. -/
structure SubmitSettings where
  endpoint : String := "http://localhost:8000/quantum"
  timeoutSecs : Nat := 10
  deriving DecidableEq, Repr

structure LocalSettings where
  options : SolveOptions := {}
  /-- The factor of constraints; without it one is derived from the
      objective. -/
  penalty : Option Float := none

structure Settings where
  submit : SubmitSettings := {}
  script : Limits := {}
  search : LocalSettings := {}

inductive SettingsFault where
  | fileMissing (path : String)
  | malformed
  deriving DecidableEq, Repr

def SettingsFault.message : SettingsFault → String
  | fileMissing path => "Configuration file not found: " ++ path
  | malformed => "Configuration error"

/-! ## Reading -/

def SubmitSettings.ofConfig? (config : Config) : Option SubmitSettings :=
  match config.fields? ["endpoint", "timeout_secs"] with
  | some [endpoint, timeout] => do
      let endpoint ← Config.orDefault Config.text? "http://localhost:8000/quantum" endpoint
      let timeout ← Config.orDefault Config.word? 10 timeout
      pure ⟨endpoint, timeout⟩
  | _ => none

def limitKeys : List String :=
  ["step_budget", "time_budget_ms", "max_call_depth", "max_collection_len", "random_seed"]

def limitsOfConfig? (config : Config) : Option Limits :=
  match config.fields? limitKeys with
  | some [steps, time, depth, length, seed] => do
      let steps ← Config.orDefault Config.word? 200000 steps
      let time ← Config.orDefault Config.word? 5000 time
      let depth ← Config.orDefault Config.word? 64 depth
      let length ← Config.orDefault Config.word? 65536 length
      let seed ← Config.orDefault Config.word? 0 seed
      pure ⟨steps, time, depth, length, UInt64.ofNat seed⟩
  | _ => none

def LocalSettings.ofConfig? (config : Config) : Option LocalSettings :=
  match config.fields? ["seed", "sweeps", "exhaustive_limit", "penalty"] with
  | some [seed, sweeps, exhaustive, penalty] => do
      let seed ← Config.orDefault Config.word? 42 seed
      let sweeps ← Config.orDefault Config.word? 1000 sweeps
      let exhaustive ← Config.orDefault Config.word? 20 exhaustive
      let penalty ← Config.orDefault (fun value => value.number?.map some) none penalty
      pure ⟨⟨UInt64.ofNat seed, sweeps, exhaustive⟩, penalty⟩
  | _ => none

namespace Settings

def ofConfig? (config : Config) : Option Settings :=
  match config.fields? ["solver", "script", "local"] with
  | some [submit, script, search] => do
      let submit ← Config.orDefault SubmitSettings.ofConfig? {} submit
      let script ← Config.orDefault limitsOfConfig? {} script
      let search ← Config.orDefault LocalSettings.ofConfig? {} search
      pure ⟨submit, script, search⟩
  | _ => none

def depthLowered (requested : Nat) : LogEntry :=
  ⟨.warn, "script.max_call_depth lowered to the supported maximum",
    [("requested", toString requested), ("limit", toString callDepthCap)]⟩

/-- A call depth above the cap is lowered to it, with a warning. -/
def capped (s : Settings) : Settings × List LogEntry :=
  if callDepthCap < s.script.maxCallDepth then
    ({ s with script := { s.script with maxCallDepth := callDepthCap } },
      [depthLowered s.script.maxCallDepth])
  else
    (s, [])

/-- The beginning of the variables that hold settings, in small letters. -/
def variableStart : String := "tacqubo_"

/-- The file that is read when no other is named. -/
def defaultFile : String := "tacqubo.toml"

/-- A file as a layer of configuration.  One that is not there adds nothing, nor
    does a directory. -/
def layer? : FileContent → Option Config
  | .text content => Config.ofToml? content
  | .directory => some .empty
  | .missing => some .empty
  | .binary => none

/-- The settings of a configuration file under those of the environment. -/
def load (file : FileContent) (environment : List (String × String)) :
    Except SettingsFault (Settings × List LogEntry) :=
  let layers := (layer? file).map fun below =>
    (Config.ofVariables variableStart environment).onto (some below)
  match layers.bind ofConfig? with
  | some settings => .ok settings.capped
  | none => .error .malformed

/-- The settings with a file that was asked for, and so has to be there. -/
def loadFrom (path : String) (file : FileContent) (environment : List (String × String)) :
    Except SettingsFault (Settings × List LogEntry) :=
  if file = .missing then .error (.fileMissing path) else load file environment

end Settings

end StrategyQubo
