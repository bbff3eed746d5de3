import StrategyQubo.CommandLine.Help
import StrategyQubo.Document.Wire
import StrategyQubo.Qubo.Expand
import StrategyQubo.Settings
import StrategyQubo.Strategy.Compile

namespace StrategyQubo.CommandLine

open StrategyQubo.Script
open StrategyQubo.Strategy

/-! # Running commands

From a request to what the program prints and its exit code, given how files
read and the variables of the environment.
-/

structure Outcome where
  exit : Nat
  stdout : String
  stderr : String
  log : Array LogEntry := #[]

namespace Outcome

def printed (text : String) : Outcome := ⟨0, text, "", #[]⟩

/-- An error ends the program; what it has written stays. -/
def failed (error : String) : Outcome :=
  ⟨1, "", "tacqubo error: " ++ error ++ "\n", #[]⟩

def after (note : String) (log : Array LogEntry) (o : Outcome) : Outcome :=
  { o with stderr := note ++ o.stderr, log := log ++ o.log }

end Outcome

/-- Where a program runs: how files read, and the variables. -/
structure Surroundings where
  read : String → FileContent
  environment : List (String × String)

def loadSettings (config : Option String) (here : Surroundings) :
    Except String (Settings × List LogEntry) :=
  match config with
  | some path =>
      (Settings.loadFrom path (here.read path) here.environment).mapError fun fault =>
        "failed to load configuration from " ++ path ++ ": " ++ fault.message
  | none =>
      (Settings.load (here.read Settings.defaultFile) here.environment).mapError fun fault =>
        "failed to load configuration: " ++ fault.message

def readStrategy (file : String) (here : Surroundings) : Except String String :=
  (here.read file).asText.mapError fun failure =>
    "failed to read strategy " ++ file ++ ": " ++ failure

/-- A microsecond passes with each step. -/
def environmentOf (limits : Limits) : Environment := ⟨limits, fun steps => steps⟩

def note (doing : String) (c : Compilation) : String :=
  match c.fallback with
  | some reason => "note: " ++ doing ++ " the default document (" ++ reason.message ++ ")\n"
  | none => ""

def expansionFailed (fault : ExpansionFault) : LogEntry :=
  ⟨.warn, "expansion failed, solving the fallback board QUBO", [("error", fault.message)]⟩

/-- Solves a document, or the problem of the board if it cannot be expanded. -/
def solveDocument (d : Document) (search : LocalSettings) : Outcome :=
  let (problem, log) : Qubo Float × Array LogEntry := match d.expand search.penalty with
    | .ok q => (q, #[])
    | .error fault => (.board, #[expansionFailed fault])
  match problem.solve search.options with
  | .ok solution => (Outcome.printed solution.display).after "" log
  | .error fault => (Outcome.failed fault.message).after "" log

def runCompiled (invocation : Invocation) (settings : Settings) (c : Compilation) : Outcome :=
  match invocation.command with
  | .compile => (Outcome.printed (c.document.pretty ++ "\n")).after (note "using" c) #[]
  | .solve => (solveDocument c.document settings.search).after (note "solving" c) #[]
  | .submit =>
      let endpoint := invocation.endpoint.getD settings.submit.endpoint
      .failed ("failed to submit to " ++ endpoint ++ ": Transport failure: no connection")

def runInvocation (invocation : Invocation) (here : Surroundings) : Outcome :=
  match loadSettings invocation.config here with
  | .error error => .failed error
  | .ok (settings, warnings) =>
      match readStrategy invocation.file here with
      | .error error => (Outcome.failed error).after "" warnings.toArray
      | .ok source =>
          let (c, log) := compile source (environmentOf settings.script)
          (runCompiled invocation settings c).after "" (warnings.toArray ++ log)

def Request.answer (request : Request) (here : Surroundings) : Outcome :=
  match request with
  | .run invocation => runInvocation invocation here
  | .help command => .printed (helpText command)
  | .version => .printed versionText
  | .misuse => ⟨2, "", usageText, #[]⟩

end StrategyQubo.CommandLine
