import StrategyQubo.CommandLine.Run

namespace StrategyQubo.CommandLine

/-! # The program -/

/-- The variables of the environment, from the list that the system keeps for
    the process. -/
def environmentVariables : IO (List (String × String)) := do
  let bytes ← try IO.FS.readBinFile "/proc/self/environ" catch _ => pure ByteArray.empty
  let entries := ((String.fromUTF8? bytes).getD "").splitOn "\x00"
  pure (entries.filterMap fun entry =>
    let chars := entry.toList
    match chars.dropWhile (· != '=') with
    | _ :: content => some (String.ofList (chars.takeWhile (· != '=')), String.ofList content)
    | [] => none)

def readContent (path : String) : IO FileContent := do
  try
    let bytes ← IO.FS.readBinFile path
    match String.fromUTF8? bytes with
    | some content => pure (.text content)
    | none => pure .binary
  catch
    | .noFileOrDirectory .. => pure .missing
    | _ => pure .directory

def filesOf : Request → List String
  | .run invocation => [invocation.config.getD Settings.defaultFile, invocation.file]
  | _ => []

/-- Whether an entry is written: errors always, warnings unless quiet, all if
    verbose. -/
def isShown (request : Request) (entry : LogEntry) : Bool :=
  match request, entry.level with
  | _, .error => true
  | .run invocation, .warn => !invocation.quiet
  | .run invocation, .info => invocation.verbose && !invocation.quiet
  | _, _ => false

def levelText : LogLevel → String
  | .info => "INFO"
  | .warn => "WARN"
  | .error => "ERROR"

def entryText (entry : LogEntry) : String :=
  levelText entry.level ++ " " ++ entry.message ++
    String.join (entry.fields.map fun (key, value) => " " ++ key ++ "=" ++ value)

end StrategyQubo.CommandLine

open StrategyQubo
open StrategyQubo.CommandLine

def main (arguments : List String) : IO UInt32 := do
  let request := Request.ofWords arguments
  let environment ← environmentVariables
  let contents ← (filesOf request).mapM fun path => do pure (path, ← readContent path)
  let outcome := request.answer ⟨fun path => (contents.lookup path).getD .missing, environment⟩
  if environment.lookup "TACQUBO_LOG" != some "off" then
    for entry in outcome.log do
      if isShown request entry then
        IO.eprintln (entryText entry)
  IO.print outcome.stdout
  IO.eprint outcome.stderr
  pure (UInt32.ofNat outcome.exit)
