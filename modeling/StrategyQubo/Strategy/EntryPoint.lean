import StrategyQubo.Board
import StrategyQubo.Script.Evaluate
import StrategyQubo.Script.Syntax.Parse

namespace StrategyQubo.Strategy

open StrategyQubo.Script

/-! # Entry points

A strategy is a program that binds a function under an agreed name.  Running
the program and calling that function share one machine and one budget.
-/

def entryName : String := "createQuboForSingleMove"

/-- The function of a strategy and the machine on which its program has run. -/
structure EntryPoint where
  environment : Environment
  machine : Machine
  function : Value

/-- Why a program has no entry point. -/
inductive LoadFault where
  | parse (error : ScriptError)
  | run (error : ScriptError)
  | notAFunction (kind : String)
  | undefined

def LoadFault.entry : LoadFault → LogEntry
  | parse error => ⟨.info, "strategy script does not parse", [("err", error.message)]⟩
  | run error => ⟨.info, "strategy script failed during evaluation", [("err", error.message)]⟩
  | notAFunction kind => ⟨.info, entryName ++ " is not a function", [("kind", kind)]⟩
  | undefined => ⟨.info, "strategy script does not define " ++ entryName, []⟩

/-- A machine whose log has been read. -/
def readLog (m : Machine) : Machine :=
  { m with log := #[] }

namespace EntryPoint

/-- Runs a program on a fresh machine and takes its function.  The log holds
    what the script wrote, and the fault if there is one. -/
def load (source : String) (env : Environment) :
    Except LoadFault EntryPoint × Array LogEntry :=
  let failed (fault : LoadFault) (log : Array LogEntry) := (.error fault, log.push fault.entry)
  match Program.parse source with
  | .error error => failed (.parse error) #[]
  | .ok program =>
      match runProgram program env (.fresh env.limits) with
      | .error error m => failed (.run error) m.log
      | .ok () m =>
          match m.global? entryName with
          | none => failed .undefined m.log
          | some function =>
              if function.isCallable then
                (.ok ⟨env, readLog m, function⟩, m.log)
              else
                failed (.notAFunction function.typeName) m.log

/-- Calls the function with a board; the machine goes on from there. -/
def call (entry : EntryPoint) (board : Board) :
    Except ScriptError Value × EntryPoint × Array LogEntry :=
  let (ref, heap) := entry.machine.heap.newArray (board.marks.map Value.string).toArray
  match callFunction entry.function [.array ref] entry.environment
      { entry.machine with heap := heap } with
  | .ok value m => (.ok value, { entry with machine := readLog m }, m.log)
  | .error error m => (.error error, { entry with machine := readLog m }, m.log)

end EntryPoint

end StrategyQubo.Strategy
