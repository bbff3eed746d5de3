import StrategyQubo.Strategy.Sample
import StrategyQubo.Strategy.Validation

namespace StrategyQubo.Strategy

open StrategyQubo.Script

/-! # Compiling a strategy

A program becomes the document to be submitted: its entry point is sampled on
the empty board, weights are turned into a document, and the document is
validated.  Nothing fails; the default document stands in for what cannot be
used.
-/

/-- The document that a sample states, before it is validated. -/
def Sample.toCandidate : Sample → Candidate × List LogEntry
  | .weights w =>
      let (document, log) := w.normalize
      (.ofDocument document, log)
  | .candidate c => (c, [])

def compileLoaded (loaded : Except LoadFault EntryPoint) : Compilation × Array LogEntry :=
  match loaded with
  | .error _ =>
      let (compilation, log) := validateOr .entryPointUnavailable none
      (compilation, log.toArray)
  | .ok entry =>
      match Sample.take entry .empty with
      | (none, log) =>
          let (compilation, more) := validateOr .samplingFailed none
          (compilation, log ++ more.toArray)
      | (some sample, log) =>
          let (candidate, skipped) := sample.toCandidate
          let (compilation, more) := validateOr .samplingFailed (some candidate)
          (compilation, log ++ skipped.toArray ++ more.toArray)

def compile (source : String) (env : Environment) : Compilation × Array LogEntry :=
  let (loaded, log) := EntryPoint.load source env
  let (compilation, more) := compileLoaded loaded
  (compilation, log ++ more)

end StrategyQubo.Strategy
