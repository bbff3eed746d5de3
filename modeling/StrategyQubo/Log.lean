namespace StrategyQubo

/-! # Log entries -/

inductive LogLevel where
  | info
  | warn
  | error
  deriving DecidableEq, Repr

/-- A line for the reader of a run, with the values that it reports by
    name. -/
structure LogEntry where
  level : LogLevel
  message : String
  fields : List (String × String)
  deriving DecidableEq, Repr

end StrategyQubo
