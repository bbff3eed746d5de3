import StrategyQubo.CommandLine.Arguments

namespace StrategyQubo.CommandLine

/-! # Help -/

def versionText : String := "tacqubo 0.1.0\n"

def lines (texts : List String) : String :=
  String.join (texts.map (· ++ "\n"))

def mainHelp : String := lines [
  "Compile tic-tac-toe strategies into QUBO problems",
  "",
  "Usage: tacqubo [OPTIONS] <COMMAND>",
  "",
  "Commands:",
  "  compile  Print the QUBO document a strategy compiles to",
  "  submit   Compile a strategy and POST the document to the solver endpoint",
  "  solve    Compile a strategy, expand it and solve it locally",
  "  help     Print this message or the help of the given subcommand(s)",
  "",
  "Options:",
  "  -c, --config <CONFIG>  Configuration file (defaults to ./tacqubo.toml when present)",
  "  -q, --quiet            Quiet mode (errors only)",
  "  -v, --verbose          Verbose mode (debug logging)",
  "  -h, --help             Print help",
  "  -V, --version          Print version"]

/-- The help of a command that takes a file and the options of all
    commands. -/
def fileCommandHelp (name purpose : String) : String := lines [
  purpose,
  "",
  "Usage: tacqubo " ++ name ++ " [OPTIONS] <FILE>",
  "",
  "Arguments:",
  "  <FILE>  Strategy source file",
  "",
  "Options:",
  "  -c, --config <CONFIG>  Configuration file (defaults to ./tacqubo.toml when present)",
  "  -q, --quiet            Quiet mode (errors only)",
  "  -v, --verbose          Verbose mode (debug logging)",
  "  -h, --help             Print help"]

def submitHelp : String := lines [
  "Compile a strategy and POST the document to the solver endpoint",
  "",
  "Usage: tacqubo submit [OPTIONS] <FILE>",
  "",
  "Arguments:",
  "  <FILE>  Strategy source file",
  "",
  "Options:",
  "  -c, --config <CONFIG>      Configuration file (defaults to ./tacqubo.toml when present)",
  "      --endpoint <ENDPOINT>  Override `solver.endpoint`",
  "  -q, --quiet                Quiet mode (errors only)",
  "  -v, --verbose              Verbose mode (debug logging)",
  "  -h, --help                 Print help"]

def helpText : Option CommandName → String
  | none => mainHelp
  | some .compile => fileCommandHelp "compile" "Print the QUBO document a strategy compiles to"
  | some .solve => fileCommandHelp "solve" "Compile a strategy, expand it and solve it locally"
  | some .submit => submitHelp

def usageText : String := lines [
  "Usage: tacqubo [OPTIONS] <COMMAND>",
  "",
  "For more information, try '--help'."]

end StrategyQubo.CommandLine
