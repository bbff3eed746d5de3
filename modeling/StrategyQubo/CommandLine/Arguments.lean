namespace StrategyQubo.CommandLine

/-! # Arguments

The words of a command line, read into a command with its options.  Options
that every command takes may also stand in front of the command.
-/

inductive CommandName where
  | compile
  | submit
  | solve
  deriving DecidableEq, Repr

def CommandName.ofWord? : String → Option CommandName
  | "compile" => some compile
  | "submit" => some submit
  | "solve" => some solve
  | _ => none

/-- A command and the file of the strategy that it is for. -/
structure Invocation where
  command : CommandName
  file : String
  endpoint : Option String
  config : Option String
  quiet : Bool
  verbose : Bool
  deriving DecidableEq, Repr

inductive Request where
  | run (invocation : Invocation)
  | help (command : Option CommandName)
  | version
  | misuse
  deriving DecidableEq, Repr

structure Options where
  config : Option String := none
  quiet : Bool := false
  verbose : Bool := false
  endpoint : Option String := none

/-- What has been read: the options in front of the command, the command, and
    what follows it. -/
structure Draft where
  outer : Options := {}
  command : Option CommandName := none
  inner : Options := {}
  file : Option String := none

namespace Draft

def options (d : Draft) : Options :=
  if d.command.isSome then d.inner else d.outer

def setOptions (d : Draft) (options : Options) : Draft :=
  if d.command.isSome then { d with inner := options } else { d with outer := options }

/-- Options behind the command come first. -/
def finish (d : Draft) : Request :=
  match d.command, d.file with
  | some command, some file => .run
      { command := command
        file := file
        endpoint := d.inner.endpoint
        config := d.inner.config.or d.outer.config
        quiet := d.inner.quiet || d.outer.quiet
        verbose := d.inner.verbose || d.outer.verbose }
  | _, _ => .misuse

/-! ## Single options -/

/-- Sets an option without a value, which may be given once. -/
def setFlag? (d : Draft) (name : String) : Option Draft :=
  let options := d.options
  match name with
  | "quiet" => if options.quiet then none else some (d.setOptions { options with quiet := true })
  | "verbose" =>
      if options.verbose then none else some (d.setOptions { options with verbose := true })
  | _ => none

/-- Sets an option with a value, which may be given once.  The path of a
    configuration file is not empty, and only a submission has an endpoint. -/
def setValue? (d : Draft) (name value : String) : Option Draft :=
  let options := d.options
  match name with
  | "config" =>
      if options.config.isSome || value.isEmpty then none
      else some (d.setOptions { options with config := some value })
  | "endpoint" =>
      if options.endpoint.isSome || d.command != some .submit then none
      else some (d.setOptions { options with endpoint := some value })
  | _ => none

def takesValue (d : Draft) (name : String) : Bool :=
  name == "config" || (name == "endpoint" && d.command == some .submit)

/-- What an option asks for in place of a command. -/
def instead? (d : Draft) (name : String) : Option Request :=
  match name with
  | "help" => some (.help d.command)
  | "version" => if d.command.isNone then some .version else none
  | _ => none

def longName (letter : Char) : String :=
  match letter with
  | 'c' => "config"
  | 'q' => "quiet"
  | 'v' => "verbose"
  | 'h' => "help"
  | 'V' => "version"
  | _ => ""

/-! ## Words -/

/-- Whether a word cannot be the value of the option in front of it. -/
def looksLikeOption (word : String) : Bool :=
  word.startsWith "-" && word != "-"

/-- Reading an option with a value uses up the next word, unless the value is
    in the same word. -/
inductive Step where
  | next (d : Draft)
  | nextTakes (d : Draft) (name : String)
  | done (request : Request)

def ofOption : Option Draft → Step
  | some d => .next d
  | none => .done .misuse

/-- An option by its long name, with what stands behind an equals sign. -/
def longOption (d : Draft) (name : String) (value : Option String) : Step :=
  match value with
  | some value => ofOption (d.setValue? name value)
  | none =>
      match d.instead? name with
      | some request => .done request
      | none => if d.takesValue name then .nextTakes d name else ofOption (d.setFlag? name)

/-- Options of one letter in one word; the first one with a value takes the
    rest. -/
def shortOptions (d : Draft) : List Char → Step
  | [] => .next d
  | letter :: rest =>
      let name := longName letter
      match d.instead? name with
      | some request => .done request
      | none =>
          if d.takesValue name then
            match rest with
            | [] => .nextTakes d name
            | '=' :: value => ofOption (d.setValue? name (String.ofList value))
            | value => ofOption (d.setValue? name (String.ofList value))
          else
            match d.setFlag? name with
            | some d => d.shortOptions rest
            | none => .done .misuse

/-- The name of a command, or the file behind it. -/
def plainWord (d : Draft) (word : String) : Step :=
  match d.command, d.file with
  | none, _ =>
      match CommandName.ofWord? word with
      | some command => .next { d with command := some command }
      | none => .done .misuse
  | some _, none => if word.isEmpty then .done .misuse else .next { d with file := some word }
  | some _, some _ => .done .misuse

def word (d : Draft) (word : String) : Step :=
  match word.toList with
  | '-' :: '-' :: name =>
      let long := String.ofList (name.takeWhile (· != '='))
      match name.dropWhile (· != '=') with
      | _ :: value => d.longOption long (some (String.ofList value))
      | [] => d.longOption long none
  | '-' :: letter :: letters => d.shortOptions (letter :: letters)
  | _ => d.plainWord word

/-- The words behind two dashes, none of which is an option. -/
def plainWords (d : Draft) : List String → Request
  | [] => d.finish
  | word :: rest =>
      match d.command, d.plainWord word with
      | some _, .next d => d.plainWords rest
      | _, _ => .misuse

/-- The words behind `help`: at most the name of one command. -/
def helpFor : List String → Request
  | [] => .help none
  | [word] =>
      match CommandName.ofWord? word with
      | some command => .help (some command)
      | none => .misuse
  | _ => .misuse

def words (d : Draft) : List String → Request
  | [] => d.finish
  | "--" :: rest => d.plainWords rest
  | first :: rest =>
      if first = "help" ∧ d.command = none then helpFor rest
      else
        match d.word first with
        | .done request => request
        | .next d => d.words rest
        | .nextTakes d name =>
            match rest with
            | [] => .misuse
            | value :: rest =>
                if looksLikeOption value then .misuse
                else
                  match d.setValue? name value with
                  | some d => d.words rest
                  | none => .misuse

end Draft

def Request.ofWords (words : List String) : Request :=
  Draft.words {} words

end StrategyQubo.CommandLine
