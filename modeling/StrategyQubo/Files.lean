namespace StrategyQubo

/-! # Files

What reading a file gives, and directories that hold only a few known files.
-/

inductive FileContent where
  | text (content : String)
  /-- The bytes of the file are not text. -/
  | binary
  | directory
  | missing
  deriving DecidableEq, Repr

/-- The text of a file, or why there is none. -/
def FileContent.asText : FileContent → Except String String
  | text content => .ok content
  | binary => .error "stream did not contain valid UTF-8"
  | directory => .error "Is a directory (os error 21)"
  | missing => .error "No such file or directory (os error 2)"

namespace Files

/-- The parts of a relative path that lead anywhere. -/
def parts (path : String) : List (List Char) :=
  (path.toList.splitOn '/').filter fun part => !part.isEmpty && part != ['.']

/-- Reading files by path where only those of a list exist. -/
def ofList (files : List (String × String)) (path : String) : FileContent :=
  let asked := parts path
  if path.isEmpty then .missing
  else if asked.isEmpty then .directory
  else
    match files.find? fun file => parts file.1 == asked with
    | some (_, content) => .text content
    | none =>
        if files.any fun file => asked.isPrefixOf (parts file.1) then .directory else .missing

end Files

end StrategyQubo
