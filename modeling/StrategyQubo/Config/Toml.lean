import StrategyQubo.Config.Moment
import StrategyQubo.Config.Notation

namespace StrategyQubo.Config.Toml

/-! # TOML

Reading configuration files.  Scanners take a value off the front of a text;
a document is then built entry by entry, where each table remembers how it came
to be, since that decides what may still be added to it.
-/

/-! ## Blanks, comments and line ends -/

def skipSpaces (text : List Char) : List Char :=
  text.dropWhile fun c => c == ' ' || c == '\t'

/-- Tabs, and every character that is no control character. -/
def isTextChar (c : Char) : Bool :=
  c == '\t' || (32 ≤ c.toNat && c.toNat != 127)

def afterNewline? (text : List Char) : Option (List Char) :=
  match text with
  | '\n' :: rest => some rest
  | '\r' :: '\n' :: rest => some rest
  | _ => none

def skipComment (text : List Char) : List Char :=
  match skipSpaces text with
  | '#' :: rest => rest.dropWhile isTextChar
  | rest => rest

def skipLines : Nat → List Char → List Char
  | 0, chars => chars
  | bound + 1, chars =>
      let rest := skipComment chars
      match afterNewline? rest with
      | some rest => skipLines bound rest
      | none => rest

/-! ## Text -/

/-- What follows a backslash at the end of a line: it takes the blanks and line
    ends behind it away. -/
def afterContinuation? (text : List Char) : Option (List Char) :=
  (afterNewline? (skipSpaces text)).map fun rest =>
    rest.dropWhile fun c => c == ' ' || c == '\t' || c == '\n' || c == '\r'

/-- Text on one line up to the closing quote. -/
def lineText? (quote : Char) : Nat → List Char → List Char → Option (String × List Char)
  | 0, _, _ => none
  | bound + 1, found, chars =>
      match chars with
      | [] => none
      | c :: rest =>
          if c = quote then some (String.ofList found.reverse, rest)
          else if c = '\\' ∧ quote = '\x22' then
            match Inline.escape? rest with
            | some (c, rest) => lineText? quote bound (c :: found) rest
            | none => none
          else if isTextChar c then lineText? quote bound (c :: found) rest
          else none

/-- Text over several lines up to three quotes; two more quotes in front of
    them belong to the text. -/
def blockText? (quote : Char) : Nat → List Char → List Char → Option (String × List Char)
  | 0, _, _ => none
  | bound + 1, found, chars =>
      let quotes := (chars.take 5).takeWhile (· == quote)
      if 3 ≤ quotes.length then
        some (String.ofList (found.reverse ++ quotes.drop 3), chars.drop quotes.length)
      else
        match afterNewline? chars, chars with
        | some rest, _ => blockText? quote bound ('\n' :: found) rest
        | none, [] => none
        | none, c :: rest =>
            if c = '\\' ∧ quote = '\x22' then
              match afterContinuation? rest with
              | some rest => blockText? quote bound found rest
              | none =>
                  match Inline.escape? rest with
                  | some (c, rest) => blockText? quote bound (c :: found) rest
                  | none => none
            else if isTextChar c then blockText? quote bound (c :: found) rest
            else none

/-- Quoted text of either kind; the first line end of a block is left out. -/
def text? (bound : Nat) (quote : Char) (rest : List Char) : Option (String × List Char) :=
  match rest with
  | a :: b :: body =>
      if a = quote ∧ b = quote then blockText? quote bound [] ((afterNewline? body).getD body)
      else lineText? quote bound [] rest
  | _ => lineText? quote bound [] rest

/-! ## Numbers -/

/-- Digits with single underscores between them. -/
def digits? (isDigit : Char → Bool) (word : List Char) : Option (List Char) :=
  let groups := word.splitOn '_'
  if groups.all fun group => !group.isEmpty && group.all isDigit then some groups.flatten
  else none

/-- The integers of sixty-four bits. -/
def bounded? (negative : Bool) (magnitude : Nat) : Option Config :=
  if negative then
    if magnitude ≤ Number.pow2 63 then some (integer (-magnitude)) else none
  else if magnitude < Number.pow2 63 then some (integer magnitude)
  else none

def valueIn (base : Nat) (digits : List Char) : Nat :=
  digits.foldl (fun total c => total * base + (Number.hexDigitValue? c).getD 0) 0

def based? (base : Nat) (word : List Char) : Option Config :=
  match digits? (fun c => (Number.hexDigitValue? c).any (· < base)) word with
  | some digits => bounded? false (valueIn base digits)
  | none => none

/-- Decimal digits without a leading zero. -/
def wholeDigits? (word : List Char) : Option (List Char) :=
  match digits? Char.isDigit word with
  | some ['0'] => some ['0']
  | some ('0' :: _) => none
  | other => other

/-- The part of a float behind its whole digits: digits behind a point, an
    exponent, or both. -/
def floatTail? (word : List Char) : Option (List Char × Int) :=
  let mantissa := word.takeWhile fun c => c != 'e' && c != 'E'
  let fraction? : Option (List Char) := match mantissa with
    | '.' :: digits => digits? Char.isDigit digits
    | [] => some []
    | _ => none
  let exponent? : Option Int := match word.drop mantissa.length with
    | [] => some 0
    | _ :: signed =>
        let (negative, _, digits) := Number.spanSign signed
        (digits? Char.isDigit digits).map fun digits =>
          let magnitude : Int := Number.digitsValue digits
          if negative then -magnitude else magnitude
  match fraction?, exponent? with
  | some fraction, some exponent => some (fraction, exponent)
  | _, _ => none

/-- A float with its sign, which may not be too large to be a double. -/
def float? (negative : Bool) (word : List Char) : Option Config :=
  let isMark (c : Char) : Bool := c == '.' || c == 'e' || c == 'E'
  let whole := word.takeWhile fun c => !isMark c
  match wholeDigits? whole, floatTail? (word.drop whole.length) with
  | some whole, some (fraction, exponent) =>
      let x := Number.nearest (Number.digitsValue (whole ++ fraction)) (exponent - fraction.length)
      if negative then some (real (-x))
      else if Number.isFinite x then some (real x)
      else none
  | _, _ => none

def word? (word : List Char) : Option Config :=
  let (negative, width, unsigned) := Number.spanSign word
  match unsigned with
  | ['i', 'n', 'f'] => some (real (if negative then -Number.infinity else Number.infinity))
  | ['n', 'a', 'n'] => some (real Number.notANumber)
  | '0' :: 'x' :: digits => if width = 0 then based? 16 digits else none
  | '0' :: 'o' :: digits => if width = 0 then based? 8 digits else none
  | '0' :: 'b' :: digits => if width = 0 then based? 2 digits else none
  | _ =>
      if Moment.isMoment word then some moment
      else
        match wholeDigits? unsigned with
        | some digits => bounded? negative (Number.digitsValue digits)
        | none => float? negative unsigned

def isWordChar (c : Char) : Bool :=
  c.isAlphanum || c == '_' || c == '-' || c == '+' || c == '.' || c == ':'

/-- The word at the front of a text; a date takes in a time behind a blank. -/
def spanWord (text : List Char) : List Char × List Char :=
  let word := text.takeWhile isWordChar
  match text.drop word.length with
  | ' ' :: c :: rest =>
      if c.isDigit && Moment.afterDate? word == some [] then
        let time := (c :: rest).takeWhile isWordChar
        (word ++ ' ' :: time, (c :: rest).drop time.length)
      else
        (word, ' ' :: c :: rest)
  | rest => (word, rest)

def scalar? (text : List Char) : Option (Config × List Char) :=
  let (word, rest) := spanWord text
  if word = "true".toList then some (bool true, rest)
  else if word = "false".toList then some (bool false, rest)
  else (word? word).map fun value => (value, rest)

/-! ## Keys -/

def simpleKey? (bound : Nat) (text : List Char) : Option (String × List Char) :=
  match text with
  | '\x22' :: rest => lineText? '\x22' bound [] rest
  | '\'' :: rest => lineText? '\'' bound [] rest
  | _ =>
      let word := text.takeWhile Inline.isKeyChar
      if word.isEmpty then none else some (String.ofList word, text.drop word.length)

/-- Keys with points between them, and what follows them and spaces. -/
def path? (bound : Nat) : Nat → List Char → Option (List String × List Char)
  | 0, _ => none
  | turns + 1, chars =>
      match simpleKey? bound (skipSpaces chars) with
      | none => none
      | some (key, rest) =>
          match skipSpaces rest with
          | '.' :: rest => (path? bound turns rest).map fun (keys, rest) => (key :: keys, rest)
          | rest => some ([key], rest)

/-! ## Tables under construction -/

/-- How a table came to be: as a part of the path of a header, by its own
    header, or as a part of a dotted key. -/
inductive Origin where
  | implied
  | header
  | dotted
  deriving DecidableEq

inductive Node where
  | value (value : Config)
  | table (origin : Origin) (entries : List (String × Node))
  /-- Tables with the same header; the last one is open, and comes first
      here. -/
  | tables (last : List (String × Node)) (earlier : List (List (String × Node)))

abbrev Entries := List (String × Node)

/-- Puts a function of the old entry under a key, unless the function
    refuses. -/
def alter? (key : String) (change : Option Node → Option Node) : Entries → Option Entries
  | [] => (change none).map fun node => [(key, node)]
  | (other, old) :: rest =>
      if other = key then (change (some old)).map fun node => (key, node) :: rest
      else (alter? key change rest).map ((other, old) :: ·)

/-- Changes the table at the end of the path of a header.  Missing tables are
    made. -/
def alterAt? (path : List String) (change : Entries → Option Entries) (entries : Entries) :
    Option Entries :=
  match path with
  | [] => change entries
  | key :: rest =>
      alter? key (fun
        | none => (alterAt? rest change []).map (.table .implied)
        | some (.table origin inner) => (alterAt? rest change inner).map (.table origin)
        | some (.tables last earlier) =>
            (alterAt? rest change last).map fun last => .tables last earlier
        | some (.value _) => none) entries

/-- Adds a value under a dotted key.  Tables that have their own header are
    closed to it, and the last table has to be one that only dotted keys
    make. -/
def addValue? (path : List String) (value : Config) (entries : Entries) : Option Entries :=
  match path with
  | [] => none
  | [key] =>
      alter? key (fun
        | none => some (.value value)
        | some _ => none) entries
  | key :: rest =>
      alter? key (fun
        | none => (addValue? rest value []).map (.table .dotted)
        | some (.table origin inner) =>
            if origin = .header ∨ (origin = .implied ∧ rest.length = 1) then none
            else (addValue? rest value inner).map (.table origin)
        | some (.tables last earlier) =>
            if rest.length = 1 then none
            else (addValue? rest value last).map fun last => .tables last earlier
        | some (.value _) => none) entries

/-- Opens the table of a header, which may not be open or used otherwise. -/
def openTable? (key : String) (entries : Entries) : Option Entries :=
  alter? key (fun
    | none => some (.table .header [])
    | some (.table .implied inner) => some (.table .header inner)
    | some _ => none) entries

def openNext? (key : String) (entries : Entries) : Option Entries :=
  alter? key (fun
    | none => some (.tables [] [])
    | some (.tables last earlier) => some (.tables [] (last :: earlier))
    | some _ => none) entries

mutual

def Node.toConfig : Node → Config
  | .value value => value
  | .table _ entries => Config.table (configEntries entries)
  | .tables last earlier =>
      list ((Config.table (configEntries last) :: configTables earlier).reverse)

def configEntries : Entries → List (String × Config)
  | [] => []
  | (key, node) :: rest => (key, node.toConfig) :: configEntries rest

def configTables : List Entries → List Config
  | [] => []
  | entries :: rest => Config.table (configEntries entries) :: configTables rest

end

/-! ## Values -/

abbrev Reader := List Char → Option (Config × List Char)

/-- The items of a list up to its bracket; line ends and comments may stand
    between them, and a comma behind the last one. -/
def items? (read : Reader) (bound : Nat) :
    Nat → List Config → List Char → Option (Config × List Char)
  | 0, _, _ => none
  | turns + 1, found, chars =>
      match skipLines bound chars with
      | ']' :: rest => some (list found.reverse, rest)
      | start =>
          match read start with
          | none => none
          | some (item, rest) =>
              match skipLines bound rest with
              | ',' :: rest => items? read bound turns (item :: found) rest
              | ']' :: rest => some (list (item :: found).reverse, rest)
              | _ => none

def assignment? (read : Reader) (bound : Nat) (text : List Char) :
    Option ((List String × Config) × List Char) :=
  match path? bound bound text with
  | some (path, '=' :: rest) =>
      (read (skipSpaces rest)).map fun (value, rest) => ((path, value), rest)
  | _ => none

/-- The entries of a table in braces, on one line and without a comma behind
    the last one. -/
def inlineEntries? (read : Reader) (bound : Nat) :
    Nat → Entries → List Char → Option (Config × List Char)
  | 0, _, _ => none
  | turns + 1, found, chars =>
      match assignment? read bound chars with
      | none => none
      | some ((path, value), rest) =>
          match addValue? path value found, skipSpaces rest with
          | some found, ',' :: rest => inlineEntries? read bound turns found rest
          | some found, '}' :: rest => some (Config.table (configEntries found), rest)
          | _, _ => none

def inlineTable? (read : Reader) (bound : Nat) (text : List Char) : Option (Config × List Char) :=
  match skipSpaces text with
  | '}' :: rest => some (Config.empty, rest)
  | start => inlineEntries? read bound bound [] start

def valueWith? (bound : Nat) (readList readTable : Reader) (chars : List Char) :
    Option (Config × List Char) :=
  match chars with
  | '\x22' :: rest => (text? bound '\x22' rest).map fun (value, rest) => (text value, rest)
  | '\'' :: rest => (text? bound '\'' rest).map fun (value, rest) => (text value, rest)
  | '[' :: rest => readList rest
  | '{' :: rest => readTable rest
  | _ => scalar? chars

def value? (bound : Nat) : Nat → Reader
  | 0 => valueWith? bound (fun _ => none) (fun _ => none)
  | room + 1 => fun text =>
      let read := value? bound room
      valueWith? bound (items? read bound bound []) (inlineTable? read bound) text

def maxDepth : Nat := 80

/-! ## Documents -/

structure Draft where
  entries : Entries
  current : List String

def endOfLine? (text : List Char) : Option (List Char) :=
  match skipComment text with
  | [] => some []
  | rest => afterNewline? rest

def openAt? (openKey : String → Entries → Option Entries) (path : List String) (d : Draft) :
    Option Draft :=
  match path.getLast? with
  | none => none
  | some key =>
      (alterAt? path.dropLast (openKey key) d.entries).map fun entries => ⟨entries, path⟩

/-- One header or entry, without the end of its line. -/
def line? (bound : Nat) (d : Draft) (text : List Char) : Option (Draft × List Char) :=
  match text with
  | '[' :: '[' :: rest =>
      match path? bound bound rest with
      | some (path, ']' :: ']' :: rest) => (openAt? openNext? path d).map (·, rest)
      | _ => none
  | '[' :: rest =>
      match path? bound bound rest with
      | some (path, ']' :: rest) => (openAt? openTable? path d).map (·, rest)
      | _ => none
  | _ =>
      match assignment? (value? bound maxDepth) bound text with
      | some ((path, value), rest) =>
          (alterAt? d.current (addValue? path value) d.entries).map fun entries =>
            (⟨entries, d.current⟩, rest)
      | none => none

def lines? (bound : Nat) : Nat → Draft → List Char → Option Draft
  | 0, _, _ => none
  | turns + 1, d, chars =>
      match skipLines bound chars with
      | [] => some d
      | start =>
          match line? bound d start with
          | none => none
          | some (d, rest) =>
              match endOfLine? rest with
              | some rest => lines? bound turns d rest
              | none => none

end Toml

def ofToml? (content : String) : Option Config :=
  let chars := match content.toList with
    | '\uFEFF' :: rest => rest
    | chars => chars
  let bound := chars.length + 1
  (Toml.lines? bound bound ⟨[], []⟩ chars).map fun d => table (Toml.configEntries d.entries)

end StrategyQubo.Config
