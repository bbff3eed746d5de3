namespace StrategyQubo

/-! # The board

Nine cells in rows of three, counted from the top left.
-/

inductive Cell where
  | empty
  | cross
  | nought
  deriving DecidableEq, Repr

/-- What a strategy sees in a cell. -/
def Cell.mark : Cell → String
  | empty => ""
  | cross => "X"
  | nought => "O"

def Cell.ofMark? : String → Option Cell
  | "" => some empty
  | "X" => some cross
  | "O" => some nought
  | _ => none

def boardCells : Nat := 9
def boardSide : Nat := 3

structure Board where
  cells : Vector Cell boardCells
  deriving DecidableEq

namespace Board

def empty : Board := ⟨.replicate boardCells .empty⟩

/-- The first nine cells of a list; missing ones are empty. -/
def ofList (cells : List Cell) : Board :=
  ⟨.ofFn fun i => cells.getD i .empty⟩

def toList (b : Board) : List Cell :=
  b.cells.toList

/-- A board changed in one cell; an index beyond the board changes nothing. -/
def place (b : Board) (index : Nat) (cell : Cell) : Board :=
  ⟨b.cells.setIfInBounds index cell⟩

def cell? (b : Board) (index : Nat) : Option Cell :=
  b.cells[index]?

def indexOf (row column : Nat) : Nat :=
  row * boardSide + column

def positionOf (index : Nat) : Nat × Nat :=
  (index / boardSide, index % boardSide)

/-- The cell in a row and a column, if both are on the board. -/
def at? (b : Board) (row column : Nat) : Option Cell :=
  if row < boardSide ∧ column < boardSide then b.cell? (indexOf row column) else none

def isEmpty (b : Board) : Bool :=
  b.toList.all (· == .empty)

def openCells (b : Board) : List Nat :=
  (List.range boardCells).filter fun index => b.cell? index == some .empty

def marks (b : Board) : List String :=
  b.toList.map Cell.mark

/-- An empty cell shows its index. -/
def cellText (b : Board) (index : Nat) : String :=
  match b.cell? index with
  | some .empty => " " ++ toString index ++ " "
  | some cell => " " ++ cell.mark ++ " "
  | none => ""

def rowText (b : Board) (row : Nat) : String :=
  "|".intercalate ((List.range boardSide).map fun column => b.cellText (indexOf row column)) ++ "\n"

/-- The rows with a line between them. -/
def display (b : Board) : String :=
  "---+---+---\n".intercalate ((List.range boardSide).map b.rowText)

end Board

end StrategyQubo
