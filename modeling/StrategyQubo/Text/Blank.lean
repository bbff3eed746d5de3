import StrategyQubo.Text.Ranges

namespace StrategyQubo.Text

/-! # Blanks

The characters with the Unicode property White_Space, and trimming them off
the ends of a text.
-/

def blankRanges : Array (Nat × Nat) := #[
  (9, 13), (32, 32), (133, 133), (160, 160), (5760, 5760), (8192, 8202), (8232, 8233), (8239,
  8239), (8287, 8287), (12288, 12288)]

def isBlank (c : Char) : Bool :=
  inRanges blankRanges c

def trimStart (text : List Char) : List Char :=
  text.dropWhile isBlank

def trimEnd (text : List Char) : List Char :=
  (text.reverse.dropWhile isBlank).reverse

/-- The text without the blanks at either end. -/
def trim (text : String) : String :=
  String.ofList (trimEnd (trimStart text.toList))

end StrategyQubo.Text
