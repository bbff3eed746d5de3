import StrategyQubo.Number.Layout
import StrategyQubo.Script.Heap
import StrategyQubo.Text.Quoted

namespace StrategyQubo.Script

/-! # Values as text

Text is written piece by piece against a limit on its bytes.  When a piece
does not fit, writing stops and the text before it is kept.  A container that
contains itself is written once; containers nested too deeply are refused.
-/

/-- Why writing stopped early: the text would have grown to so many bytes, or
    containers are nested too deeply. -/
inductive Overflow where
  | length (bytes : Nat)
  | depth
  deriving DecidableEq, Repr

inductive Style where
  /-- String conversion: arrays join with commas, a cycle leaves nothing. -/
  | plain
  /-- Console output: brackets, quoted strings, a word for a cycle. -/
  | inspect
  deriving DecidableEq, Repr

/-- The longest text that a conversion without a limit of its own makes. -/
def displayLimit : Nat := Number.pow2 20

def maxDisplayDepth : Nat := 128

inductive Container where
  | array (ref : ArrayRef)
  | object (ref : ObjectRef)
  deriving DecidableEq, Repr

def Value.container? : Value → Option Container
  | .array ref => some (.array ref)
  | .object ref => some (.object ref)
  | _ => none

def Value.scalarText : Value → String
  | .undefined => "undefined"
  | .null => "null"
  | .bool value => if value then "true" else "false"
  | .number value => Number.scriptText value
  | .string text => text
  | .closure c => "function " ++ c.name.getD "" ++ "() \x7b ... \x7d"
  | .builtin b => "function " ++ b.name ++ "() \x7b [native code] \x7d"
  | .bound _ m => "function " ++ m.name ++ "() \x7b [native code] \x7d"
  | .array _ => ""
  | .object _ => ""

/-- Writing keeps the text written so far, also when it fails. -/
abbrev Writing := EStateM Overflow String Unit

/-- Appends a piece, unless the text would be longer than the limit then. -/
def writePiece (limit : Nat) (piece : String) : Writing := fun text =>
  let bytes := text.utf8ByteSize + piece.utf8ByteSize
  if limit < bytes then .error (.length bytes) text else .ok () (text ++ piece)

namespace Display

/-- An element of an array.  Plain text has nothing in place of `undefined`
    and `null`. -/
def element (style : Style) (limit : Nat) (write : Value → Writing) (value : Value) : Writing :=
  match style, value with
  | .inspect, .string text => writePiece limit (Text.quoted text)
  | .plain, value => if value.isNullish then pure () else write value
  | .inspect, value => write value

def separator : Style → String
  | .plain => ","
  | .inspect => ", "

def laterElements (style : Style) (limit : Nat) (write : Value → Writing) :
    List Value → Writing
  | [] => pure ()
  | value :: rest => do
      writePiece limit (separator style)
      element style limit write value
      laterElements style limit write rest

def elements (style : Style) (limit : Nat) (write : Value → Writing) : List Value → Writing
  | [] => pure ()
  | value :: rest => do
      element style limit write value
      laterElements style limit write rest

def array (style : Style) (limit : Nat) (write : Value → Writing) (items : List Value) :
    Writing :=
  match style with
  | .plain => elements .plain limit write items
  | .inspect => do
      writePiece limit "["
      elements .inspect limit write items
      writePiece limit "]"

/-- A property: a separator, the key, and the value. -/
def property (limit : Nat) (write : Value → Writing) (lead key : String) (value : Value) :
    Writing := do
  writePiece limit lead
  writePiece limit (key ++ ": ")
  match value with
  | .string text => writePiece limit (Text.quoted text)
  | value => write value

def laterProperties (limit : Nat) (write : Value → Writing) : Record → Writing
  | [] => pure ()
  | (key, value) :: rest => do
      property limit write ", " key value
      laterProperties limit write rest

/-- An object in plain text is opaque, unless it has a name and a message like
    an error. -/
def object (style : Style) (limit : Nat) (write : Value → Writing) (properties : Record) :
    Writing :=
  match style with
  | .plain =>
      match properties.get? "name", properties.get? "message" with
      | some (.string name), some message => do
          writePiece limit (name ++ ": ")
          write message
      | _, _ => writePiece limit "[object Object]"
  | .inspect => do
      writePiece limit "\x7b"
      match properties with
      | [] => pure ()
      | (key, value) :: rest => do
          property limit write " " key value
          laterProperties limit write rest
          writePiece limit " "
      writePiece limit "\x7d"

def contents (h : Heap) (style : Style) (limit : Nat) (write : Value → Writing) :
    Container → Writing
  | .array ref => array style limit write (h.arrayAt ref).toList
  | .object ref => object style limit write (h.objectAt ref)

/-- Writes a scalar as it is, a container that is open already as a cycle, and
    any other container by `enter`. -/
def valueWith (style : Style) (limit : Nat) (opened : List Container)
    (enter : Container → Writing) (value : Value) : Writing :=
  match value.container? with
  | none => writePiece limit value.scalarText
  | some container =>
      if container ∈ opened then
        match style with
        | .plain => pure ()
        | .inspect => writePiece limit "[Circular]"
      else
        enter container

def value (h : Heap) (style : Style) (limit : Nat) :
    Nat → List Container → Value → Writing
  | 0, opened => valueWith style limit opened fun _ => throw .depth
  | room + 1, opened => valueWith style limit opened fun container =>
      contents h style limit (value h style limit room (container :: opened)) container

end Display

namespace Value

/-- Writes the whole value; the result holds the text kept in either case. -/
def write (h : Heap) (style : Style) (limit : Nat) (value : Value) :
    EStateM.Result Overflow String Unit :=
  Display.value h style limit maxDisplayDepth [] value ""

/-- String conversion that fails when the text is longer than the limit. -/
def displayWithin (h : Heap) (limit : Nat) (value : Value) : Except Overflow String :=
  match value.write h .plain limit with
  | .ok _ text => .ok text
  | .error overflow _ => .error overflow

/-- String conversion that cuts the text off where writing stops. -/
def display (h : Heap) (value : Value) : String :=
  match value.write h .plain displayLimit with
  | .ok _ text => text
  | .error _ text => text

/-- The console form, with an ellipsis where writing stopped. -/
def inspect (h : Heap) (value : Value) : String :=
  match value.write h .inspect displayLimit with
  | .ok _ text => text
  | .error _ text => text ++ " ..."

end Value

end StrategyQubo.Script
