import StrategyQubo.Script.Convert
import StrategyQubo.Script.Fault
import StrategyQubo.Script.Limits

namespace StrategyQubo.Script

/-! # Properties

Reading and writing `value[key]`.  Methods are found by name on arrays,
strings and numbers and remember the value they were read from.
-/

/-- Larger numeric keys do not address array elements. -/
def maxArrayIndex : Nat := Number.pow2 32 - 2

/-- The element that a key addresses: a decimal numeral without sign and
    without a leading zero. -/
def arrayIndex? (key : String) : Option Nat :=
  let digits := key.toList
  if digits.isEmpty || !digits.all Char.isDigit then
    none
  else if digits.head? = some '0' ∧ 1 < digits.length then
    none
  else
    let index := Number.digitsValue digits
    if index ≤ maxArrayIndex then some index else none

/-- The length that a number asks for: whole, not negative and below
    `2 ^ 32`. -/
def arrayLength? (x : Float) : Option Nat :=
  match Number.decode x with
  | .finite value =>
      if value.isWhole && (!value.negative || value.mantissa == 0) &&
          value.wholePart < Number.pow2 32 then
        some value.wholePart
      else
        none
  | _ => none

def naturalValue (n : Nat) : Value :=
  .number (Number.nearest n 0)

def charText (c : Char) : Value :=
  .string c.toString

/-- What a key leads to: a value, or a method to be bound. -/
inductive Found where
  | value (value : Value)
  | method (method : Bound)

def foundMethod (method : Option Bound) : Found :=
  match method with
  | some method => .method method
  | none => .value .undefined

namespace Heap

/-- Reads a property; `undefined` and `null` have none to read. -/
def property (h : Heap) (target : Value) (key : String) : Except TypeFault Found :=
  match target with
  | .undefined => .error (.readOfNothing "undefined" key)
  | .null => .error (.readOfNothing "null" key)
  | .array ref =>
      if key = "length" then
        .ok (.value (naturalValue (h.arrayAt ref).size))
      else
        match arrayIndex? key with
        | some index => .ok (.value ((h.arrayAt ref).getD index .undefined))
        | none => .ok (foundMethod ((ArrayMethod.ofName? key).map (.array ref)))
  | .string text =>
      if key = "length" then
        .ok (.value (naturalValue text.length))
      else
        match arrayIndex? key with
        | some index => .ok (.value ((text.toList[index]?.map charText).getD .undefined))
        | none => .ok (foundMethod ((StringMethod.ofName? key).map (.string text)))
  | .number value => .ok (foundMethod ((NumberMethod.ofName? key).map (.number value)))
  | .object ref => .ok (.value (((h.objectAt ref).get? key).getD .undefined))
  | .closure closure =>
      if key = "name" then .ok (.value (.string (closure.name.getD "")))
      else if key = "length" then .ok (.value (naturalValue closure.arity))
      else .ok (.value .undefined)
  | .builtin builtin =>
      .ok (.value (if key = "name" then .string builtin.name else .undefined))
  | .bound _ method =>
      .ok (.value (if key = "name" then .string method.name else .undefined))
  | .bool _ => .ok (.value .undefined)

/-- The keys that a loop over the properties visits, in their order. -/
def ownKeys (h : Heap) : Value → List String
  | .object ref => (h.objectAt ref).keys
  | .array ref => (List.range (h.arrayAt ref).size).map toString
  | .string text => (List.range text.length).map toString
  | _ => []

def hasKey? (h : Heap) (target : Value) (key : String) : Option Bool :=
  match target with
  | .object ref => some ((h.objectAt ref).contains key)
  | .array ref =>
      some (key == "length" ||
        match arrayIndex? key with
        | some index => index < (h.arrayAt ref).size
        | none => false)
  | _ => none

/-- Cuts an array off, or fills it up with `undefined`. -/
def resized (items : Array Value) (length : Nat) : Array Value :=
  if length ≤ items.size then
    items.shrink length
  else
    items ++ Array.replicate (length - items.size) .undefined

/-- What a property assignment does to the heap. -/
inductive Change where
  | nothing
  | property (ref : ObjectRef) (key : String) (value : Value)
  | element (ref : ArrayRef) (index : Nat) (value : Value)
  | length (ref : ArrayRef) (length : Nat)

/-- Puts an element at its index; elements missing before it become
    `undefined`. -/
def placed (items : Array Value) (index : Nat) (value : Value) : Array Value :=
  if index < items.size then
    items.setIfInBounds index value
  else
    (resized items index).push value

def Change.apply : Change → Heap → Heap
  | nothing, h => h
  | property ref key value, h => h.modifyObject ref (·.set key value)
  | element ref index value, h => h.modifyArray ref (placed · index value)
  | length ref size, h => h.modifyArray ref (resized · size)

/-- Decides a property assignment.  Values that keep no properties, and array
    keys that are neither an index nor the length, change nothing. -/
def changeFor (h : Heap) (limits : Limits) (target : Value) (key : String) (value : Value) :
    Except ScriptError Change :=
  match target with
  | .object ref => .ok (.property ref key value)
  | .array ref =>
      if key = "length" then
        let requested := value.toNumber h
        match arrayLength? requested with
        | none => .error (.type (.arrayLength requested))
        | some length =>
            if limits.maxCollectionLen < length then
              .error (.collectionTooLarge length limits.maxCollectionLen)
            else
              .ok (.length ref length)
      else
        match arrayIndex? key with
        | none => .ok .nothing
        | some index =>
            if (h.arrayAt ref).size ≤ index ∧ limits.maxCollectionLen < index + 1 then
              .error (.collectionTooLarge (index + 1) limits.maxCollectionLen)
            else
              .ok (.element ref index value)
  | .undefined => .error (.type (.writeToNothing "undefined" key))
  | .null => .error (.type (.writeToNothing "null" key))
  | _ => .ok .nothing

/-- Writes a property.  A refused write leaves the heap to its owner as it
    was. -/
def setProperty (h : Heap) (limits : Limits) (target : Value) (key : String) (value : Value) :
    Except ScriptError Heap :=
  (h.changeFor limits target key value).map fun change => change.apply h

end Heap

end StrategyQubo.Script
