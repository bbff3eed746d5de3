import StrategyQubo.Script.Eval
import StrategyQubo.Text.Casing

namespace StrategyQubo.Script

/-! # Functions that a script finds ready

The global scope, and what its functions and the methods of values compute.
Methods that call back into the script ask for the call.
-/

/-- The `index`-th argument; a missing one is `undefined`. -/
def argument (arguments : List Value) (index : Nat) : Value :=
  arguments.getD index .undefined

/-! ## Numbers -/

/-- Digits from ten on are small letters. -/
def radixDigit (digit : Nat) : Char :=
  if digit < 10 then Char.ofNat ('0'.toNat + digit) else Char.ofNat ('a'.toNat + (digit - 10))

/-- The digits of a number, least significant first, at most `bound` of
    them. -/
def integerDigits (radix : Nat) : Nat → Nat → List Char
  | 0, _ => []
  | bound + 1, n =>
      if n = 0 then [] else radixDigit (n % radix) :: integerDigits radix bound (n / radix)

/-- The whole part in another radix, most significant digit first.  Magnitudes
    from `2 ^ 64` on are written as the largest number below it. -/
def radixText (radix : Nat) (value : Float) : String :=
  match Number.decode value with
  | .finite exact =>
      let whole := min (Number.pow2 64 - 1) exact.wholePart
      if whole = 0 then
        "0"
      else
        (if exact.negative then "-" else "") ++
          String.ofList (integerDigits radix 64 whole).reverse
  | _ => Number.scriptText value

/-- A half goes up, toward positive infinity. -/
def NumberFunction.apply : NumberFunction → Float → Float
  | abs, x => x.abs
  | floor, x => x.floor
  | ceil, x => x.ceil
  | round, x => (x + 0.5).floor
  | sqrt, x => x.sqrt

/-- The extreme of some numbers under `better`, from the one at hand on.  Of
    equal numbers the last stays, which tells the zeros apart.  A NaN among
    them is the result. -/
def extreme (better : Float → Float → Bool) : Float → List Float → Float
  | best, [] => best
  | best, x :: rest =>
      if x.isNaN then Number.notANumber
      else extreme better (if better best x then best else x) rest

/-- A position relative to the start, or to the end when negative, brought
    into `0..length`. -/
def relativeIndex (h : Heap) (value : Value) (length default : Nat) : Nat :=
  match value with
  | .undefined => default
  | value =>
      let offset := Number.toIntWithin (-Number.pow2 62) (Number.pow2 62) (value.toNumber h)
      if offset < 0 then (length + offset).toNat else min offset.toNat length

namespace NumberMethod

def toFixedText (h : Heap) (value : Float) (places : Value) : Except TypeFault String :=
  let count := Number.toIntWithin (-1000) 1000 (places.toNumber h)
  if count < 0 ∨ 100 < count then
    .error .fixedDigits
  else
    match Number.decode value with
    | .finite exact => .ok (Number.fixedPlaces count.toNat exact)
    | _ => .ok (Number.scriptText value)

def toStringText (h : Heap) (value : Float) (radix : Value) : Except TypeFault String :=
  let radix := match radix with
    | .undefined => 10.0
    | radix => radix.toNumber h
  if radix == 10.0 then
    .ok (Number.scriptText value)
  else if 2.0 ≤ radix ∧ radix ≤ 36.0 ∧ Number.isWhole radix then
    .ok (radixText (Number.toNatWithin 36 radix) value)
  else
    .error .radix

def apply (method : NumberMethod) (h : Heap) (value : Float) (option : Value) :
    Except TypeFault String :=
  match method with
  | toFixed => toFixedText h value option
  | toString => toStringText h value option

end NumberMethod

/-! ## Strings -/

/-- Cuts a text at every occurrence of a separator, from left to right; what
    belongs to one occurrence begins no other.  `skip` characters of the last
    one are still ahead; the piece at hand and those before it are kept last
    first. -/
def cut (separator : List Char) :
    Nat → List Char → List Char → List (List Char) → List (List Char)
  | _, [], piece, found => (piece.reverse :: found).reverse
  | skip + 1, _ :: rest, piece, found => cut separator skip rest piece found
  | 0, c :: rest, piece, found =>
      if separator.isPrefixOf (c :: rest) then
        cut separator (separator.length - 1) rest [] (piece.reverse :: found)
      else
        cut separator 0 rest (c :: piece) found

/-- The pieces between the occurrences of a separator; an empty one separates
    all characters. -/
def splitText (text separator : String) : List String :=
  if separator.isEmpty then
    text.toList.map Char.toString
  else
    (cut separator.toList 0 text.toList [] []).map String.ofList

/-- The index of the first character at which `part` occurs. -/
def occurrence? (part : List Char) : Nat → List Char → Option Nat
  | index, [] => if part.isEmpty then some index else none
  | index, c :: rest =>
      if part.isPrefixOf (c :: rest) then some index else occurrence? part (index + 1) rest

/-- The index of an element, or minus one. -/
def positionValue : Option Nat → Value
  | some index => naturalValue index
  | none => .number (-1.0)

def between {α : Type} (start stop : Nat) (items : List α) : List α :=
  (items.take stop).drop start

def charAtText (h : Heap) (text : String) (index : Value) : String :=
  let index := Number.toIntWithin (-1) (Number.pow2 62) (index.toNumber h)
  if index < 0 then "" else (text.toList[index.toNat]?.map Char.toString).getD ""

def StringMethod.apply (method : StringMethod) (text : String) (arguments : List Value) :
    Eval Value := do
  let h ← Eval.heap
  let first := argument arguments 0
  match method with
  | split =>
      let pieces := match first with
        | .undefined => [text]
        | separator => splitText text (separator.display h)
      Eval.checkLength pieces.length
      Eval.newArray (pieces.map Value.string).toArray
  | indexOf => pure (positionValue (occurrence? (first.display h).toList 0 text.toList))
  | includes => pure (.bool (occurrence? (first.display h).toList 0 text.toList).isSome)
  | toUpperCase => pure (.string (Text.upper text))
  | toLowerCase => pure (.string (Text.lower text))
  | trim => pure (.string (Text.trim text))
  | slice =>
      let length := text.length
      let start := relativeIndex h first length 0
      let stop := relativeIndex h (argument arguments 1) length length
      pure (.string (String.ofList (between start stop text.toList)))
  | charAt => pure (.string (charAtText h text first))

/-! ## Arrays -/

def filled (items : Array Value) (start stop : Nat) (value : Value) : Array Value :=
  items.mapIdx fun index item => if start ≤ index ∧ index < stop then value else item

/-- The text of an element between separators.  Nothing stands for `undefined`,
    `null` and the array itself. -/
def joinPiece (receiver item : Value) : Eval String :=
  if item.isNullish || item.strictEquals receiver then pure "" else Eval.stringify item

def joinLater (receiver : Value) (separator : String) : List Value → String → Eval String
  | [], text => pure text
  | item :: rest, text => do
      let piece ← joinPiece receiver item
      let text := text ++ separator ++ piece
      Eval.checkLength text.utf8ByteSize
      joinLater receiver separator rest text

def joinAll (receiver : Value) (separator : String) : List Value → Eval String
  | [] => pure ""
  | item :: rest => do
      let text ← joinPiece receiver item
      Eval.checkLength text.utf8ByteSize
      joinLater receiver separator rest text

/-- Elements of an array, and any other value itself, behind the elements at
    hand. -/
def appended (items : Array Value) (value : Value) : Eval (Array Value) :=
  match value with
  | .array ref => do pure (items ++ (← Eval.heap).arrayAt ref)
  | value => pure (items.push value)

def concatAll : List Value → Array Value → Eval (Array Value)
  | [], items => pure items
  | value :: rest, items => do
      let items ← appended items value
      Eval.checkLength items.size
      concatAll rest items

def callbackOf (method : ArrayMethod) (arguments : List Value) : Eval Value := do
  let function := argument arguments 0
  if function.isCallable then
    pure function
  else
    Eval.typeError (.notACallback (← Eval.display function) method.name)

/-- What a walk over an array does with an answer of its callback: it goes on
    with the results gathered so far, or it ends with a value. -/
inductive WalkStep where
  | next (gathered : Array Value)
  | done (value : Value)

def walkStep (method : ArrayMethod) (gathered : Array Value) (index : Nat)
    (item result : Value) : WalkStep :=
  match method with
  | .map => .next (gathered.push result)
  | .filter => .next (if result.truthy then gathered.push item else gathered)
  | .some => if result.truthy then .done (.bool true) else .next gathered
  | .every => if result.truthy then .next gathered else .done (.bool false)
  | .find => if result.truthy then .done item else .next gathered
  | .findIndex => if result.truthy then .done (naturalValue index) else .next gathered
  | _ => .next gathered

def walkEnd (method : ArrayMethod) (gathered : Array Value) : Eval Value :=
  match method with
  | .map => Eval.newArray gathered
  | .filter => Eval.newArray gathered
  | .some => pure (.bool false)
  | .every => pure (.bool true)
  | .findIndex => pure (.number (-1.0))
  | _ => pure .undefined

/-- Calls back for the elements from `index` on, `left` of them at most, and
    stops early where the array has become shorter. -/
def walk (method : ArrayMethod) (ref : ArrayRef) (function : Value) :
    Nat → Nat → Array Value → Eval Value
  | 0, _, gathered => walkEnd method gathered
  | left + 1, index, gathered => do
      match ((← Eval.heap).arrayAt ref)[index]? with
      | none => walkEnd method gathered
      | some item =>
          let result ← Eval.call function [item, naturalValue index, .array ref]
          match walkStep method gathered index item result with
          | .done value => pure value
          | .next gathered => walk method ref function left (index + 1) gathered

/-- A fold under way: the callback, the index of its next element and the
    total so far. -/
structure Fold where
  function : Value
  index : Nat
  total : Value

/-- Without an initial value the first element is the total to begin with. -/
def foldStart (ref : ArrayRef) (arguments : List Value) : Eval Fold := do
  let function ← callbackOf .reduce arguments
  match arguments[1]? with
  | some initial => pure ⟨function, 0, initial⟩
  | none =>
      match ((← Eval.heap).arrayAt ref)[0]? with
      | some first => pure ⟨function, 1, first⟩
      | none => Eval.typeError .emptyReduce

def foldItem (ref : ArrayRef) (fold : Fold) : Option Value → Eval (Turn Fold Value)
  | none => pure (.finished fold.total)
  | some item => do
      let total ← Eval.call fold.function
        [fold.total, item, naturalValue fold.index, .array ref]
      pure (.again { fold with index := fold.index + 1, total := total })

/-- Calls back for one element, also for one that a callback has added. -/
def foldTurn (ref : ArrayRef) (fold : Fold) : Eval (Turn Fold Value) := do
  foldItem ref fold ((← Eval.heap).arrayAt ref)[fold.index]?

/-- Appends all arguments, or none of them when they do not fit. -/
def pushAll (ref : ArrayRef) (arguments : List Value) : Eval Value := do
  let size := ((← Eval.heap).arrayAt ref).size
  Eval.checkLength (size + arguments.length)
  Eval.modifyArray ref (· ++ arguments.toArray)
  pure (naturalValue (size + arguments.length))

def popLast (ref : ArrayRef) : Eval Value := do
  let last := ((← Eval.heap).arrayAt ref).back?
  Eval.modifyArray ref Array.pop
  pure (last.getD .undefined)

def fillRange (ref : ArrayRef) (value start stop : Value) : Eval Value := do
  let h ← Eval.heap
  let size := (h.arrayAt ref).size
  let start := relativeIndex h start size 0
  let stop := relativeIndex h stop size size
  Eval.modifyArray ref (filled · start stop value)
  pure (.array ref)

/-- The comma is the separator of string conversion, which keeps cycles and
    the length in check by itself. -/
def joinWith (ref : ArrayRef) (separator : String) : Eval Value := do
  if separator = "," then
    return .string (← Eval.stringify (.array ref))
  else
    return .string (← joinAll (.array ref) separator ((← Eval.heap).arrayAt ref).toList)

def joinText (ref : ArrayRef) (separator : Value) : Eval Value :=
  match separator with
  | .undefined => joinWith ref ","
  | separator => do joinWith ref (← Eval.display separator)

def sliceRange (ref : ArrayRef) (start stop : Value) : Eval Value := do
  let h ← Eval.heap
  let size := (h.arrayAt ref).size
  let start := relativeIndex h start size 0
  let stop := relativeIndex h stop size size
  Eval.newArray ((h.arrayAt ref).extract start stop)

def reverseAll (ref : ArrayRef) : Eval Value := do
  Eval.modifyArray ref Array.reverse
  pure (.array ref)

/-- Visits at most as many elements as there are when it begins. -/
def walkAll (method : ArrayMethod) (ref : ArrayRef) (arguments : List Value) : Eval Value := do
  let size := ((← Eval.heap).arrayAt ref).size
  let function ← callbackOf method arguments
  walk method ref function size 0 #[]

def ArrayMethod.rule (method : ArrayMethod) (ref : ArrayRef) (arguments : List Value) :
    Rule Value :=
  let first := argument arguments 0
  match method with
  | push => .once (pushAll ref arguments)
  | pop => .once (popLast ref)
  | fill => .once (fillRange ref first (argument arguments 1) (argument arguments 2))
  | indexOf => .once do
      pure (positionValue (((← Eval.heap).arrayAt ref).findIdx? (·.strictEquals first)))
  | includes => .once do
      pure (.bool (((← Eval.heap).arrayAt ref).any (·.sameValueZero first)))
  | join => .once (joinText ref first)
  | slice => .once (sliceRange ref first (argument arguments 1))
  | concat => .once do
      Eval.newArray (← concatAll arguments ((← Eval.heap).arrayAt ref))
  | reverse => .once (reverseAll ref)
  | reduce => .repeated (foldStart ref arguments) (foldTurn ref)
  | _ => .once (walkAll method ref arguments)

/-! ## Global functions -/

def listEntry (listing : Listing) (target : Value) (key : String) : Eval Value :=
  match listing with
  | .keys => pure (.string key)
  | .values => Eval.getProperty target key
  | .entries => do Eval.newArray #[.string key, ← Eval.getProperty target key]

/-- The listed form of each property, in the order of the keys. -/
def listEntries (listing : Listing) (target : Value) :
    List String → Array Value → Eval (Array Value)
  | [], found => pure found
  | key :: rest, found => do
      let entry ← listEntry listing target key
      listEntries listing target rest (found.push entry)

def makeArray (arguments : List Value) : Eval Value :=
  match arguments with
  | [.number requested] =>
      match arrayLength? requested with
      | none => Eval.typeError (.arrayLength requested)
      | some length => do
          Eval.checkLength length
          Eval.newArray (Array.replicate length .undefined)
  | _ => do
      Eval.checkLength arguments.length
      Eval.newArray arguments.toArray

def Builtin.apply (builtin : Builtin) (arguments : List Value) : Eval Value := do
  let h ← Eval.heap
  let first := argument arguments 0
  match builtin with
  | makeArray => Script.makeArray arguments
  | makeError =>
      Eval.newObject (errorRecord "Error" (if first.isNullish then "" else first.display h))
  | list listing =>
      if first.isNullish then
        Eval.typeError .objectOfNothing
      else
        Eval.newArray (← listEntries listing first (h.ownKeys first) #[])
  | number function => pure (.number (function.apply (first.toNumber h)))
  | least =>
      pure (.number (extreme (· < ·) Number.infinity (arguments.map (·.toNumber h))))
  | greatest =>
      pure (.number (extreme (· > ·) (-Number.infinity) (arguments.map (·.toNumber h))))
  | power =>
      pure (.number ((first.toNumber h).pow ((argument arguments 1).toNumber h)))
  | random => return .number (← Eval.draw)
  | toText =>
      match arguments with
      | [] => pure (.string "")
      | _ => return .string (← Eval.stringify first)
  | toNumber =>
      match arguments with
      | [] => pure (.number 0.0)
      | _ => pure (.number (first.toNumber h))
  | parseInteger =>
      let radix := Number.toNatWithin (Number.pow2 32 - 1) ((argument arguments 1).toNumber h)
      pure (.number (Script.parseInteger (first.display h) radix))
  | parseDecimal => pure (.number (Script.parseDecimal (first.display h)))
  | isNaN => pure (.bool (first.toNumber h).isNaN)
  | console level =>
      let line := " ".intercalate (arguments.map (·.inspect h))
      Eval.write ⟨level, line, []⟩
      pure .undefined

def numberMethodText (value : Float) (method : NumberMethod) (option : Value) : Eval Value := do
  match method.apply (← Eval.heap) value option with
  | .ok text => pure (.string text)
  | .error fault => Eval.typeError fault

def Bound.rule (method : Bound) (arguments : List Value) : Rule Value :=
  match method with
  | array ref method => method.rule ref arguments
  | string text method => .once (method.apply text arguments)
  | number value method => .once (numberMethodText value method (argument arguments 0))

/-! ## The global scope -/

def mathRecord : Record :=
  [("PI", .number 3.141592653589793), ("abs", .builtin (.number .abs)),
    ("min", .builtin .least), ("max", .builtin .greatest),
    ("floor", .builtin (.number .floor)), ("ceil", .builtin (.number .ceil)),
    ("round", .builtin (.number .round)), ("sqrt", .builtin (.number .sqrt)),
    ("pow", .builtin .power), ("random", .builtin .random)]

def objectRecord : Record :=
  [("keys", .builtin (.list .keys)), ("values", .builtin (.list .values)),
    ("entries", .builtin (.list .entries))]

def consoleRecord : Record :=
  [("log", .builtin (.console .info)), ("warn", .builtin (.console .warn)),
    ("error", .builtin (.console .error))]

def mathRef : ObjectRef := ⟨0⟩
def objectRef : ObjectRef := ⟨1⟩
def consoleRef : ObjectRef := ⟨2⟩

def globalHeap : Heap := ⟨#[], #[mathRecord, objectRecord, consoleRecord]⟩

/-- The names that a script finds bound; it may bind them anew. -/
def globalNames : List (String × Value) :=
  [("Array", .builtin .makeArray), ("Error", .builtin .makeError), ("Object", .object objectRef),
    ("Math", .object mathRef), ("String", .builtin .toText), ("Number", .builtin .toNumber),
    ("parseInt", .builtin .parseInteger), ("parseFloat", .builtin .parseDecimal),
    ("isNaN", .builtin .isNaN), ("NaN", .number Number.notANumber),
    ("Infinity", .number Number.infinity), ("console", .object consoleRef)]

def globalBindings : List (String × Binding) :=
  globalNames.map fun (name, value) => (name, ⟨value, true⟩)

def Machine.fresh (limits : Limits) : Machine where
  scopes := #[⟨globalBindings, none, true⟩]
  heap := globalHeap
  identities := 0
  steps := 0
  depth := 0
  nesting := 0
  thrown := none
  random := .ofSeed limits.randomSeed
  log := #[]

end StrategyQubo.Script
