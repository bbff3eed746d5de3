import StrategyQubo.Log
import StrategyQubo.Script.Syntax

namespace StrategyQubo.Script

/-! # Values

What a script computes with.  Arrays and objects are references into a heap,
so writing through one reference shows through all of them.  Functions carry
the identity that they were made with: two evaluations of the same function
expression give different functions.
-/

/-- The index of a scope in the order in which scopes are made. -/
abbrev ScopeId := Nat

structure ArrayRef where
  index : Nat
  deriving DecidableEq, Repr

structure ObjectRef where
  index : Nat
  deriving DecidableEq, Repr

/-- A function of the script and the scope that it sees. -/
structure Closure where
  identity : Nat
  definition : FunctionDef
  scope : ScopeId

def Closure.name (c : Closure) : Option String :=
  c.definition.name

def Closure.arity (c : Closure) : Nat :=
  c.definition.parameters.length

inductive NumberFunction where
  | abs
  | floor
  | ceil
  | round
  | sqrt
  deriving DecidableEq, Repr

/-- What an object is listed as. -/
inductive Listing where
  | keys
  | values
  | entries
  deriving DecidableEq, Repr

/-- The functions that every script finds in its global scope. -/
inductive Builtin where
  | makeArray
  | makeError
  | list (listing : Listing)
  | number (function : NumberFunction)
  | least
  | greatest
  | power
  | random
  | toText
  | toNumber
  | parseInteger
  | parseDecimal
  | isNaN
  | console (level : LogLevel)
  deriving DecidableEq, Repr

inductive ArrayMethod where
  | push | pop | fill | indexOf | includes | join | slice | concat | reverse
  | map | filter | forEach | some | every | find | findIndex | reduce
  deriving DecidableEq, Repr

inductive StringMethod where
  | split | indexOf | includes | toUpperCase | toLowerCase | trim | slice | charAt
  deriving DecidableEq, Repr

inductive NumberMethod where
  | toFixed
  | toString
  deriving DecidableEq, Repr

/-- A method together with the value that it was read from. -/
inductive Bound where
  | array (ref : ArrayRef) (method : ArrayMethod)
  | string (text : String) (method : StringMethod)
  | number (value : Float) (method : NumberMethod)

inductive Value where
  | undefined
  | null
  | bool (value : Bool)
  | number (value : Float)
  | string (text : String)
  | array (ref : ArrayRef)
  | object (ref : ObjectRef)
  | closure (closure : Closure)
  | builtin (builtin : Builtin)
  | bound (identity : Nat) (method : Bound)

instance : Inhabited Value := ⟨.undefined⟩

namespace ArrayMethod

def all : List ArrayMethod :=
  [push, pop, fill, indexOf, includes, join, slice, concat, map, filter, forEach, reduce, some,
    every, find, findIndex, reverse]

def name : ArrayMethod → String
  | push => "push"
  | pop => "pop"
  | fill => "fill"
  | indexOf => "indexOf"
  | includes => "includes"
  | join => "join"
  | slice => "slice"
  | concat => "concat"
  | reverse => "reverse"
  | map => "map"
  | filter => "filter"
  | forEach => "forEach"
  | some => "some"
  | every => "every"
  | find => "find"
  | findIndex => "findIndex"
  | reduce => "reduce"

def ofName? (name : String) : Option ArrayMethod :=
  all.find? (·.name == name)

end ArrayMethod

namespace StringMethod

def all : List StringMethod :=
  [split, indexOf, includes, toUpperCase, toLowerCase, trim, slice, charAt]

def name : StringMethod → String
  | split => "split"
  | indexOf => "indexOf"
  | includes => "includes"
  | toUpperCase => "toUpperCase"
  | toLowerCase => "toLowerCase"
  | trim => "trim"
  | slice => "slice"
  | charAt => "charAt"

def ofName? (name : String) : Option StringMethod :=
  all.find? (·.name == name)

end StringMethod

namespace NumberMethod

def all : List NumberMethod := [toFixed, toString]

def name : NumberMethod → String
  | toFixed => "toFixed"
  | toString => "toString"

def ofName? (name : String) : Option NumberMethod :=
  all.find? (·.name == name)

end NumberMethod

def Bound.name : Bound → String
  | array _ method => method.name
  | string _ method => method.name
  | number _ method => method.name

def NumberFunction.name : NumberFunction → String
  | abs => "abs"
  | floor => "floor"
  | ceil => "ceil"
  | round => "round"
  | sqrt => "sqrt"

def Listing.name : Listing → String
  | keys => "keys"
  | values => "values"
  | entries => "entries"

def consoleName : LogLevel → String
  | .info => "log"
  | .warn => "warn"
  | .error => "error"

def Builtin.name : Builtin → String
  | makeArray => "Array"
  | makeError => "Error"
  | list listing => listing.name
  | number function => function.name
  | least => "min"
  | greatest => "max"
  | power => "pow"
  | random => "random"
  | toText => "String"
  | toNumber => "Number"
  | parseInteger => "parseInt"
  | parseDecimal => "parseFloat"
  | isNaN => "isNaN"
  | console level => consoleName level

namespace Value

/-- Neither `undefined` nor `null` has properties. -/
def isNullish : Value → Bool
  | undefined => true
  | null => true
  | _ => false

def isCallable : Value → Bool
  | closure _ => true
  | builtin _ => true
  | bound _ _ => true
  | _ => false

def typeName : Value → String
  | undefined => "undefined"
  | null => "object"
  | array _ => "object"
  | object _ => "object"
  | bool _ => "boolean"
  | number _ => "number"
  | string _ => "string"
  | closure _ => "function"
  | builtin _ => "function"
  | bound _ _ => "function"

def truthy : Value → Bool
  | undefined => false
  | null => false
  | bool value => value
  | number value => !(value.isNaN || value == 0.0)
  | string text => !text.isEmpty
  | _ => true

/-- The `===` relation: numbers by value, so that no NaN equals itself;
    arrays, objects and functions by identity. -/
def strictEquals : Value → Value → Bool
  | undefined, undefined => true
  | null, null => true
  | bool a, bool b => a == b
  | number a, number b => a == b
  | string a, string b => a == b
  | array a, array b => a == b
  | object a, object b => a == b
  | closure a, closure b => a.identity == b.identity
  | builtin a, builtin b => a == b
  | bound a _, bound b _ => a == b
  | _, _ => false

/-- The `===` relation, except that NaN equals itself. -/
def sameValueZero (a b : Value) : Bool :=
  match a, b with
  | number x, number y => (x.isNaN && y.isNaN) || x == y
  | _, _ => a.strictEquals b

end Value

end StrategyQubo.Script
