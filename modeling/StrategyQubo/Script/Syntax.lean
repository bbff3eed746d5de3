namespace StrategyQubo.Script

/-! # Syntax trees

Programs of the strategy language as trees, and the names that a statement
declares for the function around it.
-/

inductive Declaration where
  | var
  | lexical
  | constant
  deriving DecidableEq, Repr

inductive UnaryOp where
  | negate
  | plus
  | not
  | typeof
  deriving DecidableEq, Repr

inductive BinaryOp where
  | add | subtract | multiply | divide | remainder | power
  | less | greater | lessEqual | greaterEqual
  | equal | notEqual | strictEqual | strictNotEqual
  | inside
  deriving DecidableEq, Repr

inductive LogicalOp where
  | and
  | or
  | nullish
  deriving DecidableEq, Repr

mutual

inductive Expr where
  | number (value : Float)
  | string (text : String)
  | bool (value : Bool)
  | null
  | undefined
  | template (parts : List TemplatePart)
  | identifier (name : String)
  | array (elements : List Expr)
  | object (properties : List Property)
  | function (definition : FunctionDef)
  | unary (op : UnaryOp) (operand : Expr)
  | update (increment before : Bool) (target : Expr)
  | binary (op : BinaryOp) (left right : Expr)
  | logical (op : LogicalOp) (left right : Expr)
  | conditional (condition consequent alternative : Expr)
  | assign (op : Option BinaryOp) (target value : Expr)
  | member (object : Expr) (property : String)
  | index (object key : Expr)
  | call (callee : Expr) (arguments : List Expr)
  | construct (callee : Expr) (arguments : List Expr)

inductive TemplatePart where
  | text (content : String)
  | hole (value : Expr)

/-- A key known from the source, or one computed when the object is made. -/
inductive PropertyKey where
  | fixed (name : String)
  | computed (value : Expr)

inductive Property where
  | entry (key : PropertyKey) (value : Expr)

/-- The body of an arrow function may be a single expression. -/
inductive FunctionBody where
  | block (statements : List Stmt)
  | expression (value : Expr)

inductive FunctionDef where
  | define (name : Option String) (parameters : List String) (body : FunctionBody)

inductive Declarator where
  | declare (name : String) (initial : Option Expr)

inductive Stmt where
  | declaration (kind : Declaration) (declarators : List Declarator)
  | function (definition : FunctionDef)
  | expression (value : Expr)
  | returnWith (value : Option Expr)
  | ifElse (condition : Expr) (consequent : Stmt) (alternative : Option Stmt)
  | whileLoop (condition : Expr) (body : Stmt)
  | doWhile (body : Stmt) (condition : Expr)
  | forLoop (initial : Option Stmt) (condition update : Option Expr) (body : Stmt)
  | forOf (kind : Option Declaration) (name : String) (iterable : Expr) (body : Stmt)
  | forIn (kind : Option Declaration) (name : String) (object : Expr) (body : Stmt)
  | block (statements : List Stmt)
  | breakLoop
  | continueLoop
  | throwValue (value : Expr)
  | tryBlock (block : List Stmt) (binding : Option String) (handler finalizer : Option (List Stmt))
  | empty

end

namespace FunctionDef

def name : FunctionDef → Option String
  | define name _ _ => name

def parameters : FunctionDef → List String
  | define _ parameters _ => parameters

def body : FunctionDef → FunctionBody
  | define _ _ body => body

end FunctionDef

/-- Only names and properties can be assigned to. -/
def Expr.isAssignable : Expr → Bool
  | .identifier _ => true
  | .member _ _ => true
  | .index _ _ => true
  | _ => false

/-- A short form of a callee for messages. -/
def Expr.description : Expr → String
  | .identifier name => name
  | .member owner property => owner.description ++ "." ++ property
  | .index owner _ => owner.description ++ "[...]"
  | .call inner _ => inner.description ++ "(...)"
  | _ => "expression"

/-! ## Declared names -/

mutual

/-- The names that `var` declares anywhere in the statement outside nested
    functions, in source order. -/
def Stmt.varNames : Stmt → List String
  | .declaration .var declarators => Declarator.namesOf declarators
  | .ifElse _ consequent alternative => consequent.varNames ++ Stmt.varNamesOfOption alternative
  | .whileLoop _ body => body.varNames
  | .doWhile body _ => body.varNames
  | .forLoop initial _ _ body => Stmt.varNamesOfOption initial ++ body.varNames
  | .forOf kind name _ body => (if kind = some .var then [name] else []) ++ body.varNames
  | .forIn kind name _ body => (if kind = some .var then [name] else []) ++ body.varNames
  | .block statements => Stmt.varNamesOfList statements
  | .tryBlock block _ handler finalizer =>
      Stmt.varNamesOfList block ++ Stmt.varNamesOfOptionList handler ++
        Stmt.varNamesOfOptionList finalizer
  | _ => []

def Stmt.varNamesOfOption : Option Stmt → List String
  | none => []
  | some statement => statement.varNames

def Stmt.varNamesOfList : List Stmt → List String
  | [] => []
  | statement :: rest => statement.varNames ++ Stmt.varNamesOfList rest

def Stmt.varNamesOfOptionList : Option (List Stmt) → List String
  | none => []
  | some statements => Stmt.varNamesOfList statements

def Declarator.namesOf : List Declarator → List String
  | [] => []
  | .declare name _ :: rest => name :: Declarator.namesOf rest

end

def Stmt.functionsOf (statements : List Stmt) : List (String × FunctionDef) :=
  statements.filterMap fun
    | .function definition => definition.name.map fun name => (name, definition)
    | _ => none

/-- Whether a statement binds a name in the block that holds it. -/
def Stmt.bindsInBlock : Stmt → Bool
  | .declaration .lexical _ => true
  | .declaration .constant _ => true
  | .function _ => true
  | _ => false

structure Program where
  body : List Stmt

namespace Program

def statementCount (program : Program) : Nat :=
  program.body.length

/-- The names of the functions declared at the top level, in source order. -/
def declaredFunctions (program : Program) : List String :=
  (Stmt.functionsOf program.body).map (·.1)

/-- A heading with the number of statements, then a line for each function. -/
def summary (program : Program) : String :=
  "Script (" ++ toString program.statementCount ++ " statements)\n" ++
    String.join (program.declaredFunctions.map fun name => "  function " ++ name ++ "\n")

end Program

end StrategyQubo.Script
