import StrategyQubo.Script.Syntax
import StrategyQubo.Script.Token

namespace StrategyQubo.Script

/-! # Spelled trees

What the words and the literal texts of a syntax tree are like, all over the
tree.  Texts of templates and keys of objects are left out: evaluation measures
them itself.
-/

/-- Which identifiers a tree has outside the holes of its templates and which
    inside, which texts (string literals and names of functions), and of which
    sources the holes are cut. -/
structure Spelling where
  name : String → Prop
  inner : String → Prop
  text : String → Prop
  source : String → Position → Prop

/-- The holes of a template have identifiers of their own. -/
def Spelling.inHoles (s : Spelling) : Spelling :=
  { s with name := s.inner }

mutual

inductive Expr.Spelled : Spelling → Expr → Prop where
  | number {s} (value : Float) : Expr.Spelled s (.number value)
  | string {s text} (spelled : s.text text) : Expr.Spelled s (.string text)
  | bool {s} (value : Bool) : Expr.Spelled s (.bool value)
  | null {s} : Expr.Spelled s .null
  | undefined {s} : Expr.Spelled s .undefined
  | template {s parts} (spelled : ∀ part ∈ parts, TemplatePart.Spelled s.inHoles part) :
      Expr.Spelled s (.template parts)
  | identifier {s name} (spelled : s.name name) : Expr.Spelled s (.identifier name)
  | array {s elements} (spelled : ∀ element ∈ elements, Expr.Spelled s element) :
      Expr.Spelled s (.array elements)
  | object {s properties} (spelled : ∀ property ∈ properties, Property.Spelled s property) :
      Expr.Spelled s (.object properties)
  | function {s definition} (spelled : FunctionDef.Spelled s definition) :
      Expr.Spelled s (.function definition)
  | unary {s operand} (op : UnaryOp) (spelled : Expr.Spelled s operand) :
      Expr.Spelled s (.unary op operand)
  | update {s target} (increment before : Bool) (spelled : Expr.Spelled s target) :
      Expr.Spelled s (.update increment before target)
  | binary {s left right} (op : BinaryOp) (first : Expr.Spelled s left)
      (second : Expr.Spelled s right) : Expr.Spelled s (.binary op left right)
  | logical {s left right} (op : LogicalOp) (first : Expr.Spelled s left)
      (second : Expr.Spelled s right) : Expr.Spelled s (.logical op left right)
  | conditional {s condition consequent alternative} (decides : Expr.Spelled s condition)
      (first : Expr.Spelled s consequent) (second : Expr.Spelled s alternative) :
      Expr.Spelled s (.conditional condition consequent alternative)
  | assign {s target value} (op : Option BinaryOp) (place : Expr.Spelled s target)
      (spelled : Expr.Spelled s value) : Expr.Spelled s (.assign op target value)
  | member {s object} (property : String) (owner : Expr.Spelled s object) :
      Expr.Spelled s (.member object property)
  | index {s object key} (owner : Expr.Spelled s object) (spelled : Expr.Spelled s key) :
      Expr.Spelled s (.index object key)
  | call {s callee arguments} (function : Expr.Spelled s callee)
      (spelled : ∀ argument ∈ arguments, Expr.Spelled s argument) :
      Expr.Spelled s (.call callee arguments)
  | construct {s callee arguments} (function : Expr.Spelled s callee)
      (spelled : ∀ argument ∈ arguments, Expr.Spelled s argument) :
      Expr.Spelled s (.construct callee arguments)

inductive TemplatePart.Spelled : Spelling → TemplatePart → Prop where
  | text {s} (content : String) : TemplatePart.Spelled s (.text content)
  | hole {s value} (spelled : Expr.Spelled s value) : TemplatePart.Spelled s (.hole value)

inductive PropertyKey.Spelled : Spelling → PropertyKey → Prop where
  | fixed {s} (name : String) : PropertyKey.Spelled s (.fixed name)
  | computed {s value} (spelled : Expr.Spelled s value) : PropertyKey.Spelled s (.computed value)

inductive Property.Spelled : Spelling → Property → Prop where
  | entry {s key value} (named : PropertyKey.Spelled s key) (spelled : Expr.Spelled s value) :
      Property.Spelled s (.entry key value)

inductive FunctionBody.Spelled : Spelling → FunctionBody → Prop where
  | block {s statements} (spelled : ∀ statement ∈ statements, Stmt.Spelled s statement) :
      FunctionBody.Spelled s (.block statements)
  | expression {s value} (spelled : Expr.Spelled s value) :
      FunctionBody.Spelled s (.expression value)

inductive FunctionDef.Spelled : Spelling → FunctionDef → Prop where
  | define {s name body} (parameters : List String) (named : ∀ text ∈ name, s.text text)
      (spelled : FunctionBody.Spelled s body) : FunctionDef.Spelled s (.define name parameters body)

inductive Declarator.Spelled : Spelling → Declarator → Prop where
  | declare {s initial} (name : String) (spelled : ∀ value ∈ initial, Expr.Spelled s value) :
      Declarator.Spelled s (.declare name initial)

inductive Stmt.Spelled : Spelling → Stmt → Prop where
  | declaration {s declarators} (kind : Declaration)
      (spelled : ∀ declarator ∈ declarators, Declarator.Spelled s declarator) :
      Stmt.Spelled s (.declaration kind declarators)
  | function {s definition} (spelled : FunctionDef.Spelled s definition) :
      Stmt.Spelled s (.function definition)
  | expression {s value} (spelled : Expr.Spelled s value) : Stmt.Spelled s (.expression value)
  | returnWith {s value} (spelled : ∀ result ∈ value, Expr.Spelled s result) :
      Stmt.Spelled s (.returnWith value)
  | ifElse {s condition consequent alternative} (decides : Expr.Spelled s condition)
      (first : Stmt.Spelled s consequent) (second : ∀ other ∈ alternative, Stmt.Spelled s other) :
      Stmt.Spelled s (.ifElse condition consequent alternative)
  | whileLoop {s condition body} (decides : Expr.Spelled s condition)
      (spelled : Stmt.Spelled s body) : Stmt.Spelled s (.whileLoop condition body)
  | doWhile {s body condition} (spelled : Stmt.Spelled s body)
      (decides : Expr.Spelled s condition) : Stmt.Spelled s (.doWhile body condition)
  | forLoop {s initial condition update body}
      (starts : ∀ statement ∈ initial, Stmt.Spelled s statement)
      (decides : ∀ value ∈ condition, Expr.Spelled s value)
      (updates : ∀ value ∈ update, Expr.Spelled s value) (spelled : Stmt.Spelled s body) :
      Stmt.Spelled s (.forLoop initial condition update body)
  | forOf {s kind name iterable body} (assigns : kind = none → s.name name)
      (walks : Expr.Spelled s iterable) (spelled : Stmt.Spelled s body) :
      Stmt.Spelled s (.forOf kind name iterable body)
  | forIn {s kind name object body} (assigns : kind = none → s.name name)
      (walks : Expr.Spelled s object) (spelled : Stmt.Spelled s body) :
      Stmt.Spelled s (.forIn kind name object body)
  | block {s statements} (spelled : ∀ statement ∈ statements, Stmt.Spelled s statement) :
      Stmt.Spelled s (.block statements)
  | breakLoop {s} : Stmt.Spelled s .breakLoop
  | continueLoop {s} : Stmt.Spelled s .continueLoop
  | throwValue {s value} (spelled : Expr.Spelled s value) : Stmt.Spelled s (.throwValue value)
  | tryBlock {s block handler finalizer} (binding : Option String)
      (tries : ∀ statement ∈ block, Stmt.Spelled s statement)
      (handles : ∀ statements ∈ handler, ∀ statement ∈ statements, Stmt.Spelled s statement)
      (ends : ∀ statements ∈ finalizer, ∀ statement ∈ statements, Stmt.Spelled s statement) :
      Stmt.Spelled s (.tryBlock block binding handler finalizer)
  | empty {s} : Stmt.Spelled s .empty

end

section

variable {s : Spelling}

theorem FunctionDef.Spelled.name {definition : FunctionDef} (spelled : definition.Spelled s) :
    ∀ text ∈ definition.name, s.text text := by
  obtain ⟨_, named, -⟩ := spelled
  exact named

theorem FunctionDef.Spelled.body {definition : FunctionDef} (spelled : definition.Spelled s) :
    definition.body.Spelled s := by
  obtain ⟨_, -, body⟩ := spelled
  exact body

theorem Stmt.functionsOf_spelled {statements : List Stmt}
    (spelled : ∀ statement ∈ statements, statement.Spelled s) :
    ∀ entry ∈ Stmt.functionsOf statements, entry.2.Spelled s := by
  intro entry member
  obtain ⟨statement, found, same⟩ := List.mem_filterMap.mp member
  cases spelled statement found with
  | function definition =>
      obtain ⟨name, -, rfl⟩ := Option.map_eq_some_iff.mp same
      exact definition
  | _ => cases same

end

/-! ## Lenient spellings -/

/-- Every name and every text will do. -/
structure Spelling.Lenient (s : Spelling) : Prop where
  names : ∀ name, s.name name
  inners : ∀ name, s.inner name
  texts : ∀ text, s.text text

theorem Spelling.Lenient.inHoles {s : Spelling} (all : s.Lenient) : s.inHoles.Lenient :=
  ⟨all.inners, all.inners, all.texts⟩

mutual

theorem Expr.spelled_of_lenient {s : Spelling} (all : s.Lenient) (form : Expr) :
    form.Spelled s :=
  match form with
  | .number value => .number value
  | .string text => .string (all.texts text)
  | .bool value => .bool value
  | .null => .null
  | .undefined => .undefined
  | .template parts => .template fun part _ =>
      TemplatePart.spelled_of_lenient all.inHoles part
  | .identifier name => .identifier (all.names name)
  | .array elements => .array fun element _ => element.spelled_of_lenient all
  | .object properties => .object fun property _ => property.spelled_of_lenient all
  | .function definition => .function (definition.spelled_of_lenient all)
  | .unary op operand => .unary op (operand.spelled_of_lenient all)
  | .update increment before target => .update increment before (target.spelled_of_lenient all)
  | .binary op left right =>
      .binary op (left.spelled_of_lenient all) (right.spelled_of_lenient all)
  | .logical op left right =>
      .logical op (left.spelled_of_lenient all) (right.spelled_of_lenient all)
  | .conditional condition consequent alternative =>
      .conditional (condition.spelled_of_lenient all) (consequent.spelled_of_lenient all)
        (alternative.spelled_of_lenient all)
  | .assign op target value =>
      .assign op (target.spelled_of_lenient all) (value.spelled_of_lenient all)
  | .member object property => .member property (object.spelled_of_lenient all)
  | .index object key =>
      .index (object.spelled_of_lenient all) (key.spelled_of_lenient all)
  | .call callee arguments =>
      .call (callee.spelled_of_lenient all) fun argument _ => argument.spelled_of_lenient all
  | .construct callee arguments =>
      .construct (callee.spelled_of_lenient all) fun argument _ =>
        argument.spelled_of_lenient all
termination_by sizeOf form

theorem TemplatePart.spelled_of_lenient {s : Spelling} (all : s.Lenient) (part : TemplatePart) :
    part.Spelled s :=
  match part with
  | .text content => .text content
  | .hole value => .hole (value.spelled_of_lenient all)
termination_by sizeOf part

theorem PropertyKey.spelled_of_lenient {s : Spelling} (all : s.Lenient) (key : PropertyKey) :
    key.Spelled s :=
  match key with
  | .fixed name => .fixed name
  | .computed value => .computed (value.spelled_of_lenient all)
termination_by sizeOf key

theorem Property.spelled_of_lenient {s : Spelling} (all : s.Lenient) (property : Property) :
    property.Spelled s :=
  match property with
  | .entry key value => .entry (key.spelled_of_lenient all) (value.spelled_of_lenient all)
termination_by sizeOf property

theorem FunctionBody.spelled_of_lenient {s : Spelling} (all : s.Lenient) (body : FunctionBody) :
    body.Spelled s :=
  match body with
  | .block statements => .block fun statement _ => statement.spelled_of_lenient all
  | .expression value => .expression (value.spelled_of_lenient all)
termination_by sizeOf body

theorem FunctionDef.spelled_of_lenient {s : Spelling} (all : s.Lenient) (definition : FunctionDef) :
    definition.Spelled s :=
  match definition with
  | .define _ parameters body =>
      .define parameters (fun text _ => all.texts text) (body.spelled_of_lenient all)
termination_by sizeOf definition

theorem Declarator.spelled_of_lenient {s : Spelling} (all : s.Lenient)
    (declarator : Declarator) : declarator.Spelled s :=
  match declarator with
  | .declare name none => .declare name nofun
  | .declare name (some value) => .declare name fun _ same =>
      Option.mem_some_iff.mp same ▸ value.spelled_of_lenient all
termination_by sizeOf declarator

theorem Stmt.spelled_of_lenient {s : Spelling} (all : s.Lenient) (statement : Stmt) :
    statement.Spelled s :=
  match statement with
  | .declaration kind declarators => .declaration kind fun declarator _ =>
      declarator.spelled_of_lenient all
  | .function definition => .function (definition.spelled_of_lenient all)
  | .expression value => .expression (value.spelled_of_lenient all)
  | .returnWith value => .returnWith fun result _ => result.spelled_of_lenient all
  | .ifElse condition consequent alternative =>
      .ifElse (condition.spelled_of_lenient all) (consequent.spelled_of_lenient all)
        fun other _ => other.spelled_of_lenient all
  | .whileLoop condition body =>
      .whileLoop (condition.spelled_of_lenient all) (body.spelled_of_lenient all)
  | .doWhile body condition =>
      .doWhile (body.spelled_of_lenient all) (condition.spelled_of_lenient all)
  | .forLoop initial condition update body =>
      .forLoop (fun statement _ => statement.spelled_of_lenient all)
        (fun value _ => value.spelled_of_lenient all)
        (fun value _ => value.spelled_of_lenient all) (body.spelled_of_lenient all)
  | .forOf _ name iterable body =>
      .forOf (fun _ => all.names name) (iterable.spelled_of_lenient all) (body.spelled_of_lenient all)
  | .forIn _ name object body =>
      .forIn (fun _ => all.names name) (object.spelled_of_lenient all) (body.spelled_of_lenient all)
  | .block statements => .block fun statement _ => statement.spelled_of_lenient all
  | .breakLoop => .breakLoop
  | .continueLoop => .continueLoop
  | .throwValue value => .throwValue (value.spelled_of_lenient all)
  | .tryBlock block binding handler finalizer =>
      .tryBlock binding (fun statement _ => statement.spelled_of_lenient all)
        (fun statements _ statement _ => statement.spelled_of_lenient all)
        (fun statements _ statement _ => statement.spelled_of_lenient all)
  | .empty => .empty
termination_by sizeOf statement
decreasing_by
  -- What an optional part is has to be known before it is seen to be smaller.
  all_goals try simp only [Option.mem_def] at *
  all_goals subst_vars
  all_goals decreasing_tactic

end

end StrategyQubo.Script
