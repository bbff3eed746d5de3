import StrategyQubo.Proofs.TokensWithin
import StrategyQubo.Proofs.WrittenSums

namespace StrategyQubo

open StrategyQubo.Script

/-! # Depths of syntax trees

Every level of the grammar adds a few nodes to a way down a tree, except on the
left: operators and accesses are gathered by loops, which put what is read so
far under a new node each turn.
-/

namespace Script

/-! ## Depths -/

mutual

/-- Nodes on the longest way down: expressions, statements and functions.  A
    step to what an operator, an access or a call stands behind counts
    `leftward`. -/
def Expr.depth (leftward : Nat) : Expr → Nat
  | .template parts => TemplatePart.depthOf leftward parts + 1
  | .array elements => Expr.depthOf leftward elements + 1
  | .object properties => Property.depthOf leftward properties + 1
  | .function definition => definition.depth leftward + 1
  | .unary _ operand => operand.depth leftward + 1
  | .update _ _ target => target.depth leftward + 1
  | .binary _ left right => max (left.depth leftward + leftward) (right.depth leftward + 1)
  | .logical _ left right => max (left.depth leftward + leftward) (right.depth leftward + 1)
  | .conditional condition consequent alternative =>
      max (condition.depth leftward)
        (max (consequent.depth leftward) (alternative.depth leftward)) + 1
  | .assign _ target value => max (target.depth leftward) (value.depth leftward) + 1
  | .member object _ => object.depth leftward + leftward
  | .index object key => max (object.depth leftward + leftward) (key.depth leftward + 1)
  | .call callee arguments =>
      max (callee.depth leftward + leftward) (Expr.depthOf leftward arguments + 1)
  | .construct callee arguments =>
      max (callee.depth leftward) (Expr.depthOf leftward arguments) + 1
  | _ => 1

def Expr.depthOf (leftward : Nat) : List Expr → Nat
  | [] => 0
  | first :: rest => max (first.depth leftward) (Expr.depthOf leftward rest)

def TemplatePart.depth (leftward : Nat) : TemplatePart → Nat
  | .text _ => 0
  | .hole value => value.depth leftward

def TemplatePart.depthOf (leftward : Nat) : List TemplatePart → Nat
  | [] => 0
  | first :: rest => max (first.depth leftward) (TemplatePart.depthOf leftward rest)

def PropertyKey.depth (leftward : Nat) : PropertyKey → Nat
  | .fixed _ => 0
  | .computed value => value.depth leftward

def Property.depth (leftward : Nat) : Property → Nat
  | .entry key value => max (key.depth leftward) (value.depth leftward)

def Property.depthOf (leftward : Nat) : List Property → Nat
  | [] => 0
  | first :: rest => max (first.depth leftward) (Property.depthOf leftward rest)

def FunctionBody.depth (leftward : Nat) : FunctionBody → Nat
  | .block statements => Stmt.depthOf leftward statements
  | .expression value => value.depth leftward

def FunctionDef.depth (leftward : Nat) : FunctionDef → Nat
  | .define _ _ body => body.depth leftward + 1

def Declarator.depth (leftward : Nat) : Declarator → Nat
  | .declare _ none => 0
  | .declare _ (some value) => value.depth leftward

def Declarator.depthOf (leftward : Nat) : List Declarator → Nat
  | [] => 0
  | first :: rest => max (first.depth leftward) (Declarator.depthOf leftward rest)

def Stmt.depth (leftward : Nat) : Stmt → Nat
  | .declaration _ declarators => Declarator.depthOf leftward declarators + 1
  | .function definition => definition.depth leftward + 1
  | .expression value => value.depth leftward + 1
  | .returnWith value => Expr.depthOfOption leftward value + 1
  | .ifElse condition consequent alternative =>
      max (condition.depth leftward)
        (max (consequent.depth leftward) (Stmt.depthOfOption leftward alternative)) + 1
  | .whileLoop condition body => max (condition.depth leftward) (body.depth leftward) + 1
  | .doWhile body condition => max (body.depth leftward) (condition.depth leftward) + 1
  | .forLoop initial condition update body =>
      max (max (Stmt.depthOfOption leftward initial) (Expr.depthOfOption leftward condition))
        (max (Expr.depthOfOption leftward update) (body.depth leftward)) + 1
  | .forOf _ _ iterable body => max (iterable.depth leftward) (body.depth leftward) + 1
  | .forIn _ _ object body => max (object.depth leftward) (body.depth leftward) + 1
  | .block statements => Stmt.depthOf leftward statements + 1
  | .throwValue value => value.depth leftward + 1
  | .tryBlock block _ handler finalizer =>
      max (Stmt.depthOf leftward block)
        (max (Stmt.depthOfOptionList leftward handler)
          (Stmt.depthOfOptionList leftward finalizer)) + 1
  | _ => 1

def Expr.depthOfOption (leftward : Nat) : Option Expr → Nat
  | none => 0
  | some value => value.depth leftward

def Stmt.depthOfOption (leftward : Nat) : Option Stmt → Nat
  | none => 0
  | some statement => statement.depth leftward

def Stmt.depthOf (leftward : Nat) : List Stmt → Nat
  | [] => 0
  | first :: rest => max (first.depth leftward) (Stmt.depthOf leftward rest)

def Stmt.depthOfOptionList (leftward : Nat) : Option (List Stmt) → Nat
  | none => 0
  | some statements => Stmt.depthOf leftward statements

end

/-! ### Statements in statements -/

mutual

/-- How deep statements stand in each other, functions aside: how deep the walk
    goes that collects the names declared by `var`. -/
def Stmt.nesting : Stmt → Nat
  | .ifElse _ consequent alternative =>
      max consequent.nesting (Stmt.nestingOfOption alternative) + 1
  | .whileLoop _ body => body.nesting + 1
  | .doWhile body _ => body.nesting + 1
  | .forLoop initial _ _ body => max (Stmt.nestingOfOption initial) body.nesting + 1
  | .forOf _ _ _ body => body.nesting + 1
  | .forIn _ _ _ body => body.nesting + 1
  | .block statements => Stmt.nestingOf statements + 1
  | .tryBlock tried _ handler finalizer =>
      max (Stmt.nestingOf tried)
        (max (Stmt.nestingOfOptionList handler) (Stmt.nestingOfOptionList finalizer)) + 1
  | _ => 1

def Stmt.nestingOfOption : Option Stmt → Nat
  | none => 0
  | some statement => statement.nesting

def Stmt.nestingOf : List Stmt → Nat
  | [] => 0
  | first :: rest => max first.nesting (Stmt.nestingOf rest)

def Stmt.nestingOfOptionList : Option (List Stmt) → Nat
  | none => 0
  | some statements => Stmt.nestingOf statements

end

mutual

/-- Statements never stand to the left of anything. -/
theorem Stmt.nesting_le_depth (leftward : Nat) :
    ∀ statement : Stmt, statement.nesting ≤ statement.depth leftward
  | .ifElse _ consequent alternative => by
      have first := consequent.nesting_le_depth leftward
      have second := Stmt.nestingOfOption_le_depth leftward alternative
      simp only [nesting, depth]
      omega
  | .whileLoop _ body => by
      have inner := body.nesting_le_depth leftward
      simp only [nesting, depth]
      omega
  | .doWhile body _ => by
      have inner := body.nesting_le_depth leftward
      simp only [nesting, depth]
      omega
  | .forLoop initial _ _ body => by
      have starts := Stmt.nestingOfOption_le_depth leftward initial
      have inner := body.nesting_le_depth leftward
      simp only [nesting, depth]
      omega
  | .forOf _ _ _ body => by
      have inner := body.nesting_le_depth leftward
      simp only [nesting, depth]
      omega
  | .forIn _ _ _ body => by
      have inner := body.nesting_le_depth leftward
      simp only [nesting, depth]
      omega
  | .block statements => Nat.succ_le_succ (Stmt.nestingOf_le_depth leftward statements)
  | .tryBlock tried _ handler finalizer => by
      have tries := Stmt.nestingOf_le_depth leftward tried
      have handles := Stmt.nestingOfOptionList_le_depth leftward handler
      have ends := Stmt.nestingOfOptionList_le_depth leftward finalizer
      simp only [nesting, depth]
      omega
  | .declaration .. => Nat.le_add_left ..
  | .function .. => Nat.le_add_left ..
  | .expression .. => Nat.le_add_left ..
  | .returnWith .. => Nat.le_add_left ..
  | .throwValue .. => Nat.le_add_left ..
  | .breakLoop => Nat.le_refl _
  | .continueLoop => Nat.le_refl _
  | .empty => Nat.le_refl _

theorem Stmt.nestingOfOption_le_depth (leftward : Nat) :
    ∀ statement : Option Stmt, nestingOfOption statement ≤ depthOfOption leftward statement
  | none => Nat.le_refl _
  | some statement => statement.nesting_le_depth leftward

theorem Stmt.nestingOf_le_depth (leftward : Nat) :
    ∀ statements : List Stmt, nestingOf statements ≤ depthOf leftward statements
  | [] => Nat.le_refl _
  | first :: rest => by
      have one := first.nesting_le_depth leftward
      have others := Stmt.nestingOf_le_depth leftward rest
      simp only [nestingOf, depthOf]
      omega

theorem Stmt.nestingOfOptionList_le_depth (leftward : Nat) :
    ∀ statements : Option (List Stmt),
      nestingOfOptionList statements ≤ depthOfOptionList leftward statements
  | none => Nat.le_refl _
  | some statements => Stmt.nestingOf_le_depth leftward statements

end

/-! ### Bounds -/

/-- A measure of lists that is the greatest of their items. -/
theorem greatest_le_iff {α : Type} {measure : α → Nat} {greatest : List α → Nat} {limit : Nat}
    (nil : greatest [] = 0)
    (cons : ∀ first rest, greatest (first :: rest) = max (measure first) (greatest rest))
    (items : List α) : greatest items ≤ limit ↔ ∀ item ∈ items, measure item ≤ limit := by
  induction items with
  | nil => simp [nil]
  | cons first rest ih => rw [cons, Nat.max_le, ih, List.forall_mem_cons]

variable {limit : Nat}

theorem Expr.depthOf_le_iff (values : List Expr) :
    Expr.depthOf 0 values ≤ limit ↔ ∀ value ∈ values, value.depth 0 ≤ limit :=
  greatest_le_iff rfl (fun _ _ => rfl) values

theorem TemplatePart.depthOf_le_iff (parts : List TemplatePart) :
    TemplatePart.depthOf 0 parts ≤ limit ↔ ∀ part ∈ parts, part.depth 0 ≤ limit :=
  greatest_le_iff rfl (fun _ _ => rfl) parts

theorem Property.depthOf_le_iff (properties : List Property) :
    Property.depthOf 0 properties ≤ limit ↔ ∀ property ∈ properties, property.depth 0 ≤ limit :=
  greatest_le_iff rfl (fun _ _ => rfl) properties

theorem Declarator.depthOf_le_iff (declarators : List Declarator) :
    Declarator.depthOf 0 declarators ≤ limit ↔
      ∀ declarator ∈ declarators, declarator.depth 0 ≤ limit :=
  greatest_le_iff rfl (fun _ _ => rfl) declarators

theorem Stmt.depthOf_le_iff (statements : List Stmt) :
    Stmt.depthOf 0 statements ≤ limit ↔ ∀ statement ∈ statements, statement.depth 0 ≤ limit :=
  greatest_le_iff rfl (fun _ _ => rfl) statements

/-! ## What parsers make -/

namespace Parse

variable {α β : Type} {expected : α → Prop} {expected' : β → Prop}

/-- Whatever the parser answers is as expected. -/
def Yields (expected : α → Prop) (parse : Parse α) : Prop :=
  ∀ c a c', parse c = .ok (a, c') → expected a

theorem Yields.pure {a : α} (good : expected a) : Yields expected (pure a : Parse α) := by
  rintro c _ _ ⟨⟩
  exact good

theorem Yields.bind {parse : Parse α} {next : α → Parse β} (first : Yields expected parse)
    (later : ∀ a, expected a → Yields expected' (next a)) : Yields expected' (parse >>= next) := by
  intro c b c'' ran
  obtain ⟨a, c', parsed, ran⟩ := StateT.exists_of_bind_ok ran
  exact later a (first c a c' parsed) c' b c'' ran

/-- What is read first does not matter. -/
theorem yields_behind {parse : Parse α} {next : α → Parse β}
    (later : ∀ a, Yields expected' (next a)) : Yields expected' (parse >>= next) :=
  have anything : Yields (fun _ => True) parse := fun _ _ _ _ => trivial
  anything.bind fun a _ => later a

theorem yields_of_fails {parse : Parse α} {error : Cursor → ScriptError}
    (fails : ∀ c, parse c = .error (error c)) : Yields expected parse := by
  intro c a c' ran
  cases (fails c).symm.trans ran

theorem unexpected_yields (what : String) : Yields expected (unexpected what : Parse α) :=
  yields_of_fails fun _ => rfl

theorem unexpectedBefore_yields (what : String) :
    Yields expected (unexpectedBefore what : Parse α) :=
  yields_of_fails fun _ => rfl

theorem Yields.mono {parse : Parse α} {wanted : α → Prop} (yields : Yields expected parse)
    (enough : ∀ a, expected a → wanted a) : Yields wanted parse :=
  fun c a c' ran => enough a (yields c a c' ran)

theorem Yields.allowingIn {parse : Parse α} (yields : Yields expected parse) :
    Yields expected (Parse.allowingIn parse) :=
  yields_behind fun _ => yields_behind fun _ => yields.bind fun _ good =>
    yields_behind fun _ => .pure good

/-- A hole has tokens of its own. -/
theorem apart_yields {run : Except ScriptError α} (good : ∀ a, run = .ok a → expected a) :
    Yields expected fun c => run.map fun a => (a, c) := by
  intro c a c' ran
  cases run with
  | error error => cases ran
  | ok a =>
      cases ran
      exact good a rfl

theorem Yields.run' {parse : Parse α} (yields : Yields expected parse) {c : Cursor} {a : α}
    (ran : parse.run' c = .ok a) : expected a := by
  change (parse c).map Prod.fst = .ok a at ran
  cases outcome : parse c with
  | error error =>
      rw [outcome] at ran
      cases ran
  | ok after =>
      rw [outcome] at ran
      cases ran
      exact yields c after.1 after.2 outcome

end Parse

open Parse

/-- The trees of nested constructs are no deeper than the limit, to the left
    aside. -/
structure Grammar.Shallow (limit : Nat) (g : Grammar) : Prop where
  statement : Yields (fun statement => statement.depth 0 ≤ limit) g.statement
  block : Yields (fun body => ∀ statement ∈ body, statement.depth 0 ≤ limit) g.block
  expression : Yields (fun value => value.depth 0 ≤ limit) g.expression
  assignment : Yields (fun value => value.depth 0 ≤ limit) g.assignment
  operators : ∀ floor, Yields (fun value => value.depth 0 ≤ limit) (g.operators floor)
  operand : Yields (fun value => value.depth 0 ≤ limit) g.operand
  arguments : Yields (fun values => ∀ value ∈ values, value.depth 0 ≤ limit) g.arguments
  arrayLiteral : Yields (fun value => value.depth 0 ≤ limit) g.arrayLiteral
  objectLiteral : Yields (fun value => value.depth 0 ≤ limit) g.objectLiteral

variable {g : Grammar}

/-! ### Lists and functions -/

theorem expressionList_shallow (shallow : g.Shallow limit) (close : Mark) (bound : Nat)
    {found : List Expr} (before : ∀ value ∈ found, value.depth 0 ≤ limit) :
    Yields (fun values => ∀ value ∈ values, value.depth 0 ≤ limit)
      (expressionList g close bound found) := by
  induction bound generalizing found with
  | zero => exact .pure (forall_mem_reversed before)
  | succ bound ih =>
      unfold expressionList
      refine yields_behind fun closed => ?_
      split
      · exact .pure (forall_mem_reversed before)
      · refine shallow.assignment.bind fun element first => yields_behind fun more => ?_
        have all : ∀ value ∈ element :: found, value.depth 0 ≤ limit :=
          List.forall_mem_cons.mpr ⟨first, before⟩
        split
        · exact ih all
        · exact .pure (forall_mem_reversed all)

theorem functionRest_shallow (shallow : g.Shallow limit) (nameRequired : Bool) :
    Yields (fun definition => definition.depth 0 ≤ limit + 1) (functionRest g nameRequired) := by
  have rest (name : Option String) :
      Yields (fun definition => definition.depth 0 ≤ limit + 1) (do
        let parameters ← parameterList
        let body ← g.block
        pure (FunctionDef.define name parameters (.block body))) :=
    yields_behind fun parameters => shallow.block.bind fun body small =>
      .pure (Nat.succ_le_succ ((Stmt.depthOf_le_iff body).mpr small))
  unfold functionRest
  refine yields_behind fun l => ?_
  dsimp only
  split
  · exact yields_behind fun _ => rest _
  · split
    · exact yields_behind rest
    · exact rest none

theorem arrowFunction_shallow (shallow : g.Shallow limit) :
    Yields (fun value => value.depth 0 ≤ limit + 2) (arrowFunction g) := by
  unfold arrowFunction
  refine yields_behind fun parameters => yields_behind fun _ => yields_behind fun block => ?_
  split
  · exact shallow.block.bind fun body small =>
      .pure (Nat.add_le_add_right ((Stmt.depthOf_le_iff body).mpr small) 2)
  · exact shallow.assignment.bind fun value small => .pure (Nat.add_le_add_right small 2)

/-! ### Literals -/

theorem templateParts_shallow (shallow : g.Shallow limit) (chunks : List Chunk)
    {found : List TemplatePart} (before : ∀ part ∈ found, part.depth 0 ≤ limit) :
    Yields (fun parts => ∀ part ∈ parts, part.depth 0 ≤ limit)
      (templateParts g chunks found) := by
  induction chunks generalizing found with
  | nil => exact .pure (forall_mem_reversed before)
  | cons chunk rest ih =>
      cases chunk with
      | text content => exact ih (List.forall_mem_cons.mpr ⟨Nat.zero_le _, before⟩)
      | code source start =>
          unfold templateParts
          refine yields_behind fun tokens => ?_
          have hole : Yields (fun value => value.depth 0 ≤ limit) (do
              let value ← g.expression
              if ← atEnd then pure value
              else unexpected "'\x7d' closing template expression") := by
            refine shallow.expression.bind fun value small => yields_behind fun ended => ?_
            split
            · exact .pure small
            · exact unexpected_yields _
          exact Yields.bind (apart_yields fun value parsed => hole.run' parsed) fun value small =>
            ih (List.forall_mem_cons.mpr ⟨small, before⟩)

theorem arrayElements_shallow (shallow : g.Shallow limit) :
    Yields (fun value => value.depth 0 ≤ limit + 1) (arrayElements g) := by
  unfold arrayElements
  refine (Yields.allowingIn (yields_behind fun bound =>
    expressionList_shallow shallow .closeBracket bound (List.forall_mem_nil _))).bind
      fun elements small => ?_
  exact yields_behind fun _ => .pure (Nat.succ_le_succ ((Expr.depthOf_le_iff elements).mpr small))

theorem objectKey_shallow (shallow : g.Shallow limit) :
    Yields (fun key => key.1.depth 0 ≤ limit) (objectKey g) := by
  unfold objectKey
  refine yields_behind fun token => ?_
  split
  · exact .pure (Nat.zero_le _)
  · exact .pure (Nat.zero_le _)
  · exact .pure (Nat.zero_le _)
  · exact .pure (Nat.zero_le _)
  · exact shallow.assignment.bind fun key small => yields_behind fun _ => .pure small
  · exact unexpectedBefore_yields _

theorem propertyValue_shallow (shallow : g.Shallow limit) (key : PropertyKey)
    (shorthand : Option String) :
    Yields (fun value => value.depth 0 ≤ limit + 2) (propertyValue g key shorthand) := by
  unfold propertyValue
  refine yields_behind fun colon => ?_
  split
  · exact shallow.assignment.mono fun value small => by omega
  · refine yields_behind fun parens => ?_
    split
    · exact yields_behind fun parameters => shallow.block.bind fun body small =>
        .pure (Nat.add_le_add_right ((Stmt.depthOf_le_iff body).mpr small) 2)
    · split
      · exact .pure (Nat.le_add_left 1 (limit + 1))
      · exact unexpected_yields _

theorem properties_shallow (shallow : g.Shallow limit) (bound : Nat) {found : List Property}
    (before : ∀ property ∈ found, property.depth 0 ≤ limit + 2) :
    Yields (fun entries => ∀ property ∈ entries, property.depth 0 ≤ limit + 2)
      (properties g bound found) := by
  induction bound generalizing found with
  | zero => exact .pure (forall_mem_reversed before)
  | succ bound ih =>
      unfold properties
      refine yields_behind fun closed => ?_
      split
      · exact .pure (forall_mem_reversed before)
      · refine (objectKey_shallow shallow).bind fun key keySmall =>
          (propertyValue_shallow shallow key.1 key.2).bind fun value small =>
            yields_behind fun more => ?_
        have entry : (Property.entry key.1 value).depth 0 ≤ limit + 2 :=
          Nat.max_le.mpr ⟨Nat.le_add_right_of_le keySmall, small⟩
        have all : ∀ property ∈ .entry key.1 value :: found, property.depth 0 ≤ limit + 2 :=
          List.forall_mem_cons.mpr ⟨entry, before⟩
        split
        · exact ih all
        · exact .pure (forall_mem_reversed all)

theorem objectEntries_shallow (shallow : g.Shallow limit) :
    Yields (fun value => value.depth 0 ≤ limit + 3) (objectEntries g) := by
  unfold objectEntries
  refine (Yields.allowingIn (yields_behind fun bound =>
    properties_shallow shallow bound (List.forall_mem_nil _))).bind fun entries small => ?_
  exact yields_behind fun _ => .pure (Nat.succ_le_succ ((Property.depthOf_le_iff entries).mpr small))

/-! ### Expressions -/

theorem primary_shallow (shallow : g.Shallow limit) :
    Yields (fun value => value.depth 0 ≤ limit + 2) (primary g) := by
  have leaf : 1 ≤ limit + 2 := Nat.le_add_left 1 (limit + 1)
  unfold primary
  refine yields_behind fun token => ?_
  split
  · exact .pure leaf
  · exact .pure leaf
  · next chunks _ =>
    exact (templateParts_shallow shallow chunks (List.forall_mem_nil _)).bind fun parts small =>
      .pure (Nat.succ_le_succ
        (Nat.le_succ_of_le ((TemplatePart.depthOf_le_iff parts).mpr small)))
  · exact .pure leaf
  · exact .pure leaf
  · exact .pure leaf
  · exact .pure leaf
  · exact .pure leaf
  · exact (functionRest_shallow shallow false).bind fun definition small =>
      .pure (Nat.succ_le_succ small)
  · exact shallow.expression.allowingIn.bind fun inner small => yields_behind fun _ =>
      .pure (Nat.le_add_right_of_le small)
  · exact shallow.arrayLiteral.mono fun value small => Nat.le_add_right_of_le small
  · exact shallow.objectLiteral.mono fun value small => Nat.le_add_right_of_le small
  · exact unexpectedBefore_yields _

/-- A chain of names is as deep as what it begins with. -/
theorem memberChain_shallow (bound : Nat) {object : Expr} (small : object.depth 0 ≤ limit) :
    Yields (fun value => value.depth 0 ≤ limit) (memberChain bound object) := by
  induction bound generalizing object with
  | zero => exact .pure small
  | succ bound ih =>
      unfold memberChain
      refine yields_behind fun dot => ?_
      split
      · exact yields_behind fun property => ih small
      · exact .pure small

theorem accessChain_shallow (shallow : g.Shallow limit) (bound : Nat) {value : Expr}
    (small : value.depth 0 ≤ limit + 3) :
    Yields (fun value => value.depth 0 ≤ limit + 3) (accessChain g bound value) := by
  induction bound generalizing value with
  | zero => exact .pure small
  | succ bound ih =>
      unfold accessChain
      refine yields_behind fun dot => ?_
      split
      · exact yields_behind fun property => ih small
      · refine yields_behind fun bracket => ?_
        split
        · exact shallow.expression.allowingIn.bind fun key inner => yields_behind fun _ =>
            ih (Nat.max_le.mpr ⟨small, Nat.add_le_add inner (by decide)⟩)
        · refine yields_behind fun paren => ?_
          split
          · exact shallow.arguments.bind fun arguments inner => ih (Nat.max_le.mpr
              ⟨small, Nat.add_le_add ((Expr.depthOf_le_iff _).mpr inner) (by decide)⟩)
          · exact .pure small

theorem callMember_shallow (shallow : g.Shallow limit) :
    Yields (fun value => value.depth 0 ≤ limit + 3) (callMember g) := by
  unfold callMember
  refine yields_behind fun constructs => ?_
  split
  · refine yields_behind fun bound => (primary_shallow shallow).bind fun first small =>
      (memberChain_shallow bound small).bind fun callee inner => ?_
    have given : Yields (fun values => ∀ value ∈ values, Expr.depth 0 value ≤ limit) (do
        if ← atMark .openParen then g.arguments else pure []) := by
      refine yields_behind fun paren => ?_
      split
      · exact shallow.arguments
      · exact .pure (List.forall_mem_nil _)
    refine given.bind fun arguments passed => yields_behind fun bound =>
      accessChain_shallow shallow bound (Nat.succ_le_succ (Nat.max_le.mpr ⟨inner, ?_⟩))
    exact Nat.le_add_right_of_le ((Expr.depthOf_le_iff arguments).mpr passed)
  · exact yields_behind fun bound => (primary_shallow shallow).bind fun first small =>
      accessChain_shallow shallow bound (Nat.le_succ_of_le small)

theorem postfixUpdate_shallow (shallow : g.Shallow limit) :
    Yields (fun value => value.depth 0 ≤ limit + 4) (postfixUpdate g) := by
  unfold postfixUpdate
  refine (callMember_shallow shallow).bind fun value small => yields_behind fun token => ?_
  split
  · split
    · exact .pure (Nat.le_succ_of_le small)
    · split
      · exact yields_behind fun _ => .pure (Nat.succ_le_succ small)
      · exact unexpected_yields _
  · exact .pure (Nat.le_succ_of_le small)

theorem unaryExpression_shallow (shallow : g.Shallow limit) :
    Yields (fun value => value.depth 0 ≤ limit + 4) (unaryExpression g) := by
  unfold unaryExpression
  refine yields_behind fun l => ?_
  split
  · exact yields_behind fun _ => shallow.operand.bind fun operand small =>
      .pure (Nat.add_le_add small (by decide))
  · refine yields_behind fun _ => shallow.operand.bind fun target small => ?_
    split
    · exact .pure (Nat.add_le_add small (by decide))
    · exact unexpected_yields _
  · exact postfixUpdate_shallow shallow

theorem InfixOp.depth_apply (op : InfixOp) (left right : Expr) :
    (op.apply left right).depth 0 = max (left.depth 0) (right.depth 0 + 1) := by
  cases op <;> rfl

/-- However many operators follow each other, only right operands are deeper. -/
theorem operatorsAfter_shallow (shallow : g.Shallow limit) (floor bound : Nat) {left : Expr}
    (small : left.depth 0 ≤ limit + 4) :
    Yields (fun value => value.depth 0 ≤ limit + 4) (operatorsAfter g floor bound left) := by
  induction bound generalizing left with
  | zero => exact .pure small
  | succ bound ih =>
      unfold operatorsAfter
      refine yields_behind fun l => ?_
      split
      · exact .pure small
      · next precedence op _ =>
        split
        · exact .pure small
        · refine yields_behind fun barred => ?_
          split
          · exact .pure small
          · refine yields_behind fun _ => (shallow.operators _).bind fun right inner => ih ?_
            rw [op.depth_apply]
            exact Nat.max_le.mpr ⟨small, Nat.add_le_add inner (by decide)⟩

theorem operatorExpression_shallow (shallow : g.Shallow limit) (floor : Nat) :
    Yields (fun value => value.depth 0 ≤ limit + 4) (operatorExpression g floor) := by
  unfold operatorExpression
  exact (unaryExpression_shallow shallow).bind fun left small => yields_behind fun bound =>
    operatorsAfter_shallow shallow floor bound small

theorem conditionalExpression_shallow (shallow : g.Shallow limit) :
    Yields (fun value => value.depth 0 ≤ limit + 5) (conditionalExpression g) := by
  unfold conditionalExpression
  refine (operatorExpression_shallow shallow 0).bind fun condition decides =>
    yields_behind fun question => ?_
  split
  · refine Yields.allowingIn (shallow.assignment.bind fun consequent first =>
      yields_behind fun _ => shallow.assignment.bind fun alternative second => .pure ?_)
    simp only [Expr.depth]
    omega
  · exact .pure (Nat.le_succ_of_le decides)

theorem assignmentExpression_shallow (shallow : g.Shallow limit) :
    Yields (fun value => value.depth 0 ≤ limit + 6) (assignmentExpression g) := by
  unfold assignmentExpression
  refine yields_behind fun arrow => ?_
  split
  · exact (arrowFunction_shallow shallow).mono fun value small => by omega
  · refine (conditionalExpression_shallow shallow).bind fun target place =>
      yields_behind fun l => ?_
    split
    · split
      · refine yields_behind fun _ => shallow.assignment.bind fun value small => .pure ?_
        simp only [Expr.depth]
        omega
      · exact unexpected_yields _
    · exact .pure (Nat.le_succ_of_le place)

theorem argumentList_shallow (shallow : g.Shallow limit) :
    Yields (fun values => ∀ value ∈ values, value.depth 0 ≤ limit) (argumentList g) := by
  unfold argumentList
  refine yields_behind fun _ => (Yields.allowingIn (yields_behind fun bound =>
    expressionList_shallow shallow .closeParen bound (List.forall_mem_nil _))).bind
      fun arguments small => ?_
  exact yields_behind fun _ => .pure small

/-! ### Statements -/

theorem declarators_shallow (shallow : g.Shallow limit) (bound : Nat) {found : List Declarator}
    (before : ∀ declarator ∈ found, declarator.depth 0 ≤ limit) :
    Yields (fun declared => ∀ declarator ∈ declared, declarator.depth 0 ≤ limit)
      (declarators g bound found) := by
  induction bound generalizing found with
  | zero => exact .pure (forall_mem_reversed before)
  | succ bound ih =>
      unfold declarators
      refine yields_behind fun name => ?_
      have initial : Yields (fun initial => (Declarator.declare name initial).depth 0 ≤ limit) (do
          if ← eatMark .assign then return some (← g.assignment) else pure none) := by
        refine yields_behind fun given => ?_
        split
        · exact shallow.assignment.bind fun value small => .pure small
        · exact .pure (Nat.zero_le _)
      refine initial.bind fun initial first => yields_behind fun more => ?_
      have all : ∀ declarator ∈ .declare name initial :: found, declarator.depth 0 ≤ limit :=
        List.forall_mem_cons.mpr ⟨first, before⟩
      split
      · exact ih all
      · exact .pure (forall_mem_reversed all)

theorem declarationStatement_shallow (shallow : g.Shallow limit) (kind : Declaration) :
    Yields (fun statement => statement.depth 0 ≤ limit + 1) (declarationStatement g kind) := by
  unfold declarationStatement
  exact yields_behind fun _ => yields_behind fun bound =>
    (declarators_shallow shallow bound (List.forall_mem_nil _)).bind fun declared small =>
      .pure (Nat.succ_le_succ ((Declarator.depthOf_le_iff declared).mpr small))

theorem parenExpression_shallow (shallow : g.Shallow limit) :
    Yields (fun value => value.depth 0 ≤ limit) (parenExpression g) := by
  unfold parenExpression
  exact yields_behind fun _ => shallow.expression.bind fun value small =>
    yields_behind fun _ => .pure small

theorem ifStatement_shallow (shallow : g.Shallow limit) :
    Yields (fun statement => statement.depth 0 ≤ limit + 1) (ifStatement g) := by
  unfold ifStatement
  refine (parenExpression_shallow shallow).bind fun condition decides =>
    shallow.statement.bind fun consequent first => ?_
  have other : Yields (fun other => Stmt.depthOfOption 0 other ≤ limit) (do
      if ← eatKeyword .elseWord then return some (← g.statement) else pure none) := by
    refine yields_behind fun other => ?_
    split
    · exact shallow.statement.bind fun other small => .pure small
    · exact .pure (Nat.zero_le _)
  exact other.bind fun alternative second =>
    .pure (Nat.succ_le_succ (Nat.max_le.mpr ⟨decides, Nat.max_le.mpr ⟨first, second⟩⟩))

theorem walkLoop_shallow (shallow : g.Shallow limit) (walk : WalkKind)
    (kind : Option Declaration) (name : String) :
    Yields (fun statement => statement.depth 0 ≤ limit + 1) (walkLoop g walk kind name) := by
  unfold walkLoop
  refine yields_behind fun _ => yields_behind fun _ => shallow.expression.bind fun target walks =>
    yields_behind fun _ => shallow.statement.bind fun body small => ?_
  cases walk <;> exact .pure (Nat.succ_le_succ (Nat.max_le.mpr ⟨walks, small⟩))

theorem optionalExpression_shallow (shallow : g.Shallow limit) (close : Mark) :
    Yields (fun found => Expr.depthOfOption 0 found ≤ limit) (optionalExpression g close) := by
  unfold optionalExpression
  refine yields_behind fun closed => ?_
  split
  · exact .pure (Nat.zero_le _)
  · exact shallow.expression.bind fun value small => .pure small

theorem forInitial_shallow (shallow : g.Shallow limit) :
    Yields (fun found => Stmt.depthOfOption 0 found ≤ limit + 1) (forInitial g) := by
  have rest (initial : Stmt) (small : initial.depth 0 ≤ limit + 1) :
      Yields (fun found => Stmt.depthOfOption 0 found ≤ limit + 1) (do
        setInBarred false
        pure (some initial)) :=
    yields_behind fun _ => .pure small
  unfold forInitial
  refine yields_behind fun missing => ?_
  split
  · exact .pure (Nat.zero_le _)
  · refine yields_behind fun _ => yields_behind fun l => ?_
    dsimp only
    split
    · exact (declarationStatement_shallow shallow _).bind rest
    · exact shallow.expression.bind fun value small => rest _ (Nat.succ_le_succ small)

theorem countingLoop_shallow (shallow : g.Shallow limit) :
    Yields (fun statement => statement.depth 0 ≤ limit + 2) (countingLoop g) := by
  unfold countingLoop
  refine (forInitial_shallow shallow).bind fun initial starts => yields_behind fun _ =>
    (optionalExpression_shallow shallow _).bind fun condition decides => yields_behind fun _ =>
      (optionalExpression_shallow shallow _).bind fun update updates => yields_behind fun _ =>
        shallow.statement.bind fun body small => .pure ?_
  simp only [Stmt.depth]
  omega

theorem forStatement_shallow (shallow : g.Shallow limit) :
    Yields (fun statement => statement.depth 0 ≤ limit + 2) (forStatement g) := by
  have walked (walk : WalkKind) (kind : Option Declaration) (name : String) :
      Yields (fun statement => statement.depth 0 ≤ limit + 2) (walkLoop g walk kind name) :=
    (walkLoop_shallow shallow walk kind name).mono fun _ small => Nat.le_succ_of_le small
  unfold forStatement
  refine yields_behind fun _ => yields_behind fun first => yields_behind fun second =>
    yields_behind fun third => ?_
  split
  · split
    · exact yields_behind fun _ => walked _ _ _
    · exact walked _ _ _
  · exact countingLoop_shallow shallow

theorem catchClause_shallow (shallow : g.Shallow limit) :
    Yields (fun clause : Option String × Option (List Stmt) =>
      Stmt.depthOfOptionList 0 clause.2 ≤ limit) (do
        if ← eatKeyword .catchWord then
          let binding ← (do
            if ← eatMark .openParen then
              let name ← takeIdentifier "catch binding"
              expectMark .closeParen "')'"
              pure (some name)
            else
              pure none)
          let handler ← g.block
          pure (binding, some handler)
        else
          pure (none, none)) := by
  refine yields_behind fun caught => ?_
  split
  · exact yields_behind fun binding => shallow.block.bind fun handler small =>
      .pure ((Stmt.depthOf_le_iff handler).mpr small)
  · exact .pure (Nat.zero_le _)

theorem tryStatement_shallow (shallow : g.Shallow limit) :
    Yields (fun statement => statement.depth 0 ≤ limit + 1) (tryStatement g) := by
  unfold tryStatement
  have final : Yields (fun last => Stmt.depthOfOptionList 0 last ≤ limit) (do
      if ← eatKeyword .finallyWord then return some (← g.block) else pure none) := by
    refine yields_behind fun found => ?_
    split
    · exact shallow.block.bind fun body small => .pure ((Stmt.depthOf_le_iff body).mpr small)
    · exact .pure (Nat.zero_le _)
  refine shallow.block.bind fun block tries => (catchClause_shallow shallow).bind
    fun clause handles => final.bind fun finalizer ends => ?_
  split
  · exact unexpected_yields _
  · exact .pure (Nat.succ_le_succ (Nat.max_le.mpr
      ⟨(Stmt.depthOf_le_iff block).mpr tries, Nat.max_le.mpr ⟨handles, ends⟩⟩))

theorem returnStatement_shallow (shallow : g.Shallow limit) :
    Yields (fun statement => statement.depth 0 ≤ limit + 1) (returnStatement g) := by
  unfold returnStatement
  refine yields_behind fun token => ?_
  have result (bare : Bool) : Yields (fun found => Expr.depthOfOption 0 found ≤ limit) (do
      if bare then pure none else return some (← g.expression)) := by
    split
    · exact .pure (Nat.zero_le _)
    · exact shallow.expression.bind fun value small => .pure small
  exact (result _).bind fun value small => yields_behind fun _ => .pure (Nat.succ_le_succ small)

theorem throwStatement_shallow (shallow : g.Shallow limit) :
    Yields (fun statement => statement.depth 0 ≤ limit + 1) (throwStatement g) := by
  unfold throwStatement
  refine yields_behind fun token => ?_
  split
  · exact unexpected_yields _
  · exact shallow.expression.bind fun value small => yields_behind fun _ =>
      .pure (Nat.succ_le_succ small)

theorem doStatement_shallow (shallow : g.Shallow limit) :
    Yields (fun statement => statement.depth 0 ≤ limit + 1) (doStatement g) := by
  unfold doStatement
  refine shallow.statement.bind fun body small => yields_behind fun found => ?_
  split
  · exact (parenExpression_shallow shallow).bind fun condition decides => yields_behind fun _ =>
      .pure (Nat.succ_le_succ (Nat.max_le.mpr ⟨small, decides⟩))
  · exact unexpected_yields _

theorem expressionStatement_shallow (shallow : g.Shallow limit) :
    Yields (fun statement => statement.depth 0 ≤ limit + 1) (expressionStatement g) := by
  unfold expressionStatement
  exact shallow.expression.bind fun value small => yields_behind fun _ =>
    .pure (Nat.succ_le_succ small)

theorem statementBody_shallow (shallow : g.Shallow limit) :
    Yields (fun statement => statement.depth 0 ≤ limit + 2) (statementBody g) := by
  have flat : 1 ≤ limit + 2 := Nat.le_add_left 1 (limit + 1)
  have single {parse : Parse Stmt}
      (small : Yields (fun statement => statement.depth 0 ≤ limit + 1) parse) :
      Yields (fun statement => statement.depth 0 ≤ limit + 2) parse :=
    small.mono fun _ small => Nat.le_succ_of_le small
  unfold statementBody
  refine yields_behind fun first => ?_
  split
  · exact (single (declarationStatement_shallow shallow _)).bind fun statement small =>
      yields_behind fun _ => .pure small
  · exact shallow.block.bind fun body small =>
      .pure (Nat.succ_le_succ (Nat.le_succ_of_le ((Stmt.depthOf_le_iff body).mpr small)))
  · exact yields_behind fun _ => .pure flat
  · refine yields_behind fun next => ?_
    split
    · exact yields_behind fun _ => (functionRest_shallow shallow true).bind fun definition small =>
        .pure (Nat.succ_le_succ small)
    · exact single (expressionStatement_shallow shallow)
  · exact yields_behind fun _ => single (returnStatement_shallow shallow)
  · exact yields_behind fun _ => single (ifStatement_shallow shallow)
  · exact yields_behind fun _ => (parenExpression_shallow shallow).bind fun condition decides =>
      shallow.statement.bind fun body small =>
        .pure (Nat.le_succ_of_le (Nat.succ_le_succ (Nat.max_le.mpr ⟨decides, small⟩)))
  · exact yields_behind fun _ => single (doStatement_shallow shallow)
  · exact yields_behind fun _ => forStatement_shallow shallow
  · exact yields_behind fun _ => yields_behind fun _ => .pure flat
  · exact yields_behind fun _ => yields_behind fun _ => .pure flat
  · exact yields_behind fun _ => single (throwStatement_shallow shallow)
  · exact yields_behind fun _ => single (tryStatement_shallow shallow)
  · exact single (expressionStatement_shallow shallow)

theorem statementsToBrace_shallow (shallow : g.Shallow limit) (bound : Nat) {found : List Stmt}
    (before : ∀ statement ∈ found, statement.depth 0 ≤ limit) :
    Yields (fun body => ∀ statement ∈ body, statement.depth 0 ≤ limit)
      (statementsToBrace g bound found) := by
  induction bound generalizing found with
  | zero => exact unexpected_yields _
  | succ bound ih =>
      unfold statementsToBrace
      refine yields_behind fun closed => ?_
      split
      · exact .pure (forall_mem_reversed before)
      · refine yields_behind fun ended => ?_
        split
        · exact unexpected_yields _
        · refine shallow.statement.bind fun statement first => ih ?_
          exact List.forall_mem_cons.mpr ⟨first, before⟩

/-! ### Levels -/

/-- Around the constructs of a grammar stand at most six nodes of their own. -/
theorem Grammar.Shallow.around (shallow : g.Shallow limit) : g.around.Shallow (limit + 6) where
  statement := (statementBody_shallow shallow).mono fun _ small => by omega
  block := yields_behind fun _ => yields_behind fun bound =>
    (statementsToBrace_shallow shallow bound (List.forall_mem_nil _)).mono
      fun _ small statement member => (small statement member).trans (Nat.le_add_right ..)
  expression := shallow.assignment.mono fun _ small => by omega
  assignment := assignmentExpression_shallow shallow
  operators floor := (operatorExpression_shallow shallow floor).mono fun _ small => by omega
  operand := (unaryExpression_shallow shallow).mono fun _ small => by omega
  arguments := (argumentList_shallow shallow).mono
    fun _ small value member => (small value member).trans (Nat.le_add_right ..)
  arrayLiteral := (arrayElements_shallow shallow).mono fun _ small => by omega
  objectLiteral := (objectEntries_shallow shallow).mono fun _ small => by omega

theorem refuseDeeper_yields {α : Type} {expected : α → Prop} :
    Yields expected (refuseDeeper : Parse α) :=
  yields_of_fails fun _ => rfl

theorem Grammar.level_shallow (n : Nat) : (level n).Shallow (6 * n) := by
  induction n with
  | zero =>
      exact ⟨refuseDeeper_yields, refuseDeeper_yields, refuseDeeper_yields, refuseDeeper_yields,
        fun _ => refuseDeeper_yields, refuseDeeper_yields, refuseDeeper_yields,
        refuseDeeper_yields, refuseDeeper_yields⟩
  | succ n ih => exact ih.around

/-! ## Whole texts -/

theorem statementsToEnd_shallow (shallow : g.Shallow limit) (bound : Nat) {found : List Stmt}
    (before : ∀ statement ∈ found, statement.depth 0 ≤ limit) :
    Yields (fun body => ∀ statement ∈ body, statement.depth 0 ≤ limit)
      (statementsToEnd g bound found) := by
  induction bound generalizing found with
  | zero => exact .pure (forall_mem_reversed before)
  | succ bound ih =>
      unfold statementsToEnd
      refine yields_behind fun ended => ?_
      split
      · exact .pure (forall_mem_reversed before)
      · refine shallow.statement.bind fun statement first => ih ?_
        exact List.forall_mem_cons.mpr ⟨first, before⟩

theorem Program.depth_le {text : String} {program : Program}
    (parsed : Program.parse text = .ok program) :
    ∀ statement ∈ program.body, statement.depth 0 ≤ 6 * maxNesting := by
  cases cut : tokenize text with
  | error error =>
      rw [Program.parse, cut] at parsed
      cases parsed
  | ok tokens =>
      have whole := statementsToEnd_shallow (Grammar.level_shallow maxNesting)
        ((Cursor.ofTokens tokens).size + 1) (List.forall_mem_nil _)
      rw [Program.parse, cut] at parsed
      change Except.map Program.mk ((statementsToEnd (.level maxNesting)
        ((Cursor.ofTokens tokens).size + 1) []).run' (.ofTokens tokens)) = .ok program at parsed
      generalize ran : (statementsToEnd (.level maxNesting)
        ((Cursor.ofTokens tokens).size + 1) []).run' (.ofTokens tokens) = outcome at parsed
      cases outcome with
      | error error => cases parsed
      | ok body =>
          cases parsed
          exact whole.run' ran

theorem Expr.depth_le {text : String} {e : Expr} (parsed : Expr.parse text = .ok e) :
    e.depth 0 ≤ 6 * maxNesting := by
  cases cut : tokenize text with
  | error error =>
      rw [Expr.parse, cut] at parsed
      cases parsed
  | ok tokens =>
      have whole : Yields (fun value => value.depth 0 ≤ 6 * maxNesting) (do
          let value ← (Grammar.level maxNesting).expression
          if ← atEnd then pure value else unexpected "end of expression") := by
        refine (Grammar.level_shallow maxNesting).expression.bind fun value small =>
          yields_behind fun ended => ?_
        split
        · exact .pure small
        · exact unexpected_yields _
      rw [Expr.parse, cut] at parsed
      exact whole.run' parsed

/-- Trees are as deep as the levels of the grammar allow, as long as steps to the
    left do not count, and so are the statements in each other. -/
theorem parse_depth_le :
    (∀ text program, Program.parse text = .ok program → ∀ statement ∈ program.body,
        statement.depth 0 ≤ 6 * maxNesting ∧ statement.nesting ≤ 6 * maxNesting) ∧
      ∀ text e, Expr.parse text = .ok e → e.depth 0 ≤ 6 * maxNesting := by
  refine ⟨fun text program parsed statement member => ?_, fun text e parsed => e.depth_le parsed⟩
  have small := Program.depth_le parsed statement member
  exact ⟨small, (statement.nesting_le_depth 0).trans small⟩

theorem parse_depth_le_mixed :
    ∃ program, Program.parse "for (;;) a.b[c](-d) + e" = .ok program ∧
      ∀ statement ∈ program.body,
        statement.depth 0 ≤ 6 * maxNesting ∧ statement.nesting ≤ 6 * maxNesting := by
  have accepted : (Program.parse "for (;;) a.b[c](-d) + e").isOk = true := by
    decide +kernel
  cases parsed : Program.parse "for (;;) a.b[c](-d) + e" with
  | error fault =>
      rw [parsed] at accepted
      cases accepted
  | ok program => exact ⟨program, rfl, parse_depth_le.1 _ program parsed⟩

/-! ## Chains of operators -/

/-- A name and that many more, with plus signs between them. -/
def chainText : Nat → List Char
  | 0 => ['x']
  | n + 1 => chainText n ++ [' ', '+', ' ', 'x']

def chainTree : Nat → Expr
  | 0 => .identifier "x"
  | n + 1 => .binary .add (chainTree n) (.identifier "x")

theorem chain_sum (n : Nat) : ∃ lexemes, Sum (chainText n) lexemes (chainTree n) := by
  have name : Product ['x'] [.identifier "x"] (.identifier "x") :=
    .factor (.operand (.name (List.forall_mem_nil _)))
  induction n with
  | zero => exact ⟨_, .product name⟩
  | succ n ih =>
      obtain ⟨lexemes, sum⟩ := ih
      exact ⟨_, .plus sum name⟩

theorem parse_chain (n : Nat) : Expr.parse (String.ofList (chainText n)) = .ok (chainTree n) := by
  obtain ⟨lexemes, sum⟩ := chain_sum n
  rw [← String.toList_ofList (l := chainText n)] at sum
  exact sum.parse_eq

theorem lt_depth_chainTree (n : Nat) : n < (chainTree n).depth 1 := by
  induction n with
  | zero => exact Nat.one_pos
  | succ n ih => exact Nat.lt_of_lt_of_le (Nat.succ_lt_succ ih) (Nat.le_max_left ..)

/-- No multiple of the levels bounds all trees with every step counted. -/
theorem chains_exceed_levels :
    ¬ ∃ factor,
      (∀ text program, Program.parse text = .ok program → ∀ statement ∈ program.body,
        statement.depth 1 ≤ factor * maxNesting) ∧
      ∀ text e, Expr.parse text = .ok e → e.depth 1 ≤ factor * maxNesting := by
  rintro ⟨factor, -, bounded⟩
  have small := bounded _ _ (parse_chain (factor * maxNesting))
  exact absurd (lt_depth_chainTree (factor * maxNesting)) (Nat.not_lt.mpr small)

end Script

end StrategyQubo
