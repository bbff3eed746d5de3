import StrategyQubo.Proofs.JsonValues
import StrategyQubo.Strategy.Sample

namespace StrategyQubo

open StrategyQubo.Script

/-! # Programs that return a literal

A strategy may do nothing but return a JSON text.  Its text, its tree and its
run are followed through to the value that holds what the JSON text stands for.
-/

namespace Script

/-! ## Parsing -/

section

variable {g : Grammar} {c c' : Cursor} {first next : Lexeme} {lexemes rest : List Lexeme}
  {e : Expr} {statement : Stmt}

theorem returnStatement_literal (literal : Json.Literal g lexemes e)
    (shows : c.Shows (lexemes ++ .mark .semicolon :: next :: rest)) :
    ∃ c', returnStatement g.around c = .ok (.returnWith (some e), c') ∧
      c'.Shows (next :: rest) := by
  obtain ⟨c', parsed, behind⟩ := literal.parses c _ _ shows .semicolon
  obtain ⟨first, more, rfl, opener⟩ := literal.opener
  obtain ⟨peeked, current, inLine⟩ := Cursor.Shows.peek_eq shows
  have notBare : (c.current.lexeme.isMark .semicolon || c.current.lexeme.isMark .closeBrace ||
      c.current.lexeme.isEnd || c.current.newlineBefore) = false := by
    rw [current, inLine]
    cases opener with
    | bool value => cases value <;> rfl
    | _ => rfl
  have ended : Parse.endStatement c' = .ok ((), c'.advance) := by
    rw [Parse.endStatement, StateT.bind_ok behind.eatMark_self]
    rfl
  have value : (do return some (← g.around.expression) : Parse (Option Expr)) c =
      .ok (some e, c') := StateT.bind_ok parsed
  refine ⟨c'.advance, ?_, behind.advance (List.cons_ne_nil _ _)⟩
  rw [returnStatement, StateT.bind_ok peeked, notBare, if_neg Bool.false_ne_true,
    StateT.bind_ok value, StateT.bind_ok ended]
  rfl

theorem Cursor.Shows.atEnd_eq (shows : c.Shows (first :: lexemes)) :
    Parse.atEnd c = .ok (first.isEnd, c) := by
  rw [← shows.current]
  rfl

/-- A block of a single statement. -/
theorem blockBody_single (noEnd : first.isMark .closeBrace = false ∧ first.isEnd = false)
    (shows : c.Shows (.mark .openBrace :: first :: (lexemes ++ .mark .closeBrace :: next :: rest)))
    (parsed : ∀ c rest, c.Shows (first :: (lexemes ++ .mark .closeBrace :: rest)) →
      ∃ c', g.statement c = .ok (statement, c') ∧ c'.Shows (.mark .closeBrace :: rest)) :
    ∃ c', blockBody g c = .ok ([statement], c') ∧ c'.Shows (next :: rest) := by
  have inside := shows.advance (List.cons_ne_nil _ _)
  obtain ⟨c', read, behind⟩ := parsed _ _ inside
  have turns : 2 ≤ c.advance.size := by
    have room := inside.length_le
    simp only [List.length_cons, List.length_append] at room
    omega
  obtain ⟨bound, sized⟩ := Nat.exists_eq_add_of_le' turns
  have notEnd := inside.atEnd_eq
  rw [noEnd.2] at notEnd
  refine ⟨c'.advance, ?_, behind.advance (List.cons_ne_nil _ _)⟩
  rw [blockBody, StateT.bind_ok (shows.expectMark_eq _), StateT.bind_ok (Parse.size_run _), sized,
    statementsToBrace, StateT.bind_ok (inside.eatMark_eq noEnd.1)]
  refine (StateT.bind_ok notEnd).trans ((StateT.bind_ok read).trans ?_)
  exact StateT.bind_ok behind.eatMark_self

theorem statementBody_return (literal : Json.Literal g lexemes e)
    (shows : c.Shows (.keyword .returnWord :: (lexemes ++ .mark .semicolon :: next :: rest))) :
    ∃ c', statementBody g.around c = .ok (.returnWith (some e), c') ∧ c'.Shows (next :: rest) := by
  obtain ⟨c', parsed, behind⟩ := returnStatement_literal literal (shows.advance (by simp))
  refine ⟨c', ?_, behind⟩
  rw [statementBody, StateT.bind_ok shows.lexeme_eq]
  exact parsed

theorem Cursor.Shows.takeIdentifier_eq {name : String}
    (shows : c.Shows (.identifier name :: lexemes)) (what : String) :
    Parse.takeIdentifier what c = .ok (name, c.advance) := by
  rw [Parse.takeIdentifier, StateT.bind_ok shows.lexeme_eq]
  rfl

theorem parameterList_single {parameter : String}
    (shows : c.Shows (.mark .openParen :: .identifier parameter :: .mark .closeParen ::
      next :: rest)) :
    parameterList c = .ok ([parameter], c.advance.advance.advance) := by
  have within := shows.advance (List.cons_ne_nil _ _)
  have closed := within.advance (List.cons_ne_nil _ _)
  have turns : 1 ≤ c.advance.size := le_trans (by simp) within.length_le
  obtain ⟨bound, sized⟩ := Nat.exists_eq_add_of_le' turns
  have named : parameterNames (bound + 1) [] c.advance =
      .ok ([parameter], c.advance.advance) := by
    rw [parameterNames, StateT.bind_ok (within.atMark_eq .closeParen)]
    refine (StateT.bind_ok (within.takeIdentifier_eq _)).trans ?_
    exact StateT.bind_ok (closed.eatMark_eq rfl)
  rw [parameterList, StateT.bind_ok (shows.expectMark_eq _), StateT.bind_ok (Parse.size_run _),
    sized, StateT.bind_ok named, StateT.bind_ok (closed.expectMark_eq _)]
  rfl

/-- A function of one parameter. -/
theorem statementBody_function {name parameter : String} {body : List Stmt}
    (shows : c.Shows (.keyword .functionWord :: .identifier name :: .mark .openParen ::
      .identifier parameter :: .mark .closeParen :: first :: lexemes))
    (parsed : ∀ c, c.Shows (first :: lexemes) →
      ∃ c', g.block c = .ok (body, c') ∧ c'.Shows (next :: rest)) :
    ∃ c', statementBody g c = .ok (.function (.define (some name) [parameter] (.block body)), c') ∧
      c'.Shows (next :: rest) := by
  have named := shows.advance (List.cons_ne_nil _ _)
  have opened := named.advance (List.cons_ne_nil _ _)
  have closed := (opened.advance (List.cons_ne_nil _ _)).advance (List.cons_ne_nil _ _)
  obtain ⟨c', read, behind⟩ := parsed _ (closed.advance (List.cons_ne_nil _ _))
  have looked : Parse.lookahead 1 c = .ok (.identifier name, c) := by
    rw [← shows.lookahead_one]
    rfl
  have unnamed : (do
      let parameters ← parameterList
      let body ← g.block
      pure (.define (some name) parameters (.block body)) : Parse FunctionDef) c.advance.advance =
        .ok (.define (some name) [parameter] (.block body), c') := by
    rw [StateT.bind_ok (parameterList_single opened), StateT.bind_ok read]
    rfl
  have define : functionRest g true c.advance =
      .ok (.define (some name) [parameter] (.block body), c') := by
    rw [functionRest, StateT.bind_ok named.lexeme_eq]
    exact unnamed
  refine ⟨c', ?_, behind⟩
  rw [statementBody, StateT.bind_ok shows.lexeme_eq]
  refine (StateT.bind_ok looked).trans ?_
  change (functionRest g true >>= fun definition => pure (Stmt.function definition)) c.advance = _
  exact StateT.bind_ok define

/-- A text of a single statement. -/
theorem ofTokens_single {tokens : List Token}
    (shape : tokens.map Token.lexeme = first :: lexemes) (noEnd : first.isEnd = false)
    (inLine : ∀ token ∈ tokens, token.newlineBefore = false)
    (parsed : ∀ c, c.Shows (first :: lexemes) →
      ∃ c', (Grammar.level maxNesting).statement c = .ok (statement, c') ∧
        c'.Shows [.endOfInput]) :
    Program.ofTokens tokens = .ok ⟨[statement]⟩ := by
  have shows : (Cursor.ofTokens tokens).Shows (first :: lexemes) := ⟨⟨shape, le_rfl, rfl⟩, inLine⟩
  obtain ⟨c', read, behind⟩ := parsed _ shows
  have turns : 1 ≤ (Cursor.ofTokens tokens).size := le_trans (by simp) shows.length_le
  obtain ⟨bound, sized⟩ := Nat.exists_eq_add_of_le' turns
  have notEnd := shows.atEnd_eq
  rw [noEnd] at notEnd
  have listed : statementsToEnd (.level maxNesting) ((Cursor.ofTokens tokens).size + 1) []
      (.ofTokens tokens) = .ok ([statement], c') := by
    rw [sized, statementsToEnd, StateT.bind_ok notEnd]
    refine (StateT.bind_ok read).trans ?_
    exact StateT.bind_ok behind.atEnd_eq
  change (((statementsToEnd (.level maxNesting) ((Cursor.ofTokens tokens).size + 1) []).run'
    (.ofTokens tokens)) >>= fun body => pure (Program.mk body)) = _
  rw [StateT.run', listed]
  rfl

end

end Script

/-! ## Texts -/

namespace Strategy

open Scan

variable {limit : Nat} {j : Json}

/-- The program whose entry point returns what the expression stands for. -/
def returning (expression : String) : String :=
  "function createQuboForSingleMove(board) \x7b return " ++ expression ++ "; \x7d"

def entryFunction (j : Json) : FunctionDef :=
  .define (some entryName) ["board"] (.block [.returnWith (some j.tree)])

theorem toList_returning (expression : String) : (returning expression).toList =
    "function".toList ++ ' ' :: (entryName.toList ++ '(' :: ("board".toList ++
      ')' :: ' ' :: '\x7b' :: ' ' :: ("return".toList ++ ' ' ::
        (expression.toList ++ ';' :: ' ' :: ['\x7d'])))) := by
  have header : "function createQuboForSingleMove(board) \x7b return ".toList =
      "function".toList ++ ' ' :: (entryName.toList ++ '(' :: ("board".toList ++
        ')' :: ' ' :: '\x7b' :: ' ' :: ("return".toList ++ [' ']))) := by decide
  have footer : "; \x7d".toList = ';' :: ' ' :: ['\x7d'] := by decide
  unfold returning
  rw [String.toList_append, String.toList_append, header, footer]
  simp only [List.append_assoc, List.cons_append, List.nil_append]

theorem cuts_returning (readable : j.Readable limit) :
    Cuts (returning j.compact).toList
      (.keyword .functionWord :: .identifier entryName :: .mark .openParen ::
        .identifier "board" :: .mark .closeParen :: .mark .openBrace ::
        .keyword .returnWord :: (j.lexemes ++ .mark .semicolon :: .mark .closeBrace ::
          [.endOfInput])) := by
  have last : Solid ['\x7d'] := solid_mark (by decide : ('\x7d', Mark.closeBrace) ∈ plainMarks) _
  have ended : Cuts (';' :: ' ' :: ['\x7d']) (.mark .semicolon :: .mark .closeBrace ::
      [.endOfInput]) :=
    .mark (by decide) rfl (.blank last (.mark (by decide) rfl .done))
  have breaks : Breaks (';' :: ' ' :: ['\x7d']) := .cons (by decide) _
  have value := Cuts.blank (readable.solid breaks) (readable.cuts _ _ breaks ended)
  have returned := Json.cutsOff_word "return" (by decide) (by decide) _ _
    (.cons (by decide) _) value
  have body := Cuts.mark (by decide : ('\x7b', Mark.openBrace) ∈ plainMarks) rfl
    (.blank (solid_letter (by decide) _) returned)
  have closed := Cuts.mark (by decide : (')', Mark.closeParen) ∈ plainMarks) rfl
    (.blank (solid_mark (by decide : ('\x7b', Mark.openBrace) ∈ plainMarks) _) body)
  have parameter := Json.cutsOff_word "board" (by decide) (by decide) _ _
    (.cons (by decide) _) closed
  have opened := Cuts.mark (by decide : ('(', Mark.openParen) ∈ plainMarks) rfl parameter
  have named := Json.cutsOff_word entryName (by decide) (by decide) _ _
    (.cons (by decide) _) opened
  have whole := Json.cutsOff_word "function" (by decide) (by decide) _ _
    (.cons (by decide) _) (.blank (solid_letter (by decide) _) named)
  rw [toList_returning]
  exact whole

theorem parse_returning (readable : j.Readable limit) (shallow : 2 * j.height ≤ 252) :
    Program.parse (returning j.compact) = .ok ⟨[.function (entryFunction j)]⟩ := by
  obtain ⟨tokens, cut, shape, inLine⟩ := tokenize_of_cuts (cuts_returning readable)
  have literal : Json.Literal (.level 252) j.lexemes j.tree :=
    ⟨readable.opener, readable.parses shallow⟩
  rw [Program.parse, cut]
  refine ofTokens_single shape rfl inLine fun c shows => ?_
  refine statementBody_function shows fun c shows => ?_
  have apart : j.lexemes ++ .mark .semicolon :: .mark .closeBrace :: [.endOfInput] =
      (j.lexemes ++ [.mark .semicolon]) ++ .mark .closeBrace :: .endOfInput :: [] := by simp
  rw [apart] at shows
  refine blockBody_single ⟨rfl, rfl⟩ shows fun c rest shows => ?_
  rw [List.append_assoc, List.singleton_append] at shows
  exact statementBody_return literal shows

end Strategy

/-! ## Running -/

namespace Script

variable {env : Environment} {rank : Nat} {m : Machine}

/-- The machine after a program that does nothing but define a function. -/
def Machine.defining (m : Machine) (name : String) (definition : FunctionDef) : Machine :=
  { ({ m with identities := m.identities + 1 }).declare globalScope name
      (.closure ⟨m.identities, definition, globalScope⟩) true with steps := m.steps + 1 }

theorem programRule_function (calm : env.NeverStrikes) (budget : m.steps < env.limits.stepBudget)
    (shallow : m.nesting < maxEvalDepth) {name : String} {definition : FunctionDef}
    (named : definition.name = some name) :
    (programRule [.function definition]).run (Task.evaluate (rank + 1)) env m =
      .ok () (m.defining name definition) := by
  have functions : Stmt.functionsOf [.function definition] = [(name, definition)] := by
    simp [Stmt.functionsOf, named]
  generalize bound : ({ m with identities := m.identities + 1 }).declare globalScope name
    (.closure ⟨m.identities, definition, globalScope⟩) true = m'
  have hoisted : (Eval.hoist [.function definition] globalScope).run (Task.evaluate (rank + 1))
      env m = .ok () m' := by
    change (Eval.declareMissing globalScope [] >>= fun _ =>
      Eval.declareFunctions globalScope (Stmt.functionsOf [.function definition])).run _ _ _ = _
    rw [functions, ← bound]
    rfl
  have same : m'.steps = m.steps ∧ m'.nesting = m.nesting := by
    rw [← bound]
    exact ⟨rfl, rfl⟩
  have ran : (statementRule (.function definition) globalScope).run (Task.evaluate rank) (rank + 1)
      env { m' with steps := m'.steps + 1, nesting := m'.nesting + 1 } =
        .ok .normal { m' with steps := m'.steps + 1, nesting := m'.nesting + 1 } := rfl
  have executed : Task.evaluate (rank + 1) (.statement (.function definition) globalScope) env m' =
      .ok .normal { m' with steps := m'.steps + 1 } :=
    Task.evaluate_statement calm (by omega) (by omega) ran
  rw [programRule, Eval.run_bind, hoisted, Outcome.andThen_ok, Eval.run_bind, runAll, Eval.run_bind,
    Eval.run_execute, executed, Machine.defining, bound, same.1]
  rfl

/-- The program has run, and its function is found. -/
theorem Machine.defining_global? (m : Machine) (name : String) (definition : FunctionDef)
    (made : 0 < m.scopes.size) : (m.defining name definition).global? name =
      some (.closure ⟨m.identities, definition, globalScope⟩) := by
  have found := Machine.declare_binds (m := { m with identities := m.identities + 1 }) made name
    (.closure ⟨m.identities, definition, globalScope⟩) true
  exact congrArg (Option.map Binding.value) found

/-! ### Calls -/

theorem bindParameters_run (answer : (task : Task) → Action task.Answer) (env : Environment)
    (scope : ScopeId) (names : List String) (values : List Value) (m : Machine) :
    ∃ scopes, (bindParameters scope names values).run answer env m =
      .ok () { m with scopes := scopes } := by
  induction names generalizing values m with
  | nil => exact ⟨m.scopes, rfl⟩
  | cons name rest ih =>
      cases values with
      | nil =>
          obtain ⟨scopes, bound⟩ := ih [] (m.declare scope name .undefined true)
          exact ⟨scopes, bound⟩
      | cons value values =>
          obtain ⟨scopes, bound⟩ := ih values (m.declare scope name value true)
          exact ⟨scopes, bound⟩

/-- The body of a function that does nothing but return a literal. -/
theorem runBody_literal (calm : env.NeverStrikes) {j : Json} (evaluates : j.Evaluates env rank)
    (scope : ScopeId) (budget : m.steps + 1 + j.steps ≤ env.limits.stepBudget)
    (shallow : m.nesting + 1 + j.height < maxEvalDepth) :
    ∃ v after, (Eval.hoist [.returnWith (some j.tree)] scope >>= fun _ =>
        runBody scope [.returnWith (some j.tree)]).run (Task.evaluate (rank + 1)) env m =
          .ok v after ∧ Json.Stored after.heap j v := by
  obtain ⟨v, heap, count, evaluated, -, -, stored⟩ :=
    evaluates scope { m with steps := m.steps + 1, nesting := m.nesting + 1 } budget shallow
  have ran : (statementRule (.returnWith (some j.tree)) scope).run (Task.evaluate rank) (rank + 1)
      env { m with steps := m.steps + 1, nesting := m.nesting + 1 } =
        .ok (.returned v) { m with heap := heap, steps := count, nesting := m.nesting + 1 } := by
    change (Eval.evaluate j.tree scope >>= fun v => pure (Flow.returned v)).run _ _ _ = _
    rw [Eval.run_bind, Eval.run_evaluate, evaluated]
    rfl
  have executed : Task.evaluate (rank + 1) (.statement (.returnWith (some j.tree)) scope) env m =
      .ok (.returned v) { m with heap := heap, steps := count } :=
    Task.evaluate_statement calm (by omega) (by omega) ran
  have hoisted : (Eval.hoist [.returnWith (some j.tree)] scope).run (Task.evaluate (rank + 1)) env
      m = .ok () m := rfl
  refine ⟨v, { m with heap := heap, steps := count }, ?_, stored⟩
  rw [Eval.run_bind, hoisted, Outcome.andThen_ok, runBody, Eval.run_bind, Eval.run_execute,
    executed]
  rfl

/-- Calling a function that returns a literal gives a value that holds it. -/
theorem evaluate_call_literal (calm : env.NeverStrikes) {j : Json}
    (evaluates : j.Evaluates env rank) {definition : FunctionDef}
    (body : definition.body = .block [.returnWith (some j.tree)]) (identity : Nat) (outer : ScopeId)
    (arguments : List Value) (budget : m.steps + 2 + j.steps ≤ env.limits.stepBudget)
    (callable : m.depth < env.limits.callDepth)
    (shallow : m.nesting + 1 + j.height < maxEvalDepth) :
    ∃ v after, Task.evaluate (rank + 2) (.call (.closure ⟨identity, definition, outer⟩) arguments)
        env m = .ok v after ∧ Json.Stored after.heap j v := by
  let inner : Machine := { m with
    steps := m.steps + 1
    depth := m.depth + 1
    scopes := m.scopes.push (.fresh (some outer) true) }
  obtain ⟨scopes, bound⟩ := bindParameters_run (Task.evaluate (rank + 1)) env m.scopes.size
    definition.parameters arguments inner
  obtain ⟨v, after, returned, stored⟩ := runBody_literal (m := { inner with scopes := scopes }) calm
    evaluates m.scopes.size (show m.steps + 1 + 1 + _ ≤ _ by omega) shallow
  have ran : (invoke ⟨identity, definition, outer⟩ arguments).run (Task.evaluate (rank + 1)) env
      { m with steps := m.steps + 1, depth := m.depth + 1 } = .ok v after := by
    rw [invoke, Eval.run_bind, Eval.newScope, Eval.run_operate]
    change ((bindParameters m.scopes.size definition.parameters arguments >>= fun _ =>
      _).run _ env inner) = _
    rw [Eval.run_bind, bound, Outcome.andThen_ok, body]
    exact returned
  exact ⟨v, _, Task.evaluate_call calm (by omega) callable ran, stored⟩

end Script

/-! ## Sampling -/

namespace Strategy

variable {env : Environment} {j : Json}

/-- A program with these limits returns what its literal stands for. -/
structure Affords (env : Environment) (j : Json) : Prop where
  calm : env.NeverStrikes
  readable : j.Readable env.limits.maxCollectionLen
  shallow : 2 * j.height ≤ 252
  budget : 3 + j.steps ≤ env.limits.stepBudget
  callable : 1 ≤ env.limits.maxCallDepth

def returningEntry (env : Environment) (j : Json) : EntryPoint where
  environment := env
  machine := readLog ((Machine.fresh env.limits).defining entryName (entryFunction j))
  function := .closure ⟨0, entryFunction j, globalScope⟩

theorem load_returning (affords : Affords env j) :
    (EntryPoint.load (returning j.compact) env).1 = .ok (returningEntry env j) := by
  obtain ⟨calm, readable, shallow, budget, -⟩ := affords
  have parsed := parse_returning readable shallow
  have within : (Machine.fresh env.limits).steps < env.limits.stepBudget := by
    change 0 < _
    omega
  have ran : runProgram ⟨[.function (entryFunction j)]⟩ env (.fresh env.limits) =
      .ok () ((Machine.fresh env.limits).defining entryName (entryFunction j)) :=
    programRule_function calm within (show 0 < maxEvalDepth by decide) rfl
  have found := (Machine.fresh env.limits).defining_global? entryName (entryFunction j)
    Nat.one_pos
  simp only [EntryPoint.load, parsed, ran, found]
  rfl

theorem callFunction_returning (affords : Affords env j) (arguments : List Value) {m : Machine}
    (fresh : m.steps = 1 ∧ m.depth = 0 ∧ m.nesting = 0) :
    ∃ v after, callFunction (returningEntry env j).function arguments env m = .ok v after ∧
      Json.Stored after.heap j v := by
  obtain ⟨calm, readable, shallow, budget, callable⟩ := affords
  obtain ⟨steps, depth, nesting⟩ := fresh
  have low := readable.height_le_steps
  obtain ⟨rank, enough⟩ := Nat.exists_eq_add_of_le' (show 2 ≤ env.limits.stepBudget by omega)
  have evaluates : j.Evaluates env rank := readable.evaluates calm (by omega)
  have ranked : env.rank m = rank + 2 := by
    rw [Environment.rank]
    omega
  have allowed : m.depth < env.limits.callDepth := by
    rw [depth]
    exact lt_min callable (by decide)
  have room : m.nesting + 1 + j.height < maxEvalDepth := by
    rw [nesting, maxEvalDepth]
    omega
  have body : (entryFunction j).body = .block [.returnWith (some j.tree)] := rfl
  obtain ⟨v, after, called, stored⟩ := evaluate_call_literal calm evaluates body 0 globalScope
    arguments (by omega) allowed room
  refine ⟨v, after, ?_, stored⟩
  rw [callFunction, Eval.start, ranked, Eval.run_call]
  exact called

theorem take_returning (affords : Affords env j) (board : Board) :
    ∃ v h, Json.Stored h j v ∧ ∀ sample, Sample.ofValue h v = .ok sample →
      (Sample.take (returningEntry env j) board).1 = some sample := by
  generalize same : returningEntry env j = entry
  have environment : entry.environment = env := by
    rw [← same]
    rfl
  have fresh : entry.machine.steps = 1 ∧ entry.machine.depth = 0 ∧ entry.machine.nesting = 0 := by
    rw [← same]
    exact ⟨rfl, rfl, rfl⟩
  obtain ⟨v, after, called, stored⟩ := callFunction_returning affords
    [.array (entry.machine.heap.newArray (board.marks.map Value.string).toArray).1]
    (m := { entry.machine with
      heap := (entry.machine.heap.newArray (board.marks.map Value.string).toArray).2 }) fresh
  rw [same, ← environment] at called
  refine ⟨v, after.heap, stored, fun sample read => ?_⟩
  have answered : entry.call board =
      (.ok v, { entry with machine := readLog after }, after.log) := by
    simp only [EntryPoint.call, called]
  have unchanged : (readLog after).heap = after.heap := rfl
  simp only [Sample.take, answered, unchanged, read]

end Strategy

end StrategyQubo
