import StrategyQubo.Proofs.JsonTrees

namespace StrategyQubo

open StrategyQubo.Script

/-! # Formulas, as they are written

Operators, conditionals and assignments over numbers, constants and names, with
parentheses only where something binds weaker than its place allows.  What is
written is read back as the same tree, unless it nests too deep.
-/

namespace Script

/-! ## Writing -/

def UnaryOp.lexeme : UnaryOp → Lexeme
  | negate => .mark .minus
  | plus => .mark .plus
  | not => .mark .bang
  | typeof => .keyword .typeofWord

theorem unaryOp?_lexeme (op : UnaryOp) : unaryOp? op.lexeme = some op := by
  cases op <;> rfl

namespace InfixOp

def lexeme : InfixOp → Lexeme
  | logical .nullish => .mark .questionQuestion
  | logical .or => .mark .orOr
  | logical .and => .mark .andAnd
  | binary .equal => .mark .equal
  | binary .notEqual => .mark .notEqual
  | binary .strictEqual => .mark .strictEqual
  | binary .strictNotEqual => .mark .strictNotEqual
  | binary .less => .mark .less
  | binary .greater => .mark .greater
  | binary .lessEqual => .mark .lessEqual
  | binary .greaterEqual => .mark .greaterEqual
  | binary .inside => .keyword .inWord
  | binary .add => .mark .plus
  | binary .subtract => .mark .minus
  | binary .multiply => .mark .star
  | binary .divide => .mark .slash
  | binary .remainder => .mark .percent
  | binary .power => .mark .starStar

def precedence : InfixOp → Nat
  | logical .nullish => 1
  | logical .or => 2
  | logical .and => 3
  | binary .equal | binary .notEqual | binary .strictEqual | binary .strictNotEqual => 4
  | binary .less | binary .greater | binary .lessEqual | binary .greaterEqual
  | binary .inside => 5
  | binary .add | binary .subtract => 6
  | binary .multiply | binary .divide | binary .remainder => 7
  | binary .power => powerPrecedence

variable (op : InfixOp)

theorem infixOp?_lexeme : infixOp? op.lexeme = some (op.precedence, op) := by
  rcases op with (_ | _) <;> rename_i op <;> cases op <;> rfl

theorem precedence_pos : 0 < op.precedence := by
  rcases op with (_ | _) <;> rename_i op <;> cases op <;> decide

theorem precedence_le : op.precedence ≤ powerPrecedence := by
  rcases op with (_ | _) <;> rename_i op <;> cases op <;> decide

end InfixOp

/-- The operators that an assignment may apply before it assigns. -/
inductive AssignOp where
  | plain | add | subtract | multiply | divide | remainder

namespace AssignOp

def applied : AssignOp → Option BinaryOp
  | plain => none
  | add => some .add
  | subtract => some .subtract
  | multiply => some .multiply
  | divide => some .divide
  | remainder => some .remainder

def lexeme : AssignOp → Lexeme
  | plain => .mark .assign
  | add => .mark .plusAssign
  | subtract => .mark .minusAssign
  | multiply => .mark .starAssign
  | divide => .mark .slashAssign
  | remainder => .mark .percentAssign

theorem assignmentOp?_lexeme (op : AssignOp) : assignmentOp? op.lexeme = some op.applied := by
  cases op <;> rfl

end AssignOp

/-- Trees of operators over numbers, constants and names. -/
inductive Formula where
  | number (value : Float)
  | bool (value : Bool)
  | null
  | undefined
  | identifier (name : String)
  | unary (op : UnaryOp) (operand : Formula)
  | operation (op : InfixOp) (left right : Formula)
  | conditional (condition consequent alternative : Formula)
  | assign (op : AssignOp) (target : String) (value : Formula)

/-- How tight unary operators bind. -/
def unaryStrength : Nat := powerPrecedence + 1

/-- How tight the left operand of an operator has to bind.  Powers group to the
    right. -/
def leftStrength (precedence : Nat) : Nat :=
  if precedence = powerPrecedence then unaryStrength else precedence

theorem leftStrength_bounds {precedence : Nat} (bounded : precedence ≤ powerPrecedence) :
    precedence ≤ leftStrength precedence ∧ leftStrength precedence ≤ unaryStrength := by
  unfold leftStrength unaryStrength powerPrecedence at *
  split <;> omega

/-- How tight the right operand has to bind. -/
def rightStrength (precedence : Nat) : Nat :=
  rightFloor precedence + 1

/-- In parentheses, if it binds weaker than it has to. -/
def enclosed (strength least : Nat) (lexemes : List Lexeme) : List Lexeme :=
  if strength < least then .mark .openParen :: (lexemes ++ [.mark .closeParen]) else lexemes

namespace Formula

def toExpr : Formula → Expr
  | number value => .number value
  | bool value => .bool value
  | null => .null
  | undefined => .undefined
  | identifier name => .identifier name
  | unary op operand => .unary op operand.toExpr
  | operation op left right => op.apply left.toExpr right.toExpr
  | conditional condition consequent alternative =>
      .conditional condition.toExpr consequent.toExpr alternative.toExpr
  | assign op target value => .assign op.applied (.identifier target) value.toExpr

/-- How tight the outermost construct binds. -/
def strength : Formula → Nat
  | conditional .. | assign .. => 0
  | operation op .. => op.precedence
  | unary .. => unaryStrength
  | _ => unaryStrength + 1

def lexemes : Formula → List Lexeme
  | number value => [.number value]
  | bool value => [.keyword (if value then .trueWord else .falseWord)]
  | null => [.keyword .nullWord]
  | undefined => [.keyword .undefinedWord]
  | identifier name => [.identifier name]
  | unary op operand => op.lexeme :: enclosed operand.strength unaryStrength operand.lexemes
  | operation op left right =>
      enclosed left.strength (leftStrength op.precedence) left.lexemes ++
        op.lexeme :: enclosed right.strength (rightStrength op.precedence) right.lexemes
  | conditional condition consequent alternative =>
      enclosed condition.strength 1 condition.lexemes ++ .mark .question ::
        (consequent.lexemes ++ .mark .colon :: alternative.lexemes)
  | assign op target value => .identifier target :: op.lexeme :: value.lexemes

/-- The lexemes where something has to stand that binds so tight. -/
def lexemesAt (least : Nat) (f : Formula) : List Lexeme :=
  enclosed f.strength least f.lexemes

theorem lexemes_ne_nil (f : Formula) : f.lexemes ≠ [] := by
  cases f <;> simp [lexemes]

theorem exists_lexemes_append (f : Formula) (next : Lexeme) (rest : List Lexeme) :
    ∃ first second others, f.lexemes ++ next :: rest = first :: second :: others := by
  obtain ⟨first, inner, written⟩ := List.exists_cons_of_ne_nil f.lexemes_ne_nil
  obtain ⟨second, others, behind⟩ :=
    List.exists_cons_of_ne_nil
      (List.append_ne_nil_of_right_ne_nil inner (List.cons_ne_nil next rest))
  exact ⟨first, second, others, by rw [written, List.cons_append, behind]⟩

theorem lexemesAt_of_le {f : Formula} {least : Nat} (binds : least ≤ f.strength) :
    f.lexemesAt least = f.lexemes :=
  if_neg (Nat.not_lt.mpr binds)

theorem lexemesAt_of_lt {f : Formula} {least : Nat} (weaker : f.strength < least) :
    f.lexemesAt least = .mark .openParen :: (f.lexemes ++ [.mark .closeParen]) :=
  if_pos weaker

/-- Nothing binds between an operand and what needs parentheses anyway. -/
theorem lexemesAt_eq {f : Formula} {least : Nat} (bounded : least ≤ unaryStrength)
    (apart : unaryStrength ≤ f.strength ∨ f.strength < least) :
    f.lexemesAt least = f.lexemesAt unaryStrength := by
  rcases apart with tight | weaker
  · rw [lexemesAt_of_le tight, lexemesAt_of_le (bounded.trans tight)]
  · rw [lexemesAt_of_lt weaker, lexemesAt_of_lt (weaker.trans_le bounded)]

end Formula

/-! ## What stands behind -/

/-- Nothing that goes on with an expression. -/
structure Ends (next : Lexeme) : Prop extends Detached next where
  stops : Stops 0 next
  noQuestion : next.isMark .question = false
  noAssignment : assignmentOp? next = none

theorem ends_colon : Ends (.mark .colon) :=
  ⟨⟨rfl, rfl, rfl, rfl⟩, nofun, rfl, rfl⟩

theorem ends_closeParen : Ends (.mark .closeParen) :=
  ⟨⟨rfl, rfl, rfl, rfl⟩, nofun, rfl, rfl⟩

theorem ends_endOfInput : Ends .endOfInput :=
  ⟨⟨rfl, rfl, rfl, rfl⟩, nofun, rfl, rfl⟩

/-- Nothing that operators of that strength or a greater one would take as part
    of their right operands. -/
structure Yields (least : Nat) (next : Lexeme) : Prop extends Detached next where
  stops : ∀ precedence, least ≤ precedence → precedence ≤ powerPrecedence →
    Stops (rightFloor precedence) next

theorem rightFloor_lt {precedence : Nat} (bounded : precedence ≤ powerPrecedence) :
    rightFloor precedence < powerPrecedence := by
  unfold rightFloor powerPrecedence at *
  split <;> omega

theorem Ends.yields {next : Lexeme} (ends : Ends next) (least : Nat) : Yields least next :=
  ⟨ends.toDetached, fun _ _ _ precedence op found =>
    (ends.stops precedence op found).trans (Nat.zero_le _)⟩

theorem Stops.yields {floor : Nat} {next : Lexeme} (stops : Stops floor next)
    (detached : Detached next) : Yields (floor + 1) next := by
  refine ⟨detached, fun precedence least bounded other op found => ?_⟩
  have below := stops other op found
  unfold rightFloor powerPrecedence at *
  split <;> omega

theorem InfixOp.detached_lexeme (op : InfixOp) : Detached op.lexeme := by
  rcases op with (_ | _) <;> rename_i op <;> cases op <;> exact ⟨rfl, rfl, rfl, rfl⟩

/-- The operators in a left operand leave the operator behind it alone. -/
theorem InfixOp.yields (op : InfixOp) : Yields (leftStrength op.precedence) op.lexeme := by
  refine ⟨op.detached_lexeme, fun precedence least bounded other op' found => ?_⟩
  obtain ⟨rfl, rfl⟩ : op.precedence = other ∧ op = op' := by
    rw [op.infixOp?_lexeme] at found
    simpa using found
  have high := op.precedence_le
  unfold leftStrength unaryStrength at least
  unfold rightFloor powerPrecedence at *
  split at least <;> split <;> omega

/-! ## Reading -/

section

variable {α β : Type} {a : α} {b : β} {c c' : Cursor} {lexeme next : Lexeme}
  {lexemes rest more : List Lexeme} {e : Expr}

/-- The lexemes ahead of a cursor outside of a header, with no arrow. -/
structure Cursor.Offers (c : Cursor) (lexemes : List Lexeme) : Prop
    extends c.Faces lexemes where
  arrowless : ∀ lexeme ∈ lexemes, lexeme.isMark .arrow = false

theorem Cursor.Offers.advance (offers : c.Offers (lexeme :: lexemes)) (more : lexemes ≠ []) :
    c.advance.Offers lexemes :=
  ⟨offers.toFaces.advance more, fun later member =>
    offers.arrowless later (List.mem_cons_of_mem _ member)⟩

/-- The source nests too deep. -/
def TooDeep (result : Except ScriptError α) : Prop :=
  ∃ position, result = .error (.syntaxFault position (.nestingTooDeep maxNesting))

theorem TooDeep.bind {first : Parse α} {following : α → Parse β} (refused : TooDeep (first c)) :
    TooDeep ((first >>= following) c) := by
  obtain ⟨position, refused⟩ := refused
  refine ⟨position, ?_⟩
  change (first c).bind _ = _
  rw [refused]
  rfl

/-- The parser takes everything before the rest and gives the value, unless the
    source nests too deep. -/
def Reads (parse : Parse α) (c : Cursor) (a : α) (rest : List Lexeme) : Prop :=
  (∃ c', parse c = .ok (a, c') ∧ c'.Offers rest) ∨ TooDeep (parse c)

theorem Reads.done {parse : Parse α} (parsed : parse c = .ok (a, c')) (behind : c'.Offers rest) :
    Reads parse c a rest :=
  .inl ⟨c', parsed, behind⟩

theorem Reads.after {first : Parse α} {following : α → Parse β} (parsed : first c = .ok (a, c'))
    (reads : Reads (following a) c' b rest) : Reads (first >>= following) c b rest := by
  rw [Reads, StateT.bind_ok parsed]
  exact reads

theorem Reads.bind {first : Parse α} {following : α → Parse β} (reads : Reads first c a more)
    (later : ∀ c', c'.Offers more → Reads (following a) c' b rest) :
    Reads (first >>= following) c b rest := by
  rcases reads with ⟨c', parsed, behind⟩ | refused
  · exact .after parsed (later c' behind)
  · exact .inr refused.bind

theorem Reads.allowingIn {parse : Parse α} (offers : c.Offers lexemes)
    (reads : Reads parse c a rest) : Reads (Parse.allowingIn parse) c a rest := by
  have saved : Parse.inBarred c = .ok (false, c) := by
    rw [← offers.unbarred]
    rfl
  refine .after saved (.after (setInBarred_eq offers.unbarred) (.bind reads ?_))
  exact fun c' behind => .after (setInBarred_eq behind.unbarred) (.done rfl behind)

/-- A formula at the head of the tokens is read. -/
structure Grammar.Inverts (g : Grammar) : Prop where
  operand {f : Formula} {c : Cursor} {next : Lexeme} {rest : List Lexeme} :
    c.Offers (f.lexemesAt unaryStrength ++ next :: rest) → Detached next →
      Reads g.operand c f.toExpr (next :: rest)
  operators {floor : Nat} {f : Formula} {c : Cursor} {next : Lexeme} {rest : List Lexeme} :
    floor < powerPrecedence → c.Offers (f.lexemesAt (floor + 1) ++ next :: rest) →
      Detached next → Stops floor next → Reads (g.operators floor) c f.toExpr (next :: rest)
  assignment {f : Formula} {c : Cursor} {next : Lexeme} {rest : List Lexeme} :
    c.Offers (f.lexemes ++ next :: rest) → Ends next →
      Reads g.assignment c f.toExpr (next :: rest)
  expression {f : Formula} {c : Cursor} {next : Lexeme} {rest : List Lexeme} :
    c.Offers (f.lexemes ++ next :: rest) → Ends next →
      Reads g.expression c f.toExpr (next :: rest)

/-! ## Operands -/

theorem Reads.unaryExpression {g : Grammar} (plain : Plain lexeme)
    (offers : c.Offers (lexeme :: lexemes)) (reads : Reads (primary g) c e (next :: rest))
    (detached : Detached next) : Reads (unaryExpression g) c e (next :: rest) := by
  rw [Reads, unaryExpression_plain plain offers.toFaces]
  change Reads (callMember g >>= _) c e (next :: rest)
  have called : Reads (callMember g) c e (next :: rest) := by
    rw [Reads, callMember_plain plain offers.toFaces]
    exact reads.bind fun c' behind =>
      .done (accessChain_detached g behind.toFaces detached _ e) behind
  refine called.bind fun c' behind => ?_
  have peeked : Parse.peek c' = .ok (c'.current, c') := rfl
  refine .after peeked ?_
  rw [behind.current, detached.noUpdate]
  exact .done rfl behind

/-- A lexeme that is an expression alone. -/
inductive Single : Lexeme → Expr → Prop where
  | number {value : Float} : Single (.number value) (.number value)
  | bool {value : Bool} : Single (.keyword (if value then .trueWord else .falseWord)) (.bool value)
  | null : Single (.keyword .nullWord) .null
  | undefined : Single (.keyword .undefinedWord) .undefined
  | identifier {name : String} : Single (.identifier name) (.identifier name)

theorem Single.plain (single : Single lexeme e) : Plain lexeme := by
  cases single with
  | bool => rename_i value; cases value <;> exact ⟨rfl, rfl, rfl⟩
  | _ => exact ⟨rfl, rfl, rfl⟩

theorem Single.unaryExpression {g : Grammar} (single : Single lexeme e)
    (offers : c.Offers (lexeme :: next :: rest)) (detached : Detached next) :
    Reads (unaryExpression g) c e (next :: rest) := by
  have read : primary g c = .ok (e, c.advance) := by
    rw [primary, StateT.bind_ok (Parse.advance_run c), offers.current]
    cases single with
    | bool => rename_i value; cases value <;> rfl
    | _ => rfl
  have behind := offers.advance (List.cons_ne_nil _ _)
  exact (Reads.done read behind).unaryExpression single.plain offers detached

section

variable {g : Grammar} (inverts : g.Inverts) {f : Formula}
include inverts

theorem primary_parens (some : rest ≠ [])
    (offers : c.Offers (.mark .openParen :: (f.lexemes ++ .mark .closeParen :: rest))) :
    Reads (primary g) c f.toExpr rest := by
  have inner := offers.advance (by simp)
  refine .after (Parse.advance_run c) ?_
  rw [offers.current]
  have read := inverts.expression inner ends_closeParen
  refine (read.allowingIn inner).bind fun c' behind => ?_
  exact .after (behind.toFaces.expectMark_eq _) (.done rfl (behind.advance some))

theorem unaryExpression_reads (offers : c.Offers (f.lexemesAt unaryStrength ++ next :: rest))
    (detached : Detached next) : Reads (unaryExpression g) c f.toExpr (next :: rest) := by
  by_cases weaker : f.strength < unaryStrength
  · rw [Formula.lexemesAt_of_lt weaker, List.cons_append, List.append_assoc,
      List.singleton_append] at offers
    have read := primary_parens inverts (List.cons_ne_nil _ _) offers
    exact read.unaryExpression ⟨rfl, rfl, rfl⟩ offers detached
  · rw [Formula.lexemesAt_of_le (Nat.not_lt.mp weaker)] at offers
    cases f with
    | number => exact Single.number.unaryExpression offers detached
    | bool => exact Single.bool.unaryExpression offers detached
    | null => exact Single.null.unaryExpression offers detached
    | undefined => exact Single.undefined.unaryExpression offers detached
    | identifier => exact Single.identifier.unaryExpression offers detached
    | unary op operand =>
        refine .after offers.lexeme_eq ?_
        rw [unaryOp?_lexeme]
        refine .after (Parse.skip_run c) ((inverts.operand (offers.advance ?_) detached).bind ?_)
        · simp
        · exact fun c' behind => .done rfl behind
    | operation op left right => exact absurd (Nat.lt_succ_of_le op.precedence_le) weaker
    | conditional | assign => exact absurd (Nat.succ_pos _) weaker

/-! ## Operators -/

/-- What the operators are applied to, up to the rest. -/
def Reaches (g : Grammar) (floor : Nat) (c : Cursor) (e : Expr) (rest : List Lexeme) : Prop :=
  (∃ bound c', operatorExpression g floor c = operatorsAfter g floor bound e c' ∧
    c'.Offers rest ∧ rest.length ≤ bound) ∨
  TooDeep (operatorExpression g floor c)

theorem reaches_operand {floor least : Nat} (bounded : least ≤ unaryStrength)
    (apart : unaryStrength ≤ f.strength ∨ f.strength < least)
    (offers : c.Offers (f.lexemesAt least ++ next :: rest)) (detached : Detached next) :
    Reaches g floor c f.toExpr (next :: rest) := by
  rw [Formula.lexemesAt_eq bounded apart] at offers
  rcases unaryExpression_reads inverts offers detached with ⟨c', parsed, behind⟩ | refused
  · exact .inl ⟨_, c', operatorExpression_eq parsed, behind, behind.length_le⟩
  · exact .inr refused.bind

/-- One operator and its right operand more. -/
theorem Reaches.operation {floor : Nat} {op : InfixOp} (above : floor < op.precedence)
    (reaches : Reaches g floor c e
      (op.lexeme :: (f.lexemesAt (rightStrength op.precedence) ++ next :: rest)))
    (detached : Detached next) (stops : Stops (rightFloor op.precedence) next) :
    Reaches g floor c (op.apply e f.toExpr) (next :: rest) := by
  rcases reaches with ⟨bound, c', reached, behind, enough⟩ | refused
  · obtain ⟨bound, rfl⟩ := Nat.exists_eq_add_one_of_ne_zero (Nat.ne_zero_of_lt enough)
    have turn := operatorsAfter_turn (g := g) op.infixOp?_lexeme above behind.toFaces bound e
    have right := inverts.operators (rightFloor_lt op.precedence_le) (behind.advance (by simp))
      detached stops
    rw [Reaches, reached, turn]
    rcases right with ⟨c'', parsed, after⟩ | refused
    · refine .inl ⟨bound, c'', StateT.bind_ok parsed, after, ?_⟩
      simp only [List.length_cons, List.length_append] at enough ⊢
      omega
    · exact .inr refused.bind
  · exact .inr refused

/-- Operators that bind tighter than the floor are all taken. -/
theorem reaches_formula {floor least : Nat} (above : floor < least)
    (bounded : least ≤ unaryStrength) (offers : c.Offers (f.lexemesAt least ++ next :: rest))
    (yields : Yields least next) :
    Reaches g floor c f.toExpr (next :: rest) := by
  -- Along the left operands; the right ones are read by the level below.
  induction f generalizing c least next rest with
  | number | bool | null | undefined | identifier =>
      exact reaches_operand inverts bounded (.inl (Nat.le_succ _)) offers yields.toDetached
  | unary => exact reaches_operand inverts bounded (.inl le_rfl) offers yields.toDetached
  | conditional | assign =>
      have enclosed := Nat.zero_lt_of_lt above
      exact reaches_operand inverts bounded (.inr enclosed) offers yields.toDetached
  | operation op left right ih _ =>
      by_cases binds : least ≤ op.precedence
      · rw [Formula.lexemesAt_of_le binds, Formula.lexemes, List.append_assoc] at offers
        have below := above.trans_le binds
        have fits := leftStrength_bounds op.precedence_le
        have reached := ih (below.trans_le fits.1) fits.2 offers op.yields
        exact reached.operation inverts below yields.toDetached
          (yields.stops _ binds op.precedence_le)
      · have enclosed := Nat.not_le.mp binds
        exact reaches_operand inverts bounded (.inr enclosed) offers yields.toDetached

theorem operatorExpression_reads {floor : Nat} (low : floor < powerPrecedence)
    (offers : c.Offers (f.lexemesAt (floor + 1) ++ next :: rest)) (detached : Detached next)
    (stops : Stops floor next) : Reads (operatorExpression g floor) c f.toExpr (next :: rest) := by
  have bounded : floor + 1 ≤ unaryStrength := by
    unfold unaryStrength
    omega
  rcases reaches_formula inverts (Nat.lt_succ_self floor) bounded offers (stops.yields detached)
    with ⟨bound, c', reached, behind, -⟩ | refused
  · refine .done ?_ behind
    rw [reached, operatorsAfter_stops stops g behind.toFaces]
  · exact .inr refused

/-! ## Conditionals -/

theorem conditionalExpression_operators (binds : 0 < f.strength)
    (offers : c.Offers (f.lexemes ++ next :: rest)) (detached : Detached next)
    (stops : Stops 0 next) (noQuestion : next.isMark .question = false) :
    Reads (conditionalExpression g) c f.toExpr (next :: rest) := by
  have floor : (0 : Nat) < powerPrecedence := by decide
  rw [← Formula.lexemesAt_of_le binds] at offers
  refine (operatorExpression_reads inverts floor offers detached stops).bind fun c' behind => ?_
  exact .after (behind.toFaces.eatMark_eq noQuestion) (.done rfl behind)

theorem conditionalExpression_conditional {condition consequent alternative : Formula}
    (offers : c.Offers
      ((Formula.conditional condition consequent alternative).lexemes ++ next :: rest))
    (ends : Ends next) :
    Reads (conditionalExpression g) c
      (.conditional condition.toExpr consequent.toExpr alternative.toExpr) (next :: rest) := by
  have floor : (0 : Nat) < powerPrecedence := by decide
  have question : Stops 0 (.mark .question) := nofun
  rw [Formula.lexemes, List.append_assoc, List.cons_append, List.append_assoc,
    List.cons_append] at offers
  refine (operatorExpression_reads inverts floor offers ⟨rfl, rfl, rfl, rfl⟩ question).bind
    fun c' asked => .after asked.toFaces.eatMark_self ?_
  have first := asked.advance (by simp)
  refine .allowingIn first ((inverts.assignment first ends_colon).bind fun c'' parted => ?_)
  have second := parted.advance (by simp)
  refine .after (parted.toFaces.expectMark_eq _) ?_
  exact (inverts.assignment second ends).bind fun _ behind => .done rfl behind

end

/-! ## Assignments -/

theorem closesBeforeArrow_eq_false {tokens : List Token}
    (arrowless : ∀ token ∈ tokens, token.lexeme.isMark .arrow = false) (depth : Nat) :
    closesBeforeArrow depth tokens = false := by
  induction tokens generalizing depth with
  | nil => rfl
  | cons token rest ih =>
      have later := ih fun other member => arrowless other (List.mem_cons_of_mem _ member)
      unfold closesBeforeArrow
      split
      · exact later _
      · split
        · split
          · cases rest with
            | nil => rfl
            | cons next rest => exact arrowless next (by simp)
          · exact later _
        · exact later _

theorem Cursor.Offers.arrowAhead_eq (offers : c.Offers (lexeme :: next :: lexemes)) :
    arrowAhead c = .ok (false, c) := by
  unfold arrowAhead
  rw [offers.current]
  split
  · rw [offers.lookahead_one, offers.arrowless next (by simp)]
  · have arrowless : ∀ token ∈ c.ahead, token.lexeme.isMark .arrow = false := fun token member =>
      offers.arrowless _ (offers.ahead ▸ List.mem_map_of_mem member)
    rw [closesBeforeArrow_eq_false arrowless]
  · rfl

/-- What no assignment follows. -/
theorem Reads.assignmentExpression {g : Grammar} (offers : c.Offers (lexeme :: next :: lexemes))
    {behind : Lexeme} (reads : Reads (conditionalExpression g) c e (behind :: rest))
    (noAssignment : assignmentOp? behind = none) :
    Reads (assignmentExpression g) c e (behind :: rest) := by
  refine .after offers.arrowAhead_eq (reads.bind fun c' after => .after after.lexeme_eq ?_)
  rw [noAssignment]
  exact .done rfl after

theorem AssignOp.detached_lexeme (op : AssignOp) : Detached op.lexeme := by
  cases op <;> exact ⟨rfl, rfl, rfl, rfl⟩

theorem AssignOp.stops_lexeme (op : AssignOp) : Stops 0 op.lexeme := by
  cases op <;> nofun

theorem AssignOp.noQuestion_lexeme (op : AssignOp) : op.lexeme.isMark .question = false := by
  cases op <;> rfl

section

variable {g : Grammar} (inverts : g.Inverts) {f : Formula}
include inverts

theorem assignmentExpression_assign {op : AssignOp} {target : String}
    (offers : c.Offers ((Formula.assign op target f).lexemes ++ next :: rest))
    (ends : Ends next) :
    Reads (assignmentExpression g) c (.assign op.applied (.identifier target) f.toExpr)
      (next :: rest) := by
  refine .after offers.arrowAhead_eq ?_
  have named := conditionalExpression_operators inverts (f := .identifier target)
    (Nat.succ_pos _) offers op.detached_lexeme op.stops_lexeme op.noQuestion_lexeme
  refine named.bind fun c' before => .after before.lexeme_eq ?_
  rw [op.assignmentOp?_lexeme]
  refine .after (Parse.skip_run c') ?_
  refine (inverts.assignment (before.advance (by simp)) ends).bind fun _ behind => ?_
  exact .done rfl behind

theorem assignmentExpression_reads (offers : c.Offers (f.lexemes ++ next :: rest))
    (ends : Ends next) : Reads (assignmentExpression g) c f.toExpr (next :: rest) := by
  obtain ⟨first, second, others, split⟩ := f.exists_lexemes_append next rest
  have operators := fun binds =>
    conditionalExpression_operators inverts (f := f) binds offers ends.toDetached ends.stops
      ends.noQuestion
  have plain : Reads (conditionalExpression g) c f.toExpr (next :: rest) →
      Reads (assignmentExpression g) c f.toExpr (next :: rest) :=
    fun reads => reads.assignmentExpression (split ▸ offers) ends.noAssignment
  cases f with
  | number | bool | null | undefined | identifier | unary =>
      exact plain (operators (Nat.succ_pos _))
  | operation op left right => exact plain (operators op.precedence_pos)
  | conditional => exact plain (conditionalExpression_conditional inverts offers ends)
  | assign => exact assignmentExpression_assign inverts offers ends

/-! ## All levels -/

theorem Grammar.Inverts.around : g.around.Inverts where
  operand offers detached := unaryExpression_reads inverts offers detached
  operators low offers detached stops := operatorExpression_reads inverts low offers detached stops
  assignment offers ends := assignmentExpression_reads inverts offers ends
  expression offers ends := inverts.assignment offers ends

end

theorem Grammar.exhausted_inverts : Grammar.exhausted.Inverts where
  operand _ _ := .inr ⟨_, rfl⟩
  operators _ _ _ _ := .inr ⟨_, rfl⟩
  assignment _ _ := .inr ⟨_, rfl⟩
  expression _ _ := .inr ⟨_, rfl⟩

theorem Grammar.level_inverts (n : Nat) : (Grammar.level n).Inverts := by
  induction n with
  | zero => exact exhausted_inverts
  | succ n ih => exact ih.around

end

namespace Formula

theorem noArrow_enclosed {strength least : Nat} {lexemes : List Lexeme}
    (inner : ∀ lexeme ∈ lexemes, lexeme.isMark .arrow = false) :
    ∀ lexeme ∈ enclosed strength least lexemes, lexeme.isMark .arrow = false := by
  unfold enclosed
  split
  · exact List.forall_mem_cons.mpr
      ⟨rfl, List.forall_mem_append.mpr ⟨inner, List.forall_mem_singleton.mpr rfl⟩⟩
  · exact inner

theorem noArrow (f : Formula) : ∀ lexeme ∈ f.lexemes, lexeme.isMark .arrow = false := by
  induction f with
  | number | bool | null | undefined | identifier =>
      intro lexeme member
      rw [List.mem_singleton.mp member]
      rfl
  | unary op operand ih =>
      refine List.forall_mem_cons.mpr ⟨?_, noArrow_enclosed ih⟩
      cases op <;> rfl
  | operation op left right ihLeft ihRight =>
      refine List.forall_mem_append.mpr ⟨noArrow_enclosed ihLeft, ?_⟩
      refine List.forall_mem_cons.mpr ⟨?_, noArrow_enclosed ihRight⟩
      rcases op with (_ | _) <;> rename_i op <;> cases op <;> rfl
  | conditional condition consequent alternative ihCondition ihConsequent ihAlternative =>
      refine List.forall_mem_append.mpr ⟨noArrow_enclosed ihCondition, ?_⟩
      refine List.forall_mem_cons.mpr ⟨rfl, List.forall_mem_append.mpr ⟨ihConsequent, ?_⟩⟩
      exact List.forall_mem_cons.mpr ⟨rfl, ihAlternative⟩
  | assign op target value ih =>
      refine List.forall_mem_cons.mpr ⟨rfl, List.forall_mem_cons.mpr ⟨?_, ih⟩⟩
      cases op <;> rfl

/-- The tokens of a formula are parsed as its tree, or they nest too deep. -/
theorem ofTokens_lexemes (f : Formula) {tokens : List Token}
    (written : tokens.map Token.lexeme = f.lexemes ++ [.endOfInput]) :
    Expr.ofTokens tokens = .ok f.toExpr ∨
      ∃ position, Expr.ofTokens tokens =
        .error (.syntaxFault position (.nestingTooDeep maxNesting)) := by
  have offers : (Cursor.ofTokens tokens).Offers (f.lexemes ++ [.endOfInput]) := by
    refine ⟨⟨written, le_rfl, rfl⟩, fun lexeme member => ?_⟩
    rcases List.mem_append.mp member with inside | last
    · exact f.noArrow lexeme inside
    · rw [List.mem_singleton.mp last]
      rfl
  have finished : ∀ c' : Cursor, c'.Offers [.endOfInput] →
      Parse.atEnd c' = .ok (true, c') := by
    intro c' behind
    rw [Parse.atEnd, behind.current]
    rfl
  have read := (Grammar.level_inverts maxNesting).expression offers ends_endOfInput
  have whole : Reads (do
      let value ← (Grammar.level maxNesting).expression
      if ← Parse.atEnd then pure value else Parse.unexpected "end of expression")
      (.ofTokens tokens) f.toExpr [.endOfInput] :=
    read.bind fun c' behind => .after (finished c' behind) (.done rfl behind)
  rcases whole with ⟨c', parsed, -⟩ | ⟨position, refused⟩
  · exact .inl (congrArg (Except.map Prod.fst) parsed)
  · exact .inr ⟨position, congrArg (Except.map Prod.fst) refused⟩

/-- Only the sum needs parentheses in `x = (a + 2) * -b ** c ** d`. -/
def mixed : Formula :=
  .assign .plain "x" (.operation (.binary .multiply)
    (.operation (.binary .add) (.identifier "a") (.number 2))
    (.operation (.binary .power) (.unary .negate (.identifier "b"))
      (.operation (.binary .power) (.identifier "c") (.identifier "d"))))

theorem ofTokens_lexemes_mixed :
    let lexemes : List Lexeme :=
      [.identifier "x", .mark .assign, .mark .openParen, .identifier "a", .mark .plus, .number 2,
        .mark .closeParen, .mark .star, .mark .minus, .identifier "b", .mark .starStar,
        .identifier "c", .mark .starStar, .identifier "d", .endOfInput]
    let tokens : List Token := lexemes.map fun lexeme => ⟨lexeme, .start, false⟩
    Expr.ofTokens tokens = .ok mixed.toExpr := by
  intro lexemes tokens
  have parsed : (Expr.ofTokens tokens).isOk = true := by decide +kernel
  refine (mixed.ofTokens_lexemes rfl).resolve_right ?_
  rintro ⟨position, refused⟩
  rw [refused] at parsed
  exact Bool.false_ne_true parsed

end Formula

end Script

end StrategyQubo
