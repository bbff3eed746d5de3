import StrategyQubo.Proofs.TokenTexts
import StrategyQubo.Script.Syntax.Parse

namespace StrategyQubo

open StrategyQubo.Script

/-! # Sums of products, as they are written

Numbers and names with stars between them, and such products with plus signs
between them.  A text of that form is read as the sum of the products.
-/

namespace Script

/-! ## The form -/

/-- A number or a name: its text, its lexeme and its tree. -/
inductive Operand : List Char → Lexeme → Expr → Prop where
  | number {text : List Char} {n : Number.Numeral} :
      Number.numeral? text = some n → Operand text (.number n.toFloat) (.number n.toFloat)
  | name {digits : List Char} :
      (∀ c ∈ digits, c.isDigit = true) →
      Operand ('x' :: digits) (.identifier (String.ofList ('x' :: digits)))
        (.identifier (String.ofList ('x' :: digits)))

/-- An operand, or a number with a minus sign before it. -/
inductive Factor : List Char → List Lexeme → Expr → Prop where
  | operand {text : List Char} {lexeme : Lexeme} {e : Expr} :
      Operand text lexeme e → Factor text [lexeme] e
  | negative {text : List Char} {n : Number.Numeral} :
      Number.numeral? text = some n →
      Factor ('-' :: text) [.mark .minus, .number n.toFloat] (.unary .negate (.number n.toFloat))

inductive Product : List Char → List Lexeme → Expr → Prop where
  | factor {text : List Char} {lexemes : List Lexeme} {e : Expr} :
      Factor text lexemes e → Product text lexemes e
  | times {text text' : List Char} {lexemes lexemes' : List Lexeme} {e e' : Expr} :
      Product text lexemes e → Factor text' lexemes' e' →
      Product (text ++ ' ' :: '*' :: ' ' :: text') (lexemes ++ .mark .star :: lexemes')
        (.binary .multiply e e')

inductive Sum : List Char → List Lexeme → Expr → Prop where
  | product {text : List Char} {lexemes : List Lexeme} {e : Expr} :
      Product text lexemes e → Sum text lexemes e
  | plus {text text' : List Char} {lexemes lexemes' : List Lexeme} {e e' : Expr} :
      Sum text lexemes e → Product text' lexemes' e' →
      Sum (text ++ ' ' :: '+' :: ' ' :: text') (lexemes ++ .mark .plus :: lexemes')
        (.binary .add e e')

/-! ## Cutting -/

section

open Scan

variable {text rest : List Char} {lexeme : Lexeme} {lexemes later : List Lexeme} {e : Expr}

theorem Operand.cuts (operand : Operand text lexeme e) (breaks : Breaks rest)
    (cuts : Cuts rest later) : Cuts (text ++ rest) (lexeme :: later) := by
  cases operand with
  | number found => exact .number found breaks cuts
  | name decimal => exact .name decimal breaks cuts

theorem markAt?_minus (starts : startsNumber text = true) :
    markAt? ('-' :: text) = some .minus := by
  cases text with
  | nil => cases starts
  | cons c text =>
      have apart : c ≠ '-' ∧ c ≠ '=' := by
        refine ⟨?_, ?_⟩ <;> rintro rfl <;> cases starts
      simp [markAt?, Mark.all, Mark.spelling, List.isPrefixOf, apart.1.symm, apart.2.symm]

theorem Factor.cuts (factor : Factor text lexemes e) (breaks : Breaks rest)
    (cuts : Cuts rest later) : Cuts (text ++ rest) (lexemes ++ later) := by
  cases factor with
  | operand operand => exact operand.cuts breaks cuts
  | negative found =>
      have starts :=
        Number.startsNumber_of_spanNumeral? (Number.spanNumeral?_of_numeral? found breaks)
      exact .mark (by decide) (markAt?_minus starts) (.number found breaks cuts)

theorem Factor.solid (factor : Factor text lexemes e) (breaks : Breaks rest) :
    Solid (text ++ rest) := by
  cases factor with
  | operand operand =>
      cases operand with
      | number found =>
          exact solid_of_startsNumber
            (Number.startsNumber_of_spanNumeral? (Number.spanNumeral?_of_numeral? found breaks))
      | name decimal => exact solid_letter (by decide) _
  | negative found => exact solid_mark (by decide : ('-', Mark.minus) ∈ plainMarks) _

/-- A mark with a blank on either side. -/
theorem cuts_spaced {c : Char} {mark : Mark} (plain : (c, mark) ∈ plainMarks)
    (found : markAt? (c :: ' ' :: text) = some mark) (solid : Solid text)
    (cuts : Cuts text later) : Cuts (' ' :: c :: ' ' :: text) (.mark mark :: later) :=
  .blank (solid_mark plain _) (.mark plain found (.blank solid cuts))

theorem Product.solid (product : Product text lexemes e) (breaks : Breaks rest) :
    Solid (text ++ rest) := by
  induction product generalizing rest with
  | factor factor => exact factor.solid breaks
  | times product factor ih =>
      rw [List.append_assoc]
      exact ih (.cons (by decide) _)

theorem Product.cuts (product : Product text lexemes e) (breaks : Breaks rest)
    (cuts : Cuts rest later) : Cuts (text ++ rest) (lexemes ++ later) := by
  induction product generalizing rest later with
  | factor factor => exact factor.cuts breaks cuts
  | times product factor ih =>
      rw [List.append_assoc, List.append_assoc]
      exact ih (.cons (by decide) _)
        (cuts_spaced (by decide) rfl (factor.solid breaks) (factor.cuts breaks cuts))

theorem Sum.cuts (sum : Sum text lexemes e) (breaks : Breaks rest) (cuts : Cuts rest later) :
    Cuts (text ++ rest) (lexemes ++ later) := by
  induction sum generalizing rest later with
  | product product => exact product.cuts breaks cuts
  | plus sum product ih =>
      rw [List.append_assoc, List.append_assoc]
      exact ih (.cons (by decide) _)
        (cuts_spaced (by decide) rfl (product.solid breaks) (product.cuts breaks cuts))

theorem Sum.solid (sum : Sum text lexemes e) (breaks : Breaks rest) : Solid (text ++ rest) := by
  induction sum generalizing rest with
  | product product => exact product.solid breaks
  | plus sum product ih =>
      rw [List.append_assoc]
      exact ih (.cons (by decide) _)

theorem Sum.ne_nil (sum : Sum text lexemes e) : text ≠ [] := by
  have numeral : ∀ {text : List Char} {n : Number.Numeral},
      Number.numeral? text = some n → text ≠ [] := by
    rintro text n found rfl
    cases found
  cases sum with
  | plus sum product => simp
  | product product =>
      cases product with
      | times product factor => simp
      | factor factor =>
          cases factor with
          | negative found => simp
          | operand operand =>
              cases operand with
              | number found => exact numeral found
              | name decimal => simp

/-- The lexemes of a sum, and behind them the end mark. -/
theorem Sum.tokenize_eq {text : String} (sum : Sum text.toList lexemes e) :
    ∃ tokens, tokenize text = .ok tokens ∧
      tokens.map Token.lexeme = lexemes ++ [.endOfInput] ∧
      ∀ token ∈ tokens, token.newlineBefore = false := by
  have whole := sum.cuts .nil .done
  rw [List.append_nil] at whole
  exact tokenize_of_cuts whole

end

/-! ## Cursors -/

/-- The lexemes ahead of a cursor outside of a header. -/
structure Cursor.Faces (c : Cursor) (lexemes : List Lexeme) : Prop where
  ahead : c.ahead.map Token.lexeme = lexemes
  room : c.ahead.length ≤ c.size
  unbarred : c.inBarred = false

/-- The lexemes ahead of a cursor outside of a header, all on one line. -/
structure Cursor.Shows (c : Cursor) (lexemes : List Lexeme) : Prop
    extends c.Faces lexemes where
  inLine : ∀ token ∈ c.ahead, token.newlineBefore = false

section

variable {c : Cursor} {lexeme next : Lexeme} {lexemes rest : List Lexeme} {e : Expr}

theorem Parse.advance_run (c : Cursor) : Parse.advance c = .ok (c.current, c.advance) := rfl

theorem Parse.skip_run (c : Cursor) : Parse.skip c = .ok ((), c.advance) := rfl

theorem Parse.size_run (c : Cursor) : Parse.size c = .ok (c.size, c) := rfl

theorem Cursor.Faces.length_le (faces : c.Faces lexemes) : lexemes.length ≤ c.size := by
  rw [← faces.ahead, List.length_map]
  exact faces.room

theorem Cursor.Faces.current (faces : c.Faces (lexeme :: lexemes)) :
    c.current.lexeme = lexeme := by
  obtain ⟨token, tokens, ahead, rfl, -⟩ := List.map_eq_cons_iff.mp faces.ahead
  rw [Cursor.current, ahead]
  rfl

/-- One token further, the tokens ahead are the others. -/
theorem Cursor.Faces.advance_ahead (faces : c.Faces (lexeme :: lexemes)) (more : lexemes ≠ []) :
    c.advance.Faces lexemes ∧ ∀ token ∈ c.advance.ahead, token ∈ c.ahead := by
  obtain ⟨mapped, room, unbarred⟩ := faces
  obtain ⟨token, tokens, ahead, rfl, rfl⟩ := List.map_eq_cons_iff.mp mapped
  cases tokens with
  | nil => exact absurd rfl more
  | cons token' tokens' =>
      have moved : c.advance = { c with before := some token, ahead := token' :: tokens' } := by
        rw [Cursor.advance, ahead]
      rw [ahead] at room
      rw [moved, ahead]
      exact ⟨⟨rfl, le_trans (Nat.le_succ _) room, unbarred⟩,
        fun later member => List.mem_cons_of_mem _ member⟩

theorem Cursor.Faces.advance (faces : c.Faces (lexeme :: lexemes)) (more : lexemes ≠ []) :
    c.advance.Faces lexemes :=
  (faces.advance_ahead more).1

theorem Cursor.Shows.advance (shows : c.Shows (lexeme :: lexemes)) (more : lexemes ≠ []) :
    c.advance.Shows lexemes :=
  have moved := shows.advance_ahead more
  ⟨moved.1, fun token member => shows.inLine token (moved.2 token member)⟩

theorem Cursor.Faces.lexeme_eq (faces : c.Faces (lexeme :: lexemes)) :
    Parse.lexeme c = .ok (lexeme, c) := by
  rw [← faces.current]
  rfl

theorem Cursor.Shows.peek_eq (shows : c.Shows (lexeme :: lexemes)) :
    Parse.peek c = .ok (c.current, c) ∧ c.current.lexeme = lexeme ∧
      c.current.newlineBefore = false := by
  refine ⟨rfl, shows.current, ?_⟩
  obtain ⟨token, tokens, ahead, -, -⟩ := List.map_eq_cons_iff.mp shows.ahead
  have inLine := shows.inLine
  rw [ahead] at inLine
  rw [Cursor.current, ahead]
  exact inLine token List.mem_cons_self

theorem Cursor.Faces.eatMark_eq (faces : c.Faces (lexeme :: lexemes)) {mark : Mark}
    (other : lexeme.isMark mark = false) : Parse.eatMark mark c = .ok (false, c) := by
  rw [Parse.eatMark, faces.current, other]
  rfl

theorem Cursor.Faces.atMark_eq (faces : c.Faces (lexeme :: lexemes)) (mark : Mark) :
    Parse.atMark mark c = .ok (lexeme.isMark mark, c) := by
  rw [← faces.current]
  rfl

theorem Cursor.Faces.lookahead_one (faces : c.Faces (lexeme :: next :: lexemes)) :
    c.lookahead 1 = next := by
  obtain ⟨token, tokens, ahead, -, mapped⟩ := List.map_eq_cons_iff.mp faces.ahead
  obtain ⟨token', tokens', rfl, rfl, -⟩ := List.map_eq_cons_iff.mp mapped
  rw [Cursor.lookahead, ahead]
  rfl

/-! ## Operands and factors -/

/-- What may stand behind an operand. -/
inductive Joint : Lexeme → Prop where
  | plus : Joint (.mark .plus)
  | star : Joint (.mark .star)
  | comma : Joint (.mark .comma)
  | semicolon : Joint (.mark .semicolon)
  | closeBracket : Joint (.mark .closeBracket)
  | closeBrace : Joint (.mark .closeBrace)
  | done : Joint .endOfInput

/-- Nothing that would still belong to the operand before it. -/
structure Detached (next : Lexeme) : Prop where
  noDot : next.isMark .dot = false
  noBracket : next.isMark .openBracket = false
  noParen : next.isMark .openParen = false
  noUpdate : updateOp? next = none

theorem Joint.detached (joint : Joint next) : Detached next := by
  cases joint <;> exact ⟨rfl, rfl, rfl, rfl⟩

theorem accessChain_detached (g : Grammar) (faces : c.Faces (next :: rest))
    (detached : Detached next) (bound : Nat) (value : Expr) :
    accessChain g bound value c = .ok (value, c) := by
  cases bound with
  | zero => rfl
  | succ bound =>
      have atParen := faces.atMark_eq .openParen
      rw [detached.noParen] at atParen
      rw [accessChain, StateT.bind_ok (faces.eatMark_eq detached.noDot)]
      refine (StateT.bind_ok (faces.eatMark_eq detached.noBracket)).trans ?_
      exact StateT.bind_ok atParen

/-- No operator before an operand, and no `new`. -/
structure Plain (lexeme : Lexeme) : Prop where
  noUnary : unaryOp? lexeme = none
  noUpdate : updateOp? lexeme = none
  noNew : lexeme.isKeyword .newWord = false

theorem unaryExpression_plain {g : Grammar} (plain : Plain lexeme)
    (faces : c.Faces (lexeme :: lexemes)) : unaryExpression g c = postfixUpdate g c := by
  rw [unaryExpression, StateT.bind_ok faces.lexeme_eq, plain.noUnary, plain.noUpdate]

theorem callMember_plain {g : Grammar} (plain : Plain lexeme)
    (faces : c.Faces (lexeme :: lexemes)) :
    callMember g c = (primary g >>= accessChain g c.size) c := by
  have notNew : Parse.eatKeyword .newWord c = .ok (false, c) := by
    rw [Parse.eatKeyword, faces.current, plain.noNew]
    rfl
  rw [callMember, StateT.bind_ok notNew]
  exact StateT.bind_ok (Parse.size_run c)

/-- A primary expression with nothing applied to it. -/
theorem unaryExpression_of_primary {g : Grammar} {c' : Cursor} (plain : Plain lexeme)
    (faces : c.Faces (lexeme :: lexemes)) (read : primary g c = .ok (e, c'))
    (behind : c'.Faces (next :: rest)) (detached : Detached next) :
    unaryExpression g c = .ok (e, c') := by
  have chained : callMember g c = .ok (e, c') := by
    rw [callMember_plain plain faces, StateT.bind_ok read]
    exact accessChain_detached g behind detached _ e
  have peeked : Parse.peek c' = .ok (c'.current, c') := rfl
  rw [unaryExpression_plain plain faces, postfixUpdate, StateT.bind_ok chained,
    StateT.bind_ok peeked, behind.current, detached.noUpdate]
  rfl

theorem Operand.unaryExpression_eq {text : List Char} (operand : Operand text lexeme e)
    (g : Grammar) (shows : c.Shows (lexeme :: next :: rest)) (joint : Joint next) :
    unaryExpression g c = .ok (e, c.advance) := by
  have read : primary g c = .ok (e, c.advance) := by
    rw [primary, StateT.bind_ok (Parse.advance_run c), shows.current]
    cases operand <;> rfl
  refine unaryExpression_of_primary ?_ shows.toFaces read
    (shows.advance (List.cons_ne_nil _ _)).toFaces joint.detached
  cases operand <;> exact ⟨rfl, rfl, rfl⟩

theorem Factor.unaryExpression_eq {text : List Char} (factor : Factor text lexemes e) (n : Nat)
    (shows : c.Shows (lexemes ++ next :: rest)) (joint : Joint next) :
    ∃ c', unaryExpression (.level (n + 1)) c = .ok (e, c') ∧ c'.Shows (next :: rest) := by
  cases factor with
  | operand operand =>
      exact ⟨_, operand.unaryExpression_eq _ shows joint, shows.advance (List.cons_ne_nil _ _)⟩
  | negative found =>
      have behind := shows.advance (List.cons_ne_nil _ _)
      have inner : (Grammar.level (n + 1)).operand c.advance =
          .ok (_, c.advance.advance) :=
        (Operand.number found).unaryExpression_eq (.level n) behind joint
      refine ⟨_, ?_, behind.advance (List.cons_ne_nil _ _)⟩
      rw [unaryExpression, StateT.bind_ok shows.lexeme_eq]
      refine (StateT.bind_ok (Parse.skip_run c)).trans ((StateT.bind_ok inner).trans ?_)
      rfl

/-! ## Products and sums -/

/-- No operator that binds tighter than `floor`. -/
def Stops (floor : Nat) (lexeme : Lexeme) : Prop :=
  ∀ precedence op, infixOp? lexeme = some (precedence, op) → precedence ≤ floor

theorem operatorsAfter_stops {floor : Nat} (stops : Stops floor next) (g : Grammar)
    (faces : c.Faces (next :: rest)) (bound : Nat) (left : Expr) :
    operatorsAfter g floor bound left c = .ok (left, c) := by
  cases bound with
  | zero => rfl
  | succ bound =>
      rw [operatorsAfter, StateT.bind_ok faces.lexeme_eq]
      cases found : infixOp? next with
      | none => rfl
      | some entry =>
          obtain ⟨precedence, op⟩ := entry
          dsimp only
          rw [if_pos (stops precedence op found)]
          rfl

/-- What the operators in the right operand have to bind tighter than. -/
def rightFloor (precedence : Nat) : Nat :=
  if precedence = powerPrecedence then precedence - 1 else precedence

/-- An operator that binds tighter takes an operand more. -/
theorem operatorsAfter_turn {floor precedence : Nat} {op : InfixOp} {g : Grammar}
    (found : infixOp? lexeme = some (precedence, op)) (tighter : floor < precedence)
    (faces : c.Faces (lexeme :: rest)) (bound : Nat) (left : Expr) :
    operatorsAfter g floor (bound + 1) left c =
      (g.operators (rightFloor precedence) >>= fun right =>
        operatorsAfter g floor bound (op.apply left right)) c.advance := by
  have barred : Parse.inBarred c = .ok (false, c) := by
    rw [← faces.unbarred]
    rfl
  rw [operatorsAfter, StateT.bind_ok faces.lexeme_eq, found]
  dsimp only
  rw [if_neg (Nat.not_le.mpr tighter), StateT.bind_ok barred, Bool.and_false,
    if_neg Bool.false_ne_true, StateT.bind_ok (Parse.skip_run c)]
  rfl

theorem operatorsAfter_step {floor precedence : Nat} {op : BinaryOp} {mark : Mark} {g : Grammar}
    {c' : Cursor} {left right : Expr}
    (found : infixOp? (.mark mark) = some (precedence, .binary op)) (tighter : floor < precedence)
    (grouped : precedence ≠ powerPrecedence) (faces : c.Faces (.mark mark :: rest)) (bound : Nat)
    (parsed : g.operators precedence c.advance = .ok (right, c')) :
    operatorsAfter g floor (bound + 1) left c =
      operatorsAfter g floor bound (.binary op left right) c' := by
  rw [operatorsAfter_turn found tighter faces, rightFloor, if_neg grouped, StateT.bind_ok parsed]
  rfl

theorem Joint.stops (joint : Joint next) : Stops 7 next := by
  intro precedence op found
  cases joint <;> cases found <;> decide

theorem operatorExpression_eq {floor : Nat} {g : Grammar} {c' : Cursor}
    (parsed : unaryExpression g c = .ok (e, c')) :
    operatorExpression g floor c = operatorsAfter g floor c'.size e c' := by
  rw [operatorExpression, StateT.bind_ok parsed, StateT.bind_ok (Parse.size_run c')]

theorem Factor.operatorExpression_eq {text : List Char} (factor : Factor text lexemes e) (n : Nat)
    (shows : c.Shows (lexemes ++ next :: rest)) (joint : Joint next) :
    ∃ c', operatorExpression (.level (n + 1)) 7 c = .ok (e, c') ∧ c'.Shows (next :: rest) := by
  obtain ⟨c', parsed, behind⟩ := factor.unaryExpression_eq n shows joint
  refine ⟨c', ?_, behind⟩
  rw [Script.operatorExpression_eq parsed, operatorsAfter_stops joint.stops _ behind.toFaces]

/-- Up to the end of a product, the operators have made its tree. -/
theorem Product.reaches {text : List Char} (product : Product text lexemes e) (n : Nat)
    {floor : Nat} (below : floor < 7) (shows : c.Shows (lexemes ++ next :: rest))
    (joint : Joint next) :
    ∃ bound c', operatorExpression (.level (n + 2)) floor c =
        operatorsAfter (.level (n + 2)) floor bound e c' ∧
      c'.Shows (next :: rest) ∧ (next :: rest).length ≤ bound := by
  -- The loop over operators is entered once; each factor more is one turn of it.
  induction product generalizing next rest with
  | factor factor =>
      obtain ⟨c', parsed, behind⟩ := factor.unaryExpression_eq (n + 1) shows joint
      exact ⟨c'.size, c', Script.operatorExpression_eq parsed, behind, behind.length_le⟩
  | times product factor ih =>
      rw [List.append_assoc, List.cons_append] at shows
      obtain ⟨bound, c', reached, behind, enough⟩ := ih shows .star
      obtain ⟨bound, rfl⟩ := Nat.exists_eq_add_one_of_ne_zero (Nat.ne_zero_of_lt enough)
      obtain ⟨c'', parsed, after⟩ :=
        factor.operatorExpression_eq n (behind.advance (by simp)) joint
      refine ⟨bound, c'', ?_, after, ?_⟩
      · rw [reached]
        exact operatorsAfter_step rfl below (by decide) behind.toFaces bound parsed
      · simp only [List.length_append, List.length_cons] at enough ⊢
        omega

theorem Product.operatorExpression_eq {text : List Char} (product : Product text lexemes e)
    (n : Nat) (shows : c.Shows (lexemes ++ next :: rest)) (joint : Joint next)
    (stops : Stops 6 next) :
    ∃ c', operatorExpression (.level (n + 2)) 6 c = .ok (e, c') ∧ c'.Shows (next :: rest) := by
  obtain ⟨bound, c', reached, behind, -⟩ := product.reaches n (by decide : 6 < 7) shows joint
  exact ⟨c', by rw [reached, operatorsAfter_stops stops _ behind.toFaces], behind⟩

theorem Sum.reaches {text : List Char} (sum : Sum text lexemes e) (n : Nat)
    (shows : c.Shows (lexemes ++ next :: rest)) (joint : Joint next) (stops : Stops 6 next) :
    ∃ bound c', operatorExpression (.level (n + 3)) 0 c =
        operatorsAfter (.level (n + 3)) 0 bound e c' ∧
      c'.Shows (next :: rest) ∧ (next :: rest).length ≤ bound := by
  induction sum generalizing next rest with
  | product product => exact product.reaches (n + 1) (by decide) shows joint
  | plus sum product ih =>
      have between : Stops 6 (.mark .plus) := by
        intro precedence op found
        cases found
        decide
      rw [List.append_assoc, List.cons_append] at shows
      obtain ⟨bound, c', reached, behind, enough⟩ := ih shows .plus between
      obtain ⟨bound, rfl⟩ := Nat.exists_eq_add_one_of_ne_zero (Nat.ne_zero_of_lt enough)
      obtain ⟨c'', parsed, after⟩ :=
        product.operatorExpression_eq n (behind.advance (by simp)) joint stops
      refine ⟨bound, c'', ?_, after, ?_⟩
      · rw [reached]
        exact operatorsAfter_step rfl (by decide) (by decide) behind.toFaces bound parsed
      · simp only [List.length_append, List.length_cons] at enough ⊢
        omega

/-! ## Whole texts -/

/-- No arrow function begins here. -/
def Arrowless (lexemes : List Lexeme) : Prop :=
  (∀ rest, lexemes ≠ .mark .openParen :: rest) ∧
    ∀ name rest, lexemes = .identifier name :: rest → ∃ next more, rest = next :: more ∧ Joint next

theorem Factor.arrowless {text : List Char} (factor : Factor text lexemes e)
    (joint : Joint next) : Arrowless (lexemes ++ next :: rest) := by
  cases factor with
  | operand operand =>
      cases operand with
      | number found => exact ⟨nofun, nofun⟩
      | name decimal =>
          refine ⟨nofun, ?_⟩
          rintro name rest ⟨⟩
          exact ⟨_, _, rfl, joint⟩
  | negative found => exact ⟨nofun, nofun⟩

theorem Product.arrowless {text : List Char} (product : Product text lexemes e)
    (joint : Joint next) : Arrowless (lexemes ++ next :: rest) := by
  induction product generalizing next rest with
  | factor factor => exact factor.arrowless joint
  | times product factor ih =>
      rw [List.append_assoc]
      exact ih .star

theorem Sum.arrowless {text : List Char} (sum : Sum text lexemes e) (joint : Joint next) :
    Arrowless (lexemes ++ next :: rest) := by
  induction sum generalizing next rest with
  | product product => exact product.arrowless joint
  | plus sum product ih =>
      rw [List.append_assoc]
      exact ih .plus

theorem Arrowless.arrowAhead_eq (arrowless : Arrowless (lexeme :: lexemes))
    (shows : c.Shows (lexeme :: lexemes)) : arrowAhead c = .ok (false, c) := by
  obtain ⟨noParen, joints⟩ := arrowless
  unfold arrowAhead
  rw [shows.current]
  split
  · next name =>
    obtain ⟨next, more, rfl, joint⟩ := joints name lexemes rfl
    rw [shows.lookahead_one]
    cases joint <;> rfl
  · exact absurd rfl (noParen lexemes)
  · rfl

/-- The tokens of a sum are read up to the end. -/
theorem Sum.ofTokens_eq {text : List Char} (sum : Sum text lexemes e) {tokens : List Token}
    (shape : tokens.map Token.lexeme = lexemes ++ [.endOfInput])
    (inLine : ∀ token ∈ tokens, token.newlineBefore = false) :
    Expr.ofTokens tokens = .ok e := by
  have shows : (Cursor.ofTokens tokens).Shows (lexemes ++ [.endOfInput]) :=
    ⟨⟨shape, le_rfl, rfl⟩, inLine⟩
  have between : ∀ floor, Stops floor .endOfInput := by
    intro floor precedence op found
    cases found
  obtain ⟨bound, c', reached, behind, -⟩ := sum.reaches 251 shows .done (between 6)
  rw [operatorsAfter_stops (between 0) _ behind.toFaces] at reached
  have conditional : conditionalExpression (.level 254) (.ofTokens tokens) = .ok (e, c') := by
    rw [conditionalExpression, StateT.bind_ok reached]
    exact StateT.bind_ok (behind.eatMark_eq rfl)
  have noArrow : arrowAhead (.ofTokens tokens) = .ok (false, .ofTokens tokens) := by
    have arrowless : Arrowless (lexemes ++ [.endOfInput]) := sum.arrowless .done
    cases whole : lexemes ++ [.endOfInput] with
    | nil => simp at whole
    | cons first more =>
        rw [whole] at shows arrowless
        exact arrowless.arrowAhead_eq shows
  have assigned : (Grammar.level maxNesting).expression (.ofTokens tokens) = .ok (e, c') := by
    change assignmentExpression (.level 254) (.ofTokens tokens) = _
    rw [assignmentExpression, StateT.bind_ok noArrow]
    exact (StateT.bind_ok conditional).trans (StateT.bind_ok behind.lexeme_eq)
  have finished : Parse.atEnd c' = .ok (true, c') := by
    rw [Parse.atEnd, behind.current]
    rfl
  have whole : ((do
      let value ← (Grammar.level maxNesting).expression
      if ← Parse.atEnd then pure value else Parse.unexpected "end of expression" : Parse Expr)
        (.ofTokens tokens)) = .ok (e, c') :=
    (StateT.bind_ok assigned).trans (StateT.bind_ok finished)
  exact congrArg (Except.map Prod.fst) whole

theorem Sum.parse_eq {text : String} (sum : Sum text.toList lexemes e) :
    Expr.parse text = .ok e := by
  obtain ⟨tokens, cut, shape, inLine⟩ := sum.tokenize_eq
  rw [Expr.parse, cut]
  exact sum.ofTokens_eq shape inLine

end

end Script

end StrategyQubo
