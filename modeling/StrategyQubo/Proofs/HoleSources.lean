import StrategyQubo.Proofs.HoleScans
import StrategyQubo.Proofs.ForkedGrammar

namespace StrategyQubo.Script

/-! # Expressions in holes

What an expression is cut into and parsed as does not change when it is put into
the hole of a template literal, as long as its comments and its own templates are
written so that the simple scan of holes passes over them.
-/

open Parse Fork HoleState

/-- The template literal that has the source in its only hole. -/
def literalOf (source : String) : String :=
  "\x60$\x7b" ++ source ++ "\x7d\x60"

/-- Where the source begins in the literal. -/
def holeStart : Position :=
  Position.start.after ['\x60', '$', '\x7b']

/-! ## The tokens -/

theorem Expr.ofTokens_eq (tokens : List Token) :
    Expr.ofTokens tokens = (do
      let value ← (Grammar.level maxNesting).expression
      if ← atEnd then pure value else unexpected "end of expression" : Parse Expr).run'
        (.ofTokens tokens) :=
  rfl

/-- What has been read to the end was all but the end mark. -/
theorem run'_tokens {parse : Parse Expr} {what : String} {post : Expr → List Token → Prop}
    (spans : parse.Spans post) {tokens : List Token} {tree : Expr} (ended : Ended tokens)
    (parsed : (do
      let value ← parse
      if ← atEnd then pure value else unexpected what : Parse Expr).run' (.ofTokens tokens) =
        .ok tree) :
    ∃ row last, tokens = row ++ [last] ∧ post tree row ∧ last.lexeme = .endOfInput := by
  rw [run'_eq] at parsed
  cases ran : (do
    let value ← parse
    if ← atEnd then pure value else unexpected what : Parse Expr) (.ofTokens tokens) with
  | error fault =>
      rw [ran] at parsed
      cases parsed
  | ok after =>
      rw [ran] at parsed
      obtain ⟨value, c, read, ran⟩ := StateT.exists_of_bind_ok ran
      obtain ⟨row, passed, good⟩ := spans _ value c ended.proper trivial read
      rw [StateT.bind_ok (show atEnd c = .ok (c.current.lexeme.isEnd, c) from rfl)] at ran
      cases mark : c.current.lexeme.isEnd with
      | false =>
          rw [mark] at ran
          cases ran
      | true =>
          have split := passed.split
          rw [passed.proper.ahead_eq_of_isEnd mark] at split
          have last := eq_of_isEnd mark
          rw [mark] at ran
          cases ran
          cases parsed
          exact ⟨row, _, split, good, last⟩

/-- The simple scan ends where the source does. -/
theorem run_source {source : String} {tokens : List Token} {tree : Expr}
    (cut : tokenize source = .ok tokens) (parsed : Expr.ofTokens tokens = .ok tree)
    (kept : ∀ piece ∈ piecesOf source, piece.Kept) : HoleState.Kept source.toList := by
  obtain ⟨pieces, layout⟩ := exists_layout cut
  obtain ⟨row, last, rfl, phrase, mark⟩ :=
    run'_tokens (Grammar.level_spans maxNesting).expression layout.ended parsed
  have same : piecesOf source = pieces := layout.pieces_eq (Nat.lt_succ_self _)
  have ran := layout.run (same ▸ kept) 0
  rw [bracesBehind_append, phrase.balanced.braces] at ran
  refine ran.trans ?_
  change (bracesBehind [last] 0).map plain = _
  rw [bracesBehind_cons, mark]
  rfl

theorem literalOf_toList (source : String) :
    (literalOf source).toList = '\x60' :: '$' :: '\x7b' :: (source.toList ++ ['\x7d', '\x60']) := by
  simp [literalOf, String.toList_append]

theorem stops_of_head {c : Char} {rest : List Char} (blank : Text.isBlank c = false)
    (slash : c ≠ '/') : Scan.Stops (c :: rest) := by
  refine ⟨?_, fun line => ?_, fun block => ?_⟩
  · rintro d ⟨⟩
    exact blank
  · exact slash (List.cons_prefix_cons.mp line).1.symm
  · exact slash (List.cons_prefix_cons.mp block).1.symm

theorem stops_nil : Scan.Stops [] :=
  ⟨nofun, by simp, by simp⟩

/-- A text that is one lexeme. -/
theorem tokenizeAt_single {text : String} {c : Char} {rest : List Char} {read : Lexeme}
    {start place : Position} (begins : text.toList = c :: rest)
    (stops : Scan.Stops (c :: rest))
    (cut : Scan.lexeme (text.toList.length + 1) c ⟨c :: rest, start⟩ = .ok (read, ⟨[], place⟩)) :
    tokenizeAt text start = .ok [⟨read, start, false⟩, ⟨.endOfInput, place, false⟩] := by
  have last : Scan.Layout (rest.length + 1) ⟨[], place⟩ [] [⟨.endOfInput, place, false⟩] :=
    .finish (.stop stops_nil) rfl
  have whole : Scan.Layout (text.toList.length + 1) ⟨text.toList, start⟩ [.lexeme read (c :: rest)]
      [⟨read, start, false⟩, ⟨.endOfInput, place, false⟩] := by
    rw [begins] at cut ⊢
    exact .lexeme (.stop stops) rfl cut (List.append_nil _).symm last
  exact whole.tokenizeAt_eq

theorem templateBody_hole {text : List Char} (kept : HoleState.Kept text) {bound : Nat}
    (enough : text.length < bound) (place : Position) :
    Scan.templateBody (bound + 2) [] "" ⟨'$' :: '\x7b' :: (text ++ ['\x7d', '\x60']), place⟩ =
      .ok ([.code (String.ofList text) (place.after ['$', '\x7b'])],
        ⟨[], place.after ('$' :: '\x7b' :: (text ++ ['\x7d', '\x60']))⟩) := by
  have opened : Scan.templateBody (bound + 2) [] ""
      ⟨'$' :: '\x7b' :: (text ++ ['\x7d', '\x60']), place⟩ = (do
        let source ← Scan.holeBody (bound + 1) 0 ""
        Scan.templateBody (bound + 1) [.code source (place.after ['$', '\x7b'])] "")
          ⟨text ++ ['\x7d', '\x60'], place.after ['$', '\x7b']⟩ := rfl
  rw [opened, StateT.bind_ok (Scan.holeBody_run kept (Nat.lt_succ_of_lt enough) ..)]
  simp only [Position.after_cons, Position.after_append]
  rfl

/-- The literal is one template with one hole. -/
theorem tokenize_literal {source : String} (kept : HoleState.Kept source.toList) :
    ∃ last, last.lexeme = .endOfInput ∧ tokenize (literalOf source) =
      .ok [⟨.template [.code source holeStart], .start, false⟩, last] := by
  have begins := literalOf_toList source
  have stops : Scan.Stops ('\x60' :: '$' :: '\x7b' :: (source.toList ++ ['\x7d', '\x60'])) :=
    stops_of_head (Scan.isBlank_of_ascii (by decide) (by decide)) (by decide)
  have body := templateBody_hole kept (show source.toList.length < source.toList.length + 4 by omega)
    (Position.start.step '\x60')
  rw [String.ofList_toList] at body
  have bound : (literalOf source).toList.length + 1 = source.toList.length + 4 + 2 := by
    rw [begins]
    simp
  have cut : Scan.lexeme ((literalOf source).toList.length + 1) '\x60'
      ⟨'\x60' :: '$' :: '\x7b' :: (source.toList ++ ['\x7d', '\x60']), .start⟩ =
        .ok (.template [.code source holeStart],
          ⟨[], (Position.start.step '\x60').after
            ('$' :: '\x7b' :: (source.toList ++ ['\x7d', '\x60']))⟩) := by
    rw [bound]
    change (Scan.templateBody _ [] "" >>= fun chunks => pure (Lexeme.template chunks)) _ = _
    rw [StateT.bind_ok body]
    rfl
  exact ⟨_, rfl, tokenizeAt_single begins stops cut⟩

/-! ## The tree -/

/-- What follows a run may go on from where it ends. -/
theorem bind_of_map {α β γ : Type} {run : Except ScriptError γ} {parse : Parse α}
    (next : α → Parse β) {c d e : Cursor} {f : γ → α} {f' : γ → β}
    (first : parse c = run.map fun x => (f x, d)) (later : ∀ x, next (f x) d = .ok (f' x, e)) :
    (parse >>= next) c = run.map fun x => (f' x, e) := by
  change (parse c >>= fun after => next after.1 after.2) = _
  rw [first]
  cases run with
  | error fault => rfl
  | ok x => exact later x

/-- In front of a template literal that nothing follows, the parser answers with
    its parts. -/
def ReadsAlone (g : Grammar) (chunks : List Chunk) (token last : Token) (parse : Parse Expr) :
    Prop :=
  parse (.ofTokens [token, last]) = (g.partsOf chunks []).map fun parts =>
    (.template parts, ⟨some token, [last], last, 2, false⟩)

theorem primary_readsAlone (g : Grammar) (chunks : List Chunk) (place : Position) (newline : Bool)
    (last : Token) : ReadsAlone g chunks ⟨.template chunks, place, newline⟩ last (primary g) := by
  change (templateParts g chunks [] >>= fun parts => pure (Expr.template parts)) _ = _
  exact bind_of_map _ (templateParts_eq ..) fun _ => rfl

theorem Expr.ofTokens_template (chunks : List Chunk) (place : Position) (newline : Bool)
    {last : Token} (ended : last.lexeme = .endOfInput) :
    Expr.ofTokens [⟨.template chunks, place, newline⟩, last] =
      ((Grammar.level (maxNesting - 2)).partsOf chunks []).map .template := by
  obtain ⟨_, place', newline'⟩ := last
  cases ended
  let Reads := ReadsAlone (.level (maxNesting - 2)) chunks ⟨.template chunks, place, newline⟩
    ⟨.endOfInput, place', newline'⟩
  have primary : Reads (primary _) := primary_readsAlone ..
  have member : Reads (callMember _) :=
    bind_of_map (fun value => accessChain _ 2 value) primary fun _ => rfl
  have updated : Reads (postfixUpdate _) := bind_of_map _ member fun _ => rfl
  have operand : Reads (unaryExpression _) := updated
  have operators : Reads (operatorExpression _ 0) :=
    bind_of_map (fun left => size >>= fun bound => operatorsAfter _ 0 bound left) operand
      fun _ => rfl
  have conditional : Reads (conditionalExpression _) := bind_of_map _ operators fun _ => rfl
  have assignment : Reads (assignmentExpression (.level (maxNesting - 2))) :=
    (StateT.bind_ok (show arrowAhead (.ofTokens [_, _]) = .ok (false, .ofTokens [_, _]) from rfl)).trans
      (bind_of_map _ conditional fun _ => rfl)
  have whole : Reads (do
      let value ← (Grammar.level maxNesting).expression
      if ← atEnd then pure value else unexpected "end of expression") :=
    bind_of_map _ assignment fun _ => rfl
  rw [Expr.ofTokens_eq, run'_eq, whole]
  cases Grammar.partsOf _ chunks [] <;> rfl

/-- A hole is read as the whole text would be, unless it is nested too deep. -/
theorem Expr.ofTokens_echoes {tokens tokens' : List Token} (ended : Ended tokens)
    (ended' : Ended tokens') (alike : List.Forall₂ Token.Alike tokens tokens') :
    Echoes True (Expr.ofTokens tokens)
      ((Grammar.level (maxNesting - 2)).hole.run' (.ofTokens tokens')) := by
  have forks : (Grammar.level maxNesting).Forks True (Grammar.level (maxNesting - 2)) :=
    Grammar.level_forks (Nat.sub_le maxNesting 2) fun _ => trivial
  rw [Expr.ofTokens_eq]
  refine Relates.echoes ?_ ended ended' alike
  refine (forks.expression whole).behind fun value => atEnd_relates.behind fun ended => ?_
  split
  · exact pure_relates rfl
  · exact unexpected_relates _ _

/-- As long as every comment and every template in an expression leaves the
    simple scan as it was, the expression is the hole of the literal around it,
    with the same tokens and the same tree. -/
theorem Expr.parse_hole {source : String} {tree : Expr} (parsed : Expr.parse source = .ok tree)
    (kept : ∀ piece ∈ piecesOf source, piece.Kept) :
    ∃ tokens tokens' last, tokenize source = .ok tokens ∧
      tokenize (literalOf source) =
        .ok [⟨.template [.code source holeStart], .start, false⟩, last] ∧
      last.lexeme = .endOfInput ∧ tokenizeAt source holeStart = .ok tokens' ∧
      List.Forall₂ (Token.Moved source.toList .start holeStart) tokens tokens' ∧
      (Expr.parse (literalOf source) = .ok (.template [.hole tree]) ∨
        ∃ place, Expr.parse (literalOf source) =
          .error (.syntaxFault place (.nestingTooDeep maxNesting))) := by
  unfold Expr.parse at parsed
  cases cut : tokenize source with
  | error fault =>
      rw [cut] at parsed
      cases parsed
  | ok tokens =>
      rw [cut] at parsed
      have read : Expr.ofTokens tokens = .ok tree := parsed
      obtain ⟨last, ended, literal⟩ := tokenize_literal (run_source cut read kept)
      obtain ⟨tokens', cut', moved⟩ := tokenizeAt_moved cut holeStart
      refine ⟨tokens, tokens', last, rfl, literal, ended, cut', moved, ?_⟩
      have echoes := Expr.ofTokens_echoes (tokenizeAt_ended cut) (tokenizeAt_ended cut')
        (moved.imp fun _ _ moved => moved.alike)
      have parts : (Grammar.level (maxNesting - 2)).partsOf [.code source holeStart] [] =
          ((Grammar.level (maxNesting - 2)).hole.run' (.ofTokens tokens')).map fun value =>
            [.hole value] := by
        unfold Grammar.partsOf Grammar.readHole
        rw [cut']
        change (Grammar.hole _).run' _ >>= _ = _
        cases (Grammar.hole _).run' (.ofTokens tokens') <;> rfl
      have parse : Expr.parse (literalOf source) =
          Except.map .template ((Grammar.level (maxNesting - 2)).partsOf [.code source holeStart] []) := by
        unfold Expr.parse
        rw [literal]
        exact Expr.ofTokens_template _ _ _ ended
      rw [parse, parts]
      rcases echoes.ok tree read with value | ⟨-, place, refused⟩
      · rw [value]
        exact .inl rfl
      · rw [refused]
        exact .inr ⟨place, rfl⟩

theorem Expr.parse_hole_braces :
    ∃ source tree, source = "f(\x7ba: '\x7d'\x7d, \x60$\x7bb\x7d\x60) /* \x7b\x7d */" ∧
      Expr.parse source = .ok tree ∧ (∀ piece ∈ piecesOf source, piece.Kept) ∧
      ∃ tokens tokens' last, tokenize source = .ok tokens ∧
        tokenize (literalOf source) =
          .ok [⟨.template [.code source holeStart], .start, false⟩, last] ∧
        last.lexeme = .endOfInput ∧ tokenizeAt source holeStart = .ok tokens' ∧
        List.Forall₂ (Token.Moved source.toList .start holeStart) tokens tokens' ∧
        (Expr.parse (literalOf source) = .ok (.template [.hole tree]) ∨
          ∃ place, Expr.parse (literalOf source) =
            .error (.syntaxFault place (.nestingTooDeep maxNesting))) := by
  have accepted : (Expr.parse "f(\x7ba: '\x7d'\x7d, \x60$\x7bb\x7d\x60) /* \x7b\x7d */").isOk = true := by
    decide +kernel
  have kept : ∀ piece ∈ piecesOf "f(\x7ba: '\x7d'\x7d, \x60$\x7bb\x7d\x60) /* \x7b\x7d */",
      piece.Kept := by decide +kernel
  cases parsed : Expr.parse "f(\x7ba: '\x7d'\x7d, \x60$\x7bb\x7d\x60) /* \x7b\x7d */" with
  | error fault =>
      rw [parsed] at accepted
      cases accepted
  | ok tree => exact ⟨_, tree, rfl, parsed, kept, Expr.parse_hole parsed kept⟩

theorem text_behind_comment_brace :
    (match tokenize "\x60$\x7ba /* \x7d */\x7d\x60" with
      | .ok [⟨.template [.code _ _, .text _], _, _⟩, _] => true
      | _ => false) = true := by
  decide +kernel

/-- The brace in a comment ends the hole. -/
theorem hole_ends_in_comment :
    ¬ ∀ source tree, Expr.parse source = .ok tree →
      ∃ start place last, tokenize (literalOf source) =
        .ok [⟨.template [.code source start], place, false⟩, last] := by
  intro always
  have accepted : (Expr.parse "a /* \x7d */").isOk = true := by decide +kernel
  have literal : literalOf "a /* \x7d */" = "\x60$\x7ba /* \x7d */\x7d\x60" := rfl
  have apart := text_behind_comment_brace
  cases parsed : Expr.parse "a /* \x7d */" with
  | error fault =>
      rw [parsed] at accepted
      cases accepted
  | ok tree =>
      obtain ⟨start, place, last, cut⟩ := always _ tree parsed
      rw [← literal, cut] at apart
      cases apart

end StrategyQubo.Script
