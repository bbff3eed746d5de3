import StrategyQubo.Proofs.ForkedGrammar

namespace StrategyQubo.Script

/-! # The first token that does not fit

A text that is refused at a token is refused however it goes on behind it, as
long as what stands there does not decide how an earlier token is read.
-/

open Parse

/-! ## Two readings of a text -/

/-- What a text is read as. -/
inductive Reading where
  | program
  | expression
  deriving DecidableEq, Repr

namespace Reading

variable {reading : Reading} {text : String} {tokens tokens' : List Token} {error : ScriptError}

def parse : Reading → String → Except ScriptError Unit
  | program, text => (Program.parse text).map fun _ => ()
  | expression, text => (Expr.parse text).map fun _ => ()

/-- The parser of all tokens, whose answer does not matter. -/
def whole : Reading → Parse Unit
  | program => do
      let _ ← statementsToEnd (.level maxNesting) ((← size) + 1) []
      pure ()
  | expression => do
      let _ ← (Grammar.level maxNesting).expression
      if ← atEnd then pure () else unexpected "end of expression"

def check (reading : Reading) (tokens : List Token) : Except ScriptError Unit :=
  reading.whole.run' (.ofTokens tokens)

theorem parse_eq (cut : tokenize text = .ok tokens) : reading.parse text = reading.check tokens := by
  cases reading with
  | program =>
      let body := statementsToEnd (.level maxNesting) ((Cursor.ofTokens tokens).size + 1) []
      change Except.map _ (tokenize text >>= Program.ofTokens) =
        Except.map Prod.fst (body (.ofTokens tokens) >>= fun after => .ok ((), after.2))
      rw [cut]
      change Except.map _ (Except.map Program.mk (Except.map Prod.fst (body (.ofTokens tokens)))) = _
      cases body (.ofTokens tokens) <;> rfl
  | expression =>
      let value := (Grammar.level maxNesting).expression
      change Except.map _ (tokenize text >>= Expr.ofTokens) = Except.map Prod.fst
        (value (.ofTokens tokens) >>= fun after =>
          (do if ← atEnd then pure () else unexpected "end of expression" : Parse Unit) after.2)
      rw [cut]
      change Except.map _ (Except.map Prod.fst (value (.ofTokens tokens) >>= fun after =>
        (do if ← atEnd then pure after.1 else unexpected "end of expression" : Parse Expr) after.2)) = _
      cases value (.ofTokens tokens) with
      | error fault => rfl
      | ok after =>
          have ended : atEnd after.2 = .ok (after.2.current.lexeme.isEnd, after.2) := rfl
          change Except.map _ (Except.map Prod.fst ((do
            if ← atEnd then pure after.1 else unexpected "end of expression" : Parse Expr) after.2)) =
            Except.map Prod.fst ((do
              if ← atEnd then pure () else unexpected "end of expression" : Parse Unit) after.2)
          rw [StateT.bind_ok ended, StateT.bind_ok ended]
          cases after.2.current.lexeme.isEnd <;> rfl

theorem whole_of_check (refused : reading.check tokens = .error error) :
    reading.whole (.ofTokens tokens) = .error error := by
  rw [check, Fork.run'_eq] at refused
  cases ran : reading.whole (.ofTokens tokens) with
  | error fault =>
      rw [ran] at refused
      cases refused
      rfl
  | ok after =>
      rw [ran] at refused
      cases refused

theorem whole_relates (F : Fork) (reading : Reading) :
    F.Relates False Eq reading.whole reading.whole := by
  have forks : (Grammar.level maxNesting).Forks False (Grammar.level maxNesting) :=
    Grammar.level_forks (Nat.le_refl maxNesting) (absurd · (Nat.lt_irrefl _))
  cases reading with
  | program =>
      have unbounded : Unbounded fun bound => statementsToEnd (.level maxNesting) (bound + 1) [] :=
        fun limit n m enough enough' => statementsToEnd_unbounded forks.spans [] limit (n + 1) (m + 1)
          (Nat.le_succ_of_le enough) (Nat.le_succ_of_le enough')
      exact Fork.size_bind (unbounded.bind _) (unbounded.bind _) fun bound =>
        (Fork.statementsToEnd_relates forks (bound + 1) []).behind fun _ => Fork.pure_relates rfl
  | expression =>
      refine (forks.expression F).behind fun _ => Fork.atEnd_relates.behind fun ended => ?_
      split
      · exact Fork.pure_relates rfl
      · exact Fork.unexpected_relates _ _

end Reading

/-! ## Tokens that two texts share -/

/-- The tokens in front are alike, and a parenthesis among them encloses the
    parameters of an arrow function in both texts or in neither. -/
structure Shared (count : Nat) (tokens tokens' : List Token) : Prop where
  alike : List.Forall₂ Token.Alike (tokens.take count) (tokens'.take count)
  arrows : ∀ n token, tokens[n]? = some token → n < count →
    token.lexeme.isMark .openParen = true →
      closesBeforeArrow 0 (tokens'.drop n) = closesBeforeArrow 0 (tokens.drop n)

/-- The last of the tokens in front is the word `function`, and a name is behind
    it in one text only. -/
def NamedApart (count : Nat) (tokens tokens' : List Token) : Prop :=
  (∃ token, (tokens.take count).getLast? = some token ∧
    token.lexeme.isKeyword .functionWord = true) ∧
    Fork.named (tokens'.drop count) ≠ Fork.named (tokens.drop count)

/-- The texts fork behind the tokens that they share. -/
def forkAt (count : Nat) (tokens tokens' : List Token) (far : Position → Prop)
    (distant : ∀ token ∈ tokens.drop count, token.Beyond far) : Fork where
  rest := tokens.drop count
  rest' := tokens'.drop count
  far := far
  distant := distant
  mixed := False
  naming := NamedApart count tokens tokens'

theorem Fork.zones_of_alike {F : Fork} {zone zone' : List Token} (first : zone ≠ [])
    (alike : List.Forall₂ Token.Alike zone zone')
    (arrows : ∀ n token, zone[n]? = some token → token.lexeme.isMark .openParen = true →
      closesBeforeArrow 0 (zone'.drop n ++ F.rest') = closesBeforeArrow 0 (zone.drop n ++ F.rest))
    (unmixed : ¬ F.mixed)
    (names : ∀ token, zone.getLast? = some token → token.lexeme.isKeyword .functionWord = true →
      F.naming ∨ Fork.named F.rest' = Fork.named F.rest) :
    F.Zones zone zone' := by
  induction alike with
  | nil => exact absurd rfl first
  | @cons token token' more more' same later ih =>
      have shares : F.Shares token token' more more' :=
        ⟨same, fun opens => arrows 0 token rfl opens, fun mixed => absurd mixed unmixed⟩
      cases later with
      | nil => exact .last shares (names token rfl)
      | cons second others =>
          refine .cons shares (ih nofun (fun n => arrows (n + 1)) fun last ends => names last ?_)
          rwa [List.getLast?_cons_cons]

theorem Shared.zones {count : Nat} {tokens tokens' : List Token} {far : Position → Prop}
    {distant : ∀ token ∈ tokens.drop count, token.Beyond far}
    (shared : Shared count tokens tokens') (first : tokens.take count ≠ []) :
    (forkAt count tokens tokens' far distant).Zones (tokens.take count) (tokens'.take count) := by
  refine Fork.zones_of_alike first shared.alike (fun n token found opens => ?_) id
    fun token ends word => ?_
  · have within : n < (tokens.take count).length := (List.getElem?_eq_some_iff.mp found).1
    have within' := shared.alike.length_eq ▸ within
    rw [List.getElem?_take] at found
    split at found
    · next few =>
      change closesBeforeArrow 0 ((tokens'.take count).drop n ++ tokens'.drop count) =
        closesBeforeArrow 0 ((tokens.take count).drop n ++ tokens.drop count)
      rw [← List.drop_append_of_le_length (Nat.le_of_lt within'),
        ← List.drop_append_of_le_length (Nat.le_of_lt within), List.take_append_drop,
        List.take_append_drop]
      exact shared.arrows n token found few opens
    · cases found
  · exact Classical.or_iff_not_imp_right.mpr fun apart => ⟨⟨token, ends, word⟩, apart⟩

/-- If the first text is refused and the second one is not, then the fault lies
    behind what they share, or it is one that says nothing. -/
theorem Reading.excuses_of_shared {reading : Reading} {count : Nat} {tokens tokens' : List Token}
    {far : Position → Prop} {error : ScriptError}
    (distant : ∀ token ∈ tokens.drop count, token.Beyond far)
    (ended : Ended tokens) (ended' : Ended tokens') (shared : Shared count tokens tokens')
    (refused : reading.check tokens = .error error) (accepted : reading.check tokens' = .ok ()) :
    (forkAt count tokens tokens' far distant).Excuses error := by
  have relates := reading.whole_relates (forkAt count tokens tokens' far distant)
  have fails := reading.whole_of_check refused
  by_cases first : tokens.take count = []
  · have behind : tokens.drop count = tokens := by
      have whole := List.take_append_drop count tokens
      rwa [first, List.nil_append] at whole
    exact relates.drifts.error _ error ⟨ended.proper, ⟨[], behind.symm⟩, .inl behind.symm⟩ fails
  · have agree : (forkAt count tokens tokens' far distant).Agree (.ofTokens tokens)
        (.ofTokens tokens') :=
      ⟨ended.proper, ended'.proper, ⟨_, _, shared.zones first, (List.take_append_drop ..).symm,
        (List.take_append_drop ..).symm⟩, .inr rfl⟩
    rcases relates.error _ _ _ agree fails with excused | ⟨fault', failed⟩
    · exact excused
    · rw [Reading.check, Fork.run'_eq, failed] at accepted
      cases accepted

/-! ## A stray bracket -/

/-- The end mark turned into a bracket that closes nothing. -/
def Token.stray (last : Token) : Token :=
  { last with lexeme := .mark .closeBracket }

/-- The tokens with a stray bracket in front of the end mark. -/
def straying : List Token → List Token
  | [] => []
  | [last] => [last.stray, last]
  | token :: next :: more => token :: straying (next :: more)

theorem straying_append (front : List Token) (last : Token) :
    straying (front ++ [last]) = front ++ [last.stray, last] := by
  induction front with
  | nil => rfl
  | cons token front ih =>
      cases front with
      | nil => rfl
      | cons next more => exact congrArg (token :: ·) ih

theorem Ended.straying {tokens : List Token} (ended : Ended tokens) : Ended (straying tokens) := by
  obtain ⟨front, last, rfl, mark, inner⟩ := ended
  refine ⟨front ++ [last.stray], last, ?_, mark, fun token member => ?_⟩
  · rw [straying_append, List.append_assoc]
    rfl
  · rcases List.mem_append.mp member with before | stray
    · exact inner token before
    · rw [List.mem_singleton.mp stray]
      rfl

theorem closesBeforeArrow_straying {last : Token} (mark : last.lexeme = .endOfInput)
    (row : List Token) (depth : Nat) :
    closesBeforeArrow depth (row ++ [last.stray, last]) = closesBeforeArrow depth (row ++ [last]) := by
  induction row generalizing depth with
  | nil => simp [closesBeforeArrow, Token.stray, mark, Lexeme.isMark]
  | cons token row ih =>
      rw [List.cons_append, List.cons_append]
      unfold closesBeforeArrow
      rw [ih, ih, ih]
      cases row with
      | nil =>
          have one : last.stray.lexeme.isMark .arrow = false := rfl
          have two : last.lexeme.isMark .arrow = false := by rw [mark]; rfl
          simp only [List.nil_append, one, two]
      | cons next row => rfl

theorem drop_straying {count : Nat} {tokens : List Token} (ended : Ended tokens)
    (one : count + 1 = tokens.length) :
    ∃ last, tokens.drop count = [last] ∧ (straying tokens).drop count = [last.stray, last] := by
  obtain ⟨front, last, rfl, -⟩ := ended
  obtain rfl : count = front.length := by simpa using one
  exact ⟨last, List.drop_left, by rw [straying_append, List.drop_left]⟩

theorem Shared.straying {count : Nat} {tokens tokens' : List Token} (ended : Ended tokens)
    (shared : Shared count tokens tokens') (one : count + 1 = tokens.length) :
    Shared count (straying tokens) tokens' := by
  obtain ⟨front, last, rfl, mark, -⟩ := ended
  obtain rfl : count = front.length := by simpa using one
  rw [straying_append]
  refine ⟨?_, fun n token found few opens => ?_⟩
  · have alike := shared.alike
    rwa [List.take_left] at alike ⊢
  · rw [List.getElem?_append_left few] at found
    rw [shared.arrows n token (by rwa [List.getElem?_append_left few]) few opens,
      List.drop_append_of_le_length (Nat.le_of_lt few),
      List.drop_append_of_le_length (Nat.le_of_lt few)]
    exact (closesBeforeArrow_straying mark _ 0).symm

/-! ## Faults -/

/-- The second text goes on as the first one does, for that many tokens.  If the
    fault is reported at the last token, then not because the text ends there;
    and if it is about nesting at the word `function`, then both texts have a
    name behind it, or neither has. -/
structure Reading.Continues (reading : Reading) (place : Position) (fault : SyntaxFault)
    (count : Nat) (tokens tokens' : List Token) : Prop where
  shared : Shared count tokens tokens'
  settled : fault.StepsBack → count + 1 = tokens.length →
    reading.check (straying tokens) = .error (.syntaxFault place fault)
  names : fault = .nestingTooDeep maxNesting → ¬ NamedApart count tokens tokens'

theorem Reading.Continues.far {reading : Reading} {place : Position} {fault : SyntaxFault}
    {count : Nat} {tokens tokens' : List Token} {far : Position → Prop}
    (continues : reading.Continues place fault count tokens tokens')
    (distant : ∀ token ∈ tokens.drop count, token.Beyond far)
    (ended : Ended tokens) (ended' : Ended tokens')
    (refused : reading.check tokens = .error (.syntaxFault place fault))
    (accepted : reading.check tokens' = .ok ()) : far place := by
  by_cases back : fault.StepsBack ∧ count + 1 = tokens.length
  · obtain ⟨⟨what, found, rfl, -⟩, one⟩ := id back
    obtain ⟨last, alone, stray⟩ := drop_straying ended one
    have here := (distant last (alone ▸ List.mem_singleton_self last)).position
    have distant' : ∀ token ∈ (straying tokens).drop count, token.Beyond far := by
      rw [stray]
      refine List.forall_mem_cons.mpr ⟨⟨here, nofun⟩, List.forall_mem_singleton.mpr ?_⟩
      exact distant last (alone ▸ List.mem_singleton_self last)
    obtain ⟨_, _, same, far | ⟨single, -⟩ | ⟨-, other⟩⟩ := Reading.excuses_of_shared distant'
      ended.straying ended' (continues.shared.straying ended one) (continues.settled back.1 one) accepted
    · cases same
      exact far
    · change ((straying tokens).drop count).length = 1 at single
      rw [stray] at single
      cases single
    · cases same
      cases other
  · obtain ⟨_, _, same, far | ⟨single, steps⟩ | ⟨naming, deep⟩⟩ := Reading.excuses_of_shared distant
      ended ended' continues.shared refused accepted
    · cases same
      exact far
    · cases same
      change (tokens.drop count).length = 1 at single
      rw [List.length_drop] at single
      exact absurd ⟨steps, by omega⟩ back
    · cases same
      exact absurd naming (continues.names deep)

/-- Whether the tokens are the same word, string, mark or end. -/
def Token.same (token token' : Token) : Bool :=
  token.newlineBefore == token'.newlineBefore &&
    match token.lexeme, token'.lexeme with
    | .identifier name, .identifier name' => name == name'
    | .keyword word, .keyword word' => word == word'
    | .string text, .string text' => text == text'
    | .mark mark, .mark mark' => mark == mark'
    | .endOfInput, .endOfInput => true
    | _, _ => false

/-- Where a text is refused, and what is expected there. -/
def faultAt? {α : Type} : Except ScriptError α → Option (Position × String)
  | .error (.syntaxFault place (.expected what _)) => some (place, what)
  | _ => none

theorem exists_of_faultAt? {α : Type} {result : Except ScriptError α} {place : Position}
    {what : String} (refused : faultAt? result = some (place, what)) :
    ∃ found, result = .error (.syntaxFault place (.expected what found)) := by
  unfold faultAt? at refused
  split at refused
  · cases refused
    exact ⟨_, rfl⟩
  · cases refused

/-! ## The first fault -/

end StrategyQubo.Script
