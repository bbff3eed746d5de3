import StrategyQubo.Proofs.BracketedGrammar

namespace StrategyQubo.Script

/-! # The word `in` outside brackets

A scan over tokens that tells whether a word `in` stands in the open.  It does
outside all brackets; inside the body of a function that itself stands outside
all brackets it does only if bodies are held to give no shelter.
-/

def Lexeme.opens : Lexeme → Bool
  | .mark sign => sign.closing?.isSome
  | _ => false

def Lexeme.closes : Lexeme → Bool
  | .mark sign => sign.isBracket && sign.closing?.isNone
  | _ => false

def Lexeme.isIn (lexeme : Lexeme) : Bool :=
  lexeme.isKeyword .inWord

inductive Shelter where
  /-- Outside all brackets.  Behind a parameter list or an arrow, a brace begins
      the body of a function. -/
  | outside (headed : Bool)
  /-- Inside brackets with that many brackets around them. -/
  | inside (bare : Bool) (around : Nat)
  deriving DecidableEq, Repr

namespace Shelter

/-- Behind a bracket that closes. -/
def outward (bare : Bool) (closer : Lexeme) : Nat → Shelter
  | 0 => outside (closer.isMark .closeParen)
  | around + 1 => inside bare around

/-- The state behind a token.  A word `in` in the open has none. -/
def step (bodies : Bool) : Shelter → Lexeme → Option Shelter
  | outside headed, l =>
      if l.isIn then none
      else if l.opens then some (inside (bodies && headed && l.isMark .openBrace) 0)
      else some (outside (l.isMark .arrow))
  | inside bare around, l =>
      if bare && l.isIn then none
      else if l.opens then some (inside bare (around + 1))
      else if l.closes then some (outward bare l around)
      else some (inside bare around)

def run (bodies : Bool) (state : Shelter) (tokens : List Token) : Option Shelter :=
  tokens.foldlM (fun state token => state.step bodies token.lexeme) state

variable {bodies bare headed semicolons : Bool} {around : Nat} {state next : Shelter}
  {token : Token} {row more : List Token}

@[simp] theorem run_nil : run bodies state [] = some state := rfl

theorem run_cons :
    run bodies state (token :: row) =
      (state.step bodies token.lexeme).bind fun next => run bodies next row := by
  rw [run, List.foldlM_cons]
  rfl

theorem run_append :
    run bodies state (row ++ more) = (run bodies state row).bind fun next => run bodies next more := by
  rw [run, List.foldlM_append]
  rfl

/-! ## Tokens of a kind -/

theorem isIn_of_mark {l : Lexeme} {mark : Mark} (spelled : l = .mark mark) : l.isIn = false := by
  rw [spelled]
  rfl

theorem opens_of_closing {l : Lexeme} {mark closing : Mark} (spelled : l = .mark mark)
    (pair : mark.closing? = some closing) : l.opens = true := by
  rw [spelled, Lexeme.opens, pair]
  rfl

theorem closes_of_closing {l : Lexeme} {mark closing : Mark} (spelled : l = .mark closing)
    (pair : mark.closing? = some closing) : l.opens = false ∧ l.closes = true := by
  rw [spelled]
  cases mark <;> cases pair <;> exact ⟨rfl, rfl⟩

theorem not_bracket_of_isPlain {l : Lexeme} (plain : l.isPlain semicolons = true) :
    l.opens = false ∧ l.closes = false := by
  cases l with
  | mark sign =>
      have kind : sign.isBracket = false := by
        simp only [Lexeme.isPlain, Bool.and_eq_true, Bool.not_eq_true'] at plain
        exact plain.1
      unfold Mark.isBracket at kind
      simp only [Bool.or_eq_false_iff] at kind
      simp [Lexeme.opens, Lexeme.closes, Mark.isBracket, kind]
  | _ => exact ⟨rfl, rfl⟩

theorem step_outside (plain : token.lexeme.isPlain semicolons = true)
    (other : token.lexeme.isIn = false) :
    (outside headed).step bodies token.lexeme = some (outside (token.lexeme.isMark .arrow)) := by
  simp [step, other, not_bracket_of_isPlain plain]

theorem step_arrow : (outside headed).step bodies (.mark .arrow) = some (outside true) :=
  rfl

theorem step_openParen : (outside false).step bodies (.mark .openParen) = some (inside false 0) := by
  cases bodies <;> rfl

theorem step_openBracket :
    (outside false).step bodies (.mark .openBracket) = some (inside false 0) := by
  cases bodies <;> rfl

/-- What begins in the open is no word `in`. -/
theorem isIn_of_step (goesOn : (outside headed).step bodies token.lexeme = some next) :
    token.lexeme.isIn = false := by
  cases barred : token.lexeme.isIn with
  | false => rfl
  | true => simp [step, barred] at goesOn

/-! ## Balanced rows -/

/-- Inside brackets, what is balanced leads back to the same state. -/
theorem run_inside (balanced : Balanced semicolons row) (bodies bare : Bool) (around : Nat) :
    run bodies (inside bare around) row =
      if bare && row.any (·.lexeme.isIn) then none else some (inside bare around) := by
  induction balanced generalizing around with
  | nil => simp
  | @plain semicolons token rest plain _ ih =>
      rw [run_cons, List.any_cons]
      cases exposed : bare && token.lexeme.isIn with
      | true =>
          obtain ⟨rfl, word⟩ := Bool.and_eq_true_iff.mp exposed
          simp [step, word]
      | false =>
          have same : (inside bare around).step bodies token.lexeme = some (inside bare around) := by
            simp [step, exposed, not_bracket_of_isPlain plain]
          rw [same, Option.bind_some, ih, Bool.and_or_distrib_left, exposed, Bool.false_or]
  | @group semicolons opener closer opening closing inner rest opens pair closes _ _ within behind =>
      have opened : (inside bare around).step bodies opener.lexeme =
          some (inside bare (around + 1)) := by
        simp [step, isIn_of_mark opens, opens_of_closing opens pair]
      have closed : (inside bare (around + 1)).step bodies closer.lexeme =
          some (inside bare around) := by
        simp [step, isIn_of_mark closes, closes_of_closing closes pair, outward]
      rw [run_cons, opened, Option.bind_some, run_append, within, List.any_cons,
        List.any_append, List.any_cons, isIn_of_mark opens, isIn_of_mark closes]
      cases exposed : bare && inner.any (·.lexeme.isIn) with
      | true =>
          obtain ⟨rfl, word⟩ := Bool.and_eq_true_iff.mp exposed
          simp [word]
      | false =>
          rw [if_neg Bool.false_ne_true, Option.bind_some, run_cons, closed, Option.bind_some, behind]
          simp only [Bool.false_or, Bool.and_or_distrib_left, exposed]

/-- Up to the bracket that closes. -/
theorem run_closed {opening closing : Mark} (pair : opening.closing? = some closing)
    (closed : Closed closing row) (bodies bare : Bool) :
    run bodies (inside bare 0) row =
      if bare && row.any (·.lexeme.isIn) then none else some (outside (closing == .closeParen)) := by
  obtain ⟨inner, closer, rfl, closes, balanced⟩ := closed
  have last : (inside bare 0).step bodies closer.lexeme =
      some (outside (closing == .closeParen)) := by
    simp [step, isIn_of_mark closes, closes_of_closing closes pair, outward]
    rw [closes]
    rfl
  rw [run_append, run_inside balanced, List.any_append, List.any_cons, isIn_of_mark closes]
  cases exposed : bare && inner.any (·.lexeme.isIn) with
  | true =>
      obtain ⟨rfl, word⟩ := Bool.and_eq_true_iff.mp exposed
      simp [word]
  | false =>
      rw [if_neg Bool.false_ne_true, Option.bind_some, run_cons, last]
      simp [exposed]

/-! ## Fewer bodies -/

/-- The second state gives shelter wherever the first one does. -/
inductive Milder : Shelter → Shelter → Prop where
  | outside {headed headed' : Bool} : (headed' = true → headed = true) →
      Milder (.outside headed) (.outside headed')
  | inside {bare bare' : Bool} {around : Nat} : (bare' = true → bare = true) →
      Milder (.inside bare around) (.inside bare' around)

theorem Milder.refl : ∀ state, Milder state state
  | .outside _ => .outside id
  | .inside _ _ => .inside id

theorem Milder.step {other : Shelter} (milder : Milder state other) {l : Lexeme}
    (goesOn : state.step bodies l = some next) :
    ∃ next', other.step bodies l = some next' ∧ Milder next next' := by
  cases milder with
  | @outside headed headed' less =>
      unfold Shelter.step at goesOn ⊢
      dsimp only at goesOn ⊢
      split at goesOn
      · cases goesOn
      · next other =>
        rw [if_neg other]
        split at goesOn
        · next opens =>
          cases goesOn
          rw [if_pos opens]
          refine ⟨_, rfl, .inside ?_⟩
          simp only [Bool.and_eq_true]
          rintro ⟨⟨counts, head⟩, brace⟩
          exact ⟨⟨counts, less head⟩, brace⟩
        · next opens =>
          cases goesOn
          rw [if_neg opens]
          exact ⟨_, rfl, .refl _⟩
  | @inside bare bare' around less =>
      unfold Shelter.step at goesOn ⊢
      dsimp only at goesOn ⊢
      split at goesOn
      · cases goesOn
      · next hidden =>
        have hidden' : ¬ (bare' && l.isIn) = true := fun exposed => hidden (by
          obtain ⟨open', word⟩ := Bool.and_eq_true_iff.mp exposed
          rw [less open', word]
          rfl)
        rw [if_neg hidden']
        split at goesOn
        · next opens =>
          cases goesOn
          rw [if_pos opens]
          exact ⟨_, rfl, .inside less⟩
        · next opens =>
          rw [if_neg opens]
          split at goesOn
          · next closes =>
            cases goesOn
            rw [if_pos closes]
            refine ⟨_, rfl, ?_⟩
            cases around with
            | zero => exact .refl _
            | succ around => exact .inside less
          · next closes =>
            cases goesOn
            rw [if_neg closes]
            exact ⟨_, rfl, .inside less⟩

theorem Milder.run {other : Shelter} (milder : Milder state other)
    (ran : (run bodies state row).isSome) : (run bodies other row).isSome := by
  induction row generalizing state other with
  | nil => rfl
  | cons token row ih =>
      rw [run_cons] at ran ⊢
      cases goesOn : state.step bodies token.lexeme with
      | none =>
          rw [goesOn] at ran
          cases ran
      | some next =>
          rw [goesOn] at ran
          obtain ⟨next', goesOn', milder⟩ := milder.step goesOn
          rw [goesOn']
          exact ih milder ran

end Shelter

/-- No word `in` stands in the open. -/
def Sheltered (bodies : Bool) (tokens : List Token) : Prop :=
  ((Shelter.outside false).run bodies tokens).isSome

instance (bodies : Bool) (tokens : List Token) : Decidable (Sheltered bodies tokens) :=
  inferInstanceAs (Decidable (_ = true))

end StrategyQubo.Script
