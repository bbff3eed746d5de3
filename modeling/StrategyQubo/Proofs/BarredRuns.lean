import StrategyQubo.Proofs.ShelteredWords
import StrategyQubo.Proofs.ForkedGrammar

namespace StrategyQubo.Script

/-! # Runs that bar the word `in`

Whether the word `in` is barred makes no difference to a parser of expressions
as long as no such word stands in the open: what stands in brackets is parsed
with the word allowed, and the body of a function, which is not, has none.
-/

open Shelter

/-! ## Cursors side by side -/

/-- Two cursors before the same tokens, in which no word `in` stands in the
    open. -/
structure Beside (state : Shelter) (c c' : Cursor) : Prop where
  proper : c.Proper
  proper' : c'.Proper
  ahead : c'.ahead = c.ahead
  size : c'.size = c.size
  sheltered : (state.run true c.ahead).isSome

namespace Beside

variable {state next : Shelter} {headed : Bool} {c c' : Cursor}

theorem current (beside : Beside state c c') : c'.current = c.current := by
  obtain ⟨later, ahead⟩ := beside.proper.ahead_eq
  unfold Cursor.current
  rw [beside.ahead, ahead]
  rfl

theorem lookahead (beside : Beside state c c') (offset : Nat) :
    c'.lookahead offset = c.lookahead offset := by
  unfold Cursor.lookahead
  rw [beside.ahead, List.getD_eq_getElem?_getD, List.getD_eq_getElem?_getD]
  cases c.ahead[offset]? with
  | some token => rfl
  | none => exact beside.proper'.last.trans beside.proper.last.symm

theorem arrowBegins (beside : Beside state c c') : Fork.arrowBegins c' = Fork.arrowBegins c := by
  unfold Fork.arrowBegins
  rw [beside.current, beside.lookahead, beside.ahead]

theorem goesOn (beside : Beside state c c') :
    ∃ next, state.step true c.current.lexeme = some next := by
  obtain ⟨later, ahead⟩ := beside.proper.ahead_eq
  have sheltered := beside.sheltered
  rw [ahead, run_cons] at sheltered
  cases step : state.step true c.current.lexeme with
  | some next => exact ⟨next, rfl⟩
  | none =>
      rw [step] at sheltered
      cases sheltered

theorem advance (beside : Beside state c c') (more : c.current.lexeme.isEnd = false)
    (step : state.step true c.current.lexeme = some next) : Beside next c.advance c'.advance := by
  have passed := beside.proper.advance more
  have passed' := beside.proper'.advance (by rw [beside.current]; exact more)
  have same := passed'.split.symm.trans (beside.ahead.trans passed.split)
  have sheltered := beside.sheltered
  rw [passed.split, List.singleton_append, run_cons, step] at sheltered
  exact ⟨passed.proper, passed'.proper, (List.cons.inj same).2,
    passed'.size.trans (beside.size.trans passed.size.symm), sheltered⟩

theorem barring (beside : Beside state c c') (barred barred' : Bool) :
    Beside state { c with inBarred := barred } { c' with inBarred := barred' } :=
  ⟨⟨beside.proper.ended, beside.proper.last, beside.proper.within⟩,
    ⟨beside.proper'.ended, beside.proper'.last, beside.proper'.within⟩,
    beside.ahead, beside.size, beside.sheltered⟩

/-- It is enough that no brace begins a body here. -/
theorem loosen (beside : Beside (.outside headed) c c') : Beside (.outside false) c c' :=
  { beside with sheltered := Milder.run (.outside nofun) beside.sheltered }

end Beside

namespace Parse

variable {α β : Type} {on : Token → Prop} {state between next : Shelter} {headed : Bool}
  {f : α → Parse β}

/-! ## Parsers side by side -/

/-- From a token as expected, the second run does what the first one does, and
    the state behind both is known. -/
def LeadsFrom (on : Token → Prop) (state next : Shelter) (parse : Parse α) : Prop :=
  ∀ c c' a d, Beside state c c' → on c.current → parse c = .ok (a, d) →
    ∃ d', parse c' = .ok (a, d') ∧ Beside next d d'

/-- From any token. -/
abbrev Leads (state next : Shelter) (parse : Parse α) : Prop :=
  LeadsFrom (fun _ => True) state next parse

theorem Leads.from {parse : Parse α} (leads : Leads state next parse) :
    LeadsFrom on state next parse :=
  fun c c' a d beside _ ran => leads c c' a d beside trivial ran

theorem Leads.loosen {parse : Parse α} (leads : Leads state (.outside headed) parse) :
    LeadsFrom on state (.outside false) parse := by
  intro c c' a d beside _ ran
  obtain ⟨d', ran', beside⟩ := leads c c' a d beside trivial ran
  exact ⟨d', ran', beside.loosen⟩

theorem Leads.outside {parse : Parse α} (leads : Leads (.outside false) next parse) :
    LeadsFrom on (.outside headed) next parse :=
  fun c c' a d beside _ ran => leads c c' a d beside.loosen trivial ran

theorem pure_leads {a : α} : LeadsFrom on state state (pure a) := by
  rintro c c' _ _ beside - ⟨⟩
  exact ⟨c', rfl, beside⟩

theorem leads_of_fails {parse : Parse α} {error : Cursor → ScriptError}
    (fails : ∀ c, parse c = .error (error c)) : LeadsFrom on state next parse := by
  intro c c' a d _ _ ran
  cases (fails c).symm.trans ran

theorem unexpected_leads (what : String) :
    LeadsFrom on state next (unexpected what : Parse α) :=
  leads_of_fails fun _ => rfl

theorem unexpectedBefore_leads (what : String) :
    LeadsFrom on state next (unexpectedBefore what : Parse α) :=
  leads_of_fails fun _ => rfl

theorem LeadsFrom.bind {parse : Parse α} (first : LeadsFrom on state between parse)
    (later : ∀ a, Leads between next (f a)) : LeadsFrom on state next (parse >>= f) := by
  intro c c' b e beside here ran
  obtain ⟨a, d, parsed, ran⟩ := StateT.exists_of_bind_ok ran
  obtain ⟨d', parsed', beside⟩ := first c c' a d beside here parsed
  rw [StateT.bind_ok parsed']
  exact later a d d' b e beside trivial ran

/-- A parser that looks at what both cursors show. -/
theorem look_leads {look : Parse α} {answer : Cursor → α} (looks : ∀ c, look c = .ok (answer c, c))
    (same : ∀ c c', Beside state c c' → answer c' = answer c)
    (later : ∀ a, LeadsFrom on state next (f a)) : LeadsFrom on state next (look >>= f) := by
  intro c c' b d beside here ran
  rw [StateT.bind_ok (looks c)] at ran
  rw [StateT.bind_ok (looks c'), same c c' beside]
  exact later _ c c' b d beside here ran

theorem lexeme_leads {f : Lexeme → Parse β}
    (later : ∀ l, LeadsFrom (fun token => on token ∧ token.lexeme = l) state next (f l)) :
    LeadsFrom on state next (lexeme >>= f) := by
  intro c c' b d beside here ran
  rw [StateT.bind_ok (show lexeme c = .ok (c.current.lexeme, c) from rfl)] at ran
  rw [StateT.bind_ok (show lexeme c' = .ok (c'.current.lexeme, c') from rfl), beside.current]
  exact later _ c c' b d beside ⟨here, rfl⟩ ran

/-- In the open the next token is no word `in`. -/
theorem lexeme_outside {f : Lexeme → Parse β}
    (later : ∀ l, l.isIn = false →
      LeadsFrom (fun token => on token ∧ token.lexeme = l) (.outside headed) next (f l)) :
    LeadsFrom on (.outside headed) next (lexeme >>= f) := by
  refine lexeme_leads fun l c c' b d beside here ran => ?_
  obtain ⟨between, goesOn⟩ := beside.goesOn
  exact later l (here.2 ▸ isIn_of_step goesOn) c c' b d beside here ran

/-- What does not depend on whether the word `in` is barred. -/
theorem inBarred_leads {f : Bool → Parse β} (blind : ∀ barred, f barred = f false)
    (later : LeadsFrom on state next (f false)) : LeadsFrom on state next (inBarred >>= f) := by
  intro c c' b d beside here ran
  rw [StateT.bind_ok (show inBarred c = .ok (c.inBarred, c) from rfl), blind] at ran
  rw [StateT.bind_ok (show inBarred c' = .ok (c'.inBarred, c') from rfl), blind]
  exact later c c' b d beside here ran

theorem peek_leads {f : Token → Parse β}
    (later : ∀ token, LeadsFrom (fun here => on here ∧ here = token) state next (f token)) :
    LeadsFrom on state next (peek >>= f) := by
  intro c c' b d beside here ran
  rw [StateT.bind_ok (show peek c = .ok (c.current, c) from rfl)] at ran
  rw [StateT.bind_ok (show peek c' = .ok (c'.current, c') from rfl), beside.current]
  exact later _ c c' b d beside ⟨here, rfl⟩ ran

theorem size_leads {f : Nat → Parse β} (later : ∀ bound, LeadsFrom on state next (f bound)) :
    LeadsFrom on state next (size >>= f) :=
  look_leads (fun _ => rfl) (fun _ _ beside => beside.size) later

theorem skip_leads {f : Unit → Parse β} (more : ∀ token, on token → token.lexeme.isEnd = false)
    (later : ∀ token between, on token → state.step true token.lexeme = some between →
      Leads between next (f ())) : LeadsFrom on state next (skip >>= f) := by
  intro c c' b d beside here ran
  obtain ⟨between, goesOn⟩ := beside.goesOn
  rw [StateT.bind_ok (show skip c = .ok ((), c.advance) from rfl)] at ran
  rw [StateT.bind_ok (show skip c' = .ok ((), c'.advance) from rfl)]
  exact later _ between here goesOn _ _ b d (beside.advance (more _ here) goesOn) trivial ran

/-- Behind an operator no bracket is open, either. -/
theorem skip_operator {f : Unit → Parse β} (operator : ∀ token, on token → token.lexeme.Operator)
    (later : Leads (.outside false) next (f ())) :
    LeadsFrom on (.outside headed) next (skip >>= f) := by
  refine skip_leads (fun token here => (operator token here).more) fun token between here goesOn => ?_
  rw [step_outside (operator token here).plain (isIn_of_step goesOn)] at goesOn
  cases goesOn
  exact later.outside

/-- At the end mark nothing is taken, and nothing that needs a token goes on. -/
theorem advance_leads {f : Token → Parse β} {what : String}
    (later : ∀ token between, state.step true token.lexeme = some between →
      Leads between next (f token))
    (ended : ∀ token, token.lexeme = .endOfInput → f token = unexpectedBefore what) :
    LeadsFrom on state next (advance >>= f) := by
  intro c c' b d beside _ ran
  rw [StateT.bind_ok (show advance c = .ok (c.current, c.advance) from rfl)] at ran
  rw [StateT.bind_ok (show advance c' = .ok (c'.current, c'.advance) from rfl), beside.current]
  cases mark : c.current.lexeme.isEnd with
  | true =>
      rw [ended _ (eq_of_isEnd mark)] at ran
      cases ran
  | false =>
      obtain ⟨between, goesOn⟩ := beside.goesOn
      exact later _ between goesOn _ _ b d (beside.advance mark goesOn) trivial ran

/-- A token is taken if it is the wanted one. -/
theorem eat_leads {eat : Parse Bool} (wanted : Lexeme → Bool) {l : Lexeme} {f : Bool → Parse β}
    (eats : ∀ c, eat c = if wanted c.current.lexeme then .ok (true, c.advance) else .ok (false, c))
    (only : ∀ l', wanted l' = true → l' = l) (more : l.isEnd = false)
    (goesOn : state.step true l = some between) (yes : Leads between next (f true))
    (no : LeadsFrom on state next (f false)) : LeadsFrom on state next (eat >>= f) := by
  intro c c' b d beside here ran
  have eats' := eats c'
  rw [beside.current] at eats'
  cases found : wanted c.current.lexeme with
  | true =>
      have spelled := only _ found
      rw [StateT.bind_ok ((eats c).trans (if_pos found))] at ran
      rw [StateT.bind_ok (eats'.trans (if_pos found))]
      exact yes _ _ b d (beside.advance (spelled ▸ more) (spelled ▸ goesOn)) trivial ran
  | false =>
      have other : ¬ wanted c.current.lexeme = true := by rw [found]; exact Bool.false_ne_true
      rw [StateT.bind_ok ((eats c).trans (if_neg other))] at ran
      rw [StateT.bind_ok (eats'.trans (if_neg other))]
      exact no c c' b d beside here ran

theorem eatMark_leads {mark : Mark} {f : Bool → Parse β}
    (goesOn : state.step true (.mark mark) = some between) (yes : Leads between next (f true))
    (no : LeadsFrom on state next (f false)) : LeadsFrom on state next (eatMark mark >>= f) :=
  eat_leads (fun l => l.isMark mark) (fun _ => rfl) (fun _ => eq_of_isMark) rfl goesOn yes
    no

theorem eatKeyword_leads {word : Keyword} {f : Bool → Parse β}
    (goesOn : state.step true (.keyword word) = some between) (yes : Leads between next (f true))
    (no : LeadsFrom on state next (f false)) : LeadsFrom on state next (eatKeyword word >>= f) :=
  eat_leads (fun l => l.isKeyword word) (fun _ => rfl) (fun _ => eq_of_isKeyword) rfl goesOn
    yes no

theorem atMark_leads {mark : Mark} {f : Bool → Parse β}
    (yes : LeadsFrom (fun token => token.lexeme = .mark mark) state next (f true))
    (no : LeadsFrom on state next (f false)) : LeadsFrom on state next (atMark mark >>= f) := by
  intro c c' b d beside here ran
  have looks (c : Cursor) : atMark mark c = .ok (c.current.lexeme.isMark mark, c) := rfl
  rw [StateT.bind_ok (looks c)] at ran
  rw [StateT.bind_ok (looks c'), beside.current]
  cases found : c.current.lexeme.isMark mark with
  | true =>
      rw [found] at ran
      exact yes c c' b d beside (eq_of_isMark found) ran
  | false =>
      rw [found] at ran
      exact no c c' b d beside here ran

/-- Behind a fault nothing is run. -/
theorem unexpected_bind_leads (what : String) :
    LeadsFrom on state next ((unexpected what : Parse α) >>= f) :=
  leads_of_fails fun _ => rfl

theorem expectMark_leads {mark : Mark} {what : String} {f : Unit → Parse β}
    (goesOn : state.step true (.mark mark) = some between) (later : Leads between next (f ())) :
    LeadsFrom on state next (expectMark mark what >>= f) := by
  unfold expectMark
  rw [bind_assoc]
  exact eatMark_leads goesOn later (unexpected_bind_leads what)

theorem takeIdentifier_leads {what : String} {f : String → Parse β}
    (goesOn : ∀ name, state.step true (.identifier name) = some between)
    (later : ∀ name, Leads between next (f name)) :
    LeadsFrom on state next (takeIdentifier what >>= f) := by
  unfold takeIdentifier
  rw [bind_assoc]
  refine lexeme_leads fun l => ?_
  split
  · next name =>
    rw [bind_assoc]
    refine skip_leads (fun token here => by rw [here.2]; rfl) fun token reached here step => ?_
    rw [here.2, goesOn name] at step
    cases step
    exact later name
  · exact unexpected_bind_leads what

/-! ## Allowing and barring -/

theorem allowingIn_ok {parse : Parse α} {c d : Cursor} {a : α}
    (ran : allowingIn parse c = .ok (a, d)) :
    ∃ e, parse { c with inBarred := false } = .ok (a, e) ∧ d = { e with inBarred := c.inBarred } := by
  change (parse { c with inBarred := false } >>= fun after => _) = _ at ran
  cases parsed : parse { c with inBarred := false } with
  | error fault =>
      rw [parsed] at ran
      cases ran
  | ok after =>
      rw [parsed] at ran
      cases ran
      exact ⟨_, rfl, rfl⟩

theorem allowingIn_of_ok {parse : Parse α} {c e : Cursor} {a : α}
    (parsed : parse { c with inBarred := false } = .ok (a, e)) :
    allowingIn parse c = .ok (a, { e with inBarred := c.inBarred }) := by
  change (parse { c with inBarred := false } >>= fun after => _) = _
  rw [parsed]
  rfl

theorem LeadsFrom.allowingIn {parse : Parse α} (leads : Leads state next parse) :
    Leads state next (allowingIn parse) := by
  intro c c' a d beside _ ran
  obtain ⟨e, parsed, rfl⟩ := allowingIn_ok ran
  obtain ⟨e', parsed', beside⟩ := leads _ _ a e (beside.barring false false) trivial parsed
  exact ⟨_, allowingIn_of_ok parsed', beside.barring _ _⟩

end Parse

namespace Fork

variable {F : Fork} {α : Type} {parse : Parse α} {post : α → List Token → Prop}
  {c c' d : Cursor} {a : α}

theorem Zones.length_eq {zone zone' : List Token} (zones : F.Zones zone zone') :
    zone'.length = zone.length := by
  induction zones with
  | last => rfl
  | cons _ _ ih => exact congrArg (· + 1) ih

/-- The zone between two runs over the same tokens. -/
theorem zones_of_same (same : F.rest' = F.rest) {zone : List Token} (some : zone ≠ [])
    (noIn : F.mixed → ∀ token ∈ zone, token.lexeme.isIn = false) : F.Zones zone zone := by
  induction zone with
  | nil => exact absurd rfl some
  | cons token zone ih =>
      have shares : F.Shares token token zone zone :=
        ⟨.refl token, fun _ => by rw [same], fun mixed => noIn mixed token List.mem_cons_self⟩
      cases zone with
      | nil => exact .last shares fun _ => .inr (by rw [same])
      | cons second zone =>
          exact .cons shares (ih nofun fun mixed t member =>
            noIn mixed t (List.mem_cons_of_mem _ member))

/-- Over the same tokens, two runs that go alike end before the same token. -/
theorem Relates.twin (relates : F.Relates False Eq parse parse) (spans : parse.Spans post)
    (same : F.rest' = F.rest) (agree : F.Agree c c') (ahead : c'.ahead = c.ahead)
    (ran : parse c = .ok (a, d)) (stays : ¬ F.Past d) :
    ∃ d', parse c' = .ok (a, d') ∧ d'.Proper ∧ d'.ahead = d.ahead ∧ d'.size = c'.size := by
  rcases relates.ok c c' a d agree ran with past | ⟨a', d', ran', rfl, agree'⟩ | ⟨less, -⟩
  · exact absurd past stays
  · obtain ⟨row, passed, -⟩ := spans c a d agree.proper trivial ran
    obtain ⟨row', passed', -⟩ := spans c' a d' agree.proper' trivial ran'
    obtain ⟨zone, zone', zones, left, left'⟩ := agree'.zones
    have lengths : d.ahead.length = d'.ahead.length := by
      rw [left, left', same, List.length_append, List.length_append, zones.length_eq]
    have split := passed.split.symm.trans (ahead.symm.trans passed'.split)
    exact ⟨d', ran', passed'.proper, (List.append_inj_right' split lengths).symm, passed'.size⟩
  · exact less.elim

end Fork

theorem closing_paren : Mark.openParen.closing? = some .closeParen := rfl

theorem closing_bracket : Mark.openBracket.closing? = some .closeBracket := rfl

theorem closing_brace : Mark.openBrace.closing? = some .closeBrace := rfl

namespace Parse

variable {α β : Type} {state next : Shelter} {semicolons : Bool}

/-- Inside brackets the word is allowed in both runs. -/
theorem inside_leads {parse : Parse α} (relates : Fork.whole.Relates False Eq parse parse)
    (spans : parse.Spans fun _ => Balanced semicolons) (around : Nat) :
    Leads (.inside false around) (.inside false around) (allowingIn parse) := by
  intro c c' a d beside _ ran
  obtain ⟨e, parsed, rfl⟩ := allowingIn_ok ran
  have beside := beside.barring false false
  obtain ⟨row, passed, balanced⟩ := spans _ a e beside.proper trivial parsed
  have agree : Fork.whole.Agree { c with inBarred := false } { c' with inBarred := false } := by
    obtain ⟨later, ahead⟩ := beside.proper.ahead_eq
    refine ⟨beside.proper, beside.proper', ⟨c.ahead, c.ahead, Fork.zones_of_same rfl ?_ nofun, ?_, ?_⟩,
      .inr rfl⟩
    · exact ahead ▸ List.cons_ne_nil _ _
    · exact (List.append_nil _).symm
    · exact beside.ahead.trans (List.append_nil _).symm
  obtain ⟨e', parsed', proper', ahead, size⟩ :=
    relates.twin spans rfl agree beside.ahead parsed Fork.whole_not_past
  have sheltered := beside.sheltered
  rw [passed.split, run_append, run_inside balanced, Bool.false_and, if_neg Bool.false_ne_true]
    at sheltered
  have behind : Beside (.inside false around) e e' :=
    ⟨passed.proper, proper', ahead, size.trans (beside.size.trans passed.size.symm), sheltered⟩
  exact ⟨_, allowingIn_of_ok parsed', behind.barring _ _⟩

/-- From behind a bracket to behind the one that closes it. -/
theorem closing_leads {parse : Parse α} {f : α → Parse β} {opening closing : Mark}
    (pair : opening.closing? = some closing) (relates : Fork.whole.Relates False Eq parse parse)
    (spans : parse.Spans fun _ => Balanced semicolons) (what : String)
    (later : ∀ a, Leads (.outside false) next (f a)) :
    Leads (.inside false 0) next (do
      let a ← allowingIn parse
      expectMark closing what
      f a) := by
  have closes : (Shelter.inside false 0).step true (.mark closing) =
      some (.outside (closing == .closeParen)) := by
    cases opening <;> cases pair <;> rfl
  exact (inside_leads relates spans 0).bind fun a => expectMark_leads closes (later a).outside

end Parse

/-! ## Bodies of functions -/

/-- Two runs over the same tokens, of which one bars the word `in`. -/
def Fork.barring (rest : List Token) : Fork where
  rest := rest
  rest' := rest
  far := fun _ => True
  distant := fun _ _ =>
    ⟨trivial, fun _ _ _ _ _ _ _ => trivial⟩
  mixed := True
  naming := False

open Parse Fork

variable {g : Grammar} {on : Token → Prop} {state : Shelter}

/-- The body of a function that stands outside all brackets has no word `in`. -/
theorem block_leads (forks : g.Forks False g) :
    Leads (.outside true) (.outside false) g.block := by
  intro c c' body d beside _ ran
  obtain ⟨row, passed, opener, inner, closer, closing, rfl, opens, pair, closes, balanced⟩ :=
    forks.spans.block c body d beside.proper trivial ran
  cases pair
  obtain ⟨rest, left⟩ := passed.proper.ahead_eq
  have opened : (Shelter.outside true).step true opener.lexeme = some (.inside true 0) := by
    rw [opens]
    rfl
  have sheltered := beside.sheltered
  rw [passed.split, List.cons_append, run_cons, opened, Option.bind_some, run_append,
    run_closed closing_brace ⟨inner, closer, rfl, closes, balanced⟩] at sheltered
  cases word : (inner ++ [closer]).any (·.lexeme.isIn) with
  | true =>
      rw [word] at sheltered
      cases sheltered
  | false =>
      rw [word] at sheltered
      have behind : ((Shelter.outside false).run true d.ahead).isSome := sheltered
      have next : d.current.lexeme.isIn = false := by
        rw [left, run_cons] at behind
        cases goesOn : (Shelter.outside false).step true d.current.lexeme with
        | some next => exact isIn_of_step goesOn
        | none =>
            rw [goesOn] at behind
            cases behind
      have noIn : ∀ token ∈ opener :: (inner ++ [closer]) ++ [d.current],
          token.lexeme.isIn = false := by
        rw [List.any_eq_false] at word
        refine List.forall_mem_append.mpr ⟨List.forall_mem_cons.mpr ⟨isIn_of_mark opens, ?_⟩,
          List.forall_mem_singleton.mpr next⟩
        exact fun token member => Bool.eq_false_iff.mpr (word token member)
      have whole : c.ahead = opener :: (inner ++ [closer]) ++ [d.current] ++ rest := by
        rw [passed.split, left, List.append_assoc, List.singleton_append]
      have agree : (Fork.barring rest).Agree c c' :=
        ⟨beside.proper, beside.proper', ⟨_, _, zones_of_same rfl (by simp) fun _ => noIn,
          whole, beside.ahead.trans whole⟩, .inl trivial⟩
      have stays : ¬ (Fork.barring rest).Past d := by
        intro past
        have shorter := past.ahead.length_le
        rw [left] at shorter
        exact absurd shorter (Nat.not_succ_le_self _)
      obtain ⟨d', ran', proper', ahead, size⟩ :=
        (forks.block (.barring rest)).twin forks.spans.block rfl agree beside.ahead ran stays
      exact ⟨d', ran', passed.proper, proper', ahead,
        size.trans (beside.size.trans passed.size.symm), behind⟩

/-! ## Expressions -/

/-- The parsers for the expressions inside an expression do not mind that the
    word `in` is barred. -/
structure Grammar.Heedless (g : Grammar) : Prop where
  assignment : Leads (.outside false) (.outside false) g.assignment
  operators : ∀ floor, Leads (.outside false) (.outside false) (g.operators floor)
  operand : Leads (.outside false) (.outside false) g.operand
  arguments : Leads (.outside false) (.outside false) g.arguments
  arrayLiteral : Leads (.inside false 0) (.outside false) g.arrayLiteral
  objectLiteral : Leads (.inside false 0) (.outside false) g.objectLiteral

theorem parameterNames_leads (bound : Nat) (found : List String) :
    Leads (.inside false 0) (.inside false 0) (parameterNames bound found) := by
  induction bound generalizing found with
  | zero => exact pure_leads
  | succ bound ih =>
      unfold parameterNames
      exact atMark_leads pure_leads (takeIdentifier_leads (fun _ => rfl) fun name =>
        eatMark_leads rfl (ih _) pure_leads)

theorem parameterList_leads : Leads (.outside false) (.outside true) parameterList := by
  unfold parameterList
  exact expectMark_leads rfl (size_leads fun bound => (parameterNames_leads bound []).bind
    fun names => expectMark_leads rfl pure_leads)

theorem functionRest_leads (forks : g.Forks False g) (nameRequired : Bool) :
    Leads (.outside false) (.outside false) (functionRest g nameRequired) := by
  have rest (name : Option String) : Leads (.outside false) (.outside false) (do
      let parameters ← parameterList
      let body ← g.block
      pure (FunctionDef.define name parameters (.block body))) :=
    parameterList_leads.bind fun parameters => (block_leads forks).bind fun body => pure_leads
  unfold functionRest
  refine lexeme_leads fun l => ?_
  dsimp only
  split
  · next name =>
    refine skip_leads (fun token here => by rw [here.2]; rfl) fun token reached here step => ?_
    rw [here.2] at step
    cases step
    exact rest (some name)
  · split
    · exact unexpected_bind_leads _
    · exact (rest none).from

theorem arrowFunction_leads (forks : g.Forks False g) (heedless : g.Heedless) :
    Leads (.outside false) (.outside false) (arrowFunction g) := by
  have parameters : Leads (.outside false) (.outside false) (do
      if ← atMark .openParen then
        parameterList
      else
        return [← takeIdentifier "parameter name"]) :=
    atMark_leads parameterList_leads.loosen (takeIdentifier_leads (fun _ => rfl) fun _ => pure_leads)
  unfold arrowFunction
  refine parameters.bind fun names => expectMark_leads step_arrow ?_
  refine atMark_leads ?_ ?_
  · exact (block_leads forks).from.bind fun body => pure_leads
  · exact heedless.assignment.outside.bind fun value => pure_leads

/-- A token that is taken in the open and is no bracket leaves the open. -/
theorem pure_plain {α : Type} {a : α} {token : Token} {reached : Shelter} {l : Lexeme}
    (spelled : token.lexeme = l)
    (plain : l.isPlain false = true)
    (step : (Shelter.outside false).step true token.lexeme = some reached) :
    Leads reached (.outside false) (pure a) := by
  rw [step_outside (spelled ▸ plain) (isIn_of_step step)] at step
  cases step
  exact Leads.loosen pure_leads

theorem propertyName_leads : Leads (.outside false) (.outside false) propertyName := by
  unfold propertyName
  refine advance_leads (fun token reached step => ?_) fun token ended => by rw [ended]
  split
  · next spelled => exact pure_plain spelled rfl step
  · next spelled => exact pure_plain spelled rfl step
  · exact unexpectedBefore_leads _

theorem template_leads (g : Grammar) (chunks : List Chunk) :
    Leads state state (do return Expr.template (← templateParts g chunks [])) := by
  intro c c' tree d beside _ ran
  obtain ⟨parts, e, read, ran⟩ := StateT.exists_of_bind_ok ran
  cases ran
  rw [templateParts_eq] at read
  obtain ⟨parsed, rfl⟩ := map_ok read
  refine ⟨c', ?_, beside⟩
  rw [StateT.bind_ok (show templateParts g chunks [] c' = .ok (parts, c') by
    rw [templateParts_eq, parsed]; rfl)]
  rfl

theorem primary_leads (forks : g.Forks False g) (heedless : g.Heedless) :
    Leads (.outside false) (.outside false) (primary g) := by
  unfold primary
  refine advance_leads (fun token reached step => ?_) fun token ended => by rw [ended]
  split
  · next spelled => exact pure_plain spelled rfl step
  · next spelled => exact pure_plain spelled rfl step
  · next chunks spelled =>
    rw [spelled] at step
    cases step
    exact template_leads g chunks
  · next spelled => exact pure_plain spelled rfl step
  · next spelled => exact pure_plain spelled rfl step
  · next spelled => exact pure_plain spelled rfl step
  · next spelled => exact pure_plain spelled rfl step
  · next spelled => exact pure_plain spelled rfl step
  · next spelled =>
    rw [spelled] at step
    cases step
    exact (functionRest_leads forks false).bind fun definition => pure_leads
  · next spelled =>
    rw [spelled] at step
    cases step
    exact closing_leads closing_paren (forks.expression _)
      (forks.spans.expression.mono fun _ _ phrase => phrase.balanced) _ fun inner => pure_leads
  · next spelled =>
    rw [spelled] at step
    cases step
    exact heedless.arrayLiteral
  · next spelled =>
    rw [spelled] at step
    cases step
    exact heedless.objectLiteral
  · exact unexpectedBefore_leads _

theorem memberChain_leads (bound : Nat) (object : Expr) :
    Leads (.outside false) (.outside false) (memberChain bound object) := by
  induction bound generalizing object with
  | zero => exact pure_leads
  | succ bound ih =>
      unfold memberChain
      exact eatMark_leads rfl (propertyName_leads.bind fun property => ih _) pure_leads

theorem accessChain_leads (forks : g.Forks False g) (heedless : g.Heedless) (bound : Nat)
    (value : Expr) : Leads (.outside false) (.outside false) (accessChain g bound value) := by
  induction bound generalizing value with
  | zero => exact pure_leads
  | succ bound ih =>
      unfold accessChain
      refine eatMark_leads rfl (propertyName_leads.bind fun property => ih _)
        (eatMark_leads step_openBracket ?_ (atMark_leads ?_ pure_leads))
      · exact closing_leads closing_bracket (forks.expression _)
          (forks.spans.expression.mono fun _ _ phrase => phrase.balanced) _ fun key => ih _
      · exact heedless.arguments.from.bind fun arguments => ih _

theorem callMember_leads (forks : g.Forks False g) (heedless : g.Heedless) :
    Leads (.outside false) (.outside false) (callMember g) := by
  unfold callMember
  have given : Leads (.outside false) (.outside false) (do
      if ← atMark .openParen then g.arguments else pure []) :=
    atMark_leads heedless.arguments.from pure_leads
  refine eatKeyword_leads rfl ?_ ?_
  · exact size_leads fun bound => (primary_leads forks heedless).bind fun first =>
      (memberChain_leads bound first).bind fun callee => given.bind fun arguments =>
        size_leads fun bound => accessChain_leads forks heedless bound _
  · exact size_leads fun bound => (primary_leads forks heedless).bind fun first =>
      accessChain_leads forks heedless bound first

theorem postfixUpdate_leads (forks : g.Forks False g) (heedless : g.Heedless) :
    Leads (.outside false) (.outside false) (postfixUpdate g) := by
  unfold postfixUpdate
  refine (callMember_leads forks heedless).bind fun value => peek_leads fun token => ?_
  split
  · next increment update =>
    have operator := operator_of_updateOp? update
    split
    · exact pure_leads
    · split
      · exact skip_operator (fun _ here => here.2 ▸ operator) pure_leads
      · exact unexpected_leads _
  · exact pure_leads

theorem unaryExpression_leads (forks : g.Forks False g) (heedless : g.Heedless) :
    Leads (.outside false) (.outside false) (unaryExpression g) := by
  unfold unaryExpression
  refine lexeme_leads fun l => ?_
  split
  · next found =>
    have operator := operator_of_unaryOp? found
    exact skip_operator (fun _ here => here.2 ▸ operator)
      (heedless.operand.bind fun operand => pure_leads)
  · next found =>
    have operator := operator_of_updateOp? found
    refine skip_operator (fun _ here => here.2 ▸ operator) (heedless.operand.bind fun target => ?_)
    split
    · exact pure_leads
    · exact unexpected_leads _
  · exact (postfixUpdate_leads forks heedless).from

/-- In the open there is no word `in` that could be barred. -/
theorem operatorsAfter_leads (heedless : g.Heedless) (floor bound : Nat) (left : Expr) :
    Leads (.outside false) (.outside false) (operatorsAfter g floor bound left) := by
  induction bound generalizing left with
  | zero => exact pure_leads
  | succ bound ih =>
      unfold operatorsAfter
      refine lexeme_outside fun l other => ?_
      split
      · exact pure_leads
      · next precedence op found =>
        have operator := operator_of_infixOp? found
        have outside : op.isInside = false := (isInside_of_infixOp? found).trans other
        rw [outside]
        split
        · exact pure_leads
        · exact inBarred_leads (fun _ => rfl) (skip_operator (fun _ here => here.2 ▸ operator)
            ((heedless.operators _).bind fun right => ih _))

theorem operatorExpression_leads (forks : g.Forks False g) (heedless : g.Heedless) (floor : Nat) :
    Leads (.outside false) (.outside false) (operatorExpression g floor) :=
  (unaryExpression_leads forks heedless).bind fun left => size_leads fun bound =>
    operatorsAfter_leads heedless floor bound left

theorem conditionalExpression_leads (forks : g.Forks False g) (heedless : g.Heedless) :
    Leads (.outside false) (.outside false) (conditionalExpression g) := by
  unfold conditionalExpression
  refine (operatorExpression_leads forks heedless 0).bind fun condition =>
    eatMark_leads rfl (LeadsFrom.allowingIn ?_) pure_leads
  exact heedless.assignment.bind fun consequent => expectMark_leads rfl
    (heedless.assignment.bind fun alternative => pure_leads)

theorem assignmentExpression_leads (forks : g.Forks False g) (heedless : g.Heedless) :
    Leads (.outside false) (.outside false) (assignmentExpression g) := by
  unfold assignmentExpression
  refine look_leads arrowAhead_eq (fun _ _ => Beside.arrowBegins) fun arrow => ?_
  split
  · exact arrowFunction_leads forks heedless
  · refine (conditionalExpression_leads forks heedless).bind fun target => lexeme_leads fun l => ?_
    split
    · next op found =>
      have operator := operator_of_assignmentOp? found
      split
      · exact skip_operator (fun _ here => here.2 ▸ operator)
          (heedless.assignment.bind fun value => pure_leads)
      · exact unexpected_leads _
    · exact pure_leads

theorem argumentList_leads (forks : g.Forks False g) :
    Leads (.outside false) (.outside false) (argumentList g) :=
  expectMark_leads step_openParen (closing_leads closing_paren (listed_relates forks _)
    (size_spans fun bound => expressionList_spans forks.spans _ bound []) _ fun _ => pure_leads)

theorem arrayElements_leads (forks : g.Forks False g) :
    Leads (.inside false 0) (.outside false) (arrayElements g) :=
  closing_leads closing_bracket (listed_relates forks _)
    (size_spans fun bound => expressionList_spans forks.spans _ bound []) _ fun _ => pure_leads

theorem objectEntries_leads (forks : g.Forks False g) :
    Leads (.inside false 0) (.outside false) (objectEntries g) :=
  closing_leads closing_brace (size_bind (properties_unbounded forks.spans []) (properties_unbounded forks.spans' [])
      fun bound => properties_relates forks bound [])
    (size_spans fun bound => properties_spans forks.spans bound []) _ fun _ => pure_leads

theorem declarators_leads (heedless : g.Heedless) (bound : Nat) (found : List Declarator) :
    Leads (.outside false) (.outside false) (declarators g bound found) := by
  induction bound generalizing found with
  | zero => exact pure_leads
  | succ bound ih =>
      unfold declarators
      have initial : Leads (.outside false) (.outside false) (do
          if ← eatMark .assign then return some (← g.assignment) else pure none) :=
        eatMark_leads rfl (heedless.assignment.bind fun value => pure_leads) pure_leads
      exact takeIdentifier_leads (fun _ => rfl) fun name => initial.bind fun initial =>
        eatMark_leads rfl (ih _) pure_leads

/-! ## Levels -/

theorem Grammar.Heedless.around (forks : g.Forks False g) (heedless : g.Heedless) :
    g.around.Heedless where
  assignment := assignmentExpression_leads forks heedless
  operators := operatorExpression_leads forks heedless
  operand := unaryExpression_leads forks heedless
  arguments := argumentList_leads forks
  arrayLiteral := arrayElements_leads forks
  objectLiteral := objectEntries_leads forks

theorem refuseDeeper_leads {α : Type} {next : Shelter} :
    LeadsFrom on state next (refuseDeeper : Parse α) :=
  leads_of_fails fun _ => rfl

theorem Grammar.level_heedless (n : Nat) : (level n).Heedless := by
  induction n with
  | zero =>
      exact ⟨refuseDeeper_leads, fun _ => refuseDeeper_leads, refuseDeeper_leads, refuseDeeper_leads,
        refuseDeeper_leads, refuseDeeper_leads⟩
  | succ n ih => exact .around (Grammar.level_forks (Nat.le_refl n) (absurd · (Nat.lt_irrefl n))) ih

end StrategyQubo.Script
