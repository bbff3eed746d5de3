import StrategyQubo.Proofs.LoopBounds

namespace StrategyQubo.Script

/-! # Two runs over the same tokens

Two texts begin with the same tokens and go on with different ones.  A parser
does the same on both until it has left the shared tokens behind: then the first
run may do what it likes, but its faults lie further on.
-/

/-! ## Alike tokens -/

theorem Lexeme.Alike.isMark_eq {l l' : Lexeme} (alike : l.Alike l') (mark : Mark) :
    l'.isMark mark = l.isMark mark := by
  cases alike <;> rfl

theorem Lexeme.Alike.isKeyword_eq {l l' : Lexeme} (alike : l.Alike l') (word : Keyword) :
    l'.isKeyword word = l.isKeyword word := by
  cases alike <;> rfl

theorem Lexeme.Alike.isEnd_eq {l l' : Lexeme} (alike : l.Alike l') : l'.isEnd = l.isEnd := by
  cases alike <;> rfl

theorem Lexeme.Alike.isIdentifier_eq {l l' : Lexeme} (alike : l.Alike l') :
    l'.isIdentifier = l.isIdentifier := by
  cases alike <;> rfl

/-- The end mark, or any token that is known from less than its holes. -/
theorem Lexeme.Alike.map_eq {γ : Type} {l l' : Lexeme} (alike : l.Alike l') (view : Lexeme → γ)
    (blind : ∀ chunks chunks', view (.template chunks) = view (.template chunks')) :
    view l' = view l := by
  cases alike with
  | refl => rfl
  | template => exact blind _ _

theorem closesBeforeArrow_alike {row row' : List Token}
    (alike : List.Forall₂ Token.Alike row row') (depth : Nat) :
    closesBeforeArrow depth row' = closesBeforeArrow depth row := by
  induction alike generalizing depth with
  | nil => rfl
  | @cons token token' rest rest' first later ih =>
      unfold closesBeforeArrow
      rw [first.lexeme.isMark_eq, first.lexeme.isMark_eq, ih, ih, ih]
      cases later with
      | nil => rfl
      | cons next _ => simp only [next.lexeme.isMark_eq]

/-- The faults that a parser reports one token too early at the end. -/
def SyntaxFault.StepsBack (fault : SyntaxFault) : Prop :=
  ∃ what found, fault = .expected what found ∧
    what ∈ ["expression", "property name", "property key"]

/-! ## Forks -/

/-- All places of a text are far. -/
def Distant (far : Position → Prop) (text : List Char) (place : Position) : Prop :=
  ∀ front, front <+: text → far (place.after front)

/-- The token is far, and so are all places in its holes. -/
structure Token.Beyond (far : Position → Prop) (token : Token) : Prop where
  position : far token.position
  holes : ∀ chunks, token.lexeme = .template chunks → ∀ source start,
    .code source start ∈ chunks → Distant far source.toList start

theorem Token.From.beyond {far : Position → Prop} {token : Token} {place : Position}
    (behind : token.From place) (distant : ∀ later, place ≤ later → far later) :
    token.Beyond far := by
  refine ⟨distant _ behind.position, fun chunks spelled source start member front _ => ?_⟩
  have holes := behind.holes
  rw [spelled] at holes
  exact distant _ (Position.le_trans (holes source start member) (Position.le_after ..))

theorem HoleIn.distant {far : Position → Prop} {text : List Char} {place start : Position}
    {source : String} (stands : HoleIn text place source start) (distant : Distant far text place) :
    Distant far source.toList start := by
  obtain ⟨before, within, rfl⟩ := stands
  intro front reached
  rw [← Position.after_append]
  exact distant _ (((List.prefix_append_right_inj before).mpr reached).trans within)

theorem Token.In.beyond {far : Position → Prop} {text : List Char} {place : Position}
    {token : Token} (stands : token.In text place) (distant : Distant far text place) :
    token.Beyond far := by
  obtain ⟨front, within, position⟩ := stands.position
  refine ⟨position ▸ distant front within, fun chunks spelled source start member => ?_⟩
  have holes := stands.holes
  rw [spelled] at holes
  exact (holes source start member).distant distant

/-- What lies behind the tokens that two runs share. -/
structure Fork where
  rest : List Token
  rest' : List Token
  /-- Places behind the shared tokens of the first run. -/
  far : Position → Prop
  distant : ∀ token ∈ rest, token.Beyond far
  /-- The word `in` may be barred in one run and not in the other. -/
  mixed : Prop
  /-- The last shared token is the word `function`, and it has a name behind it
      in one run only. -/
  naming : Prop

namespace Fork

variable (F : Fork)

/-- A token that both runs have before them, as far as a parser can tell. -/
structure Shares (token token' : Token) (more more' : List Token) : Prop where
  alike : Token.Alike token token'
  arrow : token.lexeme.isMark .openParen = true →
    closesBeforeArrow 0 (token' :: (more' ++ F.rest')) = closesBeforeArrow 0 (token :: (more ++ F.rest))
  noIn : F.mixed → token.lexeme.isKeyword .inWord = false

def named (tokens : List Token) : Bool :=
  tokens.head?.any fun token => token.lexeme.isIdentifier

/-- The shared tokens that are ahead in the two runs. -/
inductive Zones : List Token → List Token → Prop where
  | last {token token' : Token} : F.Shares token token' [] [] →
      (token.lexeme.isKeyword .functionWord = true → F.naming ∨ named F.rest' = named F.rest) →
      Zones [token] [token']
  | cons {token token' : Token} {more more' : List Token} : F.Shares token token' more more' →
      Zones more more' → Zones (token :: more) (token' :: more')

/-- Both runs are at the same shared token. -/
structure Agree (c c' : Cursor) : Prop where
  proper : c.Proper
  proper' : c'.Proper
  zones : ∃ zone zone', F.Zones zone zone' ∧ c.ahead = zone ++ F.rest ∧ c'.ahead = zone' ++ F.rest'
  barred : F.mixed ∨ c'.inBarred = c.inBarred

/-- The first run is behind the shared tokens. -/
structure Past (c : Cursor) : Prop where
  proper : c.Proper
  ahead : c.ahead <:+ F.rest
  before : c.ahead = F.rest ∨ ∀ token ∈ c.before, F.far token.position

/-- Faults of the first run that say nothing about the second one: those that
    lie far behind, those reported one token early at the end of the input, and
    those at a word `function` that is read in two ways. -/
def Excuses (error : ScriptError) : Prop :=
  ∃ place fault, error = .syntaxFault place fault ∧
    (F.far place ∨ (F.rest.length = 1 ∧ fault.StepsBack) ∨
      (F.naming ∧ fault = .nestingTooDeep maxNesting))

/-- Behind the shared tokens the first run stays there. -/
structure Drifts {α : Type} (parse : Parse α) : Prop where
  ok : ∀ c a d, F.Past c → parse c = .ok (a, d) → F.Past d
  error : ∀ c fault, F.Past c → parse c = .error fault → F.Excuses fault

/-- What the second run refuses only because its grammar is shallower. -/
def TooDeep {α : Type} (result : Except ScriptError α) : Prop :=
  ∃ place, result = .error (.syntaxFault place (.nestingTooDeep maxNesting))

/-- Among the shared tokens both runs do the same, until the first one leaves
    them.  If the second grammar is shallower, it may refuse what the first
    accepts. -/
structure Relates (shallower : Prop) {α : Type} (same : α → α → Prop) (parse parse' : Parse α) :
    Prop where
  drifts : F.Drifts parse
  ok : ∀ c c' a d, F.Agree c c' → parse c = .ok (a, d) →
    F.Past d ∨ (∃ a' d', parse' c' = .ok (a', d') ∧ same a a' ∧ F.Agree d d') ∨
      (shallower ∧ TooDeep (parse' c'))
  error : ∀ c c' fault, F.Agree c c' → parse c = .error fault →
    F.Excuses fault ∨ ∃ fault', parse' c' = .error fault'

variable {F : Fork} {shallower : Prop} {α β γ : Type} {same : α → α → Prop} {same' : β → β → Prop}
  {c c' : Cursor}

/-! ### Cursors of forks -/

theorem Agree.current (agree : F.Agree c c') : Token.Alike c.current c'.current := by
  obtain ⟨zone, zone', zones, ahead, ahead'⟩ := agree.zones
  unfold Cursor.current
  rw [ahead, ahead']
  cases zones with
  | last shares => exact shares.alike
  | cons shares => exact shares.alike

theorem Past.current (past : F.Past c) : c.current.Beyond F.far := by
  obtain ⟨later, ahead⟩ := past.proper.ahead_eq
  exact F.distant _ (past.ahead.subset (ahead ▸ List.mem_cons_self))

theorem Past.far_current (past : F.Past c) : F.far c.current.position :=
  past.current.position

/-- A token has been taken behind the shared ones. -/
theorem Past.advance (past : F.Past c) (more : c.current.lexeme.isEnd = false) :
    F.Past c.advance ∧ ∀ token ∈ c.advance.before, F.far token.position := by
  obtain ⟨later, ahead⟩ := past.proper.ahead_eq
  have passed := past.proper.advance more
  have behind : c.advance.ahead <:+ c.ahead := ⟨[c.current], passed.split.symm⟩
  have before : ∀ token ∈ c.advance.before, F.far token.position := by
    rw [Cursor.advance_eq (past.proper.later_ended ahead more) ahead]
    rintro token ⟨⟩
    exact past.far_current
  exact ⟨⟨passed.proper, behind.trans past.ahead, .inr before⟩, before⟩

/-- One token further, both runs are still at a shared token, or the first one
    has left them. -/
theorem Agree.advance (agree : F.Agree c c') :
    F.Past c.advance ∨ F.Agree c.advance c'.advance := by
  have alike := agree.current.lexeme.isEnd_eq
  cases ended : c.current.lexeme.isEnd with
  | true =>
      rw [agree.proper.advance_at_end ended, agree.proper'.advance_at_end (alike.trans ended)]
      exact .inr agree
  | false =>
      have passed := agree.proper.advance ended
      have passed' := agree.proper'.advance (alike.trans ended)
      obtain ⟨zone, zone', zones, ahead, ahead'⟩ := agree.zones
      have split := passed.split.symm.trans ahead
      have split' := passed'.split.symm.trans ahead'
      cases zones with
      | last shares _ =>
          have left := (List.cons.inj split).2
          exact .inl ⟨passed.proper, ⟨[], left⟩, .inl left⟩
      | cons shares zones =>
          refine .inr ⟨passed.proper, passed'.proper, ⟨_, _, zones, (List.cons.inj split).2,
            (List.cons.inj split').2⟩, ?_⟩
          rw [Cursor.advance_inBarred, Cursor.advance_inBarred]
          exact agree.barred

/-- The lexeme behind the current one is shared as well, or none is left. -/
theorem Agree.lookahead_one (agree : F.Agree c c') :
    c.ahead = c.current :: F.rest ∨ (c.lookahead 1).Alike (c'.lookahead 1) := by
  obtain ⟨zone, zone', zones, ahead, ahead'⟩ := agree.zones
  unfold Cursor.lookahead Cursor.current
  rw [ahead, ahead']
  cases zones with
  | last => exact .inl rfl
  | cons _ zones =>
      cases zones with
      | last second _ => exact .inr second.alike.lexeme
      | cons second _ => exact .inr second.alike.lexeme

/-! ### Drifting -/

theorem Drifts.bind {parse : Parse α} {next : α → Parse β} (first : F.Drifts parse)
    (later : ∀ a, F.Drifts (next a)) : F.Drifts (parse >>= next) := by
  constructor
  · intro c b e past ran
    obtain ⟨a, d, parsed, ran⟩ := StateT.exists_of_bind_ok ran
    exact (later a).ok d b e (first.ok c a d past parsed) ran
  · intro c fault past ran
    cases parsed : parse c with
    | error reason =>
        change (parse c >>= _) = _ at ran
        rw [parsed] at ran
        cases ran
        exact first.error c _ past parsed
    | ok after =>
        rw [StateT.bind_ok parsed] at ran
        exact (later _).error _ fault (first.ok c _ _ past parsed) ran

theorem far_excuses {token : Token} (far : F.far token.position) (fault : SyntaxFault) :
    F.Excuses (.syntaxFault token.position fault) :=
  ⟨_, _, rfl, .inl far⟩

/-! ### Relating -/

theorem Relates.bind {parse parse' : Parse α} {next next' : α → Parse β} (refl : ∀ a, same a a)
    (first : F.Relates shallower same parse parse')
    (later : ∀ a a', same a a' → F.Relates shallower same' (next a) (next' a')) :
    F.Relates shallower same' (parse >>= next) (parse' >>= next') := by
  have drifts := first.drifts.bind fun a => (later a a (refl a)).drifts
  have refused {c' : Cursor} (deep : TooDeep (parse' c')) : TooDeep ((parse' >>= next') c') := by
    obtain ⟨place, refused⟩ := deep
    refine ⟨place, ?_⟩
    change (parse' c' >>= _) = _
    rw [refused]
    rfl
  refine ⟨drifts, fun c c' b e agree ran => ?_, fun c c' fault agree ran => ?_⟩
  · obtain ⟨a, d, parsed, ran⟩ := StateT.exists_of_bind_ok ran
    rcases first.ok c c' a d agree parsed with past | ⟨a', d', parsed', alike, agree⟩ | ⟨less, deep⟩
    · exact .inl ((later a a (refl a)).drifts.ok d b e past ran)
    · rw [StateT.bind_ok parsed']
      exact (later a a' alike).ok d d' b e agree ran
    · exact .inr (.inr ⟨less, refused deep⟩)
  · cases parsed : parse c with
    | error reason =>
        change (parse c >>= _) = _ at ran
        rw [parsed] at ran
        cases ran
        refine (first.error c c' _ agree parsed).imp_right fun ⟨fault', failed⟩ => ⟨fault', ?_⟩
        change (parse' c' >>= _) = _
        rw [failed]
        rfl
    | ok after =>
        obtain ⟨a, d⟩ := after
        rw [StateT.bind_ok parsed] at ran
        rcases first.ok c c' a d agree parsed with past | ⟨a', d', parsed', alike, agree⟩ | ⟨-, deep⟩
        · exact .inl ((later a a (refl a)).drifts.error d fault past ran)
        · rw [StateT.bind_ok parsed']
          exact (later a a' alike).error d d' fault agree ran
        · obtain ⟨place, failed⟩ := refused deep
          exact .inr ⟨_, failed⟩

theorem Relates.behind {parse parse' : Parse α} {next next' : α → Parse β}
    (first : F.Relates shallower Eq parse parse')
    (later : ∀ a, F.Relates shallower same' (next a) (next' a)) :
    F.Relates shallower same' (parse >>= next) (parse' >>= next') :=
  first.bind (fun _ => rfl) fun a _ alike => alike ▸ later a

/-- A parser that moves the cursor alone. -/
theorem moves_relates {parse parse' : Parse α} {answer answer' : Cursor → α}
    (move move' : Cursor → Cursor) (steps : ∀ c, parse c = .ok (answer c, move c))
    (steps' : ∀ c, parse' c = .ok (answer' c, move' c))
    (agreed : ∀ c c', F.Agree c c' → same (answer c) (answer' c'))
    (drifts : ∀ c, F.Past c → F.Past (move c))
    (moves : ∀ c c', F.Agree c c' → F.Past (move c) ∨ F.Agree (move c) (move' c')) :
    F.Relates shallower same parse parse' := by
  refine ⟨⟨fun c a d past ran => ?_, fun c fault _ ran => ?_⟩, fun c c' a d agree ran => ?_,
    fun c c' fault _ ran => ?_⟩
  · cases (steps c).symm.trans ran
    exact drifts c past
  · cases (steps c).symm.trans ran
  · cases (steps c).symm.trans ran
    exact (moves c c' agree).imp_right fun still =>
      .inl ⟨_, _, steps' c', agreed c c' agree, still⟩
  · cases (steps c).symm.trans ran

theorem pure_relates {a a' : α} (alike : same a a') :
    F.Relates shallower same (pure a) (pure a') :=
  moves_relates id id (fun _ => rfl) (fun _ => rfl) (fun _ _ _ => alike)
    (fun _ => id) fun _ _ => .inr

theorem pure_drifts (a : α) : F.Drifts (pure a) :=
  (pure_relates rfl : F.Relates False Eq (pure a) (pure a)).drifts

/-- A parser that reports the token before it. -/
theorem fails_relates {parse parse' : Parse α} {fault : Cursor → SyntaxFault}
    (fails : ∀ c, parse c = .error (.syntaxFault c.current.position (fault c)))
    (fails' : ∀ c, ∃ reason, parse' c = .error reason) :
    F.Relates shallower same parse parse' := by
  refine ⟨⟨fun c a d _ ran => ?_, fun c reason past ran => ?_⟩, fun c c' a d _ ran => ?_,
    fun c c' _ _ _ => .inr (fails' c')⟩
  · cases (fails c).symm.trans ran
  · cases (fails c).symm.trans ran
    exact far_excuses past.far_current _
  · cases (fails c).symm.trans ran

theorem unexpected_relates (what what' : String) :
    F.Relates shallower same (Parse.unexpected what) (Parse.unexpected what') :=
  fails_relates (fun _ => rfl) fun _ => ⟨_, rfl⟩

theorem refuseDeeper_relates :
    F.Relates shallower same (refuseDeeper : Parse α) refuseDeeper :=
  fails_relates (fun _ => rfl) fun _ => ⟨_, rfl⟩

/-! ### The last shared token -/

/-- The first run is at the last shared token, and it is a word that an
    expression can begin with. -/
structure Edge (F : Fork) (c : Cursor) : Prop where
  proper : c.Proper
  ahead : c.ahead = c.current :: F.rest
  word : (∃ name, c.current.lexeme = .identifier name) ∨ c.current.lexeme = .keyword .functionWord

theorem Edge.more (edge : F.Edge c) : c.current.lexeme.isEnd = false := by
  rcases edge.word with ⟨name, spelled⟩ | spelled <;> rw [spelled] <;> rfl

theorem Edge.advance (edge : F.Edge c) : F.Past c.advance := by
  have passed := edge.proper.advance edge.more
  have left : c.advance.ahead = F.rest := (List.cons.inj (passed.split.symm.trans edge.ahead)).2
  exact ⟨passed.proper, ⟨[], left⟩, .inl left⟩

/-- The first run gets behind the shared tokens, or its fault says nothing about
    the second run, which is refused anyway or not. -/
structure Leaves (F : Fork) (refused : Prop) (run : Except ScriptError (α × Cursor)) : Prop where
  ok : ∀ a d, run = .ok (a, d) → F.Past d
  error : ∀ fault, run = .error fault → F.Excuses fault ∨ refused

theorem Drifts.leaves {parse : Parse α} {refused : Prop} (drifts : F.Drifts parse)
    (past : F.Past c) : F.Leaves refused (parse c) :=
  ⟨fun a d ran => drifts.ok c a d past ran, fun fault ran => .inl (drifts.error c fault past ran)⟩

theorem Leaves.bind {parse : Parse α} {next : α → Parse β} {refused : Prop}
    (first : F.Leaves refused (parse c)) (later : ∀ a, F.Drifts (next a)) :
    F.Leaves refused ((parse >>= next) c) := by
  cases ran : parse c with
  | error fault =>
      have failed : (parse >>= next) c = .error fault := by
        change (parse c >>= _) = _
        rw [ran]
        rfl
      refine ⟨fun b d done => ?_, fun reason done => ?_⟩
      · cases failed.symm.trans done
      · cases failed.symm.trans done
        exact first.error _ ran
  | ok after =>
      rw [StateT.bind_ok ran]
      exact (later _).leaves (first.ok _ _ ran)

theorem Leaves.mono {run : Except ScriptError (α × Cursor)} {refused more : Prop}
    (leaves : F.Leaves refused run) (implies : refused → more) : F.Leaves more run :=
  ⟨leaves.ok, fun fault ran => (leaves.error fault ran).imp_right implies⟩

/-- At each cursor a parser may be one that is related already. -/
theorem relates_of_turns {parse parse' : Parse α}
    (past : ∀ c, F.Past c → ∃ turn, F.Drifts turn ∧ parse c = turn c)
    (agreed : ∀ c c', F.Agree c c' →
      (∃ turn turn', F.Relates shallower same turn turn' ∧ parse c = turn c ∧ parse' c' = turn' c') ∨
        F.Leaves (∃ fault', parse' c' = .error fault') (parse c)) :
    F.Relates shallower same parse parse' := by
  refine ⟨⟨fun c a d behind ran => ?_, fun c fault behind ran => ?_⟩, fun c c' a d agree ran => ?_,
    fun c c' fault agree ran => ?_⟩
  · obtain ⟨turn, drifts, same⟩ := past c behind
    exact drifts.ok c a d behind (same.symm.trans ran)
  · obtain ⟨turn, drifts, same⟩ := past c behind
    exact drifts.error c fault behind (same.symm.trans ran)
  · rcases agreed c c' agree with ⟨turn, turn', relates, one, other⟩ | leaves
    · rw [other]
      exact relates.ok c c' a d agree (one.symm.trans ran)
    · exact .inl (leaves.ok a d ran)
  · rcases agreed c c' agree with ⟨turn, turn', relates, one, other⟩ | leaves
    · rw [other]
      exact relates.error c c' fault agree (one.symm.trans ran)
    · exact leaves.error fault ran

/-- A parser that looks at the cursor and goes on accordingly.  What the two runs
    see may differ where the first one gets behind the shared tokens. -/
theorem choice_relates {parse parse' : Parse α} {pick pick' : Cursor → γ}
    {branch branch' : γ → Parse α} (chosen : ∀ c, parse c = branch (pick c) c)
    (chosen' : ∀ c, parse' c = branch' (pick' c) c)
    (agreed : ∀ c c', F.Agree c c' → pick' c' = pick c ∨
      F.Leaves (∃ fault', parse' c' = .error fault') (parse c))
    (each : ∀ x, F.Relates shallower same (branch x) (branch' x)) :
    F.Relates shallower same parse parse' :=
  relates_of_turns (fun c _ => ⟨_, (each _).drifts, chosen c⟩) fun c c' agree =>
    (agreed c c' agree).imp_left fun picked =>
      ⟨_, _, each (pick c), chosen c, by rw [chosen', picked]⟩

/-- The second parser refuses everything, and the first one does not. -/
theorem Drifts.relates_refused {parse : Parse α} (drifts : F.Drifts parse) (less : shallower) :
    F.Relates shallower same parse refuseDeeper :=
  ⟨drifts, fun _ _ _ _ _ _ => .inr (.inr ⟨less, _, rfl⟩), fun _ _ _ _ _ => .inr ⟨_, rfl⟩⟩

/-- A parser that looks at the cursor and leaves it. -/
theorem look_relates {look look' : Parse α} {answer answer' : Cursor → α}
    (looks : ∀ c, look c = .ok (answer c, c)) (looks' : ∀ c, look' c = .ok (answer' c, c))
    (agreed : ∀ c c', F.Agree c c' → same (answer c) (answer' c')) :
    F.Relates shallower same look look' :=
  moves_relates id id looks looks' agreed (fun _ => id) fun _ _ => .inr

theorem lexeme_relates : F.Relates shallower Lexeme.Alike Parse.lexeme Parse.lexeme :=
  look_relates (fun _ => rfl) (fun _ => rfl) fun _ _ agree => agree.current.lexeme

theorem peek_relates : F.Relates shallower Token.Alike Parse.peek Parse.peek :=
  look_relates (fun _ => rfl) (fun _ => rfl) fun _ _ agree => agree.current

theorem atMark_relates (mark : Mark) :
    F.Relates shallower Eq (Parse.atMark mark) (Parse.atMark mark) :=
  look_relates (fun _ => rfl) (fun _ => rfl) fun _ _ agree =>
    (agree.current.lexeme.isMark_eq mark).symm

theorem atEnd_relates : F.Relates shallower Eq Parse.atEnd Parse.atEnd :=
  look_relates (fun _ => rfl) (fun _ => rfl) fun _ _ agree => agree.current.lexeme.isEnd_eq.symm

theorem Past.stepped (past : F.Past c) : F.Past c.advance := by
  cases ended : c.current.lexeme.isEnd with
  | true => rwa [past.proper.advance_at_end ended]
  | false => exact (past.advance ended).1

theorem skip_relates : F.Relates shallower Eq Parse.skip Parse.skip :=
  moves_relates _ _ (fun _ => rfl) (fun _ => rfl) (fun _ _ _ => rfl) (fun _ => Past.stepped)
    fun _ _ => Agree.advance

theorem lexeme_bind {next next' : Lexeme → Parse β}
    (later : ∀ l l', l.Alike l' → F.Relates shallower same' (next l) (next' l')) :
    F.Relates shallower same' (Parse.lexeme >>= next) (Parse.lexeme >>= next') :=
  lexeme_relates.bind .refl later

/-- One word needs more than its spelling. -/
theorem lexeme_bind_except {next next' : Lexeme → Parse β} (word : Lexeme)
    (later : ∀ l l', l.Alike l' → l ≠ word → F.Relates shallower same' (next l) (next' l'))
    (drifts : F.Drifts (next word))
    (there : ∀ c c', F.Agree c c' → c.current.lexeme = word →
      (∃ turn turn', F.Relates shallower same' turn turn' ∧ next word c = turn c ∧
        next' c'.current.lexeme c' = turn' c') ∨
      F.Leaves (∃ fault', next' c'.current.lexeme c' = .error fault') (next word c)) :
    F.Relates shallower same' (Parse.lexeme >>= next) (Parse.lexeme >>= next') := by
  refine relates_of_turns (fun c past => ?_) fun c c' agree => ?_
  · refine ⟨next c.current.lexeme, ?_, rfl⟩
    by_cases here : c.current.lexeme = word
    · exact here ▸ drifts
    · exact (later _ _ (.refl _) here).drifts
  · by_cases here : c.current.lexeme = word
    · have found : (Parse.lexeme >>= next) c = next word c := congrFun (congrArg next here) c
      rw [found]
      exact there c c' agree here
    · exact .inl ⟨_, _, later _ _ agree.current.lexeme here, rfl, rfl⟩

theorem peek_bind {next next' : Token → Parse β}
    (later : ∀ token token', Token.Alike token token' →
      F.Relates shallower same' (next token) (next' token')) :
    F.Relates shallower same' (Parse.peek >>= next) (Parse.peek >>= next') :=
  peek_relates.bind .refl later

/-- A token is taken if it is as wanted. -/
theorem eat_relates {eat : Parse Bool} (wanted : Lexeme → Bool)
    (eats : ∀ c, eat c = if wanted c.current.lexeme then .ok (true, c.advance) else .ok (false, c))
    (blind : ∀ l l', l.Alike l' → wanted l' = wanted l) : F.Relates shallower Eq eat eat := by
  have agreed (c c' : Cursor) (agree : F.Agree c c') :=
    blind c.current.lexeme c'.current.lexeme agree.current.lexeme
  have steps (c : Cursor) : eat c = .ok (wanted c.current.lexeme,
      if wanted c.current.lexeme then c.advance else c) := by
    rw [eats]
    cases wanted c.current.lexeme <;> rfl
  refine moves_relates _ _ steps steps (fun c c' agree => (agreed c c' agree).symm) (fun c past => ?_)
    fun c c' agree => ?_
  · split
    · exact past.stepped
    · exact past
  · rw [agreed c c' agree]
    split
    · exact agree.advance
    · exact .inr agree

theorem eatMark_relates (mark : Mark) :
    F.Relates shallower Eq (Parse.eatMark mark) (Parse.eatMark mark) :=
  eat_relates (fun l => l.isMark mark) (fun _ => rfl) fun _ _ alike =>
    alike.isMark_eq mark

theorem eatKeyword_relates (word : Keyword) :
    F.Relates shallower Eq (Parse.eatKeyword word) (Parse.eatKeyword word) :=
  eat_relates (fun l => l.isKeyword word) (fun _ => rfl) fun _ _ alike =>
    alike.isKeyword_eq word

theorem expectMark_relates (mark : Mark) (what : String) :
    F.Relates shallower Eq (Parse.expectMark mark what) (Parse.expectMark mark what) := by
  unfold Parse.expectMark
  refine (eatMark_relates mark).behind fun found => ?_
  split
  · exact pure_relates rfl
  · exact unexpected_relates _ _

theorem takeIdentifier_relates (what : String) :
    F.Relates shallower Eq (Parse.takeIdentifier what) (Parse.takeIdentifier what) := by
  unfold Parse.takeIdentifier
  refine lexeme_bind fun l l' alike => ?_
  cases alike with
  | refl =>
      split
      · exact skip_relates.behind fun _ => pure_relates rfl
      · exact unexpected_relates _ _
  | template => exact unexpected_relates _ _

theorem endStatement_relates : F.Relates shallower Eq Parse.endStatement Parse.endStatement := by
  unfold Parse.endStatement
  refine (eatMark_relates .semicolon).behind fun found => ?_
  split
  · exact pure_relates rfl
  · refine peek_bind fun token token' alike => ?_
    rw [alike.lexeme.isMark_eq, alike.lexeme.isEnd_eq, ← alike.newline]
    split
    · exact pure_relates rfl
    · exact unexpected_relates _ _

theorem Past.far_before (past : F.Past c) (before : ∀ token ∈ c.before, F.far token.position) :
    F.far (c.before.getD c.current).position := by
  cases taken : c.before with
  | none => exact past.far_current
  | some token => exact before token taken

/-- Only the token in front of a lone end mark lies among the shared ones. -/
theorem Past.excuses_before (past : F.Past c) {what : String}
    (known : what ∈ ["expression", "property name", "property key"]) :
    F.Excuses (.syntaxFault (c.advance.before.getD c.advance.current).position
      (.expected what (c.advance.before.getD c.advance.current).lexeme)) := by
  cases ended : c.current.lexeme.isEnd with
  | false =>
      have ⟨still, before⟩ := past.advance ended
      exact far_excuses (still.far_before before) _
  | true =>
      rw [past.proper.advance_at_end ended]
      rcases past.before with whole | before
      · refine ⟨_, _, rfl, .inr (.inl ⟨?_, what, _, rfl, known⟩)⟩
        rw [← whole, past.proper.ahead_eq_of_isEnd ended]
        rfl
      · exact far_excuses (past.far_before before) _

/-- Two runs apart from the cursor: the second one does what the first does. -/
structure Echoes (shallower : Prop) (run run' : Except ScriptError α) : Prop where
  ok : ∀ a, run = .ok a → run' = .ok a ∨ shallower ∧ TooDeep run'
  error : ∀ fault, run = .error fault → ∃ fault', run' = .error fault'

theorem Echoes.refl (run : Except ScriptError α) : Echoes shallower run run :=
  ⟨fun _ => .inl, fun fault ran => ⟨fault, ran⟩⟩

theorem Echoes.bind {run run' : Except ScriptError α} {next next' : α → Except ScriptError β}
    (first : Echoes shallower run run') (later : ∀ a, Echoes shallower (next a) (next' a)) :
    Echoes shallower (run >>= next) (run' >>= next') := by
  cases run with
  | error fault =>
      obtain ⟨fault', rfl⟩ := first.error fault rfl
      exact ⟨nofun, fun _ _ => ⟨fault', rfl⟩⟩
  | ok a =>
      rcases first.ok a rfl with rfl | ⟨less, place, rfl⟩
      · exact later a
      · exact ⟨fun _ _ => .inr ⟨less, place, rfl⟩, fun _ _ => ⟨_, rfl⟩⟩

/-- What may be done with a token that has been taken: go on, refuse it, or read
    the holes in it apart from the cursor. -/
inductive Handles (F : Fork) (shallower : Prop) (same : α → α → Prop) (what : String) (l : Lexeme)
    (next next' : Parse α) : Prop where
  | going : F.Relates shallower same next next' → Handles F shallower same what l next next'
  | stuck : next = Parse.unexpectedBefore what → next' = Parse.unexpectedBefore what →
      Handles F shallower same what l next next'
  | apart {run run' : Except ScriptError α} : (∀ a, same a a) →
      (∀ c, next c = run.map fun a => (a, c)) → (∀ c, next' c = run'.map fun a => (a, c)) →
      Echoes shallower run run' →
      (∀ (token : Token) (fault : ScriptError), token.lexeme = l → token.Beyond F.far →
        run = .error fault → F.Excuses fault) →
      Handles F shallower same what l next next'

theorem map_ok {result : Except ScriptError α} {c d : Cursor} {a : α}
    (ran : (result.map fun a => (a, c)) = .ok (a, d)) : result = .ok a ∧ d = c := by
  cases result with
  | error fault => cases ran
  | ok value =>
      cases ran
      exact ⟨rfl, rfl⟩

theorem map_error {result : Except ScriptError α} {c : Cursor} {fault : ScriptError}
    (ran : (result.map fun a => (a, c)) = .error fault) : result = .error fault := by
  cases result with
  | error reason =>
      cases ran
      rfl
  | ok value => cases ran

/-- A token is taken and looked at afterwards.  The end mark is not taken, so
    what is reported is the token before it. -/
theorem advance_bind (what : String) (known : what ∈ ["expression", "property name", "property key"])
    {next next' : Token → Parse β}
    (later : ∀ token token', token.lexeme.Alike token'.lexeme →
      Handles F shallower same' what token.lexeme (next token) (next' token')) :
    F.Relates shallower same' (Parse.advance >>= next) (Parse.advance >>= next') := by
  have taken (next : Token → Parse β) (c : Cursor) :
      (Parse.advance >>= next) c = next c.current c.advance := rfl
  refine ⟨⟨fun c b d past ran => ?_, fun c fault past ran => ?_⟩, fun c c' b d agree ran => ?_,
    fun c c' fault agree ran => ?_⟩
  · rw [taken] at ran
    cases later c.current _ (.refl _) with
    | going relates => exact relates.drifts.ok _ b d past.stepped ran
    | stuck fails _ =>
        rw [fails] at ran
        cases ran
    | apart _ reads _ _ _ =>
        rw [reads] at ran
        rw [(map_ok ran).2]
        exact past.stepped
  · rw [taken] at ran
    cases later c.current _ (.refl _) with
    | going relates => exact relates.drifts.error _ fault past.stepped ran
    | stuck fails _ =>
        rw [fails] at ran
        cases ran
        exact past.excuses_before known
    | apart _ reads _ _ beyond =>
        rw [reads] at ran
        exact beyond c.current fault rfl past.current (map_error ran)
  · rw [taken] at ran
    rw [taken]
    cases later _ _ agree.current.lexeme with
    | going relates =>
        rcases agree.advance with past | agree
        · exact .inl (relates.drifts.ok _ b d past ran)
        · exact relates.ok _ _ b d agree ran
    | stuck fails _ =>
        rw [fails] at ran
        cases ran
    | apart refl reads reads' echoes _ =>
        rw [reads] at ran
        obtain ⟨read, rfl⟩ := map_ok ran
        refine agree.advance.imp_right fun agree => ?_
        rw [reads']
        rcases echoes.ok b read with read' | ⟨less, place, refused⟩
        · exact .inl ⟨b, _, by rw [read']; rfl, refl b, agree⟩
        · exact .inr ⟨less, place, by rw [refused]; rfl⟩
  · rw [taken] at ran
    rw [taken]
    cases later _ _ agree.current.lexeme with
    | going relates =>
        rcases agree.advance with past | agree
        · exact .inl (relates.drifts.error _ fault past ran)
        · exact relates.error _ _ fault agree ran
    | stuck _ fails => exact .inr ⟨_, congrFun fails _⟩
    | apart _ reads reads' echoes _ =>
        rw [reads] at ran
        obtain ⟨fault', failed⟩ := echoes.error fault (map_error ran)
        exact .inr ⟨fault', by rw [reads', failed]; rfl⟩

/-! ### The word `in` and the loops -/

theorem setInBarred_relates {barred barred' : Bool} (alike : F.mixed ∨ barred' = barred) :
    F.Relates shallower Eq (Parse.setInBarred barred) (Parse.setInBarred barred') :=
  moves_relates _ _ (fun _ => rfl) (fun _ => rfl) (fun _ _ _ => rfl)
    (fun _ past => ⟨⟨past.proper.ended, past.proper.last, past.proper.within⟩, past.ahead,
      past.before⟩)
    fun _ _ agree => .inr ⟨⟨agree.proper.ended, agree.proper.last, agree.proper.within⟩,
      ⟨agree.proper'.ended, agree.proper'.last, agree.proper'.within⟩, agree.zones, alike⟩

theorem inBarred_bind {next next' : Bool → Parse β}
    (later : ∀ barred barred', F.mixed ∨ barred' = barred →
      F.Relates shallower same' (next barred) (next' barred')) :
    F.Relates shallower same' (Parse.inBarred >>= next) (Parse.inBarred >>= next') :=
  have looks : F.Relates shallower (fun barred barred' => F.mixed ∨ barred' = barred)
      Parse.inBarred Parse.inBarred :=
    look_relates (fun _ => rfl) (fun _ => rfl) fun _ _ agree => agree.barred
  looks.bind (fun _ => .inr rfl) later

theorem Relates.allowingIn {parse parse' : Parse α} (relates : F.Relates shallower Eq parse parse') :
    F.Relates shallower Eq (Parse.allowingIn parse) (Parse.allowingIn parse') := by
  unfold Parse.allowingIn
  exact inBarred_bind fun saved saved' alike => (setInBarred_relates (.inr rfl)).behind fun _ =>
    relates.behind fun a => (setInBarred_relates alike).behind fun _ => pure_relates rfl

/-- Any bound that is large enough for both runs will do for each of them. -/
theorem size_bind {loop loop' : Nat → Parse β} (unbounded : Parse.Unbounded loop)
    (unbounded' : Parse.Unbounded loop')
    (each : ∀ bound, F.Relates shallower same' (loop bound) (loop' bound)) :
    F.Relates shallower same' (Parse.size >>= loop) (Parse.size >>= loop') := by
  have sized (loop : Nat → Parse β) (c : Cursor) : (Parse.size >>= loop) c = loop c.size c := rfl
  have larger {loop : Nat → Parse β} (unbounded : Parse.Unbounded loop) {c : Cursor}
      (proper : c.Proper) (more : Nat) : (Parse.size >>= loop) c = loop (c.size + more) c :=
    unbounded c.size _ _ (Nat.le_refl _) (Nat.le_add_right ..) c proper proper.within
  refine ⟨⟨fun c b d past ran => ?_, fun c fault past ran => ?_⟩, fun c c' b d agree ran => ?_,
    fun c c' fault agree ran => ?_⟩
  · exact (each c.size).drifts.ok c b d past ran
  · exact (each c.size).drifts.error c fault past ran
  · rw [larger unbounded agree.proper c'.size] at ran
    rw [larger unbounded' agree.proper' c.size, Nat.add_comm]
    exact (each _).ok c c' b d agree ran
  · rw [larger unbounded agree.proper c'.size] at ran
    rw [larger unbounded' agree.proper' c.size, Nat.add_comm]
    exact (each _).error c c' fault agree ran

/-! ### Whole texts -/

/-- All tokens are shared. -/
def whole : Fork where
  rest := []
  rest' := []
  far := fun _ => False
  distant := nofun
  mixed := False
  naming := False

theorem whole_zones {tokens tokens' : List Token} (some : tokens ≠ [])
    (alike : List.Forall₂ Token.Alike tokens tokens') : whole.Zones tokens tokens' := by
  induction alike with
  | nil => exact absurd rfl some
  | @cons token token' more more' first later ih =>
      have shares : whole.Shares token token' more more' := by
        refine ⟨first, fun _ => ?_, nofun⟩
        simp only [whole, List.append_nil]
        exact closesBeforeArrow_alike (.cons first later) 0
      cases later with
      | nil => exact .last shares fun _ => .inr rfl
      | cons second others => exact .cons shares (ih nofun)

theorem whole_agree {tokens tokens' : List Token} (ended : Ended tokens) (ended' : Ended tokens')
    (alike : List.Forall₂ Token.Alike tokens tokens') :
    whole.Agree (.ofTokens tokens) (.ofTokens tokens') := by
  refine ⟨ended.proper, ended'.proper, ⟨tokens, tokens', whole_zones ?_ alike, ?_, ?_⟩, .inr rfl⟩
  · obtain ⟨front, last, rfl, -⟩ := ended
    simp
  · exact (List.append_nil _).symm
  · exact (List.append_nil _).symm

theorem whole_not_past : ¬ whole.Past c := by
  intro past
  have none : c.ahead = [] := List.eq_nil_of_suffix_nil past.ahead
  have some := past.proper.ahead_pos
  rw [none] at some
  exact absurd some (Nat.lt_irrefl 0)

theorem whole_not_excuses {error : ScriptError} : ¬ whole.Excuses error := by
  rintro ⟨place, fault, -, far | ⟨one, -⟩ | ⟨naming, -⟩⟩
  · exact far
  · cases one
  · exact naming

/-- A fork behind which everything is far. -/
def beyond (far : Position → Prop) (tokens : List Token)
    (distant : ∀ token ∈ tokens, token.Beyond far) : Fork where
  rest := tokens
  rest' := []
  far := far
  distant := distant
  mixed := False
  naming := False

theorem run'_eq {parse : Parse α} (c : Cursor) : parse.run' c = (parse c).map Prod.fst :=
  rfl

/-- Over alike texts the second run does what the first does. -/
theorem Relates.echoes {parse parse' : Parse α} {tokens tokens' : List Token}
    (relates : whole.Relates shallower Eq parse parse') (ended : Ended tokens)
    (ended' : Ended tokens') (alike : List.Forall₂ Token.Alike tokens tokens') :
    Echoes shallower (parse.run' (.ofTokens tokens)) (parse'.run' (.ofTokens tokens')) := by
  have agree := whole_agree ended ended' alike
  constructor
  · intro a ran
    rw [run'_eq] at ran ⊢
    cases parsed : parse (.ofTokens tokens) with
    | error fault =>
        rw [parsed] at ran
        cases ran
    | ok after =>
        rw [parsed] at ran
        cases ran
        rcases relates.ok _ _ _ _ agree parsed with past | ⟨a', d', parsed', rfl, -⟩ | ⟨less, place, refused⟩
        · exact absurd past whole_not_past
        · rw [parsed']
          exact .inl rfl
        · rw [refused]
          exact .inr ⟨less, place, rfl⟩
  · intro fault ran
    rw [run'_eq] at ran ⊢
    cases parsed : parse (.ofTokens tokens) with
    | error reason =>
        rcases relates.error _ _ _ agree parsed with excused | ⟨fault', failed⟩
        · exact absurd excused whole_not_excuses
        · exact ⟨fault', by rw [failed]; rfl⟩
    | ok after =>
        rw [parsed] at ran
        cases ran

/-- In a text that lies far behind, every fault does. -/
theorem far_of_drifts {parse : Parse α} {far : Position → Prop} {tokens : List Token}
    (drifts : ∀ F : Fork, F.Drifts parse) (ended : Ended tokens)
    (distant : ∀ token ∈ tokens, token.Beyond far) {error : ScriptError}
    (failed : parse.run' (.ofTokens tokens) = .error error) :
    ∃ place fault, error = .syntaxFault place fault ∧ far place := by
  obtain ⟨front, last, rfl, -⟩ := id ended
  -- The text is held to begin behind another token, so that no fault is
  -- reported before it.
  have more : ∀ token ∈ last :: (front ++ [last]), token.Beyond far :=
    List.forall_mem_cons.mpr ⟨distant last (by simp), distant⟩
  have past : (beyond far _ more).Past (.ofTokens (front ++ [last])) :=
    ⟨ended.proper, List.suffix_cons .., .inr nofun⟩
  cases parsed : parse (.ofTokens (front ++ [last])) with
  | error reason =>
      rw [run'_eq, parsed] at failed
      cases failed
      obtain ⟨place, fault, rfl, far' | ⟨one, -⟩ | ⟨naming, -⟩⟩ :=
        (drifts _).error _ _ past parsed
      · exact ⟨place, fault, rfl, far'⟩
      · simp [beyond] at one
      · exact naming.elim
  | ok after =>
      rw [run'_eq, parsed] at failed
      cases failed

end Fork

end StrategyQubo.Script
