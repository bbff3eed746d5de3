import StrategyQubo.Proofs.SpelledTrees
import StrategyQubo.Proofs.TokenTexts
import StrategyQubo.Script.Syntax.Parse

namespace StrategyQubo

open StrategyQubo.Script

/-! # Tokens of a spelling

A parser sees the words and texts of its tokens and no others.  Each step of a
parser goes on to tokens that it has not left behind, so what is true of all
tokens of a text stays true of those ahead.
-/

namespace Script

/-- Scanners and parsers gather what they find in front of it, and turn it round
    in the end. -/
theorem forall_mem_reversed {α : Type} {expected : α → Prop} {found : List α}
    (all : ∀ item ∈ found, expected item) : ∀ item ∈ found.reverse, expected item :=
  fun item member => all item (List.mem_reverse.mp member)

/-- A hole is a text of which other tokens are cut. -/
def Chunk.Within (s : Spelling) : Chunk → Prop
  | .text _ => True
  | .code source start => s.source source start

/-- An identifier may name a function, whose name is a text. -/
def Lexeme.Within (s : Spelling) : Lexeme → Prop
  | .string text => s.text text
  | .template chunks => ∀ chunk ∈ chunks, chunk.Within s
  | .identifier name => s.name name ∧ s.text name
  | _ => True

def Token.Within (s : Spelling) (token : Token) : Prop :=
  token.lexeme.Within s

structure Cursor.Within (s : Spelling) (c : Cursor) : Prop where
  ahead : ∀ token ∈ c.ahead, token.Within s
  last : c.last.Within s

/-- From tokens of the spelling the parser goes on to such tokens, and what it
    answers is as expected. -/
def Parse.Keeps {α : Type} (s : Spelling) (expected : α → Prop) (parse : Parse α) : Prop :=
  ∀ c, c.Within s → ∀ a c', parse c = .ok (a, c') → expected a ∧ c'.Within s

/-- Such a parser, whatever it answers. -/
abbrev Parse.Stays {α : Type} (s : Spelling) (parse : Parse α) : Prop :=
  parse.Keeps s fun _ => True

variable {α β : Type} {s : Spelling}

/-! ## Cursors -/

theorem Cursor.Within.current {c : Cursor} (within : c.Within s) : c.current.Within s := by
  unfold Cursor.current
  cases ahead : c.ahead with
  | nil => exact within.last
  | cons token rest => exact within.ahead token (ahead ▸ List.mem_cons_self)

theorem Cursor.Within.lookahead {c : Cursor} (within : c.Within s) (offset : Nat) :
    (c.lookahead offset).Within s := by
  unfold Cursor.lookahead
  rw [List.getD_eq_getElem?_getD]
  cases there : c.ahead[offset]? with
  | none => exact within.last
  | some token => exact within.ahead token (List.mem_of_getElem? there)

theorem Cursor.Within.advance {c : Cursor} (within : c.Within s) : c.advance.Within s := by
  unfold Cursor.advance
  split
  · next token next rest ahead =>
    exact ⟨fun later member => within.ahead later (ahead ▸ List.mem_cons_of_mem _ member),
      within.last⟩
  · exact within

theorem Cursor.Within.ofTokens {tokens : List Token} (within : ∀ token ∈ tokens, token.Within s) :
    (Cursor.ofTokens tokens).Within s := by
  refine ⟨within, ?_⟩
  change (tokens.getLastD _).Within s
  rw [List.getLastD_eq_getLast?]
  cases last : tokens.getLast? with
  | none => trivial
  | some token => exact within token (List.mem_of_getLast? last)

/-! ## Steps of parsers -/

namespace Parse

variable {expected : α → Prop}

theorem Keeps.pure {a : α} (good : expected a) : (pure a : Parse α).Keeps s expected := by
  rintro c within a' c' ⟨⟩
  exact ⟨good, within⟩

theorem Keeps.pure_none {good : α → Prop} :
    (Pure.pure none : Parse (Option α)).Keeps s fun found => ∀ value ∈ found, good value :=
  .pure fun _ among => absurd among (Option.not_mem_none _)

theorem Keeps.bind {parse : Parse α} {next : α → Parse β} {expected' : β → Prop}
    (first : parse.Keeps s expected)
    (later : ∀ a, expected a → (next a).Keeps s expected') :
    (parse >>= next).Keeps s expected' := by
  intro c within b c'' ran
  obtain ⟨a, c', parsed, ran⟩ := StateT.exists_of_bind_ok ran
  obtain ⟨good, kept⟩ := first c within a c' parsed
  exact later a good c' kept b c'' ran

theorem Stays.bind {parse : Parse α} {next : α → Parse β} {expected : β → Prop}
    (first : parse.Stays s) (later : ∀ a, (next a).Keeps s expected) :
    (parse >>= next).Keeps s expected :=
  Keeps.bind first fun a _ => later a

theorem Keeps.stays {parse : Parse α} (keeps : parse.Keeps s expected) : parse.Stays s :=
  fun c within a c' ran => ⟨trivial, (keeps c within a c' ran).2⟩

/-- A parser that moves the cursor alone. -/
theorem stays_of_moves {parse : Parse α} {move : Cursor → Cursor} {answer : Cursor → α}
    (moves : ∀ c : Cursor, c.Within s → (move c).Within s)
    (steps : ∀ c, parse c = .ok (answer c, move c)) : parse.Stays s := by
  intro c within a c' ran
  cases (steps c).symm.trans ran
  exact ⟨trivial, moves c within⟩

theorem keeps_of_fails {parse : Parse α} {error : Cursor → ScriptError}
    (fails : ∀ c, parse c = .error (error c)) : parse.Keeps s expected := by
  intro c within a c' ran
  cases (fails c).symm.trans ran

theorem unexpected_keeps (what : String) : (unexpected what : Parse α).Keeps s expected :=
  keeps_of_fails fun _ => rfl

theorem unexpectedBefore_keeps (what : String) :
    (unexpectedBefore what : Parse α).Keeps s expected :=
  keeps_of_fails fun _ => rfl

theorem lexeme_keeps : lexeme.Keeps s (Lexeme.Within s) := by
  rintro c within l c' ⟨⟩
  exact ⟨within.current, within⟩

theorem advance_keeps : advance.Keeps s (Token.Within s) := by
  rintro c within token c' ⟨⟩
  exact ⟨within.current, within.advance⟩

theorem peek_stays : peek.Stays s := stays_of_moves (fun _ => id) fun _ => rfl

theorem lookahead_keeps (offset : Nat) : (lookahead offset).Keeps s (Lexeme.Within s) := by
  rintro c within l c' ⟨⟩
  exact ⟨within.lookahead offset, within⟩

theorem skip_stays : skip.Stays s := stays_of_moves (fun _ => .advance) fun _ => rfl

theorem atEnd_stays : atEnd.Stays s := stays_of_moves (fun _ => id) fun _ => rfl

theorem atMark_stays (mark : Mark) : (atMark mark).Stays s :=
  stays_of_moves (fun _ => id) fun _ => rfl

theorem size_stays : size.Stays s := stays_of_moves (fun _ => id) fun _ => rfl

theorem inBarred_stays : inBarred.Stays s := stays_of_moves (fun _ => id) fun _ => rfl

theorem setInBarred_stays (barred : Bool) : (setInBarred barred).Stays s := by
  rintro c within _ c' ⟨⟩
  exact ⟨trivial, within.ahead, within.last⟩

theorem eatMark_stays (mark : Mark) : (eatMark mark).Stays s := by
  intro c within found c' ran
  unfold eatMark at ran
  split at ran
  · cases ran
    exact ⟨trivial, within.advance⟩
  · cases ran
    exact ⟨trivial, within⟩

theorem eatKeyword_stays (word : Keyword) : (eatKeyword word).Stays s := by
  intro c within found c' ran
  unfold eatKeyword at ran
  split at ran
  · cases ran
    exact ⟨trivial, within.advance⟩
  · cases ran
    exact ⟨trivial, within⟩

theorem expectMark_stays (mark : Mark) (what : String) : (expectMark mark what).Stays s := by
  unfold expectMark
  refine (eatMark_stays mark).bind fun found => ?_
  split
  · exact .pure trivial
  · exact unexpected_keeps what

theorem takeIdentifier_stays (what : String) : (takeIdentifier what).Stays s := by
  unfold takeIdentifier
  refine lexeme_keeps.bind fun l _ => ?_
  split
  · exact skip_stays.bind fun _ => .pure trivial
  · exact unexpected_keeps what

theorem allowingIn_keeps {parse : Parse α} (keeps : parse.Keeps s expected) :
    (allowingIn parse).Keeps s expected := by
  unfold allowingIn
  refine inBarred_stays.bind fun saved => (setInBarred_stays false).bind fun _ => ?_
  exact keeps.bind fun a good => (setInBarred_stays saved).bind fun _ => .pure good

theorem endStatement_stays : endStatement.Stays s := by
  unfold endStatement
  refine (eatMark_stays .semicolon).bind fun found => ?_
  split
  · exact .pure trivial
  · refine peek_stays.bind fun token => ?_
    split
    · exact .pure trivial
    · exact unexpected_keeps _

end Parse

end Script

end StrategyQubo
