import StrategyQubo.Proofs.ContinuedTexts
import StrategyQubo.Proofs.BarredRuns
import StrategyQubo.Proofs.JsonTrees

namespace StrategyQubo.Script

/-! # Declarations in the headers of loops

A declaration that can stand alone can stand in the header of a counting loop,
as long as no word `in` stands in the open in it.
-/

open Parse Fork

/-! ## Arrows behind parentheses -/

theorem Lexeme.Alike.isPlain_eq {l l' : Lexeme} (alike : l.Alike l') (semicolons : Bool) :
    l'.isPlain semicolons = l.isPlain semicolons := by
  cases alike <;> rfl

theorem Lexeme.Alike.mark_eq {l l' : Lexeme} {mark : Mark} (alike : l.Alike l')
    (spelled : l = .mark mark) : l' = .mark mark := by
  subst spelled
  cases alike
  rfl

theorem Lexeme.Alike.keyword_eq {l l' : Lexeme} {word : Keyword} (alike : l.Alike l')
    (spelled : l = .keyword word) : l' = .keyword word := by
  subst spelled
  cases alike
  rfl

section Arrows

variable {token : Token}

theorem closesBeforeArrow_cons (depth : Nat) (rest : List Token) :
    closesBeforeArrow depth (token :: rest) =
      if token.lexeme.isMark .openParen then closesBeforeArrow (depth + 1) rest
      else if token.lexeme.isMark .closeParen then
        if depth ≤ 1 then rest.head?.any (·.lexeme.isMark .arrow)
        else closesBeforeArrow (depth - 1) rest
      else closesBeforeArrow depth rest := by
  conv_lhs => unfold closesBeforeArrow
  cases rest <;> rfl

theorem closesBeforeArrow_open (opens : token.lexeme = .mark .openParen) (depth : Nat)
    (rest : List Token) :
    closesBeforeArrow depth (token :: rest) = closesBeforeArrow (depth + 1) rest := by
  rw [closesBeforeArrow_cons, opens]
  exact if_pos rfl

theorem closesBeforeArrow_close (closes : token.lexeme = .mark .closeParen) (depth : Nat)
    (rest : List Token) :
    closesBeforeArrow depth (token :: rest) =
      if depth ≤ 1 then rest.head?.any (·.lexeme.isMark .arrow)
      else closesBeforeArrow (depth - 1) rest := by
  rw [closesBeforeArrow_cons, closes]
  exact (if_neg (by decide)).trans (if_pos rfl)

theorem closesBeforeArrow_other (opens : token.lexeme.isMark .openParen = false)
    (closes : token.lexeme.isMark .closeParen = false) (depth : Nat) (rest : List Token) :
    closesBeforeArrow depth (token :: rest) = closesBeforeArrow depth rest := by
  rw [closesBeforeArrow_cons, opens, closes]
  rfl

end Arrows

/-- A stretch of balanced tokens does not close a parenthesis in front of it. -/
theorem Balanced.closesBeforeArrow_eq {semicolons : Bool} {row : List Token}
    (balanced : Balanced semicolons row) (more : List Token) (depth : Nat) :
    closesBeforeArrow (depth + 1) (row ++ more) = closesBeforeArrow (depth + 1) more := by
  induction balanced generalizing depth more with
  | nil => rfl
  | @plain semicolons token rest plain _ ih =>
      have other (mark : Mark) (bracket : mark.isBracket = true) : token.lexeme.isMark mark = false := by
        refine Bool.eq_false_iff.mpr fun found => ?_
        rw [eq_of_isMark found, Lexeme.isPlain, bracket] at plain
        cases plain
      exact (closesBeforeArrow_other (other _ rfl) (other _ rfl) ..).trans (ih more depth)
  | @group semicolons opener closer opening closing inner rest opens pair closes _ _ within behind =>
      rw [List.cons_append, List.append_assoc, List.cons_append]
      by_cases paren : opening = .openParen
      · subst paren
        cases pair
        rw [closesBeforeArrow_open opens, within, closesBeforeArrow_close closes, if_neg (by omega)]
        exact behind more depth
      · have other : opener.lexeme.isMark .openParen = false ∧ opener.lexeme.isMark .closeParen = false ∧
            closer.lexeme.isMark .openParen = false ∧ closer.lexeme.isMark .closeParen = false := by
          rw [opens, closes]
          cases opening <;> cases pair <;> first | exact absurd rfl paren | decide
        rw [closesBeforeArrow_other other.1 other.2.1, within,
          closesBeforeArrow_other other.2.2.1 other.2.2.2, behind]

/-- Whether a parenthesis closes before an arrow shows right behind it. -/
theorem closesBeforeArrow_group {semicolons : Bool} {opener closer : Token} {inner : List Token}
    (opens : opener.lexeme = .mark .openParen) (balanced : Balanced semicolons inner)
    (closes : closer.lexeme = .mark .closeParen) (rest : List Token) :
    closesBeforeArrow 0 (opener :: (inner ++ closer :: rest)) =
      rest.head?.any (·.lexeme.isMark .arrow) := by
  rw [closesBeforeArrow_open opens, balanced.closesBeforeArrow_eq, closesBeforeArrow_close closes]
  rfl

theorem forall₂_append_left {α β : Type} {r : α → β → Prop} {first second : List α} {whole : List β}
    (alike : List.Forall₂ r (first ++ second) whole) :
    ∃ first' second', whole = first' ++ second' ∧ List.Forall₂ r first first' ∧
      List.Forall₂ r second second' := by
  induction first generalizing whole with
  | nil => exact ⟨[], whole, rfl, .nil, alike⟩
  | cons a first ih =>
      cases alike with
      | cons head tail =>
          obtain ⟨first', second', rfl, heads, tails⟩ := ih tail
          exact ⟨_ :: first', second', rfl, .cons head heads, tails⟩

theorem Balanced.alike {semicolons : Bool} {row row' : List Token} (balanced : Balanced semicolons row)
    (alike : List.Forall₂ Token.Alike row row') : Balanced semicolons row' := by
  induction balanced generalizing row' with
  | nil =>
      cases alike
      exact .nil
  | plain plain _ ih =>
      cases alike with
      | cons first later => exact .plain ((first.lexeme.isPlain_eq _).trans plain) (ih later)
  | group opens pair closes _ _ within behind =>
      cases alike with
      | cons first later =>
          obtain ⟨inner', rest', rfl, inside, others⟩ := forall₂_append_left later
          cases others with
          | cons last others =>
              exact .group (first.lexeme.mark_eq opens) pair (last.lexeme.mark_eq closes)
                (within inside) (behind others)

theorem Fork.Zones.arrow_behind {F : Fork} {zone zone' : List Token} (zones : F.Zones zone zone') :
    (zone' ++ F.rest').head?.any (·.lexeme.isMark .arrow) =
      (zone ++ F.rest).head?.any (·.lexeme.isMark .arrow) := by
  cases zones with
  | last shares => exact shares.alike.lexeme.isMark_eq .arrow
  | cons shares => exact shares.alike.lexeme.isMark_eq .arrow

/-- Two runs share balanced tokens, whatever stands behind them. -/
theorem Balanced.zones {F : Fork} (unmixed : ¬ F.mixed) {semicolons : Bool} {row : List Token}
    (balanced : Balanced semicolons row) {row' zone zone' : List Token}
    (alike : List.Forall₂ Token.Alike row row') (zones : F.Zones zone zone') :
    F.Zones (row ++ zone) (row' ++ zone') := by
  have single {token token' : Token} {more more' : List Token} (alike : Token.Alike token token')
      (other : token.lexeme.isMark .openParen = false) : F.Shares token token' more more' :=
    ⟨alike, fun opens => absurd (other.symm.trans opens) Bool.false_ne_true,
      fun mixed => absurd mixed unmixed⟩
  induction balanced generalizing row' zone zone' with
  | nil =>
      cases alike
      exact zones
  | @plain semicolons token rest plain _ ih =>
      cases alike with
      | cons first later =>
          refine .cons (single first (Bool.eq_false_iff.mpr fun found => ?_)) (ih later zones)
          rw [eq_of_isMark found] at plain
          cases plain
  | @group semicolons opener closer opening closing inner rest opens pair closes inside _ within behind =>
      cases alike with
      | @cons _ opener' _ _ first later =>
          obtain ⟨inner', rest', rfl, within', others⟩ := forall₂_append_left later
          cases others with
          | @cons _ closer' _ rest' last others =>
              have closing : F.Zones (closer :: (rest ++ zone)) (closer' :: (rest' ++ zone')) := by
                refine .cons (single last ?_) (behind others zones)
                rw [closes]
                cases opening <;> cases pair <;> rfl
              have all := within within' closing
              have next : ((rest' ++ zone') ++ F.rest').head?.any (·.lexeme.isMark .arrow) =
                  ((rest ++ zone) ++ F.rest).head?.any (·.lexeme.isMark .arrow) :=
                (behind others zones).arrow_behind
              rw [List.cons_append, List.append_assoc, List.cons_append, List.cons_append,
                List.append_assoc, List.cons_append]
              refine .cons ⟨first, fun paren => ?_, fun mixed => absurd mixed unmixed⟩ all
              have opens' := eq_of_isMark paren
              obtain rfl : opening = .openParen := Lexeme.mark.inj (opens.symm.trans opens')
              cases pair
              rw [List.append_assoc, List.append_assoc, List.cons_append, List.cons_append,
                closesBeforeArrow_group opens' inside closes, closesBeforeArrow_group
                  (first.lexeme.mark_eq opens') (inside.alike within') (last.lexeme.mark_eq closes)]
              exact next

/-! ## The two texts -/

/-- The declaration of a variable that is initialized with the source. -/
def declarationOf (source : String) : String :=
  "var v = " ++ source ++ ";"

/-- A loop whose header begins with that declaration. -/
def loopOf (source : String) : String :=
  "for (var v = " ++ source ++ "; ; ) \x7b\x7d"

/-- Behind the equals sign, both texts go on alike up to the semicolon. -/
def initialOf (source : String) : List Char :=
  ' ' :: (source.toList ++ [';'])

theorem declarationOf_toList (source : String) :
    (declarationOf source).toList =
      'v' :: 'a' :: 'r' :: ' ' :: 'v' :: ' ' :: '=' :: initialOf source := by
  simp [declarationOf, initialOf]

namespace Scan

variable (bound : Nat) (found : List Token) (more : List Char) (place : Position)

theorem tokens_word {c : Char} (word : List Char) {rest : List Char} (letter : c.isAlpha = true)
    (continues : ∀ d ∈ word, continuesIdentifier d = true) (breaks : Breaks rest) :
    ∃ place', tokens (bound + 1) found ⟨c :: (word ++ rest), place⟩ =
      tokens bound (⟨wordOf (String.ofList (c :: word)), place, false⟩ :: found) ⟨rest, place'⟩ := by
  obtain ⟨place', cut⟩ := lexeme_word letter continues breaks
  exact ⟨place', tokens_step (solid_letter letter _) found cut⟩

theorem tokens_opening :
    ∃ atName atMark behind,
      tokens (bound + 3) found ⟨'v' :: 'a' :: 'r' :: ' ' :: 'v' :: ' ' :: '=' :: ' ' :: more, place⟩ =
        tokens bound (⟨.mark .assign, atMark, false⟩ :: ⟨.identifier "v", atName, false⟩ ::
          ⟨.keyword .varWord, place, false⟩ :: found) ⟨' ' :: more, behind⟩ := by
  have letter : ('v' : Char).isAlpha = true := by decide
  have breaks (text : List Char) : Breaks (' ' :: text) := .cons (by decide) text
  obtain ⟨first, word⟩ := tokens_word (bound + 2) found place ['a', 'r'] letter
    (List.all_eq_true.mp (by decide))
    (breaks ('v' :: ' ' :: '=' :: ' ' :: more))
  obtain ⟨second, name⟩ := tokens_word (bound + 1) (⟨.keyword .varWord, place, false⟩ :: found)
    (first.step ' ') [] letter (List.forall_mem_nil _) (breaks ('=' :: ' ' :: more))
  have spelled : wordOf (String.ofList ['v', 'a', 'r']) = .keyword .varWord := rfl
  have spelled' : wordOf (String.ofList ['v']) = .identifier "v" := rfl
  have solid : Solid ('=' :: ' ' :: more) := solid_cons (by decide) (by decide) (by decide) _
  have assign : lexeme (bound + 1) '=' ⟨'=' :: ' ' :: more, second.step ' '⟩ =
      .ok (.mark .assign, ⟨' ' :: more, (second.step ' ').step '='⟩) := rfl
  rw [spelled] at word
  rw [spelled'] at name
  refine ⟨first.step ' ', second.step ' ', (second.step ' ').step '=', word.trans ?_⟩
  rw [tokens_blank (solid_letter letter _)]
  refine name.trans ?_
  rw [tokens_blank solid]
  exact tokens_step solid _ assign

theorem tokens_header :
    ∃ atParen behind,
      tokens (bound + 2) found ⟨'f' :: 'o' :: 'r' :: ' ' :: '(' :: 'v' :: more, place⟩ =
        tokens bound (⟨.mark .openParen, atParen, false⟩ :: ⟨.keyword .forWord, place, false⟩ :: found)
          ⟨'v' :: more, behind⟩ := by
  have letter : ('f' : Char).isAlpha = true := by decide
  have breaks : Breaks (' ' :: '(' :: 'v' :: more) := .cons (by decide) _
  obtain ⟨first, word⟩ := tokens_word (bound + 1) found place ['o', 'r'] letter
    (List.all_eq_true.mp (by decide)) breaks
  have spelled : wordOf (String.ofList ['f', 'o', 'r']) = .keyword .forWord := rfl
  have solid : Solid ('(' :: 'v' :: more) := solid_cons (by decide) (by decide) (by decide) _
  have paren : lexeme (bound + 1) '(' ⟨'(' :: 'v' :: more, first.step ' '⟩ =
      .ok (.mark .openParen, ⟨'v' :: more, (first.step ' ').step '('⟩) := rfl
  rw [spelled] at word
  refine ⟨first.step ' ', (first.step ' ').step '(', word.trans ?_⟩
  rw [tokens_blank solid]
  exact tokens_step solid _ paren

/-- The rest of the loop behind its first semicolon. -/
def closing : List Lexeme :=
  [.mark .semicolon, .mark .closeParen, .mark .openBrace, .mark .closeBrace, .endOfInput]

theorem cuts_closing : Cuts [' ', ';', ' ', ')', ' ', '\x7b', '\x7d'] closing := by
  refine .blank (solid_cons (by decide) (by decide) (by decide) _) (.mark (by decide) rfl ?_)
  refine .blank (solid_cons (by decide) (by decide) (by decide) _) (.mark (by decide) rfl ?_)
  refine .blank (solid_cons (by decide) (by decide) (by decide) _) (.mark (by decide) rfl ?_)
  exact .mark (by decide) rfl .done

end Scan

open Scan

theorem map_eq_ok {ε α β : Type} {f : α → β} {result : Except ε α} {b : β} :
    result.map f = .ok b ↔ ∃ a, result = .ok a ∧ f a = b := by
  cases result with
  | error fault => exact ⟨nofun, nofun⟩
  | ok a => simp [Except.map]

theorem tokenize_run {text : String} {tokens : List Token} :
    tokenize text = .ok tokens ↔
      ∃ s', Scan.tokens (text.toList.length + 1) [] ⟨text.toList, .start⟩ = .ok (tokens, s') := by
  change (Scan.tokens (text.toList.length + 1) [] ⟨text.toList, .start⟩).map Prod.fst = .ok tokens ↔ _
  rw [map_eq_ok]
  constructor
  · rintro ⟨⟨_, s'⟩, ran, rfl⟩
    exact ⟨s', ran⟩
  · rintro ⟨s', ran⟩
    exact ⟨_, ran, rfl⟩

theorem tokenize_declaration {source : String} {tokens : List Token}
    (cut : tokenize (declarationOf source) = .ok tokens) :
    ∃ word name assign more, tokens = word :: name :: assign :: more ∧
      word.lexeme = .keyword .varWord ∧ assign.lexeme = .mark .assign := by
  obtain ⟨s', ran⟩ := tokenize_run.mp cut
  rw [declarationOf_toList, initialOf] at ran
  obtain ⟨atName, atMark, behind, opening⟩ := tokens_opening _ [] (source.toList ++ [';']) .start
  have sized : ('v' :: 'a' :: 'r' :: ' ' :: 'v' :: ' ' :: '=' :: ' ' :: (source.toList ++ [';'])).length + 1 =
      (source.toList.length + 7) + 3 := by
    simp only [List.length_cons, List.length_append, List.length_nil]
  rw [sized, opening] at ran
  have enough : (' ' :: (source.toList ++ [';'])).length < source.toList.length + 7 := by
    simp only [List.length_cons, List.length_append, List.length_nil]
    omega
  obtain ⟨pieces, more, -, rfl⟩ := layout_of_tokens enough ran
  exact ⟨_, _, _, more, rfl, rfl, rfl⟩

/-- The tokens of a declaration, and those of the loop with it in its header. -/
structure HeaderTokens where
  {first paren word word' semicolon semicolon' last : Token}
  {row row' rest : List Token}
  forWord : first.lexeme = .keyword .forWord
  openParen : paren.lexeme = .mark .openParen
  varWord : word.lexeme = .keyword .varWord
  varWord' : word'.lexeme = .keyword .varWord
  /-- A declaration is no header over a collection. -/
  assigns : ∃ name assign more, row' = name :: assign :: more ∧ assign.lexeme = .mark .assign
  alike : List.Forall₂ Token.Alike row row'
  ends : semicolon.lexeme = .mark .semicolon
  ends' : Token.Alike semicolon semicolon'
  closes : rest.map Token.lexeme = closing

namespace HeaderTokens

variable (h : HeaderTokens)

def alone : List Token :=
  h.word :: (h.row ++ [h.semicolon, h.last])

def inLoop : List Token :=
  h.first :: h.paren :: h.word' :: (h.row' ++ h.semicolon' :: h.rest)

end HeaderTokens

theorem declarationOf_ends (source : String) : EndsIn ';' (declarationOf source).toList := by
  rw [declarationOf_toList, initialOf]
  exact (show EndsIn ';' [';'] from rfl).behind ('v' :: 'a' :: 'r' :: ' ' :: 'v' :: ' ' :: '=' :: ' ' :: source.toList)

theorem loopOf_eq (source : String) :
    ∃ more, (declarationOf source).toList = 'v' :: more ∧ (loopOf source).toList =
      'f' :: 'o' :: 'r' :: ' ' :: '(' :: 'v' :: (more ++ [' ', ';', ' ', ')', ' ', '\x7b', '\x7d']) := by
  refine ⟨_, declarationOf_toList source, ?_⟩
  simp [loopOf, initialOf]

/-- The equals sign is neither the semicolon nor the end mark. -/
theorem exists_row {row declared : List Token} {semicolon last word name assign : Token}
    (whole : row ++ [semicolon, last] = word :: name :: assign :: declared)
    (ends : semicolon.lexeme = .mark .semicolon) (ended : last.lexeme = .endOfInput)
    (assigns : assign.lexeme = .mark .assign) :
    ∃ more, row = word :: name :: assign :: more := by
  match row with
  | [] => cases whole
  | [_] =>
      obtain ⟨-, -, rfl, -⟩ : _ ∧ _ ∧ _ ∧ _ := by simpa using whole
      cases ended.symm.trans assigns
  | [_, _] =>
      obtain ⟨-, -, rfl, -⟩ : _ ∧ _ ∧ _ ∧ _ := by simpa using whole
      cases ends.symm.trans assigns
  | _ :: _ :: _ :: more =>
      obtain ⟨rfl, rfl, rfl, -⟩ : _ ∧ _ ∧ _ ∧ _ := by simpa using whole
      exact ⟨more, rfl⟩

/-- Behind the parenthesis, the loop is cut into the tokens of the declaration. -/
theorem exists_headerTokens {source : String} {tokens : List Token}
    (plain : ∀ piece ∈ piecesOf (declarationOf source), piece.isComment = false)
    (cut : tokenize (declarationOf source) = .ok tokens) :
    ∃ h : HeaderTokens, tokens = h.alone ∧ tokenize (loopOf source) = .ok h.inLoop := by
  obtain ⟨pieces, layout⟩ := exists_layout cut
  rw [piecesOf, layout.pieces_eq (Nat.lt_succ_self _)] at plain
  obtain ⟨more, text, loop⟩ := loopOf_eq source
  have sized : (loopOf source).toList.length + 1 = (declarationOf source).toList.length + 1 + 10 + 2 := by
    rw [loop, text]
    simp only [List.length_cons, List.length_append, List.length_nil]
  obtain ⟨atParen, behind, header⟩ := tokens_header ((declarationOf source).toList.length + 1 + 10) []
    (more ++ [' ', ';', ' ', ')', ' ', '\x7b', '\x7d']) .start
  obtain ⟨row, semicolon, last, row', semicolon', place, spare, rfl, ends, ended, alike, ends', goesOn⟩ :=
    layout.goesOn plain (declarationOf_ends source) (Nat.lt_succ_self _)
      (show [' ', ';', ' ', ')', ' ', '\x7b', '\x7d'].length ≤ 10 by decide) behind
  obtain ⟨rest, s', finished, closes, -⟩ := cuts_closing.tokens_eq (spare + 10) place
    (semicolon' :: (row'.reverse ++ [⟨.mark .openParen, atParen, false⟩, ⟨.keyword .forWord, .start, false⟩]))
    (Nat.lt_of_lt_of_le (by decide) (Nat.le_add_left 10 spare))
  obtain ⟨word, name, assign, declared, whole, varWord, assigns⟩ := tokenize_declaration cut
  obtain ⟨more, rfl⟩ := exists_row whole ends ended assigns
  obtain _ | ⟨sameWord, _ | ⟨sameName, _ | ⟨sameAssign, alike⟩⟩⟩ := alike
  let h : HeaderTokens := {
    first := ⟨.keyword .forWord, .start, false⟩
    paren := ⟨.mark .openParen, atParen, false⟩
    last
    forWord := rfl
    openParen := rfl
    varWord
    varWord' := sameWord.lexeme.keyword_eq varWord
    assigns := ⟨_, _, _, rfl, sameAssign.lexeme.mark_eq assigns⟩
    alike := .cons sameName (.cons sameAssign alike)
    ends
    ends'
    closes }
  refine ⟨h, rfl, tokenize_run.mpr ⟨s', ?_⟩⟩
  rw [sized, loop, header, ← List.cons_append, ← text, goesOn, finished]
  simp [HeaderTokens.inLoop, h]

/-! ## The declaration alone -/

variable {c d e : Cursor} {kind : Declaration} {declared : List Declarator}

/-- A row without semicolons in the open does not end in one. -/
theorem Balanced.last_ne {row : List Token} (balanced : Balanced false row) {last : Token}
    (ends : row.getLast? = some last) : last.lexeme ≠ .mark .semicolon := by
  generalize loose : false = semicolons at balanced
  induction balanced with
  | nil => cases ends
  | @plain semicolons token rest plain _ ih =>
      rw [List.getLast?_cons] at ends
      cases final : rest.getLast? with
      | some other => exact ih (final.trans (by rwa [final] at ends)) loose
      | none =>
          rw [final] at ends
          obtain rfl : token = last := Option.some.inj ends
          intro spelled
          rw [← loose, spelled] at plain
          cases plain
  | @group semicolons opener closer opening closing inner rest opens pair closes _ _ _ ih =>
      rw [List.getLast?_cons, List.getLast?_append, List.getLast?_cons] at ends
      cases final : rest.getLast? with
      | some other => exact ih (final.trans (by rwa [final] at ends)) loose
      | none =>
          rw [final] at ends
          obtain rfl : closer = last := Option.some.inj ends
          rw [closes]
          cases opening <;> cases pair <;> nofun

/-- Statements are added at the end, and none is added only at the end mark. -/
theorem statementsToEnd_grows {g : Grammar} {bound : Nat} {found all : List Stmt}
    (ran : statementsToEnd g bound found c = .ok (all, d)) :
    ∃ more, all = found.reverse ++ more ∧
      (more = [] → 0 < bound → c.current.lexeme.isEnd = true) := by
  induction bound generalizing found c with
  | zero =>
      cases ran
      exact ⟨[], (List.append_nil _).symm, fun _ none => absurd none (Nat.lt_irrefl 0)⟩
  | succ bound ih =>
      unfold statementsToEnd at ran
      rw [StateT.bind_ok (show atEnd c = .ok (c.current.lexeme.isEnd, c) from rfl)] at ran
      cases ended : c.current.lexeme.isEnd with
      | true =>
          rw [ended] at ran
          cases ran
          exact ⟨[], (List.append_nil _).symm, fun _ _ => rfl⟩
      | false =>
          rw [ended] at ran
          obtain ⟨statement, e, -, ran⟩ := StateT.exists_of_bind_ok ran
          obtain ⟨more, all, -⟩ := ih ran
          refine ⟨statement :: more, ?_, fun none => absurd none (List.cons_ne_nil _ _)⟩
          rw [all, List.reverse_cons, List.append_assoc]
          rfl

theorem Program.ofTokens_eq (tokens : List Token) :
    Program.ofTokens tokens = (statementsToEnd (.level maxNesting) (tokens.length + 1) []
      (.ofTokens tokens)).map fun after => ⟨after.1⟩ := by
  change Except.map Program.mk (Except.map Prod.fst (statementsToEnd (.level maxNesting)
    (tokens.length + 1) [] (.ofTokens tokens))) = _
  cases statementsToEnd (.level maxNesting) (tokens.length + 1) [] (.ofTokens tokens) <;> rfl

/-- A program of one statement is that statement and the end mark. -/
theorem Program.ofTokens_single {token : Token} {more : List Token} {statement : Stmt}
    (goesOn : token.lexeme.isEnd = false) :
    Program.ofTokens (token :: more) = .ok ⟨[statement]⟩ ↔
      ∃ d, statementBody (.level 255) (.ofTokens (token :: more)) = .ok (statement, d) ∧
        d.current.lexeme.isEnd = true := by
  have looks (d : Cursor) : atEnd d = .ok (d.current.lexeme.isEnd, d) := rfl
  have first : atEnd (.ofTokens (token :: more)) = .ok (false, .ofTokens (token :: more)) :=
    (looks _).trans (congrArg (fun ended => Except.ok (ended, _)) goesOn)
  have level : (Grammar.level maxNesting).statement = statementBody (.level 255) := rfl
  rw [ofTokens_eq, List.length_cons, statementsToEnd, StateT.bind_ok first,
    if_neg Bool.false_ne_true, level]
  constructor
  · intro parsed
    obtain ⟨⟨all, e⟩, ran, whole⟩ := map_eq_ok.mp parsed
    obtain rfl : all = [statement] := (Program.mk.injEq ..).mp whole
    obtain ⟨only, d, read, ran⟩ := StateT.exists_of_bind_ok ran
    obtain ⟨others, same, ended⟩ := statementsToEnd_grows ran
    obtain ⟨rfl, rfl⟩ := List.cons.inj same
    exact ⟨d, read, ended rfl (Nat.succ_pos _)⟩
  · rintro ⟨d, read, ended⟩
    rw [StateT.bind_ok read, statementsToEnd, StateT.bind_ok (looks d), ended]
    rfl

theorem Cursor.Proper.stepped {token : Token} {later : List Token} (proper : c.Proper)
    (ahead : c.ahead = token :: later) (more : token.lexeme.isEnd = false) :
    c.current = token ∧ c.advance.Proper ∧ c.advance.ahead = later := by
  have here : c.current = token := by
    unfold Cursor.current
    rw [ahead]
    rfl
  have passed := proper.advance (here ▸ more)
  exact ⟨here, passed.proper, (List.cons.inj (passed.split.symm.trans ahead)).2⟩

theorem endStatement_ok (ran : endStatement d = .ok ((), e)) :
    (d.current.lexeme = .mark .semicolon ∧ e = d.advance) ∨ e = d := by
  have eats : eatMark .semicolon d = if d.current.lexeme.isMark .semicolon then .ok (true, d.advance)
      else .ok (false, d) := rfl
  unfold endStatement at ran
  cases found : d.current.lexeme.isMark .semicolon with
  | true =>
      rw [found] at eats
      rw [StateT.bind_ok eats] at ran
      cases ran
      exact .inl ⟨eq_of_isMark found, rfl⟩
  | false =>
      rw [found] at eats
      rw [StateT.bind_ok eats, if_neg Bool.false_ne_true,
        StateT.bind_ok (show peek d = .ok (d.current, d) from rfl)] at ran
      split at ran <;> cases ran
      exact .inr rfl

theorem statementBody_declaration {g : Grammar} (varWord : c.current.lexeme = .keyword .varWord) :
    statementBody g c = (do
      let declared ← declarators g c.advance.size []
      endStatement
      pure (Stmt.declaration .var declared) : Parse Stmt) c.advance := by
  unfold statementBody
  rw [StateT.bind_ok (show lexeme c = .ok (c.current.lexeme, c) from rfl), varWord]
  change (declarationStatement g .var >>= fun statement => endStatement >>= fun _ => pure statement) c = _
  rw [declarationStatement, bind_assoc, StateT.bind_ok (skip_run c), bind_assoc, StateT.bind_ok (size_run c.advance), bind_assoc]
  rfl

/-- A declaration ends at the semicolon that is there. -/
theorem declaration_ends {word semicolon last : Token} {row : List Token} {g : Grammar}
    (spans : g.Spans) (proper : c.Proper) (ahead : c.ahead = word :: (row ++ [semicolon, last]))
    (varWord : word.lexeme = .keyword .varWord) (ends : semicolon.lexeme = .mark .semicolon)
    (ran : statementBody g c = .ok (.declaration kind declared, e))
    (ended : e.current.lexeme.isEnd = true) :
    kind = .var ∧ ∃ d, declarators g c.advance.size [] c.advance = .ok (declared, d) ∧
      d.ahead = [semicolon, last] ∧ Balanced false row := by
  obtain ⟨here, first, behind⟩ := proper.stepped ahead (by rw [varWord]; rfl)
  rw [statementBody_declaration (here ▸ varWord)] at ran
  obtain ⟨declared', d, read, ran⟩ := StateT.exists_of_bind_ok ran
  obtain ⟨⟨⟩, e', stopped, ran⟩ := StateT.exists_of_bind_ok ran
  cases ran
  obtain ⟨taken, passed, balanced⟩ := declarators_spans spans _ [] _ _ _ first trivial read
  refine ⟨rfl, d, read, ?_⟩
  have split := behind.symm.trans passed.split
  rcases endStatement_ok stopped with ⟨closes, rfl⟩ | rfl
  · have left := passed.proper.advance (by rw [closes]; rfl)
    have two : d.ahead = [d.current, d.advance.current] :=
      left.split.trans (congrArg _ (left.proper.ahead_eq_of_isEnd ended))
    rw [two] at split ⊢
    obtain ⟨rfl, same⟩ := List.append_inj' split rfl
    exact ⟨same.symm, balanced⟩
  · rw [passed.proper.ahead_eq_of_isEnd ended, List.append_cons] at split
    obtain ⟨rfl, -⟩ := List.append_inj' split rfl
    exact absurd ends (balanced.last_ne List.getLast?_concat)

/-! ## The declaration in the header -/

namespace HeaderTokens

/-- What stands behind the semicolons. -/
def fork (h : HeaderTokens) : Fork where
  rest := [h.last]
  rest' := h.rest
  far := fun _ => True
  distant := fun _ _ =>
    ⟨trivial, fun _ _ _ _ _ _ _ => trivial⟩
  mixed := False
  naming := False

/-- The declarators are read alike in the header, where the word is barred. -/
theorem declarations_ok (h : HeaderTokens) {n : Nat} {c c' d : Cursor} (proper : c.Proper) (proper' : c'.Proper)
    (ahead : c.ahead = h.row ++ [h.semicolon, h.last])
    (ahead' : c'.ahead = h.row' ++ h.semicolon' :: h.rest) (barred : c'.inBarred = true)
    (sheltered : ((Shelter.outside false).run true c.ahead).isSome) (balanced : Balanced false h.row)
    (ran : declarators (.level n) c.size [] c = .ok (declared, d))
    (left : d.ahead = [h.semicolon, h.last]) :
    ∃ semicolon d', (do return Stmt.declaration kind (← declarators (.level n) (← size) []) : Parse Stmt) c' =
      .ok (.declaration kind declared, d') ∧ d'.Proper ∧ d'.ahead = semicolon :: h.rest ∧
      semicolon.lexeme = .mark .semicolon := by
  have beside : Beside (.outside false) c { c with inBarred := true } :=
    ⟨proper, ⟨proper.ended, proper.last, proper.within⟩, rfl, rfl, sheltered⟩
  obtain ⟨e, ran', beside'⟩ :=
    declarators_leads (Grammar.level_heedless n) c.size [] _ _ _ _ beside trivial ran
  have forks : (Grammar.level n).Forks False (.level n) :=
    Grammar.level_forks (Nat.le_refl n) (absurd · (Nat.lt_irrefl n))
  have last : h.fork.Zones [h.semicolon] [h.semicolon'] := by
    refine .last ⟨h.ends', ?_, nofun⟩ ?_ <;> rw [h.ends] <;> nofun
  have agree : h.fork.Agree { c with inBarred := true } c' :=
    ⟨beside.proper', proper', ⟨_, _, balanced.zones (F := h.fork) id h.alike last,
      ahead.trans (List.append_cons ..), ahead'.trans (List.append_cons ..)⟩, .inr barred⟩
  have whole : (do return Stmt.declaration kind (← declarators (.level n) (← size) []) : Parse Stmt)
      { c with inBarred := true } = .ok (.declaration kind declared, e) :=
    (StateT.bind_ok (size_run _)).trans (StateT.bind_ok ran')
  rcases (declarations_relates forks kind).ok _ _ _ _ agree whole with past | ⟨_, d', read, rfl, agree'⟩ | ⟨less, -⟩
  · have shorter := past.ahead.length_le
    rw [beside'.ahead, left] at shorter
    exact absurd shorter (Nat.not_succ_le_self 1)
  · obtain ⟨zone, zone', zones, behind, behind'⟩ := agree'.zones
    rw [beside'.ahead, left] at behind
    obtain ⟨rfl, -⟩ : [h.semicolon] = zone ∧ _ := List.append_inj' behind rfl
    cases zones with
    | last shares => exact ⟨_, d', read, agree'.proper', behind', shares.alike.lexeme.mark_eq h.ends⟩
    | cons _ none => cases none
  · exact less.elim

end HeaderTokens

/-! ## The loop -/

theorem statementBody_emptyBlock {g : Grammar} {lexeme : Lexeme} {rest : List Lexeme}
    (faces : c.Faces (.mark .openBrace :: .mark .closeBrace :: lexeme :: rest)) :
    ∃ d, statementBody g.around c = .ok (.block [], d) ∧ d.Faces (lexeme :: rest) := by
  have inside := faces.advance (List.cons_ne_nil _ _)
  have turns : 1 ≤ c.advance.size := Nat.le_trans (by simp) inside.length_le
  obtain ⟨bound, sized⟩ := Nat.exists_eq_add_of_le' turns
  have block : blockBody g c = .ok ([], c.advance.advance) := by
    rw [blockBody, StateT.bind_ok (faces.expectMark_eq _), StateT.bind_ok (size_run _), sized,
      statementsToBrace, StateT.bind_ok inside.eatMark_self]
    rfl
  refine ⟨c.advance.advance, ?_, inside.advance (List.cons_ne_nil _ _)⟩
  rw [statementBody, StateT.bind_ok faces.lexeme_eq]
  exact StateT.bind_ok block

theorem statementBody_for {g : Grammar} (forWord : c.current.lexeme = .keyword .forWord) :
    statementBody g c = forStatement g c.advance := by
  unfold statementBody
  rw [StateT.bind_ok (show Parse.lexeme c = .ok (c.current.lexeme, c) from rfl), forWord]
  exact StateT.bind_ok (skip_run c)

/-- A header without a condition and an update, and an empty body. -/
theorem countingLoop_of_initial {g : Grammar} {initial : Option Stmt}
    (read : forInitial g.around.around c = .ok (initial, d))
    (faces : d.Faces (.mark .semicolon :: closing)) :
    ∃ e, countingLoop g.around.around c = .ok (.forLoop initial none none (.block []), e) ∧
      e.current.lexeme.isEnd = true := by
  have condition := faces.advance (List.cons_ne_nil _ _)
  have update := condition.advance (List.cons_ne_nil _ _)
  have body := update.advance (List.cons_ne_nil _ _)
  obtain ⟨e, block, ended⟩ := statementBody_emptyBlock (g := g) body
  have bare {d : Cursor} {mark : Mark} {rest : List Lexeme} (faces : d.Faces (.mark mark :: rest)) :
      optionalExpression g.around.around mark d = .ok (none, d) := by
    rw [optionalExpression, StateT.bind_ok (faces.atMark_eq mark)]
    rw [show (Lexeme.mark mark).isMark mark = true from beq_self_eq_true mark]
    rfl
  refine ⟨e, ?_, by rw [ended.current]; rfl⟩
  rw [countingLoop, StateT.bind_ok read, StateT.bind_ok (faces.expectMark_eq _),
    StateT.bind_ok (bare condition), StateT.bind_ok (condition.expectMark_eq _),
    StateT.bind_ok (bare update), StateT.bind_ok (update.expectMark_eq _)]
  exact StateT.bind_ok block

theorem Cursor.Proper.barring (proper : c.Proper) (barred : Bool) :
    ({ c with inBarred := barred } : Cursor).Proper :=
  ⟨proper.ended, proper.last, proper.within⟩

namespace HeaderTokens

/-- The header of the loop is none over a collection. -/
theorem walkAt_none (h : HeaderTokens)
    (ahead : c.ahead = h.word' :: (h.row' ++ h.semicolon' :: h.rest)) : walkAt c = none := by
  obtain ⟨name, assign, more, row, assigns⟩ := h.assigns
  have word : c.current.lexeme = .keyword .varWord := by
    rw [Cursor.current, ahead]
    exact h.varWord'
  have second : c.lookahead 2 = .mark .assign := by
    rw [Cursor.lookahead, ahead, row]
    exact assigns
  unfold walkAt
  rw [word]
  change walkBy (c.lookahead 1) (c.lookahead 2) = none
  rw [second]
  cases c.lookahead 1 <;> rfl

theorem forStatement_ok (h : HeaderTokens) {g : Grammar} (proper : c.Proper)
    (ahead : c.ahead = h.paren :: h.word' :: (h.row' ++ h.semicolon' :: h.rest))
    (read : ∀ c' : Cursor, c'.Proper → c'.ahead = h.row' ++ h.semicolon' :: h.rest → c'.inBarred = true →
      ∃ semicolon d', (do return Stmt.declaration .var (← declarators g.around.around (← size) []) :
        Parse Stmt) c' = .ok (.declaration .var declared, d') ∧ d'.Proper ∧
        d'.ahead = semicolon :: h.rest ∧ semicolon.lexeme = .mark .semicolon) :
    ∃ e, forStatement g.around.around c =
      .ok (.forLoop (some (.declaration .var declared)) none none (.block []), e) ∧
      e.current.lexeme.isEnd = true := by
  obtain ⟨here, proper, ahead⟩ := proper.stepped ahead (by rw [h.openParen]; rfl)
  have opens : expectMark .openParen "'(' after 'for'" c = .ok ((), c.advance) := by
    have eats : eatMark .openParen c = .ok (true, c.advance) := by
      rw [eatMark, here, h.openParen]
      rfl
    rw [expectMark, StateT.bind_ok eats]
    rfl
  have walks := h.walkAt_none ahead
  obtain ⟨here, proper, ahead⟩ := proper.stepped ahead (by rw [h.varWord']; rfl)
  have declares : declarationWord? c.advance.current.lexeme = some .var := by
    rw [here, h.varWord']
    rfl
  obtain ⟨semicolon, d', read, proper', ahead', ends⟩ := read _ (proper.barring true) ahead rfl
  have initial : forInitial g.around.around c.advance =
      .ok (some (.declaration .var declared), { d' with inBarred := false }) := by
    rw [forInitial_of_word declares, StateT.bind_ok read]
    rfl
  have faces : ({ d' with inBarred := false } : Cursor).Faces (.mark .semicolon :: closing) := by
    refine ⟨?_, proper'.within, rfl⟩
    dsimp only
    rw [ahead', List.map_cons, ends, h.closes]
  obtain ⟨e, loop, ended⟩ := countingLoop_of_initial initial faces
  refine ⟨e, ?_, ended⟩
  rw [forStatement_eq, StateT.bind_ok opens, headed_eq, declares, walks]
  exact loop

end HeaderTokens

/-- The text is a declaration, and no word `in` stands in the open. -/
def isShelteredDeclaration (bodies : Bool) (text : String) : Bool :=
  match tokenize text, Program.parse text with
  | .ok tokens, .ok ⟨[.declaration _ _]⟩ => decide (Sheltered bodies tokens)
  | _, _ => false

theorem exists_declaration {bodies : Bool} {text : String}
    (found : isShelteredDeclaration bodies text = true) :
    ∃ tokens kind declared, tokenize text = .ok tokens ∧ Sheltered bodies tokens ∧
      Program.parse text = .ok ⟨[.declaration kind declared]⟩ := by
  unfold isShelteredDeclaration at found
  split at found
  · next cut read => exact ⟨_, _, _, cut, of_decide_eq_true found, read⟩
  · cases found

/-- A declaration without comments whose words `in` stand in brackets, but not
    in the body of a function that stands in none, can begin the header of a
    loop. -/
theorem Program.parse_loop {source : String} {tokens : List Token}
    (plain : ∀ piece ∈ piecesOf (declarationOf source), piece.isComment = false)
    (cut : tokenize (declarationOf source) = .ok tokens) (sheltered : Sheltered true tokens)
    (parsed : Program.parse (declarationOf source) = .ok ⟨[.declaration kind declared]⟩) :
    Program.parse (loopOf source) =
      .ok ⟨[.forLoop (some (.declaration kind declared)) none none (.block [])]⟩ := by
  obtain ⟨h, rfl, cut'⟩ := exists_headerTokens plain cut
  have proper := (tokenizeAt_ended cut).proper
  have proper' := (tokenizeAt_ended cut').proper
  have forks : (Grammar.level 255).Forks False (.level 255) :=
    Grammar.level_forks (Nat.le_refl 255) (absurd · (Nat.lt_irrefl 255))
  rw [Program.parse, cut] at parsed
  obtain ⟨e, read, ended⟩ := (Program.ofTokens_single (by rw [h.varWord]; rfl)).mp parsed
  obtain ⟨rfl, d, declares, left, balanced⟩ :=
    declaration_ends forks.spans proper rfl h.varWord h.ends read ended
  obtain ⟨here, proper, ahead⟩ := proper.stepped rfl (by rw [h.varWord]; rfl)
  obtain ⟨here', proper', ahead'⟩ := proper'.stepped rfl (by rw [h.forWord]; rfl)
  rw [Program.parse, cut']
  have open' : ((Shelter.outside false).run true (h.row ++ [h.semicolon, h.last])).isSome := by
    have step : (Shelter.outside false).step true h.word.lexeme = some (.outside false) := by
      rw [h.varWord]
      rfl
    rw [Sheltered, HeaderTokens.alone, Shelter.run_cons, step] at sheltered
    exact sheltered
  obtain ⟨e', loop, ended'⟩ := h.forStatement_ok (g := .level 253) proper' ahead' fun c' proper' ahead' barred =>
    h.declarations_ok proper proper' ahead ahead' barred (ahead ▸ open') balanced declares left
  exact (Program.ofTokens_single (by rw [h.forWord]; rfl)).mpr
    ⟨e', (statementBody_for (here' ▸ h.forWord)).trans loop, ended'⟩

/-- A call in the declaration may hold the word `in`, also in a function. -/
theorem Program.parse_loop_call :
    ∃ source tokens kind declared, source = "f('a' in b, function () \x7b return 'c' in d; \x7d)" ∧
      (∀ piece ∈ piecesOf (declarationOf source), piece.isComment = false) ∧
      tokenize (declarationOf source) = .ok tokens ∧ Sheltered true tokens ∧
      Program.parse (declarationOf source) = .ok ⟨[.declaration kind declared]⟩ ∧
      Program.parse (loopOf source) =
        .ok ⟨[.forLoop (some (.declaration kind declared)) none none (.block [])]⟩ := by
  have plain : ∀ piece ∈ piecesOf (declarationOf "f('a' in b, function () \x7b return 'c' in d; \x7d)"),
      piece.isComment = false := by decide +kernel
  have found : isShelteredDeclaration true
      (declarationOf "f('a' in b, function () \x7b return 'c' in d; \x7d)") = true := by decide +kernel
  obtain ⟨tokens, kind, declared, cut, sheltered, parsed⟩ := exists_declaration found
  exact ⟨_, tokens, kind, declared, rfl, plain, cut, sheltered, parsed,
    Program.parse_loop plain cut sheltered parsed⟩

/-- In the body of a function that stands in no brackets the word is barred, too. -/
theorem in_barred_in_body :
    ¬ ∀ source tokens kind declared,
      (∀ piece ∈ piecesOf (declarationOf source), piece.isComment = false) →
      tokenize (declarationOf source) = .ok tokens → Sheltered false tokens →
      Program.parse (declarationOf source) = .ok ⟨[.declaration kind declared]⟩ →
      Program.parse (loopOf source) =
        .ok ⟨[.forLoop (some (.declaration kind declared)) none none (.block [])]⟩ := by
  intro always
  have plain : ∀ piece ∈ piecesOf (declarationOf "function()\x7b return 'a' in b; \x7d"),
      piece.isComment = false := by decide +kernel
  have found : isShelteredDeclaration false
      (declarationOf "function()\x7b return 'a' in b; \x7d") = true := by decide +kernel
  have refused : (Program.parse (loopOf "function()\x7b return 'a' in b; \x7d")).isOk = false := by
    decide +kernel
  obtain ⟨tokens, kind, declared, cut, sheltered, parsed⟩ := exists_declaration found
  rw [always _ tokens kind declared plain cut sheltered parsed] at refused
  cases refused

end StrategyQubo.Script
