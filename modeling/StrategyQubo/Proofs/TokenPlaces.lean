import StrategyQubo.Proofs.TokenLayouts

namespace StrategyQubo.Script

/-! # Where tokens begin

Tokens begin one behind the other, the sources of holes stand in the text of the
template, and the end mark comes last.  A fault is reported at a place that the
scanner has reached in the text.
-/

/-! ## The order of places -/

namespace Position

/-- By line, then by column. -/
instance : LE Position :=
  ⟨fun p q => p.line < q.line ∨ p.line = q.line ∧ p.column ≤ q.column⟩

instance (p q : Position) : Decidable (p ≤ q) :=
  inferInstanceAs (Decidable (p.line < q.line ∨ p.line = q.line ∧ p.column ≤ q.column))

theorem le_iff {p q : Position} :
    p ≤ q ↔ p.line < q.line ∨ p.line = q.line ∧ p.column ≤ q.column :=
  Iff.rfl

theorem le_refl (p : Position) : p ≤ p :=
  .inr ⟨rfl, Nat.le_refl _⟩

theorem le_trans {p q r : Position} (first : p ≤ q) (second : q ≤ r) : p ≤ r := by
  rw [le_iff] at *
  omega

theorem le_step (p : Position) (c : Char) : p ≤ p.step c := by
  rw [le_iff, step]
  split <;> dsimp only <;> omega

theorem le_after (p : Position) (text : List Char) : p ≤ p.after text := by
  induction text generalizing p with
  | nil => exact le_refl p
  | cons c text ih => exact le_trans (le_step p c) (ih _)

end Position

/-! ## Holes -/

/-- No hole of the template begins before the place. -/
def Lexeme.From (place : Position) : Lexeme → Prop
  | .template chunks => ∀ source start, .code source start ∈ chunks → place ≤ start
  | _ => True

/-- Neither the token nor a hole in it begins before the place. -/
structure Token.From (place : Position) (token : Token) : Prop where
  position : place ≤ token.position
  holes : token.lexeme.From place

theorem Lexeme.From.mono {place earlier : Position} {lexeme : Lexeme} (behind : lexeme.From place)
    (before : earlier ≤ place) : lexeme.From earlier := by
  cases lexeme with
  | template chunks =>
      exact fun source start member => Position.le_trans before (behind source start member)
  | _ => exact behind

theorem Token.From.mono {place earlier : Position} {token : Token} (behind : token.From place)
    (before : earlier ≤ place) : token.From earlier :=
  ⟨Position.le_trans before behind.position, behind.holes.mono before⟩

/-- The source of a hole stands in the text that begins at the place. -/
def HoleIn (text : List Char) (place : Position) (source : String) (start : Position) : Prop :=
  ∃ front, front ++ source.toList <+: text ∧ start = place.after front

def ChunksIn (text : List Char) (place : Position) (chunks : List Chunk) : Prop :=
  ∀ source start, .code source start ∈ chunks → HoleIn text place source start

/-- The holes of the template stand in the text. -/
def Lexeme.HolesIn (text : List Char) (place : Position) : Lexeme → Prop
  | .template chunks => ChunksIn text place chunks
  | _ => True

theorem HoleIn.behind {used text : List Char} {place start : Position} {source : String}
    (stands : HoleIn text (place.after used) source start) :
    HoleIn (used ++ text) place source start := by
  obtain ⟨front, ⟨more, rfl⟩, rfl⟩ := stands
  exact ⟨used ++ front, ⟨more, by simp only [List.append_assoc]⟩, (Position.after_append ..).symm⟩

theorem Lexeme.HolesIn.behind {used text : List Char} {place : Position} {lexeme : Lexeme}
    (stands : lexeme.HolesIn text (place.after used)) : lexeme.HolesIn (used ++ text) place := by
  cases lexeme with
  | template chunks => exact fun source start member => (stands source start member).behind
  | _ => trivial

theorem Lexeme.HolesIn.from {text : List Char} {place : Position} {lexeme : Lexeme}
    (stands : lexeme.HolesIn text place) : lexeme.From place := by
  cases lexeme with
  | template chunks =>
      intro source start member
      obtain ⟨front, -, rfl⟩ := stands source start member
      exact Position.le_after ..
  | _ => trivial

/-! ## Scanners in a text -/

/-- What is left of the text that begins at the place. -/
def Source.Within (text : List Char) (place : Position) (s : Source) : Prop :=
  ∃ used, text = used ++ s.rest ∧ s.position = place.after used

theorem Source.Within.self (s : Source) : s.Within s.rest s.position :=
  ⟨[], rfl, rfl⟩

theorem Source.Within.append {text used rest : List Char} {place : Position} {s : Source}
    (within : s.Within text place) (split : s.rest = used ++ rest) :
    Source.Within text place ⟨rest, s.position.after used⟩ := by
  obtain ⟨front, rfl, position⟩ := within
  exact ⟨front ++ used, by rw [split, List.append_assoc], by rw [position, Position.after_append]⟩

namespace Scan

variable {α β : Type} {text : List Char} {place : Position} {expected : α → Prop}
  {expected' : β → Prop}

/-- From what is left of the text the scanner gets to what is left of it, and
    its answer is as expected. -/
def Onward (text : List Char) (place : Position) (expected : α → Prop) (scan : Scan α) : Prop :=
  ∀ s a t, s.Within text place → scan s = .ok (a, t) → expected a ∧ t.Within text place

theorem Onward.pure {a : α} (good : expected a) : Onward text place expected (pure a : Scan α) := by
  rintro s _ _ within ⟨⟩
  exact ⟨good, within⟩

theorem fail_onward (fault : SyntaxFault) : Onward text place expected (fail fault : Scan α) :=
  fun _ _ _ _ ran => nomatch ran

theorem Onward.bind {first : Scan α} {next : α → Scan β} (onward : Onward text place expected first)
    (later : ∀ a, expected a → Onward text place expected' (next a)) :
    Onward text place expected' (first >>= next) := by
  intro s b t behind ran
  obtain ⟨a, s', reached, ran⟩ := StateT.exists_of_bind_ok ran
  obtain ⟨good, still⟩ := onward s a s' behind reached
  exact later a good s' b t still ran

theorem Steady.onward {same : α → α → Prop} {scan scan' : Scan α}
    (steady : Steady [] same scan scan') : Onward text place (fun _ => True) scan := by
  rintro ⟨rest, reached⟩ a ⟨rest', reached'⟩ within ran
  obtain ⟨used, split, position, -⟩ := steady rest reached a _ ran
  obtain rfl : reached' = reached.after used := position
  exact ⟨trivial, within.append split⟩

/-- A scanner that looks ahead before it goes on. -/
theorem look_onward {look : Scan α} {seen : Source → α} (looks : ∀ s, look s = .ok (seen s, s))
    {next : α → Scan β} (later : ∀ a, Onward text place expected' (next a)) :
    Onward text place expected' (look >>= next) := by
  intro s b t within ran
  rw [StateT.bind_ok (looks s)] at ran
  exact later _ s b t within ran

/-! ### Holes -/

/-- A string in a hole is kept as it is written. -/
theorem holeString_written {quote : Char} {bound : Nat} {source source' : String} {s t : Source}
    (ran : holeString quote bound source s = .ok (source', t)) :
    ∃ used, s.rest = used ++ quote :: t.rest ∧ source'.toList = source.toList ++ used := by
  induction bound generalizing source s with
  | zero => cases ran
  | succ bound ih =>
      obtain ⟨text, position⟩ := s
      unfold holeString at ran
      cases text with
      | nil => cases ran
      | cons c rest =>
          rw [StateT.bind_ok (show take? ⟨c :: rest, position⟩ = .ok (some c, ⟨rest, position.step c⟩)
            from rfl)] at ran
          dsimp only at ran
          split at ran
          · cases rest with
            | nil =>
                obtain ⟨used, split, -⟩ := ih ran
                exact absurd split (by simp)
            | cons d rest =>
                obtain ⟨used, split, kept⟩ := ih ran
                exact ⟨c :: d :: used, congrArg (c :: d :: ·) split, by simpa using kept⟩
          · split at ran
            · next closes =>
              cases ran
              exact ⟨[], congrArg (· :: rest) closes, (List.append_nil _).symm⟩
            · obtain ⟨used, split, kept⟩ := ih ran
              exact ⟨c :: used, congrArg (c :: ·) split, by simpa using kept⟩

/-- So is the source of a hole, up to the brace that ends it. -/
theorem holeBody_written {bound depth : Nat} {source source' : String} {s t : Source}
    (ran : holeBody bound depth source s = .ok (source', t)) :
    ∃ used, s.rest = used ++ '\x7d' :: t.rest ∧ source'.toList = source.toList ++ used := by
  induction bound generalizing depth source s with
  | zero => cases ran
  | succ bound ih =>
      obtain ⟨text, position⟩ := s
      unfold holeBody at ran
      cases text with
      | nil => cases ran
      | cons c rest =>
          rw [StateT.bind_ok (show take? ⟨c :: rest, position⟩ = .ok (some c, ⟨rest, position.step c⟩)
            from rfl)] at ran
          dsimp only at ran
          have further {depth : Nat}
              (ran : holeBody bound depth (source.push c) ⟨rest, position.step c⟩ = .ok (source', t)) :
              ∃ used, c :: rest = used ++ '\x7d' :: t.rest ∧
                source'.toList = source.toList ++ used := by
            obtain ⟨used, split, kept⟩ := ih ran
            exact ⟨c :: used, congrArg (c :: ·) split, by simpa using kept⟩
          split at ran
          · exact further ran
          · split at ran
            · next closes =>
              cases depth with
              | zero =>
                  cases ran
                  exact ⟨[], congrArg (· :: rest) closes, (List.append_nil _).symm⟩
              | succ outer => exact further ran
            · split at ran
              · obtain ⟨inner, s', quoted, ran⟩ := StateT.exists_of_bind_ok ran
                obtain ⟨used, split, kept⟩ := holeString_written quoted
                obtain ⟨more, split', kept'⟩ := ih ran
                refine ⟨c :: used ++ c :: more, ?_, ?_⟩
                · dsimp only at split
                  rw [split, split']
                  simp
                · rw [kept', String.toList_push, kept]
                  simp
              · exact further ran

/-- A scanner that reads a hole before it goes on. -/
theorem hole_onward (bound : Nat) (next : Position → String → Scan β)
    (later : ∀ start source, HoleIn text place source start →
      Onward text place expected' (next start source)) :
    Onward text place expected' (do
      let start := (← get).position
      let source ← holeBody bound 0 ""
      next start source) := by
  intro s b t within ran
  rw [StateT.bind_ok (show (get : Scan Source) s = .ok (s, s) from rfl)] at ran
  obtain ⟨source, s', taken, ran⟩ := StateT.exists_of_bind_ok ran
  have within' := ((holeBody_steady (Nat.le_refl bound) 0 "").onward s _ _ within taken).2
  obtain ⟨used, split, kept⟩ := holeBody_written taken
  obtain ⟨front, whole, position⟩ := within
  have stands : HoleIn text place source s.position := by
    refine ⟨front, ⟨'\x7d' :: s'.rest, ?_⟩, position⟩
    rw [kept, whole, split]
    simp
  exact later _ source stands s' b t within' ran

theorem flushText_in {chunks : List Chunk} (stand : ChunksIn text place chunks)
    (gathered : String) : ChunksIn text place (flushText chunks gathered) := by
  unfold flushText
  split
  · exact stand
  · intro source start member
    rcases List.mem_cons.mp member with same | member
    · cases same
    · exact stand source start member

theorem templateBody_onward (bound : Nat) {chunks : List Chunk}
    (stand : ChunksIn text place chunks) (gathered : String) :
    Onward text place (ChunksIn text place) (templateBody bound chunks gathered) := by
  induction bound generalizing chunks gathered with
  | zero => exact fail_onward _
  | succ bound ih =>
      have flushed := flushText_in stand gathered
      unfold templateBody
      refine take?_steady.onward.bind fun c? _ => ?_
      cases c? with
      | none => exact fail_onward _
      | some c =>
          dsimp only
          split
          · refine .pure fun source start member => ?_
            exact flushed source start (List.mem_reverse.mp member)
          · split
            · exact escape_steady.onward.bind fun decoded _ => ih stand _
            · refine look_onward (fun _ => rfl) fun next => ?_
              split
              · refine skip_steady.onward.bind fun _ _ =>
                  hole_onward bound (fun start source =>
                    templateBody bound (.code source start :: flushText chunks gathered) "")
                    fun start source stands => ih ?_ ""
                intro source' start' member
                rcases List.mem_cons.mp member with same | member
                · cases same
                  exact stands
                · exact flushed source' start' member
              · exact ih stand _

theorem numberLiteral_answer {s t : Source} {read : Lexeme}
    (ran : numberLiteral s = .ok (read, t)) : ∃ value, read = .number value := by
  obtain ⟨text, place⟩ := s
  have hex (ran : hexNumberLiteral ⟨text, place⟩ = .ok (read, t)) : ∃ value, read = .number value := by
    unfold hexNumberLiteral at ran
    obtain ⟨_, s, -, ran⟩ := StateT.exists_of_bind_ok ran
    obtain ⟨_, s, -, ran⟩ := StateT.exists_of_bind_ok ran
    obtain ⟨digits, s, -, ran⟩ := StateT.exists_of_bind_ok ran
    cases found : Number.hexNumber? (Number.pow2 64) digits <;> simp only [found] at ran
    · cases ran
    · cases ran
      exact ⟨_, rfl⟩
  unfold numberLiteral at ran
  rw [StateT.bind_ok (show ahead ⟨text, place⟩ = .ok (text, ⟨text, place⟩) from rfl)] at ran
  split at ran
  · exact hex ran
  · exact hex ran
  · rw [decimalLiteral_run] at ran
    split at ran
    · cases ran
      exact ⟨_, rfl⟩
    · split at ran
      · cases ran
      · cases ran
        exact ⟨_, rfl⟩

theorem wordLexeme_answer {s t : Source} {read : Lexeme} (ran : wordLexeme s = .ok (read, t)) :
    ∃ word, read = wordOf word := by
  unfold wordLexeme at ran
  obtain ⟨word, s', -, ran⟩ := StateT.exists_of_bind_ok ran
  refine ⟨String.ofList word, ?_⟩
  dsimp only at ran
  unfold wordOf
  cases found : Keyword.ofSpelling? (String.ofList word) <;> simp only [found] at ran <;>
    cases ran <;> rfl

theorem markLexeme_answer {s t : Source} {read : Lexeme} (ran : markLexeme s = .ok (read, t)) :
    ∃ mark, read = .mark mark := by
  rw [markLexeme_run] at ran
  split at ran
  · cases ran
    exact ⟨_, rfl⟩
  · cases ran

/-- A lexeme is no end mark, and its holes stand in the text. -/
theorem lexeme_in {bound : Nat} {c : Char} {s t : Source} {read : Lexeme}
    (within : s.Within text place) (ran : lexeme bound c s = .ok (read, t)) :
    read.HolesIn text place ∧ read.isEnd = false := by
  unfold lexeme at ran
  rw [StateT.bind_ok (show ahead s = .ok (s.rest, s) from rfl)] at ran
  split at ran
  · obtain ⟨value, rfl⟩ := numberLiteral_answer ran
    exact ⟨trivial, rfl⟩
  · split at ran
    · obtain ⟨_, s', -, ran⟩ := StateT.exists_of_bind_ok ran
      obtain ⟨text, s'', -, ran⟩ := StateT.exists_of_bind_ok ran
      cases ran
      exact ⟨trivial, rfl⟩
    · split at ran
      · obtain ⟨_, s', skipped, ran⟩ := StateT.exists_of_bind_ok ran
        obtain ⟨chunks, s'', body, ran⟩ := StateT.exists_of_bind_ok ran
        cases ran
        have within' := (skip_steady.onward s _ s' within skipped).2
        have nothing : ChunksIn text place [] := nofun
        exact ⟨(templateBody_onward bound nothing "" s' _ _ within' body).1, rfl⟩
      · split at ran
        · obtain ⟨word, rfl⟩ := wordLexeme_answer ran
          unfold wordOf
          split <;> exact ⟨trivial, rfl⟩
        · obtain ⟨mark, rfl⟩ := markLexeme_answer ran
          exact ⟨trivial, rfl⟩

/-! ### Faults -/

/-- What goes wrong is reported behind some characters of the text. -/
def Late (text : List Char) (place : Position) (scan : Scan α) : Prop :=
  ∀ s error, s.Within text place → scan s = .error error →
    ∃ front fault, front <+: text ∧ error = .syntaxFault (place.after front) fault

theorem Source.Within.reports {s : Source} (within : s.Within text place) (fault : SyntaxFault) :
    ∃ front found, front <+: text ∧
      ScriptError.syntaxFault s.position fault = .syntaxFault (place.after front) found := by
  obtain ⟨front, whole, position⟩ := within
  exact ⟨front, fault, ⟨s.rest, whole.symm⟩, by rw [position]⟩

theorem fail_late (fault : SyntaxFault) : Late text place (fail fault : Scan α) := by
  rintro s _ within ⟨⟩
  exact Source.Within.reports within fault

theorem late_of_ok {scan : Scan α} (result : Source → α × Source)
    (succeeds : ∀ s, scan s = .ok (result s)) : Late text place scan := by
  intro s error _ ran
  cases (succeeds s).symm.trans ran

theorem pure_late (a : α) : Late text place (pure a : Scan α) :=
  late_of_ok _ fun _ => rfl

theorem Late.bind {first : Scan α} {next : α → Scan β} (late : Late text place first)
    (onward : Onward text place (fun _ => True) first) (later : ∀ a, Late text place (next a)) :
    Late text place (first >>= next) := by
  intro s error behind ran
  cases reached : first s with
  | error reason =>
      change (first s >>= _) = _ at ran
      rw [reached] at ran
      cases ran
      exact late s _ behind reached
  | ok after =>
      rw [StateT.bind_ok reached] at ran
      exact later after.1 after.2 error (onward s _ _ behind reached).2 ran

theorem take?_late : Late text place take? :=
  late_of_ok (fun s =>
    s.rest.head?.elim (none, s) fun c => (some c, ⟨s.rest.tail, s.position.step c⟩)) fun s => by
      obtain ⟨text, position⟩ := s
      cases text <;> rfl

/-- A scanner that takes a character and goes on. -/
theorem take_late {next : Option Char → Scan β} (later : ∀ c?, Late text place (next c?)) :
    Late text place (take? >>= next) :=
  take?_late.bind take?_steady.onward later

theorem skip_late {next : Unit → Scan β} (later : Late text place (next ())) :
    Late text place (skip >>= next) :=
  (take_late fun _ => pure_late ()).bind skip_steady.onward fun _ => later

theorem takeWhile_late {keep : Char → Bool} {next : List Char → Scan β}
    (later : ∀ run, Late text place (next run)) : Late text place (takeWhile keep >>= next) :=
  Late.bind (late_of_ok _ fun _ => rfl) (takeWhile_steady keep).onward later

theorem look_late {look : Scan α} {seen : Source → α} (looks : ∀ s, look s = .ok (seen s, s))
    {next : α → Scan β} (later : ∀ a, Late text place (next a)) : Late text place (look >>= next) := by
  intro s error behind ran
  rw [StateT.bind_ok (looks s)] at ran
  exact later _ s error behind ran

theorem hexNumberLiteral_late : Late text place hexNumberLiteral := by
  unfold hexNumberLiteral
  refine skip_late (skip_late (takeWhile_late fun digits => ?_))
  split
  · exact pure_late _
  · exact fail_late _

theorem decimalLiteral_late : Late text place decimalLiteral := by
  intro s error within ran
  rw [decimalLiteral_run] at ran
  split at ran
  · cases ran
  · next numeral after found =>
    split at ran
    · cases ran
      obtain ⟨used, -, spans⟩ := spanNumeral?_spans found
      have reached := within.append spans.split
      rw [Position.after_of_line spans.inLine, spans.width] at reached
      exact Source.Within.reports reached _
    · cases ran

theorem takeHexDigits_late (width : Nat) (digits : List Char) :
    Late text place (takeHexDigits width digits) := by
  induction width generalizing digits with
  | zero => exact pure_late _
  | succ width ih =>
      unfold takeHexDigits
      refine take_late fun c? => ?_
      cases c? with
      | none => exact fail_late _
      | some c =>
          dsimp only
          split
          · exact ih _
          · exact fail_late _

theorem fixedEscape_late (width : Nat) : Late text place (fixedEscape width) := by
  unfold fixedEscape
  refine (takeHexDigits_late width []).bind (takeHexDigits_steady width []).onward fun digits => ?_
  split
  · exact pure_late _
  · exact fail_late _

theorem bracedEscape_late : Late text place bracedEscape := by
  unfold bracedEscape
  refine skip_late (takeWhile_late fun digits => skip_late ?_)
  split
  · exact pure_late _
  · exact fail_late _

theorem escape_late : Late text place escape := by
  unfold escape
  refine take_late fun c? => ?_
  split <;> try exact pure_late _
  · exact fail_late _
  · exact fixedEscape_late 2
  · refine look_late (fun _ => rfl) fun next => ?_
    split
    · exact bracedEscape_late
    · exact fixedEscape_late 4

theorem stringBody_late (quote : Char) (bound : Nat) (gathered : String) :
    Late text place (stringBody quote bound gathered) := by
  induction bound generalizing gathered with
  | zero => exact fail_late _
  | succ bound ih =>
      unfold stringBody
      refine take_late fun c? => ?_
      cases c? with
      | none => exact fail_late _
      | some c =>
          dsimp only
          split
          · exact pure_late _
          · split
            · refine look_late (fun _ => rfl) fun next => ?_
              split
              · exact skip_late (ih _)
              · exact escape_late.bind escape_steady.onward fun decoded => ih _
            · split
              · exact fail_late _
              · exact ih _

theorem holeString_late (quote : Char) (bound : Nat) (source : String) :
    Late text place (holeString quote bound source) := by
  induction bound generalizing source with
  | zero => exact fail_late _
  | succ bound ih =>
      unfold holeString
      refine take_late fun c? => ?_
      cases c? with
      | none => exact fail_late _
      | some c =>
          dsimp only
          split
          · refine take_late fun escaped? => ?_
            cases escaped? <;> exact ih _
          · split
            · exact pure_late _
            · exact ih _

theorem holeBody_late (bound depth : Nat) (source : String) :
    Late text place (holeBody bound depth source) := by
  induction bound generalizing depth source with
  | zero => exact fail_late _
  | succ bound ih =>
      unfold holeBody
      refine take_late fun c? => ?_
      cases c? with
      | none => exact fail_late _
      | some c =>
          dsimp only
          split
          · exact ih _ _
          · split
            · split
              · exact pure_late _
              · exact ih _ _
            · split
              · exact (holeString_late c bound _).bind
                  (holeString_steady c (Nat.le_refl bound) _).onward fun inner => ih _ _
              · exact ih _ _

theorem templateBody_late (bound : Nat) (chunks : List Chunk) (gathered : String) :
    Late text place (templateBody bound chunks gathered) := by
  induction bound generalizing chunks gathered with
  | zero => exact fail_late _
  | succ bound ih =>
      unfold templateBody
      refine take_late fun c? => ?_
      cases c? with
      | none => exact fail_late _
      | some c =>
          dsimp only
          split
          · exact pure_late _
          · split
            · exact escape_late.bind escape_steady.onward fun decoded => ih _ _
            · refine look_late (fun _ => rfl) fun next => ?_
              split
              · exact skip_late (look_late (fun _ => rfl) fun start =>
                  (holeBody_late bound 0 "").bind (holeBody_steady (Nat.le_refl bound) 0 "").onward
                    fun source => ih _ _)
              · exact ih _ _

theorem lexeme_late (bound : Nat) (c : Char) : Late text place (lexeme bound c) := by
  unfold lexeme
  refine look_late (fun _ => rfl) fun next => ?_
  split
  · unfold numberLiteral
    refine look_late (fun _ => rfl) fun next => ?_
    split
    · exact hexNumberLiteral_late
    · exact hexNumberLiteral_late
    · exact decimalLiteral_late
  · split
    · exact skip_late ((stringBody_late c bound "").bind
        (stringBody_steady c (Nat.le_refl bound) "").onward fun text => pure_late _)
    · split
      · exact skip_late ((templateBody_late bound [] "").bind
          (templateBody_steady (Nat.le_refl bound) .nil "").onward fun chunks => pure_late _)
      · split
        · unfold wordLexeme
          refine takeWhile_late fun word => ?_
          dsimp only
          split <;> exact pure_late _
        · intro s error behind ran
          rw [markLexeme_run] at ran
          split at ran
          · cases ran
          · cases ran
            exact Source.Within.reports behind _

theorem closeComment_late {rest : List Char} {reached : Position} {newline : Bool}
    {error : ScriptError} (within : Source.Within text place ⟨rest, reached⟩)
    (ran : closeComment rest reached newline = .error error) :
    ∃ front fault, front <+: text ∧ error = .syntaxFault (place.after front) fault := by
  fun_induction closeComment rest reached newline with
  | case1 =>
      cases ran
      exact Source.Within.reports within _
  | case2 => cases ran
  | case3 c rest reached newline _ ih =>
      exact ih (within.append (show c :: rest = [c] ++ rest from rfl)) ran

/-- What closes a comment takes characters of the text. -/
theorem closeComment_onward (newline : Bool) :
    Onward text place (fun _ => True) fun s => closeComment s.rest s.position newline := by
  rintro s ended ⟨rest, reached⟩ within ran
  obtain ⟨used, split, position, -⟩ := closeComment_takes ran
  obtain rfl : reached = s.position.after used := position
  exact ⟨trivial, within.append split⟩

theorem skipTrivia_late (bound : Nat) (newline : Bool) : Late text place (skipTrivia bound newline) := by
  induction bound generalizing newline with
  | zero => exact pure_late _
  | succ bound ih =>
      unfold skipTrivia
      refine look_late (fun _ => rfl) fun next => ?_
      split
      · exact takeWhile_late fun _ => ih _
      · exact skip_late (skip_late (Late.bind (fun s error within ran => closeComment_late within ran)
          (closeComment_onward newline) fun newline => ih _))
      · split
        · exact skip_late (ih _)
        · exact pure_late _
      · exact pure_late _

theorem skipTrivia_onward (bound : Nat) (newline : Bool) :
    Onward text place (fun _ => True) (skipTrivia bound newline) := by
  induction bound generalizing newline with
  | zero => exact .pure trivial
  | succ bound ih =>
      unfold skipTrivia
      refine look_onward (fun _ => rfl) fun next => ?_
      split
      · exact (takeWhile_steady _).onward.bind fun _ _ => ih _
      · exact skip_steady.onward.bind fun _ _ => skip_steady.onward.bind fun _ _ =>
          (closeComment_onward newline).bind fun newline _ => ih _
      · split
        · exact skip_steady.onward.bind fun _ _ => ih _
        · exact .pure trivial
      · exact .pure trivial

theorem tokens_late (bound : Nat) (found : List Token) : Late text place (tokens bound found) := by
  induction bound generalizing found with
  | zero => exact look_late (fun _ => rfl) fun s => pure_late _
  | succ bound ih =>
      unfold tokens
      refine (skipTrivia_late _ _).bind (skipTrivia_onward _ _) fun newline =>
        look_late (fun _ => rfl) fun start => ?_
      split
      · exact pure_late _
      · exact (lexeme_late _ _).bind (lexeme_steady [] (Nat.le_refl _) _).onward fun read => ih _

end Scan

/-! ## Whole texts -/

/-- Tokens up to the end mark. -/
def Ended (tokens : List Token) : Prop :=
  ∃ front last, tokens = front ++ [last] ∧ last.lexeme = .endOfInput ∧
    ∀ token ∈ front, token.lexeme.isEnd = false

theorem Scan.Layout.ended {bound : Nat} {s : Source} {pieces : List Piece} {tokens : List Token}
    (layout : Layout bound s pieces tokens) : Ended tokens := by
  induction layout with
  | finish gap _ => exact ⟨[], _, rfl, rfl, List.forall_mem_nil _⟩
  | lexeme gap head cut whole _ ih =>
      obtain ⟨front, last, rfl, mark, inner⟩ := ih
      exact ⟨_ :: front, last, rfl, mark,
        List.forall_mem_cons.mpr ⟨(lexeme_in (.self _) cut).2, inner⟩⟩

/-- Holes do not begin before the token that they stand in. -/
theorem Scan.Layout.holes {bound : Nat} {s : Source} {pieces : List Piece} {tokens : List Token}
    (layout : Layout bound s pieces tokens) :
    ∀ token ∈ tokens, token.lexeme.From token.position := by
  induction layout with
  | finish => exact List.forall_mem_singleton.mpr trivial
  | lexeme _ _ cut _ _ ih =>
      exact List.forall_mem_cons.mpr ⟨(lexeme_in (.self _) cut).1.from, ih⟩

/-- Where the tokens of a text begin, and where their holes stand in it. -/
structure Token.In (text : List Char) (place : Position) (token : Token) : Prop where
  position : ∃ front, front <+: text ∧ token.position = place.after front
  holes : token.lexeme.HolesIn text place

theorem Token.In.from {text : List Char} {place : Position} {token : Token}
    (stands : token.In text place) : token.From place := by
  obtain ⟨front, -, position⟩ := stands.position
  exact ⟨position ▸ Position.le_after .., stands.holes.from⟩

theorem Token.In.behind {used text : List Char} {place : Position} {token : Token}
    (stands : token.In text (place.after used)) : token.In (used ++ text) place := by
  obtain ⟨front, ⟨more, rfl⟩, position⟩ := stands.position
  refine ⟨⟨used ++ front, ⟨more, List.append_assoc ..⟩, ?_⟩, stands.holes.behind⟩
  rw [position, Position.after_append]

theorem Scan.Layout.stand {bound : Nat} {s : Source} {pieces : List Piece}
    {tokens : List Token} (layout : Layout bound s pieces tokens) :
    ∀ token ∈ tokens, token.In s.rest s.position := by
  induction layout with
  | @finish bound newline s t comments gap ended =>
      obtain ⟨used, split, position, -⟩ := gap.takes []
      exact List.forall_mem_singleton.mpr ⟨⟨used, ⟨t.rest, split.symm⟩, position⟩, trivial⟩
  | @lexeme bound newline c rest written s t u comments read pieces tokens gap head cut whole _ ih =>
      obtain ⟨used, split, position, -⟩ := gap.takes []
      obtain ⟨written, whole, position', -⟩ := lexeme_steady [] (Nat.le_refl _) c _ _ _ _ cut
      rw [split, List.forall_mem_cons]
      refine ⟨⟨⟨used, List.prefix_append .., position⟩, ?_⟩, fun token member => ?_⟩
      · exact (position ▸ (lexeme_in (.self _) cut).1 : read.HolesIn t.rest _).behind
      · have stands := ih token member
        rw [position'] at stands
        have behind := stands.behind
        rw [← whole, position] at behind
        exact behind.behind

theorem tokenizeAt_ended {text : String} {start : Position} {tokens : List Token}
    (cut : tokenizeAt text start = .ok tokens) : Ended tokens := by
  obtain ⟨pieces, layout⟩ := exists_layout cut
  exact layout.ended

theorem tokenizeAt_late {text : String} {start : Position} {error : ScriptError}
    (failed : tokenizeAt text start = .error error) :
    ∃ front fault, front <+: text.toList ∧ error = .syntaxFault (start.after front) fault := by
  refine Scan.tokens_late (text.toList.length + 1) [] ⟨text.toList, start⟩ error
    ⟨[], rfl, rfl⟩ ?_
  change (Prod.fst <$> Scan.tokens (text.toList.length + 1) [] ⟨text.toList, start⟩) = _ at failed
  cases ran : Scan.tokens (text.toList.length + 1) [] ⟨text.toList, start⟩ with
  | error reason =>
      rw [ran] at failed
      cases failed
      rfl
  | ok after =>
      rw [ran] at failed
      cases failed

theorem tokenizeAt_stand {text : String} {start : Position} {tokens : List Token}
    (cut : tokenizeAt text start = .ok tokens) : ∀ token ∈ tokens, token.In text.toList start := by
  obtain ⟨pieces, layout⟩ := exists_layout cut
  exact layout.stand

end StrategyQubo.Script
