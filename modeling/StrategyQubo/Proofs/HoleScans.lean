import StrategyQubo.Proofs.BracketedSpans
import StrategyQubo.Proofs.NumericTexts

namespace StrategyQubo.Script

/-! # The simple scan of holes

The source of a hole is found by a scan that counts braces and knows quotes, but
neither comments nor lexemes.  It agrees with the real one on all that is written
without braces and quotes of other kinds.
-/

/-! ## The scan as an automaton -/

/-- Between lexemes, inside quotes, or behind a backslash inside quotes, at some
    depth of braces. -/
inductive HoleState where
  | plain (depth : Nat)
  | quoted (quote : Char) (depth : Nat)
  | escaped (quote : Char) (depth : Nat)
  deriving DecidableEq, Repr

namespace HoleState

def isQuote (c : Char) : Bool :=
  c == '\x22' || c == '\x27' || c == '\x60'

/-- Behind a closing brace, one level less is open. -/
def outward : Nat → Option HoleState
  | 0 => none
  | outer + 1 => some (plain outer)

/-- The state behind a character.  The brace that ends the hole has none. -/
def step : HoleState → Char → Option HoleState
  | plain depth, c =>
      if c = '\x7b' then some (plain (depth + 1))
      else if c = '\x7d' then outward depth
      else if isQuote c then some (quoted c depth)
      else some (plain depth)
  | quoted quote depth, c =>
      if c = '\\' then some (escaped quote depth)
      else if c = quote then some (plain depth)
      else some (quoted quote depth)
  | escaped quote depth, _ => some (quoted quote depth)

def run (state : HoleState) (text : List Char) : Option HoleState :=
  text.foldlM step state

@[simp] theorem run_nil (state : HoleState) : state.run [] = some state := rfl

theorem run_cons (state : HoleState) (c : Char) (text : List Char) :
    state.run (c :: text) = (state.step c).bind (run · text) := by
  rw [run, List.foldlM_cons]
  rfl

theorem run_append (state : HoleState) (first second : List Char) :
    state.run (first ++ second) = (state.run first).bind (run · second) := by
  rw [run, List.foldlM_append]
  rfl

theorem step_plain (depth : Nat) (c : Char) :
    (plain depth).step c =
      if c = '\x7b' then some (plain (depth + 1))
      else if c = '\x7d' then outward depth
      else if isQuote c then some (quoted c depth)
      else some (plain depth) :=
  rfl

/-- A character that neither opens nor closes anything. -/
def Neutral (c : Char) : Prop :=
  c ≠ '\x7b' ∧ c ≠ '\x7d' ∧ isQuote c = false

instance (c : Char) : Decidable (Neutral c) :=
  inferInstanceAs (Decidable (c ≠ '\x7b' ∧ c ≠ '\x7d' ∧ isQuote c = false))

theorem step_neutral {c : Char} (neutral : Neutral c) (depth : Nat) :
    (plain depth).step c = some (plain depth) := by
  obtain ⟨opens, closes, quote⟩ := neutral
  rw [step_plain, if_neg opens, if_neg closes, quote, if_neg Bool.false_ne_true]

theorem run_plain_neutral {text : List Char} (neutral : ∀ c ∈ text, Neutral c) (depth : Nat) :
    (plain depth).run text = some (plain depth) := by
  induction text with
  | nil => rfl
  | cons c text ih =>
      obtain ⟨first, neutral⟩ := List.forall_mem_cons.mp neutral
      rw [run_cons, step_neutral first]
      exact ih neutral

theorem run_quoted_neutral {quote : Char} {text : List Char}
    (neutral : ∀ c ∈ text, c ≠ quote ∧ c ≠ '\\') (depth : Nat) :
    (quoted quote depth).run text = some (quoted quote depth) := by
  induction text with
  | nil => rfl
  | cons c text ih =>
      obtain ⟨⟨other, bare⟩, neutral⟩ := List.forall_mem_cons.mp neutral
      rw [run_cons, step, if_neg bare, if_neg other]
      exact ih neutral

end HoleState

open HoleState

namespace Scan

/-! ## What the scan takes -/

theorem take?_cons (c : Char) (text : List Char) (place : Position) :
    take? ⟨c :: text, place⟩ = .ok (some c, ⟨text, place.step c⟩) :=
  rfl

theorem push_append (source : String) (c : Char) (text : List Char) :
    source.push c ++ String.ofList text = source ++ String.ofList (c :: text) := by
  apply String.toList_inj.mp
  simp only [String.toList_append, String.toList_push, String.toList_ofList, List.append_assoc,
    List.singleton_append]

theorem append_append (source : String) (first second : List Char) :
    source ++ String.ofList first ++ String.ofList second = source ++ String.ofList (first ++ second) := by
  apply String.toList_inj.mp
  simp only [String.toList_append, String.toList_ofList, List.append_assoc]

theorem append_nil (source : String) : source ++ String.ofList [] = source := by
  apply String.toList_inj.mp
  simp only [String.toList_append, String.toList_ofList, List.append_nil]

/-- A string in a hole ends at the first quote that is not escaped. -/
theorem holeString_run {quote : Char} {depth outer : Nat} {text : List Char}
    (ends : (quoted quote depth).run text = some (plain outer)) {bound : Nat}
    (enough : text.length ≤ bound) (more : List Char) (place : Position) (source : String) :
    ∃ inner rest, text = inner ++ quote :: rest ∧ (plain depth).run rest = some (plain outer) ∧
      holeString quote bound source ⟨text ++ more, place⟩ =
        .ok (source ++ String.ofList inner, ⟨rest ++ more, place.after (inner ++ [quote])⟩) := by
  induction bound generalizing text place source with
  | zero =>
      obtain rfl := List.length_eq_zero_iff.mp (Nat.le_zero.mp enough)
      cases ends
  | succ bound ih =>
      cases text with
      | nil => cases ends
      | cons c text =>
          have fewer : text.length ≤ bound := Nat.le_of_succ_le_succ enough
          rw [List.cons_append, holeString, StateT.bind_ok (take?_cons ..)]
          rw [run_cons, step] at ends
          by_cases escape : c = '\\'
          · rw [if_pos escape] at ends
            cases text with
            | nil => cases ends
            | cons d text =>
                obtain ⟨inner, rest, rfl, ended, ran⟩ := ih ends (Nat.le_of_succ_le fewer)
                  ((place.step c).step d) ((source.push c).push d)
                refine ⟨c :: d :: inner, rest, rfl, ended, ?_⟩
                rw [push_append, push_append] at ran
                dsimp only
                rw [if_pos escape]
                exact ran
          · rw [if_neg escape] at ends
            dsimp only
            rw [if_neg escape]
            by_cases closes : c = quote
            · rw [if_pos closes] at ends ⊢
              exact ⟨[], text, congrArg (· :: text) closes, ends, by rw [append_nil, closes]; rfl⟩
            · rw [if_neg closes] at ends ⊢
              obtain ⟨inner, rest, rfl, ended, ran⟩ := ih ends fewer (place.step c) (source.push c)
              rw [push_append] at ran
              exact ⟨c :: inner, rest, rfl, ended, ran⟩

theorem holeBody_run {depth : Nat} {text : List Char}
    (ends : (plain depth).run text = some (plain 0)) {bound : Nat} (enough : text.length < bound)
    (more : List Char) (place : Position) (source : String) :
    holeBody bound depth source ⟨text ++ '\x7d' :: more, place⟩ =
      .ok (source ++ String.ofList text, ⟨more, place.after (text ++ ['\x7d'])⟩) := by
  induction bound generalizing depth text place source with
  | zero => exact absurd enough (Nat.not_lt_zero _)
  | succ bound ih =>
      cases text with
      | nil =>
          obtain rfl : depth = 0 := HoleState.plain.inj (Option.some.inj ends)
          rw [append_nil]
          rfl
      | cons c text =>
          have fewer : text.length < bound := Nat.lt_of_succ_lt_succ enough
          rw [List.cons_append, holeBody, StateT.bind_ok (take?_cons ..)]
          rw [run_cons, step_plain] at ends
          dsimp only
          by_cases opens : c = '\x7b'
          · rw [if_pos opens] at ends ⊢
            rw [ih ends fewer, push_append]
            rfl
          · rw [if_neg opens] at ends ⊢
            by_cases closes : c = '\x7d'
            · rw [if_pos closes] at ends ⊢
              cases depth with
              | zero => cases ends
              | succ depth =>
                  dsimp only
                  rw [ih ends fewer, push_append]
                  rfl
            · rw [if_neg closes] at ends ⊢
              have same : (c = '\x22' ∨ c = '\x27' ∨ c = '\x60') ↔ isQuote c = true := by
                simp [isQuote, or_assoc]
              rw [if_congr same rfl rfl]
              by_cases quote : isQuote c = true
              · rw [if_pos quote] at ends ⊢
                obtain ⟨inner, rest, rfl, ended, ran⟩ := holeString_run ends (Nat.le_of_lt fewer)
                  ('\x7d' :: more) (place.step c) (source.push c)
                have shorter : rest.length < bound := by
                  rw [List.length_append, List.length_cons] at fewer
                  omega
                rw [StateT.bind_ok ran, ih ended shorter, push_append, push_append, append_append]
                simp only [Position.after_cons, Position.after_append, List.append_assoc,
                  List.cons_append, Position.after_nil]
              · rw [if_neg quote] at ends ⊢
                rw [ih ends fewer, push_append]
                rfl

/-! ## What a scanner takes -/

variable {α β : Type} {post : α → List Char → Prop} {post' : β → List Char → Prop}

/-- From the source, the scanner takes characters that are as its answer says. -/
def TakesAt (post : α → List Char → Prop) (scan : Scan α) (s : Source) : Prop :=
  ∀ a t, scan s = .ok (a, t) → ∃ used, s.rest = used ++ t.rest ∧ post a used

/-- From any source. -/
abbrev Takes (post : α → List Char → Prop) (scan : Scan α) : Prop :=
  ∀ s, TakesAt post scan s

theorem pure_takes {a : α} (good : post a []) : Takes post (pure a : Scan α) := by
  rintro s _ _ ⟨⟩
  exact ⟨[], rfl, good⟩

theorem fail_takes (fault : SyntaxFault) : Takes post (fail fault : Scan α) :=
  fun _ _ _ ran => nomatch ran

theorem Takes.mono {scan : Scan α} {wanted : α → List Char → Prop} (takes : Takes post scan)
    (implies : ∀ a used, post a used → wanted a used) : Takes wanted scan := by
  intro s a t ran
  obtain ⟨used, split, good⟩ := takes s a t ran
  exact ⟨used, split, implies a used good⟩

theorem Takes.bind {first : Scan α} {next : α → Scan β} (takes : Takes post first)
    (later : ∀ a used, post a used → Takes (fun b more => post' b (used ++ more)) (next a)) :
    Takes post' (first >>= next) := by
  intro s b t ran
  obtain ⟨a, s', reached, ran⟩ := StateT.exists_of_bind_ok ran
  obtain ⟨used, split, good⟩ := takes s a s' reached
  obtain ⟨more, split', good'⟩ := later a used good s' b t ran
  exact ⟨used ++ more, by rw [split, split', List.append_assoc], good'⟩

theorem look_takes {look : Scan α} {seen : Source → α} (looks : ∀ s, look s = .ok (seen s, s))
    {next : α → Scan β} (later : ∀ s, TakesAt post' (next (seen s)) s) :
    Takes post' (look >>= next) := by
  intro s b t ran
  rw [StateT.bind_ok (looks s)] at ran
  exact later s b t ran

theorem take_takes {next : Option Char → Scan β} (ended : Takes post' (next none))
    (later : ∀ c, Takes (fun b more => post' b (c :: more)) (next (some c))) :
    Takes post' (take? >>= next) := by
  rintro ⟨text, place⟩ b t ran
  cases text with
  | nil => exact ended _ b t ran
  | cons c text =>
      obtain ⟨used, split, good⟩ := later c _ b t ran
      exact ⟨c :: used, congrArg (c :: ·) split, good⟩

theorem takeWhile_takes (keep : Char → Bool) :
    Takes (fun run used => used = run ∧ ∀ c ∈ used, keep c = true) (takeWhile keep) := by
  rintro s _ _ ⟨⟩
  exact ⟨_, List.takeWhile_append_dropWhile.symm, rfl, fun c member => List.mem_takeWhile_imp member⟩

/-! ### Escapes and strings -/

/-- A character that means nothing inside quotes. -/
def Inner (c : Char) : Prop :=
  isQuote c = false ∧ c ≠ '\\'

theorem inner_of_isHexDigit {c : Char} (digit : Number.isHexDigit c = true) : Inner c := by
  refine ⟨Bool.eq_false_iff.mpr fun quote => ?_, ?_⟩
  · simp only [isQuote, Bool.or_eq_true, beq_iff_eq] at quote
    rcases quote with (rfl | rfl) | rfl <;> cases digit
  · rintro rfl
    cases digit

theorem inner_of_hexNumber? {bound n : Nat} {digits : List Char}
    (found : Number.hexNumber? bound digits = some n) : ∀ c ∈ digits, Inner c := by
  have read : (Number.hexDigits? bound (Number.afterPlus digits)).isSome = true := by
    rw [← Number.hexNumber?_eq, found, Option.isSome_some]
  have inner : ∀ c ∈ Number.afterPlus digits, Inner c := fun c member =>
    inner_of_isHexDigit ((Number.hexDigits?_isSome_iff.mp read).1.2 c member)
  unfold Number.afterPlus at inner
  split at inner
  · exact List.forall_mem_cons.mpr ⟨⟨rfl, by decide⟩, inner⟩
  · exact inner

theorem takeHexDigits_takes (width : Nat) (digits : List Char) :
    Takes (fun _ used => ∀ c ∈ used, Inner c) (takeHexDigits width digits) := by
  induction width generalizing digits with
  | zero => exact pure_takes (List.forall_mem_nil _)
  | succ width ih =>
      unfold takeHexDigits
      refine take_takes (fail_takes _) fun c => ?_
      dsimp only
      split
      · next digit =>
        exact (ih _).mono fun _ used inner =>
          List.forall_mem_cons.mpr ⟨inner_of_isHexDigit digit, inner⟩
      · exact fail_takes _

theorem fixedEscape_takes (width : Nat) :
    Takes (fun _ used => ∀ c ∈ used, Inner c) (fixedEscape width) := by
  unfold fixedEscape
  refine (takeHexDigits_takes width []).bind fun digits used inner => ?_
  split
  · exact pure_takes (by rwa [List.append_nil])
  · exact fail_takes _

theorem bracedEscape_takes (rest : List Char) (place : Position) :
    TakesAt (fun _ used => ∀ c ∈ used, Inner c) bracedEscape ⟨'\x7b' :: rest, place⟩ := by
  intro decoded t ran
  have closed : ∀ c ∈ (rest.dropWhile (· != '\x7d')).take 1, Inner c := by
    have stop := List.head?_dropWhile_not (· != '\x7d') rest
    cases left : rest.dropWhile (· != '\x7d') with
    | nil => exact List.forall_mem_nil _
    | cons c more =>
        rw [left] at stop
        obtain rfl : c = '\x7d' := by simpa using stop
        exact List.forall_mem_singleton.mpr ⟨rfl, by decide⟩
  have skipped (text : List Char) (place : Position) :
      ∃ place', skip ⟨text, place⟩ = .ok ((), ⟨text.drop 1, place'⟩) := by
    cases text <;> exact ⟨_, rfl⟩
  unfold bracedEscape at ran
  rw [StateT.bind_ok (show skip ⟨'\x7b' :: rest, place⟩ = .ok ((), ⟨rest, place.step '\x7b'⟩) from rfl)]
    at ran
  obtain ⟨digits, s, taken, ran⟩ := StateT.exists_of_bind_ok ran
  cases taken
  dsimp only at ran
  obtain ⟨last, ended⟩ := skipped (rest.dropWhile (· != '\x7d'))
    ((place.step '\x7b').after (rest.takeWhile (· != '\x7d')))
  rw [StateT.bind_ok ended] at ran
  cases found : (Number.hexNumber? (Number.pow2 32) (rest.takeWhile (· != '\x7d'))).bind charOfCode? with
  | none =>
      rw [found] at ran
      cases ran
  | some c =>
      rw [found] at ran
      cases ran
      obtain ⟨code, read, -⟩ := Option.bind_eq_some_iff.mp found
      refine ⟨'\x7b' :: (rest.takeWhile (· != '\x7d') ++ (rest.dropWhile (· != '\x7d')).take 1), ?_, ?_⟩
      · rw [List.cons_append, List.append_assoc, List.take_append_drop,
          List.takeWhile_append_dropWhile]
      · exact List.forall_mem_cons.mpr ⟨⟨rfl, by decide⟩,
          List.forall_mem_append.mpr ⟨inner_of_hexNumber? read, closed⟩⟩

theorem run_quoted_inner {quote : Char} {text : List Char} (isQuote : HoleState.isQuote quote = true)
    (inner : ∀ c ∈ text, Inner c) (depth : Nat) :
    (quoted quote depth).run text = some (quoted quote depth) := by
  refine run_quoted_neutral (fun c member => ⟨?_, (inner c member).2⟩) depth
  rintro rfl
  rw [(inner c member).1] at isQuote
  cases isQuote

/-- Behind a backslash, an escape leaves the scan inside the quotes. -/
theorem escape_takes {quote : Char} (isQuote : HoleState.isQuote quote = true) :
    Takes (fun _ used => ∀ depth,
      (HoleState.escaped quote depth).run used = some (quoted quote depth)) escape := by
  have plainly (decoded : Char) (c : Char) : Takes (fun _ more => ∀ depth,
      (HoleState.escaped quote depth).run (c :: more) = some (quoted quote depth))
        (pure decoded : Scan Char) :=
    pure_takes fun _ => rfl
  unfold escape
  refine take_takes (fail_takes _) fun c => ?_
  split <;> try exact plainly _ _
  · next none => cases none
  · exact (fixedEscape_takes 2).mono fun _ used inner => run_quoted_inner isQuote inner
  · refine look_takes (fun _ => rfl) fun s => ?_
    split
    · next rest ahead =>
      obtain ⟨text, place⟩ := s
      cases ahead
      intro decoded t ran
      obtain ⟨used, split, inner⟩ := bracedEscape_takes rest place decoded t ran
      exact ⟨used, split, run_quoted_inner isQuote inner⟩
    · exact (fixedEscape_takes 4).mono (fun _ used inner => run_quoted_inner isQuote inner) s

theorem stringBody_takes {quote : Char} (isQuote : HoleState.isQuote quote = true) (bound : Nat)
    (text : String) :
    Takes (fun _ used => ∀ depth, (quoted quote depth).run used = some (plain depth))
      (stringBody quote bound text) := by
  induction bound generalizing text with
  | zero => exact fail_takes _
  | succ bound ih =>
      unfold stringBody
      refine take_takes (fail_takes _) fun c => ?_
      dsimp only
      split
      · next closes =>
        refine pure_takes fun depth => ?_
        rw [run_cons, step, if_neg (by rintro rfl; exact absurd (closes ▸ isQuote) (by decide)),
          if_pos closes]
        rfl
      · next inside =>
        split
        · next escape =>
          subst escape
          have behind {used : List Char} {depth : Nat}
              (rest : (HoleState.escaped quote depth).run used = some (plain depth)) :
              (quoted quote depth).run ('\\' :: used) = some (plain depth) := by
            rw [run_cons, step, if_pos rfl]
            exact rest
          refine look_takes (fun _ => rfl) fun s => ?_
          split
          · next rest ahead =>
            obtain ⟨text', place⟩ := s
            cases ahead
            intro body t ran
            obtain ⟨used, split, good⟩ := ih text _ body t ran
            exact ⟨'\n' :: used, congrArg _ split, fun depth => behind (good depth)⟩
          · refine (escape_takes isQuote).bind (fun decoded used inner => ?_) s
            refine (ih _).mono fun _ more good depth => behind ?_
            rw [run_append, inner depth]
            exact good depth
        · next bare =>
          split
          · exact fail_takes _
          · refine (ih _).mono fun _ used good depth => ?_
            rw [run_cons, step, if_neg bare, if_neg inside]
            exact good depth

/-! ### Numbers, words and marks -/

theorem neutral_of_false (keep : Char → Bool) (rejects : keep '\x7b' = false ∧ keep '\x7d' = false ∧
    keep '\x22' = false ∧ keep '\x27' = false ∧ keep '\x60' = false) {c : Char}
    (kept : keep c = true) : Neutral c := by
  obtain ⟨opens, closes, double, single, back⟩ := rejects
  refine ⟨?_, ?_, Bool.eq_false_iff.mpr fun quote => ?_⟩
  · rintro rfl
    exact Bool.false_ne_true (opens.symm.trans kept)
  · rintro rfl
    exact Bool.false_ne_true (closes.symm.trans kept)
  · simp only [isQuote, Bool.or_eq_true, beq_iff_eq] at quote
    rcases quote with (rfl | rfl) | rfl
    · exact Bool.false_ne_true (double.symm.trans kept)
    · exact Bool.false_ne_true (single.symm.trans kept)
    · exact Bool.false_ne_true (back.symm.trans kept)

theorem neutral_of_continues {c : Char} (continues : continuesIdentifier c = true) : Neutral c :=
  neutral_of_false _ (by decide +kernel) continues

theorem neutral_of_isHexDigit {c : Char} (digit : Number.isHexDigit c = true) : Neutral c :=
  neutral_of_false _ (by decide) digit

theorem neutral_of_numerical {c : Char} (numerical : Numerical c) : Neutral c :=
  neutral_of_false (fun c => c.isDigit || ['.', 'e', 'E', '+', '-'].contains c) (by decide)
    (by simpa [Numerical] using numerical)

/-- A character of a number or a word. -/
def Wordy (c : Char) : Prop :=
  continuesIdentifier c = true ∨ Number.isHexDigit c = true ∨ Numerical c

theorem Wordy.neutral {c : Char} : Wordy c → Neutral c
  | .inl continues => neutral_of_continues continues
  | .inr (.inl digit) => neutral_of_isHexDigit digit
  | .inr (.inr numerical) => neutral_of_numerical numerical

theorem numberLiteral_takes :
    Takes (fun _ used => ∀ c ∈ used, Wordy c) numberLiteral := by
  have hex (x : Char) (known : Wordy x) (rest : List Char) (place : Position) :
      TakesAt (fun _ used => ∀ c ∈ used, Wordy c) hexNumberLiteral ⟨'0' :: x :: rest, place⟩ := by
    intro read t ran
    unfold hexNumberLiteral at ran
    rw [StateT.bind_ok (show skip _ = .ok ((), ⟨x :: rest, place.step '0'⟩) from rfl),
      StateT.bind_ok (show skip _ = .ok ((), ⟨rest, (place.step '0').step x⟩) from rfl)] at ran
    obtain ⟨digits, s, taken, ran⟩ := StateT.exists_of_bind_ok ran
    obtain ⟨used, split, rfl, kept⟩ := takeWhile_takes _ _ _ _ taken
    cases found : Number.hexNumber? (Number.pow2 64) used with
    | none =>
        rw [found] at ran
        cases ran
    | some value =>
        rw [found] at ran
        cases ran
        refine ⟨'0' :: x :: used, congrArg ('0' :: x :: ·) split, ?_⟩
        exact List.forall_mem_cons.mpr ⟨.inr (.inl rfl), List.forall_mem_cons.mpr
          ⟨known, fun c member => .inr (.inl (kept c member))⟩⟩
  unfold numberLiteral
  refine look_takes (fun _ => rfl) fun s => ?_
  obtain ⟨text, place⟩ := s
  split
  · next rest ahead =>
    cases ahead
    exact hex 'x' (.inl (by decide +kernel)) _ _
  · next rest ahead =>
    cases ahead
    exact hex 'X' (.inl (by decide +kernel)) _ _
  · intro read t ran
    rw [decimalLiteral_run] at ran
    cases found : Number.spanNumeral? text with
    | none =>
        rw [found] at ran
        cases ran
        exact ⟨[], rfl, List.forall_mem_nil _⟩
    | some numeral =>
        obtain ⟨used, -, spans⟩ := spanNumeral?_spans found
        simp only [found] at ran
        split at ran
        · cases ran
        · cases ran
          exact ⟨used, spans.split, fun c member => .inr (.inr (spans.numerical c member))⟩

theorem wordLexeme_takes : Takes (fun _ used => ∀ c ∈ used, Wordy c) wordLexeme := by
  unfold wordLexeme
  refine (takeWhile_takes _).bind fun run used taken => ?_
  have wordy : ∀ c ∈ used ++ [], Wordy c := by
    rw [List.append_nil]
    exact fun c member => .inl (taken.2 c member)
  dsimp only
  split
  · exact pure_takes wordy
  · exact pure_takes wordy

end Scan

/-- How many braces are open behind the lexeme. -/
def Lexeme.braces : Lexeme → Nat → Option Nat
  | .mark .openBrace, depth => some (depth + 1)
  | .mark .closeBrace, depth =>
      match depth with
      | 0 => none
      | outer + 1 => some outer
  | _, depth => some depth

namespace Scan

theorem markLexeme_takes : Takes (fun read used => ∀ depth,
    (plain depth).run used = (read.braces depth).map plain) markLexeme := by
  intro s read t ran
  rw [markLexeme_run] at ran
  cases found : markAt? s.rest with
  | none =>
      rw [found] at ran
      cases ran
  | some mark =>
      have whole := markAt?_split found
      rw [found] at ran
      cases ran
      refine ⟨mark.spelling.toList, whole, fun depth => ?_⟩
      by_cases brace : mark = .openBrace ∨ mark = .closeBrace
      · rcases brace with rfl | rfl
        · rfl
        · cases depth <;> rfl
      · have neutral : ∀ c ∈ mark.spelling.toList, Neutral c := by
          refine List.forall_iff_forall_mem.mp ?_
          cases mark <;> first | exact absurd (by decide) brace | decide
        rw [run_plain_neutral neutral]
        cases mark <;> first | exact absurd (by decide) brace | rfl

/-- The simple scan sees the lexeme as it is, unless it is a template. -/
theorem lexeme_run {bound : Nat} {c : Char} {rest : List Char} {place : Position} {read : Lexeme}
    {t : Source} (cut : lexeme bound c ⟨c :: rest, place⟩ = .ok (read, t))
    (other : ∀ chunks, read ≠ .template chunks) :
    ∃ used, c :: rest = used ++ t.rest ∧
      ∀ depth, (plain depth).run used = (read.braces depth).map plain := by
  unfold lexeme at cut
  rw [StateT.bind_ok (show ahead ⟨c :: rest, place⟩ = .ok (c :: rest, ⟨c :: rest, place⟩) from rfl)]
    at cut
  have skipped : skip ⟨c :: rest, place⟩ = .ok ((), ⟨rest, place.step c⟩) := rfl
  split at cut
  · obtain ⟨used, split, wordy⟩ := numberLiteral_takes _ _ _ cut
    obtain ⟨value, rfl⟩ := numberLiteral_answer cut
    exact ⟨used, split, run_plain_neutral fun c member => (wordy c member).neutral⟩
  · split at cut
    · next quote =>
      rw [StateT.bind_ok skipped] at cut
      obtain ⟨text, s, body, cut⟩ := StateT.exists_of_bind_ok cut
      cases cut
      have isQuote : HoleState.isQuote c = true := by
        rcases quote with rfl | rfl <;> rfl
      obtain ⟨used, split, ran⟩ := stringBody_takes isQuote bound "" _ _ _ body
      refine ⟨c :: used, congrArg (c :: ·) split, fun depth => ?_⟩
      rw [run_cons, step_plain, if_neg (by rcases quote with rfl | rfl <;> decide),
        if_neg (by rcases quote with rfl | rfl <;> decide), if_pos isQuote]
      exact ran depth
    · split at cut
      · obtain ⟨_, s, -, cut⟩ := StateT.exists_of_bind_ok cut
        obtain ⟨chunks, s', -, cut⟩ := StateT.exists_of_bind_ok cut
        cases cut
        exact absurd rfl (other chunks)
      · split at cut
        · obtain ⟨used, split, wordy⟩ := wordLexeme_takes _ _ _ cut
          obtain ⟨word, rfl⟩ := wordLexeme_answer cut
          refine ⟨used, split, fun depth => ?_⟩
          rw [run_plain_neutral fun c member => (wordy c member).neutral]
          unfold wordOf
          split <;> rfl
        · exact markLexeme_takes _ _ _ cut

/-! ## Comments and templates -/

end Scan

namespace HoleState

/-- The same state at so many braces more. -/
def deepen (more : Nat) : HoleState → HoleState
  | plain depth => plain (depth + more)
  | quoted quote depth => quoted quote (depth + more)
  | escaped quote depth => escaped quote (depth + more)

theorem step_deepen {state next : HoleState} {c : Char} (ran : state.step c = some next)
    (more : Nat) : (state.deepen more).step c = some (next.deepen more) := by
  cases state with
  | plain depth =>
      rw [step_plain] at ran
      rw [deepen, step_plain]
      split at ran
      · next opens =>
        cases ran
        rw [if_pos opens, deepen, Nat.add_right_comm]
      · next inside =>
        rw [if_neg inside]
        split at ran
        · next closes =>
          rw [if_pos closes]
          cases depth with
          | zero => cases ran
          | succ depth =>
              cases ran
              rw [Nat.add_right_comm]
              rfl
        · next inside =>
          rw [if_neg inside]
          split at ran <;> next quote =>
            cases ran
            first | exact if_pos quote | exact if_neg quote
  | quoted quote depth =>
      rw [step] at ran
      rw [deepen, step]
      split at ran
      · next escape =>
        cases ran
        exact if_pos escape
      · next bare =>
        rw [if_neg bare]
        split at ran <;> next quote =>
          cases ran
          first | exact if_pos quote | exact if_neg quote
  | escaped quote depth =>
      cases ran
      rfl

theorem run_deepen {state final : HoleState} {text : List Char} (ran : state.run text = some final)
    (more : Nat) : (state.deepen more).run text = some (final.deepen more) := by
  induction text generalizing state with
  | nil =>
      cases ran
      rfl
  | cons c text ih =>
      rw [run_cons] at ran ⊢
      obtain ⟨next, first, later⟩ := Option.bind_eq_some_iff.mp ran
      rw [step_deepen first]
      exact ih later

/-- The scan is as it was behind the text. -/
def Kept (text : List Char) : Prop :=
  (plain 0).run text = some (plain 0)

instance (text : List Char) : Decidable (Kept text) :=
  inferInstanceAs (Decidable (_ = _))

theorem Kept.run {text : List Char} (kept : Kept text) (depth : Nat) :
    (plain depth).run text = some (plain depth) := by
  have ran := run_deepen kept depth
  rwa [deepen, Nat.zero_add] at ran

end HoleState

/-- A comment or a template leaves the simple scan as it was. -/
def Scan.Piece.Kept : Scan.Piece → Prop
  | .comment written => HoleState.Kept written
  | .lexeme (.template _) written => HoleState.Kept written
  | .lexeme _ _ => True

instance : (piece : Scan.Piece) → Decidable piece.Kept
  | .comment written => inferInstanceAs (Decidable (HoleState.Kept written))
  | .lexeme (.template _) written => inferInstanceAs (Decidable (HoleState.Kept written))
  | .lexeme (.number _) _ => isTrue trivial
  | .lexeme (.string _) _ => isTrue trivial
  | .lexeme (.identifier _) _ => isTrue trivial
  | .lexeme (.keyword _) _ => isTrue trivial
  | .lexeme (.mark _) _ => isTrue trivial
  | .lexeme .endOfInput _ => isTrue trivial

namespace Scan

theorem neutral_of_isBlank {c : Char} (blank : Text.isBlank c = true) : Neutral c :=
  neutral_of_false _ (by decide +kernel) blank

theorem Gap.run {newline ended : Bool} {s t : Source} {comments : List (List Char)}
    (gap : Gap newline s comments ended t) (kept : ∀ comment ∈ comments, HoleState.Kept comment) :
    ∃ used, s.rest = used ++ t.rest ∧ ∀ depth, (plain depth).run used = some (plain depth) := by
  induction gap with
  | stop => exact ⟨[], rfl, fun _ => rfl⟩
  | @blank newline ended c rest place comments t blank _ ih =>
      obtain ⟨used, split, ran⟩ := ih kept
      refine ⟨c :: used, congrArg (c :: ·) split, fun depth => ?_⟩
      rw [run_cons, step_neutral (neutral_of_isBlank blank)]
      exact ran depth
  | @line newline ended comment rest place comments t line ends _ ih =>
      obtain ⟨first, kept⟩ := List.forall_mem_cons.mp kept
      obtain ⟨used, split, ran⟩ := ih kept
      refine ⟨'/' :: '/' :: comment ++ used, ?_, fun depth => ?_⟩
      · rw [List.append_assoc, ← split]
        rfl
      · rw [run_append, first.run depth]
        exact ran depth
  | @block newline ended reached used rest place comments t closes _ ih =>
      obtain ⟨first, kept⟩ := List.forall_mem_cons.mp kept
      obtain ⟨more, split, ran⟩ := ih kept
      refine ⟨'/' :: '*' :: used ++ more, ?_, fun depth => ?_⟩
      · rw [List.append_assoc, ← split]
        rfl
      · rw [run_append, first.run depth]
        exact ran depth

end Scan

/-! ## Whole texts -/

/-- How many braces are open behind the tokens. -/
def bracesBehind (tokens : List Token) (depth : Nat) : Option Nat :=
  tokens.foldlM (fun depth token => token.lexeme.braces depth) depth

theorem bracesBehind_cons (token : Token) (tokens : List Token) (depth : Nat) :
    bracesBehind (token :: tokens) depth =
      (token.lexeme.braces depth).bind (bracesBehind tokens) := by
  rw [bracesBehind, List.foldlM_cons]
  rfl

theorem bracesBehind_append (first second : List Token) (depth : Nat) :
    bracesBehind (first ++ second) depth = (bracesBehind first depth).bind (bracesBehind second) := by
  rw [bracesBehind, List.foldlM_append]
  rfl

theorem Lexeme.braces_of_isPlain {lexeme : Lexeme} {semicolons : Bool}
    (plain : lexeme.isPlain semicolons = true) (depth : Nat) :
    lexeme.braces depth = some depth := by
  cases lexeme with
  | mark sign => cases sign <;> first | rfl | cases plain
  | _ => rfl

/-- Behind a balanced row as many braces are open as in front of it. -/
theorem Balanced.braces {semicolons : Bool} {row : List Token} (balanced : Balanced semicolons row)
    (depth : Nat) : bracesBehind row depth = some depth := by
  induction balanced generalizing depth with
  | nil => rfl
  | plain plain _ ih =>
      rw [bracesBehind_cons, Lexeme.braces_of_isPlain plain]
      exact ih depth
  | @group semicolons opener closer opening closing inner rest opens pair closes _ _ within behind =>
      have back : ∀ outer, opener.lexeme.braces depth = some outer →
          closer.lexeme.braces outer = some depth := by
        rw [opens, closes]
        cases opening <;> cases pair <;> rintro _ ⟨⟩ <;> rfl
      obtain ⟨outer, opened⟩ : ∃ outer, opener.lexeme.braces depth = some outer := by
        rw [opens]
        cases opening <;> cases pair <;> exact ⟨_, rfl⟩
      rw [bracesBehind_cons, opened]
      change bracesBehind (inner ++ closer :: rest) outer = _
      rw [bracesBehind_append, within outer]
      change bracesBehind (closer :: rest) outer = _
      rw [bracesBehind_cons, back outer opened]
      exact behind depth

/-- The simple scan counts the braces of the tokens. -/
theorem Scan.Layout.run {bound : Nat} {s : Source} {pieces : List Piece} {tokens : List Token}
    (layout : Layout bound s pieces tokens) (kept : ∀ piece ∈ pieces, piece.Kept) (depth : Nat) :
    (plain depth).run s.rest = (bracesBehind tokens depth).map plain := by
  induction layout generalizing depth with
  | @finish bound newline s t comments gap ended =>
      obtain ⟨used, split, ran⟩ := gap.run fun comment member => kept _ (List.mem_map_of_mem member)
      rw [split, ended, List.append_nil, ran]
      rfl
  | @lexeme bound newline c rest written s t u comments read pieces tokens gap begins cut whole _ ih =>
      obtain ⟨keptGap, keptRest⟩ := List.forall_mem_append.mp kept
      obtain ⟨keptRead, keptRest⟩ := List.forall_mem_cons.mp keptRest
      obtain ⟨used, split, ran⟩ := gap.run fun comment member =>
        keptGap _ (List.mem_map_of_mem member)
      have here : (plain depth).run written = (read.braces depth).map plain := by
        cases read with
        | template chunks => exact keptRead.run depth
        | _ =>
            obtain ⟨_, place⟩ := t
            cases begins
            obtain ⟨written', whole', ran'⟩ := lexeme_run cut nofun
            obtain rfl := List.append_cancel_right (whole.symm.trans whole')
            exact ran' depth
      rw [split, run_append, ran, bracesBehind_cons, whole]
      change (plain depth).run (written ++ u.rest) = _
      rw [run_append, here]
      cases read.braces depth with
      | none => rfl
      | some outer => exact ih keptRest outer

end StrategyQubo.Script
