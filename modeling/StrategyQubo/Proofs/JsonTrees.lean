import StrategyQubo.Proofs.JsonTokens

namespace StrategyQubo

open StrategyQubo.Script

/-! # JSON texts as expressions

The lexemes of a JSON text are parsed as the literal of its value.
-/

namespace Script

/-! ## Marks -/

variable {α : Type} {c c' : Cursor} {lexeme next : Lexeme} {lexemes rest : List Lexeme} {e : Expr}

theorem Cursor.Faces.eatMark_self {mark : Mark} (faces : c.Faces (.mark mark :: rest)) :
    Parse.eatMark mark c = .ok (true, c.advance) := by
  have marked : (Lexeme.mark mark).isMark mark = true := beq_self_eq_true mark
  rw [Parse.eatMark, faces.current, if_pos marked]

theorem Cursor.Faces.expectMark_eq {mark : Mark} (faces : c.Faces (.mark mark :: rest))
    (what : String) : Parse.expectMark mark what c = .ok ((), c.advance) := by
  rw [Parse.expectMark, StateT.bind_ok faces.eatMark_self]
  rfl

theorem setInBarred_eq (unbarred : c.inBarred = false) :
    Parse.setInBarred false c = .ok ((), c) := by
  obtain ⟨last, ahead, mark, size, barred⟩ := c
  cases unbarred
  rfl

theorem allowingIn_eq {parse : Parse α} {a : α} (before : c.inBarred = false)
    (parsed : parse c = .ok (a, c')) (behind : c'.inBarred = false) :
    Parse.allowingIn parse c = .ok (a, c') := by
  have saved : Parse.inBarred c = .ok (c.inBarred, c) := rfl
  rw [Parse.allowingIn, StateT.bind_ok saved, before, StateT.bind_ok (setInBarred_eq before),
    StateT.bind_ok parsed, StateT.bind_ok (setInBarred_eq behind)]
  rfl

/-! ## Assignments -/

/-- What a JSON text begins with. -/
inductive Opener : Lexeme → Prop where
  | number (value : Float) : Opener (.number value)
  | string (text : String) : Opener (.string text)
  | null : Opener (.keyword .nullWord)
  | bool (value : Bool) : Opener (.keyword (if value then .trueWord else .falseWord))
  | minus : Opener (.mark .minus)
  | openBracket : Opener (.mark .openBracket)
  | openBrace : Opener (.mark .openBrace)

/-- What stands behind a JSON text in a larger one, or in a statement. -/
inductive Closer : Lexeme → Prop where
  | comma : Closer (.mark .comma)
  | semicolon : Closer (.mark .semicolon)
  | closeBracket : Closer (.mark .closeBracket)
  | closeBrace : Closer (.mark .closeBrace)

theorem Closer.joint (closer : Closer next) : Joint next := by
  cases closer <;> constructor

theorem Closer.stops (closer : Closer next) : Stops 0 next := by
  intro precedence op found
  cases closer <;> cases found

theorem Opener.isMark_eq (opener : Opener lexeme) {mark : Mark}
    (closes : mark = .closeBracket ∨ mark = .closeBrace) : lexeme.isMark mark = false := by
  rcases closes with rfl | rfl <;> cases opener <;> rfl

theorem Opener.arrowAhead_eq (opener : Opener lexeme) (shows : c.Shows (lexeme :: lexemes)) :
    arrowAhead c = .ok (false, c) := by
  rw [arrowAhead, shows.current]
  cases opener <;> rfl

/-- What is not called an arrow function's head is a conditional expression, and
    assigned to if an assignment follows. -/
theorem assignmentExpression_run {g : Grammar} (opener : Opener lexeme)
    (shows : c.Shows (lexeme :: lexemes)) (read : conditionalExpression g c = .ok (e, c')) :
    assignmentExpression g c = (do
      match assignmentOp? (← Parse.lexeme) with
      | some op =>
          if e.isAssignable then
            Parse.skip
            let value ← g.assignment
            pure (.assign op e value)
          else
            Parse.unexpected "assignable expression before assignment"
      | none => pure e : Parse Expr) c' := by
  rw [assignmentExpression, StateT.bind_ok (opener.arrowAhead_eq shows)]
  exact StateT.bind_ok read

theorem assignmentExpression_of_unary {g : Grammar} (opener : Opener lexeme)
    (shows : c.Shows (lexeme :: lexemes)) (parsed : unaryExpression g c = .ok (e, c'))
    (behind : c'.Shows (next :: rest)) (closer : Closer next) :
    assignmentExpression g c = .ok (e, c') := by
  have operators : operatorExpression g 0 c = .ok (e, c') := by
    rw [operatorExpression_eq parsed, operatorsAfter_stops closer.stops g behind.toFaces]
  have noQuestion : next.isMark .question = false := by cases closer <;> rfl
  have noAssignment : assignmentOp? next = none := by cases closer <;> rfl
  have conditional : conditionalExpression g c = .ok (e, c') := by
    rw [conditionalExpression, StateT.bind_ok operators]
    exact StateT.bind_ok (behind.eatMark_eq noQuestion)
  rw [assignmentExpression_run opener shows conditional, StateT.bind_ok behind.lexeme_eq,
    noAssignment]
  rfl

theorem assignmentExpression_of_primary {g : Grammar} (opener : Opener lexeme)
    (noSign : lexeme ≠ .mark .minus) (shows : c.Shows (lexeme :: lexemes))
    (parsed : primary g c = .ok (e, c')) (behind : c'.Shows (next :: rest))
    (closer : Closer next) : assignmentExpression g c = .ok (e, c') := by
  refine assignmentExpression_of_unary opener shows ?_ behind closer
  refine unaryExpression_of_primary ?_ shows.toFaces parsed behind.toFaces closer.joint.detached
  cases opener with
  | minus => exact absurd rfl noSign
  | bool value => cases value <;> exact ⟨rfl, rfl, rfl⟩
  | _ => exact ⟨rfl, rfl, rfl⟩

/-- In front of whatever closes it, the grammar reads the lexemes as the
    tree. -/
def Parses (g : Grammar) (lexemes : List Lexeme) (e : Expr) : Prop :=
  ∀ c next rest, c.Shows (lexemes ++ next :: rest) → Closer next →
    ∃ c', g.assignment c = .ok (e, c') ∧ c'.Shows (next :: rest)

end Script

namespace Json

/-! ## Trees -/

def numberTree (text : String) : Expr :=
  match Number.signedNumeral? text.toList with
  | some (negative, n) => Number.signedTree negative n
  | none => .null

theorem numberTree_eq {text : String} {negative : Bool} {n : Number.Numeral}
    (read : Number.signedNumeral? text.toList = some (negative, n)) :
    numberTree text = Number.signedTree negative n := by
  rw [numberTree, read]

mutual

/-- The literal that the text of a readable value is. -/
def tree : Json → Expr
  | null => .null
  | bool value => .bool value
  | integer value => numberTree (toString value)
  | double value => numberTree (doubleText value)
  | string text => .string text
  | array items => .array (itemTrees items)
  | object fields => .object (fieldTrees fields)
  | meaningless => .null

def itemTrees : List Json → List Expr
  | [] => []
  | item :: rest => item.tree :: itemTrees rest

def fieldTrees : List (Option String × Json) → List Property
  | [] => []
  | (key, value) :: rest => .entry (.fixed (key.getD "")) value.tree :: fieldTrees rest

end

mutual

/-- How deep arrays and objects are nested, counting what is innermost. -/
def height : Json → Nat
  | array items => itemsHeight items + 1
  | object fields => fieldsHeight fields + 1
  | _ => 1

def itemsHeight : List Json → Nat
  | [] => 0
  | item :: rest => max item.height (itemsHeight rest)

def fieldsHeight : List (Option String × Json) → Nat
  | [] => 0
  | (_, value) :: rest => max value.height (fieldsHeight rest)

end

theorem height_le_of_mem_items {item : Json} {items : List Json} (member : item ∈ items) :
    item.height ≤ itemsHeight items := by
  induction items with
  | nil => cases member
  | cons first rest ih =>
      rw [itemsHeight]
      rcases List.mem_cons.mp member with rfl | later
      · exact le_max_left _ _
      · exact le_trans (ih later) (le_max_right _ _)

theorem height_le_of_mem_fields {field : Option String × Json}
    {fields : List (Option String × Json)} (member : field ∈ fields) :
    field.2.height ≤ fieldsHeight fields := by
  induction fields with
  | nil => cases member
  | cons first rest ih =>
      rw [fieldsHeight]
      rcases List.mem_cons.mp member with rfl | later
      · exact le_max_left _ _
      · exact le_trans (ih later) (le_max_right _ _)

/-! ## Parsing -/

variable {c : Cursor} {next : Lexeme} {rest : List Lexeme}

theorem signedLexemes_opener (negative : Bool) (n : Number.Numeral) :
    ∃ first more, Number.signedLexemes negative n = first :: more ∧ Opener first := by
  cases negative
  · exact ⟨_, _, rfl, .number _⟩
  · exact ⟨_, _, rfl, .minus⟩

theorem Readable.opener {limit : Nat} {j : Json} (readable : j.Readable limit) :
    ∃ first more, j.lexemes = first :: more ∧ Opener first := by
  have number : ∀ {text : String} {negative : Bool} {n : Number.Numeral},
      Number.signedNumeral? text.toList = some (negative, n) →
      ∃ first more, numberLexemes text = first :: more ∧ Opener first := by
    intro text negative n read
    rw [numberLexemes_eq read]
    exact signedLexemes_opener negative n
  cases readable with
  | null => exact ⟨_, _, rfl, .null⟩
  | bool value => exact ⟨_, _, rfl, .bool value⟩
  | integer read => exact number read
  | double read => exact number read
  | string text => exact ⟨_, _, rfl, .string text⟩
  | array => exact ⟨_, _, rfl, .openBracket⟩
  | record => exact ⟨_, _, rfl, .openBrace⟩

theorem parses_number {text : String} {negative : Bool} {n : Number.Numeral} (level : Nat)
    (read : Number.signedNumeral? text.toList = some (negative, n)) :
    Parses (.level (level + 2)) (numberLexemes text) (numberTree text) := by
  intro c next rest shows closer
  rw [numberLexemes_eq read] at shows
  rw [numberTree_eq read]
  obtain ⟨c', parsed, behind⟩ := (Number.factor_of_signedNumeral? read).unaryExpression_eq level
    shows closer.joint
  obtain ⟨first, more, spelled, opener⟩ := signedLexemes_opener negative n
  rw [spelled] at shows
  exact ⟨c', assignmentExpression_of_unary opener shows parsed behind closer, behind⟩

/-- A value of one lexeme. -/
theorem parses_single {lexeme : Lexeme} {e : Expr} (level : Nat) (opener : Opener lexeme)
    (noSign : lexeme ≠ .mark .minus)
    (read : ∀ c, c.current.lexeme = lexeme →
      primary (.level (level + 1)) c = .ok (e, c.advance)) :
    Parses (.level (level + 2)) [lexeme] e := by
  intro c next rest shows closer
  have behind := shows.advance (List.cons_ne_nil _ _)
  exact ⟨c.advance, assignmentExpression_of_primary opener noSign shows (read c shows.current)
    behind closer, behind⟩

/-- The lexemes of a JSON text and its tree. -/
structure Literal (g : Grammar) (lexemes : List Lexeme) (e : Expr) : Prop where
  opener : ∃ first more, lexemes = first :: more ∧ Opener first
  parses : Parses g lexemes e

theorem Literal.atMark_eq {g : Grammar} {lexemes : List Lexeme} {e : Expr}
    (literal : Literal g lexemes e) (shows : c.Shows (lexemes ++ rest)) {mark : Mark}
    (closes : mark = .closeBracket ∨ mark = .closeBrace) :
    Parse.atMark mark c = .ok (false, c) := by
  obtain ⟨first, more, rfl, opener⟩ := literal.opener
  rw [shows.atMark_eq mark, opener.isMark_eq closes]

theorem expressionList_last {g : Grammar} {lexemes : List Lexeme} {e : Expr}
    (literal : Literal g lexemes e) (bound : Nat) (found : List Expr)
    (shows : c.Shows (lexemes ++ .mark .closeBracket :: rest)) :
    ∃ c', expressionList g .closeBracket (bound + 1) found c = .ok ((e :: found).reverse, c') ∧
      c'.Shows (.mark .closeBracket :: rest) := by
  obtain ⟨c', parsed, behind⟩ := literal.parses c _ _ shows .closeBracket
  refine ⟨c', ?_, behind⟩
  rw [expressionList, StateT.bind_ok (literal.atMark_eq shows (.inl rfl))]
  refine (StateT.bind_ok parsed).trans ?_
  exact StateT.bind_ok (behind.eatMark_eq rfl)

theorem expressionList_comma {g : Grammar} {lexemes : List Lexeme} {e : Expr}
    (literal : Literal g lexemes e) (bound : Nat) (found : List Expr)
    (shows : c.Shows (lexemes ++ .mark .comma :: rest)) (more : rest ≠ []) :
    ∃ c', expressionList g .closeBracket (bound + 1) found c =
        expressionList g .closeBracket bound (e :: found) c' ∧
      c'.Shows rest := by
  obtain ⟨c', parsed, behind⟩ := literal.parses c _ _ shows .comma
  refine ⟨c'.advance, ?_, behind.advance more⟩
  rw [expressionList, StateT.bind_ok (literal.atMark_eq shows (.inl rfl))]
  refine (StateT.bind_ok parsed).trans ?_
  exact StateT.bind_ok behind.eatMark_self

/-- Elements and commas between them, up to the bracket. -/
theorem expressionList_items {g : Grammar} {items : List Json}
    (each : ∀ item ∈ items, Literal g item.lexemes item.tree) {bound : Nat}
    (enough : items.length ≤ bound) (found : List Expr)
    (shows : c.Shows (separated (itemLexemes items) ++ .mark .closeBracket :: rest)) :
    ∃ c', expressionList g .closeBracket bound found c =
        .ok (found.reverse ++ itemTrees items, c') ∧
      c'.Shows (.mark .closeBracket :: rest) := by
  induction items generalizing bound found c with
  | nil =>
      refine ⟨c, ?_, shows⟩
      rw [itemTrees, List.append_nil]
      cases bound with
      | zero => rfl
      | succ bound => exact StateT.bind_ok (shows.atMark_eq .closeBracket)
  | cons item more ih =>
      obtain ⟨bound, rfl⟩ := Nat.exists_eq_add_one_of_ne_zero (Nat.ne_zero_of_lt enough)
      obtain ⟨first, others⟩ := List.forall_mem_cons.mp each
      cases more with
      | nil =>
          obtain ⟨c', listed, behind⟩ := expressionList_last first bound found shows
          exact ⟨c', by rw [listed, itemTrees, itemTrees, List.reverse_cons], behind⟩
      | cons item' more =>
          rw [itemLexemes, itemLexemes, separated, List.append_assoc] at shows
          obtain ⟨c', turned, behind⟩ := expressionList_comma first bound found shows (by simp)
          obtain ⟨c'', listed, after⟩ :=
            ih others (Nat.le_of_succ_le_succ enough) (item.tree :: found) behind
          refine ⟨c'', ?_, after⟩
          rw [turned, listed, itemTrees, List.reverse_cons, List.append_assoc]
          rfl

/-- A key in quotes, a colon and a value. -/
theorem propertyValue_entry {g : Grammar} {lexemes : List Lexeme} {e : Expr}
    (parses : Parses g lexemes e) {key : String}
    (shows : c.Shows (.string key :: .mark .colon :: lexemes ++ next :: rest))
    (closer : Closer next) :
    Parse.atMark .closeBrace c = .ok (false, c) ∧
      objectKey g c = .ok ((.fixed key, none), c.advance) ∧
      ∃ c', propertyValue g (.fixed key) none c.advance = .ok (e, c') ∧
        c'.Shows (next :: rest) := by
  have atColon : c.advance.Shows (.mark .colon :: (lexemes ++ next :: rest)) :=
    shows.advance (List.cons_ne_nil _ _)
  obtain ⟨c', parsed, behind⟩ := parses _ next rest (atColon.advance (by simp)) closer
  refine ⟨shows.atMark_eq .closeBrace, ?_, c', ?_, behind⟩
  · rw [objectKey, StateT.bind_ok (Parse.advance_run c), shows.current]
    rfl
  · rw [propertyValue, StateT.bind_ok atColon.eatMark_self]
    exact parsed

theorem properties_last {g : Grammar} {lexemes : List Lexeme} {e : Expr}
    (parses : Parses g lexemes e) {key : String} (bound : Nat) (found : List Property)
    (shows : c.Shows (.string key :: .mark .colon :: lexemes ++ .mark .closeBrace :: rest)) :
    ∃ c', properties g (bound + 1) found c =
        .ok ((.entry (.fixed key) e :: found).reverse, c') ∧
      c'.Shows (.mark .closeBrace :: rest) := by
  obtain ⟨unclosed, keyed, c', valued, behind⟩ := propertyValue_entry parses shows .closeBrace
  refine ⟨c', ?_, behind⟩
  rw [properties, StateT.bind_ok unclosed]
  refine (StateT.bind_ok keyed).trans ((StateT.bind_ok valued).trans ?_)
  exact StateT.bind_ok (behind.eatMark_eq rfl)

theorem properties_comma {g : Grammar} {lexemes : List Lexeme} {e : Expr}
    (parses : Parses g lexemes e) {key : String} (bound : Nat) (found : List Property)
    (shows : c.Shows (.string key :: .mark .colon :: lexemes ++ .mark .comma :: rest))
    (more : rest ≠ []) :
    ∃ c', properties g (bound + 1) found c =
        properties g bound (.entry (.fixed key) e :: found) c' ∧
      c'.Shows rest := by
  obtain ⟨unclosed, keyed, c', valued, behind⟩ := propertyValue_entry parses shows .comma
  refine ⟨c'.advance, ?_, behind.advance more⟩
  rw [properties, StateT.bind_ok unclosed]
  refine (StateT.bind_ok keyed).trans ((StateT.bind_ok valued).trans ?_)
  exact StateT.bind_ok behind.eatMark_self

/-- Entries and commas between them, up to the brace. -/
theorem properties_fields {g : Grammar} {fields : List (Option String × Json)}
    (each : ∀ field ∈ fields, Parses g field.2.lexemes field.2.tree) {bound : Nat}
    (enough : fields.length ≤ bound) (found : List Property)
    (shows : c.Shows (separated (fieldLexemes fields) ++ .mark .closeBrace :: rest)) :
    ∃ c', properties g bound found c = .ok (found.reverse ++ fieldTrees fields, c') ∧
      c'.Shows (.mark .closeBrace :: rest) := by
  induction fields generalizing bound found c with
  | nil =>
      refine ⟨c, ?_, shows⟩
      rw [fieldTrees, List.append_nil]
      cases bound with
      | zero => rfl
      | succ bound => exact StateT.bind_ok (shows.atMark_eq .closeBrace)
  | cons field more ih =>
      obtain ⟨bound, rfl⟩ := Nat.exists_eq_add_one_of_ne_zero (Nat.ne_zero_of_lt enough)
      obtain ⟨first, others⟩ := List.forall_mem_cons.mp each
      obtain ⟨key, value⟩ := field
      cases more with
      | nil =>
          obtain ⟨c', listed, behind⟩ := properties_last first bound found shows
          exact ⟨c', by rw [listed, fieldTrees, fieldTrees, List.reverse_cons], behind⟩
      | cons field' more =>
          obtain ⟨key', value'⟩ := field'
          rw [fieldLexemes, fieldLexemes, separated, List.append_assoc] at shows
          obtain ⟨c', turned, behind⟩ := properties_comma first bound found shows (by simp)
          obtain ⟨c'', listed, after⟩ := ih others (Nat.le_of_succ_le_succ enough)
            (.entry (.fixed (key.getD "")) value.tree :: found) behind
          refine ⟨c'', ?_, after⟩
          rw [turned, listed, fieldTrees, List.reverse_cons, List.append_assoc]
          rfl

/-! ## Whole values -/

theorem length_le_separated {groups : List (List Lexeme)} (each : ∀ group ∈ groups, group ≠ []) :
    groups.length ≤ (separated groups).length := by
  induction groups with
  | nil => exact le_rfl
  | cons group more ih =>
      obtain ⟨first, others⟩ := List.forall_mem_cons.mp each
      have positive := List.length_pos_iff.mpr first
      cases more with
      | nil => exact positive
      | cons group' more =>
          have rest := ih others
          rw [separated]
          simp only [List.length_append, List.length_cons] at rest ⊢
          omega

theorem itemLexemes_eq (items : List Json) : itemLexemes items = items.map lexemes := by
  induction items with
  | nil => rfl
  | cons item more ih => rw [itemLexemes, List.map_cons, ih]

theorem fieldLexemes_eq (fields : List (Option String × Json)) :
    fieldLexemes fields = fields.map fun field =>
      .string (field.1.getD "") :: .mark .colon :: field.2.lexemes := by
  induction fields with
  | nil => rfl
  | cons field more ih => rw [fieldLexemes, List.map_cons, ih]

/-- There is room for as many turns as there are groups. -/
theorem enough_turns {groups : List (List Lexeme)} (each : ∀ group ∈ groups, group ≠ [])
    (shows : c.Shows (separated groups ++ rest)) : groups.length ≤ c.size := by
  have spelled := length_le_separated each
  have room := shows.length_le
  rw [List.length_append] at room
  omega

theorem parses_array {items : List Json} {level : Nat}
    (each : ∀ item ∈ items, Literal (.level level) item.lexemes item.tree) :
    Parses (.level (level + 2)) (array items).lexemes (array items).tree := by
  intro c next rest shows closer
  rw [lexemes, List.cons_append, List.cons_append, List.append_assoc,
    List.singleton_append] at shows
  have inside := shows.advance (by simp)
  have enough : items.length ≤ c.advance.size := by
    have turns := enough_turns ?_ inside
    · rwa [itemLexemes_eq, List.length_map] at turns
    · rw [itemLexemes_eq]
      rintro group member rfl
      obtain ⟨item, found, blank⟩ := List.mem_map.mp member
      obtain ⟨first, more, spelled, -⟩ := (each item found).opener
      rw [spelled] at blank
      cases blank
  obtain ⟨c', listed, behind⟩ := expressionList_items each enough [] inside
  have elements : Parse.allowingIn
      (do expressionList (.level level) .closeBracket (← Parse.size) []) c.advance =
        .ok (itemTrees items, c') :=
    allowingIn_eq inside.unbarred ((StateT.bind_ok (Parse.size_run _)).trans listed)
      behind.unbarred
  have after := behind.advance (List.cons_ne_nil _ _)
  refine ⟨c'.advance, ?_, after⟩
  refine assignmentExpression_of_primary .openBracket (by simp) shows ?_ after closer
  rw [primary, StateT.bind_ok (Parse.advance_run c), shows.current]
  change arrayElements (.level level) c.advance = _
  rw [arrayElements, StateT.bind_ok elements, StateT.bind_ok (behind.expectMark_eq _)]
  rfl

theorem parses_object {fields : List (Option String × Json)} {level : Nat}
    (each : ∀ field ∈ fields, Parses (.level level) field.2.lexemes field.2.tree) :
    Parses (.level (level + 2)) (object fields).lexemes (object fields).tree := by
  intro c next rest shows closer
  rw [lexemes, List.cons_append, List.cons_append, List.append_assoc,
    List.singleton_append] at shows
  have inside := shows.advance (by simp)
  have enough : fields.length ≤ c.advance.size := by
    have turns := enough_turns ?_ inside
    · rwa [fieldLexemes_eq, List.length_map] at turns
    · rw [fieldLexemes_eq]
      rintro group member rfl
      obtain ⟨field, -, blank⟩ := List.mem_map.mp member
      cases blank
  obtain ⟨c', listed, behind⟩ := properties_fields each enough [] inside
  have entries : Parse.allowingIn
      (do properties (.level level) (← Parse.size) []) c.advance =
        .ok (fieldTrees fields, c') :=
    allowingIn_eq inside.unbarred ((StateT.bind_ok (Parse.size_run _)).trans listed)
      behind.unbarred
  have after := behind.advance (List.cons_ne_nil _ _)
  refine ⟨c'.advance, ?_, after⟩
  refine assignmentExpression_of_primary .openBrace (by simp) shows ?_ after closer
  rw [primary, StateT.bind_ok (Parse.advance_run c), shows.current]
  change objectEntries (.level level) c.advance = _
  rw [objectEntries, StateT.bind_ok entries, StateT.bind_ok (behind.expectMark_eq _)]
  rfl

/-- The lexemes of a readable value are the literal of the value, for parsers
    that have two levels for each of its own. -/
theorem Readable.parses {limit : Nat} {j : Json} (readable : j.Readable limit) {level : Nat}
    (enough : 2 * j.height ≤ level) : Parses (.level level) j.lexemes j.tree := by
  induction readable generalizing level with
  | null =>
      obtain ⟨level, rfl⟩ := Nat.exists_eq_add_of_le' enough
      refine parses_single level .null (by simp) fun c current => ?_
      rw [primary, StateT.bind_ok (Parse.advance_run c), current]
      rfl
  | bool value =>
      obtain ⟨level, rfl⟩ := Nat.exists_eq_add_of_le' enough
      refine parses_single level (.bool value) (by cases value <;> simp) fun c current => ?_
      rw [primary, StateT.bind_ok (Parse.advance_run c), current]
      cases value <;> rfl
  | integer read =>
      obtain ⟨level, rfl⟩ := Nat.exists_eq_add_of_le' enough
      exact parses_number level read
  | double read =>
      obtain ⟨level, rfl⟩ := Nat.exists_eq_add_of_le' enough
      exact parses_number level read
  | string text =>
      obtain ⟨level, rfl⟩ := Nat.exists_eq_add_of_le' enough
      refine parses_single level (.string text) (by simp) fun c current => ?_
      rw [primary, StateT.bind_ok (Parse.advance_run c), current]
      rfl
  | @array items _ readable ih =>
      rw [height, Nat.mul_add] at enough
      obtain ⟨level, rfl⟩ := Nat.exists_eq_add_of_le' (le_trans (Nat.le_add_left _ _) enough)
      refine parses_array fun item member => ⟨(readable item member).opener, ?_⟩
      have inner := height_le_of_mem_items member
      exact ih item member (by omega)
  | @record fields distinct readable ih =>
      rw [Json.record, height, Nat.mul_add] at enough
      obtain ⟨level, rfl⟩ := Nat.exists_eq_add_of_le' (le_trans (Nat.le_add_left _ _) enough)
      refine parses_object fun field member => ?_
      obtain ⟨entry, found, rfl⟩ := List.mem_map.mp member
      have inner := height_le_of_mem_fields member
      change entry.2.height ≤ _ at inner
      exact ih entry found (by omega)

end Json

end StrategyQubo
