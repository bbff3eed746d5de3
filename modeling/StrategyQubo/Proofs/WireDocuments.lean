import StrategyQubo.Document.Wire
import StrategyQubo.Proofs.FiniteBounds
import StrategyQubo.Proofs.JsonReading
import StrategyQubo.Proofs.PlainNumbers
import StrategyQubo.Proofs.StoredDocuments

namespace StrategyQubo

open Json

/-! # Documents that travel

A document that is written as JSON, in either form, is read again as an equal
one.  Only its bounds have to be read as the numbers that they are, and those
of a compiled document are always finite.
-/

/-! ## Numbers -/

namespace Number

/-- The text of the number in a document is read as the number, to its end. -/
def WireReadsBack (x : Float) : Prop :=
  ((Read.number? (ofNumber x).compact.toList).any fun (j, rest) =>
    rest.isEmpty && j.number?.any (· == x)) = true

instance (x : Float) : Decidable (WireReadsBack x) :=
  inferInstanceAs (Decidable (_ = _))

theorem WireReadsBack.heard {x : Float} (finite : isFinite x = true) (reads : WireReadsBack x) :
    ∃ j y, Heard (ofNumber x) j ∧ j.number? = some y ∧ (y == x) = true := by
  obtain ⟨⟨j, rest⟩, found, whole⟩ := (Option.any_eq_true _ _).mp reads
  rw [Bool.and_eq_true, List.isEmpty_iff] at whole
  obtain ⟨rfl, number⟩ := whole
  obtain ⟨y, read, same⟩ := (Option.any_eq_true _ _).mp number
  refine ⟨j, y, ?_, read, same⟩
  obtain ⟨value, whole⟩ | broken := ofNumber_cases finite
  · rw [whole] at found ⊢
    exact .integer found
  · rw [broken] at found ⊢
    exact .double found

/-- The text begins with a digit. -/
def Begins (text : String) : Prop :=
  ∃ c more, text.toList = c :: more ∧ c.isDigit = true

theorem Begins.append {text : String} (begins : Begins text) (more : String) :
    Begins (text ++ more) := by
  obtain ⟨c, rest, same, digit⟩ := begins
  exact ⟨c, rest ++ more.toList, by rw [String.toList_append, same]; rfl, digit⟩

theorem Decimal.begins_json (d : Decimal) : Begins d.json := by
  unfold Decimal.json
  dsimp only
  split
  · have positional : Begins d.positional := d.isPlain_positional.begins
    split
    · exact positional.append ".0"
    · exact positional
  · obtain ⟨c, more, same, digit⟩ := (isPlain_toString d.digits).begins
    have lead : Begins (String.ofList ((toString d.digits).toList.take 1)) :=
      ⟨c, [], by rw [same]; simp, digit⟩
    exact ((lead.append _).append _).append _

theorem begins_jsonMagnitude (value : Dyadic) :
    Begins (if value.mantissa = 0 then "0.0"
      else (shortest .even value.mantissa value.exponent).json) := by
  split
  · exact ⟨'0', ['.', '0'], rfl, rfl⟩
  · exact Decimal.begins_json _

theorem signed_ne_null {text : String} (begins : Begins text) (negative : Bool) :
    (if negative then "-" else "") ++ text ≠ "null" := by
  obtain ⟨c, more, same, digit⟩ := begins
  intro null
  have chars := congrArg String.toList null
  rw [String.toList_append, same] at chars
  cases negative with
  | true => cases chars
  | false =>
      cases chars
      cases digit

theorem toString_int (value : Int) :
    toString value = (if value < 0 then "-" else "") ++ toString value.natAbs := by
  cases value with
  | ofNat n => exact String.empty_append.symm
  | negSucc n =>
      rw [if_pos (Int.negSucc_lt_zero n)]
      rfl

/-- A finite number is not written as null. -/
theorem compact_ofNumber_ne_null {x : Float} (finite : isFinite x = true) :
    (ofNumber x).compact ≠ "null" := by
  obtain ⟨value, whole⟩ | broken := ofNumber_cases finite
  · rw [whole, compact, toString_int]
    have digits : Begins (toString value.natAbs) := (isPlain_toString _).begins
    have text := signed_ne_null digits (decide (value < 0))
    simpa using text
  · unfold isFinite at finite
    split at finite
    · next value decoded =>
      rw [broken, compact, doubleText, decoded]
      exact signed_ne_null (begins_jsonMagnitude value) value.negative
    · cases finite

end Number

/-! ## Variables -/

theorem mapM_of_inverse {α β : Type} {read : β → Option α} {write : α → β}
    (inverse : ∀ a, read (write a) = some a) (items : List α) :
    (items.map write).mapM read = some items := by
  induction items with
  | nil => rfl
  | cons item rest ih => simp [inverse, ih]

theorem Json.Heard.itself {fields : List (String × Json)}
    (each : ∀ field ∈ fields, Heard field.2 field.2) : Heard (Json.record fields) (Json.record fields) := by
  have heard : ∀ field ∈ fields.map fun field => (field.1, field.2, field.2),
      Heard field.2.1 field.2.2 := by
    intro field member
    obtain ⟨own, found, rfl⟩ := List.mem_map.mp member
    exact each own found
  have whole := Heard.record heard
  rw [List.map_map, List.map_map] at whole
  simpa [Function.comp_def] using whole

theorem VariableKind.toJson_heard (kind : VariableKind) : Heard kind.toJson kind.toJson := by
  refine .itself fun field member => ?_
  rw [List.mem_singleton.mp member]
  exact .string _

theorem VariableKind.ofJson?_toJson (kind : VariableKind) : ofJson? kind.toJson = some kind := by
  cases kind <;> rfl

namespace Variables

theorem entries_foldl_register {entries : List (String × VariableKind)} {v : Variables}
    (distinct : (v.names ++ entries.map (·.1)).Nodup) :
    (entries.foldl (fun v (name, kind) => v.register name kind) v).entries =
      v.entries ++ entries := by
  induction entries generalizing v with
  | nil => exact (List.append_nil _).symm
  | cons entry later ih =>
      obtain ⟨name, kind⟩ := entry
      have fresh : name ∉ v.names := fun found =>
        (List.nodup_append.mp distinct).2.2 name found name List.mem_cons_self rfl
      have names : (v.register name kind).names = v.names ++ [name] := by
        rw [names_register, if_neg fresh]
      have registered : (v.register name kind).entries = v.entries ++ [(name, kind)] := by
        rw [register, dif_neg fresh]
      have all := ih (v := v.register name kind) (by simpa [names] using distinct)
      rw [registered, List.append_assoc] at all
      exact all

theorem ofList_entries (v : Variables) : ofList v.entries = v :=
  eq_of_entries (entries_foldl_register (v := .empty) v.distinct)

theorem toJson_heard (v : Variables) : Heard v.toJson v.toJson := by
  refine .itself fun field member => ?_
  obtain ⟨entry, -, rfl⟩ := List.mem_map.mp member
  exact entry.2.toJson_heard

def entryOf? (field : Option String × Json) : Option (String × VariableKind) := do
  let name ← field.1
  let kind ← VariableKind.ofJson? field.2
  pure (name, kind)

def fieldOf (entry : String × VariableKind) : Option String × Json :=
  (some entry.1, entry.2.toJson)

theorem entryOf?_fieldOf (entry : String × VariableKind) : entryOf? (fieldOf entry) = some entry := by
  simp [entryOf?, fieldOf, VariableKind.ofJson?_toJson]

theorem ofJson?_toJson (v : Variables) : ofJson? v.toJson = some v := by
  have read := mapM_of_inverse entryOf?_fieldOf v.entries
  rw [toJson, record, List.map_map]
  change ((v.entries.map fieldOf).mapM entryOf? >>= fun entries => pure (ofList entries)) = _
  rw [read]
  exact congrArg some v.ofList_entries

end Variables

/-! ## Constraints -/

theorem Constraint.toJson_heard {c : Constraint} (finite : Number.isFinite c.rhs = true)
    (reads : Number.WireReadsBack c.rhs) :
    ∃ j c', Heard c.toJson j ∧ Constraint.ofJson? j = some c' ∧ (c' == c) = true := by
  obtain ⟨rhs, y, heard, read, same⟩ := reads.heard finite
  have parts : ∀ field ∈ [("lhs", .string c.lhs, .string c.lhs),
      ("comparison", .string c.comparison.symbol, .string c.comparison.symbol),
      ("rhs", ofNumber c.rhs, rhs)], Heard field.2.1 field.2.2 := by
    intro field member
    simp only [List.mem_cons, List.not_mem_nil, or_false] at member
    obtain rfl | rfl | rfl := member
    · exact .string _
    · exact .string _
    · exact heard
  have known : Comparison.ofWire? c.comparison.symbol = some c.comparison := by
    cases c.comparison <;> rfl
  refine ⟨_, ⟨c.lhs, c.comparison, y⟩, .record parts, ?_, ?_⟩
  · simp [Constraint.ofJson?, fieldsOf?, onlyValue?, record, text?, choice?, known, read]
  · change (c.lhs == c.lhs && (c.comparison == c.comparison && y == c.rhs)) = true
    rw [same, beq_self_eq_true, beq_self_eq_true]
    rfl

theorem constraints_heard {constraints : List Constraint}
    (finite : Constraint.AllFinite constraints)
    (reads : ∀ c ∈ constraints, Number.WireReadsBack c.rhs) :
    ∃ items : List (Json × Json), items.map (·.1) = constraints.map Constraint.toJson ∧
      (∀ item ∈ items, Heard item.1 item.2) ∧
      ∃ read, (items.map (·.2)).mapM Constraint.ofJson? = some read ∧
        (read == constraints) = true := by
  induction constraints with
  | nil => exact ⟨[], rfl, List.forall_mem_nil _, [], rfl, rfl⟩
  | cons c rest ih =>
      obtain ⟨here, finite⟩ := List.forall_mem_cons.mp finite
      obtain ⟨now, reads⟩ := List.forall_mem_cons.mp reads
      obtain ⟨j, c', heard, taken, same⟩ := Constraint.toJson_heard here now
      obtain ⟨items, written, others, read, listed, alike⟩ := ih finite reads
      refine ⟨(c.toJson, j) :: items, ?_, List.forall_mem_cons.mpr ⟨heard, others⟩, c' :: read,
        ?_, ?_⟩
      · rw [List.map_cons, List.map_cons, written]
      · simp [taken, listed]
      · rw [List.cons_beq_cons, same, alike]
        rfl

/-! ## Documents -/

theorem Document.toJson_heard {d : Document} (finite : Constraint.AllFinite d.constraints)
    (reads : ∀ c ∈ d.constraints, Number.WireReadsBack c.rhs) :
    ∃ j d', Heard d.toJson j ∧ Document.ofJson? j = some d' ∧ (d' == d) = true := by
  obtain ⟨items, written, heard, read, listed, same⟩ := constraints_heard finite reads
  have parts : ∀ field ∈ [("variables", d.declared.toJson, d.declared.toJson),
      ("Constraints", .array (items.map (·.1)), .array (items.map (·.2))),
      ("Objective", .string d.objective, .string d.objective)], Heard field.2.1 field.2.2 := by
    intro field member
    simp only [List.mem_cons, List.not_mem_nil, or_false] at member
    obtain rfl | rfl | rfl := member
    · exact d.declared.toJson_heard
    · exact .array heard
    · exact .string _
  rw [written] at parts
  refine ⟨_, ⟨d.declared, read, d.objective⟩, .record parts, ?_, ?_⟩
  · simp [Document.ofJson?, fieldsOf?, onlyValue?, documentKeys, record, text?, items?,
      constraintsOfJson?, Variables.ofJson?_toJson, listed]
  · change (d.declared.entries == d.declared.entries && (read == d.constraints &&
      d.objective == d.objective)) = true
    rw [same, beq_self_eq_true, beq_self_eq_true]
    rfl

theorem Document.parse?_written {d : Document} (finite : Constraint.AllFinite d.constraints)
    (reads : ∀ c ∈ d.constraints, Number.WireReadsBack c.rhs) :
    ∃ d', Document.parse? d.compact = some d' ∧ Document.parse? d.pretty = some d' ∧
      (d' == d) = true := by
  obtain ⟨j, d', heard, read, same⟩ := Document.toJson_heard finite reads
  refine ⟨d', ?_, ?_, same⟩
  · rw [Document.parse?, Document.compact, parse?_of_spells heard.compact]
    exact read
  · rw [Document.parse?, Document.pretty, Json.pretty, parse?_of_spells (heard.indented 0)]
    exact read

namespace Strategy

/-- A document with finite bounds comes back from both of its forms: the same
    variables, the same objective and equal constraints, all in their order.
    The bounds of every compiled document are finite, and none is written as
    null. -/
theorem wire_roundtrip :
    (∀ d : Document, Constraint.AllFinite d.constraints →
      (∀ c ∈ d.constraints, Number.WireReadsBack c.rhs) →
      ∃ d', Document.parse? d.compact = some d' ∧ Document.parse? d.pretty = some d' ∧
        (d' == d) = true ∧ d'.declared = d.declared ∧
        d'.constraints.map (·.lhs) = d.constraints.map (·.lhs)) ∧
    ∀ (source : String) (env : Script.Environment),
      Constraint.AllFinite (compile source env).1.document.constraints ∧
      ∀ c ∈ (compile source env).1.document.constraints, (ofNumber c.rhs).compact ≠ "null" := by
  constructor
  · intro d finite reads
    obtain ⟨d', compact, pretty, same⟩ := Document.parse?_written finite reads
    refine ⟨d', compact, pretty, same, ?_⟩
    have parts : (d'.declared.entries == d.declared.entries &&
      (d'.constraints == d.constraints && d'.objective == d.objective)) = true := same
    simp only [Bool.and_eq_true, beq_iff_eq] at parts
    exact ⟨Variables.eq_of_entries parts.1, map_lhs_of_beq parts.2.1⟩
  · intro source env
    have finite := compile_finite source env
    exact ⟨finite, fun c member => Number.compact_ofNumber_ne_null (finite c member)⟩

/-- Names and texts that need every kind of escape, and numbers that need a
    sign, a fraction or an exponent. -/
def unrulyDocument : Document where
  declared := .ofList [("x0", .binary), ("", .spin), ("a \"b\"\n\\\x01\x0cé", .spin)]
  constraints := [⟨"x0\t* x0 // \"\\\"", .atLeast, -2.5e-7⟩, ⟨"", .equal, 1e21⟩,
    ⟨"null, \x7d]", .atMost, -0.0⟩]
  objective := "\x00\r\n[-1 * x0"

theorem wire_roundtrip_unruly :
    ∃ d', Document.parse? unrulyDocument.compact = some d' ∧
      Document.parse? unrulyDocument.pretty = some d' ∧ (d' == unrulyDocument) = true ∧
      d'.declared = unrulyDocument.declared ∧
      d'.constraints.map (·.lhs) = unrulyDocument.constraints.map (·.lhs) :=
  wire_roundtrip.1 unrulyDocument (by decide +kernel) (by decide +kernel)

end Strategy

end StrategyQubo
