import Mathlib
import StrategyQubo.Document.Wire
import StrategyQubo.Proofs.JsonValues
import StrategyQubo.Proofs.Submittable
import StrategyQubo.Strategy.Sample

namespace StrategyQubo

open StrategyQubo.Script

/-! # Stored documents

A value that holds the JSON form of a document is read as that document.
-/

/-! ## Numbers -/

namespace Number

theorem isFinite_of_beq {x y : Float} (same : (x == y) = true) (finite : isFinite y = true) :
    isFinite x = true := by
  obtain ⟨-, -, rfl | ⟨rfl, -⟩ | ⟨rfl, -⟩⟩ := Float.beq_iff_ne_nan_and_eq.mp same
  · exact finite
  · decide +kernel
  · decide +kernel

/-- To a reader of the strategy language, the number in a document is the
    number again. -/
def JsonReadsBack (x : Float) : Prop :=
  (literal? (Json.ofNumber x).compact).any (· == x) = true

instance (x : Float) : Decidable (JsonReadsBack x) :=
  inferInstanceAs (Decidable (_ = _))

end Number

namespace Json

theorem ofNumber_cases {x : Float} (finite : Number.isFinite x = true) :
    (∃ value, ofNumber x = integer value) ∨ ofNumber x = double x := by
  unfold Number.isFinite at finite
  unfold ofNumber
  cases read : Number.decode x with
  | finite value =>
      dsimp only
      split
      · exact .inl ⟨_, rfl⟩
      · exact .inr rfl
  | _ =>
      rw [read] at finite
      cases finite

/-! ## Values -/

variable {h : Heap} {v : Value}

theorem Stored.string_eq {text : String} (stored : Stored h (Json.string text) v) :
    v = .string text := by
  cases stored
  rfl

theorem Stored.number_eq {x : Float} (stored : Stored h (ofNumber x) v)
    (finite : Number.isFinite x = true) (reads : Number.JsonReadsBack x) :
    ∃ y, v = .number y ∧ (y == x) = true := by
  obtain ⟨y, read, same⟩ := (Option.any_eq_true _ _).mp reads
  refine ⟨y, ?_, same⟩
  obtain ⟨value, whole⟩ | broken := ofNumber_cases finite
  · rw [whole] at stored read
    cases stored with
    | integer read' =>
        rw [compact, read'] at read
        rw [Option.some.inj read]
  · rw [broken] at stored read
    cases stored with
    | double read' =>
        rw [compact, read'] at read
        rw [Option.some.inj read]

theorem Stored.array_cases {items : List Json} (stored : Stored h (Json.array items) v) :
    ∃ ref, v = .array ref ∧ AllStored h items (h.arrayAt ref).toList := by
  cases stored with
  | @array _ ref values found same stored =>
      have read : h.arrayAt ref = values := by
        rw [Heap.arrayAt, Array.getD_eq_getD_getElem?, found, Option.getD_some]
      exact ⟨ref, rfl, by rwa [read, Array.length_toList], by rwa [read]⟩

theorem keyed_injective : Function.Injective keyed := by
  refine List.map_injective_iff.mpr ?_
  rintro ⟨key, value⟩ ⟨key', value'⟩ same
  simpa using same

theorem Stored.record_cases {fields : List (String × Json)}
    (stored : Stored h (Json.record fields) v) :
    ∃ ref, v = .object ref ∧ AllKept h fields (h.objectAt ref) := by
  generalize form : Json.record fields = j at stored
  cases stored with
  | @record fields' ref properties found same stored =>
      have read : h.objectAt ref = properties := by
        rw [Heap.objectAt, Array.getD_eq_getD_getElem?, found, Option.getD_some]
      rw [keyed_injective (Json.object.inj form)]
      exact ⟨ref, rfl, by rwa [read], by rwa [read]⟩
  | _ => cases form

theorem AllStored.nil_eq {values : List Value} (all : AllStored h [] values) : values = [] :=
  List.length_eq_zero_iff.mp all.1.symm

theorem AllStored.cons_cases {item : Json} {items : List Json} {values : List Value}
    (all : AllStored h (item :: items) values) :
    ∃ v rest, values = v :: rest ∧ Stored h item v ∧ AllStored h items rest := by
  obtain ⟨same, stored⟩ := all
  cases values with
  | nil => cases same
  | cons v rest =>
      obtain ⟨first, others⟩ := List.forall_mem_cons.mp stored
      exact ⟨v, rest, rfl, first, Nat.succ.inj same, others⟩

theorem AllKept.nil_eq {properties : Record} (all : AllKept h [] properties) : properties = [] :=
  List.map_eq_nil_iff.mp all.1.symm

theorem AllKept.cons_cases {key : String} {value : Json} {fields : List (String × Json)}
    {properties : Record} (all : AllKept h ((key, value) :: fields) properties) :
    ∃ v rest, properties = (key, v) :: rest ∧ Stored h value v ∧ AllKept h fields rest := by
  obtain ⟨same, stored⟩ := all
  cases properties with
  | nil => cases same
  | cons property rest =>
      obtain ⟨key', v⟩ := property
      obtain ⟨rfl, later⟩ := List.cons.inj same
      obtain ⟨first, others⟩ := List.forall_mem_cons.mp stored
      exact ⟨v, rest, rfl, first, later, others⟩

end Json

open Json

/-! ## Variables -/

namespace Strategy.Sample

variable {h : Heap} {v : Value}

theorem readKind_stored {kind : VariableKind} (stored : Stored h kind.toJson v) (name : String) :
    readKind h name v = .ok kind := by
  obtain ⟨ref, rfl, kept⟩ := stored.record_cases
  obtain ⟨text, rest, listed, stored, -⟩ := kept.cons_cases
  rw [stored.string_eq] at listed
  have found : (h.objectAt ref).get? "type" = some (.string kind.name) := by
    rw [listed]
    rfl
  have shown : (Value.string kind.name).display h = kind.name := by cases kind <;> rfl
  have named : VariableKind.ofName? kind.name = some kind := by cases kind <;> rfl
  simp only [readKind, found, shown, named]

theorem readVariableEntries_kept {entries : List (String × VariableKind)} {properties : Record}
    (kept : AllKept h (entries.map fun (name, kind) => (name, kind.toJson)) properties)
    (declared : Variables) (distinct : (declared.names ++ entries.map (·.1)).Nodup) :
    ∃ read, readVariableEntries h properties declared = .ok read ∧
      read.entries = declared.entries ++ entries := by
  induction entries generalizing properties declared with
  | nil =>
      rw [kept.nil_eq]
      exact ⟨declared, rfl, (List.append_nil _).symm⟩
  | cons entry later ih =>
      obtain ⟨name, kind⟩ := entry
      obtain ⟨value, rest, rfl, stored, others⟩ := kept.cons_cases
      have fresh : name ∉ declared.names := fun found =>
        (List.nodup_append.mp distinct).2.2 name found name List.mem_cons_self rfl
      have registered : (declared.register name kind).entries =
          declared.entries ++ [(name, kind)] := by
        rw [Variables.register, dif_neg fresh]
      have names : (declared.register name kind).names = declared.names ++ [name] := by
        rw [Variables.names_register, if_neg fresh]
      obtain ⟨read, taken, same⟩ := ih others (declared.register name kind)
        (by simpa [names] using distinct)
      refine ⟨read, ?_, ?_⟩
      · rw [readVariableEntries, readKind_stored stored]
        exact taken
      · rw [same, registered, List.append_assoc, List.singleton_append]

theorem readVariables_stored {declared : Variables} (stored : Stored h declared.toJson v) :
    readVariables h v = .ok declared := by
  obtain ⟨ref, rfl, kept⟩ := stored.record_cases
  obtain ⟨read, taken, same⟩ := readVariableEntries_kept kept .empty declared.distinct
  have whole : read = declared := Variables.eq_of_entries same
  rw [← whole]
  exact taken

/-! ## Constraints -/

theorem readConstraint_stored {c : Constraint} (stored : Stored h c.toJson v)
    (finite : Number.isFinite c.rhs = true) (reads : Number.JsonReadsBack c.rhs) (index : Nat) :
    ∃ c', readConstraint h index v = .ok c' ∧ (c' == c) = true := by
  obtain ⟨ref, rfl, kept⟩ := stored.record_cases
  obtain ⟨lhs, rest, listed, text, later⟩ := kept.cons_cases
  obtain ⟨comparison, rest', rfl, symbol, last⟩ := later.cons_cases
  obtain ⟨rhs, rest'', rfl, number, nothing⟩ := last.cons_cases
  obtain ⟨y, rfl, same⟩ := number.number_eq finite reads
  rw [text.string_eq, symbol.string_eq, nothing.nil_eq] at listed
  have known : Comparison.ofSymbol? c.comparison.symbol = some c.comparison := by
    cases c.comparison <;> decide +kernel
  have sized : weight "rhs" (.number y) = .ok y := if_pos (Number.isFinite_of_beq same finite)
  have foundLhs : (h.objectAt ref).get? "lhs" = some (.string c.lhs) := by
    rw [listed]
    rfl
  have foundComparison : (h.objectAt ref).get? "comparison" =
      some (.string c.comparison.symbol) := by
    rw [listed]
    rfl
  have foundRhs : field (h.objectAt ref) "rhs" = .number y := by
    rw [listed]
    rfl
  refine ⟨⟨c.lhs, c.comparison, y⟩, ?_, ?_⟩
  · unfold readConstraint
    simp only [foundLhs, foundComparison, foundRhs, known, sized]
    rfl
  · change (c.lhs == c.lhs && (c.comparison == c.comparison && y == c.rhs)) = true
    rw [same, beq_self_eq_true, beq_self_eq_true]
    rfl

theorem readConstraintList_stored {constraints : List Constraint} {values : List Value}
    (stored : AllStored h (constraints.map Constraint.toJson) values)
    (finite : ∀ c ∈ constraints, Number.isFinite c.rhs = true)
    (reads : ∀ c ∈ constraints, Number.JsonReadsBack c.rhs) (index : Nat) :
    ∃ read, readConstraintList h index values = .ok read ∧ (read == constraints) = true := by
  induction constraints generalizing values index with
  | nil =>
      rw [stored.nil_eq]
      exact ⟨[], rfl, rfl⟩
  | cons c rest ih =>
      obtain ⟨v, later, rfl, first, others⟩ := stored.cons_cases
      obtain ⟨here, finite⟩ := List.forall_mem_cons.mp finite
      obtain ⟨now, reads⟩ := List.forall_mem_cons.mp reads
      obtain ⟨c', taken, same⟩ := readConstraint_stored first here now index
      obtain ⟨read, listed, alike⟩ := ih others finite reads (index + 1)
      refine ⟨c' :: read, ?_, ?_⟩
      · rw [readConstraintList, taken]
        change (readConstraintList h (index + 1) later >>= _) = _
        rw [listed]
        rfl
      · rw [List.cons_beq_cons, same, alike]
        rfl

/-! ## Documents -/

theorem ofValue_stored {d : Document} (stored : Stored h d.toJson v)
    (finite : ∀ c ∈ d.constraints, Number.isFinite c.rhs = true)
    (reads : ∀ c ∈ d.constraints, Number.JsonReadsBack c.rhs) :
    ∃ d', ofValue h v = .ok (.candidate (.ofDocument d')) ∧ (d' == d) = true := by
  obtain ⟨ref, rfl, kept⟩ := stored.record_cases
  obtain ⟨declared, rest, listed, entries, later⟩ := kept.cons_cases
  obtain ⟨constraints, rest', rfl, bounds, last⟩ := later.cons_cases
  obtain ⟨objective, rest'', rfl, text, nothing⟩ := last.cons_cases
  obtain ⟨items, rfl, all⟩ := bounds.array_cases
  obtain ⟨names, rfl, -⟩ := entries.record_cases
  obtain ⟨read, taken, same⟩ := readConstraintList_stored all finite reads 0
  rw [text.string_eq, nothing.nil_eq] at listed
  have noWeights : field (h.objectAt ref) "linear" = .undefined := by
    rw [listed]
    rfl
  have foundVariables : field (h.objectAt ref) "variables" = .object names := by
    rw [listed]
    rfl
  have foundConstraints : field (h.objectAt ref) "Constraints" = .array items := by
    rw [listed]
    rfl
  have foundObjective : field (h.objectAt ref) "Objective" = .string d.objective := by
    rw [listed]
    rfl
  refine ⟨⟨d.declared, read, d.objective⟩, ?_, ?_⟩
  · have stated : readCandidate h (h.objectAt ref) =
        .ok (.ofDocument ⟨d.declared, read, d.objective⟩) := by
      rw [readCandidate, foundVariables, foundConstraints, foundObjective,
        readVariables_stored entries, readConstraints, taken]
      rfl
    rw [ofValue, ofRecord, noWeights, foundVariables, stated]
    rfl
  · change (d.declared.entries == d.declared.entries && (read == d.constraints &&
      d.objective == d.objective)) = true
    rw [same, beq_self_eq_true, beq_self_eq_true]
    rfl

end Strategy.Sample

end StrategyQubo
