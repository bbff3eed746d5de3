import StrategyQubo.Proofs.ReturningPrograms
import StrategyQubo.Proofs.StoredDocuments
import StrategyQubo.Strategy.Compile

namespace StrategyQubo

open StrategyQubo.Script

/-! # Documents that pass through

A program that returns the JSON text of a submittable document is compiled to
that document.
-/

namespace Json

/-! ## Bounds -/

variable {bound : Nat}

theorem itemsHeight_le {items : List Json} (each : ∀ item ∈ items, item.height ≤ bound) :
    itemsHeight items ≤ bound := by
  induction items with
  | nil => exact Nat.zero_le _
  | cons item rest ih =>
      obtain ⟨first, others⟩ := List.forall_mem_cons.mp each
      exact max_le first (ih others)

theorem fieldsHeight_le {fields : List (String × Json)}
    (each : ∀ field ∈ fields, field.2.height ≤ bound) : fieldsHeight (keyed fields) ≤ bound := by
  induction fields with
  | nil => exact Nat.zero_le _
  | cons field rest ih =>
      obtain ⟨first, others⟩ := List.forall_mem_cons.mp each
      exact max_le first (ih others)

theorem itemsSteps_le {items : List Json} (each : ∀ item ∈ items, item.steps ≤ bound) :
    itemsSteps items ≤ bound * items.length := by
  induction items with
  | nil => exact Nat.zero_le _
  | cons item rest ih =>
      obtain ⟨first, others⟩ := List.forall_mem_cons.mp each
      rw [itemsSteps, List.length_cons, Nat.mul_succ, Nat.add_comm]
      exact Nat.add_le_add (ih others) first

theorem fieldsSteps_le {fields : List (String × Json)}
    (each : ∀ field ∈ fields, field.2.steps ≤ bound) :
    fieldsSteps (keyed fields) ≤ bound * fields.length := by
  induction fields with
  | nil => exact Nat.zero_le _
  | cons field rest ih =>
      obtain ⟨first, others⟩ := List.forall_mem_cons.mp each
      rw [List.length_cons, Nat.mul_succ, Nat.add_comm]
      exact Nat.add_le_add first (ih others)

theorem ofNumber_flat (x : Float) : (ofNumber x).height = 1 ∧ (ofNumber x).steps ≤ 2 := by
  unfold ofNumber
  split
  · split
    · exact ⟨rfl, le_refl 2⟩
    · exact ⟨rfl, le_refl 2⟩
  · exact ⟨rfl, one_le_two⟩

theorem ofNumber_readable {limit : Nat} {x : Float} (finite : Number.isFinite x = true)
    (reads : Number.JsonReadsBack x) : (ofNumber x).Readable limit := by
  obtain ⟨y, read, -⟩ := (Option.any_eq_true _ _).mp reads
  obtain ⟨value, whole⟩ | broken := ofNumber_cases finite
  · rw [whole] at read ⊢
    obtain ⟨⟨negative, n⟩, found, -⟩ := Option.map_eq_some_iff.mp read
    exact .integer found
  · rw [broken] at read ⊢
    obtain ⟨⟨negative, n⟩, found, -⟩ := Option.map_eq_some_iff.mp read
    exact .double found

end Json

open Json

/-! ## Parts of a document -/

variable {limit : Nat}

theorem VariableKind.toJson_readable (kind : VariableKind) : kind.toJson.Readable limit := by
  refine .record (List.nodup_singleton _) fun field member => ?_
  rw [List.mem_singleton.mp member]
  exact .string _

namespace Variables

variable (v : Variables)

def fields : List (String × Json) :=
  v.entries.map fun (name, kind) => (name, kind.toJson)

theorem toJson_eq : v.toJson = record v.fields := rfl

theorem length_fields : v.fields.length = v.size :=
  List.length_map _

theorem kind_of_mem_fields {field : String × Json} (member : field ∈ v.fields) :
    ∃ kind : VariableKind, field.2 = kind.toJson := by
  obtain ⟨entry, -, rfl⟩ := List.mem_map.mp member
  exact ⟨entry.2, rfl⟩

theorem toJson_readable : v.toJson.Readable limit := by
  refine .record ?_ fun field member => ?_
  · rw [List.map_map]
    exact v.distinct
  · obtain ⟨kind, same⟩ := v.kind_of_mem_fields member
    rw [same]
    exact kind.toJson_readable

theorem toJson_bounds : v.toJson.height ≤ 3 ∧ v.toJson.steps ≤ 1 + 2 * v.size := by
  have kinds : ∀ field ∈ v.fields, field.2.height ≤ 2 ∧ field.2.steps ≤ 2 := by
    intro field member
    obtain ⟨kind, same⟩ := v.kind_of_mem_fields member
    rw [same]
    exact ⟨le_refl 2, le_refl 2⟩
  have height := fieldsHeight_le fun field member => (kinds field member).1
  have steps := fieldsSteps_le fun field member => (kinds field member).2
  rw [length_fields] at steps
  rw [toJson_eq, record_eq, Json.height, Json.steps]
  omega

end Variables

namespace Constraint

theorem toJson_readable {c : Constraint} (finite : Number.isFinite c.rhs = true)
    (reads : Number.JsonReadsBack c.rhs) : c.toJson.Readable limit := by
  have keys : ["lhs", "comparison", "rhs"].Nodup := by decide
  refine .record keys fun field member => ?_
  simp only [List.mem_cons, List.not_mem_nil, or_false] at member
  obtain rfl | rfl | rfl := member
  · exact .string _
  · exact .string _
  · exact ofNumber_readable finite reads

theorem toJson_bounds (c : Constraint) : c.toJson.height = 2 ∧ c.toJson.steps ≤ 5 := by
  obtain ⟨height, steps⟩ := ofNumber_flat c.rhs
  constructor
  · change max 1 (max 1 (max (ofNumber c.rhs).height 0)) + 1 = 2
    rw [height]
    rfl
  · change 1 + (1 + ((ofNumber c.rhs).steps + 0)) + 1 ≤ 5
    omega

end Constraint

/-! ## Documents -/

namespace Document

variable {d : Document}

theorem toJson_readable (fits : d.constraints.length ≤ limit)
    (finite : ∀ c ∈ d.constraints, Number.isFinite c.rhs = true)
    (reads : ∀ c ∈ d.constraints, Number.JsonReadsBack c.rhs) : d.toJson.Readable limit := by
  have keys : ["variables", "Constraints", "Objective"].Nodup := by decide
  refine .record keys fun field member => ?_
  simp only [List.mem_cons, List.not_mem_nil, or_false] at member
  obtain rfl | rfl | rfl := member
  · exact d.declared.toJson_readable
  · refine .array (by rwa [List.length_map]) fun item member => ?_
    obtain ⟨c, found, rfl⟩ := List.mem_map.mp member
    exact c.toJson_readable (finite c found) (reads c found)
  · exact .string _

theorem toJson_bounds (d : Document) : d.toJson.height ≤ 4 ∧
    d.toJson.steps ≤ 4 + 2 * d.declared.size + 5 * d.constraints.length := by
  obtain ⟨low, few⟩ := d.declared.toJson_bounds
  have items : ∀ item ∈ d.constraints.map Constraint.toJson, item.height ≤ 2 ∧ item.steps ≤ 5 := by
    intro item member
    obtain ⟨c, -, rfl⟩ := List.mem_map.mp member
    exact ⟨le_of_eq c.toJson_bounds.1, c.toJson_bounds.2⟩
  have height := itemsHeight_le fun item member => (items item member).1
  have steps := itemsSteps_le fun item member => (items item member).2
  rw [List.length_map] at steps
  constructor
  · change max d.declared.toJson.height (max (itemsHeight _ + 1) (max 1 0)) + 1 ≤ 4
    omega
  · change d.declared.toJson.steps + (itemsSteps _ + 1 + (1 + 0)) + 1 ≤ _
    omega

end Document

/-! ## Compiling -/

namespace Strategy

theorem compile_loaded (source : String) (env : Environment) :
    (compile source env).1 = (compileLoaded (EntryPoint.load source env).1).1 := by
  unfold compile
  cases EntryPoint.load source env
  rfl

theorem compileLoaded_candidate {entry : EntryPoint} {c : Candidate}
    (taken : (Sample.take entry .empty).1 = some (.candidate c)) :
    (compileLoaded (.ok entry)).1 = (validateOr .samplingFailed (some c)).1 := by
  cases sampled : Sample.take entry .empty with
  | mk sample log =>
      rw [sampled] at taken
      cases taken
      simp only [compileLoaded, sampled, Sample.toCandidate]

/-- A submittable document passes through: returned by a program as its JSON
    text, it is what the program is compiled to.  Each variable costs the program
    two steps and each constraint five. -/
theorem compile_returning {d : Document} {env : Environment} (submittable : d.Submittable)
    (finite : ∀ c ∈ d.constraints, Number.isFinite c.rhs = true)
    (reads : ∀ c ∈ d.constraints, Number.JsonReadsBack c.rhs) (calm : env.NeverStrikes)
    (budget : 7 + 2 * d.declared.size + 5 * d.constraints.length ≤ env.limits.stepBudget)
    (fits : d.constraints.length ≤ env.limits.maxCollectionLen)
    (callable : 1 ≤ env.limits.maxCallDepth) :
    ((compile (returning d.compact) env).1.document == d) = true ∧
      (compile (returning d.compact) env).1.fallback = none := by
  obtain ⟨low, few⟩ := d.toJson_bounds
  have affords : Affords env d.toJson :=
    ⟨calm, d.toJson_readable fits finite reads, by omega, by omega, callable⟩
  obtain ⟨v, h, stored, taken⟩ := take_returning affords .empty
  obtain ⟨d', read, same⟩ := Sample.ofValue_stored stored finite reads
  have submittable' := submittable.of_beq same
  have accepted : validateOr .samplingFailed (some (.ofDocument d')) = (⟨d', none⟩, []) :=
    validateOr_ok (coerce_submittable submittable') submittable'
  have text : d.compact = d.toJson.compact := rfl
  rw [compile_loaded, text, load_returning affords, compileLoaded_candidate (taken _ read),
    accepted]
  exact ⟨same, rfl⟩

/-- Its names and texts need escapes, its numbers a sign and an exponent. -/
def escapedDocument : Document where
  declared := .ofList [("x0", .binary), ("a \"b\"\n\\\x01é", .spin)]
  constraints := [⟨"x0", .atLeast, -2.5e-7⟩, ⟨"x0\t* x0 // \"\\\"", .equal, 1e21⟩]
  objective := "-1 *\n x0"

theorem escapedDocument_submittable : escapedDocument.Submittable := by
  have checked : checkDeclared escapedDocument = .ok () := by decide +kernel
  obtain ⟨objective, constraints⟩ := checkDeclared_iff.mp checked
  refine ⟨by decide +kernel, by decide, ?_, objective, constraints⟩
  exact isBlankText_eq_false_iff.mp (by decide +kernel)

theorem compile_returning_escaped :
    ((compile (returning escapedDocument.compact) ⟨{}, fun _ => 0⟩).1.document ==
        escapedDocument) = true ∧
      (compile (returning escapedDocument.compact) ⟨{}, fun _ => 0⟩).1.fallback = none :=
  compile_returning escapedDocument_submittable (by decide +kernel) (by decide +kernel)
    (fun _ => Nat.zero_le _) (by decide +kernel) (by decide +kernel) (by decide +kernel)

end Strategy

end StrategyQubo
