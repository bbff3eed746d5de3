import StrategyQubo.Proofs.ArithmeticValue
import StrategyQubo.Proofs.NormalizedWeights
import StrategyQubo.Proofs.Submittable
import StrategyQubo.Strategy.Compile

namespace StrategyQubo

open StrategyQubo.Script

/-! # Bounds of compiled documents

Every way by which a program becomes a document checks the bounds of its
constraints, or sets them itself: they are finite numbers.
-/

/-- The bounds are finite. -/
def Constraint.AllFinite (constraints : List Constraint) : Prop :=
  ∀ c ∈ constraints, Number.isFinite c.rhs = true

instance (constraints : List Constraint) : Decidable (Constraint.AllFinite constraints) :=
  inferInstanceAs (Decidable (∀ c ∈ constraints, Number.isFinite c.rhs = true))

/-- What a candidate says of its constraints has finite bounds. -/
def Candidate.AllFinite (c : Candidate) : Prop :=
  ∀ constraints, c.constraints = some constraints → Constraint.AllFinite constraints

namespace Strategy

variable {h : Heap} {properties : Record} {value : Value} {constraints : List Constraint}

/-! ## Samples -/

namespace Sample

theorem weight_finite {key : String} {x : Float} (read : weight key value = .ok x) :
    Number.isFinite x = true := by
  have checked : ∀ y : Float, (if Number.isFinite y then (.ok y : Reading Float)
      else .error (.weightValue key y)) = .ok x → Number.isFinite x = true := by
    intro y taken
    split at taken
    · next finite =>
      cases taken
      exact finite
    · cases taken
  unfold weight at read
  split at read
  · exact checked _ read
  · exact checked _ read
  · cases read

theorem readConstraint_finite {index : Nat} {c : Constraint}
    (read : readConstraint h index value = .ok c) : Number.isFinite c.rhs = true := by
  have bounded : ∀ {properties : Record} {lhs : String} {comparison : Comparison},
      (weight "rhs" (field properties "rhs") >>= fun rhs =>
        pure (⟨lhs, comparison, rhs⟩ : Constraint)) = .ok c → Number.isFinite c.rhs = true := by
    intro properties lhs comparison read
    obtain ⟨rhs, bound, read⟩ := exists_ok_of_bind read
    cases read
    exact weight_finite bound
  unfold readConstraint at read
  split at read
  · dsimp only at read
    -- A left side is a text or a number; the rest of the record is read alike.
    split at read
    case h_3 => cases read
    all_goals
      obtain ⟨lhs, -, read⟩ := exists_ok_of_bind read
      split at read
      · split at read
        · obtain ⟨comparison, -, read⟩ := exists_ok_of_bind read
          exact bounded read
        · cases read
      · cases read
  · cases read

theorem readConstraintList_finite {index : Nat} {values : List Value}
    (read : readConstraintList h index values = .ok constraints) :
    Constraint.AllFinite constraints := by
  induction values generalizing index constraints with
  | nil =>
      cases read
      exact List.forall_mem_nil _
  | cons value rest ih =>
      obtain ⟨c, first, read⟩ := exists_ok_of_bind read
      obtain ⟨others, later, read⟩ := exists_ok_of_bind read
      cases read
      exact List.forall_mem_cons.mpr ⟨readConstraint_finite first, ih later⟩

theorem readConstraints_finite (read : readConstraints h value = .ok (some constraints)) :
    Constraint.AllFinite constraints := by
  unfold readConstraints at read
  split at read
  · cases read
  · cases read
  · obtain ⟨listed, all, read⟩ := exists_ok_of_bind read
    cases read
    exact readConstraintList_finite all
  · cases read

theorem readCandidate_finite {c : Candidate} (read : readCandidate h properties = .ok c) :
    c.AllFinite := by
  obtain ⟨declared, -, read⟩ := exists_ok_of_bind read
  obtain ⟨stated, found, read⟩ := exists_ok_of_bind read
  obtain ⟨objective, -, read⟩ := exists_ok_of_bind read
  cases read
  rintro constraints ⟨⟩
  exact readConstraints_finite found

theorem ofRecord_finite {c : Candidate} (read : ofRecord h properties = .ok (.candidate c)) :
    c.AllFinite := by
  unfold ofRecord at read
  split at read
  · cases weights : readWeights h properties <;> rw [weights] at read <;> cases read
  · split at read
    · cases stated : readCandidate h properties with
      | error fault =>
          rw [stated] at read
          cases read
      | ok c' =>
          rw [stated] at read
          cases read
          exact readCandidate_finite stated
    · cases read

theorem take_finite {entry : EntryPoint} {board : Board} {c : Candidate} {log : Array LogEntry}
    (taken : take entry board = (some (.candidate c), log)) : c.AllFinite := by
  unfold take at taken
  split at taken
  · cases taken
  · next value after log' called =>
    split at taken
    · next sample read =>
      cases taken
      cases value with
      | object ref =>
          cases stated : ofRecord after.machine.heap (after.machine.heap.objectAt ref) with
          | error fault =>
              rw [ofValue, stated] at read
              cases read
          | ok sample =>
              rw [ofValue, stated] at read
              cases read
              exact ofRecord_finite stated
      | _ => cases read
    · cases taken

end Sample

theorem exactlyOne_finite (names : List String) :
    Number.isFinite (Constraint.exactlyOne names).rhs = true := by
  have one : Number.isFinite 1.0 = true := by decide +kernel
  exact one

theorem normalize_finite (w : Weights) : Constraint.AllFinite w.normalize.1.constraints := by
  rw [w.normalize_constraints]
  split
  · exact List.forall_mem_nil _
  · intro c member
    rw [List.mem_singleton.mp member]
    exact exactlyOne_finite _

/-! ## Validation -/

theorem defaultDocument_finite : Constraint.AllFinite defaultDocument.constraints := by
  intro c member
  rw [List.mem_singleton.mp member]
  exact exactlyOne_finite _

theorem validateOr_finite {missing : FallbackReason} {candidate : Option Candidate}
    (finite : ∀ c ∈ candidate, c.AllFinite) :
    Constraint.AllFinite (validateOr missing candidate).1.document.constraints := by
  obtain ⟨c, d, rfl, stated, -, accepted⟩ | ⟨-, reason, refused⟩ :=
    validateOr_cases missing candidate
  · rw [accepted]
    have kept : some (c.constraints.getD []) = some d.constraints :=
      congrArg Candidate.constraints stated
    cases listed : c.constraints with
    | none =>
        rw [listed] at kept
        rw [← Option.some.inj kept]
        exact List.forall_mem_nil _
    | some constraints =>
        rw [listed] at kept
        rw [← Option.some.inj kept]
        exact finite c rfl _ listed
  · rw [refused]
    exact defaultDocument_finite

/-! ## Compiling -/

theorem compileLoaded_finite (loaded : Except LoadFault EntryPoint) :
    Constraint.AllFinite (compileLoaded loaded).1.document.constraints := by
  unfold compileLoaded
  split
  · exact validateOr_finite (by rintro c ⟨⟩)
  · split
    · exact validateOr_finite (by rintro c ⟨⟩)
    · next entry sample log taken =>
      refine validateOr_finite ?_
      cases sample with
      | weights w =>
          rintro c ⟨⟩ constraints ⟨⟩
          exact normalize_finite w
      | candidate c =>
          rintro c' ⟨⟩
          exact Sample.take_finite taken

theorem compile_finite (source : String) (env : Environment) :
    Constraint.AllFinite (compile source env).1.document.constraints := by
  unfold compile
  exact compileLoaded_finite _

end Strategy

end StrategyQubo
