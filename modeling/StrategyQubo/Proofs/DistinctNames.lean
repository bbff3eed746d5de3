import StrategyQubo.Proofs.Annealing
import StrategyQubo.Proofs.ExhaustiveSearch
import StrategyQubo.Proofs.PlainNumbers
import StrategyQubo.Proofs.Residuals

namespace StrategyQubo

/-! # Distinct names

The variables of an expanded document are the declared ones and then the slack
variables.  No two slack variables have one name, whatever the constraints are;
so all names are distinct as long as no declared name looks like one of them,
and then an index and a value are found by name.
-/

/-! ## Names of slack variables -/

theorem toList_slackName (index bit : Nat) :
    (slackName index bit).toList =
      "_slack_".toList ++ ((toString index).toList ++ '_' :: (toString bit).toList) := by
  simp [slackName]

/-- The digits of the index end at the mark before the bit. -/
theorem slackName_injective {index bit index' bit' : Nat}
    (same : slackName index bit = slackName index' bit') : index = index' ∧ bit = bit' := by
  have spelled := congrArg String.toList same
  rw [toList_slackName, toList_slackName, List.append_cancel_left_eq] at spelled
  have cut (index bit : Nat) :
      Number.spanDigits ((toString index).toList ++ '_' :: (toString bit).toList) =
        ((toString index).toList, '_' :: (toString bit).toList) :=
    Number.spanDigits_of_digits (fun _ => Number.isDigit_of_mem_toString)
      (by rintro c ⟨⟩; rfl)
  have parts := congrArg Number.spanDigits spelled
  simp only [cut, Prod.mk.injEq, List.cons.injEq, true_and] at parts
  exact ⟨Number.toString_injective parts.1, Number.toString_injective parts.2⟩

theorem nodup_slackNames (index count : Nat) : (slackNames index count).Nodup :=
  List.nodup_range.map fun _ _ same => (slackName_injective same).2

/-- The names of the slack variables of constraints numbered from `index`, of
    which each has so many. -/
def slackNamesOf : Nat → List Nat → List String
  | _, [] => []
  | index, count :: rest => slackNames index count ++ slackNamesOf (index + 1) rest

theorem exists_of_mem_slackNamesOf {index : Nat} {counts : List Nat} {name : String}
    (member : name ∈ slackNamesOf index counts) :
    ∃ later bit, index ≤ later ∧ name = slackName later bit := by
  induction counts generalizing index with
  | nil => simp [slackNamesOf] at member
  | cons count rest ih =>
      rcases List.mem_append.mp member with here | later
      · obtain ⟨bit, -, rfl⟩ := List.mem_map.mp here
        exact ⟨index, bit, Nat.le_refl index, rfl⟩
      · obtain ⟨further, bit, after, rfl⟩ := ih later
        exact ⟨further, bit, Nat.le_of_succ_le after, rfl⟩

theorem nodup_slackNamesOf (index : Nat) (counts : List Nat) : (slackNamesOf index counts).Nodup := by
  induction counts generalizing index with
  | nil => exact List.nodup_nil
  | cons count rest ih =>
      refine List.nodup_append'.mpr ⟨nodup_slackNames index count, ih (index + 1), ?_⟩
      intro name here later
      obtain ⟨bit, -, rfl⟩ := List.mem_map.mp here
      obtain ⟨further, bit', after, same⟩ := exists_of_mem_slackNamesOf later
      have := (slackName_injective same).1
      omega

/-! ## Names of an expansion -/

section

variable {R : Type} [Coefficient R]

/-- An equality has no slack variables. -/
def Constraint.MayCount (c : Constraint) (count : Nat) : Prop :=
  c.comparison = .equal → count = 0

theorem Constraint.residual_mayCount {c : Constraint} {index first : Nat} {lhs r : Polynomial R}
    {weights : List UInt64} (computed : c.residual index lhs first = .ok (r, weights)) :
    c.MayCount weights.length := by
  intro equality
  unfold residual at computed
  rw [if_pos equality] at computed
  cases computed
  rfl

namespace Expansion

theorem addConstraints_names {v : Variables} {penalty : R} {constraints : List Constraint}
    {index : Nat} {e e' : Expansion R}
    (added : addConstraints v penalty index constraints e = .ok e') :
    ∃ counts, List.Forall₂ Constraint.MayCount constraints counts ∧
      e'.names = e.names ++ slackNamesOf index counts := by
  induction constraints generalizing index e with
  | nil =>
      cases added
      exact ⟨[], .nil, by simp [slackNamesOf]⟩
  | cons c rest ih =>
      obtain ⟨next, first, later⟩ := exists_ok_of_bind added
      obtain ⟨lhs, parsed, first⟩ := exists_ok_of_bind first
      obtain ⟨⟨r, weights⟩, computed, first⟩ := exists_ok_of_bind first
      cases first
      obtain ⟨counts, each, names⟩ := ih later
      refine ⟨weights.length :: counts, .cons (c.residual_mayCount computed) each, ?_⟩
      rw [names, slackNamesOf, List.append_assoc]

theorem addMonomial_names {q q' : Qubo R} {m : Monomial} {c : R}
    (added : addMonomial q m c = .ok q') : q'.names = q.names := by
  match m with
  | [] => cases added; rfl
  | [i] => cases added; rfl
  | [i, j] => cases added; rfl
  | _ :: _ :: _ :: _ => cases added

theorem toQubo_names {e : Expansion R} {q : Qubo R} (finished : e.toQubo = .ok q) :
    q.names = e.names := by
  suffices kept : ∀ (terms : Sparse Monomial R) (start : Qubo R),
      terms.foldlM (fun q term => addMonomial q term.1 term.2) start = .ok q →
        q.names = start.names from kept _ _ finished
  intro terms
  induction terms with
  | nil =>
      rintro start ⟨⟩
      rfl
  | cons term rest ih =>
      intro start added
      rw [List.foldlM_cons] at added
      obtain ⟨next, first, later⟩ := exists_ok_of_bind added
      exact (ih next later).trans (addMonomial_names first)

end Expansion

theorem Document.expand_names {d : Document} {given : Option Float} {q : Qubo R}
    (expanded : d.expand given = .ok q) :
    ∃ counts, List.Forall₂ Constraint.MayCount d.constraints counts ∧
      q.names = d.declared.names ++ slackNamesOf 0 counts := by
  obtain ⟨objective, -, expanded⟩ := exists_ok_of_bind expanded
  obtain ⟨penalty, -, expanded⟩ := exists_ok_of_bind expanded
  obtain ⟨e, added, finished⟩ := exists_ok_of_bind expanded
  obtain ⟨counts, each, names⟩ := Expansion.addConstraints_names added
  exact ⟨counts, each, (Expansion.toQubo_names finished).trans names⟩

/-! ## Looking up by name -/

omit [Coefficient R] in
theorem Qubo.indexOf?_of_nodup {q : Qubo R} (distinct : q.names.Nodup) {position : Nat}
    {name : String} (there : q.names[position]? = some name) : q.indexOf? name = some position := by
  obtain ⟨inside, rfl⟩ := List.getElem?_eq_some_iff.mp there
  refine List.idxOf?_eq_some_iff.mpr ⟨inside, rfl, fun earlier before same => ?_⟩
  have := distinct.getElem_inj_iff.mp same
  omega

omit [Coefficient R] in
theorem Solution.value?_of_nodup {s : Solution R} (distinct : (s.assignment.map (·.1)).Nodup)
    {name : String} {bit : Bool} (member : (name, bit) ∈ s.assignment) :
    s.value? name = some bit := by
  obtain ⟨before, later, split⟩ := List.append_of_mem member
  refine List.lookup_eq_some_iff.mpr ⟨before, later, split, fun entry earlier => ?_⟩
  rw [split, List.map_append, List.nodup_append] at distinct
  have := distinct.2.2 entry.1 (List.mem_map_of_mem earlier) name (by simp)
  simpa using Ne.symm this

end

/-- A solution gives a value to every variable, in their order. -/
theorem Qubo.solve_names {q : Qubo Float} {options : SolveOptions} {s : Solution Float}
    (solved : q.solve options = .ok s) : s.assignment.map (·.1) = q.names := by
  have named {method : SolveMethod} {w : Walk Float} (sized : w.best.size = q.size) :
      (q.solution method w).assignment.map (·.1) = q.names :=
    List.map_fst_zip (by rw [Array.length_toList, sized]; exact Nat.le_refl _)
  unfold solve at solved
  split at solved
  · cases solved
  · split at solved
    · cases solved
    · split at solved
      · cases solved
      · split at solved
        · cases solved
          exact named (by
            rw [Walk.exhaustive_eq_stage, Walk.stage_best_size, Couplings.size_ofQubo])
        · cases solved
          exact named (by
            rw [Walk.anneal_eq_passed, Walk.passed_best_size, Couplings.size_ofQubo])

/-- The names of an expanded document are the declared ones and then those of the
    slack variables, which are numbered by their constraint and their place in it.
    Among themselves slack names are always distinct.  All names are if and only if
    no slack name is declared, and then looking up a name leads to the variable that
    has it, in the problem and in every solution. -/
theorem Document.names_distinct {d : Document} {given : Option Float} {q : Qubo Float}
    (expanded : d.expand given = .ok q) :
    ∃ counts, List.Forall₂ Constraint.MayCount d.constraints counts ∧
      q.names = d.declared.names ++ slackNamesOf 0 counts ∧ (slackNamesOf 0 counts).Nodup ∧
      (q.names.Nodup ↔ d.declared.names.Disjoint (slackNamesOf 0 counts)) ∧
      (d.declared.names.Disjoint (slackNamesOf 0 counts) →
        ∀ position name, q.names[position]? = some name →
          q.indexOf? name = some position ∧
          ∀ options s, q.solve options = .ok s → ∃ bit,
            s.assignment[position]? = some (name, bit) ∧ s.value? name = some bit) := by
  obtain ⟨counts, each, names⟩ := d.expand_names expanded
  have slack := nodup_slackNamesOf 0 counts
  have distinct : q.names.Nodup ↔ d.declared.names.Disjoint (slackNamesOf 0 counts) := by
    rw [names, List.nodup_append']
    exact ⟨fun all => all.2.2, fun apart => ⟨d.declared.distinct, slack, apart⟩⟩
  refine ⟨counts, each, names, slack, distinct, fun apart position name there => ?_⟩
  have distinct := distinct.mpr apart
  refine ⟨Qubo.indexOf?_of_nodup distinct there, fun options s solved => ?_⟩
  have listed := Qubo.solve_names solved
  rw [← listed, List.getElem?_map, Option.map_eq_some_iff] at there
  obtain ⟨⟨name, bit⟩, assigned, rfl⟩ := there
  exact ⟨bit, assigned,
    Solution.value?_of_nodup (listed ▸ distinct) (List.mem_of_getElem? assigned)⟩

/-- Two inequalities around an equality, and a declared name that only begins like
    those of slack variables. -/
def Document.bracketed : Document where
  declared := .ofList [("_slack_1", .binary), ("b", .spin)]
  constraints := [⟨"_slack_1 + 2 * b", .atMost, 1.0⟩, ⟨"b", .equal, 1.0⟩,
    ⟨"_slack_1", .atLeast, 0.0⟩]
  objective := "_slack_1 * b"

/-- The problem has three slack variables, and every name leads to its variable. -/
theorem Document.names_distinct_bracketed :
    ∃ q : Qubo Float, bracketed.expand none = .ok q ∧
      q.names = ["_slack_1", "b", "_slack_0_0", "_slack_0_1", "_slack_2_0"] ∧
      q.names.Nodup ∧ q.indexOf? "_slack_2_0" = some 4 := by
  have run : (bracketed.expand (R := Float) none).toOption.any (fun q => q.names ==
      ["_slack_1", "b", "_slack_0_0", "_slack_0_1", "_slack_2_0"]) = true := by
    decide +kernel
  obtain ⟨q, expanded, named⟩ := exists_ok_of_any run
  have named := beq_iff_eq.mp named
  have nodup : q.names.Nodup := by
    rw [named]
    decide
  obtain ⟨counts, -, -, -, distinct, found⟩ := Document.names_distinct expanded
  exact ⟨q, expanded, named, nodup,
    (found (distinct.mp nodup) 4 "_slack_2_0" (by rw [named]; rfl)).1⟩

/-- The one declared name is that of the slack variable. -/
def Document.squatting : Document where
  declared := .ofList [("_slack_0_0", .binary)]
  constraints := [⟨"_slack_0_0", .atMost, 1.0⟩]
  objective := "1 * _slack_0_0"

/-- Two variables have one name, and looking it up does not lead to the second of
    them, whose value is another one. -/
theorem Document.squatting_names_twice :
    ∃ q : Qubo Float, squatting.expand none = .ok q ∧ ¬ q.names.Nodup ∧
      q.names[1]? = some "_slack_0_0" ∧ q.indexOf? "_slack_0_0" = some 0 ∧
      ∃ s, q.solve {} = .ok s ∧ s.assignment[1]? = some ("_slack_0_0", true) ∧
        s.value? "_slack_0_0" = some false := by
  have run : (squatting.expand (R := Float) none).toOption.any (fun q =>
      q.names == ["_slack_0_0", "_slack_0_0"] && (q.solve {}).toOption.any (fun s =>
        s.assignment == [("_slack_0_0", false), ("_slack_0_0", true)])) = true := by
    decide +kernel
  obtain ⟨q, expanded, passes⟩ := exists_ok_of_any run
  rw [Bool.and_eq_true, beq_iff_eq] at passes
  obtain ⟨named, solves⟩ := passes
  obtain ⟨s, solved, assigned⟩ := exists_ok_of_any solves
  have assigned := beq_iff_eq.mp assigned
  refine ⟨q, expanded, ?_, ?_, ?_, s, solved, ?_, ?_⟩
  · rw [named]
    decide
  · rw [named]
    rfl
  · rw [Qubo.indexOf?, named]
    decide
  · rw [assigned]
    rfl
  · rw [Solution.value?, assigned]
    decide

end StrategyQubo
