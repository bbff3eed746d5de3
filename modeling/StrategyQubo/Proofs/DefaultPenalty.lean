import StrategyQubo.Proofs.ExpansionEnergy

namespace StrategyQubo

open StrategyQubo.Script

/-! # The default penalty

Breaking a constraint costs the penalty times the square of what is missing.
As long as that is more than the weight of the objective, no assignment of
least energy breaks a constraint.
-/

/-- No other assignment of the variables has less energy. -/
def Qubo.IsMinimum (q : Qubo Rat) (bits : List Bool) : Prop :=
  bits.length = q.size ∧ ∃ least, q.energy? bits = some least ∧
    ∀ other energy, other.length = q.size → q.energy? other = some energy → least ≤ energy

/-! ## Declared bits before slack -/

theorem slackTotal_append {weights : List UInt64} {bits : List Bool}
    (enough : weights.length ≤ bits.length) (more : List Bool) :
    slackTotal weights (bits ++ more) = slackTotal weights bits := by
  induction weights generalizing bits with
  | nil => simp
  | cons weight weights ih =>
      cases bits with
      | nil => cases enough
      | cons bit bits =>
          have shorter : weights.length ≤ bits.length := Nat.le_of_succ_le_succ enough
          rw [List.cons_append, slackTotal, slackTotal, ih shorter]

theorem Variables.reading_append {v : Variables} {bits : List Bool}
    (enough : v.size ≤ bits.length) (more : List Bool) :
    v.reading (bits ++ more) = v.reading bits := by
  have same : v.entries.zip (bits ++ more) = v.entries.zip bits := by
    have longer : v.entries.length ≤ (bits ++ more).length :=
      le_trans enough (List.length_append ▸ Nat.le_add_right _ _)
    have enough : v.entries.length ≤ bits.length := enough
    rw [List.zip_eq_zip_take_min, min_eq_left longer, List.take_append_of_le_length enough,
      ← min_eq_left enough, ← List.zip_eq_zip_take_min]
  funext name
  rw [reading, reading, same]

theorem Variables.missing?_append {v : Variables} {bits : List Bool}
    (enough : v.size ≤ bits.length) (more : List Bool) (constraints : List Constraint)
    (slack : List Bool) :
    v.missing? (bits ++ more) constraints slack = v.missing? bits constraints slack := by
  induction constraints generalizing slack with
  | nil => rfl
  | cons c rest ih =>
      rw [missing?, missing?, ih, Constraint.missing?, Constraint.missing?, reading_append enough]

/-! ## One constraint -/

theorem Comparison.slackSign_sq {comparison : Comparison} (inequality : comparison ≠ equal) :
    comparison.slackSign ^ 2 = 1 := by
  cases comparison with
  | equal => exact absurd rfl inequality
  | atMost => norm_num [slackSign]
  | atLeast => norm_num [slackSign]

namespace Constraint

/-- The constraint has a left side with a residual. -/
structure Expandable (v : Variables) (c : Constraint) (lhs : Polynomial Rat) : Prop where
  parsed : Polynomial.parse v.polynomial? c.lhs = .ok lhs
  whole : c.comparison ≠ .equal →
    lhs.isIntegral = true ∧ Number.isWhole c.rhs = true ∧ 0 ≤ c.slackRange lhs

variable {v : Variables} {c : Constraint} {lhs : Polynomial Rat} {bits : List Bool}

theorem Expandable.slack_eq (expandable : c.Expandable v lhs) : c.slack v = c.slackBits lhs := by
  rw [Constraint.slack, expandable.parsed]

theorem Expandable.missing?_eq (expandable : c.Expandable v lhs) (enough : v.size ≤ bits.length)
    (slack : List Bool) :
    c.missing? v bits slack = some (lhs.value (assignmentOf bits) - Number.toRat c.rhs +
      c.comparison.slackSign * slackTotal (c.slack v) slack) := by
  rw [Constraint.missing?, (v.parse_stands enough expandable.parsed).value_eq]
  rfl

/-- What an inequality still has room for fits a word. -/
def Reaches (v : Variables) (bits : List Bool) (c : Constraint) : Prop :=
  ∀ a ∈ textValue? (v.reading bits) c.lhs,
    c.comparison.slackSign * (Number.toRat c.rhs - a) ≤ maxSlack

instance (v : Variables) (bits : List Bool) (c : Constraint) : Decidable (c.Reaches v bits) :=
  inferInstanceAs (Decidable (∀ a ∈ textValue? (v.reading bits) c.lhs, _))

/-- An equality that fails misses by enough to cost more than `weight`. -/
def Costly (v : Variables) (weight penalty : Rat) (c : Constraint) : Prop :=
  c.comparison = .equal → ∀ bits a, v.size ≤ bits.length →
    textValue? (v.reading bits) c.lhs = some a → a ≠ Number.toRat c.rhs →
      weight < penalty * (a - Number.toRat c.rhs) ^ 2

/-- Where a constraint holds, some slack leaves nothing missing. -/
theorem Expandable.exists_slack (expandable : c.Expandable v lhs) (enough : v.size ≤ bits.length)
    (holds : c.Holds v bits) (reaches : c.Reaches v bits) :
    ∃ slack : List Bool, slack.length = (c.slack v).length ∧
      ∀ more, c.missing? v bits (slack ++ more) = some 0 := by
  have stands := v.parse_stands enough expandable.parsed
  have relates := (holds_iff enough expandable.parsed).mp holds
  have room := reaches _ stands.value_eq
  suffices balanced : ∃ slack : List Bool, slack.length = (c.slack v).length ∧
      lhs.value (assignmentOf bits) - Number.toRat c.rhs +
        c.comparison.slackSign * slackTotal (c.slack v) slack = 0 by
    obtain ⟨slack, sameLength, balance⟩ := balanced
    refine ⟨slack, sameLength, fun more => ?_⟩
    rw [expandable.missing?_eq enough, slackTotal_append (le_of_eq sameLength.symm), balance]
  by_cases equality : c.comparison = .equal
  · rw [equality] at relates ⊢
    refine ⟨List.replicate (c.slack v).length false, by simp, ?_⟩
    rw [relates, Comparison.slackSign, zero_mul, sub_self, add_zero]
  · obtain ⟨integral, whole, possible⟩ := expandable.whole equality
    rw [expandable.slack_eq]
    exact (exists_balance_iff equality stands.canonical integral whole possible _).mpr
      ⟨relates, room⟩

theorem weight_lt_of_one_le {weight missing : Rat} (nonneg : 0 ≤ weight)
    (apart : 1 ≤ missing ^ 2) : weight < (1 + weight) * missing ^ 2 :=
  calc weight < 1 + weight := by linarith
    _ ≤ (1 + weight) * missing ^ 2 := le_mul_of_one_le_right (by linarith) apart

theorem one_le_sq_intCast {k : Int} (nonzero : k ≠ 0) : (1 : Rat) ≤ (k : Rat) ^ 2 := by
  have square : 1 ≤ k ^ 2 := (one_le_sq_iff_one_le_abs _).mpr (Int.one_le_abs nonzero)
  exact_mod_cast square

/-- An equality between integers misses by at least one. -/
theorem costly_of_integral {weight : Rat} (nonneg : 0 ≤ weight)
    (parsed : Polynomial.parse v.polynomial? c.lhs = .ok lhs) (integral : lhs.isIntegral = true)
    (whole : Number.isWhole c.rhs = true) : c.Costly v weight (1 + weight) := by
  intro _ bits a enough read apart
  rw [(v.parse_stands enough parsed).value_eq] at read
  obtain rfl := Option.some.inj read
  obtain ⟨k, left⟩ := Polynomial.exists_int_value integral (assignmentOf bits)
  obtain ⟨l, right⟩ := Number.exists_int_of_isWhole whole
  rw [left, right] at apart ⊢
  have nonzero : k - l ≠ 0 := fun same => apart (by rw [sub_eq_zero.mp same])
  refine weight_lt_of_one_le nonneg ?_
  rw [← Int.cast_sub]
  exact one_le_sq_intCast nonzero

/-- Where a constraint is broken, what is missing costs more than the weight
whatever the slack. -/
theorem Expandable.weight_lt (expandable : c.Expandable v lhs) (enough : v.size ≤ bits.length)
    {weight : Rat} (nonneg : 0 ≤ weight) (costly : c.Costly v weight (1 + weight))
    (broken : ¬ c.Holds v bits) {slack : List Bool} {missing : Rat}
    (found : c.missing? v bits slack = some missing) :
    weight < (1 + weight) * missing ^ 2 := by
  have stands := v.parse_stands enough expandable.parsed
  rw [expandable.missing?_eq enough] at found
  obtain rfl := Option.some.inj found
  rw [holds_iff enough expandable.parsed] at broken
  by_cases equality : c.comparison = .equal
  · rw [equality] at broken
    have apart := costly equality bits _ enough stands.value_eq broken
    rw [equality, Comparison.slackSign, zero_mul, add_zero]
    exact apart
  · obtain ⟨integral, whole, -⟩ := expandable.whole equality
    obtain ⟨k, room⟩ := exists_int_room integral whole (assignmentOf bits)
    rw [Comparison.relates_iff equality, room] at broken
    have below : (k : Rat) ≤ -1 := by
      have negative : k < 0 := by simpa using broken
      exact_mod_cast Int.le_sub_one_of_lt negative
    have unit := Comparison.slackSign_sq equality
    have total : (0 : Rat) ≤ slackTotal (c.slack v) slack := Nat.cast_nonneg _
    have apart : 1 ≤ (c.comparison.slackSign * (lhs.value (assignmentOf bits) -
        Number.toRat c.rhs + c.comparison.slackSign * slackTotal (c.slack v) slack)) ^ 2 := by
      refine one_le_pow₀ ?_
      nlinarith
    rw [mul_pow, unit, one_mul] at apart
    exact weight_lt_of_one_le nonneg apart

end Constraint

/-! ## All constraints -/

theorem Expansion.addConstraints_expandable {v : Variables} {penalty : Rat} {index : Nat}
    {constraints : List Constraint} {e e' : Expansion Rat}
    (added : addConstraints v penalty index constraints e = .ok e') {c : Constraint}
    (member : c ∈ constraints) : ∃ lhs, c.Expandable v lhs := by
  induction constraints generalizing index e with
  | nil => cases member
  | cons head rest ih =>
      obtain ⟨next, first, later⟩ := exists_ok_of_bind added
      rcases List.mem_cons.mp member with rfl | behind
      · obtain ⟨lhs, r, weights, parsed, computed, -, -⟩ := addConstraint_cases first
        exact ⟨lhs, parsed, (Constraint.residual_cases computed).2.1⟩
      · exact ih later behind

namespace Variables

variable {v : Variables} {bits : List Bool} {constraints : List Constraint}

theorem slackNamesFrom_length_cons (index : Nat) (c : Constraint) (rest : List Constraint) :
    (v.slackNamesFrom index (c :: rest)).length =
      (c.slack v).length + (v.slackNamesFrom (index + 1) rest).length := by
  rw [slackNamesFrom, List.length_append, Expansion.slackNames_length]

/-- Where all constraints hold, some slack leaves nothing missing from any. -/
theorem exists_slack_of_holds (enough : v.size ≤ bits.length)
    (expandable : ∀ c ∈ constraints, ∃ lhs, c.Expandable v lhs)
    (holds : ∀ c ∈ constraints, c.Holds v bits)
    (reaches : ∀ c ∈ constraints, c.Reaches v bits) (index : Nat) :
    ∃ slack : List Bool, slack.length = (v.slackNamesFrom index constraints).length ∧
      ∃ missing, v.missing? bits constraints slack = some missing ∧ squares missing = 0 := by
  induction constraints generalizing index with
  | nil => exact ⟨[], rfl, [], rfl, rfl⟩
  | cons c rest ih =>
      obtain ⟨lhs, first⟩ := expandable c List.mem_cons_self
      obtain ⟨here, hereLength, balanced⟩ := first.exists_slack enough
        (holds c List.mem_cons_self) (reaches c List.mem_cons_self)
      obtain ⟨later, laterLength, missing, found, vanish⟩ :=
        ih (fun other behind => expandable other (List.mem_cons_of_mem _ behind))
          (fun other behind => holds other (List.mem_cons_of_mem _ behind))
          (fun other behind => reaches other (List.mem_cons_of_mem _ behind)) (index + 1)
      refine ⟨here ++ later, ?_, 0 :: missing, ?_, ?_⟩
      · rw [slackNamesFrom_length_cons, List.length_append, hereLength, laterLength]
      · rw [missing?, balanced, ← hereLength, List.drop_left, found]
        rfl
      · simp [vanish]

theorem exists_missing_of_mem {slack : List Bool} {missing : List Rat}
    (found : v.missing? bits constraints slack = some missing) {c : Constraint}
    (member : c ∈ constraints) :
    ∃ here m, c.missing? v bits here = some m ∧ m ∈ missing := by
  induction constraints generalizing slack missing with
  | nil => cases member
  | cons head rest ih =>
      obtain ⟨first, read, found⟩ := Option.bind_eq_some_iff.mp found
      obtain ⟨later, behind, same⟩ := Option.bind_eq_some_iff.mp found
      obtain rfl := Option.some.inj same
      rcases List.mem_cons.mp member with rfl | other
      · exact ⟨slack, first, read, List.mem_cons_self⟩
      · obtain ⟨here, m, read, kept⟩ := ih behind other
        exact ⟨here, m, read, List.mem_cons_of_mem _ kept⟩

end Variables

theorem sq_le_squares {missing : List Rat} {m : Rat} (member : m ∈ missing) :
    m ^ 2 ≤ squares missing := by
  refine List.single_le_sum (fun square found => ?_) _ (List.mem_map_of_mem member)
  obtain ⟨other, -, rfl⟩ := List.mem_map.mp found
  exact sq_nonneg other

/-! ## Assignments of least energy -/

namespace Document

variable {d : Document} {q : Qubo Rat} {bits : List Bool}

def Satisfied (d : Document) (bits : List Bool) : Prop :=
  ∀ c ∈ d.constraints, c.Holds d.declared bits

instance (d : Document) (bits : List Bool) : Decidable (d.Satisfied bits) :=
  inferInstanceAs (Decidable (∀ c ∈ d.constraints, c.Holds d.declared bits))

/-- Where every constraint holds within reach, some slack leaves only the
objective as energy. -/
theorem exists_energy_of_satisfied (expanded : d.expand none = .ok q)
    (sameLength : bits.length = d.declared.size) (satisfied : d.Satisfied bits)
    (reaches : ∀ c ∈ d.constraints, c.Reaches d.declared bits) :
    ∃ slack, (bits ++ slack).length = q.size ∧
      q.energy? (bits ++ slack) = some (d.objectivePolynomial.value (assignmentOf bits)) := by
  obtain ⟨e, -, added, -⟩ := expand_cases expanded
  obtain ⟨-, within, values⟩ := expand_value expanded
  have enough : d.declared.size ≤ bits.length := le_of_eq sameLength.symm
  obtain ⟨slack, slackLength, missing, found, vanish⟩ :=
    Variables.exists_slack_of_holds enough
      (fun c member => Expansion.addConstraints_expandable added member) satisfied reaches 0
  have fullLength : (bits ++ slack).length = q.size := by
    rw [size_of_expand expanded, List.length_append, sameLength, slackLength]
  refine ⟨slack, fullLength, ?_⟩
  have longer : d.declared.size ≤ (bits ++ slack).length := by
    rw [List.length_append]
    omega
  obtain ⟨missing', found', summed⟩ := values (bits ++ slack) longer
  rw [← sameLength, List.drop_left, Variables.missing?_append enough, found] at found'
  obtain rfl := Option.some.inj found'
  rw [Qubo.energy?_eq (fullLength.symm ▸ within), summed, vanish, mul_zero, add_zero,
    (objective_canonical expanded).value_append enough]

/-- An assignment that breaks a constraint has more energy than the objective
has anywhere. -/
theorem objective_lt_of_broken (expanded : d.expand none = .ok q)
    (sameLength : bits.length = q.size)
    (costly : ∀ c ∈ d.constraints,
      c.Costly d.declared d.objectivePolynomial.weight (d.penaltyOf none))
    (broken : ¬ d.Satisfied bits) (x : Nat → Bool) :
    ∃ energy, q.energy? bits = some energy ∧ d.objectivePolynomial.value x < energy := by
  obtain ⟨e, -, added, -⟩ := expand_cases expanded
  obtain ⟨-, within, values⟩ := expand_value expanded
  have enough : d.declared.size ≤ bits.length := by
    rw [sameLength, size_of_expand expanded]
    omega
  obtain ⟨missing, found, summed⟩ := values bits enough
  refine ⟨_, Qubo.energy?_eq (sameLength.symm ▸ within), ?_⟩
  unfold Satisfied at broken
  push Not at broken
  obtain ⟨c, member, breaks⟩ := broken
  obtain ⟨lhs, expandable⟩ := Expansion.addConstraints_expandable added member
  obtain ⟨here, m, read, kept⟩ := Variables.exists_missing_of_mem found member
  have nonneg := d.objectivePolynomial.weight_nonneg
  have cost := expandable.weight_lt enough nonneg (costly c member) breaks read
  have gain := (objective_canonical expanded).value_le x (assignmentOf bits)
  rw [summed]
  calc d.objectivePolynomial.value x
      ≤ d.objectivePolynomial.value (assignmentOf bits) + d.objectivePolynomial.weight := gain
    _ < d.objectivePolynomial.value (assignmentOf bits) +
          (1 + d.objectivePolynomial.weight) * m ^ 2 := add_lt_add_right cost _
    _ ≤ d.objectivePolynomial.value (assignmentOf bits) + d.penaltyOf none * squares missing :=
        add_le_add_right (mul_le_mul_of_nonneg_left (sq_le_squares kept) (by linarith)) _

/-- With the default penalty an assignment of least energy satisfies every
constraint, as long as all of them can be satisfied at once with room that fits
a word, and no equality fails by so little that breaking it pays. -/
theorem satisfied_of_isMinimum (expanded : d.expand none = .ok q)
    (costly : ∀ c ∈ d.constraints,
      c.Costly d.declared d.objectivePolynomial.weight (d.penaltyOf none))
    (satisfiable : ∃ bits : List Bool, bits.length = d.declared.size ∧ d.Satisfied bits ∧
      ∀ c ∈ d.constraints, c.Reaches d.declared bits)
    (minimum : q.IsMinimum bits) : d.Satisfied bits := by
  obtain ⟨sameLength, least, energy, lowest⟩ := minimum
  obtain ⟨good, goodLength, satisfied, reaches⟩ := satisfiable
  obtain ⟨slack, fullLength, reached⟩ :=
    exists_energy_of_satisfied expanded goodLength satisfied reaches
  by_contra broken
  obtain ⟨energy', found, more⟩ :=
    objective_lt_of_broken expanded sameLength costly broken (assignmentOf good)
  obtain rfl := Option.some.inj (energy.symm.trans found)
  exact absurd (lowest _ _ fullLength reached) (not_le.mpr more)

/-- A spin and all three comparisons, with an equality between integers. -/
def balanced : Document where
  declared := .ofList [("a", .binary), ("s", .spin), ("b", .binary)]
  constraints := [⟨"a + b", .atLeast, 1.0⟩, ⟨"a - s", .atMost, 1.0⟩, ⟨"b + s", .equal, 0.0⟩]
  objective := "-(s - b) ** 2 / 2 + 3 * a * s"

theorem satisfied_of_isMinimum_balanced :
    ∃ q : Qubo Rat, balanced.expand none = .ok q ∧ balanced.penaltyOf none = 27 / 2 ∧
      balanced.Satisfied [false, false, true] ∧
      ∀ bits, q.IsMinimum bits → balanced.Satisfied bits := by
  have run : (balanced.expand (R := Rat) none).toOption.any (fun q => q.size == 6) = true := by
    decide +kernel
  obtain ⟨q, expanded, -⟩ := exists_ok_of_any run
  have penalty : balanced.penaltyOf none = 27 / 2 := by decide +kernel
  have satisfied : balanced.Satisfied [false, false, true] := by decide +kernel
  have reaches : ∀ c ∈ balanced.constraints, c.Reaches balanced.declared [false, false, true] := by
    decide +kernel
  have integral : (Polynomial.parse (R := Rat) balanced.declared.polynomial? "b + s").toOption.any
      Polynomial.isIntegral = true := by
    decide +kernel
  have costly : ∀ c ∈ balanced.constraints,
      c.Costly balanced.declared balanced.objectivePolynomial.weight (balanced.penaltyOf none) := by
    intro c member equality
    have last : c = ⟨"b + s", .equal, 0.0⟩ := by
      simp only [balanced, List.mem_cons, List.not_mem_nil, or_false] at member
      rcases member with rfl | rfl | rfl
      · cases equality
      · cases equality
      · rfl
    subst last
    obtain ⟨lhs, parsed, integral⟩ := exists_ok_of_any integral
    exact Constraint.costly_of_integral (Polynomial.weight_nonneg _) parsed integral
      (by decide +kernel) equality
  exact ⟨q, expanded, penalty, satisfied, fun bits minimum =>
    satisfied_of_isMinimum expanded costly ⟨_, rfl, satisfied, reaches⟩ minimum⟩

/-- An equality that fails by a half. -/
def halved : Document where
  declared := .ofList [("a", .binary)]
  constraints := [⟨"0.5 * a", .equal, 0.0⟩]
  objective := "-1 * a"

/-- The equality costs a half where it fails, and the objective gains one. -/
theorem halved_minimum_breaks :
    ∃ q : Qubo Rat, halved.expand none = .ok q ∧ halved.Satisfied [false] ∧
      q.IsMinimum [true] ∧ ¬ halved.Satisfied [true] := by
  have run : (halved.expand (R := Rat) none).toOption.any (fun q => q.size == 1 &&
      q.energy? [true] == some (-1 / 2) && q.energy? [false] == some 0) = true := by
    decide +kernel
  obtain ⟨q, expanded, checked⟩ := exists_ok_of_any run
  simp only [Bool.and_eq_true, beq_iff_eq] at checked
  obtain ⟨⟨size, set⟩, unset⟩ := checked
  refine ⟨q, expanded, by decide +kernel, ⟨size.symm, _, set, ?_⟩, by decide +kernel⟩
  intro other energy sameLength found
  rw [size] at sameLength
  obtain ⟨bit, rfl⟩ := List.length_eq_one_iff.mp sameLength
  cases bit with
  | false =>
      obtain rfl := Option.some.inj (unset.symm.trans found)
      norm_num
  | true => exact le_of_eq (Option.some.inj (set.symm.trans found))

end Document

end StrategyQubo
