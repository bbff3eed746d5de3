import StrategyQubo.Proofs.Residuals

namespace StrategyQubo

open StrategyQubo.Script

/-! # The energy of an expansion

Expanding a document keeps its meaning: the energy of an assignment is the
value of the objective there and the penalty times the squares of what is
missing from the constraints.
-/

/-! ## Energies as totals -/

namespace Pair

def value (x : Nat → Bool) (pair : Pair) : Rat :=
  bitValue (x pair.low) * bitValue (x pair.high)

theorem value_of (x : Nat → Bool) (i j : Nat) :
    value x (.of i j) = bitValue (x i) * bitValue (x j) := by
  unfold Pair.of value
  split
  · rfl
  · exact mul_comm _ _

theorem high_of_lt {i j size : Nat} (first : i < size) (second : j < size) :
    (Pair.of i j).high < size := by
  unfold Pair.of
  split <;> assumption

end Pair

namespace Qubo

variable {q : Qubo Rat}

def Within (q : Qubo Rat) (size : Nat) : Prop :=
  ∀ term ∈ q.terms, term.1.high < size

/-- The quadratic form at an assignment. -/
def value (x : Nat → Bool) (q : Qubo Rat) : Rat :=
  q.terms.total (Pair.value x) + q.offset

theorem bothSet?_eq {bits : List Bool} {pair : Pair} (within : pair.high < bits.length) :
    bothSet? bits pair = some (assignmentOf bits pair.low && assignmentOf bits pair.high) := by
  have below := lt_of_le_of_lt pair.ordered within
  rw [bothSet?, List.getElem?_eq_getElem below, List.getElem?_eq_getElem within,
    assignmentOf_of_lt below, assignmentOf_of_lt within]
  cases bits[pair.low] <;> rfl

theorem setCoefficients?_total {bits : List Bool} {terms : Sparse Pair Rat}
    (within : ∀ term ∈ terms, term.1.high < bits.length) :
    ∃ cs, setCoefficients? bits terms = some cs ∧
      cs.sum = terms.total (Pair.value (assignmentOf bits)) := by
  induction terms with
  | nil => exact ⟨[], rfl, rfl⟩
  | cons term rest ih =>
      obtain ⟨pair, c⟩ := term
      obtain ⟨cs, later, sum⟩ := ih fun other found => within other (List.mem_cons_of_mem _ found)
      have both := bothSet?_eq (within (pair, c) List.mem_cons_self)
      rw [setCoefficients?, both, later, Sparse.total_cons, ← sum, Pair.value]
      cases assignmentOf bits pair.low <;> cases assignmentOf bits pair.high <;>
        simp [bitValue]

theorem energy?_eq {bits : List Bool} (within : q.Within bits.length) :
    q.energy? bits = some (q.value (assignmentOf bits)) := by
  obtain ⟨cs, found, sum⟩ := setCoefficients?_total within
  rw [energy?, found, value, ← sum, Option.map_some, Coefficient.sum_eq]

theorem value_addTerm (x : Nat → Bool) (i j : Nat) (c : Rat) :
    (q.addTerm i j c).value x = q.value x + c * (bitValue (x i) * bitValue (x j)) := by
  have adds : ∀ old : Option Rat, (some (old.getD 0 + c)).getD 0 = old.getD 0 + c :=
    fun old => rfl
  unfold value addTerm
  rw [Sparse.total_alter adds, Pair.value_of]
  ring

theorem value_addOffset (x : Nat → Bool) (c : Rat) :
    (q.addOffset c).value x = q.value x + c := by
  unfold value addOffset
  rw [add_assoc]

theorem Within.addTerm {i j size : Nat} (within : q.Within size) (first : i < size)
    (second : j < size) (c : Rat) : (q.addTerm i j c).Within size := by
  intro term member
  rcases Sparse.mem_alter member with kept | ⟨placed, -⟩
  · exact within term kept
  · exact placed ▸ Pair.high_of_lt first second

end Qubo

/-! ## From polynomials to quadratic problems -/

namespace Expansion

variable {q q' : Qubo Rat} {size : Nat}

/-- A term of a polynomial adds its value and keeps everything else. -/
theorem addMonomial_value {m : Monomial} {c : Rat} (fits : m.Fits size) (within : q.Within size)
    (added : addMonomial q m c = .ok q') :
    q'.names = q.names ∧ q'.Within size ∧
      ∀ x, q'.value x = q.value x + c * Monomial.value x m := by
  match m with
  | [] =>
      cases added
      exact ⟨rfl, within, fun x => by rw [Qubo.value_addOffset, Monomial.value_nil, mul_one]⟩
  | [i] =>
      cases added
      have below := fits.within i (by simp)
      refine ⟨rfl, within.addTerm below below c, fun x => ?_⟩
      rw [Qubo.value_addTerm, bitValue_mul_self, Monomial.value_cons, Monomial.value_nil, mul_one]
  | [i, j] =>
      cases added
      refine ⟨rfl, within.addTerm (fits.within i (by simp)) (fits.within j (by simp)) c,
        fun x => ?_⟩
      rw [Qubo.value_addTerm, Monomial.value_cons, Monomial.value_cons, Monomial.value_nil, mul_one]
  | _ :: _ :: _ :: _ => cases added

theorem addMonomials_value {terms : Sparse Monomial Rat}
    (fits : ∀ term ∈ terms, term.1.Fits size) (within : q.Within size)
    (added : terms.foldlM (fun q (monomial, c) => addMonomial q monomial c) q = .ok q') :
    q'.names = q.names ∧ q'.Within size ∧
      ∀ x, q'.value x = q.value x + terms.total (Monomial.value x) := by
  induction terms generalizing q with
  | nil =>
      cases added
      exact ⟨rfl, within, fun x => by simp⟩
  | cons term rest ih =>
      rw [List.foldlM_cons] at added
      obtain ⟨next, first, later⟩ := exists_ok_of_bind added
      obtain ⟨names, within', value⟩ :=
        addMonomial_value (fits term List.mem_cons_self) within first
      obtain ⟨names', within'', value'⟩ :=
        ih (fun other found => fits other (List.mem_cons_of_mem _ found)) within' later
      refine ⟨names'.trans names, within'', fun x => ?_⟩
      rw [value', value, Sparse.total_cons, add_assoc]

theorem toQubo_value {e : Expansion Rat} (canonical : e.total.Canonical e.names.length)
    (finished : e.toQubo = .ok q) :
    q.names = e.names ∧ q.Within q.size ∧ ∀ x, q.value x = e.total.value x := by
  have empty : (Qubo.ofVariables (R := Rat) e.names).Within e.names.length := by
    intro term member
    cases member
  obtain ⟨names, within, value⟩ := addMonomials_value canonical.fits empty finished
  refine ⟨names, ?_, fun x => ?_⟩
  · rw [Qubo.size, names]
    exact within
  · rw [value]
    simp [Qubo.value, Qubo.ofVariables, Polynomial.value]

end Expansion

/-! ## Constraint by constraint -/

namespace Constraint

/-- The weights of the slack variables that a constraint gets. -/
def slack (v : Variables) (c : Constraint) : List UInt64 :=
  match Polynomial.parse (R := Rat) v.polynomial? c.lhs with
  | .ok lhs => c.slackBits lhs
  | .error _ => []

/-- The left side less the bound, made up by the slack. -/
def missing? (v : Variables) (bits slackBits : List Bool) (c : Constraint) : Option Rat :=
  (textValue? (v.reading bits) c.lhs).map fun a =>
    a - Number.toRat c.rhs + c.comparison.slackSign * slackTotal (c.slack v) slackBits

end Constraint

/-- What is missing from each constraint; the slack bits of one stand before
those of the next. -/
def Variables.missing? (v : Variables) (bits : List Bool) :
    List Constraint → List Bool → Option (List Rat)
  | [], _ => some []
  | c :: rest, slackBits => do
      let first ← c.missing? v bits slackBits
      let later ← missing? v bits rest (slackBits.drop (c.slack v).length)
      pure (first :: later)

/-- The names of the slack variables of constraints numbered from `index`. -/
def Variables.slackNamesFrom (v : Variables) : Nat → List Constraint → List String
  | _, [] => []
  | index, c :: rest =>
      slackNames index (c.slack v).length ++ slackNamesFrom v (index + 1) rest

def squares (values : List Rat) : Rat :=
  (values.map (· ^ 2)).sum

@[simp] theorem squares_nil : squares [] = 0 := rfl

@[simp] theorem squares_cons (first : Rat) (rest : List Rat) :
    squares (first :: rest) = first ^ 2 + squares rest := by
  simp [squares]

namespace Expansion

variable {v : Variables} {penalty : Rat} {e e' : Expansion Rat} {index : Nat}

theorem slackNames_length (index count : Nat) : (slackNames index count).length = count := by
  simp [slackNames]

theorem addConstraint_cases {c : Constraint} (added : addConstraint v penalty index c e = .ok e') :
    ∃ lhs r weights, Polynomial.parse v.polynomial? c.lhs = .ok lhs ∧
      c.residual index lhs e.names.length = .ok (r, weights) ∧ weights = c.slack v ∧
      e' = ⟨e.names ++ slackNames index weights.length, e.total.add (r.square.scale penalty)⟩ := by
  obtain ⟨lhs, parsed, added⟩ := exists_ok_of_bind added
  obtain ⟨⟨r, weights⟩, computed, added⟩ := exists_ok_of_bind added
  cases added
  refine ⟨lhs, r, weights, parsed, computed, ?_, rfl⟩
  rw [Constraint.slack, parsed]
  exact (Constraint.residual_cases computed).1

theorem addConstraint_value {c : Constraint} (canonical : e.total.Canonical e.names.length)
    (declared : v.size ≤ e.names.length) (added : addConstraint v penalty index c e = .ok e') :
    e'.names = e.names ++ slackNames index (c.slack v).length ∧
      e'.total.Canonical e'.names.length ∧
      ∀ bits : List Bool, v.size ≤ bits.length → ∃ missing,
        c.missing? v bits (bits.drop e.names.length) = some missing ∧
        e'.total.value (assignmentOf bits) =
          e.total.value (assignmentOf bits) + penalty * missing ^ 2 := by
  obtain ⟨lhs, r, weights, parsed, computed, rfl, rfl⟩ := addConstraint_cases added
  have lhsCanonical := (Variables.parse_canonical parsed).mono declared
  have rCanonical := Constraint.residual_canonical lhsCanonical computed
  refine ⟨rfl, ?_, fun bits enough => ?_⟩
  · rw [List.length_append, slackNames_length]
    exact (canonical.mono (by omega)).add (rCanonical.square.scale penalty)
  · refine ⟨r.value (assignmentOf bits), ?_, ?_⟩
    · rw [Constraint.missing?, (v.parse_stands enough parsed).value_eq,
        Constraint.residual_value computed]
      rfl
    · rw [Polynomial.value_add, Polynomial.value_scale, Polynomial.value_square]

theorem addConstraints_value {constraints : List Constraint}
    (canonical : e.total.Canonical e.names.length) (declared : v.size ≤ e.names.length)
    (added : addConstraints v penalty index constraints e = .ok e') :
    e'.names = e.names ++ v.slackNamesFrom index constraints ∧
      e'.total.Canonical e'.names.length ∧
      ∀ bits : List Bool, v.size ≤ bits.length → ∃ missing,
        v.missing? bits constraints (bits.drop e.names.length) = some missing ∧
        e'.total.value (assignmentOf bits) =
          e.total.value (assignmentOf bits) + penalty * squares missing := by
  induction constraints generalizing index e with
  | nil =>
      cases added
      exact ⟨by simp [Variables.slackNamesFrom], canonical, fun bits _ => ⟨[], rfl, by simp⟩⟩
  | cons c rest ih =>
      obtain ⟨next, first, rest⟩ := exists_ok_of_bind added
      obtain ⟨names, nextCanonical, value⟩ := addConstraint_value canonical declared first
      have nextDeclared : v.size ≤ next.names.length := by
        rw [names, List.length_append]
        omega
      obtain ⟨names', canonical', value'⟩ := ih nextCanonical nextDeclared rest
      refine ⟨?_, canonical', fun bits enough => ?_⟩
      · rw [names', names, Variables.slackNamesFrom, List.append_assoc]
      · obtain ⟨here, missing, summed⟩ := value bits enough
        obtain ⟨later, missing', summed'⟩ := value' bits enough
        rw [names, List.length_append, slackNames_length, ← List.drop_drop] at missing'
        refine ⟨here :: later, ?_, ?_⟩
        · rw [Variables.missing?, missing, missing']
          rfl
        · rw [summed', summed, squares_cons]
          ring

end Expansion

/-! ## Whole documents -/

namespace Document

variable {d : Document} {given : Option Float} {q : Qubo Rat}

/-- The objective of a document that can be expanded. -/
def objectivePolynomial (d : Document) : Polynomial Rat :=
  match Polynomial.parse d.declared.polynomial? d.objective with
  | .ok p => p
  | .error _ => .zero

def penaltyOf (d : Document) : Option Float → Rat
  | some p => Number.toRat p
  | none => 1 + d.objectivePolynomial.weight

theorem penaltyOf_eq {penalty : Rat}
    (found : penaltyFactor d.objectivePolynomial given = .ok penalty) :
    d.penaltyOf given = penalty := by
  unfold penaltyFactor at found
  cases given with
  | none =>
      cases found
      rfl
  | some p =>
      dsimp only at found
      split at found
      · cases found
        rfl
      · cases found

theorem expand_cases (expanded : d.expand given = .ok q) :
    ∃ e, Polynomial.parse d.declared.polynomial? d.objective = .ok d.objectivePolynomial ∧
      Expansion.addConstraints d.declared (d.penaltyOf given) 0 d.constraints
        ⟨d.declared.names, d.objectivePolynomial⟩ = .ok e ∧
      e.toQubo = .ok q := by
  obtain ⟨objective, parsed, expanded⟩ := exists_ok_of_bind expanded
  obtain ⟨penalty, factor, expanded⟩ := exists_ok_of_bind expanded
  obtain ⟨e, added, finished⟩ := exists_ok_of_bind expanded
  obtain rfl : d.objectivePolynomial = objective := by rw [objectivePolynomial, parsed]
  refine ⟨e, parsed, ?_, finished⟩
  rw [penaltyOf_eq factor]
  exact added

theorem objective_stands (expanded : d.expand given = .ok q) {bits : List Bool}
    (enough : d.declared.size ≤ bits.length) :
    Polynomial.Stands d.declared.size (assignmentOf bits) d.objectivePolynomial
      (textValue? (d.declared.reading bits) d.objective) := by
  obtain ⟨e, parsed, -, -⟩ := expand_cases expanded
  exact d.declared.parse_stands enough parsed

theorem objective_canonical (expanded : d.expand given = .ok q) :
    d.objectivePolynomial.Canonical d.declared.size := by
  obtain ⟨e, parsed, -, -⟩ := expand_cases expanded
  exact Variables.parse_canonical parsed

/-- The problem that a document becomes, apart from the way there. -/
theorem expand_value (expanded : d.expand given = .ok q) :
    q.names = d.declared.names ++ d.declared.slackNamesFrom 0 d.constraints ∧
      q.Within q.size ∧
      ∀ bits : List Bool, d.declared.size ≤ bits.length → ∃ missing,
        d.declared.missing? bits d.constraints (bits.drop d.declared.size) = some missing ∧
        q.value (assignmentOf bits) =
          d.objectivePolynomial.value (assignmentOf bits) + d.penaltyOf given * squares missing := by
  obtain ⟨e, -, added, finished⟩ := expand_cases expanded
  have names : d.declared.names.length = d.declared.size := List.length_map _
  have canonical := objective_canonical expanded
  obtain ⟨allNames, totalCanonical, values⟩ :=
    Expansion.addConstraints_value (e := ⟨d.declared.names, d.objectivePolynomial⟩)
      (names.symm ▸ canonical) (le_of_eq names.symm) added
  obtain ⟨sameNames, within, value⟩ := Expansion.toQubo_value totalCanonical finished
  refine ⟨sameNames.trans allNames, within, fun bits enough => ?_⟩
  obtain ⟨missing, found, summed⟩ := values bits enough
  refine ⟨missing, ?_, ?_⟩
  · rw [← names]
    exact found
  · rw [value, summed]

theorem size_of_expand (expanded : d.expand given = .ok q) :
    q.size = d.declared.size + (d.declared.slackNamesFrom 0 d.constraints).length := by
  rw [Qubo.size, (expand_value expanded).1, List.length_append, Variables.names, List.length_map]
  rfl

/-- Expansion keeps the meaning of a document: the terms are over the variables
of the problem, which are the declared ones and then the slack variables, and
the energy of an assignment is the value of the objective and the penalty times
the squares of what is missing from the constraints. -/
theorem expand_preserves_meaning (expanded : d.expand given = .ok q) :
    (∀ term ∈ q.terms, term.1.low ≤ term.1.high ∧ term.1.high < q.size) ∧
    q.names = d.declared.names ++ d.declared.slackNamesFrom 0 d.constraints ∧
    ∀ bits : List Bool, bits.length = q.size → ∃ objective missing,
      textValue? (d.declared.reading bits) d.objective = some objective ∧
      d.declared.missing? bits d.constraints (bits.drop d.declared.size) = some missing ∧
      q.energy? bits = some (objective + d.penaltyOf given * squares missing) := by
  obtain ⟨names, within, values⟩ := expand_value expanded
  refine ⟨fun term member => ⟨term.1.ordered, within term member⟩, names, ?_⟩
  intro bits sameLength
  have enough : d.declared.size ≤ bits.length := by
    rw [sameLength, size_of_expand expanded]
    omega
  obtain ⟨missing, found, summed⟩ := values bits enough
  refine ⟨_, missing, (objective_stands expanded enough).value_eq, found, ?_⟩
  rw [Qubo.energy?_eq (sameLength.symm ▸ within), summed]

/-- A document with a spin, a quotient, a power and all three comparisons. -/
def mixed : Document where
  declared := .ofList [("a", .binary), ("s", .spin), ("b", .binary)]
  constraints := [⟨"a + b", .atLeast, 1.0⟩, ⟨"a - s", .atMost, 1.0⟩, ⟨"b / 4", .equal, 0.25⟩]
  objective := "-(s - b) ** 2 / 2 + 3 * a * s"

theorem expand_preserves_meaning_mixed :
    ∃ q : Qubo Rat, mixed.expand none = .ok q ∧ q.size = 6 ∧ mixed.penaltyOf none = 27 / 2 ∧
      ∀ bits : List Bool, bits.length = 6 → ∃ objective missing,
        textValue? (mixed.declared.reading bits) mixed.objective = some objective ∧
        mixed.declared.missing? bits mixed.constraints (bits.drop mixed.declared.size) =
          some missing ∧
        q.energy? bits = some (objective + mixed.penaltyOf none * squares missing) := by
  have run : (mixed.expand (R := Rat) none).toOption.any (fun q => q.size == 6) = true := by
    decide +kernel
  obtain ⟨q, expanded, size⟩ := exists_ok_of_any run
  have size := beq_iff_eq.mp size
  have penalty : mixed.penaltyOf none = 27 / 2 := by decide +kernel
  have meaning := expand_preserves_meaning expanded
  rw [size] at meaning
  exact ⟨q, expanded, size, penalty, meaning.2.2⟩

end Document

end StrategyQubo
