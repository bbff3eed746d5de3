import Mathlib.Data.List.Sym
import StrategyQubo.Proofs.WeightDocuments

namespace StrategyQubo

open StrategyQubo.Script

/-! # The cheapest cell

The document of weights, expanded, has the weights as energy together with the
penalty of choosing another number of cells than one.  An assignment of least
energy chooses one cell, and none weighs less.
-/

/-! ## Pairs as monomials -/

namespace Variables

variable {v : Variables} {first second : String}

theorem mul_names_comm (v : Variables) (first second : String) :
    Monomial.mul [v.names.idxOf first] [v.names.idxOf second] =
      Monomial.mul [v.names.idxOf second] [v.names.idxOf first] := by
  change Monomial.insert _ [_] = Monomial.insert _ [_]
  simp only [Monomial.insert]
  grind

/-- The product of the two variables, which is one of them if they are the
same. -/
def pairMonomial (v : Variables) : Sym2 String → Monomial :=
  Sym2.lift ⟨fun first second => Monomial.mul [v.names.idxOf first] [v.names.idxOf second],
    v.mul_names_comm⟩

theorem pairMonomial_mk (v : Variables) (first second : String) :
    v.pairMonomial s(first, second) =
      Monomial.insert (v.names.idxOf first) [v.names.idxOf second] := rfl

theorem monomial_single (v : Variables) (name : String) :
    v.monomial [name] = v.pairMonomial s(name, name) := by
  rw [pairMonomial_mk, Monomial.insert, if_pos rfl]
  rfl

theorem monomial_pair (v : Variables) (first second : String) :
    v.monomial [first, second] = v.pairMonomial s(first, second) := rfl

theorem mem_pairMonomial {i : Nat} {z : Sym2 String} :
    i ∈ v.pairMonomial z ↔ ∃ name ∈ z, v.names.idxOf name = i := by
  induction z with
  | h first second =>
      rw [pairMonomial_mk, Monomial.mem_insert, List.mem_singleton]
      simp [eq_comm]

theorem idxOf_mem_pairMonomial (v : Variables) {name : String} {z : Sym2 String}
    (among : name ∈ z) : v.names.idxOf name ∈ v.pairMonomial z :=
  mem_pairMonomial.mpr ⟨name, among, rfl⟩

theorem pairMonomial_ne_nil (v : Variables) (z : Sym2 String) : v.pairMonomial z ≠ [] := by
  induction z with
  | h first second =>
      exact List.ne_nil_of_mem (v.idxOf_mem_pairMonomial (Sym2.mem_mk_left first second))

theorem pairMonomial_inj {z z' : Sym2 String} (member : z ∈ v.names.sym2) :
    v.pairMonomial z = v.pairMonomial z' ↔ z = z' := by
  refine ⟨fun same => Sym2.ext fun name => ?_, congrArg _⟩
  have declared := List.mem_sym2_iff.mp member
  constructor
  · intro among
    obtain ⟨other, found, place⟩ := mem_pairMonomial.mp (same ▸ v.idxOf_mem_pairMonomial among)
    rwa [(List.idxOf_inj (declared name among)).mp place.symm]
  · intro among
    obtain ⟨other, found, place⟩ :=
      mem_pairMonomial.mp (same.symm ▸ v.idxOf_mem_pairMonomial among)
    rwa [← (List.idxOf_inj (declared other found)).mp place]

theorem pairMonomial_value (x : Nat → Bool) (first second : String) :
    Monomial.value x (v.pairMonomial s(first, second)) =
      bitValue (x (v.names.idxOf first)) * bitValue (x (v.names.idxOf second)) := by
  rw [pairMonomial_mk, Monomial.value_insert, Monomial.value_cons, Monomial.value_nil, mul_one]

end Variables

/-! ## Absolute coefficients -/

/-- Over keys that include those of the entries, the absolute totals are the
absolute coefficients. -/
theorem Sparse.sum_magnitudes {K : Type} [DecidableEq K] {entries : Sparse K Rat}
    (distinct : (entries.map (·.1)).Nodup) {keys : List K} (nodup : keys.Nodup)
    (covered : ∀ entry ∈ entries, entry.1 ∈ keys) :
    (entries.map fun entry => |entry.2|).sum =
      (keys.map fun key => |entries.total (indicator key)|).sum := by
  induction entries with
  | nil => simp
  | cons entry rest ih =>
      -- The key of the head is not in the rest, so the head adds to one total that was zero.
      obtain ⟨own, c⟩ := entry
      obtain ⟨fresh, distinct⟩ := List.nodup_cons.mp distinct
      have absent : Sparse.total (indicator own) rest = 0 :=
        total_indicator_eq_zero fun later found same =>
          fresh (List.mem_map.mpr ⟨later, found, same⟩)
      have split : ∀ key, |Sparse.total (indicator key) ((own, c) :: rest)| =
          (if key = own then |c| else 0) + |Sparse.total (indicator key) rest| := by
        intro key
        rw [total_cons, indicator]
        by_cases same : key = own
        · rw [if_pos same.symm, if_pos same, same, absent]
          simp
        · rw [if_neg fun other => same other.symm, if_neg same]
          simp
      have once : (keys.map fun key => if key = own then |c| else 0).sum = |c| := by
        rw [List.sum_map_ite_eq, List.count_eq_one_of_mem nodup (covered _ List.mem_cons_self)]
        simp
      rw [List.map_cons, List.sum_cons, ih distinct fun later found =>
        covered later (List.mem_cons_of_mem _ found)]
      simp only [split]
      rw [List.sum_map_add, once]

namespace Polynomial

variable {size : Nat} {p : Polynomial Rat}

theorem Canonical.nodup (canonical : p.Canonical size) : (p.terms.map (·.1)).Nodup :=
  List.pairwise_map.mpr (canonical.sorted.imp fun before => ne_of_lt before)

theorem Canonical.weight_eq_sum (canonical : p.Canonical size) {keys : List Monomial}
    (nodup : keys.Nodup) (filled : ∀ key ∈ keys, key ≠ [])
    (covered : ∀ term ∈ p.openTerms, p.terms.total (indicator term.1) ≠ 0 → term.1 ∈ keys) :
    p.weight = (keys.map fun key => |p.terms.total (indicator key)|).sum := by
  have openDistinct : (p.openTerms.map (·.1)).Nodup :=
    canonical.nodup.sublist (List.filter_sublist.map _)
  rw [weight_eq, Sparse.sum_magnitudes openDistinct nodup]
  · refine congrArg List.sum (List.map_congr_left fun key member => ?_)
    rw [canonical.total_eq, indicator, if_neg (filled key member).symm, mul_zero, zero_add]
  · intro term member
    have among := List.mem_of_mem_filter member
    refine covered term member ?_
    rw [Sparse.total_indicator_of_mem canonical.nodup among]
    exact canonical.nonzero term among

end Polynomial

/-! ## Bits by name -/

namespace Bits

theorem assignmentOf_idxOf {names : List String} {name : String} (member : name ∈ names)
    (b : String → Bool) : assignmentOf (names.map b) (names.idxOf name) = b name := by
  have place := List.idxOf_lt_length_of_mem member
  rw [assignmentOf_of_lt (by simpa using place), List.getElem_map, List.getElem_idxOf]

theorem exists_map_eq {names : List String} (nodup : names.Nodup) {bits : List Bool}
    (sameLength : bits.length = names.length) : ∃ b : String → Bool, bits = names.map b := by
  refine ⟨fun name => assignmentOf bits (names.idxOf name), List.ext_getElem (by simpa) ?_⟩
  intro i within inNames
  rw [List.getElem_map, nodup.idxOf_getElem i, assignmentOf_of_lt within]

theorem sum_eq (b : String → Bool) (names : List String) :
    (names.map fun name => bitValue (b name)).sum = ((names.filter b).length : Rat) := by
  induction names with
  | nil => simp
  | cons name rest ih =>
      rw [List.map_cons, List.sum_cons, ih, List.filter_cons]
      cases b name with
      | false => simp [bitValue]
      | true =>
          simp [bitValue]
          ring

/-- Of bits that choose one name only that of the name is set. -/
theorem map_eq_of_filter_eq {b : String → Bool} {names : List String} {name : String}
    (alone : names.filter b = [name]) : name ∈ names ∧ names.map b = names.map (· == name) := by
  have chosen := List.mem_filter.mp (alone ▸ List.mem_singleton_self name : name ∈ names.filter b)
  refine ⟨chosen.1, List.map_congr_left fun other member => ?_⟩
  by_cases same : other = name
  · rw [same, chosen.2, beq_self_eq_true]
  · rw [beq_eq_false_iff_ne.mpr same]
    by_contra set
    have among : other ∈ names.filter b := List.mem_filter.mpr ⟨member, by simpa using set⟩
    rw [alone] at among
    exact same (List.mem_singleton.mp among)

theorem sum_single {names : List String} (nodup : names.Nodup) {name : String}
    (member : name ∈ names) : (names.map fun other => bitValue (other == name)).sum = 1 := by
  rw [sum_eq (· == name), List.filter_beq, List.count_eq_one_of_mem nodup member]
  rfl

end Bits

/-! ## Documents that choose a cell -/

namespace Document.Chooses

variable {d : Document} {products : List (Float × List String)} {q : Qubo Rat}

theorem objectivePolynomial_eq (chooses : d.Chooses products) :
    Polynomial.parse d.declared.polynomial? d.objective = .ok d.objectivePolynomial ∧
      d.objectivePolynomial.degree ≤ 2 ∧
      ∀ weigh, d.objectivePolynomial.terms.total weigh =
        d.declared.productTotal weigh products := by
  obtain ⟨entries, sum, totals⟩ := chooses.objective
  obtain ⟨p, parsed, small, total⟩ := sum.parse_eq
  have same : d.objectivePolynomial = p := by rw [objectivePolynomial, parsed]
  rw [same]
  exact ⟨parsed, small, fun weigh => (total weigh).trans (totals weigh)⟩

/-- The constraint adds up the bits. -/
theorem exists_lhs (chooses : d.Chooses products) :
    ∃ lhs, Expansion.Linear d.declared (.exactlyOne d.declared.names) lhs ∧
      ∀ b : String → Bool, lhs.value (assignmentOf (d.declared.names.map b)) =
        (d.declared.names.map fun name => bitValue (b name)).sum := by
  obtain ⟨lhs, parsed, small, total⟩ := (chooses.cells.isSum_names chooses.declares).parse_eq
  refine ⟨lhs, ⟨rfl, parsed, small⟩, fun b => ?_⟩
  rw [Polynomial.value, total, Sparse.total, List.map_map]
  refine congrArg List.sum (List.map_congr_left fun name member => ?_)
  simp [Bits.assignmentOf_idxOf member]

theorem expand_isOk (chooses : d.Chooses products) : ∃ q : Qubo Rat, d.expand none = .ok q := by
  obtain ⟨parsed, small, -⟩ := chooses.objectivePolynomial_eq
  obtain ⟨lhs, linear, -⟩ := chooses.exists_lhs
  refine Document.expand_isOk parsed small fun c member => ⟨lhs, ?_⟩
  rw [chooses.constraints] at member
  rw [List.mem_singleton.mp member]
  exact linear

theorem slack_eq (chooses : d.Chooses products) :
    (Constraint.exactlyOne d.declared.names).slack d.declared = [] := by
  obtain ⟨lhs, linear, -⟩ := chooses.exists_lhs
  rw [Constraint.slack, linear.parsed]
  rfl

theorem names_eq (chooses : d.Chooses products) (expanded : d.expand none = .ok q) :
    q.names = d.declared.names := by
  rw [(expand_value expanded).1, chooses.constraints, Variables.slackNamesFrom, chooses.slack_eq]
  simp [Variables.slackNamesFrom, slackNames]

/-- What is missing is one cell less than are chosen. -/
theorem missing?_eq (chooses : d.Chooses products) (b : String → Bool) (slack : List Bool) :
    d.declared.missing? (d.declared.names.map b) d.constraints slack =
      some [(d.declared.names.map fun name => bitValue (b name)).sum - 1] := by
  obtain ⟨lhs, linear, value⟩ := chooses.exists_lhs
  have expandable : (Constraint.exactlyOne d.declared.names).Expandable d.declared lhs :=
    ⟨linear.parsed, fun inequality => absurd rfl inequality⟩
  have enough : d.declared.size ≤ (d.declared.names.map b).length := by
    simp [Variables.size, Variables.names]
  have one : Number.toRat (Constraint.exactlyOne d.declared.names).rhs = 1 := by
    change Number.toRat 1.0 = 1
    decide +kernel
  have nothing : (Constraint.exactlyOne d.declared.names).comparison.slackSign = 0 := rfl
  rw [chooses.constraints, Variables.missing?, expandable.missing?_eq enough, one, nothing,
    zero_mul, add_zero, value]
  rfl

theorem energy_eq (chooses : d.Chooses products) (expanded : d.expand none = .ok q)
    (b : String → Bool) :
    q.energy? (d.declared.names.map b) =
      some (d.objectivePolynomial.value (assignmentOf (d.declared.names.map b)) +
        d.penaltyOf none * ((d.declared.names.map fun name => bitValue (b name)).sum - 1) ^ 2) := by
  obtain ⟨-, within, values⟩ := expand_value expanded
  have sameLength : (d.declared.names.map b).length = q.size := by
    rw [Qubo.size, chooses.names_eq expanded, List.length_map]
  have enough : d.declared.size ≤ (d.declared.names.map b).length := by
    simp [Variables.size, Variables.names]
  obtain ⟨missing, found, summed⟩ := values _ enough
  rw [chooses.missing?_eq] at found
  obtain rfl := Option.some.inj found
  rw [Qubo.energy?_eq (sameLength ▸ within), summed, squares_cons, squares_nil, add_zero]

/-- An assignment of least energy chooses one cell, and choosing another is
worth no more to the objective. -/
theorem isMinimum_cases (chooses : d.Chooses products) (expanded : d.expand none = .ok q)
    {bits : List Bool} (minimum : q.IsMinimum bits) :
    ∃ name ∈ d.declared.names, bits = d.declared.names.map (· == name) ∧
      ∀ other ∈ d.declared.names,
        d.objectivePolynomial.value (assignmentOf (d.declared.names.map (· == name))) ≤
          d.objectivePolynomial.value (assignmentOf (d.declared.names.map (· == other))) := by
  obtain ⟨sameLength, least, reached, lowest⟩ := minimum
  have nodup : d.declared.names.Nodup := d.declared.distinct
  rw [Qubo.size, chooses.names_eq expanded] at sameLength lowest
  obtain ⟨b, rfl⟩ := Bits.exists_map_eq nodup sameLength
  obtain rfl := Option.some.inj ((chooses.energy_eq expanded b).symm.trans reached)
  rw [Bits.sum_eq] at lowest
  have atMost : ∀ other ∈ d.declared.names,
      d.objectivePolynomial.value (assignmentOf (d.declared.names.map b)) +
          d.penaltyOf none * (((d.declared.names.filter b).length : Rat) - 1) ^ 2 ≤
        d.objectivePolynomial.value (assignmentOf (d.declared.names.map (· == other))) := by
    intro other found
    refine lowest (d.declared.names.map (· == other)) _ (List.length_map _) ?_
    rw [chooses.energy_eq expanded, Bits.sum_single nodup found]
    simp
  -- Any other number costs more than the objective gains anywhere.
  have one : (d.declared.names.filter b).length = 1 := by
    by_contra several
    obtain ⟨other, found⟩ := List.exists_mem_of_ne_nil _ chooses.declares
    have gain := (objective_canonical expanded).value_le
      (assignmentOf (d.declared.names.map (· == other))) (assignmentOf (d.declared.names.map b))
    have apart := Constraint.one_le_sq_intCast
      (k := (d.declared.names.filter b).length - 1) (by omega)
    push_cast at apart
    have cost := Constraint.weight_lt_of_one_le d.objectivePolynomial.weight_nonneg apart
    exact absurd (atMost other found) (not_le.mpr (lt_of_le_of_lt gain (add_lt_add_right cost _)))
  obtain ⟨name, alone⟩ := List.length_eq_one_iff.mp one
  obtain ⟨member, chosen⟩ := Bits.map_eq_of_filter_eq alone
  refine ⟨name, member, chosen, fun other found => ?_⟩
  have least := atMost other found
  rw [one, chosen] at least
  simpa using least

end Document.Chooses

/-! ## Weights -/

namespace Weights

variable {w : Weights} {pairs : List ((String × String) × Float)}

/-- The weights, each times the bits of its variables. -/
def cost (w : Weights) (pairs : List ((String × String) × Float)) (b : String → Bool) : Rat :=
  (w.linear.map fun entry =>
    Number.toRat entry.2 * bitValue (b (cellVariable entry.1))).sum +
  (pairs.map fun entry =>
    Number.toRat entry.2 *
      (bitValue (b (cellVariable entry.1.1)) * bitValue (b (cellVariable entry.1.2)))).sum

/-- The sum of the weights of one pair of variables; a linear weight is one of
a variable with itself. -/
def merged (w : Weights) (pairs : List ((String × String) × Float)) (z : Sym2 String) : Rat :=
  (w.linear.map fun entry =>
    if s(cellVariable entry.1, cellVariable entry.1) = z then Number.toRat entry.2 else 0).sum +
  (pairs.map fun entry =>
    if s(cellVariable entry.1.1, cellVariable entry.1.2) = z then Number.toRat entry.2 else 0).sum

/-- One more than the magnitudes of the merged weights. -/
def penalty (w : Weights) (pairs : List ((String × String) × Float)) : Rat :=
  1 + (w.document.declared.names.sym2.map fun z => |w.merged pairs z|).sum

theorem productTotal_products (v : Variables) (weigh : Monomial → Rat) :
    v.productTotal weigh (w.products pairs) =
      (w.linear.map fun entry => Number.toRat entry.2 *
        weigh (v.pairMonomial s(cellVariable entry.1, cellVariable entry.1))).sum +
      (pairs.map fun entry => Number.toRat entry.2 *
        weigh (v.pairMonomial s(cellVariable entry.1.1, cellVariable entry.1.2))).sum := by
  rw [Variables.productTotal, products, List.map_append, List.sum_append, linearProducts,
    pairProducts, List.map_map, List.map_map]
  simp only [Function.comp_def, Variables.monomial_single, Variables.monomial_pair]

section

variable (chooses : w.document.Chooses (w.products pairs))

include chooses

theorem linear_declared {entry : String × Float} (member : entry ∈ w.linear) :
    cellVariable entry.1 ∈ w.document.declared.names :=
  chooses.named _ (List.mem_append_left _ (List.mem_map_of_mem member)) _ List.mem_cons_self

theorem pair_declared {entry : (String × String) × Float} (member : entry ∈ pairs) :
    cellVariable entry.1.1 ∈ w.document.declared.names ∧
      cellVariable entry.1.2 ∈ w.document.declared.names := by
  have named := chooses.named _ (List.mem_append_right _ (List.mem_map_of_mem member))
  exact ⟨named _ (by simp), named _ (by simp)⟩

theorem objective_value (b : String → Bool) :
    w.document.objectivePolynomial.value (assignmentOf (w.document.declared.names.map b)) =
      w.cost pairs b := by
  rw [Polynomial.value, chooses.objectivePolynomial_eq.2.2, productTotal_products, cost]
  congr 2
  · refine List.map_congr_left fun entry member => ?_
    rw [Variables.pairMonomial_value,
      Bits.assignmentOf_idxOf (linear_declared chooses member), bitValue_mul_self]
  · refine List.map_congr_left fun entry member => ?_
    obtain ⟨first, second⟩ := pair_declared chooses member
    rw [Variables.pairMonomial_value, Bits.assignmentOf_idxOf first,
      Bits.assignmentOf_idxOf second]

theorem objective_total {z : Sym2 String} (member : z ∈ w.document.declared.names.sym2) :
    w.document.objectivePolynomial.terms.total
      (indicator (w.document.declared.pairMonomial z)) = w.merged pairs z := by
  have same : ∀ other, w.document.declared.pairMonomial other =
      w.document.declared.pairMonomial z ↔ other = z := fun other => by
    rw [eq_comm, Variables.pairMonomial_inj member, eq_comm]
  rw [chooses.objectivePolynomial_eq.2.2, productTotal_products, merged]
  simp only [indicator, same, mul_ite, mul_one, mul_zero]

theorem exists_pair {product : Float × List String} (member : product ∈ w.products pairs) :
    ∃ z ∈ w.document.declared.names.sym2,
      w.document.declared.monomial product.2 = w.document.declared.pairMonomial z := by
  rcases List.mem_append.mp member with linear | pair
  · obtain ⟨entry, found, rfl⟩ := List.mem_map.mp linear
    have declared := linear_declared chooses found
    exact ⟨_, List.mk_mem_sym2_iff.mpr ⟨declared, declared⟩, Variables.monomial_single _ _⟩
  · obtain ⟨entry, found, rfl⟩ := List.mem_map.mp pair
    exact ⟨_, List.mk_mem_sym2_iff.mpr (pair_declared chooses found), Variables.monomial_pair _ _ _⟩

theorem penaltyOf_eq {q : Qubo Rat} (expanded : w.document.expand none = .ok q) :
    w.document.penaltyOf none = w.penalty pairs := by
  have canonical := Document.objective_canonical expanded
  have nodup : w.document.declared.names.Nodup := w.document.declared.distinct
  have distinct : (w.document.declared.names.sym2.map w.document.declared.pairMonomial).Nodup :=
    nodup.sym2.map_on fun z member _ _ same => (Variables.pairMonomial_inj member).mp same
  rw [Document.penaltyOf, canonical.weight_eq_sum distinct, List.map_map, penalty]
  · refine congrArg (1 + List.sum ·) (List.map_congr_left fun z member => ?_)
    exact congrArg abs (objective_total chooses member)
  · intro key member
    obtain ⟨z, -, rfl⟩ := List.mem_map.mp member
    exact Variables.pairMonomial_ne_nil _ z
  · -- A monomial that no product has keeps no coefficient.
    intro term _ nonzero
    by_contra absent
    rw [chooses.objectivePolynomial_eq.2.2] at nonzero
    refine nonzero (List.sum_eq_zero fun summand member => ?_)
    obtain ⟨product, found, rfl⟩ := List.mem_map.mp member
    obtain ⟨z, pair, monomial⟩ := exists_pair chooses found
    have other : w.document.declared.monomial product.2 ≠ term.1 := fun same =>
      absent (List.mem_map.mpr ⟨z, pair, monomial.symm.trans same⟩)
    rw [indicator, if_neg other, mul_zero]

end

theorem cost_single (w : Weights) (pairs : List ((String × String) × Float)) (name : String) :
    w.cost pairs (· == name) = w.merged pairs s(name, name) := by
  rw [cost, merged]
  congr 2
  · refine List.map_congr_left fun entry _ => ?_
    by_cases same : cellVariable entry.1 = name <;> simp [same, bitValue]
  · refine List.map_congr_left fun entry _ => ?_
    by_cases first : cellVariable entry.1.1 = name <;>
      by_cases second : cellVariable entry.1.2 = name <;> simp [first, second, bitValue]

/-- The document of weights expands.  Its energy is that of the weights and the
penalty times the square of one less than how many cells are chosen, and an
assignment of least energy chooses one cell, whose own weights are least. -/
theorem document_picks_cheapest (keyed : w.Keyed pairs) (nonempty : w.isEmpty = false)
    (reads : ∀ entry ∈ w.linear ++ w.quadratic, Number.ReadsBack entry.2) :
    ∃ q : Qubo Rat, w.document.expand none = .ok q ∧ q.names = w.document.declared.names ∧
      (∀ b : String → Bool, q.energy? (q.names.map b) = some (w.cost pairs b +
        w.penalty pairs * ((q.names.map fun name => bitValue (b name)).sum - 1) ^ 2)) ∧
      ∀ bits, q.IsMinimum bits → ∃ name ∈ q.names, bits = q.names.map (· == name) ∧
        ∀ other ∈ q.names, w.merged pairs s(name, name) ≤ w.merged pairs s(other, other) := by
  have chooses := document_chooses keyed nonempty reads
  obtain ⟨q, expanded⟩ := chooses.expand_isOk
  have names := chooses.names_eq expanded
  refine ⟨q, expanded, names, ?_, ?_⟩
  · intro b
    rw [names, chooses.energy_eq expanded, objective_value chooses,
      penaltyOf_eq chooses expanded]
  · intro bits minimum
    obtain ⟨name, member, chosen, least⟩ := chooses.isMinimum_cases expanded minimum
    rw [names]
    refine ⟨name, member, chosen, fun other found => ?_⟩
    have atMost := least other found
    rwa [objective_value chooses, objective_value chooses, cost_single, cost_single] at atMost

/-- Repeated and zero weights, a pair in both orders and a pair of one cell. -/
def repeated : Weights where
  linear := [("4", -3.0), ("0", 2.0), ("4", -0.5), ("7", 0.0)]
  quadratic := [("0,4", 1.5), ("7,7", -4.0), ("4,0", -0.25)]

def repeatedPairs : List ((String × String) × Float) :=
  [(("0", "4"), 1.5), (("7", "7"), -4.0), (("4", "0"), -0.25)]

theorem document_picks_cheapest_repeated :
    ∃ q : Qubo Rat, repeated.document.expand none = .ok q ∧ q.names = ["x4", "x0", "x7"] ∧
      (∀ b : String → Bool, q.energy? (q.names.map b) = some (repeated.cost repeatedPairs b +
        47 / 4 * ((q.names.map fun name => bitValue (b name)).sum - 1) ^ 2)) ∧
      ∀ bits, q.IsMinimum bits → bits = [false, false, true] := by
  have keyed : repeated.Keyed repeatedPairs :=
    ⟨by decide +kernel, by decide +kernel, by decide +kernel⟩
  have reads : ∀ entry ∈ repeated.linear ++ repeated.quadratic, Number.ReadsBack entry.2 := by
    decide +kernel
  have declared : repeated.document.declared.names = ["x4", "x0", "x7"] := by decide +kernel
  have penalty : repeated.penalty repeatedPairs = 47 / 4 := by decide +kernel
  obtain ⟨q, expanded, names, energy, cheapest⟩ := document_picks_cheapest keyed rfl reads
  rw [declared] at names
  rw [penalty] at energy
  refine ⟨q, expanded, names, energy, fun bits minimum => ?_⟩
  obtain ⟨name, member, chosen, least⟩ := cheapest bits minimum
  rw [names] at member chosen least
  have atMost := least "x7" (by simp)
  have own : ∀ name ∈ ["x4", "x0", "x7"], repeated.merged repeatedPairs s(name, name) ≤
      repeated.merged repeatedPairs s("x7", "x7") → name = "x7" := by
    decide +kernel
  rw [chosen, own name member atMost]
  rfl

end Weights

end StrategyQubo
