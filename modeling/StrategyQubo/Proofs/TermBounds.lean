import Mathlib.Tactic.Linarith
import StrategyQubo.Proofs.Multilinear

namespace StrategyQubo

/-! # Bounds by the coefficients

What the coefficients of a canonical polynomial say about all of its values:
the constant it is, the interval it stays in, how far two values can be apart,
and that they are integers.
-/

theorem Sparse.get?_eq_none {K : Type} [DecidableEq K] {key : K} {entries : Sparse K Rat}
    (absent : ∀ entry ∈ entries, entry.1 ≠ key) : entries.get? key = none := by
  refine List.lookup_eq_none_iff.mpr fun entry found => ?_
  simpa using (absent entry found).symm

theorem Sparse.mem_of_get? {K : Type} [DecidableEq K] {key : K} {c : Rat}
    {entries : Sparse K Rat} (found : entries.get? key = some c) : (key, c) ∈ entries := by
  obtain ⟨before, after, split, -⟩ := List.lookup_eq_some_iff.mp found
  rw [split]
  simp

namespace Polynomial

variable {size : Nat} {p : Polynomial Rat} {x y : Nat → Bool}

/-- The terms in which a variable occurs. -/
def openTerms (p : Polynomial Rat) : Sparse Monomial Rat :=
  p.terms.filter fun term => !term.1.isEmpty

/-- The constant term is the only one without variables. -/
theorem Canonical.total_eq (canonical : Canonical size p) (weigh : Monomial → Rat) :
    p.terms.total weigh = p.constantTerm * weigh [] + p.openTerms.total weigh := by
  have sorted := canonical.sorted
  have openOf : ∀ entries : Sparse Monomial Rat, (∀ entry ∈ entries, entry.1 ≠ []) →
      (entries.filter fun term => !term.1.isEmpty) = entries := by
    intro entries nonempty
    refine List.filter_eq_self.mpr fun entry found => ?_
    simpa using nonempty entry found
  unfold constantTerm openTerms
  cases terms : p.terms with
  | nil => simp [Sparse.get?]
  | cons entry rest =>
      obtain ⟨m, c⟩ := entry
      rw [terms] at sorted
      have above := (List.pairwise_cons.mp sorted).1
      cases m with
      | nil =>
          have nonempty : ∀ later ∈ rest, later.1 ≠ [] := by
            intro later found empty
            exact lt_irrefl [] (empty ▸ above later found : ([] : Monomial) < [])
          rw [List.filter_cons_of_neg (by simp), openOf rest nonempty, Sparse.total_cons]
          simp [Sparse.get?]
      | cons i m =>
          have nonempty : ∀ later ∈ (i :: m, c) :: rest, later.1 ≠ [] := by
            intro later found
            rcases List.mem_cons.mp found with rfl | behind
            · simp
            · intro empty
              exact absurd (empty ▸ above later behind : (i :: m) < ([] : Monomial)) (by simp)
          rw [openOf _ nonempty, Sparse.get?_eq_none nonempty]
          simp

theorem Canonical.value_eq (canonical : Canonical size p) (x : Nat → Bool) :
    p.value x = p.constantTerm + p.openTerms.total (Monomial.value x) := by
  rw [value, canonical.total_eq, Monomial.value_nil, mul_one]

/-! ## Constants -/

theorem length_le_degree {term : Monomial × Rat} (member : term ∈ p.terms) :
    term.1.length ≤ p.degree := by
  have largest : ∀ (entries : Sparse Monomial Rat) (most : Nat),
      most ≤ entries.foldl (fun most entry => max most entry.1.length) most ∧
      ∀ entry ∈ entries,
        entry.1.length ≤ entries.foldl (fun most entry => max most entry.1.length) most := by
    intro entries
    induction entries with
    | nil => simp
    | cons entry rest ih =>
        intro most
        obtain ⟨start, later⟩ := ih (max most entry.1.length)
        rw [List.foldl_cons]
        refine ⟨le_trans (le_max_left _ _) start, ?_⟩
        intro other found
        rcases List.mem_cons.mp found with rfl | behind
        · exact le_trans (le_max_right _ _) start
        · exact later other behind
  exact (largest p.terms 0).2 term member

theorem openTerms_of_degree (constant : p.degree = 0) : p.openTerms = [] := by
  refine List.filter_eq_nil_iff.mpr fun term member => ?_
  have short := length_le_degree member
  have empty : term.1 = [] := List.eq_nil_of_length_eq_zero (by omega)
  simp [empty]

theorem Canonical.value_of_asConstant? {c : Rat} (canonical : Canonical size p)
    (constant : p.asConstant? = some c) (x : Nat → Bool) : p.value x = c := by
  unfold asConstant? at constant
  split at constant
  · next flat =>
    rw [canonical.value_eq, openTerms_of_degree flat, Sparse.total_nil, add_zero]
    exact Option.some.inj constant
  · cases constant

/-! ## Intervals -/

theorem coefficients_eq (p : Polynomial Rat) : p.coefficients = p.openTerms.map (·.2) := rfl

theorem bounds_eq (p : Polynomial Rat) :
    p.bounds =
      (p.constantTerm + (p.openTerms.map fun term => min term.2 0).sum,
        p.constantTerm + (p.openTerms.map fun term => max term.2 0).sum) := by
  rw [bounds, coefficients_eq]
  generalize p.openTerms = terms
  suffices sums : ∀ low high : Rat,
      (terms.map (·.2)).foldl (fun (bounds : Rat × Rat) c =>
        (bounds.1 + Coefficient.negativePart c, bounds.2 + Coefficient.positivePart c)) (low, high) =
      (low + (terms.map fun term => min term.2 0).sum,
        high + (terms.map fun term => max term.2 0).sum) from sums _ _
  induction terms with
  | nil => simp
  | cons term rest ih =>
      intro low high
      rw [List.map_cons, List.foldl_cons, ih]
      simp only [List.map_cons, List.sum_cons, Coefficient.negativePart_eq,
        Coefficient.positivePart_eq, add_assoc]

theorem Canonical.bounds_le (canonical : Canonical size p) (x : Nat → Bool) :
    p.bounds.1 ≤ p.value x ∧ p.value x ≤ p.bounds.2 := by
  rw [bounds_eq, canonical.value_eq]
  refine ⟨add_le_add_right (List.sum_le_sum fun term _ => ?_) _,
    add_le_add_right (List.sum_le_sum fun term _ => ?_) _⟩
  · obtain ⟨nonneg, atMost⟩ := Monomial.value_bounds x term.1
    rcases le_total term.2 0 with negative | positive
    · rw [min_eq_left negative]
      nlinarith
    · rw [min_eq_right positive]
      exact mul_nonneg positive nonneg
  · obtain ⟨nonneg, atMost⟩ := Monomial.value_bounds x term.1
    rcases le_total term.2 0 with negative | positive
    · rw [max_eq_right negative]
      exact mul_nonpos_of_nonpos_of_nonneg negative nonneg
    · rw [max_eq_left positive]
      nlinarith

/-! ## Distances -/

theorem weight_eq (p : Polynomial Rat) :
    p.weight = (p.openTerms.map fun term => |term.2|).sum := by
  rw [weight, Coefficient.sum_eq, coefficients_eq, List.map_map]
  congr 1
  exact List.map_congr_left fun term _ => Coefficient.magnitude_eq term.2

theorem weight_nonneg (p : Polynomial Rat) : 0 ≤ p.weight := by
  rw [weight_eq]
  refine List.sum_nonneg fun magnitude member => ?_
  obtain ⟨term, -, rfl⟩ := List.mem_map.mp member
  exact abs_nonneg _

/-- Two values are no further apart than the weight. -/
theorem Canonical.value_le (canonical : Canonical size p) (x y : Nat → Bool) :
    p.value x ≤ p.value y + p.weight := by
  rw [canonical.value_eq x, canonical.value_eq y, weight_eq, add_assoc]
  refine add_le_add_right ?_ _
  unfold Sparse.total
  rw [← List.sum_map_add]
  refine List.sum_le_sum fun term _ => ?_
  obtain ⟨nonneg, atMost⟩ := Monomial.value_bounds x term.1
  obtain ⟨nonneg', atMost'⟩ := Monomial.value_bounds y term.1
  have gap : |Monomial.value x term.1 - Monomial.value y term.1| ≤ 1 :=
    abs_le.mpr ⟨by linarith, by linarith⟩
  have moved : term.2 * (Monomial.value x term.1 - Monomial.value y term.1) ≤ |term.2| :=
    calc term.2 * (Monomial.value x term.1 - Monomial.value y term.1)
        ≤ |term.2| * |Monomial.value x term.1 - Monomial.value y term.1| :=
          abs_mul term.2 _ ▸ le_abs_self _
      _ ≤ |term.2| := mul_le_of_le_one_right (abs_nonneg _) gap
  linarith

/-! ## Integers -/

theorem exists_int_total {terms : Sparse Monomial Rat} {weigh : Monomial → Rat}
    (whole : ∀ term ∈ terms, ∃ k : Int, term.2 * weigh term.1 = k) :
    ∃ k : Int, terms.total weigh = k := by
  induction terms with
  | nil => exact ⟨0, by simp⟩
  | cons term rest ih =>
      obtain ⟨k, first⟩ := whole term List.mem_cons_self
      obtain ⟨l, later⟩ := ih fun other found => whole other (List.mem_cons_of_mem _ found)
      exact ⟨k + l, by rw [Sparse.total_cons, first, later]; push_cast; rfl⟩

theorem exists_int_coefficient (integral : p.isIntegral = true) {term : Monomial × Rat}
    (member : term ∈ p.terms) : ∃ k : Int, term.2 = k :=
  (Coefficient.isWhole_iff _).mp (List.all_eq_true.mp integral term member)

theorem exists_int_value (integral : p.isIntegral = true) (x : Nat → Bool) :
    ∃ k : Int, p.value x = k := by
  refine exists_int_total fun term member => ?_
  obtain ⟨k, coefficient⟩ := exists_int_coefficient integral member
  obtain ⟨l, monomial⟩ := Monomial.exists_int_value x term.1
  exact ⟨k * l, by rw [coefficient, monomial]; push_cast; rfl⟩

theorem exists_int_bounds (integral : p.isIntegral = true) :
    (∃ k : Int, p.bounds.1 = k) ∧ ∃ k : Int, p.bounds.2 = k := by
  have constant : ∃ k : Int, p.constantTerm = k := by
    unfold constantTerm
    cases found : p.terms.get? [] with
    | none => exact ⟨0, by simp⟩
    | some c => exact exists_int_coefficient integral (Sparse.mem_of_get? found)
  have parts : ∀ part : Rat → Rat, (∀ k : Int, ∃ l : Int, part k = l) →
      ∃ k : Int, (p.openTerms.map fun term => part term.2).sum = k := by
    intro part whole
    have members : ∀ term ∈ p.openTerms, ∃ k : Int, term.2 = k := fun term member =>
      exists_int_coefficient integral (List.mem_of_mem_filter member)
    generalize p.openTerms = terms at members
    induction terms with
    | nil => exact ⟨0, by simp⟩
    | cons term rest ih =>
        obtain ⟨k, first⟩ := members term List.mem_cons_self
        obtain ⟨l, taken⟩ := whole k
        obtain ⟨m, later⟩ := ih fun other found => members other (List.mem_cons_of_mem _ found)
        refine ⟨l + m, ?_⟩
        rw [List.map_cons, List.sum_cons, later, first, taken]
        push_cast
        rfl
  rw [bounds_eq]
  obtain ⟨base, constant⟩ := constant
  obtain ⟨low, lower⟩ := parts (min · 0) fun k => ⟨min k 0, by push_cast; rfl⟩
  obtain ⟨high, upper⟩ := parts (max · 0) fun k => ⟨max k 0, by push_cast; rfl⟩
  exact ⟨⟨base + low, by rw [constant, lower]; push_cast; rfl⟩,
    ⟨base + high, by rw [constant, upper]; push_cast; rfl⟩⟩

end Polynomial

end StrategyQubo
