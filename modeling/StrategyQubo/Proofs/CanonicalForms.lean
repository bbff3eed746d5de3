import Mathlib.Algebra.BigOperators.Group.Finset.Basic
import Mathlib.Data.Finset.Sort
import Mathlib.Order.Lattice.Nat
import StrategyQubo.Proofs.LinearConstraints

namespace StrategyQubo

/-! # Unique forms

Whatever polynomials are built of, they are canonical, and a function of bits has
only one canonical polynomial.  So its terms tell whether the function is constant,
and how many variables a product must have at least to write it.
-/

/-! ## The bits of a monomial -/

namespace Monomial

variable {m n : Monomial}

/-- The variables of the monomial are one, and all others zero. -/
def ones (m : Monomial) (i : Nat) : Bool :=
  decide (i ∈ m)

theorem value_ones (n m : Monomial) : value n.ones m = if m ⊆ n then 1 else 0 := by
  induction m with
  | nil => simp
  | cons i rest ih =>
      rw [value_cons, ih]
      by_cases among : i ∈ n <;> simp [ones, bitValue, among]

theorem eq_of_subset (rising : m.Pairwise (· < ·)) (rising' : n.Pairwise (· < ·))
    (part : m ⊆ n) (short : n.length ≤ m.length) : m = n := by
  have distinct : m.Nodup := rising.imp Nat.ne_of_lt
  have same : m.Perm n := (List.subperm_of_subset distinct part).perm_of_length_le short
  apply same.eq_of_pairwise _ rising rising'
  intro i j _ _ below above
  omega

end Monomial

namespace Polynomial

variable {size size' : Nat} {p q : Polynomial Rat}

/-! ## One polynomial for a function -/

theorem Canonical.distinct (canonical : Canonical size p) : (p.terms.map (·.1)).Nodup :=
  (List.pairwise_map.mpr canonical.sorted).imp ne_of_lt

theorem Canonical.mem_terms_iff (canonical : Canonical size p) (term : Monomial × Rat) :
    term ∈ p.terms ↔ term.2 ≠ 0 ∧ p.terms.total (indicator term.1) = term.2 := by
  constructor
  · intro member
    exact ⟨canonical.nonzero term member,
      Sparse.total_indicator_of_mem canonical.distinct member⟩
  · rintro ⟨nonzero, total⟩
    obtain ⟨found, member, same⟩ : ∃ found ∈ p.terms, found.1 = term.1 := by
      by_contra absent
      apply nonzero
      rw [← total]
      apply Sparse.total_indicator_eq_zero
      intro entry member same
      exact absent ⟨entry, member, same⟩
    have coefficient := Sparse.total_indicator_of_mem canonical.distinct member
    rw [same, total] at coefficient
    rwa [Prod.ext same.symm coefficient]

/-- Where just the variables of a shortest term are one, no other term counts. -/
theorem Canonical.exists_value_ne_zero (canonical : Canonical size p) (nonempty : p.terms ≠ []) :
    ∃ x, p.value x ≠ 0 := by
  obtain ⟨term, member, shortest⟩ := p.terms.toFinset.exists_min_image (·.1.length)
    (by simpa [List.toFinset_nonempty_iff] using nonempty)
  simp only [List.mem_toFinset] at member shortest
  have counted : ∀ other ∈ p.terms, Monomial.value term.1.ones other.1 =
      indicator term.1 other.1 := by
    intro other found
    rw [Monomial.value_ones, indicator]
    congr 1
    apply propext
    constructor
    · intro part
      exact Monomial.eq_of_subset (canonical.fits other found).rising
        (canonical.fits term member).rising part (shortest other found)
    · intro same
      simp [same]
  have value : p.value term.1.ones = term.2 := by
    rw [← Sparse.total_indicator_of_mem canonical.distinct member, Polynomial.value,
      Sparse.total, Sparse.total]
    congr 1
    apply List.map_congr_left
    intro other found
    rw [counted other found]
  refine ⟨term.1.ones, ?_⟩
  rw [value]
  exact canonical.nonzero term member

/-- Two polynomials can be seen as ones of the same variables. -/
theorem exists_common (first : ∃ size, Canonical size p) (second : ∃ size, Canonical size q) :
    ∃ size, Canonical size p ∧ Canonical size q := by
  obtain ⟨size, first⟩ := first
  obtain ⟨size', second⟩ := second
  exact ⟨max size size', first.mono (le_max_left _ _), second.mono (le_max_right _ _)⟩

/-- Polynomials with the same values differ by one without terms, so all of their
    coefficients are the same. -/
theorem Canonical.terms_eq_iff (first : Canonical size p) (second : Canonical size' q) :
    p.terms = q.terms ↔ ∀ x, p.value x = q.value x := by
  constructor
  · intro same x
    rw [value, value, same]
  · intro values
    obtain ⟨_, left, right⟩ := exists_common ⟨size, first⟩ ⟨size', second⟩
    have difference := left.sub right
    have nothing : (p.sub q).terms = [] := by
      by_contra nonempty
      obtain ⟨x, nonzero⟩ := difference.exists_value_ne_zero nonempty
      apply nonzero
      rw [value_sub, values x, sub_self]
    have totals (m : Monomial) : p.terms.total (indicator m) = q.terms.total (indicator m) := by
      have apart := total_sub (indicator m) p q
      rw [nothing, Sparse.total_nil] at apart
      linarith
    have same : p.terms.Perm q.terms := by
      rw [List.perm_ext_iff_of_nodup first.distinct.of_map second.distinct.of_map]
      intro term
      rw [first.mem_terms_iff, second.mem_terms_iff, totals]
    apply same.eq_of_pairwise _ first.sorted second.sorted
    intro term other _ _ below above
    exact absurd above (lt_asymm below)

theorem asConstant?_constant (c : Rat) : (constant c).asConstant? = some c := by
  have flat : (constant c).degree = 0 := Nat.le_zero.mp (degree_constant_le c)
  have read : (constant c).asConstant? = some (constant c).constantTerm := if_pos flat
  have value := (canonical_constant 0 c).value_of_asConstant? read fun _ => false
  rw [read, ← value, value_constant]

/-- A polynomial is a number exactly where its function is constant. -/
theorem Canonical.asConstant?_eq_some_iff (canonical : Canonical size p) (c : Rat) :
    p.asConstant? = some c ↔ ∀ x, p.value x = c := by
  constructor
  · intro constant x
    exact canonical.value_of_asConstant? constant x
  · intro values
    have same : p.terms = (constant c).terms := by
      apply (canonical.terms_eq_iff (canonical_constant 0 c)).mpr
      intro x
      rw [values x, value_constant]
    cases p with
    | mk terms =>
        cases same
        exact asConstant?_constant c

end Polynomial

/-! ## Sums of products -/

/-- A sum of products of variables with coefficients, in any order.  A product may
    come more than once, and a coefficient may be zero. -/
abbrev ProductSum := Sparse (Finset Nat) Rat

namespace ProductSum

def value (x : Nat → Bool) (e : ProductSum) : Rat :=
  e.total fun factors => ∏ i ∈ factors, bitValue (x i)

/-- The products that count. -/
def proper (e : ProductSum) : ProductSum :=
  e.filter fun product => decide (product.2 ≠ 0)

/-- The most variables in a product that counts. -/
def degree (e : ProductSum) : Nat :=
  e.proper.toFinset.sup fun product => product.1.card

/-- The products that count as terms, in the order of the sum. -/
def entries (e : ProductSum) : Sparse Monomial Rat :=
  e.proper.map fun product => (product.1.sort (· ≤ ·), product.2)

/-- The polynomial that the sum comes to. -/
def polynomial (e : ProductSum) : Polynomial Rat :=
  Polynomial.zero.add ⟨e.entries⟩

def ofPolynomial (p : Polynomial Rat) : ProductSum :=
  p.terms.map fun term => (term.1.toFinset, term.2)

variable {size k : Nat} {p : Polynomial Rat} {e : ProductSum} {x : Nat → Bool}

theorem mem_proper {product : Finset Nat × Rat} :
    product ∈ e.proper ↔ product ∈ e ∧ product.2 ≠ 0 := by
  simp [proper]

theorem degree_le_iff :
    e.degree ≤ k ↔ ∀ product ∈ e, product.2 ≠ 0 → product.1.card ≤ k := by
  simp [degree, mem_proper]

theorem prod_toFinset {m : Monomial} (rising : m.Pairwise (· < ·)) (x : Nat → Bool) :
    ∏ i ∈ m.toFinset, bitValue (x i) = Monomial.value x m :=
  List.prod_toFinset _ (rising.imp Nat.ne_of_lt)

theorem total_proper (weigh : Finset Nat → Rat) (e : ProductSum) :
    e.proper.total weigh = e.total weigh := by
  induction e with
  | nil => rfl
  | cons product rest ih =>
      by_cases zero : product.2 = 0 <;> simpa [proper, zero] using ih

/-! ### Sums and polynomials -/

theorem total_entries (e : ProductSum) (x : Nat → Bool) :
    e.entries.total (Monomial.value x) = e.value x := by
  rw [value, ← total_proper, entries, Sparse.total, Sparse.total, List.map_map]
  congr 1
  apply List.map_congr_left
  intro product _
  have factors := prod_toFinset product.1.sortedLT_sort.pairwise x
  rw [Finset.sort_toFinset] at factors
  simp [factors]

theorem value_polynomial (e : ProductSum) (x : Nat → Bool) : e.polynomial.value x = e.value x := by
  rw [polynomial, Polynomial.value_add, Polynomial.value_zero, zero_add, ← total_entries,
    Polynomial.value]

theorem entries_fit (e : ProductSum) : ∃ size, ∀ entry ∈ e.entries, entry.1.Fits size := by
  -- One more than the largest index of all.
  refine ⟨e.proper.toFinset.sup fun product => product.1.sup id + 1, ?_⟩
  intro entry member
  obtain ⟨product, among, rfl⟩ := List.mem_map.mp member
  refine ⟨product.1.sortedLT_sort.pairwise, ?_⟩
  intro i factor
  have within : i ≤ product.1.sup id := Finset.le_sup (f := id) (by simpa using factor)
  have largest := Finset.le_sup (f := fun product : Finset Nat × Rat => product.1.sup id + 1)
    (List.mem_toFinset.mpr among)
  exact Nat.lt_of_lt_of_le (Nat.lt_succ_of_le within) largest

theorem canonical_polynomial (e : ProductSum) : ∃ size, e.polynomial.Canonical size := by
  obtain ⟨size, fit⟩ := e.entries_fit
  exact ⟨size, (Polynomial.canonical_zero size).addTerms fit id⟩

theorem degree_polynomial_le (e : ProductSum) : e.polynomial.degree ≤ e.degree := by
  apply Polynomial.degree_addTerms_le (Nat.zero_le _) _ id
  intro entry member
  obtain ⟨product, among, rfl⟩ := List.mem_map.mp member
  obtain ⟨found, counts⟩ := mem_proper.mp among
  rw [Finset.length_sort]
  exact degree_le_iff.mp (le_refl _) product found counts

theorem value_ofPolynomial (canonical : p.Canonical size) (x : Nat → Bool) :
    (ofPolynomial p).value x = p.value x := by
  rw [value, ofPolynomial, Polynomial.value, Sparse.total, Sparse.total, List.map_map]
  congr 1
  apply List.map_congr_left
  intro term member
  simp [prod_toFinset (canonical.fits term member).rising x]

theorem degree_ofPolynomial_le (p : Polynomial Rat) : (ofPolynomial p).degree ≤ p.degree := by
  apply degree_le_iff.mpr
  intro product member _
  obtain ⟨term, found, rfl⟩ := List.mem_map.mp member
  exact le_trans (List.toFinset_card_le _) (Polynomial.length_le_degree found)

end ProductSum

namespace Polynomial

variable {size : Nat} {p : Polynomial Rat}

/-- Any sum of products for the function comes to the polynomial, so the products
    of the terms are among its own. -/
theorem Canonical.degree_le (canonical : Canonical size p) (e : ProductSum)
    (values : ∀ x, e.value x = p.value x) : p.degree ≤ e.degree := by
  obtain ⟨size', other⟩ := e.canonical_polynomial
  have same : p.terms = e.polynomial.terms := by
    apply (canonical.terms_eq_iff other).mpr
    intro x
    rw [e.value_polynomial, values x]
  have degrees : p.degree = e.polynomial.degree := by rw [degree, degree, same]
  rw [degrees]
  exact e.degree_polynomial_le

theorem Canonical.degree_isLeast (canonical : Canonical size p) :
    IsLeast {d | ∃ e : ProductSum, (∀ x, e.value x = p.value x) ∧ e.degree = d} p.degree := by
  constructor
  · have values := ProductSum.value_ofPolynomial canonical
    refine ⟨.ofPolynomial p, values, ?_⟩
    exact le_antisymm (ProductSum.degree_ofPolynomial_le p) (canonical.degree_le _ values)
  · rintro d ⟨e, values, rfl⟩
    exact canonical.degree_le e values

/-! ## What polynomials are built of -/

/-- Made by the operations on polynomials, and by reading expressions whose names
    stand for polynomials made so. -/
inductive Built : Polynomial Rat → Prop where
  | zero : Built zero
  | constant (c : Rat) : Built (constant c)
  | binary (i : Nat) : Built (binary i)
  | spin (i : Nat) : Built (spin i)
  | add {p q : Polynomial Rat} (first : Built p) (second : Built q) : Built (p.add q)
  | sub {p q : Polynomial Rat} (first : Built p) (second : Built q) : Built (p.sub q)
  | scale {p : Polynomial Rat} (built : Built p) (factor : Rat) : Built (p.scale factor)
  | mul {p q : Polynomial Rat} (first : Built p) (second : Built q) : Built (p.mul q)
  | square {p : Polynomial Rat} (built : Built p) : Built p.square
  | parsed {known : String → Option (Polynomial Rat)} {text : String} {p : Polynomial Rat}
      (names : ∀ name q, known name = some q → Built q)
      (parsed : parse known text = .ok p) : Built p

variable {q : Polynomial Rat} {known : String → Option (Polynomial Rat)}

theorem ofExpr_canonical
    (names : ∀ name q, known name = some q → ∃ size, Canonical size q) (expr : Script.Expr)
    (evaluated : ofExpr known expr = .ok p) : ∃ size, Canonical size p := by
  fun_induction ofExpr known expr generalizing p with
  | case1 n =>
      cases evaluated
      exact ⟨0, canonical_constant 0 _⟩
  | case2 name q found =>
      cases evaluated
      exact names name q found
  | case3 name unknown => cases evaluated
  | case4 operand ih =>
      obtain ⟨q, inner, negated⟩ := exists_ok_of_bind evaluated
      cases negated
      obtain ⟨size, canonical⟩ := ih inner
      exact ⟨size, canonical.scale _⟩
  | case5 operand ih => exact ih evaluated
  | case6 op left right ihLeft ihRight =>
      obtain ⟨a, first, evaluated⟩ := exists_ok_of_bind evaluated
      obtain ⟨b, second, evaluated⟩ := exists_ok_of_bind evaluated
      obtain ⟨_, left, right⟩ := exists_common (ihLeft first) (ihRight second)
      have stands : Stands _ (fun _ => false) p _ :=
        Stands.combine ⟨left, rfl⟩ ⟨right, rfl⟩ evaluated
      exact ⟨_, stands.canonical⟩
  | case7 => cases evaluated

theorem Built.canonical (built : p.Built) : ∃ size, Canonical size p := by
  induction built with
  | zero => exact ⟨0, canonical_zero 0⟩
  | constant c => exact ⟨0, canonical_constant 0 c⟩
  | binary i => exact ⟨i + 1, canonical_binary (Nat.lt_succ_self i)⟩
  | spin i => exact ⟨i + 1, canonical_spin (Nat.lt_succ_self i)⟩
  | add _ _ first second =>
      obtain ⟨size, left, right⟩ := exists_common first second
      exact ⟨size, left.add right⟩
  | sub _ _ first second =>
      obtain ⟨size, left, right⟩ := exists_common first second
      exact ⟨size, left.sub right⟩
  | mul _ _ first second =>
      obtain ⟨size, left, right⟩ := exists_common first second
      exact ⟨size, left.mul right⟩
  | scale _ factor ih =>
      obtain ⟨size, canonical⟩ := ih
      exact ⟨size, canonical.scale factor⟩
  | square _ ih =>
      obtain ⟨size, canonical⟩ := ih
      exact ⟨size, canonical.square⟩
  | parsed _ parsed names =>
      unfold parse at parsed
      split at parsed
      · next expr _ => exact ofExpr_canonical names expr parsed
      · cases parsed

/-- What is built is canonical: its monomials are rows of rising indices, which rise
    themselves, and no coefficient is zero.  Two such polynomials have the same terms
    just when they have the same value at every assignment.  So a polynomial is a
    number just when its function is constant, and no sum of products for the
    function has a smaller degree. -/
theorem Built.determined (built : p.Built) :
    p.terms.IsSorted ∧
    (∀ term ∈ p.terms, term.1.Pairwise (· < ·) ∧ term.2 ≠ 0) ∧
    (∀ q : Polynomial Rat, q.Built → (p.terms = q.terms ↔ ∀ x, p.value x = q.value x)) ∧
    (∀ c, p.asConstant? = some c ↔ ∀ x, p.value x = c) ∧
    IsLeast {d | ∃ e : ProductSum, (∀ x, e.value x = p.value x) ∧ e.degree = d} p.degree := by
  obtain ⟨size, canonical⟩ := built.canonical
  refine ⟨canonical.sorted, ?_, ?_, canonical.asConstant?_eq_some_iff, canonical.degree_isLeast⟩
  · intro term member
    exact ⟨(canonical.fits term member).rising, canonical.nonzero term member⟩
  · intro q other
    obtain ⟨_, canonical'⟩ := other.canonical
    exact canonical.terms_eq_iff canonical'

/-- Two variables and a spin. -/
def threeNames (name : String) : Option (Polynomial Rat) :=
  if name = "a" then some (.binary 0)
  else if name = "b" then some (.binary 1)
  else if name = "s" then some (.spin 2)
  else none

theorem threeNames_built (name : String) (q : Polynomial Rat) (known : threeNames name = some q) :
    q.Built := by
  unfold threeNames at known
  split at known
  · cases known
    exact .binary 0
  · split at known
    · cases known
      exact .binary 1
    · split at known
      · cases known
        exact .spin 2
      · cases known

/-- The square of the spin is one, and what is left of the sum is `2 * a * b - b / 2`. -/
theorem determined_cancelling :
    ∃ p, parse threeNames "(a + b - s * s) ** 2 - 1 + b / 2 + a" = .ok p ∧ p.Built ∧
      (∀ x, p.value x =
        ((((binary 0).mul (binary 1)).scale 2).sub ((binary 1).scale (1 / 2))).value x) ∧
      (∀ c, ¬ ∀ x, p.value x = c) ∧
      ∀ e : ProductSum, (∀ x, e.value x = p.value x) → 2 ≤ e.degree := by
  have read : (parse threeNames "(a + b - s * s) ** 2 - 1 + b / 2 + a").toOption.map
      Polynomial.terms = some [([0, 1], 2), ([1], -1 / 2)] := by decide +kernel
  cases parsed : parse threeNames "(a + b - s * s) ** 2 - 1 + b / 2 + a" with
  | error fault =>
      rw [parsed] at read
      cases read
  | ok p =>
      rw [parsed] at read
      have terms : p.terms = [([0, 1], 2), ([1], -1 / 2)] := Option.some.inj read
      have built : p.Built := .parsed threeNames_built parsed
      have other : ((((binary 0).mul (binary 1)).scale 2).sub
          ((binary 1).scale (1 / 2)) : Polynomial Rat).Built :=
        .sub (.scale (.mul (.binary 0) (.binary 1)) 2) (.scale (.binary 1) (1 / 2))
      have degree : p.degree = 2 := by rw [Polynomial.degree, terms]; rfl
      obtain ⟨-, -, unique, constant, least⟩ := built.determined
      refine ⟨p, rfl, built, (unique _ other).mp ?_, ?_, ?_⟩
      · rw [terms]
        decide +kernel
      · intro c same
        have number := (constant c).mpr same
        rw [asConstant?, degree] at number
        cases number
      · intro e same
        rw [← degree]
        exact least.2 ⟨e, same, rfl⟩

end Polynomial

end StrategyQubo
