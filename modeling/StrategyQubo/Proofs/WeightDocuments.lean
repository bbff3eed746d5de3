import Mathlib
import StrategyQubo.Proofs.NormalizedWeights
import StrategyQubo.Proofs.SumPolynomials

namespace StrategyQubo

open StrategyQubo.Script

/-! # Documents of weights

The document that weights of cells and of pairs of cells become passes
validation, and its objective has one term for each weight.
-/

theorem Number.toRat_of_beq_zero {x : Float} (zero : (x == 0.0) = true) : toRat x = 0 := by
  obtain ⟨-, -, same⟩ := Float.beq_iff_ne_nan_and_eq.mp zero
  rcases same with rfl | ⟨rfl, -⟩ | ⟨rfl, -⟩ <;> decide +kernel

/-! ## Keys -/

/-- Decimal digits, at least one. -/
def IsCellKey (key : String) : Prop :=
  key ≠ "" ∧ ∀ c ∈ key.toList, c.isDigit = true

instance (key : String) : Decidable (IsCellKey key) :=
  decidable_of_iff (key ≠ "" ∧ key.toList.all Char.isDigit = true) (by simp [IsCellKey])

namespace IsCellKey

variable {key other : String}

theorem isCellName (digits : IsCellKey key) : IsCellName (cellVariable key) := by
  refine ⟨key.toList, digits.2, String.toList_inj.mp ?_⟩
  simp [cellVariable]

theorem trim_eq (digits : IsCellKey key) : Text.trim key = key := by
  have visible : ∀ c ∈ key.toList, Text.isBlank c = false := fun c member =>
    Scan.isBlank_of_isDigit (digits.2 c member)
  have whole : ∀ text : List Char, (∀ c ∈ text, Text.isBlank c = false) →
      text.dropWhile Text.isBlank = text := by
    intro text visible
    cases text with
    | nil => rfl
    | cons c more => rw [List.dropWhile_cons_of_neg (by simp [visible c List.mem_cons_self])]
  rw [Text.trim, Text.trimStart, whole _ visible, Text.trimEnd,
    whole _ fun c member => visible c (List.mem_reverse.mp member), List.reverse_reverse,
    String.ofList_toList]

theorem pairNames?_eq (first : IsCellKey key) (second : IsCellKey other) :
    Weights.pairNames? (key ++ "," ++ other) = some (cellVariable key, cellVariable other) := by
  have noComma : ',' ∉ key.toList := fun member => by cases first.2 _ member
  rw [Weights.pairNames?_comma noComma, first.trim_eq, second.trim_eq]

end IsCellKey

/-! ## Validation -/

namespace Strategy

/-- The objective, or zero if it is blank. -/
def completed (objective : String) : String :=
  if isBlankText objective then "0" else objective

/-- A document of sums that needs at most an objective is accepted. -/
theorem validate_ofDocument {d : Document} {k : Nat} {entries : Sparse Monomial Rat}
    (declares : d.declared.isEmpty = false) (constrains : d.constraints.isEmpty = false)
    (objective : IsSum d.declared k (completed d.objective).toList entries)
    (sums : ∀ c ∈ d.constraints, ∃ k entries, IsSum d.declared k c.lhs.toList entries) :
    (validate (some (.ofDocument d))).1 =
      ⟨⟨d.declared, d.constraints, completed d.objective⟩, none⟩ := by
  have coerced : coerce (.ofDocument d) =
      .ofDocument ⟨d.declared, d.constraints, completed d.objective⟩ := by
    rw [coerce, Candidate.ofDocument, completed]
    cases blank : isBlankText d.objective <;> simp [Candidate.ofDocument, declares, blank]
  generalize completed d.objective = text at objective coerced ⊢
  have submittable : Document.Submittable ⟨d.declared, d.constraints, text⟩ := by
    refine ⟨d.declared.isEmpty_eq_false_iff.mp declares, List.isEmpty_eq_false_iff.mp constrains,
      objective.visible, objective.covers, fun c member => ?_⟩
    obtain ⟨k, entries, sum⟩ := sums c member
    exact sum.covers
  rw [validate, validateOr_ok coerced submittable]

end Strategy

/-! ## Builders -/

namespace Builder

/-- The builder has declared the cells of these products and has their terms. -/
structure Holds (b : Builder) (products : List (Float × List String)) : Prop where
  cells : b.declared.AreCells
  named : ∀ product ∈ products, ∀ name ∈ product.2, name ∈ b.declared.names
  terms : b.terms = (written products).map fun product => termText product.1 product.2
  constraints : b.constraints = []

theorem Collects.holds {b : Builder} {products : List (Float × List String)}
    (collects : b.Collects products)
    (cells : ∀ product ∈ products, ∀ name ∈ product.2, IsCellName name) : b.Holds products where
  cells := by
    intro entry member
    rw [collects.entries] at member
    obtain ⟨name, listed, rfl⟩ := List.mem_map.mp member
    obtain ⟨product, among, factor⟩ := List.mem_flatMap.mp (List.mem_eraseDups.mp listed)
    exact ⟨rfl, cells product among name factor⟩
  named := by
    intro product member name factor
    rw [collects.declared_names, List.mem_eraseDups]
    exact List.mem_flatMap.mpr ⟨product, member, factor⟩
  terms := collects.terms
  constraints := collects.constraints

end Builder

/-! ## Weights -/

namespace Weights

/-- The weights of pairs as products of variables. -/
def pairProducts (pairs : List ((String × String) × Float)) : List (Float × List String) :=
  pairs.map fun entry => (entry.2, [cellVariable entry.1.1, cellVariable entry.1.2])

def pairKey (entry : (String × String) × Float) : String × Float :=
  (entry.1.1 ++ "," ++ entry.1.2, entry.2)

end Weights

/-! ## Documents -/

/-- The product of the variables with these names. -/
def Variables.monomial (v : Variables) (names : List String) : Monomial :=
  names.foldl (fun m name => m.mul [v.names.idxOf name]) []

/-- The sum of the coefficients, each times the weight of its product. -/
def Variables.productTotal (v : Variables) (weigh : Monomial → Rat)
    (products : List (Float × List String)) : Rat :=
  (products.map fun product => Number.toRat product.1 * weigh (v.monomial product.2)).sum

/-- The document chooses one of its cells, and its objective is the sum of
these products. -/
structure Document.Chooses (d : Document) (products : List (Float × List String)) : Prop where
  cells : d.declared.AreCells
  named : ∀ product ∈ products, ∀ name ∈ product.2, name ∈ d.declared.names
  declares : d.declared.names ≠ []
  constraints : d.constraints = [.exactlyOne d.declared.names]
  objective : ∃ entries, IsSum d.declared 2 d.objective.toList entries ∧
    ∀ weigh, entries.total weigh = d.declared.productTotal weigh products

theorem Variables.AreCells.isSum_names {v : Variables} (cells : v.AreCells)
    (nonempty : v.names ≠ []) :
    IsSum v 1 (Constraint.sumOf v.names).toList
      (v.names.map fun name => ([v.names.idxOf name], 1)) := by
  rw [Constraint.sumOf, String.toList_intercalate]
  exact IsSum.of_map String.toList _ nonempty fun name member => .name cells member

namespace Builder

variable {b : Builder} {products : List (Float × List String)}

theorem isProduct_termText {v : Variables} (cells : v.AreCells) {c : Float} {value : Rat}
    {factors : List String} (reads : Number.readText? (Number.scriptText c) = some value)
    (nonempty : factors ≠ []) (members : ∀ name ∈ factors, name ∈ v.names) :
    IsProduct v factors.length (termText c factors).toList [(v.monomial factors, value)] := by
  have product := (IsProduct.number reads).times_all cells members
  rw [Nat.zero_add] at product
  cases factors with
  | nil => exact absurd rfl nonempty
  | cons first rest =>
      rw [termText, String.toList_append, String.toList_append, String.toList_intercalate,
        List.map_cons, intercalate_cons, Variables.monomial]
      simpa [List.flatMap_map] using product

theorem productTotal_written (v : Variables) (weigh : Monomial → Rat)
    (products : List (Float × List String)) :
    v.productTotal weigh (written products) = v.productTotal weigh products := by
  unfold written
  induction products with
  | nil => rfl
  | cons product rest ih =>
      unfold Variables.productTotal at ih ⊢
      by_cases zero : (product.1 == 0.0) = true
      · rw [List.filter_cons_of_neg (by simpa using zero), ih, List.map_cons, List.sum_cons,
          Number.toRat_of_beq_zero zero, zero_mul, zero_add]
      · rw [List.filter_cons_of_pos (by simpa using zero), List.map_cons, List.sum_cons, ih,
          List.map_cons, List.sum_cons]

section

variable {value : Float → Rat}

theorem Holds.isSum (holds : b.Holds products) (nonempty : b.terms ≠ [])
    (reads : ∀ product ∈ products,
      Number.readText? (Number.scriptText product.1) = some (value product.1))
    (sizes : ∀ product ∈ products, product.2 ≠ [] ∧ product.2.length ≤ 2) :
    IsSum b.declared 2 b.build.objective.toList
      ((written products).map fun product =>
        (b.declared.monomial product.2, value product.1)) := by
  obtain ⟨cells, named, terms, -⟩ := holds
  have texts : b.build.objective.toList = [' ', '+', ' '].intercalate
      ((written products).map fun product => (termText product.1 product.2).toList) := by
    change (" + ".intercalate b.terms).toList = _
    rw [String.toList_intercalate, terms, List.map_map]
    rfl
  rw [texts]
  refine IsSum.of_map _ _ (fun empty => nonempty (by rw [terms, empty, List.map_nil])) ?_
  intro product member
  have among := List.mem_of_mem_filter member
  obtain ⟨factors, short⟩ := sizes product among
  exact (isProduct_termText cells (reads product among) factors (named product among)).mono short

/-- Without terms the text is empty, and validation puts a zero there. -/
theorem Holds.completed_objective (holds : b.Holds products)
    (reads : ∀ product ∈ products,
      Number.readText? (Number.scriptText product.1) = some (value product.1))
    (sizes : ∀ product ∈ products, product.2 ≠ [] ∧ product.2.length ≤ 2) :
    Strategy.completed b.build.objective =
        (if b.build.objective = "" then "0" else b.build.objective) ∧
      ∃ entries, IsSum b.declared 2 (Strategy.completed b.build.objective).toList entries ∧
        ∀ weigh, entries.total weigh = ((written products).map fun product =>
          value product.1 * weigh (b.declared.monomial product.2)).sum := by
  by_cases none : b.terms = []
  · have nothing : written products = [] := by
      have terms := holds.terms
      rw [none] at terms
      exact List.map_eq_nil_iff.mp terms.symm
    have empty : b.build.objective = "" := by
      change " + ".intercalate b.terms = ""
      rw [none]
      rfl
    have blank : Strategy.isBlankText "" = true := by decide
    have zero : Number.readText? "0" = some 0 := by decide +kernel
    rw [empty, Strategy.completed, if_pos blank, if_pos rfl, nothing]
    refine ⟨rfl, _, ((IsProduct.number zero).mono (Nat.zero_le 2)).isSum, fun weigh => ?_⟩
    simp
  · have sum := holds.isSum none reads sizes
    have visible := Strategy.isBlankText_eq_false_iff.mpr sum.visible
    have filled : b.build.objective ≠ "" := by
      obtain ⟨c, member, -⟩ := sum.visible
      intro empty
      rw [empty] at member
      cases member
    rw [Strategy.completed, if_neg (by simp [visible]), if_neg filled]
    refine ⟨rfl, _, sum, fun weigh => ?_⟩
    rw [Sparse.total, List.map_map]
    rfl

end

theorem Holds.exactlyOne_build (holds : b.Holds products) (declares : b.declared.names ≠ []) :
    b.exactlyOne.build =
      ⟨b.declared, [.exactlyOne b.declared.names], b.build.objective⟩ := by
  have someDeclared := b.declared.isEmpty_eq_false_iff.mpr declares
  rw [exactlyOne, if_neg (by simp [someDeclared]), constraint, holds.constraints]
  rfl

theorem Holds.validate_eq (holds : b.Holds products) (declares : b.declared.names ≠ [])
    {entries : Sparse Monomial Rat}
    (sum : IsSum b.declared 2 (Strategy.completed b.build.objective).toList entries) :
    (Strategy.validate (some (.ofDocument b.exactlyOne.build))).1 =
      ⟨{ b.exactlyOne.build with objective := Strategy.completed b.build.objective }, none⟩ := by
  rw [holds.exactlyOne_build declares]
  refine Strategy.validate_ofDocument
    (d := ⟨b.declared, [.exactlyOne b.declared.names], b.build.objective⟩)
    (b.declared.isEmpty_eq_false_iff.mpr declares) rfl sum fun c member => ?_
  rw [List.mem_singleton.mp member]
  exact ⟨1, _, holds.cells.isSum_names declares⟩

theorem Holds.chooses (holds : b.Holds products) (declares : b.declared.names ≠ [])
    {objective : String} {entries : Sparse Monomial Rat}
    (sum : IsSum b.declared 2 objective.toList entries)
    (totals : ∀ weigh, entries.total weigh = b.declared.productTotal weigh products) :
    Document.Chooses ⟨b.declared, [.exactlyOne b.declared.names], objective⟩ products :=
  ⟨holds.cells, holds.named, declares, rfl, entries, sum, totals⟩

end Builder

namespace Weights

/-- Keys of digits: the quadratic ones are pairs with a comma between them. -/
structure Keyed (w : Weights) (pairs : List ((String × String) × Float)) : Prop where
  linear : ∀ entry ∈ w.linear, IsCellKey entry.1
  quadratic : w.quadratic = pairs.map pairKey
  pairs : ∀ entry ∈ pairs, IsCellKey entry.1.1 ∧ IsCellKey entry.1.2

/-- The document that the weights become, validated. -/
def document (w : Weights) : Document :=
  (Strategy.validate (some (.ofDocument w.normalize.1))).1.document

variable {w : Weights} {pairs : List ((String × String) × Float)}

/-- The weights as products of variables. -/
def products (w : Weights) (pairs : List ((String × String) × Float)) :
    List (Float × List String) :=
  linearProducts w.linear ++ pairProducts pairs

theorem allProducts_eq (keyed : w.Keyed pairs) : w.allProducts = w.products pairs := by
  rw [allProducts, products, keyed.quadratic, quadraticProducts, pairProducts,
    List.filterMap_map, ← List.filterMap_eq_map]
  refine congrArg _ (List.filterMap_congr fun entry member => ?_)
  obtain ⟨first, second⟩ := keyed.pairs entry member
  rw [Function.comp_apply, pairKey, first.pairNames?_eq second]
  rfl

theorem products_cells (keyed : w.Keyed pairs) {product : Float × List String}
    (member : product ∈ w.products pairs) {name : String} (factor : name ∈ product.2) :
    IsCellName name := by
  rcases List.mem_append.mp member with linear | pair
  · obtain ⟨entry, found, rfl⟩ := List.mem_map.mp linear
    rw [List.mem_singleton.mp factor]
    exact (keyed.linear entry found).isCellName
  · obtain ⟨entry, found, rfl⟩ := List.mem_map.mp pair
    obtain ⟨first, second⟩ := keyed.pairs entry found
    rcases List.mem_cons.mp factor with rfl | later
    · exact first.isCellName
    · rw [List.mem_singleton.mp later]
      exact second.isCellName

theorem exists_builder (keyed : w.Keyed pairs) :
    ∃ b : Builder, w.normalize.1 = b.exactlyOne.build ∧ b.Holds (w.products pairs) := by
  obtain ⟨b, built, collects⟩ := w.exists_collects
  rw [allProducts_eq keyed] at collects
  exact ⟨b, built, collects.holds fun product member name => products_cells keyed member⟩

theorem products_ne_nil (keyed : w.Keyed pairs) (nonempty : w.isEmpty = false) :
    w.products pairs ≠ [] := by
  intro none
  obtain ⟨noLinear, noPairs⟩ := List.append_eq_nil_iff.mp none
  have linear : w.linear = [] := List.map_eq_nil_iff.mp noLinear
  have quadratic : w.quadratic = [] := by
    rw [keyed.quadratic, List.map_eq_nil_iff.mp noPairs, List.map_nil]
  simp [isEmpty, linear, quadratic] at nonempty

theorem products_sizes {product : Float × List String} (member : product ∈ w.products pairs) :
    product.2 ≠ [] ∧ product.2.length ≤ 2 := by
  rcases List.mem_append.mp member with linear | pair
  · obtain ⟨entry, -, rfl⟩ := List.mem_map.mp linear
    simp
  · obtain ⟨entry, -, rfl⟩ := List.mem_map.mp pair
    simp

theorem exists_entry (keyed : w.Keyed pairs) {product : Float × List String}
    (member : product ∈ w.products pairs) :
    ∃ entry ∈ w.linear ++ w.quadratic, entry.2 = product.1 := by
  rcases List.mem_append.mp member with linear | pair
  · obtain ⟨entry, found, rfl⟩ := List.mem_map.mp linear
    exact ⟨entry, List.mem_append_left _ found, rfl⟩
  · obtain ⟨entry, found, rfl⟩ := List.mem_map.mp pair
    refine ⟨pairKey entry, List.mem_append_right _ ?_, rfl⟩
    rw [keyed.quadratic]
    exact List.mem_map_of_mem found

theorem products_readsBack (keyed : w.Keyed pairs)
    (reads : ∀ entry ∈ w.linear ++ w.quadratic, Number.ReadsBack entry.2)
    {product : Float × List String} (member : product ∈ w.products pairs) :
    Number.ReadsBack product.1 := by
  obtain ⟨entry, found, same⟩ := exists_entry keyed member
  rw [← same]
  exact reads entry found

theorem declares_names {b : Builder} (holds : b.Holds (w.products pairs)) (keyed : w.Keyed pairs)
    (nonempty : w.isEmpty = false) : b.declared.names ≠ [] := by
  obtain ⟨product, member⟩ := List.exists_mem_of_ne_nil _ (products_ne_nil keyed nonempty)
  obtain ⟨name, factor⟩ := List.exists_mem_of_ne_nil _ (products_sizes member).1
  exact List.ne_nil_of_mem (holds.named product member name factor)

theorem document_chooses (keyed : w.Keyed pairs) (nonempty : w.isEmpty = false)
    (reads : ∀ entry ∈ w.linear ++ w.quadratic, Number.ReadsBack entry.2) :
    w.document.Chooses (w.products pairs) := by
  obtain ⟨b, built, holds⟩ := exists_builder keyed
  obtain ⟨-, entries, sum, totals⟩ := holds.completed_objective
    (fun product => products_readsBack keyed reads) (fun product => products_sizes)
  have declares := declares_names holds keyed nonempty
  have document : w.document =
      ⟨b.declared, [.exactlyOne b.declared.names], Strategy.completed b.build.objective⟩ := by
    unfold Weights.document
    rw [built, holds.validate_eq declares sum, holds.exactlyOne_build declares]
  rw [document]
  refine holds.chooses declares sum fun weigh => ?_
  rw [totals, ← Builder.productTotal_written]
  rfl

end Weights

end StrategyQubo
