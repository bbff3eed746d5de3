import Mathlib.Data.List.TakeWhile
import StrategyQubo.Document.Weights

namespace StrategyQubo

/-! # What weights become

Every weight belongs to a product of variables: a cell, or the two cells of a
pair.  The document declares the factors of all products in the order in which
they first occur, and has a term for each product whose weight is not zero.
-/

theorem Variables.entries_register {v : Variables} {names : List String}
    (declared : v.entries = names.eraseDups.map (·, .binary)) (name : String) :
    (v.register name .binary).entries = (names ++ [name]).eraseDups.map (·, .binary) := by
  have own : v.names = names.eraseDups := by
    rw [Variables.names, declared, List.map_map]
    exact List.map_id _
  have known : name ∈ v.names ↔ name ∈ names := by rw [own, List.mem_eraseDups]
  rw [List.eraseDups_append, List.map_append, ← declared]
  unfold Variables.register
  by_cases member : name ∈ names
  · rw [dif_pos (known.mpr member)]
    simp [List.removeAll, member]
  · rw [dif_neg (mt known.mp member)]
    simp [List.removeAll, member, List.eraseDups_cons]

/-! ## Builders -/

namespace Builder

/-- The products that become terms. -/
def written (products : List (Float × List String)) : List (Float × List String) :=
  products.filter fun product => !(product.1 == 0.0)

/-- The factors of the products in order, with repetitions. -/
def factorsOf (products : List (Float × List String)) : List String :=
  products.flatMap (·.2)

/-- The builder has seen these products and nothing else. -/
structure Collects (b : Builder) (products : List (Float × List String)) : Prop where
  entries : b.declared.entries = (factorsOf products).eraseDups.map (·, .binary)
  terms : b.terms = (written products).map fun product => termText product.1 product.2
  constraints : b.constraints = []

def declareAll (b : Builder) (names : List String) : Builder :=
  names.foldl (fun b name => b.declare name .binary) b

variable {b : Builder} {products : List (Float × List String)}

theorem collects_empty : empty.Collects [] :=
  ⟨rfl, rfl, rfl⟩

theorem declareAll_entries {known : List String}
    (declared : b.declared.entries = known.eraseDups.map (·, .binary)) (names : List String) :
    (b.declareAll names).declared.entries = (known ++ names).eraseDups.map (·, .binary) ∧
      (b.declareAll names).terms = b.terms ∧
      (b.declareAll names).constraints = b.constraints := by
  induction names generalizing b known with
  | nil => exact ⟨by rw [List.append_nil]; exact declared, rfl, rfl⟩
  | cons name rest ih =>
      have all := ih (b := b.declare name .binary) (Variables.entries_register declared name)
      rw [List.append_assoc] at all
      exact all

/-- The factors of a product are declared before its term is added. -/
theorem Collects.product (collects : b.Collects products) (weight : Float)
    (factors : List String) :
    ((b.declareAll factors).term weight factors).Collects (products ++ [(weight, factors)]) := by
  obtain ⟨entries, terms, constraints⟩ := declareAll_entries collects.entries factors
  have names : factorsOf (products ++ [(weight, factors)]) = factorsOf products ++ factors := by
    simp [factorsOf]
  rw [← names] at entries
  rw [collects.terms] at terms
  rw [collects.constraints] at constraints
  unfold Builder.term
  split
  · next zero => exact ⟨entries, by simp [terms, written, zero], constraints⟩
  · next nonzero => exact ⟨entries, by simp [terms, written, nonzero], constraints⟩

theorem Collects.declared_names (collects : b.Collects products) :
    b.declared.names = (factorsOf products).eraseDups := by
  rw [Variables.names, collects.entries, List.map_map]
  exact List.map_id _

theorem exactlyOne_declared (b : Builder) : b.exactlyOne.declared = b.declared := by
  unfold exactlyOne
  split <;> rfl

theorem exactlyOne_terms (b : Builder) : b.exactlyOne.terms = b.terms := by
  unfold exactlyOne
  split <;> rfl

theorem Collects.exactlyOne_constraints (collects : b.Collects products) :
    b.exactlyOne.constraints =
      if factorsOf products = [] then [] else [.exactlyOne (factorsOf products).eraseDups] := by
  unfold exactlyOne
  rw [Variables.isEmpty, collects.entries, collects.declared_names]
  by_cases nothing : factorsOf products = []
  · rw [if_pos nothing, nothing]
    exact collects.constraints
  · have some : (factorsOf products).eraseDups ≠ [] := by
      obtain ⟨name, member⟩ := List.exists_mem_of_ne_nil _ nothing
      exact List.ne_nil_of_mem (List.mem_eraseDups.mpr member)
    rw [if_neg nothing, if_neg (by simpa using some), Builder.constraint, collects.constraints]
    rfl

end Builder

/-! ## Keys -/

namespace Weights

open Builder

theorem pairNames?_comma {first : String} (noComma : ',' ∉ first.toList) (second : String) :
    pairNames? (first ++ "," ++ second) =
      some (cellVariable (Text.trim first), cellVariable (Text.trim second)) := by
  have passed : ∀ c ∈ first.toList, (c != ',') = true := by
    intro c member
    rw [bne_iff_ne]
    rintro rfl
    exact noComma member
  have chars : (first ++ "," ++ second).toList = first.toList ++ ',' :: second.toList := by
    simp
  have split : splitPair? (first ++ "," ++ second) = some (first, second) := by
    rw [splitPair?, chars, List.takeWhile_append_of_pos passed,
      List.dropWhile_append_of_pos passed]
    simp
  rw [pairNames?, split]
  rfl

theorem pairNames?_eq_none {key : String} (noComma : ',' ∉ key.toList) :
    pairNames? key = none := by
  have passed : key.toList.dropWhile (· != ',') = [] := by
    rw [List.dropWhile_eq_nil_iff]
    intro c member
    rw [bne_iff_ne]
    rintro rfl
    exact noComma member
  rw [pairNames?, splitPair?, passed]
  rfl

/-- The weights of cells, then those of pairs, as products of variables.  A key
    without a comma names no pair. -/
def linearProducts (linear : List (String × Float)) : List (Float × List String) :=
  linear.map fun entry => (entry.2, [cellVariable entry.1])

def quadraticProducts (quadratic : List (String × Float)) : List (Float × List String) :=
  quadratic.filterMap fun entry =>
    (pairNames? entry.1).map fun (first, second) => (entry.2, [first, second])

def allProducts (w : Weights) : List (Float × List String) :=
  linearProducts w.linear ++ quadraticProducts w.quadratic

/-- The variables that the keys name, in order and with repetitions. -/
def mentioned (w : Weights) : List String :=
  factorsOf w.allProducts

/-! ## Normalization -/

variable {b : Builder} {products : List (Float × List String)}

theorem foldl_addLinear_collects (collects : b.Collects products)
    (linear : List (String × Float)) :
    (linear.foldl addLinear b).Collects (products ++ linearProducts linear) := by
  induction linear generalizing b products with
  | nil => simpa [linearProducts] using collects
  | cons entry rest ih =>
      have all := ih (collects.product entry.2 [cellVariable entry.1])
      rw [List.append_assoc] at all
      exact all

theorem foldl_addQuadratic_collects (collects : b.Collects products) (log : List LogEntry)
    (quadratic : List (String × Float)) :
    (quadratic.foldl addQuadratic (b, log)).1.Collects
      (products ++ quadraticProducts quadratic) := by
  induction quadratic generalizing b products log with
  | nil => simpa [quadraticProducts] using collects
  | cons entry rest ih =>
      rw [List.foldl_cons, addQuadratic, quadraticProducts, List.filterMap_cons]
      cases pair : pairNames? entry.1 with
      | none => exact ih collects _
      | some names =>
          have all := ih (collects.product entry.2 [names.1, names.2]) log
          rw [List.append_assoc] at all
          exact all

/-- What is normalized is built from all the products. -/
theorem exists_collects (w : Weights) :
    ∃ b : Builder, w.normalize.1 = b.exactlyOne.build ∧ b.Collects w.allProducts := by
  have linear := foldl_addLinear_collects collects_empty w.linear
  exact ⟨_, rfl, foldl_addQuadratic_collects linear [] w.quadratic⟩

theorem normalize_entries (w : Weights) :
    w.normalize.1.declared.entries = w.mentioned.eraseDups.map (·, .binary) := by
  obtain ⟨b, built, collects⟩ := w.exists_collects
  rw [built, build, exactlyOne_declared]
  exact collects.entries

theorem normalize_objective (w : Weights) :
    w.normalize.1.objective = " + ".intercalate
      ((written w.allProducts).map fun product => termText product.1 product.2) := by
  obtain ⟨b, built, collects⟩ := w.exists_collects
  rw [built, build, exactlyOne_terms, collects.terms]

theorem normalize_constraints (w : Weights) :
    w.normalize.1.constraints =
      if w.mentioned = [] then [] else [.exactlyOne w.mentioned.eraseDups] := by
  obtain ⟨b, built, collects⟩ := w.exists_collects
  rw [built]
  exact collects.exactlyOne_constraints

end Weights

end StrategyQubo
