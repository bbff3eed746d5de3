import StrategyQubo.Proofs.PlainNumbers
import StrategyQubo.Proofs.WeightDocuments

namespace StrategyQubo

open StrategyQubo.Script

/-! # Weights that validation accepts

The text of every finite number is a numeral, with a minus sign before it if
the number is negative.  So the document of finite weights under keys of digits
can be cut into tokens, and it names no variables but its own.
-/

namespace Number

theorem IsPlain.readText? {text : String} (plain : IsPlain text.toList) (negative : Bool) :
    ∃ value, readText? ((if negative then "-" else "") ++ text) = some value := by
  obtain ⟨n, found⟩ := plain.numeral?
  unfold Number.readText?
  cases negative with
  | true => exact ⟨-toRat n.toFloat, by simp [found]⟩
  | false =>
      have unsigned : ((if false = true then "-" else "") ++ text).toList = text.toList := by
        simp
      rw [unsigned]
      split
      · next signed => exact absurd signed plain.head_ne
      · exact ⟨toRat n.toFloat, by rw [found]; rfl⟩

theorem readText?_scriptText {x : Float} (finite : isFinite x = true) :
    ∃ value, readText? (scriptText x) = some value := by
  unfold isFinite at finite
  unfold scriptText Spelling.write
  split at finite
  · next value decoded =>
    rw [decoded]
    dsimp only
    have zero : scriptSpelling.negativeZero = "0" := rfl
    rw [zero, ite_self]
    split
    · exact ⟨0, by decide +kernel⟩
    · exact (isPlain_magnitudeText value).readText? value.negative
  · cases finite

end Number

namespace Weights

open Builder

variable {w : Weights} {pairs : List ((String × String) × Float)}

/-- Finite weights under keys of digits are accepted, and validation only puts
a zero where they leave no objective. -/
theorem validate_normalize (keyed : w.Keyed pairs) (nonempty : w.isEmpty = false)
    (finite : ∀ entry ∈ w.linear ++ w.quadratic, Number.isFinite entry.2 = true) :
    (Strategy.validate (some (.ofDocument w.normalize.1))).1 =
      ⟨{ w.normalize.1 with
          objective := if w.normalize.1.objective = "" then "0" else w.normalize.1.objective },
        none⟩ := by
  obtain ⟨b, built, holds⟩ := exists_builder keyed
  obtain ⟨value, reads⟩ : ∃ value : Float → Rat, ∀ product ∈ w.products pairs,
      Number.readText? (Number.scriptText product.1) = some (value product.1) := by
    refine ⟨fun x => (Number.readText? (Number.scriptText x)).getD 0, fun product member => ?_⟩
    dsimp only
    obtain ⟨entry, found, same⟩ := exists_entry keyed member
    obtain ⟨value, read⟩ := Number.readText?_scriptText (finite entry found)
    rw [← same, read, Option.getD_some]
  obtain ⟨completed, entries, sum, -⟩ :=
    holds.completed_objective reads fun product => products_sizes
  have declares := declares_names holds keyed nonempty
  have objective : b.exactlyOne.build.objective = b.build.objective := by
    rw [holds.exactlyOne_build declares]
  rw [built, holds.validate_eq declares sum, completed, objective]

/-- A pair is cut at its first comma.  The document declares the variables that
the keys name, each once and in the order of their first mention, has a term
for each weight that is not zero, and chooses one of what it declares.
Validation accepts it if the weights are finite and the keys made of digits. -/
theorem normalize_accepted (w : Weights) :
    (∀ first second : String, ',' ∉ first.toList → pairNames? (first ++ "," ++ second) =
      some ("x" ++ Text.trim first, "x" ++ Text.trim second)) ∧
    (∀ key : String, ',' ∉ key.toList → pairNames? key = none) ∧
    w.normalize.1.declared.entries = w.mentioned.eraseDups.map (·, .binary) ∧
    w.normalize.1.objective = " + ".intercalate
      ((written w.allProducts).map fun product => termText product.1 product.2) ∧
    w.normalize.1.constraints =
      (if w.mentioned = [] then [] else [.exactlyOne w.mentioned.eraseDups]) ∧
    ∀ pairs, w.Keyed pairs → w.isEmpty = false →
      (∀ entry ∈ w.linear ++ w.quadratic, Number.isFinite entry.2 = true) →
      (Strategy.validate (some (.ofDocument w.normalize.1))).1 =
        ⟨{ w.normalize.1 with
            objective := if w.normalize.1.objective = "" then "0" else w.normalize.1.objective },
          none⟩ := by
  refine ⟨fun first second noComma => pairNames?_comma noComma second,
    fun key noComma => pairNames?_eq_none noComma, w.normalize_entries, w.normalize_objective,
    w.normalize_constraints, fun pairs keyed nonempty finite => ?_⟩
  exact validate_normalize keyed nonempty finite

/-- Weights that all cancel, under repeated keys and a pair of one cell. -/
def idle : Weights where
  linear := [("4", 0.0), ("04", -0.0), ("4", 0.0)]
  quadratic := [("4,7", 0.0), ("7,7", -0.0)]

/-- Large and small weights, with a pair of cells that stand nowhere else. -/
def uneven : Weights where
  linear := [("8", 1e21), ("0", -0.1), ("8", 0.0), ("8", 1e-7)]
  quadratic := [("0,8", -3.0), ("10,3", 2.5)]

theorem normalize_accepted_uneven :
    (Strategy.validate (some (.ofDocument idle.normalize.1))).1 =
        ⟨{ idle.normalize.1 with objective := "0" }, none⟩ ∧
      idle.normalize.1.declared.names = ["x4", "x04", "x7"] ∧
      (Strategy.validate (some (.ofDocument uneven.normalize.1))).1 = ⟨uneven.normalize.1, none⟩ ∧
      uneven.normalize.1.declared.names = ["x8", "x0", "x10", "x3"] := by
  obtain ⟨-, -, -, -, -, accepted⟩ := normalize_accepted idle
  obtain ⟨-, -, -, -, -, accepted'⟩ := normalize_accepted uneven
  have keyed : idle.Keyed [(("4", "7"), 0.0), (("7", "7"), -0.0)] :=
    ⟨by decide +kernel, by decide +kernel, by decide +kernel⟩
  have keyed' : uneven.Keyed [(("0", "8"), -3.0), (("10", "3"), 2.5)] :=
    ⟨by decide +kernel, by decide +kernel, by decide +kernel⟩
  have finite : ∀ entry ∈ idle.linear ++ idle.quadratic, Number.isFinite entry.2 = true := by
    decide +kernel
  have finite' : ∀ entry ∈ uneven.linear ++ uneven.quadratic,
      Number.isFinite entry.2 = true := by
    decide +kernel
  have valid := accepted _ keyed rfl finite
  have valid' := accepted' _ keyed' rfl finite'
  have blank : idle.normalize.1.objective = "" := by decide +kernel
  have filled : uneven.normalize.1.objective ≠ "" := by decide +kernel
  rw [if_pos blank] at valid
  rw [if_neg filled] at valid'
  refine ⟨valid, by decide +kernel, ?_, by decide +kernel⟩
  generalize uneven.normalize.1 = d at valid' ⊢
  exact valid'

end Weights

end StrategyQubo
