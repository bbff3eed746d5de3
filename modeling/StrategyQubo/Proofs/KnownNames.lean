import StrategyQubo.Proofs.ArithmeticValue
import StrategyQubo.Proofs.DeclaredNames
import StrategyQubo.Qubo.Expand

namespace StrategyQubo

open StrategyQubo.Script

/-! # Known names

Validation looks at the tokens of an expression, expansion at its tree.  Where
the tokens are covered by the declarations, arithmetic knows every name that it
looks up, so the document of a validation never fails to expand because of an
unknown name.
-/

/-! ## Names in expressions -/

namespace Script

/-- The names that arithmetic looks up. -/
def Expr.operandNames : Expr → List String
  | .identifier name => [name]
  | .unary _ operand => operand.operandNames
  | .binary _ left right => left.operandNames ++ right.operandNames
  | _ => []

theorem Expr.operandNames_subset (e : Expr) : e.operandNames ⊆ e.references false := by
  fun_induction Expr.operandNames e with
  | case1 name => exact List.Subset.refl _
  | case2 op operand ih => exact ih
  | case3 op left right first second => exact List.append_subset.mpr ⟨List.subset_append_of_subset_left _ first,
      List.subset_append_of_subset_right _ second⟩
  | case4 => exact List.nil_subset _

end Script

/-! ## Faults -/

/-- Nothing failed because of an unknown name. -/
def KnowsNames {α : Type} (result : Except ExpansionFault α) : Prop :=
  ∀ name, result ≠ .error (.unknownVariable name)

namespace KnowsNames

variable {α β : Type}

theorem ok (a : α) : KnowsNames (.ok a : Except ExpansionFault α) := by
  rintro name ⟨⟩

theorem error {fault : ExpansionFault} (other : ∀ name, fault ≠ .unknownVariable name) :
    KnowsNames (.error fault : Except ExpansionFault α) :=
  fun name same => other name (Except.error.inj same)

theorem bind {result : Except ExpansionFault α} {next : α → Except ExpansionFault β}
    (first : KnowsNames result) (later : ∀ a, KnowsNames (next a)) :
    KnowsNames (result >>= next) := by
  cases result with
  | ok a => exact later a
  | error fault => exact error fun name same => first name (congrArg _ same)

end KnowsNames

section

variable {R : Type} [Coefficient R] {v : Variables} {name text : String}

theorem Variables.polynomial?_ne_none (member : name ∈ v.names) :
    v.polynomial? (R := R) name ≠ none := by
  obtain ⟨kind, found, -⟩ := get?_of_mem member
  rw [polynomial?, idxOf?_of_mem member, found]
  cases kind <;> exact Option.some_ne_none _

namespace Polynomial

theorem divide_knowsNames (p divisor : Polynomial R) : KnowsNames (p.divide divisor) := by
  unfold divide
  split
  · exact .error fun _ => nofun
  · split
    · exact .error fun _ => nofun
    · exact .ok _

theorem power_knowsNames (base exponent : Polynomial R) : KnowsNames (base.power exponent) := by
  unfold power
  split
  · exact .error fun _ => nofun
  · split
    · exact .ok _
    · exact .ok _

theorem combine_knowsNames (op : BinaryOp) (p q : Polynomial R) : KnowsNames (combine op p q) := by
  unfold combine
  split
  · exact .ok _
  · exact .ok _
  · exact .ok _
  · exact divide_knowsNames p q
  · exact power_knowsNames p q
  · exact .error fun _ => nofun

/-- Where all names that arithmetic looks up are known, none is missed. -/
theorem ofExpr_knowsNames {known : String → Option (Polynomial R)} {e : Expr}
    (all : ∀ name ∈ e.operandNames, known name ≠ none) : KnowsNames (ofExpr known e) := by
  fun_induction ofExpr known e with
  | case1 => exact .ok _
  | case2 => exact .ok _
  | case3 name unknown => exact absurd unknown (all name List.mem_cons_self)
  | case4 operand ih => exact (ih all).bind fun p => .ok _
  | case5 operand ih => exact ih all
  | case6 op left right ihLeft ihRight =>
      have first := ihLeft fun name member => all name (List.mem_append_left _ member)
      have second := ihRight fun name member => all name (List.mem_append_right _ member)
      exact first.bind fun p => second.bind fun q => combine_knowsNames op p q
  | case7 => exact .error fun _ same => by cases same

theorem parse_knowsNames (covers : v.Covers text) :
    KnowsNames (parse (R := R) v.polynomial? text) := by
  obtain ⟨tokens, cut, within⟩ := covers
  unfold parse
  split
  · next e parsed =>
    have declared : ∀ name ∈ e.references false, name ∈ v.names :=
      Expr.parse_references cut within nofun parsed
    exact ofExpr_knowsNames fun name member =>
      Variables.polynomial?_ne_none (declared name (e.operandNames_subset member))
  · exact .error fun _ => nofun

end Polynomial

theorem Constraint.residual_knowsNames (index : Nat) (c : Constraint) (lhs : Polynomial R)
    (first : Nat) : KnowsNames (c.residual index lhs first) := by
  unfold residual
  dsimp only
  split
  · exact .ok _
  · split
    · exact .error fun _ => nofun
    · split
      · exact .error fun _ => nofun
      · exact .ok _

theorem penaltyFactor_knowsNames (objective : Polynomial R) (given : Option Float) :
    KnowsNames (penaltyFactor objective given) := by
  unfold penaltyFactor
  split
  · exact .ok _
  · split
    · exact .ok _
    · exact .error fun _ => nofun

namespace Expansion

theorem addConstraints_knowsNames {constraints : List Constraint}
    (covered : ∀ c ∈ constraints, v.Covers c.lhs) (penalty : R) (index : Nat) (e : Expansion R) :
    KnowsNames (addConstraints v penalty index constraints e) := by
  induction constraints generalizing index e with
  | nil => exact .ok e
  | cons c rest ih =>
      have first : KnowsNames (addConstraint v penalty index c e) :=
        (Polynomial.parse_knowsNames (covered c List.mem_cons_self)).bind fun lhs =>
          (c.residual_knowsNames index lhs e.names.length).bind fun missing => .ok _
      exact first.bind fun next =>
        ih (fun later found => covered later (List.mem_cons_of_mem _ found)) (index + 1) next

theorem toQubo_knowsNames (e : Expansion R) : KnowsNames e.toQubo := by
  have added : ∀ (q : Qubo R) (m : Monomial) (c : R), KnowsNames (addMonomial q m c) := by
    intro q m c
    unfold addMonomial
    split
    · exact .ok _
    · exact .ok _
    · exact .ok _
    · exact .error fun _ => nofun
  unfold toQubo
  generalize Qubo.ofVariables (R := R) e.names = q
  induction e.total.terms generalizing q with
  | nil => exact .ok q
  | cons term rest ih =>
      rw [List.foldlM_cons]
      exact (added q term.1 term.2).bind ih

end Expansion

theorem Document.expand_knowsNames {d : Document} (submittable : d.Submittable)
    (given : Option Float) : KnowsNames (d.expand (R := R) given) :=
  (Polynomial.parse_knowsNames submittable.objective).bind fun objective =>
    (penaltyFactor_knowsNames objective given).bind fun penalty =>
      (Expansion.addConstraints_knowsNames submittable.constraints penalty 0 _).bind
        Expansion.toQubo_knowsNames

/-- Validation and expansion agree on names: the document of a validation
    expands under every penalty, or fails for another reason than an unknown
    name. -/
theorem Strategy.validate_expand_ne_unknownVariable (candidate : Option Candidate)
    (given : Option Float) (name : String) :
    (validate candidate).1.document.expand (R := R) given ≠ .error (.unknownVariable name) :=
  Document.expand_knowsNames (validateOr_submittable .missingDocument candidate) given name

/-- Validation does not look into the holes of a template, and expansion refuses
    the template before it does. -/
example : (Strategy.validate (some (.ofDocument ⟨.ofList [("a", .binary)], [⟨"a", .equal, 1.0⟩],
    "a + \x60$\x7bhidden\x7d\x60"⟩))).1.fallback = none := by
  decide +kernel

end

end StrategyQubo
