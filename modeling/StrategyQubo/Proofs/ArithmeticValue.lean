import StrategyQubo.Proofs.TermBounds
import StrategyQubo.Qubo.Expression

namespace StrategyQubo

open StrategyQubo.Script

/-! # Values of expressions

The number that an arithmetic expression stands for once its names stand for
numbers.  The polynomial of an expression has that value at every assignment.
-/

theorem exists_ok_of_bind {ε α β : Type} {e : Except ε α} {next : α → Except ε β} {b : β}
    (finished : (e >>= next) = .ok b) : ∃ a, e = .ok a ∧ next a = .ok b := by
  cases e with
  | error fault => cases finished
  | ok a => exact ⟨a, rfl, finished⟩

/-- Powers are taken with natural exponents, and nothing is divided by zero. -/
def Script.BinaryOp.arithmetic? (op : BinaryOp) (a b : Rat) : Option Rat :=
  match op with
  | .add => some (a + b)
  | .subtract => some (a - b)
  | .multiply => some (a * b)
  | .divide => if b = 0 then none else some (a / b)
  | .power => if b.den = 1 ∧ 0 ≤ b then some (a ^ b.num.toNat) else none
  | _ => none

/-- Ordinary arithmetic on the exact values of the numbers. -/
def Script.Expr.value? (known : String → Option Rat) : Expr → Option Rat
  | .number n => some (Number.toRat n)
  | .identifier name => known name
  | .unary .negate operand => do
      let a ← value? known operand
      pure (-a)
  | .unary .plus operand => value? known operand
  | .binary op left right => do
      let a ← value? known left
      let b ← value? known right
      op.arithmetic? a b
  | _ => none

/-- The value of a text that is an arithmetic expression. -/
def textValue? (known : String → Option Rat) (text : String) : Option Rat :=
  match Expr.parse text with
  | .ok expr => expr.value? known
  | .error _ => none

def VariableKind.value : VariableKind → Bool → Rat
  | .binary, bit => bitValue bit
  | .spin, bit => 2 * bitValue bit - 1

/-- What the declared names stand for when each variable has the bit at its
    place. -/
def Variables.reading (v : Variables) (bits : List Bool) (name : String) : Option Rat :=
  ((v.entries.zip bits).find? fun (entry, _) => entry.1 == name).map fun (entry, bit) =>
    entry.2.value bit

/-! ## Powers and quotients -/

namespace Polynomial

variable {size : Nat} {p q r : Polynomial Rat} {x : Nat → Bool}

theorem exponent?_eq {n : Nat} (found : q.exponent? = some n) :
    q.asConstant? = some (n : Rat) := by
  obtain ⟨c, constant, checked⟩ := Option.bind_eq_some_iff.mp found
  split at checked
  · next passed =>
    simp only [Bool.and_eq_true, decide_eq_true_eq, Coefficient.ofNat_eq] at passed
    obtain ⟨⟨whole, nonneg⟩, atMost⟩ := passed
    obtain ⟨k, rfl⟩ := (Coefficient.isWhole_iff c).mp whole
    obtain ⟨m, rfl⟩ := Int.eq_ofNat_of_zero_le (Int.cast_nonneg_iff.mp nonneg)
    have within : m ≤ maxExponent := by exact_mod_cast atMost
    have same : m = n := by
      rw [Int.cast_natCast, Coefficient.toNatWithin_natCast, min_eq_right within] at checked
      exact Option.some.inj checked
    rw [constant, same, Int.cast_natCast]
  · cases checked

theorem arithmetic?_power (a : Rat) (n : Nat) :
    BinaryOp.power.arithmetic? a n = some (a ^ n) := by
  simp [BinaryOp.arithmetic?]

/-- Canonical, and with this value at an assignment. -/
structure Stands (size : Nat) (x : Nat → Bool) (p : Polynomial Rat) (value : Option Rat) :
    Prop where
  canonical : Canonical size p
  value_eq : value = some (p.value x)

variable {a b : Option Rat}

theorem Stands.power (base : Stands size x p a) (exponent : Stands size x q b)
    (raised : p.power q = .ok r) :
    Stands size x r (BinaryOp.power.arithmetic? (p.value x) (q.value x)) := by
  unfold Polynomial.power at raised
  split at raised
  · cases raised
  · next n found =>
    have exponentValue : q.value x = n :=
      exponent.canonical.value_of_asConstant? (exponent?_eq found) x
    split at raised
    · next c constant =>
      cases raised
      refine ⟨canonical_constant size _, ?_⟩
      rw [exponentValue, arithmetic?_power, value_constant,
        base.canonical.value_of_asConstant? constant, Coefficient.power_eq]
    · cases raised
      refine ⟨base.canonical.powerOf n, ?_⟩
      rw [exponentValue, arithmetic?_power, value_powerOf]

theorem Stands.divide (numerator : Stands size x p a) (divisor : Stands size x q b)
    (divided : p.divide q = .ok r) :
    Stands size x r (BinaryOp.divide.arithmetic? (p.value x) (q.value x)) := by
  unfold Polynomial.divide at divided
  split at divided
  · cases divided
  · next c constant =>
    split at divided
    · cases divided
    · next nonzero =>
      cases divided
      refine ⟨numerator.canonical.scale _, ?_⟩
      have apart : c ≠ 0 := fun zero => nonzero ((Coefficient.isZero_iff c).mpr zero)
      rw [divisor.canonical.value_of_asConstant? constant, value_scale, Coefficient.inverse_eq]
      simp only [BinaryOp.arithmetic?, if_neg apart, div_eq_inv_mul]

theorem Stands.combine {op : BinaryOp} (left : Stands size x p a) (right : Stands size x q b)
    (combined : combine op p q = .ok r) :
    Stands size x r (op.arithmetic? (p.value x) (q.value x)) := by
  cases op with
  | add =>
      cases combined
      exact ⟨left.canonical.add right.canonical, by rw [value_add]; rfl⟩
  | subtract =>
      cases combined
      exact ⟨left.canonical.sub right.canonical, by rw [value_sub]; rfl⟩
  | multiply =>
      cases combined
      exact ⟨left.canonical.mul right.canonical, by rw [value_mul]; rfl⟩
  | divide => exact left.divide right combined
  | power => exact left.power right combined
  | _ => cases combined

/-! ## Whole expressions -/

variable {known : String → Option (Polynomial Rat)} {reading : String → Option Rat}

theorem ofExpr_stands (names : ∀ name q, known name = some q → Stands size x q (reading name))
    (expr : Expr) (evaluated : ofExpr known expr = .ok p) :
    Stands size x p (expr.value? reading) := by
  fun_induction ofExpr known expr generalizing p with
  | case1 n =>
      cases evaluated
      exact ⟨canonical_constant size _, by rw [value_constant]; rfl⟩
  | case2 name q found =>
      cases evaluated
      exact names name q found
  | case3 name unknown => cases evaluated
  | case4 operand ih =>
      obtain ⟨q, inner, negated⟩ := exists_ok_of_bind evaluated
      cases negated
      have stands := ih inner
      refine ⟨stands.canonical.scale _, ?_⟩
      rw [Expr.value?, stands.value_eq, value_scale, neg_one_mul]
      rfl
  | case5 operand ih => exact ih evaluated
  | case6 op left right ihLeft ihRight =>
      obtain ⟨a, first, evaluated⟩ := exists_ok_of_bind evaluated
      obtain ⟨b, second, evaluated⟩ := exists_ok_of_bind evaluated
      have standsLeft := ihLeft first
      have standsRight := ihRight second
      rw [Expr.value?, standsLeft.value_eq, standsRight.value_eq]
      exact standsLeft.combine standsRight evaluated
  | case7 => cases evaluated

theorem parse_stands (names : ∀ name q, known name = some q → Stands size x q (reading name))
    {text : String} (parsed : parse known text = .ok p) :
    Stands size x p (textValue? reading text) := by
  unfold parse at parsed
  unfold textValue?
  cases expr : Expr.parse text with
  | error fault =>
      rw [expr] at parsed
      cases parsed
  | ok tree =>
      rw [expr] at parsed
      exact ofExpr_stands names tree parsed

end Polynomial

/-! ## Declared variables -/

namespace Variables

/-- The place of a name among the declarations is also the place of its kind
and of its bit. -/
theorem readingOf_eq {entries : List (String × VariableKind)} {bits : List Bool} {name : String}
    {index : Nat} {kind : VariableKind} (enough : entries.length ≤ bits.length)
    (place : (entries.map (·.1)).idxOf? name = some index)
    (declared : entries.lookup name = some kind) :
    index < entries.length ∧
      ((entries.zip bits).find? fun (entry, _) => entry.1 == name).map
        (fun (entry, bit) => entry.2.value bit) = some (kind.value (assignmentOf bits index)) := by
  induction entries generalizing bits index with
  | nil => cases declared
  | cons entry rest ih =>
      obtain ⟨other, otherKind⟩ := entry
      cases bits with
      | nil => simp at enough
      | cons bit later =>
          rw [List.map_cons, List.idxOf?_cons] at place
          by_cases same : other = name
          · subst same
            simp only [beq_self_eq_true, if_true, Option.some.injEq] at place
            simp only [List.lookup_cons, beq_self_eq_true, Option.some.injEq] at declared
            subst place declared
            simp [assignmentOf]
          · have apart : (other == name) = false := by simpa using same
            have apart' : (name == other) = false := by simpa using fun equal => same equal.symm
            simp only [apart, Bool.false_eq_true, if_false, Option.map_eq_some_iff] at place
            simp only [List.lookup_cons, apart'] at declared
            obtain ⟨before, placed, rfl⟩ := place
            obtain ⟨within, read⟩ := ih (by simpa using enough) placed declared
            refine ⟨by simpa using within, ?_⟩
            simpa [apart, assignmentOf] using read

theorem polynomial?_stands {v : Variables} {bits : List Bool} (enough : v.size ≤ bits.length)
    (name : String) (p : Polynomial Rat) (found : v.polynomial? name = some p) :
    Polynomial.Stands v.size (assignmentOf bits) p (v.reading bits name) := by
  unfold polynomial? at found
  cases place : v.names.idxOf? name with
  | none => simp [place] at found
  | some index =>
      cases declared : v.get? name with
      | none => simp [place, declared] at found
      | some kind =>
          obtain ⟨within, read⟩ := readingOf_eq enough place declared
          cases kind with
          | binary =>
              simp only [place, declared, Option.some.injEq] at found
              subst found
              exact ⟨Polynomial.canonical_binary within, by rw [Polynomial.value_binary]; exact read⟩
          | spin =>
              simp only [place, declared, Option.some.injEq] at found
              subst found
              exact ⟨Polynomial.canonical_spin within, by rw [Polynomial.value_spin]; exact read⟩

/-- A text over the declared variables has the values of its polynomial. -/
theorem parse_stands {v : Variables} {bits : List Bool} (enough : v.size ≤ bits.length)
    {text : String} {p : Polynomial Rat} (parsed : Polynomial.parse v.polynomial? text = .ok p) :
    Polynomial.Stands v.size (assignmentOf bits) p (textValue? (v.reading bits) text) :=
  Polynomial.parse_stands (polynomial?_stands enough) parsed

theorem parse_canonical {v : Variables} {text : String} {p : Polynomial Rat}
    (parsed : Polynomial.parse v.polynomial? text = .ok p) : p.Canonical v.size := by
  have someBits : v.size ≤ (List.replicate v.size false).length := by simp
  exact (parse_stands someBits parsed).canonical

end Variables

end StrategyQubo
