import StrategyQubo.Proofs.LinearConstraints
import StrategyQubo.Proofs.Submittable
import StrategyQubo.Proofs.WrittenSums
import StrategyQubo.Strategy.Validation

namespace StrategyQubo

open StrategyQubo.Script

/-! # The polynomials of written sums

A sum over declared cells passes validation, and its polynomial has the terms
that are written.
-/

/-- The number that a text stands for: a numeral, with a minus sign before it
if it is negative. -/
def Number.readText? (text : String) : Option Rat :=
  match text.toList with
  | '-' :: digits => (numeral? digits).map fun n => -toRat n.toFloat
  | digits => (numeral? digits).map fun n => toRat n.toFloat

/-- The text of the number stands for the number. -/
def Number.ReadsBack (x : Float) : Prop :=
  readText? (scriptText x) = some (toRat x)

instance (x : Float) : Decidable (Number.ReadsBack x) :=
  inferInstanceAs (Decidable (_ = _))

def IsCellName (name : String) : Prop :=
  ∃ digits : List Char, (∀ c ∈ digits, c.isDigit = true) ∧ name = String.ofList ('x' :: digits)

/-- All variables are bits, and their names are those of cells. -/
def Variables.AreCells (v : Variables) : Prop :=
  ∀ entry ∈ v.entries, entry.2 = .binary ∧ IsCellName entry.1

namespace Variables

variable {v : Variables} {name : String}

theorem AreCells.isCellName (cells : v.AreCells) (member : name ∈ v.names) :
    IsCellName name := by
  obtain ⟨entry, found, rfl⟩ := List.mem_map.mp member
  exact (cells entry found).2

theorem AreCells.polynomial?_eq (cells : v.AreCells) (member : name ∈ v.names) :
    v.polynomial? name = some (.binary (v.names.idxOf name) : Polynomial Rat) := by
  obtain ⟨kind, found, listed⟩ := get?_of_mem member
  obtain rfl : kind = .binary := (cells _ listed).1
  rw [polynomial?, idxOf?_of_mem member, found]

end Variables

/-- All names are declared, and the tree has a polynomial with the totals of
these entries. -/
structure Expands (v : Variables) (degree : Nat) (lexemes : List Lexeme) (e : Expr)
    (entries : Sparse Monomial Rat) : Prop where
  declared : ∀ name, Lexeme.identifier name ∈ lexemes → name ∈ v.names
  expanded : ∃ p, Polynomial.ofExpr v.polynomial? e = .ok p ∧ p.degree ≤ degree ∧
    ∀ weigh, p.terms.total weigh = entries.total weigh

namespace Expands

variable {v : Variables} {k l : Nat} {lexemes lexemes' : List Lexeme} {e e' : Expr}
  {entries entries' : Sparse Monomial Rat}

theorem number (y : Float) : Expands v 0 [.number y] (.number y) [([], Number.toRat y)] := by
  refine ⟨by simp, .constant (Number.toRat y), rfl, Polynomial.degree_constant_le _, ?_⟩
  intro weigh
  rw [Polynomial.total_constant]
  simp

theorem negative (y : Float) :
    Expands v 0 [.mark .minus, .number y] (.unary .negate (.number y)) [([], -Number.toRat y)] := by
  refine ⟨by simp, (Polynomial.constant (Number.toRat y)).scale (-1), rfl,
    Polynomial.degree_scale_le (Polynomial.degree_constant_le _) _, ?_⟩
  intro weigh
  rw [Polynomial.total_scale, Polynomial.total_constant]
  simp

theorem name (cells : v.AreCells) {name : String} (member : name ∈ v.names) :
    Expands v 1 [.identifier name] (.identifier name) [([v.names.idxOf name], 1)] := by
  refine ⟨by simpa using member, .binary (v.names.idxOf name), ?_,
    Polynomial.degree_binary_le _, ?_⟩
  · rw [Polynomial.ofExpr, cells.polynomial?_eq member]
  · intro weigh
    rw [Polynomial.total_binary]
    simp

theorem times {m m' : Monomial} {c c' : Rat} (first : Expands v k lexemes e [(m, c)])
    (second : Expands v l lexemes' e' [(m', c')]) :
    Expands v (k + l) (lexemes ++ .mark .star :: lexemes') (.binary .multiply e e')
      [(m.mul m', c * c')] := by
  obtain ⟨declared, p, expanded, small, total⟩ := first
  obtain ⟨declared', p', expanded', small', total'⟩ := second
  refine ⟨?_, p.mul p', ?_, Polynomial.degree_mul_le small small', ?_⟩
  · intro name member
    rcases List.mem_append.mp member with found | found
    · exact declared name found
    · exact declared' name (by simpa using found)
  · rw [Polynomial.ofExpr, expanded, expanded']
    rfl
  · intro weigh
    rw [Polynomial.total_mul, total, Sparse.total_cons, total']
    simp [mul_assoc]

theorem plus (first : Expands v k lexemes e entries) (second : Expands v k lexemes' e' entries') :
    Expands v k (lexemes ++ .mark .plus :: lexemes') (.binary .add e e')
      (entries ++ entries') := by
  obtain ⟨declared, p, expanded, small, total⟩ := first
  obtain ⟨declared', p', expanded', small', total'⟩ := second
  refine ⟨?_, p.add p', ?_, Polynomial.degree_add_le small small', ?_⟩
  · intro name member
    rcases List.mem_append.mp member with found | found
    · exact declared name found
    · exact declared' name (by simpa using found)
  · rw [Polynomial.ofExpr, expanded, expanded']
    rfl
  · intro weigh
    rw [Polynomial.total_add, total, total', Sparse.total_append]

end Expands

/-! ## Texts -/

def IsProduct (v : Variables) (degree : Nat) (text : List Char) (entries : Sparse Monomial Rat) :
    Prop :=
  ∃ lexemes e, Product text lexemes e ∧ Expands v degree lexemes e entries

/-- The text is a sum over the cells whose polynomial has the totals of these
entries. -/
def IsSum (v : Variables) (degree : Nat) (text : List Char) (entries : Sparse Monomial Rat) :
    Prop :=
  ∃ lexemes e, Sum text lexemes e ∧ Expands v degree lexemes e entries

section

variable {v : Variables} {k : Nat} {text : List Char} {entries : Sparse Monomial Rat}

theorem IsProduct.number {coefficient : String} {c : Rat}
    (reads : Number.readText? coefficient = some c) :
    IsProduct v 0 coefficient.toList [([], c)] := by
  unfold Number.readText? at reads
  split at reads
  · next digits signed =>
    obtain ⟨n, found, rfl⟩ := Option.map_eq_some_iff.mp reads
    rw [signed]
    exact ⟨_, _, .factor (.negative found), .negative _⟩
  · obtain ⟨n, found, rfl⟩ := Option.map_eq_some_iff.mp reads
    exact ⟨_, _, .factor (.operand (.number found)), .number _⟩

theorem IsProduct.name (cells : v.AreCells) {name : String} (member : name ∈ v.names) :
    IsProduct v 1 name.toList [([v.names.idxOf name], 1)] := by
  obtain ⟨digits, decimal, rfl⟩ := cells.isCellName member
  rw [String.toList_ofList]
  exact ⟨_, _, .factor (.operand (.name decimal)), .name cells member⟩

theorem IsProduct.times {m : Monomial} {c : Rat} (product : IsProduct v k text [(m, c)])
    (cells : v.AreCells) {name : String} (member : name ∈ v.names) :
    IsProduct v (k + 1) (text ++ ' ' :: '*' :: ' ' :: name.toList)
      [(m.mul [v.names.idxOf name], c)] := by
  obtain ⟨lexemes, e, product, expands⟩ := product
  obtain ⟨digits, decimal, rfl⟩ := cells.isCellName member
  have both := expands.times (.name cells member)
  rw [mul_one] at both
  rw [String.toList_ofList]
  exact ⟨_, _, .times product (.operand (.name decimal)), both⟩

theorem IsProduct.mono {l : Nat} (product : IsProduct v k text entries) (atMost : k ≤ l) :
    IsProduct v l text entries := by
  obtain ⟨lexemes, e, product, declared, p, expanded, small, total⟩ := product
  exact ⟨lexemes, e, product, declared, p, expanded, le_trans small atMost, total⟩

theorem IsProduct.times_all {m : Monomial} {c : Rat} (product : IsProduct v k text [(m, c)])
    (cells : v.AreCells) {names : List String} (members : ∀ name ∈ names, name ∈ v.names) :
    IsProduct v (k + names.length)
      (text ++ names.flatMap fun name => ' ' :: '*' :: ' ' :: name.toList)
      [(names.foldl (fun m name => m.mul [v.names.idxOf name]) m, c)] := by
  induction names generalizing k text m with
  | nil => simpa using product
  | cons name rest ih =>
      have longer := ih (product.times cells (members name List.mem_cons_self))
        fun later found => members later (List.mem_cons_of_mem _ found)
      rw [Nat.add_assoc, Nat.add_comm 1] at longer
      simpa [List.append_assoc] using longer

theorem IsProduct.isSum (product : IsProduct v k text entries) : IsSum v k text entries := by
  obtain ⟨lexemes, e, product, expands⟩ := product
  exact ⟨lexemes, e, .product product, expands⟩

theorem IsSum.plus_all {α : Type} (written : α → List Char) (entry : α → Monomial × Rat)
    (sum : IsSum v k text entries) {items : List α}
    (terms : ∀ item ∈ items, IsProduct v k (written item) [entry item]) :
    IsSum v k (text ++ items.flatMap fun item => ' ' :: '+' :: ' ' :: written item)
      (entries ++ items.map entry) := by
  induction items generalizing text entries with
  | nil => simpa using sum
  | cons item rest ih =>
      obtain ⟨lexemes, e, sum, expands⟩ := sum
      obtain ⟨lexemes', e', product, expands'⟩ := terms item List.mem_cons_self
      have longer := ih ⟨_, _, .plus sum product, expands.plus expands'⟩
        fun later found => terms later (List.mem_cons_of_mem _ found)
      simpa [List.append_assoc] using longer

theorem intercalate_cons {α : Type} (separator first : List α) (rest : List (List α)) :
    separator.intercalate (first :: rest) = first ++ rest.flatMap (separator ++ ·) := by
  induction rest generalizing first with
  | nil => simp [List.intercalate]
  | cons second rest ih =>
      rw [List.intercalate_cons_cons, ih, List.flatMap_cons, List.append_assoc, List.append_assoc]

/-- Products with plus signs between them are a sum. -/
theorem IsSum.of_map {α : Type} (written : α → List Char) (entry : α → Monomial × Rat)
    {items : List α} (nonempty : items ≠ [])
    (terms : ∀ item ∈ items, IsProduct v k (written item) [entry item]) :
    IsSum v k ([' ', '+', ' '].intercalate (items.map written)) (items.map entry) := by
  cases items with
  | nil => exact absurd rfl nonempty
  | cons first rest =>
      have sum := (terms first List.mem_cons_self).isSum.plus_all written entry
        fun later found => terms later (List.mem_cons_of_mem _ found)
      rw [List.map_cons, intercalate_cons, List.flatMap_map]
      exact sum

theorem IsSum.parse_eq {text : String} (sum : IsSum v k text.toList entries) :
    ∃ p, Polynomial.parse v.polynomial? text = .ok p ∧ p.degree ≤ k ∧
      ∀ weigh, p.terms.total weigh = entries.total weigh := by
  obtain ⟨lexemes, e, sum, -, p, expanded, small, total⟩ := sum
  refine ⟨p, ?_, small, total⟩
  rw [Polynomial.parse, sum.parse_eq]
  exact expanded

theorem IsSum.covers {text : String} (sum : IsSum v k text.toList entries) : v.Covers text := by
  obtain ⟨lexemes, e, sum, declared, -⟩ := sum
  obtain ⟨tokens, cut, shape, -⟩ := sum.tokenize_eq
  refine ⟨tokens, cut, fun token member name named => declared name ?_⟩
  have among : Lexeme.identifier name ∈ lexemes ++ [.endOfInput] := by
    rw [← shape, ← named]
    exact List.mem_map_of_mem member
  simpa using among

theorem IsSum.visible {text : String} (sum : IsSum v k text.toList entries) :
    ∃ c ∈ text.toList, Text.isBlank c = false := by
  obtain ⟨lexemes, e, sum, -⟩ := sum
  have solid := sum.solid .nil
  rw [List.append_nil] at solid
  cases begins : text.toList with
  | nil => exact absurd begins sum.ne_nil
  | cons c more =>
      rw [begins] at solid
      exact ⟨c, List.mem_cons_self, (solid c rfl).1⟩

end

end StrategyQubo
