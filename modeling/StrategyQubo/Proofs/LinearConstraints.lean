import StrategyQubo.Proofs.DefaultPenalty

namespace StrategyQubo

open StrategyQubo.Script

/-! # Documents of linear equations

A quadratic objective under linear equations always expands: no term of the
sum has more than two variables.
-/

/-! ## Degrees -/

theorem Monomial.length_insert_le (i : Nat) (m : Monomial) :
    (insert i m).length ≤ m.length + 1 := by
  induction m with
  | nil => simp [insert]
  | cons other rest ih =>
      rw [insert]
      split
      · simp
      · split
        · simp
        · simp only [List.length_cons]
          omega

theorem Monomial.length_mul_le (m n : Monomial) : (m.mul n).length ≤ m.length + n.length := by
  induction m with
  | nil => simp [mul]
  | cons i rest ih =>
      have step := length_insert_le i (mul rest n)
      change (insert i (mul rest n)).length ≤ _
      rw [List.length_cons]
      omega

namespace Polynomial

variable {p q : Polynomial Rat} {k l : Nat}

theorem degree_le_iff : p.degree ≤ k ↔ ∀ term ∈ p.terms, term.1.length ≤ k := by
  refine ⟨fun small term member => le_trans (length_le_degree member) small, fun short => ?_⟩
  unfold degree
  suffices bounded : ∀ (entries : Sparse Monomial Rat) (most : Nat),
      most ≤ k → (∀ term ∈ entries, term.1.length ≤ k) →
      entries.foldl (fun most entry => max most entry.1.length) most ≤ k from
    bounded p.terms 0 (Nat.zero_le k) short
  intro entries
  induction entries with
  | nil => exact fun most atMost _ => atMost
  | cons term rest ih =>
      intro most atMost short
      exact ih _ (max_le atMost (short term List.mem_cons_self))
        fun later found => short later (List.mem_cons_of_mem _ found)

theorem degree_addTerm_le {m : Monomial} (small : p.degree ≤ k) (short : m.length ≤ k) (c : Rat) :
    (p.addTerm m c).degree ≤ k := by
  unfold addTerm
  split
  · exact small
  · refine degree_le_iff.mpr fun term member => ?_
    rcases Sparse.mem_alter member with kept | ⟨placed, -⟩
    · exact degree_le_iff.mp small term kept
    · exact placed ▸ short

theorem degree_constant_le (c : Rat) : (constant c).degree ≤ 0 :=
  degree_addTerm_le (le_refl 0) (le_refl 0) c

theorem degree_binary_le (i : Nat) : (binary i : Polynomial Rat).degree ≤ 1 :=
  degree_addTerm_le (Nat.zero_le 1) (le_refl 1) 1

theorem degree_addTerms_le {entries : Sparse Monomial Rat} (small : p.degree ≤ k)
    (short : ∀ entry ∈ entries, entry.1.length ≤ k) (scaling : Rat → Rat) :
    (entries.foldl (fun sum (m, c) => sum.addTerm m (scaling c)) p).degree ≤ k := by
  induction entries generalizing p with
  | nil => exact small
  | cons entry rest ih =>
      exact ih (degree_addTerm_le small (short entry List.mem_cons_self) _)
        fun later found => short later (List.mem_cons_of_mem _ found)

theorem degree_add_le (first : p.degree ≤ k) (second : q.degree ≤ k) : (p.add q).degree ≤ k :=
  degree_addTerms_le first (degree_le_iff.mp second) id

theorem degree_scale_le (small : p.degree ≤ k) (factor : Rat) : (p.scale factor).degree ≤ k := by
  unfold scale
  split
  · exact Nat.zero_le k
  · refine degree_le_iff.mpr fun term member => ?_
    obtain ⟨old, found, rfl⟩ := List.mem_map.mp member
    exact degree_le_iff.mp small old found

theorem degree_sub_le (first : p.degree ≤ k) (second : q.degree ≤ k) : (p.sub q).degree ≤ k :=
  degree_add_le first (degree_scale_le second (-1))

theorem degree_mul_le (first : p.degree ≤ k) (second : q.degree ≤ l) :
    (p.mul q).degree ≤ k + l := by
  have rows : ∀ (entries : Sparse Monomial Rat) (product : Polynomial Rat),
      (∀ entry ∈ entries, entry.1.length ≤ k) → product.degree ≤ k + l →
      (entries.foldl (fun product (a, ca) =>
        q.terms.foldl (fun product (b, cb) =>
          product.addTerm (a.mul b) (ca * cb)) product) product).degree ≤ k + l := by
    intro entries
    induction entries with
    | nil => exact fun product _ small => small
    | cons entry rest ih =>
        intro product short small
        refine ih _ (fun later found => short later (List.mem_cons_of_mem _ found)) ?_
        have shortProduct : ∀ other ∈ q.terms.map fun t => (entry.1.mul t.1, t.2),
            other.1.length ≤ k + l := by
          intro other member
          obtain ⟨factor, found, rfl⟩ := List.mem_map.mp member
          exact le_trans (Monomial.length_mul_le _ _)
            (Nat.add_le_add (short entry List.mem_cons_self) (degree_le_iff.mp second factor found))
        have extended := degree_addTerms_le small shortProduct (entry.2 * ·)
        rwa [List.foldl_map] at extended
  exact rows p.terms zero (degree_le_iff.mp first) (Nat.zero_le _)

end Polynomial

/-! ## Expansion -/

namespace Expansion

variable {v : Variables} {e : Expansion Rat}

theorem toQubo_isOk (quadratic : e.total.degree ≤ 2) : ∃ q, e.toQubo = .ok q := by
  have added : ∀ (m : Monomial) (c : Rat) (q : Qubo Rat), m.length ≤ 2 →
      ∃ q', addMonomial q m c = .ok q' := by
    intro m c q short
    match m, short with
    | [], _ => exact ⟨_, rfl⟩
    | [i], _ => exact ⟨_, rfl⟩
    | [i, j], _ => exact ⟨_, rfl⟩
  have short := Polynomial.degree_le_iff.mp quadratic
  unfold toQubo
  generalize Qubo.ofVariables (R := Rat) e.names = q
  generalize e.total.terms = terms at short
  induction terms generalizing q with
  | nil => exact ⟨q, rfl⟩
  | cons term rest ih =>
      obtain ⟨m, c⟩ := term
      obtain ⟨next, placed⟩ := added m c q (short (m, c) List.mem_cons_self)
      rw [List.foldlM_cons]
      change ∃ q', (addMonomial q m c >>= _) = .ok q'
      rw [placed]
      exact ih next fun later found => short later (List.mem_cons_of_mem _ found)

/-- An equation between linear expressions. -/
structure Linear (v : Variables) (c : Constraint) (lhs : Polynomial Rat) : Prop where
  equality : c.comparison = .equal
  parsed : Polynomial.parse v.polynomial? c.lhs = .ok lhs
  small : lhs.degree ≤ 1

theorem addConstraint_isOk {c : Constraint} {lhs : Polynomial Rat} (linear : Linear v c lhs)
    (penalty : Rat) (index : Nat) (quadratic : e.total.degree ≤ 2) :
    ∃ e', addConstraint v penalty index c e = .ok e' ∧ e'.total.degree ≤ 2 := by
  obtain ⟨equality, parsed, small⟩ := linear
  have missing : (lhs.sub (.constant (Number.toRat c.rhs))).degree ≤ 1 :=
    Polynomial.degree_sub_le small (le_trans (Polynomial.degree_constant_le _) (Nat.zero_le 1))
  have computed : c.residual index lhs e.names.length =
      .ok (lhs.sub (.constant (Number.toRat c.rhs)), []) := by
    rw [Constraint.residual, if_pos equality]
    rfl
  refine ⟨⟨e.names ++ slackNames index 0, e.total.add
    ((lhs.sub (.constant (Number.toRat c.rhs))).square.scale penalty)⟩, ?_,
    Polynomial.degree_add_le quadratic
      (Polynomial.degree_scale_le (Polynomial.degree_mul_le missing missing) penalty)⟩
  rw [addConstraint, parsed]
  change (c.residual index lhs e.names.length >>= _) = _
  rw [computed]
  rfl

theorem addConstraints_isOk {constraints : List Constraint}
    (linear : ∀ c ∈ constraints, ∃ lhs, Linear v c lhs) (penalty : Rat) (index : Nat)
    (quadratic : e.total.degree ≤ 2) :
    ∃ e', addConstraints v penalty index constraints e = .ok e' ∧ e'.total.degree ≤ 2 := by
  induction constraints generalizing index e with
  | nil => exact ⟨e, rfl, quadratic⟩
  | cons c rest ih =>
      obtain ⟨lhs, first⟩ := linear c List.mem_cons_self
      obtain ⟨next, added, small⟩ := addConstraint_isOk first penalty index quadratic
      obtain ⟨e', later, small'⟩ :=
        ih (fun other found => linear other (List.mem_cons_of_mem _ found)) (index + 1) small
      refine ⟨e', ?_, small'⟩
      rw [addConstraints, added]
      exact later

end Expansion

theorem Document.expand_isOk {d : Document} {objective : Polynomial Rat}
    (parsed : Polynomial.parse d.declared.polynomial? d.objective = .ok objective)
    (quadratic : objective.degree ≤ 2)
    (linear : ∀ c ∈ d.constraints, ∃ lhs, Expansion.Linear d.declared c lhs) :
    ∃ q : Qubo Rat, d.expand none = .ok q := by
  obtain ⟨e, added, small⟩ := Expansion.addConstraints_isOk (e := ⟨d.declared.names, objective⟩)
    linear (1 + objective.weight) 0 quadratic
  obtain ⟨q, finished⟩ := Expansion.toQubo_isOk small
  refine ⟨q, ?_⟩
  rw [Document.expand, parsed]
  change (Expansion.addConstraints d.declared (1 + objective.weight) 0 d.constraints
    ⟨d.declared.names, objective⟩ >>= Expansion.toQubo) = _
  rw [added]
  exact finished

end StrategyQubo
