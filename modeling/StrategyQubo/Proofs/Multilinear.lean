import Mathlib.Data.List.Lex
import StrategyQubo.Proofs.ExactNumbers
import StrategyQubo.Qubo.Polynomial

namespace StrategyQubo

/-! # Values of multilinear polynomials

An assignment gives every variable a bit.  The operations on polynomials are
the operations on their values there, and the representation they keep is the
canonical one.
-/

namespace Sparse

/-! ## Weighted totals -/

/-- The sum of the coefficients, each times the weight of its key. -/
def total {K : Type} (weigh : K → Rat) (entries : Sparse K Rat) : Rat :=
  (entries.map fun entry => entry.2 * weigh entry.1).sum

section

variable {K : Type} (weigh : K → Rat)

@[simp] theorem total_nil : total weigh [] = 0 := rfl

@[simp] theorem total_cons (entry : K × Rat) (rest : Sparse K Rat) :
    total weigh (entry :: rest) = entry.2 * weigh entry.1 + total weigh rest := by
  simp [total]

@[simp] theorem total_append (first second : Sparse K Rat) :
    total weigh (first ++ second) = total weigh first + total weigh second := by
  simp [total]

theorem total_option (key : K) (c : Option Rat) :
    total weigh (c.toList.map (key, ·)) = c.getD 0 * weigh key := by
  cases c <;> simp

theorem total_add_weights (weigh' : K → Rat) (entries : Sparse K Rat) :
    total (fun key => weigh key + weigh' key) entries = total weigh entries + total weigh' entries := by
  induction entries with
  | nil => simp
  | cons entry rest ih =>
      simp only [total_cons, ih]
      ring

theorem total_mul_weights (factor : Rat) (entries : Sparse K Rat) :
    total (fun key => factor * weigh key) entries = factor * total weigh entries := by
  induction entries with
  | nil => simp
  | cons entry rest ih =>
      simp only [total_cons, ih]
      ring

theorem total_scaled (factor : Rat) (entries : Sparse K Rat) :
    total weigh (entries.map fun entry => (entry.1, entry.2 * factor)) =
      factor * total weigh entries := by
  induction entries with
  | nil => simp
  | cons entry rest ih =>
      simp only [List.map_cons, total_cons, ih]
      ring

/-- Totals are added up key by key. -/
theorem sum_total {ι : Type} (l : List ι) (factor : ι → Rat) (weighs : ι → K → Rat)
    (entries : Sparse K Rat) :
    (l.map fun i => factor i * total (weighs i) entries).sum =
      total (fun key => (l.map fun i => factor i * weighs i key).sum) entries := by
  induction l with
  | nil => simp [total]
  | cons i rest ih =>
      simp only [List.map_cons, List.sum_cons, ih, total_add_weights, total_mul_weights]

end

section

variable {K : Type} [DecidableEq K] [LT K] [DecidableLT K] {change : Option Rat → Option Rat}

/-- A change that adds to what is kept under a key adds to every total. -/
theorem total_alter {added : Rat} (adds : ∀ old, (change old).getD 0 = old.getD 0 + added)
    (weigh : K → Rat) (key : K) (entries : Sparse K Rat) :
    total weigh (alter change key entries) = total weigh entries + added * weigh key := by
  induction entries with
  | nil =>
      have fresh := adds none
      rw [alter, total_option, fresh]
      simp
  | cons entry rest ih =>
      obtain ⟨other, c⟩ := entry
      rw [alter]
      split
      · next same =>
        have kept := adds (some c)
        rw [total_append, total_option, kept, same, total_cons]
        simp only [Option.getD_some]
        ring
      · split
        · have fresh := adds none
          rw [total_append, total_option, fresh]
          simp only [Option.getD_none]
          ring
        · rw [total_cons, total_cons, ih]
          ring

theorem mem_alter {key : K} {entry : K × Rat} {entries : Sparse K Rat}
    (member : entry ∈ alter change key entries) :
    entry ∈ entries ∨ entry.1 = key ∧ ∃ old, change old = some entry.2 := by
  have placed : ∀ old, entry ∈ (change old).toList.map (key, ·) →
      entry.1 = key ∧ ∃ old, change old = some entry.2 := by
    intro old found
    obtain ⟨c, given, rfl⟩ := List.mem_map.mp found
    exact ⟨rfl, old, Option.mem_toList.mp given⟩
  induction entries with
  | nil => exact .inr (placed none member)
  | cons head rest ih =>
      obtain ⟨other, c⟩ := head
      rw [alter] at member
      split at member
      · rcases List.mem_append.mp member with found | later
        · exact .inr (placed _ found)
        · exact .inl (List.mem_cons_of_mem _ later)
      · split at member
        · rcases List.mem_append.mp member with found | kept
          · exact .inr (placed _ found)
          · exact .inl kept
        · rcases List.mem_cons.mp member with rfl | later
          · exact .inl List.mem_cons_self
          · exact (ih later).imp_left (List.mem_cons_of_mem _)

theorem isSorted_alter [IsStrictTotalOrder K (· < ·)] (key : K) {entries : Sparse K Rat}
    (sorted : entries.IsSorted) : (alter change key entries).IsSorted := by
  have single : ∀ (old : Option Rat) (later : Sparse K Rat), later.IsSorted →
      (∀ entry ∈ later, key < entry.1) →
      IsSorted ((change old).toList.map (key, ·) ++ later) := by
    intro old later laterSorted above
    cases change old with
    | none => exact laterSorted
    | some c => exact List.pairwise_cons.mpr ⟨above, laterSorted⟩
  induction entries with
  | nil => simpa only [alter, List.append_nil] using single none [] List.Pairwise.nil (by simp)
  | cons head rest ih =>
      obtain ⟨other, c⟩ := head
      obtain ⟨above, restSorted⟩ := List.pairwise_cons.mp sorted
      rw [alter]
      split
      · next same => exact single _ rest restSorted (fun entry found => same ▸ above entry found)
      · next different =>
        split
        · next before =>
          refine single none _ sorted ?_
          intro entry found
          rcases List.mem_cons.mp found with rfl | later
          · exact before
          · exact trans_of (· < ·) before (above entry later)
        · next notBefore =>
          have behind : other < key :=
            ((trichotomous_of (· < ·) key other).resolve_left notBefore).resolve_left different
          refine List.pairwise_cons.mpr ⟨?_, ih restSorted⟩
          intro entry found
          rcases mem_alter found with kept | ⟨placed, -⟩
          · exact above entry kept
          · exact placed ▸ behind

end

end Sparse

/-! ## Single keys -/

/-- Whether it is the key. -/
def indicator {K : Type} [DecidableEq K] (key other : K) : Rat :=
  if other = key then 1 else 0

theorem Sparse.total_indicator_eq_zero {K : Type} [DecidableEq K] {key : K}
    {entries : Sparse K Rat} (absent : ∀ entry ∈ entries, entry.1 ≠ key) :
    entries.total (indicator key) = 0 := by
  refine List.sum_eq_zero fun c member => ?_
  obtain ⟨entry, found, rfl⟩ := List.mem_map.mp member
  rw [indicator, if_neg (absent entry found), mul_zero]

theorem Sparse.total_indicator_of_mem {K : Type} [DecidableEq K] {entries : Sparse K Rat}
    (distinct : (entries.map (·.1)).Nodup) {entry : K × Rat} (member : entry ∈ entries) :
    entries.total (indicator entry.1) = entry.2 := by
  induction entries with
  | nil => cases member
  | cons head rest ih =>
      obtain ⟨fresh, distinct⟩ := List.nodup_cons.mp distinct
      rw [total_cons]
      rcases List.mem_cons.mp member with rfl | behind
      · rw [indicator, if_pos rfl, mul_one, total_indicator_eq_zero, add_zero]
        exact fun later found same => fresh (List.mem_map.mpr ⟨later, found, same⟩)
      · have other : head.1 ≠ entry.1 := fun same =>
          fresh (List.mem_map.mpr ⟨entry, behind, same.symm⟩)
        rw [indicator, if_neg other, mul_zero, zero_add, ih distinct behind]

/-- What is kept under a key is the total that counts this key alone. -/
theorem Sparse.total_indicator_eq_get? {K : Type} [DecidableEq K] {entries : Sparse K Rat}
    (distinct : (entries.map (·.1)).Nodup) (key : K) :
    entries.total (indicator key) = (entries.get? key).getD 0 := by
  unfold get?
  cases found : entries.lookup key with
  | none =>
      refine total_indicator_eq_zero fun entry member same => ?_
      have absent := List.lookup_eq_none_iff.mp found entry member
      simp [same] at absent
  | some c =>
      obtain ⟨before, after, split, -⟩ := List.lookup_eq_some_iff.mp found
      have member : (key, c) ∈ entries := by
        rw [split]
        simp
      exact total_indicator_of_mem distinct member

/-! ## Monomials -/

def bitValue (bit : Bool) : Rat :=
  if bit then 1 else 0

/-- The bits of a list as an assignment; the variables behind it are zero. -/
def assignmentOf (bits : List Bool) (i : Nat) : Bool :=
  bits.getD i false

theorem assignmentOf_of_lt {bits : List Bool} {i : Nat} (within : i < bits.length) :
    assignmentOf bits i = bits[i] := by
  simp [assignmentOf, within]

theorem assignmentOf_append {bits more : List Bool} {i : Nat} (within : i < bits.length) :
    assignmentOf (bits ++ more) i = assignmentOf bits i := by
  simp [assignmentOf, List.getElem?_append_left within]

theorem bitValue_mul_self (bit : Bool) : bitValue bit * bitValue bit = bitValue bit := by
  cases bit <;> simp [bitValue]

theorem bitValue_nonneg (bit : Bool) : 0 ≤ bitValue bit := by
  cases bit <;> simp [bitValue]

theorem bitValue_le_one (bit : Bool) : bitValue bit ≤ 1 := by
  cases bit <;> simp [bitValue]

namespace Monomial

/-- The product of the bits. -/
def value (x : Nat → Bool) (m : Monomial) : Rat :=
  (m.map fun i => bitValue (x i)).prod

/-- The indices rise and stay below the number of variables. -/
structure Fits (size : Nat) (m : Monomial) : Prop where
  rising : m.Pairwise (· < ·)
  within : ∀ i ∈ m, i < size

variable {size : Nat} {m n : Monomial} {x y : Nat → Bool}

@[simp] theorem value_nil (x : Nat → Bool) : value x [] = 1 := rfl

@[simp] theorem value_cons (x : Nat → Bool) (i : Nat) (rest : Monomial) :
    value x (i :: rest) = bitValue (x i) * value x rest := by
  simp [value]

theorem value_bounds (x : Nat → Bool) (m : Monomial) : 0 ≤ value x m ∧ value x m ≤ 1 := by
  induction m with
  | nil => simp
  | cons i rest ih =>
      rw [value_cons]
      exact ⟨mul_nonneg (bitValue_nonneg _) ih.1,
        mul_le_one₀ (bitValue_le_one _) ih.1 ih.2⟩

theorem exists_int_value (x : Nat → Bool) (m : Monomial) : ∃ k : Int, value x m = k := by
  induction m with
  | nil => exact ⟨1, by simp⟩
  | cons i rest ih =>
      obtain ⟨k, whole⟩ := ih
      cases bit : x i with
      | false => exact ⟨0, by simp [bit, bitValue]⟩
      | true => exact ⟨k, by simp [bit, bitValue, whole]⟩

theorem value_congr (agree : ∀ i ∈ m, x i = y i) : value x m = value y m := by
  unfold value
  congr 1
  exact List.map_congr_left fun i found => by rw [agree i found]

theorem value_insert (x : Nat → Bool) (i : Nat) (m : Monomial) :
    value x (insert i m) = bitValue (x i) * value x m := by
  induction m with
  | nil => simp [insert]
  | cons other rest ih =>
      rw [insert]
      split
      · next same =>
        rw [value_cons, same, ← mul_assoc, bitValue_mul_self]
      · split
        · simp
        · rw [value_cons, value_cons, ih]
          ring

theorem value_mul (x : Nat → Bool) (m n : Monomial) :
    value x (m.mul n) = value x m * value x n := by
  induction m with
  | nil => simp [mul]
  | cons i rest ih =>
      change value x (insert i (mul rest n)) = _
      rw [value_insert, ih, value_cons, mul_assoc]

theorem mem_insert {i j : Nat} : j ∈ insert i m ↔ j = i ∨ j ∈ m := by
  induction m with
  | nil => simp [insert]
  | cons other rest ih =>
      rw [insert]
      split
      · next same => simp [same]
      · split
        · simp
        · rw [List.mem_cons, ih, List.mem_cons]
          tauto

theorem fits_nil (size : Nat) : Fits size [] :=
  ⟨List.Pairwise.nil, by simp⟩

theorem fits_single {i : Nat} (within : i < size) : Fits size [i] :=
  ⟨List.pairwise_singleton _ _, by simpa using within⟩

theorem Fits.insert {i : Nat} (fits : Fits size m) (within : i < size) :
    Fits size (insert i m) := by
  refine ⟨?_, ?_⟩
  · have rising := fits.rising
    clear fits
    induction m with
    | nil => exact List.pairwise_singleton _ _
    | cons other rest ih =>
        obtain ⟨above, restRising⟩ := List.pairwise_cons.mp rising
        rw [Monomial.insert]
        split
        · exact rising
        · next different =>
          split
          · next before =>
            refine List.pairwise_cons.mpr ⟨?_, rising⟩
            intro j found
            rcases List.mem_cons.mp found with rfl | later
            · exact before
            · exact lt_trans before (above j later)
          · next notBefore =>
            refine List.pairwise_cons.mpr ⟨?_, ih restRising⟩
            intro j found
            rcases mem_insert.mp found with rfl | kept
            · omega
            · exact above j kept
  · intro j found
    rcases mem_insert.mp found with rfl | kept
    · exact within
    · exact fits.within j kept

theorem Fits.mul (first : Fits size m) (second : Fits size n) : Fits size (m.mul n) := by
  obtain ⟨-, within⟩ := first
  induction m with
  | nil => exact second
  | cons i rest ih =>
      exact (ih fun j found => within j (List.mem_cons_of_mem _ found)).insert
        (within i List.mem_cons_self)

theorem Fits.mono {larger : Nat} (fits : Fits size m) (atMost : size ≤ larger) :
    Fits larger m :=
  ⟨fits.rising, fun i found => lt_of_lt_of_le (fits.within i found) atMost⟩

end Monomial

/-! ## Polynomials -/

namespace Polynomial

def value (x : Nat → Bool) (p : Polynomial Rat) : Rat :=
  p.terms.total (Monomial.value x)

/-- The monomials rise strictly, none has a variable from `size` on, and no
coefficient is zero. -/
structure Canonical (size : Nat) (p : Polynomial Rat) : Prop where
  sorted : p.terms.IsSorted
  fits : ∀ term ∈ p.terms, term.1.Fits size
  nonzero : ∀ term ∈ p.terms, term.2 ≠ 0

variable {size : Nat} {p q : Polynomial Rat} {x y : Nat → Bool}

/-! ### Totals of the operations -/

section

variable (weigh : Monomial → Rat)

theorem merge_adds (c : Rat) (old : Option Rat) : (merge c old).getD 0 = old.getD 0 + c := by
  unfold merge
  dsimp only
  split
  · next zero => exact ((Coefficient.isZero_iff _).mp zero).symm
  · rfl

theorem total_addTerm (p : Polynomial Rat) (m : Monomial) (c : Rat) :
    (p.addTerm m c).terms.total weigh = p.terms.total weigh + c * weigh m := by
  unfold addTerm
  split
  · next zero =>
    rw [(Coefficient.isZero_iff c).mp zero]
    simp
  · exact Sparse.total_alter (merge_adds c) weigh m p.terms

theorem total_constant (c : Rat) : (constant c).terms.total weigh = c * weigh [] := by
  rw [constant, total_addTerm, zero, Sparse.total_nil, zero_add]

theorem total_binary (i : Nat) : (binary i : Polynomial Rat).terms.total weigh = weigh [i] := by
  rw [binary, total_addTerm, zero, Sparse.total_nil]
  simp

theorem total_add (p q : Polynomial Rat) :
    (p.add q).terms.total weigh = p.terms.total weigh + q.terms.total weigh := by
  unfold add
  generalize q.terms = entries
  induction entries generalizing p with
  | nil => simp
  | cons entry rest ih =>
      rw [List.foldl_cons, ih, total_addTerm, Sparse.total_cons]
      ring

theorem total_scale (p : Polynomial Rat) (factor : Rat) :
    (p.scale factor).terms.total weigh = factor * p.terms.total weigh := by
  unfold scale
  split
  · next zero =>
    rw [(Coefficient.isZero_iff factor).mp zero, Polynomial.zero, Sparse.total_nil]
    simp
  · exact Sparse.total_scaled weigh factor p.terms

theorem total_sub (p q : Polynomial Rat) :
    (p.sub q).terms.total weigh = p.terms.total weigh - q.terms.total weigh := by
  rw [sub, total_add, total_scale]
  ring

theorem total_mul (p q : Polynomial Rat) :
    (p.mul q).terms.total weigh =
      p.terms.total fun a => q.terms.total fun b => weigh (a.mul b) := by
  have row : ∀ (a : Monomial) (ca : Rat) (entries : Sparse Monomial Rat) (product : Polynomial Rat),
      (entries.foldl (fun product (b, cb) => product.addTerm (a.mul b) (ca * cb)) product).terms.total
        weigh = product.terms.total weigh + ca * entries.total fun b => weigh (a.mul b) := by
    intro a ca entries
    induction entries with
    | nil => simp
    | cons entry rest ih =>
        intro product
        rw [List.foldl_cons, ih, total_addTerm, Sparse.total_cons]
        ring
  have rows : ∀ (entries : Sparse Monomial Rat) (product : Polynomial Rat),
      (entries.foldl (fun product (a, ca) =>
        q.terms.foldl (fun product (b, cb) =>
          product.addTerm (a.mul b) (ca * cb)) product) product).terms.total weigh =
      product.terms.total weigh +
        entries.total fun a => q.terms.total fun b => weigh (a.mul b) := by
    intro entries
    induction entries with
    | nil => simp
    | cons entry rest ih =>
        intro product
        rw [List.foldl_cons, ih, row, Sparse.total_cons]
        ring
  rw [mul, rows, zero, Sparse.total_nil, zero_add]

end

/-! ### Values of the operations -/

@[simp] theorem value_zero (x : Nat → Bool) : (zero : Polynomial Rat).value x = 0 := rfl

@[simp] theorem value_constant (x : Nat → Bool) (c : Rat) : (constant c).value x = c := by
  rw [value, total_constant, Monomial.value_nil, mul_one]

@[simp] theorem value_binary (x : Nat → Bool) (i : Nat) :
    (binary i : Polynomial Rat).value x = bitValue (x i) := by
  rw [value, total_binary]
  simp

@[simp] theorem value_add (x : Nat → Bool) (p q : Polynomial Rat) :
    (p.add q).value x = p.value x + q.value x :=
  total_add _ p q

@[simp] theorem value_scale (x : Nat → Bool) (p : Polynomial Rat) (factor : Rat) :
    (p.scale factor).value x = factor * p.value x :=
  total_scale _ p factor

@[simp] theorem value_sub (x : Nat → Bool) (p q : Polynomial Rat) :
    (p.sub q).value x = p.value x - q.value x :=
  total_sub _ p q

@[simp] theorem value_spin (x : Nat → Bool) (i : Nat) :
    (spin i : Polynomial Rat).value x = 2 * bitValue (x i) - 1 := by
  rw [spin, value_sub, value_scale, value_binary, value_constant]
  ring

@[simp] theorem value_mul (x : Nat → Bool) (p q : Polynomial Rat) :
    (p.mul q).value x = p.value x * q.value x := by
  unfold value
  rw [total_mul]
  induction p.terms with
  | nil => simp
  | cons entry rest ih =>
      have inner : (q.terms.total fun b => Monomial.value x (entry.1.mul b)) =
          Monomial.value x entry.1 * q.terms.total (Monomial.value x) := by
        induction q.terms with
        | nil => simp
        | cons other later ih' =>
            rw [Sparse.total_cons, ih', Sparse.total_cons, Monomial.value_mul]
            ring
      rw [Sparse.total_cons, Sparse.total_cons, ih, inner]
      ring

@[simp] theorem value_square (x : Nat → Bool) (p : Polynomial Rat) :
    p.square.value x = p.value x ^ 2 := by
  rw [square, value_mul, pow_two]

@[simp] theorem value_powerOf (x : Nat → Bool) (p : Polynomial Rat) (n : Nat) :
    (p.powerOf n).value x = p.value x ^ n := by
  induction n with
  | zero => simp [powerOf]
  | succ n ih => rw [powerOf, value_mul, ih, pow_succ]

/-! ### The canonical form -/

theorem canonical_zero (size : Nat) : Canonical size zero :=
  ⟨List.Pairwise.nil, by simp [zero], by simp [zero]⟩

theorem Canonical.addTerm {m : Monomial} (canonical : Canonical size p) (fits : m.Fits size)
    (c : Rat) : Canonical size (p.addTerm m c) := by
  unfold Polynomial.addTerm
  split
  · exact canonical
  · refine ⟨Sparse.isSorted_alter m canonical.sorted, ?_, ?_⟩
    · intro term member
      rcases Sparse.mem_alter member with kept | ⟨placed, -⟩
      · exact canonical.fits term kept
      · exact placed ▸ fits
    · intro term member
      rcases Sparse.mem_alter member with kept | ⟨-, old, merged⟩
      · exact canonical.nonzero term kept
      · unfold merge at merged
        dsimp only at merged
        split at merged
        · cases merged
        · next nonzero =>
          have sum := Option.some.inj merged
          exact fun vanishes => nonzero ((Coefficient.isZero_iff _).mpr (sum.trans vanishes))

theorem canonical_constant (size : Nat) (c : Rat) : Canonical size (constant c) :=
  (canonical_zero size).addTerm (Monomial.fits_nil size) c

theorem canonical_binary {i : Nat} (within : i < size) : Canonical size (binary i) :=
  (canonical_zero size).addTerm (Monomial.fits_single within) 1

theorem Canonical.addTerms {entries : Sparse Monomial Rat} (canonical : Canonical size p)
    (fits : ∀ entry ∈ entries, entry.1.Fits size) (scaling : Rat → Rat) :
    Canonical size
      (entries.foldl (fun sum (m, c) => sum.addTerm m (scaling c)) p) := by
  induction entries generalizing p with
  | nil => exact canonical
  | cons entry rest ih =>
      exact ih (canonical.addTerm (fits entry List.mem_cons_self) _)
        fun later found => fits later (List.mem_cons_of_mem _ found)

theorem Canonical.add (first : Canonical size p) (second : Canonical size q) :
    Canonical size (p.add q) :=
  first.addTerms second.fits id

theorem Canonical.scale (canonical : Canonical size p) (factor : Rat) :
    Canonical size (p.scale factor) := by
  unfold Polynomial.scale
  split
  · exact canonical_zero size
  · next nonzero =>
    have factorNonzero : factor ≠ 0 := fun vanishes =>
      nonzero ((Coefficient.isZero_iff factor).mpr vanishes)
    refine ⟨List.pairwise_map.mpr canonical.sorted, ?_, ?_⟩
    · intro term member
      obtain ⟨old, found, rfl⟩ := List.mem_map.mp member
      exact canonical.fits old found
    · intro term member
      obtain ⟨old, found, rfl⟩ := List.mem_map.mp member
      exact mul_ne_zero (canonical.nonzero old found) factorNonzero

theorem Canonical.sub (first : Canonical size p) (second : Canonical size q) :
    Canonical size (p.sub q) :=
  first.add (second.scale (-1))

theorem canonical_spin {i : Nat} (within : i < size) : Canonical size (spin i) :=
  ((canonical_binary within).scale _).sub (canonical_constant size 1)

theorem Canonical.mul (first : Canonical size p) (second : Canonical size q) :
    Canonical size (p.mul q) := by
  have rows : ∀ (entries : Sparse Monomial Rat) (product : Polynomial Rat),
      (∀ entry ∈ entries, entry.1.Fits size) → Canonical size product →
      Canonical size (entries.foldl (fun product (a, ca) =>
        q.terms.foldl (fun product (b, cb) =>
          product.addTerm (a.mul b) (ca * cb)) product) product) := by
    intro entries
    induction entries with
    | nil => exact fun product _ canonical => canonical
    | cons entry rest ih =>
        intro product fits canonical
        refine ih _ (fun later found => fits later (List.mem_cons_of_mem _ found)) ?_
        have fitsProduct : ∀ other ∈ q.terms.map fun t => (entry.1.mul t.1, t.2),
            other.1.Fits size := by
          intro other member
          obtain ⟨factor, found, rfl⟩ := List.mem_map.mp member
          exact (fits entry List.mem_cons_self).mul (second.fits factor found)
        have extended := canonical.addTerms fitsProduct (entry.2 * ·)
        rwa [List.foldl_map] at extended
  exact rows p.terms zero first.fits (canonical_zero size)

theorem Canonical.square (canonical : Canonical size p) : Canonical size p.square :=
  canonical.mul canonical

theorem Canonical.powerOf (canonical : Canonical size p) (n : Nat) :
    Canonical size (p.powerOf n) := by
  induction n with
  | zero => exact canonical_constant size 1
  | succ n ih => exact ih.mul canonical

theorem Canonical.mono {larger : Nat} (canonical : Canonical size p) (atMost : size ≤ larger) :
    Canonical larger p :=
  ⟨canonical.sorted, fun term member => (canonical.fits term member).mono atMost,
    canonical.nonzero⟩

theorem Canonical.value_congr (canonical : Canonical size p) (agree : ∀ i < size, x i = y i) :
    p.value x = p.value y := by
  unfold value Sparse.total
  congr 1
  refine List.map_congr_left fun term member => ?_
  rw [Monomial.value_congr fun i found => agree i ((canonical.fits term member).within i found)]

theorem Canonical.value_append {bits more : List Bool} (canonical : Canonical size p)
    (enough : size ≤ bits.length) :
    p.value (assignmentOf (bits ++ more)) = p.value (assignmentOf bits) :=
  canonical.value_congr fun _ below => assignmentOf_append (lt_of_lt_of_le below enough)

end Polynomial

end StrategyQubo
