import Mathlib.Logic.Function.Basic
import StrategyQubo.Proofs.ExpansionEnergy
import StrategyQubo.Qubo.Walk

namespace StrategyQubo

/-! # Flipping one variable

The couplings of a variable tell what flipping it adds to the energy: its own
term and those that it shares with variables that are one, all of them taken
away again if it was one itself.
-/

/-! ## Terms with the variable -/

namespace Pair

variable (x : Nat → Bool) (i : Nat)

/-- What a pair counts for the variable: its own pair counts once, and a pair
    with another variable counts when that one is one. -/
def share (pair : Pair) : Rat :=
  indicator (.of i i) pair + ((Couplings.partner? i pair).map fun j => bitValue (x j)).getD 0

theorem lt_iff {a b : Pair} : a < b ↔ a.low < b.low ∨ a.low = b.low ∧ a.high < b.high :=
  Iff.rfl

instance : IsStrictTotalOrder Pair (· < ·) where
  trichotomous := by
    rintro ⟨low, high, _⟩ ⟨low', high', _⟩ notBefore notBehind
    simp only [lt_iff, Pair.mk.injEq] at *
    omega
  irrefl := by
    rintro pair before
    rw [lt_iff] at before
    omega
  trans := by
    rintro first second third before behind
    rw [lt_iff] at *
    omega

theorem of_self : Pair.of i i = ⟨i, i, le_refl i⟩ :=
  dif_pos (le_refl i)

theorem value_flip (pair : Pair) :
    value (Function.update x i (!x i)) pair =
      value x pair + (if x i then -1 else 1) * share x i pair := by
  obtain ⟨low, high, ordered⟩ := pair
  simp only [value, share, indicator, of_self, Couplings.partner?, Pair.mk.injEq,
    Function.update_apply]
  by_cases same : low = high
  · subst same
    by_cases own : low = i
    · subst own
      cases x low <;> simp [bitValue]
    · simp [own]
  · by_cases first : low = i
    · subst first
      have apart : high ≠ low := fun equal => same equal.symm
      cases x low <;> cases other : x high <;> simp [bitValue, same, apart, other]
    · by_cases second : high = i
      · subst second
        cases x high <;> cases other : x low <;> simp [bitValue, same, other]
      · simp [same, first, second]

end Pair

namespace Qubo

theorem value_flip (x : Nat → Bool) (i : Nat) (q : Qubo Rat) :
    q.value (Function.update x i (!x i)) =
      q.value x + (if x i then -1 else 1) * q.terms.total (Pair.share x i) := by
  suffices split : q.terms.total (Pair.value (Function.update x i (!x i))) =
      q.terms.total (Pair.value x) +
        (if x i then -1 else 1) * q.terms.total (Pair.share x i) by
    rw [value, value, split]
    ring
  induction q.terms with
  | nil => simp
  | cons term rest ih =>
      rw [Sparse.total_cons, Sparse.total_cons, Sparse.total_cons, ih, Pair.value_flip]
      ring

/-- Adding to a term keeps the terms in the order of their pairs. -/
theorem addTerm_sorted {q : Qubo Rat} (sorted : q.terms.IsSorted) (i j : Nat) (c : Rat) :
    (q.addTerm i j c).terms.IsSorted :=
  Sparse.isSorted_alter _ sorted

/-- No pair has two terms. -/
theorem distinct_of_sorted {q : Qubo Rat} (sorted : q.terms.IsSorted) :
    (q.terms.map (·.1)).Nodup := by
  refine List.pairwise_map.mpr (List.Pairwise.imp ?_ sorted)
  intro term other before same
  rw [same] at before
  exact irrefl_of (· < ·) other.1 before

end Qubo

/-! ## Couplings of the variable -/

namespace Couplings

variable {q : Qubo Rat} {i : Nat}

@[simp] theorem size_ofQubo {R : Type} [Coefficient R] (q : Qubo R) :
    (ofQubo q).size = q.size := by
  simp [size, ofQubo]

theorem linearOf_ofQubo (within : i < q.size) :
    (ofQubo q).linearOf i = (q.terms.get? (.of i i)).getD 0 := by
  have placed : (ofQubo q).linearOf i = alone q i := by
    simp [linearOf, ofQubo, within]
  rw [placed, alone, Qubo.term]
  split
  · next zero => exact ((Coefficient.isZero_iff _).mp zero).symm
  · rfl

theorem sum_filterMap {α : Type} (f : α → Option Rat) (l : List α) :
    (l.filterMap f).sum = (l.map fun a => (f a).getD 0).sum := by
  induction l with
  | nil => rfl
  | cons a rest ih =>
      rw [List.filterMap_cons, List.map_cons, List.sum_cons, ← ih]
      cases f a <;> simp

/-- The couplings with the neighbours that count. -/
theorem sum_neighbours (within : i < q.size) (counts : Nat → Bool) :
    (((ofQubo q).neighbours.getD i []).filterMap fun (j, coupling) =>
        if counts j then some coupling else none).sum =
      q.terms.total fun pair => ((partner? i pair).map fun j => bitValue (counts j)).getD 0 := by
  have placed : (ofQubo q).neighbours.getD i [] = neighboursOf q i := by
    simp [ofQubo, within]
  rw [placed, neighboursOf, List.filterMap_filterMap, sum_filterMap, Sparse.total]
  refine congrArg List.sum (List.map_congr_left fun term _ => ?_)
  obtain ⟨pair, c⟩ := term
  by_cases zero : c = 0
  · simp [zero, Coefficient.isZero_iff]
  · cases partner : partner? i pair with
    | none => simp [partner]
    | some j => cases on : counts j <;> simp_all [bitValue, Coefficient.isZero_iff]

theorem sum_active (within : i < q.size) (state : Array Bool) :
    ((ofQubo q).active state i).sum =
      q.terms.total fun pair =>
        ((partner? i pair).map fun j => bitValue (state.getD j false)).getD 0 :=
  sum_neighbours within (state.getD · false)

theorem change_ofQubo (sorted : q.terms.IsSorted) (within : i < q.size) (state : Array Bool) :
    (ofQubo q).change state i = (if state.getD i false then -1 else 1) *
      q.terms.total (Pair.share (state.getD · false) i) := by
  have parts : q.terms.total (Pair.share (state.getD · false) i) =
      q.terms.total (indicator (.of i i)) + q.terms.total fun pair =>
        ((partner? i pair).map fun j => bitValue (state.getD j false)).getD 0 :=
    Sparse.total_add_weights _ _ _
  rw [change, Coefficient.sum_eq, linearOf_ofQubo within, sum_active within, parts,
    Sparse.total_indicator_eq_get? (Qubo.distinct_of_sorted sorted)]
  split <;> ring

end Couplings

/-! ## The walk -/

namespace Walk

variable {q : Qubo Rat} {state : Array Bool} {i : Nat}

theorem assignmentOf_toggle (within : i < state.size) :
    assignmentOf (toggle state i).toList =
      Function.update (assignmentOf state.toList) i (!assignmentOf state.toList i) := by
  funext j
  by_cases same : j = i
  · subst same
    simp [assignmentOf, toggle, within]
  · have other : i ≠ j := fun equal => same equal.symm
    simp [assignmentOf, toggle, within, same, other]

/-- What a flip adds is the difference of the two energies. -/
theorem value_toggle (sorted : q.terms.IsSorted) (full : state.size = q.size)
    (within : i < q.size) :
    q.value (assignmentOf (toggle state i).toList) =
      q.value (assignmentOf state.toList) + (Couplings.ofQubo q).change state i := by
  have read : (fun j => state.getD j false) = assignmentOf state.toList := by
    funext j
    simp [assignmentOf]
  rw [assignmentOf_toggle (full ▸ within), Qubo.value_flip, Couplings.change_ofQubo sorted within,
    read, ← read]

end Walk

end StrategyQubo
