import StrategyQubo.Proofs.DefaultPenalty
import StrategyQubo.Proofs.FlipEnergy
import StrategyQubo.Proofs.GrayOrder
import StrategyQubo.Qubo.Solution

namespace StrategyQubo

/-! # Exhaustive search

Passing the assignments in the order of the Gray code meets each of them once
and always knows the energy of the one it is at, so that it ends with the first
one of least energy.
-/

namespace Walk

/-! ## The assignments passed -/

section

variable {R : Type} [Coefficient R]

@[simp] theorem flip_state (c : Couplings R) (w : Walk R) (i : Nat) :
    (w.flip c i).state = toggle w.state i := by
  unfold flip moveTo
  split <;> rfl

@[simp] theorem flip_energy (c : Couplings R) (w : Walk R) (i : Nat) :
    (w.flip c i).energy = w.energy + c.change w.state i := by
  unfold flip moveTo
  split <;> rfl

theorem toList_toggle (state : Array Bool) (i : Nat) :
    (toggle state i).toList = state.toList.set i (!state.toList.getD i false) := by
  simp [toggle]

theorem stage_state (c : Couplings R) (steps : Nat) :
    (stage c steps).state.toList = Bits.gray c.size steps := by
  induction steps with
  | zero => simp [stage, start, Bits.gray, List.map_const']
  | succ steps ih => rw [stage, flip_state, toList_toggle, ih, Bits.gray_succ]

@[simp] theorem stage_state_size (c : Couplings R) (steps : Nat) :
    (stage c steps).state.size = c.size := by
  rw [← Array.length_toList, stage_state, Bits.length_gray]

@[simp] theorem stage_best_size (c : Couplings R) (steps : Nat) :
    (stage c steps).best.size = c.size := by
  induction steps with
  | zero => simp [stage, start]
  | succ steps ih =>
      have sized : (toggle (stage c steps).state (padicValNat 2 (steps + 1))).size = c.size :=
        Array.size_setIfInBounds.trans (stage_state_size c steps)
      rw [stage, flip, moveTo]
      split
      · exact sized
      · exact ih

end

/-! ## The energies known -/

section

variable {q : Qubo Rat} {steps : Nat}

/-- The step flips one of the variables. -/
theorem padicValNat_lt {size : Nat} (below : steps + 1 < 2 ^ size) :
    padicValNat 2 (steps + 1) < size := by
  have atMost : 2 ^ padicValNat 2 (steps + 1) ≤ steps + 1 :=
    Nat.le_of_dvd (Nat.succ_pos _) pow_padicValNat_dvd
  exact (Nat.pow_lt_pow_iff_right one_lt_two).mp (lt_of_le_of_lt atMost below)

theorem value_of_false (q : Qubo Rat) {x : Nat → Bool} (off : ∀ i, x i = false) :
    q.value x = q.offset := by
  have nothing : q.terms.total (Pair.value x) = 0 := by
    refine List.sum_eq_zero fun c member => ?_
    obtain ⟨term, -, rfl⟩ := List.mem_map.mp member
    simp [Pair.value, off, bitValue]
  rw [Qubo.value, nothing, zero_add]

theorem stage_energy (sorted : q.terms.IsSorted) (below : steps < 2 ^ q.size) :
    (stage (.ofQubo q) steps).energy =
      q.value (assignmentOf (stage (.ofQubo q) steps).state.toList) := by
  induction steps with
  | zero =>
      refine (value_of_false q fun i => ?_).symm
      simp only [stage, start, assignmentOf, Array.toList_replicate, List.getD_eq_getElem?_getD,
        List.getElem?_replicate]
      split <;> rfl
  | succ steps ih =>
      have sized : (stage (.ofQubo q) steps).state.size = q.size := by simp
      rw [stage, flip_energy, flip_state, value_toggle sorted sized (padicValNat_lt below),
        ih (Nat.lt_of_succ_lt below)]

theorem stage_energy? (sorted : q.terms.IsSorted) (within : q.Within q.size)
    (below : steps < 2 ^ q.size) :
    q.energy? (stage (.ofQubo q) steps).state.toList =
      some (stage (.ofQubo q) steps).energy := by
  have full : q.Within (stage (.ofQubo q) steps).state.toList.length := by simpa using within
  rw [Qubo.energy?_eq full, stage_energy sorted below]

end

/-! ## The first of least energy -/

section

variable {c : Couplings Rat}

/-- Up to a stage, no other stage has less energy than this one, and those
    before it have more. -/
structure FirstLeast (c : Couplings Rat) (steps rank : Nat) : Prop where
  atMost : rank ≤ steps
  least : ∀ other ≤ steps, (stage c rank).energy ≤ (stage c other).energy
  first : ∀ earlier < rank, (stage c rank).energy < (stage c earlier).energy

theorem FirstLeast.zero (c : Couplings Rat) : FirstLeast c 0 0 where
  atMost := le_refl 0
  least := by
    intro other atMost
    rw [Nat.le_zero.mp atMost]
  first := by
    intro earlier before
    exact absurd before (Nat.not_lt_zero earlier)

theorem FirstLeast.replaced {steps rank : Nat} (found : FirstLeast c steps rank)
    (lower : (stage c (steps + 1)).energy < (stage c rank).energy) :
    FirstLeast c (steps + 1) (steps + 1) where
  atMost := le_refl _
  least := by
    intro other atMost
    rcases Nat.le_succ_iff.mp atMost with passed | rfl
    · exact le_of_lt (lt_of_lt_of_le lower (found.least other passed))
    · exact le_refl _
  first := by
    intro earlier before
    exact lt_of_lt_of_le lower (found.least earlier (Nat.le_of_lt_succ before))

theorem FirstLeast.kept {steps rank : Nat} (found : FirstLeast c steps rank)
    (higher : ¬ (stage c (steps + 1)).energy < (stage c rank).energy) :
    FirstLeast c (steps + 1) rank where
  atMost := Nat.le_succ_of_le found.atMost
  least := by
    intro other atMost
    rcases Nat.le_succ_iff.mp atMost with passed | rfl
    · exact found.least other passed
    · exact le_of_not_gt higher
  first := found.first

/-- The best assignment of a walk is that of the first stage with the least
    energy. -/
theorem stage_best (c : Couplings Rat) (steps : Nat) :
    ∃ rank, FirstLeast c steps rank ∧ (stage c steps).best = (stage c rank).state ∧
      (stage c steps).bestEnergy = (stage c rank).energy := by
  induction steps with
  | zero => exact ⟨0, .zero c, rfl, rfl⟩
  | succ steps ih =>
      obtain ⟨rank, found, best, bestEnergy⟩ := ih
      by_cases lower : (stage c (steps + 1)).energy < (stage c rank).energy
      · have better : (stage c steps).energy + c.change (stage c steps).state
            (padicValNat 2 (steps + 1)) < (stage c steps).bestEnergy := by
          rw [bestEnergy, ← flip_energy]
          exact lower
        refine ⟨steps + 1, found.replaced lower, ?_, ?_⟩
        · rw [stage, flip, moveTo, if_pos better]
        · rw [stage, flip, moveTo, if_pos better]
      · have worse : ¬ (stage c steps).energy + c.change (stage c steps).state
            (padicValNat 2 (steps + 1)) < (stage c steps).bestEnergy := by
          rw [bestEnergy, ← flip_energy]
          exact lower
        refine ⟨rank, found.kept lower, ?_, ?_⟩
        · rw [stage, flip, moveTo, if_neg worse]
          exact best
        · rw [stage, flip, moveTo, if_neg worse]
          exact bestEnergy

end

end Walk

/-! ## The search -/

namespace Qubo

open Walk

variable {q : Qubo Rat}

/-- The walk ends with the first assignment of least energy, and with that
    energy. -/
theorem exhaustive_best (sorted : q.terms.IsSorted) (within : q.Within q.size) :
    ∃ rank < 2 ^ q.size, (exhaustive (.ofQubo q)).best.toList = Bits.gray q.size rank ∧
      q.energy? (Bits.gray q.size rank) = some (exhaustive (.ofQubo q)).bestEnergy ∧
      q.IsMinimum (Bits.gray q.size rank) ∧
      ∀ earlier < rank, ¬ q.IsMinimum (Bits.gray q.size earlier) := by
  obtain ⟨rank, found, best, bestEnergy⟩ := stage_best (.ofQubo q) (2 ^ q.size - 1)
  have states := Couplings.size_ofQubo q ▸ stage_state (.ofQubo q)
  have positive : 0 < 2 ^ q.size := Nat.two_pow_pos _
  have below : ∀ other ≤ 2 ^ q.size - 1, other < 2 ^ q.size := by
    intro other atMost
    omega
  have known : ∀ other < 2 ^ q.size, q.energy? (Bits.gray q.size other) =
      some (stage (.ofQubo q) other).energy := by
    intro other inside
    rw [← states]
    exact stage_energy? sorted within inside
  have rankBelow := below rank found.atMost
  rw [exhaustive_eq_stage, Couplings.size_ofQubo, best, bestEnergy]
  refine ⟨rank, rankBelow, states rank, known rank rankBelow, ?_, ?_⟩
  · refine ⟨Bits.length_gray, _, known rank rankBelow, ?_⟩
    intro other energy full given
    obtain ⟨place, inside, shown⟩ := Bits.exists_gray_eq other
    rw [full] at inside shown
    rw [← shown, known place inside] at given
    obtain rfl := Option.some.inj given
    exact found.least place (Nat.le_sub_one_of_lt inside)
  · rintro earlier before ⟨-, least, given, isLeast⟩
    rw [known earlier (lt_trans before rankBelow)] at given
    obtain rfl := Option.some.inj given
    exact not_le_of_gt (found.first earlier before)
      (isLeast _ _ Bits.length_gray (known rank rankBelow))

/-- A solution lists the variables as the problem does, each with its bit of the
    best assignment. -/
theorem solveExhaustively_assignment {R : Type} [Coefficient R] (q : Qubo R) :
    q.solveExhaustively.assignment.map (·.1) = q.names ∧
      q.solveExhaustively.assignment.map (·.2) = (exhaustive (.ofQubo q)).best.toList := by
  have sized : (exhaustive (.ofQubo q)).best.toList.length = q.names.length := by
    rw [Array.length_toList, exhaustive_eq_stage, stage_best_size, Couplings.size_ofQubo, size]
  exact ⟨List.map_fst_zip (le_of_eq sized.symm), List.map_snd_zip (le_of_eq sized)⟩

theorem solve_small {p : Qubo Float} {options : SolveOptions} (occupied : p.isEmpty = false)
    (finite : p.isFinite = true) (declared : p.isDeclared = true)
    (small : p.size ≤ min options.exhaustiveLimit maxExhaustive) :
    p.solve options = .ok p.solveExhaustively := by
  rw [solve, occupied, finite, declared, if_pos small]
  rfl

/-- Each assignment is passed once and with its energy; the search gives the
    first one of least energy, and a small problem is solved by it. -/
theorem exhaustive_finds_first_minimum (sorted : q.terms.IsSorted) (within : q.Within q.size) :
    (∀ bits : List Bool, bits.length = q.size → ∃! steps, steps < 2 ^ q.size ∧
      (stage (.ofQubo q) steps).state.toList = bits) ∧
    (∀ steps < 2 ^ q.size,
      (stage (.ofQubo q) steps).state.toList = Bits.gray q.size steps ∧
      q.energy? (stage (.ofQubo q) steps).state.toList =
        some (stage (.ofQubo q) steps).energy) ∧
    exhaustive (.ofQubo q) = stage (.ofQubo q) (2 ^ q.size - 1) ∧
    (∃ rank < 2 ^ q.size, (exhaustive (.ofQubo q)).best.toList = Bits.gray q.size rank ∧
      q.energy? (Bits.gray q.size rank) = some (exhaustive (.ofQubo q)).bestEnergy ∧
      q.IsMinimum (Bits.gray q.size rank) ∧
      ∀ earlier < rank, ¬ q.IsMinimum (Bits.gray q.size earlier)) ∧
    (q.solveExhaustively.assignment.map (·.1) = q.names ∧
      q.solveExhaustively.assignment.map (·.2) = (exhaustive (.ofQubo q)).best.toList ∧
      q.solveExhaustively.energy = (exhaustive (.ofQubo q)).bestEnergy) ∧
    ∀ (p : Qubo Float) (options : SolveOptions), p.isEmpty = false → p.isFinite = true →
      p.isDeclared = true → p.size ≤ min options.exhaustiveLimit maxExhaustive →
      ∃ solution, p.solve options = .ok solution ∧ solution.method = .exhaustive ∧
        solution.assignment.map (·.1) = p.names ∧
        solution.assignment.map (·.2) = (exhaustive (.ofQubo p)).best.toList ∧
        solution.energy = (exhaustive (.ofQubo p)).bestEnergy := by
  have states := Couplings.size_ofQubo q ▸ stage_state (.ofQubo q)
  obtain ⟨names, bits⟩ := q.solveExhaustively_assignment
  refine ⟨?once, ?energies, ?walk, exhaustive_best sorted within, ⟨names, bits, rfl⟩, ?solved⟩
  case once =>
    intro bits full
    simp only [states]
    exact full ▸ Bits.existsUnique_gray bits
  case energies =>
    intro steps below
    exact ⟨states steps, stage_energy? sorted within below⟩
  case walk =>
    rw [exhaustive_eq_stage, Couplings.size_ofQubo]
  case solved =>
    intro p options occupied finite declared small
    obtain ⟨names, bits⟩ := p.solveExhaustively_assignment
    exact ⟨_, solve_small occupied finite declared small, rfl, names, bits, rfl⟩

/-- Either or both of two variables; a third one has no weight. -/
def tied (R : Type) [Coefficient R] : Qubo R :=
  ((((ofVariables ["a", "b", "c"]).addTerm 0 0 (-1)).addTerm 1 1 (-1)).addTerm 0 1 1).addTerm 2 2 0

theorem tied_sorted : (tied Rat).terms.IsSorted := by
  repeat apply addTerm_sorted
  exact List.Pairwise.nil

theorem tied_within : (tied Rat).Within (tied Rat).size := by
  unfold Within
  decide +kernel

theorem exhaustive_finds_first_minimum_tied :
    (exhaustive (.ofQubo (tied Rat))).best.toList = [true, false, false] ∧
      (tied Rat).IsMinimum [true, false, false] ∧
      (tied Rat).energy? [false, true, false] = (tied Rat).energy? [true, false, false] ∧
      ∃ solution, (tied Float).solve {} = .ok solution ∧ solution.method = .exhaustive ∧
        solution.assignment.map (·.1) = ["a", "b", "c"] ∧
        solution.assignment.map (·.2) = [true, false, false] := by
  obtain ⟨-, -, -, ⟨rank, -, best, -, minimum, -⟩, -, solved⟩ :=
    exhaustive_finds_first_minimum tied_sorted tied_within
  have bits : (exhaustive (.ofQubo (tied Rat))).best.toList = [true, false, false] := by
    decide +kernel
  obtain ⟨solution, given, method, names, found, -⟩ := solved (tied Float) {} (by decide +kernel)
    (by decide +kernel) (by decide +kernel) (by decide +kernel)
  refine ⟨bits, ?_, by decide +kernel, solution, given, method, names, ?_⟩
  · rw [← bits, best]
    exact minimum
  · rw [found]
    decide +kernel

end Qubo

end StrategyQubo
