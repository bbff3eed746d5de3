import Mathlib.Data.Fintype.BigOperators
import Mathlib.NumberTheory.Padics.PadicVal.Basic
import StrategyQubo.Qubo.Walk

namespace StrategyQubo

/-! # The order of a sweep

A sweep over all variables flips, at each step, the variable whose index is the
number of times that two divides the count of steps so far.  That passes the
assignments in the order of the Gray code, each once.
-/

/-! ## The Gray code -/

namespace Bits

/-- The assignment of this rank in the order of the Gray code. -/
def gray (size rank : Nat) : List Bool :=
  (List.range size).map fun i => (rank ^^^ rank >>> 1).testBit i

variable {size rank i : Nat}

@[simp] theorem length_gray : (gray size rank).length = size := by
  simp [gray]

theorem testBit_gray (rank i : Nat) :
    (rank ^^^ rank >>> 1).testBit i = (rank.testBit i ^^ rank.testBit (i + 1)) := by
  rw [Nat.testBit_xor, Nat.testBit_shiftRight, Nat.add_comm 1]

theorem getElem_gray (within : i < (gray size rank).length) :
    (gray size rank)[i] = (rank.testBit i ^^ rank.testBit (i + 1)) := by
  rw [← testBit_gray]
  simp [gray]

/-- From one rank to the next a single bit changes. -/
theorem testBit_gray_succ (rank i : Nat) :
    ((rank + 1).testBit i ^^ (rank + 1).testBit (i + 1)) =
      ((rank.testBit i ^^ rank.testBit (i + 1)) ^^ decide (i = padicValNat 2 (rank + 1))) := by
  -- An even rank changes its last bit; an odd one carries over to its half.
  induction rank using Nat.strongRecOn generalizing i with
  | ind rank ih =>
      obtain ⟨half, even | odd⟩ := Nat.even_or_odd' rank
      · subst even
        have last : padicValNat 2 (2 * half + 1) = 0 :=
          padicValNat.eq_zero_of_not_dvd (by omega)
        have same : (2 * half + 1) / 2 = half := by omega
        have same' : 2 * half / 2 = half := by omega
        rw [last]
        cases i with
        | zero =>
            rw [Nat.testBit_succ, Nat.testBit_succ, same, same', Nat.testBit_zero, Nat.testBit_zero]
            simp
        | succ i =>
            simp only [Nat.testBit_succ, same, same']
            simp
      · subst odd
        have carried : padicValNat 2 (2 * half + 1 + 1) = padicValNat 2 (half + 1) + 1 := by
          rw [show 2 * half + 1 + 1 = 2 * (half + 1) by omega,
            padicValNat.mul two_ne_zero (Nat.succ_ne_zero half), padicValNat.self one_lt_two,
            Nat.add_comm]
        have next : (2 * half + 1 + 1) / 2 = half + 1 := by omega
        have same : (2 * half + 1) / 2 = half := by omega
        rw [carried]
        cases i with
        | zero =>
            rw [Nat.testBit_succ, Nat.testBit_succ, next, same]
            have parity : (half + 1).testBit 0 = !half.testBit 0 := by
              rw [Nat.testBit_zero, Nat.testBit_zero, Bool.eq_iff_iff]
              simp only [decide_eq_true_eq, Bool.not_eq_true', decide_eq_false_iff_not]
              omega
            have even : (2 * half + 1 + 1).testBit 0 = false := by
              simp [Nat.add_assoc]
            have odd : (2 * half + 1).testBit 0 = true := by
              simp
            rw [parity, even, odd]
            simp
        | succ i =>
            have step := ih half (by omega) i
            simpa only [Nat.testBit_succ, next, same, Nat.add_right_cancel_iff] using step

/-- The next assignment differs in the variable that the step flips. -/
theorem gray_succ (size rank : Nat) :
    gray size (rank + 1) = (gray size rank).set (padicValNat 2 (rank + 1))
      (!(gray size rank).getD (padicValNat 2 (rank + 1)) false) := by
  refine List.ext_getElem (by simp) fun i inside _ => ?_
  have here : i < (gray size rank).length := by simpa using inside
  rw [getElem_gray inside, testBit_gray_succ, ← getElem_gray here, List.getElem_set]
  by_cases turned : padicValNat 2 (rank + 1) = i
  · rw [if_pos turned, turned, List.getD_eq_getElem?_getD, List.getElem?_eq_getElem here]
    simp
  · rw [if_neg turned, decide_eq_false fun same => turned same.symm, Bool.xor_false]

/-- The bits of a rank are found from those of its assignment, the highest
    first. -/
theorem gray_inj {other : Nat} (below : rank < 2 ^ size) (below' : other < 2 ^ size)
    (same : gray size rank = gray size other) : rank = other := by
  have bits : ∀ k ≤ size, rank.testBit (size - k) = other.testBit (size - k) := by
    intro k
    induction k with
    | zero =>
        intro _
        rw [Nat.sub_zero, Nat.testBit_lt_two_pow below, Nat.testBit_lt_two_pow below']
    | succ k ih =>
        intro within
        have above := ih (by omega)
        have place : size - (k + 1) + 1 = size - k := by omega
        have equal : ∀ i (_ : i < size),
            (rank.testBit i ^^ rank.testBit (i + 1)) = (other.testBit i ^^ other.testBit (i + 1)) := by
          intro i inside
          rw [← getElem_gray (by simpa using inside), ← getElem_gray (by simpa using inside)]
          simp only [same]
        have pair := equal (size - (k + 1)) (by omega)
        rw [place, above] at pair
        simpa using pair
  refine Nat.eq_of_testBit_eq fun i => ?_
  by_cases inside : i ≤ size
  · have at_i := bits (size - i) (Nat.sub_le _ _)
    rwa [Nat.sub_sub_self inside] at at_i
  · have high : 2 ^ size ≤ 2 ^ i := Nat.pow_le_pow_right two_pos (by omega)
    rw [Nat.testBit_lt_two_pow (by omega), Nat.testBit_lt_two_pow (by omega)]

theorem exists_gray_eq (bits : List Bool) :
    ∃ rank < 2 ^ bits.length, gray bits.length rank = bits := by
  -- As many ranks as assignments, and no two with the same one.
  let assigned : Fin (2 ^ bits.length) → Fin bits.length → Bool := fun rank i =>
    (gray bits.length rank).get (i.cast length_gray.symm)
  have injective : Function.Injective assigned := by
    intro rank other same
    refine Fin.ext (gray_inj rank.isLt other.isLt (List.ext_getElem (by simp) ?_))
    intro i inside _
    exact congrFun same ⟨i, by simpa using inside⟩
  have bijective := (Fintype.bijective_iff_injective_and_card assigned).mpr ⟨injective, by simp⟩
  obtain ⟨rank, found⟩ := bijective.surjective fun i => bits[i.val]
  refine ⟨rank, rank.isLt, List.ext_getElem (by simp) ?_⟩
  intro i _ inside
  exact congrFun found ⟨i, inside⟩

/-- Every assignment has one rank. -/
theorem existsUnique_gray (bits : List Bool) :
    ∃! rank, rank < 2 ^ bits.length ∧ gray bits.length rank = bits := by
  obtain ⟨rank, below, found⟩ := exists_gray_eq bits
  refine ⟨rank, ⟨below, found⟩, ?_⟩
  rintro other ⟨below', found'⟩
  exact gray_inj below' below (found'.trans found.symm)

end Bits

namespace Walk

variable {R : Type} [Coefficient R] {c : Couplings R}

/-- The walk over all assignments after so many steps. -/
def stage (c : Couplings R) : Nat → Walk R
  | 0 => start (Array.replicate c.size false) c.offset
  | steps + 1 => (stage c steps).flip c (padicValNat 2 (steps + 1))

theorem padicValNat_add_pow {n steps : Nat} (divides : 2 ^ (n + 1) ∣ steps) :
    padicValNat 2 (steps + 2 ^ n) = n := by
  obtain ⟨k, rfl⟩ := divides
  have split : 2 ^ (n + 1) * k + 2 ^ n = 2 ^ n * (2 * k + 1) := by ring
  rw [split, padicValNat.mul (pow_ne_zero n two_ne_zero) (Nat.succ_ne_zero _),
    padicValNat.prime_pow, padicValNat.eq_zero_of_not_dvd (n := 2 * k + 1) (by omega), Nat.add_zero]

/-- A sweep over the first `n` variables makes the steps up to the next count
    that `2 ^ n` divides. -/
theorem sweepAll_stage {n steps : Nat} (divides : 2 ^ n ∣ steps) :
    sweepAll c n (stage c steps) = stage c (steps + (2 ^ n - 1)) := by
  induction n generalizing steps with
  | zero => rfl
  | succ n ih =>
      have divides' : 2 ^ n ∣ steps := dvd_trans (pow_dvd_pow 2 (Nat.le_succ n)) divides
      have positive : 0 < 2 ^ n := Nat.two_pow_pos n
      have turned : (stage c (steps + (2 ^ n - 1))).flip c n = stage c (steps + 2 ^ n) := by
        rw [show steps + 2 ^ n = steps + (2 ^ n - 1) + 1 by omega, stage,
          show steps + (2 ^ n - 1) + 1 = steps + 2 ^ n by omega, padicValNat_add_pow divides]
      rw [sweepAll, ih divides', turned, ih (dvd_add divides' (dvd_refl _))]
      congr 1
      rw [pow_succ]
      omega

theorem exhaustive_eq_stage (c : Couplings R) : exhaustive c = stage c (2 ^ c.size - 1) := by
  have swept := sweepAll_stage (c := c) (n := c.size) (dvd_zero _)
  rwa [Nat.zero_add] at swept

end Walk

end StrategyQubo
