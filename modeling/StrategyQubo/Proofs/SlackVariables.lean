import StrategyQubo.Proofs.ArithmeticValue
import StrategyQubo.Qubo.Expand

namespace StrategyQubo

open StrategyQubo.Script

/-! # Slack variables

The weights of slack variables make every number up to the range and none
beyond it, so that an inequality holds exactly where some setting of its slack
variables leaves nothing missing.
-/

/-- The sum of the weights whose bits are one. -/
def slackTotal : List UInt64 → List Bool → Nat
  | weight :: weights, bit :: bits => (if bit then weight.toNat else 0) + slackTotal weights bits
  | _, _ => 0

@[simp] theorem slackTotal_nil (bits : List Bool) : slackTotal [] bits = 0 := by
  cases bits <;> rfl

/-! ## The numbers that the weights make -/

theorem slackWeights_zero (weight : UInt64) : slackWeights weight 0 = [] := by
  rw [slackWeights, if_pos (.inl rfl)]

/-- What a weight takes from the remainder and what it leaves.  As long as both
together have room in a word, doubling the weight for what is left does not
overflow. -/
theorem slackWeights_step {weight remaining : UInt64} (left : remaining ≠ 0)
    (positive : 0 < weight.toNat) (room : weight.toNat + remaining.toNat ≤ 2 ^ 64) :
    ∃ bit rest : UInt64, slackWeights weight remaining = bit :: slackWeights (weight * 2) rest ∧
      bit.toNat = min weight.toNat remaining.toNat ∧
      rest.toNat = remaining.toNat - bit.toNat ∧
      (rest ≠ 0 → bit = weight ∧ (weight * 2).toNat = 2 * weight.toNat ∧
        (weight * 2).toNat + rest.toNat ≤ 2 ^ 64) := by
  have bitNat := UInt64.toNat_min weight remaining
  have within : min weight remaining ≤ remaining := by
    rw [UInt64.le_iff_toNat_le, bitNat]
    exact min_le_right _ _
  have restNat := UInt64.toNat_sub_of_le _ _ within
  have nonzero : weight ≠ 0 := fun zero => by simp [zero] at positive
  refine ⟨min weight remaining, remaining - min weight remaining, ?_, bitNat, restNat, ?_⟩
  · rw [slackWeights, if_neg (by simp [left, nonzero])]
  · intro more
    have restPositive : 0 < (remaining - min weight remaining).toNat := by
      rcases Nat.eq_zero_or_pos (remaining - min weight remaining).toNat with zero | positive
      · exact absurd (UInt64.toNat_inj.mp zero) more
      · exact positive
    have doubled : (weight * 2).toNat = 2 * weight.toNat := by
      rw [UInt64.toNat_mul]
      change weight.toNat * 2 % 2 ^ 64 = _
      omega
    refine ⟨UInt64.toNat_inj.mp ?_, doubled, ?_⟩ <;> omega

theorem slackTotal_le {weight remaining : UInt64} (positive : 0 < weight.toNat)
    (room : weight.toNat + remaining.toNat ≤ 2 ^ 64) (bits : List Bool) :
    slackTotal (slackWeights weight remaining) bits ≤ remaining.toNat := by
  induction bits generalizing weight remaining with
  | nil => cases slackWeights weight remaining <;> exact Nat.zero_le _
  | cons bit bits ih =>
      by_cases left : remaining = 0
      · simp [left, slackWeights_zero]
      · obtain ⟨taken, rest, shape, takenNat, restNat, further⟩ :=
          slackWeights_step left positive room
        have later : slackTotal (slackWeights (weight * 2) rest) bits ≤ rest.toNat := by
          by_cases more : rest = 0
          · simp [more, slackWeights_zero]
          · obtain ⟨-, doubled, fits⟩ := further more
            exact ih (by omega) fits
        rw [shape, slackTotal]
        split <;> omega

/-- Together with the numbers below the first weight, the weights make every
number that the first weight and the remainder allow. -/
theorem exists_slackTotal {weight remaining : UInt64} (positive : 0 < weight.toNat)
    (room : weight.toNat + remaining.toNat ≤ 2 ^ 64) {n : Nat}
    (within : n < weight.toNat + remaining.toNat) :
    ∃ low bits, low < weight.toNat ∧ bits.length = (slackWeights weight remaining).length ∧
      n = low + slackTotal (slackWeights weight remaining) bits := by
  -- On what remains: the next weight doubles, and `low` takes up what it cannot make.
  induction size : remaining.toNat using Nat.strong_induction_on
    generalizing weight remaining n with
  | _ total ih =>
    by_cases left : remaining = 0
    · subst left
      exact ⟨n, [], by simpa using within, by simp [slackWeights_zero],
        by simp [slackWeights_zero]⟩
    · obtain ⟨taken, rest, shape, takenNat, restNat, further⟩ :=
        slackWeights_step left positive room
      have leftNat : 0 < remaining.toNat := by
        rcases Nat.eq_zero_or_pos remaining.toNat with zero | positive
        · exact absurd (UInt64.toNat_inj.mp zero) left
        · exact positive
      rw [shape]
      by_cases more : rest = 0
      · -- The last weight is cut to what remains.
        subst more
        simp only [slackWeights_zero]
        have restZero : remaining.toNat - taken.toNat = 0 := by simpa using restNat.symm
        by_cases small : n < weight.toNat
        · exact ⟨n, [false], small, rfl, by simp [slackTotal]⟩
        · exact ⟨n - taken.toNat, [true], by omega, rfl, by simp [slackTotal]; omega⟩
      · obtain ⟨whole, doubled, fits⟩ := further more
        obtain ⟨low, bits, lowBelow, sameLength, made⟩ :=
          ih rest.toNat (by omega) (by omega) fits (n := n) (by omega) rfl
        by_cases small : low < weight.toNat
        · exact ⟨low, false :: bits, small, by simp [sameLength], by simpa [slackTotal] using made⟩
        · refine ⟨low - weight.toNat, true :: bits, by omega, by simp [sameLength], ?_⟩
          rw [slackTotal, if_pos rfl, whole]
          omega

theorem exists_slackTotal_iff (range : UInt64) (n : Nat) :
    (∃ bits, bits.length = (slackWeights 1 range).length ∧
      slackTotal (slackWeights 1 range) bits = n) ↔ n ≤ range.toNat := by
  have bound := range.toNat_lt
  have one : (1 : UInt64).toNat = 1 := rfl
  constructor
  · rintro ⟨bits, -, rfl⟩
    exact slackTotal_le (by decide) (by omega) bits
  · intro within
    have below : n < (1 : UInt64).toNat + range.toNat := by omega
    obtain ⟨low, bits, lowBelow, sameLength, made⟩ :=
      exists_slackTotal (by decide) (by omega) below
    exact ⟨bits, sameLength, by omega⟩

/-! ## The slack sum -/

theorem slackTotal_drop (weight : UInt64) (weights : List UInt64) (bits : List Bool) (i : Nat) :
    slackTotal (weight :: weights) (bits.drop i) =
      (if assignmentOf bits i then weight.toNat else 0) + slackTotal weights (bits.drop (i + 1)) := by
  by_cases within : i < bits.length
  · rw [List.drop_eq_getElem_cons within, slackTotal]
    simp [assignmentOf, within]
  · rw [List.drop_eq_nil_of_le (by omega), List.drop_eq_nil_of_le (by omega)]
    cases weights <;> simp [slackTotal, assignmentOf, List.getElem?_eq_none (by omega : bits.length ≤ i)]

theorem value_slackSum (first : Nat) (weights : List UInt64) (bits : List Bool) :
    (slackSum first weights : Polynomial Rat).value (assignmentOf bits) =
      slackTotal weights (bits.drop first) := by
  suffices sums : ∀ (p : Polynomial Rat),
      ((weights.zipIdx first).foldl (fun slack entry =>
        slack.add ((Polynomial.binary entry.2).scale (Coefficient.ofNat entry.1.toNat))) p).value
          (assignmentOf bits) =
      p.value (assignmentOf bits) + slackTotal weights (bits.drop first) by
    rw [slackSum, sums, Polynomial.value_zero, zero_add]
  induction weights generalizing first with
  | nil => simp
  | cons weight weights ih =>
      intro p
      rw [List.zipIdx_cons, List.foldl_cons, ih, slackTotal_drop, Polynomial.value_add,
        Polynomial.value_scale, Polynomial.value_binary, Coefficient.ofNat_eq]
      cases assignmentOf bits first <;> simp [bitValue, add_assoc]

theorem canonical_slackSum (first : Nat) (weights : List UInt64) {size : Nat}
    (room : first + weights.length ≤ size) :
    Polynomial.Canonical size (slackSum first weights : Polynomial Rat) := by
  suffices sums : ∀ (p : Polynomial Rat), p.Canonical size →
      Polynomial.Canonical size ((weights.zipIdx first).foldl (fun slack entry =>
        slack.add ((Polynomial.binary entry.2).scale (Coefficient.ofNat entry.1.toNat))) p) from
    sums _ (Polynomial.canonical_zero size)
  induction weights generalizing first with
  | nil => exact fun p canonical => canonical
  | cons weight weights ih =>
      intro p canonical
      rw [List.length_cons] at room
      rw [List.zipIdx_cons, List.foldl_cons]
      exact ih (first + 1) (by omega) _
        (canonical.add ((Polynomial.canonical_binary (by omega)).scale _))

end StrategyQubo
