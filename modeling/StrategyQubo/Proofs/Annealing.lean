import Mathlib.Algebra.BigOperators.Group.List.Lemmas
import StrategyQubo.Proofs.ExhaustiveSearch

namespace StrategyQubo

/-! # Annealing

Whatever chance decides, a walk knows the energy of the assignment it is at, and
ends with the least of the energies that it has met.
-/

/-! ## The energy of an assignment -/

namespace Pair

/-- What a pair counts at one of its variables, if each pair is counted at the
    first one only. -/
def ahead (x : Nat → Bool) (i : Nat) (pair : Pair) : Rat :=
  indicator (.of i i) pair +
    ((Couplings.partner? i pair).map fun j => bitValue (i < j && x j)).getD 0

theorem ahead_low (x : Nat → Bool) (pair : Pair) :
    bitValue (x pair.low) * ahead x pair.low pair = value x pair := by
  obtain ⟨low, high, ordered⟩ := pair
  simp only [ahead, indicator, of_self, Couplings.partner?, value, Pair.mk.injEq]
  by_cases same : low = high
  · subst same
    simp [bitValue_mul_self]
  · have before : low < high := lt_of_le_of_ne ordered same
    have apart : high ≠ low := fun equal => same equal.symm
    simp [same, apart, before]

theorem ahead_of_ne (x : Nat → Bool) {i : Nat} {pair : Pair} (other : i ≠ pair.low) :
    ahead x i pair = 0 := by
  obtain ⟨low, high, ordered⟩ := pair
  simp only at other
  have first : low ≠ i := fun equal => other equal.symm
  simp only [ahead, indicator, of_self, Couplings.partner?, Pair.mk.injEq]
  by_cases same : low = high
  · subst same
    simp [first]
  · by_cases second : high = i
    · subst second
      simp [first, not_lt.mpr ordered, bitValue]
    · simp [same, first, second]

/-- A pair counts once among all variables. -/
theorem sum_ahead (x : Nat → Bool) {pair : Pair} {size : Nat} (inside : pair.high < size) :
    ((List.range size).map fun i => bitValue (x i) * ahead x i pair).sum = value x pair := by
  have below : pair.low ∈ List.range size :=
    List.mem_range.mpr (lt_of_le_of_lt pair.ordered inside)
  rw [List.sum_map_eq_nsmul_single pair.low, List.count_eq_one_of_mem List.nodup_range below,
    one_nsmul, ahead_low]
  intro i other _
  rw [ahead_of_ne x other, mul_zero]

end Pair

namespace Couplings

variable {q : Qubo Rat} {i : Nat} {state : Array Bool}

theorem sum_activeAbove (within : i < q.size) (state : Array Bool) :
    ((ofQubo q).activeAbove state i).sum = q.terms.total fun pair =>
      ((partner? i pair).map fun j => bitValue (i < j && state.getD j false)).getD 0 :=
  sum_neighbours within fun j => i < j && state.getD j false

theorem energyFrom_ofQubo (sorted : q.terms.IsSorted) (within : i < q.size) (state : Array Bool)
    (energy : Rat) :
    (ofQubo q).energyFrom state energy i = energy +
      bitValue (state.getD i false) * q.terms.total (Pair.ahead (state.getD · false) i) := by
  have parts : q.terms.total (Pair.ahead (state.getD · false) i) =
      q.terms.total (indicator (.of i i)) + q.terms.total fun pair =>
        ((partner? i pair).map fun j => bitValue (i < j && state.getD j false)).getD 0 :=
    Sparse.total_add_weights _ _ _
  rw [energyFrom, Coefficient.sum_eq, linearOf_ofQubo within, sum_activeAbove within, parts,
    Sparse.total_indicator_eq_get? (Qubo.distinct_of_sorted sorted)]
  cases state.getD i false <;> simp [bitValue, add_assoc]

theorem foldl_energyFrom (sorted : q.terms.IsSorted) (state : Array Bool) {size : Nat}
    (atMost : size ≤ q.size) (energy : Rat) :
    (List.range size).foldl ((ofQubo q).energyFrom state) energy = energy +
      ((List.range size).map fun i => bitValue (state.getD i false) *
        q.terms.total (Pair.ahead (state.getD · false) i)).sum := by
  induction size with
  | zero => simp
  | succ size ih =>
      rw [List.range_succ, List.foldl_append, ih (Nat.le_of_succ_le atMost), List.map_append,
        List.sum_append, ← add_assoc]
      simpa using energyFrom_ofQubo sorted atMost state _

/-- The couplings give an assignment the energy that it has in the problem. -/
theorem energy_ofQubo (sorted : q.terms.IsSorted) (within : q.Within q.size)
    (state : Array Bool) :
    (ofQubo q).energy state = q.value (assignmentOf state.toList) := by
  have read : (fun j => state.getD j false) = assignmentOf state.toList := by
    funext j
    simp [assignmentOf]
  rw [energy, size_ofQubo, foldl_energyFrom sorted state le_rfl, Sparse.sum_total, Qubo.value,
    add_comm, read]
  refine congrArg (· + q.offset) (congrArg List.sum (List.map_congr_left fun term member => ?_))
  rw [← read]
  exact congrArg (term.2 * ·) (Pair.sum_ahead (state.getD · false) (within term member))

end Couplings

/-! ## A walk by chance -/

namespace Walk

section

variable {σ R : Type} [Coefficient R]

/-- The turns of annealing: at each temperature one for each variable. -/
def turns (size : Nat) (temperatures : List Float) : List (Float × Nat) :=
  temperatures.flatMap fun temperature => (List.range size).map (temperature, ·)

/-- Where some turns lead, and what chance draws from then. -/
def passing (chance : Chance σ R) (c : Couplings R) (s : σ) (turns : List (Float × Nat)) :
    Walk R × σ :=
  let (bits, s) := coins chance c.size s
  turns.foldl (fun place turn => visit chance c turn.1 place turn.2)
    (start bits.toArray (c.energy bits.toArray), s)

/-- The walk as it is after some turns. -/
def passed (chance : Chance σ R) (c : Couplings R) (s : σ) (turns : List (Float × Nat)) : Walk R :=
  (passing chance c s turns).1

variable (chance : Chance σ R) (c : Couplings R) (s : σ) (turns : List (Float × Nat))

theorem anneal_eq_passed (temperatures : List Float) :
    anneal chance c temperatures s = passed chance c s (Walk.turns c.size temperatures) := by
  simp only [anneal, passed, passing, Walk.turns, List.foldl_flatMap, List.foldl_map]
  rfl

theorem passed_nil : passed chance c s [] =
    start (coins chance c.size s).1.toArray (c.energy (coins chance c.size s).1.toArray) :=
  rfl

omit [Coefficient R] in
theorem length_coins (count : Nat) : (coins chance count s).1.length = count := by
  induction count generalizing s with
  | zero => rfl
  | succ count ih => exact congrArg (· + 1) (ih _)

/-- A turn flips its variable or leaves the walk where it is.  It flips if that
    does not raise the energy. -/
theorem passed_concat (temperature : Float) (i : Nat) :
    passed chance c s (turns ++ [(temperature, i)]) = (passed chance c s turns).flip c i ∨
      passed chance c s (turns ++ [(temperature, i)]) = passed chance c s turns ∧
        ¬ c.change (passed chance c s turns).state i ≤ 0 := by
  have turned : passing chance c s (turns ++ [(temperature, i)]) =
      visit chance c temperature (passing chance c s turns) i := by
    simp [passing]
  unfold passed
  rw [turned]
  obtain ⟨w, s⟩ := passing chance c s turns
  rw [visit]
  split
  · exact .inl rfl
  · next rises =>
    rcases chance.climbs temperature (c.change w.state i) s with ⟨taken, s⟩
    cases taken with
    | true => exact .inl rfl
    | false => exact .inr ⟨rfl, rises⟩

@[simp] theorem passed_state_size : (passed chance c s turns).state.size = c.size := by
  induction turns using List.reverseRecOn with
  | nil => simp [passed_nil, start, length_coins]
  | append_singleton turns turn ih =>
      obtain ⟨temperature, i⟩ := turn
      rcases passed_concat chance c s turns temperature i with flipped | ⟨stayed, -⟩
      · rw [flipped, flip_state]
        exact Array.size_setIfInBounds.trans ih
      · rw [stayed, ih]

end

/-! ## The energies met -/

section

/-- A flip either reaches less energy than any before, or keeps what was best. -/
theorem flip_best {R : Type} [Coefficient R] (c : Couplings R) (w : Walk R) (i : Nat) :
    ((w.flip c i).best = (w.flip c i).state ∧ (w.flip c i).bestEnergy = (w.flip c i).energy ∧
      (w.flip c i).energy < w.bestEnergy) ∨
    ((w.flip c i).best = w.best ∧ (w.flip c i).bestEnergy = w.bestEnergy ∧
      ¬ (w.flip c i).energy < w.bestEnergy) := by
  unfold flip moveTo
  split
  · next lower => exact .inl ⟨rfl, rfl, lower⟩
  · next higher => exact .inr ⟨rfl, rfl, higher⟩

theorem passed_best_size {σ R : Type} [Coefficient R] (chance : Chance σ R) (c : Couplings R)
    (s : σ) (turns : List (Float × Nat)) : (passed chance c s turns).best.size = c.size := by
  induction turns using List.reverseRecOn with
  | nil => simp [passed_nil, start, length_coins]
  | append_singleton turns turn ih =>
      obtain ⟨temperature, i⟩ := turn
      have sized := passed_state_size chance c s (turns ++ [(temperature, i)])
      rcases passed_concat chance c s turns temperature i with flipped | ⟨stayed, -⟩
      · rw [flipped] at sized ⊢
        rcases flip_best c (passed chance c s turns) i with ⟨new, -⟩ | ⟨old, -⟩
        · rw [new, sized]
        · rw [old, ih]
      · rw [stayed, ih]

variable {σ : Type} {q : Qubo Rat} (chance : Chance σ Rat) (s : σ) (turns : List (Float × Nat))

theorem passed_energy (sorted : q.terms.IsSorted) (within : q.Within q.size)
    (inside : ∀ turn ∈ turns, turn.2 < q.size) :
    (passed chance (.ofQubo q) s turns).energy =
      q.value (assignmentOf (passed chance (.ofQubo q) s turns).state.toList) := by
  induction turns using List.reverseRecOn with
  | nil => exact Couplings.energy_ofQubo sorted within _
  | append_singleton turns turn ih =>
      obtain ⟨temperature, i⟩ := turn
      have known := ih fun earlier found => inside earlier (List.mem_append_left _ found)
      rcases passed_concat chance (.ofQubo q) s turns temperature i with flipped | ⟨stayed, -⟩
      · have sized : (passed chance (.ofQubo q) s turns).state.size = q.size := by simp
        rw [flipped, flip_energy, flip_state, known,
          value_toggle sorted sized (inside _ List.mem_concat_self)]
      · rw [stayed, known]

/-- The best assignment is one that was met, and none that was met has less
    energy. -/
theorem passed_best (c : Couplings Rat) :
    (∃ done, done <+: turns ∧
      (passed chance c s turns).best = (passed chance c s done).state ∧
      (passed chance c s turns).bestEnergy = (passed chance c s done).energy) ∧
    ∀ done, done <+: turns →
      (passed chance c s turns).bestEnergy ≤ (passed chance c s done).energy := by
  induction turns using List.reverseRecOn with
  | nil =>
      refine ⟨⟨[], List.nil_prefix, rfl, rfl⟩, fun done early => ?_⟩
      obtain rfl := List.prefix_nil.mp early
      exact le_refl _
  | append_singleton turns turn ih =>
      obtain ⟨temperature, i⟩ := turn
      obtain ⟨⟨found, early, best, bestEnergy⟩, least⟩ := ih
      have later := early.trans (List.prefix_append turns [(temperature, i)])
      rcases passed_concat chance c s turns temperature i with flipped | ⟨stayed, -⟩
      · rw [flipped]
        rcases flip_best c (passed chance c s turns) i with
          ⟨newBest, newEnergy, lower⟩ | ⟨oldBest, oldEnergy, notLower⟩
        · refine ⟨⟨_, List.prefix_rfl, flipped ▸ newBest, flipped ▸ newEnergy⟩, fun done passed => ?_⟩
          rw [newEnergy]
          rcases List.prefix_concat_iff.mp passed with rfl | before
          · rw [flipped]
          · exact le_of_lt (lt_of_lt_of_le lower (least done before))
        · refine ⟨⟨found, later, oldBest.trans best, oldEnergy.trans bestEnergy⟩,
            fun done passed => ?_⟩
          rw [oldEnergy]
          rcases List.prefix_concat_iff.mp passed with rfl | before
          · rw [flipped]
            exact le_of_not_gt notLower
          · exact least done before
      · rw [stayed]
        refine ⟨⟨found, later, best, bestEnergy⟩, fun done passed => ?_⟩
        rcases List.prefix_concat_iff.mp passed with rfl | before
        · rw [stayed]
          exact least turns List.prefix_rfl
        · exact least done before

theorem mem_turns {size : Nat} {temperatures : List Float} {turn : Float × Nat}
    (member : turn ∈ Walk.turns size temperatures) : turn.2 < size := by
  obtain ⟨temperature, -, found⟩ := List.mem_flatMap.mp member
  obtain ⟨i, inside, rfl⟩ := List.mem_map.mp found
  exact List.mem_range.mp inside

end

end Walk

/-! ## The search -/

namespace Qubo

open Walk

variable {q : Qubo Rat} {σ : Type}

/-- Under every chance and all temperatures annealing knows the energy of each
    assignment it is at, takes every flip that does not raise it, and gives an
    assignment that it has met, with its energy, which is the least of all that
    it has met. -/
theorem anneal_keeps_least (sorted : q.terms.IsSorted) (within : q.Within q.size)
    (chance : Chance σ Rat) (temperatures : List Float) (s : σ) :
    anneal chance (.ofQubo q) temperatures s =
      passed chance (.ofQubo q) s (turns q.size temperatures) ∧
    (passed chance (.ofQubo q) s []).state.toList = (coins chance q.size s).1 ∧
    (∀ done, done <+: turns q.size temperatures →
      (passed chance (.ofQubo q) s done).state.size = q.size ∧
      q.energy? (passed chance (.ofQubo q) s done).state.toList =
        some (passed chance (.ofQubo q) s done).energy) ∧
    (∀ done temperature i, done ++ [(temperature, i)] <+: turns q.size temperatures →
      ((passed chance (.ofQubo q) s (done ++ [(temperature, i)])).state =
          (passed chance (.ofQubo q) s done).state ∨
        (passed chance (.ofQubo q) s (done ++ [(temperature, i)])).state =
          toggle (passed chance (.ofQubo q) s done).state i) ∧
      ∃ energy, q.energy? (toggle (passed chance (.ofQubo q) s done).state i).toList = some energy ∧
        (energy ≤ (passed chance (.ofQubo q) s done).energy →
          (passed chance (.ofQubo q) s (done ++ [(temperature, i)])).state =
            toggle (passed chance (.ofQubo q) s done).state i)) ∧
    (∃ done, done <+: turns q.size temperatures ∧
      (anneal chance (.ofQubo q) temperatures s).best =
        (passed chance (.ofQubo q) s done).state) ∧
    q.energy? (anneal chance (.ofQubo q) temperatures s).best.toList =
      some (anneal chance (.ofQubo q) temperatures s).bestEnergy ∧
    (∀ done, done <+: turns q.size temperatures →
      (anneal chance (.ofQubo q) temperatures s).bestEnergy ≤
        (passed chance (.ofQubo q) s done).energy) ∧
    (q.solution .annealing (anneal chance (.ofQubo q) temperatures s)).assignment.map (·.1) =
      q.names ∧
    (q.solution .annealing (anneal chance (.ofQubo q) temperatures s)).assignment.map (·.2) =
      (anneal chance (.ofQubo q) temperatures s).best.toList ∧
    (q.solution .annealing (anneal chance (.ofQubo q) temperatures s)).energy =
      (anneal chance (.ofQubo q) temperatures s).bestEnergy := by
  have ends : anneal chance (.ofQubo q) temperatures s =
      passed chance (.ofQubo q) s (turns q.size temperatures) := by
    rw [anneal_eq_passed, Couplings.size_ofQubo]
  have sized (done : List (Float × Nat)) :
      (passed chance (.ofQubo q) s done).state.size = q.size := by simp
  have known : ∀ done, done <+: turns q.size temperatures →
      q.energy? (passed chance (.ofQubo q) s done).state.toList =
        some (passed chance (.ofQubo q) s done).energy := by
    intro done early
    have full : q.Within (passed chance (.ofQubo q) s done).state.toList.length := by
      simpa using within
    rw [energy?_eq full, passed_energy chance s done sorted within fun turn found =>
      mem_turns (early.subset found)]
  obtain ⟨⟨met, early, best, bestEnergy⟩, least⟩ :=
    passed_best chance s (turns q.size temperatures) (.ofQubo q)
  rw [← ends] at best bestEnergy least
  have listed : (anneal chance (.ofQubo q) temperatures s).best.toList.length = q.names.length := by
    rw [best, Array.length_toList, sized, size]
  refine ⟨ends, ?drawn, fun done early => ⟨sized done, known done early⟩, ?turn, ⟨met, early, best⟩,
    ?own, least, List.map_fst_zip (le_of_eq listed.symm), List.map_snd_zip (le_of_eq listed), rfl⟩
  case drawn => simp [passed_nil, start]
  case own => rw [best, bestEnergy, known met early]
  case turn =>
    intro done temperature i early
    have last : (temperature, i) ∈ turns q.size temperatures := early.subset List.mem_concat_self
    have inside : i < q.size := mem_turns last
    have before := (List.prefix_append done [(temperature, i)]).trans early
    have full : q.Within (toggle (passed chance (.ofQubo q) s done).state i).toList.length := by
      simpa [toggle] using within
    have rise := value_toggle sorted (sized done) inside
    rw [← passed_energy chance s done sorted within fun turn found =>
      mem_turns (before.subset found)] at rise
    have turned := passed_concat chance (.ofQubo q) s done temperature i
    refine ⟨?_, _, energy?_eq full, fun notHigher => ?_⟩
    · rcases turned with flipped | ⟨stayed, -⟩
      · exact .inr (by rw [flipped, flip_state])
      · exact .inl (by rw [stayed])
    · rcases turned with flipped | ⟨-, rises⟩
      · rw [flipped, flip_state]
      · rw [rise] at notHigher
        exact absurd (by linarith) rises

/-- Chance that reads its decisions off a list. -/
def scripted : Chance (List Bool) Rat where
  coin decisions := (decisions.headD false, decisions.tail)
  climbs _ _ decisions := (decisions.headD false, decisions.tail)

/-- The walk climbs away from the least energy, and the assignment that had it
    is kept. -/
theorem anneal_keeps_least_climbing :
    (anneal scripted (.ofQubo (tied Rat)) [2.0, 1.0] [false, false, false, true]).state.toList =
        [false, false, false] ∧
      (anneal scripted (.ofQubo (tied Rat)) [2.0, 1.0] [false, false, false, true]).best.toList =
        [true, false, false] ∧
      (tied Rat).energy? [false, false, false] = some 0 ∧
      (tied Rat).energy? [true, false, false] =
        some (anneal scripted (.ofQubo (tied Rat)) [2.0, 1.0] [false, false, false, true]).bestEnergy := by
  obtain ⟨-, -, -, -, -, own, -⟩ := anneal_keeps_least tied_sorted tied_within scripted [2.0, 1.0]
    [false, false, false, true]
  have best : (anneal scripted (.ofQubo (tied Rat)) [2.0, 1.0]
      [false, false, false, true]).best.toList = [true, false, false] := by
    decide +kernel
  exact ⟨by decide +kernel, best, by decide +kernel, best ▸ own⟩

end Qubo

end StrategyQubo
