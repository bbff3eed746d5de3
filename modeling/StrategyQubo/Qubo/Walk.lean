import StrategyQubo.Qubo.Couplings

namespace StrategyQubo

/-! # Walks

A walk changes one variable of an assignment at a time, keeps track of the
energy, and remembers the first assignment of least energy on its way.
-/

structure Walk (R : Type) where
  state : Array Bool
  energy : R
  best : Array Bool
  bestEnergy : R

namespace Walk

variable {R : Type} [Coefficient R]

def start (state : Array Bool) (energy : R) : Walk R :=
  ⟨state, energy, state, energy⟩

/-- Moves to an assignment; only a lower energy makes it the best one. -/
def moveTo (w : Walk R) (state : Array Bool) (energy : R) : Walk R :=
  if energy < w.bestEnergy then ⟨state, energy, state, energy⟩
  else { w with state := state, energy := energy }

def toggle (state : Array Bool) (i : Nat) : Array Bool :=
  state.setIfInBounds i (!state.getD i false)

def flip (c : Couplings R) (w : Walk R) (i : Nat) : Walk R :=
  w.moveTo (toggle w.state i) (w.energy + c.change w.state i)

/-! ## All assignments -/

/-- Flips the first `n` variables so that every other assignment of them is
    passed once: around a flip of the last one, all flips of the others are
    made twice. -/
def sweepAll (c : Couplings R) : Nat → Walk R → Walk R
  | 0, w => w
  | n + 1, w => sweepAll c n ((sweepAll c n w).flip c n)

def exhaustive (c : Couplings R) : Walk R :=
  sweepAll c c.size (start (Array.replicate c.size false) c.offset)

/-! ## Annealing -/

/-- A source of chance: a fair coin, and whether to take a rise of the energy
    at a temperature. -/
structure Chance (σ R : Type) where
  coin : σ → Bool × σ
  climbs : Float → R → σ → Bool × σ

variable {σ : Type}

def coins (chance : Chance σ R) : Nat → σ → List Bool × σ
  | 0, s => ([], s)
  | n + 1, s =>
      let (first, s) := chance.coin s
      let (rest, s) := coins chance n s
      (first :: rest, s)

/-- Flips a variable if that does not raise the energy, and otherwise leaves it
    to chance. -/
def visit (chance : Chance σ R) (c : Couplings R) (temperature : Float)
    (place : Walk R × σ) (i : Nat) : Walk R × σ :=
  let (w, s) := place
  let rise := c.change w.state i
  if rise ≤ 0 then (w.flip c i, s)
  else
    let (taken, s) := chance.climbs temperature rise s
    (if taken then w.flip c i else w, s)

def sweep (chance : Chance σ R) (c : Couplings R) (place : Walk R × σ) (temperature : Float) :
    Walk R × σ :=
  (List.range c.size).foldl (visit chance c temperature) place

/-- One sweep for each temperature, from an assignment drawn by coins. -/
def anneal (chance : Chance σ R) (c : Couplings R) (temperatures : List Float) (s : σ) : Walk R :=
  let (bits, s) := coins chance c.size s
  let state := bits.toArray
  (temperatures.foldl (sweep chance c) (start state (c.energy state), s)).1

end Walk

end StrategyQubo
