import StrategyQubo.Qubo.Walk
import StrategyQubo.Random.Stream

namespace StrategyQubo

/-! # Cooling

Annealing of problems with doubles: temperatures that fall by one factor from
sweep to sweep, and chance from a seeded stream.
-/

namespace Couplings

/-- The most that flipping a variable can change. -/
def reach (c : Couplings Float) (i : Nat) : Float :=
  (c.linearOf i).abs + Coefficient.sum ((c.neighbours.getD i []).map fun (_, x) => x.abs)

def magnitudes (c : Couplings Float) (i : Nat) : List Float :=
  ((c.linearOf i :: (c.neighbours.getD i []).map (·.2)).filter fun x => !(x == 0.0)).map Float.abs

def largestReach (c : Couplings Float) : Float :=
  (List.range c.size).foldl (fun most i => if most < c.reach i then c.reach i else most) 0.0

def smallestMagnitude (c : Couplings Float) : Float :=
  ((List.range c.size).flatMap c.magnitudes).foldl
    (fun least x => if x < least then x else least) Number.infinity

/-- The first and the last temperature: twice the largest reach and a twentieth
    of the smallest coefficient. -/
def temperatureRange (c : Couplings Float) : Float × Float :=
  let largest := c.largestReach
  let smallest := c.smallestMagnitude
  if largest == 0.0 || !Number.isFinite smallest then (1.0, 1.0)
  else
    let hot := largest * 2.0
    let cold := smallest * 0.05
    (hot, if cold < hot then cold else hot)

end Couplings

/-- A number and its products with the powers of a factor. -/
def geometric (factor : Float) : Nat → Float → List Float
  | 0, _ => []
  | count + 1, first => first :: geometric factor count (first * factor)

/-- One temperature for each sweep, of which there is at least one. -/
def Couplings.temperatures (c : Couplings Float) (sweeps : Nat) : List Float :=
  let (hot, cold) := c.temperatureRange
  let sweeps := max sweeps 1
  let factor :=
    if 1 < sweeps then Float.pow (cold / hot) (1.0 / Float.ofNat (sweeps - 1)) else 1.0
  geometric factor sweeps hot

/-- A rise is taken with a probability that falls exponentially with it. -/
def streamChance : Walk.Chance Random.Stream Float where
  coin s :=
    let (draw, s) := s.next
    (draw < 0.5, s)
  climbs temperature rise s :=
    let (draw, s) := s.next
    (draw < Float.exp (-rise / temperature), s)

end StrategyQubo
