namespace StrategyQubo.Random

/-! # A seeded stream of uniform draws

The words come from ChaCha with twelve rounds under a key that is expanded from
the seed by a permuted congruential generator.  Two words make one draw, and
the stream is a value: drawing returns the stream that remains.
-/

def rotateRight (word : UInt32) (amount : UInt32) : UInt32 :=
  (word >>> amount) ||| (word <<< (32 - amount))

def rotateLeft (word : UInt32) (amount : UInt32) : UInt32 :=
  (word <<< amount) ||| (word >>> (32 - amount))

/-! ## From the seed to a key -/

def advance (state : UInt64) : UInt64 :=
  state * 0x5851F42D4C957F2D + 0xA17654E46FBE17F3

/-- The word shown by a generator state: its high half, folded and rotated by
    its five top bits. -/
def output (state : UInt64) : UInt32 :=
  let folded := (((state >>> 18) ^^^ state) >>> 27).toUInt32
  let amount := (state >>> 59).toUInt32
  if amount = 0 then folded else rotateRight folded amount

/-- The first `count` words; the state moves before each of them. -/
def expand : Nat → UInt64 → List UInt32
  | 0, _ => []
  | count + 1, state => output (advance state) :: expand count (advance state)

/-! ## Blocks -/

/-- Four words that a round treats alike. -/
structure Row where
  a : UInt32
  b : UInt32
  c : UInt32
  d : UInt32

def Row.zip (f : UInt32 → UInt32 → UInt32) (x y : Row) : Row :=
  ⟨f x.a y.a, f x.b y.b, f x.c y.c, f x.d y.d⟩

def Row.map (f : UInt32 → UInt32) (x : Row) : Row :=
  ⟨f x.a, f x.b, f x.c, f x.d⟩

def Row.turn (x : Row) : Row :=
  ⟨x.b, x.c, x.d, x.a⟩

def Row.toList (x : Row) : List UInt32 :=
  [x.a, x.b, x.c, x.d]

structure Block where
  first : Row
  second : Row
  third : Row
  fourth : Row

/-- A quarter round on each of the four columns. -/
def Block.mix (x : Block) : Block :=
  let first := x.first.zip (· + ·) x.second
  let fourth := (x.fourth.zip (· ^^^ ·) first).map (rotateLeft · 16)
  let third := x.third.zip (· + ·) fourth
  let second := (x.second.zip (· ^^^ ·) third).map (rotateLeft · 12)
  let first := first.zip (· + ·) second
  let fourth := (fourth.zip (· ^^^ ·) first).map (rotateLeft · 8)
  let third := third.zip (· + ·) fourth
  let second := (second.zip (· ^^^ ·) third).map (rotateLeft · 7)
  ⟨first, second, third, fourth⟩

/-- Turning the rows brings the diagonals into the columns. -/
def Block.slant (x : Block) : Block :=
  ⟨x.first, x.second.turn, x.third.turn.turn, x.fourth.turn.turn.turn⟩

def Block.unslant (x : Block) : Block :=
  ⟨x.first, x.second.turn.turn.turn, x.third.turn.turn, x.fourth.turn⟩

/-- A round on the columns, then one on the diagonals. -/
def Block.doubleRound (x : Block) : Block :=
  x.mix.slant.mix.unslant

def Block.rounds : Nat → Block → Block
  | 0, x => x
  | count + 1, x => Block.rounds count x.doubleRound

/-- Six double rounds, added to what they started from. -/
def Block.scramble (x : Block) : List UInt32 :=
  let y := x.rounds 6
  (y.first.zip (· + ·) x.first).toList ++ (y.second.zip (· + ·) x.second).toList ++
    (y.third.zip (· + ·) x.third).toList ++ (y.fourth.zip (· + ·) x.fourth).toList

/-! ## Drawing -/

/-- A key, the number of the next block and the words not drawn yet. -/
structure Stream where
  low : Row
  high : Row
  counter : UInt64
  pending : List UInt32

def constants : Row := ⟨0x61707865, 0x3320646e, 0x79622d32, 0x6b206574⟩

def Stream.block (s : Stream) : Block :=
  ⟨constants, s.low, s.high, ⟨s.counter.toUInt32, (s.counter >>> 32).toUInt32, 0, 0⟩⟩

def Stream.refill (s : Stream) : Stream :=
  { s with counter := s.counter + 1, pending := s.pending ++ s.block.scramble }

def Stream.ofSeed (seed : UInt64) : Stream :=
  match expand 8 seed with
  | [a, b, c, d, e, f, g, h] => ⟨⟨a, b, c, d⟩, ⟨e, f, g, h⟩, 0, []⟩
  | _ => ⟨⟨0, 0, 0, 0⟩, ⟨0, 0, 0, 0⟩, 0, []⟩

/-- The fifty-three top bits of two words, the first of them the low one, as a
    fraction of one. -/
def unitInterval (low high : UInt32) : Float :=
  let word := low.toUInt64 + (high.toUInt64 <<< 32)
  (word >>> 11).toFloat / 9007199254740992.0

/-- The next draw from `[0, 1)` and the stream after it. -/
def Stream.next (s : Stream) : Float × Stream :=
  match s.pending with
  | low :: high :: rest => (unitInterval low high, { s with pending := rest })
  | _ =>
      let s := s.refill
      match s.pending with
      | low :: high :: rest => (unitInterval low high, { s with pending := rest })
      | _ => (0.0, s)

end StrategyQubo.Random
