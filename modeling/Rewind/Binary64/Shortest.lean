import Rewind.Binary64

namespace Rewind.Binary64

/-- The numbers that round to a finite positive number lie between `low` and `high`, in quarters of
a unit; the ends are among them if the mantissa is even. -/
structure Neighbourhood where
  low : Nat
  middle : Nat
  high : Nat
  closed : Bool

def neighbourhood (mantissa shift : Nat) : Neighbourhood where
  low := 4 * mantissa * Nat.pow 2 shift -
    (if mantissa = Nat.pow 2 52 && 0 < shift then 1 else 2) * Nat.pow 2 shift
  middle := 4 * mantissa * Nat.pow 2 shift
  high := 4 * mantissa * Nat.pow 2 shift + 2 * Nat.pow 2 shift
  closed := mantissa % 2 = 0

/-- Whether `n / d` quarters of a unit lie inside. -/
def Neighbourhood.holds (b : Neighbourhood) (n d : Nat) : Bool :=
  if b.closed then b.low * d ≤ n && n ≤ b.high * d else b.low * d < n && n < b.high * d

/-- The power of ten `10 ^ e`, in quarters of a unit, as a fraction. -/
def tenPower : Int → Nat × Nat
  | .ofNat e => (4 * one * Nat.pow 10 e, 1)
  | .negSucc e => (4 * one, Nat.pow 10 (e + 1))

/-- The multiple of `10 ^ e` inside that is nearest to the middle, as its factor. -/
def Neighbourhood.onGrid? (b : Neighbourhood) (e : Int) : Option Nat :=
  let (n, d) := tenPower e
  let below := b.middle * d / n
  let above := below + 1
  let twice := 2 * (b.middle * d)
  let middle := (below + above) * n
  match b.holds (below * n) d, b.holds (above * n) d with
  | true, true =>
    if twice < middle then some below
    else if middle < twice then some above
    else some (if below % 2 = 0 then below else above)
  | true, false => some below
  | false, true => some above
  | false, false => none

/-- The least `e` in reach with the middle below `10 ^ e`, found by counting up. -/
def Neighbourhood.scale (b : Neighbourhood) : Nat → Int → Int
  | 0, e => e
  | fuel + 1, e =>
    let (n, d) := tenPower e
    if b.middle * d < n then e else b.scale fuel (e + 1)

/-- The coarsest grid of powers of ten that has a point inside, by the number of digits. -/
def Neighbourhood.search (b : Neighbourhood) (scale : Int) : Nat → Nat → Nat × Int
  | 0, digits => (0, scale - digits)
  | fuel + 1, digits =>
    match b.onGrid? (scale - digits) with
    | some n => (n, scale - digits)
    | none => b.search scale fuel (digits + 1)

/-- The fewest decimal digits that read back as the number, of those the nearest: `(n, e)` stands
for `n * 10 ^ e`. -/
def shortest (mantissa shift : Nat) : Nat × Int :=
  if mantissa = 0 then (0, 0)
  else
    let b := neighbourhood mantissa shift
    b.search (b.scale 640 (-324)) 17 1

end Rewind.Binary64
