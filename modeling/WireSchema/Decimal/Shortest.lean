import WireSchema.Binary64

/-! The fewest decimal digits that read back as a given binary64. Of the two neighbours on a
decimal grid that both read back, the nearer is taken. -/
namespace WireSchema

/-- The number `digits * 10 ^ exp`. -/
structure Decimal where
  digits : Nat
  exp : Int
deriving DecidableEq, Repr

/-- Which of two equally near decimals is taken. -/
inductive Tie where
  | up
  | even
deriving DecidableEq, Repr

namespace Decimal

/-- Number of decimal digits of a natural number. -/
def width (n : Nat) : Nat := (Nat.toDigits 10 n).length

/-- The least `k` with `num / den < 10 ^ k`, both positive. -/
def scaleOf (num den : Nat) : Int :=
  if den ≤ num then width (num / den) else 1 - width ((den - 1) / num)

/-- The reals that round to a binary64 in units of a quarter of its last place: its value is
`4 * m`, and the way down is half as long below a power of two. -/
structure Neighbourhood where
  low : Nat
  value : Nat
  high : Nat
  closed : Bool
  /-- The unit is `2 ^ exp`. -/
  exp : Int

/-- The neighbourhood of a finite nonzero number's magnitude. Its ends belong to it when the
significand is even, because ties are read as even. -/
def neighbourhood (x : Binary64) : Neighbourhood :=
  let m := x.significand
  let step := if x.fraction = 0 ∧ 1 < x.exponentField then 1 else 2
  { low := 4 * m - step, value := 4 * m, high := 4 * m + 2, closed := m % 2 = 0
    exp := x.exponent - 2 }

namespace Neighbourhood
variable (i : Neighbourhood) (g : Int)

/-- The unit of the neighbourhood, as a multiple of what it has in common with `10 ^ g`. -/
def unit : Nat := Nat.pow 2 i.exp.toNat * Nat.pow 10 (-g).toNat

/-- The step of the grid of multiples of `10 ^ g`, as a multiple of what it has in common with the
unit. -/
def step : Nat := Nat.pow 10 g.toNat * Nat.pow 2 (-i.exp).toNat

/-- The test for the multiple `d * 10 ^ g`, in whole numbers. -/
def contains (d : Nat) : Bool :=
  if i.closed then i.low * i.unit g ≤ d * i.step g ∧ d * i.step g ≤ i.high * i.unit g
  else i.low * i.unit g < d * i.step g ∧ d * i.step g < i.high * i.unit g

/-- The value on the grid, rounded down. -/
def gridFloor : Nat := i.value * i.unit g / i.step g

end Neighbourhood

/-- The nearest hit on the grid of multiples of `10 ^ g`, if one of the two neighbours of the
value reads back. -/
def onGrid (tie : Tie) (i : Neighbourhood) (g : Int) : Option Nat :=
  let d := i.gridFloor g
  let below := i.value * i.unit g - d * i.step g
  let above := (d + 1) * i.step g - i.value * i.unit g
  match i.contains g d, i.contains g (d + 1) with
  | true, false => some d
  | false, true => some (d + 1)
  | false, false => none
  | true, true =>
    if below < above then some d
    else if above < below then some (d + 1)
    else match tie with
      | .up => some (d + 1)
      | .even => some (if d % 2 = 0 then d else d + 1)

/-- Drops trailing zeros, at most `n` of them. -/
def trimZeros : Nat → Decimal → Decimal
  | 0, d => d
  | n + 1, d => if d.digits % 10 = 0 then trimZeros n ⟨d.digits / 10, d.exp + 1⟩ else d

/-- Tries grids of growing fineness, from `k - n` digits down; 17 digits always suffice. -/
def firstHit (tie : Tie) (i : Neighbourhood) (k : Int) : List Nat → Decimal
  | [] => ⟨0, 0⟩
  | n :: ns =>
    match onGrid tie i (k - n) with
    | some d => trimZeros 17 ⟨d, k - n⟩
    | none => firstHit tie i k ns

/-- The shortest decimal that reads back as the magnitude of a finite number. -/
def shortest (tie : Tie) (x : Binary64) : Decimal :=
  if x.significand = 0 then ⟨0, 0⟩
  else
    let i := neighbourhood x
    let k := scaleOf (i.value * Nat.pow 2 i.exp.toNat) (Nat.pow 2 (-i.exp).toNat)
    firstHit tie i k ((List.range 17).map (· + 1))

end Decimal
end WireSchema
